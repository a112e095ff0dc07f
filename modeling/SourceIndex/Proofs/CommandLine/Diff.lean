import SourceIndex.CommandLine.Run
import SourceIndex.Proofs.HashTree.Faults
import SourceIndex.Proofs.Text.Encoding
/-!
# Comparing two files

Whatever two files hold, comparing them prints the changes if both hold a tree, and else ends with
the code for a failure, a message and nothing printed. It breaks off instead where the first file
that holds no tree is nested too deeply, or fails gravely to be one.
-/

namespace SourceIndex.CommandLine
variable {γ : Type} {d : Disk} {old new path : String}

/-! ### Files without a tree -/

/-- Comparing breaks off at what a file holds. -/
inductive BreaksDiff (d : Disk) (path : String) : Prop
  | tooDeep (text : String)
    (content : d.readAll (Path.ofText path) = .ok (Text.Utf8.encode text))
    (deep : Json.read text = .error .tooDeep)
  | grave (text : String) (fields : Entries Json) (fault : Json.DecodeFault)
    (content : d.readAll (Path.ofText path) = .ok (Text.Utf8.encode text))
    (object : Json.read text = .ok (.object fields))
    (fails : HashTree.ofFields fields = .error fault)
    (grave : fault.isMild = false)

def breaksDiff (d : Disk) (path : String) : Bool :=
  match HashTree.load d (Path.ofText path) with
  | .ok _ => false
  | .error e => !isDiffFailure e.ground

theorem isDiffFailure_of_readAll {p : Path} {e : FileError} (failed : d.readAll p = .error e) :
    isDiffFailure (.ofFileError e) = true := by
  unfold Disk.readAll at failed
  split at failed
  · rename_i e' looked
    obtain rfl := Except.error.inj failed
    unfold Disk.lookUp at looked
    split at looked
    · exact Except.error.inj looked ▸ rfl
    · split at looked
      · exact Except.error.inj looked ▸ rfl
      · exact Except.error.inj looked ▸ rfl
      · cases looked
  · cases failed
  · exact Except.error.inj failed ▸ rfl
  · cases failed

theorem isDiffFailure_ofDecodeFault (fault : Json.DecodeFault) :
    isDiffFailure (.ofDecodeFault fault) = fault.isMild := by
  cases fault <;> rfl

theorem load_of_text {p : Path} {text : String}
    (content : d.readAll p = .ok (Text.Utf8.encode text)) :
    HashTree.load d p = match Json.read text with
      | .error fault => .error (.document (.content fault))
      | .ok (.object fields) => (HashTree.ofFields fields).mapError .decode
      | .ok _ => .error (.notAnObject p.text) := by
  unfold HashTree.load Disk.readDocument
  simp only [content, Text.Utf8.decode_encode]
  cases Json.read text with
  | error fault => rfl
  | ok value => cases value <;> rfl

theorem breaksDiff_iff : breaksDiff d path = true ↔ BreaksDiff d path := by
  constructor
  · intro stops
    unfold breaksDiff at stops
    cases content : d.readAll (Path.ofText path) with
    | error e =>
      have caught := isDiffFailure_of_readAll content
      simp [HashTree.load, Disk.readDocument, content, TreeFileError.ground,
        Ground.ofDocumentError, caught] at stops
    | ok data =>
      cases decoded : Text.Utf8.decode data with
      | error e =>
        simp [HashTree.load, Disk.readDocument, content, decoded, TreeFileError.ground,
          Ground.ofDocumentError, isDiffFailure] at stops
      | ok text =>
        obtain rfl := Text.Utf8.decode_eq_ok_iff.mp decoded
        rw [load_of_text content] at stops
        cases read : Json.read text with
        | error fault =>
          rw [read] at stops
          cases fault with
          | tooDeep => exact .tooDeep text content read
          | _ => cases stops
        | ok value =>
          rw [read] at stops
          cases value with
          | object fields =>
            simp only at stops
            cases decodes : HashTree.ofFields fields with
            | ok tree =>
              rw [decodes] at stops
              cases stops
            | error fault =>
              rw [decodes] at stops
              have uncaught : (!isDiffFailure (.ofDecodeFault fault)) = true := stops
              refine .grave text fields fault content read decodes ?_
              rw [← isDiffFailure_ofDecodeFault]
              simpa using uncaught
          | _ => cases stops
  · rintro (⟨text, content, deep⟩ | ⟨text, fields, fault, content, object, fails, grave⟩)
    · unfold breaksDiff
      rw [load_of_text content, deep]
      rfl
    · rw [← isDiffFailure_ofDecodeFault] at grave
      unfold breaksDiff
      rw [load_of_text content, object]
      simp [fails, Except.mapError, TreeFileError.ground, grave]

instance (d : Disk) (path : String) : Decidable (BreaksDiff d path) :=
  decidable_of_iff _ breaksDiff_iff

/-- A file holds no values of a wrong kind: it is not nested too deeply, and if it holds an object,
the values of that have the kinds of a tree. -/
def HasTreeKinds (d : Disk) (path : String) : Prop :=
  ∀ text, d.readAll (Path.ofText path) = .ok (Text.Utf8.encode text) →
    Json.read text ≠ .error .tooDeep ∧
      ∀ fields, Json.read text = .ok (.object fields) → HashTree.HasKinds fields

theorem HasTreeKinds.not_breaksDiff (kinds : HasTreeKinds d path) : ¬ BreaksDiff d path := by
  rintro (⟨text, content, deep⟩ | ⟨text, fields, fault, content, object, fails, grave⟩)
  · exact (kinds text content).1 deep
  · have mild := HashTree.failsMildly_ofFields ((kinds text content).2 fields object) fault fails
    rw [grave] at mild
    cases mild

/-! ### Comparing -/

/-- The file that comparing fails on: the first one that holds no tree. -/
def Spoils (d : Disk) (old new path : String) : Prop :=
  path = old ∧ (∃ e, HashTree.load d (Path.ofText old) = .error e) ∨
    path = new ∧ (∃ before, HashTree.load d (Path.ofText old) = .ok before) ∧
      ∃ e, HashTree.load d (Path.ofText new) = .error e

theorem diffFiles_of_spoils (spoils : Spoils d old new path) :
    ∃ e, diffFiles d old new = .error e ∧ HashTree.load d (Path.ofText path) = .error e := by
  rcases spoils with ⟨rfl, e, failed⟩ | ⟨rfl, ⟨before, first⟩, e, failed⟩
  · refine ⟨e, ?_, failed⟩
    unfold diffFiles
    rw [failed]
  · refine ⟨e, ?_, failed⟩
    unfold diffFiles
    rw [first, failed]
    rfl

theorem runDiff_of_spoils {w : World γ} (spoils : Spoils w.disk old new path) :
    if BreaksDiff w.disk path then ∃ e, runDiff old new w = (.error e, w)
    else ∃ message, runDiff old new w =
      (.ok ⟨failure, ""⟩, w.note (.failure ("Cannot diff trees: " ++ message))) := by
  obtain ⟨e, result, failed⟩ := diffFiles_of_spoils spoils
  have breaks : BreaksDiff w.disk path ↔ isDiffFailure e.ground = false := by
    rw [← breaksDiff_iff]
    unfold breaksDiff
    simp [failed]
  unfold runDiff
  rw [result]
  by_cases caught : isDiffFailure e.ground = true
  · rw [if_neg (by simp [breaks, caught])]
    simp only [caught, if_true]
    exact ⟨_, rfl⟩
  · rw [Bool.not_eq_true] at caught
    rw [if_pos (breaks.mpr caught)]
    simp only [caught, Bool.false_eq_true, if_false]
    exact ⟨_, rfl⟩

theorem ofWords_diff (isValue : Word.ofText old = .value old)
    (isValue' : Word.ofText new = .value new) :
    Request.ofWords ["--diff", old, new] = .run { diff := some (old, new) } := by
  have away {s : String} (is : Word.ofText s = .value s) : s ≠ "--" := by
    rintro rfl
    exact absurd is (by decide +kernel)
  have first : Word.ofText "--diff" = .switch .diff none := by decide +kernel
  have noDashes : ∀ word ∈ ["--diff", old, new], word ≠ "--" := by
    simp [away isValue, away isValue']
  have words : ["--diff", old, new].takeWhile (· ≠ "--") = ["--diff", old, new] :=
    List.takeWhile_eq_self_iff.mpr fun word member => decide_eq_true (noDashes word member)
  have stray : ["--diff", old, new].contains "--" = false := by
    simpa using fun same : "--" ∈ ["--diff", old, new] => noDashes "--" same rfl
  unfold Request.ofWords
  simp only [words, stray, List.map_cons, List.map_nil, first, isValue, isValue']
  rfl

/-- Comparing the trees in two files that a command line names, whatever the files hold. If both
hold trees, the changes are printed. If one does not, the command ends with the code for a failure
and a message and prints nothing, just if it does not break off at the first such file; and it
breaks off at no file in which all values have the right kinds. The disk stays as it is. -/
theorem diff_ends_iff (isValue : Word.ofText old = .value old)
    (isValue' : Word.ofText new = .value new) (grammars : Grammars γ) (now : Moment) (w : World γ) :
    ∃ a, Request.ofWords ["--diff", old, new] = .run a ∧
      (∀ before after, HashTree.load w.disk (Path.ofText old) = .ok before →
        HashTree.load w.disk (Path.ofText new) = .ok after →
        run a grammars now w = (.ok ⟨success,
          (changesDocument (HashTree.diff before after)).indented ++ "\n"⟩, w)) ∧
      (∀ path, Spoils w.disk old new path →
        ((∃ message, run a grammars now w =
            (.ok ⟨failure, ""⟩, w.note (.failure ("Cannot diff trees: " ++ message)))) ↔
          ¬ BreaksDiff w.disk path) ∧
        (BreaksDiff w.disk path ↔ ∃ e, run a grammars now w = (.error e, w))) ∧
      ((∃ before, HashTree.load w.disk (Path.ofText old) = .ok before) ∧
        (∃ after, HashTree.load w.disk (Path.ofText new) = .ok after) ∨
          ∃ path, Spoils w.disk old new path) ∧
      ∀ path, HasTreeKinds w.disk path → ¬ BreaksDiff w.disk path := by
  have runs : run { diff := some (old, new) } grammars now w = runDiff old new w := rfl
  refine ⟨_, ofWords_diff isValue isValue', fun before after first second => ?_,
    fun path spoils => ?_, ?_, fun path kinds => kinds.not_breaksDiff⟩
  · have result : diffFiles w.disk old new = .ok (HashTree.diff before after) := by
      unfold diffFiles
      rw [first, second]
      rfl
    rw [runs]
    unfold runDiff
    rw [result]
    rfl
  · have outcome := runDiff_of_spoils spoils
    rw [runs]
    by_cases breaks : BreaksDiff w.disk path
    · rw [if_pos breaks] at outcome
      obtain ⟨e, broke⟩ := outcome
      refine ⟨iff_of_false ?_ (not_not.mpr breaks), iff_of_true breaks ⟨e, broke⟩⟩
      rintro ⟨message, told⟩
      rw [broke] at told
      cases told
    · rw [if_neg breaks] at outcome
      obtain ⟨message, told⟩ := outcome
      refine ⟨iff_of_true ⟨message, told⟩ breaks, iff_of_false breaks ?_⟩
      rintro ⟨e, broke⟩
      rw [told] at broke
      cases broke
  · cases first : HashTree.load w.disk (Path.ofText old) with
    | error e => exact .inr ⟨old, .inl ⟨rfl, e, first⟩⟩
    | ok before =>
      cases second : HashTree.load w.disk (Path.ofText new) with
      | error e => exact .inr ⟨new, .inr ⟨rfl, ⟨before, first⟩, e, second⟩⟩
      | ok after => exact .inl ⟨⟨before, rfl⟩, ⟨after, rfl⟩⟩

def treeText (timestamp : String) : String :=
  "\x7b\"root\":\x7b\"hash\":0,\"timestamp\":" ++ timestamp ++ ",\"file_count\":0\x7d," ++
    "\"files\":\x7b\x7d,\"directories\":\x7b\x7d," ++
    "\"metadata\":\x7b\"version\":2,\"created_at\":0,\"workspace\":0\x7d\x7d"

/-- A world with a tree, and with an object that has no time where a tree has one. -/
def treesWorld : World Unit where
  disk :=
    { items :=
        [(["tree"], .file (Text.Utf8.encode (treeText "0")) 1),
         (["timeless"], .file (Text.Utf8.encode (treeText "null")) 1)] }
  session := ⟨(), [], []⟩

/-- Trees are compared, and that a file is missing is told, but not what there is for a time. -/
theorem diff_ends_iff_timeless : ∃ same gone timeless,
    Request.ofWords ["--diff", "tree", "tree"] = .run same ∧
    Request.ofWords ["--diff", "gone", "timeless"] = .run gone ∧
    Request.ofWords ["--diff", "tree", "timeless"] = .run timeless ∧
    (∃ changes, run same Grammars.absent ⟨0⟩ treesWorld =
      (.ok ⟨success, (changesDocument changes).indented ++ "\n"⟩, treesWorld)) ∧
    (∃ message, run gone Grammars.absent ⟨0⟩ treesWorld =
      (.ok ⟨failure, ""⟩, treesWorld.note (.failure ("Cannot diff trees: " ++ message)))) ∧
    ∃ e, run timeless Grammars.absent ⟨0⟩ treesWorld = (.error e, treesWorld) := by
  have tree : Word.ofText "tree" = .value "tree" := by decide +kernel
  have gone : Word.ofText "gone" = .value "gone" := by decide +kernel
  have timeless : Word.ofText "timeless" = .value "timeless" := by decide +kernel
  obtain ⟨a, isA, compares, -⟩ := diff_ends_iff tree tree Grammars.absent ⟨0⟩ treesWorld
  obtain ⟨b, isB, -, tells, -⟩ := diff_ends_iff gone timeless Grammars.absent ⟨0⟩ treesWorld
  obtain ⟨c, isC, -, breaks, -⟩ := diff_ends_iff tree timeless Grammars.absent ⟨0⟩ treesWorld
  refine ⟨a, b, c, isA, isB, isC, ?_⟩
  have loads : (HashTree.load treesWorld.disk (Path.ofText "tree")).isOk = true := by
    decide +kernel
  have absent : (HashTree.load treesWorld.disk (Path.ofText "gone")).isOk = false := by
    decide +kernel
  have null : BreaksDiff treesWorld.disk "timeless" := by decide +kernel
  cases first : HashTree.load treesWorld.disk (Path.ofText "tree") with
  | error e =>
    rw [first] at loads
    cases loads
  | ok before =>
    refine ⟨⟨_, compares before before first first⟩, ?_, ?_⟩
    · cases missing : HashTree.load treesWorld.disk (Path.ofText "gone") with
      | ok other =>
        rw [missing] at absent
        cases absent
      | error e => exact (tells "gone" (.inl ⟨rfl, e, missing⟩)).1.mpr (by decide +kernel)
    · have fails := breaksDiff_iff.mpr null
      unfold breaksDiff at fails
      split at fails
      · cases fails
      · rename_i e second
        exact (breaks "timeless" (.inr ⟨rfl, ⟨before, first⟩, e, second⟩)).2.mp null

end SourceIndex.CommandLine
