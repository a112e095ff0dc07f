import SourceIndex.Proofs.Entries
import SourceIndex.Proofs.Json.Tokens
/-!
# Documents are read back

A document on one line is read back as it was written, with the fields of every object in the order
of their keys. That holds of documents without floating-point numbers whose objects hold every key
once and whose values are not nested too deeply, if no integer is too long to be written.
-/

namespace SourceIndex.Json

/-! ### Documents that are read back -/

mutual

/-- A value as it is read back: the fields of every object are in the order of their keys. -/
def stored : Json → Json
  | .null => .null
  | .bool b => .bool b
  | .number n => .number n
  | .text s => .text s
  | .list items => .list (storedItems items)
  | .object fields => .object (Entries.sort (storedFields fields))

def storedItems : List Json → List Json
  | [] => []
  | item :: items => stored item :: storedItems items

def storedFields : List (String × Json) → Entries Json
  | [] => []
  | (key, value) :: fields => (key, stored value) :: storedFields fields

end

/-- A value without floating-point numbers, with every key once in each object, and with lists and
objects at most `depth` deep in each other. -/
inductive Storable : Nat → Json → Prop
  | null (depth : Nat) : Storable depth .null
  | bool (depth : Nat) (b : Bool) : Storable depth (.bool b)
  | whole (depth : Nat) (n : Int) : Storable depth (.number (.whole n))
  | text (depth : Nat) (s : String) : Storable depth (.text s)
  | list {depth : Nat} {items : List Json} (each : ∀ item ∈ items, Storable depth item) :
    Storable (depth + 1) (.list items)
  | object {depth : Nat} {fields : List (String × Json)}
    (distinct : (Entries.keys fields).Nodup)
    (each : ∀ field ∈ fields, Storable depth field.2) : Storable (depth + 1) (.object fields)

theorem Storable.mono {depth more : Nat} {value : Json} (storable : Storable depth value)
    (le : depth ≤ more) : Storable more value := by
  induction storable generalizing more with
  | null depth => exact .null more
  | bool depth b => exact .bool more b
  | whole depth n => exact .whole more n
  | text depth s => exact .text more s
  | list each ih =>
    cases more with
    | zero => omega
    | succ more => exact .list fun item member => ih item member (by omega)
  | object distinct each ih =>
    cases more with
    | zero => omega
    | succ more => exact .object distinct fun field member => ih field member (by omega)

theorem areWritable_iff {items : List Json} :
    areWritable items = true ↔ ∀ item ∈ items, isWritable item = true := by
  induction items with
  | nil => simp [areWritable]
  | cons item items ih => rw [areWritable, Bool.and_eq_true, ih, List.forall_mem_cons]

theorem areFieldsWritable_iff {fields : List (String × Json)} :
    areFieldsWritable fields = true ↔ ∀ field ∈ fields, isWritable field.2 = true := by
  induction fields with
  | nil => simp [areFieldsWritable]
  | cons field fields ih =>
    obtain ⟨key, value⟩ := field
    rw [areFieldsWritable, Bool.and_eq_true, ih, List.forall_mem_cons]

theorem storedItems_eq_map (items : List Json) : storedItems items = items.map stored := by
  induction items with
  | nil => rfl
  | cons item items ih => rw [storedItems, List.map_cons, ih]

theorem storedFields_eq_mapValues (fields : List (String × Json)) :
    storedFields fields = Entries.mapValues stored fields := by
  induction fields with
  | nil => rfl
  | cons field fields ih =>
    obtain ⟨key, value⟩ := field
    rw [storedFields, ih]
    rfl

theorem writeItems_eq_map (layout : Layout) (level : Nat) (items : List Json) :
    writeItems layout level items = items.map (writeValue layout level) := by
  induction items with
  | nil => rfl
  | cons item items ih => rw [writeItems, List.map_cons, ih]

theorem writeFields_eq_mapValues (layout : Layout) (level : Nat) (fields : List (String × Json)) :
    writeFields layout level fields = Entries.mapValues (writeValue layout level) fields := by
  induction fields with
  | nil => rfl
  | cons field fields ih =>
    obtain ⟨key, value⟩ := field
    rw [writeFields, ih]
    rfl

def storedObject (fields : List (String × Json)) : Entries Json :=
  Entries.sort (storedFields fields)

theorem stored_object (fields : List (String × Json)) :
    stored (.object fields) = .object (storedObject fields) := rfl

theorem stored_object_congr {first second : List (String × Json)}
    (same : storedFields first = storedFields second) :
    stored (.object first) = stored (.object second) :=
  congrArg (fun fields => Json.object (Entries.sort fields)) same

theorem storedObject_eq (fields : List (String × Json)) :
    storedObject fields = Entries.mapValues stored (Entries.sort fields) := by
  rw [storedObject, storedFields_eq_mapValues, Entries.sort_mapValues]

theorem get?_storedObject {fields : List (String × Json)}
    (distinct : (Entries.keys fields).Nodup) (key : String) :
    Entries.get? key (storedObject fields) = (Entries.get? key fields).map stored := by
  rw [storedObject_eq, Entries.get?_mapValues, Entries.get?_sort distinct]

/-! ### How values start -/

/-- A character that the written form of a value may start with. -/
def StartsValue (c : Char) : Prop := isSpace c = false ∧ c ≠ ']' ∧ c ≠ '}'

instance (c : Char) : Decidable (StartsValue c) := inferInstanceAs (Decidable (_ ∧ _))

theorem startsValue_of_isDigit {c : Char} (digit : isDigit c = true) : StartsValue c := by
  have range : 48 ≤ c.toNat ∧ c.toNat ≤ 57 := by
    simp only [isDigit, Bool.and_eq_true, decide_eq_true_eq] at digit
    exact ⟨digit.1, digit.2⟩
  have differs (other : Char) (out : other.toNat < 48 ∨ 57 < other.toNat) : c ≠ other := by
    rintro rfl
    omega
  refine ⟨?_, differs _ (by decide), differs _ (by decide)⟩
  simp [isSpace, differs ' ' (by decide), differs '\t' (by decide), differs '\n' (by decide),
    differs '\r' (by decide)]

theorem startsValue_writeValue (level : Nat) (value : Json)
    (whole : ∀ x, value ≠ .number (.real x)) :
    ∃ c cs, writeValue .line level value = c :: cs ∧ StartsValue c := by
  cases value with
  | null => exact ⟨_, _, rfl, by decide⟩
  | bool b => cases b <;> exact ⟨_, _, rfl, by decide⟩
  | number n =>
    cases n with
    | real x => exact absurd rfl (whole x)
    | whole n =>
      rw [writeValue, writeNumber_whole]
      split
      · cases split : Nat.toDigits 10 n.natAbs with
        | nil => exact absurd split Nat.toDigits_ne_nil
        | cons d ds =>
          refine ⟨d, ds, rfl, startsValue_of_isDigit (isDigit_of_mem_toDigits (n := n.natAbs) ?_)⟩
          rw [split]
          exact List.mem_cons_self ..
      · exact ⟨_, _, rfl, by decide⟩
  | text s => exact ⟨_, _, rfl, by decide⟩
  | list items =>
    rw [writeValue, enclose]
    split
    · exact ⟨_, _, rfl, by decide⟩
    · exact ⟨_, _, rfl, by decide⟩
  | object fields =>
    rw [writeValue, enclose]
    split
    · exact ⟨_, _, rfl, by decide⟩
    · exact ⟨_, _, rfl, by decide⟩

theorem Storable.not_real {depth : Nat} {value : Json} (storable : Storable depth value)
    (x : Binary64) : value ≠ .number (.real x) := by
  rintro rfl
  cases storable

theorem skipSpace_cons {c : Char} {cs : List Char} (start : isSpace c = false) :
    skipSpace (c :: cs) = c :: cs := by
  unfold skipSpace
  rw [List.dropWhile_cons_of_neg (by simp [start])]

/-! ### Reading single values -/

theorem readValue_digit (fuel depth : Nat) {c : Char} (digit : isDigit c = true)
    (cs : List Char) :
    readValue fuel depth (c :: cs) =
      (readNumber false (c :: cs)).map fun (n, rest) => (.number n, rest) := by
  unfold readValue
  split
  all_goals first
    | rfl
    | (rename_i same; cases same <;> cases digit)

theorem readValue_minus (fuel depth : Nat) {c : Char} (digit : isDigit c = true)
    (cs : List Char) :
    readValue fuel depth ('-' :: c :: cs) =
      (readNumber true (c :: cs)).map fun (n, rest) => (.number n, rest) := by
  unfold readValue
  split
  case h_9 => rename_i same; cases same; rfl
  case h_8 => rename_i same; cases same; cases digit
  all_goals first
    | (rename_i same; cases same)
    | (rename_i notMinus _ _; exact absurd rfl (notMinus _))

theorem readValue_whole (fuel depth : Nat) {n : Int} (short : isShort n = true)
    {rest : List Char} (ends : Ends rest) :
    readValue fuel depth (writeNumber (.whole n) ++ rest) = .ok (.number (.whole n), rest) := by
  have few : (Nat.toDigits 10 n.natAbs).length ≤ Integer.maxDigits := of_decide_eq_true short
  have read (negative : Bool) := readNumber_toDigits negative few ends
  rw [writeNumber_whole]
  cases split : Nat.toDigits 10 n.natAbs with
  | nil => exact absurd split Nat.toDigits_ne_nil
  | cons d ds =>
    have digit : isDigit d = true := isDigit_of_mem_toDigits (n := n.natAbs) (by simp [split])
    rw [split, List.cons_append] at read
    by_cases sign : 0 ≤ n
    · have same : (n.natAbs : Int) = n := by omega
      rw [if_pos sign, List.cons_append, readValue_digit fuel depth digit, read false]
      simp only [Except.map, Bool.false_eq_true, if_false, same]
    · have same : -(n.natAbs : Int) = n := by omega
      rw [if_neg sign, List.cons_append, List.cons_append, readValue_minus fuel depth digit,
        read true]
      simp only [Except.map, if_true, same]

theorem length_writeText (s : String) :
    (writeText s).length = (s.toList.flatMap writeChar).length + 2 := by
  simp [writeText]

theorem readText_writeText {s : String} {fuel : Nat} (enough : (writeText s).length ≤ fuel)
    (rest : List Char) :
    readText [] fuel (s.toList.flatMap writeChar ++ '"' :: rest) = .ok (s.toList, rest) := by
  rw [length_writeText] at enough
  rw [readText_flatMap_writeChar _ _ (by omega)]
  rfl

theorem writeText_append (s : String) (rest : List Char) :
    writeText s ++ rest = '"' :: (s.toList.flatMap writeChar ++ '"' :: rest) := by
  simp [writeText]

/-! ### Reading lists and objects -/

/-- A reader of values that reads a value back, whatever follows. -/
def ReadsBack (read : List Char → Reading Json) (written : List Char) (value : Json) : Prop :=
  ∀ rest, Ends rest → read (written ++ rest) = .ok (value, rest)

theorem ends_comma (rest : List Char) : Ends (',' :: rest) := ends_cons (by decide)

theorem ends_bracket (rest : List Char) : Ends (']' :: rest) := ends_cons (by decide)

theorem ends_brace (rest : List Char) : Ends ('}' :: rest) := ends_cons (by decide)

theorem exists_intercalate_eq_cons {part : List Char} {c : Char} {cs : List Char}
    (begins : part = c :: cs) (parts : List (List Char)) :
    ∃ more, List.intercalate [',', ' '] (part :: parts) = c :: more := by
  cases parts with
  | nil => exact ⟨cs, by rw [List.intercalate_singleton, begins]⟩
  | cons next parts =>
    refine ⟨cs ++ [',', ' '] ++ List.intercalate [',', ' '] (next :: parts), ?_⟩
    rw [List.intercalate_cons_cons, begins]
    rfl

theorem readItems_intercalate (read : List Char → Reading Json) {write : Json → List Char}
    {items : List Json} (nonempty : items ≠ [])
    (each : ∀ item ∈ items, ReadsBack read (write item) (stored item))
    (starts : ∀ item ∈ items, ∃ c cs, write item = c :: cs ∧ StartsValue c) (fuel : Nat)
    (enough : items.length ≤ fuel) (done : List Json) (rest : List Char) :
    readItems read fuel done (List.intercalate [',', ' '] (items.map write) ++ ']' :: rest) =
      .ok (done.reverse ++ items.map stored, rest) := by
  induction items generalizing fuel done with
  | nil => exact absurd rfl nonempty
  | cons item others ih =>
    have readsBack := each item (List.mem_cons_self ..)
    cases fuel with
    | zero => simp at enough
    | succ fuel =>
      cases others with
      | nil =>
        have step := readsBack (']' :: rest) (ends_bracket rest)
        simp only [List.map_cons, List.map_nil, List.intercalate_singleton]
        unfold readItems
        simp only [step, skipSpace_cons (show isSpace ']' = false by decide)]
        simp
      | cons next others =>
        obtain ⟨c, cs, same, space, -⟩ := starts next (by simp)
        have later := ih (by simp) (fun item member => each item (List.mem_cons_of_mem _ member))
          (fun item member => starts item (List.mem_cons_of_mem _ member)) fuel
          (by simpa using enough) (stored item :: done)
        have goesOn : List.intercalate [',', ' '] (write item :: write next :: others.map write) =
            write item ++ [',', ' '] ++
              List.intercalate [',', ' '] (write next :: others.map write) :=
          List.intercalate_cons_cons
        obtain ⟨more, head⟩ := exists_intercalate_eq_cons same (others.map write)
        simp only [List.map_cons] at later ⊢
        rw [goesOn, List.append_assoc, List.append_assoc]
        unfold readItems
        rw [readsBack _ (by exact ends_comma _)]
        simp only [List.cons_append, List.nil_append,
          skipSpace_cons (show isSpace ',' = false by decide)]
        rw [head, List.cons_append] at later ⊢
        have skip : skipSpace (' ' :: c :: (more ++ ']' :: rest)) = c :: (more ++ ']' :: rest) := by
          show skipSpace (c :: (more ++ ']' :: rest)) = _
          exact skipSpace_cons space
        rw [skip, later]
        simp

def writeField (write : Json → List Char) (field : String × Json) : List Char :=
  writeText field.1 ++ ':' :: ' ' :: write field.2

theorem writeField_eq (write : Json → List Char) (field : String × Json) :
    writeField write field =
      '"' :: (field.1.toList.flatMap writeChar ++ '"' :: ':' :: ' ' :: write field.2) := by
  simp [writeField, writeText]

theorem writeField_append (write : Json → List Char) (field : String × Json)
    (rest : List Char) :
    writeField write field ++ rest =
      '"' :: (field.1.toList.flatMap writeChar ++ '"' :: ':' :: ' ' :: (write field.2 ++ rest)) := by
  simp [writeField, writeText]

theorem readFields_writeField {read : List Char → Reading Json} {write : Json → List Char}
    {field : String × Json} (readsBack : ReadsBack read (write field.2) (stored field.2))
    (starts : ∃ c cs, write field.2 = c :: cs ∧ StartsValue c) {fuel : Nat}
    (enough : (writeField write field).length ≤ fuel) (done : List (String × Json))
    {rest : List Char} (ends : Ends rest) :
    readFields read (fuel + 1) done (writeField write field ++ rest) =
      match skipSpace rest with
      | ',' :: more => readFields read fuel ((field.1, stored field.2) :: done) (skipSpace more)
      | '}' :: more => .ok (((field.1, stored field.2) :: done).reverse, more)
      | _ => .error .malformed := by
  obtain ⟨c, cs, same, space, -⟩ := starts
  have short : (writeText field.1).length ≤ fuel + 1 := by
    simp only [writeField, List.length_append] at enough
    omega
  have skip : skipSpace (' ' :: (write field.2 ++ rest)) = write field.2 ++ rest := by
    show skipSpace (write field.2 ++ rest) = _
    rw [same, List.cons_append, skipSpace_cons space]
  rw [writeField_append, readFields]
  simp only [readText_writeText short, skipSpace_cons (show isSpace ':' = false by decide), skip,
    readsBack rest ends, String.ofList_toList]
  all_goals rfl

theorem readFields_intercalate (read : List Char → Reading Json) {write : Json → List Char}
    (fields : List (String × Json)) (nonempty : fields ≠ [])
    (each : ∀ field ∈ fields, ReadsBack read (write field.2) (stored field.2))
    (starts : ∀ field ∈ fields, ∃ c cs, write field.2 = c :: cs ∧ StartsValue c) (fuel : Nat)
    (enough : (List.intercalate [',', ' '] (fields.map (writeField write))).length < fuel)
    (done : List (String × Json)) (rest : List Char) :
    readFields read fuel done
        (List.intercalate [',', ' '] (fields.map (writeField write)) ++ '}' :: rest) =
      .ok (done.reverse ++ Entries.mapValues stored fields, rest) := by
  induction fields generalizing fuel done with
  | nil => exact absurd rfl nonempty
  | cons field others ih =>
    have readsBack := each field (List.mem_cons_self ..)
    have begins := starts field (List.mem_cons_self ..)
    cases fuel with
    | zero => omega
    | succ fuel =>
      cases others with
      | nil =>
        simp only [List.map_cons, List.map_nil, List.intercalate_singleton] at enough ⊢
        rw [readFields_writeField readsBack begins (by omega) done (ends_brace rest),
          skipSpace_cons (by decide)]
        simp [Entries.mapValues]
      | cons next others =>
        have goesOn : List.intercalate [',', ' ']
              (writeField write field :: writeField write next :: others.map (writeField write)) =
            writeField write field ++ [',', ' '] ++ List.intercalate [',', ' ']
              (writeField write next :: others.map (writeField write)) :=
          List.intercalate_cons_cons
        obtain ⟨more, head⟩ :=
          exists_intercalate_eq_cons (writeField_eq write next) (others.map (writeField write))
        simp only [List.map_cons] at enough ⊢
        rw [goesOn] at enough ⊢
        simp only [List.length_append, List.length_cons, List.length_nil] at enough
        have later := ih (by simp) (fun item member => each item (List.mem_cons_of_mem _ member))
          (fun item member => starts item (List.mem_cons_of_mem _ member)) fuel
          (by simp only [List.map_cons]; omega) ((field.1, stored field.2) :: done)
        simp only [List.map_cons] at later
        rw [List.append_assoc, List.append_assoc, List.cons_append,
          readFields_writeField readsBack begins (by omega) done (ends_comma _),
          skipSpace_cons (by decide)]
        simp only [List.cons_append, List.nil_append]
        rw [head, List.cons_append] at later ⊢
        have skip : skipSpace (' ' :: '"' :: (more ++ '}' :: rest)) =
            '"' :: (more ++ '}' :: rest) := by
          show skipSpace ('"' :: (more ++ '}' :: rest)) = _
          exact skipSpace_cons (by decide)
        rw [skip, later]
        simp [Entries.mapValues]

/-! ### Reading values -/

theorem writeValue_list (level : Nat) (items : List Json) :
    writeValue .line level (.list items) =
      '[' :: (List.intercalate [',', ' '] (items.map (writeValue .line (level + 1))) ++ [']']) := by
  rw [writeValue, enclose, writeItems_eq_map]
  cases items with
  | nil => rfl
  | cons item items => simp [Layout.lead, Layout.gap]

theorem writeValue_object (level : Nat) (fields : List (String × Json)) :
    writeValue .line level (.object fields) =
      '{' :: (List.intercalate [',', ' ']
        ((Entries.sort fields).map (writeField (writeValue .line (level + 1)))) ++ ['}']) := by
  rw [writeValue, enclose, writeFields_eq_mapValues, Entries.sort_mapValues, Entries.mapValues,
    List.map_map]
  cases empty : Entries.sort fields with
  | nil => rfl
  | cons field others =>
    have same : writeField (writeValue .line (level + 1)) = fun field =>
        writeText field.1 ++ ':' :: ' ' :: writeValue .line (level + 1) field.2 := rfl
    simp [Layout.lead, Layout.gap, Function.comp_def, same]

theorem length_le_length_intercalate (parts : List (List Char))
    (nonempty : ∀ part ∈ parts, part ≠ []) :
    parts.length ≤ (List.intercalate [',', ' '] parts).length := by
  induction parts with
  | nil => simp
  | cons part others ih =>
    have first : 0 < part.length :=
      List.length_pos_iff.mpr (nonempty part (List.mem_cons_self ..))
    have later := ih fun part member => nonempty part (List.mem_cons_of_mem _ member)
    cases others with
    | nil =>
      rw [List.intercalate_singleton]
      exact first
    | cons next others =>
      rw [List.intercalate_cons_cons]
      simp only [List.length_append, List.length_cons] at later ⊢
      omega

theorem length_le_length_intercalate_of_mem {part : List Char} {parts : List (List Char)}
    (member : part ∈ parts) : part.length ≤ (List.intercalate [',', ' '] parts).length := by
  induction parts with
  | nil => simp at member
  | cons first others ih =>
    cases others with
    | nil =>
      rw [List.mem_singleton.mp member]
      simp
    | cons next others =>
      rw [List.intercalate_cons_cons]
      simp only [List.length_append]
      rcases List.mem_cons.mp member with here | later
      · subst here
        omega
      · have le := ih later
        omega

section
variable {fuel depth level : Nat}

theorem readsBack_list {items : List Json}
    (enough : (writeValue .line level (.list items)).length < fuel)
    (each : ∀ item ∈ items, (writeValue .line (level + 1) item).length < fuel →
      ReadsBack (readValue fuel depth) (writeValue .line (level + 1) item) (stored item))
    (starts : ∀ item ∈ items, ∃ c cs,
      writeValue .line (level + 1) item = c :: cs ∧ StartsValue c) :
    ReadsBack (readValue fuel (depth + 1)) (writeValue .line level (.list items))
      (stored (.list items)) := by
  intro rest _
  rw [writeValue_list] at enough ⊢
  simp only [List.length_cons, List.length_append, List.length_nil] at enough
  rw [List.cons_append, List.append_assoc, stored, storedItems_eq_map]
  unfold readValue
  cases items with
  | nil => rfl
  | cons item others =>
    -- No part is empty, so what suffices for the characters suffices for the items.
    have count := length_le_length_intercalate
      ((item :: others).map (writeValue .line (level + 1))) (by
        intro part member
        obtain ⟨item, among, rfl⟩ := List.mem_map.mp member
        obtain ⟨c, cs, same, -⟩ := starts item among
        simp [same])
    rw [List.length_map] at count
    have read := readItems_intercalate (readValue fuel depth) (by simp)
      (fun item member => each item member (by
        have part := length_le_length_intercalate_of_mem
          (List.mem_map_of_mem (f := writeValue .line (level + 1)) member)
        omega)) starts fuel (by omega) [] rest
    obtain ⟨c, cs, same, first⟩ := starts item (List.mem_cons_self ..)
    obtain ⟨more, head⟩ :=
      exists_intercalate_eq_cons same (others.map (writeValue .line (level + 1)))
    rw [List.map_cons, head] at read ⊢
    simp only [List.cons_append, List.nil_append] at read ⊢
    rw [skipSpace_cons first.1]
    split
    · rename_i same
      rw [List.cons.injEq] at same
      exact absurd same.1 first.2.1
    · rw [read]
      rfl

/-- An object is read back if its values are, one level further down. Its fields come back in the
order of their names. -/
theorem readsBack_object {fields : List (String × Json)} (distinct : (Entries.keys fields).Nodup)
    (enough : (writeValue .line level (.object fields)).length < fuel)
    (each : ∀ field ∈ fields, (writeValue .line (level + 1) field.2).length < fuel →
      ReadsBack (readValue fuel depth) (writeValue .line (level + 1) field.2) (stored field.2))
    (starts : ∀ field ∈ fields, ∃ c cs,
      writeValue .line (level + 1) field.2 = c :: cs ∧ StartsValue c) :
    ReadsBack (readValue fuel (depth + 1)) (writeValue .line level (.object fields))
      (stored (.object fields)) := by
  intro rest _
  rw [writeValue_object] at enough ⊢
  simp only [List.length_cons, List.length_append, List.length_nil] at enough
  have inside : ∀ field ∈ Entries.sort fields, field ∈ fields := fun field member =>
    (Entries.sort_perm fields).mem_iff.mp member
  rw [List.cons_append, List.append_assoc, stored_object, storedObject_eq]
  unfold readValue
  cases sorted : Entries.sort fields with
  | nil => rfl
  | cons field others =>
    rw [sorted] at enough inside
    have read := readFields_intercalate (readValue fuel depth) (field :: others) (by simp)
      (fun field member => each field (inside field member) (by
        have part := length_le_length_intercalate_of_mem
          (List.mem_map_of_mem (f := writeField (writeValue .line (level + 1))) member)
        simp only [writeField, List.length_append, List.length_cons] at part
        omega))
      (fun field member => starts field (inside field member)) fuel (by omega) [] rest
    -- No name comes twice, so the fields that were read are all kept.
    have keep : Entries.ofList (Entries.mapValues stored (field :: others)) =
        Entries.mapValues stored (field :: others) := by
      apply Entries.ofList_of_nodup
      rw [Entries.keys_mapValues, ← sorted]
      exact Entries.nodup_keys_sort distinct
    obtain ⟨more, head⟩ := exists_intercalate_eq_cons
      (writeField_eq (writeValue .line (level + 1)) field)
      (others.map (writeField (writeValue .line (level + 1))))
    rw [List.map_cons, head] at read ⊢
    simp only [List.cons_append, List.nil_append, List.reverse_nil] at read ⊢
    rw [skipSpace_cons (by decide)]
    show (readFields (readValue fuel depth) fuel [] ('"' :: (more ++ '}' :: rest))).map _ = _
    rw [read]
    simp [Except.map, keep]

end

/-- A value is read back from its written form, whatever follows that cannot belong to it. The
induction is on how the value is made; what encloses it only takes fuel and depth. -/
theorem readValue_writeValue {depth : Nat} {value : Json} (storable : Storable depth value)
    (writable : isWritable value = true) (level : Nat) {fuel : Nat}
    (enough : (writeValue .line level value).length < fuel) :
    ReadsBack (readValue fuel depth) (writeValue .line level value) (stored value) := by
  induction storable generalizing level with
  | null depth =>
    intro rest _
    unfold readValue
    rfl
  | bool depth b =>
    intro rest _
    unfold readValue
    cases b <;> rfl
  | whole depth n =>
    intro rest ends
    exact readValue_whole fuel depth writable ends
  | text depth s =>
    intro rest _
    rw [writeValue] at enough ⊢
    rw [writeText_append]
    unfold readValue
    simp [readText_writeText (s := s) (show _ ≤ fuel by omega), Except.map, stored]
  | @list depth items each ih =>
    have short := areWritable_iff.mp writable
    exact readsBack_list enough
      (fun item member => ih item member (short item member) (level + 1))
      fun item member => startsValue_writeValue _ item (each item member).not_real
  | @object depth fields distinct each ih =>
    have short := areFieldsWritable_iff.mp writable
    exact readsBack_object distinct enough
      (fun field member => ih field member (short field member) (level + 1))
      fun field member => startsValue_writeValue _ _ (each field member).not_real

end SourceIndex.Json
