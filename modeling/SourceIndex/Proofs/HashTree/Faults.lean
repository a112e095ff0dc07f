import SourceIndex.HashTree.Codec
import SourceIndex.Proofs.Config.Fields
import SourceIndex.Proofs.Entries
/-!
# Why an object is no tree

Decoding a tree fails mildly if a field is missing, if a part is no object, or if a text does not
hold the integer that is wanted. It fails gravely where a value is of a kind that nothing can be
taken from, or an infinite number. An object whose values all have the right kinds is decoded or
fails mildly.
-/

namespace SourceIndex

namespace Json

/-- Whether a fault lies in what is there, and not in the kinds of the values. -/
def DecodeFault.isMild : DecodeFault → Bool
  | .missing _ | .badValue | .notAnObject _ => true
  | .wrongKind | .infinite | .noFields => false

def FailsMildly {α : Type} (read : Except DecodeFault α) : Prop :=
  ∀ fault, read = .error fault → fault.isMild = true

namespace FailsMildly
variable {α β : Type}

theorem ok (a : α) : FailsMildly (.ok a) := fun _ failed => by cases failed

theorem error {fault : DecodeFault} (mild : fault.isMild = true) :
    FailsMildly (.error fault : Except _ α) :=
  fun _ failed => Except.error.inj failed ▸ mild

/-- What comes after a step matters only for what the step can give. -/
theorem bind {read : Except DecodeFault α} {next : α → Except DecodeFault β}
    (first : FailsMildly read) (later : ∀ a, read = .ok a → FailsMildly (next a)) :
    FailsMildly (read >>= next) := by
  intro fault failed
  rcases bind_eq_error_iff.mp failed with here | ⟨a, read, there⟩
  · exact first fault here
  · exact later a read fault there

theorem map {read : Except DecodeFault α} (first : FailsMildly read) (f : α → β) :
    FailsMildly (read.map f) := by
  cases read with
  | error fault => exact .error (first fault rfl)
  | ok a => exact .ok _

theorem mapM {read : α → Except DecodeFault β} {items : List α}
    (each : ∀ item ∈ items, FailsMildly (read item)) : FailsMildly (items.mapM read) := by
  induction items with
  | nil => exact .ok []
  | cons item rest ih =>
    rw [List.mapM_cons]
    exact (each item (List.mem_cons_self ..)).bind fun _ _ =>
      (ih fun other member => each other (List.mem_cons_of_mem _ member)).bind fun _ _ => .ok _

end FailsMildly

/-! ### Kinds of values -/

/-- Whether a value is of a kind that an integer is taken from. -/
def isCountable : Json → Bool
  | .bool _ | .text _ | .number (.whole _) | .number (.real .nan)
  | .number (.real (.finite ..)) => true
  | .number (.real (.infinite _)) | .null | .list _ | .object _ => false

/-- Whether a value is of a kind that has items. -/
def hasItems : Json → Bool
  | .text _ | .list _ | .object _ => true
  | .null | .bool _ | .number _ => false

/-- The values of some keys, as far as they are there, are of a kind. -/
def AreOf (kind : Json → Bool) (keys : List String) (fields : Entries Json) : Prop :=
  ∀ key ∈ keys, ∀ value, Entries.get? key fields = some value → kind value = true

variable {fields : Entries Json} {keys : List String} {key : String}

theorem failsMildly_toInt {value : Json} (countable : value.isCountable = true) :
    FailsMildly value.toInt := by
  cases value with
  | bool b => exact .ok _
  | text s =>
    simp only [toInt]
    split
    · exact .ok _
    · exact .error rfl
  | number n =>
    cases n with
    | whole n => exact .ok n
    | real x =>
      cases x with
      | nan => exact .error rfl
      | infinite => cases countable
      | finite => exact .ok _
  | _ => cases countable

theorem failsMildly_items {value : Json} (has : value.hasItems = true) :
    FailsMildly value.items := by
  cases value with
  | text s => exact .ok _
  | list items => exact .ok _
  | object fields => exact .ok _
  | _ => cases has

theorem failsMildly_field (key : String) (fields : Entries Json) :
    FailsMildly (field key fields) := by
  unfold field
  split
  · exact .ok _
  · exact .error rfl

theorem field_eq_ok {value : Json} (read : field key fields = .ok value) :
    Entries.get? key fields = some value := by
  unfold field at read
  split at read
  · rename_i found
    exact Except.ok.inj read ▸ found
  · cases read

theorem failsMildly_textField (key : String) (fields : Entries Json) :
    FailsMildly (textField key fields) := (failsMildly_field key fields).map _

theorem failsMildly_intField (are : AreOf isCountable keys fields) (among : key ∈ keys) :
    FailsMildly (intField key fields) :=
  (failsMildly_field key fields).bind fun value read =>
    failsMildly_toInt (are key among value (field_eq_ok read))

theorem failsMildly_itemsField (are : AreOf hasItems keys fields) (among : key ∈ keys) :
    FailsMildly (itemsField key fields) :=
  (failsMildly_field key fields).bind fun value read =>
    failsMildly_items (are key among value (field_eq_ok read))

end Json

namespace HashTree

open Json (AreOf FailsMildly isCountable hasItems)

/-! ### Kinds in trees -/

def HasFileKinds (value : Json) : Prop :=
  ∃ fields, value = .object fields ∧ AreOf isCountable ["size", "last_modified"] fields

def HasDirectoryKinds (value : Json) : Prop :=
  ∃ fields, value = .object fields ∧ AreOf isCountable ["file_count"] fields ∧
    AreOf hasItems ["children", "files", "subdirs"] fields

def HasListKinds (value : Json) : Prop :=
  ∃ lists, value = .object lists ∧ ∀ entry ∈ lists, entry.2.hasItems = true

/-- The values of an object for a tree have the right kinds, as far as they are there. -/
structure HasKinds (fields : Entries Json) : Prop where
  root : ∀ part, Entries.get? "root" fields = some (.object part) →
    AreOf isCountable ["timestamp", "file_count"] part
  files : ∀ part, Entries.get? "files" fields = some (.object part) →
    ∀ entry ∈ part, HasFileKinds entry.2
  directories : ∀ part, Entries.get? "directories" fields = some (.object part) →
    ∀ entry ∈ part, HasDirectoryKinds entry.2
  index : ∀ part, Entries.get? "index" fields = some (.object part) →
    ∀ key ∈ ["by_extension", "by_size"], ∀ value, Entries.get? key part = some value →
      HasListKinds value
  metadata : ∀ part, Entries.get? "metadata" fields = some (.object part) →
    AreOf isCountable ["created_at", "total_size", "tree_depth"] part

/-! ### Decoding what has the right kinds -/

theorem failsMildly_fileOfJson {value : Json} (kinds : HasFileKinds value) :
    FailsMildly (fileOfJson value) := by
  obtain ⟨fields, rfl, ints⟩ := kinds
  exact (FailsMildly.ok fields).bind fun _ same => by
    obtain rfl := Except.ok.inj same
    exact (Json.failsMildly_textField _ _).bind fun _ _ =>
      (Json.failsMildly_intField ints (by simp)).bind fun _ _ =>
      (Json.failsMildly_intField ints (by simp)).bind fun _ _ =>
      (Json.failsMildly_textField _ _).bind fun _ _ =>
      (Json.failsMildly_textField _ _).bind fun _ _ => .ok _

theorem failsMildly_directoryOfJson {value : Json} (kinds : HasDirectoryKinds value) :
    FailsMildly (directoryOfJson value) := by
  obtain ⟨fields, rfl, ints, lists⟩ := kinds
  exact (FailsMildly.ok fields).bind fun _ same => by
    obtain rfl := Except.ok.inj same
    exact (Json.failsMildly_textField _ _).bind fun _ _ =>
      (Json.failsMildly_intField ints (by simp)).bind fun _ _ =>
      (Json.failsMildly_itemsField lists (by simp)).bind fun _ _ =>
      (Json.failsMildly_itemsField lists (by simp)).bind fun _ _ =>
      (Json.failsMildly_itemsField lists (by simp)).bind fun _ _ => .ok _

theorem failsMildly_readEntries {α : Type} {read : Json → Except Json.DecodeFault α}
    {fields : Entries Json} (each : ∀ entry ∈ fields, FailsMildly (read entry.2)) :
    FailsMildly (readEntries read fields) :=
  .mapM fun entry member => (each entry member).map _

theorem failsMildly_partFields (name : String) (value : Option Json) :
    FailsMildly (partFields name value) := by
  unfold partFields
  split
  · exact .ok _
  · exact .error rfl

theorem partFields_eq_ok {name : String} {value : Option Json} {part : Entries Json}
    (read : partFields name value = .ok part) : value = some (.object part) := by
  unfold partFields at read
  split at read
  · exact Except.ok.inj read ▸ rfl
  · cases read

theorem failsMildly_listsField {key : String} {fields : Entries Json}
    (kinds : ∀ value, Entries.get? key fields = some value → HasListKinds value)
    (absent : Entries (List Json)) : FailsMildly (listsField key absent fields) := by
  unfold listsField
  split
  · exact .ok _
  · rename_i lists found
    obtain ⟨_, same, items⟩ := kinds _ found
    obtain rfl := Json.object.inj same
    exact failsMildly_readEntries fun entry member => Json.failsMildly_items (items entry member)
  · rename_i value other found
    obtain ⟨lists, rfl, -⟩ := kinds _ found
    exact absurd rfl (other lists)

theorem failsMildly_countField {key : String} {keys : List String} {fields : Entries Json}
    (are : AreOf isCountable keys fields) (among : key ∈ keys) :
    FailsMildly (countField key fields) := by
  unfold countField
  cases found : Entries.get? key fields with
  | none => exact .ok 0
  | some value => exact Json.failsMildly_toInt (are key among value found)

/-- An object whose values have the right kinds is a tree or fails mildly to be one. -/
theorem failsMildly_ofFields {fields : Entries Json} (kinds : HasKinds fields) :
    FailsMildly (ofFields fields) := by
  refine (failsMildly_partFields _ _).bind fun root hasRoot => ?_
  refine (failsMildly_partFields _ _).bind fun files hasFiles => ?_
  refine (failsMildly_partFields _ _).bind fun directories hasDirectories => ?_
  refine (failsMildly_partFields _ _).bind fun index hasIndex => ?_
  refine (failsMildly_partFields _ _).bind fun metadata hasMetadata => ?_
  have rootInts := kinds.root root (partFields_eq_ok hasRoot)
  have ints := kinds.metadata metadata (partFields_eq_ok hasMetadata)
  have lists : ∀ key ∈ ["by_extension", "by_size"], ∀ value, Entries.get? key index = some value →
      HasListKinds value := by
    have value := Option.some.inj (partFields_eq_ok hasIndex)
    cases found : Entries.get? "index" fields with
    | none =>
      rw [found, Option.getD_none, Json.object.injEq] at value
      intro key _ given there
      rw [← value, Entries.get?_nil] at there
      cases there
    | some given =>
      rw [found, Option.getD_some] at value
      exact kinds.index index (value ▸ found)
  exact (Json.failsMildly_textField _ _).bind fun _ _ =>
    (Json.failsMildly_intField rootInts (by simp)).bind fun _ _ =>
    (Json.failsMildly_intField rootInts (by simp)).bind fun _ _ =>
    (failsMildly_readEntries fun entry member => failsMildly_fileOfJson
      (kinds.files files (partFields_eq_ok hasFiles) entry member)).bind fun _ _ =>
    (failsMildly_readEntries fun entry member => failsMildly_directoryOfJson
      (kinds.directories directories (partFields_eq_ok hasDirectories)
        entry member)).bind fun _ _ =>
    (failsMildly_listsField (lists _ (by simp)) _).bind fun _ _ =>
    (failsMildly_listsField (lists _ (by simp)) _).bind fun _ _ =>
    (Json.failsMildly_textField _ _).bind fun _ _ =>
    (Json.failsMildly_intField ints (by simp)).bind fun _ _ =>
    (Json.failsMildly_textField _ _).bind fun _ _ =>
    (failsMildly_countField ints (by simp)).bind fun _ _ =>
    (failsMildly_countField ints (by simp)).bind fun _ _ => .ok _

end HashTree
end SourceIndex
