import SourceIndex.HashTree.Codec
import SourceIndex.Proofs.Json.RoundTrip
/-!
# Fields are read back

Each way of reading a field of an object gives what was put there, after the object was stored.
-/

namespace SourceIndex

namespace Json

variable {key : String} {fields : List (String × Json)}

theorem field_storedObject (distinct : (Entries.keys fields).Nodup) {value : Json}
    (found : Entries.get? key fields = some value) :
    field key (storedObject fields) = .ok (stored value) := by
  rw [field, get?_storedObject distinct, found]
  rfl

theorem textField_storedObject (distinct : (Entries.keys fields).Nodup) {s : String}
    (found : Entries.get? key fields = some (.text s)) :
    textField key (storedObject fields) = .ok s := by
  rw [textField, field_storedObject distinct found]
  rfl

theorem intField_storedObject (distinct : (Entries.keys fields).Nodup) {n : Int}
    (found : Entries.get? key fields = some (.int n)) :
    intField key (storedObject fields) = .ok n := by
  rw [intField, field_storedObject distinct found]
  rfl

def AreTexts (items : List Json) : Prop := ∀ item ∈ items, ∃ s, item = .text s

theorem areTexts_map_text (texts : List String) : AreTexts (texts.map .text) := by
  intro item member
  obtain ⟨s, -, rfl⟩ := List.mem_map.mp member
  exact ⟨s, rfl⟩

theorem storedItems_of_areTexts {items : List Json} (texts : AreTexts items) :
    storedItems items = items := by
  rw [storedItems_eq_map]
  conv_rhs => rw [← List.map_id items]
  refine List.map_congr_left fun item member => ?_
  obtain ⟨s, rfl⟩ := texts item member
  rfl

theorem storable_list {items : List Json} (texts : AreTexts items) : Storable 1 (.list items) := by
  refine .list fun item member => ?_
  obtain ⟨s, rfl⟩ := texts item member
  exact .text ..

theorem items_stored_list {list : List Json} (texts : AreTexts list) :
    items (stored (.list list)) = .ok list := by
  rw [stored, storedItems_of_areTexts texts]
  rfl

theorem itemsField_storedObject (distinct : (Entries.keys fields).Nodup) {list : List Json}
    (found : Entries.get? key fields = some (.list list)) (texts : AreTexts list) :
    itemsField key (storedObject fields) = .ok list := by
  rw [itemsField, field_storedObject distinct found]
  exact items_stored_list texts

/-! ### Entries -/

theorem storable_mapValues {α : Type} {depth : Nat} {write : α → Json} {entries : Entries α}
    (distinct : (Entries.keys entries).Nodup)
    (each : ∀ entry ∈ entries, Storable depth (write entry.2)) :
    Storable (depth + 1) (.object (Entries.mapValues write entries)) := by
  refine .object (by rwa [Entries.keys_mapValues]) ?_
  intro field member
  obtain ⟨entry, found, rfl⟩ := List.mem_map.mp member
  exact each entry found

theorem storedObject_mapValues {α : Type} (write : α → Json) (entries : Entries α) :
    storedObject (Entries.mapValues write entries) =
      Entries.mapValues (fun a => stored (write a)) (Entries.sort entries) := by
  rw [storedObject_eq, Entries.sort_mapValues]
  simp [Entries.mapValues, Function.comp_def]

theorem stored_object_mapValues_sort {α : Type} (write : α → Json) (entries : Entries α) :
    stored (.object (Entries.mapValues write (Entries.sort entries))) =
      stored (.object (Entries.mapValues write entries)) := by
  rw [stored_object, stored_object, storedObject_mapValues, storedObject_mapValues,
    Entries.sort_sort]

end Json

namespace HashTree

open Json (stored storedObject)

variable {key : String} {fields : List (String × Json)}

theorem readEntries_mapValues {α : Type} {read : Json → Except Json.DecodeFault α}
    {write : α → Json} {entries : Entries α}
    (each : ∀ entry ∈ entries, read (write entry.2) = .ok entry.2) :
    readEntries read (Entries.mapValues write entries) = .ok entries := by
  induction entries with
  | nil => rfl
  | cons entry rest ih =>
    have first := each entry (List.mem_cons_self ..)
    have later := ih fun other member => each other (List.mem_cons_of_mem _ member)
    rw [readEntries] at later
    rw [readEntries, Entries.mapValues, List.map_cons, ← Entries.mapValues, List.mapM_cons, later]
    simp only [first]
    rfl

theorem readEntries_storedObject {α : Type} {read : Json → Except Json.DecodeFault α}
    {write : α → Json} {entries : Entries α}
    (each : ∀ entry ∈ entries, read (stored (write entry.2)) = .ok entry.2) :
    readEntries read (storedObject (Entries.mapValues write entries)) =
      .ok (Entries.sort entries) := by
  rw [Json.storedObject_mapValues]
  exact readEntries_mapValues fun entry member =>
    each entry ((Entries.sort_perm entries).mem_iff.mp member)

theorem partFields_storedObject (name : String) (distinct : (Entries.keys fields).Nodup)
    {part : List (String × Json)} (found : Entries.get? key fields = some (.object part)) :
    partFields name (Entries.get? key (storedObject fields)) = .ok (storedObject part) := by
  rw [Json.get?_storedObject distinct, found]
  rfl

theorem countField_storedObject (distinct : (Entries.keys fields).Nodup) {n : Int}
    (found : Entries.get? key fields = some (.int n)) :
    countField key (storedObject fields) = .ok n := by
  rw [countField, Json.get?_storedObject distinct, found]
  rfl

theorem listsField_storedObject (distinct : (Entries.keys fields).Nodup)
    {lists : Entries (List Json)}
    (found : Entries.get? key fields = some (.object (Entries.mapValues Json.list lists)))
    (texts : ∀ entry ∈ lists, Json.AreTexts entry.2) (absent : Entries (List Json)) :
    listsField key absent (storedObject fields) = .ok (Entries.sort lists) := by
  rw [listsField, Json.get?_storedObject distinct, found]
  exact readEntries_storedObject fun entry member => Json.items_stored_list (texts entry member)

end HashTree
end SourceIndex
