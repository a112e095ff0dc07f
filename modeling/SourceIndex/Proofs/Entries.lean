import SourceIndex.Entries
import Mathlib.Data.List.Nodup
/-!
# Lookup in entries

What a key has in entries after setting, mapping and sorting them, if every key stands there once.
-/

namespace SourceIndex.Entries
variable {α β : Type}

/-! ### Lookup -/

theorem get?_nil (key : String) : get? key ([] : Entries α) = none := rfl

theorem get?_cons (key : String) (entry : String × α) (rest : Entries α) :
    get? key (entry :: rest) = if entry.1 = key then some entry.2 else get? key rest := by
  by_cases same : entry.1 = key
  · simp [get?, same]
  · simp [get?, same]

theorem mem_of_get?_eq_some {key : String} {value : α} {entries : Entries α}
    (found : get? key entries = some value) : (key, value) ∈ entries := by
  induction entries with
  | nil => cases found
  | cons entry rest ih =>
    rw [get?_cons] at found
    split at found
    · rename_i same
      rw [← same, ← Option.some.inj found]
      exact List.mem_cons_self ..
    · exact List.mem_cons_of_mem _ (ih found)

theorem get?_of_mem {key : String} {value : α} {entries : Entries α}
    (distinct : (keys entries).Nodup) (member : (key, value) ∈ entries) :
    get? key entries = some value := by
  induction entries with
  | nil => simp at member
  | cons entry rest ih =>
    rw [keys, List.map_cons, List.nodup_cons] at distinct
    rw [get?_cons]
    rcases List.mem_cons.mp member with here | later
    · rw [← here, if_pos rfl]
    · rw [if_neg, ih distinct.2 later]
      intro same
      exact distinct.1 (same ▸ List.mem_map_of_mem later)

theorem get?_eq_none_iff {key : String} {entries : Entries α} :
    get? key entries = none ↔ key ∉ keys entries := by
  induction entries with
  | nil => simp [get?_nil, keys]
  | cons entry rest ih =>
    rw [get?_cons]
    by_cases same : entry.1 = key
    · simp [same, keys]
    · simp only [same, if_false, ih, keys, List.map_cons, List.mem_cons, not_or]
      exact ⟨fun absent => ⟨Ne.symm same, absent⟩, And.right⟩

theorem has_eq_true_iff {key : String} {entries : Entries α} :
    has key entries = true ↔ key ∈ keys entries := by
  simp [has, keys]

theorem has_eq_isSome (key : String) (entries : Entries α) :
    has key entries = (get? key entries).isSome := by
  rw [Bool.eq_iff_iff, has_eq_true_iff, Option.isSome_iff_ne_none, ne_eq, get?_eq_none_iff, not_not]

theorem exists_of_has {key : String} {entries : Entries α} (there : has key entries = true) :
    ∃ value, get? key entries = some value := by
  rwa [has_eq_isSome, Option.isSome_iff_exists] at there

theorem get?_of_perm {first second : Entries α} (distinct : (keys first).Nodup)
    (same : first.Perm second) (key : String) : get? key first = get? key second := by
  have also : (keys second).Nodup := (same.map Prod.fst).nodup_iff.mp distinct
  cases found : get? key first with
  | none =>
    rw [get?_eq_none_iff] at found
    exact (get?_eq_none_iff.mpr fun there => found ((same.map Prod.fst).mem_iff.mpr there)).symm
  | some value => exact (get?_of_mem also (same.mem_iff.mp (mem_of_get?_eq_some found))).symm

/-! ### Setting -/

theorem put_of_not_mem {key : String} {entries : Entries α} (absent : key ∉ keys entries)
    (value : α) : put key value entries = entries ++ [(key, value)] := by
  rw [put, if_neg fun there => absent (has_eq_true_iff.mp there)]

theorem put_cons {key : String} {entry : String × α} {rest : Entries α}
    (distinct : (keys (entry :: rest)).Nodup) (value : α) :
    put key value (entry :: rest) =
      if entry.1 = key then (key, value) :: rest else entry :: put key value rest := by
  rw [keys, List.map_cons, List.nodup_cons] at distinct
  by_cases same : entry.1 = key
  · have kept :
        (rest.map fun other => if other.1 == key then (other.1, value) else other) = rest := by
      refine (List.map_congr_left fun other member => ?_).trans (List.map_id rest)
      rw [if_neg, id]
      intro again
      exact distinct.1 (same ▸ beq_iff_eq.mp again ▸ List.mem_map_of_mem member)
    rw [if_pos same, put, if_pos (has_eq_true_iff.mpr (same ▸ List.mem_cons_self ..)),
      List.map_cons, kept, if_pos (beq_iff_eq.mpr same), same]
  · have there : has key (entry :: rest) = has key rest := by simp [has, same]
    rw [if_neg same, put, put, there]
    split
    · rw [List.map_cons, if_neg fun equal => same (beq_iff_eq.mp equal)]
    · rfl

theorem keys_put (key : String) (value : α) (entries : Entries α) :
    keys (put key value entries) =
      if key ∈ keys entries then keys entries else keys entries ++ [key] := by
  by_cases there : key ∈ keys entries
  · rw [put, if_pos (has_eq_true_iff.mpr there), if_pos there, keys, List.map_map]
    refine List.map_congr_left fun entry _ => ?_
    simp only [Function.comp_apply]
    split <;> rfl
  · rw [put_of_not_mem there, if_neg there, keys, List.map_append]
    rfl

theorem mem_put {key : String} {value : α} {entries : Entries α} {entry : String × α}
    (member : entry ∈ put key value entries) : entry = (key, value) ∨ entry ∈ entries := by
  unfold put at member
  split at member
  · obtain ⟨before, found, rfl⟩ := List.mem_map.mp member
    split
    · rename_i same
      rw [beq_iff_eq] at same
      exact .inl (by rw [same])
    · exact .inr found
  · rcases List.mem_append.mp member with before | last
    · exact .inr before
    · exact .inl (List.mem_singleton.mp last)

theorem get?_append (key : String) (first second : Entries α) :
    get? key (first ++ second) = (get? key first).or (get? key second) := by
  induction first with
  | nil => rfl
  | cons entry rest ih =>
    rw [List.cons_append, get?_cons, get?_cons, ih]
    split <;> rfl

theorem get?_replace (key other : String) (value : α) (entries : Entries α) :
    get? other (entries.map fun entry => if entry.1 == key then (entry.1, value) else entry) =
      (get? other entries).map fun old => if key = other then value else old := by
  induction entries with
  | nil => rfl
  | cons entry rest ih =>
    rw [List.map_cons, get?_cons, get?_cons, ih]
    by_cases same : entry.1 = key
    · rw [if_pos (beq_iff_eq.mpr same), same]
      by_cases wanted : key = other
      · rw [if_pos wanted, if_pos wanted, Option.map_some, if_pos wanted]
      · rw [if_neg wanted, if_neg wanted]
    · rw [if_neg fun equal => same (beq_iff_eq.mp equal)]
      by_cases here : entry.1 = other
      · rw [if_pos here, if_pos here, Option.map_some,
          if_neg fun wanted => same (here.trans wanted.symm)]
      · rw [if_neg here, if_neg here]

theorem get?_put (key other : String) (value : α) (entries : Entries α) :
    get? other (put key value entries) =
      if key = other then some value else get? other entries := by
  by_cases there : has key entries = true
  · rw [put, if_pos there, get?_replace]
    split
    · rename_i wanted
      obtain ⟨old, found⟩ := exists_of_has there
      rw [← wanted, found]
      rfl
    · exact Option.map_id'
  · rw [put, if_neg there, get?_append, get?_cons, get?_nil]
    split
    · rename_i wanted
      rw [has_eq_true_iff, ← get?_eq_none_iff] at there
      rw [← wanted, there]
      rfl
    · exact Option.or_none

theorem nodup_keys_put {key : String} {entries : Entries α} (distinct : (keys entries).Nodup)
    (value : α) : (keys (put key value entries)).Nodup := by
  rw [keys_put]
  split
  · exact distinct
  · rename_i absent
    exact List.nodup_append.mpr ⟨distinct, List.nodup_singleton key, by
      intro other member last only same
      rw [List.mem_singleton.mp only] at same
      exact absent (same ▸ member)⟩

theorem nodup_keys_foldl_put {settings : List (String × α)} {entries : Entries α}
    (distinct : (keys entries).Nodup) :
    (keys (settings.foldl (fun entries setting => put setting.1 setting.2 entries)
      entries)).Nodup := by
  induction settings generalizing entries with
  | nil => exact distinct
  | cons setting rest ih => exact ih (nodup_keys_put distinct setting.2)

theorem nodup_keys_ofList (settings : List (String × α)) : (keys (ofList settings)).Nodup :=
  nodup_keys_foldl_put List.nodup_nil

theorem foldl_put_of_nodup {settings : List (String × α)} {entries : Entries α}
    (distinct : (keys (entries ++ settings)).Nodup) :
    settings.foldl (fun entries setting => put setting.1 setting.2 entries) entries =
      entries ++ settings := by
  induction settings generalizing entries with
  | nil => simp
  | cons setting rest ih =>
    have absent : setting.1 ∉ keys entries := by
      intro there
      rw [keys, List.map_append, List.nodup_append] at distinct
      exact distinct.2.2 _ there _ (List.mem_cons_self ..) rfl
    rw [List.foldl_cons, put_of_not_mem absent, ih (by simpa [keys] using distinct)]
    simp

theorem mem_of_mem_foldl_put {settings : List (String × α)} {entries : Entries α}
    {entry : String × α} (member : entry ∈ settings.foldl
      (fun entries setting => put setting.1 setting.2 entries) entries) :
    entry ∈ settings ∨ entry ∈ entries := by
  induction settings generalizing entries with
  | nil => exact .inr member
  | cons setting rest ih =>
    rcases ih member with later | before
    · exact .inl (List.mem_cons_of_mem _ later)
    · rcases mem_put before with rfl | before
      · exact .inl (List.mem_cons_self ..)
      · exact .inr before

theorem mem_of_mem_ofList {settings : List (String × α)} {entry : String × α}
    (member : entry ∈ ofList settings) : entry ∈ settings :=
  (mem_of_mem_foldl_put member).resolve_right List.not_mem_nil

theorem ofList_of_nodup {settings : List (String × α)} (distinct : (keys settings).Nodup) :
    ofList settings = settings :=
  foldl_put_of_nodup distinct

/-! ### Mapping -/

def mapValues (change : α → β) (entries : Entries α) : Entries β :=
  entries.map fun entry => (entry.1, change entry.2)

theorem keys_mapValues (change : α → β) (entries : Entries α) :
    keys (mapValues change entries) = keys entries := by
  simp [keys, mapValues]

theorem get?_mapValues (change : α → β) (entries : Entries α) (key : String) :
    get? key (mapValues change entries) = (get? key entries).map change := by
  induction entries with
  | nil => rfl
  | cons entry rest ih =>
    rw [mapValues, List.map_cons, get?_cons, get?_cons, ← mapValues, ih]
    split <;> rfl

/-! ### Sorting -/

def isBefore (a b : String × α) : Bool := !decide (b.1 < a.1)

theorem isBefore_iff {a b : String × α} : isBefore a b = true ↔ a.1 ≤ b.1 := by
  rw [isBefore, Bool.not_eq_true', decide_eq_false_iff_not, String.not_lt]

theorem isBefore_trans (a b c : String × α) (first : isBefore a b = true)
    (second : isBefore b c = true) : isBefore a c = true :=
  isBefore_iff.mpr (String.le_trans (isBefore_iff.mp first) (isBefore_iff.mp second))

theorem isBefore_total (a b : String × α) : (isBefore a b || isBefore b a) = true := by
  rw [Bool.or_eq_true, isBefore_iff, isBefore_iff]
  exact String.le_total a.1 b.1

theorem sort_perm (entries : Entries α) : (sort entries).Perm entries :=
  List.mergeSort_perm ..

theorem nodup_keys_sort {entries : Entries α} (distinct : (keys entries).Nodup) :
    (keys (sort entries)).Nodup :=
  ((sort_perm entries).map Prod.fst).nodup_iff.mpr distinct

theorem get?_sort {entries : Entries α} (distinct : (keys entries).Nodup) (key : String) :
    get? key (sort entries) = get? key entries :=
  (get?_of_perm distinct (sort_perm entries).symm key).symm

theorem sort_mapValues (change : α → β) (entries : Entries α) :
    sort (mapValues change entries) = mapValues change (sort entries) := by
  have same (a b : String × α) :
      isBefore a b = isBefore (a.1, change a.2) (b.1, change b.2) := rfl
  exact (List.map_mergeSort (r := isBefore) (s := isBefore)
    (f := fun entry => (entry.1, change entry.2)) fun a _ b _ => same a b).symm

theorem sort_of_pairwise {entries : Entries α}
    (ordered : entries.Pairwise fun a b => a.1 ≤ b.1) : sort entries = entries := by
  have sorted : entries.Pairwise fun a b => isBefore a b = true :=
    ordered.imp fun le => isBefore_iff.mpr le
  exact List.mergeSort_of_pairwise sorted

theorem pairwise_sort (entries : Entries α) :
    (sort entries).Pairwise fun a b => a.1 ≤ b.1 := by
  have sorted : (entries.mergeSort isBefore).Pairwise fun a b => isBefore a b = true :=
    List.pairwise_mergeSort isBefore_trans isBefore_total entries
  exact sorted.imp isBefore_iff.mp

theorem pairwise_lt_sort {entries : Entries α} (distinct : (keys entries).Nodup) :
    (sort entries).Pairwise fun a b => a.1 < b.1 := by
  have apart := List.pairwise_map.mp (nodup_keys_sort distinct)
  refine ((pairwise_sort entries).and apart).imp fun {a b} both => ?_
  by_contra notBefore
  exact both.2 (String.le_antisymm both.1 (String.not_lt.mp notBefore))

theorem sort_sort (entries : Entries α) : sort (sort entries) = sort entries :=
  sort_of_pairwise (pairwise_sort entries)

theorem mem_iff_get? {key : String} {value : α} {entries : Entries α}
    (distinct : (keys entries).Nodup) : (key, value) ∈ entries ↔ get? key entries = some value :=
  ⟨get?_of_mem distinct, mem_of_get?_eq_some⟩

theorem perm_of_get?_eq {first second : Entries α} (distinctFirst : (keys first).Nodup)
    (distinctSecond : (keys second).Nodup) (same : ∀ key, get? key first = get? key second) :
    first.Perm second := by
  refine (List.perm_ext_iff_of_nodup (.of_map _ distinctFirst) (.of_map _ distinctSecond)).mpr ?_
  intro entry
  rw [mem_iff_get? distinctFirst, mem_iff_get? distinctSecond, same]

/-- Entries in order are known by what their keys have. -/
theorem eq_of_get?_eq {first second : Entries α} (distinctFirst : (keys first).Nodup)
    (distinctSecond : (keys second).Nodup) (orderedFirst : first.Pairwise fun a b => a.1 ≤ b.1)
    (orderedSecond : second.Pairwise fun a b => a.1 ≤ b.1)
    (same : ∀ key, get? key first = get? key second) : first = second := by
  have perm := perm_of_get?_eq distinctFirst distinctSecond same
  refine List.Perm.eq_of_pairwise (fun a b inFirst inSecond le ge => ?_) orderedFirst orderedSecond
    perm
  exact List.inj_on_of_nodup_map distinctFirst inFirst (perm.mem_iff.mpr inSecond)
    (String.le_antisymm le ge)

/-! ### Removing -/

def remove (key : String) (entries : Entries α) : Entries α :=
  entries.filter fun entry => entry.1 != key

theorem get?_remove (key other : String) (entries : Entries α) :
    get? other (remove key entries) = if key = other then none else get? other entries := by
  induction entries with
  | nil => simp [remove, get?_nil]
  | cons entry rest ih =>
    rw [remove] at ih
    by_cases removed : entry.1 = key
    · rw [remove, List.filter_cons_of_neg (by simpa using removed), ih, get?_cons, removed]
      split
      · rfl
      · rfl
    · rw [remove, List.filter_cons_of_pos (by simpa using removed), get?_cons, get?_cons, ih]
      by_cases wanted : key = other
      · rw [if_pos wanted, if_pos wanted, if_neg (wanted ▸ removed)]
      · rw [if_neg wanted, if_neg wanted]

theorem nodup_keys_remove {entries : Entries α} (distinct : (keys entries).Nodup) (key : String) :
    (keys (remove key entries)).Nodup :=
  distinct.sublist (List.filter_sublist.map _)

end SourceIndex.Entries
