import SourceIndex.Proofs.FileSystem.Real
/-!
# Listing directories

A directory is listed with every name once, and each name leads to what stands next to it in the
list.
-/

namespace SourceIndex

theorem nodup_eraseDups {α : Type} [BEq α] [LawfulBEq α] (l : List α) : l.eraseDups.Nodup := by
  generalize length : l.length = n
  induction n using Nat.strongRecOn generalizing l with
  | ind n ih =>
    cases l with
    | nil => simp
    | cons b rest =>
      have shorter : (rest.filter fun c => !c == b).length < n := by
        have := List.length_filter_le (fun c => !c == b) rest
        rw [List.length_cons] at length
        omega
      rw [List.eraseDups_cons, List.nodup_cons]
      refine ⟨fun again => ?_, ih _ shorter _ rfl⟩
      have kept := (List.mem_filter.mp (List.mem_eraseDups.mp again)).2
      simp at kept

theorem eraseDups_of_nodup {α : Type} [BEq α] [LawfulBEq α] {l : List α} (distinct : l.Nodup) :
    l.eraseDups = l := by
  induction l with
  | nil => simp
  | cons a rest ih =>
    rw [List.nodup_cons] at distinct
    have kept : rest.filter (fun b => !b == a) = rest := by
      refine List.filter_eq_self.mpr fun b member => ?_
      have differs : b ≠ a := fun same => distinct.1 (same ▸ member)
      simpa using differs
    rw [List.eraseDups_cons, kept, ih distinct.2]

namespace Disk
variable {d : Disk} {p : Path} {entries : List (String × Item)} {name : String} {item : Item}

theorem nodup_names (d : Disk) (place : Place) : (d.names place).Nodup :=
  ((List.mergeSort_perm _ _).nodup_iff).mpr (nodup_eraseDups _)

theorem mem_names {place : Place} {name : String} :
    name ∈ d.names place ↔ d.item? (place ++ [name]) ≠ none := by
  rw [item?_ne_none_iff (by simp)]
  unfold names
  rw [List.mem_mergeSort, List.mem_eraseDups, List.mem_filterMap]
  constructor
  · rintro ⟨entry, member, last⟩
    refine ⟨entry, member, ?_⟩
    split at last
    · rename_i within
      obtain ⟨above, shape⟩ := List.getLast?_eq_some_iff.mp last
      rw [shape, List.dropLast_concat] at within
      rw [shape, within]
    · cases last
  · rintro ⟨entry, member, same⟩
    exact ⟨entry, member, by rw [same, List.dropLast_concat, if_pos rfl, List.getLast?_concat]⟩

theorem pairwise_names (d : Disk) (place : Place) :
    (d.names place).Pairwise fun a b => a ≤ b := by
  have before (a b : String) : (!decide (b < a)) = true ↔ a ≤ b := by
    rw [Bool.not_eq_true', decide_eq_false_iff_not, String.not_lt]
  have sorted : (d.names place).Pairwise fun a b => (!decide (b < a)) = true :=
    List.pairwise_mergeSort
      (fun a b c first second => (before a c).mpr
        (String.le_trans ((before a b).mp first) ((before b c).mp second)))
      (fun a b => by
        rw [Bool.or_eq_true, before, before]
        exact String.le_total ..) _
  exact sorted.imp (before _ _).mp

theorem names_eq_of_item? {other : Disk} {place : Place} (same : ∀ name,
    other.item? (place ++ [name]) = d.item? (place ++ [name])) :
    other.names place = d.names place := by
  have perm : (other.names place).Perm (d.names place) := by
    rw [List.perm_ext_iff_of_nodup (nodup_names other place) (nodup_names d place)]
    intro name
    rw [mem_names, mem_names, same]
  exact perm.eq_of_pairwise (fun _ _ _ _ => String.le_antisymm) (pairwise_names other place)
    (pairwise_names d place)

theorem names_of_sorted {place : Place} {names : List String}
    (whole : (d.items.filterMap fun entry =>
      if entry.1.dropLast = place then entry.1.getLast? else none).eraseDups = names)
    (sorted : names.Pairwise fun a b => (!decide (b < a)) = true) : d.names place = names := by
  rw [Disk.names, whole]
  exact List.mergeSort_of_pairwise sorted

theorem list_of_find {place : Place} (noDefect : defect? p d.defects.list = none)
    (noZero : hasZero p = false) (found : d.find true p = .ok (place, some .directory)) :
    d.list p = .ok ((d.names place).filterMap fun name =>
      (d.item? (place ++ [name])).map fun item => (name, item)) := by
  simp only [list, noDefect, noZero, found, Bool.false_eq_true, if_false]

theorem list_eq_ok (listed : d.list p = .ok entries) :
    ∃ place, d.find true p = .ok (place, some .directory) ∧
      entries = (d.names place).filterMap fun name =>
        (d.item? (place ++ [name])).map fun item => (name, item) := by
  unfold list at listed
  split at listed
  · cases listed
  split at listed
  · cases listed
  split at listed
  · cases listed
  · cases listed
  · rename_i place found
    rw [Except.ok.injEq] at listed
    exact ⟨place, found, listed.symm⟩
  · cases listed

theorem nodup_list (listed : d.list p = .ok entries) : (entries.map Prod.fst).Nodup := by
  obtain ⟨place, -, rfl⟩ := list_eq_ok listed
  have within : (((d.names place).filterMap fun name =>
      (d.item? (place ++ [name])).map fun item => (name, item)).map Prod.fst).Sublist
        (d.names place) := by
    induction d.names place with
    | nil => simp
    | cons name rest ih =>
      rw [List.filterMap_cons]
      cases d.item? (place ++ [name]) with
      | none => exact ih.cons name
      | some item => exact ih.cons_cons name
  exact (nodup_names d place).sublist within

theorem isName_of_mem_list (proper : d.IsProper) (listed : d.list p = .ok entries)
    (member : (name, item) ∈ entries) : IsName name := by
  obtain ⟨place, -, rfl⟩ := list_eq_ok listed
  obtain ⟨other, -, same⟩ := List.mem_filterMap.mp member
  rw [Option.map_eq_some_iff] at same
  obtain ⟨there, stands, same⟩ := same
  rw [Prod.mk.injEq] at same
  rw [← same.1]
  exact proper.named place other (by simp [stands])

theorem stat_child (proper : d.IsProper) (listed : d.list p = .ok entries)
    (member : (name, item) ∈ entries) (noLink : ∀ target, item ≠ .link target) {other : Item}
    (told : d.stat (p.child name) = .ok other) : other = item := by
  have isName := isName_of_mem_list proper listed member
  obtain ⟨place, found, rfl⟩ := list_eq_ok listed
  obtain ⟨last, -, same⟩ := List.mem_filterMap.mp member
  rw [Option.map_eq_some_iff] at same
  obtain ⟨there, stands, same⟩ := same
  rw [Prod.mk.injEq] at same
  obtain ⟨rfl, rfl⟩ := same
  obtain ⟨-, goal, looked⟩ := lookUp_eq_ok (stat_eq_ok told).2
  have short := (walks_of_walk (find_eq_ok looked)).short last (by simp [Path.child])
  have reaches : d.Reaches p place := find_eq_ok found
  have child := find_child true reaches ⟨isName.notDot, isName.notDots, short⟩
    fun target isLink => by
      rw [stands, Option.some.injEq] at isLink
      exact absurd isLink (noLink target)
  rw [child, stands] at looked
  split at looked
  · cases looked
  · rw [Except.ok.injEq, Prod.mk.injEq, Option.some.injEq] at looked
    exact looked.2.symm

end Disk
end SourceIndex
