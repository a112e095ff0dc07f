import SourceIndex.Path.Basic
import SourceIndex.Proofs.Text.Ascii
/-!
# Suffixes of file names

The suffix of a name is what its last dot starts, if something stands before the dot and after it.
So it is the suffix of whatever ends with it, and an ASCII suffix may be taken before or after the
name is put into lower case.
-/

namespace SourceIndex.Path

open Text (IsAscii)

/-! ### Suffixes and dots -/

theorem takeWhile_noDot {cs : List Char} (clear : '.' ∉ cs) : cs.takeWhile (· ≠ '.') = cs := by
  rw [List.takeWhile_eq_self_iff]
  intro c member
  rw [decide_eq_true_eq]
  rintro rfl
  exact clear member

theorem takeWhile_reverse_of_dot {front extension : List Char} (last : '.' ∉ extension) :
    (front ++ '.' :: extension).reverse.takeWhile (· ≠ '.') = extension.reverse := by
  have clear := takeWhile_noDot (mt List.mem_reverse.mp last)
  rw [List.reverse_append, List.reverse_cons, List.append_assoc, List.takeWhile_append, clear,
    if_pos rfl]
  simp

/-- What the last dot starts is the suffix, unless the dot is the first or the last character. -/
theorem suffixChars_of_dot (front : List Char) {extension : List Char} (last : '.' ∉ extension) :
    suffixChars (front ++ '.' :: extension) =
      if front = [] ∨ extension = [] then [] else '.' :: extension := by
  simp only [suffixChars, takeWhile_reverse_of_dot last, List.reverse_reverse, Bool.or_eq_true,
    List.isEmpty_iff, decide_eq_true_eq, List.length_append, List.length_cons]
  congr 1
  rw [or_comm, ← List.length_eq_zero_iff (l := front), eq_iff_iff]
  constructor
  · rintro (short | none)
    · exact .inl (by omega)
    · exact .inr none
  · rintro (short | none)
    · exact .inl (by omega)
    · exact .inr none

theorem suffixChars_of_noDot {cs : List Char} (clear : '.' ∉ cs) : suffixChars cs = [] := by
  have all := takeWhile_noDot (mt List.mem_reverse.mp clear)
  simp only [suffixChars, all, List.reverse_reverse]
  rw [if_pos]
  rw [Bool.or_eq_true, decide_eq_true_eq]
  exact .inr (by omega)

theorem exists_of_suffixChars {cs : List Char} (some : suffixChars cs ≠ []) :
    ∃ front extension, cs = front ++ '.' :: extension ∧ front ≠ [] ∧ extension ≠ [] ∧
      '.' ∉ extension ∧ suffixChars cs = '.' :: extension := by
  have dot : '.' ∈ cs := by
    by_contra none
    exact some (suffixChars_of_noDot none)
  obtain ⟨extension, front, split, last⟩ :=
    List.eq_append_cons_of_mem (List.mem_reverse.mpr dot)
  have whole : cs = front.reverse ++ '.' :: extension.reverse := by
    rw [← List.reverse_reverse cs, split]
    simp
  have suffix := suffixChars_of_dot front.reverse (mt List.mem_reverse.mp last)
  rw [← whole] at suffix
  split at suffix
  · exact absurd suffix some
  · rename_i filled
    rw [not_or] at filled
    exact ⟨front.reverse, extension.reverse, whole, filled.1, filled.2, mt List.mem_reverse.mp last,
      suffix⟩

/-- What ends with a name that has a suffix has the same one. -/
theorem suffixChars_append (front : List Char) {cs : List Char} (some : suffixChars cs ≠ []) :
    suffixChars (front ++ cs) = suffixChars cs := by
  obtain ⟨first, extension, rfl, filled, more, last, suffix⟩ := exists_of_suffixChars some
  rw [suffix, ← List.append_assoc, suffixChars_of_dot (front ++ first) last, if_neg]
  simp [filled, more]

theorem getLast?_suffixChars {cs : List Char} (some : suffixChars cs ≠ []) :
    (suffixChars cs).getLast? = cs.getLast? := by
  obtain ⟨front, extension, rfl, -, -, -, suffix⟩ := exists_of_suffixChars some
  rw [suffix, List.getLast?_append_of_ne_nil _ (List.cons_ne_nil '.' extension)]

/-! ### Suffixes in lower case -/

theorem toList_lowerName (path : String) :
    (lowerName path).toList = Text.lowerAfter [] (nameOf path).toList := by
  rw [lowerName, Text.lower, String.toList_ofList]

theorem toList_lowerSuffix (path : String) :
    (lowerSuffix path).toList = Text.lowerAfter [] (suffixChars (nameOf path).toList) := by
  rw [lowerSuffix, Text.lower, suffixOf, String.toList_ofList, String.toList_ofList]

theorem toList_lowerSuffix_of_ascii (path : String)
    (some : suffixChars (lowerName path).toList ≠ [])
    (ascii : IsAscii (suffixChars (lowerName path).toList)) :
    (lowerSuffix path).toList = suffixChars (lowerName path).toList := by
  obtain ⟨first, extension, whole, filled, more, last, suffix⟩ := exists_of_suffixChars some
  rw [suffix] at ascii ⊢
  rw [toList_lowerName] at whole
  rw [toList_lowerSuffix]
  obtain ⟨front, back, split, start, low⟩ := Text.exists_of_lowerAfter_append whole ascii
  have before : front ≠ [] := fun empty => filled (start empty)
  -- The dot of the suffix is a dot of the name, and no other one comes after it.
  have here := low []
  cases back with
  | nil => cases here
  | cons c rest =>
    have made : '.' ∈ Text.lowerInContext [] c rest := by
      have head := congrArg List.head? here
      rw [Text.lowerAfter, List.head?_append_of_ne_nil _ (Text.lowerInContext_ne_nil [] c rest)]
        at head
      exact List.mem_of_head? head
    have dot : c = '.' := Text.eq_of_mem_lowerInContext (by decide) (by decide) made
    subst dot
    have isLower : Text.IsLower '.' := by decide +kernel
    have later : Text.lowerAfter ['.'] rest = extension := by
      rw [Text.lowerAfter, Text.lowerInContext_of_isLower isLower] at here
      exact (List.cons.inj here).2
    have noDot : '.' ∉ rest := by
      intro member
      apply last
      rw [← later]
      exact Text.mem_lowerAfter isLower member _
    have after : rest ≠ [] := by
      rintro rfl
      exact more later.symm
    rw [split, suffixChars_of_dot front noDot, if_neg (not_or.mpr ⟨before, after⟩), low []]

/-- Where a name in lower case ends with an ASCII character that is no letter, so does its suffix,
if there is one. -/
theorem getLast?_lowerSuffix {path : String} {c d : Char} (ascii : c.toNat < 0x80)
    (noLetter : c.isAlpha = false) (end_ : (lowerName path).toList.getLast? = some c)
    (suffix : (lowerSuffix path).toList.getLast? = some d) : d = c := by
  rw [toList_lowerName] at end_
  rw [toList_lowerSuffix] at suffix
  obtain ⟨before, last, here, member⟩ := Text.exists_of_getLast?_lowerAfter end_
  obtain ⟨before', last', there, member'⟩ := Text.exists_of_getLast?_lowerAfter suffix
  have some : suffixChars (nameOf path).toList ≠ [] := by
    intro none
    rw [none] at there
    cases there
  rw [getLast?_suffixChars some, here, Option.some.injEq] at there
  have same := Text.eq_of_mem_lowerInContext ascii noLetter member
  subst same there
  have isLower : Text.IsLower last := Text.isLower_of_mem_lowerInContext member
  rw [Text.lowerInContext_of_isLower isLower] at member'
  exact List.mem_singleton.mp member'

end SourceIndex.Path
