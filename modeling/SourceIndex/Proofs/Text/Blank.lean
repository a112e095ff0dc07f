import SourceIndex.Proofs.Text.Lines
import SourceIndex.Proofs.Text.Lower
import SourceIndex.Text.Blank
import Mathlib.Data.List.DropRight
import Mathlib.Data.List.TakeWhile
/-!
# Blanks

A line feed is blank. So a text is blank if all of its lines are, in whatever way it is cut into
lines.

No letter has a blank for its lower-case partner. So text without blanks at its ends has none there
in lower case either, and to trim and lower-case it once more changes nothing.
-/

namespace SourceIndex.Text

/-! ### Blank lines -/

theorem isBlankChar_lineFeed : isBlankChar '\n' = true := by decide +kernel

theorem isBlank_append (first second : String) :
    isBlank (first ++ second) = (isBlank first && isBlank second) := by
  rw [isBlank, String.toList_append, List.all_append]
  rfl

theorem trim_eq_empty_iff (s : String) : trim s = "" ↔ isBlank s = true := by
  have none (cs : List Char) : cs.dropWhile isBlankChar = [] ↔ cs.all isBlankChar = true := by
    rw [List.dropWhile_eq_nil_iff, List.all_eq_true]
  have chars : trim s = "" ↔ trimChars s.toList = [] := by
    rw [trim, ← String.toList_inj, String.toList_ofList]
    rfl
  rw [chars, trimChars, List.reverse_eq_nil_iff, none, List.all_reverse, isBlank]
  conv_rhs =>
    rw [← List.takeWhile_append_dropWhile (p := isBlankChar) (l := s.toList), List.all_append,
      List.all_takeWhile, Bool.true_and]

theorem all_joinPieces {separator : Char} {holds : Char → Bool} (held : holds separator = true)
    (found : List (List Char)) :
    (joinPieces separator found).all holds = found.all (·.all holds) := by
  unfold joinPieces
  induction found with
  | nil => rfl
  | cons piece rest ih =>
    cases rest with
    | nil => simp
    | cons next more =>
      rw [List.intercalate_cons_of_ne_nil (List.cons_ne_nil next more), List.all_append,
        List.all_append, ih, List.all_cons]
      simp [held]

theorem isBlank_unlines (ls : List String) : isBlank (unlines ls) = ls.all isBlank := by
  rw [isBlank, unlines, joinWith, String.toList_ofList, all_joinPieces isBlankChar_lineFeed,
    List.all_map]
  rfl

theorem all_isBlank_splitOn (s : String) : (splitOn '\n' s).all isBlank = isBlank s := by
  rw [← isBlank_unlines, unlines_splitOn]

theorem all_isBlank_lines (s : String) : (lines s).all isBlank = isBlank s := by
  rw [← all_isBlank_splitOn, lines]
  split
  · rename_i last
    -- The line that is left out is empty.
    have whole := List.dropLast_append_getLast? "" last
    conv_rhs => rw [← whole]
    have empty : isBlank "" = true := by decide +kernel
    simp [empty]
  · rfl

/-! ### Trimming -/

structure IsTrimmed (cs : List Char) : Prop where
  first : ∀ c, cs.head? = some c → isBlankChar c = false
  last : ∀ c, cs.getLast? = some c → isBlankChar c = false

theorem trimChars_eq (cs : List Char) :
    trimChars cs = (cs.dropWhile isBlankChar).rdropWhile isBlankChar := rfl

theorem isTrimmed_trimChars (cs : List Char) : IsTrimmed (trimChars cs) where
  first c head := by
    rw [trimChars_eq] at head
    -- What is cut off at the end leaves the first character in its place.
    obtain ⟨cut, whole⟩ := List.rdropWhile_prefix isBlankChar (cs.dropWhile isBlankChar)
    have start : (cs.dropWhile isBlankChar).head? = some c := by
      rw [← whole, List.head?_append, head]
      rfl
    have kept := List.head?_dropWhile_not isBlankChar cs
    rw [start] at kept
    simpa using kept
  last c tail := by
    rw [trimChars_eq] at tail
    obtain ⟨some, rfl⟩ := List.mem_getLast?_eq_getLast tail
    exact Bool.eq_false_iff.mpr (List.rdropWhile_last_not isBlankChar _ some)

theorem trimChars_of_isTrimmed {cs : List Char} (trimmed : IsTrimmed cs) : trimChars cs = cs := by
  have first : cs.dropWhile isBlankChar = cs := by
    refine List.dropWhile_eq_self_iff.mpr fun some => ?_
    rw [trimmed.first cs[0] (List.head?_eq_getElem? ▸ List.getElem?_eq_getElem some)]
    exact Bool.false_ne_true
  rw [trimChars_eq, first]
  refine List.rdropWhile_eq_self_iff.mpr fun some => ?_
  rw [trimmed.last _ (List.getLast?_eq_getLast_of_ne_nil some)]
  exact Bool.false_ne_true

/-! ### Blanks have no capitals -/

def blankRuns : List CaseRun := blankRanges.map fun range => ⟨range.1, range.2, 1, 0⟩

theorem blankRuns_isApart :
    (lowerRuns.all fun run => blankRuns.all fun blank => run.isApart blank) = true := by
  decide +kernel

theorem exists_partner?_of_isBlankChar {c : Char} (blank : isBlankChar c = true) :
    ∃ run ∈ blankRuns, run.partner? c.toNat ≠ none := by
  rw [isBlankChar, Ranges.has, List.any_eq_true] at blank
  obtain ⟨range, member, inside⟩ := blank
  refine ⟨_, List.mem_map_of_mem member, ?_⟩
  simp [CaseRun.partner?, inside, Nat.mod_one]

theorem isBlankChar_lowerChar {c : Char} (filled : isBlankChar c = false) :
    isBlankChar (lowerChar c) = false := by
  unfold lowerChar
  split
  · rename_i ascii
    have small : ∀ code < 0x80, isBlankChar (Char.ofNat code) = false →
        isBlankChar (Char.ofNat code).toLower = false := by decide +kernel
    have kept := small c.toNat ascii
    rw [Char.ofNat_toNat] at kept
    exact kept filled
  · cases found : lowerRuns.findSome? (·.partner? c.toNat) with
    | none => exact filled
    | some partner =>
      obtain ⟨run, member, partner⟩ := List.exists_of_findSome?_eq_some found
      obtain ⟨low, high, fits, rfl⟩ := CaseRun.exists_of_partner? partner
      by_cases valid : ((c.toNat : Int) + run.shift).toNat.isValidChar
      · have code : (Char.ofNat ((c.toNat : Int) + run.shift).toNat).toNat =
            ((c.toNat : Int) + run.shift).toNat := by
          rw [Char.ofNat, dif_pos valid]
          rfl
        rw [Option.getD_some, ← Bool.not_eq_true]
        intro blank
        obtain ⟨other, among, letter⟩ := exists_partner?_of_isBlankChar blank
        have apart := List.all_eq_true.mp (List.all_eq_true.mp blankRuns_isApart run member) other
          among
        rw [code] at letter
        exact letter (CaseRun.partner?_of_isApart apart (shift_le_first run member) low high fits)
      · rw [Option.getD_some, Char.ofNat, dif_neg valid]
        decide +kernel

theorem isBlankChar_of_mem_lowerInContext {before after : List Char} {c found : Char}
    (filled : isBlankChar c = false) (member : found ∈ lowerInContext before c after) :
    isBlankChar found = false := by
  unfold lowerInContext at member
  split at member
  · simp only [List.mem_cons, List.not_mem_nil, or_false] at member
    rcases member with rfl | rfl
    · decide +kernel
    · decide +kernel
  · split at member
    · split at member
      · rw [List.mem_singleton.mp member]
        decide +kernel
      · rw [List.mem_singleton.mp member]
        decide +kernel
    · rw [List.mem_singleton.mp member]
      exact isBlankChar_lowerChar filled

/-! ### The ends of text in lower case -/

theorem lowerInContext_ne_nil (before : List Char) (c : Char) (after : List Char) :
    lowerInContext before c after ≠ [] := by
  unfold lowerInContext
  split
  · simp
  · split
    · split <;> simp
    · simp

theorem exists_of_head?_lowerAfter {before cs : List Char} {found : Char}
    (head : (lowerAfter before cs).head? = some found) :
    ∃ c after, cs.head? = some c ∧ found ∈ lowerInContext before c after := by
  cases cs with
  | nil => cases head
  | cons c cs =>
    refine ⟨c, cs, rfl, ?_⟩
    rw [lowerAfter, List.head?_append_of_ne_nil _ (lowerInContext_ne_nil before c cs)] at head
    exact List.mem_of_head? head

theorem exists_of_getLast?_lowerAfter {before cs : List Char} {found : Char}
    (last : (lowerAfter before cs).getLast? = some found) :
    ∃ before' c, cs.getLast? = some c ∧ found ∈ lowerInContext before' c [] := by
  induction cs generalizing before with
  | nil => cases last
  | cons c cs ih =>
    rw [lowerAfter] at last
    cases cs with
    | nil =>
      rw [lowerAfter, List.append_nil] at last
      exact ⟨before, c, rfl, List.mem_of_getLast? last⟩
    | cons next rest =>
      have some : lowerAfter (c :: before) (next :: rest) ≠ [] := by
        rw [lowerAfter]
        exact List.append_ne_nil_of_left_ne_nil (lowerInContext_ne_nil _ _ _) _
      rw [List.getLast?_append_of_ne_nil _ some] at last
      obtain ⟨before', d, end_, member⟩ := ih last
      exact ⟨before', d, by rw [List.getLast?_cons_cons, end_], member⟩

theorem IsTrimmed.lowerAfter {cs : List Char} (trimmed : IsTrimmed cs) (before : List Char) :
    IsTrimmed (lowerAfter before cs) where
  first found head := by
    obtain ⟨c, after, start, member⟩ := exists_of_head?_lowerAfter head
    exact isBlankChar_of_mem_lowerInContext (trimmed.first c start) member
  last found tail := by
    obtain ⟨before', c, end_, member⟩ := exists_of_getLast?_lowerAfter tail
    exact isBlankChar_of_mem_lowerInContext (trimmed.last c end_) member

theorem isTrimmed_lower_trim (s : String) : IsTrimmed (lower (trim s)).toList := by
  rw [lower, String.toList_ofList, trim, String.toList_ofList]
  exact (isTrimmed_trimChars s.toList).lowerAfter []

theorem trim_of_isTrimmed {s : String} (trimmed : IsTrimmed s.toList) : trim s = s := by
  rw [trim, trimChars_of_isTrimmed trimmed, String.ofList_toList]

theorem lower_trim_lower_trim (s : String) :
    lower (trim (lower (trim s))) = lower (trim s) := by
  rw [trim_of_isTrimmed (isTrimmed_lower_trim s), lower_lower]

end SourceIndex.Text
