import SourceIndex.Proofs.Text.Lines
import SourceIndex.Structure.Ladder
/-!
# Sanitized sources

Sanitizing leaves out the control characters and the carriage returns and nothing else, in whatever
order they stand. Line feeds stay, so every line is where it was and only loses characters of its
own. A source that is sanitized already stays as it is.
-/

namespace SourceIndex.Source

/-! ### Sanitizing -/

theorem filter_joinLineEnds (cs : List Char) :
    (joinLineEnds cs).filter (· ≠ '\r') = cs.filter (· ≠ '\r') := by
  induction cs with
  | nil => rfl
  | cons c cs ih =>
    rw [joinLineEnds]
    split
    · rename_i ends
      have here : c = '\r' := by simp at ends; exact ends.1
      rw [ih, here]
      rfl
    · by_cases here : c = '\r'
      · rw [here, List.filter_cons_of_neg (by simp), List.filter_cons_of_neg (by simp), ih]
      · rw [List.filter_cons_of_pos (by simpa using here),
          List.filter_cons_of_pos (by simpa using here), ih]

theorem sanitizeChars_eq (cs : List Char) :
    sanitizeChars cs = cs.filter fun c => !isControl c && c ≠ '\r' := by
  rw [sanitizeChars, filter_joinLineEnds, List.filter_filter]
  simp only [Bool.and_comm]

/-! ### Stray characters -/

/-- A carriage return, or a control character other than tab and line feed. -/
def IsStray (c : Char) : Prop :=
  c = '\r' ∨ c ≤ '\x08' ∨ c = '\x0b' ∨ c = '\x0c' ∨ '\x0e' ≤ c ∧ c ≤ '\x1f' ∨ c = '\x7f'

instance (c : Char) : Decidable (IsStray c) :=
  inferInstanceAs (Decidable (c = '\r' ∨ c ≤ '\x08' ∨ c = '\x0b' ∨ c = '\x0c' ∨
    '\x0e' ≤ c ∧ c ≤ '\x1f' ∨ c = '\x7f'))

theorem isStray_iff (c : Char) : IsStray c ↔ isControl c = true ∨ c = '\r' := by
  simp only [IsStray, isControl, Char.le_def, UInt32.le_iff_toNat_le, ← Char.toNat_inj,
    Bool.or_eq_true, Bool.and_eq_true, decide_eq_true_eq, Char.reduceToNat, Char.reduceVal,
    UInt32.reduceToNat, Char.toNat_val]
  omega

def withoutStray (cs : List Char) : List Char := cs.filter fun c => ¬ IsStray c

theorem toList_sanitize (content : String) :
    (sanitize content).toList = withoutStray content.toList := by
  rw [sanitize, String.toList_ofList, sanitizeChars_eq, withoutStray]
  congr 1
  funext c
  rw [Bool.eq_iff_iff]
  simp [isStray_iff]

theorem withoutStray_withoutStray (cs : List Char) :
    withoutStray (withoutStray cs) = withoutStray cs := by
  simp [withoutStray, List.filter_filter]

theorem sanitize_withoutZeros (content : String) :
    sanitize (withoutZeros content) = sanitize content := by
  apply String.toList_inj.mp
  rw [toList_sanitize, toList_sanitize, withoutZeros, String.toList_ofList, withoutStray,
    withoutStray, List.filter_filter]
  congr 1
  funext c
  by_cases zero : c = '\x00'
  · rw [zero]
    decide
  · simp [zero]

/-! ### Lines -/

/-- The lines of a sanitized source are those of the source without their stray characters. -/
theorem splitOn_sanitize (content : String) : Text.splitOn '\n' (sanitize content) =
    (Text.splitOn '\n' content).map fun line => String.ofList (withoutStray line.toList) := by
  have whole : sanitize content = String.ofList (withoutStray content.toList) := by
    rw [← toList_sanitize, String.ofList_toList]
  rw [whole, withoutStray, Text.splitOn_filter (by decide)]
  rfl

/-- A sanitized source has as many lines as the source, and each of them is the line of the source
with the same number without its stray characters. Sanitizing again changes nothing. -/
theorem sanitize_keeps_lines (content : String) :
    (Text.splitOn '\n' (sanitize content)).length = (Text.splitOn '\n' content).length ∧
    (∀ i : Nat, (Text.splitOn '\n' (sanitize content))[i]? =
      (Text.splitOn '\n' content)[i]?.map fun line => String.ofList (withoutStray line.toList)) ∧
    sanitize (sanitize content) = sanitize content := by
  have lines := splitOn_sanitize content
  refine ⟨?_, fun i => ?_, ?_⟩
  · rw [lines, List.length_map]
  · rw [lines, List.getElem?_map]
  · apply String.toList_inj.mp
    rw [toList_sanitize, toList_sanitize, withoutStray_withoutStray]

/-- A control character between a carriage return and a line feed hides no line end. -/
example : sanitize "a\r\x01\r\nb\x00\tc\r" = "a\nb\tc" := by decide

end SourceIndex.Source
