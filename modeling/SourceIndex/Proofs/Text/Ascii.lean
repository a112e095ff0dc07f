import SourceIndex.Proofs.Text.Blank
import SourceIndex.Proofs.Text.Decode
/-!
# ASCII text

ASCII text takes one byte for each character, and the lines of a file are those that were written to
it.

No letter outside ASCII has an ASCII letter for its lower-case partner, the Kelvin sign apart. So
where the lower-case form of a text is ASCII, it was made character by character, whatever stood
around the text, and what is no letter in it was there before.
-/

namespace SourceIndex.Text

def IsAscii (cs : List Char) : Prop := ∀ c ∈ cs, c.toNat < 0x80

-- not a search through all characters
instance (cs : List Char) : Decidable (IsAscii cs) := List.decidableBAll _ cs

namespace Utf8

theorem encodeChar_of_ascii {c : Char} (ascii : c.toNat < 0x80) :
    encodeChar c = [.ofNat c.toNat] := by
  simp [encodeChar, ascii]

theorem encodeChars_of_ascii {cs : List Char} (ascii : IsAscii cs) :
    encodeChars cs = cs.map fun c => .ofNat c.toNat := by
  induction cs with
  | nil => rfl
  | cons c cs ih =>
    have rest : encodeChars cs = cs.map fun c => .ofNat c.toNat :=
      ih fun other member => ascii other (List.mem_cons_of_mem _ member)
    rw [encodeChars, List.flatMap_cons, encodeChar_of_ascii (ascii c (List.mem_cons_self ..)),
      ← encodeChars, rest]
    rfl

end Utf8

/-! ### Lines -/

theorem universalChars_of_not_mem {cs : List Char} (noReturn : '\r' ∉ cs) :
    universalChars cs = cs := by
  have all : (cs.foldr
      (fun c (found : List Char × Bool) =>
        if c = '\r' then (if found.2 then found.1 else '\n' :: found.1, false)
        else (c :: found.1, c = '\n'))
      ([], false)).1 = cs := by
    induction cs with
    | nil => rfl
    | cons c cs ih =>
      rw [List.mem_cons, not_or] at noReturn
      rw [List.foldr_cons, if_neg (Ne.symm noReturn.1)]
      exact congrArg (c :: ·) (ih noReturn.2)
  exact all

theorem splitOn_flatMap {separator : Char} {parts : List String}
    (inside : ∀ part ∈ parts, separator ∉ part.toList) :
    splitOn separator (String.ofList (parts.flatMap fun part => part.toList ++ [separator])) =
      parts ++ [""] := by
  rw [splitOn, String.toList_ofList]
  induction parts with
  | nil => rfl
  | cons part rest ih =>
    have later := ih fun other member => inside other (List.mem_cons_of_mem _ member)
    rw [List.flatMap_cons, List.append_assoc, List.singleton_append,
      pieces_append, pieces_of_not_mem (inside part (List.mem_cons_self ..)), List.map_append,
      later, List.map_singleton, String.ofList_toList, List.singleton_append, List.cons_append]

/-! ### Lower case: the table -/

/-- Whether the run is one of ASCII letters, or all its partners are characters outside ASCII. -/
def CaseRun.keepsOutside (run : CaseRun) : Bool :=
  let low := ((run.first : Int) + run.shift).toNat
  let high := ((run.last : Int) + run.shift).toNat
  Nat.blt run.last 0x80 ||
    Nat.ble 0x80 low && (Nat.blt high 0xD800 || Nat.ble 0xE000 low && Nat.blt high 0x110000)

/-- The Kelvin sign is the one letter outside ASCII with a partner in it. -/
theorem runs_keepOutside : ∀ run ∈ lowerRuns,
    run.keepsOutside = true ∨ run.first = 0x212A ∧ run.last = 0x212A := by
  decide +kernel

theorem toNat_ofNat_of_isValidChar {code : Nat} (valid : code.isValidChar) :
    (Char.ofNat code).toNat = code := by
  rw [Char.ofNat, dif_pos valid]
  rfl

theorem ascii_of_lowerChar {c : Char} (ascii : (lowerChar c).toNat < 0x80) :
    c.toNat < 0x80 ∨ c = '\u212a' := by
  by_contra outside
  rw [not_or, not_lt] at outside
  obtain ⟨large, other⟩ := outside
  unfold lowerChar at ascii
  rw [if_neg (by omega)] at ascii
  cases found : lowerRuns.findSome? (·.partner? c.toNat) with
  | none =>
    rw [found, Option.getD_none] at ascii
    omega
  | some partner =>
    rw [found, Option.getD_some] at ascii
    obtain ⟨run, member, partner⟩ := List.exists_of_findSome?_eq_some found
    obtain ⟨low, high, -, rfl⟩ := CaseRun.exists_of_partner? partner
    have natural := shift_le_first run member
    cases runs_keepOutside run member with
    | inr kelvin =>
      have same : c.toNat = '\u212a'.toNat := by
        have code : '\u212a'.toNat = 0x212A := rfl
        omega
      exact other (Char.toNat_inj.mp same)
    | inl keeps =>
      simp only [CaseRun.keepsOutside, Bool.or_eq_true, Bool.and_eq_true, Nat.blt_eq,
        Nat.ble_eq] at keeps
      have valid : ((c.toNat : Int) + run.shift).toNat.isValidChar := by
        unfold Nat.isValidChar
        omega
      rw [toNat_ofNat_of_isValidChar valid] at ascii
      omega

theorem eq_of_mem_lowerInContext {before after : List Char} {c found : Char}
    (ascii : found.toNat < 0x80) (noLetter : found.isAlpha = false)
    (member : found ∈ lowerInContext before c after) : c = found := by
  unfold lowerInContext at member
  split at member
  · simp only [List.mem_cons, List.not_mem_nil, or_false] at member
    rcases member with rfl | rfl
    · exact absurd noLetter (by decide)
    · exact absurd ascii (by decide)
  · split at member
    · split at member
      · rw [List.mem_singleton.mp member] at ascii
        exact absurd ascii (by decide)
      · rw [List.mem_singleton.mp member] at ascii
        exact absurd ascii (by decide)
    · rw [List.mem_singleton.mp member] at ascii noLetter ⊢
      rcases ascii_of_lowerChar ascii with small | rfl
      · have kept : ∀ code < 0x80, (lowerChar (Char.ofNat code)).isAlpha = false →
            Char.ofNat code = lowerChar (Char.ofNat code) := by decide +kernel
        have same := kept c.toNat small
        rw [Char.ofNat_toNat] at same
        exact same noLetter
      · exact absurd noLetter (by decide +kernel)

/-! ### Lower case: texts -/

theorem lowerInContext_of_isLower {c : Char} (low : IsLower c) (before after : List Char) :
    lowerInContext before c after = [c] := by
  rw [lowerInContext, if_neg low.notDotted, if_neg low.notSigma, low.kept]

theorem mem_lowerAfter {c : Char} (low : IsLower c) {cs : List Char} (member : c ∈ cs)
    (before : List Char) : c ∈ lowerAfter before cs := by
  induction cs generalizing before with
  | nil => cases member
  | cons d cs ih =>
    rw [lowerAfter, List.mem_append]
    rcases List.mem_cons.mp member with rfl | later
    · rw [lowerInContext_of_isLower low]
      exact .inl (List.mem_singleton_self c)
    · exact .inr (ih later _)

theorem lowerInContext_of_ascii {before after : List Char} {c : Char}
    (ascii : IsAscii (lowerInContext before c after)) (before' after' : List Char) :
    lowerInContext before' c after' = [lowerChar c] := by
  have notDotted : c ≠ '\u0130' := by
    rintro rfl
    exact absurd (ascii '\u0307' (by simp [lowerInContext])) (by decide)
  have notSigma : c ≠ '\u03a3' := by
    rintro rfl
    unfold lowerInContext at ascii
    rw [if_neg (by decide), if_pos rfl] at ascii
    split at ascii
    · exact absurd ascii (by decide)
    · exact absurd ascii (by decide)
  rw [lowerInContext, if_neg notDotted, if_neg notSigma]

theorem isAscii_append {first second : List Char} :
    IsAscii (first ++ second) ↔ IsAscii first ∧ IsAscii second := by
  simp [IsAscii, or_imp, forall_and]

theorem lowerAfter_of_ascii {before cs : List Char} (ascii : IsAscii (lowerAfter before cs))
    (before' : List Char) : lowerAfter before' cs = cs.map lowerChar := by
  induction cs generalizing before before' with
  | nil => rfl
  | cons c cs ih =>
    rw [lowerAfter, isAscii_append] at ascii
    rw [lowerAfter, lowerInContext_of_ascii ascii.1, ih ascii.2, List.map_cons]
    rfl

/-- No ASCII character is the second one of two that are made of one. -/
theorem eq_nil_of_lowerInContext {before after first rest : List Char} {c : Char}
    (split : lowerInContext before c after = first ++ rest) (some : first ≠ [])
    (ascii : IsAscii rest) : rest = [] := by
  by_contra more
  have two : 2 ≤ (lowerInContext before c after).length := by
    have here := List.length_pos_iff.mpr some
    have there := List.length_pos_iff.mpr more
    rw [split, List.length_append]
    omega
  have dotted : c = '\u0130' := by
    by_contra other
    rw [lowerInContext, if_neg other] at two
    split_ifs at two
    all_goals simp at two
  have last : '\u0307' ∈ rest := by
    have end_ : (first ++ rest).getLast? = Option.some '\u0307' := by
      rw [← split, dotted]
      rfl
    rw [List.getLast?_append_of_ne_nil _ more] at end_
    exact List.mem_of_getLast? end_
  exact absurd (ascii _ last) (by decide)

/-- An ASCII end of a text in lower case is the lower-case form of an end of the text, which is the
whole only if it is the whole. -/
theorem exists_of_lowerAfter_append {before cs first rest : List Char}
    (split : lowerAfter before cs = first ++ rest) (ascii : IsAscii rest) :
    ∃ front back, cs = front ++ back ∧ (front = [] → first = []) ∧
      ∀ other, lowerAfter other back = rest := by
  have whole {before cs : List Char} (all : lowerAfter before cs = rest) (other : List Char) :
      lowerAfter other cs = rest := by
    rw [← all] at ascii
    rw [← all, lowerAfter_of_ascii ascii, lowerAfter_of_ascii ascii]
  induction cs generalizing before first with
  | nil =>
    obtain ⟨none, empty⟩ := List.append_eq_nil_iff.mp split.symm
    exact ⟨[], [], rfl, fun _ => none, fun _ => empty.symm⟩
  | cons c cs ih =>
    by_cases none : first = []
    · rw [none] at split
      exact ⟨[], c :: cs, rfl, fun _ => none, whole split⟩
    · rw [lowerAfter] at split
      rcases List.append_eq_append_iff.mp split with ⟨more, -, later⟩ | ⟨more, here, end_⟩
      · obtain ⟨front, back, same, -, back'⟩ := ih later
        exact ⟨c :: front, back, by rw [same, List.cons_append],
          fun empty => absurd empty (List.cons_ne_nil c front), back'⟩
      · have alone : more = [] := by
          rw [end_, isAscii_append] at ascii
          exact eq_nil_of_lowerInContext here none ascii.1
        rw [alone, List.nil_append] at end_
        exact ⟨[c], cs, rfl, fun empty => absurd empty (List.cons_ne_nil c []), whole end_.symm⟩

end SourceIndex.Text
