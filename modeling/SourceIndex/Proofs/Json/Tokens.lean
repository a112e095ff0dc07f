import SourceIndex.Json.Reader
import SourceIndex.Json.Writer
/-!
# Texts and integers in documents

A text between quotes is read back as it was written, whatever characters it holds, and what is
written of it is ASCII. An integer is read back as it was written, if it does not have too many
digits and what follows it does not go on with it.
-/

namespace SourceIndex.Json

/-! ### Codes -/

theorem hexValue?_digitChar {d : Nat} (small : d < 16) :
    hexValue? (Nat.digitChar d) = some d := by
  have all : ∀ d < 16, hexValue? (Nat.digitChar d) = some d := by decide
  exact all d small

theorem readCode_codeDigits {code : Nat} (small : code < 0x10000) (tail : List Char) :
    readCode (codeDigits code ++ tail) = .ok (code, tail) := by
  have digit (weight : Nat) : hexValue? (Nat.digitChar (code / weight % 16)) =
      some (code / weight % 16) := hexValue?_digitChar (Nat.mod_lt _ (by decide))
  have value : ((code / 4096 % 16 * 16 + code / 256 % 16) * 16 + code / 16 % 16) * 16 +
      code / 1 % 16 = code := by omega
  simp only [codeDigits, List.map_cons, List.map_nil, List.cons_append, List.nil_append, readCode,
    digit, value]

theorem charOfCode_toNat (c : Char) : charOfCode c.toNat = c := by
  have valid := c.valid
  unfold charOfCode
  rw [if_neg, Char.ofNat_toNat]
  simp only [UInt32.isValidChar, Nat.isValidChar] at valid
  simp only [Bool.and_eq_true, decide_eq_true_eq, not_and, Nat.not_lt, Char.toNat]
  omega

theorem readUnicode_codeDigits {c : Char} (small : c.toNat < 0x10000) (tail : List Char) :
    readUnicode (codeDigits c.toNat ++ tail) = .ok (c, tail) := by
  have valid := c.valid
  simp only [UInt32.isValidChar, Nat.isValidChar] at valid
  unfold readUnicode
  rw [readCode_codeDigits small]
  simp only
  rw [if_neg, charOfCode_toNat]
  simp only [Bool.and_eq_true, decide_eq_true_eq, not_and, Nat.not_lt, Char.toNat]
  omega

/-- A high and a low surrogate are read as one character. -/
theorem readUnicode_pair {high low : Nat} (isHigh : 0xD800 ≤ high ∧ high < 0xDC00)
    (isLow : 0xDC00 ≤ low ∧ low < 0xE000) (tail : List Char) :
    readUnicode (codeDigits high ++ '\\' :: 'u' :: (codeDigits low ++ tail)) =
      .ok (Char.ofNat (0x10000 + (high - 0xD800) * 0x400 + (low - 0xDC00)), tail) := by
  unfold readUnicode
  rw [readCode_codeDigits (by omega)]
  simp only
  rw [if_pos (by simpa using isHigh), readCode_codeDigits (by omega)]
  simp only
  rw [if_pos (by simpa using isLow)]

theorem readUnicode_surrogates {c : Char} (large : 0x10000 ≤ c.toNat) (tail : List Char) :
    readUnicode (codeDigits (0xD800 + (c.toNat - 0x10000) / 0x400) ++
      '\\' :: 'u' :: (codeDigits (0xDC00 + (c.toNat - 0x10000) % 0x400) ++ tail)) =
        .ok (c, tail) := by
  have bound : c.toNat < 0x110000 := by
    have valid := c.valid
    simp only [UInt32.isValidChar, Nat.isValidChar] at valid
    simp only [Char.toNat]
    omega
  have whole : 0x10000 + (0xD800 + (c.toNat - 0x10000) / 0x400 - 0xD800) * 0x400 +
      (0xDC00 + (c.toNat - 0x10000) % 0x400 - 0xDC00) = c.toNat := by omega
  have isHigh : 0xD800 ≤ 0xD800 + (c.toNat - 0x10000) / 0x400 ∧
      0xD800 + (c.toNat - 0x10000) / 0x400 < 0xDC00 := by omega
  have isLow : 0xDC00 ≤ 0xDC00 + (c.toNat - 0x10000) % 0x400 ∧
      0xDC00 + (c.toNat - 0x10000) % 0x400 < 0xE000 := by omega
  rw [readUnicode_pair isHigh isLow, whole, Char.ofNat_toNat]

/-! ### Characters -/

theorem eq_of_toNat_eq {c : Char} (other : Char) (same : c.toNat = other.toNat) : c = other := by
  rw [← Char.ofNat_toNat c, same, Char.ofNat_toNat]

theorem readText_writeChar (c : Char) (done : List Char) (fuel : Nat) (tail : List Char) :
    readText done (fuel + 1) (writeChar c ++ tail) = readText (c :: done) fuel tail := by
  unfold writeChar
  simp only
  split
  · rename_i same
    subst same
    rfl
  split
  · rename_i same
    subst same
    rfl
  split
  · rename_i same
    subst same
    rfl
  split
  · rename_i same
    subst same
    rfl
  split
  · rename_i same
    subst same
    rfl
  split
  · rename_i same
    rw [eq_of_toNat_eq '\x08' same]
    rfl
  split
  · rename_i same
    rw [eq_of_toNat_eq '\x0c' same]
    rfl
  split
  · rename_i notQuote notBackslash _ _ _ _ _ printable
    simp only [Bool.and_eq_true, decide_eq_true_eq] at printable
    simp only [List.cons_append, List.nil_append, readText, notQuote, notBackslash, if_false]
    rw [if_neg (by omega)]
  split
  · rename_i small
    simp only [List.cons_append, readText]
    rw [readUnicode_codeDigits small]
    simp
  · rename_i large
    simp only [List.cons_append, List.append_assoc, readText]
    rw [readUnicode_surrogates (by omega)]
    simp

theorem length_writeChar_pos (c : Char) : 0 < (writeChar c).length := by
  unfold writeChar
  simp only
  repeat' split
  all_goals simp

/-! ### Texts -/

theorem readText_flatMap_writeChar (cs done : List Char) {fuel : Nat}
    (enough : (cs.flatMap writeChar).length < fuel) (rest : List Char) :
    readText done fuel (cs.flatMap writeChar ++ '"' :: rest) = .ok (done.reverse ++ cs, rest) := by
  induction cs generalizing done fuel with
  | nil =>
    cases fuel with
    | zero => omega
    | succ fuel => simp [readText]
  | cons c cs ih =>
    have first := length_writeChar_pos c
    rw [List.flatMap_cons, List.length_append] at enough
    cases fuel with
    | zero => omega
    | succ fuel =>
      rw [List.flatMap_cons, List.append_assoc, readText_writeChar, ih _ (by omega)]
      simp

def IsPlain (c : Char) : Prop := 0x20 ≤ c.toNat ∧ c.toNat < 0x7F

instance (c : Char) : Decidable (IsPlain c) := inferInstanceAs (Decidable (_ ∧ _))

theorem isPlain_of_all (chars : List Char)
    (all : chars.all (fun c => decide (IsPlain c)) = true) {c : Char} (member : c ∈ chars) :
    IsPlain c :=
  of_decide_eq_true (List.all_eq_true.mp all c member)

theorem isPlain_digitChar {d : Nat} (small : d < 16) : IsPlain (Nat.digitChar d) := by
  have all : ∀ d < 16, IsPlain (Nat.digitChar d) := by decide
  exact all d small

theorem isPlain_of_mem_codeDigits {code : Nat} {c : Char} (member : c ∈ codeDigits code) :
    IsPlain c := by
  obtain ⟨weight, -, rfl⟩ := List.mem_map.mp member
  exact isPlain_digitChar (Nat.mod_lt _ (by decide))

theorem isPlain_of_mem_escape {code : Nat} {c : Char}
    (member : c ∈ '\\' :: 'u' :: codeDigits code) : IsPlain c := by
  rcases List.mem_cons.mp member with here | later
  · subst here
    decide
  rcases List.mem_cons.mp later with here | later
  · subst here
    decide
  · exact isPlain_of_mem_codeDigits later

theorem isPlain_of_mem_writeChar {c other : Char} (member : other ∈ writeChar c) :
    IsPlain other := by
  unfold writeChar at member
  simp only at member
  split at member
  · exact isPlain_of_all _ (by decide) member
  split at member
  · exact isPlain_of_all _ (by decide) member
  split at member
  · exact isPlain_of_all _ (by decide) member
  split at member
  · exact isPlain_of_all _ (by decide) member
  split at member
  · exact isPlain_of_all _ (by decide) member
  split at member
  · exact isPlain_of_all _ (by decide) member
  split at member
  · exact isPlain_of_all _ (by decide) member
  split at member
  · rename_i printable
    simp only [Bool.and_eq_true, decide_eq_true_eq] at printable
    rw [List.mem_singleton.mp member]
    exact printable
  split at member
  · exact isPlain_of_mem_escape member
  · rcases List.mem_append.mp member with high | low
    · exact isPlain_of_mem_escape high
    · exact isPlain_of_mem_escape low

theorem isPlain_of_mem_writeText {s : String} {c : Char} (member : c ∈ writeText s) :
    IsPlain c := by
  unfold writeText at member
  rcases List.mem_cons.mp member with here | later
  · subst here
    decide
  rcases List.mem_append.mp later with inside | last
  · obtain ⟨original, -, written⟩ := List.mem_flatMap.mp inside
    exact isPlain_of_mem_writeChar written
  · rw [List.mem_singleton.mp last]
    decide

/-! ### Integers -/

/-- What may stand after a number: nothing that could belong to it. -/
def Ends (rest : List Char) : Prop :=
  ∀ c, rest.head? = some c → isDigit c = false ∧ c ≠ '.' ∧ c ≠ 'e' ∧ c ≠ 'E'

theorem ends_nil : Ends [] := by
  intro c first
  cases first

theorem ends_cons {c : Char} {rest : List Char}
    (last : isDigit c = false ∧ c ≠ '.' ∧ c ≠ 'e' ∧ c ≠ 'E') : Ends (c :: rest) := by
  intro other first
  rw [← Option.some.inj first]
  exact last

/-! ### Digits -/

theorem isDigit_of_mem_toDigits {n : Nat} {c : Char} (member : c ∈ Nat.toDigits 10 n) :
    isDigit c = true :=
  Nat.isDigit_of_mem_toDigits (by decide) (by decide) member

theorem digitsValue_toDigits (n : Nat) : digitsValue (Nat.toDigits 10 n) = n := by
  have value : digitsValue (Nat.toDigits 10 n) = Nat.ofDigitChars 10 (Nat.toDigits 10 n) 0 := by
    unfold digitsValue Integer.ofDigits
    rw [List.foldl_map, Nat.ofDigitChars_eq_foldl]
    rfl
  rw [value, Nat.ofDigitChars_ten_toDigits]

theorem takeWhile_isDigit {ds rest : List Char} (digits : ∀ c ∈ ds, isDigit c = true)
    (ends : Ends rest) : (ds ++ rest).takeWhile isDigit = ds := by
  rw [List.takeWhile_append_of_pos digits]
  cases rest with
  | nil => simp
  | cons c rest => rw [List.takeWhile_cons_of_neg (by simp [(ends c rfl).1]), List.append_nil]

theorem dropWhile_isDigit {ds rest : List Char} (digits : ∀ c ∈ ds, isDigit c = true)
    (ends : Ends rest) : (ds ++ rest).dropWhile isDigit = rest := by
  rw [List.dropWhile_append_of_pos digits]
  cases rest with
  | nil => simp
  | cons c rest => rw [List.dropWhile_cons_of_neg (by simp [(ends c rfl).1])]

theorem head?_toDigits_ne_zero {n : Nat} (positive : 0 < n) :
    (Nat.toDigits 10 n).head? ≠ some '0' := by
  induction n using Nat.strongRecOn with
  | ind n ih =>
    rw [Nat.toDigits_eq_if (by decide)]
    split
    · rename_i small
      have all : ∀ d < 10, 0 < d → (Nat.digitChar d) ≠ '0' := by decide
      intro same
      exact all n small positive (Option.some.inj same)
    · have shorter := ih (n / 10) (by omega) (by omega)
      cases split : Nat.toDigits 10 (n / 10) with
      | nil => exact absurd split Nat.toDigits_ne_nil
      | cons d ds => rwa [split] at shorter

theorem readWhole_toDigits (n : Nat) {rest : List Char} (ends : Ends rest) :
    readWhole (Nat.toDigits 10 n ++ rest) = (Nat.toDigits 10 n, rest) := by
  cases n with
  | zero => simp [readWhole]
  | succ n =>
    have first := head?_toDigits_ne_zero (Nat.succ_pos n)
    have digits : ∀ c ∈ Nat.toDigits 10 (n + 1), isDigit c = true :=
      fun c member => isDigit_of_mem_toDigits member
    unfold readWhole
    split
    · rename_i more same
      cases split : Nat.toDigits 10 (n + 1) with
      | nil => exact absurd split Nat.toDigits_ne_nil
      | cons d ds =>
        rw [split, List.cons_append, List.cons.injEq] at same
        rw [split, same.1] at first
        exact absurd rfl first
    · rw [takeWhile_isDigit digits ends, dropWhile_isDigit digits ends]

/-! ### Numbers -/

theorem readFraction_of_ends {rest : List Char} (ends : Ends rest) :
    readFraction rest = ([], rest) := by
  unfold readFraction
  split
  · exact absurd rfl (ends _ rfl).2.1
  · rfl

theorem readExponent_of_ends {rest : List Char} (ends : Ends rest) :
    readExponent rest = (none, rest) := by
  cases rest with
  | nil => rfl
  | cons c rest =>
    have last := ends c rfl
    simp [readExponent, last.2.2.1, last.2.2.2]

theorem readNumber_toDigits (negative : Bool) {n : Nat}
    (short : (Nat.toDigits 10 n).length ≤ Integer.maxDigits) {rest : List Char}
    (ends : Ends rest) :
    readNumber negative (Nat.toDigits 10 n ++ rest) =
      .ok (.whole (if negative then -(n : Int) else n), rest) := by
  unfold readNumber
  rw [readWhole_toDigits n ends]
  simp only
  rw [if_neg (by simp), readFraction_of_ends ends]
  simp only
  rw [readExponent_of_ends ends]
  simp only [List.isEmpty_nil, Option.isNone_none, Bool.and_self, if_true]
  rw [if_neg (by omega), digitsValue_toDigits]

theorem writeNumber_whole (n : Int) :
    writeNumber (.whole n) =
      if 0 ≤ n then Nat.toDigits 10 n.natAbs else '-' :: Nat.toDigits 10 n.natAbs := by
  show (toString n).toList = _
  rw [Int.toString_eq_repr, Int.repr_eq_if]
  split
  · have same : n.toNat = n.natAbs := by omega
    rw [Nat.toList_repr, same]
  · have same : (-n).toNat = n.natAbs := by omega
    rw [String.toList_append, Nat.toList_repr, same]
    rfl

end SourceIndex.Json
