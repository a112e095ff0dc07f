import SourceIndex.Proofs.Json.RoundTrip
import SourceIndex.Store.Save
/-!
# Documents on lines

A document takes one line of ASCII, which has no blanks at its ends if the document is an object,
and it is read back from that line.
-/

namespace SourceIndex

namespace Json

/-! ### What is written is plain -/

theorem isPlain_of_mem_intercalate {parts : List (List Char)}
    (each : ∀ part ∈ parts, ∀ c ∈ part, IsPlain c) {c : Char}
    (member : c ∈ List.intercalate [',', ' '] parts) : IsPlain c := by
  induction parts with
  | nil => simp at member
  | cons part others ih =>
    have first := each part (List.mem_cons_self ..)
    cases others with
    | nil =>
      rw [List.intercalate_singleton] at member
      exact first c member
    | cons next others =>
      rw [List.intercalate_cons_cons, List.mem_append, List.mem_append] at member
      rcases member with (inside | gap) | later
      · exact first c inside
      · exact isPlain_of_all _ (by decide) gap
      · exact ih (fun part among => each part (List.mem_cons_of_mem _ among)) later

theorem isPlain_of_mem_writeNumber {n : Int} {c : Char} (member : c ∈ writeNumber (.whole n)) :
    IsPlain c := by
  have digits : ∀ c ∈ Nat.toDigits 10 n.natAbs, IsPlain c := by
    intro c among
    have digit := isDigit_of_mem_toDigits among
    simp only [isDigit, Bool.and_eq_true, decide_eq_true_eq] at digit
    have low : 48 ≤ c.toNat := digit.1
    have high : c.toNat ≤ 57 := digit.2
    exact ⟨by omega, by omega⟩
  rw [writeNumber_whole] at member
  split at member
  · exact digits c member
  · rcases List.mem_cons.mp member with here | later
    · subst here
      decide
    · exact digits c later

theorem isPlain_of_mem_writeValue {depth : Nat} {value : Json} (storable : Storable depth value)
    (level : Nat) {c : Char} (member : c ∈ writeValue .line level value) : IsPlain c := by
  induction storable generalizing level c with
  | null depth => exact isPlain_of_all "null".toList (by decide) member
  | bool depth b =>
    cases b with
    | true => exact isPlain_of_all "true".toList (by decide) member
    | false => exact isPlain_of_all "false".toList (by decide) member
  | whole depth n => exact isPlain_of_mem_writeNumber member
  | text depth s => exact isPlain_of_mem_writeText member
  | list each ih =>
    rw [writeValue_list] at member
    rcases List.mem_cons.mp member with here | later
    · subst here
      decide
    rcases List.mem_append.mp later with inside | last
    · refine isPlain_of_mem_intercalate ?_ inside
      intro part among c within
      obtain ⟨item, found, rfl⟩ := List.mem_map.mp among
      exact ih item found _ within
    · rw [List.mem_singleton.mp last]
      decide
  | object distinct each ih =>
    rw [writeValue_object] at member
    rcases List.mem_cons.mp member with here | later
    · subst here
      decide
    rcases List.mem_append.mp later with inside | last
    · refine isPlain_of_mem_intercalate ?_ inside
      intro part among c within
      obtain ⟨field, found, rfl⟩ := List.mem_map.mp among
      rcases List.mem_append.mp within with key | value
      · exact isPlain_of_mem_writeText key
      rcases List.mem_cons.mp value with here | after
      · subst here
        decide
      rcases List.mem_cons.mp after with here | value
      · subst here
        decide
      · exact ih field ((Entries.sort_perm _).mem_iff.mp found) _ value
    · rw [List.mem_singleton.mp last]
      decide

theorem toList_line (value : Json) : value.line.toList = writeValue .line 0 value := by
  rw [line, String.toList_ofList]

theorem toList_lineOf (value : Json) : (lineOf value).toList = value.line.toList ++ ['\n'] := by
  rw [lineOf, String.toList_append]
  rfl

theorem not_mem_line {value : Json} {depth : Nat} (storable : Storable depth value) {c : Char}
    (control : ¬ IsPlain c) : c ∉ value.line.toList := by
  rw [toList_line]
  exact fun member => control (isPlain_of_mem_writeValue storable 0 member)

/-! ### Reading a line -/

theorem read_of_append {value : Json} (storable : Storable maxDepth value)
    (writable : isWritable value = true) {s : String}
    {rest : List Char} (text : s.toList = writeValue .line 0 value ++ rest) (ends : Ends rest)
    (blank : skipSpace rest = []) : read s = .ok (stored value) := by
  obtain ⟨c, cs, same, space, -⟩ := startsValue_writeValue 0 value storable.not_real
  have length : (writeValue .line 0 value).length < s.toList.length + 1 := by
    rw [text, List.length_append]
    omega
  have start : skipSpace s.toList = writeValue .line 0 value ++ rest := by
    rw [text, same, List.cons_append, skipSpace_cons space]
  unfold read
  simp only
  rw [start, readValue_writeValue storable writable 0 length rest ends]
  simp [blank]

theorem read_line {value : Json} (storable : Storable maxDepth value)
    (writable : isWritable value = true) :
    read value.line = .ok (stored value) :=
  read_of_append storable writable (by rw [toList_line, List.append_nil]) ends_nil rfl

theorem read_lineOf {value : Json} (storable : Storable maxDepth value)
    (writable : isWritable value = true) :
    read (lineOf value) = .ok (stored value) :=
  read_of_append storable writable (by rw [toList_lineOf, toList_line]) (ends_cons (by decide)) rfl

/-! ### Trimming -/

theorem trimChars_of_ends {c d : Char} {cs : List Char} (first : Text.isBlankChar c = false)
    (last : Text.isBlankChar d = false) :
    Text.trimChars (c :: (cs ++ [d])) = c :: (cs ++ [d]) := by
  unfold Text.trimChars
  rw [List.dropWhile_cons_of_neg (by simp [first])]
  have reversed : (c :: (cs ++ [d])).reverse = d :: (c :: cs).reverse := by simp
  rw [reversed, List.dropWhile_cons_of_neg (by simp [last]), List.reverse_cons,
    List.reverse_reverse]
  rfl

/-- The line of an object has no blanks at its ends. -/
theorem trim_line_object (fields : List (String × Json)) :
    Text.trim (line (.object fields)) = line (.object fields) := by
  have brace : Text.isBlankChar '{' = false := by decide +kernel
  have closing : Text.isBlankChar '}' = false := by decide +kernel
  rw [Text.trim, toList_line, writeValue_object, trimChars_of_ends brace closing,
    ← writeValue_object, ← line]

end Json

end SourceIndex
