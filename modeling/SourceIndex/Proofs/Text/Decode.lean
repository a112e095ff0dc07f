import SourceIndex.Text.Utf8
import Mathlib.Data.List.TakeWhile
import Mathlib.Tactic.SplitIfs
/-!
# Encoded text

The size of a text is the number of bytes that it is encoded in, and encoded text is cut into the
characters that it was encoded from. In data of any kind the bytes of line feeds are just the line
feeds of the text that lenient decoding gives, since no other piece holds such a byte.
-/

namespace SourceIndex.Text.Utf8

/-! ### Lengths -/

theorem length_encodeChar (c : Char) : (encodeChar c).length = charSize c := by
  simp only [encodeChar, charSize]
  split
  · rfl
  · split
    · rfl
    · split <;> rfl

theorem foldl_charSize (cs : List Char) (start : Nat) :
    cs.foldl (fun total c => total + charSize c) start = start + (encodeChars cs).length := by
  induction cs generalizing start with
  | nil => rfl
  | cons c cs ih =>
    rw [List.foldl_cons, ih]
    simp only [encodeChars, List.flatMap_cons, List.length_append, length_encodeChar]
    omega

theorem size_eq_length_encode (s : String) : size s = (encode s).length := by
  rw [size, foldl_charSize, Nat.zero_add, encode]

/-! ### Characters are read back -/

theorem toNat_ofNat {n : Nat} (small : n < 0x100) : (UInt8.ofNat n).toNat = n := by
  rw [UInt8.toNat_ofNat']
  omega

theorem toNat_lt (c : Char) : c.toNat < 0xD800 ∨ 0xDFFF < c.toNat ∧ c.toNat < 0x110000 := by
  have valid := c.valid
  simp only [UInt32.isValidChar, Nat.isValidChar] at valid
  exact valid

theorem mayFollow_iff {lead next : Nat} : mayFollow lead next = true ↔
    (if lead = 0xE0 then 0xA0 else if lead = 0xF0 then 0x90 else 0x80) ≤ next ∧
      next ≤ (if lead = 0xED then 0x9F else if lead = 0xF4 then 0x8F else 0xBF) := by
  simp [mayFollow]

theorem isContinuation_iff {b : Nat} : isContinuation b = true ↔ 0x80 ≤ b ∧ b < 0xC0 := by
  simp [isContinuation]

theorem nextPiece_of_complete {lead : UInt8} {next : UInt8} {more rest : Bytes}
    (wanted : followers? lead.toNat = some (more.length + 1))
    (may : mayFollow lead.toNat next.toNat = true)
    (continues : ∀ b ∈ more, isContinuation b.toNat = true) (offset : Nat) :
    nextPiece offset lead (next :: more ++ rest) =
      (.char (Char.ofNat (codePoint lead.toNat ((next :: more).map (·.toNat)))),
        more.length + 1) := by
  have taken : (next :: more ++ rest).take (more.length + 1) = next :: more := by
    rw [List.cons_append, List.take_succ_cons, List.take_left]
  have all : (more.takeWhile (isContinuation ·.toNat)).length = more.length := by
    rw [List.takeWhile_eq_self_iff.mpr continues]
  have found : continued lead.toNat (more.length + 1) (next :: more ++ rest) =
      more.length + 1 := by
    simp only [continued, taken, may, if_true, all]
    omega
  simp only [nextPiece, wanted, found, if_true, taken]

theorem nextPiece_ofNat (lead next : Nat) (more : List Nat) (small : lead < 0x100)
    (wanted : followers? lead = some (more.length + 1)) (may : mayFollow lead next = true)
    (continues : ∀ b ∈ more, isContinuation b = true) (offset : Nat) (rest : Bytes) :
    nextPiece offset (.ofNat lead) ((next :: more).map UInt8.ofNat ++ rest) =
      (.char (Char.ofNat (codePoint lead (next :: more))), more.length + 1) := by
  have byte : next < 0x100 := by
    have high := (mayFollow_iff.mp may).2
    split_ifs at high <;> omega
  have bytes : ∀ b ∈ more, (UInt8.ofNat b).toNat = b := by
    intro b member
    have high := (isContinuation_iff.mp (continues b member)).2
    exact toNat_ofNat (by omega)
  have back : (more.map UInt8.ofNat).map (·.toNat) = more := by
    rw [List.map_map]
    exact (List.map_congr_left bytes).trans (List.map_id more)
  have complete := @nextPiece_of_complete (.ofNat lead) (.ofNat next) (more.map UInt8.ofNat) rest
    (by rw [toNat_ofNat small, List.length_map, wanted])
    (by rw [toNat_ofNat small, toNat_ofNat byte, may])
    (by
      intro b member
      obtain ⟨n, among, rfl⟩ := List.mem_map.mp member
      rw [bytes n among]
      exact continues n among) offset
  rw [List.map_cons, back, toNat_ofNat small, toNat_ofNat byte, List.length_map] at complete
  exact complete

theorem nextPiece_encodeChar (c : Char) : ∃ lead follow, encodeChar c = lead :: follow ∧
    ∀ offset rest, nextPiece offset lead (follow ++ rest) = (.char c, follow.length) := by
  have valid := toNat_lt c
  unfold encodeChar
  simp only
  -- One case for each length of an encoding. The digits to base 64 make up the code point again,
  -- and the second byte stays within the bounds of its lead byte since the point is no surrogate.
  split_ifs with one two three
  · refine ⟨_, [], rfl, fun offset rest => ?_⟩
    have byte : (UInt8.ofNat c.toNat).toNat = c.toNat := toNat_ofNat (by omega)
    have lead : followers? c.toNat = some 0 := by rw [followers?, if_pos one]
    simp [nextPiece, byte, lead, continued, codePoint, one]
  · have code : codePoint (0xC0 + c.toNat / 0x40) [0x80 + c.toNat % 0x40] = c.toNat := by
      simp only [codePoint, List.foldl_cons, List.foldl_nil]
      split_ifs <;> omega
    refine ⟨_, [_], rfl, fun offset rest => ?_⟩
    have cut := nextPiece_ofNat (0xC0 + c.toNat / 0x40) (0x80 + c.toNat % 0x40) [] (by omega)
      (by rw [followers?]; split_ifs <;> first | rfl | omega)
      (by rw [mayFollow_iff]; split_ifs <;> omega) (by simp) offset rest
    rw [code, Char.ofNat_toNat] at cut
    exact cut
  · have code : codePoint (0xE0 + c.toNat / 0x1000)
        [0x80 + c.toNat / 0x40 % 0x40, 0x80 + c.toNat % 0x40] = c.toNat := by
      simp only [codePoint, List.foldl_cons, List.foldl_nil]
      split_ifs <;> omega
    refine ⟨_, [_, _], rfl, fun offset rest => ?_⟩
    have cut := nextPiece_ofNat (0xE0 + c.toNat / 0x1000) (0x80 + c.toNat / 0x40 % 0x40)
      [0x80 + c.toNat % 0x40] (by omega) (by rw [followers?]; split_ifs <;> first | rfl | omega)
      (by rw [mayFollow_iff]; split_ifs <;> omega)
      (by
        intro b member
        rw [List.mem_singleton.mp member, isContinuation_iff]
        omega) offset rest
    rw [code, Char.ofNat_toNat] at cut
    exact cut
  · have code : codePoint (0xF0 + c.toNat / 0x40000) [0x80 + c.toNat / 0x1000 % 0x40,
        0x80 + c.toNat / 0x40 % 0x40, 0x80 + c.toNat % 0x40] = c.toNat := by
      simp only [codePoint, List.foldl_cons, List.foldl_nil]
      split_ifs <;> omega
    refine ⟨_, [_, _, _], rfl, fun offset rest => ?_⟩
    have cut := nextPiece_ofNat (0xF0 + c.toNat / 0x40000) (0x80 + c.toNat / 0x1000 % 0x40)
      [0x80 + c.toNat / 0x40 % 0x40, 0x80 + c.toNat % 0x40] (by omega)
      (by rw [followers?]; split_ifs <;> first | rfl | omega)
      (by rw [mayFollow_iff]; split_ifs <;> omega)
      (by
        intro b member
        simp only [List.mem_cons, List.not_mem_nil, or_false] at member
        rw [isContinuation_iff]
        rcases member with rfl | rfl
        · omega
        · omega) offset rest
    rw [code, Char.ofNat_toNat] at cut
    exact cut

theorem scan_encodeChars (cs : List Char) (found : List Piece) (offset : Nat) :
    scan found offset (encodeChars cs) = (cs.map Piece.char).reverse ++ found := by
  induction cs generalizing found offset with
  | nil => rw [encodeChars, List.flatMap_nil, scan]; rfl
  | cons c cs ih =>
    obtain ⟨lead, follow, bytes, first⟩ := nextPiece_encodeChar c
    rw [encodeChars, List.flatMap_cons, bytes, ← encodeChars, List.cons_append, scan]
    simp only [first]
    rw [List.drop_left, ih]
    simp

theorem cut_encodeChars (cs : List Char) : cut (encodeChars cs) = cs.map Piece.char := by
  rw [cut, scan_encodeChars]
  simp

theorem encodeChars_injective {first second : List Char}
    (same : encodeChars first = encodeChars second) : first = second := by
  have pieces := congrArg cut same
  rw [cut_encodeChars, cut_encodeChars] at pieces
  exact (List.map_inj_right fun _ _ equal => Piece.char.inj equal).mp pieces

theorem strict_map_char (cs : List Char) : strict (cs.map Piece.char) = .ok cs := by
  induction cs with
  | nil => rfl
  | cons c cs ih =>
    unfold strict at ih ⊢
    rw [List.map_cons, List.foldr_cons, ih]
    rfl

theorem decode_encode (s : String) : decode (encode s) = .ok s := by
  rw [decode, encode, cut_encodeChars, strict_map_char]
  simp [Except.map]

/-! ### Lenient decoding -/

/-- The character that stands for a piece in lenient decoding. -/
def Piece.shown : Piece → Char
  | .char c => c
  | .fault .. => '\ufffd'

theorem decodeLenient_eq (data : Bytes) :
    decodeLenient data = String.ofList ((cut data).map Piece.shown) := rfl

theorem decodeLenient_encodeChars (cs : List Char) :
    decodeLenient (encodeChars cs) = String.ofList cs := by
  rw [decodeLenient_eq, cut_encodeChars, List.map_map]
  exact congrArg String.ofList (List.map_id cs)

theorem eq_of_ofNat_eq_lineFeed {code : Nat} (same : Char.ofNat code = '\n') : code = 0x0A := by
  by_cases valid : code.isValidChar
  · rw [Char.ofNat, dif_pos valid] at same
    exact congrArg Char.toNat same
  · rw [Char.ofNat, dif_neg valid] at same
    cases same

/-- The bytes that continue a character stand where they may, and none of them is ASCII. -/
theorem take_continued (lead wanted : Nat) (rest : Bytes) :
    continued lead wanted rest = 0 ∨
      ∃ next more, rest.take (continued lead wanted rest) = next :: more ∧
        continued lead wanted rest = more.length + 1 ∧ mayFollow lead next.toNat = true ∧
        ∀ b ∈ more, isContinuation b.toNat = true := by
  unfold continued
  split
  · exact .inl rfl
  · rename_i next more shape
    split
    · rename_i may
      right
      refine ⟨next, more.takeWhile (isContinuation ·.toNat), ?_, Nat.add_comm .., may,
        fun b member =>
          List.mem_takeWhile_imp (p := fun b : UInt8 => isContinuation b.toNat) member⟩
      have inside := List.takeWhile_prefix (l := more) (isContinuation ·.toNat)
      have short := inside.length_le
      have lengths := congrArg List.length shape
      rw [List.length_take, List.length_cons] at lengths
      calc
        rest.take (1 + (more.takeWhile (isContinuation ·.toNat)).length)
        _ = (rest.take wanted).take (1 + (more.takeWhile (isContinuation ·.toNat)).length) := by
            rw [List.take_take, Nat.min_eq_left (by omega)]
        _ = next :: more.takeWhile (isContinuation ·.toNat) := by
            rw [shape, Nat.add_comm, List.take_succ_cons, ← List.prefix_iff_eq_take.mp inside]
    · exact .inl rfl

theorem ge_of_mayFollow {lead next : Nat} (may : mayFollow lead next = true) : 0x80 ≤ next := by
  have low := (mayFollow_iff.mp may).1
  split_ifs at low <;> omega

theorem ge_of_mem_nextPiece {offset : Nat} {lead b : UInt8} {rest : Bytes}
    (member : b ∈ rest.take (nextPiece offset lead rest).2) : 0x80 ≤ b.toNat := by
  have continues : ∀ wanted, b ∈ rest.take (continued lead.toNat wanted rest) →
      0x80 ≤ b.toNat := by
    intro wanted inside
    rcases take_continued lead.toNat wanted rest with
      nothing | ⟨next, more, shape, -, may, others⟩
    · rw [nothing] at inside
      cases inside
    · rw [shape] at inside
      rcases List.mem_cons.mp inside with here | later
      · rw [here]
        exact ge_of_mayFollow may
      · exact (isContinuation_iff.mp (others b later)).1
  unfold nextPiece at member
  split at member
  · cases member
  · rename_i wanted _
    apply continues wanted
    simp only at member
    split at member
    · rename_i found
      rwa [found]
    · split at member
      · exact member
      · exact member

theorem ge_foldl_code {code : Nat} (large : 0x80 ≤ code) (rest : List Nat) :
    0x80 ≤ rest.foldl (fun code b => code * 0x40 + (b - 0x80)) code := by
  induction rest generalizing code with
  | nil => exact large
  | cons b rest ih =>
    rw [List.foldl_cons]
    apply ih
    omega

theorem ge_codePoint {lead next : Nat} (more : List Nat) (start : 0x80 ≤ lead)
    (wanted : followers? lead = some (more.length + 1)) (may : mayFollow lead next = true) :
    0x80 ≤ codePoint lead (next :: more) := by
  obtain ⟨low, -⟩ := mayFollow_iff.mp may
  unfold codePoint
  rw [List.foldl_cons]
  unfold followers? at wanted
  split_ifs at wanted with one two three four five
  · omega
  · rw [if_neg one, if_pos three]
    exact ge_foldl_code (by omega) more
  · rw [if_neg one, if_neg three, if_pos four]
    obtain ⟨third, others, rfl⟩ : ∃ third others, more = third :: others :=
      List.exists_cons_of_length_pos (by simp at wanted; omega)
    rw [List.foldl_cons]
    refine ge_foldl_code ?_ others
    split_ifs at low <;> omega
  · rw [if_neg one, if_neg three, if_neg four]
    obtain ⟨third, others, rfl⟩ : ∃ third others, more = third :: others :=
      List.exists_cons_of_length_pos (by simp at wanted; omega)
    rw [List.foldl_cons]
    refine ge_foldl_code ?_ others
    split_ifs at low <;> omega

theorem shown_nextPiece (offset : Nat) (lead : UInt8) (rest : Bytes) :
    (nextPiece offset lead rest).1.shown = '\n' ↔ lead = 0x0A := by
  constructor
  · intro same
    unfold nextPiece at same
    split at same
    · cases same
    · rename_i wanted follows
      simp only at same
      split at same
      · rename_i found
        have code := eq_of_ofNat_eq_lineFeed same
        -- A lead byte beyond ASCII begins a character beyond ASCII, so no long form of a line feed.
        by_cases small : lead.toNat < 0x80
        · have none : wanted = 0 := by
            rw [followers?, if_pos small, Option.some.injEq] at follows
            exact follows.symm
          rw [none, List.take_zero, List.map_nil, codePoint, List.foldl_nil, if_pos small] at code
          exact UInt8.toNat_inj.mp code
        · exfalso
          have cut := take_continued lead.toNat wanted rest
          rw [found] at cut
          rcases cut with nothing | ⟨next, more, shape, length, may, -⟩
          · rw [nothing, followers?, if_neg small] at follows
            split_ifs at follows <;> simp at follows
          · rw [length] at follows
            rw [shape, List.map_cons] at code
            have large := ge_codePoint (more.map (·.toNat)) (Nat.le_of_not_lt small)
              (by rw [follows, List.length_map]) may
            omega
      · split at same
        · cases same
        · cases same
  · rintro rfl
    rfl

theorem count_scan (found : List Piece) (offset : Nat) (data : Bytes) :
    ((scan found offset data).map Piece.shown).count '\n' =
      (found.map Piece.shown).count '\n' + data.count 0x0A := by
  fun_induction scan found offset data with
  | case1 => simp
  | case2 found offset lead rest piece ih =>
    have inside : (rest.take piece.2).count 0x0A = 0 := by
      rw [List.count_eq_zero]
      intro member
      exact absurd (ge_of_mem_nextPiece member) (by decide)
    have after : rest.count 0x0A = (rest.drop piece.2).count 0x0A := by
      rw [← Nat.zero_add (List.count _ (rest.drop piece.2)), ← inside, ← List.count_append,
        List.take_append_drop]
    have shown : piece.1.shown = '\n' ↔ lead = 0x0A := shown_nextPiece offset lead rest
    rw [ih, List.map_cons, List.count_cons, List.count_cons, after]
    by_cases first : lead = 0x0A
    · rw [shown.mpr first, first]
      simp
      omega
    · have other : ¬ piece.1.shown = '\n' := fun same => first (shown.mp same)
      simp [first, other]

/-- Lenient decoding gives a line feed for each of its bytes, and no other one. -/
theorem count_decodeLenient (data : Bytes) :
    (decodeLenient data).toList.count '\n' = data.count 0x0A := by
  rw [decodeLenient_eq, String.toList_ofList, cut, List.map_reverse, List.count_reverse,
    count_scan]
  simp

theorem count_encodeChars (cs : List Char) : (encodeChars cs).count 0x0A = cs.count '\n' := by
  rw [← count_decodeLenient, decodeLenient_encodeChars, String.toList_ofList]

/-! ### Between characters -/

theorem encodeChars_append (first second : List Char) :
    encodeChars (first ++ second) = encodeChars first ++ encodeChars second :=
  List.flatMap_append

/-- An offset into the bytes of a text that stands between two characters, or at an end. -/
def IsBoundary (s : String) (offset : Int) : Prop :=
  ∃ before after, s.toList = before ++ after ∧ offset = (encodeChars before).length

theorem isBoundary_iff {s : String} {offset : Int} : IsBoundary s offset ↔
    ∃ k < s.toList.length + 1, offset = (encodeChars (s.toList.take k)).length := by
  constructor
  · rintro ⟨before, after, whole, here⟩
    refine ⟨before.length, ?_, ?_⟩
    · rw [whole, List.length_append]
      omega
    · rw [whole, List.take_left, here]
  · rintro ⟨k, -, here⟩
    exact ⟨s.toList.take k, s.toList.drop k, (List.take_append_drop ..).symm, here⟩

instance (s : String) (offset : Int) : Decidable (IsBoundary s offset) :=
  decidable_of_iff _ isBoundary_iff.symm

theorem encodeChar_ne_nil (c : Char) : encodeChar c ≠ [] := by
  obtain ⟨lead, follow, bytes, -⟩ := nextPiece_encodeChar c
  rw [bytes]
  exact List.cons_ne_nil lead follow

theorem eq_nil_of_encodeChars {cs : List Char} (empty : encodeChars cs = []) : cs = [] := by
  cases cs with
  | nil => rfl
  | cons c cs =>
    rw [encodeChars, List.flatMap_cons, List.append_eq_nil_iff] at empty
    exact absurd empty.1 (encodeChar_ne_nil c)

/-- The bytes between two boundaries are those of the characters between them. -/
theorem IsBoundary.between {s : String} {first last : Int} (start : IsBoundary s first)
    (stop : IsBoundary s last) (order : first ≤ last) : ∃ before body after,
      s.toList = before ++ body ++ after ∧ first = (encodeChars before).length ∧
        last = (encodeChars (before ++ body)).length := by
  obtain ⟨before, rest, whole, here⟩ := start
  obtain ⟨most, after, whole', there⟩ := stop
  rw [whole] at whole'
  rcases List.append_eq_append_iff.mp whole' with ⟨body, shape, shape'⟩ | ⟨back, shape, shape'⟩
  · refine ⟨before, body, after, ?_, here, ?_⟩
    · rw [whole, shape', List.append_assoc]
    · rw [there, shape]
  · have length := congrArg (fun cs => (encodeChars cs).length) shape
    simp only [encodeChars_append, List.length_append] at length
    have nothing : back = [] := by
      apply eq_nil_of_encodeChars
      apply List.eq_nil_of_length_eq_zero
      omega
    rw [nothing, List.append_nil] at shape
    refine ⟨before, [], rest, by simpa using whole, here, ?_⟩
    rw [List.append_nil, there, shape]

theorem IsBoundary.before_lineFeed {s : String} {offset : Int} {before : Bytes}
    (boundary : IsBoundary s offset)
    (ends : (encode s).take offset.toNat = before ++ [0x0A]) : IsBoundary s (offset - 1) := by
  obtain ⟨held, after, whole, here⟩ := boundary
  have bytes : encodeChars held = before ++ [0x0A] := by
    rw [← ends, encode, whole, encodeChars_append, here, Int.toNat_natCast, List.take_left]
  obtain ⟨init, c, shape⟩ : ∃ init c, held = init ++ [c] := by
    rcases List.eq_nil_or_concat held with empty | ⟨init, c, shape⟩
    · rw [empty] at bytes
      simp [encodeChars] at bytes
    · exact ⟨init, c, by rw [shape, List.concat_eq_append]⟩
  have last : encodeChars held = encodeChars init ++ encodeChar c := by
    rw [shape, encodeChars_append]
    simp [encodeChars]
  have member : 0x0A ∈ encodeChar c := by
    have final := congrArg List.getLast? (last.symm.trans bytes)
    rw [List.getLast?_append, List.getLast?_concat] at final
    cases tail : (encodeChar c).getLast? with
    | none => exact absurd (List.getLast?_eq_none_iff.mp tail) (encodeChar_ne_nil c)
    | some b =>
      rw [tail, Option.some_or, Option.some.injEq] at final
      rw [← final]
      exact List.mem_of_getLast? tail
  have lineFeed : c = '\n' := by
    have counted := count_encodeChars [c]
    have some : 0 < (encodeChars [c]).count 0x0A := by
      apply List.count_pos_iff.mpr
      simpa [encodeChars] using member
    rw [counted, List.count_pos_iff, List.mem_singleton] at some
    exact some.symm
  refine ⟨init, c :: after, ?_, ?_⟩
  · rw [whole, shape, List.append_assoc, List.singleton_append]
  · rw [here, last, lineFeed, List.length_append]
    have one : (encodeChar '\n').length = 1 := rfl
    omega

end SourceIndex.Text.Utf8
