import SourceIndex.Proofs.Text.Ascii
import SourceIndex.Text.Encoding
/-!
# Decoding is undone by encoding

Strict decoding gives a text just from the bytes that the text is encoded in. This holds for UTF-8
and for UTF-16 in both byte orders, and so for data that names its encoding by a byte order mark.
-/

namespace SourceIndex.Text

/-! ### UTF-8 -/

namespace Utf8

theorem toNat_ofNat_of_valid (code : Nat)
    (valid : code < 0xD800 ∨ 0xDFFF < code ∧ code < 0x110000) : (Char.ofNat code).toNat = code := by
  have isValid : code.isValidChar := valid
  rw [Char.ofNat, dif_pos isValid]
  rfl

theorem ofNat_eq {n : Nat} (b : UInt8) (same : n = b.toNat) : UInt8.ofNat n = b := by
  rw [same, UInt8.ofNat_toNat]

theorem encodeChar_two {lead next : UInt8} (low : 0xC2 ≤ lead.toNat) (high : lead.toNat < 0xE0)
    (first : 0x80 ≤ next.toNat ∧ next.toNat < 0xC0) :
    encodeChar (Char.ofNat (codePoint lead.toNat [next.toNat])) = [lead, next] := by
  have code : codePoint lead.toNat [next.toNat] =
      (lead.toNat - 0xC0) * 0x40 + (next.toNat - 0x80) := by
    simp only [codePoint, List.foldl_cons, List.foldl_nil]
    rw [if_neg (by omega), if_pos high]
  have value := toNat_ofNat_of_valid (codePoint lead.toNat [next.toNat]) (by omega)
  rw [encodeChar]
  simp only [value]
  rw [if_neg (by omega), if_pos (by omega), code, ofNat_eq lead (by omega),
    ofNat_eq next (by omega)]

theorem encodeChar_three {lead next third : UInt8} (low : 0xE0 ≤ lead.toNat)
    (high : lead.toNat < 0xF0) (first : mayFollow lead.toNat next.toNat = true)
    (second : 0x80 ≤ third.toNat ∧ third.toNat < 0xC0) :
    encodeChar (Char.ofNat (codePoint lead.toNat [next.toNat, third.toNat])) =
      [lead, next, third] := by
  have bounds := mayFollow_iff.mp first
  have code : codePoint lead.toNat [next.toNat, third.toNat] =
      ((lead.toNat - 0xE0) * 0x40 + (next.toNat - 0x80)) * 0x40 + (third.toNat - 0x80) := by
    simp only [codePoint, List.foldl_cons, List.foldl_nil]
    rw [if_neg (by omega), if_neg (by omega), if_pos high]
  -- The second byte keeps the code point above those of two bytes and off the surrogates.
  have range : 0x800 ≤ codePoint lead.toNat [next.toNat, third.toNat] ∧
      codePoint lead.toNat [next.toNat, third.toNat] < 0x10000 ∧
      (codePoint lead.toNat [next.toNat, third.toNat] < 0xD800 ∨
        0xDFFF < codePoint lead.toNat [next.toNat, third.toNat]) := by
    rw [code]
    split_ifs at bounds <;> omega
  have value := toNat_ofNat_of_valid (codePoint lead.toNat [next.toNat, third.toNat]) (by omega)
  have byte : 0x80 ≤ next.toNat ∧ next.toNat < 0xC0 := by
    split_ifs at bounds <;> omega
  rw [encodeChar]
  simp only [value]
  rw [if_neg (by omega), if_neg (by omega), if_pos (by omega), code,
    ofNat_eq lead (by omega), ofNat_eq next (by omega), ofNat_eq third (by omega)]

theorem encodeChar_four {lead next third fourth : UInt8} (low : 0xF0 ≤ lead.toNat)
    (high : lead.toNat < 0xF5) (first : mayFollow lead.toNat next.toNat = true)
    (second : 0x80 ≤ third.toNat ∧ third.toNat < 0xC0)
    (last : 0x80 ≤ fourth.toNat ∧ fourth.toNat < 0xC0) :
    encodeChar (Char.ofNat (codePoint lead.toNat [next.toNat, third.toNat, fourth.toNat])) =
      [lead, next, third, fourth] := by
  have bounds := mayFollow_iff.mp first
  have code : codePoint lead.toNat [next.toNat, third.toNat, fourth.toNat] =
      (((lead.toNat - 0xF0) * 0x40 + (next.toNat - 0x80)) * 0x40 + (third.toNat - 0x80)) * 0x40 +
        (fourth.toNat - 0x80) := by
    simp only [codePoint, List.foldl_cons, List.foldl_nil]
    rw [if_neg (by omega), if_neg (by omega), if_neg (by omega)]
  have range : 0x10000 ≤ codePoint lead.toNat [next.toNat, third.toNat, fourth.toNat] ∧
      codePoint lead.toNat [next.toNat, third.toNat, fourth.toNat] < 0x110000 := by
    rw [code]
    split_ifs at bounds <;> omega
  have value := toNat_ofNat_of_valid
    (codePoint lead.toNat [next.toNat, third.toNat, fourth.toNat]) (by omega)
  have byte : 0x80 ≤ next.toNat ∧ next.toNat < 0xC0 := by
    split_ifs at bounds <;> omega
  rw [encodeChar]
  simp only [value]
  rw [if_neg (by omega), if_neg (by omega), if_neg (by omega), code,
    ofNat_eq lead (by omega), ofNat_eq next (by omega),
    ofNat_eq third (by omega), ofNat_eq fourth (by omega)]

theorem followers?_eq_some {lead wanted : Nat} (follows : followers? lead = some wanted) :
    wanted = 0 ∧ lead < 0x80 ∨ wanted = 1 ∧ 0xC2 ≤ lead ∧ lead < 0xE0 ∨
      wanted = 2 ∧ 0xE0 ≤ lead ∧ lead < 0xF0 ∨ wanted = 3 ∧ 0xF0 ≤ lead ∧ lead < 0xF5 := by
  unfold followers? at follows
  split_ifs at follows <;> simp only [Option.some.injEq] at follows <;> omega

theorem encodeChar_of_nextPiece {offset : Nat} {lead : UInt8} {rest : Bytes} {c : Char}
    (piece : (nextPiece offset lead rest).1 = .char c) :
    encodeChar c = lead :: rest.take (nextPiece offset lead rest).2 := by
  unfold nextPiece at piece ⊢
  split at piece
  · cases piece
  rename_i wanted follows
  simp only at piece ⊢
  split at piece
  swap
  · split at piece <;> cases piece
  rename_i found
  rw [if_pos found]
  simp only
  obtain rfl := Piece.char.inj piece
  have continues := take_continued lead.toNat wanted rest
  rw [found] at continues
  -- One case for each number of bytes that the lead byte wants.
  rcases followers?_eq_some follows with
    ⟨rfl, ascii⟩ | ⟨rfl, low, high⟩ | ⟨rfl, low, high⟩ | ⟨rfl, low, high⟩
  · have value := toNat_ofNat_of_valid (lead.toNat) (by omega)
    rw [List.take_zero, List.map_nil, codePoint, List.foldl_nil, if_pos ascii, encodeChar]
    simp only [value]
    rw [if_pos ascii, ofNat_eq lead rfl]
  · obtain ⟨next, more, shape, length, may, -⟩ := continues.resolve_left (by omega)
    obtain rfl : more = [] := List.eq_nil_of_length_eq_zero (by omega)
    rw [shape]
    have bounds := mayFollow_iff.mp may
    exact encodeChar_two low high (by split_ifs at bounds <;> omega)
  · obtain ⟨next, more, shape, length, may, others⟩ := continues.resolve_left (by omega)
    obtain ⟨third, rfl⟩ : ∃ third, more = [third] := List.length_eq_one_iff.mp (by omega)
    rw [shape]
    exact encodeChar_three low high may (isContinuation_iff.mp (others third (by simp)))
  · obtain ⟨next, more, shape, length, may, others⟩ := continues.resolve_left (by omega)
    obtain ⟨third, fourth, rfl⟩ : ∃ third fourth, more = [third, fourth] :=
      List.length_eq_two.mp (by omega)
    rw [shape]
    exact encodeChar_four low high may (isContinuation_iff.mp (others third (by simp)))
      (isContinuation_iff.mp (others fourth (by simp)))

/-! #### Whole texts -/

theorem scan_eq_append (found : List Piece) (offset : Nat) (data : Bytes) :
    scan found offset data = scan [] offset data ++ found := by
  generalize length : data.length = n
  induction n using Nat.strongRecOn generalizing found offset data with
  | ind n ih =>
    cases data with
    | nil => simp [scan]
    | cons lead rest =>
      have shorter : (rest.drop (nextPiece offset lead rest).2).length < n := by
        rw [List.length_drop, ← length, List.length_cons]
        omega
      rw [scan, scan, ih _ shorter _ _ _ rfl, ih _ shorter [_] _ _ rfl, List.append_assoc]
      rfl

def piecesFrom (offset : Nat) (data : Bytes) : List Piece := (scan [] offset data).reverse

theorem piecesFrom_cons (offset : Nat) (lead : UInt8) (rest : Bytes) :
    piecesFrom offset (lead :: rest) = (nextPiece offset lead rest).1 ::
      piecesFrom (offset + 1 + (nextPiece offset lead rest).2)
        (rest.drop (nextPiece offset lead rest).2) := by
  rw [piecesFrom, scan, scan_eq_append, List.reverse_append]
  rfl

theorem eq_encodeChars_of_piecesFrom (offset : Nat) {data : Bytes} {cs : List Char}
    (pieces : piecesFrom offset data = cs.map Piece.char) : data = encodeChars cs := by
  induction cs generalizing offset data with
  | nil =>
    cases data with
    | nil => rfl
    | cons lead rest =>
      rw [piecesFrom_cons] at pieces
      cases pieces
  | cons c cs ih =>
    cases data with
    | nil =>
      rw [piecesFrom, scan] at pieces
      cases pieces
    | cons lead rest =>
      rw [piecesFrom_cons, List.map_cons, List.cons.injEq] at pieces
      obtain ⟨first, later⟩ := pieces
      have after := ih _ later
      rw [encodeChars, List.flatMap_cons, encodeChar_of_nextPiece first, ← encodeChars, ← after,
        List.cons_append, List.take_append_drop]

theorem cut_eq_map_char_iff {data : Bytes} {cs : List Char} :
    cut data = cs.map Piece.char ↔ data = encodeChars cs := by
  constructor
  · exact eq_encodeChars_of_piecesFrom 0
  · rintro rfl
    exact cut_encodeChars cs

theorem strict_eq_ok_iff {pieces : List Piece} {cs : List Char} :
    strict pieces = .ok cs ↔ pieces = cs.map Piece.char := by
  constructor
  · intro read
    induction pieces generalizing cs with
    | nil =>
      cases read
      rfl
    | cons piece rest ih =>
      cases piece with
      | fault reason offset length first => cases read
      | char c =>
        have shape : strict (.char c :: rest) = (strict rest).map (c :: ·) := rfl
        rw [shape] at read
        cases others : strict rest with
        | error e =>
          rw [others] at read
          cases read
        | ok later =>
          rw [others] at read
          obtain rfl := Except.ok.inj read
          rw [ih others, List.map_cons]
  · rintro rfl
    exact strict_map_char cs

theorem decode_eq_ok_iff {data : Bytes} {s : String} : decode data = .ok s ↔ encode s = data := by
  constructor
  · intro decoded
    unfold decode at decoded
    cases read : strict (cut data) with
    | error e =>
      rw [read] at decoded
      cases decoded
    | ok cs =>
      rw [read] at decoded
      obtain rfl := Except.ok.inj decoded
      rw [encode, String.toList_ofList]
      exact (cut_eq_map_char_iff.mp (strict_eq_ok_iff.mp read)).symm
  · rintro rfl
    exact decode_encode s

theorem isValid_iff {data : Bytes} : isValid data = true ↔ ∃ cs, data = encodeChars cs := by
  constructor
  · intro valid
    rw [isValid, List.all_eq_true] at valid
    have chars : ∀ piece ∈ cut data, Piece.char piece.shown = piece := by
      intro piece member
      cases piece with
      | char c => rfl
      | fault => cases valid _ member
    refine ⟨(cut data).map Piece.shown, cut_eq_map_char_iff.mp ?_⟩
    rw [List.map_map]
    exact ((List.map_congr_left chars).trans (List.map_id _)).symm
  · rintro ⟨cs, rfl⟩
    rw [isValid, cut_encodeChars, List.all_map]
    exact List.all_eq_true.mpr fun _ _ => rfl

theorem exists_encodeChars_of_append {before cs : List Char} {after : Bytes}
    (whole : encodeChars cs = encodeChars before ++ after) : ∃ rest, after = encodeChars rest := by
  induction before generalizing cs with
  | nil => exact ⟨cs, whole.symm⟩
  | cons c before ih =>
    obtain ⟨lead, follow, bytes, first⟩ := nextPiece_encodeChar c
    have pieces : piecesFrom 0 (encodeChars cs) = cs.map Piece.char := cut_encodeChars cs
    rw [whole, encodeChars, List.flatMap_cons, bytes, ← encodeChars, List.append_assoc,
      List.cons_append, piecesFrom_cons] at pieces
    simp only [first, List.drop_left] at pieces
    cases cs with
    | nil => cases pieces
    | cons d ds =>
      rw [List.map_cons, List.cons.injEq] at pieces
      exact ih (eq_encodeChars_of_piecesFrom _ pieces.2).symm

theorem isValid_of_noLead {lead : UInt8} (noLead : followers? lead.toNat = none) (rest : Bytes) :
    isValid (lead :: rest) = false := by
  rw [← Bool.not_eq_true, isValid_iff]
  rintro ⟨cs, whole⟩
  have pieces : piecesFrom 0 (encodeChars cs) = cs.map Piece.char := cut_encodeChars cs
  have fault : (nextPiece 0 lead rest).1 = .fault .invalidStartByte 0 1 lead := by
    rw [nextPiece, noLead]
  rw [← whole, piecesFrom_cons, fault] at pieces
  cases cs with
  | nil => cases pieces
  | cons c cs => cases pieces

end Utf8

/-! ### UTF-16 -/

namespace Utf16
variable {order : Order}

theorem exists_unitBytes (order : Order) {unit : Nat} (small : unit < 0x10000) :
    ∃ a b, unitBytes order unit = [a, b] ∧ unitOf order a b = unit := by
  have high : (UInt8.ofNat (unit / 0x100)).toNat = unit / 0x100 := Utf8.toNat_ofNat (by omega)
  have low : (UInt8.ofNat (unit % 0x100)).toNat = unit % 0x100 := Utf8.toNat_ofNat (by omega)
  cases order with
  | little =>
    refine ⟨_, _, rfl, ?_⟩
    rw [unitOf, high, low]
    omega
  | big =>
    refine ⟨_, _, rfl, ?_⟩
    rw [unitOf, high, low]
    omega

theorem unitOf_lt (order : Order) (a b : UInt8) : unitOf order a b < 0x10000 := by
  have first := a.toNat_lt
  have second := b.toNat_lt
  cases order with
  | little =>
    rw [unitOf]
    omega
  | big =>
    rw [unitOf]
    omega

theorem unitBytes_unitOf (a b : UInt8) : unitBytes order (unitOf order a b) = [a, b] := by
  have first := a.toNat_lt
  have second := b.toNat_lt
  cases order with
  | little =>
    rw [unitBytes, unitOf, Utf8.ofNat_eq a (by omega), Utf8.ofNat_eq b (by omega)]
  | big =>
    rw [unitBytes, unitOf, Utf8.ofNat_eq a (by omega), Utf8.ofNat_eq b (by omega)]

theorem isLow_iff {unit : Nat} : isLow unit = true ↔ 0xDC00 ≤ unit ∧ unit < 0xE000 := by
  simp [isLow]

theorem isHigh_iff {unit : Nat} : isHigh unit = true ↔ 0xD800 ≤ unit ∧ unit < 0xDC00 := by
  simp [isHigh]

def encodeChars (order : Order) (cs : List Char) : Bytes := cs.flatMap (encodeChar order)

theorem not_isLow_of_isHigh {unit : Nat} (high : isHigh unit = true) : isLow unit = false := by
  rw [isHigh_iff] at high
  rw [← Bool.not_eq_true, isLow_iff]
  omega

theorem decodeFrom_single {a b : UInt8} (low : isLow (unitOf order a b) = false)
    (high : isHigh (unitOf order a b) = false) (offset : Nat) (done : List Char) (rest : Bytes) :
    decodeFrom order offset done (a :: b :: rest) =
      decodeFrom order (offset + 2) (Char.ofNat (unitOf order a b) :: done) rest := by
  rw [decodeFrom.eq_def]
  simp [low, high]

theorem decodeFrom_pair {a b c d : UInt8} (high : isHigh (unitOf order a b) = true)
    (low : isLow (unitOf order c d) = true) (offset : Nat) (done : List Char) (rest : Bytes) :
    decodeFrom order offset done (a :: b :: c :: d :: rest) =
      decodeFrom order (offset + 4) (Char.ofNat (0x10000 + (unitOf order a b - 0xD800) * 0x400 +
        (unitOf order c d - 0xDC00)) :: done) rest := by
  rw [decodeFrom]
  simp [not_isLow_of_isHigh high, high, low]

theorem decodeFrom_encodeChar (order : Order) (c : Char) (offset : Nat) (done : List Char)
    (rest : Bytes) : ∃ next, decodeFrom order offset done (encodeChar order c ++ rest) =
      decodeFrom order next (c :: done) rest := by
  have valid := Utf8.toNat_lt c
  unfold encodeChar
  simp only
  split_ifs with small
  · obtain ⟨a, b, bytes, unit⟩ := exists_unitBytes order small
    have low : isLow (unitOf order a b) = false := by
      rw [← Bool.not_eq_true, isLow_iff, unit]
      omega
    have high : isHigh (unitOf order a b) = false := by
      rw [← Bool.not_eq_true, isHigh_iff, unit]
      omega
    refine ⟨offset + 2, ?_⟩
    rw [bytes, List.cons_append, List.cons_append, List.nil_append, decodeFrom_single low high,
      unit, Char.ofNat_toNat]
  · have highSmall : 0xD800 + (c.toNat - 0x10000) / 0x400 < 0x10000 := by omega
    have lowSmall : 0xDC00 + (c.toNat - 0x10000) % 0x400 < 0x10000 := by omega
    obtain ⟨a, b, bytes, unit⟩ := exists_unitBytes order highSmall
    obtain ⟨a', b', bytes', unit'⟩ := exists_unitBytes order lowSmall
    have high : isHigh (unitOf order a b) = true := by
      rw [isHigh_iff, unit]
      omega
    have low : isLow (unitOf order a' b') = true := by
      rw [isLow_iff, unit']
      omega
    have code : 0x10000 + (unitOf order a b - 0xD800) * 0x400 + (unitOf order a' b' - 0xDC00) =
        c.toNat := by
      rw [unit, unit']
      omega
    refine ⟨offset + 4, ?_⟩
    rw [bytes, bytes', List.append_assoc, List.cons_append, List.cons_append, List.nil_append,
      List.cons_append, List.cons_append, List.nil_append, decodeFrom_pair high low, code,
      Char.ofNat_toNat]

theorem decodeFrom_encodeChars (cs : List Char) (offset : Nat) (done : List Char) :
    decodeFrom order offset done (encodeChars order cs) = .ok (done.reverse ++ cs) := by
  induction cs generalizing offset done with
  | nil => simp [encodeChars, decodeFrom]
  | cons c cs ih =>
    obtain ⟨next, first⟩ := decodeFrom_encodeChar order c offset done (encodeChars order cs)
    rw [encodeChars, List.flatMap_cons, ← encodeChars, first, ih, List.reverse_cons,
      List.append_assoc, List.singleton_append]

theorem encodeChar_unitOf {a b : UInt8} (low : isLow (unitOf order a b) = false)
    (high : isHigh (unitOf order a b) = false) :
    encodeChar order (Char.ofNat (unitOf order a b)) = [a, b] := by
  have small := unitOf_lt order a b
  rw [← Bool.not_eq_true, isLow_iff] at low
  rw [← Bool.not_eq_true, isHigh_iff] at high
  have value := Utf8.toNat_ofNat_of_valid (unitOf order a b) (by omega)
  rw [encodeChar]
  simp only [value]
  rw [if_pos small, unitBytes_unitOf]

theorem encodeChar_pair {a b c d : UInt8} (high : isHigh (unitOf order a b) = true)
    (low : isLow (unitOf order c d) = true) :
    encodeChar order (Char.ofNat (0x10000 + (unitOf order a b - 0xD800) * 0x400 +
      (unitOf order c d - 0xDC00))) = [a, b, c, d] := by
  rw [isHigh_iff] at high
  rw [isLow_iff] at low
  have value := Utf8.toNat_ofNat_of_valid (0x10000 + (unitOf order a b - 0xD800) * 0x400 +
    (unitOf order c d - 0xDC00)) (by omega)
  have first : 0xD800 + (0x10000 + (unitOf order a b - 0xD800) * 0x400 +
      (unitOf order c d - 0xDC00) - 0x10000) / 0x400 = unitOf order a b := by omega
  have second : 0xDC00 + (0x10000 + (unitOf order a b - 0xD800) * 0x400 +
      (unitOf order c d - 0xDC00) - 0x10000) % 0x400 = unitOf order c d := by omega
  rw [encodeChar]
  simp only [value]
  rw [if_neg (by omega), first, second, unitBytes_unitOf, unitBytes_unitOf]
  rfl

theorem encodeChars_of_decodeFrom {offset : Nat} {done cs : List Char} {data : Bytes}
    (decoded : decodeFrom order offset done data = .ok cs) :
    ∃ rest, cs = done.reverse ++ rest ∧ encodeChars order rest = data := by
  fun_induction decodeFrom order offset done data with
  | case1 offset done =>
    obtain rfl := Except.ok.inj decoded
    exact ⟨[], by rw [List.append_nil], rfl⟩
  | case2 => cases decoded
  | case3 => cases decoded
  | case4 offset done a b unit notLow high c d more next low ih =>
    obtain ⟨rest, rfl, bytes⟩ := ih decoded
    refine ⟨_ :: rest, by rw [List.reverse_cons, List.append_assoc, List.singleton_append], ?_⟩
    rw [encodeChars, List.flatMap_cons, ← encodeChars, bytes, encodeChar_pair high low]
    rfl
  | case5 => cases decoded
  | case6 => cases decoded
  | case7 offset done a b others unit notLow notHigh ih =>
    obtain ⟨rest, rfl, bytes⟩ := ih decoded
    refine ⟨_ :: rest, by rw [List.reverse_cons, List.append_assoc, List.singleton_append], ?_⟩
    rw [encodeChars, List.flatMap_cons, ← encodeChars, bytes,
      encodeChar_unitOf (Bool.not_eq_true _ ▸ notLow) (Bool.not_eq_true _ ▸ notHigh)]
    rfl

theorem decode_eq_ok_iff {data : Bytes} {s : String} :
    decode order data = .ok s ↔ encode order s = data := by
  constructor
  · intro decoded
    unfold decode at decoded
    cases read : decodeFrom order 0 [] data with
    | error e =>
      rw [read] at decoded
      cases decoded
    | ok cs =>
      rw [read] at decoded
      obtain rfl := Except.ok.inj decoded
      obtain ⟨rest, rfl, bytes⟩ := encodeChars_of_decodeFrom read
      rw [encode, String.toList_ofList]
      exact bytes
  · rintro rfl
    have read : decodeFrom order 0 [] (encode order s) = .ok ([].reverse ++ s.toList) :=
      decodeFrom_encodeChars s.toList 0 []
    rw [decode, read]
    simp [Except.map]

end Utf16

/-! ### Data that names its encoding -/

namespace Encoding

/-- The encoding that data is read in: the one whose mark it starts with, else UTF-8. -/
def presumed (data : Bytes) : Encoding := (ofMark? data).getD utf8

def leadingMark (data : Bytes) : Bytes := ((ofMark? data).map mark).getD []

def unmarked (data : Bytes) : Bytes := data.drop (leadingMark data).length

variable {data : Bytes}

theorem of_ofMark? {e : Encoding} (found : ofMark? data = some e) :
    e ∈ marked ∧ data.startsWith e.mark = true ∧ leadingMark data = e.mark ∧
      presumed data = e := by
  refine ⟨List.mem_of_find?_eq_some found, ?_, ?_, ?_⟩
  · simpa using List.find?_some found
  · rw [leadingMark, found]
    rfl
  · rw [presumed, found]
    rfl

theorem presumed_mem (data : Bytes) : presumed data ∈ marked := by
  cases found : ofMark? data with
  | none =>
    rw [presumed, found]
    exact List.mem_cons_self ..
  | some e =>
    obtain ⟨member, -, -, same⟩ := of_ofMark? found
    rwa [same]

theorem leadingMark_append_unmarked (data : Bytes) : leadingMark data ++ unmarked data = data := by
  have starts : leadingMark data <+: data := by
    cases found : ofMark? data with
    | none =>
      rw [leadingMark, found]
      exact List.nil_prefix
    | some e =>
      obtain ⟨-, starts, same, -⟩ := of_ofMark? found
      rw [same]
      exact List.isPrefixOf_iff_prefix.mp starts
  exact List.prefix_iff_eq_append.mp starts

theorem decodeBare_eq_ok_iff {e : Encoding} (member : e ∈ marked) {s : String} :
    decodeBare e data = .ok s ↔ e.encode s = data := by
  cases e with
  | utf8 => exact Utf8.decode_eq_ok_iff
  | utf16 order => exact Utf16.decode_eq_ok_iff
  | ascii => simp [marked] at member

theorem decode_presumed (data : Bytes) :
    decode (presumed data) data = decodeBare (presumed data) (unmarked data) := by
  have bare : withoutMark (presumed data) data = unmarked data := by
    cases found : ofMark? data with
    | none =>
      have other : data.startsWith utf8.mark = false :=
        Bool.eq_false_iff.mpr (List.find?_eq_none.mp found utf8 (List.mem_cons_self ..))
      rw [unmarked, leadingMark, presumed, found, withoutMark]
      simp [other]
    | some e =>
      obtain ⟨-, starts, same, here⟩ := of_ofMark? found
      rw [unmarked, same, here, withoutMark, if_pos starts]
  rw [decode, bare]

theorem isValid_of_ascii (ascii : ∀ b ∈ data, b.toNat < 0x80) : Utf8.isValid data = true := by
  rw [Utf8.isValid_iff]
  refine ⟨data.map fun b => Char.ofNat b.toNat, ?_⟩
  have value : ∀ b ∈ data, (Char.ofNat b.toNat).toNat = b.toNat := fun b member =>
    Utf8.toNat_ofNat_of_valid _ (by have := ascii b member; omega)
  rw [Utf8.encodeChars_of_ascii]
  · rw [List.map_map]
    refine ((List.map_congr_left fun b member => ?_).trans (List.map_id data)).symm
    simp only [Function.comp_apply, value b member]
    exact UInt8.ofNat_toNat
  · intro c member
    obtain ⟨b, among, rfl⟩ := List.mem_map.mp member
    rw [value b among]
    exact ascii b among

theorem detect?_getD (data : Bytes) : (detect? data).getD utf8 = presumed data := by
  unfold detect? presumed
  cases ofMark? data with
  | some e => rfl
  | none =>
    by_cases valid : Utf8.isValid data = true
    · simp [valid]
    · have noAscii : (data.all fun b => b.toNat < 0x80) = false := by
        rw [← Bool.not_eq_true]
        intro ascii
        refine valid (isValid_of_ascii fun b member => ?_)
        simpa using List.all_eq_true.mp ascii b member
      simp [valid, noAscii]

theorem exists_encode_of_isValid (valid : Utf8.isValid data = true) :
    ∃ s, (presumed data).encode s = unmarked data := by
  have whole := leadingMark_append_unmarked data
  obtain ⟨cs, bytes⟩ := Utf8.isValid_iff.mp valid
  cases found : ofMark? data with
  | none =>
    rw [leadingMark, found, Option.map_none, Option.getD_none, List.nil_append] at whole
    rw [presumed, found, whole]
    exact ⟨String.ofList cs, by rw [bytes, Option.getD_none, encode, Utf8.encode,
      String.toList_ofList]⟩
  | some e =>
    obtain ⟨member, -, same, here⟩ := of_ofMark? found
    rw [same] at whole
    rw [here]
    -- No UTF-8 data starts with a mark of UTF-16, since both marks begin with a byte that is no
    -- lead byte.
    cases e with
    | utf8 =>
      have mark : mark utf8 = Utf8.encodeChars ['\ufeff'] := by decide
      obtain ⟨rest, after⟩ := Utf8.exists_encodeChars_of_append
        (bytes.symm.trans (whole.symm.trans (congrArg (· ++ _) mark)))
      exact ⟨String.ofList rest, by rw [after, encode, Utf8.encode, String.toList_ofList]⟩
    | utf16 order =>
      rw [← whole] at valid
      cases order with
      | little => cases (Utf8.isValid_of_noLead (by decide) _).symm.trans valid
      | big => cases (Utf8.isValid_of_noLead (by decide) _).symm.trans valid
    | ascii => simp [marked] at member

end Encoding
end SourceIndex.Text
