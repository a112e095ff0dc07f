import SourceIndex.Proofs.Text.Encoding
import SourceIndex.Text.Blocks
/-!
# Text in blocks is read whole

Where the blocks of encoded text end does not matter: the bytes at the end of a block that begin a
character are told from a fault and are carried over, so that the next block begins with that
character.
-/

namespace SourceIndex.Text

namespace Utf8

/-! ### Characters that are cut off -/

theorem continued_of_encodeChar {c : Char} {lead : UInt8} {follow : Bytes}
    (bytes : encodeChar c = lead :: follow) : followers? lead.toNat = some follow.length ∧
      continued lead.toNat follow.length follow = follow.length := by
  obtain ⟨lead', follow', whole, next⟩ := nextPiece_encodeChar c
  rw [whole, List.cons.injEq] at bytes
  obtain ⟨rfl, rfl⟩ := bytes
  have complete := next 0 []
  rw [List.append_nil] at complete
  unfold nextPiece at complete
  split at complete
  · cases complete
  rename_i wanted follows
  simp only at complete
  split at complete
  · rename_i found
    obtain rfl := (Prod.mk.inj complete).2
    exact ⟨follows, found⟩
  · split at complete
    · cases complete
    · cases complete

theorem follow_of_encodeChar {c : Char} {lead next : UInt8} {more : Bytes}
    (bytes : encodeChar c = lead :: next :: more) : mayFollow lead.toNat next.toNat = true ∧
      ∀ b ∈ more, isContinuation b.toNat = true := by
  obtain ⟨-, found⟩ := continued_of_encodeChar bytes
  have all := take_continued lead.toNat (next :: more).length (next :: more)
  rw [found, List.take_length] at all
  rcases all with nothing | ⟨first, others, shape, -, may, continues⟩
  · cases nothing
  · rw [List.cons.injEq] at shape
    obtain ⟨rfl, rfl⟩ := shape
    exact ⟨may, continues⟩

/-- The start of a character is a fault that asks for more bytes. -/
theorem nextPiece_of_start {c : Char} {lead : UInt8} {start rest : Bytes}
    (bytes : encodeChar c = lead :: start ++ rest) (more : rest ≠ []) (offset : Nat) :
    nextPiece offset lead start = (.fault .unexpectedEnd offset (1 + start.length) lead,
      start.length) := by
  have short : start.length < (start ++ rest).length := by
    rw [List.length_append]
    exact Nat.lt_add_of_pos_right (List.length_pos_iff.mpr more)
  have wanted : followers? lead.toNat = some (start ++ rest).length :=
    (continued_of_encodeChar bytes).1
  -- All the bytes after the lead byte stand where they may, so the first ones of them do.
  have found : continued lead.toNat (start ++ rest).length start = start.length := by
    unfold continued
    rw [List.take_of_length_le (Nat.le_of_lt short)]
    cases start with
    | nil => rfl
    | cons next start =>
      obtain ⟨may, continues⟩ := follow_of_encodeChar bytes
      have inside : ∀ b ∈ start, isContinuation b.toNat = true :=
        fun b member => continues b (List.mem_append_left _ member)
      simp only [may, if_true]
      rw [List.takeWhile_eq_self_iff.mpr inside, List.length_cons, Nat.add_comm]
  unfold nextPiece
  simp only [wanted, found]
  rw [if_neg (Nat.ne_of_lt short), if_pos (Nat.le_refl _)]

theorem piecesFrom_encodeChars (offset : Nat) (cs : List Char) (rest : Bytes) :
    piecesFrom offset (encodeChars cs ++ rest) =
      cs.map Piece.char ++ piecesFrom (offset + (encodeChars cs).length) rest := by
  induction cs generalizing offset with
  | nil => rfl
  | cons c cs ih =>
    obtain ⟨lead, follow, bytes, first⟩ := nextPiece_encodeChar c
    have shape : encodeChars (c :: cs) ++ rest = lead :: (follow ++ (encodeChars cs ++ rest)) := by
      rw [encodeChars, List.flatMap_cons, bytes, ← encodeChars]
      simp
    have length : (encodeChars (c :: cs)).length = 1 + follow.length + (encodeChars cs).length := by
      rw [encodeChars, List.flatMap_cons, bytes, ← encodeChars]
      simp
      omega
    rw [shape, piecesFrom_cons, first, List.drop_left, ih, length]
    simp [Nat.add_assoc]

/-! ### Text that is cut off -/

/-- No bytes, or the start of a character without its end. -/
def IsStart (bytes : Bytes) : Prop :=
  bytes = [] ∨ ∃ c rest, encodeChar c = bytes ++ rest ∧ rest ≠ []

theorem exists_of_encodeChars_eq_append {cs : List Char} {block rest : Bytes}
    (whole : encodeChars cs = block ++ rest) : ∃ before after start,
      cs = before ++ after ∧ block = encodeChars before ++ start ∧ IsStart start ∧
        start ++ rest = encodeChars after := by
  induction cs generalizing block with
  | nil =>
    obtain ⟨rfl, rfl⟩ := List.append_eq_nil_iff.mp whole.symm
    exact ⟨[], [], [], rfl, rfl, .inl rfl, rfl⟩
  | cons c cs ih =>
    rw [encodeChars, List.flatMap_cons, ← encodeChars] at whole
    rcases List.append_eq_append_iff.mp whole with ⟨later, rfl, others⟩ | ⟨tail, first, rfl⟩
    · obtain ⟨before, after, start, rfl, rfl, is, whole⟩ := ih others
      refine ⟨c :: before, after, start, rfl, ?_, is, whole⟩
      rw [encodeChars, encodeChars, List.flatMap_cons, List.append_assoc]
    · by_cases complete : tail = []
      · refine ⟨[c], cs, [], rfl, ?_, .inl rfl, by rw [complete]; rfl⟩
        rw [complete, List.append_nil] at first
        simp [encodeChars, first]
      · refine ⟨[], c :: cs, block, rfl, rfl, .inr ⟨c, tail, first, complete⟩, ?_⟩
        rw [← List.append_assoc, ← first]
        rfl

end Utf8

namespace Blocks

open Utf8 (IsStart)

theorem upToFault_map_char (cs : List Char) (pieces : List Utf8.Piece) :
    upToFault (cs.map Utf8.Piece.char ++ pieces) =
      (cs ++ (upToFault pieces).1, (upToFault pieces).2) := by
  induction cs with
  | nil => rfl
  | cons c cs ih => rw [List.map_cons, List.cons_append, upToFault, ih, List.cons_append]

theorem isCarried_of_start {c : Char} {start rest : Bytes}
    (bytes : Utf8.encodeChar c = start ++ rest) : isCarried .unexpectedEnd start = true := by
  unfold isCarried
  split
  · rename_i b
    -- A byte that follows 0xED in a character keeps it below the surrogates.
    obtain ⟨low, high⟩ := Utf8.mayFollow_iff.mp (Utf8.follow_of_encodeChar bytes).1
    have low : 0x80 ≤ b.toNat := low
    have high : b.toNat ≤ 0x9F := high
    rw [Bool.and_eq_true, decide_eq_true_eq, decide_eq_true_eq, UInt8.le_iff_toNat_le,
      UInt8.le_iff_toNat_le]
    exact ⟨low, Nat.le_trans high (by decide)⟩
  · decide

/-- What is read of a block of encoded text: its characters, and the start of one at its end. -/
theorem upToFault_cut (before : List Char) {start : Bytes} (is : IsStart start) :
    upToFault (Utf8.cut (Utf8.encodeChars before ++ start)) = (before, none) ∧ start = [] ∨
      ∃ length first, upToFault (Utf8.cut (Utf8.encodeChars before ++ start)) =
          (before, some (.fault .unexpectedEnd (Utf8.encodeChars before).length length first)) ∧
        isCarried .unexpectedEnd start = true := by
  have pieces : Utf8.cut (Utf8.encodeChars before ++ start) = before.map Utf8.Piece.char ++
      Utf8.piecesFrom (0 + (Utf8.encodeChars before).length) start :=
    Utf8.piecesFrom_encodeChars 0 before start
  rw [pieces, upToFault_map_char, Nat.zero_add]
  rcases is with rfl | ⟨c, rest, bytes, more⟩
  · left
    simp [Utf8.piecesFrom, Utf8.scan, upToFault]
  · cases start with
    | nil =>
      left
      simp [Utf8.piecesFrom, Utf8.scan, upToFault]
    | cons lead start =>
      right
      refine ⟨1 + start.length, lead, ?_, isCarried_of_start bytes⟩
      rw [Utf8.piecesFrom_cons, Utf8.nextPiece_of_start bytes more]
      simp [upToFault]

theorem read_of_append {cs : List Char} {carried data : Bytes} (is : IsStart carried)
    (whole : carried ++ data = Utf8.encodeChars cs) : read carried data = ⟨cs, none⟩ := by
  generalize length : data.length = n
  induction n using Nat.strongRecOn generalizing cs carried data with
  | ind n ih =>
    rw [read]
    split
    · rename_i empty
      rw [List.isEmpty_iff.mp empty, List.append_nil] at whole
      rw [whole, Utf8.cut_encodeChars, Utf8.strict_map_char]
    · rename_i filled
      have shorter : (data.drop size).length < n := by
        rw [List.isEmpty_iff, ← List.length_eq_zero_iff] at filled
        rw [List.length_drop, ← length]
        have positive : 0 < size := by decide
        omega
      have parts : Utf8.encodeChars cs = (carried ++ data.take size) ++ data.drop size := by
        rw [List.append_assoc, List.take_append_drop, whole]
      obtain ⟨before, after, start, rfl, block, starts, rest⟩ :=
        Utf8.exists_of_encodeChars_eq_append parts
      have later := ih _ shorter starts rest rfl
      simp only
      rw [block]
      rcases upToFault_cut before starts with ⟨found, rfl⟩ | ⟨length, first, found, carries⟩
      · simp only [found, later, Reading.after]
      · simp only [found, List.drop_left, carries, if_true, later, Reading.after]

theorem read_encodeChars (cs : List Char) : read [] (Utf8.encodeChars cs) = ⟨cs, none⟩ :=
  read_of_append (.inl rfl) rfl

end Blocks
end SourceIndex.Text
