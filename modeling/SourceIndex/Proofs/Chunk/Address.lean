import SourceIndex.Proofs.Chunk.Window
import SourceIndex.Proofs.Text.Decode
/-!
# Addresses of chunks

No two ranges of lines have the same address, since neither number holds a bar. So, unless digests
collide, an id names the lines of one file, and the ids of chunks that follow each other in a file
are distinct unless a single line makes up two of the chunks.
-/

namespace SourceIndex

namespace Chunk

/-! ### Addresses -/

def addressChars (path : String) (startLine endLine : Int) : List Char :=
  path.toList ++ '|' :: ((toString startLine).toList ++ '|' :: (toString endLine).toList)

theorem address_eq (path : String) (startLine endLine : Int) :
    address path startLine endLine =
      Text.Utf8.encodeChars (addressChars path startLine endLine) := by
  simp [address, addressChars, Text.Utf8.encode, Text.Utf8.encodeChars]

theorem isDigit_of_mem_repr {n : Nat} {c : Char} (member : c ∈ n.repr.toList) :
    c.isDigit = true := by
  rw [Nat.toList_repr] at member
  exact Nat.isDigit_of_mem_toDigits (by decide) (by decide) member

theorem toList_toString (n : Int) : (toString n).toList =
    if 0 ≤ n then n.toNat.repr.toList else '-' :: (-n).toNat.repr.toList := by
  rw [Int.toString_eq_repr, Int.repr_eq_if]
  split
  · rfl
  · rw [String.toList_append]
    rfl

theorem bar_not_mem_toString (n : Int) : '|' ∉ (toString n).toList := by
  have digits (m : Nat) : '|' ∉ m.repr.toList := by
    intro member
    exact absurd (isDigit_of_mem_repr member) (by decide)
  rw [toList_toString]
  split
  · exact digits n.toNat
  · rw [List.mem_cons, not_or]
    exact ⟨by decide, digits (-n).toNat⟩

theorem toString_injective {m n : Int} (same : (toString m).toList = (toString n).toList) :
    m = n := by
  have values {a b : Nat} (texts : a.repr.toList = b.repr.toList) : a = b := by
    have digits := congrArg (Nat.ofDigitChars 10 · 0) texts
    simpa only [Nat.toList_repr, Nat.ofDigitChars_ten_toDigits] using digits
  have sign (a b : Nat) : '-' :: a.repr.toList ≠ b.repr.toList := by
    intro texts
    have first : '-' ∈ b.repr.toList := texts ▸ List.mem_cons_self
    exact absurd (isDigit_of_mem_repr first) (by decide)
  rw [toList_toString, toList_toString] at same
  split at same <;> split at same
  · have digits := values same
    omega
  · exact absurd same.symm (sign _ _)
  · exact absurd same (sign _ _)
  · have digits := values (List.cons.inj same).2
    omega

theorem pieces_addressChars (path : String) (startLine endLine : Int) :
    Text.pieces '|' (addressChars path startLine endLine) = Text.pieces '|' path.toList ++
      [(toString startLine).toList, (toString endLine).toList] := by
  rw [addressChars, Text.pieces_append, Text.pieces_append,
    Text.pieces_of_not_mem (bar_not_mem_toString startLine),
    Text.pieces_of_not_mem (bar_not_mem_toString endLine)]
  rfl

theorem address_injective {path other : String} {startLine endLine startLine' endLine' : Int}
    (same : address path startLine endLine = address other startLine' endLine') :
    path = other ∧ startLine = startLine' ∧ endLine = endLine' := by
  rw [address_eq, address_eq] at same
  have chars := Text.Utf8.encodeChars_injective same
  have pieces := congrArg (Text.pieces '|') chars
  rw [pieces_addressChars, pieces_addressChars] at pieces
  -- A path may hold bars as well, so the numbers are told from the end.
  obtain ⟨-, numbers⟩ := List.append_inj' pieces rfl
  rw [List.cons.injEq, List.cons.injEq] at numbers
  have start := toString_injective numbers.1
  have stop := toString_injective numbers.2.1
  rw [addressChars, addressChars, start, stop] at chars
  exact ⟨String.toList_inj.mp (List.append_cancel_right chars), start, stop⟩

/-! ### Ids -/

/-- No two of some chunks have different addresses with the same digest. -/
def NoCollision (chunks : List Chunk) : Prop :=
  ∀ a ∈ chunks, ∀ b ∈ chunks,
    Digest.Sha256.hash (address a.path a.startLine a.endLine) =
      Digest.Sha256.hash (address b.path b.startLine b.endLine) →
    address a.path a.startLine a.endLine = address b.path b.startLine b.endLine

instance (chunks : List Chunk) : Decidable (NoCollision chunks) :=
  inferInstanceAs (Decidable (∀ a ∈ chunks, ∀ b ∈ chunks,
    Digest.Sha256.hash (address a.path a.startLine a.endLine) =
      Digest.Sha256.hash (address b.path b.startLine b.endLine) →
    address a.path a.startLine a.endLine = address b.path b.startLine b.endLine))

/-- The lines that are whole chunks, each as often as it is one. -/
def wholeLines (chunks : List Chunk) : List Int :=
  (chunks.filter fun c => c.startLine = c.endLine).map (·.startLine)

variable {path : String} {chunks : List Chunk}

/-- Chunks with the ids of their lines have the same id just if they have the same path and lines. -/
theorem NoCollision.id_eq_id_iff (apart : NoCollision chunks) {a b : Chunk} (first : a ∈ chunks)
    (second : b ∈ chunks) (own : a.id = idOf a.path a.startLine a.endLine)
    (own' : b.id = idOf b.path b.startLine b.endLine) :
    a.id = b.id ↔ a.path = b.path ∧ a.startLine = b.startLine ∧ a.endLine = b.endLine := by
  rw [own, own']
  constructor
  · intro same
    exact address_injective (apart a first b second same)
  · rintro ⟨path, start, stop⟩
    rw [path, start, stop]

theorem id_eq_iff (apart : NoCollision chunks) (exact' : ∀ c ∈ chunks, c.IsExact)
    (paths : ∀ c ∈ chunks, c.path = path) {a b : Chunk} (first : a ∈ chunks) (second : b ∈ chunks) :
    a.id = b.id ↔ a.startLine = b.startLine ∧ a.endLine = b.endLine := by
  rw [apart.id_eq_id_iff first second (exact' a first).id (exact' b second).id, paths a first,
    paths b second, eq_self_iff_true, true_and]

/-- Chunks that do not overlap, but for the last line of one and the first line of a later one. -/
def AreInOrder (chunks : List Chunk) : Prop := chunks.Pairwise fun a b => a.endLine ≤ b.startLine

/-- The ids of chunks in order are distinct just if no line is the whole of two of them. -/
theorem nodup_ids_iff (apart : NoCollision chunks) (exact' : ∀ c ∈ chunks, c.IsExact)
    (paths : ∀ c ∈ chunks, c.path = path) (inOrder : AreInOrder chunks) :
    (chunks.map (·.id)).Nodup ↔ (wholeLines chunks).Nodup := by
  rw [wholeLines, List.Nodup, List.pairwise_map, List.Nodup, List.pairwise_map,
    List.pairwise_filter]
  have sides : ∀ a ∈ chunks, ∀ b ∈ chunks, a.endLine ≤ b.startLine →
      (a.id ≠ b.id ↔ (decide (a.startLine = a.endLine) = true →
        decide (b.startLine = b.endLine) = true → a.startLine ≠ b.startLine)) := by
    intro a first b second before
    have forward := (exact' a first).le
    have forward' := (exact' b second).le
    simp only [ne_eq, id_eq_iff apart exact' paths first second, decide_eq_true_eq]
    omega
  have both := inOrder
  unfold AreInOrder at both
  constructor
  · intro distinct
    refine (both.and distinct).imp_of_mem fun {a b} first second pair => ?_
    exact (sides a first b second pair.1).mp pair.2
  · intro distinct
    refine (both.and distinct).imp_of_mem fun {a b} first second pair => ?_
    exact (sides a first b second pair.1).mpr pair.2

/-! ### Chunks of any files -/

/-- A chunk that is made for a range of lines of some file. -/
def IsMade (c : Chunk) : Prop :=
  ∃ path language startLine endLine content kind parser name,
    c = ofRange path language startLine endLine content kind parser name

theorem IsMade.id_eq {c : Chunk} (made : c.IsMade) :
    c.id = idOf c.path c.startLine c.endLine := by
  obtain ⟨path, language, startLine, endLine, content, kind, parser, name, rfl⟩ := made
  rfl

/-- An address tells the path and both line numbers, whatever characters the path has. So chunks of
any files have the same id just if they are the same lines of one file. -/
theorem ids_name_ranges :
    (∀ path other startLine endLine startLine' endLine',
      address path startLine endLine = address other startLine' endLine' →
        path = other ∧ startLine = startLine' ∧ endLine = endLine') ∧
    ∀ chunks, NoCollision chunks → (∀ c ∈ chunks, c.IsMade) → ∀ a ∈ chunks, ∀ b ∈ chunks,
      (a.id = b.id ↔ a.path = b.path ∧ a.startLine = b.startLine ∧ a.endLine = b.endLine) := by
  refine ⟨fun _ _ _ _ _ _ same => address_injective same, ?_⟩
  intro chunks apart made a first b second
  exact apart.id_eq_id_iff first second (made a first).id_eq (made b second).id_eq

/-- Some lines with two texts, and two ranges whose addresses differ from theirs in the bars alone,
the path of one of them being longer. -/
def barredChunks : List Chunk :=
  [ofRange "a|1" "text" 2 34 "old" .plain genericParser none,
   ofRange "a|1" "text" 2 34 "new" .plain genericParser none,
   ofRange "a|1" "text" 23 4 "old" .plain genericParser none,
   ofRange "a|1|2" "text" 3 4 "old" .plain genericParser none]

/-- Only the two with the same lines of the same file have the same id. -/
theorem ids_name_ranges_barred :
    NoCollision barredChunks ∧ (∀ c ∈ barredChunks, c.IsMade) ∧
    ∃ one two three four, barredChunks = [one, two, three, four] ∧ one.content ≠ two.content ∧
      one.id = two.id ∧ one.id ≠ three.id ∧ one.id ≠ four.id ∧ three.id ≠ four.id := by
  have apart : NoCollision barredChunks := by decide +kernel
  have made : ∀ c ∈ barredChunks, c.IsMade := by
    intro c member
    simp only [barredChunks, List.mem_cons, List.not_mem_nil, or_false] at member
    rcases member with rfl | rfl | rfl | rfl
    all_goals exact ⟨_, _, _, _, _, _, _, _, rfl⟩
  have named := ids_name_ranges.2 barredChunks apart made
  have differ {a b : Chunk} (first : a ∈ barredChunks) (second : b ∈ barredChunks)
      (other : a.startLine ≠ b.startLine) : a.id ≠ b.id :=
    fun same => other ((named a first b second).mp same).2.1
  refine ⟨apart, made, _, _, _, _, rfl, by decide, ?_, ?_, ?_, ?_⟩
  · exact (named _ (by simp [barredChunks]) _ (by simp [barredChunks])).mpr ⟨rfl, rfl, rfl⟩
  · exact differ (by simp [barredChunks]) (by simp [barredChunks]) (by decide)
  · exact differ (by simp [barredChunks]) (by simp [barredChunks]) (by decide)
  · exact differ (by simp [barredChunks]) (by simp [barredChunks]) (by decide)

end Chunk
end SourceIndex
