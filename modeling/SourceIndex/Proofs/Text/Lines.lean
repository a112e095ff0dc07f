import SourceIndex.Text.Lines
import Mathlib.Data.List.Infix
/-!
# Cutting and joining lines

Cutting a text at a separator is the cutting of lists at an element. No piece holds the separator,
and joining the pieces gives the text back.
-/

namespace SourceIndex.Text

/-! ### Pieces -/

theorem pieces_eq_splitOn (separator : Char) (cs : List Char) :
    pieces separator cs = cs.splitOn separator := by
  induction cs with
  | nil => simp [pieces]
  | cons c cs ih =>
    rw [List.splitOn_cons_eq_if_modifyHead, ← ih]
    simp only [pieces, List.foldr_cons, beq_iff_eq]
    split
    · rfl
    · have filled : pieces separator cs ≠ [] := by
        rw [ih]
        exact List.splitOn_ne_nil separator cs
      obtain ⟨piece, rest, found⟩ := List.exists_cons_of_ne_nil filled
      simp only [pieces] at found
      simp [found]

theorem not_mem_of_mem_pieces {separator : Char} {cs piece : List Char}
    (member : piece ∈ pieces separator cs) : separator ∉ piece := by
  rw [pieces_eq_splitOn] at member
  induction cs generalizing piece with
  | nil =>
    have empty : piece = [] := by simpa using member
    simp [empty]
  | cons c cs ih =>
    rw [List.splitOn_cons_eq_if_modifyHead] at member
    split at member
    · rcases List.mem_cons.mp member with first | later
      · simp [first]
      · exact ih later
    · rename_i other
      obtain ⟨first, rest, found⟩ := List.exists_cons_of_ne_nil (List.splitOn_ne_nil separator cs)
      rw [found, List.modifyHead_cons] at member
      rcases List.mem_cons.mp member with here | later
      · have clear : separator ∉ first := ih (by rw [found]; exact List.mem_cons_self ..)
        have differs : separator ≠ c := fun same => other (by simp [same])
        rw [here]
        exact List.not_mem_cons_of_ne_of_not_mem differs clear
      · exact ih (by rw [found]; exact List.mem_cons_of_mem _ later)

theorem not_mem_of_mem_splitOn {separator : Char} {s line : String}
    (member : line ∈ splitOn separator s) : separator ∉ line.toList := by
  obtain ⟨piece, found, rfl⟩ := List.mem_map.mp member
  rw [String.toList_ofList]
  exact not_mem_of_mem_pieces found

theorem not_mem_of_mem_lines {s line : String} (member : line ∈ lines s) :
    '\n' ∉ line.toList := by
  apply not_mem_of_mem_splitOn (s := s)
  simp only [lines] at member
  split at member
  · exact List.mem_of_mem_dropLast member
  · exact member

theorem pieces_cons (separator c : Char) (cs : List Char) : pieces separator (c :: cs) =
    if c = separator then [] :: pieces separator cs
    else (pieces separator cs).modifyHead (c :: ·) := by
  simp only [pieces_eq_splitOn, List.splitOn_cons_eq_if_modifyHead, beq_iff_eq]

theorem pieces_ne_nil (separator : Char) (cs : List Char) : pieces separator cs ≠ [] := by
  rw [pieces_eq_splitOn]
  exact List.splitOn_ne_nil separator cs

theorem pieces_append (separator : Char) (before after : List Char) :
    pieces separator (before ++ separator :: after) =
      pieces separator before ++ pieces separator after := by
  induction before with
  | nil => simp [pieces]
  | cons c before ih =>
    obtain ⟨piece, rest, found⟩ := List.exists_cons_of_ne_nil (pieces_ne_nil separator before)
    rw [List.cons_append, pieces_cons, pieces_cons, ih, found]
    split
    · rfl
    · rfl

theorem pieces_of_not_mem {separator : Char} {piece : List Char} (inside : separator ∉ piece) :
    pieces separator piece = [piece] := by
  induction piece with
  | nil => rfl
  | cons c piece ih =>
    rw [List.mem_cons, not_or] at inside
    rw [pieces_cons, if_neg (Ne.symm inside.1), ih inside.2, List.modifyHead_cons]

theorem splitOn_append (separator : Char) (before after : String) :
    splitOn separator (before ++ String.ofList [separator] ++ after) =
      splitOn separator before ++ splitOn separator after := by
  rw [splitOn, String.toList_append, String.toList_append, String.toList_ofList,
    List.append_assoc, List.singleton_append, pieces_append, List.map_append]
  rfl

theorem splitOn_of_not_mem {separator : Char} {s : String} (inside : separator ∉ s.toList) :
    splitOn separator s = [s] := by
  rw [splitOn, pieces_of_not_mem inside, List.map_singleton, String.ofList_toList]

theorem splitOn_ne_nil (separator : Char) (s : String) : splitOn separator s ≠ [] := by
  simp [splitOn, pieces_ne_nil]

theorem length_pieces (separator : Char) (cs : List Char) :
    (pieces separator cs).length = cs.count separator + 1 := by
  induction cs with
  | nil => rfl
  | cons c cs ih =>
    rw [pieces_cons, List.count_cons]
    by_cases here : c = separator
    · simp [here, ih]
    · simp [here, ih]

theorem length_splitOn (separator : Char) (s : String) :
    (splitOn separator s).length = s.toList.count separator + 1 := by
  rw [splitOn, List.length_map, length_pieces]

theorem pieces_filter {separator : Char} {keeps : Char → Bool} (kept : keeps separator = true)
    (cs : List Char) :
    pieces separator (cs.filter keeps) = (pieces separator cs).map (List.filter keeps) := by
  induction cs with
  | nil => rfl
  | cons c cs ih =>
    obtain ⟨piece, rest, found⟩ := List.exists_cons_of_ne_nil (pieces_ne_nil separator cs)
    rw [found] at ih
    rw [pieces_cons, found]
    by_cases here : c = separator
    · rw [List.filter_cons_of_pos (by rw [here, kept]), pieces_cons, if_pos here, if_pos here, ih]
      simp
    · rw [if_neg here]
      by_cases stays : keeps c = true
      · rw [List.filter_cons_of_pos stays, pieces_cons, if_neg here, ih]
        simp [List.filter_cons_of_pos stays]
      · rw [List.filter_cons_of_neg stays, ih]
        simp [List.filter_cons_of_neg stays]

theorem splitOn_filter {separator : Char} {keeps : Char → Bool} (kept : keeps separator = true)
    (s : String) : splitOn separator (String.ofList (s.toList.filter keeps)) =
      (splitOn separator s).map fun line => String.ofList (line.toList.filter keeps) := by
  rw [splitOn, String.toList_ofList, pieces_filter kept, splitOn, List.map_map, List.map_map]
  simp [Function.comp_def]

/-! ### Pieces of a part of a text -/

theorem suffix_of_pieces_append {separator : Char} (before cs : List Char) {i : Nat}
    {piece : List Char} (found : (pieces separator cs)[i]? = some piece) :
    ∃ whole, (pieces separator (before ++ cs))[before.count separator + i]? = some whole ∧
      piece <:+ whole := by
  induction before with
  | nil => exact ⟨piece, by simpa using found, List.suffix_refl piece⟩
  | cons c before ih =>
    obtain ⟨whole, place, ends⟩ := ih
    rw [List.cons_append, pieces_cons, List.count_cons]
    by_cases here : c = separator
    · refine ⟨whole, ?_, ends⟩
      rw [if_pos here, if_pos (by simpa using here), Nat.add_right_comm, List.getElem?_cons_succ,
        place]
    · rw [if_neg here, if_neg (by simpa using here), Nat.add_zero]
      obtain ⟨first, rest, shape⟩ :=
        List.exists_cons_of_ne_nil (pieces_ne_nil separator (before ++ cs))
      rw [shape] at place ⊢
      rw [List.modifyHead_cons]
      cases at' : before.count separator + i with
      | zero =>
        rw [at', List.getElem?_cons_zero, Option.some.injEq] at place
        subst place
        exact ⟨c :: first, rfl, ends.trans (List.suffix_cons c first)⟩
      | succ j =>
        rw [at', List.getElem?_cons_succ] at place
        exact ⟨whole, place, ends⟩

theorem prefix_of_pieces_append {separator : Char} (cs after : List Char) {i : Nat}
    {piece : List Char} (found : (pieces separator cs)[i]? = some piece) :
    ∃ whole, (pieces separator (cs ++ after))[i]? = some whole ∧ piece <+: whole := by
  induction cs generalizing i piece with
  | nil =>
    obtain ⟨first, rest, shape⟩ := List.exists_cons_of_ne_nil (pieces_ne_nil separator after)
    cases i with
    | zero =>
      have empty : [] = piece := by simpa [pieces] using found
      exact ⟨first, by rw [List.nil_append, shape]; rfl, empty ▸ List.nil_prefix⟩
    | succ j => simp [pieces] at found
  | cons c cs ih =>
    rw [pieces_cons] at found
    rw [List.cons_append, pieces_cons]
    by_cases here : c = separator
    · rw [if_pos here] at found ⊢
      cases i with
      | zero => exact ⟨[], rfl, by simpa using found⟩
      | succ j => exact ih found
    · rw [if_neg here] at found ⊢
      obtain ⟨first, rest, shape⟩ := List.exists_cons_of_ne_nil (pieces_ne_nil separator cs)
      obtain ⟨start, others, shape'⟩ :=
        List.exists_cons_of_ne_nil (pieces_ne_nil separator (cs ++ after))
      rw [shape, List.modifyHead_cons] at found
      rw [shape', List.modifyHead_cons]
      cases i with
      | zero =>
        have head : c :: first = piece := by simpa using found
        obtain ⟨whole, place, starts⟩ := @ih 0 first (by rw [shape]; rfl)
        rw [shape', List.getElem?_cons_zero, Option.some.injEq] at place
        subst place
        exact ⟨c :: start, rfl, head ▸ List.cons_prefix_cons.mpr ⟨rfl, starts⟩⟩
      | succ j =>
        obtain ⟨whole, place, starts⟩ := @ih (j + 1) piece (by rw [shape]; exact found)
        exact ⟨whole, by rw [shape'] at place; exact place, starts⟩

/-- A piece of a part of a text lies in the piece of the whole text at the same place. -/
theorem infix_of_pieces_append {separator : Char} (before cs after : List Char) {i : Nat}
    {piece : List Char} (found : (pieces separator cs)[i]? = some piece) :
    ∃ whole, (pieces separator (before ++ cs ++ after))[before.count separator + i]? =
      some whole ∧ piece <:+: whole := by
  obtain ⟨middle, place, starts⟩ := prefix_of_pieces_append cs after found
  obtain ⟨whole, place', ends⟩ := suffix_of_pieces_append before (cs ++ after) place
  refine ⟨whole, by rwa [List.append_assoc], starts.isInfix.trans ends.isInfix⟩

/-! ### Joining -/

@[simp] theorem unlines_nil : unlines [] = "" := rfl

@[simp] theorem unlines_singleton (line : String) : unlines [line] = line := by
  simp [unlines, joinWith, joinPieces]

theorem unlines_splitOn (s : String) : unlines (splitOn '\n' s) = s := by
  have lists : (splitOn '\n' s).map String.toList = s.toList.splitOn '\n' := by
    simp [splitOn, pieces_eq_splitOn, Function.comp_def]
  rw [unlines, joinWith, lists, joinPieces, List.intercalate_splitOn, String.ofList_toList]

theorem splitOn_joinWith {separator : Char} {parts : List String}
    (clear : ∀ part ∈ parts, separator ∉ part.toList) (filled : parts ≠ []) :
    splitOn separator (joinWith separator parts) = parts := by
  have apart : (joinPieces separator (parts.map String.toList)).splitOn separator =
      parts.map String.toList := by
    apply List.splitOn_intercalate
    · intro piece member
      obtain ⟨part, among, rfl⟩ := List.mem_map.mp member
      exact clear part among
    · simpa using filled
  rw [splitOn, joinWith, String.toList_ofList, pieces_eq_splitOn, apart, List.map_map]
  simp [Function.comp_def]

theorem splitOn_unlines {ls : List String} (clear : ∀ line ∈ ls, '\n' ∉ line.toList)
    (filled : ls ≠ []) : splitOn '\n' (unlines ls) = ls :=
  splitOn_joinWith clear filled

theorem joinPieces_append {separator : Char} {first second : List (List Char)} (one : first ≠ [])
    (two : second ≠ []) : joinPieces separator (first ++ second) =
      joinPieces separator first ++ separator :: joinPieces separator second := by
  unfold joinPieces
  induction first with
  | nil => exact absurd rfl one
  | cons piece rest ih =>
    cases rest with
    | nil =>
      rw [List.singleton_append, List.intercalate_cons_of_ne_nil two, List.intercalate_singleton,
        List.append_assoc, List.singleton_append]
    | cons next more =>
      have later := ih (List.cons_ne_nil next more)
      rw [List.cons_append, List.intercalate_cons_of_ne_nil (by simp), later,
        List.intercalate_cons_of_ne_nil (List.cons_ne_nil next more)]
      simp

theorem joinPieces_pieces (separator : Char) (cs : List Char) :
    joinPieces separator (pieces separator cs) = cs := by
  rw [joinPieces, pieces_eq_splitOn, List.intercalate_splitOn]

/-- A piece has another one after it if and only if it stands between two separators, once there is
a separator before the whole. -/
theorem mem_dropLast_pieces_iff {separator : Char} {piece : List Char} (apart : separator ∉ piece)
    {cs : List Char} : piece ∈ (pieces separator cs).dropLast ↔
      separator :: piece ++ [separator] <:+: separator :: cs := by
  constructor
  · intro member
    obtain ⟨first, rest, split⟩ := List.append_of_mem member
    have filled := pieces_ne_nil separator cs
    have all : pieces separator cs = first ++ (piece :: (rest ++ [(pieces separator cs).getLast
        filled])) := by
      rw [← List.cons_append, ← List.append_assoc, ← split, List.dropLast_concat_getLast]
    have later : joinPieces separator (piece :: (rest ++ [(pieces separator cs).getLast filled])) =
        piece ++ separator :: joinPieces separator (rest ++ [(pieces separator cs).getLast
          filled]) := by
      rw [← List.singleton_append, joinPieces_append (by simp) (by simp)]
      simp [joinPieces]
    have whole := joinPieces_pieces separator cs
    generalize joinPieces separator (rest ++ [(pieces separator cs).getLast filled]) = after at later
    rw [all] at whole
    cases first with
    | nil =>
      rw [List.nil_append, later] at whole
      exact ⟨[], after, by simp [← whole]⟩
    | cons one first =>
      rw [joinPieces_append (by simp) (by simp), later] at whole
      exact ⟨separator :: joinPieces separator (one :: first), after, by simp [← whole]⟩
  · rintro ⟨before, after, whole⟩
    have last := pieces_ne_nil separator after
    cases before with
    | nil =>
      have rest : cs = piece ++ separator :: after := by simpa using whole.symm
      rw [rest, pieces_append, pieces_of_not_mem apart, List.dropLast_append_of_ne_nil last]
      exact List.mem_append_left _ (List.mem_singleton_self piece)
    | cons c before =>
      have rest : cs = before ++ separator :: (piece ++ separator :: after) := by
        simpa using (List.cons.inj whole).2.symm
      rw [rest, pieces_append, pieces_append, pieces_of_not_mem apart, ← List.append_assoc,
        List.dropLast_append_of_ne_nil last]
      exact List.mem_append_left _ (List.mem_append_right _ (List.mem_singleton_self piece))

theorem mem_joinPieces {separator c : Char} {found : List (List Char)}
    (member : c ∈ joinPieces separator found) : c = separator ∨ ∃ piece ∈ found, c ∈ piece := by
  induction found with
  | nil => cases member
  | cons piece rest ih =>
    cases rest with
    | nil =>
      rw [joinPieces, List.intercalate_singleton] at member
      exact .inr ⟨piece, List.mem_cons_self .., member⟩
    | cons next more =>
      have apart : piece :: next :: more = [piece] ++ (next :: more) := rfl
      rw [apart, joinPieces_append (List.cons_ne_nil _ _) (List.cons_ne_nil _ _), joinPieces,
        List.intercalate_singleton] at member
      rcases List.mem_append.mp member with first | later
      · exact .inr ⟨piece, List.mem_cons_self .., first⟩
      · rcases List.mem_cons.mp later with same | inside
        · exact .inl same
        · rcases ih inside with same | ⟨other, among, within⟩
          · exact .inl same
          · exact .inr ⟨other, List.mem_cons_of_mem _ among, within⟩

theorem unlines_append {first second : List String} (one : first ≠ []) (two : second ≠ []) :
    unlines (first ++ second) =
      String.ofList ((unlines first).toList ++ '\n' :: (unlines second).toList) := by
  simp only [unlines, joinWith, String.toList_ofList, List.map_append]
  rw [joinPieces_append (by simpa using one) (by simpa using two)]

theorem unlines_map_unlines {groups : List (List String)} (filled : ∀ group ∈ groups, group ≠ []) :
    unlines (groups.map unlines) = unlines groups.flatten := by
  induction groups with
  | nil => rfl
  | cons group rest ih =>
    have later := ih fun other member => filled other (List.mem_cons_of_mem _ member)
    cases rest with
    | nil => simp
    | cons next more =>
      have first := filled group (List.mem_cons_self ..)
      have second : (next :: more).flatten ≠ [] := by
        have filled := filled next (by simp)
        simp [filled]
      have apart : (group :: next :: more).map unlines =
          [unlines group] ++ (next :: more).map unlines := rfl
      have whole : (group :: next :: more).flatten = group ++ (next :: more).flatten :=
        List.flatten_cons
      rw [apart, unlines_append (List.cons_ne_nil _ _) (by simp), later, whole,
        unlines_append first second, unlines_singleton]

end SourceIndex.Text
