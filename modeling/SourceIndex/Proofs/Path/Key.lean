import SourceIndex.Path.Key
import SourceIndex.Proofs.Path.Text
/-!
# Directory keys

A normal path is a number of slashes and the segments after them. Its directory has a key that is
made of them, and the parent of a key has one segment less. So going up from a key ends at the root,
and each step but the last one takes one level off the depth.
-/

namespace SourceIndex.Key

/-! ### Normal segments -/

def dots : List Char := ['.', '.']

/-- A segment that says something, in a path with slashes only. -/
structure IsLoud (segment : List Char) : Prop where
  filled : segment ≠ []
  notDot : segment ≠ ['.']
  noSlash : '/' ∉ segment
  noBackslash : '\\' ∉ segment

/-- Segments as they are left by normalizing: two dots have nothing but two dots before them, and do
not occur in a rooted path. -/
structure AreNormal (rooted : Bool) (segments : List (List Char)) : Prop where
  loud : ∀ segment ∈ segments, IsLoud segment
  ups : ∀ before after, segments = before ++ dots :: after →
    rooted = false ∧ ∀ segment ∈ before, segment = dots

variable {rooted : Bool} {segments kept : List (List Char)} {segment : List Char}

theorem areNormal_nil (rooted : Bool) : AreNormal rooted [] := ⟨by simp, by simp⟩

theorem AreNormal.of_append {more : List (List Char)}
    (normal : AreNormal rooted (segments ++ more)) : AreNormal rooted segments := by
  refine ⟨fun segment member => normal.loud segment (List.mem_append_left _ member), ?_⟩
  rintro before after rfl
  exact normal.ups before (after ++ more) (by simp)

theorem AreNormal.dropLast (normal : AreNormal rooted segments) :
    AreNormal rooted segments.dropLast := by
  rcases List.eq_nil_or_concat segments with rfl | ⟨front, last, rfl⟩
  · exact normal
  · rw [List.concat_eq_append] at normal ⊢
    rw [List.dropLast_concat]
    exact normal.of_append

/-- A segment may come after others, unless it is two dots that would take one of them back. -/
theorem AreNormal.concat (normal : AreNormal rooted segments) (loud : IsLoud segment)
    (ups : segment = dots → rooted = false ∧ ∀ other ∈ segments, other = dots) :
    AreNormal rooted (segments ++ [segment]) := by
  constructor
  · intro other member
    rcases List.mem_append.mp member with old | new
    · exact normal.loud other old
    · rwa [List.mem_singleton.mp new]
  · intro before after shape
    rcases List.eq_nil_or_concat after with rfl | ⟨front, last, rfl⟩
    · obtain ⟨rfl, same⟩ := List.append_inj' shape rfl
      exact ups (List.cons.inj same).1
    · have cut : before ++ dots :: front.concat last = (before ++ dots :: front) ++ [last] := by
        simp
      rw [cut] at shape
      exact normal.ups before front (List.append_inj' shape rfl).1

theorem AreNormal.keep (normal : AreNormal rooted kept.reverse) (noSlash : '/' ∉ segment)
    (noBackslash : '\\' ∉ segment) : AreNormal rooted (keep rooted kept segment).reverse := by
  unfold Key.keep
  split
  · exact normal
  rename_i speaks
  simp only [Bool.or_eq_true, decide_eq_true_eq, not_or] at speaks
  have loud : IsLoud segment := ⟨speaks.1, speaks.2, noSlash, noBackslash⟩
  split
  · rename_i isDots
    split
    · split
      · exact areNormal_nil rooted
      · rename_i relative
        rw [List.reverse_singleton, ← List.nil_append [segment]]
        exact normal.concat loud fun _ => ⟨by simpa using relative, by simp⟩
    · rename_i last rest
      rw [List.reverse_cons] at normal
      split
      · rename_i lastDots
        rw [List.reverse_cons, List.reverse_cons]
        obtain ⟨relative, all⟩ := normal.ups rest.reverse [] (by rw [lastDots]; rfl)
        refine normal.concat loud fun _ => ⟨relative, fun other member => ?_⟩
        rcases List.mem_append.mp member with old | new
        · exact all other old
        · rw [List.mem_singleton.mp new, lastDots]
          rfl
      · exact normal.of_append
  · rename_i noDots
    rw [List.reverse_cons]
    exact normal.concat loud fun isDots => absurd isDots noDots

theorem areNormal_foldl_keep {pieces : List (List Char)} (normal : AreNormal rooted kept.reverse)
    (noSlash : ∀ piece ∈ pieces, '/' ∉ piece) (noBackslash : ∀ piece ∈ pieces, '\\' ∉ piece) :
    AreNormal rooted (pieces.foldl (Key.keep rooted) kept).reverse := by
  induction pieces generalizing kept with
  | nil => exact normal
  | cons piece rest ih =>
    exact ih (normal.keep (noSlash piece (List.mem_cons_self ..))
        (noBackslash piece (List.mem_cons_self ..)))
      (fun other member => noSlash other (List.mem_cons_of_mem _ member))
      fun other member => noBackslash other (List.mem_cons_of_mem _ member)

theorem foldl_keep_of_areNormal (normal : AreNormal rooted (kept.reverse ++ segments)) :
    segments.foldl (Key.keep rooted) kept = segments.reverse ++ kept := by
  induction segments generalizing kept with
  | nil => rfl
  | cons segment rest ih =>
    have loud := normal.loud segment (by simp)
    have pushed : Key.keep rooted kept segment = segment :: kept := by
      have speaks : ¬ ((decide (segment = []) || decide (segment = ['.'])) = true) := by
        simp [loud.filled, loud.notDot]
      unfold Key.keep
      rw [if_neg speaks]
      split
      · rename_i isDots
        obtain ⟨relative, all⟩ := normal.ups kept.reverse rest (by rw [isDots]; rfl)
        cases kept with
        | nil => simp [relative]
        | cons last others =>
          have lastDots : last = ['.', '.'] := all last (by simp)
          simp [lastDots]
      · rfl
    rw [List.foldl_cons, pushed, ih (by simpa using normal)]
    simp

/-! ### Normal paths -/

/-- The slashes and the segments of a normal path. -/
structure IsNormal (slashes : Nat) (segments : List (List Char)) : Prop where
  few : slashes ≤ 2
  segments : AreNormal (slashes != 0) segments

def textChars (slashes : Nat) (segments : List (List Char)) : List Char :=
  List.replicate slashes '/' ++ Text.joinPieces '/' segments

def pathChars (slashes : Nat) (segments : List (List Char)) : List Char :=
  if (textChars slashes segments).isEmpty then ['.'] else textChars slashes segments

variable {slashes : Nat}

theorem IsNormal.dropLast (normal : IsNormal slashes segments) :
    IsNormal slashes segments.dropLast :=
  ⟨normal.few, normal.segments.dropLast⟩

theorem mem_of_mem_pieces {separator c : Char} {cs piece : List Char}
    (member : piece ∈ Text.pieces separator cs) (inside : c ∈ piece) : c ∈ cs := by
  induction cs generalizing piece with
  | nil =>
    rw [Text.pieces_of_not_mem (by simp), List.mem_singleton] at member
    rwa [member] at inside
  | cons first rest ih =>
    rw [Text.pieces_cons] at member
    split at member
    · rcases List.mem_cons.mp member with rfl | later
      · cases inside
      · exact List.mem_cons_of_mem _ (ih later inside)
    · obtain ⟨start, others, shape⟩ :=
        List.exists_cons_of_ne_nil (Text.pieces_ne_nil separator rest)
      rw [shape, List.modifyHead_cons] at member
      rw [shape] at ih
      rcases List.mem_cons.mp member with rfl | later
      · rcases List.mem_cons.mp inside with rfl | within
        · exact List.mem_cons_self ..
        · exact List.mem_cons_of_mem _ (ih (List.mem_cons_self ..) within)
      · exact List.mem_cons_of_mem _ (ih (List.mem_cons_of_mem _ later) inside)

theorem backslash_not_mem_slashed (cs : List Char) : '\\' ∉ slashed cs := by
  intro member
  obtain ⟨c, -, same⟩ := List.mem_map.mp member
  split at same
  · exact absurd same (by decide)
  · exact absurd same (by assumption)

theorem isNormal_slashed (cs : List Char) :
    IsNormal (Path.leadingSlashes (slashed cs)) (normalSegments (slashed cs)) := by
  refine ⟨Path.leadingSlashes_le _, ?_⟩
  refine areNormal_foldl_keep (areNormal_nil _)
    (fun piece member => Text.not_mem_of_mem_pieces member) fun piece member inside => ?_
  exact backslash_not_mem_slashed cs (mem_of_mem_pieces member inside)

theorem exists_normalize (path : String) (filled : path ≠ "") :
    ∃ slashes segments, IsNormal slashes segments ∧
      normalize path = String.ofList (pathChars slashes segments) := by
  refine ⟨_, _, isNormal_slashed path.toList, ?_⟩
  rw [normalize, if_neg filled]
  rfl

/-! ### Texts of normal paths -/

theorem joinPieces_ne_nil (loud : ∀ segment ∈ segments, IsLoud segment) (filled : segments ≠ []) :
    Text.joinPieces '/' segments ≠ [] := by
  obtain ⟨first, rest, rfl⟩ := List.exists_cons_of_ne_nil filled
  have isFilled := (loud first (List.mem_cons_self ..)).filled
  cases rest with
  | nil => simpa [Text.joinPieces] using isFilled
  | cons next others => simp [Text.joinPieces, List.intercalate_cons_of_ne_nil]

theorem head?_joinPieces (loud : ∀ segment ∈ segments, IsLoud segment) (filled : segments ≠ [])
    (more : List Char) : (Text.joinPieces '/' segments ++ more).head? ≠ some '/' := by
  obtain ⟨first, rest, rfl⟩ := List.exists_cons_of_ne_nil filled
  have isLoud := loud first (List.mem_cons_self ..)
  obtain ⟨c, cs, rfl⟩ := List.exists_cons_of_ne_nil isLoud.filled
  have other : c ≠ '/' := by
    rintro rfl
    exact isLoud.noSlash (List.mem_cons_self ..)
  cases rest with
  | nil => simpa [Text.joinPieces] using other
  | cons next others => simpa [Text.joinPieces, List.intercalate_cons_of_ne_nil] using other

theorem joinPieces_concat_eq (front : List (List Char)) (last : List Char) :
    Text.joinPieces '/' (front ++ [last]) =
      (if front = [] then [] else Text.joinPieces '/' front ++ ['/']) ++ last := by
  split
  · rename_i empty
    simp [empty, Text.joinPieces]
  · rename_i filled
    rw [Text.joinPieces_append filled (by simp)]
    simp [Text.joinPieces]

theorem getLast?_textChars (slashes : Nat) (loud : ∀ segment ∈ segments, IsLoud segment)
    (filled : segments ≠ []) :
    ∃ c, c ≠ '/' ∧ (textChars slashes segments).getLast? = some c := by
  obtain ⟨front, last, rfl⟩ := (List.eq_nil_or_concat segments).resolve_left filled
  rw [List.concat_eq_append] at loud ⊢
  have isLoud := loud last (by simp)
  obtain ⟨c, ends⟩ : ∃ c, last.getLast? = some c :=
    Option.ne_none_iff_exists'.mp (by simpa using isLoud.filled)
  refine ⟨c, ?_, ?_⟩
  · rintro rfl
    exact isLoud.noSlash (List.mem_of_getLast? ends)
  · rw [textChars, joinPieces_concat_eq, List.getLast?_append, List.getLast?_append, ends]
    rfl

theorem pathChars_of_ne_nil (slashes : Nat) (loud : ∀ segment ∈ segments, IsLoud segment)
    (filled : segments ≠ []) :
    pathChars slashes segments = textChars slashes segments := by
  have some : textChars slashes segments ≠ [] := by
    rw [textChars, ne_eq, List.append_eq_nil_iff, not_and]
    exact fun _ => joinPieces_ne_nil loud filled
  rw [pathChars, if_neg (by simpa using some)]

theorem pathChars_ne_nil (slashes : Nat) (segments : List (List Char)) :
    pathChars slashes segments ≠ [] := by
  unfold pathChars
  split
  · simp
  · rename_i filled
    simpa using filled

theorem pathChars_nil (slashes : Nat) :
    pathChars slashes [] = if slashes = 0 then ['.'] else List.replicate slashes '/' := by
  unfold pathChars textChars
  cases slashes with
  | zero => rfl
  | succ n => simp [Text.joinPieces, List.replicate_succ]

theorem pieces_replicate (n : Nat) (cs : List Char) :
    Text.pieces '/' (List.replicate n '/' ++ cs) = List.replicate n [] ++ Text.pieces '/' cs := by
  induction n with
  | zero => rfl
  | succ n ih =>
    rw [List.replicate_succ, List.cons_append, Text.pieces_cons, if_pos rfl, ih,
      List.replicate_succ, List.cons_append]

theorem foldl_keep_replicate (rooted : Bool) (kept : List (List Char)) (n : Nat) :
    (List.replicate n []).foldl (Key.keep rooted) kept = kept := by
  induction n with
  | zero => rfl
  | succ n ih =>
    rw [List.replicate_succ, List.foldl_cons]
    exact ih

theorem pieces_joinPieces (loud : ∀ segment ∈ segments, IsLoud segment) (filled : segments ≠ []) :
    Text.pieces '/' (Text.joinPieces '/' segments) = segments := by
  rw [Text.pieces_eq_splitOn]
  exact List.splitOn_intercalate _ (fun segment member => (loud segment member).noSlash) filled

theorem normalSegments_textChars (normal : IsNormal slashes segments) (filled : segments ≠ [])
    (closed : Bool) :
    normalSegments (textChars slashes segments ++ if closed then ['/'] else []) = segments ∧
      Path.leadingSlashes (textChars slashes segments ++ if closed then ['/'] else []) =
        slashes := by
  have loud := normal.segments.loud
  have leading : Path.leadingSlashes (textChars slashes segments ++
      if closed then ['/'] else []) = slashes := by
    rw [textChars, List.append_assoc]
    exact Path.leadingSlashes_replicate normal.few (head?_joinPieces loud filled _)
  refine ⟨?_, leading⟩
  rw [normalSegments, leading, textChars, List.append_assoc, pieces_replicate, List.foldl_append,
    foldl_keep_replicate]
  have pieces : Text.pieces '/' (Text.joinPieces '/' segments ++ if closed then ['/'] else []) =
      segments ++ if closed then [[]] else [] := by
    cases closed with
    | false => simp [pieces_joinPieces loud filled]
    | true =>
      simp only [if_true]
      rw [Text.pieces_append, pieces_joinPieces loud filled]
      rfl
  have kept : segments.foldl (Key.keep (slashes != 0)) [] = segments.reverse ++ [] :=
    foldl_keep_of_areNormal (by simpa using normal.segments)
  rw [pieces, List.foldl_append, kept, List.append_nil]
  have stays : (if closed then [[]] else []).foldl (Key.keep (slashes != 0)) segments.reverse =
      segments.reverse := by
    cases closed <;> rfl
  rw [stays, List.reverse_reverse]

theorem slashed_eq_self {cs : List Char} (clear : '\\' ∉ cs) : slashed cs = cs := by
  refine (List.map_congr_left fun c member => ?_).trans (List.map_id cs)
  rw [if_neg]
  · rfl
  · rintro rfl
    exact clear member

theorem backslash_not_mem_textChars (loud : ∀ segment ∈ segments, IsLoud segment) :
    '\\' ∉ textChars slashes segments := by
  induction segments using List.reverseRecOn with
  | nil => simp [textChars, Text.joinPieces]
  | append_singleton front last ih =>
    have before := ih fun segment member => loud segment (List.mem_append_left _ member)
    have inLast := (loud last (by simp)).noBackslash
    simp only [textChars, List.mem_append, not_or] at before
    rw [textChars, joinPieces_concat_eq]
    split
    · simp [before.1, inLast]
    · simp [before.1, before.2, inLast]

/-! ### Keys of directories -/

def keyChars (slashes : Nat) (segments : List (List Char)) : List Char :=
  if segments = [] then if slashes = 0 then ['.', '/'] else List.replicate slashes '/'
  else textChars slashes segments ++ ['/']

theorem keyChars_ne_nil (slashes : Nat) (segments : List (List Char)) :
    keyChars slashes segments ≠ [] := by
  unfold keyChars
  split
  · split
    · simp
    · simpa
  · simp

theorem normalize_ofList {cs : List Char} (filled : cs ≠ []) (clear : '\\' ∉ cs) :
    normalize (String.ofList cs) = String.ofList (normalChars cs) := by
  rw [normalize, if_neg (by simpa using filled), String.toList_ofList, slashed_eq_self clear]

theorem normalize_pathChars (normal : IsNormal slashes segments) :
    normalize (String.ofList (pathChars slashes segments)) =
      String.ofList (pathChars slashes segments) := by
  by_cases empty : segments = []
  · have few := normal.few
    rw [empty]
    obtain rfl | rfl | rfl : slashes = 0 ∨ slashes = 1 ∨ slashes = 2 := by omega
    all_goals decide
  · have loud := normal.segments.loud
    obtain ⟨same, leading⟩ := normalSegments_textChars normal empty false
    simp only [Bool.false_eq_true, if_false, List.append_nil] at same leading
    have whole := pathChars_of_ne_nil slashes loud empty
    obtain ⟨c, -, ends⟩ := getLast?_textChars slashes loud empty
    rw [whole, normalize_ofList (by rintro nothing; simp [nothing] at ends)
      (backslash_not_mem_textChars loud)]
    show String.ofList (pathChars _ _) = _
    rw [same, leading, whole]

theorem normalize_normalize (path : String) : normalize (normalize path) = normalize path := by
  by_cases empty : path = ""
  · rw [empty]
    rfl
  · obtain ⟨slashes, segments, normal, same⟩ := exists_normalize path empty
    rw [same, normalize_pathChars normal]

theorem normalize_keyChars (normal : IsNormal slashes segments) :
    normalize (String.ofList (keyChars slashes segments)) =
      String.ofList (pathChars slashes segments) := by
  by_cases empty : segments = []
  · have few := normal.few
    rw [empty]
    obtain rfl | rfl | rfl : slashes = 0 ∨ slashes = 1 ∨ slashes = 2 := by omega
    all_goals decide
  · have loud := normal.segments.loud
    obtain ⟨same, leading⟩ := normalSegments_textChars normal empty true
    simp only [if_true] at same leading
    have clear : '\\' ∉ textChars slashes segments ++ ['/'] := by
      simpa using backslash_not_mem_textChars loud
    rw [keyChars, if_neg empty, normalize_ofList (by simp) clear]
    show String.ofList (pathChars _ _) = _
    rw [same, leading]

theorem ofDirectory_pathChars (normal : IsNormal slashes segments) :
    ofDirectory (String.ofList (pathChars slashes segments)) =
      String.ofList (keyChars slashes segments) := by
  by_cases empty : segments = []
  · have few := normal.few
    rw [empty]
    obtain rfl | rfl | rfl : slashes = 0 ∨ slashes = 1 ∨ slashes = 2 := by omega
    all_goals decide
  · have loud := normal.segments.loud
    obtain ⟨c, other, ends⟩ := getLast?_textChars slashes loud empty
    rw [ofDirectory, normalize_pathChars normal, pathChars_of_ne_nil slashes loud empty]
    have filled : String.ofList (textChars slashes segments) ≠ "" := by
      intro nothing
      rw [String.ofList_eq_empty_iff] at nothing
      simp [nothing] at ends
    have noSlash : (String.ofList (textChars slashes segments)).toList.getLast? ≠ some '/' := by
      rw [String.toList_ofList, ends, ne_eq, Option.some.injEq]
      exact other
    rw [if_neg filled]
    simp only [if_neg noSlash]
    rw [keyChars, if_neg empty, String.ofList_append]

theorem ofDirectory_congr {path other : String} (filled : path ≠ "") (filled' : other ≠ "")
    (same : normalize path = normalize other) : ofDirectory path = ofDirectory other := by
  rw [ofDirectory, ofDirectory, if_neg filled, if_neg filled', same]

theorem dropSlashes_of_getLast? {cs : List Char} {c : Char} (other : c ≠ '/')
    (ends : cs.getLast? = some c) : dropSlashes cs = cs := by
  obtain ⟨front, rfl⟩ := List.getLast?_eq_some_iff.mp ends
  simp [dropSlashes, other]

theorem dropSlashes_append_slash (cs : List Char) : dropSlashes (cs ++ ['/']) = dropSlashes cs := by
  simp [dropSlashes]

theorem dropSlashes_replicate (n : Nat) : dropSlashes (List.replicate n '/') = [] := by
  simp [dropSlashes]

theorem upToSlash (lead : List Char) {last : List Char} (clear : '/' ∉ last)
    (ends : lead = [] ∨ lead.getLast? = some '/') :
    ((lead ++ last).reverse.dropWhile (· ≠ '/')).reverse = lead := by
  have skips : ∀ c ∈ last.reverse, decide (c ≠ '/') = true := by
    intro c member
    rw [decide_eq_true_eq]
    rintro rfl
    exact clear (List.mem_reverse.mp member)
  rw [List.reverse_append, List.dropWhile_append_of_pos skips]
  rcases ends with rfl | ends
  · rfl
  · obtain ⟨front, rfl⟩ := List.getLast?_eq_some_iff.mp ends
    simp

/-- The directory that a normal path lies in. -/
theorem directoryChars_pathChars (normal : IsNormal slashes segments) :
    (if String.ofList (directoryChars (pathChars slashes segments)) = "" then "."
      else String.ofList (directoryChars (pathChars slashes segments))) =
        String.ofList (pathChars slashes segments.dropLast) := by
  rcases List.eq_nil_or_concat segments with rfl | ⟨front, last, rfl⟩
  · have few := normal.few
    obtain rfl | rfl | rfl : slashes = 0 ∨ slashes = 1 ∨ slashes = 2 := by omega
    all_goals decide
  rw [List.concat_eq_append] at normal ⊢
  have loud := normal.segments.loud
  have noSlash := (loud last (by simp)).noSlash
  rw [List.dropLast_concat, pathChars_of_ne_nil slashes loud (by simp), textChars,
    joinPieces_concat_eq]
  by_cases empty : front = []
  · rw [if_pos empty, List.nil_append, empty]
    have head := upToSlash (List.replicate slashes '/') noSlash (by
      cases slashes with
      | zero => exact .inl rfl
      | succ n => exact .inr (by simp [List.getLast?_replicate]))
    rw [directoryChars, head, dropSlashes_replicate, pathChars_nil]
    cases slashes with
    | zero => rfl
    | succ n => simp
  · have loudFront : ∀ segment ∈ front, IsLoud segment :=
      fun segment member => loud segment (List.mem_append_left _ member)
    rw [if_neg empty, ← List.append_assoc, ← List.append_assoc, ← textChars]
    have head := upToSlash (textChars slashes front ++ ['/']) noSlash (.inr (by simp))
    obtain ⟨c, other, ends⟩ := getLast?_textChars slashes loudFront empty
    have filled : textChars slashes front ≠ [] := by
      rintro nothing
      simp [nothing] at ends
    have bare : dropSlashes (textChars slashes front ++ ['/']) = textChars slashes front := by
      rw [dropSlashes_append_slash, dropSlashes_of_getLast? other ends]
    have directory : directoryChars (textChars slashes front ++ ['/'] ++ last) =
        textChars slashes front := by
      rw [directoryChars, head, bare, if_neg (by simpa using filled)]
    rw [directory, if_neg (by simpa using filled), pathChars_of_ne_nil slashes loudFront empty]

theorem above_pathChars (normal : IsNormal slashes segments) :
    above (String.ofList (pathChars slashes segments)) =
      String.ofList (keyChars slashes segments.dropLast) := by
  rw [above, String.toList_ofList]
  rw [directoryChars_pathChars normal, ofDirectory_pathChars normal.dropLast]

/-! ### Going up -/

def IsKey (key : String) : Prop :=
  ∃ slashes segments, IsNormal slashes segments ∧ key = String.ofList (keyChars slashes segments)

theorem IsKey.ofDirectory_eq {key : String} (isKey : IsKey key) : ofDirectory key = key := by
  obtain ⟨slashes, segments, normal, rfl⟩ := isKey
  have filled : String.ofList (keyChars slashes segments) ≠ "" := by
    simpa using keyChars_ne_nil slashes segments
  have filled' : String.ofList (pathChars slashes segments) ≠ "" := by
    simpa using pathChars_ne_nil slashes segments
  have same := (normalize_keyChars normal).trans (normalize_pathChars normal).symm
  rw [ofDirectory_congr filled filled' same, ofDirectory_pathChars normal]

theorem isRoot_keyChars (normal : IsNormal slashes segments) :
    isRoot (String.ofList (keyChars slashes segments)) = true ↔ slashes = 0 ∧ segments = [] := by
  rw [isRoot, normalize_keyChars normal]
  simp only [Bool.or_eq_true, decide_eq_true_eq]
  constructor
  · intro root
    have text : pathChars slashes segments = ['.'] := by
      rcases root with empty | dot
      · rw [String.ofList_eq_empty_iff] at empty
        exact absurd empty (pathChars_ne_nil slashes segments)
      · exact String.ofList_injective dot
    by_cases empty : segments = []
    · subst empty
      refine ⟨?_, rfl⟩
      rw [pathChars_nil] at text
      by_contra some
      rw [if_neg some] at text
      obtain ⟨n, rfl⟩ := Nat.exists_eq_succ_of_ne_zero some
      rw [List.replicate_succ] at text
      exact absurd (List.cons.inj text).1 (by decide)
    · exfalso
      have loud := normal.segments.loud
      obtain ⟨first, rest, rfl⟩ := List.exists_cons_of_ne_nil empty
      have isLoud := loud first (List.mem_cons_self ..)
      rw [pathChars_of_ne_nil slashes loud empty, textChars] at text
      cases slashes with
      | succ n =>
        rw [List.replicate_succ, List.cons_append] at text
        exact absurd (List.cons.inj text).1 (by decide)
      | zero =>
        have pieces := congrArg (Text.pieces '/') text
        rw [List.replicate_zero, List.nil_append, pieces_joinPieces loud empty,
          Text.pieces_of_not_mem (by decide)] at pieces
        exact isLoud.notDot (List.cons.inj pieces).1
  · rintro ⟨rfl, rfl⟩
    exact .inr rfl

theorem parent_keyChars (normal : IsNormal slashes segments) :
    parent (String.ofList (keyChars slashes segments)) =
      if segments = [] then "" else String.ofList (keyChars slashes segments.dropLast) := by
  have some : String.ofList (keyChars slashes segments) ≠ "" := by
    rw [ne_eq, String.ofList_eq_empty_iff]
    exact keyChars_ne_nil slashes segments
  rw [parent]
  simp only [some, decide_false, Bool.false_or, isRoot_keyChars normal]
  by_cases empty : segments = []
  · subst empty
    rw [if_pos rfl]
    split
    · rfl
    · rename_i notRoot
      have slashed : slashes ≠ 0 := fun zero => notRoot ⟨zero, rfl⟩
      have bare : dropSlashes (pathChars slashes []) = [] := by
        rw [pathChars_nil, if_neg slashed, dropSlashes_replicate]
      rw [normalize_keyChars normal, String.toList_ofList, bare]
      rfl
  · have loud := normal.segments.loud
    have whole := pathChars_of_ne_nil slashes loud empty
    obtain ⟨c, other, ends⟩ := getLast?_textChars slashes loud empty
    have bare : dropSlashes (pathChars slashes segments) = pathChars slashes segments := by
      rw [whole, dropSlashes_of_getLast? other ends]
    have notRoot := (isRoot_keyChars normal).not.mpr fun root => empty root.2
    rw [isRoot, normalize_keyChars normal] at notRoot
    simp only [Bool.or_eq_true, decide_eq_true_eq] at notRoot
    rw [if_neg (by simp [empty]), normalize_keyChars normal, String.toList_ofList, bare]
    simp only [Bool.or_eq_true, decide_eq_true_eq]
    rw [if_neg notRoot, if_neg empty, above_pathChars normal]

theorem depth_keyChars (normal : IsNormal slashes segments) :
    depth (String.ofList (keyChars slashes segments)) = segments.length := by
  have some : String.ofList (keyChars slashes segments) ≠ "" := by
    rw [ne_eq, String.ofList_eq_empty_iff]
    exact keyChars_ne_nil slashes segments
  rw [depth]
  simp only [some, decide_false, Bool.false_or]
  by_cases root : isRoot (String.ofList (keyChars slashes segments)) = true
  · rw [if_pos root, ((isRoot_keyChars normal).mp root).2]
    rfl
  rw [if_neg root, normalize_keyChars normal]
  by_cases empty : segments = []
  · subst empty
    have slashed : slashes ≠ 0 := fun zero => root ((isRoot_keyChars normal).mpr ⟨zero, rfl⟩)
    rw [pathChars_nil, if_neg slashed, ← List.append_nil (List.replicate slashes '/'),
      Path.splitOn_replicate]
    simp [Text.splitOn, Text.pieces]
  · have loud := normal.segments.loud
    have are : ∀ segment ∈ segments.map String.ofList, IsSegment segment := by
      intro segment member
      obtain ⟨chars, among, rfl⟩ := List.mem_map.mp member
      have isLoud := loud chars among
      refine ⟨by simpa using isLoud.filled, fun dot => isLoud.notDot ?_, by
        simpa using isLoud.noSlash⟩
      exact String.ofList_injective dot
    have written : Text.joinWith '/' (segments.map String.ofList) =
        String.ofList (Text.joinPieces '/' segments) := by
      simp [Text.joinWith, Function.comp_def]
    have silent : (List.replicate slashes "").filter
        (fun segment : String => segment != "" && segment != ".") = [] := by
      simp
    rw [pathChars_of_ne_nil slashes loud empty, textChars, Path.splitOn_replicate,
      List.filter_append, silent, List.nil_append, ← written, Path.filter_splitOn_joinWith are, List.length_map]

theorem isRoot_empty : isRoot "" = true := by decide

theorem isKey_ofFile (path : String) : ofFile path = "" ∨ IsKey (ofFile path) := by
  by_cases empty : path = ""
  · exact .inl (by rw [ofFile, if_pos empty])
  · obtain ⟨slashes, segments, normal, same⟩ := exists_normalize path empty
    refine .inr ⟨slashes, segments.dropLast, normal.dropLast, ?_⟩
    rw [ofFile, if_neg empty, same, above_pathChars normal]

theorem IsKey.parent {key : String} (isKey : IsKey key) :
    parent key = "" ∨ IsKey (parent key) := by
  obtain ⟨slashes, segments, normal, rfl⟩ := isKey
  rw [parent_keyChars normal]
  split
  · exact .inl rfl
  · exact .inr ⟨slashes, segments.dropLast, normal.dropLast, rfl⟩

/-- Going up takes one level off the depth, or leads to the root if there is none left. -/
theorem IsKey.depth_parent {key : String} (isKey : IsKey key) (inside : isRoot key ≠ true) :
    depth key = 0 ∧ isRoot (Key.parent key) = true ∨ depth key = depth (Key.parent key) + 1 := by
  obtain ⟨slashes, segments, normal, rfl⟩ := isKey
  rw [parent_keyChars normal, depth_keyChars normal]
  split
  · rename_i empty
    rw [empty]
    exact .inl ⟨rfl, isRoot_empty⟩
  · rename_i filled
    rw [depth_keyChars normal.dropLast, List.length_dropLast]
    have long := List.length_pos_of_ne_nil filled
    exact .inr (by omega)

theorem depth_of_isRoot {key : String} (root : isRoot key = true) : depth key = 0 := by
  rw [depth, root, Bool.or_true, if_pos rfl]

theorem isKey_of_inside {key : String} (isKey : key = "" ∨ IsKey key)
    (inside : isRoot key ≠ true) : IsKey key := by
  refine isKey.resolve_left ?_
  rintro rfl
  exact inside isRoot_empty

theorem depth_parent_eq {key : String} (isKey : key = "" ∨ IsKey key) (deep : 0 < depth key) :
    depth (parent key) = depth key - 1 := by
  have inside : isRoot key ≠ true := by
    intro root
    rw [depth_of_isRoot root] at deep
    omega
  rcases (isKey_of_inside isKey inside).depth_parent inside with ⟨flat, -⟩ | level
  · omega
  · omega

theorem isKey_iterate_parent {key : String} (isKey : key = "" ∨ IsKey key) (steps : Nat) :
    parent^[steps] key = "" ∨ IsKey (parent^[steps] key) := by
  induction steps with
  | zero => exact isKey
  | succ steps ih =>
    rw [Function.iterate_succ_apply']
    rcases ih with empty | is
    · rw [empty]
      exact .inl rfl
    · exact is.parent

end SourceIndex.Key
