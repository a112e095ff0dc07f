import SourceIndex.Config.Basic
import SourceIndex.Proofs.Text.Lines
import SourceIndex.Select.Policy
/-!
# Ignored directories

A pattern `**/name/**` and the name of an ignored directory are two ways to leave out all that lies
below the directories of one name. Both say the same of every path: somewhere in the path, with a
slash put before it, the name stands between two slashes.
-/

namespace SourceIndex

/-! ### What a pattern stands for -/

namespace Glob

def IsPlain (c : Char) : Prop := c ≠ '*' ∧ c ≠ '?' ∧ c ≠ '['

instance (c : Char) : Decidable (IsPlain c) := inferInstanceAs (Decidable (_ ∧ _ ∧ _))

def IsLiteral (cs : List Char) : Prop := ∀ c ∈ cs, IsPlain c

-- not a search through all characters
instance (cs : List Char) : Decidable (IsLiteral cs) := List.decidableBAll _ cs

theorem elementsOf_star (fuel : Nat) (rest : List Char) :
    elementsOf (fuel + 1) ('*' :: rest) = .anyText :: elementsOf fuel rest := rfl

theorem elementsOf_plain {cs : List Char} (plain : IsLiteral cs) (fuel : Nat)
    (rest : List Char) :
    elementsOf (cs.length + fuel) (cs ++ rest) = cs.map .exactly ++ elementsOf fuel rest := by
  induction cs with
  | nil => simp
  | cons c cs ih =>
    obtain ⟨noStar, noMark, noBracket⟩ := plain c (List.mem_cons_self ..)
    have later := ih fun d member => plain d (List.mem_cons_of_mem _ member)
    rw [List.length_cons, Nat.add_right_comm, List.cons_append, elementsOf, if_neg noStar,
      if_neg noMark, if_neg noBracket, later, List.map_cons, List.cons_append]

theorem skip_iff (rest : List Char → Bool) (cs : List Char) :
    accepts.skip rest cs = true ↔ ∃ before after, cs = before ++ after ∧ rest after = true := by
  induction cs with
  | nil => simp [accepts.skip]
  | cons c cs ih =>
    rw [accepts.skip, Bool.or_eq_true, ih]
    constructor
    · rintro (now | ⟨before, after, rfl, found⟩)
      · exact ⟨[], c :: cs, rfl, now⟩
      · exact ⟨c :: before, after, rfl, found⟩
    · rintro ⟨before, after, whole, found⟩
      cases before with
      | nil => exact .inl (by rwa [whole])
      | cons d before =>
        rw [List.cons_append, List.cons.injEq] at whole
        exact .inr ⟨before, after, whole.2, found⟩

theorem accepts_anyText (elements : List Element) (cs : List Char) :
    accepts (.anyText :: elements) cs = true ↔
      ∃ before after, cs = before ++ after ∧ accepts elements after = true :=
  skip_iff (accepts elements) cs

theorem accepts_exactly (part : List Char) (elements : List Element) (cs : List Char) :
    accepts (part.map .exactly ++ elements) cs = true ↔
      ∃ after, cs = part ++ after ∧ accepts elements after = true := by
  induction part generalizing cs with
  | nil => simp
  | cons c part ih =>
    cases cs with
    | nil => simp [accepts]
    | cons d cs =>
      simp only [List.map_cons, List.cons_append, accepts, Element.fits, Bool.and_eq_true,
        decide_eq_true_eq, ih, List.cons.injEq]
      constructor
      · rintro ⟨same, after, rest, found⟩
        exact ⟨after, ⟨same, rest⟩, found⟩
      · rintro ⟨after, ⟨same, rest⟩, found⟩
        exact ⟨same, after, rest, found⟩

theorem accepts_stars (cs : List Char) : accepts [.anyText, .anyText] cs = true := by
  rw [accepts_anyText]
  refine ⟨[], cs, rfl, ?_⟩
  rw [accepts_anyText]
  exact ⟨cs, [], (List.append_nil cs).symm, rfl⟩

/-! ### The pattern of a directory name -/

/-- The pattern for all that lies below the directories of a name. -/
def folderPattern (name : String) : String := "**/" ++ name ++ "/**"

theorem parse_folderPattern {name : String} (plain : IsLiteral name.toList) :
    parse (folderPattern name) = .anyText :: .anyText ::
      (('/' :: name.toList ++ ['/']).map .exactly ++ [.anyText, .anyText]) := by
  have chars : (folderPattern name).toList =
      '*' :: '*' :: (('/' :: name.toList ++ ['/']) ++ ['*', '*']) := by
    simp [folderPattern]
  have clear : IsLiteral ('/' :: name.toList ++ ['/']) := by
    intro c member
    rw [List.mem_append, List.mem_cons, List.mem_singleton] at member
    rcases member with (slash | inside) | slash
    · rw [slash]
      decide
    · exact plain c inside
    · rw [slash]
      decide
  rw [parse, chars, List.length_cons, List.length_cons, List.length_append, elementsOf_star,
    elementsOf_star, elementsOf_plain clear]
  rfl

theorem covers_folderPattern {name : String} (plain : IsLiteral name.toList)
    (text : String) : covers (folderPattern name) text = true ↔
      '/' :: name.toList ++ ['/'] <:+: text.toList := by
  rw [covers_eq, parse_folderPattern plain]
  constructor
  · intro accepted
    obtain ⟨first, rest, whole, accepted⟩ := (accepts_anyText _ _).mp accepted
    obtain ⟨second, rest, split, accepted⟩ := (accepts_anyText _ _).mp accepted
    obtain ⟨after, found, -⟩ := (accepts_exactly _ _ _).mp accepted
    exact ⟨first ++ second, after, by simp [whole, split, found]⟩
  · rintro ⟨before, after, whole⟩
    rw [accepts_anyText]
    refine ⟨[], text.toList, rfl, ?_⟩
    rw [accepts_anyText]
    refine ⟨before, ('/' :: name.toList ++ ['/']) ++ after, ?_, ?_⟩
    · rw [← whole, List.append_assoc]
    · rw [accepts_exactly]
      exact ⟨after, rfl, accepts_stars after⟩

end Glob

/-! ### Patterns and names of directories -/

namespace Policy

/-- A path is left out for its directories if and only if, with a slash before it, it has one of
the names between two slashes. -/
theorem hasIgnoredSegment_iff {ignored : List String}
    (clear : ∀ name ∈ ignored, '/' ∉ name.toList) (path : String) :
    hasIgnoredSegment path ignored = true ↔
      ∃ name ∈ ignored, '/' :: name.toList ++ ['/'] <:+: '/' :: path.toList := by
  simp only [hasIgnoredSegment, Text.splitOn, ← List.map_dropLast, List.any_map, List.any_eq_true,
    Function.comp_apply, List.contains_iff_mem]
  constructor
  · rintro ⟨piece, inside, listed⟩
    have apart := clear _ listed
    rw [String.toList_ofList] at apart
    refine ⟨String.ofList piece, listed, ?_⟩
    rw [String.toList_ofList]
    exact (Text.mem_dropLast_pieces_iff apart).mp inside
  · rintro ⟨name, listed, between⟩
    refine ⟨name.toList, (Text.mem_dropLast_pieces_iff (clear name listed)).mpr between, ?_⟩
    rwa [String.ofList_toList]

/-- With a slash before the path the pattern of a name covers no less than without it. -/
theorem isExcluded_folderPattern_iff {names : List String}
    (plain : ∀ name ∈ names, Glob.IsLiteral name.toList) (path : String) :
    isExcluded path (names.map Glob.folderPattern) = true ↔
      ∃ name ∈ names, '/' :: name.toList ++ ['/'] <:+: '/' :: path.toList := by
  simp only [isExcluded, List.any_map, List.any_eq_true, Function.comp_apply, Bool.or_eq_true]
  have anchored : ("/" ++ path).toList = '/' :: path.toList := by simp
  constructor
  · rintro ⟨name, listed, bare | slashed⟩
    · have between := (Glob.covers_folderPattern (plain name listed) path).mp bare
      exact ⟨name, listed, between.trans (List.suffix_cons '/' path.toList).isInfix⟩
    · have between := (Glob.covers_folderPattern (plain name listed) _).mp slashed
      exact ⟨name, listed, by rwa [anchored] at between⟩
  · rintro ⟨name, listed, between⟩
    refine ⟨name, listed, .inr ?_⟩
    rw [Glob.covers_folderPattern (plain name listed), anchored]
    exact between

theorem isExcluded_folderPatterns {names : List String}
    (plain : ∀ name ∈ names, Glob.IsLiteral name.toList)
    (clear : ∀ name ∈ names, '/' ∉ name.toList) (path : String) :
    isExcluded path (names.map Glob.folderPattern) = true ↔
      hasIgnoredSegment path names = true := by
  rw [isExcluded_folderPattern_iff plain, hasIgnoredSegment_iff clear]

/-- The ignore patterns of a workspace without settings leave out a path if and only if one of its
directories has one of three names. -/
theorem isExcluded_standard_iff (root : Path) (path : String) :
    isExcluded path (Config.standard root).scan.ignorePatterns = true ↔
      hasIgnoredSegment path [".git", "__pycache__", ".venv"] = true := by
  have standard : (Config.standard root).scan.ignorePatterns = ({} : ScanSettings).ignorePatterns :=
    rfl
  have patterns : ({} : ScanSettings).ignorePatterns =
      [".git", "__pycache__", ".venv"].map Glob.folderPattern := by
    decide +kernel
  rw [standard, patterns]
  apply isExcluded_folderPatterns
  · decide +kernel
  · decide +kernel

example : isExcluded ".git/config" (Config.standard ⟨1, ["ws"]⟩).scan.ignorePatterns = true := by
  decide +kernel

end Policy
end SourceIndex
