import SourceIndex.Config.Load
import SourceIndex.Proofs.Except
import SourceIndex.Proofs.FileSystem.Listing
import SourceIndex.Proofs.Number.Binary64
import SourceIndex.Proofs.Text.Lower
/-!
# What reading a field gives

The value of a field is the one before or the one that is given, which is in range if every test
of the field compares with it; and only an integer that is read as a floating-point number can fail
otherwise than by a configuration error.
-/

namespace SourceIndex

/-! ### Suffixes -/

/-- A suffix as it is kept: with a leading dot and in lower case. -/
structure IsExtension (extension : String) : Prop where
  nonempty : extension ≠ ""
  dotted : extension.toList.head? = some '.'
  low : Text.lower extension = extension

theorem isExtension_of_normalExtension? {given extension : String}
    (normal : normalExtension? given = some extension) : IsExtension extension := by
  have low (c : Char) : c ∈ (Text.lower (Text.trim given)).toList → Text.IsLower c :=
    Text.isLower_of_mem_lower
  unfold normalExtension? at normal
  simp only at normal
  split at normal
  · cases normal
  · rename_i nonempty
    split at normal
    · rename_i dotted
      obtain rfl := Option.some.inj normal
      exact ⟨nonempty, dotted, Text.lower_lower _⟩
    · obtain rfl := Option.some.inj normal
      have chars : ("." ++ Text.lower (Text.trim given)).toList =
          '.' :: (Text.lower (Text.trim given)).toList := by simp
      refine ⟨fun empty => ?_, by rw [chars]; rfl, Text.lower_of_isLower fun c member => ?_⟩
      · rw [empty] at chars
        cases chars
      · rw [chars] at member
        rcases List.mem_cons.mp member with rfl | later
        · decide +kernel
        · exact low c later

theorem isExtension_of_mem_normalizeExtensions {given : List String} :
    (normalizeExtensions given).Nodup ∧ ∀ e ∈ normalizeExtensions given, IsExtension e := by
  refine ⟨nodup_eraseDups _, fun e member => ?_⟩
  rw [normalizeExtensions, List.mem_eraseDups] at member
  obtain ⟨source, -, normal⟩ := List.mem_filterMap.mp member
  exact isExtension_of_normalExtension? normal

namespace Config

/-! ### Integers -/

variable {field scope key : String} {cap : Option Int}

def InCap (cap : Option Int) (n : Int) : Prop := 1 ≤ n ∧ ∀ most, cap = some most → n ≤ most

theorem inCap_none_iff {n : Int} : InCap none n ↔ 1 ≤ n :=
  ⟨And.left, fun positive => ⟨positive, fun _ absent => by cases absent⟩⟩

theorem inCap_some_iff {most n : Int} : InCap (some most) n ↔ 1 ≤ n ∧ n ≤ most :=
  ⟨fun inCap => ⟨inCap.1, inCap.2 most rfl⟩, fun ⟨positive, small⟩ =>
    ⟨positive, fun _ same => Option.some.inj same ▸ small⟩⟩

theorem inCap_of_positiveInt {n m : Int} (read : positiveInt field cap n = .ok m) :
    InCap cap m := by
  unfold positiveInt at read
  split at read
  · cases read
  · cases cap with
    | none =>
      obtain rfl := Except.ok.inj read
      exact inCap_none_iff.mpr (by omega)
    | some most =>
      simp only at read
      split at read
      · cases read
      · obtain rfl := Except.ok.inj read
        exact inCap_some_iff.mpr (by omega)

theorem inCap_of_intOr {before n : Int} {value : Option Setting} (earlier : InCap cap before)
    (read : intOr field cap before value = .ok n) : InCap cap n := by
  unfold intOr at read
  split at read
  · exact Except.ok.inj read ▸ earlier
  · exact Except.ok.inj read ▸ earlier
  · exact inCap_of_positiveInt read
  · cases read

theorem inCap_of_overrideInt {before n : Int} {value : Option Int} (earlier : InCap cap before)
    (read : overrideInt field cap before value = .ok n) : InCap cap n := by
  unfold overrideInt at read
  split at read
  · exact Except.ok.inj read ▸ earlier
  · exact inCap_of_positiveInt read

/-! ### Floating-point numbers -/

theorem exists_of_realOr {e : ConfigError} {rejects : Number → Bool} {before x : Number}
    {value : Option Setting} (read : realOr e rejects before value = .ok x) :
    (x = before ∧ ∀ n, value ≠ some (.number n)) ∨
      ∃ n, value = some (.number n) ∧ rejects n = false ∧ asReal n = .ok x := by
  unfold realOr at read
  split at read
  · exact .inl ⟨(Except.ok.inj read).symm, fun n given => by cases given⟩
  · exact .inl ⟨(Except.ok.inj read).symm, fun n given => by cases given⟩
  · rename_i n
    split at read
    · cases read
    · rename_i accepted
      exact .inr ⟨n, rfl, Bool.eq_false_iff.mpr accepted, read⟩
  · cases read

theorem exists_of_asReal {n x : Number} (read : asReal n = .ok x) :
    (∃ a y, n = .whole a ∧ Binary64.ofInt? a = some y ∧ x = .real y) ∨
      ∃ y, n = .real y ∧ x = .real y := by
  unfold asReal at read
  split at read
  · rename_i a
    split at read
    · rename_i y found
      exact .inl ⟨a, y, rfl, found, (Except.ok.inj read).symm⟩
    · cases read
  · rename_i y
    exact .inr ⟨y, rfl, (Except.ok.inj read).symm⟩

/-- What a number field holds compares with an integer as its test says, unless it was given what is
no number. -/
theorem zero_lt_of_realOr_iff {e : ConfigError} {before x : Number} {value : Option Setting}
    (earlier : (Number.whole 0).lt before = true)
    (read : realOr e notPositive before value = .ok x) :
    (Number.whole 0).lt x = true ↔ value ≠ some (.number (.real .nan)) := by
  rcases exists_of_realOr read with ⟨rfl, absent⟩ | ⟨n, rfl, accepted, real⟩
  · exact ⟨fun _ => absent _, fun _ => earlier⟩
  · rcases exists_of_asReal real with ⟨a, y, rfl, rounded, rfl⟩ | ⟨y, rfl, rfl⟩
    · have positive : 0 < a := by
        rw [notPositive, ← Bool.not_eq_true, Number.whole_le_whole] at accepted
        omega
      obtain ⟨m, exponent, some, rfl⟩ := Binary64.exists_of_ofInt?_pos positive rounded
      exact ⟨fun _ same => (by cases same), fun _ => Number.zero_lt_finite some exponent⟩
    · rw [Number.whole_lt_real_iff, show (Number.real y).le (.whole 0) = false from accepted]
      simp

theorem zero_le_of_realOr_iff {e : ConfigError} {before x : Number} {value : Option Setting}
    (earlier : (Number.whole 0).le before = true)
    (read : realOr e negative before value = .ok x) :
    (Number.whole 0).le x = true ↔ value ≠ some (.number (.real .nan)) := by
  rcases exists_of_realOr read with ⟨rfl, absent⟩ | ⟨n, rfl, accepted, real⟩
  · exact ⟨fun _ => absent _, fun _ => earlier⟩
  · rcases exists_of_asReal real with ⟨a, y, rfl, rounded, rfl⟩ | ⟨y, rfl, rfl⟩
    · refine ⟨fun _ same => (by cases same), fun _ => ?_⟩
      have natural : 0 ≤ a := by
        rw [negative, ← Bool.not_eq_true, Number.whole_lt_whole] at accepted
        omega
      rcases Int.lt_or_eq_of_le natural with positive | rfl
      · obtain ⟨m, exponent, some, rfl⟩ := Binary64.exists_of_ofInt?_pos positive rounded
        rw [Number.le_eq_true_iff]
        exact .inl ((Number.lt_eq_true_iff _ _).mp (Number.zero_lt_finite some exponent))
      · obtain rfl := Option.some.inj rounded
        decide +kernel
    · rw [Number.whole_le_real_iff, show (Number.real y).lt (.whole 0) = false from accepted]
      simp

theorem ratio_of_realOr {e : ConfigError} {before x : Number} {value : Option Setting}
    (earlier : noRatio before = false) (read : realOr e noRatio before value = .ok x) :
    noRatio x = false := by
  rcases exists_of_realOr read with ⟨rfl, -⟩ | ⟨n, rfl, accepted, real⟩
  · exact earlier
  · rcases exists_of_asReal real with ⟨a, y, rfl, rounded, rfl⟩ | ⟨y, rfl, rfl⟩
    · have one : a = 1 := by
        rw [noRatio, Bool.not_eq_false', Bool.and_eq_true, Number.whole_lt_whole,
          Number.whole_le_whole] at accepted
        omega
      subst one
      obtain rfl := Option.some.inj rounded
      decide
    · exact accepted

end Config
end SourceIndex
