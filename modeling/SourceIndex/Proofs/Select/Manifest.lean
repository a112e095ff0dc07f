import SourceIndex.Proofs.Path.Suffix
import SourceIndex.Select.Value
/-!
# Manifests and value

The name of a known manifest decides its suffix, and all suffixes of manifests but one are among
those of sources and of files that may be manifests. So a manifest is of value unless it is the one
with the other suffix. A name with a line feed at its end counts as the manifest without it, though
its suffix is in no table.
-/

namespace SourceIndex.Value

open SourceIndex.Path Text

/-! ### What decides the value -/

def lowerStem (path : String) : String :=
  .ofList ((lowerName path).toList.take ((lowerName path).length - (lowerSuffix path).length))

theorem isValuable_of_not_mem {path : String} (name : lowerName path ∉ excludedNames)
    (stem : lowerStem path ∉ excludedNames) :
    isValuable path = (isNotedName (nameOf path) || sourceSuffixes.contains (lowerSuffix path) ||
      manifestSuffixes.contains (lowerSuffix path) && isManifest path) := by
  have kept : ¬ (excludedNames.contains (lowerName path) ||
      excludedNames.contains (lowerStem path)) = true := by
    simp [name, stem]
  have unfolded : isValuable path =
      if excludedNames.contains (lowerName path) || excludedNames.contains (lowerStem path) then
        false
      else if isNotedName (nameOf path) then true
      else if sourceSuffixes.contains (lowerSuffix path) then true
      else if manifestSuffixes.contains (lowerSuffix path) then isManifest path
      else false := rfl
  rw [unfolded, if_neg kept]
  cases isNotedName (nameOf path) <;> cases sourceSuffixes.contains (lowerSuffix path) <;>
    cases manifestSuffixes.contains (lowerSuffix path) <;> simp

theorem getLast?_of_mem_suffixes : ∀ suffix ∈ sourceSuffixes ++ manifestSuffixes,
    ∃ c, suffix.toList.getLast? = some c ∧ c ≠ '\n' := by
  have ends : ((sourceSuffixes ++ manifestSuffixes).all fun suffix =>
      suffix.toList.getLast?.any (· ≠ '\n')) = true := by decide +kernel
  intro suffix member
  have last := List.all_eq_true.mp ends suffix member
  rw [Option.any_eq_true] at last
  obtain ⟨c, here, other⟩ := last
  exact ⟨c, here, by simpa using other⟩

theorem lowerSuffix_not_mem_of_lineFeed {path : String}
    (ends : (lowerName path).toList.getLast? = some '\n') :
    lowerSuffix path ∉ sourceSuffixes ++ manifestSuffixes := by
  intro member
  obtain ⟨c, last, other⟩ := getLast?_of_mem_suffixes _ member
  exact other (getLast?_lowerSuffix (by decide) (by decide) ends last)

/-! ### Names in any case -/

theorem foldChar_of_ascii {c : Char} (ascii : (lowerChar c).toNat < 0x80) :
    foldChar c = lowerChar c := by
  rcases ascii_of_lowerChar ascii with small | rfl
  · have same : ∀ code < 0x80, foldChar (Char.ofNat code) = lowerChar (Char.ofNat code) := by
      decide +kernel
    have here := same c.toNat small
    rwa [Char.ofNat_toNat] at here
  · decide +kernel

theorem map_foldChar_of_ascii (path : String) (ascii : IsAscii (lowerName path).toList) :
    (nameOf path).toList.map foldChar = (lowerName path).toList := by
  rw [toList_lowerName] at ascii ⊢
  have low := lowerAfter_of_ascii ascii []
  rw [low] at ascii ⊢
  apply List.map_congr_left
  intro c member
  exact foldChar_of_ascii (ascii _ (List.mem_map_of_mem member))

/-! ### Manifests -/

/-- Each name and each end of a manifest has a suffix, which is in a table unless it is that of
`setup.cfg`. -/
theorem suffix_of_mem_manifests : ∀ known ∈ manifestNames ++ manifestEnds,
    suffixChars known.toList ≠ [] ∧ IsAscii (suffixChars known.toList) ∧
      (known ≠ "setup.cfg" →
        String.ofList (suffixChars known.toList) ∈ sourceSuffixes ++ manifestSuffixes) := by
  decide +kernel

/-- A manifest without a line feed at the end of its name ends with a name or an end from the
tables. -/
theorem exists_of_isManifest {path : String} (manifest : isManifest path = true)
    (ends : (lowerName path).toList.getLast? ≠ some '\n') :
    ∃ known ∈ manifestNames ++ manifestEnds, ∃ front,
      (lowerName path).toList = front ++ known.toList ∧
        (known = "setup.cfg" → lowerName path = "setup.cfg") := by
  simp only [isManifest, withoutLineEnd, if_neg ends, Bool.or_eq_true, Bool.and_eq_true,
    List.any_eq_true, decide_eq_true_eq] at manifest
  rcases manifest with ⟨known, listed, same⟩ | ⟨-, ending, listed, suffix⟩
  · refine ⟨known, List.mem_append_left _ listed, [], same.symm, fun setup => ?_⟩
    rw [← setup]
    exact String.toList_inj.mp same.symm
  · obtain ⟨front, whole⟩ := List.isSuffixOf_iff_suffix.mp suffix
    refine ⟨ending, List.mem_append_right _ listed, front, whole.symm, fun setup => ?_⟩
    rw [setup] at listed
    exact absurd listed (by decide)

theorem lowerSuffix_of_isManifest {path : String} (manifest : isManifest path = true)
    (ends : (lowerName path).toList.getLast? ≠ some '\n') (other : lowerName path ≠ "setup.cfg") :
    lowerSuffix path ∈ sourceSuffixes ++ manifestSuffixes := by
  obtain ⟨known, listed, front, whole, setup⟩ := exists_of_isManifest manifest ends
  obtain ⟨some, ascii, table⟩ := suffix_of_mem_manifests known listed
  have same : suffixChars (lowerName path).toList = suffixChars known.toList := by
    rw [whole, suffixChars_append front some]
  have suffix := toList_lowerSuffix_of_ascii path (by rwa [same]) (by rwa [same])
  rw [← String.ofList_toList (s := lowerSuffix path), suffix, same]
  exact table (mt setup other)

theorem isValuable_setup {path : String} (setup : lowerName path = "setup.cfg")
    (stem : lowerStem path ∉ excludedNames) : isValuable path = false := by
  have name : lowerName path ∉ excludedNames := by
    rw [setup]
    decide
  have suffix : lowerSuffix path = ".cfg" := by
    have chars := toList_lowerSuffix_of_ascii path (by rw [setup]; decide +kernel)
      (by rw [setup]; decide +kernel)
    rw [setup] at chars
    exact String.toList_inj.mp (chars.trans (by decide +kernel))
  have folded := map_foldChar_of_ascii path (by rw [setup]; decide +kernel)
  have noted : isNotedName (nameOf path) = false := by
    simp only [isNotedName, folded, setup]
    decide +kernel
  have unlisted : ".cfg" ∉ sourceSuffixes ∧ ".cfg" ∉ manifestSuffixes := by decide
  simp [isValuable_of_not_mem name stem, noted, suffix, unlisted]

/-- A manifest that is not excluded by its name is of value, unless it is `setup.cfg`, or has a line
feed at the end of its name and is not noted either. -/
theorem isValuable_iff_of_isManifest {path : String} (name : lowerName path ∉ excludedNames)
    (stem : lowerStem path ∉ excludedNames) (manifest : isManifest path = true) :
    isValuable path = true ↔ lowerName path ≠ "setup.cfg" ∧
      ((lowerName path).toList.getLast? ≠ some '\n' ∨ isNotedName (nameOf path) = true) := by
  by_cases setup : lowerName path = "setup.cfg"
  · simp [setup, isValuable_setup setup stem]
  · rw [isValuable_of_not_mem name stem, manifest]
    by_cases ends : (lowerName path).toList.getLast? = some '\n'
    · have unlisted := lowerSuffix_not_mem_of_lineFeed ends
      rw [List.mem_append, not_or] at unlisted
      simp [setup, ends, unlisted]
    · have listed := lowerSuffix_of_isManifest manifest ends setup
      rw [List.mem_append] at listed
      simp [setup, ends, listed, or_assoc]

/-- Of two manifests one is of value. -/
theorem isValuable_iff_of_isManifest_setup :
    (lowerName "setup.cfg" ∉ excludedNames ∧ lowerStem "setup.cfg" ∉ excludedNames ∧
      isManifest "setup.cfg" = true ∧ isValuable "setup.cfg" = false) ∧
    (lowerName "web/TSConfig.json" ∉ excludedNames ∧ lowerStem "web/TSConfig.json" ∉ excludedNames ∧
      isManifest "web/TSConfig.json" = true ∧ isValuable "web/TSConfig.json" = true) := by
  refine ⟨⟨by decide +kernel, by decide +kernel, by decide +kernel, ?_⟩,
    by decide +kernel, by decide +kernel, by decide +kernel, ?_⟩
  · rw [← Bool.not_eq_true, isValuable_iff_of_isManifest (by decide +kernel) (by decide +kernel)
      (by decide +kernel)]
    decide +kernel
  · rw [isValuable_iff_of_isManifest (by decide +kernel) (by decide +kernel) (by decide +kernel)]
    decide +kernel

end SourceIndex.Value
