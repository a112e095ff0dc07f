import SourceIndex.Text.Lower
/-!
# Lower case once

Lower-casing a text that is in lower case changes nothing: no letter of the table is the partner of
another one, so that what lower-casing gives is kept wherever it stands.
-/

namespace SourceIndex.Text

/-! ### The table -/

/-- Whether no partner that the first run gives is a letter of the other. -/
def CaseRun.isApart (run other : CaseRun) : Bool :=
  let low := ((run.first : Int) + run.shift).toNat
  let high := ((run.last : Int) + run.shift).toNat
  Nat.blt high other.first || Nat.blt other.last low ||
    ((run.first == run.last || run.stride == 2) && other.stride == 2 &&
      (low + other.first) % 2 == 1)

/-- The capital I with a dot, as if it were a run of its own. -/
def dottedRun : CaseRun := ⟨0x130, 0x130, 1, 0⟩

theorem runs_isApart :
    (lowerRuns.all fun run => (dottedRun :: lowerRuns).all fun other => run.isApart other) =
      true := by
  decide +kernel

theorem shift_le_first : ∀ run ∈ lowerRuns, 0 ≤ (run.first : Int) + run.shift := by decide +kernel

theorem CaseRun.exists_of_partner? {run : CaseRun} {code : Nat} {c : Char}
    (partner : run.partner? code = some c) :
    run.first ≤ code ∧ code ≤ run.last ∧ (code - run.first) % run.stride = 0 ∧
      c = Char.ofNat ((code : Int) + run.shift).toNat := by
  unfold partner? at partner
  split at partner
  · rename_i inside
    simp only [Bool.and_eq_true, decide_eq_true_eq, beq_iff_eq] at inside
    exact ⟨inside.1.1, inside.1.2, inside.2, (Option.some.inj partner).symm⟩
  · cases partner

theorem CaseRun.partner?_of_isApart {run other : CaseRun} {code : Nat}
    (apart : run.isApart other = true) (natural : 0 ≤ (run.first : Int) + run.shift)
    (low : run.first ≤ code) (high : code ≤ run.last) (fits : (code - run.first) % run.stride = 0) :
    other.partner? ((code : Int) + run.shift).toNat = none := by
  cases found : other.partner? ((code : Int) + run.shift).toNat with
  | none => rfl
  | some c =>
    obtain ⟨above, below, otherFits, -⟩ := exists_of_partner? found
    simp only [isApart, Bool.or_eq_true, Nat.blt_eq, Bool.and_eq_true, beq_iff_eq] at apart
    rcases apart with (before | after) | ⟨⟨single | double, otherDouble⟩, odd⟩
    · omega
    · omega
    · rw [otherDouble] at otherFits
      omega
    · rw [double] at fits
      rw [otherDouble] at otherFits
      omega

/-! ### Characters in lower case -/

structure IsLower (c : Char) : Prop where
  notDotted : c ≠ '\u0130'
  notSigma : c ≠ '\u03a3'
  kept : lowerChar c = c

instance (c : Char) : Decidable (IsLower c) :=
  decidable_of_iff (c ≠ '\u0130' ∧ c ≠ '\u03a3' ∧ lowerChar c = c)
    ⟨fun ⟨dotted, sigma, kept⟩ => ⟨dotted, sigma, kept⟩,
      fun ⟨dotted, sigma, kept⟩ => ⟨dotted, sigma, kept⟩⟩

/-- A character that is no letter of the table is in lower case. -/
theorem isLower_of_noLetter {c : Char} (notDotted : c.toNat ≠ 0x130)
    (noLetter : ∀ run ∈ lowerRuns, run.partner? c.toNat = none) : IsLower c where
  notDotted := by rintro rfl; exact notDotted rfl
  notSigma := by
    rintro rfl
    have capital : ∃ run ∈ lowerRuns, (run.partner? 0x3A3).isSome := by decide +kernel
    obtain ⟨run, member, partner⟩ := capital
    rw [show 0x3A3 = '\u03a3'.toNat from rfl, noLetter run member] at partner
    cases partner
  kept := by
    unfold lowerChar
    split
    · have ascii : ∃ run ∈ lowerRuns, run.first = 0x41 ∧ run.last = 0x5A ∧ run.stride = 1 := by
        decide +kernel
      obtain ⟨run, member, first, last, stride⟩ := ascii
      have partner := noLetter run member
      have noCapital : ¬ (c.val ≥ 'A'.val ∧ c.val ≤ 'Z'.val) := by
        rintro ⟨above, below⟩
        rw [ge_iff_le, UInt32.le_iff_toNat_le] at above
        rw [UInt32.le_iff_toNat_le] at below
        have inside : run.first ≤ c.toNat ∧ c.toNat ≤ run.last := by
          rw [first, last]
          exact ⟨above, below⟩
        simp [CaseRun.partner?, inside, stride, Nat.mod_one] at partner
      exact dif_neg noCapital
    · rw [List.findSome?_eq_none_iff.mpr noLetter, Option.getD_none]

theorem isLower_lowerChar {c : Char} (notDotted : c ≠ '\u0130') : IsLower (lowerChar c) := by
  by_cases ascii : c.toNat < 0x80
  · have small : ∀ code < 0x80, IsLower (lowerChar (Char.ofNat code)) := by decide +kernel
    simpa only [Char.ofNat_toNat] using small c.toNat ascii
  · unfold lowerChar
    rw [if_neg ascii]
    cases found : lowerRuns.findSome? (·.partner? c.toNat) with
    | none =>
      refine isLower_of_noLetter (fun same => notDotted (Char.toNat_inj.mp same)) ?_
      exact List.findSome?_eq_none_iff.mp found
    | some partner =>
      obtain ⟨run, member, partner⟩ := List.exists_of_findSome?_eq_some found
      obtain ⟨low, high, fits, rfl⟩ := CaseRun.exists_of_partner? partner
      have apart := List.all_eq_true.mp runs_isApart run member
      have outside : ∀ other ∈ dottedRun :: lowerRuns,
          other.partner? ((c.toNat : Int) + run.shift).toNat = none := fun other among =>
        CaseRun.partner?_of_isApart (List.all_eq_true.mp apart other among)
          (shift_le_first run member) low high fits
      by_cases valid : ((c.toNat : Int) + run.shift).toNat.isValidChar
      · have code : (Char.ofNat ((c.toNat : Int) + run.shift).toNat).toNat =
            ((c.toNat : Int) + run.shift).toNat := by
          rw [Char.ofNat, dif_pos valid]
          rfl
        rw [Option.getD_some]
        refine isLower_of_noLetter ?_ fun other among => ?_
        · intro dotted
          have free := outside dottedRun (List.mem_cons_self ..)
          rw [← code, dotted] at free
          exact absurd free (by decide)
        · rw [code]
          exact outside other (List.mem_cons_of_mem _ among)
      · rw [Option.getD_some, Char.ofNat, dif_neg valid]
        decide +kernel

/-! ### Texts in lower case -/

theorem isLower_of_all {c : Char} (notDotted : c.toNat ≠ 0x130)
    (noLetter : (lowerRuns.all fun run => (run.partner? c.toNat).isNone) = true) : IsLower c := by
  apply isLower_of_noLetter notDotted
  intro run member
  exact Option.isNone_iff_eq_none.mp (List.all_eq_true.mp noLetter run member)

theorem isLower_of_mem_lowerInContext {before after : List Char} {c found : Char}
    (member : found ∈ lowerInContext before c after) : IsLower found := by
  unfold lowerInContext at member
  split at member
  · simp only [List.mem_cons, List.not_mem_nil, or_false] at member
    rcases member with rfl | rfl
    · exact isLower_of_all (by decide) (by decide +kernel)
    · exact isLower_of_all (by decide) (by decide +kernel)
  · split at member
    · split at member
      · rw [List.mem_singleton.mp member]
        exact isLower_of_all (by decide) (by decide +kernel)
      · rw [List.mem_singleton.mp member]
        exact isLower_of_all (by decide) (by decide +kernel)
    · rename_i notDotted _
      rw [List.mem_singleton.mp member]
      exact isLower_lowerChar notDotted

theorem isLower_of_mem_lowerAfter {before cs : List Char} {found : Char}
    (member : found ∈ lowerAfter before cs) : IsLower found := by
  induction cs generalizing before with
  | nil => cases member
  | cons c cs ih =>
    rw [lowerAfter, List.mem_append] at member
    rcases member with here | later
    · exact isLower_of_mem_lowerInContext here
    · exact ih later

theorem lowerAfter_of_isLower {cs : List Char} (low : ∀ c ∈ cs, IsLower c) (before : List Char) :
    lowerAfter before cs = cs := by
  induction cs generalizing before with
  | nil => rfl
  | cons c cs ih =>
    have first := low c (List.mem_cons_self ..)
    rw [lowerAfter, ih fun other member => low other (List.mem_cons_of_mem _ member),
      lowerInContext, if_neg first.notDotted, if_neg first.notSigma, first.kept]
    rfl

theorem lower_of_isLower {s : String} (low : ∀ c ∈ s.toList, IsLower c) : lower s = s := by
  rw [lower, lowerAfter_of_isLower low, String.ofList_toList]

theorem isLower_of_mem_lower {s : String} {c : Char} (member : c ∈ (lower s).toList) :
    IsLower c := by
  rw [lower, String.toList_ofList] at member
  exact isLower_of_mem_lowerAfter member

theorem lower_lower (s : String) : lower (lower s) = lower s :=
  lower_of_isLower fun _ => isLower_of_mem_lower

end SourceIndex.Text
