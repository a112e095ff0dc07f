import SourceIndex.Proofs.Scan.DataDirectory
/-!
# Ways down

On a way down from the root no link leads to a directory that was entered before, or to one above
the link, but an entry of a directory is entered whatever its real path is. So a directory may come
twice. This takes three links at least where the root is real: with two of them, nothing that was
entered lies below the directory that the way has come to.
-/

namespace SourceIndex

/-- The real paths of a root and of what the names lead to below it, as far as they can be told. -/
def Disk.realsAlong (d : Disk) (root : Path) (names : List String) : List Path :=
  root :: (List.range names.length).filterMap fun i =>
    (d.resolve false (root.under (names.take (i + 1)))).toOption

theorem Disk.realsAlong_concat {d : Disk} {root real : Path} {names : List String} {name : String}
    (resolved : d.resolve false (root.under (names ++ [name])) = .ok real) :
    d.realsAlong root (names ++ [name]) = d.realsAlong root names ++ [real] := by
  have before : (List.range names.length).filterMap
      (fun i => (d.resolve false (root.under ((names ++ [name]).take (i + 1)))).toOption) =
        (List.range names.length).filterMap
          fun i => (d.resolve false (root.under (names.take (i + 1)))).toOption := by
    refine List.filterMap_congr fun i member => ?_
    rw [List.mem_range] at member
    rw [List.take_append_of_le_length (by omega)]
  have whole : (names ++ [name]).take (names.length + 1) = names ++ [name] :=
    List.take_of_length_le (by simp)
  have last : [names.length].filterMap
      (fun i => (d.resolve false (root.under ((names ++ [name]).take (i + 1)))).toOption) =
        [real] := by
    simp [whole, resolved, Except.toOption]
  rw [realsAlong, List.length_append, List.length_singleton, List.range_succ,
    List.filterMap_append, before, last]
  rfl

namespace Scan
variable {rules : Rules} {d : Disk} {names : List String} {name : String} {place base : Place}
  {links : Nat}

/-! ### Ways down -/

/-- A way down from the root over so many links, none of which leads to a directory that was
entered before or stands above the last one. -/
inductive Way (rules : Rules) (d : Disk) : List String → Nat → Prop
  | root : Way rules d [] 0
  | entry {names : List String} {place : Place} {name : String} {real : Path} {links : Nat}
    (way : Way rules d names links) (enters : Enters rules d names place)
    (stands : d.item? (place ++ [name]) = some .directory)
    (resolved : d.resolve false (rules.root.under (names ++ [name])) = .ok real) :
    Way rules d (names ++ [name]) links
  | link {names : List String} {place goal : Place} {name target : String} {links : Nat}
    (way : Way rules d names links) (enters : Enters rules d names place)
    (isLink : d.item? (place ++ [name]) = some (.link target))
    (strict : d.resolve true (rules.root.under (names ++ [name])) = .ok (Disk.pathTo goal))
    (resolved : d.resolve false (rules.root.under (names ++ [name])) = .ok (Disk.pathTo goal))
    (inside : rules.root.isWithin (Disk.pathTo goal) = true)
    (fresh : Disk.pathTo goal ∉ d.realsAlong rules.root names)
    (aside : ∀ last, (d.realsAlong rules.root names).getLast? = some last →
      (Disk.pathTo goal).isWithin last = false) :
    Way rules d (names ++ [name]) (links + 1)

theorem Way.length_realsAlong (way : Way rules d names links) :
    (d.realsAlong rules.root names).length = names.length + 1 := by
  induction way with
  | root => rfl
  | entry _ _ _ resolved ih =>
    rw [Disk.realsAlong_concat resolved, List.length_append, ih, List.length_append]
    rfl
  | link _ _ _ _ resolved _ _ _ ih =>
    rw [Disk.realsAlong_concat resolved, List.length_append, ih, List.length_append]
    rfl

theorem Way.trail (proper : d.IsProper) (way : Way rules d names links)
    (opened : d.find true (rules.root.under names) = .ok (place, some .directory)) :
    Trail rules d names place links := by
  induction way generalizing place with
  | root =>
    rw [under_nil] at opened
    exact .root opened
  | @entry names above name real links _ enters stands _ ih =>
    have meets : Meets rules d names above name _ 0 := .entry (Disk.isSolid_of_directory stands)
    obtain rfl := meets.leads proper enters opened
    exact .step (ih enters.opened) enters meets
  | link _ enters isLink strict _ inside _ _ ih =>
    have meets := Meets.link isLink strict inside
    obtain rfl := meets.leads proper enters opened
    exact .step (ih enters.opened) enters meets

/-! ### Directories that come twice -/

/-- On the way down the names, something in a directory is entered that has the real path of a
directory above it. -/
def Reenters (d : Disk) (root : Path) (names : List String) : Prop :=
  ∃ lead name above real, lead ++ [name] <+: names ∧
    d.find true (root.under lead) = .ok (above, some .directory) ∧
    d.item? (above ++ [name]) = some .directory ∧
    d.resolve false (root.under (lead ++ [name])) = .ok real ∧ real ∈ d.realsAlong root lead

theorem reenters_concat_iff {root real : Path}
    (opened : d.find true (root.under names) = .ok (place, some .directory))
    (resolved : d.resolve false (root.under (names ++ [name])) = .ok real) :
    Reenters d root (names ++ [name]) ↔ Reenters d root names ∨
      d.item? (place ++ [name]) = some .directory ∧ real ∈ d.realsAlong root names := by
  constructor
  · intro reenters
    obtain ⟨lead, last, above, other, within, found, stands, told, again⟩ := reenters
    rcases List.prefix_concat_iff.mp within with same | before
    · obtain ⟨rfl, ends⟩ := List.append_inj' same rfl
      obtain rfl := List.singleton_inj.mp ends
      cases opened.symm.trans found
      cases resolved.symm.trans told
      exact .inr ⟨stands, again⟩
    · exact .inl ⟨lead, last, above, other, before, found, stands, told, again⟩
  · intro either
    rcases either with ⟨lead, last, above, other, within, rest⟩ | ⟨stands, again⟩
    · exact ⟨lead, last, above, other, within.trans (List.prefix_append ..), rest⟩
    · exact ⟨names, name, place, real, List.prefix_refl _, opened, stands, resolved, again⟩

/-- It takes an entry of a directory for a directory to come twice. -/
theorem Way.nodup_iff (way : Way rules d names links) :
    (d.realsAlong rules.root names).Nodup ↔ ¬ Reenters d rules.root names := by
  induction way with
  | root =>
    refine iff_of_true (List.nodup_singleton _) fun reenters => ?_
    obtain ⟨lead, name, -, -, within, -⟩ := reenters
    have short := within.length_le
    simp at short
  | entry _ enters stands resolved ih =>
    rw [Disk.realsAlong_concat resolved, reenters_concat_iff enters.opened resolved, stands,
      ← List.concat_eq_append, List.nodup_concat, ih]
    tauto
  | link _ enters isLink _ resolved _ fresh _ ih =>
    rw [Disk.realsAlong_concat resolved, reenters_concat_iff enters.opened resolved, isLink,
      ← List.concat_eq_append, List.nodup_concat, ih]
    simp [fresh]

/-! ### Where the root is real -/

/-- The places that a way comes to, and the last one of them. A link leads neither to one of them
nor to one above the last. -/
inductive Route (base : Place) : List Place → Place → Nat → Prop
  | root : Route base [base] base 0
  | entry {places : List Place} {place : Place} {links : Nat}
    (route : Route base places place links) (name : String) :
    Route base (places ++ [place ++ [name]]) (place ++ [name]) links
  | link {places : List Place} {place goal : Place} {links : Nat}
    (route : Route base places place links) (inside : base <+: goal) (fresh : goal ∉ places)
    (aside : ¬ goal <+: place) : Route base (places ++ [goal]) goal (links + 1)

/-- All places from a base down to a place are among some others. -/
def IsFilled (base : Place) (places : List Place) (place : Place) : Prop :=
  ∀ above, base <+: above → above <+: place → above ∈ places

theorem IsFilled.append {places others : List Place} (filled : IsFilled base places place) :
    IsFilled base (places ++ others) place :=
  fun above inside within => List.mem_append_left _ (filled above inside within)

namespace Route
variable {places : List Place}

theorem last_mem (route : Route base places place links) : place ∈ places := by
  cases route with
  | root => exact List.mem_singleton_self _
  | entry => exact List.mem_append_right _ (List.mem_singleton_self _)
  | link => exact List.mem_append_right _ (List.mem_singleton_self _)

/-- Without links nothing is left out on the way down. -/
theorem isFilled (route : Route base places place links) (none : links = 0) :
    ∀ other ∈ places, IsFilled base places other := by
  induction route with
  | root =>
    intro other member above inside within
    rw [List.mem_singleton.mp member] at within
    rw [inside.eq_of_length_le within.length_le]
    exact List.mem_singleton_self _
  | @entry places place links route name ih =>
    intro other member
    rcases List.mem_append.mp member with before | last
    · exact (ih none other before).append
    · rw [List.mem_singleton.mp last]
      intro above inside within
      rcases List.prefix_concat_iff.mp within with same | inner
      · rw [same]
        exact List.mem_append_right _ (List.mem_singleton_self _)
      · exact List.mem_append_left _ (ih none place route.last_mem above inside inner)
  | link => cases none

theorem above_or_isFilled (route : Route base places place links) (few : links ≤ 1) :
    ∀ other ∈ places, other <+: place ∨ IsFilled base places other := by
  induction route with
  | root =>
    intro other member
    rw [List.mem_singleton.mp member]
    exact .inl (List.prefix_refl _)
  | entry route name ih =>
    intro other member
    rcases List.mem_append.mp member with before | last
    · rcases ih few other before with above | filled
      · exact .inl (above.trans (List.prefix_append ..))
      · exact .inr filled.append
    · rw [List.mem_singleton.mp last]
      exact .inl (List.prefix_refl _)
  | link route inside fresh aside =>
    intro other member
    rcases List.mem_append.mp member with before | last
    · exact .inr (route.isFilled (by omega) other before).append
    · rw [List.mem_singleton.mp last]
      exact .inl (List.prefix_refl _)

/-- With two links, nothing lies below the last place. -/
theorem eq_of_below (route : Route base places place links) (few : links ≤ 2) :
    ∀ other ∈ places, place <+: other → other = place := by
  induction route with
  | root =>
    intro other member _
    exact List.mem_singleton.mp member
  | entry route name ih =>
    intro other member below
    rcases List.mem_append.mp member with before | last
    · have same := ih few other before ((List.prefix_append ..).trans below)
      have short := below.length_le
      rw [same, List.length_append, List.length_singleton] at short
      omega
    · exact List.mem_singleton.mp last
  | link route inside fresh aside =>
    intro other member below
    rcases List.mem_append.mp member with before | last
    · rcases route.above_or_isFilled (by omega) other before with above | filled
      · exact absurd (below.trans above) aside
      · exact absurd (filled _ inside below) fresh
    · exact List.mem_singleton.mp last

theorem nodup (route : Route base places place links) (few : links ≤ 2) : places.Nodup := by
  induction route with
  | root => exact List.nodup_singleton _
  | entry route name ih =>
    rw [← List.concat_eq_append, List.nodup_concat]
    refine ⟨fun member => ?_, ih few⟩
    have same := route.eq_of_below few _ member (List.prefix_append ..)
    simp at same
  | link route inside fresh aside ih =>
    rw [← List.concat_eq_append, List.nodup_concat]
    exact ⟨fresh, ih (by omega)⟩

end Route

theorem isWithin_pathTo (above place : Place) :
    (Disk.pathTo above).isWithin (Disk.pathTo place) = true ↔ above <+: place := by
  simp [Path.isWithin, Disk.pathTo]

theorem pathTo_injective : Function.Injective Disk.pathTo := fun _ _ same =>
  congrArg Path.segments same

theorem Way.route (proper : d.IsProper) (root : rules.root = Disk.pathTo base)
    (directory : d.item? base = some .directory) (way : Way rules d names links) :
    ∃ places place, Route base places place links ∧
      d.realsAlong rules.root names = places.map Disk.pathTo ∧
      places.getLast? = some place ∧
      ∀ last item, d.find true (rules.root.under names) = .ok (last, some item) → last = place := by
  induction way with
  | root =>
    refine ⟨[base], base, .root, by rw [root]; rfl, rfl, fun last item found => ?_⟩
    rw [under_nil, root] at found
    exact (Disk.isSolid_of_directory directory).find_pathTo proper found
  | @entry names above name real links way enters stands resolved ih =>
    obtain ⟨places, place, route, reals, -, leads⟩ := ih
    obtain rfl := leads _ _ enters.opened
    have meets : Meets rules d names above name _ 0 := .entry (Disk.isSolid_of_directory stands)
    have trail := Trail.step (way.trail proper enters.opened) enters meets
    have real := trail.real proper root directory resolved
    refine ⟨_, _, .entry route name, ?_, by simp, fun last item found => trail.leads proper found⟩
    rw [Disk.realsAlong_concat resolved, reals, real, List.map_append]
    rfl
  | @link names above goal name target links way enters isLink strict resolved inside fresh aside
      ih =>
    obtain ⟨places, place, route, reals, ends, leads⟩ := ih
    obtain rfl := leads _ _ enters.opened
    have meets := Meets.link isLink strict inside
    have trail := Trail.step (way.trail proper enters.opened) enters meets
    rw [reals] at fresh aside
    have lies : base <+: goal := by
      rw [root] at inside
      exact (isWithin_pathTo ..).mp inside
    have away : ¬ goal <+: above := by
      intro within
      have refused := aside (Disk.pathTo above) (by rw [List.getLast?_map, ends]; rfl)
      rw [(isWithin_pathTo ..).mpr within] at refused
      cases refused
    refine ⟨_, _, .link route lies (fun member => fresh (List.mem_map_of_mem member)) away, ?_,
      by simp, fun last item found => trail.leads proper found⟩
    rw [Disk.realsAlong_concat resolved, reals, List.map_append]
    rfl

theorem Way.nodup (proper : d.IsProper) (root : rules.root = Disk.pathTo base)
    (directory : d.item? base = some .directory) (way : Way rules d names links)
    (few : links ≤ 2) : (d.realsAlong rules.root names).Nodup := by
  obtain ⟨places, place, route, reals, -⟩ := way.route proper root directory
  rw [reals]
  exact (route.nodup few).map pathTo_injective

end Scan
end SourceIndex
