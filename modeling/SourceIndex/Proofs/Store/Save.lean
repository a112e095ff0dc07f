import SourceIndex.Proofs.FileSystem.Directory
import SourceIndex.Store.Save
import Mathlib.Data.List.TakeWhile
/-!
# Storing an index changes three files

Each file of an index is put in place at once: until it is moved, what was there stays, and from
then on the new one is there. Nothing else changes but the file that is written under another name.
-/

namespace SourceIndex

open Disk (hasZero maxPathBytes IsEntryName)

/-! ### Names -/

def temporaryName (name : String) : String := name ++ ".tmp"

theorem temporary_child (p : Path) (name : String) :
    Write.temporary (p.child name) = p.child (temporaryName name) := by
  rw [Write.temporary, Path.parent_child]
  simp [Path.name, Path.child, temporaryName]

structure IsIndexName (name : String) : Prop where
  final : IsEntryName name
  temporary : IsEntryName (temporaryName name)

theorem temporaryName_ne (name : String) : temporaryName name ≠ name := by
  intro same
  have lengths := congrArg (fun s => s.toList.length) same
  simp [temporaryName] at lengths

/-! ### Putting a file in place -/

variable {now : Moment} {d after : Disk} {p : Path} {place : Place} {name : String}
  {values : List Json} {rest : List Write}

/-- What putting values into a file at once does. -/
structure Placed (now : Moment) (d : Disk) (p : Path) (place : Place) (name : String)
    (values : List Json) (after : Disk) : Prop where
  opens : after.Opens p place
  here : after.here = d.here
  defects : after.defects = d.defects
  noZero : hasZero (p.child name) = false
  short : ¬ maxPathBytes ≤ Text.Utf8.size (p.child name).text
  writable : ∀ value ∈ values, value.isWritable = true
  file : after.item? (place ++ [name]) =
    some (.file (Text.Utf8.encode (Write.linesOf values)) now.nanos)
  gone : after.item? (place ++ [temporaryName name]) = none
  others : ∀ other, other ≠ place ++ [name] → other ≠ place ++ [temporaryName name] →
    after.item? other = d.item? other
  keeps : (d.withoutLinks [place ++ [name]]).Keeps after

/-- What is there while a file is not moved yet. -/
structure Unplaced (d : Disk) (p : Path) (place : Place) (name : String) (after : Disk) : Prop where
  opens : after.Opens p place
  here : after.here = d.here
  defects : after.defects = d.defects
  others : ∀ other, other ≠ place ++ [temporaryName name] → after.item? other = d.item? other

theorem hasZero_of_temporary (noZero : hasZero (p.child (temporaryName name)) = false) :
    hasZero (p.child name) = false := by
  rw [Disk.hasZero_child, Bool.or_eq_false_iff] at noZero ⊢
  refine ⟨noZero.1, ?_⟩
  have inside := noZero.2
  rw [temporaryName, String.toList_append, List.contains_append, Bool.or_eq_false_iff] at inside
  exact inside.1

theorem Write.writeValues_eq_ok
    (done : Write.writeValues d p values now.nanos = (none, after)) :
    (∀ value ∈ values, value.isWritable = true) ∧
      d.writeFile p (Text.Utf8.encode (Write.linesOf values)) now.nanos = .ok after := by
  unfold Write.writeValues at done
  simp only at done
  split at done
  · cases done
  rename_i last written
  split at done
  · rename_i all
    rw [List.all_eq_true] at all
    rw [List.takeWhile_eq_self_iff.mpr all] at written
    rw [Prod.mk.injEq] at done
    exact ⟨all, done.2 ▸ written⟩
  · cases done

theorem Write.ofResult_eq_ok {result : Except FileError Disk}
    (done : Effect.ofResult d result = (none, after)) : result = .ok after := by
  cases result with
  | ok last => exact congrArg Except.ok (Prod.mk.inj done).2
  | error e => cases done

theorem unplaced_of_wrote {data : Bytes}
    (wrote : Disk.Wrote d p place (temporaryName name) data now.nanos after) :
    Unplaced d p place name after :=
  ⟨wrote.opens, wrote.here, wrote.defects, wrote.others⟩

theorem placed_of_moved {next : Disk} (isName : IsIndexName name)
    (around : (d.withoutLinks [place ++ [name]]).Reaches p place)
    (writable : ∀ value ∈ values, value.isWritable = true)
    (wrote : Disk.Wrote d p place (temporaryName name)
      (Text.Utf8.encode (Write.linesOf values)) now.nanos next)
    (replaced : next.replaceFile (p.child (temporaryName name)) (p.child name) = .ok after) :
    Placed now d p place name values after := by
  have stays := (d.keeps_withoutLinks [place ++ [name]]).trans wrote.keeps
  have stays := stays.withoutLinks (List.Subset.refl _)
  have moved := Disk.moved_replaceFile wrote.opens isName.temporary isName.final
    (Ne.symm (temporaryName_ne name)) wrote.file (around.of_keeps stays wrote.here) replaced
  refine ⟨moved.opens, moved.here.trans wrote.here, moved.defects.trans wrote.defects,
    hasZero_of_temporary wrote.noZero, moved.short, writable, moved.file.trans wrote.file,
    moved.gone, ?_, stays.trans moved.keeps⟩
  intro other notFinal notTemporary
  rw [moved.others other notTemporary notFinal, wrote.others other notTemporary]

/-! ### Runs of changes -/

theorem Write.applyAll_cons {write : Write}
    (done : Write.applyAll now (write :: rest) d = (none, after)) :
    ∃ next, write.apply now d = (none, next) ∧ Write.applyAll now rest next = (none, after) := by
  unfold Write.applyAll at done
  split at done
  · cases done
  · rename_i next applied
    exact ⟨next, applied, done⟩

theorem placed_of_applyAll (opens : d.Opens p place) (isName : IsIndexName name)
    (around : (d.withoutLinks [place ++ [name]]).Reaches p place)
    (temporary : d.IsOrdinary (place ++ [temporaryName name]))
    (done : Write.applyAll now (Write.atOnce (p.child name) values ++ rest) d = (none, after)) :
    ∃ next, Placed now d p place name values next ∧
      Write.applyAll now rest next = (none, after) := by
  unfold Write.atOnce at done
  rw [temporary_child] at done
  obtain ⟨next, written, moving⟩ := Write.applyAll_cons done
  obtain ⟨writable, written⟩ := Write.writeValues_eq_ok written
  have wrote := Disk.wrote_writeFile opens isName.temporary temporary written
  obtain ⟨last, replaced, after⟩ := Write.applyAll_cons moving
  exact ⟨last, placed_of_moved isName around writable wrote (Write.ofResult_eq_ok replaced), after⟩

/-- A disk that changes leave when they stop after so many of them: of the next one, if it writes a
file, any part may be done. -/
inductive Stops (now : Moment) : Nat → List Write → Disk → Disk → Prop
  | here (writes : List Write) (d : Disk) : Stops now 0 writes d d
  | amid {path : Path} {values : List Json} {rest : List Write} {d after : Disk} {data : Bytes}
    (partly : d.writeFile path data now.nanos = .ok after) :
    Stops now 0 (.file path values :: rest) d after
  | later {done : Nat} {write : Write} {rest : List Write} {d next after : Disk}
    (made : write.apply now d = (none, next)) (stops : Stops now done rest next after) :
    Stops now (done + 1) (write :: rest) d after

/-- A change that fails leaves the disk as it was, or a part of a file. -/
theorem stops_of_apply {write : Write} {e : IndexError}
    (failed : write.apply now d = (some e, after)) : Stops now 0 (write :: rest) d after := by
  have unchanged {result : Except FileError Disk}
      (failed : Write.Effect.ofResult d result = (some e, after)) : after = d := by
    cases result with
    | ok last => cases failed
    | error e => exact (Prod.mk.inj failed).2.symm
  cases write with
  | directory path =>
    rw [unchanged failed]
    exact .here ..
  | move source target =>
    rw [unchanged failed]
    exact .here ..
  | file path values =>
    unfold Write.apply Write.writeValues at failed
    simp only at failed
    split at failed
    · rw [← (Prod.mk.inj failed).2]
      exact .here ..
    · rename_i last written
      split at failed
      · cases failed
      · rw [← (Prod.mk.inj failed).2]
        exact .amid written

theorem stops_of_applyAll {writes : List Write} {failure : Option IndexError}
    (applied : Write.applyAll now writes d = (failure, after)) :
    ∃ done, Stops now done writes d after := by
  induction writes generalizing d with
  | nil =>
    rw [← (Prod.mk.inj applied).2]
    exact ⟨0, .here ..⟩
  | cons write rest ih =>
    unfold Write.applyAll at applied
    split at applied
    · rename_i e next failed
      rw [← (Prod.mk.inj applied).2]
      exact ⟨0, stops_of_apply failed⟩
    · rename_i next made
      obtain ⟨done, stops⟩ := ih applied
      exact ⟨done + 1, .later made stops⟩

theorem placed_of_stops {done : Nat} (opens : d.Opens p place) (isName : IsIndexName name)
    (around : (d.withoutLinks [place ++ [name]]).Reaches p place)
    (temporary : d.IsOrdinary (place ++ [temporaryName name]))
    (stops : Stops now done (Write.atOnce (p.child name) values ++ rest) d after) :
    done < 2 ∧ Unplaced d p place name after ∨
      ∃ next more, done = more + 2 ∧ Placed now d p place name values next ∧
        Stops now more rest next after := by
  unfold Write.atOnce at stops
  rw [temporary_child] at stops
  cases stops with
  | here => exact .inl ⟨by omega, opens, rfl, rfl, fun _ _ => rfl⟩
  | amid partly =>
    exact .inl ⟨by omega, unplaced_of_wrote
      (Disk.wrote_writeFile opens isName.temporary temporary partly)⟩
  | later written stops =>
    obtain ⟨writable, written⟩ := Write.writeValues_eq_ok written
    have wrote := Disk.wrote_writeFile opens isName.temporary temporary written
    cases stops with
    | here => exact .inl ⟨by omega, unplaced_of_wrote wrote⟩
    | @later more _ _ _ _ _ replaced stops =>
      exact .inr ⟨_, more, rfl,
        placed_of_moved isName around writable wrote (Write.ofResult_eq_ok replaced), stops⟩

/-! ### Looking files up -/

theorem lookUp_child {item : Item} (opens : d.Opens p place) (isName : IsEntryName name)
    (noZero : hasZero (p.child name) = false)
    (short : ¬ maxPathBytes ≤ Text.Utf8.size (p.child name).text)
    (there : d.item? (place ++ [name]) = some item) (noLink : ∀ target, item ≠ .link target) :
    d.lookUp (p.child name) = .ok item := by
  have found := Disk.find_child true opens.reaches isName fun target isLink => by
    rw [there, Option.some.injEq] at isLink
    exact absurd isLink (noLink target)
  rw [if_neg short, there] at found
  unfold Disk.lookUp
  rw [noZero, found]
  rfl

end SourceIndex
