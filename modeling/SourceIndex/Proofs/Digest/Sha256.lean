import SourceIndex.Digest.Sha256
import SourceIndex.Proofs.Text.Ascii
/-!
# Digests

A digest is a text of 64 lower-case hexadecimal digits, whatever the message is. So digests one
after the other are told apart.
-/

namespace SourceIndex.Digest

/-! ### The form of digests -/

def hexDigits : List Char := "0123456789abcdef".toList

/-- A text of 64 lower-case hexadecimal digits. -/
structure IsDigest (text : String) : Prop where
  length : text.toList.length = 64
  digits : ∀ c ∈ text.toList, c ∈ hexDigits

instance (text : String) : Decidable (IsDigest text) :=
  have : Decidable (∀ c ∈ text.toList, c ∈ hexDigits) := List.decidableBAll _ _
  decidable_of_iff (text.toList.length = 64 ∧ ∀ c ∈ text.toList, c ∈ hexDigits)
    ⟨fun ⟨length, digits⟩ => ⟨length, digits⟩, fun ⟨length, digits⟩ => ⟨length, digits⟩⟩

variable {text : String}

theorem IsDigest.isAscii (is : IsDigest text) : Text.IsAscii text.toList := by
  have small : Text.IsAscii hexDigits := by decide
  exact fun c member => small c (is.digits c member)

namespace Sha256

theorem length_compress {chain : List UInt32} (length : chain.length = 8) (block : Bytes) :
    (compress chain block).length = 8 := by
  unfold compress
  split
  · rfl
  · exact length

theorem length_absorb {chain : List UInt32} (length : chain.length = 8) (data : Bytes) :
    (absorb chain data).length = 8 := by
  fun_induction absorb chain data with
  | case1 => exact length
  | case2 chain data whole ih => exact ih (length_compress length _)

theorem digitChar_mem_hexDigits (n : Nat) : Nat.digitChar (n % 16) ∈ hexDigits := by
  have all : ∀ digit : Fin 16, Nat.digitChar digit ∈ hexDigits := by decide
  exact all ⟨n % 16, Nat.mod_lt _ (by decide)⟩

theorem isDigest_hash (data : Bytes) : IsDigest (hash data) := by
  have words : (absorb initial (data ++ padding data.length)).length = 8 := length_absorb rfl _
  constructor
  · rw [hash, String.toList_ofList, List.length_flatMap]
    simp [wordDigits, words]
  · intro c member
    rw [hash, String.toList_ofList] at member
    obtain ⟨word, -, among⟩ := List.mem_flatMap.mp member
    obtain ⟨shift, -, rfl⟩ := List.mem_map.mp among
    exact digitChar_mem_hexDigits _

end Sha256

/-! ### Digests one after the other -/

theorem eq_of_flatMap_toList {first second : List String} (isFirst : ∀ text ∈ first, IsDigest text)
    (isSecond : ∀ text ∈ second, IsDigest text)
    (same : first.flatMap String.toList = second.flatMap String.toList) : first = second := by
  induction first generalizing second with
  | nil =>
    cases second with
    | nil => rfl
    | cons text rest =>
      have length := (isSecond text (List.mem_cons_self ..)).length
      rw [List.flatMap_nil, List.flatMap_cons, List.nil_eq, List.append_eq_nil_iff] at same
      rw [same.1] at length
      cases length
  | cons text rest ih =>
    have length := (isFirst text (List.mem_cons_self ..)).length
    cases second with
    | nil =>
      rw [List.flatMap_nil, List.flatMap_cons, List.append_eq_nil_iff] at same
      rw [same.1] at length
      cases length
    | cons other others =>
      have also := (isSecond other (List.mem_cons_self ..)).length
      obtain ⟨here, later⟩ := List.append_inj same (length.trans also.symm)
      rw [String.toList_inj.mp here,
        ih (fun text member => isFirst text (List.mem_cons_of_mem _ member))
          (fun text member => isSecond text (List.mem_cons_of_mem _ member)) later]

end SourceIndex.Digest
