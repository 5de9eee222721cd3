import Mathlib.Data.Nat.Count
import Mathlib.Order.Interval.Finset.Nat

/-!
# Data received in parts

Data of a known size that are received in parts, each of which has its offset, in any order: what
has been received at each offset (`Received`). A later part replaces what it overlaps
(`Received.add`).

Parts that do not overlap may be counted instead: all data have been received when the lengths of
the parts add up to the size (`Received.full_iff`, `Received.count_add`).
-/

namespace FtlFirmware

/-- What has been received of some data: at each offset, the value, if any. -/
abbrev Received (α : Type*) := ℕ → Option α

namespace Received

variable {α : Type*}

/-- Receives `len` values from an offset on. -/
def add (got : Received α) (offset len : ℕ) (values : ℕ → α) : Received α := fun k =>
  if offset ≤ k ∧ k < offset + len then some (values (k - offset)) else got k

/-- The number of the offsets below `size` that have been received. -/
def count (size : ℕ) (got : Received α) : ℕ := Nat.count (fun k => (got k).isSome) size

/-- All data have been received. -/
def Full (size : ℕ) (got : Received α) : Prop := ∀ k < size, (got k).isSome

variable {got got' : Received α} {size offset len k : ℕ} {values : ℕ → α}

theorem add_of_mem (h : offset ≤ k ∧ k < offset + len) :
    got.add offset len values k = some (values (k - offset)) := if_pos h

theorem add_of_not_mem (h : ¬(offset ≤ k ∧ k < offset + len)) :
    got.add offset len values k = got k := if_neg h

theorem count_le : got.count size ≤ size := Nat.count_le _

theorem full_iff : got.Full size ↔ got.count size = size := Nat.count_iff_forall.symm

/-- Only the offsets of the data count. -/
theorem count_congr (h : ∀ k < size, got k = got' k) : got.count size = got'.count size := by
  rw [count, count, Nat.count_eq_card_filter_range, Nat.count_eq_card_filter_range]
  exact congrArg Finset.card (Finset.filter_congr fun k hk => by rw [h k (Finset.mem_range.1 hk)])

/-- A part that overlaps nothing adds its length. -/
theorem count_add (hsize : offset + len ≤ size)
    (hfresh : ∀ k, offset ≤ k → k < offset + len → got k = none) :
    (got.add offset len values).count size = got.count size + len := by
  have hunion : (Finset.range size).filter (fun k => (got.add offset len values k).isSome) =
      (Finset.range size).filter (fun k => (got k).isSome) ∪ Finset.Ico offset (offset + len) := by
    ext k
    simp only [Finset.mem_filter, Finset.mem_range, Finset.mem_union, Finset.mem_Ico]
    by_cases hmem : offset ≤ k ∧ k < offset + len
    · rw [add_of_mem hmem]
      exact ⟨fun _ => Or.inr hmem, fun _ => ⟨by omega, rfl⟩⟩
    · rw [add_of_not_mem hmem]
      exact ⟨Or.inl, fun h => h.resolve_right hmem⟩
  have hdisjoint : Disjoint ((Finset.range size).filter fun k => (got k).isSome)
      (Finset.Ico offset (offset + len)) := by
    rw [Finset.disjoint_left]
    intro k hk hmem
    obtain ⟨hle, hlt⟩ := Finset.mem_Ico.1 hmem
    rw [Finset.mem_filter, hfresh k hle hlt] at hk
    exact absurd hk.2 Bool.false_ne_true
  rw [count, count, Nat.count_eq_card_filter_range, Nat.count_eq_card_filter_range, hunion,
    Finset.card_union_of_disjoint hdisjoint, Nat.card_Ico, Nat.add_sub_cancel_left]

end Received

end FtlFirmware
