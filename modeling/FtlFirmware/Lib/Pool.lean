import Mathlib.Data.Finset.Card
import Mathlib.Data.Finset.Range
import Mathlib.Logic.Function.Basic

/-!
# Pools

A pool is a table of `n` slots, each of them in use or free. `Pool.free` are the free slots, and
`Pool.firstFree` finds the first of them by going through the table.

* `Pool.firstFree_eq_none`: no slot is found exactly if none is free;
* `Pool.card_take`, `Pool.card_release`: the number of free slots after taking one, or releasing
  one.
-/

namespace FtlFirmware

namespace Pool

variable {used used' : ℕ → Bool} {n i : ℕ}

/-- The free slots. -/
def free (used : ℕ → Bool) (n : ℕ) : Finset ℕ := {i ∈ Finset.range n | used i = false}

/-- The first free slot. -/
def firstFree (used : ℕ → Bool) (n : ℕ) : Option ℕ := (List.range n).find? fun i => !used i

theorem mem_free : i ∈ free used n ↔ i < n ∧ used i = false := by
  simp [free]

theorem firstFree_mem (h : firstFree used n = some i) : i ∈ free used n := by
  have hlt := List.mem_of_find?_eq_some h
  have hfree := List.find?_some h
  rw [List.mem_range] at hlt
  rw [mem_free]
  exact ⟨hlt, by simpa using hfree⟩

theorem firstFree_eq_none : firstFree used n = none ↔ (free used n).card = 0 := by
  rw [Finset.card_eq_zero, Finset.eq_empty_iff_forall_notMem, firstFree, List.find?_eq_none]
  simp [mem_free]

/-- Taking a free slot. -/
theorem card_take (h : i ∈ free used n) :
    (free (Function.update used i true) n).card + 1 = (free used n).card := by
  have heq : free (Function.update used i true) n = (free used n).erase i := by
    ext j
    rw [Finset.mem_erase, mem_free, mem_free, Function.update_apply]
    split
    · next hj => simp [hj]
    · next hj => simp [hj]
  rw [heq, Finset.card_erase_add_one h]

/-- Releasing a slot in use. -/
theorem card_release (hi : i < n) (h : used i = true) :
    (free (Function.update used i false) n).card = (free used n).card + 1 := by
  have hmem : i ∈ free (Function.update used i false) n :=
    mem_free.2 ⟨hi, Function.update_self ..⟩
  have htake := card_take hmem
  rwa [Function.update_idem, ← h, Function.update_eq_self, eq_comm] at htake

end Pool

end FtlFirmware
