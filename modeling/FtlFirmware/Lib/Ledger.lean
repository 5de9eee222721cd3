import Mathlib.Data.List.Nodup
import FtlFirmware.Lib.Ring

/-!
# Ledgers

What a writer and a reader have done to the slots of a ring: the writer has written slots one after
the other, and the reader has released some of them, the first ones first (`Ledger`). A ledger notes
whether the writer has overwritten a slot that it holds, that is, one that the reader has not
released.

A ledger that tracks a ring (`Ledger.Tracks`) goes on tracking it as long as the writer writes only
when fewer slots are held than the ring has (`Tracks.post`), and the reader releases only slots that
are held (`Tracks.release`).
-/

namespace FtlFirmware

/-- The slots written and not released, and whether one of them has been overwritten. -/
structure Ledger where
  held : List ℕ
  clobbered : Bool
  deriving DecidableEq, Repr

namespace Ledger

/-- Nothing has been written. -/
def fresh : Ledger := ⟨[], false⟩

/-- The writer writes a slot. -/
def post (l : Ledger) (slot : ℕ) : Ledger where
  held := l.held ++ [slot]
  clobbered := l.clobbered || decide (slot ∈ l.held)

/-- The reader releases the first `k` slots. -/
def release (l : Ledger) (k : ℕ) : Ledger := { l with held := l.held.drop k }

/-- The slots held are those of a ring of size `n` from the head to the tail, and none has been
    overwritten. -/
structure Tracks (n head tail : ℕ) (l : Ledger) : Prop where
  head_lt : head < n
  held_eq : l.held = (List.range l.held.length).map fun i => (head + i) % n
  tail_eq : tail = (head + l.held.length) % n
  le : l.held.length ≤ n
  clean : l.clobbered = false

variable {l : Ledger} {n head tail k v : ℕ}

theorem fresh_tracks (hn : 0 < n) : fresh.Tracks n 0 0 where
  head_lt := hn
  held_eq := rfl
  tail_eq := (Nat.zero_mod n).symm
  le := Nat.zero_le n
  clean := rfl

@[simp] theorem length_post (l : Ledger) (slot : ℕ) :
    (l.post slot).held.length = l.held.length + 1 := by
  rw [post, List.length_append, List.length_singleton]

@[simp] theorem length_release (l : Ledger) (k : ℕ) :
    (l.release k).held.length = l.held.length - k := List.length_drop

namespace Tracks

theorem tail_lt (h : l.Tracks n head tail) : tail < n := by
  rw [h.tail_eq]
  exact Nat.mod_lt _ (Nat.zero_lt_of_lt h.head_lt)

/-- A slot that is held is in the ring. -/
theorem lt_of_mem (h : l.Tracks n head tail) {slot : ℕ} (hmem : slot ∈ l.held) : slot < n := by
  rw [h.held_eq, List.mem_map] at hmem
  obtain ⟨i, _, rfl⟩ := hmem
  exact Nat.mod_lt _ (Nat.zero_lt_of_lt h.head_lt)

/-- No slot is held twice. -/
theorem nodup (h : l.Tracks n head tail) : l.held.Nodup := by
  rw [h.held_eq]
  refine List.Nodup.map_on (fun i hi j hj heq => ?_) List.nodup_range
  have hi := List.mem_range.1 hi
  have hj := List.mem_range.1 hj
  have hle := h.le
  rcases Nat.lt_trichotomy i j with hlt | rfl | hlt
  · exact absurd heq (Ring.add_mod_ne head hlt (by omega))
  · rfl
  · exact absurd heq.symm (Ring.add_mod_ne head hlt (by omega))

/-- The slot at the tail is not held, if fewer slots are held than the ring has. -/
theorem tail_notMem (h : l.Tracks n head tail) (hroom : l.held.length < n) : tail ∉ l.held := by
  intro hmem
  rw [h.held_eq, List.mem_map] at hmem
  obtain ⟨i, hi, heq⟩ := hmem
  have hlt := List.mem_range.1 hi
  rw [h.tail_eq] at heq
  exact Ring.add_mod_ne head hlt (by omega) heq

/-- Writing the slot at the tail. -/
theorem post (h : l.Tracks n head tail) (hroom : l.held.length < n) :
    (l.post tail).Tracks n head ((tail + 1) % n) where
  head_lt := h.head_lt
  held_eq := by
    rw [length_post, List.range_succ, List.map_append, ← h.held_eq, List.map_singleton, ← h.tail_eq]
    rfl
  tail_eq := by
    rw [length_post, h.tail_eq, Nat.mod_add_mod, Nat.add_assoc]
  le := by
    rw [length_post]
    exact hroom
  clean := by
    rw [Ledger.post, h.clean, Bool.false_or]
    exact decide_eq_false (h.tail_notMem hroom)

/-- Releasing slots that are held. -/
theorem release (h : l.Tracks n head tail) (hk : k ≤ l.held.length) :
    (l.release k).Tracks n ((head + k) % n) tail where
  head_lt := Nat.mod_lt _ (Nat.zero_lt_of_lt h.head_lt)
  held_eq := by
    refine List.ext_getElem ?_ fun i h₁ h₂ => ?_
    · rw [List.length_map, List.length_range]
    · rw [List.getElem_map, List.getElem_range, Nat.mod_add_mod, Nat.add_assoc]
      simp only [Ledger.release, List.getElem_drop]
      rw [List.getElem_of_eq h.held_eq, List.getElem_map, List.getElem_range]
  tail_eq := by
    rw [length_release, h.tail_eq, Nat.mod_add_mod]
    congr 1
    omega
  le := by
    rw [length_release]
    exact Nat.le_trans (Nat.sub_le _ _) h.le
  clean := h.clean

/-- Moving the head to `v`. -/
theorem advance (h : l.Tracks n head tail) (hv : v < n)
    (hk : Ring.dist n head v ≤ l.held.length) :
    (l.release (Ring.dist n head v)).Tracks n v tail := by
  have hhead := h.head_lt
  have heq : (head + Ring.dist n head v) % n = v := by
    rw [Ring.dist, Nat.add_mod_mod, show head + (v + n - head) = v + n by omega, Nat.add_mod_right,
      Nat.mod_eq_of_lt hv]
  have hrel := h.release hk
  rwa [heq] at hrel

end Tracks

end Ledger

end FtlFirmware
