import Mathlib.Data.List.Basic
import Mathlib.Logic.Function.Basic

/-!
# Rings

A *ring* keeps a queue in an array of fixed size (`Ring`): the entries from the head on, around
the end of the array, as many as are counted. A valid ring (`Ring.Valid`) has its tail where the
next entry goes. Its entries, in order, are `Ring.contents`:

* `contents_push`: a push to a ring that is not full adds an entry at the end;
* `contents_pop`: a pop from a ring that is not empty takes the first one;
* `Valid.count_mod`: head and tail tell the count, up to the size of the ring;
* `dist_succ`: the head comes closer to the tail with every entry (`dist`).
-/

namespace FtlFirmware

/-- A queue in an array. -/
structure Ring (α : Type*) where
  /-- The array. -/
  slots : ℕ → α
  /-- The index of the first entry. -/
  head : ℕ
  /-- The index of the next entry to come. -/
  tail : ℕ
  /-- The number of entries. -/
  count : ℕ

namespace Ring

variable {α : Type*} {n : ℕ} {r : Ring α}

/-- The entries of a ring of size `n`, the first one first. -/
def contents (n : ℕ) (r : Ring α) : List α :=
  (List.range r.count).map fun i => r.slots ((r.head + i) % n)

/-- Adds an entry at the tail. -/
def push (n : ℕ) (r : Ring α) (x : α) : Ring α where
  slots := Function.update r.slots r.tail x
  head := r.head
  tail := (r.tail + 1) % n
  count := r.count + 1

/-- Drops the entry at the head. -/
def pop (n : ℕ) (r : Ring α) : Ring α :=
  { r with head := (r.head + 1) % n, count := r.count - 1 }

/-- The indices are in the array, and the tail is as far from the head as there are entries. -/
structure Valid (n : ℕ) (r : Ring α) : Prop where
  head_lt : r.head < n
  count_le : r.count ≤ n
  tail_eq : r.tail = (r.head + r.count) % n

/-- Two places of the ring that are less than a round apart are distinct. -/
theorem add_mod_ne {a b : ℕ} (k : ℕ) (hab : a < b) (hb : b < a + n) :
    (k + a) % n ≠ (k + b) % n := by
  intro h
  have hdvd : n ∣ k + b - (k + a) := Nat.dvd_of_mod_eq_zero (Nat.sub_mod_eq_zero_of_mod_eq h.symm)
  have hle := Nat.le_of_dvd (by omega) hdvd
  omega

/-- The number of entries from the head to the tail, in a ring of size `n` that is not full. -/
def dist (n head tail : ℕ) : ℕ := (tail + n - head) % n

theorem dist_of_le {head tail : ℕ} (htail : tail < n) (hle : head ≤ tail) :
    dist n head tail = tail - head := by
  rw [dist, show tail + n - head = tail - head + n by omega, Nat.add_mod_right,
    Nat.mod_eq_of_lt (by omega)]

theorem dist_of_lt {head tail : ℕ} (hhead : head < n) (hlt : tail < head) :
    dist n head tail = tail + n - head := by
  rw [dist, Nat.mod_eq_of_lt (by omega)]

@[simp] theorem dist_self (head : ℕ) : dist n head head = 0 := by
  rw [dist, Nat.add_sub_cancel_left, Nat.mod_self]

/-- The head comes closer to the tail by one entry. -/
theorem dist_succ {head tail : ℕ} (hhead : head < n) (htail : tail < n) (hne : head ≠ tail) :
    dist n head tail = dist n ((head + 1) % n) tail + 1 := by
  by_cases hlast : head + 1 = n
  · rw [hlast, Nat.mod_self, dist_of_lt hhead (by omega), dist_of_le htail (Nat.zero_le _)]
    omega
  · rw [Nat.mod_eq_of_lt (by omega)]
    by_cases hlt : head < tail
    · rw [dist_of_le htail (Nat.le_of_lt hlt), dist_of_le htail hlt]
      omega
    · rw [dist_of_lt hhead (by omega), dist_of_lt (by omega) (by omega)]
      omega

/-- The place `k` entries after the next one. -/
theorem succ_add_mod (head k : ℕ) : ((head + 1) % n + k) % n = (head + (k + 1)) % n := by
  rw [Nat.mod_add_mod, Nat.add_right_comm, Nat.add_assoc]

@[simp] theorem length_contents : (r.contents n).length = r.count := by
  rw [contents, List.length_map, List.length_range]

namespace Valid

theorem tail_lt (h : r.Valid n) : r.tail < n := by
  rw [h.tail_eq]
  exact Nat.mod_lt _ (Nat.zero_lt_of_lt h.head_lt)

/-- Head and tail tell the number of entries, but for a full ring. -/
theorem count_mod (h : r.Valid n) : (r.tail + n - r.head) % n = r.count % n := by
  have hhead := h.head_lt
  have hcount := h.count_le
  have htail := h.tail_eq
  by_cases hwrap : r.head + r.count < n
  · rw [Nat.mod_eq_of_lt hwrap] at htail
    rw [show r.tail + n - r.head = r.count + n by omega, Nat.add_mod_right]
  · rw [Nat.mod_eq_sub_mod (by omega), Nat.mod_eq_of_lt (by omega)] at htail
    rw [show r.tail + n - r.head = r.count by omega]

/-- A push to a ring with room leaves a valid ring. -/
theorem push (h : r.Valid n) (hroom : r.count < n) (x : α) : (r.push n x).Valid n where
  head_lt := h.head_lt
  count_le := hroom
  tail_eq := by
    show (r.tail + 1) % n = (r.head + (r.count + 1)) % n
    rw [h.tail_eq, Nat.mod_add_mod, Nat.add_assoc]

/-- A pop from a ring with an entry leaves a valid ring. -/
theorem pop (h : r.Valid n) (hpos : 0 < r.count) : (r.pop n).Valid n where
  head_lt := Nat.mod_lt _ (Nat.zero_lt_of_lt h.head_lt)
  count_le := Nat.le_trans (Nat.sub_le _ _) h.count_le
  tail_eq := by
    show r.tail = ((r.head + 1) % n + (r.count - 1)) % n
    rw [Nat.mod_add_mod, h.tail_eq, show r.head + 1 + (r.count - 1) = r.head + r.count by omega]

end Valid

/-- A push adds an entry at the end. -/
theorem contents_push (h : r.Valid n) (hroom : r.count < n) (x : α) :
    (r.push n x).contents n = r.contents n ++ [x] := by
  have hold : ∀ i ∈ List.range r.count,
      (r.push n x).slots ((r.head + i) % n) = r.slots ((r.head + i) % n) := by
    intro i hi
    have hlt := List.mem_range.1 hi
    refine Function.update_of_ne ?_ _ _
    rw [h.tail_eq]
    exact add_mod_ne r.head hlt (by omega)
  have hnew : (r.push n x).slots ((r.head + r.count) % n) = x := by
    rw [← h.tail_eq]
    exact Function.update_self _ _ _
  calc (r.push n x).contents n
      = (List.range (r.count + 1)).map fun i => (r.push n x).slots ((r.head + i) % n) := rfl
    _ = r.contents n ++ [x] := by
      rw [List.range_succ, List.map_append, List.map_congr_left hold, List.map_singleton, hnew]
      rfl

/-- A pop takes the first entry. -/
theorem contents_pop (h : r.Valid n) (hpos : 0 < r.count) :
    r.contents n = r.slots r.head :: (r.pop n).contents n := by
  obtain ⟨k, hk⟩ := Nat.exists_eq_succ_of_ne_zero (Nat.ne_of_gt hpos)
  have hpop : (r.pop n).contents n =
      (List.range k).map fun i => r.slots (((r.head + 1) % n + i) % n) := by
    show (List.range (r.count - 1)).map _ = _
    rw [hk]
    rfl
  rw [hpop, contents, hk, List.range_succ_eq_map, List.map_cons, List.map_map, Nat.add_zero,
    Nat.mod_eq_of_lt h.head_lt]
  congr 1
  refine List.map_congr_left fun i _ => ?_
  show r.slots ((r.head + (i + 1)) % n) = r.slots (((r.head + 1) % n + i) % n)
  rw [Nat.mod_add_mod, Nat.add_assoc, Nat.add_comm 1 i]

end Ring

end FtlFirmware
