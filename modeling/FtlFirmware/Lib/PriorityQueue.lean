import Mathlib.Data.List.Basic
import Mathlib.Order.Lattice

/-!
# Stable priority queues

A list of items, of which one with a higher priority comes first, and of two with the same
priority the older one (`Before`). A new item goes in front of the first one with a lower
priority (`enqueue`).

* `pairwise_enqueue`: the queue stays in order;
* `perm_enqueue`: it holds the new item beside those that it held;
* `map_enqueue`: what it holds depends on the priorities only.
-/

namespace FtlFirmware

namespace PriorityQueue

variable {α γ β : Type*} [LinearOrder β]

/-- The item `a` goes into the queue `q`. -/
def enqueue (prio : α → β) (a : α) (q : List α) : List α :=
  q.takeWhile (fun x => decide (prio a ≤ prio x)) ++ a ::
    q.dropWhile fun x => decide (prio a ≤ prio x)

/-- The item `x` is served before the item `y`, where `older` is the order of arrival. -/
def Before (prio : α → β) (older : α → α → Prop) (x y : α) : Prop :=
  prio y < prio x ∨ prio x = prio y ∧ older x y

variable {prio : α → β} {older : α → α → Prop} {a x y : α} {q : List α}

/-- The queue holds the new item beside those that it held. -/
theorem perm_enqueue : (enqueue prio a q).Perm (a :: q) := by
  have hsplit : q.takeWhile (fun x => decide (prio a ≤ prio x)) ++
      q.dropWhile (fun x => decide (prio a ≤ prio x)) = q := List.takeWhile_append_dropWhile
  exact List.perm_middle.trans (hsplit.symm ▸ List.Perm.refl _)

@[simp]
theorem mem_enqueue : x ∈ enqueue prio a q ↔ x = a ∨ x ∈ q := by
  rw [perm_enqueue.mem_iff, List.mem_cons]

@[simp]
theorem length_enqueue : (enqueue prio a q).length = q.length + 1 := by
  rw [perm_enqueue.length_eq, List.length_cons]

/-- What the queue holds depends on the priorities only. -/
theorem map_enqueue (prio : α → β) (f : γ → α) (c : γ) (q : List γ) :
    (enqueue (prio ∘ f) c q).map f = enqueue prio (f c) (q.map f) := by
  simp only [enqueue, List.map_append, List.map_cons, List.takeWhile_map, List.dropWhile_map]
  rfl

/-- The queue stays in order when the newest item goes in. -/
theorem pairwise_enqueue (h : q.Pairwise (Before prio older)) (hnew : ∀ x ∈ q, older x a) :
    (enqueue prio a q).Pairwise (Before prio older) := by
  induction q with
  | nil => exact List.pairwise_singleton _ a
  | cons y q ih =>
    obtain ⟨hy, hq⟩ := List.pairwise_cons.1 h
    by_cases hle : prio a ≤ prio y
    · -- The first item stays first: it is older, and not of lower priority.
      have hcons : enqueue prio a (y :: q) = y :: enqueue prio a q := by simp [enqueue, hle]
      rw [hcons, List.pairwise_cons]
      refine ⟨fun x hx => ?_, ih hq fun x hx => hnew x (List.mem_cons_of_mem y hx)⟩
      rcases mem_enqueue.1 hx with rfl | hx
      · rcases lt_or_eq_of_le hle with hlt | heq
        · exact Or.inl hlt
        · exact Or.inr ⟨heq.symm, hnew y List.mem_cons_self⟩
      · exact hy x hx
    · -- The new item comes first: no item of the queue has a higher priority than its first.
      have hcons : enqueue prio a (y :: q) = a :: y :: q := by simp [enqueue, hle]
      rw [hcons, List.pairwise_cons]
      refine ⟨fun x hx => Or.inl ?_, h⟩
      rcases List.mem_cons.1 hx with rfl | hx
      · exact lt_of_not_ge hle
      · rcases hy x hx with hlt | ⟨heq, -⟩
        · exact lt_trans hlt (lt_of_not_ge hle)
        · exact heq ▸ lt_of_not_ge hle

end PriorityQueue

end FtlFirmware
