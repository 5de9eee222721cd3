import Mathlib.Data.List.Induction
import Mathlib.Logic.Function.Basic
import Mathlib.Order.Bounds.Basic

/-!
# Two-way lookup tables

Two partial tables, one from the keys `α` to the values `β`, one back (`Lookup`): each entry of
one has its counterpart in the other. A two-way table is thus a partial bijection.

* `Lookup.insert`, `Lookup.remove`, `Lookup.move`, `Lookup.assign`: the updates that keep the
  two tables consistent, if made to both of them;
* `Lookup.foldl_enter_range`: what the table back holds after going through the keys, also if keys
  share a value;
* `Ranges`: a table all values of which have a property.
-/

namespace FtlFirmware

variable {α β : Type*}

/-- The tables `f` and `g` are inverse to each other. -/
def Lookup (f : α → Option β) (g : β → Option α) : Prop := ∀ a b, f a = some b ↔ g b = some a

namespace Lookup

variable {f : α → Option β} {g : β → Option α} {a a' : α} {b b' : β}

/-- The empty tables. -/
theorem empty : Lookup (fun _ : α => (none : Option β)) fun _ => none := by
  simp [Lookup]

/-- No two keys share a value. -/
theorem inj (h : Lookup f g) (ha : f a = some b) (ha' : f a' = some b) : a = a' := by
  have hb := (h a b).1 ha
  have hb' := (h a' b).1 ha'
  rw [hb, Option.some_inj] at hb'
  exact hb'

/-- A value of no key. -/
theorem ne_of_none (h : Lookup f g) (hb : g b = none) (ha : f a = some b') : b' ≠ b := by
  rintro rfl
  rw [(h a b').1 ha] at hb
  exact Option.some_ne_none _ hb

variable [DecidableEq α] [DecidableEq β]

/-- A new key gets a new value. -/
theorem insert (h : Lookup f g) (ha : f a = none) (hb : g b = none) :
    Lookup (Function.update f a (some b)) (Function.update g b (some a)) := by
  intro x y
  rcases eq_or_ne x a with rfl | hx <;> rcases eq_or_ne y b with rfl | hy
  · simp
  · have hgy : g y ≠ some x := fun hg => by rw [(h x y).2 hg] at ha; exact Option.some_ne_none _ ha
    simp [hy, hy.symm, hgy]
  · have hfx : f x ≠ some y := fun hf => by rw [(h x y).1 hf] at hb; exact Option.some_ne_none _ hb
    simp [hx, hx.symm, hfx]
  · simp [hx, hy, h x y]

/-- A key gives up its value. -/
theorem remove (h : Lookup f g) (ha : f a = some b) :
    Lookup (Function.update f a none) (Function.update g b none) := by
  intro x y
  rcases eq_or_ne x a with rfl | hx <;> rcases eq_or_ne y b with rfl | hy
  · simp
  · have hgy : g y ≠ some x := fun hg => by
      rw [(h x y).2 hg, Option.some_inj] at ha
      exact hy ha
    simp [hy, hgy]
  · have hfx : f x ≠ some y := fun hf => hx (h.inj hf ha)
    simp [hx, hfx]
  · simp [hx, hy, h x y]

/-- A key moves from its value to a new one. -/
theorem move (h : Lookup f g) (ha : f a = some b) (hb' : g b' = none) :
    Lookup (Function.update f a (some b'))
      (Function.update (Function.update g b' (some a)) b none) := by
  have hne : b ≠ b' := h.ne_of_none hb' ha
  have h' := (h.remove ha).insert (Function.update_self a none f)
    (show Function.update g b none b' = none by rwa [Function.update_of_ne hne.symm])
  rwa [Function.update_idem, Function.update_comm hne] at h'

/-- The table back after the key `a` has given up its value, if it has one. -/
def release (f : α → Option β) (g : β → Option α) (a : α) : β → Option α :=
  match f a with
  | some b => Function.update g b none
  | none => g

omit [DecidableEq α] in
/-- A key without a value gives up nothing. -/
theorem release_none (ha : f a = none) : release f g a = g := by
  rw [release, ha]

omit [DecidableEq α] in
/-- A key with a value gives it up. -/
theorem release_some (ha : f a = some b) : release f g a = Function.update g b none := by
  rw [release, ha]

/-- A key gets a new value, in place of the one it has, if any. -/
theorem assign (h : Lookup f g) (hb' : g b' = none) :
    Lookup (Function.update f a (some b')) (Function.update (release f g a) b' (some a)) := by
  cases ha : f a with
  | none =>
    rw [release_none ha]
    exact h.insert ha hb'
  | some b =>
    rw [release_some ha, Function.update_comm (h.ne_of_none hb' ha)]
    exact h.move ha hb'

/-! ## Rebuilding the table back -/

omit [DecidableEq α]

/-- Enters the value of the key `a` into the table back. -/
def enter (f : α → Option β) (g : β → Option α) (a : α) : β → Option α :=
  match f a with
  | some b => Function.update g b (some a)
  | none => g

/-- Entering a key without a value. -/
theorem enter_none (ha : f a = none) : enter f g a = g := by
  rw [enter, ha]

/-- Entering a key with a value. -/
theorem enter_some (ha : f a = some b) : enter f g a = Function.update g b (some a) := by
  rw [enter, ha]

/-- Whatever the table, after the first `n` numbers have been entered, the table back holds the
    greatest of those that have the value. -/
theorem foldl_enter_range {f : ℕ → Option β} {n a : ℕ} {b : β} :
    (List.range n).foldl (enter f) (fun _ => none) b = some a ↔
      IsGreatest {a | a < n ∧ f a = some b} a := by
  induction n with
  | zero => simp [IsGreatest]
  | succ n ih =>
    rw [List.range_succ, List.foldl_append, List.foldl_cons, List.foldl_nil]
    have hrest (hn : f n ≠ some b) :
        {a | a < n + 1 ∧ f a = some b} = {a | a < n ∧ f a = some b} := by
      ext a
      simp only [Set.mem_ofPred_eq]
      refine and_congr_left fun ha => ⟨fun hlt => ?_, Nat.lt_succ_of_lt⟩
      refine (Nat.lt_succ_iff_lt_or_eq.1 hlt).resolve_right ?_
      rintro rfl
      exact hn ha
    cases hn : f n with
    | none => rw [enter_none hn, ih, hrest (by simp [hn])]
    | some y =>
      rw [enter_some hn]
      rcases eq_or_ne b y with rfl | hb
      · -- The last number is the greatest one.
        have hlast : IsGreatest {a | a < n + 1 ∧ f a = some b} n :=
          ⟨⟨n.lt_succ_self, hn⟩, fun a ha => Nat.le_of_lt_succ ha.1⟩
        rw [Function.update_self, Option.some_inj]
        exact ⟨fun heq => heq ▸ hlast, fun h => hlast.unique h⟩
      · rw [Function.update_of_ne hb, ih, hrest]
        rw [hn, Ne, Option.some_inj]
        exact hb.symm

end Lookup

/-! ## Tables with bounded values -/

/-- All values of the table `f` have the property `P`. -/
def Ranges (P : β → Prop) (f : α → Option β) : Prop := ∀ a b, f a = some b → P b

namespace Ranges

variable {P : β → Prop} {f : α → Option β} {a : α} {b : β} {v : Option β}

/-- The empty table. -/
theorem empty : Ranges P fun _ : α => none := fun _ _ h => absurd h (by simp)

variable [DecidableEq α]

theorem update (h : Ranges P f) (hv : ∀ b, v = some b → P b) : Ranges P (Function.update f a v) := by
  intro x y hxy
  rcases eq_or_ne x a with rfl | hne
  · rw [Function.update_self] at hxy
    exact hv y hxy
  · rw [Function.update_of_ne hne] at hxy
    exact h x y hxy

theorem set (h : Ranges P f) (hb : P b) : Ranges P (Function.update f a (some b)) :=
  h.update fun _ heq => Option.some_inj.1 heq ▸ hb

theorem clear (h : Ranges P f) : Ranges P (Function.update f a none) := h.update (by simp)

omit [DecidableEq α] in
/-- Entering keys with the property into the table back. -/
theorem foldl_enter {Q : α → Prop} [DecidableEq β] {f : α → Option β} {g : β → Option α}
    (h : Ranges Q g) {l : List α} (hl : ∀ a ∈ l, Q a) : Ranges Q (l.foldl (Lookup.enter f) g) := by
  induction l generalizing g with
  | nil => exact h
  | cons a l ih =>
    obtain ⟨ha, hrest⟩ := List.forall_mem_cons.1 hl
    refine ih ?_ hrest
    rw [Lookup.enter]
    split
    · exact h.set ha
    · exact h

end Ranges

end FtlFirmware
