import Mathlib.Data.List.Induction

/-!
# States decided by readings

A state that follows readings: a reading decides on a state, or on none, and then the state stays as
it is (`held`). What such a state is depends on the last reading that has decided only
(`held_eq_getLast`). If a higher reading decides as soon as a lower one does, and the readings only
rise, it depends on the last reading only (`getD_rising`).

How often a state has been entered (`entries`) is told by the decisions as well.
-/

namespace FtlFirmware

namespace Levels

variable {ι σ : Type*} {level : ι → Option σ} {s : σ} {x : ι} {xs : List ι}

/-- The state after the readings. -/
def held (level : ι → Option σ) (s : σ) (xs : List ι) : σ :=
  xs.foldl (fun s x => (level x).getD s) s

theorem held_concat : held level s (xs ++ [x]) = (level x).getD (held level s xs) := by
  rw [held, held, List.foldl_append, List.foldl_cons, List.foldl_nil]

/-- The state is the last one that has been decided on. -/
theorem held_eq_getLast : held level s xs =
    (s :: xs.filterMap level).getLast (List.cons_ne_nil _ _) := by
  induction xs using List.reverseRecOn with
  | nil => rfl
  | append_singleton xs x ih =>
    rw [held_concat, ih]
    cases hx : level x with
    | none => simp [hx]
    | some t =>
      simp only [List.filterMap_append, List.filterMap_cons, hx, List.filterMap_nil]
      have hlast : (s :: xs.filterMap level ++ [t]).getLast (by simp) = t := List.getLast_concat
      exact hlast.symm

/-- A reading that is not lower than the one before alone tells the state. -/
theorem getD_rising [LE ι] (hlevel : ∀ x y, x ≤ y → level y = none → level x = none)
    {y : ι} (h : x ≤ y) : (level y).getD ((level x).getD s) = (level y).getD s := by
  cases hy : level y with
  | none => rw [hlevel x y h hy]; rfl
  | some t => rfl

variable [DecidableEq σ] {a : σ}

/-- How often the state `a` is entered by the decisions, from `s` on. -/
def entries (a s : σ) (decisions : List σ) : ℕ :=
  ((s :: decisions).zip decisions).countP fun p => p.1 ≠ a ∧ p.2 = a

theorem entries_concat {decisions : List σ} {t : σ} : entries a s (decisions ++ [t]) =
    entries a s decisions +
      if (s :: decisions).getLast (List.cons_ne_nil _ _) ≠ a ∧ t = a then 1 else 0 := by
  have hsplit := (List.dropLast_concat_getLast (List.cons_ne_nil s decisions)).symm
  have hlen : (s :: decisions).dropLast.length = decisions.length := by simp
  generalize (s :: decisions).getLast (List.cons_ne_nil s decisions) = last at hsplit ⊢
  generalize (s :: decisions).dropLast = front at hsplit hlen
  have hlong : (s :: (decisions ++ [t])).zip (decisions ++ [t]) =
      front.zip decisions ++ [(last, t)] := by
    rw [← List.cons_append, hsplit, List.append_assoc, List.zip_append hlen]
    rfl
  have hshort : (s :: decisions).zip decisions = front.zip decisions := by
    have happ : (front ++ [last]).zip (decisions ++ []) = front.zip decisions ++ [last].zip [] :=
      List.zip_append hlen
    rw [List.append_nil, List.zip_nil_right, List.append_nil] at happ
    rw [hsplit]
    exact happ
  rw [entries, entries, hlong, hshort, List.countP_append, List.countP_singleton]
  simp

end Levels

end FtlFirmware
