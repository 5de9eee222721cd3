import Mathlib.Logic.Function.Basic

/-!
# Assignments

A list of assignments to the entries of a table, made one after another (`assign`). Of the
assignments to an entry, the last one counts (`lastAssigned`, `assign_apply`); so they leave the
table as it is exactly if the last one to each entry is what the entry is anyway (`assign_eq_self`).
-/

namespace FtlFirmware

variable {κ ν : Type*} [DecidableEq κ] {f : κ → ν} {l l' : List (κ × ν)} {k : κ}

/-- The table after the assignments. -/
def assign (f : κ → ν) (l : List (κ × ν)) : κ → ν :=
  l.foldl (fun f a => Function.update f a.1 a.2) f

/-- The last value assigned to an entry. -/
def lastAssigned : List (κ × ν) → κ → Option ν
  | [], _ => none
  | a :: l, k => (lastAssigned l k).or (if a.1 = k then some a.2 else none)

theorem assign_cons (a : κ × ν) :
    assign f (a :: l) = assign (Function.update f a.1 a.2) l := rfl

theorem assign_append : assign f (l ++ l') = assign (assign f l) l' :=
  List.foldl_append

/-- An entry has the last value assigned to it. -/
theorem assign_apply : assign f l k = (lastAssigned l k).getD (f k) := by
  induction l generalizing f with
  | nil => rfl
  | cons a l ih =>
    rw [assign_cons, ih, lastAssigned]
    cases lastAssigned l k with
    | some v => rfl
    | none =>
      rw [Option.getD_none, Option.none_or, Function.update_apply]
      rcases eq_or_ne a.1 k with rfl | hne
      · simp
      · simp [hne, hne.symm]

/-- The assignments leave the table as it is. -/
theorem assign_eq_self : assign f l = f ↔ ∀ k v, lastAssigned l k = some v → f k = v := by
  rw [funext_iff]
  refine forall_congr' fun k => ?_
  rw [assign_apply]
  cases lastAssigned l k with
  | none => simp
  | some v => simp [eq_comm]

end FtlFirmware
