import Mathlib.Data.List.Induction

/-!
# Machines and their runs

A *machine* answers calls: from a state, a call may lead to an answer and a next state
(`Machine.step`). A call that never returns has no step. The runs of a machine
(`Machine.Run`) record the calls made and the answers given; each call of a run is *allowed*
by a condition on the state in which it is made.

* `Run.invariant`: what the allowed steps preserve holds throughout a run;
* `Run.simulation`: a machine whose allowed steps follow a function on an abstract state
  follows, over a run, the fold of this function;
* `Run.image`: a machine that does the same steps under other names does the same runs;
* `Run.iterate`: a family of states each leading to the next one gives a run of any length;
* `After.run`: calls made one after another, given by a function, are a run.
-/

namespace FtlFirmware

/-- A machine answering the calls `α` with answers `β`. -/
structure Machine (σ α β : Type*) where
  /-- The steps: from a state, a call, its answer and the next state. -/
  step : σ → α → β → σ → Prop

namespace Machine

variable {σ τ α β : Type*} (m : Machine σ α β)

/-- The runs from `s`: the calls made with their answers, and the state reached. Each call is
    allowed in the state in which it is made. -/
inductive Run (allowed : σ → α → Prop) (s : σ) : List (α × β) → σ → Prop
  | nil : Run allowed s [] s
  | snoc {tr s' a b s''} : Run allowed s tr s' → allowed s' a → m.step s' a b s'' →
      Run allowed s (tr ++ [(a, b)]) s''

/-- Every call allowed. -/
def anyCall : σ → α → Prop := fun _ _ => True

variable {m} {allowed allowed' : σ → α → Prop} {s s' s'' : σ} {tr tr' : List (α × β)}

namespace Run

/-- A single step, as a run. -/
theorem single {a : α} {b : β} (ha : allowed s a) (h : m.step s a b s') :
    m.Run allowed s [(a, b)] s' :=
  snoc nil ha h

/-- Runs compose. -/
theorem append (h : m.Run allowed s tr s') (h' : m.Run allowed s' tr' s'') :
    m.Run allowed s (tr ++ tr') s'' := by
  induction h' with
  | nil => rwa [List.append_nil]
  | snoc _ ha hstep ih =>
    rw [← List.append_assoc]
    exact snoc ih ha hstep

/-- The last step of a run. -/
theorem last {a : α} {b : β} (h : m.Run allowed s (tr ++ [(a, b)]) s'') :
    ∃ s', m.Run allowed s tr s' ∧ allowed s' a ∧ m.step s' a b s'' := by
  generalize htr : tr ++ [(a, b)] = tr' at h
  cases h with
  | nil => exact absurd htr (List.append_ne_nil_of_right_ne_nil _ (List.cons_ne_nil _ _))
  | snoc hrun ha hstep =>
    obtain ⟨rfl, hlast⟩ := List.append_inj' htr rfl
    obtain ⟨rfl, rfl⟩ := Prod.mk.inj (List.cons.inj hlast).1
    exact ⟨_, hrun, ha, hstep⟩

/-- A step in the middle of a run. -/
theorem middle {e : α × β} (h : m.Run allowed s (tr ++ e :: tr') s'') :
    ∃ s₁ s₂, m.Run allowed s tr s₁ ∧ allowed s₁ e.1 ∧ m.step s₁ e.1 e.2 s₂ ∧
      m.Run allowed s₂ tr' s'' := by
  induction tr' using List.reverseRecOn generalizing s'' with
  | nil =>
    obtain ⟨s₁, hrun, ha, hstep⟩ := h.last
    exact ⟨s₁, s'', hrun, ha, hstep, nil⟩
  | append_singleton tr' e' ih =>
    rw [← List.cons_append, ← List.append_assoc] at h
    obtain ⟨s', hrun, ha, hstep⟩ := h.last
    obtain ⟨s₁, s₂, h₁, ha₁, hstep₁, h₂⟩ := ih hrun
    exact ⟨s₁, s₂, h₁, ha₁, hstep₁, snoc h₂ ha hstep⟩

/-- A run is one under any weaker condition. -/
theorem mono (h : m.Run allowed s tr s') (hle : ∀ s a, allowed s a → allowed' s a) :
    m.Run allowed' s tr s' := by
  induction h with
  | nil => exact nil
  | snoc _ ha hstep ih => exact snoc ih (hle _ _ ha) hstep

/-- What holds initially and is preserved by the allowed steps holds throughout a run. -/
theorem invariant {P : σ → Prop} (h : m.Run allowed s tr s') (h₀ : P s)
    (hstep : ∀ s a b s', P s → allowed s a → m.step s a b s' → P s') : P s' := by
  induction h with
  | nil => exact h₀
  | snoc _ ha hs ih => exact hstep _ _ _ _ ih ha hs

/-- A run is one under any condition that is weaker in the states that the run can reach. -/
theorem mono_of_invariant {P : σ → Prop} (h : m.Run allowed s tr s') (h₀ : P s)
    (hstep : ∀ s a b s', P s → allowed s a → m.step s a b s' → P s')
    (hle : ∀ s a, P s → allowed s a → allowed' s a) : m.Run allowed' s tr s' := by
  induction h with
  | nil => exact nil
  | snoc hrun ha hs ih => exact snoc ih (hle _ _ (hrun.invariant h₀ hstep) ha) hs

/-- Over a run, an abstract state that every allowed step takes along by `next` is the fold of
    `next` over the trace. -/
theorem simulation {R : σ → τ → Prop} {next : τ → α × β → τ} {t : τ}
    (h : m.Run allowed s tr s') (h₀ : R s t)
    (hstep : ∀ s t a b s', R s t → allowed s a → m.step s a b s' → R s' (next t (a, b))) :
    R s' (tr.foldl next t) := by
  induction h with
  | nil => exact h₀
  | snoc _ ha hs ih =>
    rw [List.foldl_append]
    exact hstep _ _ _ _ _ ih ha hs

/-- A machine that does the same steps under other names, as long as an invariant of the first one
    holds, does the same runs. -/
theorem image {γ : Type*} {m' : Machine τ γ β} {allowed' : τ → γ → Prop} {P : σ → Prop} {f : σ → τ}
    {g : α → γ} (h : m.Run allowed s tr s') (h₀ : P s)
    (hstep : ∀ s a b s', P s → allowed s a → m.step s a b s' →
      P s' ∧ allowed' (f s) (g a) ∧ m'.step (f s) (g a) b (f s')) :
    m'.Run allowed' (f s) (tr.map (Prod.map g id)) (f s') := by
  induction h with
  | nil => exact nil
  | snoc hrun ha hs ih =>
    have hP := hrun.invariant h₀ fun s a b s' hs ha h => (hstep s a b s' hs ha h).1
    obtain ⟨_, ha', hs'⟩ := hstep _ _ _ _ hP ha hs
    rw [List.map_append]
    exact snoc ih ha' hs'

/-- A family of predicates, each leading to the next one by a call `a k`, gives runs of any
    length. -/
theorem iterate {P : ℕ → σ → Prop} {a : ℕ → α} {n : ℕ}
    (hstep : ∀ k < n, ∀ s, P k s → allowed s (a k) ∧ ∃ b s', m.step s (a k) b s' ∧ P (k + 1) s')
    (h₀ : P 0 s) : ∃ tr s', m.Run allowed s tr s' ∧ tr.map Prod.fst = (List.range n).map a ∧
      P n s' := by
  induction n with
  | zero => exact ⟨[], s, nil, rfl, h₀⟩
  | succ n ih =>
    obtain ⟨tr, s₁, hrun, htr, hP⟩ := ih fun k hk => hstep k (Nat.lt_succ_of_lt hk)
    obtain ⟨ha, b, s₂, hs, hP'⟩ := hstep n n.lt_succ_self s₁ hP
    refine ⟨tr ++ [(a n, b)], s₂, snoc hrun ha hs, ?_, hP'⟩
    rw [List.map_append, htr, List.range_succ, List.map_append]
    rfl

end Run

/-- What holds after the calls, made one after another: each is allowed, and `exec` says what it
    leads to. -/
def After (exec : σ → α → Option (β × σ)) (allowed : σ → α → Prop) (Q : σ → Prop) :
    List α → σ → Prop
  | [], s => Q s
  | a :: as, s => allowed s a ∧ match exec s a with
    | some (_, s') => After exec allowed Q as s'
    | none => False

/-- Calls made one after another are a run of these calls. -/
theorem After.run {exec : σ → α → Option (β × σ)} {Q : σ → Prop} {as : List α}
    (hexec : ∀ s a b s', exec s a = some (b, s') → m.step s a b s')
    (h : After exec allowed Q as s) :
    ∃ tr s', m.Run allowed s tr s' ∧ tr.map Prod.fst = as ∧ Q s' := by
  induction as generalizing s with
  | nil => exact ⟨[], s, .nil, rfl, h⟩
  | cons a as ih =>
    obtain ⟨hallowed, h⟩ := h
    split at h
    · rename_i b s₁ hstep
      obtain ⟨tr, s', hrun, rfl, hQ⟩ := ih h
      exact ⟨_, s', (Run.single hallowed (hexec _ _ _ _ hstep)).append hrun, rfl, hQ⟩
    · exact h.elim

end Machine

end FtlFirmware
