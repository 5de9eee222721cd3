import Mathlib.Data.Prod.Lex
import Mathlib.Order.Lattice.Nat
import Mathlib.Order.WellFounded

/-!
# Loops

A while loop as a function with fuel (`Loop.run`): as long as the condition holds, the body gives
the next state, or leaves the loop with a result. The fuel is the number of turns that the loop may
take.

* `Loop.run_ends`: the loop ends if a rank gets smaller with each turn;
* `Loop.run_inl`, `Loop.run_inr`: a loop that is left ends with a result of its body; one that is
  not left ends in a state in which the condition does not hold;
* `Loop.run_mono`: more fuel makes no difference.

A fold that may fail keeps what each of its turns keeps (`foldlM_invariant`), and does not fail
unless one of them does (`foldlM_turn`). If each turn changes the entries of one key of a table, the
fold changes those of all keys (`foldlM_table`).

Ranks are often pairs, of which the first component counts the steps to some event that must come up
again and again in a sequence (`Recurs`, `firstHit`).
-/

namespace FtlFirmware

/-- A fold that may fail keeps what each turn keeps. -/
theorem foldlM_invariant {σ α : Type*} {f : σ → α → Option σ} {P : σ → Prop} {l : List α} {s s' : σ}
    (h : l.foldlM f s = some s') (hs : P s)
    (hturn : ∀ a ∈ l, ∀ s s', P s → f s a = some s' → P s') : P s' := by
  induction l generalizing s with
  | nil =>
    obtain rfl := Option.some_inj.1 h
    exact hs
  | cons a l ih =>
    rw [List.foldlM_cons] at h
    obtain ⟨s₁, hfirst, hrest⟩ := Option.bind_eq_some_iff.1 h
    obtain ⟨ha, hl⟩ := List.forall_mem_cons.1 hturn
    exact ih hrest (ha s s₁ hs hfirst) hl

/-- Each turn of a fold that does not fail does not fail. -/
theorem foldlM_turn {σ α : Type*} {f : σ → α → Option σ} {l : List α} {s s' : σ} {a : α}
    (h : l.foldlM f s = some s') (ha : a ∈ l) : ∃ s₁ s₂, f s₁ a = some s₂ := by
  induction l generalizing s with
  | nil => exact absurd ha List.not_mem_nil
  | cons b l ih =>
    rw [List.foldlM_cons] at h
    obtain ⟨s₁, hfirst, hrest⟩ := Option.bind_eq_some_iff.1 h
    rcases List.mem_cons.1 ha with rfl | hmem
    · exact ⟨s, s₁, hfirst⟩
    · exact ih hrest hmem

/-- A fold over keys, each turn of which changes the entries of its key in a table, to what the
    state says that they become: in the end, all entries of the keys have become what the state has
    said in the beginning. -/
theorem foldlM_table {σ α κ β : Type*} [DecidableEq α] {f : σ → α → Option σ} {table next : σ → κ → β}
    {key : κ → α} {l : List α} {s s' : σ} (h : l.foldlM f s = some s') (hl : l.Nodup)
    (hturn : ∀ a ∈ l, ∀ s s', f s a = some s' →
      (∀ k, table s' k = if key k = a then next s k else table s k) ∧
        ∀ k, key k ≠ a → next s' k = next s k) (k : κ) :
    table s' k = if key k ∈ l then next s k else table s k := by
  induction l generalizing s with
  | nil =>
    obtain rfl := Option.some_inj.1 h
    exact (if_neg List.not_mem_nil).symm
  | cons a l ih =>
    rw [List.foldlM_cons] at h
    obtain ⟨s₁, hfirst, hrest⟩ := Option.bind_eq_some_iff.1 h
    obtain ⟨ha, hl⟩ := List.nodup_cons.1 hl
    obtain ⟨hturn₁, hturn⟩ := List.forall_mem_cons.1 hturn
    obtain ⟨htable, hnext⟩ := hturn₁ s s₁ hfirst
    rw [ih hrest hl hturn, htable k]
    by_cases hkey : key k = a
    · rw [if_neg (hkey ▸ ha), if_pos hkey, if_pos (hkey ▸ List.mem_cons_self)]
    · rw [if_neg hkey, hnext k hkey]
      simp only [List.mem_cons, hkey, false_or]

namespace Loop

variable {σ ρ α : Type*} {cond : σ → Prop} [DecidablePred cond] {body : σ → ρ ⊕ σ} {s s' : σ}
  {r : ρ ⊕ σ}

/-- The loop, with fuel for its turns. -/
def run (cond : σ → Prop) [DecidablePred cond] (body : σ → ρ ⊕ σ) : ℕ → σ → Option (ρ ⊕ σ)
  | 0, s => if cond s then none else some (.inr s)
  | fuel + 1, s =>
    if cond s then
      match body s with
      | .inl r => some (.inl r)
      | .inr s' => run cond body fuel s'
    else some (.inr s)

/-- The loop ends if each turn keeps an invariant and lowers a rank. -/
theorem run_ends [Preorder α] [WellFoundedLT α] {P : σ → Prop} (rank : σ → α)
    (hturn : ∀ s s', P s → cond s → body s = .inr s' → P s' ∧ rank s' < rank s) (hs : P s) :
    ∃ fuel r, run cond body fuel s = some r := by
  induction h : rank s using WellFoundedLT.induction generalizing s with
  | ind a ih =>
    by_cases hcond : cond s
    · cases hbody : body s with
      | inl r => exact ⟨1, .inl r, by rw [run, if_pos hcond, hbody]⟩
      | inr s' =>
        obtain ⟨hs', hlt⟩ := hturn s s' hs hcond hbody
        obtain ⟨fuel, r, hrun⟩ := ih (rank s') (h ▸ hlt) hs' rfl
        exact ⟨fuel + 1, r, by rw [run, if_pos hcond, hbody, ← hrun]⟩
    · exact ⟨0, .inr s, by rw [run, if_neg hcond]⟩

/-- A loop that ends does so with more fuel. -/
theorem run_mono {fuel fuel' : ℕ} (h : run cond body fuel s = some r) (hle : fuel ≤ fuel') :
    run cond body fuel' s = some r := by
  induction fuel generalizing s fuel' with
  | zero =>
    rw [run] at h
    split at h
    · simp at h
    · next hcond => cases fuel' <;> rw [run, if_neg hcond, h]
  | succ fuel ih =>
    obtain ⟨fuel', rfl⟩ := Nat.exists_eq_succ_of_ne_zero (Nat.ne_of_gt (Nat.zero_lt_of_lt hle))
    rw [run] at h ⊢
    split at h
    · next hcond =>
      rw [if_pos hcond]
      split at h
      · exact h
      · exact ih h (Nat.le_of_succ_le_succ hle)
    · next hcond => rw [if_neg hcond, h]

/-- A loop that is left ends with a result of its body. -/
theorem run_inl {fuel : ℕ} {result : ρ} (P : ρ → Prop) (hbody : ∀ {s r}, body s = .inl r → P r)
    (h : run cond body fuel s = some (.inl result)) : P result := by
  induction fuel generalizing s with
  | zero =>
    rw [run] at h
    split at h
    · simp at h
    · exact absurd (Option.some_inj.1 h) (by simp)
  | succ fuel ih =>
    rw [run] at h
    split at h
    · split at h
      · next r hr => exact Sum.inl.inj (Option.some_inj.1 h) ▸ hbody hr
      · exact ih h
    · exact absurd (Option.some_inj.1 h) (by simp)

/-- A loop that is not left ends when the condition does not hold. -/
theorem run_inr {fuel : ℕ} (h : run cond body fuel s = some (.inr s')) : ¬ cond s' := by
  induction fuel generalizing s with
  | zero =>
    rw [run] at h
    split at h
    · simp at h
    · next hcond => exact Sum.inr.inj (Option.some_inj.1 h) ▸ hcond
  | succ fuel ih =>
    rw [run] at h
    split at h
    · split at h
      · exact absurd (Option.some_inj.1 h) (by simp)
      · exact ih h
    · next hcond => exact Sum.inr.inj (Option.some_inj.1 h) ▸ hcond

end Loop

section Recurs

variable {hit : ℕ → Prop} {x : ℕ → ℕ}

/-- In the sequence `x`, numbers with the property `hit` come up again and again. -/
def Recurs (hit : ℕ → Prop) (x : ℕ → ℕ) : Prop := ∀ k, ∃ i, k ≤ i ∧ hit (x i)

/-- The position of the first such number. -/
noncomputable def firstHit (hit : ℕ → Prop) (x : ℕ → ℕ) : ℕ := sInf {i | hit (x i)}

/-- They do so in the rest of the sequence. -/
theorem Recurs.tail (h : Recurs hit x) : Recurs hit fun i => x (i + 1) := fun k => by
  obtain ⟨i, hle, hi⟩ := h (k + 1)
  obtain ⟨m, rfl⟩ := Nat.exists_eq_succ_of_ne_zero (Nat.ne_of_gt (Nat.zero_lt_of_lt hle))
  exact ⟨m, Nat.le_of_succ_le_succ hle, hi⟩

theorem Recurs.drop (h : Recurs hit x) (k : ℕ) : Recurs hit fun i => x (k + i) := fun k' => by
  obtain ⟨i, hle, hi⟩ := h (k + k')
  refine ⟨i - k, by omega, ?_⟩
  dsimp only
  rwa [Nat.add_sub_cancel' (by omega)]

/-- The first one gets nearer with each number that is none. -/
theorem Recurs.firstHit_tail (h : Recurs hit x) (hne : ¬ hit (x 0)) :
    (firstHit hit fun i => x (i + 1)) < firstHit hit x := by
  have hmem : firstHit hit x ∈ {i | hit (x i)} := by
    obtain ⟨i, _, hi⟩ := h 0
    exact Nat.sInf_mem ⟨i, hi⟩
  obtain ⟨m, hm⟩ := Nat.exists_eq_succ_of_ne_zero fun hzero : firstHit hit x = 0 =>
    hne (hzero ▸ hmem)
  rw [hm] at hmem ⊢
  exact Nat.lt_succ_of_le (Nat.sInf_le hmem)

end Recurs

end FtlFirmware
