import Mathlib.Data.List.Range

/-!
# Loops that stop when a pass fails

A loop makes a pass for each of some numbers in turn, until one of them fails (`Passes.run`). The
passes that it begins are `Passes.begun`, each with the state before it.

* `mem_begun`: all passes before one that is begun have succeeded;
* `run_true`: a loop that succeeds has made all of its passes;
* `exists_begun`, `exists_run`: what each pass leads to, as long as they succeed.
-/

namespace FtlFirmware

namespace Passes

variable {σ : Type*} (pass : ℕ → σ → Option (Bool × σ))

/-- Makes the passes in turn, until one fails. A pass may never end. -/
def run : List ℕ → σ → Option (Bool × σ)
  | [], s => some (true, s)
  | i :: is, s => (pass i s).bind fun r => if r.1 then run is r.2 else some r

/-- The passes that are begun, each with the state before it. -/
def begun : List ℕ → σ → List (ℕ × σ)
  | [], _ => []
  | i :: is, s =>
    (i, s) :: match pass i s with
      | some (true, s) => begun is s
      | _ => []

variable {pass} {s s' : σ} {k m i : ℕ}

/-- Before a pass is begun, the ones before have succeeded. -/
theorem mem_begun {valid : ℕ → Prop} (hvalid : ∀ i s s', pass i s = some (true, s') → valid i)
    {x : ℕ × σ} (hx : x ∈ begun pass (List.range' k m) s) :
    k ≤ x.1 ∧ x.1 < k + m ∧ ∀ j, k ≤ j → j < x.1 → valid j := by
  induction m generalizing k s with
  | zero => exact absurd hx List.not_mem_nil
  | succ m ih =>
    rw [List.range'_succ, begun] at hx
    rcases List.mem_cons.1 hx with rfl | hx
    · exact ⟨Nat.le_refl _, Nat.lt_add_of_pos_right (Nat.succ_pos m),
        fun j hle hlt => absurd hlt (Nat.not_lt.2 hle)⟩
    · split at hx
      · next s' hpass =>
        obtain ⟨hle, hlt, hbefore⟩ := ih hx
        refine ⟨Nat.le_of_succ_le hle, by omega, fun j hj hjx => ?_⟩
        rcases Nat.eq_or_lt_of_le hj with rfl | hj
        · exact hvalid _ _ _ hpass
        · exact hbefore j hj hjx
      · exact absurd hx List.not_mem_nil

theorem lt_of_mem_begun {x : ℕ × σ} (hx : x ∈ begun pass (List.range m) s) : x.1 < m := by
  have hvalid : ∀ i s s', pass i s = some (true, s') → True := fun _ _ _ _ => trivial
  rw [List.range_eq_range'] at hx
  have hlt := (mem_begun hvalid hx).2.1
  rwa [Nat.zero_add] at hlt

/-- If a loop succeeds, all its passes have been made, and have succeeded. -/
theorem run_true {valid : ℕ → Prop} (hvalid : ∀ i s s', pass i s = some (true, s') → valid i)
    (h : run pass (List.range' k m) s = some (true, s')) :
    (begun pass (List.range' k m) s).map Prod.fst = List.range' k m ∧
      ∀ j, k ≤ j → j < k + m → valid j := by
  induction m generalizing k s with
  | zero => exact ⟨rfl, fun j hle hlt => absurd hlt (Nat.not_lt.2 hle)⟩
  | succ m ih =>
    rw [List.range'_succ, run] at h
    rw [List.range'_succ, begun]
    obtain ⟨⟨ok, s₁⟩, hpass, hrest⟩ := Option.bind_eq_some_iff.1 h
    cases ok with
    | false => simp at hrest
    | true =>
      obtain ⟨hbegun, hafter⟩ := ih hrest
      rw [hpass]
      refine ⟨by rw [List.map_cons, hbegun], fun j hj hjm => ?_⟩
      rcases Nat.eq_or_lt_of_le hj with rfl | hj
      · exact hvalid _ _ _ hpass
      · exact hafter j hj (by omega)

/-- As long as the passes succeed, the next one is begun. -/
theorem exists_begun {P : ℕ → σ → Prop} (hki : k ≤ i) (him : i < k + m)
    (hpass : ∀ j < i, ∀ s, P j s → ∃ s', pass j s = some (true, s') ∧ P (j + 1) s') (h : P k s) :
    ∃ s', P i s' ∧ (i, s') ∈ begun pass (List.range' k m) s := by
  induction m generalizing k s with
  | zero => exact absurd him (Nat.not_lt.2 hki)
  | succ m ih =>
    rw [List.range'_succ, begun]
    rcases Nat.eq_or_lt_of_le hki with rfl | hlt
    · exact ⟨s, h, List.mem_cons_self⟩
    · obtain ⟨s₁, hfirst, h₁⟩ := hpass k hlt s h
      obtain ⟨s', hi, hmem⟩ := ih hlt (by omega) h₁
      rw [hfirst]
      exact ⟨s', hi, List.mem_cons_of_mem _ hmem⟩

/-- A loop whose passes all succeed does so, too. -/
theorem exists_run {P : ℕ → σ → Prop}
    (hpass : ∀ j < k + m, ∀ s, P j s → ∃ s', pass j s = some (true, s') ∧ P (j + 1) s')
    (h : P k s) : ∃ s', run pass (List.range' k m) s = some (true, s') := by
  induction m generalizing k s with
  | zero => exact ⟨s, rfl⟩
  | succ m ih =>
    obtain ⟨s₁, hfirst, h₁⟩ := hpass k (by omega) s h
    obtain ⟨s', hrest⟩ := ih (fun j hj => hpass j (by omega)) h₁
    refine ⟨s', ?_⟩
    rw [List.range'_succ, run, hfirst]
    exact hrest

end Passes

end FtlFirmware
