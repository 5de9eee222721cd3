import Mathlib.Data.List.Basic

/-!
# Scanning for the best entry

The loops that look for the entry of a list with the best score: they keep the best score so
far, from a starting bound on, and the entry that has it, and an entry takes over when its score
is better (`scan`).

* `scan_mem`: the entry found is one of the list;
* `scan_score`: its score is the best score;
* `scan_of_not_better`: no entry is found if none beats the bound;
* `scan_eq`: an entry is found if it beats the bound and all other entries;
* `scan_isSome`: some entry is found if and only if one beats the bound;
* `Ranks.scan_best`: no entry beats the best score, when the comparison is an order (`Ranks`);
* `Ranks.scan_first`: then the entry found is the first one with the best score.
-/

namespace FtlFirmware

variable {ι β : Type*} {better : β → β → Bool} {score : ι → β} {acc : β × Option ι}

/-- One step of the scan: `i` takes over if its score is better. -/
def scanStep (better : β → β → Bool) (score : ι → β) (acc : β × Option ι) (i : ι) :
    β × Option ι :=
  if better (score i) acc.1 then (score i, some i) else acc

/-- The best score and the entry that has it, starting from the bound `bound` and no entry. -/
def scan (better : β → β → Bool) (score : ι → β) (bound : β) (l : List ι) : β × Option ι :=
  l.foldl (scanStep better score) (bound, none)

/-- What a scan carries along: the entry comes from the list or was there before, with its
    score. -/
theorem foldl_scanStep (better : β → β → Bool) (score : ι → β) (l : List ι) (acc : β × Option ι) :
    l.foldl (scanStep better score) acc = acc ∨
      ∃ i ∈ l, l.foldl (scanStep better score) acc = (score i, some i) := by
  induction l generalizing acc with
  | nil => exact Or.inl rfl
  | cons x l ih =>
    rw [List.foldl_cons]
    rcases ih (scanStep better score acc x) with h | ⟨i, hi, h⟩
    · rw [h, scanStep]
      split
      · exact Or.inr ⟨x, List.mem_cons_self, rfl⟩
      · exact Or.inl rfl
    · exact Or.inr ⟨i, List.mem_cons_of_mem _ hi, h⟩

variable {bound : β} {l : List ι} {i : ι}

/-- The entry found is one of the list. -/
theorem scan_mem (h : (scan better score bound l).2 = some i) : i ∈ l := by
  rcases foldl_scanStep better score l (bound, none) with h' | ⟨j, hj, h'⟩
  · rw [scan, h'] at h
    exact absurd h.symm (Option.some_ne_none _)
  · rw [scan, h', Option.some_inj] at h
    rwa [← h]

/-- The best score is the score of the entry found. -/
theorem scan_score (h : (scan better score bound l).2 = some i) :
    (scan better score bound l).1 = score i := by
  rcases foldl_scanStep better score l (bound, none) with h' | ⟨j, _, h'⟩
  · rw [scan, h'] at h
    exact absurd h.symm (Option.some_ne_none _)
  · rw [scan, h', Option.some_inj] at h
    rw [scan, h', ← h]

/-- Nothing is found if no entry beats the bound. -/
theorem scan_of_not_better (h : ∀ i ∈ l, better (score i) bound = false) :
    scan better score bound l = (bound, none) := by
  induction l with
  | nil => rfl
  | cons x l ih =>
    rw [scan, List.foldl_cons, scanStep, h x List.mem_cons_self]
    exact ih fun i hi => h i (List.mem_cons_of_mem _ hi)

/-- An entry is found if it beats the bound and all other entries, which do not beat it. -/
theorem scan_eq (hi : i ∈ l) (hbound : better (score i) bound)
    (hself : better (score i) (score i) = false)
    (hbest : ∀ j ∈ l, j ≠ i → better (score i) (score j) ∧ better (score j) (score i) = false) :
    scan better score bound l = (score i, some i) := by
  -- The entry takes over from any worse score, and then stays.
  have hstay {l : List ι} (hl : ∀ j ∈ l, j ≠ i → better (score j) (score i) = false) :
      l.foldl (scanStep better score) (score i, some i) = (score i, some i) := by
    induction l with
    | nil => rfl
    | cons x l ih =>
      have hx : better (score x) (score i) = false := by
        by_cases hxi : x = i
        · rw [hxi, hself]
        · exact hl x List.mem_cons_self hxi
      rw [List.foldl_cons, scanStep, hx]
      exact ih fun j hj => hl j (List.mem_cons_of_mem _ hj)
  have htake (acc : β × Option ι) (hacc : better (score i) acc.1) :
      l.foldl (scanStep better score) acc = (score i, some i) := by
    induction l generalizing acc with
    | nil => exact absurd hi List.not_mem_nil
    | cons x l ih =>
      have hbest' : ∀ j ∈ l, j ≠ i → better (score i) (score j) ∧ better (score j) (score i) = false :=
        fun j hj => hbest j (List.mem_cons_of_mem _ hj)
      rw [List.foldl_cons, scanStep]
      by_cases hxi : x = i
      · rw [hxi, if_pos hacc]
        exact hstay fun j hj hji => (hbest' j hj hji).2
      · refine ih ((List.mem_cons.1 hi).resolve_left (Ne.symm hxi)) hbest' _ ?_
        split
        · exact (hbest x List.mem_cons_self hxi).1
        · exact hacc
  exact htake _ hbound

/-- Some entry is found if and only if one beats the bound. -/
theorem scan_isSome (better : β → β → Bool) (score : ι → β) (bound : β) (l : List ι) :
    (scan better score bound l).2.isSome ↔ ∃ i ∈ l, better (score i) bound := by
  -- Once an entry has been found, there always is one.
  have hkeep (l : List ι) (i : ι) (b : β) :
      (l.foldl (scanStep better score) (b, some i)).2.isSome := by
    induction l generalizing i b with
    | nil => rfl
    | cons x l ih =>
      rw [List.foldl_cons, scanStep]
      split
      · exact ih x _
      · exact ih i b
  induction l with
  | nil => simp [scan]
  | cons x l ih =>
    rw [scan, List.foldl_cons, scanStep, List.exists_mem_cons_iff]
    split
    · next hx => simp [hkeep, hx]
    · next hx =>
      rw [or_iff_right hx]
      exact ih

/-- The comparison is an order of the scores, some of which may be equally good. -/
structure Ranks (better : β → β → Bool) : Prop where
  asymm : ∀ a b, better a b → better b a = false
  negTrans : ∀ a b c, better a c → better a b ∨ better b c

/-- Neither the bound nor an entry beats the best score. -/
theorem Ranks.scan_best (h : Ranks better) (score : ι → β) (bound : β) (l : List ι) :
    better bound (scan better score bound l).1 = false ∧
      ∀ i ∈ l, better (score i) (scan better score bound l).1 = false := by
  have hself (a : β) : better a a = false := by
    by_contra hne
    have haa := eq_true_of_ne_false hne
    exact hne (h.asymm a a haa)
  have hacc (acc : β × Option ι) :
      better acc.1 (l.foldl (scanStep better score) acc).1 = false ∧
        ∀ i ∈ l, better (score i) (l.foldl (scanStep better score) acc).1 = false := by
    induction l generalizing acc with
    | nil => exact ⟨hself acc.1, fun i hi => absurd hi List.not_mem_nil⟩
    | cons x l ih =>
      obtain ⟨hle, hl⟩ := ih (scanStep better score acc x)
      rw [List.foldl_cons]
      rw [scanStep] at hle hl ⊢
      split at hle
      · next hx =>
        rw [if_pos hx] at hl ⊢
        refine ⟨?_, fun i hi => (List.mem_cons.1 hi).elim (fun heq => heq ▸ hle) (hl i)⟩
        -- The bound is worse than the entry that takes over, which is not better than the best.
        by_contra hne
        rcases h.negTrans _ acc.1 _ hx with hxa | haa
        · have := h.negTrans _ (l.foldl (scanStep better score) (score x, some x)).1 _ hxa
          rw [hle] at this
          have hba := this.resolve_left Bool.false_ne_true
          exact hne (h.asymm _ _ hba)
        · rw [hself] at haa
          exact Bool.false_ne_true haa
      · next hx =>
        rw [if_neg hx] at hl ⊢
        refine ⟨hle, fun i hi => (List.mem_cons.1 hi).elim (fun heq => ?_) (hl i)⟩
        by_contra hne
        rcases h.negTrans _ acc.1 _ (eq_true_of_ne_false hne) with hxa | hab
        · exact hx (heq ▸ hxa)
        · rw [hle] at hab
          exact Bool.false_ne_true hab
  exact hacc (bound, none)

/-- The entry found beats every entry before it. -/
theorem Ranks.scan_first (h : Ranks better) (hi : (scan better score bound l).2 = some i) :
    ∃ l₁ l₂, l = l₁ ++ i :: l₂ ∧ ∀ j ∈ l₁, better (score i) (score j) := by
  -- The entry that is found in the end also beats what the scan started from.
  have hacc (acc : β × Option ι) : l.foldl (scanStep better score) acc = acc ∨
      ∃ l₁ k l₂, l = l₁ ++ k :: l₂ ∧ l.foldl (scanStep better score) acc = (score k, some k) ∧
        better (score k) acc.1 ∧ ∀ j ∈ l₁, better (score k) (score j) := by
    clear hi
    induction l generalizing acc with
    | nil => exact Or.inl rfl
    | cons x l ih =>
      rw [List.foldl_cons, scanStep]
      split
      · next hx =>
        rcases ih (score x, some x) with heq | ⟨l₁, k, l₂, rfl, heq, hk, hl₁⟩
        · exact Or.inr ⟨[], x, l, rfl, heq, hx, fun j hj => absurd hj List.not_mem_nil⟩
        · refine Or.inr ⟨x :: l₁, k, l₂, rfl, heq, ?_, List.forall_mem_cons.2 ⟨hk, hl₁⟩⟩
          rcases h.negTrans _ acc.1 _ hk with hka | hax
          · exact hka
          · rw [h.asymm _ _ hx] at hax
            exact absurd hax Bool.false_ne_true
      · next hx =>
        rcases ih acc with heq | ⟨l₁, k, l₂, rfl, heq, hk, hl₁⟩
        · exact Or.inl heq
        · exact Or.inr ⟨x :: l₁, k, l₂, rfl, heq, hk, List.forall_mem_cons.2
            ⟨(h.negTrans _ (score x) _ hk).resolve_right hx, hl₁⟩⟩
  rcases hacc (bound, none) with heq | ⟨l₁, k, l₂, hl, heq, _, hl₁⟩
  · rw [scan, heq] at hi
    exact absurd hi.symm (Option.some_ne_none _)
  · rw [scan, heq, Option.some_inj] at hi
    exact ⟨l₁, l₂, hi ▸ hl, hi ▸ hl₁⟩

/-- The only entry is found if it beats the bound. -/
theorem scan_singleton (better : β → β → Bool) (score : ι → β) (h : better (score i) bound = true) :
    scan better score bound [i] = (score i, some i) := by
  rw [scan, List.foldl_cons, List.foldl_nil, scanStep, h]
  rfl

end FtlFirmware
