import FtlFirmware.Ftl.Steps

/-!
# The calls in terms of steps

A call of the host is a write or a trim, or it goes by elementary steps, or it leaves the NAND
device alone (`exec_cases`). So every call keeps what the operations of the NAND device keep
(`NandStable`, `exec_nand`).
-/

namespace FtlFirmware

namespace Ftl

variable {D : Set PageData} {E B : Set ℕ} {s s' : Ftl} {buf : PageData} {fuel lpn : ℕ} {ret : RetCode}
  {call : Call} {a : Answer}

/-! ## Trimming -/

/-- Trimming a logical page invalidates its page, if any, and logs it. -/
theorem trimPage_nand {i : ℕ} (h : s.trimPage i = some s') :
    s'.nand = s.nand ∨ ∃ b p, s'.nand = (s.nand.markPageInvalid b p).2 := by
  rw [trimPage] at h
  split at h
  · simp at h
  · cases hl : s.l2pTable i with
    | none =>
      rw [hl] at h
      obtain rfl := Option.some_inj.1 h
      exact Or.inl rfl
    | some ppn =>
      obtain ⟨files, sequence, number, hentry⟩ := s.walLog_ok (trimEntry i (s.l2pTable i))
      rw [hl] at h
      dsimp only at h
      split at h
      · simp at h
      · rw [walLogTrim, hentry] at h
        obtain rfl := Option.some_inj.1 h
        exact Or.inr ⟨_, _, rfl⟩

/-- Trimming a logical page takes it out of the map. -/
theorem trimPage_l2pTable {i : ℕ} (h : s.trimPage i = some s') :
    s'.l2pTable = Function.update s.l2pTable i none := by
  rw [trimPage] at h
  split at h
  · simp at h
  · cases hl : s.l2pTable i with
    | none =>
      rw [hl] at h
      obtain rfl := Option.some_inj.1 h
      rw [← hl, Function.update_eq_self]
    | some ppn =>
      obtain ⟨files, sequence, number, hentry⟩ := s.walLog_ok (trimEntry i (s.l2pTable i))
      rw [hl] at h
      dsimp only at h
      split at h
      · simp at h
      · rw [walLogTrim, hentry] at h
        obtain rfl := Option.some_inj.1 h
        rfl

/-- Trimming logical pages takes them out of the map. -/
theorem foldlM_trimPage_l2pTable {pages : List ℕ} (h : pages.foldlM trimPage s = some s') (i : ℕ) :
    s'.l2pTable i = if i ∈ pages then none else s.l2pTable i := by
  induction pages generalizing s with
  | nil =>
    obtain rfl := Option.some_inj.1 h
    exact (if_neg List.not_mem_nil).symm
  | cons j pages ih =>
    rw [List.foldlM_cons] at h
    obtain ⟨s₁, hfirst, hrest⟩ := Option.bind_eq_some_iff.1 h
    rw [ih hrest, trimPage_l2pTable hfirst, Function.update_apply]
    by_cases hi : i = j
    · rw [if_pos hi, if_pos (List.mem_cons.2 (Or.inl hi)), ite_self]
    · rw [if_neg hi]
      simp only [List.mem_cons, hi, false_or]

/-- What invalidating a page keeps is kept by a trim. -/
theorem trim_invariant {P : Nand → Prop} {lpn count : UInt32}
    (h : s.trim lpn count = some (ret, s')) (hs : P s.nand)
    (hP : ∀ n b p, P n → P (n.markPageInvalid b p).2) : P s'.nand := by
  rcases trim_cases h with rfl | ⟨s₁, hpages, rfl⟩
  · exact hs
  · refine foldlM_invariant (P := fun s => P s.nand) hpages hs fun i _ s s' hs hpage => ?_
    rcases trimPage_nand hpage with heq | ⟨b, p, heq⟩ <;> rw [heq]
    · exact hs
    · exact hP _ b p hs

/-! ## All calls -/

/-- A call is a write or a trim, or it goes by steps, or it leaves the NAND device alone. -/
theorem exec_cases (h : s.exec fuel call = some (a, s')) :
    (∃ lpn buf ret, call = .write lpn buf ∧ s.write fuel lpn buf = some (ret, s')) ∨
      (∃ lpn count ret, call = .trim lpn count ∧ s.trim lpn count = some (ret, s')) ∨
        Reaches ∅ Set.univ Set.univ s s' ∨ s'.nand = s.nand := by
  cases call with
  | read lpn buf =>
    obtain ⟨_, rfl⟩ := Prod.mk.inj (Option.some_inj.1 h)
    exact Or.inr (Or.inr (Or.inl (read_reaches lpn buf)))
  | write lpn buf =>
    obtain ⟨⟨ret, s₁⟩, hwrite, heq⟩ := Option.map_eq_some_iff.1 h
    obtain ⟨_, rfl⟩ := Prod.mk.inj heq
    exact Or.inl ⟨lpn, buf, ret, rfl, hwrite⟩
  | trim lpn count =>
    obtain ⟨⟨ret, s₁⟩, htrim, heq⟩ := Option.map_eq_some_iff.1 h
    obtain ⟨_, rfl⟩ := Prod.mk.inj heq
    exact Or.inr (Or.inl ⟨lpn, count, ret, rfl, htrim⟩)
  | setGcAlgo algo =>
    obtain ⟨_, rfl⟩ := Prod.mk.inj (Option.some_inj.1 h)
    exact Or.inr (Or.inr (Or.inr rfl))
  | triggerGc =>
    obtain ⟨_, rfl⟩ := Prod.mk.inj (Option.some_inj.1 h)
    exact Or.inr (Or.inr (Or.inl triggerGc_reaches))
  | setMapMode mode =>
    obtain ⟨_, rfl⟩ := Prod.mk.inj (Option.some_inj.1 h)
    refine Or.inr (Or.inr (Or.inr ?_))
    rw [setMapMode]
    split <;> rfl
  | hotColdMigration =>
    obtain ⟨⟨ret, s₁⟩, hmigrate, heq⟩ := Option.map_eq_some_iff.1 h
    obtain ⟨_, rfl⟩ := Prod.mk.inj heq
    exact Or.inr (Or.inr (Or.inr (hotColdMigration_same hmigrate).nand))
  | handleReadDisturb =>
    obtain ⟨_, rfl⟩ := Prod.mk.inj (Option.some_inj.1 h)
    have hreach : Reaches ∅ userArea ∅ s s.handleReadDisturb.2 := handleReadDisturb_reaches
    exact Or.inr (Or.inr (Or.inl hreach.univ))
  | replaceBadBlock block =>
    obtain ⟨_, rfl⟩ := Prod.mk.inj (Option.some_inj.1 h)
    exact Or.inr (Or.inr (Or.inl (.replace (Set.mem_univ block))))
  | saveSnapshot path =>
    obtain ⟨_, rfl⟩ := Prod.mk.inj (Option.some_inj.1 h)
    refine Or.inr (Or.inr (Or.inr ?_))
    rw [saveSnapshot]
    split <;> rfl
  | walInit path =>
    obtain ⟨_, rfl⟩ := Prod.mk.inj (Option.some_inj.1 h)
    exact Or.inr (Or.inr (Or.inr rfl))
  | walEnable enable =>
    obtain ⟨_, rfl⟩ := Prod.mk.inj (Option.some_inj.1 h)
    exact Or.inr (Or.inr (Or.inr rfl))
  | walClear =>
    obtain ⟨_, rfl⟩ := Prod.mk.inj (Option.some_inj.1 h)
    refine Or.inr (Or.inr (Or.inr ?_))
    rw [walClear]
    split <;> rfl

/-! ## What the NAND device keeps -/

/-- What all operations of the NAND device keep. -/
structure NandStable (P : Nand → Prop) : Prop where
  pageRead : ∀ (n : Nand) (b p : ℕ) (buf : PageData), P n → P (n.pageRead b p buf).2.2
  pageWrite : ∀ (n : Nand) (b p : ℕ) (buf : PageData), P n → P (n.pageWrite b p buf).2
  markPageInvalid : ∀ (n : Nand) (b p : ℕ), P n → P (n.markPageInvalid b p).2
  blockErase : ∀ (n : Nand) (b : ℕ), P n → P (n.blockErase b).2
  markColdBlock : ∀ (n : Nand) (b : ℕ), P n → P (n.markColdBlock b).2
  replaceBadBlock : ∀ (n : Nand) (b : ℕ), P n → P (n.replaceBadBlock b).2

section Stable

variable {P : Nand → Prop} (hP : NandStable P)
include hP

/-- It is kept by the steps of the device. -/
theorem Reaches.nand (h : Reaches D E B s s') (hs : P s.nand) : P s'.nand := by
  obtain ⟨_, hend⟩ := h.invariant (P := fun x => P x.1.nand) hs fun x y hx hstep => by
    cases hstep with
    | books hsame => exact hsame.nand ▸ hx
    | clear => exact hx
    | load _ => exact hx
    | alloc halloc =>
      rcases allocPhyPage_cases halloc with ⟨_, _, rfl⟩ | ⟨_, _, _, _, rfl⟩
      · exact hx
      · exact hx
    | read b p => exact hP.pageRead _ b p _ hx
    | write p _ => exact hP.pageWrite _ _ p _ hx
    | invalidate p _ => exact hP.markPageInvalid _ _ p hx
    | erase _ => exact hP.blockErase _ _ hx
    | markCold _ => exact hP.markColdBlock _ _ hx
    | @replace s₁ _ b _ =>
      rcases replaceBadBlock_nand s₁ b with heq | heq <;> dsimp only <;> rw [heq]
      · exact hx
      · exact hP.replaceBadBlock _ b hx
  exact hend

theorem write_nand (hs : P s.nand) (h : s.write fuel lpn buf = some (ret, s')) :
    P s'.nand := by
  rcases write_steps (Set.mem_singleton buf) h with ⟨_, hsteps⟩ |
    ⟨_, s₁, taken, s₂, hsteps, hprogram, hend⟩
  · exact hsteps.nand hP hs
  · obtain ⟨files, sequence, number, hlog⟩ :=
      s₁.walLog_ok (writeEntry lpn (s₁.l2pTable lpn) taken)
    rw [walLogWrite, hlog] at hprogram
    have hcollected : P s₁.nand := hsteps.nand hP hs
    have hwritten : P s₂.nand := hprogram.nand hP hcollected
    rcases hend with ⟨_, rfl⟩ | ⟨_, ppn, s₃, hcommit, hwear⟩
    · exact hwritten
    · refine Reaches.nand hP hwear ?_
      rcases commitWrite_same hcommit with hsame | ⟨old, _, hsame⟩ <;> rw [hsame.nand]
      · exact hwritten
      · exact hP.markPageInvalid _ _ _ hwritten

/-- It is kept by every call. -/
theorem exec_nand (hs : P s.nand)
    (h : s.exec fuel call = some (a, s')) : P s'.nand := by
  rcases exec_cases h with ⟨lpn, buf, ret, rfl, hwrite⟩ | ⟨lpn, count, ret, rfl, htrim⟩ |
    hsteps | hnand
  · exact write_nand hP hs hwrite
  · exact trim_invariant htrim hs hP.markPageInvalid
  · exact hsteps.nand hP hs
  · exact hnand ▸ hs

end Stable

end Ftl

end FtlFirmware
