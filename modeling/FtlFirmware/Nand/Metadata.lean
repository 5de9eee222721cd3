import FtlFirmware.Lib.Run
import FtlFirmware.Nand.Effect

/-!
# The metadata of the blocks

The calls that the FTL makes to the NAND module (`NandCall`), and how the device answers them: a
machine, whose states are *consistent* if every block that is not bad is counted exactly
(`Consistent`). All calls keep a device consistent, except for one: marking a block as cold lowers
its counter, unless this is 1 or 0 already (`LowersNoCounter`).

The runs whose states are all consistent, so that no counter wraps (`Tallied`), are those whose
calls lower no counter (`run_tallied_iff`).
-/

namespace FtlFirmware

/-- The calls to the NAND module. -/
inductive NandCall
  | pageRead (block page : ℕ) (buf : PageData)
  | pageWrite (block page : ℕ) (buf : PageData)
  | markPageInvalid (block page : ℕ)
  | blockErase (block : ℕ)
  | markColdBlock (block : ℕ)
  | markBlockBad (block : ℕ) (type : BadBlockType)
  | allocReservedBlock
  | replaceBadBlock (block : ℕ)

namespace Nand

/-- The answer of a call that may answer with a block, without the block. -/
def answer (r : Except RetCode ℕ × Nand) : RetCode × Nand :=
  (match r.1 with
    | .ok _ => .ok
    | .error ret => ret, r.2)

/-- Executes a call. -/
def exec (n : Nand) : NandCall → RetCode × Nand
  | .pageRead block page buf => let r := n.pageRead block page buf; (r.1, r.2.2)
  | .pageWrite block page buf => n.pageWrite block page buf
  | .markPageInvalid block page => n.markPageInvalid block page
  | .blockErase block => n.blockErase block
  | .markColdBlock block => n.markColdBlock block
  | .markBlockBad block type => n.markBlockBad block type
  | .allocReservedBlock => answer n.allocReservedBlock
  | .replaceBadBlock block => answer (n.replaceBadBlock block)

/-- The device as a machine. -/
def machine : Machine Nand NandCall RetCode where
  step n call ret n' := n.exec call = (ret, n')

/-- A run of the device, in which every call meets the condition `allowed`. -/
abbrev Run (allowed : Nand → NandCall → Prop) : Nand → List (NandCall × RetCode) → Nand → Prop :=
  machine.Run allowed

/-- Every block that is not bad is counted exactly: its counter is the number of its valid pages,
    and it is free if and only if there are none. -/
def Consistent (n : Nand) : Prop :=
  ∀ b < totalBlocks, (n.blocks b).state ≠ .bad → (n.blocks b).Exact

/-- The call does not lower a counter: it does not mark a used block with more than one valid page,
    as counted, as cold. -/
def LowersNoCounter (n : Nand) : NandCall → Prop
  | .markColdBlock block =>
    n.getBlockState block = .used → (n.blocks block).validPageCnt.toNat ≤ 1
  | _ => True

variable {n n' : Nand} {b p : ℕ} {d : PageData} {blk : PhyBlock}

namespace Consistent

/-- New metadata of one block. -/
theorem setBlock (h : n.Consistent) (hblk : blk.state ≠ .bad → (n.blocks b).Exact → blk.Exact)
    (hbad : blk.state ≠ .bad → (n.blocks b).state ≠ .bad) : (n.setBlock b blk).Consistent := by
  intro b' hb' hgood
  rw [setBlock_blocks] at hgood ⊢
  rcases eq_or_ne b' b with rfl | hne
  · rw [Function.update_self] at hgood ⊢
    exact hblk hgood (h b' hb' (hbad hgood))
  · rw [Function.update_of_ne hne] at hgood ⊢
    exact h b' hb' hgood

/-- The consistency is one of the metadata only. -/
theorem congr (h : n.Consistent) (hblocks : n'.blocks = n.blocks) : n'.Consistent := by
  intro b hb hgood
  rw [hblocks] at hgood ⊢
  exact h b hb hgood

/-- Reading a page. -/
theorem countRead (h : n.Consistent) (ecc : EccResult) : (n.countRead b ecc).Consistent :=
  (h.setBlock (b := b) (fun _ => .countRead) id).congr rfl

/-- Programming a page. -/
theorem program (h : n.Consistent) (hacc : n.Accessible b p)
    (hv : (n.blocks b).pageValid p = false) : (n.program b p d).Consistent :=
  (h.setBlock (b := b) (fun _ hex => hex.program hacc.page_lt hv) fun _ => hacc.good).congr rfl

/-- Writing a page. -/
theorem pageWrite (h : n.Consistent) (b p : ℕ) (d : PageData) :
    (n.pageWrite b p d).2.Consistent := by
  rcases n.pageWrite_cases b p d with ⟨hacc, hv, heq⟩ | ⟨_, _, heq, _⟩ <;> rw [heq]
  · exact h.program hacc hv
  · exact h

/-- Reading a page. -/
theorem pageRead (h : n.Consistent) (b p : ℕ) (d : PageData) :
    (n.pageRead b p d).2.2.Consistent := by
  rcases n.pageRead_cases b p d with ⟨_, _, heq⟩ | ⟨_, _, heq, _⟩ <;> rw [heq]
  · exact h.countRead _
  · exact h

/-- Invalidating a page. -/
theorem markPageInvalid (h : n.Consistent) (b p : ℕ) : (n.markPageInvalid b p).2.Consistent := by
  rcases n.markPageInvalid_cases b p with ⟨hacc, hv, heq⟩ | heq <;> rw [heq]
  · exact h.setBlock (fun _ hex => hex.invalidate hacc.page_lt hv) fun _ => hacc.good
  · exact h

/-- Erasing a block, with any outcome. -/
theorem blockErase (h : n.Consistent) (b : ℕ) : (n.blockErase b).2.Consistent := by
  rcases n.blockErase_cases b with ⟨r, hgood, heq⟩ | ⟨r, _, _, heq⟩ | ⟨_, _, heq, _⟩ <;> rw [heq]
  · exact (h.setBlock (b := b) (fun _ _ => .erase) fun _ => hgood).congr rfl
  · exact (h.setBlock (b := b) (fun hgood _ => absurd rfl hgood) fun hgood =>
      absurd rfl hgood).congr rfl
  · exact h

/-- Marking a block as cold, if this does not lower its counter. -/
theorem markColdBlock (h : n.Consistent)
    (hcnt : n.getBlockState b = .used → (n.blocks b).validPageCnt.toNat ≤ 1) :
    (n.markColdBlock b).2.Consistent := by
  rw [Nand.markColdBlock]
  split
  · exact h
  · next hvalid =>
    split
    · exact h
    · next hused =>
      have hle := hcnt ((getBlockState_eq (by decide)).2 ⟨not_not.1 hvalid, not_not.1 hused⟩)
      refine h.setBlock (fun _ hex => hex.markCold_iff.2 (Nat.not_lt.2 hle)) fun hgood => ?_
      rwa [PhyBlock.markCold_state] at hgood

/-- Marking a block as bad. -/
theorem retire (h : n.Consistent) (b : ℕ) (type : BadBlockType) :
    (n.retire b type).Consistent :=
  (h.setBlock (b := b) (fun hgood _ => absurd rfl hgood) fun hgood => absurd rfl hgood).congr rfl

/-- Copying pages. -/
theorem copyPages (h : n.Consistent) (src dst : ℕ) (buf : PageData) (pages : List ℕ) :
    (n.copyPages src dst buf pages).Consistent := by
  induction pages generalizing n buf with
  | nil => exact h
  | cons page pages ih =>
    rcases n.copyPages_cons src dst page pages buf with ⟨_, _, hcopy⟩ | ⟨_, hcopy⟩ <;> rw [hcopy]
    · exact ih ((h.countRead _).pageWrite dst page _) _
    · exact ih h buf

/-- Taking a block of the reserved area. -/
theorem allocReservedBlock (h : n.Consistent) : n.allocReservedBlock.2.Consistent := by
  rcases n.allocReservedBlock_cases with ⟨_, _, _, _, heq⟩ | ⟨_, heq⟩ <;> rw [heq]
  · exact h.congr rfl
  · exact h

/-- Replacing a block. -/
theorem replaceBadBlock (h : n.Consistent) (b : ℕ) : (n.replaceBadBlock b).2.Consistent := by
  rcases n.replaceBadBlock_cases b with
    ⟨_, heq⟩ | ⟨r, _, _, _, _, _, ⟨_, heq⟩ | ⟨_, heq⟩⟩ <;> rw [heq]
  · exact h
  · have h₀ : Consistent { n with reservedCount := n.reservedCount - 1 } := h.congr rfl
    exact (h₀.copyPages b r blankPage _).retire b .wear
  · exact h.congr rfl

/-- A call that does not lower a counter. -/
theorem exec (h : n.Consistent) {call : NandCall} (hcall : n.LowersNoCounter call) :
    (n.exec call).2.Consistent := by
  cases call with
  | pageRead b p d => exact h.pageRead b p d
  | pageWrite b p d => exact h.pageWrite b p d
  | markPageInvalid b p => exact h.markPageInvalid b p
  | blockErase b => exact h.blockErase b
  | markColdBlock b => exact h.markColdBlock hcall
  | markBlockBad b type =>
    simp only [Nand.exec, markBlockBad]
    split
    · exact h
    · exact h.retire b type
  | allocReservedBlock => exact h.allocReservedBlock
  | replaceBadBlock b => exact h.replaceBadBlock b

end Consistent

/-- The recovery of pages that are not valid yet keeps the count of a block exact. -/
theorem exact_foldl_recoverPage {oob : ℕ → Oob} {pages : List ℕ} (h : blk.Exact)
    (hlt : ∀ p ∈ pages, p < pagesPerBlock) (hv : ∀ p ∈ pages, blk.pageValid p = false)
    (hnd : pages.Nodup) : (pages.foldl (recoverPage oob) blk).Exact := by
  induction pages generalizing blk with
  | nil => exact h
  | cons page pages ih =>
    rw [List.nodup_cons] at hnd
    rw [List.foldl_cons, recoverPage]
    split
    · refine ih (h.program (hlt page List.mem_cons_self) (hv page List.mem_cons_self))
        (fun p hp => hlt p (List.mem_cons_of_mem _ hp)) (fun p hp => ?_) hnd.2
      have hne : p ≠ page := fun heq => hnd.1 (heq ▸ hp)
      rw [PhyBlock.program_pageValid, Function.update_of_ne hne]
      exact hv p (List.mem_cons_of_mem _ hp)
    · exact ih h (fun p hp => hlt p (List.mem_cons_of_mem _ hp))
        (fun p hp => hv p (List.mem_cons_of_mem _ hp)) hnd.2

/-- The metadata of a block that has been recovered. -/
theorem exact_recoverBlock (oob : ℕ → Oob) : (recoverBlock oob).Exact := by
  rw [recoverBlock]
  exact exact_foldl_recoverPage .fresh (fun _ hp => List.mem_range.1 hp) (fun _ _ => rfl)
    List.nodup_range

/-- The device is consistent when it is powered on. -/
theorem consistent_init (media : Option Media) (rand : ℕ → ℕ) :
    (Nand.init media rand).Consistent := by
  intro b _ hgood
  cases media with
  | none =>
    rw [init_none_blocks] at hgood ⊢
    dsimp only at hgood ⊢
    rw [factoryBlock] at hgood ⊢
    split
    · next hlt =>
      rw [if_pos hlt] at hgood
      exact absurd rfl hgood
    · exact .fresh
  | some m =>
    rw [init_some_blocks]
    exact exact_recoverBlock _

/-! ## The runs that keep the count -/

/-- The valid pages are counted: every block that is not bad has their number as its counter and is
    free if there are none, and used otherwise. So no counter is lowered below 0 when a valid page
    is invalidated. -/
structure Tallied (n : Nand) : Prop where
  count : ∀ b < totalBlocks, (n.blocks b).state ≠ .bad →
    (n.blocks b).validPageCnt.toNat = (n.blocks b).validPages.card
  state : ∀ b < totalBlocks, (n.blocks b).state ≠ .bad →
    (n.blocks b).state = if (n.blocks b).validPages.card = 0 then .free else .used
  noWrap : ∀ b p, n.Accessible b p → (n.blocks b).pageValid p →
    0 < (n.blocks b).validPageCnt.toNat

/-- The device is consistent if its valid pages are counted. -/
theorem Tallied.consistent (h : n.Tallied) : n.Consistent := by
  intro b hb hgood
  refine ⟨h.count b hb hgood, ?_⟩
  rw [h.state b hb hgood]
  split
  · next hcard => exact iff_of_true rfl hcard
  · next hcard => exact iff_of_false BlockState.noConfusion hcard

/-- The valid pages are counted if the device is consistent. -/
theorem Consistent.tallied (h : n.Consistent) : n.Tallied where
  count b hb hgood := (h b hb hgood).count
  state b hb hgood := by
    split
    · next hcard => exact (h b hb hgood).free_iff.2 hcard
    · next hcard =>
      cases hs : (n.blocks b).state with
      | free => exact absurd ((h b hb hgood).free_iff.1 hs) hcard
      | used => rfl
      | bad => exact absurd hs hgood
  noWrap b p hacc hv := by
    have hb := (isBlockValid_iff.1 hacc.blockValid).1
    rw [(h b hb hacc.good).count]
    exact Finset.card_pos.2 ⟨p, PhyBlock.mem_validPages.2 ⟨hacc.page_lt, hv⟩⟩

/-- A call keeps the count if and only if it does not lower a counter. -/
theorem Tallied.exec_iff (h : n.Tallied) (call : NandCall) :
    (n.exec call).2.Tallied ↔ n.LowersNoCounter call := by
  refine ⟨fun h' => ?_, fun hcall => (h.consistent.exec hcall).tallied⟩
  cases call with
  | markColdBlock b =>
    intro hstate
    obtain ⟨hvalid, hused⟩ := (getBlockState_eq (by decide)).1 hstate
    have hb := (isBlockValid_iff.1 hvalid).1
    have hgood : (n.blocks b).state ≠ .bad := by
      rw [hused]
      exact BlockState.noConfusion
    have hmark : (n.exec (.markColdBlock b)).2.blocks b = (n.blocks b).markCold := by
      rw [Nand.exec, Nand.markColdBlock, if_neg (not_not.2 hvalid), if_neg (not_not.2 hused),
        setBlock_blocks, Function.update_self]
    have hexact := h'.consistent b hb
    rw [hmark, PhyBlock.markCold_state] at hexact
    exact Nat.not_lt.1 ((h.consistent b hb hgood).markCold_iff.1 (hexact hgood))
  | _ => exact True.intro

/-- Whether the device has new media or recovers from old ones, its valid pages are counted when it
    is powered on. They stay so in all states of a run if and only if no call of the run lowers a
    counter. -/
theorem run_tallied_iff (media : Option Media) (rand : ℕ → ℕ) (tr : List (NandCall × RetCode)) :
    (Nand.init media rand).Tallied ∧
      (Run (fun n call => (n.exec call).2.Tallied) (Nand.init media rand) tr n ↔
        Run LowersNoCounter (Nand.init media rand) tr n) := by
  have h₀ := (consistent_init media rand).tallied
  -- Every state of the run is counted, and so each of its calls is made in such a state.
  refine ⟨h₀, fun hrun => ?_, fun hrun => ?_⟩
  · refine hrun.mono_of_invariant h₀ ?_ fun n call h => (h.exec_iff call).1
    rintro n call ret n' - hcall hstep
    rwa [show n.exec call = (ret, n') from hstep] at hcall
  · refine hrun.mono_of_invariant h₀ ?_ fun n call h => (h.exec_iff call).2
    rintro n call ret n' h hcall hstep
    have h' := (h.exec_iff call).2 hcall
    rwa [show n.exec call = (ret, n') from hstep] at h'

end Nand

end FtlFirmware
