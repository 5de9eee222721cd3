import FtlFirmware.Ftl.Contents
import FtlFirmware.Nand.Metadata

/-!
# Calm devices

On a *calm* device no block is bad, every block is counted exactly, and the valid pages are the
mapped ones (`Calm`). What a call does to such a device is determined by its *layout*: the map, the
write cursor, and how often each block has been erased and read (`Layout`).

The invariant of the device is only assumed for the write cursor at the end of its block
(`Inv.park`): the pages ahead of the cursor may be valid.
-/

namespace FtlFirmware

namespace Ftl

/-- The layout of a device. -/
structure Layout where
  table : ℕ → Option ℕ
  block : ℕ
  page : ℕ
  erases : ℕ → UInt32
  reads : ℕ → UInt32
  history : List MediaEvent
  sinceCheck : UInt32

namespace Layout

/-- The layout of a fresh device. -/
def fresh : Layout where
  table := fun _ => none
  block := 0
  page := 0
  erases := fun _ => 0
  reads := fun _ => 0
  history := []
  sinceCheck := 0

variable (L : Layout)

/-- The number of the page at the write cursor, which may be the first one of the next block. -/
def cursor : ℕ := L.block * pagesPerBlock + L.page

/-- The mapped pages are behind the write cursor. -/
def Behind : Prop := ∀ lpn ppn, L.table lpn = some ppn → ppn < L.cursor

/-- No logical page is mapped to the block `b`. -/
def Empty (b : ℕ) : Prop := ∀ lpn ppn, L.table lpn = some ppn → ppnToBlock ppn ≠ b

/-- The only logical page that is mapped is `lpn`, to the page `p` of the block `b`. -/
def Sole (lpn b p : ℕ) : Prop :=
  L.table = Function.update (fun _ => none) lpn (some (blockPageToPpn b p))

/-- The layout after the logical page `lpn` has been written to the page `p` of the block `b`. -/
def write (lpn b p : ℕ) : Layout :=
  { L with
    table := Function.update L.table lpn (some (blockPageToPpn b p))
    block := b
    page := p + 1
    history := .program b p :: L.history }

/-- The layout after a write has been counted for the static wear levelling. -/
def count : Layout := { L with sinceCheck := L.sinceCheck + 1 }

/-- The layout after a read of the block `b`. -/
def read (b : ℕ) : Layout := { L with reads := Function.update L.reads b (L.reads b + 1) }

/-- The layout after the logical page `lpn`, the only one mapped, has been moved to the page `p` of
    the block `dst`, and the block `src` erased. -/
def move (lpn src dst p : ℕ) : Layout :=
  { L with
    table := Function.update (fun _ => none) lpn (some (blockPageToPpn dst p))
    erases := Function.update L.erases src (L.erases src + 1)
    reads := Function.update L.reads src 0
    history := .erase src :: .program dst p :: L.history }

variable {L} {lpn lpn' b p b' p' : ℕ}

/-- What is mapped if only one logical page is. -/
theorem Sole.table_eq (h : L.Sole lpn b p) {ppn : ℕ} (hl : L.table lpn' = some ppn) :
    lpn' = lpn ∧ ppn = blockPageToPpn b p := by
  rw [h, Function.update_apply] at hl
  split at hl
  · next heq => exact ⟨heq, (Option.some_inj.1 hl).symm⟩
  · exact absurd hl.symm (Option.some_ne_none _)

/-- The other blocks are empty. -/
theorem Sole.empty (h : L.Sole lpn b p) (hb : b < totalBlocks) (hp : p < pagesPerBlock)
    (hne : b ≠ b') : L.Empty b' := by
  intro lpn' ppn hl
  rw [(h.table_eq hl).2, ppnToBlock_mk hb hp]
  exact hne

/-- The page is mapped. -/
theorem Sole.self (h : L.Sole lpn b p) : L.table lpn = some (blockPageToPpn b p) := by
  rw [h, Function.update_self]

/-- Nothing is mapped to the other pages. -/
theorem Sole.ne (h : L.Sole lpn b p) (hb : b < totalBlocks) (hp : p < pagesPerBlock)
    (hb' : b' < totalBlocks) (hp' : p' < pagesPerBlock) (hne : (b', p') ≠ (b, p)) :
    L.table lpn' ≠ some (blockPageToPpn b' p') := fun hl =>
  hne (blockPageToPpn_inj hb' hp' hb hp (h.table_eq hl).2)

end Layout

/-- The device is calm, with the contents `c` and the layout `L`. -/
structure Calm (c : Store) (L : Layout) (s : Ftl) : Prop where
  inv : Inv ∅ c { s with curWritePage := pagesPerBlock }
  consistent : s.nand.Consistent
  good : ∀ b < totalBlocks, (s.nand.blocks b).state ≠ .bad
  tight : ∀ b < totalBlocks, ∀ p < pagesPerBlock, (s.nand.blocks b).pageValid p →
    s.reverseMap (blockPageToPpn b p) ≠ none
  table : s.l2pTable = L.table
  block : s.curWriteBlock = L.block
  page : s.curWritePage = L.page
  erases : ∀ b < totalBlocks, (s.nand.blocks b).eraseCount = L.erases b
  reads : ∀ b < totalBlocks, (s.nand.blocks b).readCount = L.reads b
  history : s.nand.history = L.history
  sinceCheck : s.writeSinceLastCheck = L.sinceCheck
  algo : s.gcAlgo = .greedy
  type : s.nand.nandType = .tlc

namespace Calm

variable {c : Store} {L : Layout} {s : Ftl} {b p lpn ppn : ℕ} {d buf : PageData}

/-! ## What the layout says -/

/-- A block is counted exactly. -/
theorem exact (h : Calm c L s) (hb : b < totalBlocks) : (s.nand.blocks b).Exact :=
  h.consistent b hb (h.good b hb)

/-- A mapped page holds its data. -/
theorem holds (h : Calm c L s) (hl : L.table lpn = some ppn) :
    ∃ d, c lpn = some d ∧ HoldsAt s.nand ppn d :=
  h.inv.mapped lpn ppn (h.table ▸ hl)

/-- The contents are told by the device. -/
theorem contents_eq {c' : Store} {L' : Layout} (h : Calm c L s) (h' : Calm c' L' s) : c = c' := by
  funext lpn
  cases hl : s.l2pTable lpn with
  | none => rw [h.inv.unmapped lpn hl, h'.inv.unmapped lpn hl]
  | some ppn =>
    obtain ⟨d, hd, hold⟩ := h.inv.mapped lpn ppn hl
    obtain ⟨d', hd', hold'⟩ := h'.inv.mapped lpn ppn hl
    rw [hd, hd', ← hold.data, hold'.data]

/-- A block to which a logical page is mapped is used. -/
theorem used (h : Calm c L s) (hl : L.table lpn = some ppn) :
    (s.nand.blocks (ppnToBlock ppn)).state = .used := by
  obtain ⟨d, _, hold⟩ := h.holds hl
  have hb := (Nand.isBlockValid_iff.1 hold.blockValid).1
  exact (h.exact hb).counted.used_of_valid hold.good hold.page_lt hold.valid

/-- A page to which no logical page is mapped is not valid. -/
theorem invalid (h : Calm c L s) (hb : b < totalBlocks) (hp : p < pagesPerBlock)
    (hun : ∀ lpn, L.table lpn ≠ some (blockPageToPpn b p)) :
    (s.nand.blocks b).pageValid p = false := by
  refine Bool.eq_false_iff.2 fun hv => h.tight b hb p hp hv ?_
  cases hr : s.reverseMap (blockPageToPpn b p) with
  | none => rfl
  | some lpn =>
    have hl := (h.inv.of_reverseMap hr).1
    exact absurd (h.table ▸ hl) (hun lpn)

/-- The valid pages of a block are those that are mapped. -/
theorem mem_validPages (h : Calm c L s) (hb : b < totalBlocks) : p ∈ (s.nand.blocks b).validPages ↔
    p < pagesPerBlock ∧ ∃ lpn, L.table lpn = some (blockPageToPpn b p) := by
  rw [PhyBlock.mem_validPages]
  refine and_congr_right fun hp => ⟨fun hv => ?_, fun hmapped => ?_⟩
  · by_contra hun
    rw [h.invalid hb hp fun lpn hl => hun ⟨lpn, hl⟩] at hv
    exact Bool.false_ne_true hv
  · obtain ⟨lpn, hl⟩ := hmapped
    obtain ⟨d, _, hold⟩ := h.holds hl
    rw [HoldsAt, ppnToBlock_mk hb hp, ppnToPage_mk hb hp] at hold
    exact hold.valid

/-- A block to which no logical page is mapped is free. -/
theorem free (h : Calm c L s) (hb : b < totalBlocks) (hempty : L.Empty b) :
    (s.nand.blocks b).state = .free := by
  rw [(h.exact hb).free_iff, Finset.card_eq_zero, Finset.eq_empty_iff_forall_notMem]
  intro p hmem
  obtain ⟨hp, hv⟩ := PhyBlock.mem_validPages.1 hmem
  have hinv := h.invalid hb hp fun lpn hl => hempty lpn _ hl (ppnToBlock_mk hb hp)
  exact Bool.eq_false_iff.1 hinv hv

/-- The device has its contents, also with the write cursor where it is, if nothing is mapped to
    the pages ahead of the cursor. -/
theorem unpark (h : Calm c L s) (hb : L.block < totalBlocks) (hp : L.page ≤ pagesPerBlock)
    (hun : ∀ p, L.page ≤ p → p < pagesPerBlock → ∀ lpn, L.table lpn ≠ some (blockPageToPpn L.block p)) :
    Inv ∅ c s :=
  { h.inv with
    page_le := h.page.trans_le hp
    ahead := fun p hle hlt => by
      rw [h.block]
      exact h.invalid hb hlt (hun p (h.page ▸ hle) hlt) }

/-- The state of a block of the device. -/
theorem getBlockState (h : Calm c L s) (hb : b < totalBlocks) :
    s.nand.getBlockState b = (s.nand.blocks b).state :=
  Nand.getBlockState_of_lt h.inv.on hb

/-- There are enough free blocks if the mapped ones are among the first hundred. -/
theorem enough_free (h : Calm c L s) (hroom : ∀ b, 100 ≤ b → L.Empty b) :
    ¬ s.nand.getFreeBlockCount ≤ gcTriggerThreshold := by
  have hsub : (List.range' 100 20).Sublist s.nand.freeBlocks := by
    have hfree : (List.range' 100 20).filter (fun i => s.nand.getBlockState i = .free) =
        List.range' 100 20 := by
      refine List.filter_eq_self.2 fun b hb => decide_eq_true ?_
      obtain ⟨hge, hlt⟩ := List.mem_range'_1.1 hb
      have hb' : b < totalBlocks := by
        simp only [totalBlocks]
        omega
      rw [h.getBlockState hb', h.free hb' (hroom b hge)]
    rw [← hfree]
    exact List.Sublist.filter _ (by decide)
  have hlen := hsub.length_le
  rw [List.length_range'] at hlen
  rw [Nand.getFreeBlockCount, if_pos (show s.nand.isInitialized from h.inv.on)]
  exact Nat.not_le.2 (Nat.lt_of_lt_of_le (by decide) hlen)

/-- The next free block is the first one that no logical page is mapped to. -/
theorem findNextFreeBlock (h : Calm c L s) {start : ℕ} (hlt : start < userBlocks)
    (hempty : L.Empty start) : s.findNextFreeBlock start = some start := by
  have hb : start < totalBlocks := Nat.lt_of_lt_of_le hlt (by decide)
  obtain ⟨k, hk⟩ := Nat.exists_eq_succ_of_ne_zero (Nat.sub_ne_zero_of_lt hlt)
  rw [Ftl.findNextFreeBlock, hk, List.range'_succ, List.cons_append]
  exact List.find?_cons_of_pos (by simp [h.getBlockState hb, h.free hb hempty])

/-- After a used block, the next free block is the one behind it, if this is empty. -/
theorem findNextFreeBlock_succ (h : Calm c L s) {start : ℕ} (hlt : start + 1 < userBlocks)
    (hl : L.table lpn = some ppn) (hblock : ppnToBlock ppn = start)
    (hempty : L.Empty (start + 1)) : s.findNextFreeBlock start = some (start + 1) := by
  have hb : start + 1 < totalBlocks := Nat.lt_of_lt_of_le hlt (by decide)
  have hb' : start < totalBlocks := Nat.lt_of_succ_lt hb
  have hused := h.used hl
  rw [hblock] at hused
  obtain ⟨k, hk⟩ := Nat.exists_eq_succ_of_ne_zero (Nat.sub_ne_zero_of_lt hlt)
  have hlen : userBlocks - start = k + 1 + 1 := by omega
  rw [Ftl.findNextFreeBlock, hlen, List.range'_succ, List.range'_succ, List.cons_append,
    List.cons_append, List.find?_cons_of_neg (by simp [h.getBlockState hb', hused])]
  exact List.find?_cons_of_pos (by simp [h.getBlockState hb, h.free hb hempty])

/-! ## Powering on -/

/-- A device on whose media no block is bad is calm when it is powered on. -/
theorem powerOn (rand : ℕ → ℕ) (hrand : ∀ i, getInitBadRatio .tlc ≤ rand i % 100)
    (files : String → Option (List UInt8)) :
    ∃ s, Ftl.powerOn rand files = (.ok, s) ∧ Calm (fun _ => none) .fresh s := by
  have hblocks : (Nand.init none rand).blocks = fun _ => .fresh := by
    rw [Nand.init_none_blocks]
    funext b
    exact if_neg (Nat.not_lt.2 (hrand b))
  have hfirst : (zero (Nand.init none rand) files).findNextFreeBlock 0 = some 0 := by
    rw [Ftl.findNextFreeBlock]
    refine List.find?_cons_of_pos (l := List.range' 1 119 ++ List.range 0) ?_
    rw [decide_eq_true_eq, Nand.getBlockState_of_lt rfl (by decide)]
    exact congrArg PhyBlock.state (congrFun hblocks 0)
  have hon : Ftl.powerOn rand files = (.ok, (zero (Nand.init none rand) files).started 0) := by
    rw [Ftl.powerOn, Ftl.init, hfirst]
  refine ⟨_, hon, ?_⟩
  exact {
    inv := (Fresh.inv ⟨rand, files, hon⟩).park
    consistent := Nand.consistent_init none rand
    good := fun b _ => by
      change ((Nand.init none rand).blocks b).state ≠ .bad
      rw [hblocks]
      exact BlockState.noConfusion
    tight := fun b _ p _ hv => by
      change ((Nand.init none rand).blocks b).pageValid p at hv
      rw [hblocks] at hv
      exact absurd hv Bool.false_ne_true
    table := rfl
    block := rfl
    page := rfl
    erases := fun b _ => congrArg PhyBlock.eraseCount (congrFun hblocks b)
    reads := fun b _ => congrArg PhyBlock.readCount (congrFun hblocks b)
    history := rfl
    sinceCheck := rfl
    algo := rfl
    type := rfl }

/-! ## Writing -/

/-- What the counters and the history of a device say does not change when a page is
    invalidated. -/
theorem markPageInvalid_frame (n : Nand) (b p b' : ℕ) :
    ((n.markPageInvalid b p).2.blocks b').eraseCount = (n.blocks b').eraseCount ∧
      ((n.markPageInvalid b p).2.blocks b').readCount = (n.blocks b').readCount ∧
      (n.markPageInvalid b p).2.history = n.history ∧
      (n.markPageInvalid b p).2.nandType = n.nandType ∧
      ((n.blocks b').state ≠ .bad → ((n.markPageInvalid b p).2.blocks b').state ≠ .bad) := by
  rcases n.markPageInvalid_cases b p with ⟨_, _, heq⟩ | heq <;> rw [heq]
  · rw [Nand.setBlock_blocks, Nand.setBlock_history]
    rcases eq_or_ne b' b with rfl | hne
    · rw [Function.update_self]
      exact ⟨rfl, rfl, rfl, rfl, PhyBlock.invalidate_state_ne_bad⟩
    · rw [Function.update_of_ne hne]
      exact ⟨rfl, rfl, rfl, rfl, id⟩
  · exact ⟨rfl, rfl, rfl, rfl, id⟩

/-- An invalidated page is not valid; no page becomes valid. -/
theorem pageValid_markPageInvalid {n : Nand} {b p b' p' : ℕ} (hacc : n.Accessible b p)
    (hv : ((n.markPageInvalid b p).2.blocks b').pageValid p') :
    (n.blocks b').pageValid p' ∧ (b', p') ≠ (b, p) := by
  rcases n.markPageInvalid_cases b p with ⟨_, _, heq⟩ | heq
  · rw [heq, Nand.setBlock_blocks] at hv
    rcases eq_or_ne b' b with rfl | hb
    · rw [Function.update_self, PhyBlock.invalidate_pageValid] at hv
      rcases eq_or_ne p' p with rfl | hp
      · rw [Function.update_self] at hv
        exact absurd hv Bool.false_ne_true
      · rw [Function.update_of_ne hp] at hv
        exact ⟨hv, fun h => hp (Prod.mk.inj h).2⟩
    · rw [Function.update_of_ne hb] at hv
      exact ⟨hv, fun h => hb (Prod.mk.inj h).1⟩
  · rw [heq] at hv
    refine ⟨hv, fun h => ?_⟩
    obtain ⟨rfl, rfl⟩ := Prod.mk.inj h
    rw [Nand.markPageInvalid_of_valid hacc hv] at heq
    have hblk := congrArg (fun n => (n.blocks b').pageValid p') heq
    simp only [Nand.setBlock_blocks, Function.update_self, PhyBlock.invalidate_pageValid] at hblk
    rw [hv] at hblk
    exact Bool.false_ne_true hblk

/-- The page `p` of the block `b`, to which nothing is mapped, is programmed for a write of the
    logical page `lpn`, and the maps are redirected to it. -/
theorem commit (h : Calm c L s) (hlpn : lpn < totalLpns) (hb : b < totalBlocks)
    (hp : p < pagesPerBlock) (hun : ∀ lpn, L.table lpn ≠ some (blockPageToPpn b p))
    (buf : PageData) :
    s.nand.pageWrite b p buf = (.ok, s.nand.program b p buf) ∧
      Calm (Function.update c lpn (some buf)) (L.write lpn b p) (committed { s with
        nand := s.nand.program b p buf, curWriteBlock := b, curWritePage := p + 1 } lpn
          (blockPageToPpn b p)) := by
  have hacc : s.nand.Accessible b p := ⟨h.inv.isBlockValid hb, hp, h.good b hb⟩
  have hv := h.invalid hb hp hun
  have hr : s.reverseMap (blockPageToPpn b p) = none := by
    refine h.inv.reverseMap_of_invalid ?_
    rw [ppnToBlock_mk hb hp, ppnToPage_mk hb hp]
    exact hv
  have hcons := h.consistent.program (d := buf) hacc hv
  have hgood : ∀ b' < totalBlocks, ((s.nand.program b p buf).blocks b').state ≠ .bad := by
    intro b' hb'
    rw [Nand.program_blocks]
    rcases eq_or_ne b' b with rfl | hne
    · rw [Function.update_self]
      exact BlockState.noConfusion
    · rw [Function.update_of_ne hne]
      exact h.good b' hb'
  have hvalid : ∀ b' q, ((s.nand.program b p buf).blocks b').pageValid q → (b', q) ≠ (b, p) →
      (s.nand.blocks b').pageValid q := by
    intro b' q hq hne
    rw [Nand.program_blocks] at hq
    rcases eq_or_ne b' b with rfl | hb'
    · have hqp : q ≠ p := fun heq => hne (by rw [heq])
      rwa [Function.update_self, PhyBlock.program_pageValid, Function.update_of_ne hqp] at hq
    · rwa [Function.update_of_ne hb'] at hq
  have hcount : ∀ b', ((s.nand.program b p buf).blocks b').eraseCount =
      (s.nand.blocks b').eraseCount ∧
      ((s.nand.program b p buf).blocks b').readCount = (s.nand.blocks b').readCount := by
    intro b'
    rw [Nand.program_blocks]
    rcases eq_or_ne b' b with rfl | hne
    · rw [Function.update_self]
      exact ⟨rfl, rfl⟩
    · rw [Function.update_of_ne hne]
      exact ⟨rfl, rfl⟩
  -- The invariant, with the write cursor at the end of the block of the page.
  have hmoved : Inv ∅ c { s with curWriteBlock := b, curWritePage := pagesPerBlock } :=
    h.inv.moveCursor hb fun q hq hlt => absurd hq (Nat.not_le.2 hlt)
  have hprog := hmoved.program (d := buf) hacc hv (Set.notMem_empty _) fun _ => hp
  have hnew : HoldsAt (s.nand.program b p buf) (blockPageToPpn b p) buf := by
    rw [HoldsAt, ppnToBlock_mk hb hp, ppnToPage_mk hb hp]
    exact Nand.holds_program hacc
  have hinv := committed_inv hprog hlpn hnew hr fun ppn hl => by
    have hlt := ppnToBlock_lt_iff.2 (hprog.ppn_lt hl)
    exact Or.inl (hcons _ hlt (hgood _ hlt)).count
  refine ⟨Nand.pageWrite_of_invalid hacc hv, ?_⟩
  rw [committed] at hinv ⊢
  have hupdate : Function.update s.l2pTable lpn (some (blockPageToPpn b p)) =
      (L.write lpn b p).table := by rw [h.table, Layout.write]
  -- The valid pages are mapped, as the old page is not valid any more.
  have hrev : ∀ b' < totalBlocks, ∀ q < pagesPerBlock, (s.nand.blocks b').pageValid q →
      (b', q) ≠ (b, p) → s.l2pTable lpn ≠ some (blockPageToPpn b' q) →
      Function.update (Lookup.release s.l2pTable s.reverseMap lpn) (blockPageToPpn b p) (some lpn)
        (blockPageToPpn b' q) ≠ none := by
    intro b' hb' q hq hv' hne hold
    have hppn : blockPageToPpn b' q ≠ blockPageToPpn b p := fun heq =>
      hne (blockPageToPpn_inj hb' hq hb hp heq)
    rw [Function.update_of_ne hppn]
    cases hl : s.l2pTable lpn with
    | none =>
      rw [Lookup.release_none hl]
      exact h.tight b' hb' q hq hv'
    | some oldPpn =>
      rw [Lookup.release_some hl, Function.update_of_ne fun heq => hold (by rw [hl, heq])]
      exact h.tight b' hb' q hq hv'
  have hself : Function.update (Lookup.release s.l2pTable s.reverseMap lpn) (blockPageToPpn b p)
      (some lpn) (blockPageToPpn b p) ≠ none := by
    rw [Function.update_self]
    exact Option.some_ne_none _
  cases hl : s.l2pTable lpn with
  | none =>
    rw [hl] at hrev
    simp only [hl] at hinv
    exact {
      inv := hinv.congr rfl
      consistent := hcons
      good := hgood
      tight := fun b' hb' q hq hvq => by
        by_cases hne : (b', q) = (b, p)
        · obtain ⟨rfl, rfl⟩ := Prod.mk.inj hne
          exact hself
        · exact hrev b' hb' q hq (hvalid b' q hvq hne) hne (Option.some_ne_none _).symm
      table := hupdate
      block := rfl
      page := rfl
      erases := fun b' hb' => (hcount b').1.trans (h.erases b' hb')
      reads := fun b' hb' => (hcount b').2.trans (h.reads b' hb')
      history := congrArg _ h.history
      sinceCheck := h.sinceCheck
      algo := h.algo
      type := h.type }
  | some oldPpn =>
    rw [hl] at hrev
    simp only [hl] at hinv
    obtain ⟨d, _, hold⟩ := hprog.mapped lpn oldPpn hl
    have hframe := markPageInvalid_frame (s.nand.program b p buf) (ppnToBlock oldPpn)
      (ppnToPage oldPpn)
    exact {
      inv := hinv.congr rfl
      consistent := hcons.markPageInvalid _ _
      good := fun b' hb' => (hframe b').2.2.2.2 (hgood b' hb')
      tight := fun b' hb' q hq hvq => by
        obtain ⟨hvq, hneold⟩ := pageValid_markPageInvalid hold.toAccessible hvq
        by_cases hne : (b', q) = (b, p)
        · obtain ⟨rfl, rfl⟩ := Prod.mk.inj hne
          exact hself
        · refine hrev b' hb' q hq (hvalid b' q hvq hne) hne fun heq => hneold ?_
          rw [Option.some_inj] at heq
          rw [heq, ppnToBlock_mk hb' hq, ppnToPage_mk hb' hq]
      table := hupdate
      block := rfl
      page := rfl
      erases := fun b' hb' => ((hframe b').1.trans (hcount b').1).trans (h.erases b' hb')
      reads := fun b' hb' => ((hframe b').2.1.trans (hcount b').2).trans (h.reads b' hb')
      history := (hframe 0).2.2.1.trans (congrArg _ h.history)
      sinceCheck := h.sinceCheck
      algo := h.algo
      type := (hframe 0).2.2.2.1.trans h.type }

/-- The files and the log do not matter. -/
theorem log (h : Calm c L s) (files : String → Option (List UInt8)) (sequence count : UInt32) :
    Calm c L { s with files := files, walSequence := sequence, walEntryCount := count } :=
  { h with inv := h.inv.congr rfl }

/-- The count of the writes since the last static wear check. -/
theorem count (h : Calm c L s) :
    Calm c L.count { s with writeSinceLastCheck := L.sinceCheck + 1 } :=
  { h with
    inv := h.inv.congr rfl
    sinceCheck := rfl }

/-- The count of the garbage collections. -/
theorem countGc (h : Calm c L s) : Calm c L { s with gcCount := s.gcCount + 1 } :=
  { h with inv := h.inv.congr rfl }

/-- The page at the write cursor is taken, the first one of the next block at the end of a block, if
    nothing is mapped to the pages from the cursor on. -/
theorem takeCursor (h : Calm c L s) (hp : L.page ≤ pagesPerBlock)
    (hlt : L.cursor < 100 * pagesPerBlock) (hun : L.Behind) :
    s.allocPhyPage = some (blockPageToPpn (ppnToBlock L.cursor) (ppnToPage L.cursor),
      { s with curWriteBlock := ppnToBlock L.cursor, curWritePage := ppnToPage L.cursor + 1 }) := by
  simp only [pagesPerBlock, Layout.Behind, Layout.cursor] at hp hlt hun
  rw [allocPhyPage, h.page, h.block]
  by_cases hpage : L.page < pagesPerBlock
  · have hblock : ppnToBlock L.cursor = L.block := by
      simp only [ppnToBlock, Layout.cursor, pagesPerBlock] at hpage ⊢
      omega
    have hpage' : ppnToPage L.cursor = L.page := by
      simp only [ppnToPage, Layout.cursor, pagesPerBlock] at hpage ⊢
      omega
    rw [if_pos hpage, hblock, hpage', ← h.block]
  · have hblock : ppnToBlock L.cursor = L.block + 1 := by
      simp only [ppnToBlock, Layout.cursor, pagesPerBlock] at hpage ⊢
      omega
    have hpage' : ppnToPage L.cursor = 0 := by
      simp only [ppnToPage, Layout.cursor, pagesPerBlock] at hpage ⊢
      omega
    have hmod : (L.block + 1) % 2 ^ 32 = L.block + 1 := Nat.mod_eq_of_lt (by omega)
    have hempty : L.Empty (L.block + 1) := by
      intro lpn ppn hl
      have hppn := hun lpn ppn hl
      simp only [ppnToBlock, pagesPerBlock]
      omega
    have hlast : L.block + 1 < userBlocks := by
      simp only [userBlocks, totalBlocks, reservedBlocks]
      omega
    have hfirst := h.findNextFreeBlock hlast hempty
    rw [if_neg hpage, hmod, hfirst, hblock, hpage']

/-- The wear levelling at the end of a write is the dynamic one if the static one is not due. -/
theorem checkWear_of_not_due (hcheck : s.writeSinceLastCheck + 1 < staticWearInterval) :
    s.checkWear = { s.wearLevelingCheck with writeSinceLastCheck := s.writeSinceLastCheck + 1 } ∧
      s.checkWear.mapMode = s.mapMode := by
  have hframe : s.wearLevelingCheck.writeSinceLastCheck = s.writeSinceLastCheck ∧
      s.wearLevelingCheck.mapMode = s.mapMode := by
    rw [wearLevelingCheck]
    dsimp only
    split
    · split <;> exact ⟨rfl, rfl⟩
    · exact ⟨rfl, rfl⟩
  have heq : s.checkWear =
      { s.wearLevelingCheck with writeSinceLastCheck := s.writeSinceLastCheck + 1 } := by
    rw [checkWear]
    dsimp only
    rw [hframe.1, if_neg (UInt32.not_le.2 hcheck)]
  exact ⟨heq, heq ▸ hframe.2⟩

/-- A write to the page taken comes to an end, up to the wear levelling, which does not change the
    mapping. -/
theorem writeOut_checkWear (h : Calm c L s) (hlpn : lpn < totalLpns) (hb : b < totalBlocks)
    (hp : p < pagesPerBlock) (hun : ∀ lpn, L.table lpn ≠ some (blockPageToPpn b p))
    (ha : s.allocPhyPage =
      some (blockPageToPpn b p, { s with curWriteBlock := b, curWritePage := p + 1 }))
    (buf : PageData) :
    ∃ s', Calm (Function.update c lpn (some buf)) (L.write lpn b p) s' ∧
      (s'.checkWear.mapMode = s'.mapMode → s.writeOut lpn buf = some (.ok, s'.checkWear)) := by
  have hw := (h.commit hlpn hb hp hun buf).1
  have hppn : ∀ ppn, s.l2pTable lpn = some ppn → ppn < totalPpns := fun ppn => h.inv.ppn_lt
  obtain ⟨files, sequence, count, hout⟩ := writeOut_eq hppn hb hp ha hw
  have h' := ((h.log files sequence count).commit hlpn hb hp hun buf).2
  refine ⟨_, h', fun hmode => hout _ rfl fun heq => ?_⟩
  exact MapMode.noConfusion ((hmode.trans h'.inv.pageMode).symm.trans heq)

/-- A write to the page taken comes to an end, up to the dynamic wear levelling. -/
theorem writeOut (h : Calm c L s) (hlpn : lpn < totalLpns) (hb : b < totalBlocks)
    (hp : p < pagesPerBlock) (hun : ∀ lpn, L.table lpn ≠ some (blockPageToPpn b p))
    (ha : s.allocPhyPage =
      some (blockPageToPpn b p, { s with curWriteBlock := b, curWritePage := p + 1 }))
    (hcheck : L.sinceCheck + 1 < staticWearInterval) (buf : PageData) :
    ∃ s', Calm (Function.update c lpn (some buf)) (L.write lpn b p) s' ∧
      s.writeOut lpn buf =
        some (.ok, { s'.wearLevelingCheck with writeSinceLastCheck := L.sinceCheck + 1 }) := by
  obtain ⟨s', h', hout⟩ := h.writeOut_checkWear hlpn hb hp hun ha buf
  obtain ⟨hwear, hmode⟩ := checkWear_of_not_due (h'.sinceCheck.symm ▸ hcheck)
  have hcount : s'.writeSinceLastCheck = L.sinceCheck := h'.sinceCheck
  refine ⟨s', h', ?_⟩
  rw [hout hmode, hwear, hcount]

/-- The dynamic wear levelling does nothing as long as nothing has been erased. -/
theorem wearLevelingCheck_of_unworn (h : Calm c L s) (heven : ∀ b < userBlocks, L.erases b = 0) :
    s.wearLevelingCheck = s := by
  have hscan (l : List ℕ) (hl : ∀ b ∈ l, b < userBlocks) (acc : UInt32 × UInt32 × Option ℕ)
      (hacc : acc.1 = 0 ∧ (acc.2.1 = 0xFFFFFFFF ∨ acc.2.1 = 0)) :
      (l.foldl (wearScanStep s.nand) acc).1 = 0 ∧
        ((l.foldl (wearScanStep s.nand) acc).2.1 = 0xFFFFFFFF ∨
          (l.foldl (wearScanStep s.nand) acc).2.1 = 0) := by
    induction l generalizing acc with
    | nil => exact hacc
    | cons b l ih =>
      refine ih (fun b hb => hl b (List.mem_cons_of_mem _ hb)) _ ?_
      have hlt := hl b List.mem_cons_self
      have hb : b < totalBlocks := Nat.lt_of_lt_of_le hlt (by decide)
      have hcnt : s.nand.getBlockEraseCount b = 0 := by
        rw [Nand.getBlockEraseCount, if_pos (h.inv.isBlockValid hb), h.erases b hb, heven b hlt]
      rw [wearScanStep, h.getBlockState hb, if_neg (h.good b hb), hcnt]
      dsimp only
      rcases hacc with ⟨h₁, h₂ | h₂⟩ <;> rw [h₁, h₂] <;> decide
  obtain ⟨hmax, hmin⟩ := hscan (List.range userBlocks) (fun _ => List.mem_range.1)
    (0, 0xFFFFFFFF, none) ⟨rfl, Or.inl rfl⟩
  have hdiff : ¬ wearDiffThreshold < (wearScan s.nand).1 - (wearScan s.nand).2.1 := by
    rw [wearScan, hmax]
    rcases hmin with hmin | hmin <;> rw [hmin] <;> decide
  rw [wearLevelingCheck]
  dsimp only
  rw [if_neg hdiff]

/-- A write to the page taken, as long as nothing has been erased. -/
theorem write (h : Calm c L s) (hlpn : lpn < totalLpns) (hroom : ∀ b, 100 ≤ b → L.Empty b)
    (hb : b < totalBlocks) (hp : p < pagesPerBlock)
    (hun : ∀ lpn, L.table lpn ≠ some (blockPageToPpn b p))
    (ha : s.allocPhyPage =
      some (blockPageToPpn b p, { s with curWriteBlock := b, curWritePage := p + 1 }))
    (hcheck : L.sinceCheck + 1 < staticWearInterval) (heven : ∀ b < userBlocks, L.erases b = 0)
    (buf : PageData) :
    ∃ s', s.write 0 lpn buf = some (.ok, s') ∧
      Calm (Function.update c lpn (some buf)) (L.write lpn b p).count s' := by
  obtain ⟨s', h', hw⟩ := h.writeOut hlpn hb hp hun ha hcheck buf
  rw [h'.wearLevelingCheck_of_unworn heven] at hw
  refine ⟨_, ?_, h'.count⟩
  rw [Ftl.write, if_neg (not_not.2 h.inv.started), if_neg (Nat.not_le.2 hlpn), gcUntilSpace,
    if_neg (h.enough_free hroom)]
  exact hw

/-! ## Reading and trimming -/

/-- A read of a mapped page gives its data, and is counted. -/
theorem read (h : Calm c L s) (hlpn : lpn < totalLpns) (hl : L.table lpn = some ppn)
    (buf : PageData) : ∃ d, c lpn = some d ∧
      s.read lpn buf = (.ok, d, { s with nand := s.nand.countRead (ppnToBlock ppn) .ok }) ∧
      Calm c (L.read (ppnToBlock ppn)) { s with nand := s.nand.countRead (ppnToBlock ppn) .ok } := by
  obtain ⟨d, hd, hold⟩ := h.holds hl
  have hblock : ∀ b, ((s.nand.countRead (ppnToBlock ppn) .ok).blocks b).state =
      (s.nand.blocks b).state ∧
      ((s.nand.countRead (ppnToBlock ppn) .ok).blocks b).pageValid =
        (s.nand.blocks b).pageValid ∧
      ((s.nand.countRead (ppnToBlock ppn) .ok).blocks b).eraseCount =
        (s.nand.blocks b).eraseCount := by
    intro b
    rw [Nand.countRead_blocks]
    rcases eq_or_ne b (ppnToBlock ppn) with rfl | hne
    · rw [Function.update_self]
      exact ⟨rfl, rfl, rfl⟩
    · rw [Function.update_of_ne hne]
      exact ⟨rfl, rfl, rfl⟩
  have hmode : s.mapMode ≠ .hybrid := fun heq =>
    MapMode.noConfusion (h.inv.pageMode.symm.trans heq)
  refine ⟨d, hd, ?_, ?_⟩
  · rw [Ftl.read, if_neg (not_not.2 h.inv.started), if_neg (Nat.not_le.2 hlpn), h.table, hl]
    dsimp only
    rw [hold.pageRead, if_neg (by decide : RetCode.ok ≠ .errBadBlock), if_neg fun h' => hmode h'.2]
  · exact { h with
      inv := h.inv.countRead .ok
      consistent := h.consistent.countRead .ok
      good := fun b hb => by
        rw [(hblock b).1]
        exact h.good b hb
      tight := fun b hb p hp hv => by
        rw [(hblock b).2.1] at hv
        exact h.tight b hb p hp hv
      erases := fun b hb => (hblock b).2.2.trans (h.erases b hb)
      reads := fun b hb => by
        dsimp only [Layout.read]
        rw [Nand.countRead_blocks]
        rcases eq_or_ne b (ppnToBlock ppn) with rfl | hne
        · rw [Function.update_self, Function.update_self, ← h.reads _ hb]
          rfl
        · rw [Function.update_of_ne hne, Function.update_of_ne hne]
          exact h.reads b hb }

/-- A mapped page is trimmed. -/
theorem trimPage (h : Calm c L s) (hlpn : lpn < totalLpns) :
    ∃ s', s.trimPage lpn = some s' ∧
      Calm (Function.update c lpn none) { L with table := Function.update L.table lpn none } s' := by
  rw [Ftl.trimPage, if_neg (Nat.not_le.2 hlpn)]
  cases hl : s.l2pTable lpn with
  | none =>
    have hc := h.inv.unmapped lpn hl
    refine ⟨s, rfl, ?_⟩
    rw [← hc, Function.update_eq_self, ← h.table, ← hl, Function.update_eq_self, h.table]
    exact h
  | some ppn =>
    have hppn := h.inv.ppn_lt hl
    obtain ⟨d, _, hold⟩ := h.inv.mapped lpn ppn hl
    have hblt := ppnToBlock_lt_iff.2 hppn
    have hframe := markPageInvalid_frame s.nand (ppnToBlock ppn) (ppnToPage ppn)
    have hinv := (h.inv.unmap hl).invalidate (Function.update_self _ _ _)
      (Or.inr (Or.inl (h.exact hblt).count))
    obtain ⟨files, sequence, count, hlog⟩ := s.walLog_ok (trimEntry lpn (s.l2pTable lpn))
    dsimp only
    rw [if_neg (Nat.not_le.2 hppn), walLogTrim, hlog]
    refine ⟨_, rfl, ?_⟩
    exact {
      inv := hinv.congr rfl
      consistent := h.consistent.markPageInvalid _ _
      good := fun b hb => (hframe b).2.2.2.2 (h.good b hb)
      tight := fun b hb p hp hv => by
        obtain ⟨hv, hne⟩ := pageValid_markPageInvalid hold.toAccessible hv
        have hppn' : blockPageToPpn b p ≠ ppn := fun heq => hne (by
          rw [← heq, ppnToBlock_mk hb hp, ppnToPage_mk hb hp])
        dsimp only
        rw [Function.update_of_ne hppn']
        exact h.tight b hb p hp hv
      table := congrArg (Function.update · lpn none) h.table
      block := h.block
      page := h.page
      erases := fun b hb => (hframe b).1.trans (h.erases b hb)
      reads := fun b hb => (hframe b).2.1.trans (h.reads b hb)
      history := (hframe 0).2.2.1.trans h.history
      sinceCheck := h.sinceCheck
      algo := h.algo
      type := (hframe 0).2.2.2.1.trans h.type }

/-! ## Moving the only page -/

section Sole

variable {src dst : ℕ}

/-- The only used block. -/
theorem usedBlocks_sole (h : Calm c L s) (hsole : L.Sole lpn b p) (hb : b < userBlocks)
    (hp : p < pagesPerBlock) : s.nand.usedBlocks = [b] := by
  have hb' : b < totalBlocks := Nat.lt_of_lt_of_le hb (by decide)
  have hused := h.used hsole.self
  rw [ppnToBlock_mk hb' hp] at hused
  have hfilter : ∀ i ∈ List.range userBlocks,
      decide (s.nand.getBlockState i = .used) = decide (i = b) := by
    intro i hi
    have hi' : i < totalBlocks := Nat.lt_of_lt_of_le (List.mem_range.1 hi) (by decide)
    rw [h.getBlockState hi', decide_eq_decide]
    constructor
    · intro hiused
      by_contra hne
      rw [h.free hi' (hsole.empty hb' hp (Ne.symm hne))] at hiused
      exact BlockState.noConfusion hiused
    · rintro rfl
      exact hused
  rw [Nand.usedBlocks, Nand.blocksIn, List.filter_congr hfilter, List.filter_eq,
    List.count_eq_one_of_mem List.nodup_range (List.mem_range.2 hb)]
  rfl

/-- The other pages of the device are not valid. -/
theorem isPageValid_sole (h : Calm c L s) (hsole : L.Sole lpn b p) (hb : b < totalBlocks)
    (hp : p < pagesPerBlock) {b' p' : ℕ} (hb' : b' < totalBlocks) (hne : (b', p') ≠ (b, p)) :
    s.nand.isPageValid b' p' = false := by
  by_cases hp' : p' < pagesPerBlock
  · rw [Nand.isPageValid, h.invalid hb' hp' fun lpn' => hsole.ne hb hp hb' hp' hne, Bool.and_false]
  · rw [Nand.isPageValid, decide_eq_false hp', Bool.and_false, Bool.false_and]

/-- If the only mapped page is in a block that is to be reclaimed, the handling of read disturb
    moves it to the first free block, whatever comes ahead of the write cursor. -/
theorem handleReadDisturb (h : Calm c L s) (hsole : L.Sole lpn src p) (hsrc : src < userBlocks)
    (hp : p < pagesPerBlock) (hdst : dst < userBlocks) (hne : dst ≠ src)
    (hfirst : s.findNextFreeBlock 0 = some dst) (hreads : readDisturbThreshold ≤ L.reads src)
    (herases : L.erases src ≤ getEraseThreshold .tlc) :
    ∃ s', s.handleReadDisturb = (.ok, s') ∧ Calm c (L.move lpn src dst p) s' := by
  have hworn : (s.nand.blocks src).eraseCount ≤ getEraseThreshold s.nand.nandType := by
    rw [h.erases src (Nat.lt_of_lt_of_le hsrc (by decide)), h.type]
    exact herases
  have hsrc' : src < totalBlocks := Nat.lt_of_lt_of_le hsrc (by decide)
  have hdst' : dst < totalBlocks := Nat.lt_of_lt_of_le hdst (by decide)
  have hl : s.l2pTable lpn = some (blockPageToPpn src p) := by rw [h.table, hsole.self]
  have hr := (h.inv.lookup _ _).1 hl
  obtain ⟨d, _, hold⟩ := h.holds hsole.self
  rw [HoldsAt, ppnToBlock_mk hsrc' hp, ppnToPage_mk hsrc' hp] at hold
  have hempty : L.Empty dst := hsole.empty hsrc' hp hne.symm
  have hacc : s.nand.Accessible dst p := ⟨h.inv.isBlockValid hdst', hp, h.good dst hdst'⟩
  have hv : (s.nand.blocks dst).pageValid p = false :=
    h.invalid hdst' hp fun lpn' => hsole.ne hsrc' hp hdst' hp fun heq => hne (Prod.mk.inj heq).1
  have hcheck : s.nand.checkReadDisturb = some src := by
    have hscore : decide (0 < (s.nand.blocks src).readCount) = true := by
      rw [h.reads src hsrc', decide_eq_true_eq]
      exact UInt32.lt_of_lt_of_le (by decide) hreads
    have hthreshold : s.nand.isInitialized ∧
        readDisturbThreshold ≤ (s.nand.blocks src).readCount :=
      ⟨h.inv.on, (h.reads src hsrc').symm ▸ hreads⟩
    rw [Nand.checkReadDisturb, h.usedBlocks_sole hsole hsrc hp, scan_singleton _ _ hscore]
    exact if_pos hthreshold
  have hothers : ∀ q, q ≠ p → s.nand.isPageValid src q = false := fun q hq =>
    h.isPageValid_sole hsole hsrc' hp hsrc' fun heq => hq (Prod.mk.inj heq).2
  have heq := handleReadDisturb_eq (s := s) h.inv.started hcheck hfirst hothers hold hr hne hacc hv
    hworn
  -- The same with the write cursor at the end of its block, where the invariant holds.
  have hinv := handleReadDisturb_inv h.inv fun _ _ _ _ hlt _ => hlt
  rw [handleReadDisturb_eq h.inv.started hcheck hfirst hothers hold hr hne hacc hv hworn] at hinv
  refine ⟨_, heq, ?_⟩
  have hblocks : (s.migrated src dst p lpn d).nand.blocks = Function.update
      (Function.update s.nand.blocks dst ((s.nand.blocks dst).program p)) src
        ((s.nand.blocks src).countRead.invalidate p) := by
    simp only [migrated, Nand.setBlock_blocks, Nand.program_blocks, Nand.countRead_blocks,
      Function.update_of_ne hne, Function.update_of_ne hne.symm, Function.update_self]
    rw [Function.update_comm hne.symm, Function.update_idem]
  have hsrcBlock : ((s.migrated src dst p lpn d).nand.erase src).blocks src =
      ((s.nand.blocks src).countRead.invalidate p).erase := by
    rw [Nand.erase_blocks, Function.update_self, hblocks, Function.update_self]
  have hdstBlock : ((s.migrated src dst p lpn d).nand.erase src).blocks dst =
      (s.nand.blocks dst).program p := by
    rw [Nand.erase_blocks, Function.update_of_ne hne, hblocks, Function.update_of_ne hne,
      Function.update_self]
  have hother : ∀ b, b ≠ src → b ≠ dst →
      ((s.migrated src dst p lpn d).nand.erase src).blocks b = s.nand.blocks b := by
    intro b hbsrc hbdst
    rw [Nand.erase_blocks, Function.update_of_ne hbsrc, hblocks, Function.update_of_ne hbsrc,
      Function.update_of_ne hbdst]
  -- A property of the three kinds of blocks.
  have hcases {P : ℕ → PhyBlock → Prop}
      (hPsrc : P src ((s.nand.blocks src).countRead.invalidate p).erase)
      (hPdst : P dst ((s.nand.blocks dst).program p))
      (hPother : ∀ b, b ≠ src → b ≠ dst → b < totalBlocks → P b (s.nand.blocks b)) :
      ∀ b < totalBlocks, P b (((s.migrated src dst p lpn d).nand.erase src).blocks b) := by
    intro b hb
    by_cases hbsrc : b = src
    · rw [hbsrc, hsrcBlock]
      exact hPsrc
    · by_cases hbdst : b = dst
      · rw [hbdst, hdstBlock]
        exact hPdst
      · rw [hother b hbsrc hbdst]
        exact hPother b hbsrc hbdst hb
  exact {
    inv := hinv.congr rfl
    consistent := hcases (P := fun _ blk => blk.state ≠ .bad → blk.Exact) (fun _ => .erase)
      (fun _ => (h.exact hdst').program hp hv) fun b _ _ hb _ => h.exact hb
    good := hcases (P := fun _ blk => blk.state ≠ .bad) BlockState.noConfusion
      BlockState.noConfusion fun b _ _ hb => h.good b hb
    tight := by
      refine hcases (P := fun b blk => ∀ q < pagesPerBlock, blk.pageValid q →
        (remap s lpn (blockPageToPpn src p) (blockPageToPpn dst p)).reverseMap
          (blockPageToPpn b q) ≠ none) (fun q _ hvq => absurd hvq Bool.false_ne_true) ?_ ?_
      · intro q hq hvq
        have hqp : q = p := by
          by_contra hqp
          rw [PhyBlock.program_pageValid, Function.update_of_ne hqp,
            h.invalid hdst' hq fun lpn' hl' => hempty lpn' _ hl' (ppnToBlock_mk hdst' hq)] at hvq
          exact Bool.false_ne_true hvq
        have hppn : blockPageToPpn dst p ≠ blockPageToPpn src p := fun heq =>
          hne (Prod.mk.inj (blockPageToPpn_inj hdst' hp hsrc' hp heq)).1
        rw [hqp, remap_reverseMap, Function.update_of_ne hppn, Function.update_self]
        exact Option.some_ne_none _
      · intro b hbsrc _ hb q hq hvq
        rw [h.invalid hb hq fun lpn' hl' => hsole.empty hsrc' hp (Ne.symm hbsrc) lpn' _ hl'
          (ppnToBlock_mk hb hq)] at hvq
        exact absurd hvq Bool.false_ne_true
    table := by
      change Function.update s.l2pTable lpn (some (blockPageToPpn dst p)) = _
      rw [h.table, hsole, Function.update_idem]
      rfl
    block := h.block
    page := h.page
    erases := by
      refine hcases (P := fun b blk => blk.eraseCount = (L.move lpn src dst p).erases b) ?_ ?_ ?_
      · dsimp only [Layout.move]
        rw [Function.update_self, ← h.erases src hsrc']
        rfl
      · dsimp only [Layout.move]
        rw [Function.update_of_ne hne]
        exact h.erases dst hdst'
      · intro b hbsrc _ hb
        dsimp only [Layout.move]
        rw [Function.update_of_ne hbsrc]
        exact h.erases b hb
    reads := by
      refine hcases (P := fun b blk => blk.readCount = (L.move lpn src dst p).reads b) ?_ ?_ ?_
      · dsimp only [Layout.move]
        rw [Function.update_self]
        rfl
      · dsimp only [Layout.move]
        rw [Function.update_of_ne hne]
        exact h.reads dst hdst'
      · intro b hbsrc _ hb
        dsimp only [Layout.move]
        rw [Function.update_of_ne hbsrc]
        exact h.reads b hb
    history := congrArg (fun l => MediaEvent.erase src :: .program dst p :: l) h.history
    sinceCheck := h.sinceCheck
    algo := h.algo
    type := h.type }

/-- If the only mapped page is ahead of the write cursor, in its block, a garbage collection moves
    it to the cursor, and then erases the block: the page is lost, although the logical page is
    still mapped. -/
theorem triggerGc_loses (h : Calm c L s) (hsole : L.Sole lpn b p) (hb : b < userBlocks)
    (hp : p < pagesPerBlock) (hblock : L.block = b) (hpage : L.page < p)
    (herases : L.erases b ≤ getEraseThreshold .tlc) :
    ∃ d s', c lpn = some d ∧ s.triggerGc = (.ok, s') ∧ s'.isInitialized ∧ s'.mapMode = .page ∧
      s'.l2pTable lpn = some (blockPageToPpn b L.page) ∧ s'.nand.Accessible b L.page ∧
      (s'.nand.blocks b).pageValid L.page = false ∧
      s'.nand = (((s.nand.countRead b .ok).program b L.page d).erase b) := by
  have hb' : b < totalBlocks := Nat.lt_of_lt_of_le hb (by decide)
  have hq : L.page < pagesPerBlock := Nat.lt_trans hpage hp
  have hl : s.l2pTable lpn = some (blockPageToPpn b p) := by rw [h.table, hsole.self]
  have hr := (h.inv.lookup _ _).1 hl
  obtain ⟨d, hd, hold⟩ := h.holds hsole.self
  rw [HoldsAt, ppnToBlock_mk hb' hp, ppnToPage_mk hb' hp] at hold
  have hothers : ∀ q, q ≠ p → s.nand.isPageValid b q = false := fun q hq =>
    h.isPageValid_sole hsole hb' hp hb' fun heq => hq (Prod.mk.inj heq).2
  have hvictim : s.gcSelectVictimBlock = some b := by
    have hcnt : s.nand.getBlockValidPageCount b < 257 := by
      rw [Nand.getBlockValidPageCount, if_pos (h.inv.isBlockValid hb'), UInt32.lt_iff_toNat_lt]
      exact Nat.lt_of_le_of_lt (h.exact hb').le (by decide)
    rw [gcSelectVictimBlock, h.algo]
    dsimp only
    rw [gcSelectGreedy, fewestValidPages, h.usedBlocks_sole hsole hb hp,
      scan_singleton _ _ (decide_eq_true hcnt)]
  -- The page is read, and programmed again at the write cursor.
  have hv := h.invalid hb' hq fun lpn' => hsole.ne hb' hp hb' hq fun heq =>
    hpage.ne (Prod.mk.inj heq).2
  have hacc : (s.nand.countRead b .ok).Accessible b L.page := by
    refine ⟨h.inv.isBlockValid hb', hq, ?_⟩
    rw [Nand.countRead_blocks, Function.update_self]
    exact h.good b hb'
  have hv' : ((s.nand.countRead b .ok).blocks b).pageValid L.page = false := by
    rwa [Nand.countRead_blocks, Function.update_self]
  have ha : allocPhyPage { s with gcCount := s.gcCount + 1, nand := s.nand.countRead b .ok } =
      some (blockPageToPpn b L.page, { s with
        gcCount := s.gcCount + 1
        nand := s.nand.countRead b .ok
        curWritePage := L.page + 1 }) := by
    rw [allocPhyPage]
    dsimp only
    rw [h.page, if_pos hq, h.block, hblock]
  have hmove : gcMovePage { s with gcCount := s.gcCount + 1 } b p lpn blankPage =
      (.ok, d, remap { s with
        gcCount := s.gcCount + 1
        nand := (s.nand.countRead b .ok).program b L.page d
        curWritePage := L.page + 1
        nandWritePages := s.nandWritePages + 1
        gcMovedPages := s.gcMovedPages + 1 } lpn (blockPageToPpn b p)
          (blockPageToPpn b L.page)) := by
    rw [gcMovePage, hold.pageRead]
    dsimp only
    rw [ha]
    dsimp only
    rw [ppnToBlock_mk hb' hq, ppnToPage_mk hb' hq, Nand.pageWrite_of_invalid hacc hv']
  have hblk : (((s.nand.countRead b .ok).program b L.page d).blocks b) =
      (s.nand.blocks b).countRead.program L.page := by
    rw [Nand.program_blocks, Nand.countRead_blocks, Function.update_self, Function.update_self]
  have hrest : ∀ q ∈ List.range' (p + 1) (pagesPerBlock - (p + 1)),
      ((s.nand.countRead b .ok).program b L.page d).isPageValid b q = false := by
    intro q hq
    have hlt := (List.mem_range'_1.1 hq).1
    have hinvalid := hothers q (Nat.ne_of_gt hlt)
    have hne : q ≠ L.page := (Nat.lt_trans hpage hlt).ne'
    rw [Nand.isPageValid] at hinvalid ⊢
    rw [hblk, PhyBlock.program_pageValid, Function.update_of_ne hne]
    exact hinvalid
  have hrecycle : recyclePages b blankPage (List.range pagesPerBlock)
      { s with gcCount := s.gcCount + 1 } = (.ok, remap { s with
        gcCount := s.gcCount + 1
        nand := (s.nand.countRead b .ok).program b L.page d
        curWritePage := L.page + 1
        nandWritePages := s.nandWritePages + 1
        gcMovedPages := s.gcMovedPages + 1 } lpn (blockPageToPpn b p)
          (blockPageToPpn b L.page)) := by
    have hvalid : s.nand.isPageValid b p = true := by
      simp [Nand.isPageValid, hold.blockValid, hold.page_lt, hold.valid]
    rw [range_pagesPerBlock hp]
    refine (recyclePages_skip (s := { s with gcCount := s.gcCount + 1 }) _ _ fun q hq =>
      hothers q (List.mem_range.1 hq).ne).trans ?_
    rw [recyclePages, if_neg (not_not.2 hvalid), hr]
    dsimp only
    rw [hmove]
    dsimp only
    refine (congrArg (fun l => recyclePages b d l _) (List.append_nil _).symm).trans ?_
    exact recyclePages_skip [] d hrest
  have herase : ((s.nand.countRead b .ok).program b L.page d).blockErase b =
      (.ok, ((s.nand.countRead b .ok).program b L.page d).erase b) := by
    refine Nand.blockErase_of_unworn hacc.blockValid ?_ ?_
    · rw [hblk]
      exact BlockState.noConfusion
    · rw [hblk]
      change (s.nand.blocks b).eraseCount ≤ getEraseThreshold s.nand.nandType
      rw [h.erases b hb', h.type]
      exact herases
  have hgc := gcDoRecycle_of_ok hvictim hrecycle herase
  have htrigger : s.triggerGc = s.gcDoRecycle := by
    rw [triggerGc, if_neg (not_not.2 (show s.isInitialized from h.inv.started))]
  obtain ⟨hacc', hv''⟩ := Nand.accessible_erase (n := (s.nand.countRead b .ok).program b L.page d)
    hacc.blockValid hq
  exact ⟨d, _, hd, htrigger.trans hgc, h.inv.started, h.inv.pageMode, Function.update_self lpn _ _,
    hacc', hv'', rfl⟩

end Sole

end Calm

end Ftl

end FtlFirmware
