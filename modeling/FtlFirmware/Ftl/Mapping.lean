import FtlFirmware.Ftl.Cold
import FtlFirmware.Ftl.ReadYourWrites

/-!
# The maps stay consistent

The map and the map back are inverse to each other, and mapped pages are valid
(`MappingConsistent`), after any run of safe calls (`mapping_consistent`).

A write that is not safe may leave a logical page on an erased block (`not_mapping_consistent`). It
takes the last page, as counted, from a block marked as cold, which is then free but has a
valid page. The static wear levelling moves another block there, cannot move the page with the
same number, and erases its block all the same.
-/

namespace FtlFirmware

namespace Ftl

/-- The maps are consistent with each other and with the valid pages. -/
structure MappingConsistent (s : Ftl) : Prop where
  mapped : ∀ lpn ppn, s.l2pTable lpn = some ppn → ppn < totalPpns ∧ s.reverseMap ppn = some lpn ∧
    s.nand.isPageValid (ppnToBlock ppn) (ppnToPage ppn)
  back : ∀ lpn ppn, s.reverseMap ppn = some lpn → s.l2pTable lpn = some ppn
  inj : ∀ lpn lpn' ppn, s.l2pTable lpn = some ppn → s.l2pTable lpn' = some ppn → lpn = lpn'

variable {c : Store} {L : Layout} {s s' : Ftl} {tr : List (Call × Answer)}
  {src dst p lpn lpn' page : ℕ} {d buf : PageData}

/-- The maps of a device that has contents are consistent. -/
theorem Inv.mappingConsistent (h : Inv ∅ c s) : s.MappingConsistent where
  mapped lpn ppn hl := by
    obtain ⟨d, _, hold⟩ := h.mapped lpn ppn hl
    refine ⟨h.ppn_lt hl, (h.lookup lpn ppn).1 hl, ?_⟩
    simp [Nand.isPageValid, hold.blockValid, hold.page_lt, hold.valid]
  back lpn ppn := (h.lookup lpn ppn).2
  inj _ _ _ := h.lookup.inj

/-- The maps stay consistent over a run of safe calls. -/
theorem mapping_consistent (hfresh : Fresh s) (hrun : Run Safe s tr s') : s'.MappingConsistent :=
  (run_inv hfresh.inv hrun).mappingConsistent

/-- The maps are consistent after one write. -/
theorem mapping_consistent_written : ∃ s s' : Ftl, Fresh s ∧
    s.exec 0 (.write 5 blankPage) = some (⟨.ok, none⟩, s') ∧ s'.MappingConsistent := by
  obtain ⟨s, s', hfresh, hexec, hsafe⟩ := exists_written 5 (by decide) blankPage
  have hrun : Run Safe s [(.write 5 blankPage, ⟨.ok, none⟩)] s' := .single hsafe ⟨0, hexec⟩
  exact ⟨s, s', hfresh, hexec, mapping_consistent hfresh hrun⟩

/-! ## A page that cannot be moved -/

/-- The page `p` of the block `src` cannot be moved to the block `dst`, where the page with this
    number is valid. The block `src` can be erased. -/
structure Blocked (n : Nand) (src dst p : ℕ) : Prop where
  on : n.isInitialized
  valid : (n.blocks dst).pageValid p
  good : (n.blocks src).state ≠ .bad
  unworn : (n.blocks src).eraseCount ≤ getEraseThreshold n.nandType

namespace Blocked

variable {n : Nand}

/-- Reading a page of the block. -/
theorem pageRead (h : Blocked n src dst p) (page : ℕ) (buf : PageData) :
    Blocked (n.pageRead src page buf).2.2 src dst p := by
  rcases n.pageRead_cases src page buf with ⟨_, _, heq⟩ | ⟨_, _, heq, _⟩ <;> rw [heq]
  · have hblock (b : ℕ) : ((n.countRead src (n.readBack src page).1).blocks b).pageValid =
        (n.blocks b).pageValid := by
      rw [Nand.countRead_blocks, Function.update_apply]
      split
      · next hb => rw [hb, PhyBlock.countRead_pageValid]
      · rfl
    refine ⟨h.on, (hblock dst).symm ▸ h.valid, ?_, ?_⟩
    · rw [Nand.countRead_blocks, Function.update_self]
      exact h.good
    · rw [Nand.countRead_blocks, Function.update_self]
      exact h.unworn
  · exact h

/-- Programming a page of the other block. -/
theorem program (h : Blocked n src dst p) (hne : dst ≠ src) (page : ℕ) (d : PageData) :
    Blocked (n.program dst page d) src dst p := by
  refine ⟨h.on, ?_, ?_, ?_⟩
  · rw [Nand.program_blocks, Function.update_self, PhyBlock.program_pageValid,
      Function.update_apply]
    split
    · rfl
    · exact h.valid
  · rw [Nand.program_blocks, Function.update_of_ne hne.symm]
    exact h.good
  · rw [Nand.program_blocks, Function.update_of_ne hne.symm]
    exact h.unworn

/-- Invalidating a page of the block. -/
theorem markPageInvalid (h : Blocked n src dst p) (hne : dst ≠ src) (page : ℕ) :
    Blocked (n.markPageInvalid src page).2 src dst p := by
  rcases n.markPageInvalid_cases src page with ⟨_, _, heq⟩ | heq <;> rw [heq]
  · refine ⟨h.on, ?_, ?_, ?_⟩
    · rw [Nand.setBlock_blocks, Function.update_of_ne hne]
      exact h.valid
    · rw [Nand.setBlock_blocks, Function.update_self]
      exact PhyBlock.invalidate_state_ne_bad h.good
    · rw [Nand.setBlock_blocks, Function.update_self]
      exact h.unworn
  · exact h

end Blocked

/-- The logical page `lpn` is mapped to the page `p` of the block `src`, and no other page of the
    block is mapped back to it. The page cannot be moved to the block `dst`. -/
structure Stuck (s : Ftl) (src dst p lpn : ℕ) : Prop where
  table : s.l2pTable lpn = some (blockPageToPpn src p)
  back : ∀ q < pagesPerBlock, s.reverseMap (blockPageToPpn src q) = some lpn → q = p
  blocked : Blocked s.nand src dst p
  mode : s.mapMode = .page

namespace Stuck

/-- Moving a page leaves the logical page where it is. -/
theorem migratePage (h : s.Stuck src dst p lpn) (hne : dst ≠ src) (hpage : page < pagesPerBlock)
    (hr : s.reverseMap (blockPageToPpn src page) = some lpn') (buf : PageData) :
    (s.migratePage src dst page lpn' buf).2.2.Stuck src dst p lpn := by
  have hread := h.blocked.pageRead page buf
  rw [Ftl.migratePage]
  dsimp only
  rcases (s.nand.pageRead src page buf).2.2.pageWrite_cases dst page
    (s.nand.pageRead src page buf).2.1 with ⟨_, hv, hw⟩ | ⟨ret, hret, hw, _⟩ <;> rw [hw]
  · have hpage' : page ≠ p := by
      rintro rfl
      rw [hread.valid] at hv
      exact Bool.false_ne_true hv.symm
    have hlpn : lpn' ≠ lpn := by
      rintro rfl
      exact hpage' (h.back page hpage hr)
    refine ⟨?_, fun q hq hrq => ?_, ?_, h.mode⟩
    · dsimp only
      rw [remap_l2pTable, Function.update_of_ne hlpn.symm]
      exact h.table
    · dsimp only at hrq
      rw [remap_reverseMap, Function.update_apply, Function.update_apply] at hrq
      split_ifs at hrq
      · exact absurd (Option.some_inj.1 hrq) hlpn
      · exact h.back q hq hrq
    · exact (hread.program hne _ _).markPageInvalid hne page
  · cases ret with
    | ok => exact absurd rfl hret
    | _ => exact { h with blocked := hread }

/-- Moving the pages of the block leaves the logical page where it is. -/
theorem migratePages {pages : List ℕ} (h : s.Stuck src dst p lpn) (hne : dst ≠ src)
    (hpages : ∀ q ∈ pages, q < pagesPerBlock) (buf : PageData) (moved : UInt32) :
    (migratePages src dst buf moved pages s).2.Stuck src dst p lpn := by
  induction pages generalizing s buf moved with
  | nil => exact h
  | cons page pages ih =>
    have hpages' : ∀ q ∈ pages, q < pagesPerBlock := fun q hq =>
      hpages q (List.mem_cons_of_mem _ hq)
    rw [Ftl.migratePages]
    split
    · exact ih h hpages' buf moved
    · cases hr : s.reverseMap (blockPageToPpn src page) with
      | none => exact ih h hpages' buf moved
      | some lpn' =>
        have hstep := h.migratePage hne (hpages page List.mem_cons_self) hr buf
        dsimp only
        split
        · next heq =>
          rw [heq] at hstep
          exact ih hstep hpages' _ _
        · next heq =>
          rw [heq] at hstep
          exact ih hstep hpages' _ _

/-- The static wear levelling erases the block of a page that it has not been able to move. -/
theorem staticWearLevelingCheck (h : s.Stuck src dst p lpn) (hne : dst ≠ src)
    (hsrc : src < totalBlocks) (hpair : staticWearPair s.nand = some (src, dst)) :
    s.staticWearLevelingCheck.l2pTable lpn = some (blockPageToPpn src p) ∧
      s.staticWearLevelingCheck.mapMode = .page ∧
      s.staticWearLevelingCheck.nand.isPageValid src p = false := by
  have hstuck := h.migratePages hne (fun q hq => List.mem_range (n := pagesPerBlock).1 hq)
    blankPage 0
  rw [Ftl.staticWearLevelingCheck, hpair]
  dsimp only
  rw [Nand.blockErase_of_unworn (Nand.isBlockValid_iff.2 ⟨hsrc, hstuck.blocked.on⟩)
    hstuck.blocked.good hstuck.blocked.unworn]
  refine ⟨hstuck.table, hstuck.mode, ?_⟩
  rw [Nand.isPageValid, Nand.erase_blocks, Function.update_self, PhyBlock.erase_pageValid,
    Bool.and_false]

end Stuck

/-! ## A free block with a valid page -/

/-- A device worn out unevenly, the first block of which is free although its first page is valid.
    The only used block is the fourth one. -/
structure Fallen (n : Nand) : Prop where
  on : n.isInitialized
  type : n.nandType = .tlc
  free : ∀ i < userBlocks, i ≠ 3 → n.getBlockState i = .free
  used : n.getBlockState 3 = .used
  erases : ∀ i < userBlocks, n.getBlockEraseCount i = if i = 0 then 0 else 101
  valid : (n.blocks 0).pageValid 0

namespace Fallen

variable {n : Nand}

/-- The dynamic wear levelling does nothing. -/
theorem wearLevelingCheck (h : Fallen s.nand) : s.wearLevelingCheck = s := by
  have hgood : ∀ i < userBlocks, s.nand.getBlockState i ≠ .bad := by
    intro i hi
    by_cases h3 : i = 3
    · rw [h3, h.used]
      exact BlockState.noConfusion
    · rw [h.free i hi h3]
      exact BlockState.noConfusion
  have hscan := wearScan_uneven (m := 101) (by decide) hgood (h.erases 0 (by decide))
    fun i hi hne => by rw [h.erases i hi, if_neg hne]
  rw [h.free 0 (by decide) (by decide), if_neg BlockState.noConfusion] at hscan
  rw [Ftl.wearLevelingCheck]
  dsimp only
  rw [hscan]
  rfl

/-- The static wear levelling moves the fourth block to the first one. -/
theorem staticWearPair (h : Fallen n) : Ftl.staticWearPair n = some (3, 0) := by
  have h3 : n.getBlockEraseCount 3 = 101 := h.erases 3 (by decide)
  have h0 : n.getBlockEraseCount 0 = 0 := h.erases 0 (by decide)
  have hused : 3 ∈ n.usedBlocks :=
    List.mem_filter.2 ⟨List.mem_range.2 (by decide), decide_eq_true h.used⟩
  have hfree : 0 ∈ n.freeBlocks := List.mem_filter.2
    ⟨List.mem_range.2 (by decide), decide_eq_true (h.free 0 (by decide) (by decide))⟩
  have hworn : scan (fun a b => decide (b < a)) n.getBlockEraseCount 0 n.usedBlocks =
      (101, some 3) := by
    rw [scan_eq hused, h3]
    · rw [h3]
      rfl
    · rw [h3]
      rfl
    · intro j hj hne
      have hlt := List.mem_range.1 (List.mem_filter.1 hj).1
      have hstate := mem_blocksIn hj
      rw [h.free j hlt hne] at hstate
      exact absurd hstate BlockState.noConfusion
  have hunworn : scan (fun a b => decide (a < b)) n.getBlockEraseCount 0xFFFFFFFF n.freeBlocks =
      (0, some 0) := by
    rw [scan_eq hfree, h0]
    · rw [h0]
      rfl
    · rw [h0]
      rfl
    · intro j hj hne
      have hlt := List.mem_range.1 (List.mem_filter.1 hj).1
      rw [h0, h.erases j hlt, if_neg hne]
      exact ⟨rfl, rfl⟩
  rw [Ftl.staticWearPair, hworn, hunworn]
  rfl

/-- The first page of the fourth block cannot be moved to the first block. -/
theorem blocked (h : Fallen n) : Blocked n 3 0 0 := by
  have hvalid : n.isBlockValid 3 := Nand.isBlockValid_iff.2 ⟨by decide, h.on⟩
  have hstate := h.used
  have herases := h.erases 3 (by decide)
  rw [Nand.getBlockState, if_pos hvalid] at hstate
  rw [Nand.getBlockEraseCount, if_pos hvalid] at herases
  refine ⟨h.on, h.valid, ?_, ?_⟩
  · rw [hstate]
    exact BlockState.noConfusion
  · rw [herases, h.type]
    decide

end Fallen

/-- The blocks after the first one has been marked as cold. -/
theorem cooled_blocks (s : Ftl) : s.cooled.nand.blocks =
    Function.update s.nand.blocks 0 (s.nand.blocks 0).markCold :=
  rfl

/-- Two pages of the first block are valid when it is marked as cold. -/
theorem Calm.mem_validPages_cold (h : Calm c L s) (hL : L.Cold) :
    0 ∈ (s.nand.blocks 0).validPages ∧ 255 ∈ (s.nand.blocks 0).validPages := by
  obtain ⟨hl₀, hl₁, -⟩ := hL.mapped
  exact ⟨(h.mem_validPages (by decide)).2 ⟨by decide, 1, hl₁⟩,
    (h.mem_validPages (by decide)).2 ⟨by decide, 0, hl₀⟩⟩

/-- Marking the first block as cold lowers its counter to 1. -/
theorem Calm.markCold_eq (h : Calm c L s) (hL : L.Cold) :
    (s.nand.blocks 0).markCold = { s.nand.blocks 0 with validPageCnt := 1 } := by
  obtain ⟨hmem₀, hmem₂₅₅⟩ := h.mem_validPages_cold hL
  have hcard : 1 < (s.nand.blocks 0).validPages.card :=
    Finset.one_lt_card.2 ⟨0, hmem₀, 255, hmem₂₅₅, by decide⟩
  rw [PhyBlock.markCold, if_pos]
  rw [UInt32.lt_iff_toNat_lt, (h.exact (by decide)).count]
  exact hcard

/-- The NAND device after the logical page 0 has been written once more: its old page, one of two
    valid ones, is the last one counted in the first block. -/
theorem Calm.fallen (h : Calm c L s) (hL : L.Cold) (buf : PageData) :
    Fallen (((s.cooled.nand.program 3 2 buf).markPageInvalid 0 255).2) := by
  obtain ⟨hl₀, hl₁, hl₂⟩ := hL.mapped
  obtain ⟨hmem₀, hmem₂₅₅⟩ := h.mem_validPages_cold hL
  have hblock₀ : (s.cooled.nand.program 3 2 buf).blocks 0 =
      { s.nand.blocks 0 with validPageCnt := 1 } := by
    rw [Nand.program_blocks, cooled_blocks, Function.update_of_ne (by decide : (0 : ℕ) ≠ 3),
      Function.update_self, h.markCold_eq hL]
  have hacc : (s.cooled.nand.program 3 2 buf).Accessible 0 255 := by
    refine ⟨h.inv.isBlockValid (by decide), by decide, ?_⟩
    rw [hblock₀]
    exact h.good 0 (by decide)
  rw [Nand.markPageInvalid_of_valid hacc (by
    rw [hblock₀]
    exact (PhyBlock.mem_validPages.1 hmem₂₅₅).2), hblock₀]
  set blk : PhyBlock := PhyBlock.invalidate { s.nand.blocks 0 with validPageCnt := 1 } 255 with hblk
  set n := (s.cooled.nand.program 3 2 buf).setBlock 0 blk with hn
  have hfirst : n.blocks 0 = blk := by rw [hn, Nand.setBlock_blocks, Function.update_self]
  have hothers : ∀ b, b ≠ 0 →
      n.blocks b = if b = 3 then (s.nand.blocks 3).program 2 else s.nand.blocks b := fun b h0 => by
    rw [hn, Nand.setBlock_blocks, Function.update_of_ne h0, Nand.program_blocks, cooled_blocks,
      Function.update_of_ne (by decide : (3 : ℕ) ≠ 0), Function.update_apply]
    split
    · rfl
    · rw [Function.update_of_ne h0]
  have hlt : ∀ b < userBlocks, b < totalBlocks := fun b hb => Nat.lt_of_lt_of_le hb (by decide)
  have hon : n.isInitialized := h.inv.on
  change Fallen n
  -- The blocks but the one that was cold, its state, the erase counts, and the page left.
  refine ⟨hon, h.type, fun b hb h3 => ?_, ?_, fun b hb => ?_, ?_⟩
  · rw [Nand.getBlockState_of_lt hon (hlt b hb)]
    by_cases h0 : b = 0
    · rw [h0, hfirst]
      have hused := h.used hl₀
      rw [ppnToBlock_mk (by decide) (by decide)] at hused
      rw [hblk, PhyBlock.invalidate]
      dsimp only
      exact if_pos (by decide)
    · rw [hothers b h0, if_neg h3]
      refine h.free (hlt b hb) ?_
      rintro lpn ppn hl rfl
      rcases hL.cases hl with ⟨-, rfl⟩ | ⟨-, rfl⟩ | ⟨-, rfl⟩ | ⟨-, rfl⟩
      · exact h3 rfl
      · exact h3 rfl
      · exact h0 rfl
      · exact h0 rfl
  · rw [Nand.getBlockState_of_lt hon (by decide), hothers 3 (by decide), if_pos rfl]
    rfl
  · have hvalid : n.isBlockValid b := Nand.isBlockValid_iff.2 ⟨hlt b hb, hon⟩
    rw [Nand.getBlockEraseCount, if_pos hvalid, ← hL.erases b hb, ← h.erases b (hlt b hb)]
    by_cases h0 : b = 0
    · rw [h0, hfirst]
      rfl
    · rw [hothers b h0]
      split
      · next h3 => rw [h3, PhyBlock.program_eraseCount]
      · rfl
  · rw [hfirst, hblk, PhyBlock.invalidate_pageValid, Function.update_of_ne (by decide)]
    exact (PhyBlock.mem_validPages.1 hmem₀).2

/-- The device after the logical page 0 has been written once more. -/
theorem Calm.stuck (h : Calm c L s) (hL : L.Cold) (files : String → Option (List UInt8))
    (sequence count : UInt32) (buf : PageData)
    (hs' : s' = committed { s.cooled with
      files := files
      walSequence := sequence
      walEntryCount := count
      nand := s.cooled.nand.program 3 2 buf
      curWriteBlock := 3
      curWritePage := 2 + 1 } 0 (blockPageToPpn 3 2)) :
    Fallen s'.nand ∧ s'.Stuck 3 0 0 2 ∧ s'.writeSinceLastCheck = 999 := by
  obtain ⟨hl₀, -, hl₂⟩ := hL.mapped
  have hl : s.l2pTable 0 = some (blockPageToPpn 0 255) := by rw [h.table, hl₀]
  have hnand : s'.nand = ((s.cooled.nand.program 3 2 buf).markPageInvalid 0 255).2 := by
    rw [hs', committed]
    dsimp only [cooled]
    rw [hl]
    rfl
  have hfallen : Fallen s'.nand := hnand ▸ h.fallen hL buf
  have htable : s'.l2pTable 2 = some (blockPageToPpn 3 0) := by
    rw [hs', committed]
    dsimp only [cooled]
    rw [Function.update_of_ne (by decide : (2 : ℕ) ≠ 0), h.table, hl₂]
  refine ⟨hfallen, ⟨htable, fun q hq hr => ?_, hfallen.blocked, ?_⟩, ?_⟩
  · rw [hs', committed] at hr
    dsimp only [cooled] at hr
    rw [Lookup.release_some hl, Function.update_apply, Function.update_apply] at hr
    split_ifs at hr
    · exact absurd (Option.some_inj.1 hr) (by decide)
    · have hq' := (h.inv.lookup 2 _).2 hr
      dsimp only at hq'
      rw [h.table, hl₂] at hq'
      exact (Prod.mk.inj (blockPageToPpn_inj (by decide) (by decide) (by decide) hq
        (Option.some_inj.1 hq'))).2.symm
  · rw [hs']
    exact h.inv.pageMode
  · rw [hs']
    rfl

/-- Marking the first block as cold leaves the states of the blocks alone. -/
theorem cooled_getFreeBlockCount (s : Ftl) :
    s.cooled.nand.getFreeBlockCount = s.nand.getFreeBlockCount := by
  have hstate (b : ℕ) : s.cooled.nand.getBlockState b = s.nand.getBlockState b := by
    have hblock : (s.cooled.nand.blocks b).state = (s.nand.blocks b).state := by
      rw [cooled_blocks, Function.update_apply]
      split
      · next hb => rw [hb, PhyBlock.markCold_state]
      · rfl
    rw [Nand.getBlockState, Nand.getBlockState, hblock]
    rfl
  have hfree : s.cooled.nand.freeBlocks = s.nand.freeBlocks := by
    rw [Nand.freeBlocks, Nand.freeBlocks, Nand.blocksIn, Nand.blocksIn]
    refine List.filter_congr fun b _ => ?_
    rw [hstate b]
  rw [Nand.getFreeBlockCount, Nand.getFreeBlockCount, hfree]
  rfl

/-- Writing the logical page 0 once more leaves the logical page 2 mapped to an erased block. -/
theorem Calm.write_stuck (h : Calm c L s) (hL : L.Cold) (buf : PageData) :
    ∃ s', s.cooled.write 0 0 buf = some (.ok, s') ∧
      s'.l2pTable 2 = some (blockPageToPpn 3 0) ∧ s'.nand.isPageValid 3 0 = false := by
  have ha : s.cooled.allocPhyPage =
      some (blockPageToPpn 3 2, { s.cooled with curWriteBlock := 3, curWritePage := 2 + 1 }) := by
    have hblock : s.cooled.curWriteBlock = 3 := h.block.trans hL.block
    have hpage : s.cooled.curWritePage = 2 := h.page.trans hL.page
    rw [allocPhyPage, hpage, if_pos (by decide), hblock]
  have hroom : ∀ b, 100 ≤ b → L.Empty b := by
    rintro b hb lpn ppn hl rfl
    rcases hL.cases hl with ⟨_, rfl⟩ | ⟨_, rfl⟩ | ⟨_, rfl⟩ | ⟨_, rfl⟩ <;>
      exact absurd hb (by decide)
  have hacc : s.cooled.nand.Accessible 3 2 := by
    refine ⟨h.inv.isBlockValid (by decide), by decide, ?_⟩
    rw [cooled_blocks, Function.update_of_ne (by decide : (3 : ℕ) ≠ 0)]
    exact h.good 3 (by decide)
  have hinvalid : (s.cooled.nand.blocks 3).pageValid 2 = false := by
    rw [cooled_blocks, Function.update_of_ne (by decide : (3 : ℕ) ≠ 0)]
    refine h.invalid (by decide) (by decide) fun lpn hl => ?_
    rcases hL.cases hl with ⟨_, heq⟩ | ⟨_, heq⟩ | ⟨_, heq⟩ | ⟨_, heq⟩ <;>
      exact absurd heq (by decide)
  have hppn : ∀ ppn, s.cooled.l2pTable 0 = some ppn → ppn < totalPpns := fun ppn hl =>
    h.inv.ppn_lt hl
  have hwrite : s.cooled.nand.pageWrite 3 2 buf = (.ok, s.cooled.nand.program 3 2 buf) :=
    Nand.pageWrite_of_invalid hacc hinvalid
  obtain ⟨files, sequence, count, hout⟩ := writeOut_eq hppn (by decide) (by decide) ha hwrite
  obtain ⟨hfallen, hstuck, hsince⟩ := h.stuck hL files sequence count buf rfl
  set s₁ := committed _ 0 (blockPageToPpn 3 2) with hs₁
  -- The write is the thousandth since the last check, so that the static levelling is due.
  have hcheck : s₁.checkWear = ({ s₁ with writeSinceLastCheck := 0 }).staticWearLevelingCheck := by
    rw [checkWear]
    dsimp only
    rw [hfallen.wearLevelingCheck, hsince, if_pos (by decide)]
  obtain ⟨hl₂, hmode, hv⟩ := Stuck.staticWearLevelingCheck (s := { s₁ with writeSinceLastCheck := 0 })
    { hstuck with } (by decide) (by decide) hfallen.staticWearPair
  rw [← hcheck] at hl₂ hmode hv
  refine ⟨s₁.checkWear, ?_, hl₂, hv⟩
  rw [Ftl.write, if_neg (not_not.2 (show s.cooled.isInitialized from h.inv.started)),
    if_neg (by decide), gcUntilSpace, cooled_getFreeBlockCount, if_neg (h.enough_free hroom)]
  dsimp only
  refine hout s₁ rfl fun heq => ?_
  rw [hmode] at heq
  exact MapMode.noConfusion heq

/-- By writes and garbage collections, a device is reached on which the logical page 2 is mapped to
    a valid page. After two more writes, it is mapped to the same page, which is not valid any
    more. -/
theorem exists_unmoved {allowed : Call → Prop} (hwrite : ∀ lpn buf, allowed (.write lpn buf))
    (hgc : allowed .triggerGc) : ∃ s₀ tr s tr' s', Fresh s₀ ∧
      Run (fun _ call => allowed call) s₀ tr s ∧ Run (fun _ call => allowed call) s tr' s' ∧
      (s.nand.blocks 3).pageValid 0 ∧ s'.l2pTable 2 = some (blockPageToPpn 3 0) ∧
      s'.nand.isPageValid 3 0 = false := by
  obtain ⟨c, L, s, ⟨s₀, tr, hfresh, hrun, -, hcalm⟩, hL⟩ := exists_uneven hwrite hgc
  -- The first write marks a block as cold, the second one takes its last page, as counted.
  obtain ⟨L', s₁, hcold, hL', hcalm'⟩ := hcalm.write_cold hL blankPage
  obtain ⟨s₂, hstuck, hl, hv⟩ := hcalm'.write_stuck hL' blankPage
  have hfirst : s.exec 0 (.write 3 blankPage) = some (⟨.ok, none⟩, s₁.cooled) := by
    rw [exec, hcold]
    rfl
  have hsecond : s₁.cooled.exec 0 (.write 0 blankPage) = some (⟨.ok, none⟩, s₂) := by
    rw [exec, hstuck]
    rfl
  have hmapped : L.table 2 = some (blockPageToPpn 3 0) := by
    rw [hL.table]
    rfl
  obtain ⟨d, -, hold⟩ := hcalm.holds hmapped
  have hvalid := hold.valid
  rw [ppnToBlock_mk (by decide) (by decide), ppnToPage_mk (by decide) (by decide)] at hvalid
  have hrun₁ : Run (fun _ call => allowed call) s [(.write 3 blankPage, ⟨.ok, none⟩)] s₁.cooled :=
    .single (hwrite 3 blankPage) ⟨0, hfirst⟩
  have hrun₂ := hrun₁.snoc (hwrite 0 blankPage) ⟨0, hsecond⟩
  exact ⟨s₀, tr, s, _, s₂, hfresh, hrun, hrun₂, hvalid, hl, hv⟩

/-- The calls that change the maps. -/
inductive MapCall : Call → Prop
  | write (lpn : ℕ) (buf : PageData) : MapCall (.write lpn buf)
  | trim (lpn count : UInt32) : MapCall (.trim lpn count)
  | triggerGc : MapCall .triggerGc
  | handleReadDisturb : MapCall .handleReadDisturb
  | replaceBadBlock (block : ℕ) : MapCall (.replaceBadBlock block)

/-- Without the condition that the calls are safe, a logical page may stay mapped to a page that is
    no longer valid. -/
theorem not_mapping_consistent : ¬ ∀ (s s' : Ftl) (tr : List (Call × Answer)), Fresh s →
    Run (fun _ call => MapCall call) s tr s' → s'.MappingConsistent := by
  intro hconsistent
  obtain ⟨s₀, tr, s, tr', s', hfresh, hrun, hrun', -, hl, hv⟩ :=
    exists_unmoved MapCall.write MapCall.triggerGc
  obtain ⟨-, -, hvalid⟩ := (hconsistent _ _ _ hfresh (hrun.append hrun')).mapped 2 _ hl
  rw [ppnToBlock_mk (by decide) (by decide), ppnToPage_mk (by decide) (by decide), hv] at hvalid
  exact Bool.false_ne_true hvalid

end Ftl

end FtlFirmware
