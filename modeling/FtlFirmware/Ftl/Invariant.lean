import FtlFirmware.Ftl.System
import FtlFirmware.Nand.Effect

/-!
# The invariant of the device

The contents of the device are those of a *store*, which has at most one page of data for each
logical page (`Store`). The device *has* these contents (`Inv`) if each logical page with data is
mapped to a physical page that holds the data, the map back is the inverse of the map, and the
write cursor has only invalid pages ahead. The counters of the blocks show whether they have
valid pages, except for the blocks of a set `X`, which a relocation is about to empty.

The lemmas of this module say how the parts of the operations, each of which changes the metadata
of one block or one entry of the maps, act on the contents.
-/

namespace FtlFirmware

/-- The contents of a device: the data of its logical pages. -/
abbrev Store := ℕ → Option PageData

namespace Ftl

/-- The physical page `ppn` holds the data `d`. -/
def HoldsAt (n : Nand) (ppn : ℕ) (d : PageData) : Prop :=
  n.Holds (ppnToBlock ppn) (ppnToPage ppn) d

/-- The device has the contents `c`; its blocks are counted, except for those of `X`. -/
structure Inv (X : Set ℕ) (c : Store) (s : Ftl) : Prop where
  on : s.nand.isInitialized
  started : s.isInitialized
  pageMode : s.mapMode = .page
  noBlockMap : ∀ lb, (s.blockMap lb).isValid = false
  block_lt : s.curWriteBlock < totalBlocks
  page_le : s.curWritePage ≤ pagesPerBlock
  ahead : ∀ p, s.curWritePage ≤ p → p < pagesPerBlock →
    (s.nand.blocks s.curWriteBlock).pageValid p = false
  counted : ∀ b, b < totalBlocks → b ∉ X → (s.nand.blocks b).Counted
  lookup : Lookup s.l2pTable s.reverseMap
  lpn_lt : ∀ lpn ppn, s.l2pTable lpn = some ppn → lpn < totalLpns
  mapped : ∀ lpn ppn, s.l2pTable lpn = some ppn → ∃ d, c lpn = some d ∧ HoldsAt s.nand ppn d
  unmapped : ∀ lpn, s.l2pTable lpn = none → c lpn = none

/-- The next free block is a free block of the device. -/
theorem findNextFreeBlock_spec {s : Ftl} {start b : ℕ} (hf : s.findNextFreeBlock start = some b) :
    s.nand.isBlockValid b ∧ (s.nand.blocks b).state = .free := by
  rw [findNextFreeBlock] at hf
  have hstate := List.find?_some hf
  rw [decide_eq_true_eq] at hstate
  exact (Nand.getBlockState_eq (by decide)).1 hstate

namespace Inv

variable {X Y : Set ℕ} {c : Store} {s s' : Ftl} {b p lpn ppn oldPpn newPpn : ℕ} {d : PageData}
  {ret : RetCode}

/-! ## What the invariant says -/

/-- A logical page is mapped to a page of the device. -/
theorem ppn_lt (h : Inv X c s) (hl : s.l2pTable lpn = some ppn) : ppn < totalPpns := by
  obtain ⟨d, _, hd⟩ := h.mapped lpn ppn hl
  exact ppnToBlock_lt_iff.1 (Nand.isBlockValid_iff.1 hd.blockValid).1

/-- A page that is not valid is not mapped. -/
theorem reverseMap_of_invalid (h : Inv X c s) (hv : (s.nand.blocks (ppnToBlock ppn)).pageValid
    (ppnToPage ppn) = false) : s.reverseMap ppn = none := by
  cases hr : s.reverseMap ppn with
  | none => rfl
  | some lpn =>
    obtain ⟨d, _, hd⟩ := h.mapped lpn ppn ((h.lookup lpn ppn).2 hr)
    exact absurd rfl (hd.ne_of_invalid hv)

/-- A mapped page, with the data that it holds. -/
theorem of_reverseMap (h : Inv X c s) (hr : s.reverseMap ppn = some lpn) :
    s.l2pTable lpn = some ppn ∧ ∃ d, c lpn = some d ∧ HoldsAt s.nand ppn d := by
  have hl := (h.lookup lpn ppn).2 hr
  exact ⟨hl, h.mapped lpn ppn hl⟩

/-- A block is a block of the device if it is in range. -/
theorem isBlockValid (h : Inv X c s) (hb : b < totalBlocks) : s.nand.isBlockValid b :=
  Nand.isBlockValid_iff.2 ⟨hb, h.on⟩

/-- A free block has no valid page. -/
theorem invalid_of_free (h : Inv ∅ c s) (hb : b < totalBlocks)
    (hfree : (s.nand.blocks b).state = .free) (hp : p < pagesPerBlock) :
    (s.nand.blocks b).pageValid p = false :=
  (h.counted b hb (Set.notMem_empty b)).pageValid_of_free hfree hp

/-- Nothing is mapped to a block if nothing is mapped back from its pages. -/
theorem unmapped_block (h : Inv X c s) (hb : b < totalBlocks)
    (hr : ∀ p < pagesPerBlock, s.reverseMap (blockPageToPpn b p) = none) :
    ∀ lpn ppn, s.l2pTable lpn = some ppn → ppnToBlock ppn ≠ b := by
  rintro lpn ppn hl rfl
  have hppn := hr (ppnToPage ppn) ppnToPage_lt
  rw [blockPageToPpn_self (ppnToBlock_lt_iff.1 hb), (h.lookup lpn ppn).1 hl] at hppn
  exact Option.some_ne_none _ hppn

/-! ## Steps of the operations -/

/-- The parts of the device that the invariant does not look at do not matter. -/
theorem congr (h : Inv X c s)
    (hsame : (s'.nand, s'.l2pTable, s'.reverseMap, s'.curWriteBlock, s'.curWritePage,
        s'.isInitialized, s'.mapMode, s'.blockMap) =
      (s.nand, s.l2pTable, s.reverseMap, s.curWriteBlock, s.curWritePage,
        s.isInitialized, s.mapMode, s.blockMap)) : Inv X c s' := by
  simp only [Prod.mk.injEq] at hsame
  obtain ⟨hnand, hl2p, hrev, hblock, hpage, hinit, hmode, hblockMap⟩ := hsame
  constructor
  · rw [hnand]; exact h.on
  · rw [hinit]; exact h.started
  · rw [hmode]; exact h.pageMode
  · rw [hblockMap]; exact h.noBlockMap
  · rw [hblock]; exact h.block_lt
  · rw [hpage]; exact h.page_le
  · rw [hnand, hblock, hpage]; exact h.ahead
  · rw [hnand]; exact h.counted
  · rw [hl2p, hrev]; exact h.lookup
  · rw [hl2p]; exact h.lpn_lt
  · rw [hl2p, hnand]; exact h.mapped
  · rw [hl2p]; exact h.unmapped

/-- Blocks may be exempt from the count. -/
theorem weaken (h : Inv X c s) (hXY : X ⊆ Y) : Inv Y c s :=
  { h with counted := fun b hb hY => h.counted b hb fun hX => hY (hXY hX) }

/-- The write cursor may be at the end of its block. -/
theorem park (h : Inv X c s) : Inv X c { s with curWritePage := pagesPerBlock } :=
  { h with
    page_le := le_rfl
    ahead := fun _ hp hlt => absurd hp (Nat.not_le.2 hlt) }

/-- A change of the NAND device that keeps what the mapped pages hold. -/
theorem nand (h : Inv X c s) {n : Nand} (hon : n.isInitialized)
    (hahead : ∀ p, s.curWritePage ≤ p → p < pagesPerBlock →
      (n.blocks s.curWriteBlock).pageValid p = false)
    (hcounted : ∀ b, b < totalBlocks → b ∉ Y → (n.blocks b).Counted)
    (hholds : ∀ lpn ppn d, s.l2pTable lpn = some ppn → HoldsAt s.nand ppn d → HoldsAt n ppn d) :
    Inv Y c { s with nand := n } :=
  { h with
    on := hon
    ahead := hahead
    counted := hcounted
    mapped := fun lpn ppn hl => by
      obtain ⟨d, hd, hold⟩ := h.mapped lpn ppn hl
      exact ⟨d, hd, hholds lpn ppn d hl hold⟩ }

/-- A read of a page. -/
theorem countRead (h : Inv X c s) (ecc : EccResult) :
    Inv X c { s with nand := s.nand.countRead b ecc } := by
  refine h.nand h.on (fun p hp hlt => ?_) (fun b' hb' hX => ?_) fun lpn ppn d _ hd =>
    Nand.Holds.countRead hd ecc
  · rw [Nand.countRead_blocks]
    rcases eq_or_ne s.curWriteBlock b with hb | hb
    · rw [← hb, Function.update_self]
      exact h.ahead p hp hlt
    · rw [Function.update_of_ne hb]
      exact h.ahead p hp hlt
  · rw [Nand.countRead_blocks]
    rcases eq_or_ne b' b with rfl | hb
    · rw [Function.update_self]
      exact (h.counted b' hb' hX).countRead
    · rw [Function.update_of_ne hb]
      exact h.counted b' hb' hX

/-- Programming a page behind the write cursor or outside its block. -/
theorem program (h : Inv X c s) (hacc : s.nand.Accessible b p)
    (hv : (s.nand.blocks b).pageValid p = false) (hX : b ∉ X)
    (hbehind : b = s.curWriteBlock → p < s.curWritePage) :
    Inv X c { s with nand := s.nand.program b p d } := by
  have hb := (Nand.isBlockValid_iff.1 hacc.blockValid).1
  refine h.nand h.on (fun q hq hlt => ?_) (fun b' hb' hX' => ?_) fun lpn ppn d' _ hd =>
    Nand.Holds.program hd hv
  · rw [Nand.program_blocks]
    rcases eq_or_ne s.curWriteBlock b with hcur | hcur
    · have hne : q ≠ p := (Nat.lt_of_lt_of_le (hbehind hcur.symm) hq).ne'
      rw [hcur, Function.update_self, PhyBlock.program_pageValid, Function.update_of_ne hne, ← hcur]
      exact h.ahead q hq hlt
    · rw [Function.update_of_ne hcur]
      exact h.ahead q hq hlt
  · rw [Nand.program_blocks]
    rcases eq_or_ne b' b with rfl | hne
    · rw [Function.update_self]
      exact (h.counted b' hb hX).program hacc.good hacc.page_lt hv
    · rw [Function.update_of_ne hne]
      exact h.counted b' hb' hX'

/-- Moving a logical page in the maps to a page that holds the same data. -/
theorem remap (h : Inv X c s) (hl : s.l2pTable lpn = some oldPpn) (hd : c lpn = some d)
    (hnew : HoldsAt s.nand newPpn d) (hr : s.reverseMap newPpn = none) :
    Inv X c (s.remap lpn oldPpn newPpn) :=
  { h with
    lookup := h.lookup.move hl hr
    lpn_lt := fun lpn' ppn hl' => by
      rcases eq_or_ne lpn' lpn with rfl | hne
      · exact h.lpn_lt lpn' oldPpn hl
      · rw [remap_l2pTable, Function.update_of_ne hne] at hl'
        exact h.lpn_lt lpn' ppn hl'
    mapped := fun lpn' ppn hl' => by
      rcases eq_or_ne lpn' lpn with rfl | hne
      · rw [remap_l2pTable, Function.update_self, Option.some_inj] at hl'
        exact ⟨d, hd, hl' ▸ hnew⟩
      · rw [remap_l2pTable, Function.update_of_ne hne] at hl'
        exact h.mapped lpn' ppn hl'
    unmapped := fun lpn' hl' => by
      rcases eq_or_ne lpn' lpn with rfl | hne
      · rw [remap_l2pTable, Function.update_self] at hl'
        exact absurd hl' (Option.some_ne_none _)
      · rw [remap_l2pTable, Function.update_of_ne hne] at hl'
        exact h.unmapped lpn' hl' }

/-- Mapping a logical page, whatever it was mapped to, to a page that holds new data. -/
theorem assign (h : Inv X c s) (hlpn : lpn < totalLpns) (hnew : HoldsAt s.nand newPpn d)
    (hr : s.reverseMap newPpn = none) :
    Inv X (Function.update c lpn (some d)) { s with
      l2pTable := Function.update s.l2pTable lpn (some newPpn)
      reverseMap :=
        Function.update (Lookup.release s.l2pTable s.reverseMap lpn) newPpn (some lpn) } :=
  { h with
    lookup := h.lookup.assign hr
    lpn_lt := fun lpn' ppn hl' => by
      dsimp only at hl'
      rcases eq_or_ne lpn' lpn with rfl | hne
      · exact hlpn
      · rw [Function.update_of_ne hne] at hl'
        exact h.lpn_lt lpn' ppn hl'
    mapped := fun lpn' ppn hl' => by
      dsimp only at hl'
      rcases eq_or_ne lpn' lpn with rfl | hne
      · rw [Function.update_self, Option.some_inj] at hl'
        exact ⟨d, Function.update_self _ _ _, hl' ▸ hnew⟩
      · rw [Function.update_of_ne hne] at hl'
        rw [Function.update_of_ne hne]
        exact h.mapped lpn' ppn hl'
    unmapped := fun lpn' hl' => by
      dsimp only at hl'
      rcases eq_or_ne lpn' lpn with rfl | hne
      · rw [Function.update_self] at hl'
        exact absurd hl' (Option.some_ne_none _)
      · rw [Function.update_of_ne hne] at hl'
        rw [Function.update_of_ne hne]
        exact h.unmapped lpn' hl' }

/-- Removing a logical page from the maps. -/
theorem unmap (h : Inv X c s) (hl : s.l2pTable lpn = some ppn) :
    Inv X (Function.update c lpn none) { s with
      l2pTable := Function.update s.l2pTable lpn none
      reverseMap := Function.update s.reverseMap ppn none } :=
  { h with
    lookup := h.lookup.remove hl
    lpn_lt := fun lpn' ppn' hl' => by
      dsimp only at hl'
      rcases eq_or_ne lpn' lpn with rfl | hne
      · exact h.lpn_lt lpn' ppn hl
      · rw [Function.update_of_ne hne] at hl'
        exact h.lpn_lt lpn' ppn' hl'
    mapped := fun lpn' ppn' hl' => by
      dsimp only at hl'
      rcases eq_or_ne lpn' lpn with rfl | hne
      · rw [Function.update_self] at hl'
        exact absurd hl'.symm (Option.some_ne_none _)
      · rw [Function.update_of_ne hne] at hl'
        rw [Function.update_of_ne hne]
        exact h.mapped lpn' ppn' hl'
    unmapped := fun lpn' hl' => by
      dsimp only at hl'
      rcases eq_or_ne lpn' lpn with rfl | hne
      · exact Function.update_self _ _ _
      · rw [Function.update_of_ne hne] at hl'
        rw [Function.update_of_ne hne]
        exact h.unmapped lpn' hl' }

/-- Invalidating a page that is not mapped. Its block must be able to lose it, unless it is exempt
    from the count. -/
theorem invalidate (h : Inv X c s) (hr : s.reverseMap ppn = none)
    (hcnt : ppnToBlock ppn ∈ X ∨ (s.nand.blocks (ppnToBlock ppn)).Spares 1) :
    Inv X c { s with
      nand := (s.nand.markPageInvalid (ppnToBlock ppn) (ppnToPage ppn)).2 } := by
  rcases s.nand.markPageInvalid_cases (ppnToBlock ppn) (ppnToPage ppn) with ⟨hacc, hv, heq⟩ | heq
  · rw [heq]
    have hb := (Nand.isBlockValid_iff.1 hacc.blockValid).1
    refine h.nand h.on (fun q hq hlt => ?_) (fun b' hb' hX => ?_) fun lpn ppn' d hl hd => ?_
    · rw [Nand.setBlock_blocks]
      rcases eq_or_ne s.curWriteBlock (ppnToBlock ppn) with hcur | hcur
      · rw [hcur, Function.update_self, PhyBlock.invalidate_pageValid]
        rcases eq_or_ne q (ppnToPage ppn) with rfl | hne
        · exact Function.update_self _ _ _
        · rw [Function.update_of_ne hne, ← hcur]
          exact h.ahead q hq hlt
      · rw [Function.update_of_ne hcur]
        exact h.ahead q hq hlt
    · rw [Nand.setBlock_blocks]
      rcases eq_or_ne b' (ppnToBlock ppn) with rfl | hne
      · rw [Function.update_self]
        exact (h.counted _ hb hX).invalidate hacc.good hacc.page_lt hv (hcnt.resolve_left hX)
      · rw [Function.update_of_ne hne]
        exact h.counted b' hb' hX
    · -- The page is not mapped, so every mapped page is another one.
      refine Nand.Holds.invalidate hd fun hpair => ?_
      obtain ⟨hblock, hpage⟩ := Prod.mk.inj hpair
      have hppn : ppn' = ppn := by
        rw [← blockPageToPpn_self (h.ppn_lt hl), hblock, hpage,
          blockPageToPpn_self (ppnToBlock_lt_iff.1 hb)]
      rw [hppn, h.lookup, hr] at hl
      exact absurd hl.symm (Option.some_ne_none _)
  · rw [heq]
    exact h.congr rfl

/-- Erasing a block to whose pages nothing is mapped, with any outcome. -/
theorem blockErase (h : Inv X c s) (hun : ∀ lpn ppn, s.l2pTable lpn = some ppn → ppnToBlock ppn ≠ b) :
    Inv (X \ {b}) c { s with nand := (s.nand.blockErase b).2 } := by
  have hcounted {blk : PhyBlock} (hblk : blk.Counted) : ∀ b', b' < totalBlocks → b' ∉ X \ {b} →
      (Function.update s.nand.blocks b blk b').Counted := by
    intro b' hb' hX
    rcases eq_or_ne b' b with rfl | hne
    · rwa [Function.update_self]
    · rw [Function.update_of_ne hne]
      exact h.counted b' hb' fun hmem => hX ⟨hmem, hne⟩
  have hahead {blk : PhyBlock} (hblk : ∀ p, (s.nand.blocks b).pageValid p = false →
      blk.pageValid p = false) : ∀ p, s.curWritePage ≤ p → p < pagesPerBlock →
      (Function.update s.nand.blocks b blk s.curWriteBlock).pageValid p = false := by
    intro p hp hlt
    rcases eq_or_ne s.curWriteBlock b with hcur | hcur
    · rw [hcur, Function.update_self]
      exact hblk p (hcur ▸ h.ahead p hp hlt)
    · rw [Function.update_of_ne hcur]
      exact h.ahead p hp hlt
  have hholds : ∀ lpn ppn d, s.l2pTable lpn = some ppn → HoldsAt s.nand ppn d →
      HoldsAt (s.nand.blockErase b).2 ppn d := fun lpn ppn d hl hd =>
    Nand.Holds.blockErase hd (hun lpn ppn hl)
  rcases s.nand.blockErase_cases b with ⟨r, _, heq⟩ | ⟨r, _, _, heq⟩ | ⟨_, _, heq, hbad⟩ <;>
    rw [heq] at hholds ⊢
  · exact h.nand h.on (hahead fun _ _ => rfl) (hcounted .erase) hholds
  · exact h.nand h.on (hahead fun _ hv => hv) (hcounted (.of_bad rfl)) hholds
  · refine h.nand h.on h.ahead (fun b' hb' hX => ?_) hholds
    rcases eq_or_ne b' b with rfl | hne
    · exact .of_bad (hbad (h.isBlockValid hb'))
    · exact h.counted b' hb' fun hmem => hX ⟨hmem, hne⟩

/-- Marking a block as cold. -/
theorem markColdBlock (h : Inv X c s) : Inv X c { s with nand := (s.nand.markColdBlock b).2 } := by
  rcases s.nand.markColdBlock_cases b with ⟨hu, heq⟩ | heq
  · rw [heq]
    refine h.nand h.on (fun q hq hlt => ?_) (fun b' hb' hX => ?_) fun lpn ppn d _ hd =>
      Nand.Holds.markCold hd
    · rw [Nand.setBlock_blocks]
      rcases eq_or_ne s.curWriteBlock b with hcur | hcur
      · rw [hcur, Function.update_self, PhyBlock.markCold_pageValid, ← hcur]
        exact h.ahead q hq hlt
      · rw [Function.update_of_ne hcur]
        exact h.ahead q hq hlt
    · rw [Nand.setBlock_blocks]
      rcases eq_or_ne b' b with rfl | hne
      · rw [Function.update_self]
        exact (h.counted b' hb' hX).markCold hu
      · rw [Function.update_of_ne hne]
        exact h.counted b' hb' hX
  · rw [heq]
    exact h.congr rfl

end Inv

end Ftl

end FtlFirmware
