import FtlFirmware.Nand.Basic

/-!
# The FTL device

The flash translation layer (`Ftl`) maps logical pages, given by their number, the LPN, to
physical pages, given by theirs, the PPN: `l2pTable` is the map and `reverseMap` the map back. An
entry without a counterpart (`FTL_INVALID_PPN`, `FTL_INVALID_LPN`) is `none`. New data goes to the
*write cursor*, the page `curWritePage` of the block `curWriteBlock`.

The functions are those of `ftl.c`. The state includes the NAND device below and the files of the
host, which hold the log and the snapshots. The C code indexes `l2pTable` and `reverseMap` by
values taken from tables, files or arguments; where such an index may be out of range, the
function answers `none`, as the C code has no defined behaviour then.
-/

namespace FtlFirmware

/-- The number of physical pages. -/
abbrev totalPpns : ℕ := totalBlocks * pagesPerBlock

/-- The number of logical pages (`FTL_TOTAL_LPNS`). -/
abbrev totalLpns : ℕ := totalPpns * 7 / 10

/-- The number of free blocks up to which a write collects garbage
    (`FTL_GC_TRIGGER_THRESHOLD`). -/
abbrev gcTriggerThreshold : ℕ := 5

/-- The difference of erase counts above which a block is marked cold
    (`FTL_WEAR_DIFF_THRESHOLD`). -/
abbrev wearDiffThreshold : UInt32 := 50

/-- The difference of erase counts above which a block is moved (`FTL_STATIC_WEAR_THRESHOLD`). -/
abbrev staticWearThreshold : UInt32 := 100

/-- The number of writes between two static wear checks (`FTL_STATIC_WEAR_INTERVAL`). -/
abbrev staticWearInterval : UInt32 := 1000

/-- The marker of no block (`FTL_INVALID_BLOCK`), which is also the largest 32-bit number. -/
abbrev invalidBlock : ℕ := 0xFFFFFFFF

/-- The number of logical pages in a logical block (`FTL_LOGICAL_BLOCK_PAGES`). -/
abbrev logicalBlockPages : ℕ := 64

/-- The number of logical blocks. -/
abbrev totalLogicalBlocks : ℕ := totalLpns / logicalBlockPages

/-- The algorithms of the garbage collection (`gc_algo_type_t`). -/
inductive GcAlgo
  | greedy
  | costBenefit
  | cat
  | windowed
  | dChoices
  | fra
  deriving DecidableEq, Repr

/-- The mapping modes (`map_mode_t`). -/
inductive MapMode
  | page
  | hybrid
  deriving DecidableEq, Repr

/-- An entry of the map of logical blocks (`block_map_entry_t`). -/
structure BlockMapEntry where
  physicalBlock : ℕ
  isValid : Bool
  isHot : Bool
  accessCount : UInt32
  deriving DecidableEq, Repr

/-- The FTL device (`ftl_dev_t`), with the NAND device and the files of the host. The log is open
    if `walFile` names its file. -/
structure Ftl where
  nand : Nand
  files : String → Option (List UInt8)
  l2pTable : ℕ → Option ℕ
  reverseMap : ℕ → Option ℕ
  curWriteBlock : ℕ
  curWritePage : ℕ
  hostWritePages : UInt32
  nandWritePages : UInt32
  gcCount : UInt32
  gcMovedPages : UInt32
  wearLevelingCount : UInt32
  staticWearCount : UInt32
  staticWearMovedPages : UInt32
  trimCount : UInt32
  trimPages : UInt32
  badBlockReplaceCount : UInt32
  badBlockMovedPages : UInt32
  writeSinceLastCheck : UInt32
  gcAlgo : GcAlgo
  mapMode : MapMode
  walFile : Option String
  walSequence : UInt32
  walEntryCount : UInt32
  walEnabled : Bool
  blockMap : ℕ → BlockMapEntry
  hotColdCheckCount : UInt32
  hotColdMigrationCount : UInt32
  isInitialized : Bool

/-! ## Addresses -/

/-- The block of a physical page (`ppn_to_block`). -/
def ppnToBlock (ppn : ℕ) : ℕ := ppn / pagesPerBlock

/-- The number of a physical page in its block (`ppn_to_page`). -/
def ppnToPage (ppn : ℕ) : ℕ := ppn % pagesPerBlock

/-- The number of a physical page (`block_page_to_ppn`), a 32-bit number. -/
def blockPageToPpn (block page : ℕ) : ℕ := (block * pagesPerBlock + page) % 2 ^ 32

section Addresses

variable {b p ppn : ℕ}

/-- The number of a page of the device does not wrap. -/
theorem blockPageToPpn_eq (hb : b < totalBlocks) (hp : p < pagesPerBlock) :
    blockPageToPpn b p = b * 256 + p := by
  simp only [totalBlocks, pagesPerBlock, blockPageToPpn] at *
  omega

/-- The number of a page of the device is in range. -/
theorem blockPageToPpn_lt (hb : b < totalBlocks) (hp : p < pagesPerBlock) :
    blockPageToPpn b p < totalPpns := by
  rw [blockPageToPpn_eq hb hp]
  simp only [totalPpns, totalBlocks, pagesPerBlock] at *
  omega

/-- The block of a page of the device. -/
theorem ppnToBlock_mk (hb : b < totalBlocks) (hp : p < pagesPerBlock) :
    ppnToBlock (blockPageToPpn b p) = b := by
  rw [blockPageToPpn_eq hb hp]
  simp only [ppnToBlock, pagesPerBlock] at *
  omega

/-- The page of a page of the device in its block. -/
theorem ppnToPage_mk (hb : b < totalBlocks) (hp : p < pagesPerBlock) :
    ppnToPage (blockPageToPpn b p) = p := by
  rw [blockPageToPpn_eq hb hp]
  simp only [ppnToPage, pagesPerBlock] at *
  omega

/-- A page in its block is in range. -/
theorem ppnToPage_lt : ppnToPage ppn < pagesPerBlock := Nat.mod_lt _ (by decide)

/-- A page is in range if its block is. -/
theorem ppnToBlock_lt_iff : ppnToBlock ppn < totalBlocks ↔ ppn < totalPpns := by
  simp only [ppnToBlock, totalPpns, totalBlocks, pagesPerBlock]
  omega

/-- The number of a page from its block and its number in the block. -/
theorem blockPageToPpn_self (h : ppn < totalPpns) :
    blockPageToPpn (ppnToBlock ppn) (ppnToPage ppn) = ppn := by
  rw [blockPageToPpn_eq (ppnToBlock_lt_iff.2 h) ppnToPage_lt]
  exact Nat.div_add_mod' ppn 256

/-- The pages of the device have different numbers. -/
theorem blockPageToPpn_inj {b' p' : ℕ} (hb : b < totalBlocks) (hp : p < pagesPerBlock)
    (hb' : b' < totalBlocks) (hp' : p' < pagesPerBlock)
    (h : blockPageToPpn b p = blockPageToPpn b' p') : (b, p) = (b', p') := by
  have hblock := congrArg ppnToBlock h
  have hpage := congrArg ppnToPage h
  rw [ppnToBlock_mk hb hp, ppnToBlock_mk hb' hp'] at hblock
  rw [ppnToPage_mk hb hp, ppnToPage_mk hb' hp'] at hpage
  rw [hblock, hpage]

/-- The pages of a block, around one of them. -/
theorem range_pagesPerBlock (hp : p < pagesPerBlock) : List.range pagesPerBlock =
    List.range p ++ p :: List.range' (p + 1) (pagesPerBlock - (p + 1)) := by
  have hlen : pagesPerBlock = p + (1 + (pagesPerBlock - (p + 1))) := by omega
  conv_lhs => rw [hlen, List.range_eq_range', ← List.range'_append_1, Nat.zero_add,
    Nat.add_comm 1, List.range'_succ]
  rw [List.range_eq_range']

end Addresses

namespace Ftl

/-! ## Power on -/

/-- The device before it is initialised: the static zeros of the C program. -/
def zero (nand : Nand) (files : String → Option (List UInt8)) : Ftl where
  nand := nand
  files := files
  l2pTable := fun _ => some 0
  reverseMap := fun _ => some 0
  curWriteBlock := 0
  curWritePage := 0
  hostWritePages := 0
  nandWritePages := 0
  gcCount := 0
  gcMovedPages := 0
  wearLevelingCount := 0
  staticWearCount := 0
  staticWearMovedPages := 0
  trimCount := 0
  trimPages := 0
  badBlockReplaceCount := 0
  badBlockMovedPages := 0
  writeSinceLastCheck := 0
  gcAlgo := .greedy
  mapMode := .page
  walFile := none
  walSequence := 0
  walEntryCount := 0
  walEnabled := false
  blockMap := fun _ => ⟨0, false, false, 0⟩
  hotColdCheckCount := 0
  hotColdMigrationCount := 0
  isInitialized := false

variable (s : Ftl)

/-- The next free block from the block `start` on (`ftl_find_next_free_block`): to the end of
    the user area, then from the first block up to `start`. -/
def findNextFreeBlock (start : ℕ) : Option ℕ :=
  (List.range' start (userBlocks - start) ++ List.range start).find?
    fun i => s.nand.getBlockState i = .free

/-- The device as `ftl_init` leaves it: nothing is mapped, and the write cursor is at the block
    `firstBlock`. -/
def started (firstBlock : ℕ) : Ftl :=
  { zero s.nand s.files with
    l2pTable := fun _ => none
    reverseMap := fun _ => none
    curWriteBlock := firstBlock
    walEnabled := true
    blockMap := fun _ => ⟨invalidBlock, false, false, 0⟩
    isInitialized := true }

/-- Initialises the device (`ftl_init`). Without a free block, only the maps are cleared. -/
def init : RetCode × Ftl :=
  match s.findNextFreeBlock 0 with
  | none => (.errNoSpace, { s with l2pTable := fun _ => none, reverseMap := fun _ => none })
  | some firstBlock => (.ok, s.started firstBlock)

/-- The device after power on with new media: `nand_init`, then `ftl_init`. -/
def powerOn (rand : ℕ → ℕ) (files : String → Option (List UInt8)) : RetCode × Ftl :=
  (zero (Nand.init none rand) files).init

/-! ## Allocation and mapping -/

/-- Takes the page at the write cursor (`ftl_alloc_phy_page`). After the last page of a block, the
    cursor goes on to the next free block, if there is one. -/
def allocPhyPage : Option (ℕ × Ftl) :=
  if s.curWritePage < pagesPerBlock then
    some (blockPageToPpn s.curWriteBlock s.curWritePage,
      { s with curWritePage := s.curWritePage + 1 })
  else
    match s.findNextFreeBlock ((s.curWriteBlock + 1) % 2 ^ 32) with
    | none => none
    | some nextBlock =>
      some (blockPageToPpn nextBlock 0, { s with curWriteBlock := nextBlock, curWritePage := 1 })

/-- Moves the logical page `lpn` from one physical page to another, in both maps. -/
def remap (lpn oldPpn newPpn : ℕ) : Ftl :=
  { s with
    l2pTable := Function.update s.l2pTable lpn (some newPpn)
    reverseMap := Function.update (Function.update s.reverseMap newPpn (some lpn)) oldPpn none }

section Remap

variable {s} {lpn oldPpn newPpn : ℕ}

@[simp] theorem remap_nand : (s.remap lpn oldPpn newPpn).nand = s.nand := rfl

@[simp] theorem remap_l2pTable :
    (s.remap lpn oldPpn newPpn).l2pTable = Function.update s.l2pTable lpn (some newPpn) := rfl

@[simp] theorem remap_reverseMap :
    (s.remap lpn oldPpn newPpn).reverseMap =
      Function.update (Function.update s.reverseMap newPpn (some lpn)) oldPpn none := rfl

end Remap

end Ftl

end FtlFirmware
