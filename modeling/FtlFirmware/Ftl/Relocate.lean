import FtlFirmware.Ftl.Gc

/-!
# Wear levelling, read disturb and bad blocks

Besides the garbage collection, three operations move the mapped pages of a block to another
block, each page keeping its number: the static wear levelling (`staticWearLevelingCheck`), the
handling of read disturb (`handleReadDisturb`) and the replacement of a block
(`replaceBadBlock`). The first two share one loop, `migratePages`.

The dynamic wear levelling (`wearLevelingCheck`) moves nothing, but marks a block as cold.
-/

namespace FtlFirmware

namespace Ftl

variable (s : Ftl)

/-! ## Wear levelling -/

/-- One step of the scan of `wear_leveling_check`, over the largest and the smallest erase count
    and the used block, if any, at which the latter was last lowered. -/
def wearScanStep (n : Nand) (acc : UInt32 × UInt32 × Option ℕ) (i : ℕ) :
    UInt32 × UInt32 × Option ℕ :=
  if n.getBlockState i = .bad then acc
  else
    let eraseCnt := n.getBlockEraseCount i
    (if acc.1 < eraseCnt then eraseCnt else acc.1,
      if eraseCnt < acc.2.1 then eraseCnt else acc.2.1,
      if eraseCnt < acc.2.1 ∧ n.getBlockState i = .used then some i else acc.2.2)

/-- The scan of `wear_leveling_check`. -/
def wearScan (n : Nand) : UInt32 × UInt32 × Option ℕ :=
  (List.range userBlocks).foldl (wearScanStep n) (0, 0xFFFFFFFF, none)

/-- The dynamic wear levelling (`wear_leveling_check`). -/
def wearLevelingCheck : Ftl :=
  let scanned := wearScan s.nand
  if wearDiffThreshold < scanned.1 - scanned.2.1 then
    match scanned.2.2 with
    | none => s
    | some coldBlock =>
      let marked := s.nand.markColdBlock coldBlock
      { s with
        nand := marked.2
        wearLevelingCount := s.wearLevelingCount + if marked.1 = .ok then 1 else 0 }
  else s

/-- Moves the page `page` of the block `src`, to which `lpn` is mapped, to the same page of the
    block `dst`, through the buffer `buf`. A page that cannot be written stays. -/
def migratePage (src dst page lpn : ℕ) (buf : PageData) : RetCode × PageData × Ftl :=
  let read := s.nand.pageRead src page buf
  match read.2.2.pageWrite dst page read.2.1 with
  | (.ok, nand) =>
    let s := remap { s with nand := nand, nandWritePages := s.nandWritePages + 1 } lpn
      (blockPageToPpn src page) (blockPageToPpn dst page)
    (.ok, read.2.1, { s with nand := (s.nand.markPageInvalid src page).2 })
  | (ret, nand) => (ret, read.2.1, { s with nand := nand })

/-- Moves the mapped pages among `pages` of the block `src` to the block `dst`, and counts
    them. -/
def migratePages (src dst : ℕ) (buf : PageData) (moved : UInt32) : List ℕ → Ftl → UInt32 × Ftl
  | [], s => (moved, s)
  | page :: pages, s =>
    if ¬ s.nand.isPageValid src page then migratePages src dst buf moved pages s
    else
      match s.reverseMap (blockPageToPpn src page) with
      | none => migratePages src dst buf moved pages s
      | some lpn =>
        match s.migratePage src dst page lpn buf with
        | (.ok, buf, s) => migratePages src dst buf (moved + 1) pages s
        | (_, buf, s) => migratePages src dst buf moved pages s

/-- The used block that has been erased most often and the free one that has been erased least
    often, if the static wear levelling is to move the one to the other. The difference is
    one of unsigned numbers. -/
def staticWearPair (n : Nand) : Option (ℕ × ℕ) :=
  let worn := scan (fun a b => decide (b < a)) n.getBlockEraseCount 0 n.usedBlocks
  let unworn := scan (fun a b => decide (a < b)) n.getBlockEraseCount 0xFFFFFFFF n.freeBlocks
  if staticWearThreshold < worn.1 - unworn.1 then
    match worn.2, unworn.2 with
    | some src, some dst => some (src, dst)
    | _, _ => none
  else none

/-- The static wear levelling (`static_wear_leveling_check`). -/
def staticWearLevelingCheck : Ftl :=
  match staticWearPair s.nand with
  | none => s
  | some (src, dst) =>
    let migrated := migratePages src dst blankPage 0 (List.range pagesPerBlock) s
    let s := migrated.2
    { s with
      nand := (s.nand.blockErase src).2
      staticWearCount := s.staticWearCount + 1
      staticWearMovedPages := s.staticWearMovedPages + migrated.1 }

/-! ## Read disturb -/

/-- Moves the block that has been read most often, if it is to be reclaimed, to the first free
    block (`ftl_handle_read_disturb`). -/
def handleReadDisturb : RetCode × Ftl :=
  if ¬ s.isInitialized then (.errNotInit, s)
  else
    match s.nand.checkReadDisturb with
    | none => (.ok, s)
    | some src =>
      match s.findNextFreeBlock 0 with
      | none => (.errNoSpace, s)
      | some dst =>
        let s := (migratePages src dst blankPage 0 (List.range pagesPerBlock) s).2
        (.ok, { s with nand := (s.nand.blockErase src).2 })

/-! ## Bad blocks -/

/-- Moves the logical pages mapped to the pages `pages` of a block to the same pages of another
    one, in the maps only, and counts them. -/
def remapPages (block newBlock : ℕ) (moved : UInt32) : List ℕ → Ftl → UInt32 × Ftl
  | [], s => (moved, s)
  | page :: pages, s =>
    let oldPpn := blockPageToPpn block page
    match s.reverseMap oldPpn with
    | none => remapPages block newBlock moved pages s
    | some lpn =>
      remapPages block newBlock (moved + 1) pages
        (s.remap lpn oldPpn (blockPageToPpn newBlock page))

/-- Replaces a block by one of the reserved area (`ftl_replace_bad_block`). The write cursor goes
    along. -/
def replaceBadBlock (block : ℕ) : RetCode × Ftl :=
  if ¬ s.isInitialized then (.errNotInit, s)
  else if totalBlocks ≤ block then (.errParam, s)
  else
    match s.nand.replaceBadBlock block with
    | (.error ret, nand) => (ret, { s with nand := nand })
    | (.ok newBlock, nand) =>
      let remapped := remapPages block newBlock 0 (List.range pagesPerBlock) { s with nand := nand }
      let s := remapped.2
      (.ok, { s with
        badBlockReplaceCount := s.badBlockReplaceCount + 1
        badBlockMovedPages := s.badBlockMovedPages + remapped.1
        curWriteBlock := if s.curWriteBlock = block then newBlock else s.curWriteBlock })

end Ftl

end FtlFirmware
