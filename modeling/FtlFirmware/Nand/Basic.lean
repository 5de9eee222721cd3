import FtlFirmware.Lib.Scan
import FtlFirmware.Nand.Block
import FtlFirmware.Nand.Ecc

/-!
# The NAND device

The simulated NAND device (`Nand`): the media file, holding the data and the OOB area of every
page (`Media`), and the metadata that the module keeps in memory, one `PhyBlock` per physical
block. The operations are those of `nand.c`; an operation answers with a return code and the
device after it.

Arrays are functions on their indices, which every operation checks before it uses them. The
numbers of `rand` are a stream, from which each draw takes the first one.

The device carries one *ghost* field, `history`, which no operation reads: the programs and the
erases that succeeded so far, the last one first.
-/

namespace FtlFirmware

/-- The number of blocks (`NAND_TOTAL_BLOCKS`). -/
abbrev totalBlocks : ℕ := 128

/-- The number of blocks kept for the replacement of bad ones (`NAND_RESERVED_BLOCKS`). -/
abbrev reservedBlocks : ℕ := 8

/-- The number of blocks of the user area, which come first. -/
abbrev userBlocks : ℕ := totalBlocks - reservedBlocks

/-- The size of a page in bytes (`NAND_PAGE_SIZE`). -/
abbrev pageSize : ℕ := 4096

/-- The contents of a page. -/
abbrev PageData := Vector UInt8 pageSize

/-- A page of zeros. -/
def blankPage : PageData := Vector.replicate pageSize 0

/-- The types of NAND (`nand_type_t`). -/
inductive NandType
  | slc
  | mlc
  | tlc
  | qlc
  deriving DecidableEq, Repr

/-- The number of erases after which a block may wear out (`nand_get_erase_threshold`). -/
def getEraseThreshold : NandType → UInt32
  | .slc => 100000
  | .mlc => 3000
  | .tlc => 1000
  | .qlc => 300

/-- The percentage of initial bad blocks (`nand_get_init_bad_ratio`). -/
def getInitBadRatio : NandType → ℕ
  | .slc => 1
  | .mlc => 2
  | .tlc => 3
  | .qlc => 5

/-- The chance, in percent, that erasing a worn block turns it bad
    (`NAND_HIGH_WEAR_BAD_RATIO`). -/
abbrev highWearBadRatio : ℕ := 5

/-- The magic number of an OOB area that has been written (`NAND_OOB_MAGIC`). -/
abbrev oobMagic : UInt32 := 0x4F4F4231

/-- The OOB area of a page (`nand_oob_t`). -/
structure Oob where
  magic : UInt32
  crc32 : UInt32
  ecc : UInt32
  badBlockMark : UInt8
  deriving DecidableEq, Repr

/-- The OOB area in a part of the media file that has never been written. -/
def Oob.blank : Oob := ⟨0, 0, 0, 0⟩

/-- The media file: the data and the OOB area of every page, a page being given by its block
    and its number in the block. -/
structure Media where
  data : ℕ × ℕ → PageData
  oob : ℕ × ℕ → Oob

/-- A new media file, all zeros. -/
def Media.blank : Media := ⟨fun _ => blankPage, fun _ => Oob.blank⟩

/-- An entry of the ghost history of a device. -/
inductive MediaEvent
  | program (block page : ℕ)
  | erase (block : ℕ)
  deriving DecidableEq, Repr

/-- The NAND device (`nand_dev_t`, with `g_phy_blocks` and the media file). -/
structure Nand where
  blocks : ℕ → PhyBlock
  media : Media
  isInitialized : Bool
  nandType : NandType
  reservedCount : UInt32
  totalReadPages : UInt32
  totalWritePages : UInt32
  crcErrorCount : UInt32
  eccCorrectedCount : UInt32
  eccUncorrectableCount : UInt32
  eccAlgo : EccAlgo
  readEnergy : UInt32
  writeEnergy : UInt32
  eraseEnergy : UInt32
  rand : ℕ → ℕ
  history : List MediaEvent

namespace Nand

/-! ## Power on and off -/

/-- The recovery of one page: an OOB area with the magic number says that the page has been
    written. -/
def recoverPage (oob : ℕ → Oob) (blk : PhyBlock) (page : ℕ) : PhyBlock :=
  if (oob page).magic = oobMagic then blk.program page else blk

/-- The recovery of the metadata of a block from the OOB areas of its pages. -/
def recoverBlock (oob : ℕ → Oob) : PhyBlock :=
  (List.range pagesPerBlock).foldl (recoverPage oob) .fresh

/-- The number of free blocks in the reserved area, as `nand_init` counts them. -/
def countReserved (blocks : ℕ → PhyBlock) : UInt32 :=
  ((List.range' userBlocks reservedBlocks).filter
    fun i => (blocks i).state = .free).length.toUInt32

/-- A block of new media: bad from the start when the number drawn for it says so. -/
def factoryBlock (type : NandType) (draw : ℕ) : PhyBlock :=
  if draw % 100 < getInitBadRatio type then
    { PhyBlock.fresh with state := .bad, badType := .init }
  else .fresh

/-- Powers the device on (`nand_init`), with the given media file (none or an empty file is
    `none`: new media) and the numbers to be drawn.

    On new media, every block draws a number. On old media, the metadata is rebuilt from the
    OOB areas, after the free reserved blocks have been counted. -/
def init (media : Option Media) (rand : ℕ → ℕ) : Nand where
  blocks := match media with
    | none => fun b => factoryBlock .tlc (rand b)
    | some m => fun b => recoverBlock fun page => m.oob (b, page)
  media := media.getD .blank
  isInitialized := true
  nandType := .tlc
  reservedCount := match media with
    | none => countReserved fun b => factoryBlock .tlc (rand b)
    | some _ => countReserved fun _ => .fresh
  totalReadPages := 0
  totalWritePages := 0
  crcErrorCount := 0
  eccCorrectedCount := 0
  eccUncorrectableCount := 0
  eccAlgo := .bch
  readEnergy := 0
  writeEnergy := 0
  eraseEnergy := 0
  rand := match media with
    | none => fun i => rand (totalBlocks + i)
    | some _ => rand
  history := []

variable (n : Nand)

/-- Powers the device off (`nand_deinit`). The media file stays. -/
def deinit : Nand := { n with isInitialized := false }

/-- The device with new metadata of one block. -/
def setBlock (block : ℕ) (blk : PhyBlock) : Nand :=
  { n with blocks := Function.update n.blocks block blk }

/-! ## Queries -/

/-- Whether the block number is in range and the device on (`nand_is_block_valid`). -/
def isBlockValid (block : ℕ) : Bool := block < totalBlocks && n.isInitialized

/-- The state of a block, `bad` if there is no such block (`nand_get_block_state`). -/
def getBlockState (block : ℕ) : BlockState :=
  if n.isBlockValid block then (n.blocks block).state else .bad

/-- The erase count of a block (`nand_get_block_erase_count`). -/
def getBlockEraseCount (block : ℕ) : UInt32 :=
  if n.isBlockValid block then (n.blocks block).eraseCount else 0

/-- The number of valid pages of a block, as counted (`nand_get_block_valid_page_count`). -/
def getBlockValidPageCount (block : ℕ) : UInt32 :=
  if n.isBlockValid block then (n.blocks block).validPageCnt else 0

/-- Whether a page is valid (`nand_is_page_valid`). -/
def isPageValid (block page : ℕ) : Bool :=
  n.isBlockValid block && decide (page < pagesPerBlock) && (n.blocks block).pageValid page

/-- The blocks in the state `state` among the blocks `l`. -/
def blocksIn (state : BlockState) (l : List ℕ) : List ℕ :=
  l.filter fun i => n.getBlockState i = state

/-- The free blocks of the user area. -/
def freeBlocks : List ℕ := n.blocksIn .free (List.range userBlocks)

/-- The used blocks of the user area. -/
def usedBlocks : List ℕ := n.blocksIn .used (List.range userBlocks)

/-- The number of free blocks of the user area (`nand_get_free_block_count`). -/
def getFreeBlockCount : ℕ := if n.isInitialized then n.freeBlocks.length else 0

/-- The used block of the user area that has been read most often, if it is to be reclaimed
    (`nand_check_read_disturb`). -/
def checkReadDisturb : Option ℕ :=
  let best := scan (fun a b => decide (b < a)) (fun i => (n.blocks i).readCount) 0 n.usedBlocks
  if n.isInitialized ∧ readDisturbThreshold ≤ best.1 then best.2 else none

/-! ## Pages -/

/-- The data of a page as the decoder gives it back: corrected by the ECC if the page has one. -/
def readBack (block page : ℕ) : EccResult × PageData :=
  if (n.media.oob (block, page)).magic = oobMagic then
    eccHammingDecode (n.media.data (block, page)) (n.media.oob (block, page)).ecc
  else (.ok, n.media.data (block, page))

/-- The accounts of a read of a block, with the outcome of the decoder. -/
def countRead (block : ℕ) (ecc : EccResult) : Nand :=
  { n.setBlock block (n.blocks block).countRead with
    totalReadPages := n.totalReadPages + 1
    eccCorrectedCount := n.eccCorrectedCount + if ecc = .corrected then 1 else 0
    eccUncorrectableCount := n.eccUncorrectableCount + if ecc = .uncorrectable then 1 else 0
    readEnergy := n.readEnergy + 1 }

/-- Reads a page into the buffer `buf`, which an error leaves as it is (`nand_page_read`). A
    page that the decoder cannot correct is handed over as it is. -/
def pageRead (block page : ℕ) (buf : PageData) : RetCode × PageData × Nand :=
  if ¬ n.isBlockValid block ∨ pagesPerBlock ≤ page then (.errParam, buf, n)
  else if (n.blocks block).state = .bad then (.errBadBlock, buf, n)
  else if ¬ (n.blocks block).pageValid page then (.errNotMapped, buf, n)
  else (.ok, (n.readBack block page).2, n.countRead block (n.readBack block page).1)

/-- The OOB area written with the data of a page. -/
def writtenOob (buf : PageData) : Oob where
  magic := oobMagic
  crc32 := 0
  ecc := hammingEcc buf
  badBlockMark := 0xFF

/-- The effect of programming a page: its data and its OOB area on the media, the metadata of
    its block, and the accounts. -/
def program (block page : ℕ) (buf : PageData) : Nand :=
  { n.setBlock block ((n.blocks block).program page) with
    media :=
      { data := Function.update n.media.data (block, page) buf
        oob := Function.update n.media.oob (block, page) (writtenOob buf) }
    totalWritePages := n.totalWritePages + 1
    writeEnergy := n.writeEnergy + 3
    history := .program block page :: n.history }

/-- Writes a page (`nand_page_write`). A valid page is not written again. -/
def pageWrite (block page : ℕ) (buf : PageData) : RetCode × Nand :=
  if ¬ n.isBlockValid block ∨ pagesPerBlock ≤ page then (.errParam, n)
  else if (n.blocks block).state = .bad then (.errBadBlock, n)
  else if (n.blocks block).pageValid page then (.errOverwrite, n)
  else (.ok, n.program block page buf)

/-- Marks a page as invalid (`nand_mark_page_invalid`). -/
def markPageInvalid (block page : ℕ) : RetCode × Nand :=
  if ¬ n.isBlockValid block ∨ pagesPerBlock ≤ page then (.errParam, n)
  else if (n.blocks block).state = .bad then (.errBadBlock, n)
  else if ¬ (n.blocks block).pageValid page then (.errNotMapped, n)
  else (.ok, n.setBlock block ((n.blocks block).invalidate page))

/-! ## Blocks -/

/-- The effect of erasing a block. The media file is left as it is. -/
def erase (block : ℕ) : Nand :=
  { n.setBlock block (n.blocks block).erase with
    eraseEnergy := n.eraseEnergy + 10
    history := .erase block :: n.history }

/-- Draws a number. -/
def draw : ℕ × Nand := (n.rand 0, { n with rand := fun i => n.rand (i + 1) })

/-- Erases a block (`nand_block_erase`). A block erased often enough may wear out instead. -/
def blockErase (block : ℕ) : RetCode × Nand :=
  if ¬ n.isBlockValid block then (.errParam, n)
  else if (n.blocks block).state = .bad then (.errBadBlock, n)
  else if getEraseThreshold n.nandType < (n.blocks block).eraseCount then
    if n.draw.1 % 100 < highWearBadRatio then
      (.errBadBlock, n.draw.2.setBlock block (n.blocks block).wearOut)
    else (.ok, n.draw.2.erase block)
  else (.ok, n.erase block)

/-- The OOB area that marks a bad block, written to its first page. -/
def badBlockOob : Oob where
  magic := oobMagic
  crc32 := 0
  ecc := 0
  badBlockMark := 0

/-- The effect of marking a block as bad. -/
def retire (block : ℕ) (type : BadBlockType) : Nand :=
  { n.setBlock block ((n.blocks block).retire type) with
    media := { n.media with oob := Function.update n.media.oob (block, 0) badBlockOob } }

/-- Marks a block as bad (`nand_mark_block_bad`). -/
def markBlockBad (block : ℕ) (type : BadBlockType) : RetCode × Nand :=
  if ¬ n.isBlockValid block then (.errParam, n) else (.ok, n.retire block type)

/-- Marks a block as cold (`nand_mark_cold_block`), so that the garbage collection prefers it. -/
def markColdBlock (block : ℕ) : RetCode × Nand :=
  if ¬ n.isBlockValid block then (.errParam, n)
  else if (n.blocks block).state ≠ .used then (.errParam, n)
  else (.ok, n.setBlock block (n.blocks block).markCold)

/-! ## Bad block replacement -/

/-- Takes a free block of the reserved area (`nand_alloc_reserved_block`). Taking it does not
    change its state. -/
def allocReservedBlock : Except RetCode ℕ × Nand :=
  if ¬ n.isInitialized then (.error .errParam, n)
  else if n.reservedCount = 0 then (.error .errNoSpace, n)
  else
    match (List.range' userBlocks reservedBlocks).find? fun i => (n.blocks i).state = .free with
    | some i => (.ok i, { n with reservedCount := n.reservedCount - 1 })
    | none => (.error .errNoSpace, n)

/-- Copies the valid pages among `pages` of the block `src` to the same pages of the block
    `dst`, through the buffer `buf`. A page that cannot be read or written is skipped. -/
def copyPages (src dst : ℕ) (buf : PageData) : List ℕ → Nand → Nand
  | [], n => n
  | page :: pages, n =>
    if ¬ (n.blocks src).pageValid page then copyPages src dst buf pages n
    else
      match n.pageRead src page buf with
      | (.ok, buf, n) => copyPages src dst buf pages (n.pageWrite dst page buf).2
      | (_, buf, n) => copyPages src dst buf pages n

/-- Replaces a block (`nand_replace_bad_block`): its valid pages are copied to a block of the
    reserved area, whose number is answered, and it is marked as bad. -/
def replaceBadBlock (badBlock : ℕ) : Except RetCode ℕ × Nand :=
  if ¬ n.isInitialized then (.error .errParam, n)
  else if totalBlocks ≤ badBlock then (.error .errParam, n)
  else if (n.blocks badBlock).state = .free then (.error .errParam, n)
  else
    match n.allocReservedBlock with
    | (.error _, n) => (.error .errNoSpace, n)
    | (.ok replacement, n) =>
      let n := copyPages badBlock replacement blankPage (List.range pagesPerBlock) n
      if (n.blocks badBlock).state ≠ .bad then (.ok replacement, n.retire badBlock .wear)
      else (.ok replacement, n)

end Nand

end FtlFirmware
