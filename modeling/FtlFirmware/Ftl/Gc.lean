import FtlFirmware.Ftl.Basic

/-!
# Garbage collection

A garbage collection recycles a *victim*, a used block of the user area (`gcDoRecycle`): its
mapped pages are moved to the write cursor, then it is erased. There are six ways of selecting
the victim (`gcSelectVictimBlock`).
-/

namespace FtlFirmware

namespace Ftl

/-- The number of blocks behind the write cursor that the windowed algorithm looks at
    (`FTL_GC_WINDOW_SIZE`). -/
abbrev gcWindowSize : ℕ := 32

/-- The number of blocks among which the d-choices algorithm chooses (`FTL_GC_D_CHOICES_D`). -/
abbrev gcDChoicesD : ℕ := 5

/-- The weight of the age in the CAT algorithm (`FTL_GC_CAT_AGE_WEIGHT`). -/
abbrev gcCatAgeWeight : UInt32 := 100

variable (s : Ftl)

/-! ## Selecting the victim -/

/-- The first of the blocks `l` with the fewest valid pages, as counted. -/
def fewestValidPages (l : List ℕ) : Option ℕ :=
  (scan (fun a b => decide (a < b)) s.nand.getBlockValidPageCount 257 l).2

/-- The greedy algorithm (`gc_select_greedy`). -/
def gcSelectGreedy : Option ℕ := s.fewestValidPages s.nand.usedBlocks

/-- The share of invalid pages in a block, as counted. -/
def invalidRatio (block : ℕ) : Float :=
  (256 - s.nand.getBlockValidPageCount block).toFloat / 256

/-- The cost-benefit algorithm (`gc_select_cost_benefit`). -/
def gcSelectCostBenefit : Option ℕ :=
  let score := fun i => s.invalidRatio i / (s.nand.getBlockEraseCount i + 1).toFloat
  (scan (fun a b => decide (b < a)) score (-1.0) s.nand.usedBlocks).2

/-- The CAT algorithm (`gc_select_cat`), which weighs in the age of a block, how far its erase
    count is behind. -/
def gcSelectCat : Option ℕ :=
  let maxErase := (scan (fun a b => decide (b < a)) s.nand.getBlockEraseCount 0 s.nand.usedBlocks).1
  let ageFactor := fun i =>
    if 0 < maxErase then
      (maxErase - s.nand.getBlockEraseCount i + gcCatAgeWeight).toFloat / maxErase.toFloat
    else 1.0
  let score := fun i =>
    s.invalidRatio i * ageFactor i / (s.nand.getBlockEraseCount i + 1).toFloat
  (scan (fun a b => decide (b < a)) score (-1.0) s.nand.usedBlocks).2

/-- The windowed algorithm (`gc_select_windowed`): greedy in the window that ends at the write
    cursor, then in the user area. This is what its loop comes to if it ends (`windowLoop`). -/
def gcSelectWindowed : Option ℕ :=
  let windowStart := s.curWriteBlock - gcWindowSize
  let window := List.range' windowStart (s.curWriteBlock + 1 - windowStart)
  match s.fewestValidPages (s.nand.blocksIn .used window) with
  | some victim => some victim
  | none => s.gcSelectGreedy

/-- The d-choices algorithm (`gc_select_d_choices`): greedy among a few used blocks, which the
    number of collections chooses. -/
def gcSelectDChoices : Option ℕ :=
  let used := s.nand.usedBlocks
  if used.length < gcDChoicesD then s.gcSelectGreedy
  else
    s.fewestValidPages ((List.range gcDChoicesD).map fun i =>
      used.getD ((s.gcCount * 7 + i.toUInt32 * 13).toNat % used.length) 0)

/-- The FRA algorithm (`gc_select_fra`): a block without valid pages, as counted, if there is one,
    then greedy. -/
def gcSelectFra : Option ℕ :=
  match s.nand.usedBlocks.find? fun i => s.nand.getBlockValidPageCount i = 0 with
  | some victim => some victim
  | none => s.gcSelectGreedy

/-- The victim (`gc_select_victim_block`). -/
def gcSelectVictimBlock : Option ℕ :=
  match s.gcAlgo with
  | .greedy => s.gcSelectGreedy
  | .costBenefit => s.gcSelectCostBenefit
  | .cat => s.gcSelectCat
  | .windowed => s.gcSelectWindowed
  | .dChoices => s.gcSelectDChoices
  | .fra => s.gcSelectFra

/-- The loop of the windowed algorithm, from the block `i` on, with the best count and block so far.
    The number of the block is a 32-bit one, so that there is none behind the greatest one. -/
def windowLoop : ℕ → UInt32 → UInt32 × Option ℕ → Option (Option ℕ)
  | 0, _, _ => none
  | fuel + 1, i, best =>
    if i.toNat ≤ s.curWriteBlock then
      windowLoop fuel (i + 1)
        (if s.nand.getBlockState i.toNat = .used then
          scanStep (fun a b => decide (a < b)) s.nand.getBlockValidPageCount best i.toNat
        else best)
    else some best.2

/-- The selection of the victim with enough fuel for the loop of the windowed algorithm, the only
    one that may not end. -/
def gcSelectExec (fuel : ℕ) : Option (Option ℕ) :=
  if s.gcAlgo = .windowed then
    (s.windowLoop fuel (UInt32.ofNat (s.curWriteBlock - gcWindowSize)) (257, none)).map
      fun victim => victim.or s.gcSelectGreedy
  else some s.gcSelectVictimBlock

/-! ## Recycling the victim -/

/-- Moves the page `page` of the victim, to which `lpn` is mapped, to the write cursor, through the
    buffer `buf`. -/
def gcMovePage (victim page lpn : ℕ) (buf : PageData) : RetCode × PageData × Ftl :=
  let read := s.nand.pageRead victim page buf
  match allocPhyPage { s with nand := read.2.2 } with
  | none => (.errNoSpace, read.2.1, { s with nand := read.2.2 })
  | some (newPpn, s) =>
    match s.nand.pageWrite (ppnToBlock newPpn) (ppnToPage newPpn) read.2.1 with
    | (.ok, nand) =>
      (.ok, read.2.1, remap { s with
        nand := nand
        nandWritePages := s.nandWritePages + 1
        gcMovedPages := s.gcMovedPages + 1 } lpn (blockPageToPpn victim page) newPpn)
    | (_, nand) => (.errInternal, read.2.1, { s with nand := nand })

/-- Moves the mapped pages among `pages` of the victim. -/
def recyclePages (victim : ℕ) (buf : PageData) : List ℕ → Ftl → RetCode × Ftl
  | [], s => (.ok, s)
  | page :: pages, s =>
    if ¬ s.nand.isPageValid victim page then recyclePages victim buf pages s
    else
      match s.reverseMap (blockPageToPpn victim page) with
      | none => recyclePages victim buf pages s
      | some lpn =>
        match s.gcMovePage victim page lpn buf with
        | (.ok, buf, s) => recyclePages victim buf pages s
        | (ret, _, s) => (ret, s)

/-- Recycles a victim (`gc_do_recycle`). -/
def gcDoRecycle : RetCode × Ftl :=
  match s.gcSelectVictimBlock with
  | none => (.errNoSpace, s)
  | some victim =>
    match recyclePages victim blankPage (List.range pagesPerBlock)
      { s with gcCount := s.gcCount + 1 } with
    | (.ok, s) =>
      let erased := s.nand.blockErase victim
      (erased.1, { s with nand := erased.2 })
    | (ret, s) => (ret, s)

/-- Sets the algorithm (`ftl_set_gc_algo`). -/
def setGcAlgo (algo : GcAlgo) : Ftl := { s with gcAlgo := algo }

/-- Recycles a victim on request (`ftl_trigger_gc`). -/
def triggerGc : RetCode × Ftl := if ¬ s.isInitialized then (.errNotInit, s) else s.gcDoRecycle

/-- Recycles victims as long as there are too few free blocks: the loop with which a write
    begins, which need not end. -/
def gcUntilSpace : ℕ → Ftl → Option (RetCode × Ftl)
  | 0, s => if s.nand.getFreeBlockCount ≤ gcTriggerThreshold then none else some (.ok, s)
  | fuel + 1, s =>
    if s.nand.getFreeBlockCount ≤ gcTriggerThreshold then
      match s.gcDoRecycle with
      | (.ok, s) => gcUntilSpace fuel s
      | (_, s) => some (.errNoSpace, s)
    else some (.ok, s)

end Ftl

end FtlFirmware
