import FtlFirmware.Ftl.Hybrid
import FtlFirmware.Ftl.Wal

/-!
# Reading, writing and trimming

The calls of the host: `read`, `write` and `trim`. A write is out of place. It collects garbage
until there are enough free blocks (`gcUntilSpace`, which takes some fuel as it need not end),
programs the page at the write cursor (`programPage`), redirects the maps to it
(`commitWrite`), and ends with the checks of the wear levelling and, in hybrid mode, with the
accounts of the logical blocks (`hybridWrite`).
-/

namespace FtlFirmware

namespace Ftl

variable (s : Ftl)

/-! ## Reading -/

/-- Reads a logical page into the buffer `buf` (`ftl_read`). A page found in a bad block has the
    block replaced, but its data is given up. -/
def read (lpn : ℕ) (buf : PageData) : RetCode × PageData × Ftl :=
  if ¬ s.isInitialized then (.errParam, buf, s)
  else if totalLpns ≤ lpn then (.errParam, buf, s)
  else
    match s.l2pTable lpn with
    | none => (.errNotMapped, buf, s)
    | some ppn =>
      let r := s.nand.pageRead (ppnToBlock ppn) (ppnToPage ppn) buf
      let s := { s with nand := r.2.2 }
      if r.1 = .errBadBlock then
        (.errBadBlock, r.2.1, (s.replaceBadBlock (ppnToBlock ppn)).2)
      else if r.1 = .ok ∧ s.mapMode = .hybrid then (r.1, r.2.1, s.hybridUpdateAccessCount lpn)
      else (r.1, r.2.1, s)

/-! ## Writing -/

/-- Programs the page `newPpn` taken for a write. If its block is bad, the block is replaced, and
    another page is taken, which is tried once. The page programmed last is answered. -/
def programPage (newPpn : ℕ) (buf : PageData) : RetCode × ℕ × Ftl :=
  let w := s.nand.pageWrite (ppnToBlock newPpn) (ppnToPage newPpn) buf
  let s := { s with nand := w.2 }
  if w.1 = .errBadBlock then
    match s.replaceBadBlock (ppnToBlock newPpn) with
    | (.ok, s) =>
      match s.allocPhyPage with
      | none => (.errNoSpace, newPpn, s)
      | some (newPpn, s) =>
        let w := s.nand.pageWrite (ppnToBlock newPpn) (ppnToPage newPpn) buf
        (w.1, newPpn, { s with nand := w.2 })
    | (ret, s) => (ret, newPpn, s)
  else (w.1, newPpn, s)

/-- Redirects the maps to the page programmed for a write; the page with the old data becomes
    invalid. -/
def commitWrite (lpn newPpn : ℕ) : Option Ftl :=
  let s := { s with
    hostWritePages := s.hostWritePages + 1
    nandWritePages := s.nandWritePages + 1 }
  match s.l2pTable lpn with
  | none =>
    some { s with
      l2pTable := Function.update s.l2pTable lpn (some newPpn)
      reverseMap := Function.update s.reverseMap newPpn (some lpn) }
  | some oldPpn =>
    -- A physical page beyond the device is no index of the map back.
    if totalPpns ≤ oldPpn then none
    else
      some { s with
        nand := (s.nand.markPageInvalid (ppnToBlock oldPpn) (ppnToPage oldPpn)).2
        l2pTable := Function.update s.l2pTable lpn (some newPpn)
        reverseMap := Function.update (Function.update s.reverseMap oldPpn none) newPpn
          (some lpn) }

/-- The wear levelling at the end of a write: the dynamic one, and the static one once in a
    while. -/
def checkWear : Ftl :=
  let s := s.wearLevelingCheck
  let s := { s with writeSinceLastCheck := s.writeSinceLastCheck + 1 }
  if staticWearInterval ≤ s.writeSinceLastCheck then
    staticWearLevelingCheck { s with writeSinceLastCheck := 0 }
  else s

/-- The accounts of the logical blocks at the end of a write in hybrid mode. -/
def hybridWrite (lpn newPpn : ℕ) : Option Ftl :=
  let lb := lpnToLogicalBlock lpn
  -- A logical block that is not known yet starts cold.
  let s :=
    if lb < totalLogicalBlocks then
      let s :=
        if ¬ (s.blockMap lb).isValid then
          { s with blockMap := Function.update s.blockMap lb ⟨ppnToBlock newPpn, true, false, 0⟩ }
        else s
      s.hybridUpdateAccessCount lpn
    else s
  let s := { s with hotColdCheckCount := s.hotColdCheckCount + 1 }
  if hotColdCheckInterval ≤ s.hotColdCheckCount then
    ({ s with hotColdCheckCount := 0 }).hotColdMigration.map Prod.snd
  else some s

/-- The accounts of the logical blocks leave the rest of the device alone. -/
theorem HybridFree.hybridWrite {β : Type*} {f : Ftl → β} (hf : HybridFree f) {s s' : Ftl}
    {lpn ppn : ℕ} (h : s.hybridWrite lpn ppn = some s') : f s' = f s := by
  unfold Ftl.hybridWrite at h
  dsimp only at h
  set lb := lpnToLogicalBlock lpn
  set entry : BlockMapEntry := ⟨ppnToBlock ppn, true, false, 0⟩
  set mapped : Ftl := if ¬ (s.blockMap lb).isValid then
      { s with blockMap := Function.update s.blockMap lb entry } else s with hmapped
  have hmap : f mapped = f s := by
    rw [hmapped]
    split
    · exact hf s _ _ _ _ _
    · rfl
  set accounted := if lb < totalLogicalBlocks then mapped.hybridUpdateAccessCount lpn else s
    with haccounted
  have hsame : f accounted = f s := by
    rw [haccounted]
    split
    · exact hf.hybridUpdateAccessCount.trans hmap
    · rfl
  split at h
  · obtain ⟨⟨ret, s₁⟩, hmigrate, rfl⟩ := Option.map_eq_some_iff.1 h
    exact (hf.hotColdMigration hmigrate).trans ((hf accounted _ _ _ _ _).trans hsame)
  · obtain rfl := Option.some_inj.1 h
    exact (hf accounted _ _ _ _ _).trans hsame

/-- What follows in a write once its page has been programmed. -/
def finishWrite (lpn newPpn : ℕ) : Option Ftl := do
  let s := (← s.commitWrite lpn newPpn).checkWear
  if s.mapMode = .hybrid then s.hybridWrite lpn newPpn else some s

/-- What follows in a write once there are enough free blocks. -/
def writeOut (lpn : ℕ) (buf : PageData) : Option (RetCode × Ftl) :=
  match s.allocPhyPage with
  | none => some (.errNoSpace, s)
  | some (newPpn, s) =>
    match s.walLogWrite lpn (s.l2pTable lpn) newPpn with
    | (.ok, s) =>
      match s.programPage newPpn buf with
      | (.ok, newPpn, s) => (s.finishWrite lpn newPpn).map fun s => (.ok, s)
      | (ret, _, s) => some (ret, s)
    | (ret, s) => some (ret, s)

/-- Writes a logical page (`ftl_write`), with enough fuel for its garbage collections. -/
def write (fuel : ℕ) (lpn : ℕ) (buf : PageData) : Option (RetCode × Ftl) :=
  if ¬ s.isInitialized then some (.errParam, s)
  else if totalLpns ≤ lpn then some (.errParam, s)
  else
    match gcUntilSpace fuel s with
    | none => none
    | some (.ok, s) => s.writeOut lpn buf
    | some (ret, s) => some (ret, s)

/-! ## Trimming -/

/-- Trims one logical page: it is logged, its page becomes invalid, and it is removed from the
    maps. -/
def trimPage (lpn : ℕ) : Option Ftl :=
  if totalLpns ≤ lpn then none
  else
    match s.l2pTable lpn with
    | none => some s
    | some ppn =>
      -- A physical page beyond the device is no index of the map back.
      if totalPpns ≤ ppn then none
      else
        let s := (s.walLogTrim lpn).2
        some { s with
          nand := (s.nand.markPageInvalid (ppnToBlock ppn) (ppnToPage ppn)).2
          l2pTable := Function.update s.l2pTable lpn none
          reverseMap := Function.update s.reverseMap ppn none
          trimPages := s.trimPages + 1 }

/-- The number of logical pages that a trim goes through: those up to the last one. The test is
    one of 32-bit numbers. -/
def trimLength (lpn count : UInt32) : ℕ :=
  if totalLpns < (lpn + count).toNat then totalLpns - lpn.toNat else count.toNat

/-- Trims the logical pages from `lpn` on (`ftl_trim`). -/
def trim (lpn count : UInt32) : Option (RetCode × Ftl) :=
  if ¬ s.isInitialized then some (.errNotInit, s)
  else if count = 0 then some (.errParam, s)
  else if totalLpns ≤ lpn.toNat then some (.errParam, s)
  else
    ((List.range' lpn.toNat (trimLength lpn count)).foldlM trimPage s).map fun s =>
      (.ok, { s with trimCount := s.trimCount + 1 })

/-- A trim is refused, or it goes through its pages. -/
theorem trim_cases {s s' : Ftl} {lpn count : UInt32} {ret : RetCode}
    (h : s.trim lpn count = some (ret, s')) :
    s' = s ∨ ∃ s₁, (List.range' lpn.toNat (trimLength lpn count)).foldlM trimPage s = some s₁ ∧
      s' = { s₁ with trimCount := s₁.trimCount + 1 } := by
  rw [trim] at h
  split at h
  · exact Or.inl (Prod.mk.inj (Option.some_inj.1 h)).2.symm
  split at h
  · exact Or.inl (Prod.mk.inj (Option.some_inj.1 h)).2.symm
  split at h
  · exact Or.inl (Prod.mk.inj (Option.some_inj.1 h)).2.symm
  · obtain ⟨s₁, hpages, heq⟩ := Option.map_eq_some_iff.1 h
    exact Or.inr ⟨s₁, hpages, (Prod.mk.inj heq).2.symm⟩

end Ftl

end FtlFirmware
