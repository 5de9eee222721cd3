import FtlFirmware.Ftl.Basic
import FtlFirmware.Lib.Loop

/-!
# Hybrid mapping

In hybrid mode the logical pages are grouped into logical blocks, each of which is *hot*, mapped
page by page, or *cold*, mapped to one physical block (`BlockMapEntry`). The accesses to the
logical blocks are counted, and from time to time the blocks are moved from one kind to the other
(`hotColdMigration`).
-/

namespace FtlFirmware

namespace Ftl

/-- The number of accesses from which a logical block is hot (`FTL_HOT_DATA_THRESHOLD`). -/
abbrev hotDataThreshold : UInt32 := 10

/-- The number of accesses below which a logical block is cold (`FTL_COLD_DATA_THRESHOLD`). -/
abbrev coldDataThreshold : UInt32 := 2

/-- The number of writes between two migrations (`FTL_HOT_COLD_CHECK_INTERVAL`). -/
abbrev hotColdCheckInterval : UInt32 := 100

variable (s : Ftl)

/-- The logical block of a logical page (`lpn_to_logical_block`). -/
def lpnToLogicalBlock (lpn : ℕ) : ℕ := lpn / logicalBlockPages

/-- Sets the mapping mode (`ftl_set_map_mode`). -/
def setMapMode (mode : MapMode) : RetCode × Ftl :=
  if ¬ s.isInitialized then (.errNotInit, s) else (.ok, { s with mapMode := mode })

/-- Counts an access to the logical block of a logical page, if the block is mapped
    (`hybrid_update_access_count`). -/
def hybridUpdateAccessCount (lpn : ℕ) : Ftl :=
  let lb := lpnToLogicalBlock lpn
  if totalLogicalBlocks ≤ lb then s
  else if ¬ (s.blockMap lb).isValid then s
  else
    { s with
      blockMap := Function.update s.blockMap lb
        { s.blockMap lb with accessCount := (s.blockMap lb).accessCount + 1 } }

/-- Maps the logical pages `pages` of a logical block to the same pages of a physical block, in
    so far as these are valid. -/
def upgradePages (lb physicalBlock : ℕ) : List ℕ → Ftl → Option Ftl
  | [], s => some s
  | i :: pages, s =>
    let lpn := lb * logicalBlockPages + i
    let ppn := blockPageToPpn physicalBlock i
    -- The last logical block may be cut off by the end of the map.
    if totalLpns ≤ lpn then some s
    else if totalPpns ≤ ppn then none
    else if s.nand.isPageValid physicalBlock i then
      upgradePages lb physicalBlock pages { s with
        l2pTable := Function.update s.l2pTable lpn (some ppn)
        reverseMap := Function.update s.reverseMap ppn (some lpn) }
    else
      upgradePages lb physicalBlock pages { s with
        l2pTable := Function.update s.l2pTable lpn none
        reverseMap := Function.update s.reverseMap ppn none }

/-- Makes a cold logical block hot (`hybrid_upgrade_to_hot`). -/
def hybridUpgradeToHot (lb : ℕ) : Option (RetCode × Ftl) :=
  if ¬ (s.blockMap lb).isValid then some (.errNotMapped, s)
  else if (s.blockMap lb).isHot then some (.ok, s)
  else
    (upgradePages lb (s.blockMap lb).physicalBlock (List.range logicalBlockPages) s).map fun s =>
      (.ok, { s with
        blockMap := Function.update s.blockMap lb { s.blockMap lb with isHot := true }
        hotColdMigrationCount := s.hotColdMigrationCount + 1 })

/-- The logical pages of a logical block. -/
def logicalPages (lb : ℕ) : List ℕ :=
  ((List.range logicalBlockPages).map fun i => lb * logicalBlockPages + i).filter (· < totalLpns)

/-- Removes the logical pages `lpns` from the maps. -/
def clearPages : List ℕ → Ftl → Option Ftl
  | [], s => some s
  | lpn :: lpns, s =>
    match s.l2pTable lpn with
    | none => clearPages lpns s
    | some ppn =>
      if totalPpns ≤ ppn then none
      else
        clearPages lpns { s with
          l2pTable := Function.update s.l2pTable lpn none
          reverseMap := Function.update s.reverseMap ppn none }

/-- Makes a hot logical block cold (`hybrid_downgrade_to_cold`): it is mapped to the physical
    block of its first mapped page, and the map entries of its pages are removed. -/
def hybridDowngradeToCold (lb : ℕ) : Option (RetCode × Ftl) :=
  if ¬ (s.blockMap lb).isValid then some (.errNotMapped, s)
  else if ¬ (s.blockMap lb).isHot then some (.ok, s)
  else
    match (logicalPages lb).findSome? s.l2pTable with
    | none =>
      some (.ok, { s with
        blockMap := Function.update s.blockMap lb
          { s.blockMap lb with isValid := false, isHot := false } })
    | some ppn =>
      -- The block of the first page stands for all, wherever the other pages are.
      let s := { s with
        blockMap := Function.update s.blockMap lb
          { s.blockMap lb with physicalBlock := ppnToBlock ppn } }
      (clearPages (logicalPages lb) s).map fun s =>
        (.ok, { s with
          blockMap := Function.update s.blockMap lb { s.blockMap lb with isHot := false }
          hotColdMigrationCount := s.hotColdMigrationCount + 1 })

/-- Halves the number of accesses to a logical block. -/
def decayAccessCount (lb : ℕ) : Ftl :=
  { s with
    blockMap := Function.update s.blockMap lb
      { s.blockMap lb with accessCount := (s.blockMap lb).accessCount / 2 } }

/-- The migration of one logical block. -/
def migrateLogicalBlock (lb : ℕ) : Option Ftl :=
  let entry := s.blockMap lb
  if ¬ entry.isValid then some s
  else if hotDataThreshold ≤ entry.accessCount ∧ ¬ entry.isHot then
    (s.hybridUpgradeToHot lb).map fun r => r.2.decayAccessCount lb
  else if entry.accessCount < coldDataThreshold ∧ entry.isHot then
    (s.hybridDowngradeToCold lb).map fun r => r.2.decayAccessCount lb
  else some (s.decayAccessCount lb)

/-- The migration of all logical blocks (`ftl_hot_cold_migration`). -/
def hotColdMigration : Option (RetCode × Ftl) :=
  if ¬ s.isInitialized then some (.errNotInit, s)
  else ((List.range totalLogicalBlocks).foldlM migrateLogicalBlock s).map fun s => (.ok, s)

/-! ## What the hybrid mapping leaves alone -/

/-- The value `f` of a device does not depend on what the hybrid mapping changes: the maps, and its
    own counters. -/
def HybridFree {β : Type*} (f : Ftl → β) : Prop :=
  ∀ (s : Ftl) (l2p rev : ℕ → Option ℕ) (blockMap : ℕ → BlockMapEntry) (checks migrations : UInt32),
    f { s with
      l2pTable := l2p
      reverseMap := rev
      blockMap := blockMap
      hotColdCheckCount := checks
      hotColdMigrationCount := migrations } = f s

namespace HybridFree

variable {β : Type*} {f : Ftl → β} (hf : HybridFree f) {s s' : Ftl} {lpn lb : ℕ} {ret : RetCode}
include hf

theorem hybridUpdateAccessCount : f (s.hybridUpdateAccessCount lpn) = f s := by
  rw [Ftl.hybridUpdateAccessCount]
  dsimp only
  split
  · rfl
  · split
    · rfl
    · exact hf s _ _ _ _ _

theorem upgradePages {physicalBlock : ℕ} (pages : List ℕ) (s : Ftl)
    (h : Ftl.upgradePages lb physicalBlock pages s = some s') : f s' = f s := by
  induction pages generalizing s with
  | nil =>
    obtain rfl := Option.some_inj.1 h
    rfl
  | cons i pages ih =>
    rw [Ftl.upgradePages] at h
    split at h
    · obtain rfl := Option.some_inj.1 h
      rfl
    · split at h
      · simp at h
      · split at h
        · exact (ih _ h).trans (hf s _ _ _ _ _)
        · exact (ih _ h).trans (hf s _ _ _ _ _)

theorem clearPages (lpns : List ℕ) (s : Ftl) (h : Ftl.clearPages lpns s = some s') :
    f s' = f s := by
  induction lpns generalizing s with
  | nil =>
    obtain rfl := Option.some_inj.1 h
    rfl
  | cons lpn lpns ih =>
    rw [Ftl.clearPages] at h
    split at h
    · exact ih s h
    · split at h
      · simp at h
      · exact (ih _ h).trans (hf s _ _ _ _ _)

theorem hybridUpgradeToHot (h : s.hybridUpgradeToHot lb = some (ret, s')) : f s' = f s := by
  rw [Ftl.hybridUpgradeToHot] at h
  split at h
  · obtain ⟨_, rfl⟩ := Prod.mk.inj (Option.some_inj.1 h)
    rfl
  · split at h
    · obtain ⟨_, rfl⟩ := Prod.mk.inj (Option.some_inj.1 h)
      rfl
    · obtain ⟨s₁, hpages, heq⟩ := Option.map_eq_some_iff.1 h
      obtain ⟨_, rfl⟩ := Prod.mk.inj heq
      exact (hf s₁ _ _ _ _ _).trans (hf.upgradePages _ _ hpages)

theorem hybridDowngradeToCold (h : s.hybridDowngradeToCold lb = some (ret, s')) : f s' = f s := by
  rw [Ftl.hybridDowngradeToCold] at h
  split at h
  · obtain ⟨_, rfl⟩ := Prod.mk.inj (Option.some_inj.1 h)
    rfl
  · split at h
    · obtain ⟨_, rfl⟩ := Prod.mk.inj (Option.some_inj.1 h)
      rfl
    · split at h
      · obtain ⟨_, rfl⟩ := Prod.mk.inj (Option.some_inj.1 h)
        exact hf s _ _ _ _ _
      · obtain ⟨s₁, hpages, heq⟩ := Option.map_eq_some_iff.1 h
        obtain ⟨_, rfl⟩ := Prod.mk.inj heq
        exact (hf s₁ _ _ _ _ _).trans ((hf.clearPages _ _ hpages).trans (hf s _ _ _ _ _))

theorem migrateLogicalBlock (h : s.migrateLogicalBlock lb = some s') : f s' = f s := by
  rw [Ftl.migrateLogicalBlock] at h
  split at h
  · obtain rfl := Option.some_inj.1 h
    rfl
  · split at h
    · obtain ⟨⟨ret, s₁⟩, hup, rfl⟩ := Option.map_eq_some_iff.1 h
      exact (hf s₁ _ _ _ _ _).trans (hf.hybridUpgradeToHot hup)
    · split at h
      · obtain ⟨⟨ret, s₁⟩, hdown, rfl⟩ := Option.map_eq_some_iff.1 h
        exact (hf s₁ _ _ _ _ _).trans (hf.hybridDowngradeToCold hdown)
      · obtain rfl := Option.some_inj.1 h
        exact hf s _ _ _ _ _

theorem hotColdMigration (h : s.hotColdMigration = some (ret, s')) : f s' = f s := by
  rw [Ftl.hotColdMigration] at h
  split at h
  · obtain ⟨_, rfl⟩ := Prod.mk.inj (Option.some_inj.1 h)
    rfl
  · obtain ⟨s₁, hall, heq⟩ := Option.map_eq_some_iff.1 h
    obtain ⟨_, rfl⟩ := Prod.mk.inj heq
    exact foldlM_invariant (P := fun s₂ => f s₂ = f s) hall rfl fun _ _ _ _ hs hblock =>
      (hf.migrateLogicalBlock hblock).trans hs

end HybridFree

end Ftl

end FtlFirmware
