import FtlFirmware.Ftl.HybridMap
import FtlFirmware.Ftl.ReadYourWrites
import FtlFirmware.Ftl.Recovering

/-!
# Migrations

In a migration, the logical blocks that have been accessed often become hot, and those that have not
been accessed become cold. A read looks a logical page up in the map, whatever its logical block is.
So a logical block that becomes cold is lost, as its pages are removed from the map, and one that
becomes hot is exchanged for the first pages of its physical block, whatever they hold.

* `migration_quiet_iff`: the map after a migration, and when it is the same as before;
* `hotColdMigration_quiet`, `hybridWrite_quiet`: a migration that leaves the map as it was leaves
  all of the device as it was, but for the hybrid map.
-/

namespace FtlFirmware

namespace Ftl

/-! ## What a migration does to the map -/

/-- A logical block is to become hot. -/
def Heats (blockMap : ℕ → BlockMapEntry) (lb : ℕ) : Prop :=
  (blockMap lb).isValid = true ∧ hotDataThreshold ≤ (blockMap lb).accessCount ∧
    (blockMap lb).isHot = false

/-- A logical block is to become cold. -/
def Cools (blockMap : ℕ → BlockMapEntry) (lb : ℕ) : Prop :=
  (blockMap lb).isValid = true ∧ (blockMap lb).accessCount < coldDataThreshold ∧
    (blockMap lb).isHot = true

instance (blockMap : ℕ → BlockMapEntry) : DecidablePred (Heats blockMap) := fun _ =>
  inferInstanceAs (Decidable (_ ∧ _))

instance (blockMap : ℕ → BlockMapEntry) : DecidablePred (Cools blockMap) := fun _ =>
  inferInstanceAs (Decidable (_ ∧ _))

variable (s : Ftl)

/-- The page `i` of a physical block, if it is valid. -/
def pageIn (b i : ℕ) : Option ℕ :=
  if s.nand.isPageValid b i then some (blockPageToPpn b i) else none

/-- What the entry of a logical page becomes when its logical block is migrated. -/
def migratedEntry (lpn : ℕ) : Option ℕ :=
  if Heats s.blockMap (lpnToLogicalBlock lpn) then
    s.pageIn (s.blockMap (lpnToLogicalBlock lpn)).physicalBlock (lpn % logicalBlockPages)
  else if Cools s.blockMap (lpnToLogicalBlock lpn) then none
  else s.l2pTable lpn

/-- The map after a migration. -/
def migratedTable (lpn : ℕ) : Option ℕ :=
  if lpnToLogicalBlock lpn < totalLogicalBlocks then s.migratedEntry lpn else s.l2pTable lpn

/-- The pages of a logical block are already where a migration maps them to. -/
structure Still (blockMap : ℕ → BlockMapEntry) (lb : ℕ) : Prop where
  heats : Heats blockMap lb → ∀ i < logicalBlockPages,
    s.l2pTable (lb * logicalBlockPages + i) = s.pageIn (blockMap lb).physicalBlock i
  cools : Cools blockMap lb → ∀ i < logicalBlockPages,
    s.l2pTable (lb * logicalBlockPages + i) = none

/-- A migration changes nothing in the map. -/
def Quiet (blockMap : ℕ → BlockMapEntry) : Prop := ∀ lb < totalLogicalBlocks, s.Still blockMap lb

variable {s} {s' : Ftl} {lb lpn b i : ℕ} {ret : RetCode}

/-- The pages of a logical block. -/
theorem lpnToLogicalBlock_eq_iff : lpnToLogicalBlock lpn = lb ∧ lpn % logicalBlockPages = i ↔
    i < logicalBlockPages ∧ lpn = lb * logicalBlockPages + i := by
  show lpn / 64 = lb ∧ lpn % 64 = i ↔ i < 64 ∧ lpn = lb * 64 + i
  omega

/-- The logical blocks are whole. -/
theorem lpn_lt_of_lt (hlb : lb < totalLogicalBlocks) (hi : i < logicalBlockPages) :
    lb * logicalBlockPages + i < totalLpns := by
  have hlb' : lb < totalLpns / 64 := hlb
  have hi' : i < 64 := hi
  show lb * 64 + i < totalLpns
  omega

theorem mem_logicalPages (hlb : lb < totalLogicalBlocks) :
    lpn ∈ logicalPages lb ↔ lpnToLogicalBlock lpn = lb := by
  rw [logicalPages, List.mem_filter, List.mem_map, decide_eq_true_eq]
  constructor
  · rintro ⟨⟨i, hi, rfl⟩, _⟩
    exact (lpnToLogicalBlock_eq_iff.2 ⟨List.mem_range.1 hi, rfl⟩).1
  · intro h
    obtain ⟨hi, heq⟩ := lpnToLogicalBlock_eq_iff.1 ⟨h, rfl⟩
    exact ⟨⟨_, List.mem_range.2 hi, heq.symm⟩, heq ▸ lpn_lt_of_lt hlb hi⟩

/-- The pages are mapped to those of the physical block. -/
theorem upgradePages_spec {pages : List ℕ} (hlb : lb < totalLogicalBlocks)
    (hpages : ∀ i ∈ pages, i < logicalBlockPages) (h : upgradePages lb b pages s = some s') :
    s'.nand = s.nand ∧ s'.blockMap = s.blockMap ∧ ∀ lpn, s'.l2pTable lpn =
      if lpnToLogicalBlock lpn = lb ∧ lpn % logicalBlockPages ∈ pages then
        s.pageIn b (lpn % logicalBlockPages)
      else s.l2pTable lpn := by
  induction pages generalizing s with
  | nil =>
    obtain rfl := Option.some_inj.1 h
    exact ⟨rfl, rfl, fun lpn => (if_neg fun hmem => List.not_mem_nil hmem.2).symm⟩
  | cons i pages ih =>
    obtain ⟨hi, hpages⟩ := List.forall_mem_cons.1 hpages
    -- the entry becomes the page of the physical block, whether or not it is valid
    obtain ⟨rev, hrest⟩ : ∃ rev, upgradePages lb b pages { s with
        l2pTable := Function.update s.l2pTable (lb * logicalBlockPages + i) (s.pageIn b i)
        reverseMap := rev } = some s' := by
      rw [upgradePages] at h
      rw [if_neg (Nat.not_le.2 (lpn_lt_of_lt hlb hi))] at h
      rw [pageIn]
      split_ifs at h ⊢ with _ hv
      · exact ⟨_, h⟩
      · exact ⟨_, h⟩
    obtain ⟨hnand, hblocks, htable⟩ := ih hpages hrest
    refine ⟨hnand, hblocks, fun lpn => (htable lpn).trans ?_⟩
    by_cases hlpn : lpn = lb * logicalBlockPages + i
    · obtain ⟨hblock, hoffset⟩ := lpnToLogicalBlock_eq_iff.2 ⟨hi, hlpn⟩
      have hmem : lpnToLogicalBlock lpn = lb ∧ lpn % logicalBlockPages ∈ i :: pages :=
        ⟨hblock, hoffset ▸ List.mem_cons_self⟩
      rw [if_pos hmem, hoffset]
      split_ifs
      · rfl
      · rw [hlpn]
        exact Function.update_self _ _ _
    · have hiff : (lpnToLogicalBlock lpn = lb ∧ lpn % logicalBlockPages ∈ pages) ↔
          (lpnToLogicalBlock lpn = lb ∧ lpn % logicalBlockPages ∈ i :: pages) := by
        rw [List.mem_cons]
        refine and_congr_right fun hblock => ⟨Or.inr, fun h => h.resolve_left fun hoffset => ?_⟩
        exact hlpn (lpnToLogicalBlock_eq_iff.1 ⟨hblock, hoffset⟩).2
      rw [if_congr hiff rfl rfl]
      congr 1
      exact Function.update_of_ne hlpn _ _

/-- The pages are removed. -/
theorem clearPages_spec {lpns : List ℕ} (h : clearPages lpns s = some s') :
    s'.nand = s.nand ∧ s'.blockMap = s.blockMap ∧
      ∀ lpn, s'.l2pTable lpn = if lpn ∈ lpns then none else s.l2pTable lpn := by
  induction lpns generalizing s with
  | nil =>
    obtain rfl := Option.some_inj.1 h
    exact ⟨rfl, rfl, fun lpn => (if_neg List.not_mem_nil).symm⟩
  | cons lpn₀ lpns ih =>
    rw [clearPages] at h
    cases hl : s.l2pTable lpn₀ with
    | none =>
      rw [hl] at h
      obtain ⟨hnand, hblocks, htable⟩ := ih h
      refine ⟨hnand, hblocks, fun lpn => (htable lpn).trans ?_⟩
      rcases eq_or_ne lpn lpn₀ with rfl | hne
      · simp [hl]
      · simp [hne]
    | some ppn =>
      rw [hl] at h
      dsimp only at h
      split_ifs at h
      obtain ⟨hnand, hblocks, htable⟩ := ih h
      refine ⟨hnand, hblocks, fun lpn => (htable lpn).trans ?_⟩
      rcases eq_or_ne lpn lpn₀ with rfl | hne
      · simp
      · simp [hne]

/-- A change to a logical block: the entries of its pages become those of `entry`, and the accounts
    of the other logical blocks are left alone. -/
structure Changes (s s' : Ftl) (lb : ℕ) (entry : ℕ → Option ℕ) : Prop where
  nand : s'.nand = s.nand
  others : ∀ lb' ≠ lb, s'.blockMap lb' = s.blockMap lb'
  table : ∀ lpn, s'.l2pTable lpn =
    if lpnToLogicalBlock lpn = lb then entry lpn else s.l2pTable lpn

theorem Changes.congr {entry entry' : ℕ → Option ℕ} (h : s.Changes s' lb entry)
    (hentry : ∀ lpn, lpnToLogicalBlock lpn = lb → entry lpn = entry' lpn) :
    s.Changes s' lb entry' where
  nand := h.nand
  others := h.others
  table lpn := by
    rw [h.table lpn]
    split_ifs with hblock
    · exact hentry lpn hblock
    · rfl

/-- The accounts of the logical block itself do not matter. -/
theorem Changes.setEntry {entry : ℕ → Option ℕ} (h : s.Changes s' lb entry) (e : BlockMapEntry)
    (n : UInt32) : s.Changes { s' with
      blockMap := Function.update s'.blockMap lb e
      hotColdMigrationCount := n } lb entry where
  nand := h.nand
  others lb' hne := (Function.update_of_ne hne _ _).trans (h.others lb' hne)
  table := h.table

theorem Changes.refl (s : Ftl) (lb : ℕ) : s.Changes s lb s.l2pTable :=
  ⟨rfl, fun _ _ => rfl, fun _ => (ite_self _).symm⟩

/-- The pages of a logical block that becomes hot. -/
theorem hybridUpgradeToHot_spec (hlb : lb < totalLogicalBlocks) (hheats : Heats s.blockMap lb)
    (h : s.hybridUpgradeToHot lb = some (ret, s')) : s.Changes s' lb fun lpn =>
      s.pageIn (s.blockMap lb).physicalBlock (lpn % logicalBlockPages) := by
  obtain ⟨hvalid, _, hcold⟩ := hheats
  rw [hybridUpgradeToHot, if_neg (not_not.2 hvalid), if_neg (Bool.eq_false_iff.1 hcold)] at h
  obtain ⟨s₁, hpages, heq⟩ := Option.map_eq_some_iff.1 h
  obtain ⟨_, rfl⟩ := Prod.mk.inj heq
  obtain ⟨hnand, hblocks, htable⟩ :=
    upgradePages_spec hlb (fun i hi => List.mem_range.1 hi) hpages
  have hchanges : s.Changes s₁ lb fun lpn =>
      s.pageIn (s.blockMap lb).physicalBlock (lpn % logicalBlockPages) := by
    refine ⟨hnand, fun _ _ => by rw [hblocks], fun lpn => (htable lpn).trans ?_⟩
    have hoffset : lpn % logicalBlockPages ∈ List.range logicalBlockPages :=
      List.mem_range.2 (Nat.mod_lt lpn (by decide))
    exact if_congr (and_iff_left hoffset) rfl rfl
  exact hchanges.setEntry _ _

/-- The pages of a logical block that becomes cold. -/
theorem hybridDowngradeToCold_spec (hlb : lb < totalLogicalBlocks) (hcools : Cools s.blockMap lb)
    (h : s.hybridDowngradeToCold lb = some (ret, s')) : s.Changes s' lb fun _ => none := by
  obtain ⟨hvalid, _, hhot⟩ := hcools
  rw [hybridDowngradeToCold, if_neg (not_not.2 hvalid), if_neg (not_not.2 hhot)] at h
  cases hfind : (logicalPages lb).findSome? s.l2pTable with
  | none =>
    -- none of the pages is mapped
    rw [hfind] at h
    obtain ⟨_, rfl⟩ := Prod.mk.inj (Option.some_inj.1 h)
    refine ((Changes.refl s lb).congr fun lpn hblock => ?_).setEntry _ _
    exact List.findSome?_eq_none_iff.1 hfind lpn ((mem_logicalPages hlb).2 hblock)
  | some ppn =>
    rw [hfind] at h
    obtain ⟨s₁, hpages, heq⟩ := Option.map_eq_some_iff.1 h
    obtain ⟨_, rfl⟩ := Prod.mk.inj heq
    obtain ⟨hnand, hblocks, htable⟩ := clearPages_spec hpages
    have hchanges : s.Changes s₁ lb fun _ => none := by
      refine ⟨hnand, fun lb' hne => ?_, fun lpn => (htable lpn).trans ?_⟩
      · rw [hblocks]
        exact Function.update_of_ne hne _ _
      · exact if_congr (mem_logicalPages hlb) rfl rfl
    exact hchanges.setEntry _ _

/-- The migration of a logical block. -/
theorem migrateLogicalBlock_spec (hlb : lb < totalLogicalBlocks)
    (h : s.migrateLogicalBlock lb = some s') : s.Changes s' lb s.migratedEntry := by
  have hstay (hheats : ¬ Heats s.blockMap lb) (hcools : ¬ Cools s.blockMap lb) :
      s.Changes s lb s.migratedEntry :=
    (Changes.refl s lb).congr fun lpn hblock => by
      rw [migratedEntry, hblock, if_neg hheats, if_neg hcools]
  rw [migrateLogicalBlock] at h
  by_cases hvalid : (s.blockMap lb).isValid = true
  · rw [if_neg (not_not.2 hvalid)] at h
    by_cases hheats : Heats s.blockMap lb
    · rw [if_pos ⟨hheats.2.1, Bool.eq_false_iff.1 hheats.2.2⟩] at h
      obtain ⟨⟨ret, s₁⟩, hhot, rfl⟩ := Option.map_eq_some_iff.1 h
      have hchanges := hybridUpgradeToHot_spec hlb hheats hhot
      refine (hchanges.congr fun lpn hblock => ?_).setEntry _ _
      rw [migratedEntry, hblock, if_pos hheats]
    · rw [if_neg fun hand => hheats ⟨hvalid, hand.1, Bool.eq_false_iff.2 hand.2⟩] at h
      by_cases hcools : Cools s.blockMap lb
      · rw [if_pos hcools.2] at h
        obtain ⟨⟨ret, s₁⟩, hcold, rfl⟩ := Option.map_eq_some_iff.1 h
        have hchanges := hybridDowngradeToCold_spec hlb hcools hcold
        refine (hchanges.congr fun lpn hblock => ?_).setEntry _ _
        rw [migratedEntry, hblock, if_neg hheats, if_pos hcools]
      · rw [if_neg fun hand => hcools ⟨hvalid, hand⟩] at h
        obtain rfl := Option.some_inj.1 h
        exact (hstay hheats hcools).setEntry _ _
  · rw [if_pos hvalid] at h
    obtain rfl := Option.some_inj.1 h
    exact hstay (fun hheats => hvalid hheats.1) fun hcools => hvalid hcools.1

/-- What the entry of a logical page becomes depends on its own logical block only. -/
theorem migratedEntry_congr (hnand : s'.nand = s.nand) (hlpn : s'.l2pTable lpn = s.l2pTable lpn)
    (hentry : s'.blockMap (lpnToLogicalBlock lpn) = s.blockMap (lpnToLogicalBlock lpn)) :
    s'.migratedEntry lpn = s.migratedEntry lpn := by
  have hheats : Heats s'.blockMap (lpnToLogicalBlock lpn) ↔
      Heats s.blockMap (lpnToLogicalBlock lpn) := by rw [Heats, Heats, hentry]
  have hcools : Cools s'.blockMap (lpnToLogicalBlock lpn) ↔
      Cools s.blockMap (lpnToLogicalBlock lpn) := by rw [Cools, Cools, hentry]
  rw [migratedEntry, migratedEntry, pageIn, pageIn, hnand, hentry, hlpn]
  exact if_congr hheats rfl (if_congr hcools rfl rfl)

/-- The map after a migration. -/
theorem hotColdMigration_table (hstarted : s.isInitialized)
    (h : s.hotColdMigration = some (ret, s')) : s'.l2pTable = s.migratedTable := by
  rw [hotColdMigration, if_neg (not_not.2 hstarted)] at h
  obtain ⟨s₁, hfold, heq⟩ := Option.map_eq_some_iff.1 h
  obtain ⟨_, rfl⟩ := Prod.mk.inj heq
  have hturn : ∀ lb ∈ List.range totalLogicalBlocks, ∀ s s', migrateLogicalBlock s lb = some s' →
      (∀ lpn, s'.l2pTable lpn =
        if lpnToLogicalBlock lpn = lb then s.migratedEntry lpn else s.l2pTable lpn) ∧
      ∀ lpn, lpnToLogicalBlock lpn ≠ lb → s'.migratedEntry lpn = s.migratedEntry lpn := by
    intro lb hlb s s' hblock
    have hchanges := migrateLogicalBlock_spec (List.mem_range.1 hlb) hblock
    exact ⟨hchanges.table, fun lpn hne => migratedEntry_congr hchanges.nand
      ((hchanges.table lpn).trans (if_neg hne)) (hchanges.others _ hne)⟩
  funext lpn
  rw [foldlM_table hfold List.nodup_range hturn lpn, migratedTable]
  exact if_congr List.mem_range rfl rfl

/-- The map is the same as before if the migration is quiet. -/
theorem migratedTable_eq_iff : s.migratedTable = s.l2pTable ↔ s.Quiet s.blockMap := by
  constructor
  · intro hsame lb hlb
    have hentry : ∀ i < logicalBlockPages, s.l2pTable (lb * logicalBlockPages + i) =
        s.migratedEntry (lb * logicalBlockPages + i) := fun i hi => by
      obtain ⟨hblock, _⟩ := lpnToLogicalBlock_eq_iff.2 ⟨hi, rfl⟩
      rw [← congrFun hsame, migratedTable, hblock, if_pos hlb]
    refine ⟨fun hheats i hi => ?_, fun hcools i hi => ?_⟩
    all_goals
      obtain ⟨hblock, hoffset⟩ := lpnToLogicalBlock_eq_iff.2 ⟨hi, rfl⟩
      rw [hentry i hi, migratedEntry, hblock, hoffset]
    · rw [if_pos hheats]
    · rw [if_neg fun hheats => absurd hheats.2.2 (by simp [hcools.2.2]), if_pos hcools]
  · intro hquiet
    funext lpn
    rw [migratedTable]
    split_ifs with hlb
    · obtain ⟨hi, hlpn⟩ := lpnToLogicalBlock_eq_iff.1 ⟨rfl, rfl⟩
      obtain ⟨hheats, hcools⟩ := hquiet _ hlb
      rw [migratedEntry]
      split_ifs with hheat hcool
      · exact (hheats hheat _ hi).symm.trans (congrArg s.l2pTable hlpn.symm)
      · exact (hcools hcool _ hi).symm.trans (congrArg s.l2pTable hlpn.symm)
      · rfl
    · rfl

/-- A migration changes the map as `migratedTable` says, and leaves it as it was exactly if it is
    quiet. The pages of a logical block that becomes cold are lost. -/
theorem migration_quiet_iff (hstarted : s.isInitialized)
    (h : s.hotColdMigration = some (ret, s')) : s'.l2pTable = s.migratedTable ∧
      (s'.l2pTable = s.l2pTable ↔ s.Quiet s.blockMap) ∧
      ∀ lb < totalLogicalBlocks, Cools s.blockMap lb → ∀ i < logicalBlockPages, ∀ buf,
        s'.read (lb * logicalBlockPages + i) buf = (.errNotMapped, buf, s') := by
  have htable := hotColdMigration_table hstarted h
  refine ⟨htable, htable ▸ migratedTable_eq_iff, fun lb hlb hcools i hi buf => ?_⟩
  obtain ⟨hblock, _⟩ := lpnToLogicalBlock_eq_iff.2 ⟨hi, rfl⟩
  have hstarted' : s'.isInitialized := by
    have hfree : HybridFree Ftl.isInitialized := fun _ _ _ _ _ _ => rfl
    rw [hfree.hotColdMigration h, hstarted]
  have hnone : s'.l2pTable (lb * logicalBlockPages + i) = none := by
    rw [htable, migratedTable, hblock, if_pos hlb, migratedEntry, hblock,
      if_neg fun hheats => absurd hheats.2.2 (by simp [hcools.2.2]), if_pos hcools]
  rw [read, if_neg (not_not.2 hstarted'), if_neg (Nat.not_le.2 (lpn_lt_of_lt hlb hi)), hnone]

theorem Fresh.bounded (hfresh : Fresh s) : s.Bounded := by
  obtain ⟨rand, files, hon⟩ := hfresh
  have hinit := (Bounded.zero (Nand.init none rand) files).init
  rw [powerOn] at hon
  rwa [hon] at hinit

/-- A page that is lost with its logical block. -/
theorem migration_quiet_iff_lost : ∃ s s' : Ftl, s.l2pTable 5 ≠ none ∧ Cools s.blockMap 0 ∧
    s.hotColdMigration = some (.ok, s') ∧ s'.read 5 blankPage = (.errNotMapped, blankPage, s') := by
  obtain ⟨s₀, t, hfresh, hexec, hsafe⟩ := exists_written 5 (by decide) blankPage
  have hinv : Inv ∅ (contents [(.write 5 blankPage, ⟨.ok, none⟩)]) t :=
    run_inv hfresh.inv (.single hsafe ⟨0, hexec⟩)
  have hmapped : t.l2pTable 5 ≠ none := fun hnone => by
    have hcontents := hinv.unmapped 5 hnone
    simp [contents, next] at hcontents
  have hbounded : t.Bounded := exec_bounded hfresh.bounded hexec
  set s : Ftl := { t with blockMap := Function.update t.blockMap 0 ⟨0, true, true, 0⟩ } with hs
  have hcools : Cools s.blockMap 0 := by
    rw [Cools, hs]
    simp only [Function.update_self]
    decide
  have hstarted : s.isInitialized := hinv.started
  have hentry := hbounded.setEntry 0 ⟨0, true, true, 0⟩ fun _ => by decide
  obtain ⟨⟨ret, s'⟩, hmigrate, _⟩ := hentry.hotColdMigration
  obtain rfl : ret = .ok := by
    rw [hotColdMigration, if_neg (not_not.2 hstarted)] at hmigrate
    obtain ⟨s₁, _, heq⟩ := Option.map_eq_some_iff.1 hmigrate
    exact (Prod.mk.inj heq).1.symm
  refine ⟨s, s', hmapped, hcools, hmigrate, ?_⟩
  exact (migration_quiet_iff hstarted hmigrate).2.2 0 (by decide) hcools 5 (by decide) blankPage

/-! ## Quiet migrations -/

section Quiet

variable {c : Store}

/-- Pages that are where they are mapped to are mapped there again. -/
theorem upgradePages_still {pages : List ℕ} (hinv : Inv ∅ c (s.under .off)) (hb : b < totalBlocks)
    (hlb : lb < totalLogicalBlocks) (hpages : ∀ i ∈ pages, i < logicalBlockPages ∧
      s.l2pTable (lb * logicalBlockPages + i) = s.pageIn b i)
    (h : upgradePages lb b pages s = some s') : s' = s := by
  induction pages with
  | nil => exact (Option.some_inj.1 h).symm
  | cons i pages ih =>
    obtain ⟨⟨hi, hentry⟩, hpages⟩ := List.forall_mem_cons.1 hpages
    rw [upgradePages] at h
    rw [if_neg (Nat.not_le.2 (lpn_lt_of_lt hlb hi))] at h
    rw [pageIn] at hentry
    split_ifs at h hentry with _ hv
    · have hrev : s.reverseMap (blockPageToPpn b i) = some (lb * logicalBlockPages + i) :=
        (hinv.lookup _ _).1 hentry
      rw [Function.update_eq_self_iff.2 hentry.symm, Function.update_eq_self_iff.2 hrev.symm] at h
      exact ih hpages h
    · -- a page that is not valid is not mapped
      have hp : i < pagesPerBlock := Nat.lt_of_lt_of_le hi (by decide)
      have hrev : s.reverseMap (blockPageToPpn b i) = none := by
        refine hinv.reverseMap_of_invalid ?_
        rw [ppnToBlock_mk hb hp, ppnToPage_mk hb hp]
        have hblock : s.nand.isBlockValid b := hinv.isBlockValid hb
        simpa [Nand.isPageValid, hblock, hp] using hv
      rw [Function.update_eq_self_iff.2 hentry.symm, Function.update_eq_self_iff.2 hrev.symm] at h
      exact ih hpages h

/-- The physical blocks of the logical blocks that are to become hot are on the device. -/
def HeatsInRange (blockMap : ℕ → BlockMapEntry) (lb : ℕ) : Prop :=
  Heats blockMap lb → (blockMap lb).physicalBlock < totalBlocks

/-- The migration of a logical block whose pages stay where they are changes its accounts only. -/
theorem migrateLogicalBlock_still (hinv : Inv ∅ c (s.under .off)) (hlb : lb < totalLogicalBlocks)
    (hrange : HeatsInRange s.blockMap lb) (hstill : s.Still s.blockMap lb)
    (h : s.migrateLogicalBlock lb = some s') : s'.under .off = s.under .off := by
  rw [migrateLogicalBlock] at h
  split_ifs at h with hvalid hheat hcool
  · rw [hybridUpgradeToHot, if_neg (not_not.2 hvalid), if_neg hheat.2] at h
    obtain ⟨r, hr, rfl⟩ := Option.map_eq_some_iff.1 h
    obtain ⟨s₁, hpages, rfl⟩ := Option.map_eq_some_iff.1 hr
    have hheats : Heats s.blockMap lb := ⟨hvalid, hheat.1, Bool.eq_false_iff.2 hheat.2⟩
    obtain rfl := upgradePages_still hinv (hrange hheats) hlb
      (fun i hi => ⟨List.mem_range.1 hi, hstill.heats hheats i (List.mem_range.1 hi)⟩) hpages
    rfl
  · have hnone : (logicalPages lb).findSome? s.l2pTable = none := by
      refine List.findSome?_eq_none_iff.2 fun lpn hlpn => ?_
      obtain ⟨hi, hpage⟩ := lpnToLogicalBlock_eq_iff.1 ⟨(mem_logicalPages hlb).1 hlpn, rfl⟩
      exact hpage ▸ hstill.cools ⟨hvalid, hcool⟩ _ hi
    rw [hybridDowngradeToCold, if_neg (not_not.2 hvalid), if_neg (not_not.2 hcool.2), hnone] at h
    obtain rfl := Option.some_inj.1 h
    rfl
  · obtain rfl := Option.some_inj.1 h
    rfl
  · obtain rfl := Option.some_inj.1 h
    rfl

/-- Whether the pages stay where they are depends on the maps, the pages, and the accounts of the
    logical block. -/
theorem Still.congr {blockMap blockMap' : ℕ → BlockMapEntry} (h : s.Still blockMap lb)
    (hunder : s'.under .off = s.under .off) (hentry : blockMap' lb = blockMap lb) :
    s'.Still blockMap' lb := by
  obtain ⟨hheats, hcools⟩ := h
  have hl2p : s'.l2pTable = s.l2pTable := by rw [← under_l2pTable s' .off, hunder, under_l2pTable]
  have hnand : s'.nand = s.nand := by rw [← under_nand s' .off, hunder, under_nand]
  refine ⟨?_, ?_⟩
  · simpa only [Heats, hl2p, hentry, pageIn, hnand] using hheats
  · simpa only [Cools, hl2p, hentry] using hcools

/-- A quiet migration changes the accounts only. -/
theorem foldlM_migrateLogicalBlock_still {l : List ℕ} (hinv : Inv ∅ c (s.under .off))
    (hl : l.Nodup) (hstill : ∀ lb ∈ l, lb < totalLogicalBlocks ∧ HeatsInRange s.blockMap lb ∧
      s.Still s.blockMap lb) (h : l.foldlM migrateLogicalBlock s = some s') :
    s'.under .off = s.under .off := by
  induction l generalizing s with
  | nil => rw [Option.some_inj.1 h]
  | cons lb l ih =>
    obtain ⟨hmem, hl⟩ := List.nodup_cons.1 hl
    obtain ⟨⟨hlb, hlbrange, hlbstill⟩, hstill⟩ := List.forall_mem_cons.1 hstill
    rw [List.foldlM_cons] at h
    obtain ⟨s₁, hfirst, hrest⟩ := Option.bind_eq_some_iff.1 h
    have hunder := migrateLogicalBlock_still hinv hlb hlbrange hlbstill hfirst
    have hblocks := (migrateLogicalBlock_spec hlb hfirst).others
    refine (ih (hunder ▸ hinv) hl (fun lb' hlb' => ?_) hrest).trans hunder
    obtain ⟨hlt, hrange, hstill⟩ := hstill lb' hlb'
    -- the accounts of the other logical blocks are the same
    have hentry : s₁.blockMap lb' = s.blockMap lb' := hblocks lb' fun heq => hmem (heq ▸ hlb')
    refine ⟨hlt, ?_, hstill.congr hunder hentry⟩
    simpa only [HeatsInRange, Heats, hentry] using hrange

theorem hotColdMigration_quiet (hinv : Inv ∅ c (s.under .off))
    (hrange : ∀ lb, HeatsInRange s.blockMap lb) (hquiet : s.Quiet s.blockMap)
    (h : s.hotColdMigration = some (ret, s')) : s'.under .off = s.under .off ∧ ret = .ok := by
  have hstarted : s.isInitialized := hinv.started
  rw [hotColdMigration, if_neg (not_not.2 hstarted)] at h
  obtain ⟨s₁, hfold, heq⟩ := Option.map_eq_some_iff.1 h
  obtain ⟨rfl, rfl⟩ := Prod.mk.inj heq
  refine ⟨foldlM_migrateLogicalBlock_still hinv List.nodup_range (fun lb hlb => ?_) hfold, rfl⟩
  exact ⟨List.mem_range.1 hlb, hrange lb, hquiet lb (List.mem_range.1 hlb)⟩

end Quiet

/-! ## Writes -/

/-- The device with the accounts of a logical block begun. -/
def accountsBegun (s : Ftl) (lb b : ℕ) : Ftl :=
  if ¬ (s.blockMap lb).isValid then
    { s with blockMap := Function.update s.blockMap lb ⟨b, true, false, 0⟩ }
  else s

/-- The device after the access of a write has been counted. -/
def accounted (s : Ftl) (lpn ppn : ℕ) : Ftl :=
  if lpnToLogicalBlock lpn < totalLogicalBlocks then
    (s.accountsBegun (lpnToLogicalBlock lpn) (ppnToBlock ppn)).hybridUpdateAccessCount lpn
  else s

section Accounted

variable (s lpn) (ppn : ℕ)

theorem accounted_under : (s.accounted lpn ppn).under .off = s.under .off := by
  rw [accounted]
  split_ifs
  · rw [hybridUpdateAccessCount_under, accountsBegun]
    split_ifs <;> rfl
  · rfl

theorem accounted_hotColdCheckCount :
    (s.accounted lpn ppn).hotColdCheckCount = s.hotColdCheckCount := by
  rw [accounted, hybridUpdateAccessCount, accountsBegun]
  dsimp only
  split_ifs <;> rfl

/-- A write in hybrid mode counts its access, and then there may be a migration. -/
theorem hybridWrite_eq : s.hybridWrite lpn ppn =
    if hotColdCheckInterval ≤ s.hotColdCheckCount + 1 then
      ({ s.accounted lpn ppn with hotColdCheckCount := 0 } : Ftl).hotColdMigration.map Prod.snd
    else some { s.accounted lpn ppn with hotColdCheckCount := s.hotColdCheckCount + 1 } := by
  have hcount := accounted_hotColdCheckCount s lpn ppn
  rw [← hcount]
  rfl

/-- A logical block whose accounts have just begun is not to be migrated. -/
theorem accounted_blockMap (lb : ℕ) :
    (s.accounted lpn ppn).blockMap lb = (s.hybridUpdateAccessCount lpn).blockMap lb ∨
      ¬ Heats (s.accounted lpn ppn).blockMap lb ∧ ¬ Cools (s.accounted lpn ppn).blockMap lb := by
  by_cases hlb : lpnToLogicalBlock lpn < totalLogicalBlocks
  · by_cases hvalid : (s.blockMap (lpnToLogicalBlock lpn)).isValid
    · rw [accounted, if_pos hlb, accountsBegun, if_neg (not_not.2 hvalid)]
      exact Or.inl rfl
    · simp only [accounted, if_pos hlb, accountsBegun, if_pos hvalid, hybridUpdateAccessCount,
        if_neg (Nat.not_le.2 hlb), Function.update_self, not_true_eq_false, if_false,
        Function.update_idem, Heats, Cools]
      rcases eq_or_ne lb (lpnToLogicalBlock lpn) with rfl | hne
      · right
        rw [Function.update_self]
        have hfew : ¬ hotDataThreshold ≤ 0 + 1 := by decide
        exact ⟨fun hheats => hfew hheats.2.1,
          fun hcools => Bool.false_ne_true hcools.2.2⟩
      · exact Or.inl (Function.update_of_ne hne _ _)
  · rw [accounted, if_neg hlb, hybridUpdateAccessCount, if_pos (Nat.le_of_not_lt hlb)]
    exact Or.inl rfl

end Accounted

variable {c : Store} {ppn : ℕ}

/-- If the migration is quiet, the accounts of a write are all that it changes. -/
theorem hybridWrite_quiet (hinv : Inv ∅ c (s.under .off)) (hbounded : s.Bounded)
    (hquiet : hotColdCheckInterval ≤ s.hotColdCheckCount + 1 →
      s.Quiet (s.hybridUpdateAccessCount lpn).blockMap)
    (h : s.hybridWrite lpn ppn = some s') : s'.under .off = s.under .off := by
  have hunder := accounted_under s lpn ppn
  rw [hybridWrite_eq] at h
  split_ifs at h with hdue
  · obtain ⟨r, hmigrate, rfl⟩ := Option.map_eq_some_iff.1 h
    have hinv' : Inv ∅ c (under .off { s.accounted lpn ppn with hotColdCheckCount := 0 }) :=
      hunder ▸ hinv
    refine (hotColdMigration_quiet hinv' (fun lb hheats => ?_) (fun lb hlb => ?_) hmigrate).1.trans
      hunder
    · rcases accounted_blockMap s lpn ppn lb with heq | ⟨hcold, _⟩
      · have hvalid := hheats.1
        dsimp only at hvalid ⊢
        rw [heq] at hvalid ⊢
        exact (hbounded.hybridUpdateAccessCount lpn).blockMap lb hvalid
      · exact absurd hheats hcold
    · rcases accounted_blockMap s lpn ppn lb with heq | ⟨hcold, hhot⟩
      · exact (hquiet hdue lb hlb).congr hunder heq
      · exact ⟨fun hheats => absurd hheats hcold, fun hcools => absurd hcools hhot⟩
  · obtain rfl := Option.some_inj.1 h
    exact hunder

end Ftl

end FtlFirmware
