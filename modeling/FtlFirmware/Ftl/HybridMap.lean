import FtlFirmware.Ftl.System

/-!
# The device and its hybrid map

In hybrid mode, the device keeps a map of its logical blocks, with the accesses to each of them
(`HybridMap`). No operation looks at it, but for those of the hybrid mapping itself: an operation
does the same under any other hybrid map (`Ftl.under`), and so it leaves the hybrid map alone. A
read adds an access, a write does so as well, and may end with a migration (`write_under`).
-/

namespace FtlFirmware

/-- The mapping mode, with what the hybrid mapping keeps account of. -/
structure HybridMap where
  mapMode : MapMode
  blockMap : ℕ → BlockMapEntry
  hotColdCheckCount : UInt32
  hotColdMigrationCount : UInt32

namespace HybridMap

/-- Page mapping mode, without any logical blocks. -/
def off : HybridMap := ⟨.page, fun _ => ⟨invalidBlock, false, false, 0⟩, 0, 0⟩

end HybridMap

namespace Ftl

/-- The hybrid map of the device. -/
def hybridMap (s : Ftl) : HybridMap :=
  ⟨s.mapMode, s.blockMap, s.hotColdCheckCount, s.hotColdMigrationCount⟩

/-- The device with another hybrid map. -/
def under (m : HybridMap) (s : Ftl) : Ftl :=
  { s with
    mapMode := m.mapMode
    blockMap := m.blockMap
    hotColdCheckCount := m.hotColdCheckCount
    hotColdMigrationCount := m.hotColdMigrationCount }

/-- A result, and the device with another hybrid map. -/
def underResult {α : Type*} (m : HybridMap) (r : α × Ftl) : α × Ftl := (r.1, r.2.under m)

variable (s : Ftl) (m : HybridMap)

@[simp] theorem under_self : s.under s.hybridMap = s := rfl

@[simp] theorem under_under (m' : HybridMap) : (s.under m').under m = s.under m := rfl

@[simp] theorem under_mapMode : (s.under m).mapMode = m.mapMode := rfl

@[simp] theorem under_nand : (s.under m).nand = s.nand := rfl

@[simp] theorem under_l2pTable : (s.under m).l2pTable = s.l2pTable := rfl

@[simp] theorem under_reverseMap : (s.under m).reverseMap = s.reverseMap := rfl

@[simp] theorem under_isInitialized : (s.under m).isInitialized = s.isInitialized := rfl

/-! ## Garbage collection -/

theorem allocPhyPage_under : (s.under m).allocPhyPage = s.allocPhyPage.map (underResult m) := by
  have hfind : (s.under m).findNextFreeBlock (((s.under m).curWriteBlock + 1) % 2 ^ 32) =
      s.findNextFreeBlock ((s.curWriteBlock + 1) % 2 ^ 32) := rfl
  rw [allocPhyPage, allocPhyPage, apply_ite (Option.map (underResult m)), hfind]
  refine if_congr Iff.rfl rfl ?_
  cases s.findNextFreeBlock ((s.curWriteBlock + 1) % 2 ^ 32) <;> rfl

theorem gcMovePage_under (victim page lpn : ℕ) (buf : PageData) :
    (s.under m).gcMovePage victim page lpn buf =
      ((s.gcMovePage victim page lpn buf).1,
        underResult m (s.gcMovePage victim page lpn buf).2) := by
  have halloc : allocPhyPage { s.under m with
        nand := ((s.under m).nand.pageRead victim page buf).2.2 } =
      (allocPhyPage { s with nand := (s.nand.pageRead victim page buf).2.2 }).map (underResult m) :=
    allocPhyPage_under { s with nand := (s.nand.pageRead victim page buf).2.2 } m
  rw [gcMovePage, gcMovePage, halloc]
  cases allocPhyPage { s with nand := (s.nand.pageRead victim page buf).2.2 } with
  | none => rfl
  | some taken =>
    obtain ⟨newPpn, s'⟩ := taken
    dsimp only [Option.map_some, underResult]
    rw [under_nand, under_nand]
    rcases s'.nand.pageWrite (ppnToBlock newPpn) (ppnToPage newPpn)
      (s.nand.pageRead victim page buf).2.1 with ⟨_ | _, nand⟩
    all_goals rfl

theorem recyclePages_under (victim : ℕ) (buf : PageData) (pages : List ℕ) :
    recyclePages victim buf pages (s.under m) =
      underResult m (recyclePages victim buf pages s) := by
  induction pages generalizing s buf with
  | nil => rfl
  | cons page pages ih =>
    rw [recyclePages, recyclePages, under_nand, under_reverseMap, apply_ite (underResult m)]
    refine if_congr Iff.rfl (ih s buf) ?_
    cases s.reverseMap (blockPageToPpn victim page) with
    | none => exact ih s buf
    | some lpn =>
      dsimp only
      rw [gcMovePage_under]
      obtain ⟨ret, buf', s'⟩ := s.gcMovePage victim page lpn buf
      cases ret with
      | ok => exact ih s' buf'
      | _ => rfl

theorem gcDoRecycle_under : (s.under m).gcDoRecycle = underResult m s.gcDoRecycle := by
  have hvictim : (s.under m).gcSelectVictimBlock = s.gcSelectVictimBlock := rfl
  rw [gcDoRecycle, gcDoRecycle, hvictim]
  cases s.gcSelectVictimBlock with
  | none => rfl
  | some victim =>
    have hpages : recyclePages victim blankPage (List.range pagesPerBlock)
        { s.under m with gcCount := (s.under m).gcCount + 1 } =
          underResult m (recyclePages victim blankPage (List.range pagesPerBlock)
            { s with gcCount := s.gcCount + 1 }) :=
      recyclePages_under { s with gcCount := s.gcCount + 1 } m victim blankPage _
    dsimp only
    rw [hpages]
    obtain ⟨ret, s'⟩ := recyclePages victim blankPage (List.range pagesPerBlock)
      { s with gcCount := s.gcCount + 1 }
    cases ret <;> rfl

theorem gcUntilSpace_under (fuel : ℕ) :
    gcUntilSpace fuel (s.under m) = (gcUntilSpace fuel s).map (underResult m) := by
  induction fuel generalizing s with
  | zero =>
    rw [gcUntilSpace, gcUntilSpace, apply_ite (Option.map (underResult m))]
    exact if_congr Iff.rfl rfl rfl
  | succ fuel ih =>
    rw [gcUntilSpace, gcUntilSpace, apply_ite (Option.map (underResult m)), gcDoRecycle_under]
    refine if_congr Iff.rfl ?_ rfl
    obtain ⟨ret, s'⟩ := s.gcDoRecycle
    cases ret with
    | ok => exact ih s'
    | _ => rfl

/-! ## Moving blocks -/

theorem wearLevelingCheck_under : (s.under m).wearLevelingCheck = s.wearLevelingCheck.under m := by
  rw [wearLevelingCheck, wearLevelingCheck, under_nand, apply_ite fun s : Ftl => s.under m]
  refine if_congr Iff.rfl ?_ rfl
  cases (wearScan s.nand).2.2 <;> rfl

theorem migratePage_under (src dst page lpn : ℕ) (buf : PageData) :
    (s.under m).migratePage src dst page lpn buf =
      ((s.migratePage src dst page lpn buf).1,
        underResult m (s.migratePage src dst page lpn buf).2) := by
  rw [migratePage, migratePage, under_nand]
  rcases (s.nand.pageRead src page buf).2.2.pageWrite dst page (s.nand.pageRead src page buf).2.1
    with ⟨_ | _, nand⟩
  all_goals rfl

theorem migratePages_under (src dst : ℕ) (buf : PageData) (moved : UInt32) (pages : List ℕ) :
    migratePages src dst buf moved pages (s.under m) =
      underResult m (migratePages src dst buf moved pages s) := by
  induction pages generalizing s buf moved with
  | nil => rfl
  | cons page pages ih =>
    rw [migratePages, migratePages, under_nand, under_reverseMap, apply_ite (underResult m)]
    refine if_congr Iff.rfl (ih s buf moved) ?_
    cases s.reverseMap (blockPageToPpn src page) with
    | none => exact ih s buf moved
    | some lpn =>
      dsimp only
      rw [migratePage_under]
      obtain ⟨ret, buf', s'⟩ := s.migratePage src dst page lpn buf
      cases ret with
      | ok => exact ih s' buf' (moved + 1)
      | _ => exact ih s' buf' moved

theorem staticWearLevelingCheck_under :
    (s.under m).staticWearLevelingCheck = s.staticWearLevelingCheck.under m := by
  rw [staticWearLevelingCheck, staticWearLevelingCheck, under_nand]
  rcases staticWearPair s.nand with _ | ⟨src, dst⟩
  · rfl
  · dsimp only
    rw [migratePages_under]
    rfl

theorem handleReadDisturb_under :
    (s.under m).handleReadDisturb = underResult m s.handleReadDisturb := by
  have hfind : (s.under m).findNextFreeBlock 0 = s.findNextFreeBlock 0 := rfl
  rw [handleReadDisturb, handleReadDisturb, under_nand, hfind, apply_ite (underResult m)]
  refine if_congr Iff.rfl rfl ?_
  cases s.nand.checkReadDisturb with
  | none => rfl
  | some src =>
    dsimp only
    cases s.findNextFreeBlock 0 with
    | none => rfl
    | some dst =>
      dsimp only
      rw [migratePages_under]
      rfl

theorem remapPages_under (block newBlock : ℕ) (moved : UInt32) (pages : List ℕ) :
    remapPages block newBlock moved pages (s.under m) =
      underResult m (remapPages block newBlock moved pages s) := by
  induction pages generalizing s moved with
  | nil => rfl
  | cons page pages ih =>
    rw [remapPages, remapPages, under_reverseMap]
    cases s.reverseMap (blockPageToPpn block page) with
    | none => exact ih s moved
    | some lpn => exact ih (s.remap lpn _ _) (moved + 1)

theorem replaceBadBlock_under (block : ℕ) :
    (s.under m).replaceBadBlock block = underResult m (s.replaceBadBlock block) := by
  rw [replaceBadBlock, replaceBadBlock, under_nand, apply_ite (underResult m),
    apply_ite (underResult m)]
  refine if_congr Iff.rfl rfl (if_congr Iff.rfl rfl ?_)
  rcases s.nand.replaceBadBlock block with ⟨_ | newBlock, nand⟩
  · rfl
  · have hpages : remapPages block newBlock 0 (List.range pagesPerBlock)
        { (s.under m) with nand := nand } = underResult m (remapPages block newBlock 0
          (List.range pagesPerBlock) { s with nand := nand }) :=
      remapPages_under { s with nand := nand } m block newBlock 0 _
    dsimp only
    rw [hpages]
    rfl

/-! ## Logging -/

theorem walAppend_under (e : WalEntry) :
    (s.under m).walAppend e = underResult m (s.walAppend e) := by
  cases hfile : s.walFile with
  | none => rw [walAppend, walAppend, show (s.under m).walFile = none from hfile, hfile]; rfl
  | some path =>
    rw [walAppend, walAppend, show (s.under m).walFile = some path from hfile, hfile]
    rfl

theorem walLog_under (e : WalEntry) : (s.under m).walLog e = underResult m (s.walLog e) := by
  rw [walLog, walLog, walAppend_under, apply_ite (underResult m)]
  exact if_congr Iff.rfl rfl rfl

theorem walClear_under : (s.under m).walClear = underResult m s.walClear := by
  cases hfile : s.walFile with
  | none => rw [walClear, walClear, show (s.under m).walFile = none from hfile, hfile]; rfl
  | some path =>
    rw [walClear, walClear, show (s.under m).walFile = some path from hfile, hfile]
    rfl

theorem saveSnapshot_under (path : String) :
    (s.under m).saveSnapshot path = underResult m (s.saveSnapshot path) := by
  rw [saveSnapshot, saveSnapshot, apply_ite (underResult m)]
  exact if_congr Iff.rfl rfl rfl

/-! ## Writing -/

theorem programPage_under (newPpn : ℕ) (buf : PageData) :
    (s.under m).programPage newPpn buf =
      ((s.programPage newPpn buf).1, underResult m (s.programPage newPpn buf).2) := by
  have hreplace (w : RetCode × Nand) : replaceBadBlock { s.under m with nand := w.2 }
      (ppnToBlock newPpn) = underResult m (replaceBadBlock { s with nand := w.2 }
        (ppnToBlock newPpn)) := replaceBadBlock_under { s with nand := w.2 } m _
  rw [programPage, programPage, under_nand]
  generalize s.nand.pageWrite (ppnToBlock newPpn) (ppnToPage newPpn) buf = w
  dsimp only
  by_cases hbad : w.1 = .errBadBlock
  · rw [if_pos hbad, if_pos hbad, hreplace]
    obtain ⟨ret, s'⟩ := replaceBadBlock { s with nand := w.2 } (ppnToBlock newPpn)
    cases ret with
    | ok =>
      dsimp only [underResult]
      rw [allocPhyPage_under]
      cases s'.allocPhyPage <;> rfl
    | _ => rfl
  · rw [if_neg hbad, if_neg hbad]
    rfl

theorem commitWrite_under (lpn newPpn : ℕ) :
    (s.under m).commitWrite lpn newPpn = (s.commitWrite lpn newPpn).map (under m) := by
  rw [commitWrite, commitWrite]
  dsimp only [under_l2pTable]
  cases s.l2pTable lpn with
  | none => rfl
  | some oldPpn =>
    dsimp only
    rw [apply_ite (Option.map (under m))]
    exact if_congr Iff.rfl rfl rfl

theorem checkWear_under : (s.under m).checkWear = s.checkWear.under m := by
  rw [checkWear, checkWear, wearLevelingCheck_under, apply_ite (under m)]
  generalize s.wearLevelingCheck = t
  exact if_congr Iff.rfl (staticWearLevelingCheck_under { t with writeSinceLastCheck := 0 } m) rfl

variable {s} {t : Ftl}

theorem commitWrite_keeps {lpn newPpn : ℕ} (h : s.commitWrite lpn newPpn = some t) :
    t.under s.hybridMap = t := by
  have hunder := commitWrite_under s s.hybridMap lpn newPpn
  rw [under_self, h] at hunder
  exact (Option.some.inj hunder).symm

theorem checkWear_keeps (h : t.under m = t) : t.checkWear.under m = t.checkWear := by
  rw [← checkWear_under, h]

variable (s)

theorem finishWrite_bind (lpn newPpn : ℕ) : s.finishWrite lpn newPpn =
    (s.commitWrite lpn newPpn).bind fun t =>
      if t.checkWear.mapMode = .hybrid then t.checkWear.hybridWrite lpn newPpn
      else some t.checkWear := rfl

/-- How a write ends: as it does without the hybrid map, and then with the accounts, if the mode is
    hybrid. -/
theorem finishWrite_under (lpn newPpn : ℕ) : s.finishWrite lpn newPpn =
    ((s.under .off).finishWrite lpn newPpn).bind fun t =>
      if s.mapMode = .hybrid then (t.under s.hybridMap).hybridWrite lpn newPpn
      else some (t.under s.hybridMap) := by
  rw [finishWrite_bind, finishWrite_bind, commitWrite_under]
  cases hcommit : s.commitWrite lpn newPpn with
  | none => simp only [Option.map_none, Option.bind_none]
  | some t =>
    have hkeeps := checkWear_keeps s.hybridMap (commitWrite_keeps hcommit)
    have hmode : t.checkWear.mapMode = s.mapMode := by
      rw [← hkeeps, under_mapMode]
      rfl
    have hoff : (t.checkWear.under .off).mapMode ≠ .hybrid := MapMode.noConfusion
    simp only [Option.map_some, Option.bind_some, checkWear_under, if_neg hoff, under_under, hkeeps,
      hmode]

variable {s m} in
/-- What does the same under another hybrid map leaves the hybrid map alone. -/
theorem under_of_result {α : Type*} {r : α × Ftl} (h : r = underResult m r) : r.2.under m = r.2 :=
  (congrArg Prod.snd h).symm

/-- A write does what it does without the hybrid map, and then, if it succeeds and the mode is
    hybrid, it keeps the accounts of the logical blocks. -/
theorem writeOut_under (lpn : ℕ) (buf : PageData) : ∃ ppn, s.writeOut lpn buf =
    ((s.under .off).writeOut lpn buf).bind fun r =>
      if r.1 = .ok ∧ s.mapMode = .hybrid then
        ((r.2.under s.hybridMap).hybridWrite lpn ppn).map fun s => (.ok, s)
      else some (r.1, r.2.under s.hybridMap) := by
  rw [writeOut, writeOut, allocPhyPage_under]
  cases halloc : s.allocPhyPage with
  | none => exact ⟨0, by simp⟩
  | some taken =>
    obtain ⟨newPpn, s₁⟩ := taken
    have hs₁ : s₁.under s.hybridMap = s₁ := by
      have hunder := allocPhyPage_under s s.hybridMap
      rw [under_self, halloc] at hunder
      exact under_of_result (Option.some.inj hunder)
    simp only [Option.map_some, underResult, walLogWrite, walLog_under, under_l2pTable]
    -- Each part of a write leaves the accounts of the logical blocks alone.
    have hlog := walLog_under s₁ s.hybridMap (writeEntry lpn (s₁.l2pTable lpn) newPpn)
    rw [hs₁] at hlog
    have hs₂ := under_of_result hlog
    generalize s₁.walLog (writeEntry lpn (s₁.l2pTable lpn) newPpn) = logged at hs₂ ⊢
    obtain ⟨ret, s₂⟩ := logged
    cases ret with
    | ok =>
      dsimp only at hs₂ ⊢
      have hprogram := programPage_under s₂ s.hybridMap newPpn buf
      rw [hs₂] at hprogram
      have hs₃ := under_of_result (congrArg Prod.snd hprogram)
      rw [programPage_under]
      generalize s₂.programPage newPpn buf = programmed at hs₃ ⊢
      obtain ⟨ret, ppn, s₃⟩ := programmed
      dsimp only at hs₃
      refine ⟨ppn, ?_⟩
      cases ret with
      | ok =>
        have hmap : s₃.hybridMap = s.hybridMap := by rw [← hs₃]; rfl
        have hmode : s₃.mapMode = s.mapMode := congrArg HybridMap.mapMode hmap
        dsimp only [underResult]
        rw [finishWrite_under, hmap, hmode]
        cases (s₃.under .off).finishWrite lpn ppn with
        | none => rfl
        | some t => simp only [Option.bind_some, Option.map_some, true_and]; split_ifs <;> rfl
      | _ => simp [underResult, hs₃]
    | _ => exact ⟨0, by simp [hs₂]⟩

/-- The same for a write with its garbage collections. -/
theorem write_under (fuel lpn : ℕ) (buf : PageData) : ∃ ppn, s.write fuel lpn buf =
    ((s.under .off).write fuel lpn buf).bind fun r =>
      if r.1 = .ok ∧ s.mapMode = .hybrid then
        ((r.2.under s.hybridMap).hybridWrite lpn ppn).map fun s => (.ok, s)
      else some (r.1, r.2.under s.hybridMap) := by
  rw [write, write, gcUntilSpace_under, under_isInitialized]
  by_cases hinit : s.isInitialized
  · rw [if_neg (not_not.2 hinit), if_neg (not_not.2 hinit)]
    by_cases hlpn : totalLpns ≤ lpn
    · exact ⟨0, by simp [hlpn]⟩
    · rw [if_neg hlpn, if_neg hlpn]
      have hgc := gcUntilSpace_under s s.hybridMap fuel
      rw [under_self] at hgc
      cases hspace : gcUntilSpace fuel s with
      | none => exact ⟨0, rfl⟩
      | some r =>
        obtain ⟨ret, s₁⟩ := r
        rw [hspace] at hgc
        have hs₁ : s₁.under s.hybridMap = s₁ := under_of_result (Option.some.inj hgc)
        have hmap : s₁.hybridMap = s.hybridMap := by rw [← hs₁]; rfl
        have hmode : s₁.mapMode = s.mapMode := congrArg HybridMap.mapMode hmap
        cases ret with
        | ok =>
          obtain ⟨ppn, heq⟩ := writeOut_under s₁ lpn buf
          rw [hmap, hmode] at heq
          exact ⟨ppn, heq⟩
        | _ => exact ⟨0, by simp [underResult, hs₁]⟩
  · exact ⟨0, by simp [hinit]⟩

/-! ## Trimming -/

theorem trimPage_under (lpn : ℕ) : (s.under m).trimPage lpn = (s.trimPage lpn).map (under m) := by
  rw [trimPage, trimPage, apply_ite (Option.map (under m)), under_l2pTable]
  refine if_congr Iff.rfl rfl ?_
  cases s.l2pTable lpn with
  | none => rfl
  | some ppn =>
    dsimp only
    rw [apply_ite (Option.map (under m)), walLogTrim, walLogTrim, under_l2pTable, walLog_under]
    exact if_congr Iff.rfl rfl rfl

theorem foldlM_trimPage_under (pages : List ℕ) :
    pages.foldlM trimPage (s.under m) = (pages.foldlM trimPage s).map (under m) := by
  induction pages generalizing s with
  | nil => rfl
  | cons lpn pages ih =>
    rw [List.foldlM_cons, List.foldlM_cons, trimPage_under]
    cases s.trimPage lpn with
    | none => rfl
    | some s' => exact ih s'

theorem trim_under (lpn count : UInt32) :
    (s.under m).trim lpn count = (s.trim lpn count).map (underResult m) := by
  rw [trim, trim, foldlM_trimPage_under]
  simp only [apply_ite (Option.map (underResult m))]
  refine if_congr Iff.rfl rfl (if_congr Iff.rfl rfl (if_congr Iff.rfl rfl ?_))
  cases (List.range' lpn.toNat (trimLength lpn count)).foldlM trimPage s <;> rfl

/-! ## Reading -/

theorem hybridUpdateAccessCount_under (lpn : ℕ) :
    (s.hybridUpdateAccessCount lpn).under m = s.under m := by
  rw [hybridUpdateAccessCount]
  dsimp only
  split_ifs <;> rfl

/-- A read answers the same, and adds only to the accounts. -/
theorem read_under_off (lpn : ℕ) (buf : PageData) : (s.under .off).read lpn buf =
    ((s.read lpn buf).1, underResult .off (s.read lpn buf).2) := by
  have hoff (ret : RetCode) : ¬ (ret = .ok ∧ (s.under .off).mapMode = .hybrid) := fun h =>
    MapMode.noConfusion h.2
  rw [read, read, under_isInitialized, under_l2pTable]
  by_cases hinit : s.isInitialized
  · rw [if_neg (not_not.2 hinit), if_neg (not_not.2 hinit)]
    by_cases hlpn : totalLpns ≤ lpn
    · rw [if_pos hlpn, if_pos hlpn]
      rfl
    · rw [if_neg hlpn, if_neg hlpn]
      cases s.l2pTable lpn with
      | none => rfl
      | some ppn =>
        dsimp only
        have hreplace (n : Nand) :
            replaceBadBlock { s.under .off with nand := n } (ppnToBlock ppn) =
              underResult .off (replaceBadBlock { s with nand := n } (ppnToBlock ppn)) :=
          replaceBadBlock_under { s with nand := n } .off _
        set r := s.nand.pageRead (ppnToBlock ppn) (ppnToPage ppn) buf
        have hr : (s.under .off).nand.pageRead (ppnToBlock ppn) (ppnToPage ppn) buf = r := rfl
        by_cases hbad : r.1 = .errBadBlock
        · rw [hr, if_pos hbad, if_pos hbad]
          exact congrArg (fun x => (RetCode.errBadBlock, r.2.1, x.2)) (hreplace r.2.2)
        · rw [hr, if_neg hbad, if_neg hbad, if_neg (hoff r.1)]
          split_ifs
          · rw [underResult, hybridUpdateAccessCount_under]
            rfl
          · rfl
  · rw [if_pos hinit, if_pos hinit]
    rfl

end Ftl

end FtlFirmware
