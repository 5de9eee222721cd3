import FtlFirmware.Ftl.Evacuate

/-!
# The bounds of the tables

What the maps refer to is on the device (`Bounded`): the map gives physical pages, the map back
logical pages, the write cursor is in a block of the device, and so are the physical blocks of the
hybrid mapping. The functions of the FTL rely on this when they use an entry of one table as an
index of another one. They also keep it, whatever happens to the pages.

A function that comes back at all is one that has not left the tables. For a write the number of its
garbage collections is left open, so it comes back if these do.
-/

namespace FtlFirmware

namespace Ftl

variable {s s' : Ftl} {buf : PageData} {lpn ppn newPpn src dst fuel lb : ℕ} {ret : RetCode}

/-- What the tables and the write cursor refer to is on the device. -/
structure Bounded (s : Ftl) : Prop where
  l2p : Ranges (· < totalPpns) s.l2pTable
  rev : Ranges (· < totalLpns) s.reverseMap
  cursor : s.curWriteBlock < totalBlocks
  blockMap : ∀ lb, (s.blockMap lb).isValid → (s.blockMap lb).physicalBlock < totalBlocks

namespace Bounded

/-- Only the tables and the cursor matter. -/
theorem congr (h : s.Bounded)
    (hsame : (s'.l2pTable, s'.reverseMap, s'.curWriteBlock, s'.blockMap) =
      (s.l2pTable, s.reverseMap, s.curWriteBlock, s.blockMap)) : s'.Bounded := by
  simp only [Prod.mk.injEq] at hsame
  obtain ⟨hl2p, hrev, hcursor, hblockMap⟩ := hsame
  exact ⟨hl2p ▸ h.l2p, hrev ▸ h.rev, hcursor ▸ h.cursor, hblockMap ▸ h.blockMap⟩

theorem nand (h : s.Bounded) (n : Nand) : { s with nand := n }.Bounded := h.congr rfl

theorem zero (n : Nand) (files : String → Option (List UInt8)) : (Ftl.zero n files).Bounded where
  l2p _ _ heq := by
    obtain rfl := Option.some_inj.1 heq
    decide
  rev _ _ heq := by
    obtain rfl := Option.some_inj.1 heq
    decide
  cursor := (by decide : 0 < totalBlocks)
  blockMap _ hvalid := absurd hvalid Bool.false_ne_true

/-- Nothing is mapped after the start. -/
theorem init (h : s.Bounded) : s.init.2.Bounded := by
  rw [Ftl.init]
  split
  · exact ⟨.empty, .empty, h.cursor, h.blockMap⟩
  · next firstBlock hfirst =>
    have hlt := (Nand.isBlockValid_iff.1 (findNextFreeBlock_spec hfirst).1).1
    exact ⟨.empty, .empty, hlt, fun _ hvalid => absurd hvalid Bool.false_ne_true⟩

/-- A page that is taken is on the device. -/
theorem alloc (h : s.Bounded) (ha : s.allocPhyPage = some (ppn, s')) :
    s'.Bounded ∧ ppn < totalPpns := by
  rcases allocPhyPage_cases ha with ⟨hlt, rfl, rfl⟩ | ⟨_, b, hb, rfl, rfl⟩
  · exact ⟨h.congr rfl, blockPageToPpn_lt h.cursor hlt⟩
  · have hlt := (Nand.isBlockValid_iff.1 (findNextFreeBlock_spec hb).1).1
    exact ⟨⟨h.l2p, h.rev, hlt, h.blockMap⟩, blockPageToPpn_lt hlt (by decide)⟩

theorem remap (h : s.Bounded) (hlpn : lpn < totalLpns) (hppn : newPpn < totalPpns) (oldPpn : ℕ) :
    (s.remap lpn oldPpn newPpn).Bounded where
  l2p := h.l2p.set hppn
  rev := (h.rev.set hlpn).clear
  cursor := h.cursor
  blockMap := h.blockMap

/-! ## Garbage collection -/

theorem gcMovePage (h : s.Bounded) (hlpn : lpn < totalLpns) (victim page : ℕ) (buf : PageData) :
    (s.gcMovePage victim page lpn buf).2.2.Bounded := by
  rw [Ftl.gcMovePage]
  split
  · exact h.nand _
  · next newPpn s₁ halloc =>
    obtain ⟨h₁, hppn⟩ := (h.nand _).alloc halloc
    split
    · exact (h₁.remap hlpn hppn (blockPageToPpn victim page)).congr rfl
    · exact h₁.nand _

theorem recyclePages (h : s.Bounded) (victim : ℕ) (pages : List ℕ) (buf : PageData) :
    (Ftl.recyclePages victim buf pages s).2.Bounded := by
  induction pages generalizing s buf with
  | nil => exact h
  | cons page pages ih =>
    rw [Ftl.recyclePages]
    split
    · exact ih h buf
    · split
      · exact ih h buf
      · next lpn hrev =>
        have hmove := h.gcMovePage (h.rev _ _ hrev) victim page buf
        split
        · next buf₁ s₁ hm =>
          rw [hm] at hmove
          exact ih hmove buf₁
        · next buf₁ s₁ _ hm =>
          rw [hm] at hmove
          exact hmove

theorem gcDoRecycle (h : s.Bounded) : s.gcDoRecycle.2.Bounded := by
  rw [Ftl.gcDoRecycle]
  split
  · exact h
  · next victim _ =>
    have hpages := recyclePages (s := { s with gcCount := s.gcCount + 1 }) (h.congr rfl) victim
      (List.range pagesPerBlock) blankPage
    split
    · next s₁ hr =>
      rw [hr] at hpages
      exact hpages.nand _
    · next s₁ _ hr =>
      rw [hr] at hpages
      exact hpages

theorem gcUntilSpace (h : s.Bounded) (hgc : gcUntilSpace fuel s = some (ret, s')) : s'.Bounded := by
  induction fuel generalizing s with
  | zero =>
    rw [Ftl.gcUntilSpace] at hgc
    split at hgc
    · simp at hgc
    · obtain ⟨_, rfl⟩ := Prod.mk.inj (Option.some_inj.1 hgc)
      exact h
  | succ fuel ih =>
    have hrecycle := h.gcDoRecycle
    rw [Ftl.gcUntilSpace] at hgc
    split at hgc
    · split at hgc
      · next s₁ hr =>
        rw [hr] at hrecycle
        exact ih hrecycle hgc
      · next s₁ _ hr =>
        rw [hr] at hrecycle
        obtain ⟨_, rfl⟩ := Prod.mk.inj (Option.some_inj.1 hgc)
        exact hrecycle
    · obtain ⟨_, rfl⟩ := Prod.mk.inj (Option.some_inj.1 hgc)
      exact h

/-! ## Relocations and replacements -/

theorem migratePage (h : s.Bounded) (hlpn : lpn < totalLpns) (hdst : dst < totalBlocks) {page : ℕ}
    (hpage : page < pagesPerBlock) (buf : PageData) :
    (s.migratePage src dst page lpn buf).2.2.Bounded := by
  rw [Ftl.migratePage]
  dsimp only
  split
  · exact (h.remap hlpn (blockPageToPpn_lt hdst hpage) (blockPageToPpn src page)).congr rfl
  · exact h.nand _

theorem migratePages (h : s.Bounded) (hdst : dst < totalBlocks) (src : ℕ) {pages : List ℕ}
    (hpages : ∀ page ∈ pages, page < pagesPerBlock) (buf : PageData) (moved : UInt32) :
    (Ftl.migratePages src dst buf moved pages s).2.Bounded := by
  induction pages generalizing s buf moved with
  | nil => exact h
  | cons page pages ih =>
    obtain ⟨hpage, hrest⟩ := List.forall_mem_cons.1 hpages
    rw [Ftl.migratePages]
    split
    · exact ih h hrest buf moved
    · split
      · exact ih h hrest buf moved
      · next lpn hrev =>
        have hmove : (s.migratePage src dst page lpn buf).2.2.Bounded :=
          h.migratePage (h.rev _ _ hrev) hdst hpage buf
        split
        · next buf₁ s₁ hm =>
          rw [hm] at hmove
          exact ih hmove hrest buf₁ (moved + 1)
        · next buf₁ s₁ _ hm =>
          rw [hm] at hmove
          exact ih hmove hrest buf₁ moved

/-- The pages of a block. -/
theorem relocate (h : s.Bounded) (hdst : dst < totalBlocks) (src : ℕ) :
    (Ftl.migratePages src dst blankPage 0 (List.range pagesPerBlock) s).2.Bounded :=
  h.migratePages hdst src (fun _ => List.mem_range.1) _ _

theorem wearLevelingCheck (h : s.Bounded) : s.wearLevelingCheck.Bounded := by
  rw [Ftl.wearLevelingCheck]
  dsimp only
  split
  · split
    · exact h
    · exact h.congr rfl
  · exact h

theorem staticWearLevelingCheck (h : s.Bounded) : s.staticWearLevelingCheck.Bounded := by
  rw [Ftl.staticWearLevelingCheck]
  split
  · exact h
  · next src dst hpair =>
    have hlt := (Nand.isBlockValid_iff.1 (staticWearPair_spec hpair).2.1).1
    exact (h.relocate hlt src).congr rfl

theorem checkWear (h : s.Bounded) : s.checkWear.Bounded := by
  have hwear := h.wearLevelingCheck
  rw [Ftl.checkWear]
  dsimp only
  split
  · exact staticWearLevelingCheck (hwear.congr rfl)
  · exact hwear.congr (by rfl)

theorem handleReadDisturb (h : s.Bounded) : s.handleReadDisturb.2.Bounded := by
  rw [Ftl.handleReadDisturb]
  split
  · exact h
  split
  · exact h
  · next src _ =>
    split
    · exact h
    · next dst hdst =>
      have hlt := (Nand.isBlockValid_iff.1 (findNextFreeBlock_spec hdst).1).1
      exact (h.relocate hlt src).nand _

theorem remapPages (h : s.Bounded) (hdst : dst < totalBlocks) (src : ℕ) {pages : List ℕ}
    (hpages : ∀ page ∈ pages, page < pagesPerBlock) (moved : UInt32) :
    (Ftl.remapPages src dst moved pages s).2.Bounded := by
  induction pages generalizing s moved with
  | nil => exact h
  | cons page pages ih =>
    obtain ⟨hpage, hrest⟩ := List.forall_mem_cons.1 hpages
    rw [Ftl.remapPages]
    split
    · exact ih h hrest moved
    · next lpn hrev =>
      exact ih (h.remap (h.rev _ _ hrev) (blockPageToPpn_lt hdst hpage) _) hrest (moved + 1)

theorem replaceBadBlock (h : s.Bounded) (b : ℕ) : (s.replaceBadBlock b).2.Bounded := by
  rw [Ftl.replaceBadBlock]
  split
  · exact h
  split
  · exact h
  rcases s.nand.replaceBadBlock_cases b with ⟨_, heq⟩ | ⟨r, _, _, hr, _, _, ⟨_, heq⟩ | ⟨_, heq⟩⟩ <;>
    rw [heq] <;> dsimp only
  · exact h.nand _
  all_goals
    have hremapped := (h.nand (Nand.replaceBadBlock s.nand b).2).remapPages hr b
      (fun _ => List.mem_range.1) 0
    rw [heq] at hremapped
    refine ⟨hremapped.l2p, hremapped.rev, ?_, hremapped.blockMap⟩
    split
    · exact hr
    · exact hremapped.cursor

/-! ## Hybrid mapping -/

/-- Settings of a logical block other than its physical block. -/
theorem setEntry (h : s.Bounded) (lb : ℕ) (entry : BlockMapEntry)
    (hentry : entry.isValid → entry.physicalBlock < totalBlocks) :
    { s with blockMap := Function.update s.blockMap lb entry }.Bounded := by
  refine ⟨h.l2p, h.rev, h.cursor, fun lb' hvalid => ?_⟩
  dsimp only at hvalid ⊢
  rcases eq_or_ne lb' lb with rfl | hne
  · rw [Function.update_self] at hvalid ⊢
    exact hentry hvalid
  · rw [Function.update_of_ne hne] at hvalid ⊢
    exact h.blockMap lb' hvalid

theorem hybridUpdateAccessCount (h : s.Bounded) (lpn : ℕ) :
    (s.hybridUpdateAccessCount lpn).Bounded := by
  rw [Ftl.hybridUpdateAccessCount]
  dsimp only
  split
  · exact h
  split
  · exact h
  · exact h.setEntry _ _ (h.blockMap _)

theorem upgradePages (h : s.Bounded) {physicalBlock : ℕ} (hb : physicalBlock < totalBlocks)
    {pages : List ℕ} (hpages : ∀ i ∈ pages, i < pagesPerBlock) :
    ∃ s', Ftl.upgradePages lb physicalBlock pages s = some s' ∧ s'.Bounded := by
  induction pages generalizing s with
  | nil => exact ⟨s, rfl, h⟩
  | cons i pages ih =>
    obtain ⟨hi, hrest⟩ := List.forall_mem_cons.1 hpages
    have hppn := blockPageToPpn_lt hb hi
    rw [Ftl.upgradePages]
    split
    · exact ⟨s, rfl, h⟩
    · next hlpn =>
      rw [if_neg (Nat.not_le.2 hppn)]
      split
      · exact ih ⟨h.l2p.set hppn, h.rev.set (Nat.lt_of_not_le hlpn), h.cursor, h.blockMap⟩ hrest
      · exact ih ⟨h.l2p.clear, h.rev.clear, h.cursor, h.blockMap⟩ hrest

theorem clearPages (h : s.Bounded) (lpns : List ℕ) :
    ∃ s', Ftl.clearPages lpns s = some s' ∧ s'.Bounded := by
  induction lpns generalizing s with
  | nil => exact ⟨s, rfl, h⟩
  | cons lpn lpns ih =>
    rw [Ftl.clearPages]
    split
    · exact ih h
    · next ppn hl =>
      rw [if_neg (Nat.not_le.2 (h.l2p _ _ hl))]
      exact ih ⟨h.l2p.clear, h.rev.clear, h.cursor, h.blockMap⟩

theorem hybridUpgradeToHot (h : s.Bounded) (lb : ℕ) :
    ∃ r, s.hybridUpgradeToHot lb = some r ∧ r.2.Bounded := by
  rw [Ftl.hybridUpgradeToHot]
  split
  · exact ⟨_, rfl, h⟩
  split
  · exact ⟨_, rfl, h⟩
  · next hvalid _ =>
    obtain ⟨s', hpages, h'⟩ : ∃ s', Ftl.upgradePages lb (s.blockMap lb).physicalBlock
        (List.range logicalBlockPages) s = some s' ∧ s'.Bounded :=
      h.upgradePages (h.blockMap lb (not_not.1 hvalid)) fun _ hi =>
        (List.mem_range.1 hi).trans_le (by decide)
    rw [hpages]
    exact ⟨_, rfl, (h'.setEntry lb { s'.blockMap lb with isHot := true } (h'.blockMap lb)).congr rfl⟩

theorem hybridDowngradeToCold (h : s.Bounded) (lb : ℕ) :
    ∃ r, s.hybridDowngradeToCold lb = some r ∧ r.2.Bounded := by
  rw [Ftl.hybridDowngradeToCold]
  split
  · exact ⟨_, rfl, h⟩
  split
  · exact ⟨_, rfl, h⟩
  split
  · exact ⟨_, rfl, h.setEntry lb _ (by simp)⟩
  · next ppn hfind =>
    obtain ⟨lpn, _, hl⟩ := List.exists_of_findSome?_eq_some hfind
    have hmoved : { s with
        blockMap := Function.update s.blockMap lb
          { s.blockMap lb with physicalBlock := ppnToBlock ppn } }.Bounded :=
      h.setEntry lb _ fun _ => ppnToBlock_lt_iff.2 (h.l2p _ _ hl)
    obtain ⟨s', hpages, h'⟩ := hmoved.clearPages (logicalPages lb)
    dsimp only
    rw [hpages]
    exact ⟨_, rfl, (h'.setEntry lb { s'.blockMap lb with isHot := false } (h'.blockMap lb)).congr rfl⟩

theorem decayAccessCount (h : s.Bounded) (lb : ℕ) : (s.decayAccessCount lb).Bounded :=
  h.setEntry lb _ (h.blockMap lb)

theorem migrateLogicalBlock (h : s.Bounded) (lb : ℕ) :
    ∃ s', s.migrateLogicalBlock lb = some s' ∧ s'.Bounded := by
  rw [Ftl.migrateLogicalBlock]
  split
  · exact ⟨s, rfl, h⟩
  split
  · obtain ⟨r, hup, h'⟩ := h.hybridUpgradeToHot lb
    exact ⟨_, by rw [hup]; rfl, h'.decayAccessCount lb⟩
  split
  · obtain ⟨r, hdown, h'⟩ := h.hybridDowngradeToCold lb
    exact ⟨_, by rw [hdown]; rfl, h'.decayAccessCount lb⟩
  · exact ⟨_, rfl, h.decayAccessCount lb⟩

theorem hotColdMigration (h : s.Bounded) : ∃ r, s.hotColdMigration = some r ∧ r.2.Bounded := by
  have hfold (lbs : List ℕ) : ∀ s : Ftl, s.Bounded →
      ∃ s', lbs.foldlM Ftl.migrateLogicalBlock s = some s' ∧ s'.Bounded := by
    induction lbs with
    | nil => exact fun s h => ⟨s, rfl, h⟩
    | cons lb lbs ih =>
      intro s h
      obtain ⟨s₁, hblock, h₁⟩ := h.migrateLogicalBlock lb
      rw [List.foldlM_cons, hblock]
      exact ih s₁ h₁
  rw [Ftl.hotColdMigration]
  split
  · exact ⟨_, rfl, h⟩
  · obtain ⟨s', hall, h'⟩ := hfold (List.range totalLogicalBlocks) s h
    exact ⟨_, by rw [hall]; rfl, h'⟩

theorem hybridWrite (h : s.Bounded) (hppn : ppn < totalPpns) (lpn : ℕ) :
    ∃ s', s.hybridWrite lpn ppn = some s' ∧ s'.Bounded := by
  unfold Ftl.hybridWrite
  dsimp only
  set lb := lpnToLogicalBlock lpn
  set mapped : Ftl := if ¬ (s.blockMap lb).isValid then
      { s with blockMap := Function.update s.blockMap lb ⟨ppnToBlock ppn, true, false, 0⟩ } else s
    with hmapped
  have hmap : mapped.Bounded := by
    rw [hmapped]
    split
    · exact h.setEntry lb _ fun _ => ppnToBlock_lt_iff.2 hppn
    · exact h
  set accounted := if lb < totalLogicalBlocks then mapped.hybridUpdateAccessCount lpn else s
    with haccounted
  have hacc : accounted.Bounded := by
    rw [haccounted]
    split
    · exact hmap.hybridUpdateAccessCount lpn
    · exact h
  split
  · obtain ⟨r, hmigrate, h'⟩ := hotColdMigration (s := { accounted with hotColdCheckCount := 0 })
      (hacc.congr rfl)
    exact ⟨r.2, by rw [hmigrate]; rfl, h'⟩
  · exact ⟨_, rfl, hacc.congr rfl⟩

/-! ## The calls of the host -/

theorem read (h : s.Bounded) (lpn : ℕ) (buf : PageData) : (s.read lpn buf).2.2.Bounded := by
  rw [Ftl.read]
  split
  · exact h
  split
  · exact h
  split
  · exact h
  · next ppn _ =>
    dsimp only
    split
    · exact (h.nand _).replaceBadBlock _
    split
    · exact (h.nand _).hybridUpdateAccessCount lpn
    · exact h.nand _

/-- The page programmed last is on the device. -/
theorem programPage (h : s.Bounded) (hppn : newPpn < totalPpns)
    (hp : s.programPage newPpn buf = (ret, ppn, s')) : s'.Bounded ∧ ppn < totalPpns := by
  rw [Ftl.programPage] at hp
  dsimp only at hp
  have hreplaced (n : Nand) (b : ℕ) := (h.nand n).replaceBadBlock b
  split at hp
  · split at hp
    · next s₁ hr =>
      have h₁ := hreplaced (s.nand.pageWrite (ppnToBlock newPpn) (ppnToPage newPpn) buf).2
        (ppnToBlock newPpn)
      rw [hr] at h₁
      split at hp
      · obtain ⟨_, rfl, rfl⟩ := hp
        exact ⟨h₁, hppn⟩
      · next ppn' s₂ halloc =>
        obtain ⟨h₂, hppn'⟩ := h₁.alloc halloc
        obtain ⟨_, rfl, rfl⟩ := hp
        exact ⟨h₂.nand _, hppn'⟩
    · next s₁ _ hr =>
      have h₁ := hreplaced (s.nand.pageWrite (ppnToBlock newPpn) (ppnToPage newPpn) buf).2
        (ppnToBlock newPpn)
      rw [hr] at h₁
      obtain ⟨_, rfl, rfl⟩ := hp
      exact ⟨h₁, hppn⟩
  · obtain ⟨_, rfl, rfl⟩ := hp
    exact ⟨h.nand _, hppn⟩

theorem commitWrite (h : s.Bounded) (hlpn : lpn < totalLpns) (hppn : ppn < totalPpns) :
    ∃ s', s.commitWrite lpn ppn = some s' ∧ s'.Bounded := by
  rw [Ftl.commitWrite]
  dsimp only
  split
  · exact ⟨_, rfl, h.l2p.set hppn, h.rev.set hlpn, h.cursor, h.blockMap⟩
  · next old hl =>
    rw [if_neg (Nat.not_le.2 (h.l2p _ _ hl))]
    exact ⟨_, rfl, h.l2p.set hppn, h.rev.clear.set hlpn, h.cursor, h.blockMap⟩

theorem finishWrite (h : s.Bounded) (hlpn : lpn < totalLpns) (hppn : ppn < totalPpns) :
    ∃ s', s.finishWrite lpn ppn = some s' ∧ s'.Bounded := by
  obtain ⟨s₁, hcommit, h₁⟩ := h.commitWrite hlpn hppn
  rw [Ftl.finishWrite, hcommit, Option.bind_eq_bind, Option.bind_some]
  have h₂ := h₁.checkWear
  dsimp only
  split
  · exact h₂.hybridWrite hppn lpn
  · exact ⟨_, rfl, h₂⟩

theorem writeOut (h : s.Bounded) (hlpn : lpn < totalLpns) (buf : PageData) :
    ∃ r, s.writeOut lpn buf = some r ∧ r.2.Bounded := by
  rw [Ftl.writeOut]
  split
  · exact ⟨_, rfl, h⟩
  next newPpn s₁ halloc =>
  obtain ⟨h₁, hppn⟩ := h.alloc halloc
  obtain ⟨files, sequence, count, hlog⟩ := s₁.walLog_ok (writeEntry lpn (s₁.l2pTable lpn) newPpn)
  have hlogged : { s₁ with
      files := files, walSequence := sequence, walEntryCount := count }.Bounded := h₁.congr rfl
  rw [walLogWrite, hlog]
  dsimp only
  split
  · next ppn s₂ hp =>
    obtain ⟨h₂, hppn'⟩ := hlogged.programPage hppn hp
    obtain ⟨s₃, hfinish, h₃⟩ := h₂.finishWrite hlpn hppn'
    exact ⟨_, by rw [hfinish]; rfl, h₃⟩
  · next ret ppn s₂ _ hp =>
    exact ⟨_, rfl, (hlogged.programPage hppn hp).1⟩

/-- A write comes back if its garbage collections do. -/
theorem write (h : s.Bounded) (hgc : (Ftl.gcUntilSpace fuel s).isSome) (lpn : ℕ) (buf : PageData) :
    ∃ r, s.write fuel lpn buf = some r ∧ r.2.Bounded := by
  obtain ⟨⟨ret, s₁⟩, hspace⟩ := Option.isSome_iff_exists.1 hgc
  have h₁ := h.gcUntilSpace hspace
  rw [Ftl.write]
  split
  · exact ⟨_, rfl, h⟩
  split
  · exact ⟨_, rfl, h⟩
  next hlpn =>
  rw [hspace]
  cases ret with
  | ok => exact h₁.writeOut (Nat.lt_of_not_le hlpn) buf
  | _ => exact ⟨_, rfl, h₁⟩

/-- A logical page can be trimmed. -/
theorem trimPage (h : s.Bounded) (hlpn : lpn < totalLpns) :
    ∃ s', s.trimPage lpn = some s' ∧ s'.Bounded := by
  rw [Ftl.trimPage, if_neg (Nat.not_le.2 hlpn)]
  split
  · exact ⟨s, rfl, h⟩
  · next ppn hl =>
    obtain ⟨files, sequence, count, hlog⟩ := s.walLog_ok (trimEntry lpn (s.l2pTable lpn))
    rw [if_neg (Nat.not_le.2 (h.l2p _ _ hl)), walLogTrim, hlog]
    exact ⟨_, rfl, h.l2p.clear, h.rev.clear, h.cursor, h.blockMap⟩

theorem trimPages (h : s.Bounded) {lpns : List ℕ} (hlpns : ∀ lpn ∈ lpns, lpn < totalLpns) :
    ∃ s', lpns.foldlM Ftl.trimPage s = some s' ∧ s'.Bounded := by
  induction lpns generalizing s with
  | nil => exact ⟨s, rfl, h⟩
  | cons lpn lpns ih =>
    obtain ⟨hlpn, hrest⟩ := List.forall_mem_cons.1 hlpns
    obtain ⟨s₁, hpage, h₁⟩ := h.trimPage hlpn
    rw [List.foldlM_cons, hpage]
    exact ih h₁ hrest

/-- A trim comes back if the end of its range does not wrap. -/
theorem trim (h : s.Bounded) {lpn count : UInt32} (hwrap : lpn.toNat + count.toNat < 2 ^ 32) :
    ∃ r, s.trim lpn count = some r ∧ r.2.Bounded := by
  rw [Ftl.trim]
  split
  · exact ⟨_, rfl, h⟩
  split
  · exact ⟨_, rfl, h⟩
  split
  · exact ⟨_, rfl, h⟩
  have hlpns : ∀ i ∈ List.range' lpn.toNat (trimLength lpn count), i < totalLpns := by
    intro i hi
    have hmem := List.mem_range'_1.1 hi
    have hadd : (lpn + count).toNat = lpn.toNat + count.toNat := by
      rw [UInt32.toNat_add, Nat.mod_eq_of_lt hwrap]
    rw [trimLength, hadd] at hmem
    split at hmem <;> omega
  obtain ⟨s', hall, h'⟩ := h.trimPages hlpns
  exact ⟨_, by rw [hall]; rfl, h'.congr rfl⟩

theorem of_write {r : RetCode × Ftl} (h : s.Bounded) (hwrite : s.write fuel lpn buf = some r) :
    r.2.Bounded := by
  cases hgc : Ftl.gcUntilSpace fuel s with
  | some r' =>
    obtain ⟨r₁, hwrite₁, h₁⟩ := h.write (Option.isSome_of_eq_some hgc) lpn buf
    exact Option.some_inj.1 (hwrite₁.symm.trans hwrite) ▸ h₁
  | none =>
    rw [Ftl.write, hgc] at hwrite
    split at hwrite
    · exact Option.some_inj.1 hwrite ▸ h
    split at hwrite
    · exact Option.some_inj.1 hwrite ▸ h
    · simp at hwrite

theorem of_trimPages {lpns : List ℕ} (h : s.Bounded) (htrim : lpns.foldlM Ftl.trimPage s = some s') :
    s'.Bounded := by
  induction lpns generalizing s with
  | nil => exact Option.some_inj.1 htrim ▸ h
  | cons lpn lpns ih =>
    rw [List.foldlM_cons] at htrim
    obtain ⟨s₁, hpage, hrest⟩ := Option.bind_eq_some_iff.1 htrim
    have hlpn : lpn < totalLpns := by
      by_contra hge
      rw [Ftl.trimPage, if_pos (Nat.not_lt.1 hge)] at hpage
      simp at hpage
    obtain ⟨s₂, hpage₂, h₂⟩ := h.trimPage hlpn
    exact ih (Option.some_inj.1 (hpage₂.symm.trans hpage) ▸ h₂) hrest

theorem of_trim {r : RetCode × Ftl} {lpn count : UInt32} (h : s.Bounded)
    (htrim : s.trim lpn count = some r) : r.2.Bounded := by
  rw [Ftl.trim] at htrim
  split at htrim
  · exact Option.some_inj.1 htrim ▸ h
  split at htrim
  · exact Option.some_inj.1 htrim ▸ h
  split at htrim
  · exact Option.some_inj.1 htrim ▸ h
  · obtain ⟨s₁, hall, rfl⟩ := Option.map_eq_some_iff.1 htrim
    exact (h.of_trimPages hall).congr rfl

end Bounded

end Ftl

end FtlFirmware
