import FtlFirmware.Ftl.Checkpoint
import FtlFirmware.Ftl.Counting
import FtlFirmware.Ftl.Integrity
import FtlFirmware.Nand.Recovery

/-!
# Snapshots over a power cycle

A snapshot is saved, the device is powered off and on again with the same media, and the snapshot is
loaded. This restores the device (`Restores`) exactly if it *survives* (`Survives`,
`powerCycle_restores_iff`): some block of the user area has never been written, so that the device
finds a block to start with; the map back is what is found by going through the map; and the mapped
pages are valid, in blocks that are not bad.
-/

namespace FtlFirmware

namespace Ftl

variable {D : Set PageData} {E B : Set ℕ} {s s' s₀ : Ftl} {tr : List (Call × Answer)} {call : Call}
  {a : Answer} {fuel lpn ppn b p : ℕ} {buf : PageData} {ret : RetCode} {path : String}
  {rand : ℕ → ℕ}

/-! ## What is so in every run -/

/-- The device is on, with its write cursor at a page of a block or behind the last one. -/
structure Ready (s : Ftl) : Prop where
  started : s.isInitialized
  page_le : s.curWritePage ≤ pagesPerBlock

namespace Ready

theorem of_same (h : s.Ready) (hsame : SameDevice s s') : s'.Ready where
  started := hsame.isInitialized ▸ h.started
  page_le := hsame.curWritePage ▸ h.page_le

theorem replaceBadBlock (h : s.Ready) (b : ℕ) : (s.replaceBadBlock b).2.Ready := by
  rcases s.replaceBadBlock_device b with ⟨ret, _, heq⟩ | ⟨_, _, _, _, _, hsame⟩
  · rwa [heq]
  · refine of_same ?_ hsame
    exact ⟨h.started, h.page_le⟩

theorem reaches (h : s.Ready) (hreach : Reaches D E B s s') : s'.Ready := by
  obtain ⟨_, hend⟩ := hreach blankPage
  refine hend.invariant (P := fun x => x.1.Ready) h fun x y hx hstep => ?_
  cases hstep with
  | books hsame => exact hx.of_same hsame
  | alloc halloc =>
    rcases allocPhyPage_cases halloc with ⟨hlt, _, rfl⟩ | ⟨_, _, _, _, rfl⟩
    · exact ⟨hx.started, hlt⟩
    · exact ⟨hx.started, (by decide : 1 ≤ pagesPerBlock)⟩
  | replace _ => exact hx.replaceBadBlock _
  | clear => exact hx
  | load _ => exact hx
  | read b p => exact ⟨hx.started, hx.page_le⟩
  | write p _ => exact ⟨hx.started, hx.page_le⟩
  | invalidate p _ => exact ⟨hx.started, hx.page_le⟩
  | erase _ => exact ⟨hx.started, hx.page_le⟩
  | markCold _ => exact ⟨hx.started, hx.page_le⟩

theorem walLog (h : s.Ready) (e : WalEntry) : (s.walLog e).2.Ready := by
  obtain ⟨files, sequence, count, hlog⟩ := s.walLog_ok e
  rw [hlog]
  exact ⟨h.started, h.page_le⟩

theorem write (h : s.Ready) (hw : s.write fuel lpn buf = some (ret, s')) : s'.Ready := by
  rcases write_steps (Set.mem_singleton buf) hw with ⟨_, hsteps⟩ |
    ⟨_, s₁, taken, s₂, hsteps, hprogram, hend⟩
  · exact h.reaches hsteps
  · have hwritten : s₂.Ready := ((h.reaches hsteps).walLog _).reaches hprogram
    rcases hend with ⟨_, rfl⟩ | ⟨_, ppn, s₃, hcommit, hwear⟩
    · exact hwritten
    · refine Ready.reaches ?_ hwear
      rcases commitWrite_same hcommit with hsame | ⟨old, _, hsame⟩
      · exact hwritten.of_same hsame.toSameDevice
      · refine of_same ?_ hsame.toSameDevice
        exact ⟨hwritten.started, hwritten.page_le⟩

theorem trimPage {i : ℕ} (h : s.Ready) (ht : s.trimPage i = some s') : s'.Ready := by
  rw [Ftl.trimPage] at ht
  split at ht
  · simp at ht
  · cases hl : s.l2pTable i with
    | none =>
      rw [hl] at ht
      exact Option.some_inj.1 ht ▸ h
    | some ppn =>
      obtain ⟨files, sequence, number, hentry⟩ := s.walLog_ok (trimEntry i (s.l2pTable i))
      rw [hl] at ht
      dsimp only at ht
      split at ht
      · simp at ht
      · rw [walLogTrim, hentry] at ht
        obtain rfl := Option.some_inj.1 ht
        exact ⟨h.started, h.page_le⟩

/-- All calls keep the device ready. -/
theorem exec (h : s.Ready) (hexec : s.exec fuel call = some (a, s')) : s'.Ready := by
  -- The calls that work on blocks by their steps, the others by what they leave alone.
  cases call with
  | read lpn buf =>
    obtain ⟨_, rfl⟩ := Prod.mk.inj (Option.some_inj.1 hexec)
    exact h.reaches (D := ∅) (E := Set.univ) (B := Set.univ) (read_reaches lpn buf)
  | write lpn buf =>
    obtain ⟨⟨ret, s₁⟩, hwrite, heq⟩ := Option.map_eq_some_iff.1 hexec
    obtain ⟨_, rfl⟩ := Prod.mk.inj heq
    exact h.write hwrite
  | trim lpn count =>
    obtain ⟨⟨ret, s₁⟩, htrim, heq⟩ := Option.map_eq_some_iff.1 hexec
    obtain ⟨_, rfl⟩ := Prod.mk.inj heq
    rcases trim_cases htrim with rfl | ⟨s₂, hpages, rfl⟩
    · exact h
    · have h₂ : s₂.Ready := foldlM_invariant hpages h fun _ _ _ _ hs hpage => hs.trimPage hpage
      exact ⟨h₂.started, h₂.page_le⟩
  | triggerGc =>
    obtain ⟨_, rfl⟩ := Prod.mk.inj (Option.some_inj.1 hexec)
    exact h.reaches (D := ∅) (E := Set.univ) (B := Set.univ) triggerGc_reaches
  | handleReadDisturb =>
    obtain ⟨_, rfl⟩ := Prod.mk.inj (Option.some_inj.1 hexec)
    have hreach : Reaches ∅ userArea ∅ s s.handleReadDisturb.2 := handleReadDisturb_reaches
    exact h.reaches hreach
  | replaceBadBlock block =>
    obtain ⟨_, rfl⟩ := Prod.mk.inj (Option.some_inj.1 hexec)
    exact h.replaceBadBlock block
  | hotColdMigration =>
    obtain ⟨⟨ret, s₁⟩, hmigrate, heq⟩ := Option.map_eq_some_iff.1 hexec
    obtain ⟨_, rfl⟩ := Prod.mk.inj heq
    exact h.of_same (hotColdMigration_same hmigrate).toSameDevice
  | setMapMode mode =>
    obtain ⟨_, rfl⟩ := Prod.mk.inj (Option.some_inj.1 hexec)
    rw [setMapMode]
    split
    · exact h
    · exact ⟨h.started, h.page_le⟩
  | saveSnapshot path =>
    obtain ⟨_, rfl⟩ := Prod.mk.inj (Option.some_inj.1 hexec)
    rw [saveSnapshot]
    split
    · exact h
    · exact ⟨h.started, h.page_le⟩
  | walClear =>
    obtain ⟨_, rfl⟩ := Prod.mk.inj (Option.some_inj.1 hexec)
    rw [walClear]
    split
    · exact h
    · exact ⟨h.started, h.page_le⟩
  | setGcAlgo algo =>
    obtain ⟨_, rfl⟩ := Prod.mk.inj (Option.some_inj.1 hexec)
    exact ⟨h.started, h.page_le⟩
  | walInit path =>
    obtain ⟨_, rfl⟩ := Prod.mk.inj (Option.some_inj.1 hexec)
    exact ⟨h.started, h.page_le⟩
  | walEnable enable =>
    obtain ⟨_, rfl⟩ := Prod.mk.inj (Option.some_inj.1 hexec)
    exact ⟨h.started, h.page_le⟩

end Ready

/-- The device is ready, its tables are in range, and valid pages have a magic number. -/
structure Saveable (s : Ftl) : Prop extends s.Ready where
  bounded : s.Bounded
  on : s.nand.isInitialized
  magic : ∀ b p, (s.nand.blocks b).pageValid p → (s.nand.media.oob (b, p)).magic = oobMagic

/-- So it is in every run. -/
theorem saveable_run (hfresh : Fresh s₀) (hrun : Run Machine.anyCall s₀ tr s) : s.Saveable := by
  obtain ⟨trace, hnand⟩ := exists_nandRun hrun
  have hmarks := Nand.run_marks hnand
  obtain ⟨rand, files, hon⟩ := hfresh
  obtain ⟨rand', hnew⟩ := Fresh.nand_eq ⟨rand, files, hon⟩
  rw [powerOn] at hon
  have hbounded := (Bounded.zero (Nand.init none rand) files).init
  rw [hon] at hbounded
  have hready : s₀.Ready := by
    rw [init] at hon
    split at hon
    · exact RetCode.noConfusion (Prod.mk.inj hon).1
    · obtain rfl := (Prod.mk.inj hon).2
      exact ⟨rfl, Nat.zero_le _⟩
  refine ⟨?_, ?_, ?_, fun b p hv => ?_⟩
  · exact hrun.invariant (P := Ready) hready fun _ _ _ _ h _ hstep =>
      hstep.elim fun _ hexec => h.exec hexec
  · exact hrun.invariant (P := Bounded) hbounded fun _ _ _ _ h _ hstep =>
      hstep.elim fun _ hexec => exec_bounded h hexec
  · rw [hmarks.on, hnew]
    rfl
  · -- No page of a new device is valid.
    refine (hmarks.valid b p hv).resolve_left fun hold => ?_
    rw [hnew, Nand.init_none_blocks] at hold
    dsimp only at hold
    rw [Nand.factoryBlock] at hold
    split at hold <;> exact absurd hold Bool.false_ne_true

/-! ## The map -/

/-- An entry of the map, written to a file and read back. -/
theorem wordPpn_ppnWord {v : Option ℕ} (h : ∀ ppn, v = some ppn → ppn < totalPpns) :
    wordPpn (ppnWord v) = v := by
  cases v with
  | none => rfl
  | some ppn =>
    have hlt : ppn < 32768 := h ppn rfl
    have hword : (UInt32.ofNat ppn).toNat = ppn := by
      rw [UInt32.toNat_ofNat']
      exact Nat.mod_eq_of_lt (by omega)
    rw [wordPpn, ppnWord, if_neg, hword]
    intro heq
    have hmax := congrArg UInt32.toNat heq
    rw [hword] at hmax
    have hvalue : (0xFFFFFFFF : UInt32).toNat = 4294967295 := rfl
    omega

/-- The map that a snapshot gives back. -/
theorem Bounded.restored_l2pTable (h : s.Bounded) (hlpn : lpn < totalLpns) :
    (s.restored s').l2pTable lpn = s.l2pTable lpn := by
  rw [Ftl.restored_l2pTable hlpn, wordPpn_ppnWord fun ppn hl => h.l2p lpn ppn hl]

/-- The map back that is found by going through the map. -/
theorem Bounded.restored_reverseMap (h : s.Bounded) (hppn : ppn < totalPpns) :
    (s.restored s').reverseMap ppn = some lpn ↔
      IsGreatest {lpn | lpn < totalLpns ∧ s.l2pTable lpn = some ppn} lpn := by
  rw [restored]
  dsimp only
  rw [Lookup.foldl_enter_range]
  have hset : {i | i < totalLpns ∧
      (if i < totalLpns then wordPpn (ppnWord (s.l2pTable i)) else s'.l2pTable i).filter
        (· < totalPpns) = some ppn} = {i | i < totalLpns ∧ s.l2pTable i = some ppn} := by
    ext i
    simp only [Set.mem_ofPred_eq]
    refine and_congr_right fun hi => ?_
    rw [if_pos hi, wordPpn_ppnWord fun ppn hl => h.l2p i ppn hl, Option.filter_eq_some_iff]
    exact and_iff_left_of_imp fun _ => decide_eq_true hppn
  rw [hset]

/-! ## Reads -/

/-- A read of a logical page that is not mapped. -/
theorem read_unmapped (hon : s.isInitialized) (hlpn : lpn < totalLpns) (hl : s.l2pTable lpn = none)
    (buf : PageData) : s.read lpn buf = (.errNotMapped, buf, s) := by
  rw [read, if_neg (not_not.2 hon), if_neg (Nat.not_le.2 hlpn), hl]

/-- A read of a mapped logical page answers what a read of its physical page does. -/
theorem read_mapped (hon : s.isInitialized) (hlpn : lpn < totalLpns) (hl : s.l2pTable lpn = some ppn)
    (buf : PageData) :
    (s.read lpn buf).1 = (s.nand.pageRead (ppnToBlock ppn) (ppnToPage ppn) buf).1 ∧
      (s.read lpn buf).2.1 = (s.nand.pageRead (ppnToBlock ppn) (ppnToPage ppn) buf).2.1 := by
  rw [read, if_neg (not_not.2 hon), if_neg (Nat.not_le.2 hlpn), hl]
  dsimp only
  split
  · next hbad => exact ⟨hbad.symm, rfl⟩
  split
  · exact ⟨rfl, rfl⟩
  · exact ⟨rfl, rfl⟩

/-- After a power cycle, a page reads as before if and only if its block is not bad, and the page is
    valid, unless it has no magic number. -/
theorem powerCycle_pageRead_iff {n : Nand} (rand : ℕ → ℕ) (hb : b < totalBlocks)
    (hp : p < pagesPerBlock) (hon : n.isInitialized)
    (hmagic : (n.blocks b).pageValid p → (n.media.oob (b, p)).magic = oobMagic) :
    (∀ buf, ((n.powerCycle rand).pageRead b p buf).1 = (n.pageRead b p buf).1 ∧
      ((n.powerCycle rand).pageRead b p buf).2.1 = (n.pageRead b p buf).2.1) ↔
        (n.blocks b).state ≠ .bad ∧
          ((n.blocks b).pageValid p ∨ (n.media.oob (b, p)).magic ≠ oobMagic) := by
  -- After the power cycle the marks alone tell which pages are valid.
  have hblock : (n.powerCycle rand).blocks b = Nand.recoverBlock fun p => n.media.oob (b, p) := by
    rw [Nand.powerCycle, Nand.init_some_blocks]
    rfl
  have hacc : (n.powerCycle rand).Accessible b p := by
    refine ⟨Nand.isBlockValid_iff.2 ⟨hb, rfl⟩, hp, ?_⟩
    rw [hblock]
    exact Nand.recoverBlock_state_ne_bad
  have hvalid : ((n.powerCycle rand).blocks b).pageValid p =
      decide ((n.media.oob (b, p)).magic = oobMagic) := by
    rw [hblock, Nand.recoverBlock_pageValid hp]
  have hmarked (hm : (n.media.oob (b, p)).magic = oobMagic) (buf : PageData) :
      (n.powerCycle rand).pageRead b p buf = (.ok, (n.readBack b p).2,
        (n.powerCycle rand).countRead b (n.readBack b p).1) :=
    Nand.pageRead_of_valid hacc (hvalid.trans (decide_eq_true hm))
  have hblank (hm : (n.media.oob (b, p)).magic ≠ oobMagic) (buf : PageData) :
      (n.powerCycle rand).pageRead b p buf = (.errNotMapped, buf, n.powerCycle rand) :=
    Nand.pageRead_of_invalid hacc (hvalid.trans (decide_eq_false hm))
  by_cases hbad : (n.blocks b).state = .bad
  · -- A bad block is not bad any more.
    have hbefore : (n.pageRead b p blankPage).1 = .errBadBlock := by
      rw [Nand.pageRead, if_neg, if_pos hbad]
      rw [not_or, not_not, Nat.not_le]
      exact ⟨Nand.isBlockValid_iff.2 ⟨hb, hon⟩, hp⟩
    refine iff_of_false (fun hread => ?_) fun h => h.1 hbad
    have hret := (hread blankPage).1
    rw [hbefore] at hret
    by_cases hm : (n.media.oob (b, p)).magic = oobMagic
    · rw [hmarked hm] at hret
      exact RetCode.noConfusion hret
    · rw [hblank hm] at hret
      exact RetCode.noConfusion hret
  · have hacc' : n.Accessible b p := ⟨Nand.isBlockValid_iff.2 ⟨hb, hon⟩, hp, hbad⟩
    cases hv : (n.blocks b).pageValid p with
    | true =>
      refine iff_of_true (fun buf => ?_) ⟨hbad, Or.inl rfl⟩
      rw [hmarked (hmagic hv), Nand.pageRead_of_valid hacc' hv]
      exact ⟨rfl, rfl⟩
    | false =>
      by_cases hm : (n.media.oob (b, p)).magic = oobMagic
      · refine iff_of_false (fun hread => ?_) fun h => ?_
        · have hret := (hread blankPage).1
          rw [hmarked hm, Nand.pageRead_of_invalid hacc' hv] at hret
          exact RetCode.noConfusion hret
        · exact h.2.elim Bool.false_ne_true fun hblank => hblank hm
      · refine iff_of_true (fun buf => ?_) ⟨hbad, Or.inr hm⟩
        rw [hblank hm, Nand.pageRead_of_invalid hacc' hv]
        exact ⟨rfl, rfl⟩

/-! ## The theorem -/

/-- The device `s'` has the maps, the write cursor and the counters of `s` that are kept in a
    snapshot, and reads the same. -/
structure Restores (s s' : Ftl) : Prop where
  l2pTable : ∀ lpn < totalLpns, s'.l2pTable lpn = s.l2pTable lpn
  reverseMap : ∀ ppn < totalPpns, s'.reverseMap ppn = s.reverseMap ppn
  curWriteBlock : s'.curWriteBlock = s.curWriteBlock
  curWritePage : s'.curWritePage = s.curWritePage
  hostWritePages : s'.hostWritePages = s.hostWritePages
  nandWritePages : s'.nandWritePages = s.nandWritePages
  gcCount : s'.gcCount = s.gcCount
  reads : ∀ (lpn : ℕ) (buf : PageData), (s'.read lpn buf).1 = (s.read lpn buf).1 ∧
    (s'.read lpn buf).2.1 = (s.read lpn buf).2.1

/-- What a device needs to be restored after a power cycle. -/
structure Survives (s : Ftl) : Prop where
  room : ∃ b < userBlocks, ∀ p < pagesPerBlock, (s.nand.media.oob (b, p)).magic ≠ oobMagic
  back : ∀ ppn < totalPpns, ∀ lpn, s.reverseMap ppn = some lpn ↔
    IsGreatest {lpn | lpn < totalLpns ∧ s.l2pTable lpn = some ppn} lpn
  readable : ∀ lpn < totalLpns, ∀ ppn, s.l2pTable lpn = some ppn →
    (s.nand.blocks (ppnToBlock ppn)).state ≠ .bad ∧
      ((s.nand.blocks (ppnToBlock ppn)).pageValid (ppnToPage ppn) ∨
        (s.nand.media.oob (ppnToBlock ppn, ppnToPage ppn)).magic ≠ oobMagic)

/-- The device after a snapshot has been saved, the power has been cycled, and the snapshot has been
    loaded, if all of this has succeeded. -/
def Recycled (s : Ftl) (path : String) (rand : ℕ → ℕ) (s' : Ftl) : Prop :=
  ∃ s₁ s₂, s.saveSnapshot path = (.ok, s₁) ∧ s₁.powerCycle rand = (.ok, s₂) ∧
    s₂.loadSnapshot path = (.ok, s')

/-- After a power cycle, the device finds a block to start with if and only if some block has never
    been written. -/
theorem findNextFreeBlock_powerCycle (hnand : s'.nand = s.nand.powerCycle rand) :
    (∃ first, s'.findNextFreeBlock 0 = some first) ↔
      ∃ b < userBlocks, ∀ p < pagesPerBlock, (s.nand.media.oob (b, p)).magic ≠ oobMagic := by
  have hfree (b : ℕ) (hb : b < userBlocks) : s'.nand.getBlockState b = .free ↔
      ∀ p < pagesPerBlock, (s.nand.media.oob (b, p)).magic ≠ oobMagic := by
    have hvalid : (s.nand.powerCycle rand).isBlockValid b :=
      Nand.isBlockValid_iff.2 ⟨Nat.lt_of_lt_of_le hb (by decide), rfl⟩
    rw [hnand, Nand.getBlockState_eq (by decide), and_iff_right hvalid, Nand.powerCycle,
      Nand.init_some_blocks]
    exact Nand.recoverBlock_free_iff
  rw [← Option.isSome_iff_exists, findNextFreeBlock, List.find?_isSome]
  constructor
  · rintro ⟨b, hmem, hb⟩
    have hlt : b < userBlocks := by
      rcases List.mem_append.1 hmem with hmem | hmem
      · simpa using (List.mem_range'_1.1 hmem).2
      · exact absurd hmem List.not_mem_nil
    exact ⟨b, hlt, (hfree b hlt).1 (of_decide_eq_true hb)⟩
  · rintro ⟨b, hlt, hb⟩
    refine ⟨b, List.mem_append_left _ (List.mem_range'_1.2 ⟨Nat.zero_le b, ?_⟩),
      decide_eq_true ((hfree b hlt).2 hb)⟩
    simpa using hlt

/-- The device after a snapshot has been saved, the power has been cycled, and the snapshot has been
    loaded. -/
theorem recycled_iff (hon : s.isInitialized) : s.Recycled path rand s' ↔
    ∃ first s₂, s₂ = ({ s with
        files := Function.update s.files path (some s.snapshotBytes)
        nand := s.nand.powerCycle rand } : Ftl) ∧
      s₂.findNextFreeBlock 0 = some first ∧ s' = s.restored (s₂.started first) := by
  set s₁ : Ftl := { s with files := Function.update s.files path (some s.snapshotBytes) }
  set s₂ : Ftl := { s₁ with nand := s.nand.powerCycle rand }
  have hsave : s.saveSnapshot path = (.ok, s₁) := saveSnapshot_ok hon path
  have hcycle : s₁.powerCycle rand = s₂.init := rfl
  have hload (first : ℕ) : (s₂.started first).loadSnapshot path =
      (.ok, s.restored (s₂.started first)) := loadSnapshot_eq (Function.update_self _ _ _)
  have hstart {first : ℕ} (hfirst : s₂.findNextFreeBlock 0 = some first) :
      s₂.init = (.ok, s₂.started first) := by
    rw [init, hfirst]
  constructor
  · rintro ⟨s₁', s₃, hsave', hcycle', hload'⟩
    obtain rfl := (Prod.mk.inj (hsave.symm.trans hsave')).2
    rw [hcycle] at hcycle'
    cases hfirst : s₂.findNextFreeBlock 0 with
    | none =>
      rw [init, hfirst] at hcycle'
      exact RetCode.noConfusion (Prod.mk.inj hcycle').1
    | some first =>
      obtain rfl := (Prod.mk.inj ((hstart hfirst).symm.trans hcycle')).2
      rw [hload] at hload'
      exact ⟨first, s₂, rfl, hfirst, (Prod.mk.inj hload').2.symm⟩
  · rintro ⟨first, _, rfl, hfirst, rfl⟩
    exact ⟨s₁, s₂.started first, hsave, hcycle.trans (hstart hfirst), hload first⟩

namespace Saveable

/-- What is loaded reads the same if and only if the mapped pages are readable. -/
theorem reads_iff (h : s.Saveable) (hnand : s'.nand = s.nand.powerCycle rand)
    (hon : s'.isInitialized) (hmap : ∀ lpn < totalLpns, s'.l2pTable lpn = s.l2pTable lpn) :
    (∀ (lpn : ℕ) (buf : PageData), (s'.read lpn buf).1 = (s.read lpn buf).1 ∧
      (s'.read lpn buf).2.1 = (s.read lpn buf).2.1) ↔
        ∀ lpn < totalLpns, ∀ ppn, s.l2pTable lpn = some ppn →
          (s.nand.blocks (ppnToBlock ppn)).state ≠ .bad ∧
            ((s.nand.blocks (ppnToBlock ppn)).pageValid (ppnToPage ppn) ∨
              (s.nand.media.oob (ppnToBlock ppn, ppnToPage ppn)).magic ≠ oobMagic) := by
  have hpage (lpn : ℕ) (hlpn : lpn < totalLpns) (ppn : ℕ) (hl : s.l2pTable lpn = some ppn) :
      (∀ buf : PageData, (s'.read lpn buf).1 = (s.read lpn buf).1 ∧
        (s'.read lpn buf).2.1 = (s.read lpn buf).2.1) ↔
          (s.nand.blocks (ppnToBlock ppn)).state ≠ .bad ∧
            ((s.nand.blocks (ppnToBlock ppn)).pageValid (ppnToPage ppn) ∨
              (s.nand.media.oob (ppnToBlock ppn, ppnToPage ppn)).magic ≠ oobMagic) := by
    have hl' := (hmap lpn hlpn).trans hl
    rw [← powerCycle_pageRead_iff rand (ppnToBlock_lt_iff.2 (h.bounded.l2p lpn ppn hl))
      ppnToPage_lt h.on (h.magic _ _)]
    refine forall_congr' fun buf => ?_
    rw [(read_mapped h.started hlpn hl buf).1, (read_mapped h.started hlpn hl buf).2,
      (read_mapped hon hlpn hl' buf).1, (read_mapped hon hlpn hl' buf).2, hnand]
  constructor
  · exact fun hreads lpn hlpn ppn hl => (hpage lpn hlpn ppn hl).1 (hreads lpn)
  · intro hreadable lpn buf
    by_cases hlpn : lpn < totalLpns
    · cases hl : s.l2pTable lpn with
      | none =>
        rw [read_unmapped h.started hlpn hl, read_unmapped hon hlpn ((hmap lpn hlpn).trans hl)]
        exact ⟨rfl, rfl⟩
      | some ppn => exact (hpage lpn hlpn ppn hl).2 (hreadable lpn hlpn ppn hl) buf
    · rw [read, read, if_neg (not_not.2 h.started), if_neg (not_not.2 hon),
        if_pos (Nat.le_of_not_lt hlpn), if_pos (Nat.le_of_not_lt hlpn)]
      exact ⟨rfl, rfl⟩

/-- The device is restored after a power cycle if and only if it survives. -/
theorem restores_iff (h : s.Saveable) (path : String) (rand : ℕ → ℕ) :
    (∃ s', s.Recycled path rand s' ∧ s.Restores s') ↔ s.Survives := by
  have hword {k : ℕ} (hk : k < 2 ^ 32) : (UInt32.ofNat k).toNat = k := by
    rw [UInt32.toNat_ofNat']
    exact Nat.mod_eq_of_lt hk
  constructor
  · rintro ⟨s', hrec, hres⟩
    obtain ⟨first, s₂, rfl, hfirst, rfl⟩ := (recycled_iff h.started).1 hrec
    refine ⟨(findNextFreeBlock_powerCycle rfl).1 ⟨first, hfirst⟩, fun ppn hppn lpn => ?_,
      (h.reads_iff rfl rfl fun lpn hlpn => h.bounded.restored_l2pTable hlpn).1 hres.reads⟩
    rw [← hres.reverseMap ppn hppn]
    exact h.bounded.restored_reverseMap hppn
  · intro hsurv
    set s₂ : Ftl := { s with
      files := Function.update s.files path (some s.snapshotBytes)
      nand := s.nand.powerCycle rand } with hs₂
    obtain ⟨first, hfirst⟩ : ∃ first, s₂.findNextFreeBlock 0 = some first :=
      (findNextFreeBlock_powerCycle rfl).2 hsurv.room
    have hmap : ∀ lpn < totalLpns, (s.restored (s₂.started first)).l2pTable lpn = s.l2pTable lpn :=
      fun lpn hlpn => h.bounded.restored_l2pTable hlpn
    refine ⟨s.restored (s₂.started first), (recycled_iff h.started).2 ⟨first, s₂, hs₂, hfirst, rfl⟩,
      hmap, fun ppn hppn => Option.ext fun lpn => ?_, ?_, ?_, rfl, rfl, rfl, ?_⟩
    · exact (h.bounded.restored_reverseMap hppn).trans (hsurv.back ppn hppn lpn).symm
    · exact hword (h.bounded.cursor.trans (by decide))
    · exact hword (lt_of_le_of_lt h.page_le (by decide))
    · exact (h.reads_iff rfl rfl hmap).2 hsurv.readable

end Saveable

/-- A device with consistent maps survives, if no mapped page is in a bad block, and if some block
    of the user area has never been written. -/
theorem MappingConsistent.survives (h : s.MappingConsistent)
    (hlpn : ∀ lpn ppn, s.l2pTable lpn = some ppn → lpn < totalLpns)
    (hgood : ∀ lpn ppn, s.l2pTable lpn = some ppn → (s.nand.blocks (ppnToBlock ppn)).state ≠ .bad)
    (hroom : ∃ b < userBlocks, ∀ p < pagesPerBlock, (s.nand.media.oob (b, p)).magic ≠ oobMagic) :
    s.Survives := by
  refine ⟨hroom, fun ppn _ lpn => ⟨fun hr => ?_, fun hgreat => ?_⟩, fun lpn _ ppn hl => ?_⟩
  · have hl := h.back lpn ppn hr
    exact ⟨⟨hlpn lpn ppn hl, hl⟩, fun lpn' hlpn' => (h.inj lpn' lpn ppn hlpn'.2 hl).le⟩
  · exact (h.mapped lpn ppn hgreat.1.2).2.1
  · have hvalid := (h.mapped lpn ppn hl).2.2
    rw [Nand.isPageValid, Bool.and_eq_true] at hvalid
    exact ⟨hgood lpn ppn hl, Or.inl hvalid.2⟩

/-- In every state that a fresh device reaches, a snapshot restores the device after a power cycle
    if and only if the device survives. -/
theorem powerCycle_restores_iff (hfresh : Fresh s₀) (hrun : Run Machine.anyCall s₀ tr s)
    (path : String) (rand : ℕ → ℕ) :
    (∃ s', s.Recycled path rand s' ∧ s.Restores s') ↔ s.Survives :=
  (saveable_run hfresh hrun).restores_iff path rand

/-- The first block has been written, and the second one has not. -/
theorem powerCycle_restores_written : ∃ s₀ s s' : Ftl, Fresh s₀ ∧
    s₀.exec 0 (.write 0 blankPage) = some (⟨.ok, none⟩, s) ∧ s.Recycled "snap" (fun _ => 0) s' ∧
      s.Restores s' := by
  obtain ⟨s₀, hon, hcalm⟩ := Calm.powerOn (fun _ => 99) (fun _ => by decide) fun _ => none
  have heq : ((powerOn (fun _ => 99) fun _ => none).2.exec 0 (.write 0 blankPage)).map (fun r =>
      decide (r.1.ret = .ok) && r.1.buf.isNone && (List.range pagesPerBlock).all fun p =>
        decide ((r.2.nand.media.oob (1, p)).magic ≠ oobMagic)) = some true := by
    decide +kernel
  rw [hon] at heq
  obtain ⟨⟨⟨ret, obuf⟩, s⟩, hexec, hcheck⟩ := Option.map_eq_some_iff.1 heq
  simp only [Bool.and_eq_true, decide_eq_true_eq, List.all_eq_true, List.mem_range,
    Option.isNone_iff_eq_none] at hcheck
  obtain ⟨⟨rfl, rfl⟩, hblank⟩ := hcheck
  have hsafe : s₀.OverwriteSafe 0 := fun ppn hl =>
    absurd (hcalm.table ▸ hl) (Option.some_ne_none _).symm
  have hrun : Run Safe s₀ [(.write 0 blankPage, ⟨.ok, none⟩)] s := .single hsafe ⟨0, hexec⟩
  have hinv := run_inv (Fresh.inv ⟨_, _, hon⟩) hrun
  have hsurv : s.Survives := by
    refine hinv.mappingConsistent.survives hinv.lpn_lt (fun lpn ppn hl => ?_) ⟨1, by decide, hblank⟩
    obtain ⟨d, -, hold⟩ := hinv.mapped lpn ppn hl
    exact hold.good
  have hany : Run Machine.anyCall s₀ _ s := hrun.mono fun _ _ _ => True.intro
  obtain ⟨s', hrec, hres⟩ :=
    (powerCycle_restores_iff ⟨_, _, hon⟩ hany "snap" fun _ => 0).2 hsurv
  exact ⟨s₀, s, s', ⟨_, _, hon⟩, hexec, hrec, hres⟩

/-- A page that has been erased, but is still mapped, is valid again after a power cycle. The maps
    are those of the page mapping mode throughout. -/
theorem not_powerCycle_restores : ¬ ∀ (s₀ s : Ftl) (tr : List (Call × Answer)) (path : String)
    (rand : ℕ → ℕ), Fresh s₀ → Run (fun _ call => MapCall call) s₀ tr s →
      ∃ s', s.Recycled path rand s' ∧ s.Restores s' := by
  intro hrestores
  obtain ⟨s₀, tr, s, tr', s', hfresh, hrun, hrun', hvalid, hl, hv⟩ :=
    exists_unmoved MapCall.write MapCall.triggerGc
  have hany := (hrun.append hrun').mono fun _ _ _ => trivial
  have hsave := saveable_run hfresh (hrun.mono fun _ _ _ => trivial)
  have hsave' := saveable_run hfresh hany
  -- The page had its magic number while it was valid, and keeps it.
  obtain ⟨trace, hnand⟩ := exists_nandRun hrun'
  have hmagic := (Nand.run_marks hnand).magic (3, 0) (hsave.magic 3 0 hvalid)
  have hsurv := (hsave'.restores_iff "snap" fun _ => 0).1
    (hrestores s₀ s' _ "snap" (fun _ => 0) hfresh (hrun.append hrun'))
  have hread := (hsurv.readable 2 (by decide) _ hl).2
  rw [ppnToBlock_mk (by decide) (by decide), ppnToPage_mk (by decide) (by decide)] at hread
  have hinvalid : (s'.nand.blocks 3).pageValid 0 = false := by
    have hblock : s'.nand.isBlockValid 3 := Nand.isBlockValid_iff.2 ⟨by decide, hsave'.on⟩
    rw [Nand.isPageValid, hblock, Bool.true_and] at hv
    simpa using hv
  rcases hread with hold | hblank
  · rw [hinvalid] at hold
    exact Bool.false_ne_true hold
  · exact hblank hmagic

end Ftl

end FtlFirmware
