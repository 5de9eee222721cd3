import FtlFirmware.Ftl.Evacuate

/-!
# What the calls do to the contents

A write that succeeds assigns its data to a logical page, a trim clears logical pages, and every
other call leaves the contents of the device as they are (`Store.next`), as long as each call is
*safe* (`Safe`):

* a write must not take the last page, as counted, from a block that has more valid pages, unless
  it goes to this block itself (`OverwriteSafe`), nor must a trim (`TrimSafe`);
* a block must not be moved to the block of the write cursor, unless its pages come before the
  cursor (`DisturbSafe`, `ReplaceSafe`).

So the contents of the device are determined by the calls made and the answers given, over
every run of safe calls in page mapping mode (`run_inv`).
-/

namespace FtlFirmware

namespace Ftl

variable {c : Store} {s s' : Ftl} {b p lpn ppn newPpn : ℕ} {d buf : PageData} {ret : RetCode}

/-! ## Wear levelling -/

/-- The dynamic wear levelling keeps the contents, and does not change the state of a block. -/
theorem wearLevelingCheck_inv (h : Inv ∅ c s) : Inv ∅ c s.wearLevelingCheck ∧
    s.wearLevelingCheck.curWriteBlock = s.curWriteBlock ∧
    ∀ b, (s.wearLevelingCheck.nand.blocks b).state = (s.nand.blocks b).state := by
  rw [wearLevelingCheck]
  dsimp only
  split
  · cases (wearScan s.nand).2.2 with
    | none => exact ⟨h, rfl, fun _ => rfl⟩
    | some coldBlock =>
      refine ⟨(h.markColdBlock (b := coldBlock)).congr rfl, rfl, fun b => ?_⟩
      rcases s.nand.markColdBlock_cases coldBlock with ⟨_, heq⟩ | heq
      · simp only [heq, Nand.setBlock_blocks, Function.update_apply]
        split
        · next hb => rw [PhyBlock.markCold_state, hb]
        · rfl
      · simp only [heq]
  · exact ⟨h, rfl, fun _ => rfl⟩

/-- The wear levelling at the end of a write keeps the contents, as the write has used the block of
    the write cursor. -/
theorem checkWear_inv (h : Inv ∅ c s) (hl : s.l2pTable lpn = some ppn)
    (hcur : ppnToBlock ppn = s.curWriteBlock) : Inv ∅ c s.checkWear := by
  obtain ⟨d, _, hold⟩ := h.mapped lpn ppn hl
  have hused : (s.nand.blocks s.curWriteBlock).state ≠ .free := by
    rw [← hcur]
    exact (h.counted _ (hcur ▸ h.block_lt) (Set.notMem_empty _)).state_ne_free hold.page_lt
      hold.valid
  obtain ⟨h', hblock, hstate⟩ := wearLevelingCheck_inv h
  rw [checkWear]
  dsimp only
  split
  · refine staticWearLevelingCheck_inv (h'.congr rfl) ?_
    dsimp only
    rwa [hblock, hstate]
  · exact h'.congr (by rfl)

/-! ## Overwriting a page -/

/-- The block of the page to which a logical page is mapped can lose the page, unless it is `b`. -/
def Spared (s : Ftl) (lpn b : ℕ) : Prop :=
  ∀ ppn, s.l2pTable lpn = some ppn →
    (s.nand.blocks (ppnToBlock ppn)).Spares 1 ∨ ppnToBlock ppn = b

/-- A write of a logical page is safe: the block that it is mapped to can lose a page, unless the
    write goes to this block. -/
def OverwriteSafe (s : Ftl) (lpn : ℕ) : Prop :=
  ∀ ppn, s.l2pTable lpn = some ppn →
    (s.nand.blocks (ppnToBlock ppn)).Spares 1 ∨
      (ppnToBlock ppn = s.curWriteBlock ∧ s.curWritePage < pagesPerBlock)

/-- A page has been taken for a safe write. -/
theorem OverwriteSafe.take (hsafe : s.OverwriteSafe lpn) (h : Inv ∅ c s)
    (ha : s.allocPhyPage = some (newPpn, s')) : s'.Spared lpn (ppnToBlock newPpn) := by
  intro ppn hl
  rw [allocPhyPage_frame ha] at hl ⊢
  rcases hsafe ppn hl with hspare | ⟨hcur, hlt⟩
  · exact Or.inl hspare
  · rcases allocPhyPage_cases ha with ⟨_, rfl, _⟩ | ⟨hge, _⟩
    · exact Or.inr (hcur.trans (ppnToBlock_mk h.block_lt hlt).symm)
    · exact absurd hlt (Nat.not_lt.2 hge)

/-- If the block is bad, nothing is mapped to it. -/
theorem Spared.of_bad (hspare : s.Spared lpn b) (h : Inv ∅ c s)
    (hbad : (s.nand.blocks b).state = .bad) : ∀ ppn, s.l2pTable lpn = some ppn →
      (s.nand.blocks (ppnToBlock ppn)).Spares 1 := by
  intro ppn hl
  rcases hspare ppn hl with hs | rfl
  · exact hs
  · obtain ⟨d, _, hold⟩ := h.mapped lpn ppn hl
    exact absurd hbad hold.good

/-- If a page of the block is programmed, the block can lose another one. -/
theorem Spared.program (hspare : s.Spared lpn b) (h : Inv ∅ c s) (hacc : s.nand.Accessible b p)
    (hv : (s.nand.blocks b).pageValid p = false) : ∀ ppn, s.l2pTable lpn = some ppn →
      ((s.nand.program b p d).blocks (ppnToBlock ppn)).Spares 1 := by
  intro ppn hl
  have hcounted := h.counted b (Nand.isBlockValid_iff.1 hacc.blockValid).1 (Set.notMem_empty _)
  rw [Nand.program_blocks]
  rcases eq_or_ne (ppnToBlock ppn) b with heq | hne
  · rw [heq, Function.update_self]
    exact hcounted.spares_program hacc.good hacc.page_lt hv
  · rw [Function.update_of_ne hne]
    exact (hspare ppn hl).resolve_right hne

/-- A garbage collection keeps a write safe: if it moves the logical page, it programs a page of
    the block, which then can lose one. -/
theorem OverwriteSafe.gcStable (c : Store) (lpn : ℕ) :
    GcStable c fun s => s.OverwriteSafe lpn where
  count _ _ hs := hs
  read s b ecc hs := by
    intro ppn hl
    refine (hs ppn hl).imp_left fun hspare => ?_
    rw [Nand.countRead_blocks]
    rcases eq_or_ne (ppnToBlock ppn) b with heq | hne
    · rw [heq] at hspare ⊢
      rw [Function.update_self]
      exact hspare
    · rwa [Function.update_of_ne hne]
  giveUp s newPpn s' h hs ha hbad := by
    intro ppn hl
    have hspare := (hs.take h ha).of_bad (h.take ha).1
      (by rw [allocPhyPage_frame ha]; exact hbad) ppn hl
    exact Or.inl hspare
  move s lpn' oldPpn newPpn s' d j k h hs ha hacc hl' := by
    intro ppn hl
    obtain ⟨h₁, ht⟩ := h.take ha
    have hacc₁ : s'.nand.Accessible (ppnToBlock newPpn) (ppnToPage newPpn) := by
      rwa [allocPhyPage_frame ha]
    have hv := ht.ahead _ le_rfl ppnToPage_lt
    left
    rw [remap_nand]
    rw [remap_l2pTable] at hl
    rcases eq_or_ne lpn lpn' with rfl | hne
    · -- The logical page itself is moved.
      rw [Function.update_self, Option.some_inj] at hl
      rw [← hl, Nand.program_blocks, Function.update_self]
      exact (h₁.counted _ (ht.block ▸ h₁.block_lt) (Set.notMem_empty _)).spares_program
        hacc₁.good hacc₁.page_lt hv
    · rw [Function.update_of_ne hne] at hl
      exact (hs.take h ha).program h₁ hacc₁ hv ppn hl
  erase s b h hs hun := by
    intro ppn hl
    refine (hs ppn hl).imp_left fun hspare => ?_
    have hne := hun lpn ppn hl
    rcases s.nand.blockErase_cases b with ⟨_, _, heq⟩ | ⟨_, _, _, heq⟩ | ⟨_, _, heq, _⟩ <;>
      simpa [heq, hne] using hspare

/-! ## Writing -/

/-- The page `newPpn` of the block of the write cursor has been programmed with the new data of a
    logical page, and the block of the old page can lose this one. -/
structure Programmed (s : Ftl) (lpn newPpn : ℕ) (buf : PageData) : Prop where
  holds : HoldsAt s.nand newPpn buf
  unmapped : s.reverseMap newPpn = none
  block : ppnToBlock newPpn = s.curWriteBlock
  spared : ∀ ppn, s.l2pTable lpn = some ppn → (s.nand.blocks (ppnToBlock ppn)).Spares 1

/-- Writing the page taken, if its block is not bad. -/
theorem Taken.pageWrite (ht : s.Taken newPpn) (h : Inv ∅ c s)
    (hspare : s.Spared lpn (ppnToBlock newPpn))
    (hgood : (s.nand.blocks (ppnToBlock newPpn)).state ≠ .bad) (buf : PageData) :
    ∃ n, s.nand.pageWrite (ppnToBlock newPpn) (ppnToPage newPpn) buf = (.ok, n) ∧
      Inv ∅ c { s with nand := n } ∧ Programmed { s with nand := n } lpn newPpn buf := by
  have hacc := ht.accessible h hgood
  have hv := ht.ahead _ le_rfl ppnToPage_lt
  exact ⟨_, Nand.pageWrite_of_invalid hacc hv,
    h.program hacc hv (Set.notMem_empty _) fun _ => ht.page ▸ Nat.lt_succ_self _,
    Nand.holds_program hacc, ht.reverseMap h, ht.block, hspare.program h hacc hv⟩

/-- Writing the page taken does nothing if its block is bad. -/
theorem Taken.pageWrite_of_bad (ht : s.Taken newPpn) (h : Inv ∅ c s)
    (hbad : (s.nand.blocks (ppnToBlock newPpn)).state = .bad) (buf : PageData) :
    s.nand.pageWrite (ppnToBlock newPpn) (ppnToPage newPpn) buf = (.errBadBlock, s.nand) := by
  have hvalid := h.isBlockValid (ht.block ▸ h.block_lt)
  rw [Nand.pageWrite, if_neg (by simp [hvalid, ppnToPage_lt]), if_pos hbad]

/-- Programming the page taken for a write keeps the contents, also if its block is replaced. -/
theorem programPage_inv (h : Inv ∅ c s) (ht : s.Taken newPpn)
    (hspare : s.Spared lpn (ppnToBlock newPpn)) (buf : PageData) :
    ∃ ret ppn s', s.programPage newPpn buf = (ret, ppn, s') ∧ Inv ∅ c s' ∧
      (ret = .ok → s'.Programmed lpn ppn buf) := by
  rw [programPage]
  by_cases hbad : (s.nand.blocks (ppnToBlock newPpn)).state = .bad
  · rw [ht.pageWrite_of_bad h hbad]
    dsimp only
    rw [if_pos rfl]
    have hrep := replaceBadBlock_inv h (b := ppnToBlock newPpn) fun hused => by
      rw [hbad] at hused
      exact absurd hused (by decide)
    have hsame := replaceBadBlock_of_bad h hbad
    have hspare' := hspare.of_bad h hbad
    generalize s.replaceBadBlock (ppnToBlock newPpn) = r at hrep hsame
    obtain ⟨ret, s₁⟩ := r
    cases ret with
    | ok =>
      dsimp only at hrep hsame ⊢
      cases ha : s₁.allocPhyPage with
      | none => exact ⟨_, _, _, rfl, hrep, fun hret => absurd hret (by decide)⟩
      | some taken =>
        obtain ⟨ppn, s₂⟩ := taken
        obtain ⟨h₂, ht₂⟩ := hrep.take ha
        have hspare₂ : s₂.Spared lpn (ppnToBlock ppn) := fun ppn hl => by
          rw [allocPhyPage_frame ha] at hl ⊢
          rw [hsame.1] at hl
          exact Or.inl (hsame.2 ▸ hspare' ppn hl)
        dsimp only
        by_cases hbad₂ : (s₂.nand.blocks (ppnToBlock ppn)).state = .bad
        · rw [ht₂.pageWrite_of_bad h₂ hbad₂]
          exact ⟨_, _, _, rfl, h₂, fun hret => absurd hret RetCode.noConfusion⟩
        · obtain ⟨n, hw, h₃, hprog⟩ := ht₂.pageWrite h₂ hspare₂ hbad₂ buf
          rw [hw]
          exact ⟨_, _, _, rfl, h₃, fun _ => hprog⟩
    | _ => exact ⟨_, _, _, rfl, hrep, fun hret => absurd hret (by decide)⟩
  · obtain ⟨n, hw, h₁, hprog⟩ := ht.pageWrite h hspare hbad buf
    rw [hw]
    exact ⟨_, _, _, rfl, h₁, fun _ => hprog⟩

/-- The device after the maps have been redirected to the page programmed for a write. -/
def committed (s : Ftl) (lpn newPpn : ℕ) : Ftl :=
  { s with
    hostWritePages := s.hostWritePages + 1
    nandWritePages := s.nandWritePages + 1
    nand := match s.l2pTable lpn with
      | some oldPpn => (s.nand.markPageInvalid (ppnToBlock oldPpn) (ppnToPage oldPpn)).2
      | none => s.nand
    l2pTable := Function.update s.l2pTable lpn (some newPpn)
    reverseMap :=
      Function.update (Lookup.release s.l2pTable s.reverseMap lpn) newPpn (some lpn) }

/-- Redirecting the maps stays in their range if the old page is in range. -/
theorem commitWrite_eq (hppn : ∀ ppn, s.l2pTable lpn = some ppn → ppn < totalPpns) :
    s.commitWrite lpn newPpn = some (s.committed lpn newPpn) := by
  rw [commitWrite, committed]
  dsimp only
  cases hl : s.l2pTable lpn with
  | none => rw [Lookup.release_none hl]
  | some oldPpn =>
    rw [Lookup.release_some hl]
    dsimp only
    rw [if_neg (Nat.not_le.2 (hppn oldPpn hl))]

/-- What follows in a write in page mapping mode once its page has been programmed. -/
theorem finishWrite_eq (hppn : ∀ ppn, s.l2pTable lpn = some ppn → ppn < totalPpns)
    (hmode : (s.committed lpn newPpn).checkWear.mapMode ≠ .hybrid) :
    s.finishWrite lpn newPpn = some (s.committed lpn newPpn).checkWear := by
  simp only [finishWrite, commitWrite_eq hppn, Option.bind_eq_bind, Option.bind_some,
    if_neg hmode]

/-- A write whose page is programmed comes to an end, up to the wear levelling. -/
theorem writeOut_eq {n : Nand} (hppn : ∀ ppn, s.l2pTable lpn = some ppn → ppn < totalPpns)
    (hb : b < totalBlocks) (hp : p < pagesPerBlock)
    (ha : s.allocPhyPage =
      some (blockPageToPpn b p, { s with curWriteBlock := b, curWritePage := p + 1 }))
    (hw : s.nand.pageWrite b p buf = (.ok, n)) :
    ∃ files sequence count, ∀ s', s' = committed { s with
        files := files
        walSequence := sequence
        walEntryCount := count
        nand := n
        curWriteBlock := b
        curWritePage := p + 1 } lpn (blockPageToPpn b p) →
      s'.checkWear.mapMode ≠ .hybrid → s.writeOut lpn buf = some (.ok, s'.checkWear) := by
  obtain ⟨files, sequence, count, hlog⟩ := walLog_ok
    { s with curWriteBlock := b, curWritePage := p + 1 } (writeEntry lpn (s.l2pTable lpn)
      (blockPageToPpn b p))
  refine ⟨files, sequence, count, fun s' hs' hmode => ?_⟩
  subst hs'
  have hfinish := finishWrite_eq (s := { s with
    files := files
    walSequence := sequence
    walEntryCount := count
    nand := n
    curWriteBlock := b
    curWritePage := p + 1 }) hppn hmode
  rw [writeOut, ha]
  dsimp only
  rw [walLogWrite, hlog]
  dsimp only
  rw [programPage, ppnToBlock_mk hb hp, ppnToPage_mk hb hp]
  dsimp only
  rw [hw, if_neg (by decide : RetCode.ok ≠ .errBadBlock)]
  dsimp only
  rw [hfinish]
  rfl

/-- Redirecting the maps to the page programmed for a write makes its data the contents of the
    logical page. -/
theorem committed_inv (h : Inv ∅ c s) (hlpn : lpn < totalLpns) (hnew : HoldsAt s.nand newPpn buf)
    (hr : s.reverseMap newPpn = none)
    (hspare : ∀ ppn, s.l2pTable lpn = some ppn → (s.nand.blocks (ppnToBlock ppn)).Spares 1) :
    Inv ∅ (Function.update c lpn (some buf)) (s.committed lpn newPpn) := by
  have hassign := h.assign hlpn hnew hr
  rw [committed]
  cases hl : s.l2pTable lpn with
  | none => exact hassign.congr rfl
  | some oldPpn =>
    rw [Lookup.release_some hl] at hassign ⊢
    -- The old page is not mapped any more, so it may be invalidated.
    have hne : oldPpn ≠ newPpn := h.lookup.ne_of_none hr hl
    have hgone : Function.update (Function.update s.reverseMap oldPpn none) newPpn (some lpn)
        oldPpn = none := by
      rw [Function.update_of_ne hne, Function.update_self]
    exact (hassign.invalidate hgone (Or.inr (hspare oldPpn hl))).congr rfl

/-- What follows in a write once its page has been programmed comes to an end, and makes the data
    the contents of the logical page. -/
theorem finishWrite_inv (h : Inv ∅ c s) (hprog : s.Programmed lpn newPpn buf)
    (hlpn : lpn < totalLpns) :
    ∃ s', s.finishWrite lpn newPpn = some s' ∧ Inv ∅ (Function.update c lpn (some buf)) s' := by
  have h₁ := committed_inv h hlpn hprog.holds hprog.unmapped hprog.spared
  have h₂ := checkWear_inv h₁ (Function.update_self _ _ _) hprog.block
  have hmode : (s.committed lpn newPpn).checkWear.mapMode ≠ .hybrid := by
    rw [h₂.pageMode]
    decide
  exact ⟨_, finishWrite_eq (fun ppn => h.ppn_lt) hmode, h₂⟩

/-- A write for which there are enough free blocks comes to an end. If it succeeds, its data is the
    contents of the logical page. -/
theorem writeOut_inv (h : Inv ∅ c s) (hlpn : lpn < totalLpns) (hsafe : s.OverwriteSafe lpn)
    (buf : PageData) : ∃ ret s', s.writeOut lpn buf = some (ret, s') ∧
      Inv ∅ (if ret = .ok then Function.update c lpn (some buf) else c) s' := by
  rw [writeOut]
  cases ha : s.allocPhyPage with
  | none => exact ⟨_, _, rfl, h⟩
  | some taken =>
    obtain ⟨newPpn, s₁⟩ := taken
    obtain ⟨h₁, ht⟩ := h.take ha
    dsimp only
    obtain ⟨files, sequence, count, hlog⟩ :=
      s₁.walLog_ok (writeEntry lpn (s₁.l2pTable lpn) newPpn)
    rw [walLogWrite, hlog]
    dsimp only
    have hspare := hsafe.take h ha
    obtain ⟨ret, ppn, s₂, hprogram, h₂, hprog⟩ := programPage_inv
      (s := { s₁ with files := files, walSequence := sequence, walEntryCount := count })
      (h₁.congr rfl) ⟨ht.block, ht.page, ht.ahead⟩ hspare buf
    rw [hprogram]
    cases ret with
    | ok =>
      obtain ⟨s₃, hfinish, h₃⟩ := finishWrite_inv h₂ (hprog rfl) hlpn
      dsimp only
      rw [hfinish]
      exact ⟨_, _, rfl, h₃⟩
    | _ => exact ⟨_, _, rfl, h₂⟩

/-- No property besides the contents. -/
theorem GcStable.trivial : GcStable c fun _ => True := by
  constructor
  · constructor <;> intros <;> exact True.intro
  · intros
    exact True.intro

/-- A write, unless it goes on collecting garbage, which is safe once the garbage collection has
    made room for it. -/
theorem write_inv_of_space {fuel : ℕ} (h : Inv ∅ c s)
    (hsafe : ∀ s', gcUntilSpace fuel s = some (.ok, s') → s'.OverwriteSafe lpn) (buf : PageData) :
    (gcUntilSpace fuel s = none ∧ s.write fuel lpn buf = none) ∨
      ∃ ret s', s.write fuel lpn buf = some (ret, s') ∧
        Inv ∅ (if ret = .ok then Function.update c lpn (some buf) else c) s' := by
  rw [write, if_neg (not_not.2 h.started)]
  split
  · exact Or.inr ⟨_, _, rfl, h⟩
  · next hlpn =>
    cases hgc : gcUntilSpace fuel s with
    | none => exact Or.inl ⟨rfl, rfl⟩
    | some r =>
      obtain ⟨ret, s₁⟩ := r
      obtain ⟨h₁, _⟩ := gcUntilSpace_inv (GcStable.trivial (c := c)) h True.intro hgc
      right
      cases ret with
      | ok => exact writeOut_inv h₁ (Nat.lt_of_not_le hlpn) (hsafe s₁ hgc) buf
      | _ => exact ⟨_, _, rfl, h₁⟩

/-- A write, unless it goes on collecting garbage. -/
theorem write_inv (h : Inv ∅ c s) (hsafe : s.OverwriteSafe lpn) (fuel : ℕ) (buf : PageData) :
    (gcUntilSpace fuel s = none ∧ s.write fuel lpn buf = none) ∨
      ∃ ret s', s.write fuel lpn buf = some (ret, s') ∧
        Inv ∅ (if ret = .ok then Function.update c lpn (some buf) else c) s' :=
  write_inv_of_space h
    (fun _ hgc => (gcUntilSpace_inv (OverwriteSafe.gcStable c lpn) h hsafe hgc).2) buf

/-! ## Trimming -/

/-- The number of the logical pages `pages` that are mapped to the block `b`. -/
def mappedIn (s : Ftl) (pages : List ℕ) (b : ℕ) : ℕ :=
  pages.countP fun lpn => decide ((s.l2pTable lpn).map ppnToBlock = some b)

/-- The number depends on what the logical pages are mapped to. -/
theorem mappedIn_congr {pages : List ℕ} (hl : ∀ lpn ∈ pages, s'.l2pTable lpn = s.l2pTable lpn) :
    s'.mappedIn pages b = s.mappedIn pages b :=
  List.countP_congr fun lpn hlpn => by rw [hl lpn hlpn]

/-- The number with one more logical page. -/
theorem mappedIn_cons (pages : List ℕ) : s.mappedIn (lpn :: pages) b =
    s.mappedIn pages b + if (s.l2pTable lpn).map ppnToBlock = some b then 1 else 0 := by
  simp [mappedIn, List.countP_cons]

/-- A trim of the logical pages `pages` is safe: the blocks they are mapped to can lose as many
    pages. -/
def TrimSafe (s : Ftl) (pages : List ℕ) : Prop :=
  ∀ lpn ∈ pages, ∀ ppn, s.l2pTable lpn = some ppn →
    (s.nand.blocks (ppnToBlock ppn)).Spares (s.mappedIn pages (ppnToBlock ppn))

/-- Trimming one of the logical pages clears it, and leaves the trim of the other ones safe. -/
theorem trimPage_inv {pages : List ℕ} (h : Inv ∅ c s) (hlpn : lpn < totalLpns)
    (hsafe : s.TrimSafe (lpn :: pages)) (hmem : lpn ∉ pages) :
    ∃ s', s.trimPage lpn = some s' ∧ Inv ∅ (Function.update c lpn none) s' ∧
      s'.TrimSafe pages := by
  rw [trimPage, if_neg (Nat.not_le.2 hlpn)]
  cases hl : s.l2pTable lpn with
  | none =>
    refine ⟨s, rfl, ?_, fun lpn' hlpn' ppn hl' => ?_⟩
    · rwa [← h.unmapped lpn hl, Function.update_eq_self]
    · have hspare := hsafe lpn' (List.mem_cons_of_mem _ hlpn') ppn hl'
      rw [mappedIn_cons] at hspare
      exact hspare.mono (Nat.le_add_right _ _)
  | some ppn₀ =>
    have hppn := h.ppn_lt hl
    obtain ⟨d, _, hold⟩ := h.mapped lpn ppn₀ hl
    have hb := (Nand.isBlockValid_iff.1 hold.blockValid).1
    have hspare := hsafe lpn List.mem_cons_self ppn₀ hl
    rw [mappedIn_cons, hl, Option.map_some, if_pos rfl] at hspare
    have hinv := (h.unmap hl).invalidate (Function.update_self _ _ _)
      (Or.inr (hspare.mono (Nat.le_add_left 1 _)))
    obtain ⟨files, sequence, count, hlog⟩ := s.walLog_ok (trimEntry lpn (s.l2pTable lpn))
    dsimp only
    rw [if_neg (Nat.not_le.2 hppn), walLogTrim, hlog]
    refine ⟨_, rfl, hinv.congr rfl, fun lpn' hlpn' ppn hl' => ?_⟩
    -- The other pages are still mapped as before.
    have hl2p : ∀ lpn' ∈ pages, Function.update s.l2pTable lpn none lpn' = s.l2pTable lpn' := by
      intro lpn' hlpn'
      have hne : lpn' ≠ lpn := fun heq => hmem (heq ▸ hlpn')
      exact Function.update_of_ne hne _ _
    dsimp only at hl'
    rw [hl2p lpn' hlpn'] at hl'
    have hspare' := hsafe lpn' (List.mem_cons_of_mem _ hlpn') ppn hl'
    simp only [mappedIn_cons, hl, Option.map_some, Option.some_inj] at hspare'
    rw [mappedIn_congr (s := s) hl2p, Nand.markPageInvalid_of_valid hold.toAccessible hold.valid]
    dsimp only
    rw [Nand.setBlock_blocks]
    rcases eq_or_ne (ppnToBlock ppn) (ppnToBlock ppn₀) with hbeq | hbne
    · simp only [hbeq, if_true] at hspare'
      rw [hbeq, Function.update_self]
      exact hspare'.invalidate (h.counted _ hb (Set.notMem_empty _)) hold.good hold.page_lt
        hold.valid
    · rw [Function.update_of_ne hbne]
      exact hspare'.mono (Nat.le_add_right _ _)

/-- The contents without the logical pages `pages`. -/
def clear (c : Store) (pages : List ℕ) : Store := fun lpn => if lpn ∈ pages then none else c lpn

/-- Trimming logical pages clears them. -/
theorem foldlM_trimPage_inv {pages : List ℕ} (h : Inv ∅ c s) (hlt : ∀ lpn ∈ pages, lpn < totalLpns)
    (hsafe : s.TrimSafe pages) (hnd : pages.Nodup) :
    ∃ s', pages.foldlM trimPage s = some s' ∧ Inv ∅ (clear c pages) s' := by
  induction pages generalizing s c with
  | nil => exact ⟨s, rfl, h⟩
  | cons lpn pages ih =>
    have hnd' := List.nodup_cons.1 hnd
    obtain ⟨s₁, htrim, h₁, hsafe₁⟩ := trimPage_inv h (hlt lpn List.mem_cons_self) hsafe hnd'.1
    obtain ⟨s₂, hfold, h₂⟩ := ih h₁ (fun lpn hlpn => hlt lpn (List.mem_cons_of_mem _ hlpn)) hsafe₁
      hnd'.2
    refine ⟨s₂, ?_, ?_⟩
    · rw [List.foldlM_cons, htrim]
      exact hfold
    · convert h₂ using 1
      funext lpn'
      rcases eq_or_ne lpn' lpn with rfl | hne
      · simp [clear]
      · simp [clear, hne]

/-- The logical pages that a trim goes through, if their last one is a 32-bit number. -/
theorem mem_trimRange {lpn count : UInt32} (hle : lpn.toNat + count.toNat < 2 ^ 32) {i : ℕ} :
    i ∈ List.range' lpn.toNat (trimLength lpn count) ↔
      (lpn.toNat ≤ i ∧ i < lpn.toNat + count.toNat) ∧ i < totalLpns := by
  have hadd : (lpn + count).toNat = lpn.toNat + count.toNat := by
    rw [UInt32.toNat_add, Nat.mod_eq_of_lt hle]
  rw [List.mem_range'_1, trimLength, hadd]
  split <;> omega

/-- A trim clears the logical pages from `lpn` on. -/
theorem trim_inv {lpn count : UInt32} (h : Inv ∅ c s)
    (hsafe : lpn.toNat < totalLpns → lpn.toNat + count.toNat < 2 ^ 32 ∧
      s.TrimSafe (List.range' lpn.toNat (trimLength lpn count))) :
    ∃ ret s', s.trim lpn count = some (ret, s') ∧ Inv ∅ (if ret = .ok then fun i =>
      if lpn.toNat ≤ i ∧ i < lpn.toNat + count.toNat then none else c i else c) s' := by
  rw [trim, if_neg (not_not.2 h.started)]
  split
  · exact ⟨_, _, rfl, h⟩
  · split
    · exact ⟨_, _, rfl, h⟩
    · next hlpn =>
      obtain ⟨hle, hsafe⟩ := hsafe (Nat.lt_of_not_le hlpn)
      obtain ⟨s', hfold, h'⟩ := foldlM_trimPage_inv h (fun i hi => ((mem_trimRange hle).1 hi).2)
        hsafe List.nodup_range'
      rw [hfold]
      refine ⟨_, _, rfl, ?_⟩
      convert (h'.congr rfl : Inv ∅ _ { s' with trimCount := s'.trimCount + 1 }) using 1
      funext i
      simp only [if_true, clear, mem_trimRange hle]
      by_cases hi : i < totalLpns
      · simp [hi]
      · -- Logical pages out of range have no contents.
        have hnone : c i = none := h.unmapped i <| by
          cases hl : s.l2pTable i with
          | none => rfl
          | some ppn => exact absurd (h.lpn_lt i ppn hl) hi
        simp [hi, hnone]

/-! ## Reading -/

/-- A read answers with the contents of the logical page, if it has any, and keeps them. -/
theorem read_inv (h : Inv ∅ c s) (hlpn : lpn < totalLpns) (buf : PageData) :
    (s.read lpn buf).1 = (if (c lpn).isSome then .ok else .errNotMapped) ∧
      (s.read lpn buf).2.1 = (c lpn).getD buf ∧ Inv ∅ c (s.read lpn buf).2.2 := by
  rw [read, if_neg (not_not.2 h.started), if_neg (Nat.not_le.2 hlpn)]
  cases hl : s.l2pTable lpn with
  | none =>
    rw [h.unmapped lpn hl]
    exact ⟨rfl, rfl, h⟩
  | some ppn =>
    obtain ⟨d, hd, hold⟩ := h.mapped lpn ppn hl
    have hcount := h.countRead (b := ppnToBlock ppn) .ok
    have hmode : s.mapMode ≠ .hybrid := by
      rw [h.pageMode]
      decide
    dsimp only
    rw [hold.pageRead, if_neg (by decide : RetCode.ok ≠ .errBadBlock), if_neg fun h' => hmode h'.2,
      hd]
    exact ⟨rfl, rfl, hcount⟩

/-- A logical page that is mapped to an invalid page is not read. -/
theorem read_of_invalid (hstarted : s.isInitialized) (hlpn : lpn < totalLpns)
    (hl : s.l2pTable lpn = some (blockPageToPpn b p)) (hacc : s.nand.Accessible b p)
    (hv : (s.nand.blocks b).pageValid p = false) :
    s.read lpn buf = (.errNotMapped, buf, s) := by
  have hb := (Nand.isBlockValid_iff.1 hacc.blockValid).1
  rw [read, if_neg (not_not.2 hstarted), if_neg (Nat.not_le.2 hlpn), hl]
  dsimp only
  rw [ppnToBlock_mk hb hacc.page_lt, ppnToPage_mk hb hacc.page_lt,
    Nand.pageRead_of_invalid hacc hv]
  rfl

/-! ## Other calls -/

/-- In page mapping mode, there are no logical blocks to be migrated. -/
theorem hotColdMigration_eq (h : Inv ∅ c s) : s.hotColdMigration = some (.ok, s) := by
  have hfold (l : List ℕ) : l.foldlM migrateLogicalBlock s = some s := by
    induction l with
    | nil => rfl
    | cons lb l ih =>
      rw [List.foldlM_cons, migrateLogicalBlock, h.noBlockMap lb]
      exact ih
  rw [hotColdMigration, if_neg (not_not.2 h.started), hfold]
  rfl

/-! ## Runs -/

/-- The contents after a call and its answer. -/
def next (c : Store) : Call × Answer → Store
  | (.write lpn buf, a) => if a.ret = .ok then Function.update c lpn (some buf) else c
  | (.trim lpn count, a) =>
    if a.ret = .ok then fun i =>
      if lpn.toNat ≤ i ∧ i < lpn.toNat + count.toNat then none else c i
    else c
  | _ => c

/-- The contents after the calls of a run, which begins without any. -/
def contents (tr : List (Call × Answer)) : Store := tr.foldl next fun _ => none

/-- The call is safe in the state. -/
def Safe (s : Ftl) : Call → Prop
  | .write lpn _ => s.OverwriteSafe lpn
  | .trim lpn count => lpn.toNat < totalLpns → lpn.toNat + count.toNat < 2 ^ 32 ∧
      s.TrimSafe (List.range' lpn.toNat (trimLength lpn count))
  | .setMapMode mode => mode = .page
  | .handleReadDisturb => s.DisturbSafe
  | .replaceBadBlock b => s.ReplaceSafe b
  | _ => True

/-- A safe call comes to an end, unless it is a write that goes on collecting garbage, and changes
    the contents as it should. -/
theorem exec_inv (h : Inv ∅ c s) {call : Call} (hsafe : s.Safe call) (fuel : ℕ) :
    (gcUntilSpace fuel s = none ∧ s.exec fuel call = none) ∨
      ∃ a s', s.exec fuel call = some (a, s') ∧ Inv ∅ (next c (call, a)) s' := by
  cases call with
  | read lpn buf =>
    refine Or.inr ⟨_, _, rfl, ?_⟩
    by_cases hlpn : lpn < totalLpns
    · exact (read_inv h hlpn buf).2.2
    · rw [read, if_neg (not_not.2 h.started), if_pos (Nat.le_of_not_lt hlpn)]
      exact h
  | write lpn buf =>
    rw [exec]
    rcases write_inv h hsafe fuel buf with ⟨hgc, hw⟩ | ⟨ret, s', hw, h'⟩ <;> rw [hw]
    · exact Or.inl ⟨hgc, rfl⟩
    · exact Or.inr ⟨_, _, rfl, h'⟩
  | trim lpn count =>
    obtain ⟨ret, s', htrim, h'⟩ := trim_inv h hsafe
    rw [exec, htrim]
    exact Or.inr ⟨_, _, rfl, h'⟩
  | setGcAlgo algo => exact Or.inr ⟨_, _, rfl, h.congr rfl⟩
  -- The other calls move pages, or do not concern the contents.
  | triggerGc =>
    refine Or.inr ⟨_, _, rfl, ?_⟩
    rw [triggerGc, if_neg (not_not.2 h.started)]
    exact (gcDoRecycle_inv .trivial h True.intro).1
  | setMapMode mode =>
    obtain rfl : mode = .page := hsafe
    refine Or.inr ⟨_, _, rfl, ?_⟩
    rw [setMapMode, if_neg (not_not.2 h.started)]
    exact { h with pageMode := rfl }
  | hotColdMigration =>
    rw [exec, hotColdMigration_eq h]
    exact Or.inr ⟨_, _, rfl, h⟩
  | handleReadDisturb => exact Or.inr ⟨_, _, rfl, handleReadDisturb_inv h hsafe⟩
  | replaceBadBlock block => exact Or.inr ⟨_, _, rfl, replaceBadBlock_inv h hsafe⟩
  | saveSnapshot path =>
    refine Or.inr ⟨_, _, rfl, ?_⟩
    rw [saveSnapshot, if_neg (not_not.2 h.started)]
    exact h.congr rfl
  | walInit path => exact Or.inr ⟨_, _, rfl, h.congr rfl⟩
  | walEnable enable => exact Or.inr ⟨_, _, rfl, h.congr rfl⟩
  | walClear =>
    refine Or.inr ⟨_, _, rfl, ?_⟩
    rw [walClear]
    cases s.walFile with
    | none => exact h
    | some path => exact h.congr rfl

/-- A fresh device has no contents. -/
theorem Fresh.inv (hfresh : Fresh s) : Inv ∅ (fun _ => none) s := by
  obtain ⟨rand, files, hinit⟩ := hfresh
  rw [powerOn, init] at hinit
  split at hinit
  · exact absurd (congrArg Prod.fst hinit) RetCode.noConfusion
  · next firstBlock hfirst =>
    obtain ⟨hvalid, hfree⟩ := findNextFreeBlock_spec hfirst
    obtain rfl := (congrArg Prod.snd hinit).symm
    have hblock (b : ℕ) : ((Nand.init none rand).blocks b).Counted := by
      change (Nand.factoryBlock .tlc (rand b)).Counted
      rw [Nand.factoryBlock]
      split
      · exact .of_bad rfl
      · exact PhyBlock.Exact.fresh.counted
    exact {
      on := rfl
      started := rfl
      pageMode := rfl
      noBlockMap := fun _ => rfl
      block_lt := (Nand.isBlockValid_iff.1 hvalid).1
      page_le := Nat.zero_le _
      ahead := fun p _ hp => (hblock firstBlock).pageValid_of_free hfree hp
      counted := fun b _ _ => hblock b
      lookup := Lookup.empty
      lpn_lt := fun _ _ hl => absurd hl.symm (Option.some_ne_none _)
      mapped := fun _ _ hl => absurd hl.symm (Option.some_ne_none _)
      unmapped := fun _ _ => rfl }

/-- Over a run of safe calls, the contents of the device are those that the calls and their
    answers say. -/
theorem run_inv {tr : List (Call × Answer)} (h : Inv ∅ c s) (hrun : Run Safe s tr s') :
    Inv ∅ (tr.foldl next c) s' := by
  refine hrun.simulation (R := fun s c => Inv ∅ c s) h ?_
  rintro s c call a s' h hsafe ⟨fuel, hexec⟩
  rcases exec_inv h hsafe fuel with ⟨_, hnone⟩ | ⟨a', s'', hexec', h'⟩
  · rw [hexec] at hnone
    exact absurd hnone (Option.some_ne_none _)
  · rw [hexec, Option.some_inj, Prod.mk.injEq] at hexec'
    obtain ⟨rfl, rfl⟩ := hexec'
    exact h'

end Ftl

end FtlFirmware
