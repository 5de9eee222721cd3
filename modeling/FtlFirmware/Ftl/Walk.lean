import FtlFirmware.Ftl.Calm

/-!
# Collecting the block of the write cursor

When the victim of a garbage collection is the block of the write cursor, its last page is moved to
the page behind it, which the collection comes to next. In this way the page goes through the
block (`Walk`), until it leaves it for the next free block, and the victim is erased
(`Calm.triggerGc_walk`): such a collection does nothing but wear out a block.
-/

namespace FtlFirmware

namespace Ftl

variable {c : Store} {L : Layout} {s₀ s s' s₁ : Ftl} {lpn b b' p ppn newPpn : ℕ} {buf : PageData}

/-- The device, in a garbage collection of the block `b` that began in the state `s₀`, after the
    logical page `lpn` has been moved to the page `ppn`. -/
structure Collecting (c : Store) (s₀ : Ftl) (lpn b ppn : ℕ) (s : Ftl) : Prop where
  inv : Inv ∅ c s
  table : s.l2pTable = Function.update s₀.l2pTable lpn (some ppn)
  erases : (s.nand.blocks b).eraseCount = (s₀.nand.blocks b).eraseCount
  good : (s.nand.blocks b).state ≠ .bad
  type : s.nand.nandType = s₀.nand.nandType
  algo : s.gcAlgo = s₀.gcAlgo
  sinceCheck : s.writeSinceLastCheck = s₀.writeSinceLastCheck

/-- The logical page is moved on to the page taken. -/
theorem Collecting.move (h : Collecting c s₀ lpn b (blockPageToPpn b p) s) (hb : b < totalBlocks)
    (hp : p < pagesPerBlock) (ha : s.allocPhyPage = some (newPpn, s₁))
    (hgood : (s.nand.blocks (ppnToBlock newPpn)).state ≠ .bad) (buf : PageData) :
    ∃ d s', s.gcMovePage b p lpn buf = (.ok, d, s') ∧ Collecting c s₀ lpn b newPpn s' ∧
      s'.curWriteBlock = s₁.curWriteBlock ∧ s'.curWritePage = s₁.curWritePage ∧
      (∀ b', b' ≠ b → b' ≠ ppnToBlock newPpn → s'.nand.blocks b' = s.nand.blocks b') ∧
      (ppnToBlock newPpn ≠ b → s'.nand.blocks (ppnToBlock newPpn) =
        (s.nand.blocks (ppnToBlock newPpn)).program (ppnToPage newPpn)) := by
  have hl : s.l2pTable lpn = some (blockPageToPpn b p) := by
    rw [h.table, Function.update_self]
  have hr := (h.inv.lookup _ _).1 hl
  obtain ⟨d, _, hold⟩ := h.inv.mapped _ _ hl
  rw [HoldsAt, ppnToBlock_mk hb hp, ppnToPage_mk hb hp] at hold
  obtain ⟨h₁, ht⟩ := h.inv.take ha
  have hacc := ht.accessible h₁
  have hv := ht.ahead _ le_rfl ppnToPage_lt
  rw [allocPhyPage_frame ha] at hacc hv
  have hmove : s.gcMovePage b p lpn buf = _ := gcMovePage_eq buf hold ha (hacc hgood) hv
  obtain ⟨_, _, _, hmove', hinv, _, _⟩ :=
    gcMovePage_inv buf GcStable.trivial.toMoveStable h.inv True.intro hb hp hr
  obtain ⟨_, _, rfl⟩ := hmove'.symm.trans hmove
  -- Reading counts for the block that is collected, and for no other.
  have hother : ∀ b', b' ≠ b → (s.nand.countRead b .ok).blocks b' = s.nand.blocks b' := by
    intro b' hne
    rw [Nand.countRead_blocks, Function.update_of_ne hne]
  have hblock : (((s.nand.countRead b .ok).program (ppnToBlock newPpn) (ppnToPage newPpn)
      d).blocks b).eraseCount = (s.nand.blocks b).eraseCount ∧
      (((s.nand.countRead b .ok).program (ppnToBlock newPpn) (ppnToPage newPpn)
        d).blocks b).state ≠ .bad := by
    rw [Nand.program_blocks, Nand.countRead_blocks]
    by_cases hne : b = ppnToBlock newPpn
    · rw [← hne, Function.update_self, Function.update_self]
      exact ⟨rfl, BlockState.noConfusion⟩
    · rw [Function.update_of_ne hne, Function.update_self]
      exact ⟨rfl, h.good⟩
  refine ⟨d, _, hmove, ?_, rfl, rfl, fun b' hne hne' => ?_, fun hne => ?_⟩
  · rw [allocPhyPage_frame ha] at hinv ⊢
    exact {
      inv := hinv
      table := by
        rw [remap_l2pTable]
        dsimp only
        rw [h.table, Function.update_idem]
      erases := hblock.1.trans h.erases
      good := hblock.2
      type := h.type
      algo := h.algo
      sinceCheck := h.sinceCheck }
  · rw [remap_nand, Nand.program_blocks, Function.update_of_ne hne', hother b' hne]
  · rw [remap_nand, Nand.program_blocks, Function.update_self, hother _ hne]

/-- The logical page has come to the page `p` of the block of the write cursor, right behind the
    cursor. -/
structure Walk (c : Store) (s₀ : Ftl) (lpn b p : ℕ) (s : Ftl) : Prop
    extends Collecting c s₀ lpn b (blockPageToPpn b p) s where
  block : s.curWriteBlock = b
  page : s.curWritePage = p + 1
  others : ∀ b', b' ≠ b → s.nand.blocks b' = s₀.nand.blocks b'

/-- One step of the walk. -/
theorem Walk.step (h : Walk c s₀ lpn b p s) (hb : b < totalBlocks) (hp : p + 1 < pagesPerBlock)
    (buf : PageData) :
    ∃ d s', s.gcMovePage b p lpn buf = (.ok, d, s') ∧ Walk c s₀ lpn b (p + 1) s' := by
  have ha : s.allocPhyPage =
      some (blockPageToPpn b (p + 1), { s with curWritePage := p + 1 + 1 }) := by
    rw [allocPhyPage, h.page, if_pos hp, h.block]
  obtain ⟨d, s', hmove, h', hblock, hpage, hothers, _⟩ := h.move hb (Nat.lt_of_succ_lt hp) ha
    (by rw [ppnToBlock_mk hb hp]; exact h.good) buf
  rw [ppnToBlock_mk hb hp] at hothers
  refine ⟨d, s', hmove, h', hblock.trans h.block, hpage, fun b' hne => ?_⟩
  rw [hothers b' hne hne, h.others b' hne]

/-- The logical page has left the block for the first page of the block `b'`. -/
structure Departed (c : Store) (s₀ : Ftl) (lpn b b' : ℕ) (s : Ftl) : Prop
    extends Collecting c s₀ lpn b (blockPageToPpn b' 0) s where
  block : s.curWriteBlock = b'
  page : s.curWritePage = 1
  others : ∀ i, i ≠ b → i ≠ b' → s.nand.blocks i = s₀.nand.blocks i
  next : s.nand.blocks b' = (s₀.nand.blocks b').program 0

/-- The last step of the walk. -/
theorem Walk.depart (h : Walk c s₀ lpn b 255 s) (hb : b < totalBlocks) (hb' : b' < totalBlocks)
    (hne : b' ≠ b) (hnext : s.findNextFreeBlock ((b + 1) % 2 ^ 32) = some b') (buf : PageData) :
    ∃ d s', s.gcMovePage b 255 lpn buf = (.ok, d, s') ∧ Departed c s₀ lpn b b' s' := by
  have ha : s.allocPhyPage =
      some (blockPageToPpn b' 0, { s with curWriteBlock := b', curWritePage := 1 }) := by
    rw [allocPhyPage, h.page, if_neg (Nat.lt_irrefl _), h.block, hnext]
  have hfree := (findNextFreeBlock_spec hnext).2
  obtain ⟨d, s', hmove, h', hblock, hpage, hothers, hprog⟩ := h.move hb (by decide) ha
    (by rw [ppnToBlock_mk hb' (by decide), hfree]; exact BlockState.noConfusion) buf
  rw [ppnToBlock_mk hb' (by decide)] at hothers hprog
  rw [ppnToPage_mk hb' (by decide)] at hprog
  refine ⟨d, s', hmove, h', hblock, hpage, fun i hi hi' => ?_, ?_⟩
  · rw [hothers i hi hi', h.others i hi]
  · rw [hprog hne, h.others b' hne]

/-- The page that the logical page has come to is valid, and mapped back to it. -/
theorem Walk.mapped (h : Walk c s₀ lpn b p s) (hb : b < totalBlocks) (hp : p < pagesPerBlock) :
    s.nand.isPageValid b p = true ∧ s.reverseMap (blockPageToPpn b p) = some lpn := by
  have hl : s.l2pTable lpn = some (blockPageToPpn b p) := by
    rw [h.table, Function.update_self]
  obtain ⟨d, _, hold⟩ := h.inv.mapped _ _ hl
  rw [HoldsAt, ppnToBlock_mk hb hp, ppnToPage_mk hb hp] at hold
  refine ⟨?_, (h.inv.lookup _ _).1 hl⟩
  simp [Nand.isPageValid, hold.blockValid, hold.page_lt, hold.valid]

/-- The whole walk, by induction on the number of pages ahead. -/
theorem Walk.recyclePages {k : ℕ} (hb : b < totalBlocks) (hb' : b' < totalBlocks) (hne : b' ≠ b)
    (hnext : ∀ s, Walk c s₀ lpn b 255 s → s.findNextFreeBlock ((b + 1) % 2 ^ 32) = some b')
    (hk : p + k = 255) (h : Walk c s₀ lpn b p s) (buf : PageData) :
    ∃ s', Ftl.recyclePages b buf (List.range' p (k + 1)) s = (.ok, s') ∧
      Departed c s₀ lpn b b' s' := by
  induction k generalizing p s buf with
  | zero =>
    obtain rfl : p = 255 := hk
    obtain ⟨hv, hr⟩ := h.mapped hb (by decide)
    obtain ⟨d, s', hmove, h'⟩ := h.depart hb hb' hne (hnext s h) buf
    refine ⟨s', ?_, h'⟩
    rw [List.range'_one, recyclePages_move hv hr hmove]
    rfl
  | succ k ih =>
    have hp : p + 1 < pagesPerBlock := by
      simp only [pagesPerBlock]
      omega
    obtain ⟨hv, hr⟩ := h.mapped hb (Nat.lt_of_succ_lt hp)
    obtain ⟨d, s', hmove, h'⟩ := h.step hb hp buf
    obtain ⟨s'', hrecycle, h''⟩ := ih (by omega) h' d
    refine ⟨s'', ?_, h''⟩
    rw [List.range'_succ, recyclePages_move hv hr hmove, hrecycle]

/-- The layout after a garbage collection of the block `b` of the write cursor has moved the
    logical page `lpn` to the block `b'`. -/
structure Layout.Collected (L : Layout) (lpn b b' : ℕ) (L' : Layout) : Prop where
  table : L'.table = Function.update L.table lpn (some (blockPageToPpn b' 0))
  block : L'.block = b'
  page : L'.page = 1
  erases : L'.erases = Function.update L.erases b (L.erases b + 1)
  sinceCheck : L'.sinceCheck = L.sinceCheck

/-- The block that the logical page has left, on a device that was calm, is erased. -/
theorem Departed.erase (h : Departed c s₀ lpn b b' s) (h₀ : Calm c L s₀) (hb : b < totalBlocks)
    (hb' : b' < totalBlocks) (hp : p < pagesPerBlock) (hne : b' ≠ b) (hempty : L.Empty b')
    (hl : L.table lpn = some (blockPageToPpn b p))
    (hsole : ∀ lpn' ppn, L.table lpn' = some ppn → ppnToBlock ppn = b → lpn' = lpn)
    (herases : L.erases b ≤ getEraseThreshold .tlc) :
    s.nand.blockErase b = (.ok, s.nand.erase b) ∧
      ∃ L', L.Collected lpn b b' L' ∧ Calm c L' { s with nand := s.nand.erase b } := by
  have hlt : 0 < pagesPerBlock := by decide
  have htable : s.l2pTable = Function.update L.table lpn (some (blockPageToPpn b' 0)) := by
    rw [h.table, h₀.table]
  have herase : s.nand.blockErase b = (.ok, s.nand.erase b) := by
    refine Nand.blockErase_of_unworn (h.inv.isBlockValid hb) h.good ?_
    rw [h.erases, h.type, h₀.erases b hb, h₀.type]
    exact herases
  have hun : ∀ lpn' ppn, s.l2pTable lpn' = some ppn → ppnToBlock ppn ≠ b := by
    intro lpn' ppn hl'
    rw [htable, Function.update_apply] at hl'
    split at hl'
    · rw [← Option.some_inj.1 hl', ppnToBlock_mk hb' hlt]
      exact hne
    · next hlpn => exact fun hblock => hlpn (hsole lpn' ppn hl' hblock)
  have hinv := h.inv.blockErase hun
  rw [Set.empty_sdiff, herase] at hinv
  -- A property of the three kinds of blocks.
  have hcases {P : ℕ → PhyBlock → Prop} (hPb : P b (s.nand.blocks b).erase)
      (hPb' : P b' ((s₀.nand.blocks b').program 0))
      (hPother : ∀ i, i ≠ b → i ≠ b' → i < totalBlocks → P i (s₀.nand.blocks i)) :
      ∀ i < totalBlocks, P i ((s.nand.erase b).blocks i) := by
    intro i hi
    rw [Nand.erase_blocks, Function.update_apply]
    split
    · next hib =>
      rw [hib]
      exact hPb
    · next hib =>
      by_cases hib' : i = b'
      · rw [hib', h.next]
        exact hPb'
      · rw [h.others i hib hib']
        exact hPother i hib hib' hi
  have hvb' : ∀ q < pagesPerBlock, (s₀.nand.blocks b').pageValid q = false := fun q hq =>
    h₀.invalid hb' hq fun lpn' hl' => hempty lpn' _ hl' (ppnToBlock_mk hb' hq)
  refine ⟨herase, { L with
    table := Function.update L.table lpn (some (blockPageToPpn b' 0))
    block := b'
    page := 1
    erases := Function.update L.erases b (L.erases b + 1)
    reads := fun i => ((s.nand.erase b).blocks i).readCount
    history := (s.nand.erase b).history }, ⟨rfl, rfl, rfl, rfl, rfl⟩, ?_⟩
  exact {
    inv := hinv.park
    consistent := hcases (P := fun _ blk => blk.state ≠ .bad → blk.Exact) (fun _ => .erase)
      (fun _ => (h₀.exact hb').program hlt (hvb' 0 hlt)) fun i _ _ hi _ => h₀.exact hi
    good := hcases (P := fun _ blk => blk.state ≠ .bad) BlockState.noConfusion
      BlockState.noConfusion fun i _ _ hi => h₀.good i hi
    tight := by
      refine hcases (P := fun i blk => ∀ q < pagesPerBlock, blk.pageValid q →
        s.reverseMap (blockPageToPpn i q) ≠ none) (fun q _ hv => absurd hv Bool.false_ne_true) ?_ ?_
      · intro q hq hv
        rw [PhyBlock.program_pageValid, Function.update_apply] at hv
        split at hv
        · next hq0 =>
          have hl' : s.l2pTable lpn = some (blockPageToPpn b' 0) := by
            rw [htable, Function.update_self]
          rw [hq0, (h.inv.lookup _ _).1 hl']
          exact Option.some_ne_none _
        · rw [hvb' q hq] at hv
          exact absurd hv Bool.false_ne_true
      · intro i hib _ hi q hq hv
        -- The page is mapped, as before the collection.
        obtain ⟨lpn', hr⟩ := Option.ne_none_iff_exists'.1 (h₀.tight i hi q hq hv)
        have hl' := (h₀.inv.lookup _ _).2 hr
        have hlpn : lpn' ≠ lpn := by
          rintro rfl
          have heq := (h₀.table ▸ hl').symm.trans hl
          rw [Option.some_inj] at heq
          exact hib (Prod.mk.inj (blockPageToPpn_inj hi hq hb hp heq)).1
        have hl'' : s.l2pTable lpn' = some (blockPageToPpn i q) := by
          rw [h.table, Function.update_of_ne hlpn]
          exact hl'
        rw [(h.inv.lookup _ _).1 hl'']
        exact Option.some_ne_none _
    table := htable
    block := h.block
    page := h.page
    erases := by
      refine hcases (P := fun i blk => blk.eraseCount =
        Function.update L.erases b (L.erases b + 1) i) ?_ ?_ ?_
      · rw [Function.update_self, PhyBlock.erase_eraseCount, h.erases, h₀.erases b hb]
      · rw [Function.update_of_ne hne, PhyBlock.program_eraseCount, h₀.erases b' hb']
      · intro i hib _ hi
        rw [Function.update_of_ne hib, h₀.erases i hi]
    reads := fun _ _ => rfl
    history := rfl
    sinceCheck := h.sinceCheck.trans h₀.sinceCheck
    algo := h.algo.trans h₀.algo
    type := h.type.trans h₀.type }

/-- A garbage collection whose victim is the block of the write cursor, if there is nothing in the
    block but a page right behind the cursor, moves this page to the next free block. -/
theorem Calm.triggerGc_walk (h : Calm c L s) (hinv : Inv ∅ c s) (hb : b < totalBlocks)
    (hb' : b' < totalBlocks) (hp : p < pagesPerBlock) (hne : b' ≠ b)
    (hl : L.table lpn = some (blockPageToPpn b p)) (hblock : L.block = b) (hpage : L.page = p + 1)
    (hsole : ∀ lpn' ppn, L.table lpn' = some ppn → ppnToBlock ppn = b → lpn' = lpn)
    (hvictim : s.gcSelectVictimBlock = some b)
    (hnext : s.findNextFreeBlock ((b + 1) % 2 ^ 32) = some b') (hempty : L.Empty b')
    (herases : L.erases b ≤ getEraseThreshold .tlc) :
    ∃ L' s', s.triggerGc = (.ok, s') ∧ L.Collected lpn b b' L' ∧ Calm c L' s' ∧ Inv ∅ c s' := by
  have hl' : s.l2pTable lpn = some (blockPageToPpn b p) := by rw [h.table, hl]
  -- The other pages of the block are not valid.
  have hskip : ∀ q ∈ List.range p, s.nand.isPageValid b q = false := by
    intro q hq
    have hqp := List.mem_range.1 hq
    have hq' := Nat.lt_trans hqp hp
    rw [Nand.isPageValid, h.invalid hb hq' fun lpn' hl'' => ?_, Bool.and_false]
    obtain rfl := hsole lpn' _ hl'' (ppnToBlock_mk hb hq')
    rw [hl, Option.some_inj] at hl''
    exact hqp.ne (Prod.mk.inj (blockPageToPpn_inj hb hq' hb hp hl''.symm)).2
  have hstart : Walk c { s with gcCount := s.gcCount + 1 } lpn b p
      { s with gcCount := s.gcCount + 1 } := {
    inv := hinv.congr rfl
    table := by
      dsimp only
      rw [← hl', Function.update_eq_self]
    erases := rfl
    good := h.good b hb
    type := rfl
    algo := rfl
    sinceCheck := rfl
    block := h.block.trans hblock
    page := h.page.trans hpage
    others := fun _ _ => rfl }
  have hused := h.used hl
  rw [ppnToBlock_mk hb hp] at hused
  -- On the way, the same blocks are free.
  have hnext' : ∀ s', Walk c { s with gcCount := s.gcCount + 1 } lpn b 255 s' →
      s'.findNextFreeBlock ((b + 1) % 2 ^ 32) = some b' := by
    intro s' hs'
    rw [← hnext]
    refine findNextFreeBlock_congr fun i => ?_
    by_cases hi : i < totalBlocks
    · rw [Nand.getBlockState_of_lt hs'.inv.on hi, Nand.getBlockState_of_lt hinv.on hi]
      by_cases hib : i = b
      · have hv := (hs'.mapped hb (by decide)).1
        simp only [Nand.isPageValid, Bool.and_eq_true, decide_eq_true_eq] at hv
        have hne := (hs'.inv.counted b hb (Set.notMem_empty _)).state_ne_free (by decide) hv.2
        rw [hib, hused]
        exact iff_of_false hne BlockState.noConfusion
      · rw [hs'.others i hib]
    · have hout (n : Nand) : n.getBlockState i = .bad :=
        if_neg fun hvalid => hi (Nand.isBlockValid_iff.1 hvalid).1
      rw [hout, hout]
  have hk : p + (pagesPerBlock - (p + 1)) = 255 := by
    simp only [pagesPerBlock] at hp ⊢
    omega
  obtain ⟨s', hrecycle, hs'⟩ := hstart.recyclePages hb hb' hne hnext' hk blankPage
  obtain ⟨herase, L', hL', h'⟩ :=
    hs'.erase h.countGc hb hb' hp hne hempty hl hsole herases
  have hgc := gcDoRecycle_of_ok hvictim (by
    rw [range_pagesPerBlock hp, recyclePages_skip (s := { s with gcCount := s.gcCount + 1 }) _ _ hskip,
      ← List.range'_succ]
    exact hrecycle) herase
  have htrigger : s.triggerGc = s.gcDoRecycle := by
    rw [triggerGc, if_neg (not_not.2 h.inv.started)]
  have hinv' := (gcDoRecycle_inv .trivial hinv True.intro).1
  rw [hgc] at hinv'
  exact ⟨L', _, htrigger.trans hgc, hL', h', hinv'⟩

end Ftl

end FtlFirmware
