import FtlFirmware.Ftl.Invariant

/-!
# Garbage collection keeps the contents

A garbage collection moves pages from one physical page to another, and leaves the contents of
the device as they are (`gcDoRecycle_inv`, `gcUntilSpace_inv`), along with whatever else its
parts keep (`MoveStable`, `GcStable`).

The collection may move the pages of the block of the write cursor, into the block itself. Such
a page goes to a page further ahead, so the collection meets it again, until it leaves the block.
This is why the cursor must have only invalid pages ahead.
-/

namespace FtlFirmware

namespace Ftl

variable {X : Set ℕ} {c : Store} {s s' : Ftl} {b p lpn ppn victim page : ℕ} {d : PageData}
  {R : Ftl → Prop}

/-! ## Taking a page -/

/-- The page `ppn` has just been taken: it is right behind the write cursor, and no page from it
    on is valid. -/
structure Taken (s : Ftl) (ppn : ℕ) : Prop where
  block : ppnToBlock ppn = s.curWriteBlock
  page : ppnToPage ppn + 1 = s.curWritePage
  ahead : ∀ q, ppnToPage ppn ≤ q → q < pagesPerBlock →
    (s.nand.blocks (ppnToBlock ppn)).pageValid q = false

/-- The two ways of taking a page. -/
theorem allocPhyPage_cases (ha : s.allocPhyPage = some (ppn, s')) :
    (s.curWritePage < pagesPerBlock ∧ ppn = blockPageToPpn s.curWriteBlock s.curWritePage ∧
      s' = { s with curWritePage := s.curWritePage + 1 }) ∨
    (pagesPerBlock ≤ s.curWritePage ∧ ∃ b,
      s.findNextFreeBlock ((s.curWriteBlock + 1) % 2 ^ 32) = some b ∧ ppn = blockPageToPpn b 0 ∧
      s' = { s with curWriteBlock := b, curWritePage := 1 }) := by
  rw [allocPhyPage] at ha
  split at ha
  · next hlt =>
    obtain ⟨rfl, rfl⟩ := Prod.mk.inj (Option.some_inj.1 ha)
    exact Or.inl ⟨hlt, rfl, rfl⟩
  · next hge =>
    cases hf : s.findNextFreeBlock ((s.curWriteBlock + 1) % 2 ^ 32) with
    | none =>
      rw [hf] at ha
      exact absurd ha.symm (Option.some_ne_none _)
    | some b =>
      rw [hf] at ha
      obtain ⟨rfl, rfl⟩ := Prod.mk.inj (Option.some_inj.1 ha)
      exact Or.inr ⟨Nat.le_of_not_lt hge, b, rfl, rfl, rfl⟩

/-- Taking a page only moves the write cursor. -/
theorem allocPhyPage_frame (ha : s.allocPhyPage = some (ppn, s')) :
    s' = { s with curWriteBlock := s'.curWriteBlock, curWritePage := s'.curWritePage } := by
  rcases allocPhyPage_cases ha with ⟨_, _, rfl⟩ | ⟨_, _, _, _, rfl⟩ <;> rfl

/-- Taking a page keeps the contents. -/
theorem Inv.take (h : Inv ∅ c s) (ha : s.allocPhyPage = some (ppn, s')) :
    Inv ∅ c s' ∧ s'.Taken ppn := by
  rcases allocPhyPage_cases ha with ⟨hlt, rfl, rfl⟩ | ⟨_, b, hf, rfl, rfl⟩
  · refine ⟨{ h with
      page_le := hlt
      ahead := fun q hq => h.ahead q (Nat.le_of_succ_le hq) }, ppnToBlock_mk h.block_lt hlt, ?_, ?_⟩
    · rw [ppnToPage_mk h.block_lt hlt]
    · rw [ppnToPage_mk h.block_lt hlt, ppnToBlock_mk h.block_lt hlt]
      exact h.ahead
  · obtain ⟨hvalid, hfree⟩ := findNextFreeBlock_spec hf
    have hb := (Nand.isBlockValid_iff.1 hvalid).1
    refine ⟨{ h with
      block_lt := hb
      page_le := show 1 ≤ pagesPerBlock by decide
      ahead := fun q _ hlt => h.invalid_of_free hb hfree hlt }, ppnToBlock_mk hb (by decide), ?_, ?_⟩
    · rw [ppnToPage_mk hb (by decide)]
    · rw [ppnToBlock_mk hb (by decide)]
      exact fun q _ hlt => h.invalid_of_free hb hfree hlt

/-- The page taken is not mapped. -/
theorem Taken.reverseMap (ht : s.Taken ppn) (h : Inv X c s) : s.reverseMap ppn = none :=
  h.reverseMap_of_invalid (ht.ahead _ le_rfl ppnToPage_lt)

/-- The page taken can be programmed, unless its block is bad. -/
theorem Taken.accessible (ht : s.Taken ppn) (h : Inv X c s)
    (hgood : (s.nand.blocks (ppnToBlock ppn)).state ≠ .bad) :
    s.nand.Accessible (ppnToBlock ppn) (ppnToPage ppn) :=
  ⟨h.isBlockValid (ht.block ▸ h.block_lt), ppnToPage_lt, hgood⟩

/-! ## Garbage collection -/

/-- The victim is a used block. -/
theorem mem_blocksIn {n : Nand} {st : BlockState} {l : List ℕ} (hb : b ∈ n.blocksIn st l) :
    n.getBlockState b = st :=
  of_decide_eq_true (List.mem_filter.1 hb).2

/-- The victim is a used block of the device. -/
theorem gcSelectVictimBlock_spec (hv : s.gcSelectVictimBlock = some victim) :
    s.nand.isBlockValid victim ∧ (s.nand.blocks victim).state = .used := by
  have hused {l : List ℕ} (hl : ∀ i ∈ l, s.nand.getBlockState i = .used)
      (hv : s.fewestValidPages l = some victim) : s.nand.getBlockState victim = .used :=
    hl victim (scan_mem hv)
  have hgreedy (hv : s.gcSelectGreedy = some victim) : s.nand.getBlockState victim = .used :=
    hused (fun _ => mem_blocksIn) hv
  refine (Nand.getBlockState_eq (by decide)).1 ?_
  rw [gcSelectVictimBlock] at hv
  split at hv
  · exact hgreedy hv
  · rw [gcSelectCostBenefit] at hv
    exact mem_blocksIn (scan_mem hv)
  · rw [gcSelectCat] at hv
    exact mem_blocksIn (scan_mem hv)
  · unfold gcSelectWindowed at hv
    dsimp only at hv
    split at hv
    · next hw => exact hused (fun _ => mem_blocksIn) (hw.trans hv)
    · exact hgreedy hv
  · rw [gcSelectDChoices] at hv
    split at hv
    · exact hgreedy hv
    · next hlen =>
      refine hused (fun i hi => ?_) hv
      obtain ⟨j, _, rfl⟩ := List.mem_map.1 hi
      have hpos : 0 < s.nand.usedBlocks.length :=
        Nat.lt_of_lt_of_le (by decide) (Nat.le_of_not_lt hlen)
      rw [List.getD_eq_getElem?_getD, List.getElem?_eq_getElem (Nat.mod_lt _ hpos)]
      exact mem_blocksIn (List.getElem_mem _)
  · rw [gcSelectFra] at hv
    split at hv
    · next hw => exact mem_blocksIn (List.mem_of_find?_eq_some (hw.trans hv))
    · exact hgreedy hv

/-- The property `R` of the device, besides its contents, is kept by the parts of a garbage
    collection up to the erase: reading a page, and moving a logical page to one that has been
    taken, or giving up as the block of this page is bad. -/
structure MoveStable (c : Store) (R : Ftl → Prop) : Prop where
  count : ∀ s k, R s → R { s with gcCount := k }
  read : ∀ s b ecc, R s → R { s with nand := s.nand.countRead b ecc }
  giveUp : ∀ s ppn s', Inv ∅ c s → R s → s.allocPhyPage = some (ppn, s') →
    (s.nand.blocks (ppnToBlock ppn)).state = .bad → R s'
  move : ∀ s lpn oldPpn newPpn s' d j k, Inv ∅ c s → R s → s.allocPhyPage = some (newPpn, s') →
    s.nand.Accessible (ppnToBlock newPpn) (ppnToPage newPpn) → s.l2pTable lpn = some oldPpn →
    R (remap { s' with
      nand := s'.nand.program (ppnToBlock newPpn) (ppnToPage newPpn) d
      nandWritePages := j
      gcMovedPages := k } lpn oldPpn newPpn)

/-- The property `R` is kept by all parts of a garbage collection: also by erasing a block to which
    nothing is mapped. -/
structure GcStable (c : Store) (R : Ftl → Prop) : Prop extends MoveStable c R where
  erase : ∀ s b, Inv ∅ c s → R s →
    (∀ lpn ppn, s.l2pTable lpn = some ppn → ppnToBlock ppn ≠ b) →
    R { s with nand := (s.nand.blockErase b).2 }

/-- The next free block depends on which blocks are free. -/
theorem findNextFreeBlock_congr {start : ℕ}
    (hfree : ∀ i, s'.nand.getBlockState i = .free ↔ s.nand.getBlockState i = .free) :
    s'.findNextFreeBlock start = s.findNextFreeBlock start := by
  simp only [findNextFreeBlock, hfree]

/-- Taking a page does not look at the number of reads. -/
theorem allocPhyPage_countRead (ha : s.allocPhyPage = some (ppn, s')) (ecc : EccResult) :
    allocPhyPage { s with nand := s.nand.countRead b ecc } =
      some (ppn, { s' with nand := s.nand.countRead b ecc }) := by
  have hstate (i : ℕ) : (s.nand.countRead b ecc).getBlockState i = s.nand.getBlockState i := by
    rw [Nand.getBlockState, Nand.getBlockState, Nand.countRead_blocks, Function.update_apply]
    by_cases hi : i = b
    · rw [if_pos hi, PhyBlock.countRead_state, hi]
      rfl
    · rw [if_neg hi]
      rfl
  rw [allocPhyPage, findNextFreeBlock_congr (s := s) fun i => by rw [hstate]]
  rcases allocPhyPage_cases ha with ⟨hlt, rfl, rfl⟩ | ⟨hge, nextBlock, hf, rfl, rfl⟩
  · rw [if_pos hlt]
  · rw [if_neg (Nat.not_lt.2 hge), hf]

/-- Moving a page of the victim that holds its data, if the page taken can be programmed. -/
theorem gcMovePage_eq {newPpn : ℕ} (buf : PageData) (hold : s.nand.Holds victim page d)
    (ha : s.allocPhyPage = some (newPpn, s'))
    (hacc : s.nand.Accessible (ppnToBlock newPpn) (ppnToPage newPpn))
    (hv : (s.nand.blocks (ppnToBlock newPpn)).pageValid (ppnToPage newPpn) = false) :
    s.gcMovePage victim page lpn buf = (.ok, d, remap { s' with
      nand := (s.nand.countRead victim .ok).program (ppnToBlock newPpn) (ppnToPage newPpn) d
      nandWritePages := s'.nandWritePages + 1
      gcMovedPages := s'.gcMovedPages + 1 } lpn (blockPageToPpn victim page) newPpn) := by
  have hblock : ((s.nand.countRead victim .ok).blocks (ppnToBlock newPpn)).state =
      (s.nand.blocks (ppnToBlock newPpn)).state ∧
      ((s.nand.countRead victim .ok).blocks (ppnToBlock newPpn)).pageValid =
        (s.nand.blocks (ppnToBlock newPpn)).pageValid := by
    rw [Nand.countRead_blocks, Function.update_apply]
    by_cases hb : ppnToBlock newPpn = victim
    · rw [if_pos hb, hb]
      exact ⟨rfl, rfl⟩
    · rw [if_neg hb]
      exact ⟨rfl, rfl⟩
  have hacc' : (s.nand.countRead victim .ok).Accessible (ppnToBlock newPpn) (ppnToPage newPpn) :=
    ⟨hacc.blockValid, hacc.page_lt, hblock.1 ▸ hacc.good⟩
  rw [gcMovePage, hold.pageRead]
  dsimp only
  rw [allocPhyPage_countRead ha]
  dsimp only
  rw [Nand.pageWrite_of_invalid hacc' (hblock.2 ▸ hv)]

/-- Moving a page of the victim keeps the contents. If it succeeds, the page is not mapped any
    more, and those before it, if they were not, still are not. -/
theorem gcMovePage_inv (buf : PageData) (hR : MoveStable c R) (h : Inv ∅ c s) (hs : R s)
    (hb : victim < totalBlocks) (hp : page < pagesPerBlock)
    (hr : s.reverseMap (blockPageToPpn victim page) = some lpn) :
    ∃ ret d s', s.gcMovePage victim page lpn buf = (ret, d, s') ∧ Inv ∅ c s' ∧ R s' ∧
      (ret = .ok → (∀ q < page, s.reverseMap (blockPageToPpn victim q) = none) →
        ∀ q < page + 1, s'.reverseMap (blockPageToPpn victim q) = none) := by
  obtain ⟨hl, d, hd, hold⟩ := h.of_reverseMap hr
  have hold' : s.nand.Holds victim page d := by
    rwa [HoldsAt, ppnToBlock_mk hb hp, ppnToPage_mk hb hp] at hold
  have hread := h.countRead (b := victim) .ok
  have hRread := hR.read s victim .ok hs
  rw [gcMovePage, hold'.pageRead]
  dsimp only
  cases ha : allocPhyPage { s with nand := s.nand.countRead victim .ok } with
  | none => exact ⟨_, _, _, rfl, hread, hRread, fun hret => absurd hret (by decide)⟩
  | some taken =>
    obtain ⟨newPpn, s₁⟩ := taken
    obtain ⟨h₁, ht⟩ := hread.take ha
    have hnand : s₁.nand = s.nand.countRead victim .ok := by rw [allocPhyPage_frame ha]
    have hmaps : s₁.l2pTable = s.l2pTable ∧ s₁.reverseMap = s.reverseMap := by
      rw [allocPhyPage_frame ha]
      exact ⟨rfl, rfl⟩
    dsimp only
    rcases s₁.nand.pageWrite_cases (ppnToBlock newPpn) (ppnToPage newPpn) d with
      ⟨hacc, hv, hw⟩ | ⟨ret, hret, hw, _⟩
    · rw [hw]
      -- The page taken lies behind the page moved, if it is in the same block.
      have hne : ∀ q < page + 1, blockPageToPpn victim q ≠ newPpn := by
        rintro q hq rfl
        have hq' : q < pagesPerBlock := Nat.lt_of_lt_of_le hq hp
        have hvalid := hold'.valid
        have hahead := ht.ahead page
        rw [ppnToBlock_mk hb hq', ppnToPage_mk hb hq', hnand, Nand.countRead_blocks,
          Function.update_self, PhyBlock.countRead_pageValid, hvalid] at hahead
        exact absurd (hahead (Nat.le_of_lt_succ hq) hp) (by decide)
      have hold₁ : HoldsAt s₁.nand (blockPageToPpn victim page) d := by
        rw [hnand]
        exact Nand.Holds.countRead hold .ok
      have hprog := h₁.program (d := d) hacc hv (Set.notMem_empty _) fun _ =>
        ht.page ▸ Nat.lt_succ_self _
      have hprog' : Inv ∅ c { s₁ with
          nand := s₁.nand.program (ppnToBlock newPpn) (ppnToPage newPpn) d
          nandWritePages := s₁.nandWritePages + 1
          gcMovedPages := s₁.gcMovedPages + 1 } := hprog.congr rfl
      have hmove := hprog'.remap (hmaps.1 ▸ hl) hd (Nand.holds_program hacc) (ht.reverseMap h₁)
      refine ⟨_, _, _, rfl, hmove,
        hR.move _ _ _ _ _ _ _ _ hread hRread ha (hnand ▸ hacc) hl, fun _ hdone q hq => ?_⟩
      rw [remap_reverseMap]
      rcases Nat.lt_succ_iff_lt_or_eq.1 hq with hlt | rfl
      · rw [Function.update_apply]
        split
        · rfl
        · rw [Function.update_of_ne (hne q hq), hmaps.2]
          exact hdone q hlt
      · exact Function.update_self _ _ _
    · rw [hw]
      have hbad : (s₁.nand.blocks (ppnToBlock newPpn)).state = .bad := by
        by_contra hgood
        rw [Nand.pageWrite_of_invalid (ht.accessible h₁ hgood) (ht.ahead _ le_rfl ppnToPage_lt)]
          at hw
        exact hret (congrArg Prod.fst hw).symm
      have hR₁ := hR.giveUp _ _ _ hread hRread ha (hnand ▸ hbad)
      cases ret with
      | ok => exact absurd rfl hret
      | _ => exact ⟨_, _, _, rfl, h₁, hR₁, fun hret => absurd hret (by decide)⟩

/-- Moving the pages of the victim from the page `p` on. If it succeeds, nothing is mapped to the
    victim any more. -/
theorem recyclePages_inv (buf : PageData) (hR : MoveStable c R) (hb : victim < totalBlocks) {k : ℕ}
    (hk : p + k = pagesPerBlock) (h : Inv ∅ c s) (hs : R s)
    (hdone : ∀ q < p, s.reverseMap (blockPageToPpn victim q) = none) :
    ∃ ret s', recyclePages victim buf (List.range' p k) s = (ret, s') ∧ Inv ∅ c s' ∧ R s' ∧
      (ret = .ok → ∀ q < pagesPerBlock, s'.reverseMap (blockPageToPpn victim q) = none) := by
  induction k generalizing p s buf with
  | zero =>
    obtain rfl : p = pagesPerBlock := hk
    exact ⟨_, _, rfl, h, hs, fun _ => hdone⟩
  | succ k ih =>
    have hp : p < pagesPerBlock := by omega
    have hk' : p + 1 + k = pagesPerBlock := by omega
    rw [List.range'_succ, recyclePages]
    split
    · next hv =>
      -- An invalid page is not mapped.
      refine ih _ hk' h hs fun q hq => ?_
      rcases Nat.lt_succ_iff_lt_or_eq.1 hq with hlt | rfl
      · exact hdone q hlt
      · refine h.reverseMap_of_invalid ?_
        rw [ppnToBlock_mk hb hp, ppnToPage_mk hb hp]
        simpa [Nand.isPageValid, h.isBlockValid hb, hp] using hv
    · cases hr : s.reverseMap (blockPageToPpn victim p) with
      | none =>
        refine ih _ hk' h hs fun q hq => ?_
        rcases Nat.lt_succ_iff_lt_or_eq.1 hq with hlt | rfl
        · exact hdone q hlt
        · exact hr
      | some lpn =>
        obtain ⟨ret, d, s', hmove, h', hs', hdone'⟩ := gcMovePage_inv buf hR h hs hb hp hr
        dsimp only
        rw [hmove]
        cases ret with
        | ok => exact ih _ hk' h' hs' (hdone' rfl hdone)
        | _ => exact ⟨_, _, rfl, h', hs', fun hret => absurd hret (by decide)⟩

/-- Pages that are not valid are skipped. -/
theorem recyclePages_skip {skipped : List ℕ} (pages : List ℕ) (buf : PageData)
    (hv : ∀ p ∈ skipped, s.nand.isPageValid victim p = false) :
    recyclePages victim buf (skipped ++ pages) s = recyclePages victim buf pages s := by
  induction skipped with
  | nil => rfl
  | cons page skipped ih =>
    rw [List.cons_append, recyclePages, hv page List.mem_cons_self]
    exact ih fun p hp => hv p (List.mem_cons_of_mem _ hp)

/-- A mapped page is moved. -/
theorem recyclePages_move {pages : List ℕ} {buf : PageData}
    (hv : s.nand.isPageValid victim page = true)
    (hr : s.reverseMap (blockPageToPpn victim page) = some lpn)
    (hmove : s.gcMovePage victim page lpn buf = (.ok, d, s')) :
    recyclePages victim buf (page :: pages) s = recyclePages victim d pages s' := by
  rw [recyclePages, if_neg (not_not.2 hv), hr]
  dsimp only
  rw [hmove]

/-- A victim that has been emptied is erased. -/
theorem gcDoRecycle_of_ok {n : Nand} {ret : RetCode} (hvictim : s.gcSelectVictimBlock = some victim)
    (hrecycle : recyclePages victim blankPage (List.range pagesPerBlock)
      { s with gcCount := s.gcCount + 1 } = (.ok, s')) (herase : s'.nand.blockErase victim = (ret, n)) :
    s.gcDoRecycle = (ret, { s' with nand := n }) := by
  rw [gcDoRecycle, hvictim]
  dsimp only
  rw [hrecycle]
  dsimp only
  rw [herase]

/-- Recycling a victim keeps the contents. -/
theorem gcDoRecycle_inv (hR : GcStable c R) (h : Inv ∅ c s) (hs : R s) :
    Inv ∅ c s.gcDoRecycle.2 ∧ R s.gcDoRecycle.2 := by
  rw [gcDoRecycle]
  cases hv : s.gcSelectVictimBlock with
  | none => exact ⟨h, hs⟩
  | some victim =>
    have hb := (Nand.isBlockValid_iff.1 (gcSelectVictimBlock_spec hv).1).1
    have h₀ : Inv ∅ c { s with gcCount := s.gcCount + 1 } := h.congr rfl
    obtain ⟨ret, s', hrec, h', hs', hdone⟩ := recyclePages_inv blankPage hR.toMoveStable hb
      (Nat.zero_add pagesPerBlock) h₀ (hR.count s _ hs) fun q hq => absurd hq (Nat.not_lt_zero q)
    rw [← List.range_eq_range'] at hrec
    dsimp only
    rw [hrec]
    cases ret with
    | ok =>
      have hun := h'.unmapped_block hb (hdone rfl)
      have herase := h'.blockErase hun
      rw [Set.empty_sdiff] at herase
      exact ⟨herase, hR.erase _ _ h' hs' hun⟩
    | _ => exact ⟨h', hs'⟩

/-- Collecting garbage until there are enough free blocks keeps the contents. -/
theorem gcUntilSpace_inv (hR : GcStable c R) {fuel : ℕ} {ret : RetCode} (h : Inv ∅ c s) (hs : R s)
    (hgc : gcUntilSpace fuel s = some (ret, s')) : Inv ∅ c s' ∧ R s' := by
  induction fuel generalizing s with
  | zero =>
    rw [gcUntilSpace] at hgc
    split at hgc
    · exact absurd hgc.symm (Option.some_ne_none _)
    · obtain ⟨rfl, rfl⟩ := Prod.mk.inj (Option.some_inj.1 hgc)
      exact ⟨h, hs⟩
  | succ fuel ih =>
    rw [gcUntilSpace] at hgc
    have hrec := gcDoRecycle_inv hR h hs
    split at hgc
    · split at hgc
      · next heq =>
        rw [heq] at hrec
        exact ih hrec.1 hrec.2 hgc
      · next heq =>
        rw [heq] at hrec
        obtain ⟨rfl, rfl⟩ := Prod.mk.inj (Option.some_inj.1 hgc)
        exact hrec
    · obtain ⟨rfl, rfl⟩ := Prod.mk.inj (Option.some_inj.1 hgc)
      exact ⟨h, hs⟩

end Ftl

end FtlFirmware
