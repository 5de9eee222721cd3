import FtlFirmware.Ftl.Collect

/-!
# Relocating a block keeps the contents

The static wear levelling and the handling of read disturb move the mapped pages of a block to a
free block, page by page (`migratePages_inv`); the replacement of a block first copies its pages
to a block of the reserved area, and then redirects the maps (`replaceBadBlock_inv`). In the new
block, the pages keep their numbers. So if it is the block of the write cursor, a free one,
the pages that are moved must come before the cursor.
-/

namespace FtlFirmware

namespace Ftl

variable {X : Set ℕ} {c : Store} {s s' : Ftl} {b p lpn src dst page : ℕ} {pages : List ℕ}
  {d : PageData}

/-- The pages `pages` of the block `dst` can be programmed, and those mapped in the block `src`
    come before the write cursor, if it is in `dst`. -/
structure Vacant (s : Ftl) (src dst : ℕ) (pages : List ℕ) : Prop where
  ne : dst ≠ src
  accessible : ∀ p ∈ pages, s.nand.Accessible dst p
  invalid : ∀ p ∈ pages, (s.nand.blocks dst).pageValid p = false
  behind : dst = s.curWriteBlock → ∀ p ∈ pages,
    s.reverseMap (blockPageToPpn src p) ≠ none → p < s.curWritePage

/-- A free block has only vacant pages. -/
theorem Inv.vacant (h : Inv ∅ c s) (hvalid : s.nand.isBlockValid dst)
    (hfree : (s.nand.blocks dst).state = .free) (hsrc : (s.nand.blocks src).state ≠ .free)
    (hbehind : dst = s.curWriteBlock → ∀ p < pagesPerBlock,
      s.reverseMap (blockPageToPpn src p) ≠ none → p < s.curWritePage) :
    s.Vacant src dst (List.range pagesPerBlock) where
  ne := fun heq => hsrc (heq ▸ hfree)
  accessible := fun p hp => ⟨hvalid, List.mem_range.1 hp, by rw [hfree]; decide⟩
  invalid := fun p hp =>
    h.invalid_of_free (Nand.isBlockValid_iff.1 hvalid).1 hfree (List.mem_range.1 hp)
  behind := fun hdst p hp => hbehind hdst p (List.mem_range.1 hp)

/-- Fewer pages are vacant, too. -/
theorem Vacant.tail (h : s.Vacant src dst (page :: pages)) : s.Vacant src dst pages where
  ne := h.ne
  accessible := fun p hp => h.accessible p (List.mem_cons_of_mem _ hp)
  invalid := fun p hp => h.invalid p (List.mem_cons_of_mem _ hp)
  behind := fun hdst p hp => h.behind hdst p (List.mem_cons_of_mem _ hp)

/-! ## Migrating pages -/

/-- The device after the page `page` of the block `src`, with the data `d`, has been moved to the
    block `dst`. -/
def migrated (s : Ftl) (src dst page lpn : ℕ) (d : PageData) : Ftl :=
  let n := (s.nand.countRead src .ok).program dst page d
  { s.remap lpn (blockPageToPpn src page) (blockPageToPpn dst page) with
    nand := n.setBlock src ((n.blocks src).invalidate page)
    nandWritePages := s.nandWritePages + 1 }

/-- Moving a page that holds its data to one that can be programmed succeeds. -/
theorem migratePage_eq (buf : PageData) (hold : s.nand.Holds src page d) (hne : dst ≠ src)
    (hacc : s.nand.Accessible dst page) (hv : (s.nand.blocks dst).pageValid page = false) :
    s.migratePage src dst page lpn buf = (.ok, d, s.migrated src dst page lpn d) := by
  have hblocks : (s.nand.countRead src .ok).blocks dst = s.nand.blocks dst := by
    rw [Nand.countRead_blocks, Function.update_of_ne hne]
  have hacc' : (s.nand.countRead src .ok).Accessible dst page :=
    ⟨hacc.blockValid, hacc.page_lt, hblocks ▸ hacc.good⟩
  have hv' : ((s.nand.countRead src .ok).blocks dst).pageValid page = false := hblocks ▸ hv
  have hold' : ((s.nand.countRead src .ok).program dst page d).Holds src page d :=
    (hold.countRead .ok).program hv'
  rw [migratePage, hold.pageRead]
  dsimp only
  rw [Nand.pageWrite_of_invalid hacc' hv']
  dsimp only [remap_nand]
  rw [Nand.markPageInvalid_of_valid hold'.toAccessible hold'.valid]
  rfl

/-- Moving a mapped page to a vacant one succeeds, and keeps the contents. -/
theorem migratePage_inv (buf : PageData) (h : Inv {src} c s) (hsrc : src < totalBlocks)
    (hvac : s.Vacant src dst (page :: pages))
    (hr : s.reverseMap (blockPageToPpn src page) = some lpn) :
    ∃ d, s.nand.Holds src page d ∧
      s.migratePage src dst page lpn buf = (.ok, d, s.migrated src dst page lpn d) ∧
      Inv {src} c (s.migrated src dst page lpn d) := by
  have hacc := hvac.accessible page List.mem_cons_self
  have hv := hvac.invalid page List.mem_cons_self
  have hp := hacc.page_lt
  have hdst := (Nand.isBlockValid_iff.1 hacc.blockValid).1
  obtain ⟨hl, d, hd, hold⟩ := h.of_reverseMap hr
  rw [HoldsAt, ppnToBlock_mk hsrc hp, ppnToPage_mk hsrc hp] at hold
  refine ⟨d, hold, migratePage_eq buf hold hvac.ne hacc hv, ?_⟩
  have hblocks : (s.nand.countRead src .ok).blocks dst = s.nand.blocks dst := by
    rw [Nand.countRead_blocks, Function.update_of_ne hvac.ne]
  have hacc' : (s.nand.countRead src .ok).Accessible dst page :=
    ⟨hacc.blockValid, hp, hblocks ▸ hacc.good⟩
  have hv' : ((s.nand.countRead src .ok).blocks dst).pageValid page = false := hblocks ▸ hv
  have hprog := (h.countRead .ok).program (d := d) hacc' hv' (fun hmem => hvac.ne hmem) fun heq =>
    hvac.behind heq page List.mem_cons_self (by rw [hr]; exact Option.some_ne_none _)
  -- The page programmed is not mapped yet, and the page moved still holds its data.
  have hnew : HoldsAt ((s.nand.countRead src .ok).program dst page d) (blockPageToPpn dst page)
      d := by
    rw [HoldsAt, ppnToBlock_mk hdst hp, ppnToPage_mk hdst hp]
    exact Nand.holds_program hacc'
  have hold' : ((s.nand.countRead src .ok).program dst page d).Holds src page d :=
    (hold.countRead .ok).program hv'
  have hnone : s.reverseMap (blockPageToPpn dst page) = none := by
    refine h.reverseMap_of_invalid ?_
    rw [ppnToBlock_mk hdst hp, ppnToPage_mk hdst hp]
    exact hv
  have hgone : (remap { s with nand := (s.nand.countRead src .ok).program dst page d } lpn
      (blockPageToPpn src page) (blockPageToPpn dst page)).reverseMap
      (blockPageToPpn src page) = none := Function.update_self _ _ _
  have hinv := (hprog.remap hl hd hnew hnone).invalidate hgone (Or.inl (ppnToBlock_mk hsrc hp))
  rw [ppnToBlock_mk hsrc hp, ppnToPage_mk hsrc hp, remap_nand,
    Nand.markPageInvalid_of_valid hold'.toAccessible hold'.valid] at hinv
  exact hinv.congr rfl

/-- Pages that are not valid are skipped. -/
theorem migratePages_skip {skipped : List ℕ} (dst : ℕ) (pages : List ℕ) (buf : PageData)
    (moved : UInt32)
    (hv : ∀ p ∈ skipped, s.nand.isPageValid src p = false) :
    migratePages src dst buf moved (skipped ++ pages) s = migratePages src dst buf moved pages s := by
  induction skipped with
  | nil => rfl
  | cons page skipped ih =>
    rw [List.cons_append, migratePages, hv page List.mem_cons_self]
    exact ih fun p hp => hv p (List.mem_cons_of_mem _ hp)

/-- After a page has been moved, the other ones are still vacant. -/
theorem Vacant.migrated (hvac : s.Vacant src dst (page :: pages)) (hsrc : src < totalBlocks)
    (hnd : (page :: pages).Nodup) : (s.migrated src dst page lpn d).Vacant src dst pages := by
  have hp := (hvac.accessible page List.mem_cons_self).page_lt
  have hdst := (Nand.isBlockValid_iff.1 (hvac.accessible page List.mem_cons_self).blockValid).1
  have hblocks : (s.migrated src dst page lpn d).nand.blocks dst =
      (s.nand.blocks dst).program page := by
    simp [Ftl.migrated, hvac.ne]
  have hne : ∀ p ∈ pages, p ≠ page := fun p hp heq => (List.nodup_cons.1 hnd).1 (heq ▸ hp)
  refine ⟨hvac.ne, fun p hp => ?_, fun p hp => ?_, fun hcur q hq hr => ?_⟩
  · have hacc := hvac.accessible p (List.mem_cons_of_mem _ hp)
    exact ⟨hacc.blockValid, hacc.page_lt, by rw [hblocks]; simp⟩
  · rw [hblocks, PhyBlock.program_pageValid, Function.update_of_ne (hne p hp)]
    exact hvac.invalid p (List.mem_cons_of_mem _ hp)
  · refine hvac.behind hcur q (List.mem_cons_of_mem _ hq) fun hnone => hr ?_
    have hq' := (hvac.accessible q (List.mem_cons_of_mem _ hq)).page_lt
    have hne' : blockPageToPpn src q ≠ blockPageToPpn dst page := fun heq => hvac.ne (by
      rw [← ppnToBlock_mk hsrc hq', heq, ppnToBlock_mk hdst hp])
    simp only [Ftl.migrated, remap_reverseMap, Function.update_apply, hne', if_false, hnone,
      ite_self]

/-- The property `R` of the pages still to be moved and the device is kept when a page is skipped
    and when it is moved. -/
structure MigrateStable (c : Store) (src dst : ℕ) (R : List ℕ → Ftl → Prop) : Prop where
  skip : ∀ page pages s, R (page :: pages) s → R pages s
  move : ∀ page pages s lpn d, Inv {src} c s → s.Vacant src dst (page :: pages) →
    s.nand.Holds src page d → R (page :: pages) s → R pages (s.migrated src dst page lpn d)

/-- Moving pages to vacant ones keeps the contents. Afterwards, nothing is mapped to these
    pages. -/
theorem migratePages_inv {R : List ℕ → Ftl → Prop} (buf : PageData) (moved : UInt32)
    (hR : MigrateStable c src dst R) (h : Inv {src} c s) (hs : R pages s)
    (hsrc : src < totalBlocks) (hvac : s.Vacant src dst pages) (hnd : pages.Nodup)
    (hdone : ∀ p < pagesPerBlock, p ∉ pages → s.reverseMap (blockPageToPpn src p) = none) :
    ∃ s', (migratePages src dst buf moved pages s).2 = s' ∧ Inv {src} c s' ∧ R [] s' ∧
      s'.curWriteBlock = s.curWriteBlock ∧ s'.curWritePage = s.curWritePage ∧
      ∀ p < pagesPerBlock, s'.reverseMap (blockPageToPpn src p) = none := by
  induction pages generalizing s buf moved with
  | nil => exact ⟨s, rfl, h, hs, rfl, rfl, fun p hp => hdone p hp List.not_mem_nil⟩
  | cons page pages ih =>
    have hnd' := (List.nodup_cons.1 hnd).2
    have hp := (hvac.accessible page List.mem_cons_self).page_lt
    -- The pages but the first one, if the first one is not mapped.
    have hskip (hnone : s.reverseMap (blockPageToPpn src page) = none) (buf : PageData)
        (moved : UInt32) := ih buf moved h (hR.skip _ _ _ hs) hvac.tail hnd' fun p hp hmem => by
      rcases eq_or_ne p page with rfl | hne
      · exact hnone
      · exact hdone p hp fun hmem' => hmem ((List.mem_cons.1 hmem').resolve_left hne)
    rw [migratePages]
    split
    · next hv =>
      refine hskip (h.reverseMap_of_invalid ?_) buf moved
      rw [ppnToBlock_mk hsrc hp, ppnToPage_mk hsrc hp]
      simpa [Nand.isPageValid, h.isBlockValid hsrc, hp] using hv
    · cases hr : s.reverseMap (blockPageToPpn src page) with
      | none => exact hskip hr buf moved
      | some lpn =>
        obtain ⟨d, hold, hmove, h'⟩ := migratePage_inv buf h hsrc hvac hr
        dsimp only
        rw [hmove]
        refine ih d (moved + 1) h' (hR.move _ _ _ _ _ h hvac hold hs) (hvac.migrated hsrc hnd) hnd'
          fun p hlt hmem => ?_
        rcases eq_or_ne p page with rfl | hne
        · exact Function.update_self _ _ _
        · have hdst := (Nand.isBlockValid_iff.1
            (hvac.accessible page List.mem_cons_self).blockValid).1
          have hne' : blockPageToPpn src p ≠ blockPageToPpn dst page := fun heq => hvac.ne (by
            rw [← ppnToBlock_mk hsrc hlt, heq, ppnToBlock_mk hdst hp])
          simp only [migrated, remap_reverseMap, Function.update_apply, hne', if_false, ite_eq_left_iff]
          exact fun _ => hdone p hlt fun hmem' => hmem ((List.mem_cons.1 hmem').resolve_left hne)

/-- The static wear levelling moves a used block to a free one. -/
theorem staticWearPair_spec {n : Nand} (hpair : staticWearPair n = some (src, dst)) :
    (n.isBlockValid src ∧ (n.blocks src).state = .used) ∧
      n.isBlockValid dst ∧ (n.blocks dst).state = .free := by
  rw [staticWearPair] at hpair
  split at hpair
  · split at hpair
    · next hsrc hdst =>
      obtain ⟨rfl, rfl⟩ := Prod.mk.inj (Option.some_inj.1 hpair)
      exact ⟨(Nand.getBlockState_eq (by decide)).1 (mem_blocksIn (scan_mem hsrc)),
        (Nand.getBlockState_eq (by decide)).1 (mem_blocksIn (scan_mem hdst))⟩
    · exact absurd hpair.symm (Option.some_ne_none _)
  · exact absurd hpair.symm (Option.some_ne_none _)

/-- The block to be reclaimed is a used block. -/
theorem checkReadDisturb_spec {n : Nand} (hsrc : n.checkReadDisturb = some src) :
    n.isBlockValid src ∧ (n.blocks src).state = .used := by
  rw [Nand.checkReadDisturb] at hsrc
  split at hsrc
  · exact (Nand.getBlockState_eq (by decide)).1 (mem_blocksIn (scan_mem hsrc))
  · exact absurd hsrc.symm (Option.some_ne_none _)

/-- Moving a used block to a free one and erasing it keeps the contents. The pages moved must
    come before the write cursor, if this is in the free block. -/
theorem evacuate_inv {R : List ℕ → Ftl → Prop} (hR : MigrateStable c src dst R) (h : Inv ∅ c s)
    (hs : R (List.range pagesPerBlock) s)
    (hsrc : s.nand.isBlockValid src ∧ (s.nand.blocks src).state = .used)
    (hdst : s.nand.isBlockValid dst ∧ (s.nand.blocks dst).state = .free)
    (hbehind : dst = s.curWriteBlock → ∀ p < pagesPerBlock,
      s.reverseMap (blockPageToPpn src p) ≠ none → p < s.curWritePage) :
    ∃ s', (migratePages src dst blankPage 0 (List.range pagesPerBlock) s).2 = s' ∧
      Inv {src} c s' ∧ R [] s' ∧ Inv ∅ c { s' with nand := (s'.nand.blockErase src).2 } := by
  have hlt := (Nand.isBlockValid_iff.1 hsrc.1).1
  have hvac : s.Vacant src dst (List.range pagesPerBlock) :=
    h.vacant hdst.1 hdst.2 (by rw [hsrc.2]; decide) hbehind
  obtain ⟨s', hmig, h', hs', _, _, hdone⟩ := migratePages_inv blankPage 0 hR
    (h.weaken (Set.empty_subset {src})) hs hlt hvac List.nodup_range
    fun p hp hmem => absurd (List.mem_range.2 hp) hmem
  refine ⟨s', hmig, h', hs', ?_⟩
  have herase := h'.blockErase (h'.unmapped_block hlt hdone)
  rwa [Set.sdiff_self] at herase

/-- No property besides the contents. -/
theorem MigrateStable.trivial : MigrateStable c src dst fun _ _ => True :=
  ⟨fun _ _ _ _ => True.intro, fun _ _ _ _ _ _ _ _ _ => True.intro⟩

/-- The static wear levelling keeps the contents if the block of the write cursor is not free. -/
theorem staticWearLevelingCheck_inv (h : Inv ∅ c s)
    (hcur : (s.nand.blocks s.curWriteBlock).state ≠ .free) :
    Inv ∅ c s.staticWearLevelingCheck := by
  rw [staticWearLevelingCheck]
  cases hpair : staticWearPair s.nand with
  | none => exact h
  | some pair =>
    obtain ⟨src, dst⟩ := pair
    obtain ⟨hsrc, hdst⟩ := staticWearPair_spec hpair
    obtain ⟨s', hmig, _, _, herase⟩ := evacuate_inv .trivial h True.intro hsrc hdst
      fun heq => absurd (heq ▸ hdst.2) hcur
    dsimp only
    rw [hmig]
    exact herase.congr rfl

/-- The handling of read disturb is safe: should it move pages to the block of the write cursor,
    these come before the cursor. -/
def DisturbSafe (s : Ftl) : Prop :=
  ∀ src, s.nand.checkReadDisturb = some src → s.findNextFreeBlock 0 = some s.curWriteBlock →
    ∀ p < pagesPerBlock, s.reverseMap (blockPageToPpn src p) ≠ none → p < s.curWritePage

/-- The handling of read disturb keeps the contents, if it is safe. -/
theorem handleReadDisturb_inv (h : Inv ∅ c s) (hsafe : s.DisturbSafe) :
    Inv ∅ c s.handleReadDisturb.2 := by
  rw [handleReadDisturb, if_neg (not_not.2 h.started)]
  cases hsrc : s.nand.checkReadDisturb with
  | none => exact h
  | some src =>
    dsimp only
    cases hdst : s.findNextFreeBlock 0 with
    | none => exact h
    | some dst =>
      obtain ⟨s', hmig, _, _, herase⟩ := evacuate_inv .trivial h True.intro
        (checkReadDisturb_spec hsrc) (findNextFreeBlock_spec hdst)
        fun heq => hsafe src hsrc (heq ▸ hdst)
      dsimp only
      rw [hmig]
      exact herase

/-- The handling of read disturb, if the block to be reclaimed has only one valid page. -/
theorem handleReadDisturb_eq (hstarted : s.isInitialized)
    (hcheck : s.nand.checkReadDisturb = some src) (hfirst : s.findNextFreeBlock 0 = some dst)
    (hsole : ∀ p, p ≠ page → s.nand.isPageValid src p = false) (hold : s.nand.Holds src page d)
    (hr : s.reverseMap (blockPageToPpn src page) = some lpn) (hne : dst ≠ src)
    (hacc : s.nand.Accessible dst page) (hv : (s.nand.blocks dst).pageValid page = false)
    (herases : (s.nand.blocks src).eraseCount ≤ getEraseThreshold s.nand.nandType) :
    s.handleReadDisturb = (.ok, { s.migrated src dst page lpn d with
      nand := (s.migrated src dst page lpn d).nand.erase src }) := by
  -- The source block, after its page has been moved, has no valid page.
  have hblock : (s.migrated src dst page lpn d).nand.blocks src =
      ((s.nand.blocks src).countRead.invalidate page) := by
    simp [migrated, hne.symm]
  have hrest : ∀ p ∈ List.range' (page + 1) (pagesPerBlock - (page + 1)),
      (s.migrated src dst page lpn d).nand.isPageValid src p = false := by
    intro p hp
    have hpne : p ≠ page := by
      have hlt := (List.mem_range'_1.1 hp).1
      omega
    have hv := hsole p hpne
    rw [Nand.isPageValid] at hv ⊢
    rw [hblock, PhyBlock.invalidate_pageValid, Function.update_of_ne hpne]
    exact hv
  have hmig : migratePages src dst blankPage 0 (List.range pagesPerBlock) s =
      (1, s.migrated src dst page lpn d) := by
    rw [range_pagesPerBlock hold.page_lt,
      migratePages_skip _ _ _ _ fun p hp => hsole p (List.mem_range.1 hp).ne, migratePages, if_neg, hr]
    · dsimp only
      rw [migratePage_eq blankPage hold hne hacc hv]
      have hskip := migratePages_skip dst [] d (0 + 1) hrest
      rw [List.append_nil] at hskip
      exact hskip
    · simp [Nand.isPageValid, hold.blockValid, hold.page_lt, hold.valid]
  have herase : (s.migrated src dst page lpn d).nand.blockErase src =
      (.ok, (s.migrated src dst page lpn d).nand.erase src) := by
    refine Nand.blockErase_of_unworn hold.blockValid ?_ ?_
    · rw [hblock]
      exact PhyBlock.invalidate_state_ne_bad hold.good
    · rw [hblock]
      exact herases
  rw [handleReadDisturb, if_neg (not_not.2 hstarted), hcheck]
  dsimp only
  rw [hfirst]
  dsimp only
  rw [hmig]
  dsimp only
  rw [herase]

/-! ## Replacing a block -/

/-- The replacement of the block `b` is safe: should the replacement be the block of the write
    cursor, the valid pages of `b` come before the cursor. -/
def ReplaceSafe (s : Ftl) (b : ℕ) : Prop :=
  (s.nand.blocks b).state = .used → s.nand.allocReservedBlock.1 = .ok s.curWriteBlock →
    ∀ p < pagesPerBlock, (s.nand.blocks b).pageValid p → p < s.curWritePage

/-- Copying pages to invalid ones keeps the contents, and copies what the pages hold. -/
theorem copyPages_inv (buf : PageData) (pages : List ℕ) (h : Inv ∅ c s) (hne : dst ≠ src)
    (hacc : ∀ p ∈ pages, s.nand.Accessible dst p)
    (hinv : ∀ p ∈ pages, (s.nand.blocks dst).pageValid p = false)
    (hbehind : dst = s.curWriteBlock → ∀ p ∈ pages, (s.nand.blocks src).pageValid p →
      p < s.curWritePage) (hnd : pages.Nodup) :
    Inv ∅ c { s with nand := s.nand.copyPages src dst buf pages } ∧
      ∀ p ∈ pages, ∀ d, s.nand.Holds src p d →
        (s.nand.copyPages src dst buf pages).Holds dst p d := by
  -- Page by page: what has been copied stays, as the pages of the block are distinct.
  induction pages generalizing s buf with
  | nil => exact ⟨h.congr rfl, fun p hp => absurd hp List.not_mem_nil⟩
  | cons page pages ih =>
    have hnd' := List.nodup_cons.1 hnd
    have hacc' := hacc page List.mem_cons_self
    have hinv' := hinv page List.mem_cons_self
    have hrest {n : Nand} (buf : PageData) (hn : Inv ∅ c { s with nand := n })
        (hsrc : (n.blocks src).pageValid = (s.nand.blocks src).pageValid)
        (hgood : (n.blocks dst).state ≠ .bad)
        (hdst : ∀ p ∈ pages, (n.blocks dst).pageValid p = false) :=
      ih buf hn (fun p hp => ⟨hn.isBlockValid (Nand.isBlockValid_iff.1 hacc'.blockValid).1,
          (hacc p (List.mem_cons_of_mem _ hp)).page_lt, hgood⟩) hdst
        (fun hcur p hp hv => hbehind hcur p (List.mem_cons_of_mem _ hp) (hsrc ▸ hv)) hnd'.2
    have hsame := hrest buf h rfl hacc'.good fun p hp => hinv p (List.mem_cons_of_mem _ hp)
    rcases s.nand.copyPages_cons src dst page pages buf with ⟨_, hv, hcopy⟩ | ⟨hskip, hcopy⟩ <;>
      rw [hcopy]
    · -- The page is read, and can be written to the other block.
      set d₀ := (s.nand.readBack src page).2 with hd₀
      set n₁ := s.nand.countRead src (s.nand.readBack src page).1 with hn₁
      have hblocks : n₁.blocks dst = s.nand.blocks dst := by
        rw [hn₁, Nand.countRead_blocks, Function.update_of_ne hne]
      have hacc₁ : n₁.Accessible dst page :=
        ⟨hacc'.blockValid, hacc'.page_lt, hblocks ▸ hacc'.good⟩
      have hinv₁ : (n₁.blocks dst).pageValid page = false := hblocks ▸ hinv'
      rw [Nand.pageWrite_of_invalid hacc₁ hinv₁]
      have h₂ : Inv ∅ c { s with nand := n₁.program dst page d₀ } :=
        (h.countRead _).program hacc₁ hinv₁ (Set.notMem_empty _) fun hcur =>
          hbehind hcur page List.mem_cons_self hv
      have hcopied := hrest d₀ h₂ (by simp [hn₁, hne.symm]) (by simp) fun p hp => by
        have hpne : p ≠ page := fun heq => hnd'.1 (heq ▸ hp)
        rw [Nand.program_blocks, Function.update_self, PhyBlock.program_pageValid,
          Function.update_of_ne hpne, hblocks]
        exact hinv p (List.mem_cons_of_mem _ hp)
      refine ⟨hcopied.1, fun p hp d hd => ?_⟩
      rcases List.mem_cons.1 hp with rfl | hp
      · rw [hd.readBack] at hd₀
        rw [hd₀]
        exact (Nand.holds_program hacc₁).copyPages
      · exact hcopied.2 p hp d ((hd.countRead _).program hinv₁)
    · refine ⟨hsame.1, fun p hp d hd => ?_⟩
      rcases List.mem_cons.1 hp with rfl | hp
      · exact absurd rfl (hd.ne_of_invalid (hskip hd.toAccessible))
      · exact hsame.2 p hp d hd

/-- Redirecting the maps to the copies of the pages of a block keeps the contents. Afterwards,
    nothing is mapped to the block. -/
theorem remapPages_inv (moved : UInt32) (h : Inv ∅ c s) (hsrc : src < totalBlocks)
    (hdst : dst < totalBlocks) (hne : dst ≠ src) (hlt : ∀ p ∈ pages, p < pagesPerBlock)
    (hcopied : ∀ p ∈ pages, ∀ lpn d, s.reverseMap (blockPageToPpn src p) = some lpn →
      c lpn = some d → s.nand.Holds dst p d)
    (hfree : ∀ p ∈ pages, s.reverseMap (blockPageToPpn dst p) = none) (hnd : pages.Nodup)
    (hdone : ∀ p < pagesPerBlock, p ∉ pages → s.reverseMap (blockPageToPpn src p) = none) :
    ∃ s', (remapPages src dst moved pages s).2 = s' ∧ Inv ∅ c s' ∧ s'.nand = s.nand ∧
      s'.curWriteBlock = s.curWriteBlock ∧ s'.curWritePage = s.curWritePage ∧
      ∀ p < pagesPerBlock, s'.reverseMap (blockPageToPpn src p) = none := by
  -- Page by page: the pages that are left are those whose entries have not been moved.
  induction pages generalizing s moved with
  | nil => exact ⟨s, rfl, h, rfl, rfl, rfl, fun p hp => hdone p hp List.not_mem_nil⟩
  | cons page pages ih =>
    have hp := hlt page List.mem_cons_self
    have hnd' := List.nodup_cons.1 hnd
    rw [remapPages]
    cases hr : s.reverseMap (blockPageToPpn src page) with
    | none =>
      refine ih moved h (fun p hp => hlt p (List.mem_cons_of_mem _ hp))
        (fun p hp => hcopied p (List.mem_cons_of_mem _ hp))
        (fun p hp => hfree p (List.mem_cons_of_mem _ hp)) hnd'.2 fun p hp hmem => ?_
      rcases eq_or_ne p page with rfl | hpne
      · exact hr
      · exact hdone p hp fun hmem' => hmem ((List.mem_cons.1 hmem').resolve_left hpne)
    | some lpn =>
      obtain ⟨hl, d, hd, _⟩ := h.of_reverseMap hr
      have hnew : HoldsAt s.nand (blockPageToPpn dst page) d := by
        rw [HoldsAt, ppnToBlock_mk hdst hp, ppnToPage_mk hdst hp]
        exact hcopied page List.mem_cons_self lpn d hr hd
      have hpages {q : ℕ} (hq : q < pagesPerBlock) :
          blockPageToPpn src q ≠ blockPageToPpn dst page := fun heq => hne (by
        rw [← ppnToBlock_mk hsrc hq, heq, ppnToBlock_mk hdst hp])
      refine ih (moved + 1) (h.remap hl hd hnew (hfree page List.mem_cons_self))
        (fun p hp => hlt p (List.mem_cons_of_mem _ hp)) (fun p hp' lpn' d' hr' => ?_)
        (fun p hp' => ?_) hnd'.2 fun p hp' hmem => ?_
      · refine hcopied p (List.mem_cons_of_mem _ hp') lpn' d' ?_
        simp only [remap_reverseMap, Function.update_apply,
          hpages (hlt p (List.mem_cons_of_mem _ hp')), if_false] at hr'
        split at hr'
        · exact absurd hr'.symm (Option.some_ne_none _)
        · exact hr'
      · have hp'' := hlt p (List.mem_cons_of_mem _ hp')
        have hne' : blockPageToPpn dst p ≠ blockPageToPpn dst page := fun heq =>
          hnd'.1 (by rwa [← ppnToPage_mk hdst hp, ← heq, ppnToPage_mk hdst hp''])
        simp only [remap_reverseMap, Function.update_apply, hne', if_false,
          hfree p (List.mem_cons_of_mem _ hp'), ite_self]
      · rcases eq_or_ne p page with rfl | hpne
        · exact Function.update_self _ _ _
        · simp only [remap_reverseMap, Function.update_apply, hpages hp', if_false,
            ite_eq_left_iff]
          exact fun _ => hdone p hp' fun hmem' => hmem ((List.mem_cons.1 hmem').resolve_left hpne)

/-- Redirecting the maps does not look at the NAND device. -/
theorem remapPages_nand (s : Ftl) (moved : UInt32) (n : Nand) :
    remapPages src dst moved pages { s with nand := n } =
      ((remapPages src dst moved pages s).1,
        { (remapPages src dst moved pages s).2 with nand := n }) := by
  induction pages generalizing s moved with
  | nil => rfl
  | cons page pages ih =>
    cases hr : s.reverseMap (blockPageToPpn src page) with
    | none =>
      simp only [remapPages, hr]
      exact ih s moved
    | some lpn =>
      simp only [remapPages, hr]
      exact ih (s.remap lpn (blockPageToPpn src page) (blockPageToPpn dst page)) (moved + 1)

/-- Marking a block to which nothing is mapped as bad. -/
theorem Inv.retire (h : Inv X c s)
    (hun : ∀ lpn ppn, s.l2pTable lpn = some ppn → ppnToBlock ppn ≠ b) (type : BadBlockType) :
    Inv X c { s with nand := s.nand.retire b type } := by
  refine h.nand h.on (fun p hp hlt => ?_) (fun b' hb' hX => ?_) fun lpn ppn d hl hd =>
    Nand.Holds.retire hd (hun lpn ppn hl) type
  · rw [Nand.retire_blocks]
    rcases eq_or_ne s.curWriteBlock b with hcur | hcur
    · rw [hcur, Function.update_self, PhyBlock.retire_pageValid]
    · rw [Function.update_of_ne hcur]
      exact h.ahead p hp hlt
  · rw [Nand.retire_blocks]
    rcases eq_or_ne b' b with rfl | hne
    · rw [Function.update_self]
      exact .of_bad rfl
    · rw [Function.update_of_ne hne]
      exact h.counted b' hb' hX

/-- Moving the write cursor to another block in which the pages ahead are invalid, too. -/
theorem Inv.moveCursor (h : Inv X c s) (hb : b < totalBlocks)
    (hahead : ∀ p, s.curWritePage ≤ p → p < pagesPerBlock →
      (s.nand.blocks b).pageValid p = false) : Inv X c { s with curWriteBlock := b } :=
  { h with
    block_lt := hb
    ahead := hahead }

/-- The replacement of a block redirects the maps to the copies of its pages, and takes the write
    cursor along. -/
theorem Inv.redirect {n : Nand} (h : Inv ∅ c { s with nand := n }) (hb : b < totalBlocks)
    (hdst : dst < totalBlocks) (hne : dst ≠ b)
    (hcopied : ∀ p < pagesPerBlock, ∀ lpn d, s.reverseMap (blockPageToPpn b p) = some lpn →
      c lpn = some d → n.Holds dst p d)
    (hfree : ∀ p < pagesPerBlock, s.reverseMap (blockPageToPpn dst p) = none)
    (hahead : s.curWriteBlock = b → ∀ p, s.curWritePage ≤ p → p < pagesPerBlock →
      (n.blocks dst).pageValid p = false) :
    ∃ s', (remapPages b dst 0 (List.range pagesPerBlock) { s with nand := n }).2 = s' ∧
      s'.nand = n ∧ (∀ lpn ppn, s'.l2pTable lpn = some ppn → ppnToBlock ppn ≠ b) ∧
      Inv ∅ c { s' with
        curWriteBlock := if s'.curWriteBlock = b then dst else s'.curWriteBlock } := by
  obtain ⟨s', hremap, h', hnand, hblock, hpage, hdone⟩ := remapPages_inv 0 h hb hdst hne
    (fun p hp => List.mem_range.1 hp) (fun p hp => hcopied p (List.mem_range.1 hp))
    (fun p hp => hfree p (List.mem_range.1 hp)) List.nodup_range
    fun p hp hmem => absurd (List.mem_range.2 hp) hmem
  refine ⟨s', hremap, hnand, h'.unmapped_block hb hdone, ?_⟩
  split
  · next hcur =>
    refine h'.moveCursor hdst fun p hp hlt => ?_
    rw [hnand]
    exact hahead (hblock ▸ hcur) p (hpage ▸ hp) hlt
  · exact h'

/-- The replacement of a block keeps the contents, if it is safe. -/
theorem replaceBadBlock_inv (h : Inv ∅ c s) (hsafe : s.ReplaceSafe b) :
    Inv ∅ c (s.replaceBadBlock b).2 := by
  rw [replaceBadBlock, if_neg (not_not.2 h.started)]
  split
  · exact h
  · rcases s.nand.replaceBadBlock_cases b with
      ⟨ret, heq⟩ | ⟨r, hb, _, hr, hfree, halloc, hcase⟩
    · rw [heq]
      exact h.congr rfl
    · -- The replacement has been taken, but not written.
      set n₀ : Nand := { s.nand with reservedCount := s.nand.reservedCount - 1 } with hn₀
      have h₀ : Inv ∅ c { s with nand := n₀ } :=
        h.nand h.on h.ahead h.counted fun lpn ppn d _ hd => hd.congr rfl hd.good rfl rfl rfl
      have hinv : ∀ p < pagesPerBlock, (n₀.blocks r).pageValid p = false := fun p hp =>
        h₀.invalid_of_free hr hfree hp
      have hrev : ∀ p < pagesPerBlock, s.reverseMap (blockPageToPpn r p) = none := fun p hp =>
        h₀.reverseMap_of_invalid (by
          rw [ppnToBlock_mk hr hp, ppnToPage_mk hr hp]
          exact hinv p hp)
      rcases hcase with ⟨hused, heq⟩ | ⟨hbad, heq⟩
      · have hne : r ≠ b := fun hrb => by
          rw [← hrb, hfree] at hused
          exact absurd hused (by decide)
        obtain ⟨h₁, hcopied⟩ := copyPages_inv blankPage (List.range pagesPerBlock) h₀ hne
          (fun p hp => ⟨h₀.isBlockValid hr, List.mem_range.1 hp, by rw [hfree]; decide⟩)
          (fun p hp => hinv p (List.mem_range.1 hp))
          (fun hcur p hp => hsafe hused (halloc ▸ hcur ▸ rfl) p (List.mem_range.1 hp))
          List.nodup_range
        set n₁ := n₀.copyPages b r blankPage (List.range pagesPerBlock)
        -- A valid page of the replacement is a copy of one of the block.
        have hvalid : s.curWriteBlock = b → ∀ p, s.curWritePage ≤ p → p < pagesPerBlock →
            (n₁.blocks r).pageValid p = false := fun hcur p hp hlt => by
          refine Bool.eq_false_iff.2 fun hv => ?_
          rcases (Nand.copyPages_blocks _ hne n₀ blankPage).2.2 p hv with hv | hv
          · exact Bool.eq_false_iff.1 (hinv p hlt) hv
          · exact Bool.eq_false_iff.1 (h.ahead p hp hlt) (hcur ▸ hv)
        obtain ⟨s', hremap, hnand, hun, h'⟩ := h₁.redirect hb hr hne (fun p hp lpn d hrl hd => by
          obtain ⟨_, d', hd', hold⟩ := h₀.of_reverseMap hrl
          obtain rfl : d' = d := Option.some_inj.1 (hd'.symm.trans hd)
          rw [HoldsAt, ppnToBlock_mk hb hp, ppnToPage_mk hb hp] at hold
          exact hcopied p (List.mem_range.2 hp) d' hold) hrev hvalid
        rw [heq]
        dsimp only
        rw [remapPages_nand { s with nand := n₁ } 0 (n₁.retire b .wear), hremap]
        have hretire := h'.retire hun .wear
        rw [hnand] at hretire
        exact hretire.congr rfl
      · have hne : r ≠ b := fun hrb => by
          rw [← hrb, hfree] at hbad
          exact absurd hbad (by decide)
        -- Nothing is mapped to a bad block.
        obtain ⟨s', hremap, _, _, h'⟩ := h₀.redirect hb hr hne (fun p hp lpn d hrl hd => by
          obtain ⟨_, d', _, hold⟩ := h₀.of_reverseMap hrl
          rw [HoldsAt, ppnToBlock_mk hb hp] at hold
          exact absurd hbad hold.good) hrev fun _ p _ hlt => hinv p hlt
        rw [heq]
        dsimp only
        rw [hremap]
        exact h'.congr rfl

/-- Nothing is redirected if nothing is mapped to the pages. -/
theorem remapPages_of_unmapped (moved : UInt32)
    (hr : ∀ p ∈ pages, s.reverseMap (blockPageToPpn src p) = none) :
    remapPages src dst moved pages s = (moved, s) := by
  induction pages with
  | nil => rfl
  | cons page pages ih =>
    rw [remapPages, hr page List.mem_cons_self]
    exact ih fun p hp => hr p (List.mem_cons_of_mem _ hp)

/-- The replacement of a block that is bad already moves nothing. -/
theorem replaceBadBlock_of_bad (h : Inv ∅ c s) (hbad : (s.nand.blocks b).state = .bad) :
    (s.replaceBadBlock b).2.l2pTable = s.l2pTable ∧
      (s.replaceBadBlock b).2.nand.blocks = s.nand.blocks := by
  rw [replaceBadBlock, if_neg (not_not.2 h.started)]
  split
  · exact ⟨rfl, rfl⟩
  · rcases s.nand.replaceBadBlock_cases b with
      ⟨ret, heq⟩ | ⟨r, hb, _, _, _, _, ⟨hused, _⟩ | ⟨_, heq⟩⟩
    · rw [heq]
      exact ⟨rfl, rfl⟩
    · rw [hbad] at hused
      exact absurd hused (by decide)
    · rw [heq]
      dsimp only
      rw [remapPages_of_unmapped 0 fun p hp => ?_]
      · exact ⟨rfl, rfl⟩
      · cases hr : s.reverseMap (blockPageToPpn b p) with
        | none => rfl
        | some lpn =>
          obtain ⟨_, d, _, hold⟩ := h.of_reverseMap hr
          rw [HoldsAt, ppnToBlock_mk hb (List.mem_range.1 hp)] at hold
          exact absurd hbad hold.good

end Ftl

end FtlFirmware
