import FtlFirmware.Ftl.Relocating

/-!
# What the replacement of a block loses

The NAND module copies the valid pages of a block to its replacement, and skips those that cannot be
read or written (`Copying`); the FTL redirects all mapped pages of the block (`Redirecting`). On a
device with consistent maps, no data is lost exactly if every mapped page of the block is copied, or
the page it is redirected to holds the same data anyway (`CopiesFit`,
`replaceBadBlock_preserves`).
-/

namespace FtlFirmware

namespace Nand

variable {n n₀ n' : Nand} {src dst page : ℕ} {pages : List ℕ} {buf d : PageData}

/-! ## Copying pages -/

/-- The page `p` of the block `b` is as it was on the device `n₀`. -/
structure SamePage (n₀ : Nand) (b p : ℕ) (n : Nand) : Prop where
  valid : (n.blocks b).pageValid p = (n₀.blocks b).pageValid p
  data : n.readBack b p = n₀.readBack b p

/-- Marking a block as bad leaves the pages of the other blocks alone. -/
theorem retire_samePage {b b' p : ℕ} (hne : b' ≠ b) (type : BadBlockType) :
    SamePage n b' p (n.retire b type) := by
  refine ⟨by rw [retire_blocks, Function.update_of_ne hne], readBack_congr ?_ rfl⟩
  exact Function.update_of_ne (fun heq => hne (Prod.mk.inj heq).1) _ _

/-- The device on which the valid pages of the block `src` are being copied to the block `dst`,
    since the state `n₀`, with the pages `pages` still to come. -/
structure Copying (n₀ : Nand) (src dst : ℕ) (pages : List ℕ) (n : Nand) : Prop where
  on : n.isInitialized
  goodDst : (n.blocks dst).state ≠ .bad
  state : ∀ b, b ≠ dst → (n.blocks b).state = (n₀.blocks b).state
  other : ∀ b p, b ≠ dst → SamePage n₀ b p n
  todo : ∀ p ∈ pages, SamePage n₀ dst p n
  kept : ∀ p, (n₀.blocks dst).pageValid p → SamePage n₀ dst p n
  done : ∀ p < pagesPerBlock, p ∉ pages → (n₀.blocks src).pageValid p →
    (n₀.blocks dst).pageValid p = false →
      (n.blocks dst).pageValid p ∧ (n.readBack dst p).2 = (n₀.readBack src p).2

namespace Copying

/-- The beginning. -/
theorem start (hon : n.isInitialized) (hdst : (n.blocks dst).state ≠ .bad) :
    Copying n src dst (List.range pagesPerBlock) n where
  on := hon
  goodDst := hdst
  state _ _ := rfl
  other _ _ _ := ⟨rfl, rfl⟩
  todo _ _ := ⟨rfl, rfl⟩
  kept _ _ := ⟨rfl, rfl⟩
  done _ hp hmem := absurd (List.mem_range.2 hp) hmem

/-- A page that is not copied is skipped: it is not valid, or has a valid page in the way. -/
theorem skip (h : Copying n₀ src dst (page :: pages) n)
    (hskip : (n₀.blocks src).pageValid page → (n₀.blocks dst).pageValid page) :
    Copying n₀ src dst pages n :=
  { h with
    todo := fun p hp => h.todo p (List.mem_cons_of_mem _ hp)
    done := fun p hp hmem hsrc hdst => by
      by_cases hpage : p = page
      · rw [hpage] at hsrc hdst
        rw [hskip hsrc] at hdst
        exact absurd hdst.symm Bool.false_ne_true
      · exact h.done p hp (fun hmem' => (List.mem_cons.1 hmem').elim hpage hmem) hsrc hdst }

/-- A page has been read. -/
theorem countRead (h : Copying n₀ src dst pages n) (hne : dst ≠ src) (ecc : EccResult) :
    Copying n₀ src dst pages (n.countRead src ecc) := by
  have hsame (b p : ℕ) (hb : SamePage n₀ b p n) : SamePage n₀ b p (n.countRead src ecc) := by
    refine ⟨?_, hb.data⟩
    rw [countRead_blocks, Function.update_apply]
    split
    · next heq => rw [PhyBlock.countRead_pageValid, ← heq, hb.valid]
    · exact hb.valid
  have hdst : (n.countRead src ecc).blocks dst = n.blocks dst := by
    rw [countRead_blocks, Function.update_of_ne hne]
  exact {
    on := h.on
    goodDst := hdst ▸ h.goodDst
    state := fun b hb => by
      rw [countRead_blocks, Function.update_apply]
      split
      · next heq => exact heq ▸ h.state b hb
      · exact h.state b hb
    other := fun b p hb => hsame b p (h.other b p hb)
    todo := fun p hp => hsame dst p (h.todo p hp)
    kept := fun p hp => hsame dst p (h.kept p hp)
    done := fun p hp hmem hsrc hv => hdst ▸ h.done p hp hmem hsrc hv }

/-- A page has been written to the other block. -/
theorem program (h : Copying n₀ src dst (page :: pages) n) (hnd : page ∉ pages)
    (hv : (n.blocks dst).pageValid page = false) (hd : d = (n₀.readBack src page).2) :
    Copying n₀ src dst pages (n.program dst page d) := by
  have hsame (b p : ℕ) (hpage : (b, p) ≠ (dst, page)) (hb : SamePage n₀ b p n) :
      SamePage n₀ b p (n.program dst page d) := by
    refine ⟨?_, (readBack_program_of_ne hpage).trans hb.data⟩
    rw [program_blocks, Function.update_apply]
    split
    · next heq =>
      have hp : p ≠ page := fun hp => hpage (by rw [heq, hp])
      rw [PhyBlock.program_pageValid, Function.update_of_ne hp, ← heq, hb.valid]
    · exact hb.valid
  have hpage (p : ℕ) (hp : p ≠ page) : (dst, p) ≠ (dst, page) := fun heq => hp (Prod.mk.inj heq).2
  exact {
    on := h.on
    goodDst := by
      rw [program_blocks, Function.update_self]
      exact BlockState.noConfusion
    state := fun b hb => by
      rw [program_blocks, Function.update_of_ne hb]
      exact h.state b hb
    other := fun b p hb => hsame b p (fun heq => hb (Prod.mk.inj heq).1) (h.other b p hb)
    todo := fun p hp => hsame dst p (hpage p (ne_of_mem_of_not_mem hp hnd))
      (h.todo p (List.mem_cons_of_mem _ hp))
    kept := fun p hp => by
      refine hsame dst p (hpage p ?_) (h.kept p hp)
      rintro rfl
      rw [(h.kept p hp).valid, hp] at hv
      exact Bool.false_ne_true hv.symm
    done := fun p hp hmem hsrc hdst => by
      by_cases hp' : p = page
      · subst hp'
        rw [program_blocks, Function.update_self, PhyBlock.program_pageValid, Function.update_self,
          readBack_program_self]
        exact ⟨rfl, hd⟩
      · obtain ⟨hvalid, hdata⟩ :=
          h.done p hp (fun hmem' => (List.mem_cons.1 hmem').elim hp' hmem) hsrc hdst
        rw [program_blocks, Function.update_self, PhyBlock.program_pageValid,
          Function.update_of_ne hp', readBack_program_of_ne (hpage p hp')]
        exact ⟨hvalid, hdata⟩ }

/-- All pages are copied, from a block that is not bad. -/
theorem copyPages (h : Copying n₀ src dst pages n) (hsrc : src < totalBlocks)
    (hdst : dst < totalBlocks) (hne : dst ≠ src) (hgood : (n₀.blocks src).state ≠ .bad)
    (hpages : ∀ p ∈ pages, p < pagesPerBlock) (hnd : pages.Nodup) (buf : PageData) :
    Copying n₀ src dst [] (n.copyPages src dst buf pages) := by
  induction pages generalizing n buf with
  | nil => exact h
  | cons page pages ih =>
    obtain ⟨hmem, hnd⟩ := List.nodup_cons.1 hnd
    have hp := hpages page List.mem_cons_self
    have hpages' : ∀ p ∈ pages, p < pagesPerBlock := fun q hq =>
      hpages q (List.mem_cons_of_mem _ hq)
    have hvsrc := (h.other src page hne.symm).valid
    have haccSrc : n.Accessible src page :=
      ⟨isBlockValid_iff.2 ⟨hsrc, h.on⟩, hp, by rw [h.state src hne.symm]; exact hgood⟩
    rcases n.copyPages_cons src dst page pages buf with ⟨_, hv, hcopy⟩ | ⟨hskip, hcopy⟩ <;>
      rw [hcopy]
    · have hread := h.countRead hne (n.readBack src page).1
      rcases (n.countRead src (n.readBack src page).1).pageWrite_cases dst page
        (n.readBack src page).2 with ⟨_, hvdst, hw⟩ | ⟨ret, hret, hw, _⟩ <;> rw [hw]
      · refine ih (hread.program hmem hvdst ?_) hpages' hnd _
        rw [(h.other src page hne.symm).data]
      · refine ih (hread.skip fun _ => ?_) hpages' hnd _
        -- Only a valid page in the way makes the write fail.
        by_contra hvdst
        rw [← (hread.todo page List.mem_cons_self).valid] at hvdst
        rw [pageWrite_of_invalid ⟨isBlockValid_iff.2 ⟨hdst, hread.on⟩, hp, hread.goodDst⟩
          (eq_false_of_ne_true hvdst)] at hw
        exact hret (Prod.mk.inj hw).1.symm
    · refine ih (h.skip fun hv => ?_) hpages' hnd buf
      rw [← hvsrc, hskip haccSrc] at hv
      exact absurd hv Bool.false_ne_true

end Copying

/-! ## Replacing a block -/

/-- The device after the block `b` has been replaced by `r`, as far as the pages are concerned: if
    `b` was used, its pages have been copied to `r`. -/
structure Replaced (n : Nand) (b r : ℕ) (n' : Nand) : Prop where
  on : n'.isInitialized
  good : (n'.blocks r).state ≠ .bad
  state : ∀ b', b' ≠ b → b' ≠ r → (n'.blocks b').state = (n.blocks b').state
  other : ∀ b' p, b' ≠ b → b' ≠ r → SamePage n b' p n'
  kept : ∀ p, (n.blocks r).pageValid p → SamePage n r p n'
  copied : (n.blocks b).state = .used → ∀ p < pagesPerBlock, (n.blocks b).pageValid p →
    (n.blocks r).pageValid p = false →
      (n'.blocks r).pageValid p ∧ (n'.readBack r p).2 = (n.readBack b p).2
  left : (n.blocks b).state ≠ .used → ∀ p, SamePage n r p n'

/-- A replacement that succeeds. -/
theorem replaced_of_ok {b r : ℕ} (h : n.replaceBadBlock b = (.ok r, n')) :
    n.allocReservedBlock.1 = .ok r ∧ r ≠ b ∧ b < totalBlocks ∧ r < totalBlocks ∧
      n.Replaced b r n' := by
  rcases n.replaceBadBlock_cases b with ⟨ret, heq⟩ | ⟨r', hb, _, hr, hfree, halloc, hcase⟩
  · exact absurd (Prod.mk.inj (heq.symm.trans h)).1 (by simp)
  · have hon : n.isInitialized := by
      by_contra hoff
      rw [allocReservedBlock, if_pos hoff] at halloc
      exact absurd (Prod.mk.inj halloc).1 (by simp)
    -- The block taken is free, the one given up is not.
    have hne : r' ≠ b := by
      rintro rfl
      rcases hcase with ⟨hused, _⟩ | ⟨hbad, _⟩
      · exact BlockState.noConfusion (hused.symm.trans hfree)
      · exact BlockState.noConfusion (hbad.symm.trans hfree)
    have hgood : (n.blocks r').state ≠ .bad := by
      rw [hfree]
      exact BlockState.noConfusion
    rcases hcase with ⟨hused, heq⟩ | ⟨hbad, heq⟩
    · obtain ⟨hret, rfl⟩ := Prod.mk.inj (h.symm.trans heq)
      obtain rfl := Except.ok.inj hret
      have hgoodSrc : (n.blocks b).state ≠ .bad := by
        rw [hused]
        exact BlockState.noConfusion
      set n₀ : Nand := { n with reservedCount := n.reservedCount - 1 } with hn₀
      have hstart : Copying n₀ b r (List.range pagesPerBlock) n₀ := .start hon hgood
      have hcopy := hstart.copyPages hb hr hne hgoodSrc (fun p hp => List.mem_range.1 hp)
        List.nodup_range blankPage
      set n₁ := n₀.copyPages b r blankPage (List.range pagesPerBlock)
      have hsame {b' p : ℕ} (hb' : b' ≠ b) (hpage : SamePage n₀ b' p n₁) :
          SamePage n b' p (n₁.retire b .wear) :=
        ⟨(retire_samePage hb' .wear).valid.trans hpage.valid,
          (retire_samePage hb' .wear).data.trans hpage.data⟩
      refine ⟨by rw [halloc], hne, hb, hr, ?_⟩
      exact {
        on := hcopy.on
        good := by
          rw [retire_blocks, Function.update_of_ne hne]
          exact hcopy.goodDst
        state := fun b' hb' hr' => by
          rw [retire_blocks, Function.update_of_ne hb']
          exact hcopy.state b' hr'
        other := fun b' p hb' hr' => hsame hb' (hcopy.other b' p hr')
        kept := fun p hp => hsame hne (hcopy.kept p hp)
        copied := fun _ p hp hsrc hdst => by
          obtain ⟨hv, hd⟩ := hcopy.done p hp List.not_mem_nil hsrc hdst
          rw [(retire_samePage hne .wear).valid, (retire_samePage hne .wear).data]
          exact ⟨hv, hd⟩
        left := fun hstate => absurd hused hstate }
    · obtain ⟨hret, rfl⟩ := Prod.mk.inj (h.symm.trans heq)
      obtain rfl := Except.ok.inj hret
      refine ⟨by rw [halloc], hne, hb, hr, ?_⟩
      exact {
        on := hon
        good := hgood
        state := fun _ _ _ => rfl
        other := fun _ _ _ _ => ⟨rfl, rfl⟩
        kept := fun _ _ => ⟨rfl, rfl⟩
        copied := fun hused => absurd (hbad.symm.trans hused) (by simp)
        left := fun _ _ => ⟨rfl, rfl⟩ }

/-- A replacement that fails says so. -/
theorem replaceBadBlock_error {b : ℕ} {ret : RetCode} (h : (n.replaceBadBlock b).1 = .error ret) :
    ret ≠ .ok := by
  rintro rfl
  rw [replaceBadBlock] at h
  split at h
  · simp at h
  · split at h
    · simp at h
    · split at h
      · simp at h
      · split at h
        · simp at h
        · dsimp only at h
          split_ifs at h

end Nand

namespace Ftl

variable {s s₀ s' : Ftl} {b r page : ℕ} {pages : List ℕ}

/-! ## Redirecting the maps -/

/-- The maps while the logical pages of the block `b` are being redirected to the block `r`, since
    the state `s₀`, with the pages `pages` still to come. -/
structure Redirecting (s₀ : Ftl) (b r : ℕ) (pages : List ℕ) (s : Ftl) : Prop where
  unmapped : ∀ lpn, s₀.l2pTable lpn = none → s.l2pTable lpn = none
  mapped : ∀ lpn ppn, s₀.l2pTable lpn = some ppn → s.l2pTable lpn =
    if ppnToBlock ppn = b ∧ ppnToPage ppn ∉ pages then some (blockPageToPpn r (ppnToPage ppn))
    else some ppn
  back : ∀ p ∈ pages, s.reverseMap (blockPageToPpn b p) = s₀.reverseMap (blockPageToPpn b p)

/-- All logical pages of the block are redirected. -/
theorem Redirecting.remapPages (h : Redirecting s₀ b r pages s) (h₀ : s₀.MappingConsistent)
    (hb : b < totalBlocks) (hr : r < totalBlocks) (hne : r ≠ b)
    (hpages : ∀ p ∈ pages, p < pagesPerBlock) (hnd : pages.Nodup) (moved : UInt32) :
    Redirecting s₀ b r [] (Ftl.remapPages b r moved pages s).2 := by
  induction pages generalizing s moved with
  | nil => exact h
  | cons page pages ih =>
    obtain ⟨hmem, hnd⟩ := List.nodup_cons.1 hnd
    have hp := hpages page List.mem_cons_self
    have hpages' : ∀ p ∈ pages, p < pagesPerBlock := fun q hq =>
      hpages q (List.mem_cons_of_mem _ hq)
    have hback := h.back page List.mem_cons_self
    -- The page with the number `page` of the block, if it is mapped.
    have hpage (lpn ppn : ℕ) (hl : s₀.l2pTable lpn = some ppn) (hblock : ppnToBlock ppn = b)
        (hpage : ppnToPage ppn = page) : s₀.reverseMap (blockPageToPpn b page) = some lpn := by
      obtain ⟨hlt, hrev, _⟩ := h₀.mapped lpn ppn hl
      rwa [← hblock, ← hpage, blockPageToPpn_self hlt]
    -- The other pages are still to come if they were before.
    have hrest (ppn : ℕ) (hpage' : ppnToBlock ppn = b → ppnToPage ppn ≠ page) :
        (ppnToBlock ppn = b ∧ ppnToPage ppn ∉ page :: pages) ↔
          (ppnToBlock ppn = b ∧ ppnToPage ppn ∉ pages) := by
      rw [List.mem_cons, not_or]
      exact and_congr_right fun hblock => and_iff_right (hpage' hblock)
    rw [Ftl.remapPages, hback]
    cases hrev : s₀.reverseMap (blockPageToPpn b page) with
    | none =>
      refine ih { h with
        mapped := fun lpn ppn hl => ?_
        back := fun p hp => h.back p (List.mem_cons_of_mem _ hp) } hpages' hnd moved
      refine (h.mapped lpn ppn hl).trans (if_congr (hrest ppn fun hblock hpage' => ?_) rfl rfl)
      rw [hpage lpn ppn hl hblock hpage'] at hrev
      exact Option.some_ne_none _ hrev
    | some lpn =>
      have hl := h₀.back lpn _ hrev
      have hother (p : ℕ) (hlt : p < pagesPerBlock) : blockPageToPpn b p ≠ blockPageToPpn r page :=
        fun heq => hne (by rw [← ppnToBlock_mk hb hlt, heq, ppnToBlock_mk hr hp])
      refine ih {
        unmapped := fun lpn' hnone => ?_
        mapped := fun lpn' ppn hl' => ?_
        back := fun p hp' => ?_ } hpages' hnd (moved + 1)
      · rw [remap_l2pTable, Function.update_apply]
        split
        · next heq =>
          rw [heq, hl] at hnone
          exact absurd hnone (Option.some_ne_none _)
        · exact h.unmapped lpn' hnone
      · rw [remap_l2pTable, Function.update_apply]
        split
        · next heq =>
          rw [heq, hl] at hl'
          rw [← Option.some_inj.1 hl', ppnToBlock_mk hb hp, ppnToPage_mk hb hp, if_pos ⟨rfl, hmem⟩]
        · next hne' =>
          refine (h.mapped lpn' ppn hl').trans
            (if_congr (hrest ppn fun hblock hpage' => hne' ?_) rfl rfl)
          have hself := hpage lpn' ppn hl' hblock hpage'
          rw [hrev, Option.some_inj] at hself
          exact hself.symm
      · have hlt := hpages' p hp'
        have hpne : blockPageToPpn b p ≠ blockPageToPpn b page := fun heq => by
          have := congrArg ppnToPage heq
          rw [ppnToPage_mk hb hlt, ppnToPage_mk hb hp] at this
          exact hmem (this ▸ hp')
        rw [remap_reverseMap, Function.update_of_ne hpne, Function.update_of_ne (hother p hlt),
          h.back p (List.mem_cons_of_mem _ hp')]

/-! ## Replacing a block -/

/-- A read of the logical page `lpn` succeeds and gives the data `d`. -/
def Readable (s : Ftl) (lpn : ℕ) (d : PageData) : Prop :=
  ∀ buf, (s.read lpn buf).1 = .ok ∧ (s.read lpn buf).2.1 = d

/-- A logical page can be read if it is mapped to a valid page of a block that is not bad. -/
theorem readable_iff {lpn : ℕ} {d : PageData} (hon : s.isInitialized) : s.Readable lpn d ↔
    lpn < totalLpns ∧ ∃ ppn, s.l2pTable lpn = some ppn ∧
      s.nand.isPageValid (ppnToBlock ppn) (ppnToPage ppn) ∧
      (s.nand.blocks (ppnToBlock ppn)).state ≠ .bad ∧
      (s.nand.readBack (ppnToBlock ppn) (ppnToPage ppn)).2 = d := by
  by_cases hlt : lpn < totalLpns
  · cases hl : s.l2pTable lpn with
    | none =>
      refine iff_of_false (fun h => ?_) fun h => ?_
      · have hret := (h blankPage).1
        rw [read, if_neg (not_not.2 hon), if_neg (Nat.not_le.2 hlt), hl] at hret
        exact RetCode.noConfusion hret
      · obtain ⟨_, ppn, hsome, _⟩ := h
        exact Option.some_ne_none _ hsome.symm
    | some ppn =>
      -- What the FTL answers is what the device does.
      have hread (buf : PageData) : (s.read lpn buf).1 =
          (s.nand.pageRead (ppnToBlock ppn) (ppnToPage ppn) buf).1 ∧ (s.read lpn buf).2.1 =
            (s.nand.pageRead (ppnToBlock ppn) (ppnToPage ppn) buf).2.1 := by
        rw [read, if_neg (not_not.2 hon), if_neg (Nat.not_le.2 hlt), hl]
        dsimp only
        split
        · next hbad => exact ⟨hbad.symm, rfl⟩
        · split <;> exact ⟨rfl, rfl⟩
      rw [and_iff_right hlt, Readable]
      simp only [hread]
      constructor
      · intro h
        obtain ⟨hret, hdata⟩ := h blankPage
        rcases s.nand.pageRead_cases (ppnToBlock ppn) (ppnToPage ppn) blankPage with
          ⟨hacc, hv, heq⟩ | ⟨ret, hne, heq, _⟩
        · rw [heq] at hdata
          exact ⟨ppn, rfl, Nand.isPageValid_iff.2 ⟨hacc.blockValid, hacc.page_lt, hv⟩, hacc.good,
            hdata⟩
        · rw [heq] at hret
          exact absurd hret hne
      · rintro ⟨ppn', heq, hv, hgood, hdata⟩ buf
        obtain rfl := Option.some_inj.1 heq
        obtain ⟨hvalid, hp, hv⟩ := Nand.isPageValid_iff.1 hv
        rw [Nand.pageRead_of_valid ⟨hvalid, hp, hgood⟩ hv]
        exact ⟨rfl, hdata⟩
  · refine iff_of_false (fun h => ?_) fun h => hlt h.1
    have hret := (h blankPage).1
    rw [read, if_neg (not_not.2 hon), if_pos (Nat.le_of_not_lt hlt)] at hret
    exact RetCode.noConfusion hret

/-- What can be read in the state `s` can still be read in the state `s'`, and no logical page is
    mapped to a page that has not been written with its data. -/
structure Preserves (s s' : Ftl) : Prop where
  readable : ∀ lpn d, s.Readable lpn d → s'.Readable lpn d
  written : ∀ lpn ppn', s'.l2pTable lpn = some ppn' → ∃ ppn, s.l2pTable lpn = some ppn ∧
    s'.nand.isPageValid (ppnToBlock ppn') (ppnToPage ppn') ∧
    (s'.nand.readBack (ppnToBlock ppn') (ppnToPage ppn')).2 =
      (s.nand.readBack (ppnToBlock ppn) (ppnToPage ppn)).2

/-- The block `r` is fit to replace the block `b`: each mapped page of `b` can be copied to it, or
    meets a valid page with the same data. -/
def CopiesFit (s : Ftl) (b r : ℕ) : Prop :=
  ∀ p < pagesPerBlock, s.reverseMap (blockPageToPpn b p) ≠ none →
    if (s.nand.blocks r).pageValid p then (s.nand.readBack r p).2 = (s.nand.readBack b p).2
    else (s.nand.blocks b).state = .used

/-- Redirecting the maps leaves the device switched on. -/
theorem remapPages_isInitialized (moved : UInt32) (pages : List ℕ) (s : Ftl) :
    (remapPages b r moved pages s).2.isInitialized = s.isInitialized := by
  induction pages generalizing moved s with
  | nil => rfl
  | cons page pages ih =>
    rw [remapPages]
    cases s.reverseMap (blockPageToPpn b page) with
    | none => exact ih moved s
    | some lpn => exact ih (moved + 1) _

/-- A replacement that succeeds. -/
theorem replaceBadBlock_ok (hok : s.replaceBadBlock b = (.ok, s')) :
    ∃ r, s.nand.replaceBadBlock b = (.ok r, s'.nand) ∧ s.isInitialized ∧ s'.isInitialized ∧
      s'.l2pTable = (remapPages b r 0 (List.range pagesPerBlock) s).2.l2pTable := by
  rw [replaceBadBlock] at hok
  split at hok
  · exact absurd (Prod.mk.inj hok).1 (by simp)
  · next hon =>
    split at hok
    · exact absurd (Prod.mk.inj hok).1 (by simp)
    · split at hok
      · next heq =>
        exact absurd (Prod.mk.inj hok).1 (Nand.replaceBadBlock_error (by rw [heq]))
      · next r n heq =>
        obtain rfl := (Prod.mk.inj hok).2
        rw [remapPages_nand s 0 n]
        exact ⟨r, heq, not_not.1 hon,
          (remapPages_isInitialized 0 _ s).trans (not_not.1 hon), rfl⟩

/-- Redirecting the maps of a whole block. -/
theorem redirecting_all {r : ℕ} (h : s.MappingConsistent) (hb : b < totalBlocks)
    (hr : r < totalBlocks) (hne : r ≠ b) :
    Redirecting s b r [] (remapPages b r 0 (List.range pagesPerBlock) s).2 := by
  have hstart : Redirecting s b r (List.range pagesPerBlock) s := {
    unmapped := fun _ hnone => hnone
    mapped := fun lpn ppn hl => by
      rw [if_neg fun hmem => hmem.2 (List.mem_range.2 ppnToPage_lt)]
      exact hl
    back := fun _ _ => rfl }
  exact hstart.remapPages h hb hr hne (fun p hp => List.mem_range.1 hp) List.nodup_range 0

section Preserves

variable {n' : Nand} {lpn ppn p : ℕ} (h : s.MappingConsistent) (hrep : s.nand.Replaced b r n')
include h hrep

/-- The mapped pages of other blocks stay as they are. -/
theorem replaced_other (hl : s.l2pTable lpn = some ppn) (hblock : ppnToBlock ppn ≠ b) :
    n'.isPageValid (ppnToBlock ppn) (ppnToPage ppn) ∧
      ((s.nand.blocks (ppnToBlock ppn)).state ≠ .bad →
        (n'.blocks (ppnToBlock ppn)).state ≠ .bad) ∧
      n'.readBack (ppnToBlock ppn) (ppnToPage ppn) =
        s.nand.readBack (ppnToBlock ppn) (ppnToPage ppn) := by
  have hv := (h.mapped lpn ppn hl).2.2
  obtain ⟨hvalid, hp, hv'⟩ := Nand.isPageValid_iff.1 hv
  have hon : n'.isInitialized = s.nand.isInitialized :=
    hrep.on.trans (Nand.isBlockValid_iff.1 hvalid).2.symm
  by_cases hr : ppnToBlock ppn = r
  · have hsame : Nand.SamePage s.nand (ppnToBlock ppn) (ppnToPage ppn) n' := by
      rw [hr] at hv' ⊢
      exact hrep.kept _ hv'
    refine ⟨(Nand.isPageValid_congr hon hsame.valid).trans hv, fun _ => ?_, hsame.data⟩
    rw [hr]
    exact hrep.good
  · have hsame := hrep.other _ (ppnToPage ppn) hblock hr
    refine ⟨(Nand.isPageValid_congr hon hsame.valid).trans hv, fun hgood => ?_, hsame.data⟩
    rw [hrep.state _ hblock hr]
    exact hgood

/-- The mapped pages of the block are at their new places if the replacement is fit. -/
theorem replaced_self (hb : b < totalBlocks) (hr : r < totalBlocks) (hp : p < pagesPerBlock)
    (hback : s.reverseMap (blockPageToPpn b p) = some lpn) (hfit : s.CopiesFit b r) :
    n'.isPageValid r p ∧ (n'.readBack r p).2 = (s.nand.readBack b p).2 := by
  have hvalid : n'.isBlockValid r := Nand.isBlockValid_iff.2 ⟨hr, hrep.on⟩
  have hv := (Nand.isPageValid_iff.1 (h.valid_of_back hb hp hback)).2.2
  have hfit' := hfit p hp (by rw [hback]; exact Option.some_ne_none _)
  split at hfit'
  · next hvr =>
    have hsame := hrep.kept p hvr
    exact ⟨Nand.isPageValid_iff.2 ⟨hvalid, hp, hsame.valid.trans hvr⟩, by rw [hsame.data, hfit']⟩
  · next hvr =>
    obtain ⟨hv', hd⟩ := hrep.copied hfit' p hp hv (eq_false_of_ne_true hvr)
    exact ⟨Nand.isPageValid_iff.2 ⟨hvalid, hp, hv'⟩, hd⟩

omit h in
/-- The replacement is fit if the mapped pages of the block are at their new places. -/
theorem copiesFit_of_replaced (hpages : ∀ p < pagesPerBlock,
    s.reverseMap (blockPageToPpn b p) ≠ none → n'.isPageValid r p ∧
      (n'.readBack r p).2 = (s.nand.readBack b p).2) : s.CopiesFit b r := by
  intro p hp hmapped
  obtain ⟨hv, hd⟩ := hpages p hp hmapped
  split
  · next hvr => rw [← hd, (hrep.kept p hvr).data]
  · next hvr =>
    by_contra hused
    have hv' := (Nand.isPageValid_iff.1 hv).2.2
    rw [(hrep.left hused p).valid] at hv'
    exact hvr hv'

end Preserves

/-- On a device with consistent maps, a replacement that succeeds preserves the contents exactly if
    the block taken from the reserved area is fit for it. -/
theorem replaceBadBlock_preserves (s s' : Ftl) (b : ℕ) (h : s.MappingConsistent)
    (hok : s.replaceBadBlock b = (.ok, s')) :
    s.Preserves s' ↔ ∀ r, s.nand.allocReservedBlock.1 = .ok r → s.CopiesFit b r := by
  obtain ⟨r, hnand, hon, hon', hl2p⟩ := replaceBadBlock_ok hok
  obtain ⟨halloc, hne, hb, hr, hrep⟩ := Nand.replaced_of_ok hnand
  have hfit : (∀ r, s.nand.allocReservedBlock.1 = .ok r → s.CopiesFit b r) ↔ s.CopiesFit b r := by
    refine ⟨fun hall => hall r halloc, fun hfit r' halloc' => ?_⟩
    obtain rfl := Except.ok.inj (halloc.symm.trans halloc')
    exact hfit
  rw [hfit]
  -- The maps are redirected page by page: those of the block replaced, and no others.
  have hmaps := redirecting_all h hb hr hne
  have hself {lpn ppn : ℕ} (hl : s.l2pTable lpn = some ppn) (hblock : ppnToBlock ppn = b) :
      s'.l2pTable lpn = some (blockPageToPpn r (ppnToPage ppn)) := by
    rw [hl2p, hmaps.mapped lpn ppn hl, if_pos ⟨hblock, List.not_mem_nil⟩]
  have hother {lpn ppn : ℕ} (hl : s.l2pTable lpn = some ppn) (hblock : ppnToBlock ppn ≠ b) :
      s'.l2pTable lpn = some ppn := by
    rw [hl2p, hmaps.mapped lpn ppn hl, if_neg fun hmem => hblock hmem.1]
  have hback {lpn ppn : ℕ} (hl : s.l2pTable lpn = some ppn) (hblock : ppnToBlock ppn = b) :
      s.reverseMap (blockPageToPpn b (ppnToPage ppn)) = some lpn := by
    obtain ⟨hlt, hrev, _⟩ := h.mapped lpn ppn hl
    rwa [← hblock, blockPageToPpn_self hlt]
  constructor
  · intro hpres
    refine copiesFit_of_replaced hrep fun p hp hmapped => ?_
    obtain ⟨lpn, hrev⟩ := Option.ne_none_iff_exists'.1 hmapped
    have hl := h.back _ _ hrev
    obtain ⟨ppn, hl', hv, hd⟩ :=
      hpres.written lpn _ (hself hl (ppnToBlock_mk hb hp))
    rw [hl, Option.some_inj] at hl'
    rw [← hl', ppnToBlock_mk hb hp, ppnToPage_mk hb hp, ppnToBlock_mk hr hp,
      ppnToPage_mk hr hp] at hd
    rw [ppnToPage_mk hb hp, ppnToBlock_mk hr hp, ppnToPage_mk hr hp] at hv
    exact ⟨hv, hd⟩
  · intro hfit
    refine ⟨fun lpn d hread => ?_, fun lpn ppn' hl' => ?_⟩
    · obtain ⟨hlt, ppn, hl, hv, hgood, hd⟩ := (readable_iff hon).1 hread
      refine (readable_iff hon').2 ⟨hlt, ?_⟩
      by_cases hblock : ppnToBlock ppn = b
      · obtain ⟨hv', hd'⟩ := replaced_self h hrep hb hr ppnToPage_lt (hback hl hblock) hfit
        refine ⟨_, hself hl hblock, ?_⟩
        rw [ppnToBlock_mk hr ppnToPage_lt, ppnToPage_mk hr ppnToPage_lt]
        exact ⟨hv', hrep.good, by rw [hd', ← hd, hblock]⟩
      · obtain ⟨hv', hgood', hd'⟩ := replaced_other h hrep hl hblock
        exact ⟨ppn, hother hl hblock, hv', hgood' hgood, by rw [hd', hd]⟩
    · cases hl : s.l2pTable lpn with
      | none =>
        rw [hl2p, hmaps.unmapped lpn hl] at hl'
        simp at hl'
      | some ppn =>
        refine ⟨ppn, rfl, ?_⟩
        by_cases hblock : ppnToBlock ppn = b
        · obtain rfl := Option.some_inj.1 ((hself hl hblock).symm.trans hl')
          rw [ppnToBlock_mk hr ppnToPage_lt, ppnToPage_mk hr ppnToPage_lt, hblock]
          exact replaced_self h hrep hb hr ppnToPage_lt (hback hl hblock) hfit
        · obtain rfl := Option.some_inj.1 ((hother hl hblock).symm.trans hl')
          obtain ⟨hv', _, hd'⟩ := replaced_other h hrep hl hblock
          exact ⟨hv', by rw [hd']⟩

/-- The block that holds the logical page 0 is replaced. -/
theorem replaceBadBlock_preserves_pageHeld :
    (pageHeld.replaceBadBlock 0).1 = .ok ∧ pageHeld.Preserves (pageHeld.replaceBadBlock 0).2 := by
  have hret : (pageHeld.replaceBadBlock 0).1 = .ok := by decide +kernel
  have halloc : pageHeld.nand.allocReservedBlock.1 = .ok 120 := rfl
  have hok : pageHeld.replaceBadBlock 0 = (.ok, (pageHeld.replaceBadBlock 0).2) := by
    rw [← hret]
  refine ⟨hret, (replaceBadBlock_preserves pageHeld (pageHeld.replaceBadBlock 0).2 0
    (mappingConsistent_single rfl rfl rfl) hok).2 fun r hr p _ _ => ?_⟩
  obtain rfl := Except.ok.inj (halloc.symm.trans hr)
  have hv : (pageHeld.nand.blocks 120).pageValid p = false := rfl
  have hused : (pageHeld.nand.blocks 0).state = .used := rfl
  rw [hv, if_neg Bool.false_ne_true]
  exact hused

/-- The device of `pageHeld`, the first block of which has worn out in an erase. -/
def pageWornOut : Ftl :=
  { pageHeld with nand := pageHeld.nand.setBlock 0 (pageHeld.nand.blocks 0).wearOut }

/-- The logical page in the bad block is redirected to a page that has never been written. -/
theorem not_replaceBadBlock_preserves : pageWornOut.MappingConsistent ∧
    (pageWornOut.replaceBadBlock 0).1 = .ok ∧
    ¬ pageWornOut.Preserves (pageWornOut.replaceBadBlock 0).2 := by
  have hl : (pageWornOut.replaceBadBlock 0).2.l2pTable 0 = some (120 * 256) := by decide +kernel
  have hv : (pageWornOut.replaceBadBlock 0).2.nand.isPageValid 120 0 = false := by decide +kernel
  refine ⟨mappingConsistent_single rfl rfl rfl, by decide +kernel, fun h => ?_⟩
  obtain ⟨_, _, hv', _⟩ := h.written 0 _ hl
  rw [show ppnToBlock (120 * 256) = 120 from rfl, show ppnToPage (120 * 256) = 0 from rfl, hv] at hv'
  exact Bool.false_ne_true hv'

end Ftl

end FtlFirmware
