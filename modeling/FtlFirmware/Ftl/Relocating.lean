import FtlFirmware.Ftl.Levelling
import FtlFirmware.Ftl.Mapping

/-!
# The pages that a relocation destroys

On a device with consistent maps, a logical page is *live* with the data that its page gives back
(`Live`). The static wear levelling and the handling of read disturb move the mapped pages of a
block to a free block, one after another (`Migrating`). A page stays where it is if the page with
the same number of the free block is valid, which the state of that block does not exclude. The
block is erased all the same, so that a logical page is lost exactly if there is such a page and the
block does not wear out in the erase (`Spared`, `relocations_live`).
-/

namespace FtlFirmware

namespace Nand

variable {n : Nand} {b b' p p' : ℕ} {d : PageData}

/-! ## Reading back -/

@[simp] theorem readBack_countRead (ecc : EccResult) :
    (n.countRead b' ecc).readBack b p = n.readBack b p := rfl

@[simp] theorem readBack_setBlock (blk : PhyBlock) :
    (n.setBlock b' blk).readBack b p = n.readBack b p := rfl

/-- A page that has been programmed gives back its data. -/
theorem readBack_program_self : (n.program b p d).readBack b p = (.ok, d) := by
  have hecc := eccHammingDecode_self d (by decide)
  simp [readBack, program, writtenOob, hecc]

/-- What a page gives back depends on its data and its OOB area only. -/
theorem readBack_congr {n' : Nand} (hoob : n'.media.oob (b, p) = n.media.oob (b, p))
    (hdata : n'.media.data (b, p) = n.media.data (b, p)) :
    n'.readBack b p = n.readBack b p := by
  simp only [readBack, hoob, hdata]

/-- Programming a page leaves the other ones alone. -/
theorem readBack_program_of_ne (hne : (b, p) ≠ (b', p')) :
    (n.program b' p' d).readBack b p = n.readBack b p :=
  readBack_congr (Function.update_of_ne hne _ _) (Function.update_of_ne hne _ _)

/-! ## Valid pages -/

/-- Whether a page is valid depends on its own block only. -/
theorem isPageValid_congr {n' : Nand} (hon : n'.isInitialized = n.isInitialized)
    (hvalid : (n'.blocks b).pageValid p = (n.blocks b).pageValid p) :
    n'.isPageValid b p = n.isPageValid b p := by
  rw [isPageValid, isPageValid, isBlockValid, isBlockValid, hon, hvalid]

theorem isPageValid_iff : n.isPageValid b p ↔
    n.isBlockValid b ∧ p < pagesPerBlock ∧ (n.blocks b).pageValid p := by
  simp [isPageValid, and_assoc]

@[simp] theorem isPageValid_countRead (ecc : EccResult) :
    (n.countRead b' ecc).isPageValid b p = n.isPageValid b p := by
  refine isPageValid_congr rfl ?_
  rw [countRead_blocks, Function.update_apply]
  split
  · next heq => rw [heq, PhyBlock.countRead_pageValid]
  · rfl

end Nand

namespace Ftl

variable {s s₀ s' : Ftl} {lpn src dst page : ℕ} {pages : List ℕ} {buf d : PageData}

/-! ## Live pages -/

/-- The logical page `lpn` is mapped to a valid page, which gives back the data `d`. -/
def Live (s : Ftl) (lpn : ℕ) (d : PageData) : Prop :=
  ∃ ppn, s.l2pTable lpn = some ppn ∧ s.nand.isPageValid (ppnToBlock ppn) (ppnToPage ppn) ∧
    (s.nand.readBack (ppnToBlock ppn) (ppnToPage ppn)).2 = d

namespace MappingConsistent

/-- The maps are inverse to each other. -/
theorem lookup (h : s.MappingConsistent) : Lookup s.l2pTable s.reverseMap := fun lpn ppn =>
  ⟨fun hl => (h.mapped lpn ppn hl).2.1, h.back lpn ppn⟩

/-- Maps that are inverse to each other are consistent if the mapped pages are valid. -/
theorem of_lookup (h : Lookup s.l2pTable s.reverseMap)
    (hvalid : ∀ lpn ppn, s.l2pTable lpn = some ppn →
      s.nand.isPageValid (ppnToBlock ppn) (ppnToPage ppn)) : s.MappingConsistent where
  mapped lpn ppn hl := by
    have hv := Nand.isPageValid_iff.1 (hvalid lpn ppn hl)
    exact ⟨ppnToBlock_lt_iff.1 (Nand.isBlockValid_iff.1 hv.1).1, (h lpn ppn).1 hl, hvalid lpn ppn hl⟩
  back lpn ppn hr := (h lpn ppn).2 hr
  inj _ _ _ hl hl' := h.inj hl hl'

/-- A page that is mapped back is valid. -/
theorem valid_of_back (h : s.MappingConsistent) (hsrc : src < totalBlocks)
    (hp : page < pagesPerBlock) (hr : s.reverseMap (blockPageToPpn src page) = some lpn) :
    s.nand.isPageValid src page := by
  have hv := (h.mapped _ _ (h.back _ _ hr)).2.2
  rwa [ppnToBlock_mk hsrc hp, ppnToPage_mk hsrc hp] at hv

end MappingConsistent

/-! ## Moving one page -/

/-- The device after the page `page` of the block `src` has been moved to the block `dst`. -/
def relocated (s : Ftl) (src dst page lpn : ℕ) : Ftl :=
  let r := s.nand.readBack src page
  let n := (s.nand.countRead src r.1).program dst page r.2
  { s.remap lpn (blockPageToPpn src page) (blockPageToPpn dst page) with
    nand := n.setBlock src ((n.blocks src).invalidate page)
    nandWritePages := s.nandWritePages + 1 }

theorem relocated_of_ne {b : ℕ} (hsrc : b ≠ src) (hdst : b ≠ dst) :
    (s.relocated src dst page lpn).nand.blocks b = s.nand.blocks b := by
  simp [relocated, hsrc, hdst]

section Relocated

variable (hne : dst ≠ src)
include hne

theorem relocated_src : (s.relocated src dst page lpn).nand.blocks src =
    (s.nand.blocks src).countRead.invalidate page := by
  simp [relocated, hne.symm]

theorem relocated_dst : (s.relocated src dst page lpn).nand.blocks dst =
    (s.nand.blocks dst).program page := by
  simp [relocated, hne]

/-- The other pages are as valid as before. -/
theorem relocated_isPageValid {b p : ℕ} (hsrc : (b, p) ≠ (src, page))
    (hdst : (b, p) ≠ (dst, page)) :
    (s.relocated src dst page lpn).nand.isPageValid b p = s.nand.isPageValid b p := by
  refine Nand.isPageValid_congr rfl ?_
  by_cases hb : b = src
  · have hp : p ≠ page := fun hp => hsrc (by rw [hb, hp])
    rw [hb, relocated_src hne, PhyBlock.invalidate_pageValid, Function.update_of_ne hp,
      PhyBlock.countRead_pageValid]
  · by_cases hb' : b = dst
    · have hp : p ≠ page := fun hp => hdst (by rw [hb', hp])
      rw [hb', relocated_dst hne, PhyBlock.program_pageValid, Function.update_of_ne hp]
    · rw [relocated_of_ne hb hb']

end Relocated

/-- The page that has been moved gives back the data that it gave back before. -/
theorem relocated_readBack : ((s.relocated src dst page lpn).nand.readBack dst page).2 =
    (s.nand.readBack src page).2 := by
  dsimp only [relocated]
  rw [Nand.readBack_setBlock, Nand.readBack_program_self]

/-- The other pages give back the same data. -/
theorem relocated_readBack_of_ne {b p : ℕ} (hdst : (b, p) ≠ (dst, page)) :
    (s.relocated src dst page lpn).nand.readBack b p = s.nand.readBack b p := by
  dsimp only [relocated]
  rw [Nand.readBack_setBlock, Nand.readBack_program_of_ne hdst, Nand.readBack_countRead]

/-- A valid page is moved, unless the page that it is to be moved to is valid. -/
theorem migratePage_cases (hsrc : s.nand.Accessible src page)
    (hv : (s.nand.blocks src).pageValid page) (hdst : s.nand.Accessible dst page)
    (hne : dst ≠ src) (lpn : ℕ) (buf : PageData) :
    ((s.nand.blocks dst).pageValid page ∧ ∃ ret d ecc, ret ≠ .ok ∧
      s.migratePage src dst page lpn buf = (ret, d, { s with nand := s.nand.countRead src ecc })) ∨
    ((s.nand.blocks dst).pageValid page = false ∧ ∃ d,
      s.migratePage src dst page lpn buf = (.ok, d, s.relocated src dst page lpn)) := by
  rw [migratePage, Nand.pageRead_of_valid hsrc hv]
  dsimp only
  set n := s.nand.countRead src (s.nand.readBack src page).1 with hn
  have hblock : n.blocks dst = s.nand.blocks dst := by
    rw [hn, Nand.countRead_blocks, Function.update_of_ne hne]
  have hacc : n.Accessible dst page := ⟨hdst.blockValid, hdst.page_lt, hblock ▸ hdst.good⟩
  rcases n.pageWrite_cases dst page (s.nand.readBack src page).2 with
    ⟨_, hv', hw⟩ | ⟨ret, hret, hw, _⟩
  · refine Or.inr ⟨hblock ▸ hv', (s.nand.readBack src page).2, ?_⟩
    have hsrc' : (n.program dst page (s.nand.readBack src page).2).Accessible src page := by
      refine ⟨hsrc.blockValid, hsrc.page_lt, ?_⟩
      rw [Nand.program_blocks, Function.update_of_ne hne.symm, hn, Nand.countRead_blocks,
        Function.update_self]
      exact hsrc.good
    have hvsrc : ((n.program dst page (s.nand.readBack src page).2).blocks src).pageValid page := by
      rw [Nand.program_blocks, Function.update_of_ne hne.symm, hn, Nand.countRead_blocks,
        Function.update_self]
      exact hv
    rw [hw]
    dsimp only [remap_nand]
    rw [Nand.markPageInvalid_of_valid hsrc' hvsrc]
    rfl
  · have hv' : (s.nand.blocks dst).pageValid page := by
      by_contra hv'
      rw [← hblock] at hv'
      rw [Nand.pageWrite_of_invalid hacc (Bool.eq_false_iff.2 hv')] at hw
      exact hret (Prod.mk.inj hw).1.symm
    refine Or.inl ⟨hv', ret, (s.nand.readBack src page).2, (s.nand.readBack src page).1, hret, ?_⟩
    rw [hw]
    cases ret with
    | ok => exact absurd rfl hret
    | _ => rfl

/-- What a relocation does when it comes to the page `page` of the block `src`: the page stays if
    the page with its number of the block `dst` is valid. Nothing that is live is lost. -/
structure Passed (src dst page : ℕ) (s s' : Ftl) : Prop where
  consistent : s'.MappingConsistent
  live : ∀ lpn d, s.Live lpn d → s'.Live lpn d
  on : s'.nand.isInitialized = s.nand.isInitialized
  goodSrc : (s.nand.blocks src).state ≠ .bad → (s'.nand.blocks src).state ≠ .bad
  goodDst : (s.nand.blocks dst).state ≠ .bad → (s'.nand.blocks dst).state ≠ .bad
  erases : (s'.nand.blocks src).eraseCount = (s.nand.blocks src).eraseCount
  type : s'.nand.nandType = s.nand.nandType
  rand : s'.nand.rand = s.nand.rand
  valid : ∀ p, p ≠ page → (s'.nand.blocks dst).pageValid p = (s.nand.blocks dst).pageValid p
  back : ∀ p < pagesPerBlock, p ≠ page →
    s'.reverseMap (blockPageToPpn src p) = s.reverseMap (blockPageToPpn src p)
  self : s'.reverseMap (blockPageToPpn src page) =
    if (s.nand.blocks dst).pageValid page then s.reverseMap (blockPageToPpn src page) else none

namespace Passed

/-- A page that nothing is mapped to is skipped. -/
theorem skip (h : s.MappingConsistent) (hr : s.reverseMap (blockPageToPpn src page) = none) :
    Passed src dst page s s where
  consistent := h
  live _ _ hl := hl
  on := rfl
  goodSrc := id
  goodDst := id
  erases := rfl
  type := rfl
  rand := rfl
  valid _ _ := rfl
  back _ _ _ := rfl
  self := by rw [hr, ite_self]

/-- A page that cannot be moved has been read. -/
theorem stuck (h : s.MappingConsistent) (hv : (s.nand.blocks dst).pageValid page)
    (ecc : EccResult) :
    Passed src dst page s { s with nand := s.nand.countRead src ecc } where
  consistent := .of_lookup h.lookup fun lpn ppn hl => by
    rw [Nand.isPageValid_countRead]
    exact (h.mapped lpn ppn hl).2.2
  live lpn d := by
    rintro ⟨ppn, hl, hv, hd⟩
    refine ⟨ppn, hl, ?_, hd⟩
    rwa [Nand.isPageValid_countRead]
  on := rfl
  goodSrc hgood := by
    rw [Nand.countRead_blocks, Function.update_self]
    exact hgood
  goodDst hgood := by
    rw [Nand.countRead_blocks, Function.update_apply]
    split
    · next heq => exact heq ▸ hgood
    · exact hgood
  erases := by
    rw [Nand.countRead_blocks, Function.update_self]
    rfl
  type := rfl
  rand := rfl
  valid p _ := by
    rw [Nand.countRead_blocks, Function.update_apply]
    split
    · next heq => rw [heq, PhyBlock.countRead_pageValid]
    · rfl
  back _ _ _ := rfl
  self := (if_pos hv).symm

/-- A page that can be moved. -/
theorem moved (h : s.MappingConsistent) (hsrc : s.nand.Accessible src page)
    (hdst : s.nand.Accessible dst page) (hne : dst ≠ src)
    (hr : s.reverseMap (blockPageToPpn src page) = some lpn)
    (hv : (s.nand.blocks dst).pageValid page = false) :
    Passed src dst page s (s.relocated src dst page lpn) := by
  have hp := hsrc.page_lt
  have hlsrc := (Nand.isBlockValid_iff.1 hsrc.blockValid).1
  have hldst := (Nand.isBlockValid_iff.1 hdst.blockValid).1
  have hl := h.back _ _ hr
  -- Nothing is mapped to the page that the data goes to.
  have hnone : s.reverseMap (blockPageToPpn dst page) = none := by
    by_contra hsome
    obtain ⟨lpn', hr'⟩ := Option.ne_none_iff_exists'.1 hsome
    have hv' := (Nand.isPageValid_iff.1 (h.valid_of_back hldst hp hr')).2.2
    rw [hv] at hv'
    exact Bool.false_ne_true hv'
  have hpages (p : ℕ) (hlt : p < pagesPerBlock) :
      blockPageToPpn src p ≠ blockPageToPpn dst page := fun heq => hne (by
    rw [← ppnToBlock_mk hlsrc hlt, heq, ppnToBlock_mk hldst hp])
  -- The pages of the other logical pages are neither the page moved nor the one it goes to.
  have hother (lpn' ppn : ℕ) (hne' : lpn' ≠ lpn) (hl' : s.l2pTable lpn' = some ppn) :
      (ppnToBlock ppn, ppnToPage ppn) ≠ (src, page) ∧
        (ppnToBlock ppn, ppnToPage ppn) ≠ (dst, page) := by
    have hlt := (h.mapped _ _ hl').1
    refine ⟨fun heq => hne' ?_, fun heq => ?_⟩
    · obtain ⟨rfl, rfl⟩ := Prod.mk.inj heq
      rw [blockPageToPpn_self hlt] at hl
      exact h.inj _ _ _ hl' hl
    · obtain ⟨rfl, rfl⟩ := Prod.mk.inj heq
      rw [blockPageToPpn_self hlt, (h.mapped _ _ hl').2.1] at hnone
      exact Option.some_ne_none _ hnone
  have hnew : (s.relocated src dst page lpn).nand.isPageValid dst page := by
    refine Nand.isPageValid_iff.2 ⟨hdst.blockValid, hp, ?_⟩
    rw [relocated_dst hne, PhyBlock.program_pageValid, Function.update_self]
  exact {
    consistent := .of_lookup (h.lookup.move hl hnone) fun lpn' ppn hl' => by
      dsimp only [relocated, remap_l2pTable] at hl'
      rw [Function.update_apply] at hl'
      split at hl'
      · rw [← Option.some_inj.1 hl', ppnToBlock_mk hldst hp, ppnToPage_mk hldst hp]
        exact hnew
      · next hne' =>
        obtain ⟨hsrc', hdst'⟩ := hother lpn' ppn hne' hl'
        rw [relocated_isPageValid hne hsrc' hdst']
        exact (h.mapped _ _ hl').2.2
    live := by
      rintro lpn' d ⟨ppn, hl', hv', hd⟩
      by_cases hlpn : lpn' = lpn
      · subst hlpn
        obtain rfl := Option.some_inj.1 (hl'.symm.trans hl)
        rw [ppnToBlock_mk hlsrc hp, ppnToPage_mk hlsrc hp] at hd
        refine ⟨blockPageToPpn dst page, Function.update_self _ _ _, ?_, ?_⟩
        · rw [ppnToBlock_mk hldst hp, ppnToPage_mk hldst hp]
          exact hnew
        · rw [ppnToBlock_mk hldst hp, ppnToPage_mk hldst hp, relocated_readBack, hd]
      · obtain ⟨hsrc', hdst'⟩ := hother lpn' ppn hlpn hl'
        refine ⟨ppn, (Function.update_of_ne hlpn _ _).trans hl', ?_, ?_⟩
        · rwa [relocated_isPageValid hne hsrc' hdst']
        · rwa [relocated_readBack_of_ne hdst']
    on := rfl
    goodSrc := fun hgood => by
      rw [relocated_src hne]
      exact PhyBlock.invalidate_state_ne_bad hgood
    goodDst := fun _ => by
      rw [relocated_dst hne]
      exact BlockState.noConfusion
    erases := by
      rw [relocated_src hne]
      rfl
    type := rfl
    rand := rfl
    valid := fun p hpne => by
      rw [relocated_dst hne, PhyBlock.program_pageValid, Function.update_of_ne hpne]
    back := fun p hlt hpne => by
      have hpne' : blockPageToPpn src p ≠ blockPageToPpn src page := fun heq => hpne (by
        rw [← ppnToPage_mk hlsrc hlt, heq, ppnToPage_mk hlsrc hp])
      exact (Function.update_of_ne hpne' _ _).trans (Function.update_of_ne (hpages p hlt) _ _)
    self := by
      rw [hv]
      exact Function.update_self _ _ _ }

end Passed

/-! ## Moving a block -/

/-- The device in a relocation of the block `src` to the block `dst` that began in the state `s₀`
    and has still to come to the pages `pages`. -/
structure Migrating (s₀ : Ftl) (src dst : ℕ) (pages : List ℕ) (s : Ftl) : Prop where
  consistent : s.MappingConsistent
  live : ∀ lpn d, s₀.Live lpn d → s.Live lpn d
  on : s.nand.isInitialized
  goodSrc : (s.nand.blocks src).state ≠ .bad
  goodDst : (s.nand.blocks dst).state ≠ .bad
  erases : (s.nand.blocks src).eraseCount = (s₀.nand.blocks src).eraseCount
  type : s.nand.nandType = s₀.nand.nandType
  rand : s.nand.rand = s₀.nand.rand
  valid : ∀ p ∈ pages, (s.nand.blocks dst).pageValid p = (s₀.nand.blocks dst).pageValid p
  todo : ∀ p ∈ pages,
    s.reverseMap (blockPageToPpn src p) = s₀.reverseMap (blockPageToPpn src p)
  done : ∀ p < pagesPerBlock, p ∉ pages → s.reverseMap (blockPageToPpn src p) =
    if (s₀.nand.blocks dst).pageValid p then s₀.reverseMap (blockPageToPpn src p) else none

namespace Migrating

/-- The beginning of a relocation. -/
theorem start (h : s.MappingConsistent) (hon : s.nand.isInitialized)
    (hsrc : (s.nand.blocks src).state ≠ .bad) (hdst : (s.nand.blocks dst).state ≠ .bad) :
    Migrating s src dst (List.range pagesPerBlock) s where
  consistent := h
  live _ _ hl := hl
  on := hon
  goodSrc := hsrc
  goodDst := hdst
  erases := rfl
  type := rfl
  rand := rfl
  valid _ _ := rfl
  todo _ _ := rfl
  done _ hp hmem := absurd (List.mem_range.2 hp) hmem

/-- The relocation comes to the next page. -/
theorem pass (h : Migrating s₀ src dst (page :: pages) s) (hpass : Passed src dst page s s')
    (hpages : ∀ p ∈ pages, p < pagesPerBlock) (hnd : page ∉ pages) :
    Migrating s₀ src dst pages s' where
  consistent := hpass.consistent
  live lpn d hl := hpass.live lpn d (h.live lpn d hl)
  on := hpass.on.trans h.on
  goodSrc := hpass.goodSrc h.goodSrc
  goodDst := hpass.goodDst h.goodDst
  erases := hpass.erases.trans h.erases
  type := hpass.type.trans h.type
  rand := hpass.rand.trans h.rand
  valid p hp := by
    rw [hpass.valid p (ne_of_mem_of_not_mem hp hnd), h.valid p (List.mem_cons_of_mem _ hp)]
  todo p hp := by
    rw [hpass.back p (hpages p hp) (ne_of_mem_of_not_mem hp hnd),
      h.todo p (List.mem_cons_of_mem _ hp)]
  done p hp hmem := by
    by_cases hpage : p = page
    · rw [hpage, hpass.self, h.valid page List.mem_cons_self, h.todo page List.mem_cons_self]
    · rw [hpass.back p hp hpage, h.done p hp fun hmem' => (List.mem_cons.1 hmem').elim hpage hmem]

/-- The whole relocation. -/
theorem migratePages (h : Migrating s₀ src dst pages s) (hsrc : src < totalBlocks)
    (hdst : dst < totalBlocks) (hne : dst ≠ src) (hpages : ∀ p ∈ pages, p < pagesPerBlock)
    (hnd : pages.Nodup) (buf : PageData) (moved : UInt32) :
    Migrating s₀ src dst [] (Ftl.migratePages src dst buf moved pages s).2 := by
  induction pages generalizing s buf moved with
  | nil => exact h
  | cons page pages ih =>
    obtain ⟨hmem, hnd⟩ := List.nodup_cons.1 hnd
    have hp := hpages page List.mem_cons_self
    have hpages' : ∀ p ∈ pages, p < pagesPerBlock := fun q hq =>
      hpages q (List.mem_cons_of_mem _ hq)
    have hskip (hr : s.reverseMap (blockPageToPpn src page) = none) :
        Migrating s₀ src dst pages s := h.pass (.skip h.consistent hr) hpages' hmem
    rw [Ftl.migratePages]
    split
    · next hinvalid =>
      -- Nothing is mapped to a page that is not valid.
      refine ih (hskip ?_) hpages' hnd buf moved
      by_contra hsome
      obtain ⟨lpn, hr⟩ := Option.ne_none_iff_exists'.1 hsome
      exact hinvalid (h.consistent.valid_of_back hsrc hp hr)
    · next hvalid =>
      have hv := Nand.isPageValid_iff.1 (not_not.1 hvalid)
      cases hr : s.reverseMap (blockPageToPpn src page) with
      | none => exact ih (hskip hr) hpages' hnd buf moved
      | some lpn =>
        have haccSrc : s.nand.Accessible src page := ⟨hv.1, hp, h.goodSrc⟩
        have haccDst : s.nand.Accessible dst page :=
          ⟨Nand.isBlockValid_iff.2 ⟨hdst, h.on⟩, hp, h.goodDst⟩
        dsimp only
        rcases migratePage_cases haccSrc hv.2.2 haccDst hne lpn buf with
          ⟨hvdst, ret, d, ecc, hret, heq⟩ | ⟨hvdst, d, heq⟩
        · have hpass := h.pass (.stuck h.consistent hvdst ecc) hpages' hmem
          rw [heq]
          cases ret with
          | ok => exact absurd rfl hret
          | _ => exact ih hpass hpages' hnd d moved
        · rw [heq]
          exact ih (h.pass (.moved h.consistent haccSrc haccDst hne hr hvdst) hpages' hmem)
            hpages' hnd d (moved + 1)

end Migrating

/-! ## Erasing the block -/

/-- The block wears out in its next erase. -/
def WearsOut (n : Nand) (b : ℕ) : Prop :=
  getEraseThreshold n.nandType < (n.blocks b).eraseCount ∧ n.rand 0 % 100 < highWearBadRatio

/-- The relocation of the block `src` to the block `dst` destroys no page: where a page is mapped,
    the page with its number is not valid, or else the block is not erased as it wears out. -/
def Harmless (s : Ftl) (src dst : ℕ) : Prop :=
  (∀ p < pagesPerBlock, s.reverseMap (blockPageToPpn src p) ≠ none →
    (s.nand.blocks dst).pageValid p = false) ∨ WearsOut s.nand src

/-- A block that wears out is not erased; its pages stay valid. -/
theorem blockErase_of_wearsOut {n : Nand} (hsrc : n.isBlockValid src)
    (hgood : (n.blocks src).state ≠ .bad) (h : WearsOut n src) :
    (n.blockErase src).2 = n.draw.2.setBlock src (n.blocks src).wearOut := by
  have hdraw : n.draw.1 % 100 < highWearBadRatio := h.2
  rw [Nand.blockErase, if_neg (not_not.2 hsrc), if_neg hgood, if_pos h.1, if_pos hdraw]

/-- Any other block is erased. -/
theorem blockErase_of_not_wearsOut {n : Nand} (hsrc : n.isBlockValid src)
    (hgood : (n.blocks src).state ≠ .bad) (h : ¬ WearsOut n src) :
    ∃ r, (n.blockErase src).2 = ({ n with rand := r } : Nand).erase src := by
  rw [Nand.blockErase, if_neg (not_not.2 hsrc), if_neg hgood]
  split
  · next hworn =>
    have hdraw : ¬ n.draw.1 % 100 < highWearBadRatio := fun hdraw => h ⟨hworn, hdraw⟩
    rw [if_neg hdraw]
    exact ⟨_, rfl⟩
  · exact ⟨n.rand, rfl⟩

/-- What is live after a block has been erased. -/
theorem live_erase {b : ℕ} {r : ℕ → ℕ} :
    ({ s with nand := ({ s.nand with rand := r } : Nand).erase b } : Ftl).Live lpn d ↔
      ∃ ppn, s.l2pTable lpn = some ppn ∧ ppnToBlock ppn ≠ b ∧
        s.nand.isPageValid (ppnToBlock ppn) (ppnToPage ppn) ∧
        (s.nand.readBack (ppnToBlock ppn) (ppnToPage ppn)).2 = d := by
  refine exists_congr fun ppn => and_congr_right fun _ => ?_
  rw [← and_assoc]
  refine and_congr ?_ Iff.rfl
  by_cases hb : ppnToBlock ppn = b
  · refine iff_of_false (fun hv => ?_) fun hv => hv.1 hb
    have := (Nand.isPageValid_iff.1 hv).2.2
    rw [hb, Nand.erase_blocks, Function.update_self, PhyBlock.erase_pageValid] at this
    exact Bool.false_ne_true this
  · rw [and_iff_right hb]
    refine Eq.congr_left (Nand.isPageValid_congr rfl ?_)
    rw [Nand.erase_blocks, Function.update_of_ne hb]

/-- Nothing that is live is lost exactly if the relocation is harmless. -/
theorem Migrating.erase (h : Migrating s₀ src dst [] s) (h₀ : s₀.MappingConsistent)
    (hsrc : src < totalBlocks) :
    (∀ lpn d, s₀.Live lpn d → ({ s with nand := (s.nand.blockErase src).2 } : Ftl).Live lpn d) ↔
      s₀.Harmless src dst := by
  have hvalid : s.nand.isBlockValid src := Nand.isBlockValid_iff.2 ⟨hsrc, h.on⟩
  have hworn : WearsOut s.nand src ↔ WearsOut s₀.nand src := by
    rw [WearsOut, WearsOut, h.erases, h.type, h.rand]
  by_cases hwears : WearsOut s.nand src
  · refine iff_of_true (fun lpn d hl => ?_) (Or.inr (hworn.1 hwears))
    obtain ⟨ppn, hl', hv, hd⟩ := h.live lpn d hl
    rw [blockErase_of_wearsOut hvalid h.goodSrc hwears]
    refine ⟨ppn, hl', ?_, hd⟩
    rw [← hv]
    refine Nand.isPageValid_congr rfl ?_
    rw [Nand.setBlock_blocks, Function.update_apply]
    split
    · next heq => rw [heq]; rfl
    · rfl
  · obtain ⟨r, herase⟩ := blockErase_of_not_wearsOut hvalid h.goodSrc hwears
    rw [herase, Harmless, or_iff_left (mt hworn.2 hwears)]
    constructor
    · intro hlive p hp hmapped
      by_contra hv
      obtain ⟨lpn, hr₀⟩ := Option.ne_none_iff_exists'.1 hmapped
      -- The page has stayed, and is in the block that has been erased.
      have hr := h.done p hp List.not_mem_nil
      rw [if_pos (eq_true_of_ne_false hv), hr₀] at hr
      have hl := h.consistent.back _ _ hr
      obtain ⟨ppn, hl', hne, _⟩ := live_erase.1 (hlive lpn _
        ⟨_, h₀.back _ _ hr₀, (h₀.mapped _ _ (h₀.back _ _ hr₀)).2.2, rfl⟩)
      rw [hl, Option.some_inj] at hl'
      rw [← hl', ppnToBlock_mk hsrc hp] at hne
      exact hne rfl
    · intro hharmless lpn d hl
      obtain ⟨ppn, hl', hv, hd⟩ := h.live lpn d hl
      refine live_erase.2 ⟨ppn, hl', fun hblock => ?_, hv, hd⟩
      obtain ⟨hlt, hr, _⟩ := h.consistent.mapped _ _ hl'
      have hppn : blockPageToPpn src (ppnToPage ppn) = ppn := by
        rw [← hblock, blockPageToPpn_self hlt]
      have hdone := h.done (ppnToPage ppn) ppnToPage_lt List.not_mem_nil
      rw [hppn, hr] at hdone
      split at hdone
      · next hvdst =>
        rw [hharmless _ ppnToPage_lt (by rw [hppn, ← hdone]; exact Option.some_ne_none _)] at hvdst
        exact Bool.false_ne_true hvdst
      · exact Option.some_ne_none _ hdone

/-- Moving a used block to a free one and erasing it. -/
theorem relocation_live (h : s.MappingConsistent)
    (hsrc : s.nand.isBlockValid src ∧ (s.nand.blocks src).state = .used)
    (hdst : s.nand.isBlockValid dst ∧ (s.nand.blocks dst).state = .free)
    (hs' : (migratePages src dst blankPage 0 (List.range pagesPerBlock) s).2 = s') :
    (∀ lpn d, s.Live lpn d →
      ({ s' with nand := (s'.nand.blockErase src).2 } : Ftl).Live lpn d) ↔
      s.Harmless src dst := by
  obtain ⟨hlt, hon⟩ := Nand.isBlockValid_iff.1 hsrc.1
  have hne : dst ≠ src := by
    rintro rfl
    exact BlockState.noConfusion (hsrc.2.symm.trans hdst.2)
  have hstart : Migrating s src dst (List.range pagesPerBlock) s :=
    .start h hon (by rw [hsrc.2]; exact BlockState.noConfusion)
      (by rw [hdst.2]; exact BlockState.noConfusion)
  have hend := hstart.migratePages hlt (Nand.isBlockValid_iff.1 hdst.1).1 hne
    (fun p hp => List.mem_range.1 hp) List.nodup_range blankPage 0
  rw [hs'] at hend
  exact hend.erase h hlt

/-- The static wear levelling, if it moves a block. -/
theorem staticWearLevelingCheck_live (h : s.MappingConsistent)
    (hpair : staticWearPair s.nand = some (src, dst)) :
    (∀ lpn d, s.Live lpn d → s.staticWearLevelingCheck.Live lpn d) ↔ s.Harmless src dst := by
  obtain ⟨hsrc, hdst⟩ := staticWearPair_spec hpair
  rw [staticWearLevelingCheck, hpair]
  exact relocation_live h hsrc hdst rfl

/-- On a device with consistent maps, the static wear levelling and the handling of read disturb
    leave every logical page that is live as it is exactly if the relocation they make, if any, is
    harmless. -/
theorem relocations_live (s : Ftl) (h : s.MappingConsistent) :
    ((∀ lpn d, s.Live lpn d → s.staticWearLevelingCheck.Live lpn d) ↔
      ∀ src dst, staticWearPair s.nand = some (src, dst) → s.Harmless src dst) ∧
    ((∀ lpn d, s.Live lpn d → s.handleReadDisturb.2.Live lpn d) ↔
      (s.isInitialized → ∀ src dst, s.nand.checkReadDisturb = some src →
        s.findNextFreeBlock 0 = some dst → s.Harmless src dst)) := by
  constructor
  · cases hpair : staticWearPair s.nand with
    | none => simp [staticWearLevelingCheck_eq_iff.2 hpair]
    | some pair =>
      obtain ⟨src, dst⟩ := pair
      refine (staticWearLevelingCheck_live h hpair).trans ⟨fun hharmless src' dst' heq => ?_,
        fun hharmless => hharmless src dst rfl⟩
      obtain ⟨rfl, rfl⟩ := Prod.mk.inj (Option.some_inj.1 heq)
      exact hharmless
  · rw [handleReadDisturb]
    split
    · next hoff => simp [hoff]
    · next hon =>
      cases hcheck : s.nand.checkReadDisturb with
      | none => simp
      | some src =>
        dsimp only
        cases hfind : s.findNextFreeBlock 0 with
        | none => simp
        | some dst =>
          refine (relocation_live h (checkReadDisturb_spec hcheck) (findNextFreeBlock_spec hfind)
            rfl).trans ⟨fun hharmless _ src' dst' heq heq' => ?_,
            fun hharmless => hharmless (not_not.1 hon) src dst rfl rfl⟩
          obtain rfl := Option.some_inj.1 heq
          obtain rfl := Option.some_inj.1 heq'
          exact hharmless

/-- The device of `erasedTwice` with the logical page 0 in its first block. -/
def pageHeld : Ftl :=
  { erasedTwice with
    l2pTable := Function.update (fun _ => none) 0 (some 0)
    reverseMap := Function.update (fun _ => none) 0 (some 0) }

/-- The device of `pageHeld`, except that the page 0 of its second block, which is free, is
    valid. -/
def pageInTheWay : Ftl :=
  { pageHeld with
    nand := pageHeld.nand.setBlock 1
      { pageHeld.nand.blocks 1 with pageValid := Function.update (fun _ => false) 0 true } }

/-- A device in the maps of which only the logical page 0 is, at the physical page 0. -/
theorem mappingConsistent_single (hl2p : s.l2pTable = Function.update (fun _ => none) 0 (some 0))
    (hback : s.reverseMap = Function.update (fun _ => none) 0 (some 0))
    (hv : s.nand.isPageValid 0 0) : s.MappingConsistent := by
  refine .of_lookup ?_ fun lpn ppn hl => ?_
  · rw [hl2p, hback]
    exact Lookup.empty.insert rfl rfl
  · rw [hl2p, Function.update_apply] at hl
    split at hl
    · rw [← Option.some_inj.1 hl]
      exact hv
    · exact absurd hl.symm (Option.some_ne_none _)

/-- The static wear levelling moves the logical page. -/
theorem relocations_live_pageHeld :
    (∀ lpn d, pageHeld.Live lpn d → pageHeld.staticWearLevelingCheck.Live lpn d) ∧
      staticWearPair pageHeld.nand = some (0, 1) := by
  have hpair : staticWearPair pageHeld.nand = some (0, 1) := by decide +kernel
  refine ⟨(relocations_live pageHeld (mappingConsistent_single rfl rfl rfl)).1.2
    fun src dst heq => Or.inl fun p _ _ => ?_, hpair⟩
  obtain ⟨rfl, rfl⟩ := Prod.mk.inj (Option.some_inj.1 (hpair.symm.trans heq))
  rfl

/-- The page 0 of the second block is in the way of the logical page, which is lost. -/
theorem not_relocations_live : pageInTheWay.MappingConsistent ∧
    ¬ ∀ lpn d, pageInTheWay.Live lpn d → pageInTheWay.staticWearLevelingCheck.Live lpn d := by
  have h : pageInTheWay.MappingConsistent := mappingConsistent_single rfl rfl rfl
  refine ⟨h, fun hlive => ?_⟩
  have hpair : staticWearPair pageInTheWay.nand = some (0, 1) := by decide +kernel
  rcases (staticWearLevelingCheck_live h hpair).1 hlive with hfree | hworn
  · have hr : pageInTheWay.reverseMap (blockPageToPpn 0 0) ≠ none := Option.some_ne_none 0
    exact absurd (hfree 0 (by decide) hr) (by decide)
  · exact absurd hworn.1 (by decide)

end Ftl

end FtlFirmware
