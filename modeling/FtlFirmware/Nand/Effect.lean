import FtlFirmware.Nand.Basic

/-!
# What the NAND operations do

The operations on an *accessible* page, one of a block that is neither out of range nor bad
(`Accessible`), and those that are refused. A page *holds* its data if it is valid and the data
is stored with its own ECC (`Holds`): such a page is read back as it is, and it goes on holding
its data until it is invalidated or its block is erased or marked as bad.
-/

namespace FtlFirmware

namespace Nand

variable {n n' : Nand} {b p b' p' : ℕ} {d d' buf : PageData} {ret : RetCode}

/-! ## Metadata -/

@[simp] theorem setBlock_blocks (blk : PhyBlock) :
    (n.setBlock b blk).blocks = Function.update n.blocks b blk := rfl

@[simp] theorem setBlock_media (blk : PhyBlock) : (n.setBlock b blk).media = n.media := rfl

@[simp] theorem setBlock_isInitialized (blk : PhyBlock) :
    (n.setBlock b blk).isInitialized = n.isInitialized := rfl

@[simp] theorem setBlock_history (blk : PhyBlock) : (n.setBlock b blk).history = n.history := rfl

@[simp] theorem program_blocks :
    (n.program b p d).blocks = Function.update n.blocks b ((n.blocks b).program p) := rfl

@[simp] theorem program_isInitialized :
    (n.program b p d).isInitialized = n.isInitialized := rfl

@[simp] theorem program_history :
    (n.program b p d).history = .program b p :: n.history := rfl

@[simp] theorem countRead_blocks (ecc : EccResult) :
    (n.countRead b ecc).blocks = Function.update n.blocks b (n.blocks b).countRead := rfl

@[simp] theorem countRead_media (ecc : EccResult) : (n.countRead b ecc).media = n.media := rfl

@[simp] theorem countRead_isInitialized (ecc : EccResult) :
    (n.countRead b ecc).isInitialized = n.isInitialized := rfl

@[simp] theorem countRead_history (ecc : EccResult) :
    (n.countRead b ecc).history = n.history := rfl

@[simp] theorem erase_blocks :
    (n.erase b).blocks = Function.update n.blocks b (n.blocks b).erase := rfl

@[simp] theorem erase_media : (n.erase b).media = n.media := rfl

@[simp] theorem erase_isInitialized : (n.erase b).isInitialized = n.isInitialized := rfl

@[simp] theorem erase_history : (n.erase b).history = .erase b :: n.history := rfl

@[simp] theorem retire_blocks (type : BadBlockType) :
    (n.retire b type).blocks = Function.update n.blocks b ((n.blocks b).retire type) := rfl

@[simp] theorem retire_isInitialized (type : BadBlockType) :
    (n.retire b type).isInitialized = n.isInitialized := rfl

@[simp] theorem retire_history (type : BadBlockType) :
    (n.retire b type).history = n.history := rfl

/-- The metadata on new media. -/
theorem init_none_blocks (rand : ℕ → ℕ) :
    (Nand.init none rand).blocks = fun b => factoryBlock .tlc (rand b) := by
  simp only [Nand.init]

/-- The metadata on old media. -/
theorem init_some_blocks (m : Media) (rand : ℕ → ℕ) :
    (Nand.init (some m) rand).blocks = fun b => recoverBlock fun page => m.oob (b, page) := by
  simp only [Nand.init]

theorem isBlockValid_iff : n.isBlockValid b ↔ b < totalBlocks ∧ n.isInitialized := by
  simp [isBlockValid]

/-- The state of a block of the device. -/
theorem getBlockState_of_lt (hn : n.isInitialized) (hb : b < totalBlocks) :
    n.getBlockState b = (n.blocks b).state := by
  rw [getBlockState, if_pos (isBlockValid_iff.2 ⟨hb, hn⟩)]

/-- A block in another state than `bad` is one of the device. -/
theorem getBlockState_eq {st : BlockState} (hst : st ≠ .bad) :
    n.getBlockState b = st ↔ n.isBlockValid b ∧ (n.blocks b).state = st := by
  rw [getBlockState]
  split
  · next h => exact (and_iff_right h).symm
  · next h => exact iff_of_false hst.symm fun h' => h h'.1

/-! ## Accessible pages -/

/-- The page is in range and its block is not bad. -/
structure Accessible (n : Nand) (b p : ℕ) : Prop where
  blockValid : n.isBlockValid b
  page_lt : p < pagesPerBlock
  good : (n.blocks b).state ≠ .bad

/-- Writing an accessible page that is not valid. -/
theorem pageWrite_of_invalid (h : n.Accessible b p) (hv : (n.blocks b).pageValid p = false) :
    n.pageWrite b p buf = (.ok, n.program b p buf) := by
  rw [pageWrite, if_neg (by simp [h.blockValid, h.page_lt]), if_neg h.good, hv]
  rfl

/-- A page is written only if it is accessible and not valid; otherwise nothing changes. -/
theorem pageWrite_cases (n : Nand) (b p : ℕ) (buf : PageData) :
    (n.Accessible b p ∧ (n.blocks b).pageValid p = false ∧
      n.pageWrite b p buf = (.ok, n.program b p buf)) ∨
    (∃ ret, ret ≠ .ok ∧ n.pageWrite b p buf = (ret, n) ∧
      (ret = .errBadBlock → n.isBlockValid b ∧ (n.blocks b).state = .bad)) := by
  rw [pageWrite]
  split
  · exact Or.inr ⟨.errParam, by decide, rfl, by simp⟩
  · next hvalid =>
    push Not at hvalid
    split
    · next hbad => exact Or.inr ⟨.errBadBlock, by decide, rfl, fun _ => ⟨hvalid.1, hbad⟩⟩
    · next hgood =>
      cases hv : (n.blocks b).pageValid p
      · exact Or.inl ⟨⟨hvalid.1, hvalid.2, hgood⟩, rfl, rfl⟩
      · exact Or.inr ⟨.errOverwrite, by decide, rfl, by simp⟩

/-- Reading an accessible page that is valid. -/
theorem pageRead_of_valid (h : n.Accessible b p) (hv : (n.blocks b).pageValid p) :
    n.pageRead b p buf =
      (.ok, (n.readBack b p).2, n.countRead b (n.readBack b p).1) := by
  rw [pageRead, if_neg (by simp [h.blockValid, h.page_lt]), if_neg h.good, hv]
  rfl

/-- Reading an accessible page that is not valid. -/
theorem pageRead_of_invalid (h : n.Accessible b p) (hv : (n.blocks b).pageValid p = false) :
    n.pageRead b p buf = (.errNotMapped, buf, n) := by
  rw [pageRead, if_neg (by simp [h.blockValid, h.page_lt]), if_neg h.good, hv]
  rfl

/-- A page is read only if it is accessible and valid; otherwise nothing changes. -/
theorem pageRead_cases (n : Nand) (b p : ℕ) (buf : PageData) :
    (n.Accessible b p ∧ (n.blocks b).pageValid p ∧
      n.pageRead b p buf = (.ok, (n.readBack b p).2, n.countRead b (n.readBack b p).1)) ∨
    (∃ ret, ret ≠ .ok ∧ n.pageRead b p buf = (ret, buf, n) ∧
      (ret = .errBadBlock → n.isBlockValid b ∧ (n.blocks b).state = .bad)) := by
  rw [pageRead]
  split
  · exact Or.inr ⟨.errParam, by decide, rfl, by simp⟩
  · next hvalid =>
    push Not at hvalid
    split
    · next hbad => exact Or.inr ⟨.errBadBlock, by decide, rfl, fun _ => ⟨hvalid.1, hbad⟩⟩
    · next hgood =>
      cases hv : (n.blocks b).pageValid p
      · exact Or.inr ⟨.errNotMapped, by decide, rfl, by simp⟩
      · exact Or.inl ⟨⟨hvalid.1, hvalid.2, hgood⟩, rfl, rfl⟩

/-- Invalidating an accessible page that is valid. -/
theorem markPageInvalid_of_valid (h : n.Accessible b p) (hv : (n.blocks b).pageValid p) :
    n.markPageInvalid b p = (.ok, n.setBlock b ((n.blocks b).invalidate p)) := by
  rw [markPageInvalid, if_neg (by simp [h.blockValid, h.page_lt]), if_neg h.good, hv]
  rfl

/-- A page is invalidated only if it is accessible and valid; otherwise nothing changes. -/
theorem markPageInvalid_cases (n : Nand) (b p : ℕ) :
    (n.Accessible b p ∧ (n.blocks b).pageValid p ∧
      n.markPageInvalid b p = (.ok, n.setBlock b ((n.blocks b).invalidate p))) ∨
    (n.markPageInvalid b p).2 = n := by
  rw [markPageInvalid]
  split
  · exact Or.inr rfl
  · next hvalid =>
    push Not at hvalid
    split
    · exact Or.inr rfl
    · next hgood =>
      cases hv : (n.blocks b).pageValid p
      · exact Or.inr rfl
      · exact Or.inl ⟨⟨hvalid.1, hvalid.2, hgood⟩, rfl, rfl⟩

/-! ## Blocks -/

/-- A block that is neither out of range nor bad is erased, or it wears out. Otherwise nothing
    changes. -/
theorem blockErase_cases (n : Nand) (b : ℕ) :
    (∃ r, (n.blocks b).state ≠ .bad ∧
      n.blockErase b = (.ok, ({ n with rand := r } : Nand).erase b)) ∨
    (∃ r, (n.blocks b).state ≠ .bad ∧ getEraseThreshold n.nandType < (n.blocks b).eraseCount ∧
      n.blockErase b =
        (.errBadBlock, ({ n with rand := r } : Nand).setBlock b (n.blocks b).wearOut)) ∨
    (∃ ret, ret ≠ .ok ∧ n.blockErase b = (ret, n) ∧
      (n.isBlockValid b → (n.blocks b).state = .bad)) := by
  rw [blockErase]
  split
  · next h => exact Or.inr (Or.inr ⟨.errParam, by decide, rfl, fun h' => absurd h' h⟩)
  · split
    · next hbad => exact Or.inr (Or.inr ⟨.errBadBlock, by decide, rfl, fun _ => hbad⟩)
    · next hgood =>
      split
      · next hworn =>
        split
        · exact Or.inr (Or.inl ⟨_, hgood, hworn, rfl⟩)
        · exact Or.inl ⟨_, hgood, rfl⟩
      · exact Or.inl ⟨n.rand, hgood, rfl⟩

/-- A block that is not worn is erased. -/
theorem blockErase_of_unworn (hb : n.isBlockValid b) (hgood : (n.blocks b).state ≠ .bad)
    (hworn : (n.blocks b).eraseCount ≤ getEraseThreshold n.nandType) :
    n.blockErase b = (.ok, n.erase b) := by
  rw [blockErase, if_neg (not_not.2 hb), if_neg hgood, if_neg (UInt32.not_lt.2 hworn)]

/-- The pages of an erased block are accessible, and not valid. -/
theorem accessible_erase (hb : n.isBlockValid b) (hp : p < pagesPerBlock) :
    (n.erase b).Accessible b p ∧ ((n.erase b).blocks b).pageValid p = false := by
  rw [erase_blocks, Function.update_self]
  refine ⟨⟨hb, hp, ?_⟩, rfl⟩
  rw [erase_blocks, Function.update_self]
  exact BlockState.noConfusion

/-- Only used blocks are marked as cold. -/
theorem markColdBlock_cases (n : Nand) (b : ℕ) :
    ((n.blocks b).state = .used ∧
      n.markColdBlock b = (.ok, n.setBlock b (n.blocks b).markCold)) ∨
    (n.markColdBlock b).2 = n := by
  rw [markColdBlock]
  split
  · exact Or.inr rfl
  · split
    · exact Or.inr rfl
    · next hu => exact Or.inl ⟨not_not.1 hu, rfl⟩

/-- A block taken from the reserved area is free. -/
theorem allocReservedBlock_cases (n : Nand) :
    (∃ b, userBlocks ≤ b ∧ b < totalBlocks ∧ (n.blocks b).state = .free ∧
      n.allocReservedBlock = (.ok b, { n with reservedCount := n.reservedCount - 1 })) ∨
    (∃ ret, n.allocReservedBlock = (.error ret, n)) := by
  rw [allocReservedBlock]
  split
  · exact Or.inr ⟨_, rfl⟩
  · split
    · exact Or.inr ⟨_, rfl⟩
    · cases hfind : (List.range' userBlocks reservedBlocks).find?
        fun i => (n.blocks i).state = .free with
      | none => exact Or.inr ⟨_, rfl⟩
      | some b =>
        have hmem := List.mem_range'_1.1 (List.mem_of_find?_eq_some hfind)
        have hfree := List.find?_some hfind
        exact Or.inl ⟨b, hmem.1, hmem.2, of_decide_eq_true hfree, rfl⟩

/-! ## Pages that hold their data -/

/-- The page is valid, and stores the data `d` with its ECC. -/
structure Holds (n : Nand) (b p : ℕ) (d : PageData) : Prop extends n.Accessible b p where
  valid : (n.blocks b).pageValid p
  magic : (n.media.oob (b, p)).magic = oobMagic
  ecc : (n.media.oob (b, p)).ecc = hammingEcc d
  data : n.media.data (b, p) = d

/-- A page that holds its data is read back as it is. -/
theorem Holds.readBack (h : n.Holds b p d) : n.readBack b p = (.ok, d) := by
  rw [Nand.readBack, if_pos h.magic, h.data, h.ecc, eccHammingDecode_self _ (by decide)]

/-- Reading a page that holds its data. -/
theorem Holds.pageRead (h : n.Holds b p d) :
    n.pageRead b p buf = (.ok, d, n.countRead b .ok) := by
  rw [pageRead_of_valid h.toAccessible h.valid, h.readBack]

/-- A page goes on holding its data in a device that agrees on the page and on whether its block
    is bad. -/
theorem Holds.congr (h : n.Holds b p d) (hon : n'.isInitialized = n.isInitialized)
    (hgood : (n'.blocks b).state ≠ .bad)
    (hvalid : (n'.blocks b).pageValid p = (n.blocks b).pageValid p)
    (hoob : n'.media.oob (b, p) = n.media.oob (b, p))
    (hdata : n'.media.data (b, p) = n.media.data (b, p)) : n'.Holds b p d where
  blockValid := by
    rw [isBlockValid_iff, hon, ← isBlockValid_iff]
    exact h.blockValid
  page_lt := h.page_lt
  good := hgood
  valid := hvalid.trans h.valid
  magic := by rw [hoob, h.magic]
  ecc := by rw [hoob, h.ecc]
  data := by rw [hdata, h.data]

/-- A page that holds its data is another one than an invalid page. -/
theorem Holds.ne_of_invalid (h : n.Holds b p d) (hv : (n.blocks b').pageValid p' = false) :
    (b, p) ≠ (b', p') := by
  rintro heq
  obtain ⟨rfl, rfl⟩ := Prod.mk.inj heq
  rw [h.valid] at hv
  exact absurd hv (by decide)

/-- Programming an accessible page makes it hold its data. -/
theorem holds_program (h : n.Accessible b p) : (n.program b p d).Holds b p d where
  blockValid := h.blockValid
  page_lt := h.page_lt
  good := by simp
  valid := by simp
  magic := by simp [program, writtenOob]
  ecc := by simp [program, writtenOob]
  data := by simp [program]

/-- Programming a page leaves the other ones alone. -/
theorem Holds.program (h : n.Holds b p d) (hv : (n.blocks b').pageValid p' = false) :
    (n.program b' p' d').Holds b p d := by
  have hne := h.ne_of_invalid hv
  refine h.congr rfl ?_ ?_ (Function.update_of_ne hne _ _) (Function.update_of_ne hne _ _)
  · rcases eq_or_ne b b' with rfl | hb
    · simp
    · simpa [hb] using h.good
  · rcases eq_or_ne b b' with rfl | hb
    · have hp : p ≠ p' := fun hp => hne (by rw [hp])
      simp [hp]
    · simp [hb]

/-- Reading leaves the pages alone. -/
theorem Holds.countRead (h : n.Holds b p d) (ecc : EccResult) :
    (n.countRead b' ecc).Holds b p d := by
  refine h.congr rfl ?_ ?_ rfl rfl <;> rcases eq_or_ne b b' with rfl | hb
  · simpa using h.good
  · simpa [hb] using h.good
  · simp
  · simp [hb]

/-- New metadata of a block leaves the pages of the other blocks alone. -/
theorem Holds.setBlock_of_ne (h : n.Holds b p d) (hb : b ≠ b') (blk : PhyBlock) :
    (n.setBlock b' blk).Holds b p d := by
  refine h.congr rfl ?_ ?_ rfl rfl
  · simpa [hb] using h.good
  · simp [hb]

/-- Invalidating a page leaves the other ones alone. -/
theorem Holds.invalidate (h : n.Holds b p d) (hne : (b, p) ≠ (b', p')) :
    (n.setBlock b' ((n.blocks b').invalidate p')).Holds b p d := by
  rcases eq_or_ne b b' with rfl | hb
  · refine h.congr rfl ?_ ?_ rfl rfl
    · rw [setBlock_blocks, Function.update_self]
      exact PhyBlock.invalidate_state_ne_bad h.good
    · have hp : p ≠ p' := fun hp => hne (by rw [hp])
      simp [hp]
  · exact h.setBlock_of_ne hb _

/-- Marking a block as cold leaves the pages alone. -/
theorem Holds.markCold (h : n.Holds b p d) :
    (n.setBlock b' (n.blocks b').markCold).Holds b p d := by
  rcases eq_or_ne b b' with rfl | hb
  · refine h.congr rfl ?_ ?_ rfl rfl
    · simpa using h.good
    · simp
  · exact h.setBlock_of_ne hb _

/-- What is drawn does not matter. -/
theorem Holds.rand (h : n.Holds b p d) (r : ℕ → ℕ) : ({ n with rand := r } : Nand).Holds b p d :=
  h.congr rfl h.good rfl rfl rfl

/-- Erasing a block leaves the pages of the other blocks alone. -/
theorem Holds.erase (h : n.Holds b p d) (hb : b ≠ b') : (n.erase b').Holds b p d :=
  (h.setBlock_of_ne hb _).congr rfl (h.setBlock_of_ne hb _).good rfl rfl rfl

/-- Erasing a block, with any outcome, leaves the pages of the other blocks alone. -/
theorem Holds.blockErase (h : n.Holds b p d) (hb : b ≠ b') : (n.blockErase b').2.Holds b p d := by
  rcases n.blockErase_cases b' with ⟨r, _, heq⟩ | ⟨r, _, _, heq⟩ | ⟨_, _, heq, _⟩ <;> rw [heq]
  · exact (h.rand r).erase hb
  · exact (h.rand r).setBlock_of_ne hb _
  · exact h

/-- Marking a block as bad leaves the pages of the other blocks alone. -/
theorem Holds.retire (h : n.Holds b p d) (hb : b ≠ b') (type : BadBlockType) :
    (n.retire b' type).Holds b p d := by
  have hne : (b, p) ≠ (b', 0) := fun heq => hb (Prod.mk.inj heq).1
  refine h.congr rfl ?_ ?_ (Function.update_of_ne hne _ _) rfl
  · simpa [hb] using h.good
  · simp [hb]

/-! ## Copying pages -/

section CopyPages

variable {src dst page : ℕ} {pages : List ℕ}

/-- A page that is accessible and valid is read and written to the other block; any other page is
    skipped. -/
theorem copyPages_cons (n : Nand) (src dst page : ℕ) (pages : List ℕ) (buf : PageData) :
    (n.Accessible src page ∧ (n.blocks src).pageValid page ∧
      n.copyPages src dst buf (page :: pages) =
        ((n.countRead src (n.readBack src page).1).pageWrite dst page
          (n.readBack src page).2).2.copyPages src dst (n.readBack src page).2 pages) ∨
    ((n.Accessible src page → (n.blocks src).pageValid page = false) ∧
      n.copyPages src dst buf (page :: pages) = n.copyPages src dst buf pages) := by
  rw [Nand.copyPages]
  split
  · next hv => exact Or.inr ⟨fun _ => Bool.eq_false_iff.2 hv, rfl⟩
  · next hv =>
    rcases n.pageRead_cases src page buf with ⟨hacc, hv, hread⟩ | ⟨ret, hret, hread, _⟩
    · rw [hread]
      exact Or.inl ⟨hacc, hv, rfl⟩
    · refine Or.inr ⟨fun hacc => ?_, ?_⟩
      · rw [pageRead_of_valid hacc (not_not.1 hv)] at hread
        exact absurd (congrArg Prod.fst hread).symm hret
      · rw [hread]
        cases ret with
        | ok => exact absurd rfl hret
        | _ => rfl

/-- Copying pages leaves the pages that hold their data alone. -/
theorem Holds.copyPages (h : n.Holds b p d) : (n.copyPages src dst buf pages).Holds b p d := by
  induction pages generalizing n buf with
  | nil => exact h
  | cons page pages ih =>
    rcases n.copyPages_cons src dst page pages buf with ⟨_, _, hcopy⟩ | ⟨_, hcopy⟩ <;> rw [hcopy]
    · refine ih ?_
      rcases (n.countRead src (n.readBack src page).1).pageWrite_cases dst page
        (n.readBack src page).2 with ⟨_, hv, hw⟩ | ⟨_, _, hw, _⟩ <;> rw [hw]
      · exact (h.countRead _).program hv
      · exact h.countRead _
    · exact ih h

/-- Copying pages to another block keeps the state and the valid pages of the block they are
    copied from, and gives the other block only valid pages which this one has. -/
theorem copyPages_blocks (pages : List ℕ) (hne : dst ≠ src) (n : Nand) (buf : PageData) :
    ((n.copyPages src dst buf pages).blocks src).state = (n.blocks src).state ∧
      ((n.copyPages src dst buf pages).blocks src).pageValid = (n.blocks src).pageValid ∧
      ∀ p, ((n.copyPages src dst buf pages).blocks dst).pageValid p →
        (n.blocks dst).pageValid p ∨ (n.blocks src).pageValid p := by
  induction pages generalizing n buf with
  | nil => exact ⟨rfl, rfl, fun p hp => Or.inl hp⟩
  | cons page pages ih =>
    rcases n.copyPages_cons src dst page pages buf with ⟨_, hv, hcopy⟩ | ⟨_, hcopy⟩ <;> rw [hcopy]
    · set n₁ := n.countRead src (n.readBack src page).1 with hn₁
      have hstate₁ : (n₁.blocks src).state = (n.blocks src).state := by simp [hn₁]
      have hsrc₁ : (n₁.blocks src).pageValid = (n.blocks src).pageValid := by simp [hn₁]
      have hdst₁ : n₁.blocks dst = n.blocks dst := by simp [hn₁, hne]
      rcases n₁.pageWrite_cases dst page (n.readBack src page).2 with
        ⟨_, _, hw⟩ | ⟨_, _, hw, _⟩ <;> rw [hw]
      · obtain ⟨hstate, hsrc, hdst⟩ :=
          ih (n₁.program dst page (n.readBack src page).2) (n.readBack src page).2
        rw [program_blocks, Function.update_of_ne hne.symm] at hstate hsrc hdst
        refine ⟨hstate.trans hstate₁, hsrc.trans hsrc₁, fun p hp => ?_⟩
        rcases hdst p hp with hp | hp
        · rw [Function.update_self, PhyBlock.program_pageValid, hdst₁] at hp
          rcases eq_or_ne p page with rfl | hpne
          · exact Or.inr hv
          · rw [Function.update_of_ne hpne] at hp
            exact Or.inl hp
        · exact Or.inr (hsrc₁ ▸ hp)
      · obtain ⟨hstate, hsrc, hdst⟩ := ih n₁ (n.readBack src page).2
        refine ⟨hstate.trans hstate₁, hsrc.trans hsrc₁, fun p hp => ?_⟩
        rw [hdst₁, hsrc₁] at hdst
        exact hdst p hp
    · exact ih n buf

/-- Nothing is copied from a bad block. -/
theorem copyPages_of_bad (hbad : (n.blocks src).state = .bad) :
    n.copyPages src dst buf pages = n := by
  induction pages generalizing buf with
  | nil => rfl
  | cons page pages ih =>
    rcases n.copyPages_cons src dst page pages buf with ⟨hacc, _, _⟩ | ⟨_, hcopy⟩
    · exact absurd hbad hacc.good
    · rw [hcopy]
      exact ih

end CopyPages

/-- A used block is replaced by a copy of its pages, and marked as bad; a bad block is replaced by
    a free one. Otherwise nothing changes. -/
theorem replaceBadBlock_cases (n : Nand) (b : ℕ) :
    (∃ ret, n.replaceBadBlock b = (.error ret, n)) ∨
    (∃ r, b < totalBlocks ∧ userBlocks ≤ r ∧ r < totalBlocks ∧ (n.blocks r).state = .free ∧
      n.allocReservedBlock = (.ok r, { n with reservedCount := n.reservedCount - 1 }) ∧
      (((n.blocks b).state = .used ∧ n.replaceBadBlock b =
        (.ok r, (Nand.copyPages b r blankPage (List.range pagesPerBlock)
          { n with reservedCount := n.reservedCount - 1 }).retire b .wear)) ∨
      ((n.blocks b).state = .bad ∧
        n.replaceBadBlock b = (.ok r, { n with reservedCount := n.reservedCount - 1 })))) := by
  rw [replaceBadBlock]
  split
  · exact Or.inl ⟨_, rfl⟩
  · split
    · exact Or.inl ⟨_, rfl⟩
    · next hlt =>
      split
      · exact Or.inl ⟨_, rfl⟩
      · next hfree =>
        rcases n.allocReservedBlock_cases with ⟨r, hge, hr, hrfree, halloc⟩ | ⟨ret, halloc⟩
        · refine Or.inr ⟨r, Nat.lt_of_not_le hlt, hge, hr, hrfree, halloc, ?_⟩
          have hne : r ≠ b := fun heq => hfree (heq ▸ hrfree)
          rw [halloc]
          dsimp only
          cases hb : (n.blocks b).state with
          | free => exact absurd hb hfree
          | used =>
            have hstate := (copyPages_blocks (List.range pagesPerBlock) hne
              { n with reservedCount := n.reservedCount - 1 } blankPage).1
            rw [hstate, hb, if_pos (by decide)]
            exact Or.inl ⟨rfl, rfl⟩
          | bad =>
            rw [copyPages_of_bad (n := { n with reservedCount := n.reservedCount - 1 }) hb, hb,
              if_neg (by decide)]
            exact Or.inr ⟨rfl, rfl⟩
        · rw [halloc]
          exact Or.inl ⟨_, rfl⟩

end Nand

end FtlFirmware
