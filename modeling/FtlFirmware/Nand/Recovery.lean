import FtlFirmware.Nand.Metadata

/-!
# Power cycles

When the device is powered off and on again with the same media (`powerCycle`), its metadata is
rebuilt from the OOB areas. These tell which pages have been written (`Traced`), and nothing else:
they stay as they are when a page is invalidated or a block is erased, and the mark of a bad block
is not looked at. So the metadata is *recovered* (`Recovers`) if and only if no block is bad, all
pages ever written are valid, and none of them is in the reserved area, whose free blocks are
counted too early (`powerCycle_recovers_iff`).
-/

namespace FtlFirmware

namespace Nand

/-- The device after it has been powered off (`nand_deinit`) and on again with the same media
    (`nand_init`). -/
def powerCycle (n : Nand) (rand : ℕ → ℕ) : Nand := Nand.init (some n.deinit.media) rand

/-- The calls that change which pages are valid. -/
inductive PageCall : NandCall → Prop
  | pageWrite (block page : ℕ) (buf : PageData) : PageCall (.pageWrite block page buf)
  | markPageInvalid (block page : ℕ) : PageCall (.markPageInvalid block page)
  | blockErase (block : ℕ) : PageCall (.blockErase block)
  | markBlockBad (block : ℕ) (type : BadBlockType) : PageCall (.markBlockBad block type)

/-- The device `n'` has the metadata of `n`, and counts the free blocks of the reserved area. -/
structure Recovers (n n' : Nand) : Prop where
  state : ∀ b < totalBlocks, (n'.blocks b).state = (n.blocks b).state
  pageValid : ∀ b < totalBlocks, ∀ p < pagesPerBlock,
    (n'.blocks b).pageValid p = (n.blocks b).pageValid p
  count : ∀ b < totalBlocks, (n'.blocks b).validPageCnt = (n.blocks b).validPageCnt
  reserved : n'.reservedCount = countReserved n'.blocks

/-- The page has been written: before the device was powered on with the media `media`, or by a
    call since. -/
def Written (media : Option Media) (tr : List (NandCall × RetCode)) (b p : ℕ) : Prop :=
  (∃ m, media = some m ∧ (m.oob (b, p)).magic = oobMagic) ∨
    ∃ buf, (NandCall.pageWrite b p buf, RetCode.ok) ∈ tr

variable {n n' : Nand} {media : Option Media} {tr : List (NandCall × RetCode)} {b p page : ℕ}
  {call : NandCall} {ret : RetCode} {oob : ℕ → Oob} {rand : ℕ → ℕ}

/-! ## What the media tells -/

/-- In the blocks that are not bad, the OOB areas tell which pages have been written. The valid
    pages are among them. -/
structure Traced (media : Option Media) (tr : List (NandCall × RetCode)) (n : Nand) : Prop where
  on : n.isInitialized
  consistent : n.Consistent
  magic : ∀ b < totalBlocks, (n.blocks b).state ≠ .bad → ∀ p < pagesPerBlock,
    ((n.media.oob (b, p)).magic = oobMagic ↔ Written media tr b p)
  valid : ∀ b < totalBlocks, (n.blocks b).state ≠ .bad → ∀ p < pagesPerBlock,
    (n.blocks b).pageValid p → Written media tr b p

/-- What has been written after one more call. -/
theorem written_snoc : Written media (tr ++ [(call, ret)]) b p ↔
    Written media tr b p ∨ ∃ buf, (call, ret) = (.pageWrite b p buf, .ok) := by
  rw [Written, Written, or_assoc, ← exists_or]
  refine or_congr_right (exists_congr fun buf => ?_)
  rw [List.mem_append, List.mem_singleton, eq_comm (a := (call, ret))]

namespace Traced

/-- A call that writes no page. The blocks that are not bad keep their OOB areas, and lose valid
    pages at most. -/
theorem keep (h : Traced media tr n) (hon : n'.isInitialized) (hcons : n'.Consistent)
    (hcall : ∀ b p buf, (call, ret) ≠ (.pageWrite b p buf, .ok))
    (hkept : ∀ b, (n'.blocks b).state ≠ .bad → (n.blocks b).state ≠ .bad ∧
      ∀ p, n'.media.oob (b, p) = n.media.oob (b, p) ∧
        ((n'.blocks b).pageValid p → (n.blocks b).pageValid p)) :
    Traced media (tr ++ [(call, ret)]) n' := by
  have hwritten (b p : ℕ) : Written media (tr ++ [(call, ret)]) b p ↔ Written media tr b p := by
    rw [written_snoc]
    exact or_iff_left (not_exists.2 (hcall b p))
  refine ⟨hon, hcons, fun b hb hgood p hp => ?_, fun b hb hgood p hp hv => ?_⟩
  · obtain ⟨hgood', hpages⟩ := hkept b hgood
    rw [hwritten, (hpages p).1]
    exact h.magic b hb hgood' p hp
  · obtain ⟨hgood', hpages⟩ := hkept b hgood
    rw [hwritten]
    exact h.valid b hb hgood' p hp ((hpages p).2 hv)

/-- Writing a page. -/
theorem write (h : Traced media tr n) (hacc : n.Accessible b p)
    (hv : (n.blocks b).pageValid p = false) (buf : PageData) :
    Traced media (tr ++ [(.pageWrite b p buf, .ok)]) (n.program b p buf) := by
  have hgood (b' : ℕ) (hb' : ((n.program b p buf).blocks b').state ≠ .bad) :
      (n.blocks b').state ≠ .bad := by
    rw [program_blocks, Function.update_apply] at hb'
    split at hb'
    · next heq => exact heq ▸ hacc.good
    · exact hb'
  refine ⟨h.on, h.consistent.program hacc hv, fun b' hb' hgood' p' hp' => ?_,
    fun b' hb' hgood' p' hp' hv' => ?_⟩
  · rw [written_snoc, ← h.magic b' hb' (hgood b' hgood') p' hp']
    change (Function.update n.media.oob (b, p) (writtenOob buf) (b', p')).magic = oobMagic ↔ _
    by_cases heq : (b', p') = (b, p)
    · rw [heq, Function.update_self]
      obtain ⟨rfl, rfl⟩ := Prod.mk.inj heq
      exact iff_of_true rfl (Or.inr ⟨buf, rfl⟩)
    · rw [Function.update_of_ne heq]
      refine (or_iff_left ?_).symm
      rintro ⟨buf', hcall⟩
      simp only [Prod.mk.injEq, NandCall.pageWrite.injEq] at hcall
      exact heq (Prod.ext hcall.1.1.symm hcall.1.2.1.symm)
  · rw [written_snoc]
    rw [program_blocks] at hv'
    by_cases heq : (b', p') = (b, p)
    · obtain ⟨rfl, rfl⟩ := Prod.mk.inj heq
      exact Or.inr ⟨buf, rfl⟩
    · refine Or.inl (h.valid b' hb' (hgood b' hgood') p' hp' ?_)
      by_cases hb : b' = b
      · have hp : p' ≠ p := fun hp => heq (Prod.ext hb hp)
        rwa [hb, Function.update_self, PhyBlock.program_pageValid, Function.update_of_ne hp, ← hb]
          at hv'
      · rwa [Function.update_of_ne hb] at hv'

/-- New metadata of one block, which loses valid pages at most, and is bad if it has been so. -/
theorem setBlock {blk : PhyBlock} (h : Traced media tr n) (hcons : (n.setBlock b blk).Consistent)
    (hcall : ∀ b p buf, (call, ret) ≠ (.pageWrite b p buf, .ok))
    (hblk : blk.state ≠ .bad → (n.blocks b).state ≠ .bad ∧
      ∀ p, blk.pageValid p → (n.blocks b).pageValid p) :
    Traced media (tr ++ [(call, ret)]) (n.setBlock b blk) := by
  refine h.keep h.on hcons hcall fun b' hgood => ?_
  rw [setBlock_blocks] at hgood ⊢
  rcases eq_or_ne b' b with rfl | hne
  · rw [Function.update_self] at hgood ⊢
    exact ⟨(hblk hgood).1, fun p => ⟨rfl, (hblk hgood).2 p⟩⟩
  · rw [Function.update_of_ne hne] at hgood ⊢
    exact ⟨hgood, fun _ => ⟨rfl, id⟩⟩

/-- A call that changes nothing. -/
theorem same (h : Traced media tr n) (hcall : ∀ b p buf, (call, ret) ≠ (.pageWrite b p buf, .ok)) :
    Traced media (tr ++ [(call, ret)]) n :=
  h.keep h.on h.consistent hcall fun _ hgood => ⟨hgood, fun _ => ⟨rfl, id⟩⟩

/-- A call that changes which pages are valid. -/
theorem exec (h : Traced media tr n) (hcall : PageCall call) (hexec : n.exec call = (ret, n')) :
    Traced media (tr ++ [(call, ret)]) n' := by
  cases hcall with
  | pageWrite b p buf =>
    rcases n.pageWrite_cases b p buf with ⟨hacc, hv, heq⟩ | ⟨ret', hret, heq, _⟩ <;>
      obtain ⟨rfl, rfl⟩ := Prod.mk.inj (heq.symm.trans hexec)
    · exact h.write hacc hv buf
    · refine h.same fun _ _ _ hw => hret ?_
      exact (Prod.mk.inj hw).2
  | markPageInvalid b p =>
    have hno : ∀ b' p' buf, (NandCall.markPageInvalid b p, ret) ≠ (.pageWrite b' p' buf, .ok) :=
      fun _ _ _ hw => NandCall.noConfusion (Prod.mk.inj hw).1
    obtain rfl : (n.markPageInvalid b p).2 = n' := congrArg Prod.snd hexec
    have hcons := h.consistent.markPageInvalid b p
    rcases n.markPageInvalid_cases b p with ⟨hacc, hv, heq⟩ | heq <;> rw [heq] at hcons ⊢
    · refine h.setBlock hcons hno fun _ => ⟨hacc.good, fun q hq => ?_⟩
      rw [PhyBlock.invalidate_pageValid, Function.update_apply] at hq
      split at hq
      · exact absurd hq Bool.false_ne_true
      · exact hq
    · exact h.same hno
  | blockErase b =>
    have hno : ∀ b' p' buf, (NandCall.blockErase b, ret) ≠ (.pageWrite b' p' buf, .ok) :=
      fun _ _ _ hw => NandCall.noConfusion (Prod.mk.inj hw).1
    obtain rfl : (n.blockErase b).2 = n' := congrArg Prod.snd hexec
    have hcons := h.consistent.blockErase b
    rcases n.blockErase_cases b with ⟨r, hgood, heq⟩ | ⟨r, hgood, _, heq⟩ | ⟨_, _, heq, _⟩ <;>
      rw [heq] at hcons ⊢
    · refine h.keep h.on hcons hno fun b' hgood' => ?_
      rw [erase_blocks] at hgood' ⊢
      rcases eq_or_ne b' b with rfl | hne
      · rw [Function.update_self]
        exact ⟨hgood, fun p => ⟨rfl, fun hv => absurd hv Bool.false_ne_true⟩⟩
      · rw [Function.update_of_ne hne] at hgood' ⊢
        exact ⟨hgood', fun _ => ⟨rfl, id⟩⟩
    · refine h.keep h.on hcons hno fun b' hgood' => ?_
      rw [setBlock_blocks] at hgood' ⊢
      rcases eq_or_ne b' b with rfl | hne
      · rw [Function.update_self] at hgood'
        exact absurd rfl hgood'
      · rw [Function.update_of_ne hne] at hgood' ⊢
        exact ⟨hgood', fun _ => ⟨rfl, id⟩⟩
    · exact h.same hno
  | markBlockBad b type =>
    have hno : ∀ b' p' buf, (NandCall.markBlockBad b type, ret) ≠ (.pageWrite b' p' buf, .ok) :=
      fun _ _ _ hw => NandCall.noConfusion (Prod.mk.inj hw).1
    obtain rfl : (n.markBlockBad b type).2 = n' := congrArg Prod.snd hexec
    rw [markBlockBad]
    split
    · exact h.same hno
    · refine h.keep h.on (h.consistent.retire b type) hno fun b' hgood' => ?_
      rw [retire_blocks] at hgood' ⊢
      rcases eq_or_ne b' b with rfl | hne
      · rw [Function.update_self] at hgood'
        exact absurd rfl hgood'
      · rw [Function.update_of_ne hne] at hgood' ⊢
        refine ⟨hgood', fun p => ⟨?_, id⟩⟩
        exact Function.update_of_ne (fun heq => hne (Prod.mk.inj heq).1) _ _

end Traced

/-! ## Magic numbers -/

/-- From `n` to `n'`, no OOB area has lost its magic number, and the pages that have become valid
    have one. -/
structure Marks (n n' : Nand) : Prop where
  on : n'.isInitialized = n.isInitialized
  magic : ∀ x, (n.media.oob x).magic = oobMagic → (n'.media.oob x).magic = oobMagic
  valid : ∀ b p, (n'.blocks b).pageValid p →
    (n.blocks b).pageValid p ∨ (n'.media.oob (b, p)).magic = oobMagic

namespace Marks

theorem refl (n : Nand) : Marks n n := ⟨rfl, fun _ => id, fun _ _ => Or.inl⟩

theorem trans {n'' : Nand} (h : Marks n n') (h' : Marks n' n'') : Marks n n'' where
  on := h'.on.trans h.on
  magic x hx := h'.magic x (h.magic x hx)
  valid b p hv := by
    rcases h'.valid b p hv with hv' | hmagic
    · exact (h.valid b p hv').imp_right (h'.magic (b, p))
    · exact Or.inr hmagic

/-- The OOB areas stay, and one block loses valid pages at most. -/
theorem of_block {blk : PhyBlock} (hon : n'.isInitialized = n.isInitialized)
    (hmedia : n'.media = n.media) (hblocks : n'.blocks = Function.update n.blocks b blk)
    (hblk : ∀ p, blk.pageValid p → (n.blocks b).pageValid p) : Marks n n' := by
  refine ⟨hon, fun x hx => hmedia ▸ hx, fun b' p hv => Or.inl ?_⟩
  rw [hblocks, Function.update_apply] at hv
  split at hv
  · next hb => exact hb ▸ hblk p hv
  · exact hv

theorem countRead (n : Nand) (b : ℕ) (ecc : EccResult) : Marks n (n.countRead b ecc) :=
  of_block (b := b) rfl rfl rfl fun _ => id

theorem pageRead (n : Nand) (b p : ℕ) (buf : PageData) : Marks n (n.pageRead b p buf).2.2 := by
  rcases n.pageRead_cases b p buf with ⟨_, _, heq⟩ | ⟨_, _, heq, _⟩ <;> rw [heq]
  · exact countRead n b _
  · exact refl n

theorem program (n : Nand) (b p : ℕ) (buf : PageData) : Marks n (n.program b p buf) := by
  have hoob : (n.program b p buf).media.oob = Function.update n.media.oob (b, p) (writtenOob buf) :=
    rfl
  refine ⟨rfl, fun x hx => ?_, fun b' p' hv => ?_⟩
  · rw [hoob, Function.update_apply]
    split
    · rfl
    · exact hx
  · rw [hoob]
    by_cases heq : (b', p') = (b, p)
    · rw [heq, Function.update_self]
      exact Or.inr rfl
    · refine Or.inl ?_
      rw [program_blocks] at hv
      by_cases hb : b' = b
      · have hp : p' ≠ p := fun hp => heq (Prod.ext hb hp)
        rwa [hb, Function.update_self, PhyBlock.program_pageValid, Function.update_of_ne hp, ← hb]
          at hv
      · rwa [Function.update_of_ne hb] at hv

theorem pageWrite (n : Nand) (b p : ℕ) (buf : PageData) : Marks n (n.pageWrite b p buf).2 := by
  rcases n.pageWrite_cases b p buf with ⟨_, _, heq⟩ | ⟨_, _, heq, _⟩ <;> rw [heq]
  · exact program n b p buf
  · exact refl n

theorem markPageInvalid (n : Nand) (b p : ℕ) : Marks n (n.markPageInvalid b p).2 := by
  rcases n.markPageInvalid_cases b p with ⟨_, _, heq⟩ | heq <;> rw [heq]
  · refine of_block (b := b) rfl rfl rfl fun q hq => ?_
    rw [PhyBlock.invalidate_pageValid, Function.update_apply] at hq
    split at hq
    · exact absurd hq Bool.false_ne_true
    · exact hq
  · exact refl n

theorem blockErase (n : Nand) (b : ℕ) : Marks n (n.blockErase b).2 := by
  rcases n.blockErase_cases b with ⟨_, _, heq⟩ | ⟨_, _, _, heq⟩ | ⟨_, _, heq, _⟩ <;> rw [heq]
  · exact of_block (b := b) rfl rfl rfl fun _ hq => absurd hq Bool.false_ne_true
  · exact of_block (b := b) rfl rfl rfl fun _ => id
  · exact refl n

theorem markColdBlock (n : Nand) (b : ℕ) : Marks n (n.markColdBlock b).2 := by
  rcases n.markColdBlock_cases b with ⟨_, heq⟩ | heq <;> rw [heq]
  · refine of_block (b := b) rfl rfl rfl fun q hq => ?_
    rwa [PhyBlock.markCold_pageValid] at hq
  · exact refl n

/-- The mark of a bad block has the magic number, too. -/
theorem retire (n : Nand) (b : ℕ) (type : BadBlockType) : Marks n (n.retire b type) := by
  refine ⟨rfl, fun x hx => ?_, fun b' p hv => Or.inl ?_⟩
  · change (Function.update n.media.oob (b, 0) badBlockOob x).magic = oobMagic
    rw [Function.update_apply]
    split
    · rfl
    · exact hx
  · rw [retire_blocks, Function.update_apply] at hv
    split at hv
    · exact absurd hv Bool.false_ne_true
    · exact hv

theorem markBlockBad (n : Nand) (b : ℕ) (type : BadBlockType) :
    Marks n (n.markBlockBad b type).2 := by
  rw [Nand.markBlockBad]
  split
  · exact refl n
  · exact retire n b type

theorem copyPages (src dst : ℕ) (buf : PageData) (pages : List ℕ) (n : Nand) :
    Marks n (n.copyPages src dst buf pages) := by
  induction pages generalizing n buf with
  | nil => exact refl n
  | cons page pages ih =>
    rcases n.copyPages_cons src dst page pages buf with ⟨_, _, hcopy⟩ | ⟨_, hcopy⟩ <;> rw [hcopy]
    · exact ((countRead n src _).trans (pageWrite _ dst page _)).trans (ih _ _)
    · exact ih buf n

theorem allocReservedBlock (n : Nand) : Marks n n.allocReservedBlock.2 := by
  rcases n.allocReservedBlock_cases with ⟨_, _, _, _, heq⟩ | ⟨_, heq⟩ <;> rw [heq]
  · exact ⟨rfl, fun _ => id, fun _ _ => Or.inl⟩
  · exact refl n

theorem replaceBadBlock (n : Nand) (b : ℕ) : Marks n (n.replaceBadBlock b).2 := by
  have htake : Marks n { n with reservedCount := n.reservedCount - 1 } :=
    ⟨rfl, fun _ => id, fun _ _ => Or.inl⟩
  rcases n.replaceBadBlock_cases b with
    ⟨_, heq⟩ | ⟨r, _, _, _, _, _, ⟨_, heq⟩ | ⟨_, heq⟩⟩ <;> rw [heq]
  · exact refl n
  · exact (htake.trans (copyPages b r blankPage _ _)).trans (retire _ b .wear)
  · exact htake

theorem exec (n : Nand) (call : NandCall) : Marks n (n.exec call).2 := by
  cases call with
  | pageRead b p buf => exact pageRead n b p buf
  | pageWrite b p buf => exact pageWrite n b p buf
  | markPageInvalid b p => exact markPageInvalid n b p
  | blockErase b => exact blockErase n b
  | markColdBlock b => exact markColdBlock n b
  | markBlockBad b type => exact markBlockBad n b type
  | allocReservedBlock => exact allocReservedBlock n
  | replaceBadBlock b => exact replaceBadBlock n b

end Marks

/-- Whatever the calls of a run, no magic number is lost, and valid pages have one. -/
theorem run_marks {allowed : Nand → NandCall → Prop} (hrun : Run allowed n tr n') : Marks n n' := by
  refine hrun.invariant (P := Marks n) (.refl n) ?_
  rintro n₁ call ret n₂ h - hstep
  have hexec := Marks.exec n₁ call
  rw [show n₁.exec call = (ret, n₂) from hstep] at hexec
  exact h.trans hexec

/-! ## What is recovered -/

/-- The recovery of pages makes those valid that have been written, by their OOB areas. -/
theorem foldl_recoverPage_pageValid (pages : List ℕ) (blk : PhyBlock) :
    (pages.foldl (recoverPage oob) blk).pageValid p =
      (blk.pageValid p || decide (p ∈ pages ∧ (oob p).magic = oobMagic)) := by
  induction pages generalizing blk with
  | nil => simp
  | cons page pages ih =>
    rw [List.foldl_cons, ih, recoverPage]
    split
    · next hmagic =>
      rw [PhyBlock.program_pageValid, Function.update_apply]
      by_cases hp : p = page
      · rw [if_pos hp, hp]
        simp [hmagic]
      · simp [hp]
    · next hmagic =>
      by_cases hp : p = page
      · rw [hp]
        simp [hmagic]
      · simp [hp]

/-- The valid pages of a block that has been recovered. -/
theorem recoverBlock_pageValid (hp : p < pagesPerBlock) :
    (recoverBlock oob).pageValid p = decide ((oob p).magic = oobMagic) := by
  rw [recoverBlock, foldl_recoverPage_pageValid]
  simp [PhyBlock.fresh, hp]

/-- A block that has been recovered is not bad. -/
theorem recoverBlock_state_ne_bad : (recoverBlock oob).state ≠ .bad := by
  have hfold (pages : List ℕ) (blk : PhyBlock) (h : blk.state ≠ .bad) :
      (pages.foldl (recoverPage oob) blk).state ≠ .bad := by
    induction pages generalizing blk with
    | nil => exact h
    | cons page pages ih =>
      rw [List.foldl_cons]
      refine ih _ ?_
      rw [recoverPage]
      split
      · exact BlockState.noConfusion
      · exact h
  exact hfold _ _ BlockState.noConfusion

/-- A block that has been recovered is free if and only if no page of it has been written. -/
theorem recoverBlock_free_iff :
    (recoverBlock oob).state = .free ↔ ∀ p < pagesPerBlock, (oob p).magic ≠ oobMagic := by
  rw [(exact_recoverBlock oob).free_iff, Finset.card_eq_zero, Finset.eq_empty_iff_forall_notMem]
  refine forall_congr' fun p => ?_
  rw [PhyBlock.mem_validPages, not_and]
  refine forall_congr' fun hp => ?_
  rw [recoverBlock_pageValid hp, decide_eq_true_eq]

/-- Before any page has been recovered, all blocks of the reserved area are free. -/
theorem powerCycle_reservedCount (n : Nand) (rand : ℕ → ℕ) :
    (n.powerCycle rand).reservedCount = 8 := by
  change countReserved (fun _ => PhyBlock.fresh) = 8
  decide

/-- Eight blocks of the reserved area are counted as free only if all are. -/
theorem countReserved_eq_iff (blocks : ℕ → PhyBlock) : countReserved blocks = 8 ↔
    ∀ b, userBlocks ≤ b → b < totalBlocks → (blocks b).state = .free := by
  rw [countReserved]
  set area := List.range' userBlocks reservedBlocks
  set free := area.filter fun i => (blocks i).state = .free
  have hle : free.length ≤ 8 := List.length_filter_le _ _
  have hmem (b : ℕ) : b ∈ area ↔ userBlocks ≤ b ∧ b < totalBlocks := List.mem_range'_1
  have hall : free.length = 8 ↔ ∀ b ∈ area, (blocks b).state = .free := by
    refine List.length_filter_eq_length_iff.trans (forall₂_congr fun b _ => ?_)
    rw [decide_eq_true_eq]
  have hcount : free.length.toUInt32 = 8 ↔ free.length = 8 := by
    rw [← UInt32.toNat_inj]
    change free.length % 2 ^ 32 = 8 ↔ _
    rw [Nat.mod_eq_of_lt (by omega)]
  rw [hcount, hall]
  simp only [hmem, and_imp]

/-! ## The theorem -/

/-- A device in which the OOB areas tell which pages have been written is recovered after a power
    cycle if and only if no block is bad, all these pages are valid, and none of them is in the
    reserved area. -/
theorem Traced.recovers_iff (h : Traced media tr n) (rand : ℕ → ℕ) :
    n.Recovers (n.powerCycle rand) ↔ (∀ b < totalBlocks, (n.blocks b).state ≠ .bad) ∧
      ∀ b < totalBlocks, ∀ p < pagesPerBlock, Written media tr b p →
        (n.blocks b).pageValid p ∧ b < userBlocks := by
  have hblock (b : ℕ) : (n.powerCycle rand).blocks b = recoverBlock fun p => n.media.oob (b, p) := by
    rw [powerCycle, init_some_blocks]
    rfl
  have hvalid (b p : ℕ) (hb : b < totalBlocks) (hp : p < pagesPerBlock)
      (hgood : (n.blocks b).state ≠ .bad) :
      ((n.powerCycle rand).blocks b).pageValid p = true ↔ Written media tr b p := by
    rw [hblock, recoverBlock_pageValid hp, decide_eq_true_eq, h.magic b hb hgood p hp]
  have hexact (b : ℕ) : ((n.powerCycle rand).blocks b).Exact := by
    rw [hblock]
    exact exact_recoverBlock _
  have hreserved := powerCycle_reservedCount n rand
  have hfree := countReserved_eq_iff (n.powerCycle rand).blocks
  constructor
  · intro hrec
    have hgood : ∀ b < totalBlocks, (n.blocks b).state ≠ .bad := by
      intro b hb
      rw [← hrec.state b hb, hblock]
      exact recoverBlock_state_ne_bad
    refine ⟨hgood, fun b hb p hp hw => ?_⟩
    have hv := (hvalid b p hb hp (hgood b hb)).2 hw
    refine ⟨hrec.pageValid b hb p hp ▸ hv, Nat.lt_of_not_le fun hle => ?_⟩
    -- A page of the reserved area that is valid again has a block that is not free.
    have hstate := hfree.1 (hrec.reserved.symm.trans hreserved) b hle hb
    exact (hexact b).counted.state_ne_free hp hv hstate
  · rintro ⟨hgood, hwritten⟩
    have hsame : ∀ b < totalBlocks, ∀ p < pagesPerBlock,
        ((n.powerCycle rand).blocks b).pageValid p = (n.blocks b).pageValid p := by
      intro b hb p hp
      rw [Bool.eq_iff_iff, hvalid b p hb hp (hgood b hb)]
      exact ⟨fun hw => (hwritten b hb p hp hw).1, h.valid b hb (hgood b hb) p hp⟩
    have hpages : ∀ b < totalBlocks,
        ((n.powerCycle rand).blocks b).validPages = (n.blocks b).validPages := by
      intro b hb
      ext p
      rw [PhyBlock.mem_validPages, PhyBlock.mem_validPages]
      exact and_congr_right fun hp => by rw [hsame b hb p hp]
    have htally := h.consistent.tallied
    have htally' : (n.powerCycle rand).Tallied := (consistent_init _ rand).tallied
    have hgood' (b : ℕ) : ((n.powerCycle rand).blocks b).state ≠ .bad := by
      rw [hblock]
      exact recoverBlock_state_ne_bad
    refine ⟨fun b hb => ?_, hsame, fun b hb => ?_, hreserved.trans (hfree.2 fun b hle hb => ?_).symm⟩
    · rw [htally'.state b hb (hgood' b), htally.state b hb (hgood b hb), hpages b hb]
    · rw [← UInt32.toNat_inj, htally'.count b hb (hgood' b), htally.count b hb (hgood b hb),
        hpages b hb]
    · refine (hexact b).free_iff.2 (Finset.card_eq_zero.2 (Finset.eq_empty_of_forall_notMem ?_))
      intro p hmem
      obtain ⟨hp, hv⟩ := PhyBlock.mem_validPages.1 hmem
      have hw := (hvalid b p hb hp (hgood b hb)).1 hv
      exact absurd (hwritten b hb p hp hw).2 (Nat.not_lt.2 hle)

/-- The OOB areas tell what has been written when the device is powered on. -/
theorem traced_init (media : Option Media) (rand : ℕ → ℕ) :
    Traced media [] (Nand.init media rand) := by
  have hwritten (b p : ℕ) : Written media [] b p ↔
      ∃ m, media = some m ∧ (m.oob (b, p)).magic = oobMagic := by
    rw [Written]
    exact or_iff_left fun h => List.not_mem_nil h.choose_spec
  refine ⟨rfl, consistent_init media rand, fun b _ _ p _ => ?_, fun b _ _ p hp hv => ?_⟩
  · rw [hwritten]
    cases media with
    | none =>
      refine iff_of_false (by decide : ¬ Oob.blank.magic = oobMagic) ?_
      rintro ⟨m, hm, _⟩
      exact Option.some_ne_none m hm.symm
    | some m => simp [Nand.init]
  · rw [hwritten]
    cases media with
    | none =>
      rw [init_none_blocks] at hv
      dsimp only at hv
      rw [factoryBlock] at hv
      split at hv <;> exact absurd hv Bool.false_ne_true
    | some m =>
      rw [init_some_blocks] at hv
      dsimp only at hv
      rw [recoverBlock_pageValid hp, decide_eq_true_eq] at hv
      exact ⟨m, rfl, hv⟩

/-- Over a run, the OOB areas tell what has been written. -/
theorem traced_run (hrun : Run (fun _ => PageCall) (Nand.init media rand) tr n) :
    Traced media tr n := by
  induction hrun with
  | nil => exact traced_init media rand
  | snoc _ hcall hstep ih => exact ih.exec hcall hstep

/-- After any run, the metadata of the device is recovered after a power cycle if and only if no
    block is bad, all pages ever written are valid, and none of them is in the reserved area. -/
theorem powerCycle_recovers_iff (hrun : Run (fun _ => PageCall) (Nand.init media rand) tr n)
    (rand' : ℕ → ℕ) :
    n.Recovers (n.powerCycle rand') ↔ (∀ b < totalBlocks, (n.blocks b).state ≠ .bad) ∧
      ∀ b < totalBlocks, ∀ p < pagesPerBlock, Written media tr b p →
        (n.blocks b).pageValid p ∧ b < userBlocks :=
  (traced_run hrun).recovers_iff rand'

/-- One page written to a device without bad blocks is recovered. -/
theorem powerCycle_recovers_written :
    ((Nand.init none fun _ => 99).program 0 0 blankPage).Recovers
      (((Nand.init none fun _ => 99).program 0 0 blankPage).powerCycle fun _ => 0) := by
  set n₀ := Nand.init none fun _ => 99
  have hfresh (b : ℕ) : n₀.blocks b = .fresh := rfl
  have hrun : Run (fun _ => PageCall) n₀ [(.pageWrite 0 0 blankPage, .ok)]
      (n₀.program 0 0 blankPage) := by
    refine .single (.pageWrite 0 0 blankPage) ?_
    refine pageWrite_of_invalid ⟨rfl, by decide, ?_⟩ rfl
    rw [hfresh]
    exact BlockState.noConfusion
  refine (powerCycle_recovers_iff hrun fun _ => 0).2 ⟨fun b _ => ?_, fun b _ p _ hw => ?_⟩
  · rw [program_blocks, Function.update_apply]
    split
    · exact BlockState.noConfusion
    · rw [hfresh]
      exact BlockState.noConfusion
  · rcases hw with ⟨m, hm, _⟩ | ⟨buf, hmem⟩
    · exact absurd hm.symm (Option.some_ne_none m)
    · rw [List.mem_singleton, Prod.mk.injEq, NandCall.pageWrite.injEq] at hmem
      obtain ⟨⟨rfl, rfl, -⟩, -⟩ := hmem
      exact ⟨rfl, by decide⟩

/-- A page that has been invalidated is valid again after a power cycle. -/
theorem not_powerCycle_recovers : ¬ ∀ (media : Option Media) (rand rand' : ℕ → ℕ) (n : Nand)
    (tr : List (NandCall × RetCode)), Run (fun _ => PageCall) (Nand.init media rand) tr n →
    n.Recovers (n.powerCycle rand') := by
  intro hrec
  set n₀ := Nand.init none fun _ => 99
  have hwrite : n₀.exec (.pageWrite 0 0 blankPage) = (.ok, n₀.program 0 0 blankPage) := by
    refine pageWrite_of_invalid ⟨rfl, by decide, ?_⟩ rfl
    exact BlockState.noConfusion
  set n₁ := n₀.program 0 0 blankPage
  have hinvalidate : n₁.exec (.markPageInvalid 0 0) =
      (.ok, n₁.setBlock 0 ((n₁.blocks 0).invalidate 0)) := by
    refine markPageInvalid_of_valid ⟨rfl, by decide, ?_⟩ rfl
    exact BlockState.noConfusion
  set n₂ := n₁.setBlock 0 ((n₁.blocks 0).invalidate 0)
  have hrun : Run (fun _ => PageCall) n₀ [(.pageWrite 0 0 blankPage, .ok), (.markPageInvalid 0 0, .ok)]
      n₂ := (Machine.Run.single (.pageWrite 0 0 blankPage) hwrite).snoc (.markPageInvalid 0 0)
        hinvalidate
  have hvalid := (hrec none _ (fun _ => 0) n₂ _ hrun).pageValid 0 (by decide) 0 (by decide)
  have hnow : (n₂.blocks 0).pageValid 0 = false := rfl
  have hthen : ((n₂.powerCycle fun _ => 0).blocks 0).pageValid 0 = true := by
    rw [powerCycle, init_some_blocks]
    dsimp only
    rw [recoverBlock_pageValid (by decide), decide_eq_true_eq]
    rfl
  rw [hnow, hthen] at hvalid
  exact Bool.false_ne_true hvalid.symm

end Nand

end FtlFirmware
