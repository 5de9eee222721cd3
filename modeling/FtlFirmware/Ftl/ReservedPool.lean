import FtlFirmware.Ftl.Steps

/-!
# The reserved area

The last blocks of the device are kept for the replacement of bad ones. The device counts how many
of them are free, and takes them from the first one on. The write cursor gets there only by a
replacement.

* `PoolInv`: the counter is right, and so are those of the reserved blocks; the reserved blocks up
  to the write cursor are not free.
* `Orderly`: the condition under which a call keeps this. Reserved blocks must not become free
  again, and a block must be used, with a page to be copied, if it is replaced (`exec_pool`).

In a run of such calls, a block is thus taken from the reserved area only once (`reserved_pool`).
-/

namespace FtlFirmware

namespace Nand

variable {n n' : Nand} {b p src dst : ℕ} {buf : PageData} {pages : List ℕ} {blk : PhyBlock}

/-- The free blocks of the reserved area. -/
def freeReserved (n : Nand) : List ℕ :=
  (List.range' userBlocks reservedBlocks).filter fun i => (n.blocks i).state = .free

/-- The blocks of the reserved area that are not bad are counted exactly. -/
def ReserveExact (n : Nand) : Prop :=
  ∀ b, userBlocks ≤ b → b < totalBlocks → (n.blocks b).state ≠ .bad → (n.blocks b).Exact

namespace ReserveExact

theorem setBlock (h : n.ReserveExact)
    (hblk : userBlocks ≤ b → blk.state ≠ .bad → ((n.blocks b).state ≠ .bad → (n.blocks b).Exact) →
      blk.Exact) : (n.setBlock b blk).ReserveExact := by
  intro b' hge hlt hgood
  rw [setBlock_blocks] at hgood ⊢
  rcases eq_or_ne b' b with rfl | hne
  · rw [Function.update_self] at hgood ⊢
    exact hblk hge hgood (h b' hge hlt)
  · rw [Function.update_of_ne hne] at hgood ⊢
    exact h b' hge hlt hgood

theorem congr (h : n.ReserveExact) (hblocks : n'.blocks = n.blocks) : n'.ReserveExact := by
  intro b hge hlt hgood
  rw [hblocks] at hgood ⊢
  exact h b hge hlt hgood

theorem countRead (h : n.ReserveExact) (ecc : EccResult) : (n.countRead b ecc).ReserveExact :=
  have hset : (n.setBlock b (n.blocks b).countRead).ReserveExact :=
    h.setBlock fun _ hgood hex => (hex hgood).countRead
  hset.congr rfl

theorem pageRead (h : n.ReserveExact) (b p : ℕ) (buf : PageData) :
    (n.pageRead b p buf).2.2.ReserveExact := by
  rcases n.pageRead_cases b p buf with ⟨_, _, heq⟩ | ⟨_, _, heq, _⟩ <;> rw [heq]
  · exact h.countRead _
  · exact h

theorem program (h : n.ReserveExact) (hacc : n.Accessible b p)
    (hv : (n.blocks b).pageValid p = false) : (n.program b p buf).ReserveExact :=
  (h.setBlock (b := b) fun _ _ hex => (hex hacc.good).program hacc.page_lt hv).congr rfl

theorem pageWrite (h : n.ReserveExact) (b p : ℕ) (buf : PageData) :
    (n.pageWrite b p buf).2.ReserveExact := by
  rcases n.pageWrite_cases b p buf with ⟨hacc, hv, heq⟩ | ⟨_, _, heq, _⟩ <;> rw [heq]
  · exact h.program hacc hv
  · exact h

theorem markPageInvalid (h : n.ReserveExact) (b p : ℕ) :
    (n.markPageInvalid b p).2.ReserveExact := by
  rcases n.markPageInvalid_cases b p with ⟨hacc, hv, heq⟩ | heq <;> rw [heq]
  · exact h.setBlock fun _ _ hex => (hex hacc.good).invalidate hacc.page_lt hv
  · exact h

theorem blockErase (h : n.ReserveExact) (b : ℕ) : (n.blockErase b).2.ReserveExact := by
  have hrand (r : ℕ → ℕ) : ReserveExact { n with rand := r } := h.congr rfl
  rcases n.blockErase_cases b with ⟨r, _, heq⟩ | ⟨r, _, _, heq⟩ | ⟨_, _, heq, _⟩ <;> rw [heq]
  · exact ((hrand r).setBlock (b := b) fun _ _ _ => .erase).congr rfl
  · exact (hrand r).setBlock fun _ hgood _ => absurd rfl hgood
  · exact h

theorem markColdBlock (h : n.ReserveExact) (hb : b < userBlocks) :
    (n.markColdBlock b).2.ReserveExact := by
  rcases n.markColdBlock_cases b with ⟨_, heq⟩ | heq <;> rw [heq]
  · exact h.setBlock fun hge _ _ => absurd hb (Nat.not_lt.2 hge)
  · exact h

theorem retire (h : n.ReserveExact) (b : ℕ) (type : BadBlockType) :
    (n.retire b type).ReserveExact :=
  (h.setBlock (b := b) fun _ hgood _ => absurd rfl hgood).congr rfl

theorem copyPages (h : n.ReserveExact) (src dst : ℕ) (buf : PageData) (pages : List ℕ) :
    (n.copyPages src dst buf pages).ReserveExact := by
  induction pages generalizing n buf with
  | nil => exact h
  | cons page pages ih =>
    rcases n.copyPages_cons src dst page pages buf with ⟨_, _, hcopy⟩ | ⟨_, hcopy⟩ <;> rw [hcopy]
    · exact ih ((h.countRead _).pageWrite dst page _) _
    · exact ih h buf

/-- A block of the reserved area that is neither free nor bad counts a page. -/
theorem validPageCnt_pos (h : n.ReserveExact) (hge : userBlocks ≤ b) (hlt : b < totalBlocks)
    (hgood : (n.blocks b).state ≠ .bad) (hfree : (n.blocks b).state ≠ .free) :
    0 < (n.blocks b).validPageCnt.toNat := by
  have hex := h b hge hlt hgood
  rw [hex.count]
  exact Nat.pos_of_ne_zero (hex.free_iff.not.1 hfree)

end ReserveExact

/-- The same blocks of the reserved area are free, and the counter is the same. -/
structure SameReserve (n n' : Nand) : Prop where
  count : n'.reservedCount = n.reservedCount
  free : ∀ b, userBlocks ≤ b → b < totalBlocks →
    ((n'.blocks b).state = .free ↔ (n.blocks b).state = .free)

namespace SameReserve

theorem refl (n : Nand) : n.SameReserve n := ⟨rfl, fun _ _ _ => Iff.rfl⟩

theorem trans {n'' : Nand} (h : n.SameReserve n') (h' : n'.SameReserve n'') :
    n.SameReserve n'' where
  count := h'.count.trans h.count
  free b hge hlt := (h'.free b hge hlt).trans (h.free b hge hlt)

theorem freeReserved (h : n.SameReserve n') : n'.freeReserved = n.freeReserved := by
  refine List.filter_congr fun b hb => decide_eq_decide.2 ?_
  obtain ⟨hge, hlt⟩ := List.mem_range'_1.1 hb
  exact h.free b hge hlt

theorem setBlock (hblk : userBlocks ≤ b → (blk.state = .free ↔ (n.blocks b).state = .free)) :
    n.SameReserve (n.setBlock b blk) where
  count := rfl
  free b' hge hlt := by
    rw [setBlock_blocks]
    rcases eq_or_ne b' b with rfl | hne
    · rw [Function.update_self]
      exact hblk hge
    · rw [Function.update_of_ne hne]

theorem pageRead (b p : ℕ) (buf : PageData) : n.SameReserve (n.pageRead b p buf).2.2 := by
  rcases n.pageRead_cases b p buf with ⟨_, _, heq⟩ | ⟨_, _, heq, _⟩ <;> rw [heq]
  · have hblk : n.SameReserve (n.setBlock b (n.blocks b).countRead) := setBlock fun _ => Iff.rfl
    exact ⟨rfl, hblk.free⟩
  · exact .refl n

/-- Writing to a block that is not free. -/
theorem pageWrite (hb : userBlocks ≤ b → (n.blocks b).state ≠ .free) (p : ℕ) (buf : PageData) :
    n.SameReserve (n.pageWrite b p buf).2 := by
  rcases n.pageWrite_cases b p buf with ⟨_, _, heq⟩ | ⟨_, _, heq, _⟩ <;> rw [heq]
  · have hblk : n.SameReserve (n.setBlock b ((n.blocks b).program p)) :=
      setBlock fun hge => iff_of_false (by simp) (hb hge)
    exact ⟨rfl, hblk.free⟩
  · exact .refl n

/-- Invalidating a page that is not the last one of its block. -/
theorem markPageInvalid (h : n.ReserveExact)
    (hlast : userBlocks ≤ b → n.isPageValid b p = true → n.getBlockValidPageCount b ≠ 1) :
    n.SameReserve (n.markPageInvalid b p).2 := by
  rcases n.markPageInvalid_cases b p with ⟨hacc, hv, heq⟩ | heq <;> rw [heq]
  · refine setBlock fun hge => ?_
    have hne := hlast hge (isPageValid_iff.2 ⟨hacc.blockValid, hacc.page_lt, hv⟩)
    rw [getBlockValidPageCount, if_pos hacc.blockValid] at hne
    have hb := (isBlockValid_iff.1 hacc.blockValid).1
    have hfree := (h b hge hb hacc.good).counted.state_ne_free hacc.page_lt hv
    have hpos := h.validPageCnt_pos hge hb hacc.good hfree
    have hone : (n.blocks b).validPageCnt.toNat ≠ 1 := fun hone => hne (UInt32.toNat_inj.1 hone)
    rw [PhyBlock.state_invalidate hpos, if_neg hone]
  · exact .refl n

theorem markColdBlock (hb : b < userBlocks) : n.SameReserve (n.markColdBlock b).2 := by
  rcases n.markColdBlock_cases b with ⟨_, heq⟩ | heq <;> rw [heq]
  · exact setBlock fun hge => absurd hb (Nat.not_lt.2 hge)
  · exact .refl n

theorem blockErase (hb : b < userBlocks) : n.SameReserve (n.blockErase b).2 := by
  have hset (r : ℕ → ℕ) (blk : PhyBlock) :
      n.SameReserve (({ n with rand := r } : Nand).setBlock b blk) := by
    refine ⟨rfl, fun b' hge hlt => ?_⟩
    have hne : b' ≠ b := by omega
    rw [setBlock_blocks, Function.update_of_ne hne]
  rcases n.blockErase_cases b with ⟨r, _, heq⟩ | ⟨r, _, _, heq⟩ | ⟨_, _, heq, _⟩ <;> rw [heq]
  · exact ⟨rfl, (hset r _).free⟩
  · exact hset r _
  · exact .refl n

end SameReserve

/-! ## Taking a block -/

/-- The block taken is the first free one of the reserved area. -/
theorem allocReservedBlock_first {r : ℕ} (h : n.allocReservedBlock = (.ok r, n')) :
    n.isInitialized ∧ n.reservedCount ≠ 0 ∧
      ∀ x, userBlocks ≤ x → x < r → (n.blocks x).state ≠ .free := by
  rw [allocReservedBlock] at h
  split at h
  · exact absurd (Prod.mk.inj h).1 (by simp)
  next hon =>
  split at h
  · exact absurd (Prod.mk.inj h).1 (by simp)
  next hcount =>
  refine ⟨not_not.1 hon, hcount, fun x hge hlt hfree => ?_⟩
  split at h
  · next r' hfind =>
    obtain rfl := Except.ok.inj (Prod.mk.inj h).1
    have hnot := (List.find?_range'_eq_some.1 hfind).2.2 x hge hlt
    rw [decide_eq_true hfree] at hnot
    simp at hnot
  · exact absurd (Prod.mk.inj h).1 (by simp)

/-- Copying pages changes the state of the block only to which they are copied. -/
theorem copyPages_frame (src dst : ℕ) (pages : List ℕ) (n : Nand) (buf : PageData) :
    (n.copyPages src dst buf pages).reservedCount = n.reservedCount ∧
      ∀ x, x ≠ dst → ((n.copyPages src dst buf pages).blocks x).state = (n.blocks x).state := by
  induction pages generalizing n buf with
  | nil => exact ⟨rfl, fun _ _ => rfl⟩
  | cons page pages ih =>
    rcases n.copyPages_cons src dst page pages buf with ⟨_, _, hcopy⟩ | ⟨_, hcopy⟩ <;> rw [hcopy]
    · set n₁ := n.countRead src (n.readBack src page).1 with hn₁
      have hread (x : ℕ) : (n₁.blocks x).state = (n.blocks x).state := by
        rw [hn₁, countRead_blocks, Function.update_apply]
        split
        · next heq => rw [heq, PhyBlock.countRead_state]
        · rfl
      obtain ⟨hcount, hstate⟩ := ih (n₁.pageWrite dst page (n.readBack src page).2).2
        (n.readBack src page).2
      rcases n₁.pageWrite_cases dst page (n.readBack src page).2 with
        ⟨_, _, hw⟩ | ⟨_, _, hw, _⟩ <;> rw [hw] at hcount hstate ⊢
      · refine ⟨hcount, fun x hx => ?_⟩
        rw [hstate x hx, program_blocks, Function.update_of_ne hx, hread]
      · exact ⟨hcount, fun x hx => (hstate x hx).trans (hread x)⟩
    · exact ih n buf

/-- A free block without valid pages is used as soon as a page has been copied to it. -/
theorem copyPages_used (hne : dst ≠ src) (hsrc : src < totalBlocks) (hdst : dst < totalBlocks)
    (hpages : ∀ p ∈ pages, p < pagesPerBlock) (hon : n.isInitialized)
    (hgood : (n.blocks src).state ≠ .bad)
    (hstate : (n.blocks dst).state = .used ∨ (n.blocks dst).state = .free ∧
      (∀ p ∈ pages, (n.blocks dst).pageValid p = false) ∧
      ∃ p ∈ pages, (n.blocks src).pageValid p = true) :
    ((n.copyPages src dst buf pages).blocks dst).state = .used := by
  induction pages generalizing n buf with
  | nil =>
    rcases hstate with hused | ⟨_, _, p, hp, _⟩
    · exact hused
    · exact absurd hp List.not_mem_nil
  | cons page pages ih =>
    obtain ⟨hpage, hrest⟩ := List.forall_mem_cons.1 hpages
    have hacc : n.Accessible src page := ⟨isBlockValid_iff.2 ⟨hsrc, hon⟩, hpage, hgood⟩
    rcases n.copyPages_cons src dst page pages buf with ⟨_, _, hcopy⟩ | ⟨hskip, hcopy⟩ <;>
      rw [hcopy]
    · set n₁ := n.countRead src (n.readBack src page).1 with hn₁
      have hsrc₁ : (n₁.blocks src).state = (n.blocks src).state := by simp [hn₁]
      have hdst₁ : n₁.blocks dst = n.blocks dst := by simp [hn₁, hne]
      rcases n₁.pageWrite_cases dst page (n.readBack src page).2 with
        ⟨_, _, hw⟩ | ⟨ret, hret, hw, _⟩ <;> rw [hw]
      · refine ih hrest hon ?_ (Or.inl ?_)
        · rw [program_blocks, Function.update_of_ne hne.symm, hsrc₁]
          exact hgood
        · rw [program_blocks, Function.update_self, PhyBlock.program_state]
      · refine ih hrest hon (hsrc₁ ▸ hgood) (Or.inl ?_)
        rcases hstate with hused | ⟨hfree, hinvalid, _⟩
        · rw [hdst₁, hused]
        · -- The page can be written, as the block is free.
          have haccDst : n₁.Accessible dst page :=
            ⟨isBlockValid_iff.2 ⟨hdst, hon⟩, hpage, by rw [hdst₁, hfree]; simp⟩
          rw [pageWrite_of_invalid haccDst (hdst₁ ▸ hinvalid page List.mem_cons_self)] at hw
          exact absurd (Prod.mk.inj hw).1.symm hret
    · refine ih hrest hon hgood (hstate.imp_right fun hvalid => ?_)
      obtain ⟨hfree, hinvalid, p, hp, hv⟩ := hvalid
      refine ⟨hfree, fun q hq => hinvalid q (List.mem_cons_of_mem _ hq), p, ?_, hv⟩
      rcases List.mem_cons.1 hp with rfl | hp
      · rw [hskip hacc] at hv
        simp at hv
      · exact hp

/-- The first free block `r` of the reserved area has been taken, and is not free any more. -/
structure Took (n : Nand) (r : ℕ) (n' : Nand) : Prop where
  ge : userBlocks ≤ r
  lt : r < totalBlocks
  free : (n.blocks r).state = .free
  first : ∀ x, userBlocks ≤ x → x < r → (n.blocks x).state ≠ .free
  count : n'.reservedCount.toNat + 1 = n.reservedCount.toNat
  used : (n'.blocks r).state ≠ .free
  other : ∀ x, x ≠ r → ((n'.blocks x).state = .free ↔ (n.blocks x).state = .free)
  exact : n'.ReserveExact

/-- Replacing a used block that has a valid page. -/
theorem replaceBadBlock_took {r : ℕ} (h : n.ReserveExact) (hused : (n.blocks b).state = .used)
    (hvalid : n.isPageValid b p = true) (hrep : n.replaceBadBlock b = (.ok r, n')) :
    n.Took r n' := by
  obtain ⟨hblock, hp, hv⟩ := isPageValid_iff.1 hvalid
  obtain ⟨hb, hon⟩ := isBlockValid_iff.1 hblock
  rcases n.replaceBadBlock_cases b with ⟨_, heq⟩ |
    ⟨r', _, hge, hlt, hfree, halloc, ⟨_, heq⟩ | ⟨hbad, _⟩⟩
  · rw [heq] at hrep
    exact absurd (Prod.mk.inj hrep).1 (by simp)
  · rw [heq] at hrep
    obtain ⟨hr, rfl⟩ := Prod.mk.inj hrep
    obtain rfl := Except.ok.inj hr
    obtain ⟨_, hcount, hfirst⟩ := allocReservedBlock_first halloc
    have hne : r' ≠ b := fun heq => by
      rw [heq, hused] at hfree
      simp at hfree
    set n₀ : Nand := { n with reservedCount := n.reservedCount - 1 } with hn₀
    obtain ⟨hcount', hstate⟩ := copyPages_frame b r' (List.range pagesPerBlock) n₀ blankPage
    -- A page has been copied to it, so that the block is in use now.
    have hused' : ((n₀.copyPages b r' blankPage (List.range pagesPerBlock)).blocks r').state =
        .used := by
      refine copyPages_used hne hb hlt (fun q hq => List.mem_range.1 hq) hon ?_
        (Or.inr ⟨hfree, fun q hq => ?_, p, List.mem_range.2 hp, hv⟩)
      · change (n.blocks b).state ≠ .bad
        rw [hused]
        simp
      · have hex := h r' hge hlt (by rw [hfree]; simp)
        exact hex.counted.pageValid_of_free hfree (List.mem_range.1 hq)
    refine ⟨hge, hlt, hfree, hfirst, ?_, ?_, fun x hx => ?_, ?_⟩
    · change ((n₀.copyPages b r' blankPage (List.range pagesPerBlock)).reservedCount).toNat + 1 = _
      rw [hcount', hn₀]
      have hpos : n.reservedCount.toNat ≠ 0 := fun hzero => hcount (UInt32.toNat_inj.1 hzero)
      have hsub := UInt32.toNat_sub_of_le n.reservedCount 1
        (UInt32.le_iff_toNat_le.2 (Nat.one_le_iff_ne_zero.2 hpos))
      dsimp only
      rw [hsub, UInt32.toNat_one]
      omega
    · rw [retire_blocks, Function.update_of_ne hne, hused']
      simp
    · rw [retire_blocks, Function.update_apply]
      split
      · next hxb =>
        rw [hxb, hused]
        exact iff_of_false (by simp) (by simp)
      · rw [hstate x hx]
    · have hexact : n₀.ReserveExact := h.congr rfl
      exact (hexact.copyPages b r' blankPage _).retire b .wear
  · rw [hused] at hbad
    simp at hbad

/-- One free block less. -/
theorem Took.freeReserved {r : ℕ} (h : n.Took r n') :
    n'.freeReserved.length + 1 = n.freeReserved.length := by
  have hmem : r ∈ n.freeReserved := List.mem_filter.2
    ⟨List.mem_range'_1.2 ⟨h.ge, h.lt⟩, decide_eq_true h.free⟩
  have hnodup : n.freeReserved.Nodup := List.Nodup.filter _ List.nodup_range'
  have herase : n'.freeReserved = n.freeReserved.erase r := by
    rw [hnodup.erase_eq_filter, Nand.freeReserved, Nand.freeReserved, List.filter_filter]
    refine List.filter_congr fun x _ => ?_
    rcases eq_or_ne x r with rfl | hx
    · simp [h.used]
    · simp [hx, h.other x hx]
  rw [herase, List.length_erase_of_mem hmem]
  exact Nat.sub_add_cancel (List.length_pos_of_mem hmem)

end Nand

namespace Ftl

variable {D : Set PageData} {s s' : Ftl} {buf : PageData} {b r lpn ppn fuel : ℕ} {ret : RetCode}
  {call : Call} {a : Answer}

/-! ## The invariant -/

/-- The reserved area is in order: the free blocks are counted, and a replacement takes the next
    block only behind the write cursor. -/
structure PoolInv (s : Ftl) : Prop where
  count : s.nand.reservedCount.toNat = s.nand.freeReserved.length
  exact : s.nand.ReserveExact
  block_lt : s.curWriteBlock < totalBlocks
  below : ∀ b, userBlocks ≤ b → b ≤ s.curWriteBlock → (s.nand.blocks b).state ≠ .free

/-- The reserved area is in order, and as before; the write cursor has not got there. -/
structure KeepsPool (s s' : Ftl) : Prop where
  inv : s'.PoolInv
  same : s.nand.SameReserve s'.nand
  cursor : userBlocks ≤ s'.curWriteBlock → s'.curWriteBlock = s.curWriteBlock

namespace KeepsPool

theorem refl (h : s.PoolInv) : KeepsPool s s := ⟨h, .refl _, fun _ => rfl⟩

theorem trans {s'' : Ftl} (h : KeepsPool s s') (h' : KeepsPool s' s'') : KeepsPool s s'' where
  inv := h'.inv
  same := h.same.trans h'.same
  cursor hge := by
    have hcur := h'.cursor hge
    rw [hcur, h.cursor (hcur ▸ hge)]

end KeepsPool

namespace PoolInv

/-- An operation of the NAND device that leaves the reserved area alone. -/
theorem nand (h : s.PoolInv) {n : Nand} (hsame : s.nand.SameReserve n) (hexact : n.ReserveExact) :
    KeepsPool s { s with nand := n } where
  inv := {
    count := by rw [hsame.freeReserved, hsame.count, h.count]
    exact := hexact
    block_lt := h.block_lt
    below := fun b hge hle =>
      (hsame.free b hge (Nat.lt_of_le_of_lt hle h.block_lt)).not.2 (h.below b hge hle) }
  same := hsame
  cursor _ := rfl

/-- The same NAND device, and the write cursor in the same block. -/
theorem congr (h : s.PoolInv) (hnand : s'.nand = s.nand)
    (hcur : s'.curWriteBlock = s.curWriteBlock) : KeepsPool s s' where
  inv := {
    count := by rw [hnand, h.count]
    exact := hnand ▸ h.exact
    block_lt := hcur ▸ h.block_lt
    below := fun b hge hle => by
      rw [hcur] at hle
      rw [hnand]
      exact h.below b hge hle }
  same := hnand ▸ .refl s.nand
  cursor _ := hcur

theorem books (h : s.PoolInv) (hsame : SameDevice s s') : KeepsPool s s' :=
  h.congr hsame.nand hsame.curWriteBlock

/-- The next block for the write cursor is one of the user area. -/
theorem findNextFreeBlock (h : s.PoolInv)
    (hb : s.findNextFreeBlock ((s.curWriteBlock + 1) % 2 ^ 32) = some b) : b < userBlocks := by
  have hcur := h.block_lt
  have hfree := (findNextFreeBlock_spec hb).2
  have hmem := List.mem_of_find?_eq_some hb
  rw [Nat.mod_eq_of_lt (by simp only [totalBlocks] at hcur; omega)] at hmem
  by_contra hge
  rcases List.mem_append.1 hmem with hmem | hmem
  · have hlt := List.mem_range'_1.1 hmem
    omega
  · exact h.below b (Nat.le_of_not_lt hge) (Nat.lt_succ_iff.1 (List.mem_range.1 hmem)) hfree

theorem alloc (h : s.PoolInv) (ha : s.allocPhyPage = some (ppn, s')) : KeepsPool s s' := by
  rcases allocPhyPage_cases ha with ⟨_, _, rfl⟩ | ⟨_, b, hb, _, rfl⟩
  · exact h.congr rfl rfl
  · have hlt := h.findNextFreeBlock hb
    refine ⟨⟨h.count, h.exact, hlt.trans (by decide), fun x hge hle => ?_⟩, .refl _, fun hge => ?_⟩
    · exact absurd hlt (Nat.not_lt.2 (hge.trans hle))
    · exact absurd hlt (Nat.not_lt.2 hge)

/-- A block that may be written is not a free one of the reserved area. -/
theorem writable (h : s.PoolInv) (hw : s.Writable b) (hge : userBlocks ≤ b) :
    (s.nand.blocks b).state ≠ .free := by
  rcases hw with hlt | ⟨p, hp, rfl⟩
  · exact absurd hlt (Nat.not_lt.2 hge)
  · rw [ppnToBlock_mk h.block_lt hp] at hge ⊢
    exact h.below _ hge le_rfl

theorem pageWrite (h : s.PoolInv) (hw : s.Writable b) (p : ℕ) (buf : PageData) :
    KeepsPool s { s with nand := (s.nand.pageWrite b p buf).2 } :=
  h.nand (.pageWrite (h.writable hw) p buf) (h.exact.pageWrite b p buf)

/-- An elementary step leaves the reserved area alone, if it erases blocks of the user area only and
    replaces none. -/
theorem step (h : s.PoolInv) {buf buf' : PageData} (hstep : Step D userArea ∅ (s, buf) (s', buf')) :
    KeepsPool s s' := by
  cases hstep with
  | books hsame => exact h.books hsame
  | clear => exact .refl h
  | load _ => exact .refl h
  | alloc ha => exact h.alloc ha
  | read b p => exact h.nand (.pageRead b p buf) (h.exact.pageRead b p buf)
  | write p hw => exact h.pageWrite hw p _
  | @invalidate _ _ b p hb =>
    refine h.nand (.markPageInvalid h.exact fun hge => ?_) (h.exact.markPageInvalid b p)
    exact absurd hb (Nat.not_lt.2 hge)
  | @erase _ _ b hb => exact h.nand (.blockErase hb) (h.exact.blockErase b)
  | @markCold _ _ b hb => exact h.nand (.markColdBlock hb) (h.exact.markColdBlock hb)
  | replace hb => exact absurd hb (Set.notMem_empty _)

/-- So do such steps. -/
theorem reaches (h : s.PoolInv) (hsteps : Reaches D userArea ∅ s s') : KeepsPool s s' := by
  obtain ⟨_, hkeeps⟩ := hsteps.invariant (P := fun x => KeepsPool s x.1) (.refl h)
    fun x y hx hstep => hx.trans (hx.inv.step hstep)
  exact hkeeps

end PoolInv

/-! ## The condition -/

/-- A garbage collection would recycle a block of the user area. -/
def VictimOrderly (s : Ftl) : Prop :=
  ∀ victim, s.gcSelectVictimBlock = some victim → victim < userBlocks

/-- The page is not the last valid one, as counted, of a block of the reserved area. -/
def InvalidateOrderly (s : Ftl) (ppn : ℕ) : Prop :=
  userBlocks ≤ ppnToBlock ppn → s.nand.isPageValid (ppnToBlock ppn) (ppnToPage ppn) = true →
    s.nand.getBlockValidPageCount (ppnToBlock ppn) ≠ 1

/-- The page that would be taken is not in a bad block, or there is nothing to replace it by; and
    the page with the old data may be invalidated, or is in the same block. -/
def WriteOrderly (s : Ftl) (lpn : ℕ) : Prop :=
  ∀ ppn s', s.allocPhyPage = some (ppn, s') →
    ((s.nand.blocks (ppnToBlock ppn)).state = .bad → s.nand.reservedCount = 0) ∧
      ∀ old, s.l2pTable lpn = some old → ppnToBlock old ≠ ppnToBlock ppn → s.InvalidateOrderly old

/-- The block is not to be replaced, or there is nothing to replace it by, or it has a page to be
    copied. -/
def ReplaceOrderly (s : Ftl) (b : ℕ) : Prop :=
  s.nand.isBlockValid b = true → s.nand.getBlockState b = .free ∨ s.nand.reservedCount = 0 ∨
    s.nand.getBlockState b = .used ∧ ∃ p, s.nand.isPageValid b p = true

/-- A turn of the loop with which a write begins. -/
def Turn (s s' : Ftl) : Prop :=
  s.nand.getFreeBlockCount ≤ gcTriggerThreshold ∧ s.gcDoRecycle = (.ok, s')

/-- The call leaves the counter of the reserved blocks right: the condition is one on the state in
    which the call, or each turn of a write and each page of a trim, begins. -/
def Orderly (s : Ftl) : Call → Prop
  | .read lpn _ => ∀ ppn, s.l2pTable lpn = some ppn →
      (s.nand.blocks (ppnToBlock ppn)).state = .bad → s.nand.reservedCount = 0
  | .write lpn _ => ∀ s', Relation.ReflTransGen Turn s s' →
      if s'.nand.getFreeBlockCount ≤ gcTriggerThreshold then s'.VictimOrderly
      else s'.WriteOrderly lpn
  | .trim lpn count => ∀ done i rest s' ppn,
      List.range' lpn.toNat (trimLength lpn count) = done ++ i :: rest →
      done.foldlM trimPage s = some s' → s'.l2pTable i = some ppn → s'.InvalidateOrderly ppn
  | .triggerGc => s.VictimOrderly
  | .replaceBadBlock b => s.ReplaceOrderly b
  | _ => True

/-- The replacement of the block `b` takes the block `r`. -/
def Takes (s : Ftl) (b r : ℕ) : Prop :=
  s.isInitialized ∧ ∃ n, s.nand.replaceBadBlock b = (.ok r, n)

/-- The call takes the block `r` of the reserved area. -/
def TakenBy (s : Ftl) : Call → ℕ → Prop
  | .read lpn buf, r => ∃ ppn, lpn < totalLpns ∧ s.l2pTable lpn = some ppn ∧
      (s.nand.pageRead (ppnToBlock ppn) (ppnToPage ppn) buf).1 = .errBadBlock ∧
      Takes { s with nand := (s.nand.pageRead (ppnToBlock ppn) (ppnToPage ppn) buf).2.2 }
        (ppnToBlock ppn) r
  | .write lpn buf, r => ∃ s₁ ppn s₂, lpn < totalLpns ∧ Relation.ReflTransGen Turn s s₁ ∧
      gcTriggerThreshold < s₁.nand.getFreeBlockCount ∧ s₁.allocPhyPage = some (ppn, s₂) ∧
      (s₂.nand.pageWrite (ppnToBlock ppn) (ppnToPage ppn) buf).1 = .errBadBlock ∧
      Takes { s₂ with nand := (s₂.nand.pageWrite (ppnToBlock ppn) (ppnToPage ppn) buf).2 }
        (ppnToBlock ppn) r
  | .replaceBadBlock b, r => s.Takes b r
  | _, _ => False

/-! ## The calls -/

namespace PoolInv

theorem gcDoRecycle (h : s.PoolInv) (hord : s.VictimOrderly) : KeepsPool s s.gcDoRecycle.2 :=
  h.reaches (gcDoRecycle_reaches (D := ∅) hord)

/-- The loop with which a write begins. -/
theorem gcUntilSpace (h : s.PoolInv)
    (hord : ∀ s', Relation.ReflTransGen Turn s s' →
      s'.nand.getFreeBlockCount ≤ gcTriggerThreshold → s'.VictimOrderly)
    (hgc : gcUntilSpace fuel s = some (ret, s')) :
    KeepsPool s s' ∧ (ret = .ok → Relation.ReflTransGen Turn s s' ∧
      gcTriggerThreshold < s'.nand.getFreeBlockCount) := by
  induction fuel generalizing s with
  | zero =>
    rw [Ftl.gcUntilSpace] at hgc
    split at hgc
    · simp at hgc
    · next henough =>
      obtain ⟨_, rfl⟩ := Prod.mk.inj (Option.some_inj.1 hgc)
      exact ⟨.refl h, fun _ => ⟨.refl, Nat.lt_of_not_le henough⟩⟩
  | succ fuel ih =>
    rw [Ftl.gcUntilSpace] at hgc
    split at hgc
    · next hfew =>
      have hrecycle := h.gcDoRecycle (hord s .refl hfew)
      split at hgc
      · next s₁ hr =>
        rw [hr] at hrecycle
        have hturn : Turn s s₁ := ⟨hfew, hr⟩
        obtain ⟨hkeeps, hok⟩ := ih hrecycle.inv (fun s' hs' => hord s' (.head hturn hs')) hgc
        exact ⟨hrecycle.trans hkeeps, fun hret => ⟨.head hturn (hok hret).1, (hok hret).2⟩⟩
      · next s₁ _ hr =>
        rw [hr] at hrecycle
        obtain ⟨rfl, rfl⟩ := Prod.mk.inj (Option.some_inj.1 hgc)
        exact ⟨hrecycle, by simp⟩
    · next henough =>
      obtain ⟨_, rfl⟩ := Prod.mk.inj (Option.some_inj.1 hgc)
      exact ⟨.refl h, fun _ => ⟨.refl, Nat.lt_of_not_le henough⟩⟩

/-- Nothing is replaced if no block is left. -/
theorem replaceBadBlock_of_none (hcount : s.nand.reservedCount = 0) :
    (∀ r, ¬ s.Takes b r) ∧ ∃ ret, ret ≠ .ok ∧ s.replaceBadBlock b = (ret, s) := by
  have hnone (r : ℕ) (n : Nand) : s.nand.replaceBadBlock b ≠ (.ok r, n) := fun hrep => by
    rcases s.nand.replaceBadBlock_cases b with ⟨_, heq⟩ | ⟨r', _, _, _, _, halloc, _⟩
    · rw [heq] at hrep
      exact absurd (Prod.mk.inj hrep).1 (by simp)
    · exact (Nand.allocReservedBlock_first halloc).2.1 hcount
  refine ⟨fun r htakes => htakes.2.elim fun n hrep => hnone r n hrep, ?_⟩
  rcases s.replaceBadBlock_device b with hfail | ⟨r, n, _, hrep, _⟩
  · exact hfail
  · exact absurd hrep (hnone r n)

/-- Programming the page taken for a write. -/
theorem programPage (h : s.PoolInv) (buf : PageData) (hw : s.Writable (ppnToBlock ppn))
    (hbad : (s.nand.blocks (ppnToBlock ppn)).state = .bad → s.nand.reservedCount = 0) :
    KeepsPool s (s.programPage ppn buf).2.2 ∧ ((s.programPage ppn buf).1 = .ok →
      s.nand.Accessible (ppnToBlock ppn) (ppnToPage ppn) ∧ s.programPage ppn buf = (.ok, ppn, { s with
        nand := s.nand.program (ppnToBlock ppn) (ppnToPage ppn) buf })) := by
  have hkeeps := h.pageWrite hw (ppnToPage ppn) buf
  rw [Ftl.programPage]
  rcases s.nand.pageWrite_cases (ppnToBlock ppn) (ppnToPage ppn) buf with
    ⟨hacc, _, heq⟩ | ⟨ret, hret, heq, hstate⟩ <;> rw [heq] at hkeeps ⊢
  · exact ⟨hkeeps, fun _ => ⟨hacc, rfl⟩⟩
  · dsimp only
    split
    · next hret' =>
      obtain ⟨-, ret', hne, hfail⟩ :=
        replaceBadBlock_of_none (s := s) (b := ppnToBlock ppn) (hbad (hstate hret').2)
      rw [hfail]
      cases ret' with
      | ok => exact absurd rfl hne
      | _ => exact ⟨.refl h, by simp⟩
    · exact ⟨.refl h, fun hok => absurd hok hret⟩

/-- Redirecting the maps to the page that has been programmed. -/
theorem commitWrite (h : s.PoolInv)
    (hord : ∀ old, s.l2pTable lpn = some old → s.InvalidateOrderly old)
    (hcommit : s.commitWrite lpn ppn = some s') : KeepsPool s s' := by
  rcases commitWrite_same hcommit with hsame | ⟨old, hold, hsame⟩
  · exact h.books hsame.toSameDevice
  · have hinvalid := h.nand (.markPageInvalid h.exact (hord old hold))
      (h.exact.markPageInvalid (ppnToBlock old) (ppnToPage old))
    exact hinvalid.trans (hinvalid.inv.books hsame.toSameDevice)

/-- The old page may still be invalidated when the new one has been programmed. -/
theorem invalidateOrderly_program {old : ℕ} (h : s.PoolInv) (hw : s.Writable (ppnToBlock ppn))
    (hacc : s.nand.Accessible (ppnToBlock ppn) (ppnToPage ppn))
    (hord : ppnToBlock old ≠ ppnToBlock ppn → s.InvalidateOrderly old) :
    InvalidateOrderly { s with
      nand := s.nand.program (ppnToBlock ppn) (ppnToPage ppn) buf } old := by
  by_cases hsame : ppnToBlock old = ppnToBlock ppn
  · intro hge _
    rw [hsame] at hge ⊢
    have hb := (Nand.isBlockValid_iff.1 hacc.blockValid).1
    have hpos := h.exact.validPageCnt_pos hge hb hacc.good (h.writable hw hge)
    have hle := (h.exact _ hge hb hacc.good).le
    have hcnt : ((s.nand.blocks (ppnToBlock ppn)).program (ppnToPage ppn)).validPageCnt.toNat = _ :=
      PhyBlock.validPageCnt_program hle
    have hblock : (s.nand.program (ppnToBlock ppn) (ppnToPage ppn) buf).isBlockValid
        (ppnToBlock ppn) = true := hacc.blockValid
    dsimp only
    rw [Nand.getBlockValidPageCount, if_pos hblock, Nand.program_blocks, Function.update_self]
    intro hone
    rw [hone, UInt32.toNat_one] at hcnt
    omega
  · intro hge hvalid
    have hother : (s.nand.program (ppnToBlock ppn) (ppnToPage ppn) buf).blocks (ppnToBlock old) =
        s.nand.blocks (ppnToBlock old) := Function.update_of_ne hsame _ _
    have hpage : (s.nand.program (ppnToBlock ppn) (ppnToPage ppn) buf).isPageValid
        (ppnToBlock old) (ppnToPage old) = s.nand.isPageValid (ppnToBlock old) (ppnToPage old) :=
      Nand.isPageValid_congr rfl (by rw [hother])
    dsimp only at hvalid ⊢
    have hcount := hord hsame hge (hpage ▸ hvalid)
    rwa [Nand.getBlockValidPageCount, Nand.isBlockValid, hother]

/-- What follows in a write once there are enough free blocks. -/
theorem writeOut (h : s.PoolInv) (hord : s.WriteOrderly lpn)
    (hwrite : s.writeOut lpn buf = some (ret, s')) : KeepsPool s s' := by
  rw [Ftl.writeOut] at hwrite
  split at hwrite
  · obtain ⟨_, rfl⟩ := Prod.mk.inj (Option.some_inj.1 hwrite)
    exact .refl h
  next newPpn s₁ halloc =>
  obtain ⟨hbad, hold⟩ := hord newPpn s₁ halloc
  have htaken := h.alloc halloc
  have hframe := allocPhyPage_frame halloc
  obtain ⟨files, sequence, number, hlog⟩ := s₁.walLog_ok (writeEntry lpn (s₁.l2pTable lpn) newPpn)
  rw [walLogWrite, hlog] at hwrite
  set logged : Ftl :=
    { s₁ with files := files, walSequence := sequence, walEntryCount := number } with hlogged
  -- The page is taken from a block that is free or being written; the log is no part of it.
  have hkeeps : KeepsPool s logged := htaken.trans (htaken.inv.congr rfl rfl)
  have hnand : logged.nand = s.nand := by
    rw [hlogged, hframe]
  have hl2p : logged.l2pTable = s.l2pTable := by
    rw [hlogged, hframe]
  have hwritable₁ : s₁.Writable (ppnToBlock newPpn) := allocPhyPage_writable halloc
  have hwritable : logged.Writable (ppnToBlock newPpn) := hwritable₁
  obtain ⟨hprogram, hok⟩ := hkeeps.inv.programPage buf hwritable (hnand ▸ hbad)
  dsimp only at hwrite
  split at hwrite
  · next ppn s₂ hp =>
    obtain ⟨hacc, heq⟩ := hok (by rw [hp])
    rw [heq] at hprogram hp
    obtain ⟨-, hp⟩ := Prod.mk.inj hp
    obtain ⟨rfl, rfl⟩ := Prod.mk.inj hp
    obtain ⟨s₃, hfinish, hret⟩ := Option.map_eq_some_iff.1 hwrite
    obtain ⟨-, rfl⟩ := Prod.mk.inj hret
    obtain ⟨s₄, hcommit, hwear⟩ := finishWrite_steps (D := ∅) (B := ∅) hfinish
    have hcommitted := hprogram.inv.commitWrite (fun old hl => ?_) hcommit
    · exact ((hkeeps.trans hprogram).trans hcommitted).trans (hcommitted.inv.reaches hwear)
    · have hold' : logged.l2pTable lpn = some old := hl
      rw [hl2p] at hold'
      refine hkeeps.inv.invalidateOrderly_program hwritable hacc fun hne => ?_
      have horderly := hold old hold' hne
      rwa [InvalidateOrderly, ← hnand] at horderly
  · next ret' ppn s₂ hret hp =>
    rw [hp] at hprogram
    obtain ⟨rfl, rfl⟩ := Prod.mk.inj (Option.some_inj.1 hwrite)
    exact hkeeps.trans hprogram

theorem write (h : s.PoolInv) (hord : s.Orderly (.write lpn buf))
    (hwrite : s.write fuel lpn buf = some (ret, s')) : KeepsPool s s' := by
  rw [Ftl.write] at hwrite
  split at hwrite
  · obtain ⟨_, rfl⟩ := Prod.mk.inj (Option.some_inj.1 hwrite)
    exact .refl h
  split at hwrite
  · obtain ⟨_, rfl⟩ := Prod.mk.inj (Option.some_inj.1 hwrite)
    exact .refl h
  have hturns (s' : Ftl) (hs' : Relation.ReflTransGen Turn s s')
      (hfew : s'.nand.getFreeBlockCount ≤ gcTriggerThreshold) : s'.VictimOrderly := by
    have hturn := hord s' hs'
    rwa [if_pos hfew] at hturn
  split at hwrite
  · simp at hwrite
  · next s₁ hgc =>
    obtain ⟨hkeeps, hok⟩ := h.gcUntilSpace hturns hgc
    obtain ⟨hs₁, henough⟩ := hok rfl
    have hlast := hord s₁ hs₁
    rw [if_neg (Nat.not_le.2 henough)] at hlast
    exact hkeeps.trans (hkeeps.inv.writeOut hlast hwrite)
  · next ret' s₁ _ hgc =>
    obtain ⟨_, rfl⟩ := Prod.mk.inj (Option.some_inj.1 hwrite)
    exact (h.gcUntilSpace hturns hgc).1

theorem read (h : s.PoolInv) (hord : s.Orderly (.read lpn buf)) :
    KeepsPool s (s.read lpn buf).2.2 := by
  rw [Ftl.read]
  split
  · exact .refl h
  split
  · exact .refl h
  split
  · exact .refl h
  next ppn hl =>
  have hread := h.nand (.pageRead (ppnToBlock ppn) (ppnToPage ppn) buf)
    (h.exact.pageRead (ppnToBlock ppn) (ppnToPage ppn) buf)
  dsimp only
  rcases s.nand.pageRead_cases (ppnToBlock ppn) (ppnToPage ppn) buf with
    ⟨_, _, heq⟩ | ⟨ret', hret', heq, hstate⟩ <;> rw [heq] at hread ⊢ <;> dsimp only
  · rw [if_neg (by decide : RetCode.ok ≠ .errBadBlock)]
    split
    · exact hread.trans (hread.inv.books hybridUpdateAccessCount_same.toSameDevice)
    · exact hread
  · split
    · next hbad =>
      obtain ⟨-, ret'', _, hfail⟩ :=
        replaceBadBlock_of_none (s := s) (b := ppnToBlock ppn) (hord ppn hl (hstate hbad).2)
      rw [hfail]
      exact .refl h
    · rw [if_neg fun hok => hret' hok.1]
      exact .refl h

/-- Trimming one logical page. -/
theorem trimPage {i : ℕ} (h : s.PoolInv)
    (hord : ∀ ppn, s.l2pTable i = some ppn → s.InvalidateOrderly ppn)
    (htrim : s.trimPage i = some s') : KeepsPool s s' := by
  rw [Ftl.trimPage] at htrim
  split at htrim
  · simp at htrim
  · cases hl : s.l2pTable i with
    | none =>
      rw [hl] at htrim
      obtain rfl := Option.some_inj.1 htrim
      exact .refl h
    | some ppn =>
      obtain ⟨files, sequence, number, hentry⟩ := s.walLog_ok (trimEntry i (s.l2pTable i))
      rw [hl] at htrim
      dsimp only at htrim
      split at htrim
      · simp at htrim
      · rw [walLogTrim, hentry] at htrim
        obtain rfl := Option.some_inj.1 htrim
        have hinvalid := h.nand (.markPageInvalid h.exact (hord ppn hl))
          (h.exact.markPageInvalid (ppnToBlock ppn) (ppnToPage ppn))
        exact hinvalid.trans (hinvalid.inv.congr rfl rfl)

theorem foldlM_trimPage {pages : List ℕ} (h : s.PoolInv)
    (hord : ∀ done i rest s' ppn, pages = done ++ i :: rest → done.foldlM Ftl.trimPage s = some s' →
      s'.l2pTable i = some ppn → s'.InvalidateOrderly ppn)
    (htrim : pages.foldlM Ftl.trimPage s = some s') : KeepsPool s s' := by
  induction pages generalizing s with
  | nil =>
    obtain rfl := Option.some_inj.1 htrim
    exact .refl h
  | cons i pages ih =>
    rw [List.foldlM_cons] at htrim
    obtain ⟨s₁, hpage, hrest⟩ := Option.bind_eq_some_iff.1 htrim
    have hkeeps := h.trimPage (fun ppn hl => hord [] i pages s ppn rfl rfl hl) hpage
    refine hkeeps.trans (ih hkeeps.inv (fun done j rest s₂ ppn hsplit hdone => ?_) hrest)
    refine hord (i :: done) j rest s₂ ppn (by rw [hsplit, List.cons_append]) ?_
    rw [List.foldlM_cons, hpage]
    exact hdone

theorem trim {count i : UInt32} (h : s.PoolInv) (hord : s.Orderly (.trim i count))
    (htrim : s.trim i count = some (ret, s')) : KeepsPool s s' := by
  rw [Ftl.trim] at htrim
  split at htrim
  · obtain ⟨_, rfl⟩ := Prod.mk.inj (Option.some_inj.1 htrim)
    exact .refl h
  split at htrim
  · obtain ⟨_, rfl⟩ := Prod.mk.inj (Option.some_inj.1 htrim)
    exact .refl h
  split at htrim
  · obtain ⟨_, rfl⟩ := Prod.mk.inj (Option.some_inj.1 htrim)
    exact .refl h
  · obtain ⟨s₁, hpages, heq⟩ := Option.map_eq_some_iff.1 htrim
    obtain ⟨_, rfl⟩ := Prod.mk.inj heq
    have hkeeps := h.foldlM_trimPage hord hpages
    exact hkeeps.trans (hkeeps.inv.congr rfl rfl)

end PoolInv

/-- A replacement that takes a block succeeds. -/
theorem Takes.ok (h : s.Takes b r) : b < totalBlocks ∧ (s.replaceBadBlock b).1 = .ok := by
  obtain ⟨hon, n, hrep⟩ := h
  have hb : b < totalBlocks := by
    rcases s.nand.replaceBadBlock_cases b with ⟨_, heq⟩ | ⟨_, hb, _⟩
    · rw [heq] at hrep
      exact absurd (Prod.mk.inj hrep).1 (by simp)
    · exact hb
  refine ⟨hb, ?_⟩
  rw [Ftl.replaceBadBlock, if_neg (not_not.2 hon), if_neg (Nat.not_le.2 hb), hrep]

/-- Replacing a block: it fails, or the first free block of the reserved area is taken, and the
    write cursor may have gone along. -/
theorem PoolInv.replaceBadBlock (h : s.PoolInv) (hord : s.ReplaceOrderly b) :
    (KeepsPool s (s.replaceBadBlock b).2 ∧ ∀ r, ¬ s.Takes b r) ∨
      ∃ r, s.Takes b r ∧ (∀ r', s.Takes b r' → r' = r) ∧
        (s.replaceBadBlock b).2.PoolInv ∧ s.nand.Took r (s.replaceBadBlock b).2.nand ∧
          ((s.replaceBadBlock b).2.curWriteBlock = s.curWriteBlock ∨
            (s.replaceBadBlock b).2.curWriteBlock = r) := by
  rcases s.replaceBadBlock_device b with ⟨ret, hret, heq⟩ | ⟨r, n, hon, hrep, _, hsame⟩
  · refine Or.inl ⟨heq ▸ .refl h, fun r htakes => hret ?_⟩
    rw [← htakes.ok.2, heq]
  · have htakes : s.Takes b r := ⟨hon, n, hrep⟩
    have htook : s.nand.Took r n := by
      rcases s.nand.replaceBadBlock_cases b with ⟨_, heq⟩ | ⟨_, hb, _, _, _, halloc, hstate⟩
      · rw [heq] at hrep
        exact absurd (Prod.mk.inj hrep).1 (by simp)
      · obtain ⟨hnand, hcount, _⟩ := Nand.allocReservedBlock_first halloc
        have hvalid := Nand.isBlockValid_iff.2 ⟨hb, hnand⟩
        -- Orderly: the block is free, nothing is left to take, or it holds a page to be copied.
        rcases hord hvalid with hfree | hzero | ⟨hused, p, hp⟩
        · rw [Nand.getBlockState_of_lt hnand hb] at hfree
          rcases hstate with ⟨hused, _⟩ | ⟨hbad, _⟩
          · exact absurd (hused.symm.trans hfree) (by simp)
          · exact absurd (hbad.symm.trans hfree) (by simp)
        · exact absurd hzero hcount
        · rw [Nand.getBlockState_of_lt hnand hb] at hused
          exact Nand.replaceBadBlock_took h.exact hused hp hrep
    have hcur := hsame.curWriteBlock
    have hnand : (s.replaceBadBlock b).2.nand = n := hsame.nand
    refine Or.inr ⟨r, htakes, fun r' htakes' => ?_, ?_, hnand ▸ htook, ?_⟩
    · obtain ⟨_, n', hrep'⟩ := htakes'
      exact Except.ok.inj (Prod.mk.inj (hrep'.symm.trans hrep)).1
    · have hlen := htook.freeReserved
      have hcount := htook.count
      refine ⟨?_, hnand ▸ htook.exact, ?_, fun x hge hle hfree => ?_⟩
      · have hold := h.count
        rw [hnand]
        omega
      · rw [hcur]
        dsimp only
        split
        · exact htook.lt
        · exact h.block_lt
      · rw [hnand] at hfree
        rcases eq_or_ne x r with rfl | hne
        · exact htook.used hfree
        · rw [htook.other x hne] at hfree
          rw [hcur] at hle
          dsimp only at hle
          split at hle
          · exact htook.first x hge (Nat.lt_of_le_of_ne hle hne) hfree
          · exact h.below x hge hle hfree
    · rw [hcur]
      dsimp only
      split
      · exact Or.inr rfl
      · exact Or.inl rfl

/-- What a call of an orderly device does to the reserved area: no block of it becomes free, the
    write cursor gets there only with a block that is taken, and this is not free any more. -/
structure CallKeepsPool (s : Ftl) (call : Call) (s' : Ftl) : Prop where
  inv : s'.PoolInv
  free : ∀ b, userBlocks ≤ b → b < totalBlocks → (s'.nand.blocks b).state = .free →
    (s.nand.blocks b).state = .free
  cursor : userBlocks ≤ s'.curWriteBlock →
    s'.curWriteBlock = s.curWriteBlock ∨ s.TakenBy call s'.curWriteBlock
  taken : ∀ r, s.TakenBy call r →
    userBlocks ≤ r ∧ r < totalBlocks ∧ (s'.nand.blocks r).state ≠ .free

/-- A call that takes no block. -/
theorem KeepsPool.takesNone (h : KeepsPool s s') (hnone : ∀ r, ¬ s.TakenBy call r) :
    CallKeepsPool s call s' where
  inv := h.inv
  free b hge hlt := (h.same.free b hge hlt).1
  cursor hge := Or.inl (h.cursor hge)
  taken r hr := absurd hr (hnone r)

/-- In an orderly call, a block is taken only on request, and it is a free one. -/
theorem TakenBy.free (hord : s.Orderly call) (h : s.TakenBy call r) :
    (∃ b, call = .replaceBadBlock b) ∧ (s.nand.blocks r).state = .free := by
  cases call with
  | read lpn buf =>
    obtain ⟨ppn, _, hl, hbad, htakes⟩ := h
    rcases s.nand.pageRead_cases (ppnToBlock ppn) (ppnToPage ppn) buf with
      ⟨_, _, heq⟩ | ⟨ret', _, heq, hstate⟩ <;> rw [heq] at hbad htakes
    · simp at hbad
    · exact absurd htakes ((PoolInv.replaceBadBlock_of_none (hord ppn hl (hstate hbad).2)).1 r)
  | write lpn buf =>
    obtain ⟨s₁, ppn, s₂, _, hs₁, henough, halloc, hbad, htakes⟩ := h
    have hlast := hord s₁ hs₁
    rw [if_neg (Nat.not_le.2 henough)] at hlast
    have hnand : s₂.nand = s₁.nand := by rw [allocPhyPage_frame halloc]
    rcases s₂.nand.pageWrite_cases (ppnToBlock ppn) (ppnToPage ppn) buf with
      ⟨_, _, heq⟩ | ⟨ret', _, heq, hstate⟩ <;> rw [heq] at hbad htakes
    · simp at hbad
    · have hcount := (hlast ppn s₂ halloc).1 (hnand ▸ (hstate hbad).2)
      exact absurd htakes ((PoolInv.replaceBadBlock_of_none (s := s₂) (hnand ▸ hcount)).1 r)
  | replaceBadBlock b =>
    obtain ⟨_, n, hrep⟩ := h
    refine ⟨⟨b, rfl⟩, ?_⟩
    rcases s.nand.replaceBadBlock_cases b with
      ⟨_, heq⟩ | ⟨r', _, _, _, hfree, _, ⟨_, heq⟩ | ⟨_, heq⟩⟩ <;>
      rw [heq] at hrep
    · exact absurd (Prod.mk.inj hrep).1 (by simp)
    · exact Except.ok.inj (Prod.mk.inj hrep).1 ▸ hfree
    · exact Except.ok.inj (Prod.mk.inj hrep).1 ▸ hfree
  | _ => exact h.elim

/-- An orderly call. -/
theorem exec_pool (h : s.PoolInv) (hord : s.Orderly call)
    (hexec : s.exec fuel call = some (a, s')) : CallKeepsPool s call s' := by
  cases call with
  | read lpn buf =>
    obtain ⟨_, rfl⟩ := Prod.mk.inj (Option.some_inj.1 hexec)
    exact (h.read hord).takesNone fun r hr => absurd (hr.free hord).1 (by simp)
  | write lpn buf =>
    obtain ⟨⟨ret, s₁⟩, hwrite, heq⟩ := Option.map_eq_some_iff.1 hexec
    obtain ⟨_, rfl⟩ := Prod.mk.inj heq
    exact (h.write hord hwrite).takesNone fun r hr => absurd (hr.free hord).1 (by simp)
  | trim lpn count =>
    obtain ⟨⟨ret, s₁⟩, htrim, heq⟩ := Option.map_eq_some_iff.1 hexec
    obtain ⟨_, rfl⟩ := Prod.mk.inj heq
    exact (h.trim hord htrim).takesNone fun _ => id
  | setGcAlgo algo =>
    obtain ⟨_, rfl⟩ := Prod.mk.inj (Option.some_inj.1 hexec)
    exact (h.congr (by rfl) (by rfl)).takesNone fun _ => id
  | triggerGc =>
    obtain ⟨_, rfl⟩ := Prod.mk.inj (Option.some_inj.1 hexec)
    refine KeepsPool.takesNone ?_ fun _ => id
    rw [triggerGc]
    split
    · exact .refl h
    · exact h.gcDoRecycle hord
  | setMapMode mode =>
    obtain ⟨_, rfl⟩ := Prod.mk.inj (Option.some_inj.1 hexec)
    refine (h.congr ?_ ?_).takesNone fun _ => id <;> rw [setMapMode] <;> split <;> rfl
  | hotColdMigration =>
    obtain ⟨⟨ret, s₁⟩, hmigrate, heq⟩ := Option.map_eq_some_iff.1 hexec
    obtain ⟨_, rfl⟩ := Prod.mk.inj heq
    exact (h.books (hotColdMigration_same hmigrate).toSameDevice).takesNone fun _ => id
  | handleReadDisturb =>
    obtain ⟨_, rfl⟩ := Prod.mk.inj (Option.some_inj.1 hexec)
    exact (h.reaches (handleReadDisturb_reaches (D := ∅))).takesNone fun _ => id
  -- The only call that takes a block from the reserved area.
  | replaceBadBlock b =>
    obtain ⟨_, rfl⟩ := Prod.mk.inj (Option.some_inj.1 hexec)
    rcases h.replaceBadBlock hord with ⟨hkeeps, hnone⟩ | ⟨r, htakes, honly, hinv, htook, hcur⟩
    · exact hkeeps.takesNone hnone
    · refine ⟨hinv, fun b' hge hlt hfree => ?_, fun hge => ?_, fun r' hr' => ?_⟩
      · rcases eq_or_ne b' r with rfl | hne
        · exact htook.free
        · exact (htook.other b' hne).1 hfree
      · refine hcur.imp_right fun hr => ?_
        change s.Takes b (s.replaceBadBlock b).2.curWriteBlock
        rw [hr]
        exact htakes
      · obtain rfl := honly r' hr'
        exact ⟨htook.ge, htook.lt, htook.used⟩
  | saveSnapshot path =>
    obtain ⟨_, rfl⟩ := Prod.mk.inj (Option.some_inj.1 hexec)
    have hkeeps : KeepsPool s (s.saveSnapshot path).2 := by
      refine h.congr ?_ ?_ <;> rw [saveSnapshot] <;> split <;> rfl
    exact hkeeps.takesNone fun _ => id
  | walInit path =>
    obtain ⟨_, rfl⟩ := Prod.mk.inj (Option.some_inj.1 hexec)
    exact (h.congr (by rfl) (by rfl)).takesNone fun _ => id
  | walEnable enable =>
    obtain ⟨_, rfl⟩ := Prod.mk.inj (Option.some_inj.1 hexec)
    exact (h.congr (by rfl) (by rfl)).takesNone fun _ => id
  | walClear =>
    obtain ⟨_, rfl⟩ := Prod.mk.inj (Option.some_inj.1 hexec)
    have hkeeps : KeepsPool s (s.walClear).2 := by
      refine h.congr ?_ ?_ <;> rw [walClear] <;> split <;> rfl
    exact hkeeps.takesNone fun _ => id

/-- A run of orderly calls: no block of the reserved area becomes free. -/
theorem run_pool {tr : List (Call × Answer)} (h : s.PoolInv) (hrun : Run Orderly s tr s') :
    s'.PoolInv ∧ ∀ b, userBlocks ≤ b → b < totalBlocks → (s'.nand.blocks b).state = .free →
      (s.nand.blocks b).state = .free := by
  refine hrun.invariant (P := fun s' => s'.PoolInv ∧ ∀ b, userBlocks ≤ b → b < totalBlocks →
    (s'.nand.blocks b).state = .free → (s.nand.blocks b).state = .free)
    ⟨h, fun _ _ _ => id⟩ ?_
  rintro s₁ call a s₂ ⟨h₁, hfree⟩ hord ⟨fuel, hexec⟩
  have hcall := exec_pool h₁ hord hexec
  exact ⟨hcall.inv, fun b hge hlt hb => hfree b hge hlt (hcall.free b hge hlt hb)⟩

/-- The reserved area of a fresh device is in order. -/
theorem Fresh.poolInv (hfresh : Fresh s) : s.PoolInv := by
  obtain ⟨rand, files, hinit⟩ := hfresh
  rw [powerOn, init] at hinit
  split at hinit
  · exact absurd (congrArg Prod.fst hinit) RetCode.noConfusion
  · next firstBlock hfirst =>
    obtain rfl := (congrArg Prod.snd hinit).symm
    have huser := findNextFreeBlock_zero_user hfirst
    refine ⟨?_, fun b hge hlt hgood => ?_, huser.trans (by decide), fun b hge hle => ?_⟩
    · have hle : (((Nand.init none rand).freeReserved).length) ≤ reservedBlocks :=
        (List.length_filter_le _ _).trans (List.length_range').le
      exact UInt32.toNat_ofNat_of_lt (hle.trans_lt (by decide))
    · change (Nand.factoryBlock .tlc (rand b)).Exact
      change (Nand.factoryBlock .tlc (rand b)).state ≠ .bad at hgood
      rw [Nand.factoryBlock] at hgood ⊢
      split at hgood
      · exact absurd rfl hgood
      · next hdraw =>
        rw [if_neg hdraw]
        exact PhyBlock.Exact.fresh
    · exact absurd huser (Nat.not_lt.2 (hge.trans hle))

/-- In a run of orderly calls, the free blocks of the reserved area are counted in every state; the
    next block for the write cursor is always one of the user area, and the write cursor gets to the
    reserved area only with a block that is taken; and a block is taken only once. -/
theorem reserved_pool {s₀ : Ftl} {tr : List (Call × Answer)} (hfresh : Fresh s₀)
    (hrun : Run Orderly s₀ tr s) :
    s.nand.reservedCount.toNat = s.nand.freeReserved.length ∧
      (∀ start, start = 0 ∨ start = (s.curWriteBlock + 1) % 2 ^ 32 →
        ∀ b, s.findNextFreeBlock start = some b → b < userBlocks) ∧
      ∀ call a s₁, s.Orderly call → machine.step s call a s₁ →
        (userBlocks ≤ s₁.curWriteBlock →
          s₁.curWriteBlock = s.curWriteBlock ∨ s.TakenBy call s₁.curWriteBlock) ∧
        ∀ tr' s₂ call' r, Run Orderly s₁ tr' s₂ → s₂.Orderly call' → s.TakenBy call r →
          ¬ s₂.TakenBy call' r := by
  obtain ⟨hinv, -⟩ := run_pool hfresh.poolInv hrun
  refine ⟨hinv.count, fun start hstart b hb => ?_, ?_⟩
  · rcases hstart with rfl | rfl
    · exact findNextFreeBlock_zero_user hb
    · exact hinv.findNextFreeBlock hb
  · rintro call a s₁ hord ⟨fuel, hexec⟩
    have hcall := exec_pool hinv hord hexec
    refine ⟨hcall.cursor, fun tr' s₂ call' r hrun' hord' htaken htaken' => ?_⟩
    obtain ⟨hge, hlt, hused⟩ := hcall.taken r htaken
    obtain ⟨-, hfree⟩ := run_pool hcall.inv hrun'
    -- A block that is taken has been free before, and this one is not free any more.
    exact hused (hfree r hge hlt (htaken'.free hord').2)

/-- A write to a page that is not mapped, without a garbage collection and to a good block. -/
theorem orderly_write (hfree : gcTriggerThreshold < s.nand.getFreeBlockCount)
    (hl : s.l2pTable lpn = none) (hgood : ∀ ppn s', s.allocPhyPage = some (ppn, s') →
      (s.nand.blocks (ppnToBlock ppn)).state ≠ .bad) (buf : PageData) :
    s.Orderly (.write lpn buf) := by
  intro s' hs'
  rcases hs'.cases_head with rfl | ⟨s₁, hturn, _⟩
  · rw [if_neg (Nat.not_le.2 hfree)]
    exact fun ppn s' halloc => ⟨fun hbad => absurd hbad (hgood ppn s' halloc), fun old hold => by
      rw [hl] at hold
      exact absurd hold (by simp)⟩
  · exact absurd hturn.1 (Nat.not_le.2 hfree)

/-- Logical page 0 can be written, and is not mapped; page (0, 0) is to be taken. -/
def readyToWrite (s : Ftl) : Bool :=
  decide (gcTriggerThreshold < s.nand.getFreeBlockCount) && decide (s.l2pTable 0 = none) &&
    decide (s.allocPhyPage.map Prod.fst = some 0) && decide ((s.nand.blocks 0).state = .free)

/-- Logical page 0 of a fresh device is written, and its block is replaced. -/
theorem reserved_pool_first : ∃ (s₀ : Ftl) (tr : List (Call × Answer)) (s : Ftl),
    Fresh s₀ ∧ Run Orderly s₀ tr s ∧ tr.length = 2 ∧ s.nand.reservedCount = 7 ∧
      s.nand.reservedCount.toNat = s.nand.freeReserved.length := by
  have hready : (powerOn (fun _ => 99) fun _ => none).2.readyToWrite = true := by decide +kernel
  have heq : ((powerOn (fun _ => 99) fun _ => none).2.write 0 0 blankPage).map
      (fun r => decide (r.2.nand.getBlockState 0 = .used) && r.2.nand.isPageValid 0 0 &&
        decide ((r.2.replaceBadBlock 0).2.nand.reservedCount = 7)) = some true := by
    decide +kernel
  obtain ⟨s₀, hs₀⟩ : ∃ s₀, (powerOn (fun _ => 99) fun _ => none).2 = s₀ := ⟨_, rfl⟩
  rw [hs₀] at hready heq
  have hfresh : Fresh s₀ := ⟨fun _ => 99, fun _ => none, Prod.ext rfl hs₀⟩
  obtain ⟨⟨ret, s₁⟩, hwrite, hdata⟩ := Option.map_eq_some_iff.1 heq
  simp only [readyToWrite, Bool.and_eq_true, decide_eq_true_eq] at hready hdata
  obtain ⟨⟨⟨hfree, hl⟩, halloc⟩, hstate⟩ := hready
  obtain ⟨⟨hused, hvalid⟩, hcount⟩ := hdata
  have hfirst : s₀.Orderly (.write 0 blankPage) := by
    refine orderly_write hfree hl (fun ppn s' h => ?_) blankPage
    rw [h, Option.map_some, Option.some_inj] at halloc
    rw [show ppn = 0 from halloc, show ppnToBlock 0 = 0 from rfl, hstate]
    simp
  have hsecond : s₁.Orderly (.replaceBadBlock 0) := fun _ => Or.inr (Or.inr ⟨hused, 0, hvalid⟩)
  have hrun₁ : Run Orderly s₀ [(.write 0 blankPage, ⟨ret, none⟩)] s₁ :=
    .single hfirst ⟨0, congrArg (Option.map answer) hwrite⟩
  have hrun₂ : Run Orderly s₁ [(.replaceBadBlock 0, ⟨(s₁.replaceBadBlock 0).1, none⟩)]
      (s₁.replaceBadBlock 0).2 := .single hsecond ⟨0, rfl⟩
  have hrun := hrun₁.append hrun₂
  exact ⟨s₀, _, _, hfresh, hrun, rfl, hcount, (reserved_pool hfresh hrun).1⟩

/-- Block 0 is bad, and the first free block of the reserved area is block 121. -/
def givesBlock (s : Ftl) : Bool :=
  s.isInitialized && decide ((s.nand.replaceBadBlock 0).1 = .ok 121)

/-- Block 0 is replaced twice. The second time, it is bad already, so that nothing is copied to the
    block taken for it: this is counted as taken, but free, and taken again the next time. -/
theorem not_reserved_pool : ∃ (s₀ : Ftl) (tr : List (Call × Answer)) (s : Ftl) (a : Answer) (s' : Ftl),
    Fresh s₀ ∧ Run (fun _ _ => True) s₀ tr s ∧ machine.step s (.replaceBadBlock 0) a s' ∧
      s'.nand.reservedCount.toNat ≠ s'.nand.freeReserved.length ∧
      s.TakenBy (.replaceBadBlock 0) 121 ∧ s'.TakenBy (.replaceBadBlock 0) 121 := by
  have heq : (execAll 0 [.write 0 blankPage, .replaceBadBlock 0]
      (powerOn (fun _ => 99) fun _ => none).2).map (fun r => r.2.givesBlock &&
        (r.2.replaceBadBlock 0).2.givesBlock && decide
          ((r.2.replaceBadBlock 0).2.nand.reservedCount.toNat ≠
            (r.2.replaceBadBlock 0).2.nand.freeReserved.length)) = some true := by
    decide +kernel
  obtain ⟨⟨tr, s⟩, hexec, hdata⟩ := Option.map_eq_some_iff.1 heq
  simp only [givesBlock, Bool.and_eq_true, decide_eq_true_eq] at hdata
  obtain ⟨⟨⟨hon, hfirst⟩, hon', hsecond⟩, hcount⟩ := hdata
  exact ⟨_, tr, s, ⟨(s.replaceBadBlock 0).1, none⟩, (s.replaceBadBlock 0).2,
    ⟨fun _ => 99, fun _ => none, Prod.ext rfl rfl⟩, execAll_run (fun _ _ => True.intro) hexec,
    ⟨0, rfl⟩, hcount, ⟨hon, _, Prod.ext hfirst rfl⟩, ⟨hon', _, Prod.ext hsecond rfl⟩⟩

end Ftl

end FtlFirmware
