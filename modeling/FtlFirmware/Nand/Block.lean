import FtlFirmware.Common
import Mathlib.Data.Finset.Card
import Mathlib.Data.Finset.Range

/-!
# Physical blocks

The metadata that the NAND module keeps of a physical block (`PhyBlock`), and what the operations
of the module do to it.

The valid pages of a block are counted twice: they are marked in `pageValid` and counted in
`validPageCnt`. The two agree as long as the block is not marked as cold (`Exact`); then the
counter may fall behind, but not more than the state of the block shows (`Counted`).

* `Exact.program`, `Exact.invalidate`: programming and invalidating a page keep the count exact;
* `Counted.program`, `Counted.invalidate`: they keep a count that has fallen behind, provided that
  the invalidation does not count the last page away.
-/

namespace FtlFirmware

/-- The number of pages of a block (`NAND_PAGES_PER_BLOCK`). -/
abbrev pagesPerBlock : ℕ := 256

/-- The number of reads from which a block is to be reclaimed
    (`NAND_READ_DISTURB_THRESHOLD`). -/
abbrev readDisturbThreshold : UInt32 := 100000

/-- The states of a block (`block_state_t`). -/
inductive BlockState
  | free
  | used
  | bad
  deriving DecidableEq, Repr

/-- The types of bad blocks (`bad_block_type_t`). -/
inductive BadBlockType
  | init
  | wear
  deriving DecidableEq, Repr

/-- The metadata of a block (`phy_block_t`). -/
structure PhyBlock where
  state : BlockState
  eraseCount : UInt32
  validPageCnt : UInt32
  readCount : UInt32
  needReclaim : Bool
  badType : BadBlockType
  pageValid : ℕ → Bool

namespace PhyBlock

/-- The metadata to which `nand_init` sets every block. -/
def fresh : PhyBlock where
  state := .free
  eraseCount := 0
  validPageCnt := 0
  readCount := 0
  needReclaim := false
  badType := .init
  pageValid := fun _ => false

variable (blk : PhyBlock)

/-! ## The operations -/

/-- A page becomes valid: what `nand_page_write` and the recovery of `nand_init` do. -/
def program (page : ℕ) : PhyBlock :=
  { blk with
    pageValid := Function.update blk.pageValid page true
    validPageCnt := blk.validPageCnt + 1
    state := .used }

/-- A page becomes invalid (`nand_mark_page_invalid`): a block without valid pages, as counted, is
    free. -/
def invalidate (page : ℕ) : PhyBlock :=
  { blk with
    pageValid := Function.update blk.pageValid page false
    validPageCnt := blk.validPageCnt - 1
    state := if blk.validPageCnt - 1 = 0 then .free else blk.state }

/-- The block is erased (`nand_block_erase`). -/
def erase : PhyBlock :=
  { blk with
    eraseCount := blk.eraseCount + 1
    validPageCnt := 0
    pageValid := fun _ => false
    readCount := 0
    state := .free }

/-- The block wears out in an erase (`nand_block_erase`). Its valid pages stay marked. -/
def wearOut : PhyBlock := { blk with state := .bad, badType := .wear }

/-- The block is marked as bad (`nand_mark_block_bad`). -/
def retire (type : BadBlockType) : PhyBlock :=
  { blk with
    state := .bad
    badType := type
    validPageCnt := 0
    pageValid := fun _ => false }

/-- The block is marked as cold (`nand_mark_cold_block`): its counter is lowered to 1. -/
def markCold : PhyBlock :=
  if 1 < blk.validPageCnt then { blk with validPageCnt := 1 } else blk

/-- The block is read (`nand_page_read`). One that is read too often is marked to be reclaimed. -/
def countRead : PhyBlock :=
  { blk with
    readCount := blk.readCount + 1
    needReclaim := blk.needReclaim ||
      (decide (readDisturbThreshold ≤ blk.readCount + 1) && decide (blk.state = .used)) }

/-! ## Their effect on the state and the valid pages -/

section Effect

variable {blk} {page : ℕ}

@[simp] theorem program_state : (blk.program page).state = .used := rfl

@[simp] theorem program_pageValid :
    (blk.program page).pageValid = Function.update blk.pageValid page true := rfl

@[simp] theorem program_eraseCount : (blk.program page).eraseCount = blk.eraseCount := rfl

@[simp] theorem invalidate_pageValid :
    (blk.invalidate page).pageValid = Function.update blk.pageValid page false := rfl

@[simp] theorem invalidate_eraseCount : (blk.invalidate page).eraseCount = blk.eraseCount := rfl

@[simp] theorem erase_state : blk.erase.state = .free := rfl

@[simp] theorem erase_pageValid : blk.erase.pageValid = fun _ => false := rfl

@[simp] theorem erase_eraseCount : blk.erase.eraseCount = blk.eraseCount + 1 := rfl

@[simp] theorem wearOut_state : blk.wearOut.state = .bad := rfl

@[simp] theorem wearOut_pageValid : blk.wearOut.pageValid = blk.pageValid := rfl

@[simp] theorem retire_state (type : BadBlockType) : (blk.retire type).state = .bad := rfl

@[simp] theorem retire_pageValid (type : BadBlockType) :
    (blk.retire type).pageValid = fun _ => false := rfl

@[simp] theorem markCold_state : blk.markCold.state = blk.state := by
  rw [markCold]
  split <;> rfl

@[simp] theorem markCold_pageValid : blk.markCold.pageValid = blk.pageValid := by
  rw [markCold]
  split <;> rfl

@[simp] theorem markCold_eraseCount : blk.markCold.eraseCount = blk.eraseCount := by
  rw [markCold]
  split <;> rfl

@[simp] theorem countRead_state : blk.countRead.state = blk.state := rfl

@[simp] theorem countRead_pageValid : blk.countRead.pageValid = blk.pageValid := rfl

@[simp] theorem countRead_eraseCount : blk.countRead.eraseCount = blk.eraseCount := rfl

/-- An invalidation does not make a block bad. -/
theorem invalidate_state_ne_bad (hb : blk.state ≠ .bad) :
    (blk.invalidate page).state ≠ .bad := by
  simp only [invalidate]
  split
  · decide
  · exact hb

end Effect

/-! ## Counting valid pages -/

/-- The valid pages. -/
def validPages : Finset ℕ := (Finset.range pagesPerBlock).filter fun p => blk.pageValid p

/-- The counter is the number of valid pages, and the block is free if there are none. -/
structure Exact : Prop where
  count : blk.validPageCnt.toNat = blk.validPages.card
  free_iff : blk.state = .free ↔ blk.validPages.card = 0

/-- The counter of a free block is zero, as is the number of its valid pages; that of a used
    block is positive, and at most the number of its valid pages. -/
structure Counted : Prop where
  count_free : blk.state = .free → blk.validPageCnt = 0
  free : blk.state = .free → blk.validPages = ∅
  used_pos : blk.state = .used → 0 < blk.validPageCnt.toNat
  used_le : blk.state = .used → blk.validPageCnt.toNat ≤ blk.validPages.card

/-- The block can lose `k` valid pages without being taken for a free one too early: it is counted
    exactly, or more than `k` pages are counted. -/
def Spares (k : ℕ) : Prop :=
  blk.validPageCnt.toNat = blk.validPages.card ∨ k < blk.validPageCnt.toNat

variable {blk} {page k : ℕ}

/-- A page is among the valid ones. -/
theorem mem_validPages : page ∈ blk.validPages ↔ page < pagesPerBlock ∧ blk.pageValid page := by
  simp [validPages]

/-- There are no more valid pages than pages. -/
theorem card_validPages_le : blk.validPages.card ≤ pagesPerBlock := by
  simpa [validPages] using Finset.card_filter_le (Finset.range pagesPerBlock) (blk.pageValid ·)

/-- Programming a page adds it to the valid ones. -/
theorem validPages_program (hp : page < pagesPerBlock) :
    (blk.program page).validPages = insert page blk.validPages := by
  ext q
  rcases eq_or_ne q page with rfl | hq
  · simp [mem_validPages, program, hp]
  · simp [mem_validPages, program, hq]

/-- Invalidating a page takes it from the valid ones. -/
theorem validPages_invalidate :
    (blk.invalidate page).validPages = blk.validPages.erase page := by
  ext q
  rcases eq_or_ne q page with rfl | hq
  · simp [mem_validPages, invalidate]
  · simp [mem_validPages, invalidate, hq]

/-- The number of valid pages after one more is programmed. -/
theorem card_validPages_program (hp : page < pagesPerBlock) (hv : blk.pageValid page = false) :
    (blk.program page).validPages.card = blk.validPages.card + 1 := by
  rw [validPages_program hp, Finset.card_insert_of_notMem]
  simp [mem_validPages, hv]

/-- The number of valid pages after one of them is invalidated. -/
theorem card_validPages_invalidate (hp : page < pagesPerBlock) (hv : blk.pageValid page) :
    (blk.invalidate page).validPages.card + 1 = blk.validPages.card := by
  rw [validPages_invalidate]
  exact Finset.card_erase_add_one (mem_validPages.2 ⟨hp, hv⟩)

/-- The counter does not wrap as long as it is at most the number of pages. -/
theorem validPageCnt_program (h : blk.validPageCnt.toNat ≤ pagesPerBlock) :
    (blk.program page).validPageCnt.toNat = blk.validPageCnt.toNat + 1 := by
  have hlt : blk.validPageCnt.toNat + 1 < 2 ^ 32 := Nat.lt_of_le_of_lt (Nat.succ_le_succ h) (by decide)
  rw [program, UInt32.toNat_add, UInt32.toNat_one, Nat.mod_eq_of_lt hlt]

/-- The counter does not wrap below zero as long as it is positive. -/
theorem validPageCnt_invalidate (h : 0 < blk.validPageCnt.toNat) :
    (blk.invalidate page).validPageCnt.toNat = blk.validPageCnt.toNat - 1 := by
  simp only [invalidate]
  exact UInt32.toNat_sub_of_le _ _ (UInt32.le_iff_toNat_le.2 h)

/-- After an invalidation, a block is free if its counter is down to zero. -/
theorem state_invalidate (h : 0 < blk.validPageCnt.toNat) :
    (blk.invalidate page).state = if blk.validPageCnt.toNat = 1 then .free else blk.state := by
  have hcnt : (blk.invalidate page).validPageCnt.toNat = _ := validPageCnt_invalidate h
  simp only [invalidate] at hcnt ⊢
  congr 1
  rw [← UInt32.toNat_inj, hcnt, UInt32.toNat_zero, eq_iff_iff]
  omega

/-! ## What keeps the count -/

/-- A fresh block. -/
theorem Exact.fresh : fresh.Exact := by
  constructor <;> simp [PhyBlock.fresh, validPages]

/-- An exact count is at most the number of pages. -/
theorem Exact.le (h : blk.Exact) : blk.validPageCnt.toNat ≤ pagesPerBlock :=
  h.count.trans_le card_validPages_le

/-- Programming a page. -/
theorem Exact.program (h : blk.Exact) (hp : page < pagesPerBlock)
    (hv : blk.pageValid page = false) : (blk.program page).Exact where
  count := by rw [validPageCnt_program h.le, card_validPages_program hp hv, h.count]
  free_iff := by
    rw [card_validPages_program hp hv]
    exact iff_of_false (by simp [PhyBlock.program]) (Nat.succ_ne_zero _)

/-- Invalidating a valid page. -/
theorem Exact.invalidate (h : blk.Exact) (hp : page < pagesPerBlock) (hv : blk.pageValid page) :
    (blk.invalidate page).Exact := by
  have hcard := card_validPages_invalidate hp hv
  have hpos : 0 < blk.validPageCnt.toNat := by rw [h.count, ← hcard]; exact Nat.succ_pos _
  have hfree : blk.state ≠ .free := fun hf => by rw [h.count, h.free_iff.1 hf] at hpos; omega
  constructor
  · rw [validPageCnt_invalidate hpos, h.count, ← hcard, Nat.add_sub_cancel]
  · rw [state_invalidate hpos, h.count, ← hcard]
    split
    · exact iff_of_true rfl (by omega)
    · exact iff_of_false hfree (by omega)

/-- Erasing the block. -/
theorem Exact.erase : blk.erase.Exact := by
  constructor <;> simp [PhyBlock.erase, validPages]

/-- Reading the block. -/
theorem Exact.countRead (h : blk.Exact) : blk.countRead.Exact := ⟨h.count, h.free_iff⟩

/-- A block counted exactly is counted. -/
theorem Exact.counted (h : blk.Exact) : blk.Counted where
  count_free hf := UInt32.toNat_inj.1 (h.count.trans (h.free_iff.1 hf))
  free hf := Finset.card_eq_zero.1 (h.free_iff.1 hf)
  used_pos hu := by
    rw [h.count, Nat.pos_iff_ne_zero, Ne, ← h.free_iff, hu]
    decide
  used_le _ := h.count.le

/-- A counted block that is not bad does not count more than the valid pages. -/
theorem Counted.le (h : blk.Counted) (hb : blk.state ≠ .bad) :
    blk.validPageCnt.toNat ≤ blk.validPages.card := by
  cases hs : blk.state with
  | free => rw [h.count_free hs]; exact Nat.zero_le _
  | used => exact h.used_le hs
  | bad => exact absurd hs hb

/-- A block with a valid page is not free. -/
theorem Counted.state_ne_free (h : blk.Counted) (hp : page < pagesPerBlock)
    (hv : blk.pageValid page) : blk.state ≠ .free := fun hf => by
  have hmem := mem_validPages.2 ⟨hp, hv⟩
  rw [h.free hf] at hmem
  exact Finset.notMem_empty _ hmem

/-- A block with a valid page that is not bad is used. -/
theorem Counted.used_of_valid (h : blk.Counted) (hb : blk.state ≠ .bad) (hp : page < pagesPerBlock)
    (hv : blk.pageValid page) : blk.state = .used := by
  cases hs : blk.state with
  | free => exact absurd hs (h.state_ne_free hp hv)
  | used => rfl
  | bad => exact absurd hs hb

/-- A free block has no valid page. -/
theorem Counted.pageValid_of_free (h : blk.Counted) (hf : blk.state = .free)
    (hp : page < pagesPerBlock) : blk.pageValid page = false :=
  Bool.eq_false_iff.2 fun hv => h.state_ne_free hp hv hf

/-- The counter after programming a page. -/
theorem Counted.validPageCnt_program (h : blk.Counted) (hb : blk.state ≠ .bad) :
    (blk.program page).validPageCnt.toNat = blk.validPageCnt.toNat + 1 :=
  PhyBlock.validPageCnt_program ((h.le hb).trans card_validPages_le)

/-- Programming a page. -/
theorem Counted.program (h : blk.Counted) (hb : blk.state ≠ .bad) (hp : page < pagesPerBlock)
    (hv : blk.pageValid page = false) : (blk.program page).Counted where
  count_free := by simp [PhyBlock.program]
  free := by simp [PhyBlock.program]
  used_pos _ := by rw [h.validPageCnt_program hb]; exact Nat.succ_pos _
  used_le _ := by
    rw [h.validPageCnt_program hb, card_validPages_program hp hv]
    exact Nat.succ_le_succ (h.le hb)

/-- Invalidating a valid page, if the count is exact or the page is not the last one counted. -/
theorem Counted.invalidate (h : blk.Counted) (hb : blk.state ≠ .bad) (hp : page < pagesPerBlock)
    (hv : blk.pageValid page) (hcnt : blk.Spares 1) : (blk.invalidate page).Counted := by
  have hcnt : blk.validPageCnt.toNat = blk.validPages.card ∨ 1 < blk.validPageCnt.toNat := hcnt
  have hcard := card_validPages_invalidate hp hv
  have hused := h.used_of_valid hb hp hv
  have hpos := h.used_pos hused
  have hle := h.used_le hused
  have hinv : (blk.invalidate page).validPageCnt.toNat = _ := validPageCnt_invalidate hpos
  constructor
  · intro hf
    rw [state_invalidate hpos, hused] at hf
    exact UInt32.toNat_inj.1 (hinv.trans (by split at hf <;> simp_all))
  · intro hf
    rw [state_invalidate hpos, hused] at hf
    refine Finset.card_eq_zero.1 ?_
    split at hf
    · omega
    · exact absurd hf (by decide)
  · intro hu
    rw [state_invalidate hpos, hused] at hu
    split at hu
    · exact absurd hu (by decide)
    · omega
  · intro _
    omega

/-- Erasing the block. -/
theorem Counted.erase : blk.erase.Counted := Exact.erase.counted

/-- A bad block. -/
theorem Counted.of_bad (hb : blk.state = .bad) : blk.Counted := by
  constructor <;> intro hs <;> rw [hb] at hs <;> exact absurd hs (by decide)

/-- Reading the block. -/
theorem Counted.countRead (h : blk.Counted) : blk.countRead.Counted :=
  ⟨h.count_free, h.free, h.used_pos, h.used_le⟩

/-- Marking a used block as cold. -/
theorem Counted.markCold (h : blk.Counted) (hu : blk.state = .used) : blk.markCold.Counted := by
  rw [PhyBlock.markCold]
  split
  · next hlt =>
    have hlt' : 1 < blk.validPageCnt.toNat := hlt
    have hle := h.used_le hu
    constructor
    · intro hf
      exact absurd (hu.symm.trans hf) (by decide)
    · intro hf
      exact absurd (hu.symm.trans hf) (by decide)
    · exact fun _ => Nat.one_pos
    · exact fun _ => hlt'.le.trans hle
  · exact h

/-- Marking a block as cold keeps an exact count if and only if it does not change it. -/
theorem Exact.markCold_iff (h : blk.Exact) :
    blk.markCold.Exact ↔ ¬ 1 < blk.validPageCnt.toNat := by
  constructor
  · intro h' hlt
    rw [PhyBlock.markCold, if_pos (show (1 : UInt32) < blk.validPageCnt from hlt)] at h'
    have hcount : (1 : UInt32).toNat = blk.validPages.card := h'.count
    rw [← h.count] at hcount
    exact hlt.ne hcount
  · intro hlt
    rw [PhyBlock.markCold, if_neg fun hlt' : 1 < blk.validPageCnt => hlt hlt']
    exact h

/-! ## Losing valid pages -/

/-- A block that can lose `k` pages can lose fewer. -/
theorem Spares.mono {j : ℕ} (h : blk.Spares k) (hjk : j ≤ k) : blk.Spares j :=
  h.imp_right hjk.trans_lt

/-- After a page has been programmed, a block can lose a page. -/
theorem Counted.spares_program (h : blk.Counted) (hb : blk.state ≠ .bad)
    (hp : page < pagesPerBlock) (hv : blk.pageValid page = false) :
    (blk.program page).Spares 1 := by
  rw [Spares, h.validPageCnt_program hb, card_validPages_program hp hv]
  cases hs : blk.state with
  | free =>
    left
    rw [h.count_free hs, h.free hs]
    rfl
  | used => exact Or.inr (Nat.succ_lt_succ (h.used_pos hs))
  | bad => exact absurd hs hb

/-- After losing a valid page, a block can lose one page less. -/
theorem Spares.invalidate (h : blk.Spares (k + 1)) (hcounted : blk.Counted)
    (hb : blk.state ≠ .bad) (hp : page < pagesPerBlock) (hv : blk.pageValid page) :
    (blk.invalidate page).Spares k := by
  have hpos := hcounted.used_pos (hcounted.used_of_valid hb hp hv)
  have hcard := card_validPages_invalidate hp hv
  rw [Spares, validPageCnt_invalidate hpos]
  rcases h with h | h
  · left
    omega
  · right
    omega

end PhyBlock

end FtlFirmware
