import Mathlib.Data.Nat.Cast.Basic
import FtlFirmware.Ftl.Calls
import FtlFirmware.Ftl.Erasing

/-!
# What stays on the media

Pages are written out of place, and an erase leaves the media file alone. So a content stays on the
media until its page is programmed again, and a secure erase, which only writes elsewhere, does not
change that.

* `Nand.Clean`: no page of the media stores a content of a set, and the valid pages are stored with
  their own ECC. Each call keeps this if it writes no such content (`exec_clean`).
* `Fits`: the writes of a secure erase are the next pages at the write cursor (`overwrite_fits`).

A secure erase thus erases the contents of its range if they are only at pages that it programs, and
the patterns are no such contents; if its writes fit, only then (`secureErase_erases`).
-/

namespace FtlFirmware

namespace Nand

variable {C : Set PageData} {n n' : Nand} {b p src dst : ℕ} {buf : PageData} {pages : List ℕ}

@[simp] theorem program_data :
    (n.program b p buf).media.data = Function.update n.media.data (b, p) buf := rfl

/-- No page of the media stores a content of `C`, and the valid pages of blocks that are not bad are
    stored with their own ECC. -/
structure Clean (C : Set PageData) (n : Nand) : Prop where
  clean : ∀ x, n.media.data x ∉ C
  sound : ∀ b p, (n.blocks b).state ≠ .bad → (n.blocks b).pageValid p = true →
    (n.media.oob (b, p)).magic = oobMagic ∧
      (n.media.oob (b, p)).ecc = hammingEcc (n.media.data (b, p))

namespace Clean

/-- The same media, with no more valid pages. -/
theorem congr (h : n.Clean C) (hmedia : n'.media = n.media)
    (hblocks : ∀ b p, (n'.blocks b).state ≠ .bad → (n'.blocks b).pageValid p = true →
      (n.blocks b).state ≠ .bad ∧ (n.blocks b).pageValid p = true) : n'.Clean C where
  clean := by
    rw [hmedia]
    exact h.clean
  sound b p hstate hvalid := by
    obtain ⟨hstate', hvalid'⟩ := hblocks b p hstate hvalid
    rw [hmedia]
    exact h.sound b p hstate' hvalid'

/-- New metadata of a block, with no more valid pages. -/
theorem setBlock {blk : PhyBlock} (h : n.Clean C)
    (hblk : ∀ p, blk.state ≠ .bad → blk.pageValid p = true →
      (n.blocks b).state ≠ .bad ∧ (n.blocks b).pageValid p = true) :
    (n.setBlock b blk).Clean C := by
  refine h.congr rfl fun b' p hstate hvalid => ?_
  rw [setBlock_blocks, Function.update_apply] at hstate hvalid
  split at hstate
  · next hb =>
    rw [if_pos hb] at hvalid
    rw [hb]
    exact hblk p hstate hvalid
  · next hb =>
    rw [if_neg hb] at hvalid
    exact ⟨hstate, hvalid⟩

/-- A page that can be read gives back what is stored. -/
theorem readBack (h : n.Clean C) (hacc : n.Accessible b p)
    (hvalid : (n.blocks b).pageValid p = true) : (n.readBack b p).2 = n.media.data (b, p) := by
  obtain ⟨hmagic, hecc⟩ := h.sound b p hacc.good hvalid
  rw [Nand.readBack, if_pos hmagic, hecc, eccHammingDecode_self _ (by decide)]

theorem countRead (h : n.Clean C) (ecc : EccResult) : (n.countRead b ecc).Clean C := by
  refine h.congr rfl fun b' p hstate hvalid => ?_
  rw [countRead_blocks, Function.update_apply] at hstate hvalid
  split at hstate
  · next hb =>
    rw [if_pos hb] at hvalid
    rw [hb]
    exact ⟨hstate, hvalid⟩
  · next hb =>
    rw [if_neg hb] at hvalid
    exact ⟨hstate, hvalid⟩

/-- Reading fills the buffer with what is stored, or leaves it as it is. -/
theorem pageRead (h : n.Clean C) (hbuf : buf ∉ C) (b p : ℕ) :
    (n.pageRead b p buf).2.2.Clean C ∧ (n.pageRead b p buf).2.1 ∉ C := by
  rcases n.pageRead_cases b p buf with ⟨hacc, hvalid, heq⟩ | ⟨ret, _, heq, _⟩ <;> rw [heq]
  · refine ⟨h.countRead _, ?_⟩
    dsimp only
    rw [h.readBack hacc hvalid]
    exact h.clean _
  · exact ⟨h, hbuf⟩

/-- Programming a page with another content. -/
theorem program (h : n.Clean C) (hbuf : buf ∉ C) (hgood : (n.blocks b).state ≠ .bad) (p : ℕ) :
    (n.program b p buf).Clean C where
  clean x := by
    rw [program_data, Function.update_apply]
    split
    · exact hbuf
    · exact h.clean x
  sound b' p' hstate hvalid := by
    simp only [Nand.program, Function.update_apply]
    split
    · exact ⟨rfl, rfl⟩
    · next hne =>
      rw [program_blocks, Function.update_apply] at hstate hvalid
      split at hvalid
      · next hb =>
        have hp : p' ≠ p := fun hp => hne (by rw [hb, hp])
        rw [PhyBlock.program_pageValid, Function.update_of_ne hp] at hvalid
        rw [hb]
        exact h.sound b p' hgood hvalid
      · next hb =>
        rw [if_neg hb] at hstate
        exact h.sound b' p' hstate hvalid

theorem pageWrite (h : n.Clean C) (hbuf : buf ∉ C) (b p : ℕ) :
    (n.pageWrite b p buf).2.Clean C := by
  rcases n.pageWrite_cases b p buf with ⟨hacc, _, heq⟩ | ⟨_, _, heq, _⟩ <;> rw [heq]
  · exact h.program hbuf hacc.good p
  · exact h

theorem markPageInvalid (h : n.Clean C) (b p : ℕ) : (n.markPageInvalid b p).2.Clean C := by
  rcases n.markPageInvalid_cases b p with ⟨hacc, _, heq⟩ | heq <;> rw [heq]
  · refine h.setBlock fun p' _ hvalid => ⟨hacc.good, ?_⟩
    rw [PhyBlock.invalidate_pageValid, Function.update_apply] at hvalid
    split at hvalid
    · simp at hvalid
    · exact hvalid
  · exact h

theorem markColdBlock (h : n.Clean C) (b : ℕ) : (n.markColdBlock b).2.Clean C := by
  rcases n.markColdBlock_cases b with ⟨_, heq⟩ | heq <;> rw [heq]
  · refine h.setBlock fun p hstate hvalid => ?_
    rw [PhyBlock.markCold_state] at hstate
    rw [PhyBlock.markCold_pageValid] at hvalid
    exact ⟨hstate, hvalid⟩
  · exact h

/-- An erase leaves the media alone. -/
theorem blockErase (h : n.Clean C) (b : ℕ) : (n.blockErase b).2.Clean C := by
  have hrand (r : ℕ → ℕ) : Clean C { n with rand := r } := h.congr rfl fun _ _ => And.intro
  rcases n.blockErase_cases b with ⟨r, _, heq⟩ | ⟨r, _, _, heq⟩ | ⟨_, _, heq, _⟩ <;> rw [heq]
  · have hset : (({ n with rand := r } : Nand).setBlock b (n.blocks b).erase).Clean C :=
      (hrand r).setBlock fun _ _ hvalid => absurd hvalid (by simp)
    exact hset.congr rfl fun _ _ => And.intro
  · exact (hrand r).setBlock fun _ hstate _ => absurd rfl hstate
  · exact h

theorem copyPages (h : n.Clean C) (hbuf : buf ∉ C) :
    (n.copyPages src dst buf pages).Clean C := by
  induction pages generalizing n buf with
  | nil => exact h
  | cons page pages ih =>
    rw [Nand.copyPages]
    split
    · exact ih h hbuf
    · have hread := h.pageRead hbuf src page
      split
      · next buf₁ n₁ heq =>
        rw [heq] at hread
        exact ih (hread.1.pageWrite hread.2 dst page) hread.2
      · next buf₁ n₁ _ heq =>
        rw [heq] at hread
        exact ih hread.1 hread.2

/-- A block that is marked as bad keeps its contents, too. -/
theorem retire (h : n.Clean C) (b : ℕ) (type : BadBlockType) : (n.retire b type).Clean C where
  clean := h.clean
  sound b' p' hstate hvalid := by
    rw [retire_blocks, Function.update_apply] at hstate hvalid
    split at hstate
    · exact absurd rfl hstate
    · next hb =>
      rw [if_neg hb] at hvalid
      have hne : (b', p') ≠ (b, 0) := fun heq => hb (Prod.mk.inj heq).1
      simp only [Nand.retire, Function.update_of_ne hne]
      exact h.sound b' p' hstate hvalid

theorem replaceBadBlock (h : n.Clean C) (hblank : blankPage ∉ C) (b : ℕ) :
    (n.replaceBadBlock b).2.Clean C := by
  have hcount : Clean C { n with reservedCount := n.reservedCount - 1 } :=
    h.congr rfl fun _ _ => And.intro
  rcases n.replaceBadBlock_cases b with ⟨_, heq⟩ | ⟨r, _, _, _, _, _, ⟨_, heq⟩ | ⟨_, heq⟩⟩ <;>
    rw [heq]
  · exact h
  · exact (hcount.copyPages hblank).retire b .wear
  · exact hcount

end Clean

/-- The media is the same; free blocks stay free, and good ones good. -/
structure Loosened (n n' : Nand) : Prop where
  media : n'.media = n.media
  isInitialized : n'.isInitialized = n.isInitialized
  free : ∀ b, (n.blocks b).state = .free → (n'.blocks b).state = .free
  good : ∀ b, (n.blocks b).state ≠ .bad → (n'.blocks b).state ≠ .bad

namespace Loosened

theorem refl (n : Nand) : n.Loosened n := ⟨rfl, rfl, fun _ => id, fun _ => id⟩

theorem trans {n'' : Nand} (h : n.Loosened n') (h' : n'.Loosened n'') : n.Loosened n'' where
  media := h'.media.trans h.media
  isInitialized := h'.isInitialized.trans h.isInitialized
  free b hb := h'.free b (h.free b hb)
  good b hb := h'.good b (h.good b hb)

theorem setBlock {blk : PhyBlock} (hfree : (n.blocks b).state = .free → blk.state = .free)
    (hgood : (n.blocks b).state ≠ .bad → blk.state ≠ .bad) : n.Loosened (n.setBlock b blk) where
  media := rfl
  isInitialized := rfl
  free b' hb' := by
    rw [setBlock_blocks, Function.update_apply]
    split
    · next heq => exact hfree (heq ▸ hb')
    · exact hb'
  good b' hb' := by
    rw [setBlock_blocks, Function.update_apply]
    split
    · next heq => exact hgood (heq ▸ hb')
    · exact hb'

theorem markPageInvalid (b p : ℕ) : n.Loosened (n.markPageInvalid b p).2 := by
  rcases n.markPageInvalid_cases b p with ⟨_, _, heq⟩ | heq <;> rw [heq]
  · refine .setBlock (fun hfree => ?_) PhyBlock.invalidate_state_ne_bad
    rw [PhyBlock.invalidate]
    dsimp only
    split
    · rfl
    · exact hfree
  · exact .refl n

theorem markColdBlock (b : ℕ) : n.Loosened (n.markColdBlock b).2 := by
  rcases n.markColdBlock_cases b with ⟨_, heq⟩ | heq <;> rw [heq]
  · refine .setBlock (fun hfree => ?_) fun hgood => ?_ <;> rw [PhyBlock.markCold_state]
    · exact hfree
    · exact hgood
  · exact .refl n

end Loosened

end Nand

namespace Ftl

variable {C D : Set PageData} {E B : Set ℕ} {s s' : Ftl} {lpn count passes : UInt32} {fuel b p : ℕ}
  {buf : PageData} {call : Call} {calls : List Call} {a : Answer} {ret : RetCode}

/-! ## Calls that write no such content -/

/-- The steps of the device keep the media clean if the host hands over no such content. -/
theorem Reaches.clean (h : Reaches D E B s s') (hs : s.nand.Clean C) (hblank : blankPage ∉ C)
    (hD : ∀ d ∈ D, d ∉ C) : s'.nand.Clean C := by
  obtain ⟨_, hclean, _⟩ := h.invariant (P := fun x => x.1.nand.Clean C ∧ x.2 ∉ C) ⟨hs, hblank⟩
    fun x y hx hstep => by
      obtain ⟨hclean, hbuf⟩ := hx
      cases hstep with
      | books hsame => exact ⟨hsame.nand ▸ hclean, hbuf⟩
      | clear => exact ⟨hclean, hblank⟩
      | load hd => exact ⟨hclean, hD _ hd⟩
      | alloc halloc =>
        rcases allocPhyPage_cases halloc with ⟨_, _, rfl⟩ | ⟨_, _, _, _, rfl⟩
        · exact ⟨hclean, hbuf⟩
        · exact ⟨hclean, hbuf⟩
      | read b p => exact hclean.pageRead hbuf b p
      | write p _ => exact ⟨hclean.pageWrite hbuf _ p, hbuf⟩
      | invalidate p _ => exact ⟨hclean.markPageInvalid _ p, hbuf⟩
      | erase _ => exact ⟨hclean.blockErase _, hbuf⟩
      | markCold _ => exact ⟨hclean.markColdBlock _, hbuf⟩
      | @replace s₁ _ b _ =>
        refine ⟨?_, hbuf⟩
        rcases replaceBadBlock_nand s₁ b with heq | heq <;> dsimp only <;> rw [heq]
        · exact hclean
        · exact hclean.replaceBadBlock hblank b
  exact hclean

/-- A write keeps the media clean if its data is no such content. -/
theorem write_clean {i : ℕ} (hs : s.nand.Clean C) (hblank : blankPage ∉ C) (hbuf : buf ∉ C)
    (h : s.write fuel i buf = some (ret, s')) : s'.nand.Clean C := by
  have hD : ∀ d ∈ ({buf} : Set PageData), d ∉ C := fun d hd => Set.mem_singleton_iff.1 hd ▸ hbuf
  rcases write_steps (Set.mem_singleton buf) h with ⟨_, hsteps⟩ |
    ⟨_, s₁, taken, s₂, hsteps, hprogram, hend⟩
  · exact hsteps.clean hs hblank hD
  · obtain ⟨files, sequence, number, hlog⟩ :=
      s₁.walLog_ok (writeEntry i (s₁.l2pTable i) taken)
    rw [walLogWrite, hlog] at hprogram
    have hclean : s₂.nand.Clean C := hprogram.clean (hsteps.clean hs hblank hD) hblank hD
    rcases hend with ⟨_, rfl⟩ | ⟨_, ppn, s₃, hcommit, hwear⟩
    · exact hclean
    · refine Reaches.clean hwear ?_ hblank hD
      rcases commitWrite_same hcommit with hsame | ⟨old, _, hsame⟩ <;> rw [hsame.nand]
      · exact hclean
      · exact hclean.markPageInvalid _ _

/-- The host may hand over the data of the call. -/
def NotWriting (C : Set PageData) : Call → Prop
  | .write _ buf => buf ∉ C
  | _ => True

/-- A call keeps the media clean if it writes no such content. -/
theorem exec_clean (hs : s.nand.Clean C) (hblank : blankPage ∉ C) (hcall : NotWriting C call)
    (h : s.exec fuel call = some (a, s')) : s'.nand.Clean C := by
  rcases exec_cases h with ⟨lpn, buf, ret, rfl, hwrite⟩ | ⟨lpn, count, ret, rfl, htrim⟩ |
    hsteps | hnand
  · exact write_clean hs hblank hcall hwrite
  · exact trim_invariant htrim hs fun n b p hn => hn.markPageInvalid b p
  · exact hsteps.clean hs hblank (by simp)
  · exact hnand ▸ hs

/-- Calls that write no such content keep the media clean. -/
theorem execUntilError_clean (hs : s.nand.Clean C) (hblank : blankPage ∉ C)
    (hcalls : ∀ call ∈ calls, NotWriting C call)
    (h : execUntilError fuel calls s = some (ret, s')) : s'.nand.Clean C := by
  induction calls generalizing s with
  | nil =>
    obtain ⟨_, rfl⟩ := Prod.mk.inj (Option.some_inj.1 h)
    exact hs
  | cons call calls ih =>
    obtain ⟨hcall, hrest⟩ := List.forall_mem_cons.1 hcalls
    rw [execUntilError] at h
    split at h
    · simp at h
    · next s₁ hexec => exact ih (exec_clean hs hblank hcall hexec) hrest h
    · next s₁ _ hexec =>
      obtain ⟨_, rfl⟩ := Prod.mk.inj (Option.some_inj.1 h)
      exact exec_clean hs hblank hcall hexec

/-- No page of a fresh device is valid. -/
theorem Fresh.sound (hfresh : Fresh s) : s.nand.Clean ∅ := by
  obtain ⟨rand, files, hinit⟩ := hfresh
  rw [powerOn, init] at hinit
  split at hinit
  · exact absurd (congrArg Prod.fst hinit) RetCode.noConfusion
  · obtain rfl := (congrArg Prod.snd hinit).symm
    refine ⟨fun _ => Set.notMem_empty _, fun b p _ hvalid => ?_⟩
    change (Nand.factoryBlock .tlc (rand b)).pageValid p = true at hvalid
    rw [Nand.factoryBlock] at hvalid
    split at hvalid <;> exact absurd hvalid Bool.false_ne_true

/-- In every reachable state, the valid pages are stored with their own ECC. -/
theorem Fresh.run_sound {tr : List (Call × Answer)} (hfresh : Fresh s)
    (hrun : Run (fun _ _ => True) s tr s') : s'.nand.Clean ∅ := by
  refine hrun.invariant (P := fun s => s.nand.Clean ∅) hfresh.sound ?_
  rintro s call a s' hs _ ⟨fuel, hexec⟩
  refine exec_clean hs (Set.notMem_empty _) ?_ hexec
  cases call with
  | write lpn buf => exact Set.notMem_empty _
  | _ => trivial

/-! ## Writes at the write cursor -/

/-- The free blocks of the user area besides the one of the write cursor. -/
def spareBlocks (s : Ftl) : List ℕ := s.nand.freeBlocks.filter fun b => b ≠ s.curWriteBlock

/-- The next `k` writes go to the block of the write cursor, without a garbage collection or the
    static wear levelling. -/
structure Fits (s : Ftl) (k : ℕ) : Prop where
  block_lt : s.curWriteBlock < totalBlocks
  good : (s.nand.blocks s.curWriteBlock).state ≠ .bad
  page_le : s.curWritePage + k ≤ pagesPerBlock
  spare : gcTriggerThreshold < s.spareBlocks.length
  check : s.writeSinceLastCheck.toNat + k < staticWearInterval.toNat

/-- The next `k` pages at the write cursor. -/
def ahead (s : Ftl) (k : ℕ) : Set (ℕ × ℕ) :=
  {x | x.1 = s.curWriteBlock ∧ s.curWritePage ≤ x.2 ∧ x.2 < s.curWritePage + k}

/-- The first one of these pages, and the other ones. -/
theorem mem_ahead_succ {k : ℕ} (hblock : s'.curWriteBlock = s.curWriteBlock)
    (hpage : s'.curWritePage = s.curWritePage + 1) (x : ℕ × ℕ) :
    x ∈ s.ahead (k + 1) ↔ x = (s.curWriteBlock, s.curWritePage) ∨ x ∈ s'.ahead k := by
  obtain ⟨b, p⟩ := x
  simp only [ahead, Set.mem_ofPred_eq, Prod.mk.injEq, hblock, hpage]
  omega

/-- The device is at the same page, and its NAND device is `Loosened`. -/
structure Settles (s s' : Ftl) : Prop where
  nand : s.nand.Loosened s'.nand
  curWriteBlock : s'.curWriteBlock = s.curWriteBlock
  curWritePage : s'.curWritePage = s.curWritePage

theorem Settles.trans {s'' : Ftl} (h : Settles s s') (h' : Settles s' s'') : Settles s s'' where
  nand := h.nand.trans h'.nand
  curWriteBlock := h'.curWriteBlock.trans h.curWriteBlock
  curWritePage := h'.curWritePage.trans h.curWritePage

theorem SameDevice.settles (h : SameDevice s s') : Settles s s' where
  nand := h.nand ▸ .refl s.nand
  curWriteBlock := h.curWriteBlock
  curWritePage := h.curWritePage

theorem wearLevelingCheck_settles : Settles s s.wearLevelingCheck := by
  rw [wearLevelingCheck]
  dsimp only
  split
  · split
    · exact ⟨.refl s.nand, rfl, rfl⟩
    · exact ⟨.markColdBlock _, rfl, rfl⟩
  · exact ⟨.refl s.nand, rfl, rfl⟩

/-- The end of a write leaves the media alone as long as the static wear levelling is not due. -/
theorem finishWrite_settles {i ppn : ℕ} (h : s.finishWrite i ppn = some s')
    (hcheck : s.writeSinceLastCheck + 1 < staticWearInterval) :
    Settles s s' ∧ s'.writeSinceLastCheck = s.writeSinceLastCheck + 1 := by
  rw [finishWrite] at h
  obtain ⟨s₁, hcommit, hrest⟩ := Option.bind_eq_some_iff.1 h
  have hcommit' : Settles s s₁ ∧ s₁.writeSinceLastCheck = s.writeSinceLastCheck := by
    rcases commitWrite_same hcommit with hsame | ⟨old, _, hsame⟩
    · exact ⟨hsame.toSameDevice.settles, hsame.writeSinceLastCheck⟩
    · have hold : Settles s { s with
          nand := (s.nand.markPageInvalid (ppnToBlock old) (ppnToPage old)).2 } :=
        ⟨.markPageInvalid _ _, rfl, rfl⟩
      exact ⟨hold.trans hsame.toSameDevice.settles, hsame.writeSinceLastCheck⟩
  obtain ⟨hfirst, hcount⟩ := hcommit'
  obtain ⟨hwear, -⟩ := Calm.checkWear_of_not_due (hcount ▸ hcheck : s₁.writeSinceLastCheck + 1 < _)
  have hchecked : Settles s s₁.checkWear ∧
      s₁.checkWear.writeSinceLastCheck = s.writeSinceLastCheck + 1 := by
    have hlevel : Settles s₁ s₁.wearLevelingCheck := wearLevelingCheck_settles
    rw [hwear]
    exact ⟨hfirst.trans ⟨hlevel.nand, hlevel.curWriteBlock, hlevel.curWritePage⟩, by rw [hcount]⟩
  dsimp only at hrest
  split at hrest
  · have hsame := hybridWrite_same hrest
    exact ⟨hchecked.1.trans hsame.toSameDevice.settles,
      hsame.writeSinceLastCheck.trans hchecked.2⟩
  · obtain rfl := Option.some_inj.1 hrest
    exact hchecked

/-- Nothing is collected as long as there are spare blocks. -/
theorem Fits.gcUntilSpace {k : ℕ} (h : s.Fits k) (fuel : ℕ) :
    gcUntilSpace fuel s = some (.ok, s) := by
  have hle : s.spareBlocks.length ≤ s.nand.freeBlocks.length := List.length_filter_le _ _
  have hspare := h.spare
  obtain ⟨b, hb⟩ := List.exists_mem_of_length_pos (Nat.zero_lt_of_lt hspare)
  obtain ⟨hvalid, -⟩ := (Nand.getBlockState_eq (by decide)).1 (mem_blocksIn (List.mem_filter.1 hb).1)
  have hon := (Nand.isBlockValid_iff.1 hvalid).2
  have hfree : ¬ s.nand.getFreeBlockCount ≤ gcTriggerThreshold := by
    rw [Nand.getFreeBlockCount, if_pos hon]
    omega
  cases fuel <;> rw [Ftl.gcUntilSpace, if_neg hfree]

/-- A write that fits and succeeds programs the page at the write cursor, and no other one. -/
theorem Fits.write {k i : ℕ} (hfits : s.Fits (k + 1))
    (h : s.write fuel i buf = some (.ok, s')) :
    (s.nand.program s.curWriteBlock s.curWritePage buf).Loosened s'.nand ∧
      s'.curWriteBlock = s.curWriteBlock ∧ s'.curWritePage = s.curWritePage + 1 ∧
      s'.writeSinceLastCheck = s.writeSinceLastCheck + 1 := by
  have hpage : s.curWritePage < pagesPerBlock := by have := hfits.page_le; omega
  have hcheck : s.writeSinceLastCheck + 1 < staticWearInterval := by
    have hle := hfits.check
    have hinterval : staticWearInterval.toNat = 1000 := rfl
    rw [UInt32.lt_iff_toNat_lt, UInt32.toNat_add, UInt32.toNat_one]
    omega
  rw [Ftl.write] at h
  split at h
  · simp at h
  split at h
  · simp at h
  rw [hfits.gcUntilSpace] at h
  dsimp only at h
  rw [writeOut, allocPhyPage, if_pos hpage] at h
  set ppn := blockPageToPpn s.curWriteBlock s.curWritePage with hppn
  set taken : Ftl := { s with curWritePage := s.curWritePage + 1 } with htaken
  obtain ⟨files, sequence, number, hlog⟩ := taken.walLog_ok (writeEntry i (taken.l2pTable i) ppn)
  dsimp only at h
  rw [walLogWrite, hlog] at h
  dsimp only at h
  rw [programPage, hppn, ppnToBlock_mk hfits.block_lt hpage, ppnToPage_mk hfits.block_lt hpage] at h
  dsimp only at h
  -- The block of the cursor is not bad, so that no replacement takes place.
  rcases s.nand.pageWrite_cases s.curWriteBlock s.curWritePage buf with
    ⟨hacc, _, heq⟩ | ⟨ret, hret, heq, hbad⟩
  · rw [heq, if_neg (by decide : RetCode.ok ≠ .errBadBlock)] at h
    obtain ⟨s₁, hfinish, hs₁⟩ := Option.map_eq_some_iff.1 h
    obtain rfl := (Prod.mk.inj hs₁).2
    obtain ⟨hsettles, hcount⟩ := finishWrite_settles hfinish hcheck
    exact ⟨hsettles.nand, hsettles.curWriteBlock, hsettles.curWritePage, hcount⟩
  · rw [heq, if_neg fun hret' => hfits.good (hbad hret').2] at h
    dsimp only at h
    split at h
    · next hok => exact absurd (Prod.mk.inj hok).1 hret
    · next ret' _ s₁ hret' hok =>
      obtain ⟨rfl, -⟩ := Prod.mk.inj (Option.some_inj.1 h)
      exact absurd rfl hret'

/-- After a write that fits and succeeds, one write less fits. -/
theorem Fits.tail {k i : ℕ} (hfits : s.Fits (k + 1)) (h : s.write fuel i buf = some (.ok, s')) :
    s'.Fits k := by
  obtain ⟨hnand, hblock, hpage, hcount⟩ := hfits.write h
  have hle := hfits.page_le
  have hcheck := hfits.check
  have hinterval : staticWearInterval.toNat = 1000 := rfl
  -- The other blocks are still free.
  have hfree (b : ℕ) (hb : b ≠ s.curWriteBlock) (hstate : s.nand.getBlockState b = .free) :
      s'.nand.getBlockState b = .free := by
    obtain ⟨hvalid, hstate⟩ := (Nand.getBlockState_eq (by decide)).1 hstate
    refine (Nand.getBlockState_eq (by decide)).2 ⟨?_, hnand.free b ?_⟩
    · rw [Nand.isBlockValid, hnand.isInitialized]
      exact hvalid
    · rw [Nand.program_blocks, Function.update_of_ne hb]
      exact hstate
  have hspare : s.spareBlocks.length ≤ s'.spareBlocks.length := by
    rw [spareBlocks, spareBlocks, Nand.freeBlocks, Nand.freeBlocks, Nand.blocksIn, Nand.blocksIn,
      List.filter_filter, List.filter_filter, ← List.countP_eq_length_filter,
      ← List.countP_eq_length_filter]
    refine List.countP_mono_left fun b _ hb => ?_
    simp only [Bool.and_eq_true, decide_eq_true_eq, hblock] at hb ⊢
    exact ⟨hb.1, hfree b hb.1 hb.2⟩
  refine ⟨hblock ▸ hfits.block_lt, hblock ▸ hnand.good _ ?_, by omega, hfits.spare.trans_le hspare, ?_⟩
  · rw [Nand.program_blocks, Function.update_self]
    simp
  · rw [hcount, UInt32.toNat_add, UInt32.toNat_one]
    omega

/-- Writes that fit and succeed leave a content of `C` on the media exactly if they write one, or if
    there is one at another page than the next ones at the write cursor. -/
theorem writes_clean_iff (hwrites : ∀ call ∈ calls, ∃ i buf, call = .write i buf)
    (hfits : s.Fits calls.length) (h : execUntilError fuel calls s = some (.ok, s')) :
    (∀ x, s'.nand.media.data x ∉ C) ↔ (∀ call ∈ calls, NotWriting C call) ∧
      ∀ x, x ∉ s.ahead calls.length → s.nand.media.data x ∉ C := by
  induction calls generalizing s with
  | nil =>
    obtain ⟨_, rfl⟩ := Prod.mk.inj (Option.some_inj.1 h)
    have hnone (x : ℕ × ℕ) : x ∉ s.ahead 0 := fun hx => by
      have hx' := hx.2
      omega
    simp [hnone]
  | cons call calls ih =>
    obtain ⟨⟨i, buf, rfl⟩, hrest⟩ := List.forall_mem_cons.1 hwrites
    rw [execUntilError] at h
    split at h
    · simp at h
    · next s₁ hexec =>
      obtain ⟨⟨ret, s₂⟩, hwrite, heq⟩ := Option.map_eq_some_iff.1 hexec
      obtain ⟨hret, rfl⟩ := Prod.mk.inj heq
      obtain rfl : ret = .ok := congrArg Answer.ret hret
      obtain ⟨hnand, hblock, hpage, -⟩ := hfits.write hwrite
      have hself : (s.curWriteBlock, s.curWritePage) ∉ s₂.ahead calls.length := fun hself => by
        have hle := hself.2.1
        omega
      have hahead (x : ℕ × ℕ) := mem_ahead_succ (k := calls.length) hblock hpage x
      rw [ih hrest (hfits.tail hwrite) h, List.forall_mem_cons, hnand.media, List.length_cons]
      -- The page that has just been programmed is not programmed again.
      constructor
      · rintro ⟨hcalls, hdata⟩
        refine ⟨⟨?_, hcalls⟩, fun x hx => ?_⟩
        · have hbuf := hdata _ hself
          rwa [Nand.program_data, Function.update_self] at hbuf
        · obtain ⟨hne, hx⟩ := not_or.1 ((hahead x).not.1 hx)
          have hold := hdata x hx
          rwa [Nand.program_data, Function.update_of_ne hne] at hold
      · rintro ⟨⟨hbuf, hcalls⟩, hdata⟩
        refine ⟨hcalls, fun x hx => ?_⟩
        rcases eq_or_ne x (s.curWriteBlock, s.curWritePage) with rfl | hne
        · rw [Nand.program_data, Function.update_self]
          exact hbuf
        · rw [Nand.program_data, Function.update_of_ne hne]
          exact hdata x ((hahead x).not.2 (not_or.2 ⟨hne, hx⟩))
    · next _ s₁ hret' hexec =>
      obtain ⟨rfl, -⟩ := Prod.mk.inj (Option.some_inj.1 h)
      exact absurd rfl hret'

/-! ## Secure erase -/

/-- The contents that have been written to the logical pages of a range in a run. -/
def writtenIn (tr : List (Call × Answer)) (lpn count : UInt32) : Set PageData :=
  {buf | ∃ i a, (Call.write i buf, a) ∈ tr ∧ a.ret = .ok ∧ InRange lpn count i}

/-- The number of the writes of a secure erase. -/
def eraseWrites (lpn count passes : UInt32) : ℕ := passes.toNat * (eraseLength lpn count).toNat

/-- The patterns of the secure erase are not among the contents `C`, and such contents are only at
    the pages that its writes program if they fit in the block of the write cursor. -/
structure Erasable (s : Ftl) (C : Set PageData) (lpn count passes : UInt32) : Prop where
  patterns : ∀ pass < passes.toNat, erasePage pass.toUInt32 ∉ C
  programmed : ∀ x, s.nand.media.data x ∈ C →
    s.Fits (eraseWrites lpn count passes) ∧ x ∈ s.ahead (eraseWrites lpn count passes)

theorem length_overwriteCalls :
    (overwriteCalls lpn count passes).length = eraseWrites lpn count passes := by
  simp [overwriteCalls, passCalls, eraseWrites]

/-- At least one logical page is erased. -/
theorem eraseLength_pos (hlpn : lpn.toNat < totalLpns) (hcount : count ≠ 0) :
    0 < (eraseLength lpn count).toNat := by
  have htotal : totalLpns = 22937 := rfl
  have hpos : 0 < count.toNat := Nat.pos_of_ne_zero fun hzero => hcount (UInt32.toNat_inj.1 hzero)
  rw [eraseLength]
  split
  · rw [UInt32.toNat_sub]
    have hconst : totalLpns.toUInt32.toNat = totalLpns := rfl
    omega
  · exact hpos

/-- The writes of a secure erase write no content of `C` exactly if no pattern is one. -/
theorem overwriteCalls_notWriting (hlpn : lpn.toNat < totalLpns) (hcount : count ≠ 0) :
    (∀ call ∈ overwriteCalls lpn count passes, NotWriting C call) ↔
      ∀ pass < passes.toNat, erasePage pass.toUInt32 ∉ C := by
  constructor
  · intro h pass hpass
    refine h (.write lpn.toNat (erasePage pass.toUInt32)) (mem_overwriteCalls.2
      ⟨pass, hpass, lpn.toNat, List.mem_range'_1.2 ⟨le_rfl, ?_⟩, rfl⟩)
    exact Nat.lt_add_of_pos_right (eraseLength_pos hlpn hcount)
  · intro h call hcall
    obtain ⟨pass, hpass, i, _, rfl⟩ := mem_overwriteCalls.1 hcall
    exact h pass hpass

/-- A secure erase that succeeds has made its writes, and the trim after them leaves the media
    alone. -/
theorem secureErase_ok (h : s.secureErase fuel lpn count passes = some (.ok, s')) :
    lpn.toNat < totalLpns ∧ count ≠ 0 ∧ passes ≠ 0 ∧
      ∃ s₁, execUntilError fuel (overwriteCalls lpn count passes) s = some (.ok, s₁) ∧
        s'.nand.media = s₁.nand.media := by
  rw [secureErase] at h
  split at h
  · simp at h
  split at h
  · simp at h
  next hcount =>
  split at h
  · simp at h
  next hpasses =>
  split at h
  · simp at h
  next hlpn =>
  refine ⟨Nat.lt_of_not_le hlpn, hcount, hpasses, ?_⟩
  dsimp only at h
  rw [overwritePasses_eq] at h
  split at h
  · simp at h
  · next s₁ hexec =>
    exact ⟨s₁, hexec, trim_invariant (P := fun n => n.media = s₁.nand.media) h rfl fun n b p hn =>
      (Nand.Loosened.markPageInvalid b p).media.trans hn⟩
  · next hret _ =>
    obtain ⟨rfl, -⟩ := Prod.mk.inj (Option.some_inj.1 h)
    exact absurd rfl hret

/-- In every reachable state, a secure erase that succeeds erases the contents of its range from the
    media if its patterns are no such contents, and if these are only at pages that it programs. If
    its writes fit in the block of the write cursor, it erases them only then. -/
theorem secureErase_erases {s₀ : Ftl} {tr : List (Call × Answer)} (hfresh : Fresh s₀)
    (hrun : Run (fun _ _ => True) s₀ tr s)
    (h : s.secureErase fuel lpn count passes = some (.ok, s')) :
    (s.Erasable (writtenIn tr lpn count) lpn count passes →
      ∀ x, s'.nand.media.data x ∉ writtenIn tr lpn count) ∧
    (s.Fits (eraseWrites lpn count passes) →
      ((∀ x, s'.nand.media.data x ∉ writtenIn tr lpn count) ↔
        s.Erasable (writtenIn tr lpn count) lpn count passes)) := by
  obtain ⟨hlpn, hcount, hpasses, s₁, hexec, hmedia⟩ := secureErase_ok h
  rw [hmedia]
  have hfits (hfits : s.Fits (eraseWrites lpn count passes)) :
      (∀ x, s₁.nand.media.data x ∉ writtenIn tr lpn count) ↔
        s.Erasable (writtenIn tr lpn count) lpn count passes := by
    rw [writes_clean_iff overwriteCalls_write (length_overwriteCalls ▸ hfits) hexec,
      overwriteCalls_notWriting hlpn hcount, length_overwriteCalls]
    constructor
    · rintro ⟨hpatterns, hdata⟩
      exact ⟨hpatterns, fun x hx => ⟨hfits, by_contra fun hout => hdata x hout hx⟩⟩
    · exact fun herase => ⟨herase.patterns, fun x hx hin => hx (herase.programmed x hin).2⟩
  refine ⟨fun herase => ?_, hfits⟩
  by_cases hroom : s.Fits (eraseWrites lpn count passes)
  · exact (hfits hroom).2 herase
  · -- The media has no such content to begin with.
    have hclean : s.nand.Clean (writtenIn tr lpn count) :=
      ⟨fun x hx => hroom (herase.programmed x hx).1, (hfresh.run_sound hrun).sound⟩
    have hblank : blankPage ∉ writtenIn tr lpn count := herase.patterns 0
      (Nat.pos_of_ne_zero fun hzero => hpasses (UInt32.toNat_inj.1 hzero))
    exact (execUntilError_clean hclean hblank
      ((overwriteCalls_notWriting hlpn hcount).2 herase.patterns) hexec).clean

/-- The write cursor is at page (0, `k`) after `k` writes, and there is room for further ones. -/
def atPage (s : Ftl) (k : ℕ) : Bool :=
  decide (s.curWriteBlock = 0) && decide (s.curWritePage = k) &&
    decide ((s.nand.blocks 0).state ≠ .bad) && decide (gcTriggerThreshold < s.spareBlocks.length) &&
    decide (s.writeSinceLastCheck.toNat = k)

theorem fits_of_atPage {k : ℕ} (h : s.atPage k = true) (hk : k < pagesPerBlock) :
    s.Fits 1 ∧ s.curWriteBlock = 0 ∧ s.curWritePage = k := by
  simp only [atPage, Bool.and_eq_true, decide_eq_true_eq] at h
  obtain ⟨⟨⟨⟨hblock, hpage⟩, hgood⟩, hspare⟩, hcheck⟩ := h
  have hinterval : staticWearInterval.toNat = 1000 := rfl
  have hpages : pagesPerBlock = 256 := rfl
  exact ⟨⟨by rw [hblock]; decide, by rwa [hblock], by omega, hspare, by omega⟩, hblock, hpage⟩

/-- A write of logical page 0 of a fresh device, and a secure erase of it. -/
theorem exists_erased : ∃ (s₀ : Ftl) (tr : List (Call × Answer)) (s s' : Ftl) (a : Answer),
    Fresh s₀ ∧ Run (fun _ _ => True) s₀ tr s ∧ tr = [(.write 0 (erasePage 1), a)] ∧ a.ret = .ok ∧
      s.Fits 1 ∧ s.nand.media.data (0, 0) = erasePage 1 ∧ (0, 0) ∉ s.ahead 1 ∧
      s.secureErase 0 0 1 1 = some (.ok, s') := by
  have hfirst : (powerOn (fun _ => 99) fun _ => none).2.atPage 0 = true := by decide +kernel
  have heq : ((powerOn (fun _ => 99) fun _ => none).2.write 0 0 (erasePage 1)).bind
      (fun r => (r.2.secureErase 0 0 1 1).map fun r' =>
        decide (r.1 = .ok) && decide (r'.1 = .ok) && r.2.atPage 1) = some true := by
    decide +kernel
  obtain ⟨s₀, hs₀⟩ : ∃ s₀, (powerOn (fun _ => 99) fun _ => none).2 = s₀ := ⟨_, rfl⟩
  rw [hs₀] at hfirst heq
  obtain ⟨⟨ret, s⟩, hwrite, hrest⟩ := Option.bind_eq_some_iff.1 heq
  obtain ⟨⟨ret', s'⟩, herase, hdata⟩ := Option.map_eq_some_iff.1 hrest
  simp only [Bool.and_eq_true, decide_eq_true_eq] at hdata
  obtain ⟨⟨rfl, rfl⟩, hsecond⟩ := hdata
  obtain ⟨hfits₀, hblock₀, hpage₀⟩ := fits_of_atPage hfirst (by decide)
  obtain ⟨hfits, hblock, hpage⟩ := fits_of_atPage hsecond (by decide)
  obtain ⟨hnand, -⟩ := hfits₀.write hwrite
  refine ⟨s₀, _, s, s', ⟨.ok, none⟩, ⟨fun _ => 99, fun _ => none, Prod.ext rfl hs₀⟩,
    .single True.intro ⟨0, ?_⟩, rfl, rfl, hfits, ?_, fun hahead => ?_, herase⟩
  · exact congrArg (Option.map answer) hwrite
  · rw [hnand.media, Nand.program_data, hblock₀, hpage₀, Function.update_self]
  · have hle := hahead.2.1
    omega

/-- The statement for a run of one write. -/
theorem secureErase_erases_first : ∃ (s₀ : Ftl) (tr : List (Call × Answer)) (s s' : Ftl),
    Fresh s₀ ∧ Run (fun _ _ => True) s₀ tr s ∧ s.secureErase 0 0 1 1 = some (.ok, s') ∧
      ((∀ x, s'.nand.media.data x ∉ writtenIn tr 0 1) ↔ s.Erasable (writtenIn tr 0 1) 0 1 1) := by
  obtain ⟨s₀, tr, s, s', _, hfresh, hrun, _, _, hfits, _, _, herase⟩ := exists_erased
  exact ⟨s₀, tr, s, s', hfresh, hrun, herase, (secureErase_erases hfresh hrun herase).2 hfits⟩

/-- Logical page 0 has been written with other data than the pattern of the first pass. The secure
    erase programs the next page, and leaves the data where it is. -/
theorem not_secureErase_erases : ∃ (s₀ : Ftl) (tr : List (Call × Answer)) (s s' : Ftl) (x : ℕ × ℕ),
    Fresh s₀ ∧ Run (fun _ _ => True) s₀ tr s ∧ s.secureErase 0 0 1 1 = some (.ok, s') ∧
      s'.nand.media.data x ∈ writtenIn tr 0 1 := by
  obtain ⟨s₀, tr, s, s', a, hfresh, hrun, rfl, hok, hfits, hdata, hahead, herase⟩ := exists_erased
  obtain ⟨-, -, -, s₁, hexec, hmedia⟩ := secureErase_ok herase
  have hwritten : s.nand.media.data (0, 0) ∈ writtenIn [(.write 0 (erasePage 1), a)] 0 1 := by
    rw [hdata]
    exact ⟨0, a, List.mem_singleton_self _, hok, by decide, by decide, by decide⟩
  have hleft : ¬ ∀ x, s₁.nand.media.data x ∉ writtenIn [(.write 0 (erasePage 1), a)] 0 1 := by
    rw [writes_clean_iff overwriteCalls_write hfits hexec]
    exact fun h => h.2 (0, 0) hahead hwritten
  obtain ⟨x, hx⟩ := not_forall.1 hleft
  exact ⟨s₀, _, s, s', x, hfresh, hrun, herase, by rw [hmedia]; exact not_not.1 hx⟩

end Ftl

end FtlFirmware
