import FtlFirmware.Ftl.Calm
import FtlFirmware.Ftl.Calls
import FtlFirmware.Lib.Loop
import Mathlib.Algebra.BigOperators.Group.Finset.Basic
import Mathlib.Algebra.Order.BigOperators.Group.Finset

/-!
# The garbage collection before a write

A write begins by recycling blocks until enough of them are free. The number of free blocks is no
measure for this loop: a victim all pages of which are valid takes as much space as it gives back,
and nothing keeps the algorithms from choosing such victims. But each turn erases a block, and the
wear is never undone. Once a block is worn beyond the threshold, a number is drawn with each erase,
and for some numbers the block becomes bad, so that the loop is left with an error.

* `SameWear`: moving pages neither wears the blocks nor draws numbers;
* `blockErase_wearRank`: an erase lowers the rank made of the number of draws up to the next bad
  block, and of the wear that the blocks have left;
* `gcUntilSpace_ends`: the loop ends, for every state reached and every algorithm, if such numbers
  come up again and again.
-/

namespace FtlFirmware

namespace Nand

variable {n n' : Nand} {b : ℕ} {blk : PhyBlock}

/-- The numbers with which a worn block becomes bad. -/
def WearsOut (x : ℕ) : Prop := x % 100 < highWearBadRatio

/-- The same numbers are to be drawn, and the blocks are as worn as before. -/
structure SameWear (n n' : Nand) : Prop where
  rand : n'.rand = n.rand
  nandType : n'.nandType = n.nandType
  eraseCount : ∀ b, (n'.blocks b).eraseCount = (n.blocks b).eraseCount

namespace SameWear

theorem refl (n : Nand) : n.SameWear n := ⟨rfl, rfl, fun _ => rfl⟩

theorem trans {n'' : Nand} (h : n.SameWear n') (h' : n'.SameWear n'') : n.SameWear n'' where
  rand := h'.rand.trans h.rand
  nandType := h'.nandType.trans h.nandType
  eraseCount b := (h'.eraseCount b).trans (h.eraseCount b)

/-- One block changes otherwise. -/
theorem of_update (hrand : n'.rand = n.rand) (htype : n'.nandType = n.nandType)
    (hblocks : n'.blocks = Function.update n.blocks b blk)
    (hcount : blk.eraseCount = (n.blocks b).eraseCount) : n.SameWear n' := by
  refine ⟨hrand, htype, fun b' => ?_⟩
  rw [hblocks]
  rcases eq_or_ne b' b with rfl | hne
  · rw [Function.update_self, hcount]
  · rw [Function.update_of_ne hne]

theorem countRead (b : ℕ) (ecc : EccResult) : n.SameWear (n.countRead b ecc) :=
  .of_update rfl rfl rfl PhyBlock.countRead_eraseCount

theorem pageRead (n : Nand) (b p : ℕ) (buf : PageData) : n.SameWear (n.pageRead b p buf).2.2 := by
  rcases n.pageRead_cases b p buf with ⟨_, _, heq⟩ | ⟨_, _, heq, _⟩ <;> rw [heq]
  · exact countRead b _
  · exact .refl n

theorem pageWrite (n : Nand) (b p : ℕ) (buf : PageData) : n.SameWear (n.pageWrite b p buf).2 := by
  rcases n.pageWrite_cases b p buf with ⟨_, _, heq⟩ | ⟨_, _, heq, _⟩ <;> rw [heq]
  · exact .of_update rfl rfl rfl PhyBlock.program_eraseCount
  · exact .refl n

theorem markPageInvalid (n : Nand) (b p : ℕ) : n.SameWear (n.markPageInvalid b p).2 := by
  rcases n.markPageInvalid_cases b p with ⟨_, _, heq⟩ | heq <;> rw [heq]
  · exact .of_update rfl rfl rfl PhyBlock.invalidate_eraseCount
  · exact .refl n

theorem markColdBlock (n : Nand) (b : ℕ) : n.SameWear (n.markColdBlock b).2 := by
  rcases n.markColdBlock_cases b with ⟨_, heq⟩ | heq <;> rw [heq]
  · exact .of_update rfl rfl rfl PhyBlock.markCold_eraseCount
  · exact .refl n

theorem copyPages (src dst : ℕ) (pages : List ℕ) (n : Nand) (buf : PageData) :
    n.SameWear (n.copyPages src dst buf pages) := by
  induction pages generalizing n buf with
  | nil => exact .refl n
  | cons page pages ih =>
    rcases n.copyPages_cons src dst page pages buf with ⟨_, _, heq⟩ | ⟨_, heq⟩ <;> rw [heq]
    · exact ((countRead src _).trans (pageWrite _ dst page _)).trans (ih _ _)
    · exact ih n buf

/-- A block that is replaced wears no other one. -/
theorem replaceBadBlock (n : Nand) (b : ℕ) : n.SameWear (n.replaceBadBlock b).2 := by
  have htake : n.SameWear { n with reservedCount := n.reservedCount - 1 } :=
    ⟨rfl, rfl, fun _ => rfl⟩
  rcases n.replaceBadBlock_cases b with ⟨_, heq⟩ | ⟨r, _, _, _, _, _, ⟨_, heq⟩ | ⟨_, heq⟩⟩ <;> rw [heq]
  · exact .refl n
  · have hcopied := htake.trans (copyPages b r (List.range pagesPerBlock) _ blankPage)
    exact hcopied.trans (.of_update rfl rfl rfl rfl)
  · exact htake

end SameWear

/-- The erases up to which a block does not wear out, and those that are left to it. -/
def wearLeft (n : Nand) (b : ℕ) : ℕ :=
  (getEraseThreshold n.nandType).toNat + 1 - (n.blocks b).eraseCount.toNat

/-- The draws up to the next block that becomes bad, then the erases that are left to the blocks. -/
noncomputable def wearRank (n : Nand) : ℕ ×ₗ ℕ :=
  toLex (firstHit WearsOut n.rand, ∑ b ∈ Finset.range totalBlocks, n.wearLeft b)

theorem SameWear.wearRank_eq (h : n.SameWear n') : n'.wearRank = n.wearRank := by
  have hleft (b : ℕ) : n'.wearLeft b = n.wearLeft b := by
    rw [wearLeft, wearLeft, h.nandType, h.eraseCount]
  simp only [wearRank, h.rand, hleft]

/-- A block that is not worn has an erase less left to it. -/
theorem wearLeft_erase (hb : ¬ getEraseThreshold n.nandType < (n.blocks b).eraseCount) :
    (n.erase b).wearLeft b < n.wearLeft b := by
  have hle := UInt32.le_iff_toNat_le.1 (UInt32.not_lt.1 hb)
  have hmax : (getEraseThreshold n.nandType).toNat ≤ 100000 := by
    cases n.nandType <;> decide
  have hblk : ((n.erase b).blocks b).eraseCount = (n.blocks b).eraseCount + 1 := by
    simp [erase]
  have hcount : ((n.blocks b).eraseCount + 1).toNat = (n.blocks b).eraseCount.toNat + 1 := by
    rw [UInt32.toNat_add, UInt32.toNat_one]
    omega
  have htype : (n.erase b).nandType = n.nandType := rfl
  rw [wearLeft, wearLeft, htype, hblk, hcount]
  omega

theorem wearLeft_erase_of_ne {b' : ℕ} (hne : b' ≠ b) : (n.erase b).wearLeft b' = n.wearLeft b' := by
  have hblk : (n.erase b).blocks b' = n.blocks b' := Function.update_of_ne hne _ _
  rw [wearLeft, wearLeft, hblk]
  rfl

/-- An erase lowers the rank: a worn block takes one of the numbers up to the one with which it
    becomes bad, and another block has an erase less left to it. -/
theorem blockErase_wearRank (hrand : Recurs WearsOut n.rand) (h : n.blockErase b = (.ok, n')) :
    n'.wearRank < n.wearRank := by
  rw [blockErase] at h
  split at h
  · simp at h
  next hvalid =>
  split at h
  · simp at h
  split at h
  · split at h
    · simp at h
    · next hdraw =>
      obtain ⟨_, rfl⟩ := Prod.mk.inj h
      exact Prod.Lex.toLex_lt_toLex.2 (Or.inl (hrand.firstHit_tail hdraw))
  · next hfit =>
    obtain ⟨_, rfl⟩ := Prod.mk.inj h
    have hb : b < totalBlocks := (isBlockValid_iff.1 (not_not.1 hvalid)).1
    have hle (b' : ℕ) : (n.erase b).wearLeft b' ≤ n.wearLeft b' := by
      rcases eq_or_ne b' b with rfl | hne
      · exact (wearLeft_erase hfit).le
      · exact (wearLeft_erase_of_ne hne).le
    have hsum : ∑ b' ∈ Finset.range totalBlocks, (n.erase b).wearLeft b' <
        ∑ b' ∈ Finset.range totalBlocks, n.wearLeft b' :=
      Finset.sum_lt_sum (fun b' _ => hle b') ⟨b, Finset.mem_range.2 hb, wearLeft_erase hfit⟩
    exact Prod.Lex.toLex_lt_toLex.2 (Or.inr ⟨rfl, hsum⟩)

end Nand

namespace Ftl

variable {s s' s₀ : Ftl} {tr : List (Call × Answer)} {ret : RetCode}

/-- The numbers with which a block becomes bad keep coming up. -/
theorem nandStable_recurs : NandStable fun n => Recurs Nand.WearsOut n.rand where
  pageRead n b p buf h := (Nand.SameWear.pageRead n b p buf).rand ▸ h
  pageWrite n b p buf h := (Nand.SameWear.pageWrite n b p buf).rand ▸ h
  markPageInvalid n b p h := (Nand.SameWear.markPageInvalid n b p).rand ▸ h
  blockErase n b h := by
    rw [Nand.blockErase]
    split
    · exact h
    split
    · exact h
    split
    · split
      · exact h.tail
      · exact h.tail
    · exact h
  markColdBlock n b h := (Nand.SameWear.markColdBlock n b).rand ▸ h
  replaceBadBlock n b h := (Nand.SameWear.replaceBadBlock n b).rand ▸ h

/-- Steps that neither erase nor replace a block do not wear. -/
theorem Steps.sameWear {D : Set PageData} {x y : Ftl × PageData} (h : Steps D ∅ ∅ x y) :
    x.1.nand.SameWear y.1.nand := by
  refine h.invariant (P := fun y => x.1.nand.SameWear y.1.nand) (.refl _) fun x' y hx hstep => ?_
  cases hstep with
  | books hsame => exact hsame.nand ▸ hx
  | clear => exact hx
  | load _ => exact hx
  | alloc halloc =>
    rcases allocPhyPage_cases halloc with ⟨_, _, rfl⟩ | ⟨_, _, _, _, rfl⟩
    · exact hx
    · exact hx
  | read b p => exact hx.trans (.pageRead _ b p _)
  | write p _ => exact hx.trans (.pageWrite _ _ p _)
  | invalidate p _ => exact hx.trans (.markPageInvalid _ _ p)
  | erase hb => exact absurd hb (Set.notMem_empty _)
  | markCold _ => exact hx.trans (.markColdBlock _ _)
  | replace hb => exact absurd hb (Set.notMem_empty _)

/-- A victim that is recycled lowers the rank. -/
theorem gcDoRecycle_wearRank (hrand : Recurs Nand.WearsOut s.nand.rand)
    (h : s.gcDoRecycle = (.ok, s')) : s'.nand.wearRank < s.nand.wearRank := by
  rw [gcDoRecycle] at h
  split at h
  · simp at h
  · next victim _ =>
    obtain ⟨_, hsteps⟩ := recyclePages_steps (D := ∅) (E := ∅) (B := ∅) victim
      (List.range pagesPerBlock) { s with gcCount := s.gcCount + 1 } blankPage
    have hmoved := hsteps.sameWear
    split at h
    · next s₁ hpages =>
      rw [hpages] at hmoved
      obtain ⟨herased, rfl⟩ := Prod.mk.inj h
      have hrand₁ : Recurs Nand.WearsOut s₁.nand.rand := hmoved.rand ▸ hrand
      have hlt := Nand.blockErase_wearRank hrand₁ (Prod.ext herased rfl)
      exact hlt.trans_eq hmoved.wearRank_eq
    · next ret s₁ hret _ =>
      exact absurd (Prod.mk.inj h).1 hret

/-- A turn of the loop. -/
def gcTurn (s : Ftl) : (RetCode × Ftl) ⊕ Ftl :=
  match s.gcDoRecycle with
  | (.ok, s) => .inr s
  | (_, s) => .inl (.errNoSpace, s)

theorem gcTurn_inr (h : gcTurn s = .inr s') : s.gcDoRecycle = (.ok, s') := by
  rw [gcTurn] at h
  split at h
  · next s₁ hr => rw [hr, Sum.inr.inj h]
  · simp at h

theorem gcTurn_inl {s : Ftl} {r : RetCode × Ftl} (h : gcTurn s = .inl r) : r.1 = .errNoSpace := by
  rw [gcTurn] at h
  split at h
  · simp at h
  · obtain rfl := Sum.inl.inj h
    rfl

/-- The garbage collection before a write is a loop. -/
theorem gcUntilSpace_eq_loop (fuel : ℕ) (s : Ftl) :
    gcUntilSpace fuel s =
      (Loop.run (fun s : Ftl => s.nand.getFreeBlockCount ≤ gcTriggerThreshold) gcTurn fuel s).map
        (Sum.elim id fun s => (.ok, s)) := by
  induction fuel generalizing s with
  | zero =>
    rw [gcUntilSpace, Loop.run]
    split <;> rfl
  | succ fuel ih =>
    rw [gcUntilSpace, Loop.run, gcTurn]
    split
    · rcases s.gcDoRecycle with ⟨ret, s₁⟩
      cases ret with
      | ok => exact ih s₁
      | _ => rfl
    · rfl

/-- The numbers keep coming up in every run. -/
theorem run_recurs {rand : ℕ → ℕ} {files : String → Option (List UInt8)}
    (hrand : Recurs Nand.WearsOut rand) (hfresh : powerOn rand files = (.ok, s₀))
    (hrun : Run (fun _ _ => True) s₀ tr s) : Recurs Nand.WearsOut s.nand.rand := by
  have hstart : s₀.nand.rand = fun i => rand (totalBlocks + i) := by
    rw [powerOn, init] at hfresh
    split at hfresh
    · simp at hfresh
    · obtain ⟨_, rfl⟩ := Prod.mk.inj hfresh
      rfl
  refine hrun.invariant (P := fun s => Recurs Nand.WearsOut s.nand.rand) ?_ ?_
  · rw [hstart]
    exact hrand.drop totalBlocks
  · rintro s call a s' hs _ ⟨fuel, hexec⟩
    exact exec_nand nandStable_recurs hs hexec

/-- The garbage collection before a write ends if the numbers keep coming up. -/
theorem gcUntilSpace_ends_of_recurs (hrand : Recurs Nand.WearsOut s.nand.rand) :
    ∃ fuel ret s', gcUntilSpace fuel s = some (ret, s') ∧
      (ret = .ok ∧ gcTriggerThreshold < s'.nand.getFreeBlockCount ∨ ret = .errNoSpace) := by
  have hturn (s s' : Ftl) (hs : Recurs Nand.WearsOut s.nand.rand)
      (_ : s.nand.getFreeBlockCount ≤ gcTriggerThreshold) (h : gcTurn s = .inr s') :
      Recurs Nand.WearsOut s'.nand.rand ∧ s'.nand.wearRank < s.nand.wearRank := by
    have hrecycle := gcTurn_inr h
    have hreach : Reaches ∅ Set.univ ∅ s s.gcDoRecycle.2 :=
      gcDoRecycle_reaches fun _ _ => Set.mem_univ _
    rw [hrecycle] at hreach
    exact ⟨hreach.nand nandStable_recurs hs, gcDoRecycle_wearRank hs hrecycle⟩
  obtain ⟨fuel, r, hloop⟩ := Loop.run_ends _ hturn hrand
  refine ⟨fuel, (Sum.elim id (fun s => (.ok, s)) r).1, (Sum.elim id (fun s => (.ok, s)) r).2,
    by rw [gcUntilSpace_eq_loop, hloop]; rfl, ?_⟩
  cases r with
  | inl r => exact Or.inr (Loop.run_inl (fun r => r.1 = .errNoSpace) gcTurn_inl hloop)
  | inr s' =>
    have hspace := Loop.run_inr hloop
    exact Or.inl ⟨rfl, Nat.lt_of_not_le hspace⟩

/-- More fuel makes no difference. -/
theorem gcUntilSpace_mono {fuel fuel' : ℕ} {r : RetCode × Ftl} (h : gcUntilSpace fuel s = some r)
    (hle : fuel ≤ fuel') : gcUntilSpace fuel' s = some r := by
  rw [gcUntilSpace_eq_loop] at h ⊢
  obtain ⟨r', hloop, heq⟩ := Option.map_eq_some_iff.1 h
  rw [Loop.run_mono hloop hle, Option.map_some, heq]

/-- In every state reached, with every algorithm, the garbage collection before a write ends: with
    enough free blocks, or with an error. -/
theorem gcUntilSpace_ends {rand : ℕ → ℕ} {files : String → Option (List UInt8)}
    (hrand : Recurs Nand.WearsOut rand) (hfresh : powerOn rand files = (.ok, s₀))
    (hrun : Run (fun _ _ => True) s₀ tr s) :
    ∃ fuel ret s', gcUntilSpace fuel s = some (ret, s') ∧
      (ret = .ok ∧ gcTriggerThreshold < s'.nand.getFreeBlockCount ∨ ret = .errNoSpace) :=
  gcUntilSpace_ends_of_recurs (run_recurs hrand hfresh hrun)

/-- Six good blocks, and a number that makes every worn block bad. After one write, five blocks are
    free, and a victim that is recycled takes as much space as it gives back. -/
theorem gcUntilSpace_ends_six : ∃ s₀ tr s,
    powerOn (fun i => if i < 6 then 4 else 0) (fun _ => none) = (.ok, s₀) ∧
    Run (fun _ _ => True) s₀ tr s ∧ s.nand.getFreeBlockCount ≤ gcTriggerThreshold ∧
    (∃ s', s.gcDoRecycle = (.ok, s') ∧ s'.nand.getFreeBlockCount ≤ gcTriggerThreshold) ∧
    ∃ fuel ret s', gcUntilSpace fuel s = some (ret, s') ∧
      (ret = .ok ∧ gcTriggerThreshold < s'.nand.getFreeBlockCount ∨ ret = .errNoSpace) := by
  have hrand : Recurs Nand.WearsOut fun i => if i < 6 then 4 else 0 := by
    refine fun k => ⟨k + 6, Nat.le_add_right _ _, ?_⟩
    have hlarge : ¬ k + 6 < 6 := by omega
    simp only [Nand.WearsOut, if_neg hlarge]
    decide
  obtain ⟨s₀, hs₀⟩ : ∃ s₀, powerOn (fun i => if i < 6 then 4 else 0) (fun _ => none) = (.ok, s₀) :=
    ⟨_, Prod.ext (by decide +kernel) rfl⟩
  have hwritten : (execAll 0 [.write 0 blankPage]
      (powerOn (fun i => if i < 6 then 4 else 0) fun _ => none).2).map (fun r =>
        (r.2.nand.getFreeBlockCount, r.2.gcDoRecycle.1,
          r.2.gcDoRecycle.2.nand.getFreeBlockCount)) = some (5, .ok, 5) := by
    decide +kernel
  obtain ⟨⟨tr, s⟩, hexec, hs⟩ := Option.map_eq_some_iff.1 hwritten
  simp only [Prod.mk.injEq] at hs
  obtain ⟨hfree, hok, hfree'⟩ := hs
  rw [hs₀] at hexec
  have hrun : Run (fun _ _ => True) s₀ tr s := execAll_run (fun _ _ => True.intro) hexec
  exact ⟨s₀, tr, s, hs₀, hrun, hfree.le, ⟨_, Prod.ext hok rfl, hfree'.le⟩,
    gcUntilSpace_ends hrand hs₀ hrun⟩

end Ftl

end FtlFirmware
