import FtlFirmware.Ftl.Worn

/-!
# Marking a block as cold

On a device that has been worn out unevenly, the next write marks the first block as cold, although
it has two valid pages (`Reached.write_cold`).
-/

namespace FtlFirmware

namespace Ftl

/-- The scan of the dynamic wear levelling, if all blocks have been erased equally often, but for
    the first one, which has not been erased. -/
theorem wearScan_uneven {n : Nand} {m : UInt32} (hm : 0 < m)
    (hgood : ∀ i < userBlocks, n.getBlockState i ≠ .bad) (hzero : n.getBlockEraseCount 0 = 0)
    (hothers : ∀ i < userBlocks, i ≠ 0 → n.getBlockEraseCount i = m) :
    wearScan n = (m, 0, if n.getBlockState 0 = .used then some 0 else none) := by
  have hrest (l : List ℕ) (hl : ∀ i ∈ l, i < userBlocks ∧ i ≠ 0) (cold : Option ℕ) :
      l.foldl (wearScanStep n) (m, 0, cold) = (m, 0, cold) := by
    induction l with
    | nil => rfl
    | cons i l ih =>
      obtain ⟨hi, hne⟩ := hl i List.mem_cons_self
      have hlt : ¬ m < 0 := UInt32.not_lt.2 (UInt32.zero_le)
      have hstep : wearScanStep n (m, 0, cold) i = (m, 0, cold) := by
        rw [wearScanStep, if_neg (hgood i hi), hothers i hi hne]
        dsimp only
        rw [if_neg (UInt32.lt_irrefl m), if_neg hlt, if_neg fun h => hlt h.1]
      rw [List.foldl_cons, hstep]
      exact ih fun j hj => hl j (List.mem_cons_of_mem _ hj)
  have hfirst : wearScanStep n (0, 0xFFFFFFFF, none) 0 =
      (0, 0, if n.getBlockState 0 = .used then some 0 else none) := by
    rw [wearScanStep, if_neg (hgood 0 (by decide)), hzero]
    dsimp only
    rw [if_neg (by decide), if_pos (by decide)]
    refine congrArg _ (congrArg _ (if_congr ?_ rfl rfl))
    exact and_iff_right (by decide)
  have hsecond (cold : Option ℕ) : wearScanStep n (0, 0, cold) 1 = (m, 0, cold) := by
    have hlt : ¬ m < 0 := UInt32.not_lt.2 (UInt32.zero_le)
    rw [wearScanStep, if_neg (hgood 1 (by decide)), hothers 1 (by decide) (by decide)]
    dsimp only
    rw [if_pos hm, if_neg hlt, if_neg fun h => hlt h.1]
  rw [wearScan]
  change (0 :: 1 :: List.range' 2 118).foldl _ _ = _
  rw [List.foldl_cons, hfirst, List.foldl_cons, hsecond]
  refine hrest _ (fun i hi => ?_) _
  obtain ⟨hge, hlt⟩ := List.mem_range'_1.1 hi
  exact ⟨hlt, Nat.ne_of_gt (Nat.lt_of_lt_of_le Nat.two_pos hge)⟩

variable {allowed : Call → Prop} {c : Store} {L : Layout} {s : Ftl} {lpn ppn : ℕ}

namespace Layout.Uneven

/-- What is mapped. -/
theorem cases (hL : L.Uneven) (hl : L.table lpn = some ppn) :
    (lpn = 2 ∧ ppn = blockPageToPpn 3 0) ∨ (lpn = 0 ∧ ppn = blockPageToPpn 0 255) ∨
      (lpn = 1 ∧ ppn = blockPageToPpn 0 0) := by
  rw [hL.table, Function.update_apply, Function.update_apply, Function.update_apply] at hl
  split_ifs at hl with h2 h0 h1
  · exact Or.inl ⟨h2, (Option.some_inj.1 hl).symm⟩
  · exact Or.inr (Or.inl ⟨h0, (Option.some_inj.1 hl).symm⟩)
  · exact Or.inr (Or.inr ⟨h1, (Option.some_inj.1 hl).symm⟩)

end Layout.Uneven

/-- A device on which the first block has been marked as cold. -/
def cooled (s : Ftl) : Ftl :=
  { s with
    nand := s.nand.setBlock 0 (s.nand.blocks 0).markCold
    wearLevelingCount := s.wearLevelingCount + 1
    writeSinceLastCheck := 999 }

/-- The layout after the logical page 3 has been written to a device that has been worn out
    unevenly. -/
structure Layout.Cold (L : Layout) : Prop where
  table : L.table = Function.update (Function.update (Function.update (Function.update
    (fun _ => none) 1 (some (blockPageToPpn 0 0))) 0 (some (blockPageToPpn 0 255))) 2
      (some (blockPageToPpn 3 0))) 3 (some (blockPageToPpn 3 1))
  block : L.block = 3
  page : L.page = 2
  erases : ∀ i < userBlocks, L.erases i = if i = 0 then 0 else 101

/-- What is mapped. -/
theorem Layout.Cold.cases (hL : L.Cold) (hl : L.table lpn = some ppn) :
    (lpn = 3 ∧ ppn = blockPageToPpn 3 1) ∨ (lpn = 2 ∧ ppn = blockPageToPpn 3 0) ∨
      (lpn = 0 ∧ ppn = blockPageToPpn 0 255) ∨ (lpn = 1 ∧ ppn = blockPageToPpn 0 0) := by
  simp only [hL.table, Function.update_apply] at hl
  split_ifs at hl with h3 h2 h0 h1
  · exact Or.inl ⟨h3, (Option.some_inj.1 hl).symm⟩
  · exact Or.inr (Or.inl ⟨h2, (Option.some_inj.1 hl).symm⟩)
  · exact Or.inr (Or.inr (Or.inl ⟨h0, (Option.some_inj.1 hl).symm⟩))
  · exact Or.inr (Or.inr (Or.inr ⟨h1, (Option.some_inj.1 hl).symm⟩))

/-- What four logical pages are mapped to. -/
theorem Layout.Cold.mapped (hL : L.Cold) : L.table 0 = some (blockPageToPpn 0 255) ∧
    L.table 1 = some (blockPageToPpn 0 0) ∧ L.table 2 = some (blockPageToPpn 3 0) := by
  rw [hL.table]
  exact ⟨rfl, rfl, rfl⟩

/-- The erase count of a block of the user area. -/
theorem Calm.getBlockEraseCount (h : Calm c L s) {b : ℕ} (hb : b < userBlocks) :
    s.nand.getBlockEraseCount b = L.erases b := by
  have hb' : b < totalBlocks := Nat.lt_of_lt_of_le hb (by decide)
  rw [Nand.getBlockEraseCount, if_pos (h.inv.isBlockValid hb'), h.erases b hb']

/-- The dynamic wear levelling marks the first block as cold. -/
theorem Calm.wearLevelingCheck_cold (h : Calm c L s) (hL : L.Cold) :
    s.wearLevelingCheck = { s with
      nand := s.nand.setBlock 0 (s.nand.blocks 0).markCold
      wearLevelingCount := s.wearLevelingCount + 1 } := by
  have hused := h.used hL.mapped.1
  rw [ppnToBlock_mk (by decide) (by decide)] at hused
  have hstate := h.getBlockState (b := 0) (by decide)
  have hscan := wearScan_uneven (n := s.nand) (m := 101) (by decide) (fun i hi => by
      have hi' : i < totalBlocks := Nat.lt_of_lt_of_le hi (by decide)
      rw [h.getBlockState hi']
      exact h.good i hi') (by rw [h.getBlockEraseCount (by decide), hL.erases 0 (by decide)]; rfl)
    fun i hi hne => by rw [h.getBlockEraseCount hi, hL.erases i hi, if_neg hne]
  rw [hstate, hused, if_pos rfl] at hscan
  have hmark : s.nand.markColdBlock 0 =
      (.ok, s.nand.setBlock 0 (s.nand.blocks 0).markCold) := by
    rw [Nand.markColdBlock, if_neg (not_not.2 (h.inv.isBlockValid (by decide))),
      if_neg (not_not.2 hused)]
  rw [wearLevelingCheck]
  dsimp only
  rw [hscan, if_pos (by decide)]
  dsimp only
  rw [hmark, if_pos rfl]

/-- A write marks the first block as cold. -/
theorem Calm.write_cold (h : Calm c L s) (hL : L.Uneven) (buf : PageData) :
    ∃ L' s', s.write 0 3 buf = some (.ok, s'.cooled) ∧ L'.Cold ∧
      Calm (Function.update c 3 (some buf)) L' s' := by
  have hun : ∀ lpn, L.table lpn ≠ some (blockPageToPpn 3 1) := by
    intro lpn hl
    rcases hL.cases hl with ⟨_, heq⟩ | ⟨_, heq⟩ | ⟨_, heq⟩ <;> exact absurd heq (by decide)
  have ha : s.allocPhyPage =
      some (blockPageToPpn 3 1, { s with curWriteBlock := 3, curWritePage := 1 + 1 }) := by
    rw [allocPhyPage, h.page, hL.page, if_pos (by decide), h.block, hL.block, ← hL.block, ← h.block]
  obtain ⟨s', h', hw⟩ := h.writeOut (by decide : 3 < totalLpns) (by decide) (by decide) hun ha
    (by rw [hL.sinceCheck]; decide) buf
  have hroom : ∀ b, 100 ≤ b → L.Empty b := by
    rintro b hb lpn ppn hl rfl
    rcases hL.cases hl with ⟨_, rfl⟩ | ⟨_, rfl⟩ | ⟨_, rfl⟩ <;> exact absurd hb (by decide)
  have hL' : (L.write 3 3 1).Cold := by
    refine ⟨?_, rfl, rfl, hL.erases⟩
    change Function.update L.table 3 _ = _
    rw [hL.table]
  refine ⟨L.write 3 3 1, s', ?_, hL', h'⟩
  rw [Ftl.write, if_neg (not_not.2 h.inv.started), if_neg (by decide), gcUntilSpace,
    if_neg (h.enough_free hroom)]
  dsimp only
  rw [hw, h'.wearLevelingCheck_cold hL', hL.sinceCheck]
  rfl

end Ftl

end FtlFirmware
