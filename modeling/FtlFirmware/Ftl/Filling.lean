import FtlFirmware.Ftl.Reached

/-!
# Filling a device

On a calm device of which nothing has been erased, the pages are written one after the other
(`Layout.Ahead`). All writes succeed as long as they are to the first hundred blocks
(`Calm.write_ahead`), which have room for all logical pages (`exists_full`).
-/

namespace FtlFirmware

namespace Ftl

/-- The first `n` pages have been taken, and nothing has been erased. -/
structure Layout.Ahead (L : Layout) (n : ℕ) : Prop where
  page : L.page ≤ pagesPerBlock
  cursor : L.cursor = n
  behind : L.Behind
  unworn : ∀ b, L.erases b = 0

theorem Layout.ahead_fresh : Layout.fresh.Ahead 0 :=
  ⟨Nat.zero_le _, rfl, by simp [Behind, fresh], fun _ => rfl⟩

variable {c : Store} {L : Layout} {s : Ftl} {lpn n : ℕ}

/-- Nothing is mapped to the blocks after the first hundred. -/
theorem Layout.Ahead.room (hL : L.Ahead n) (hn : n < 100 * pagesPerBlock) :
    ∀ b, 100 ≤ b → L.Empty b := by
  intro b hb lpn ppn hl
  have hppn := hL.cursor ▸ hL.behind lpn ppn hl
  simp only [ppnToBlock, pagesPerBlock] at hn ⊢
  omega

/-- The write cursor is in one of the first hundred blocks. -/
theorem Layout.Ahead.block_lt (hL : L.Ahead n) (hn : n < 100 * pagesPerBlock) :
    L.block < totalBlocks := by
  have hcursor := hL.cursor
  simp only [Layout.cursor, pagesPerBlock, totalBlocks] at hcursor hn ⊢
  omega

namespace Calm

/-- Nothing is to be moved as long as nothing has been erased. -/
theorem staticWearPair_of_unworn (h : Calm c L s) (hunworn : ∀ b, L.erases b = 0) :
    staticWearPair s.nand = none := by
  have hworn : (scan (fun a b => decide (b < a)) s.nand.getBlockEraseCount 0 s.nand.usedBlocks) =
      (0, none) := by
    refine scan_of_not_better fun b hb => ?_
    have hlt : b < totalBlocks :=
      Nat.lt_of_lt_of_le (List.mem_range.1 (List.mem_filter.1 hb).1) (by decide)
    rw [Nand.getBlockEraseCount, if_pos (h.inv.isBlockValid hlt), h.erases b hlt, hunworn b]
    rfl
  rw [staticWearPair, hworn]
  split_ifs <;> rfl

/-- The wear levelling just counts the write as long as nothing has been erased. -/
theorem checkWear_of_unworn (h : Calm c L s) (hunworn : ∀ b, L.erases b = 0) :
    ∃ x, s.checkWear = { s with writeSinceLastCheck := x } := by
  rw [checkWear, h.wearLevelingCheck_of_unworn fun b _ => hunworn b]
  dsimp only
  split_ifs with hdue
  · have hpair := h.staticWearPair_of_unworn hunworn
    rw [staticWearLevelingCheck]
    dsimp only
    rw [hpair]
    exact ⟨_, rfl⟩
  · exact ⟨_, rfl⟩

/-- A write to the next page. -/
theorem write_ahead (h : Calm c L s) (hL : L.Ahead n) (hn : n < 100 * pagesPerBlock)
    (hlpn : lpn < totalLpns) (buf : PageData) :
    ∃ L' s', s.write 0 lpn buf = some (.ok, s') ∧ Calm (Function.update c lpn (some buf)) L' s' ∧
      L'.Ahead (n + 1) ∧ L'.table = Function.update L.table lpn (some n) := by
  have hlt : n < totalPpns := Nat.lt_of_lt_of_le hn (by decide)
  have hun : ∀ lpn, L.table lpn ≠ some n := fun lpn hl =>
    Nat.lt_irrefl _ (hL.cursor ▸ hL.behind lpn n hl)
  have ha := h.takeCursor hL.page (hL.cursor ▸ hn) hL.behind
  rw [hL.cursor] at ha
  obtain ⟨s', h', hout⟩ := h.writeOut_checkWear hlpn (ppnToBlock_lt_iff.2 hlt) ppnToPage_lt
    (by rwa [blockPageToPpn_self hlt]) ha buf
  obtain ⟨x, hwear⟩ := h'.checkWear_of_unworn hL.unworn
  refine ⟨{ L.write lpn (ppnToBlock n) (ppnToPage n) with sinceCheck := x }, s'.checkWear, ?_, ?_,
    ?_, ?_⟩
  · rw [Ftl.write, if_neg (not_not.2 h.inv.started), if_neg (Nat.not_le.2 hlpn), gcUntilSpace,
      if_neg (h.enough_free (hL.room hn))]
    exact hout (by rw [hwear])
  · rw [hwear]
    exact { h' with inv := h'.inv.congr rfl, sinceCheck := rfl }
  · have hcursor : ppnToBlock n * pagesPerBlock + (ppnToPage n + 1) = n + 1 := by
      rw [ppnToBlock, ppnToPage, ← Nat.add_assoc, Nat.div_add_mod']
    refine ⟨ppnToPage_lt, hcursor, fun lpn' ppn hl => ?_, hL.unworn⟩
    have hl' : Function.update L.table lpn (some n) lpn' = some ppn := by
      rwa [← blockPageToPpn_self hlt]
    refine Nat.lt_of_lt_of_eq ?_ hcursor.symm
    rw [Function.update_apply] at hl'
    split_ifs at hl'
    · exact Nat.lt_succ_of_le (Nat.le_of_eq (Option.some.inj hl').symm)
    · exact Nat.lt_succ_of_lt (hL.cursor ▸ hL.behind lpn' ppn hl')
  · change Function.update L.table lpn _ = _
    rw [blockPageToPpn_self hlt]

end Calm

/-- A device whose first logical pages have been written. -/
theorem exists_written_ahead (hn : n ≤ totalLpns) : ∃ c L s, Reached (fun _ => True) c L s ∧
    L.Ahead n ∧ ∀ lpn < n, L.table lpn ≠ none := by
  induction n with
  | zero =>
    obtain ⟨s, hon, h⟩ := Calm.powerOn (fun _ => 99) (fun _ => by decide) fun _ => none
    exact ⟨_, _, s, ⟨s, [], ⟨_, _, hon⟩, .nil, rfl, h⟩, Layout.ahead_fresh,
      fun _ h => absurd h (Nat.not_lt_zero _)⟩
  | succ n ih =>
    obtain ⟨c, L, s, h, hL, hmapped⟩ := ih (Nat.le_of_succ_le hn)
    obtain ⟨L', s', hwrite, h', hL', htable⟩ :=
      h.calm.write_ahead hL (Nat.lt_of_lt_of_le hn (by decide)) hn blankPage
    have hexec : s.exec 0 (.write n blankPage) = some (⟨.ok, none⟩, s') := by
      rw [exec, hwrite]
      rfl
    refine ⟨_, L', s', h.step True.intro 0 hexec h', hL', fun lpn hlpn => ?_⟩
    rw [htable, Function.update_apply]
    split_ifs with hlast
    · exact Option.some_ne_none _
    · exact hmapped lpn (Nat.lt_of_le_of_ne (Nat.le_of_lt_succ hlpn) hlast)

/-- A calm device on which all logical pages are mapped. -/
theorem exists_full : ∃ c L s, Calm c L s ∧ ∀ lpn < totalLpns, L.table lpn ≠ none := by
  obtain ⟨c, L, s, h, _, hmapped⟩ := exists_written_ahead (Nat.le_refl totalLpns)
  exact ⟨c, L, s, h.calm, hmapped⟩

end Ftl

end FtlFirmware
