import FtlFirmware.Ftl.Reached
import FtlFirmware.Ftl.Walk

/-!
# Wearing out a device

With its first block half full of valid pages, and one more page to collect, a device can be worn
out by garbage collections alone: each of them moves the page to the next block of the user area,
round and round, but for the first block, which is never erased (`exists_worn`).
-/

namespace FtlFirmware

namespace Ftl

/-- The block in which the logical page 2 is after `n` garbage collections. -/
def wornBlock (n : ℕ) : ℕ := 1 + (n + 2) % 119

/-- How often the block `i` of the user area has been erased after `n` garbage collections. -/
def wornCount (n i : ℕ) : ℕ := if i = 0 then 0 else (n + 118 - (i + 116) % 119) / 119

section Count

variable {n i : ℕ}

theorem wornBlock_pos : 0 < wornBlock n := Nat.lt_of_lt_of_le Nat.one_pos (Nat.le_add_right _ _)

theorem wornBlock_lt : wornBlock n < userBlocks := by
  simp only [wornBlock, userBlocks, totalBlocks, reservedBlocks]
  omega

/-- The next block. -/
theorem wornBlock_succ :
    wornBlock (n + 1) = if wornBlock n + 1 < userBlocks then wornBlock n + 1 else 1 := by
  by_cases h : wornBlock n + 1 < userBlocks
  · rw [if_pos h]
    simp only [wornBlock, userBlocks, totalBlocks, reservedBlocks] at h ⊢
    omega
  · rw [if_neg h]
    simp only [wornBlock, userBlocks, totalBlocks, reservedBlocks] at h ⊢
    omega

theorem wornBlock_succ_ne : wornBlock (n + 1) ≠ wornBlock n := by
  simp only [wornBlock]
  omega

/-- A garbage collection erases one block. -/
theorem wornCount_succ (hi : i < userBlocks) :
    wornCount (n + 1) i = wornCount n i + if i = wornBlock n then 1 else 0 := by
  simp only [userBlocks, totalBlocks, reservedBlocks] at hi
  by_cases hzero : i = 0
  · have hne : i ≠ wornBlock n := hzero ▸ wornBlock_pos.ne
    rw [wornCount, wornCount, if_pos hzero, if_pos hzero, if_neg hne]
  · rw [wornCount, wornCount, if_neg hzero, if_neg hzero]
    by_cases h : i = wornBlock n
    · rw [if_pos h]
      rw [wornBlock] at h
      omega
    · rw [if_neg h]
      rw [wornBlock] at h
      omega

end Count

/-- The layout after `n` garbage collections: the logical pages 1 and 0 are the first and the last
    page of the first block, the logical page 2 is right behind the write cursor. -/
structure Layout.Worn (L : Layout) (n p : ℕ) : Prop where
  table : L.table = Function.update (Function.update (Function.update (fun _ => none) 1
    (some (blockPageToPpn 0 0))) 0 (some (blockPageToPpn 0 255))) 2
      (some (blockPageToPpn (wornBlock n) p))
  page_lt : p < pagesPerBlock
  block : L.block = wornBlock n
  page : L.page = p + 1
  erases : ∀ i < userBlocks, L.erases i = UInt32.ofNat (wornCount n i)
  sinceCheck : L.sinceCheck = 998

section Worn

variable {c : Store} {L : Layout} {s : Ftl} {n p lpn ppn : ℕ}

namespace Layout.Worn

/-- What is mapped. -/
theorem cases (hL : L.Worn n p) (hl : L.table lpn = some ppn) :
    (lpn = 2 ∧ ppn = blockPageToPpn (wornBlock n) p) ∨ (lpn = 0 ∧ ppn = blockPageToPpn 0 255) ∨
      (lpn = 1 ∧ ppn = blockPageToPpn 0 0) := by
  rw [hL.table, Function.update_apply, Function.update_apply, Function.update_apply] at hl
  split_ifs at hl with h2 h0 h1
  · exact Or.inl ⟨h2, (Option.some_inj.1 hl).symm⟩
  · exact Or.inr (Or.inl ⟨h0, (Option.some_inj.1 hl).symm⟩)
  · exact Or.inr (Or.inr ⟨h1, (Option.some_inj.1 hl).symm⟩)

/-- What the three logical pages are mapped to. -/
theorem mapped (hL : L.Worn n p) : L.table 2 = some (blockPageToPpn (wornBlock n) p) ∧
    L.table 0 = some (blockPageToPpn 0 255) ∧ L.table 1 = some (blockPageToPpn 0 0) := by
  rw [hL.table]
  exact ⟨rfl, rfl, rfl⟩

/-- The block of a mapped page is the first one or that of the write cursor. -/
theorem block_of_mapped (hL : L.Worn n p) (hl : L.table lpn = some ppn) :
    (ppnToBlock ppn = wornBlock n ∧ lpn = 2) ∨ ppnToBlock ppn = 0 := by
  rcases hL.cases hl with ⟨rfl, rfl⟩ | ⟨_, rfl⟩ | ⟨_, rfl⟩
  · exact Or.inl ⟨ppnToBlock_mk (Nat.lt_of_lt_of_le wornBlock_lt (by decide)) hL.page_lt, rfl⟩
  · exact Or.inr (ppnToBlock_mk (by decide) (by decide))
  · exact Or.inr (ppnToBlock_mk (by decide) (by decide))

/-- The other blocks are empty. -/
theorem empty (hL : L.Worn n p) {b : ℕ} (h0 : b ≠ 0) (hb : b ≠ wornBlock n) : L.Empty b := by
  rintro lpn ppn hl rfl
  rcases hL.block_of_mapped hl with ⟨h, _⟩ | h
  · exact hb h
  · exact h0 h

end Layout.Worn

/-- The only used blocks are the first one and that of the write cursor. -/
theorem Calm.used_worn (h : Calm c L s) (hL : L.Worn n p) {b : ℕ} (hb : b ∈ s.nand.usedBlocks) :
    b = 0 ∨ b = wornBlock n := by
  by_contra hne
  push Not at hne
  have hlt := List.mem_range.1 (List.mem_filter.1 hb).1
  have hb' : b < totalBlocks := Nat.lt_of_lt_of_le hlt (by decide)
  have hused := mem_blocksIn hb
  rw [h.getBlockState hb', h.free hb' (hL.empty hne.1 hne.2)] at hused
  exact BlockState.noConfusion hused

/-- The block of the write cursor has one valid page, the first one has two. -/
theorem Calm.count_worn (h : Calm c L s) (hL : L.Worn n p) :
    (s.nand.blocks (wornBlock n)).validPageCnt.toNat ≤ 1 ∧
      2 ≤ (s.nand.blocks 0).validPageCnt.toNat := by
  have hb : wornBlock n < totalBlocks := Nat.lt_of_lt_of_le wornBlock_lt (by decide)
  constructor
  · have hsub : (s.nand.blocks (wornBlock n)).validPages ⊆ {p} := by
      intro q hq
      obtain ⟨hq, lpn, hl⟩ := (h.mem_validPages hb).1 hq
      rcases hL.cases hl with ⟨_, heq⟩ | ⟨_, heq⟩ | ⟨_, heq⟩
      · rw [(Prod.mk.inj (blockPageToPpn_inj hb hq hb hL.page_lt heq)).2]
        exact Finset.mem_singleton_self p
      · have hzero := (Prod.mk.inj (blockPageToPpn_inj hb hq (by decide) (by decide) heq)).1
        exact absurd hzero wornBlock_pos.ne'
      · have hzero := (Prod.mk.inj (blockPageToPpn_inj hb hq (by decide) (by decide) heq)).1
        exact absurd hzero wornBlock_pos.ne'
    rw [(h.exact hb).count]
    exact (Finset.card_le_card hsub).trans_eq (Finset.card_singleton p)
  · have hsub : {0, 255} ⊆ (s.nand.blocks 0).validPages := by
      intro q hq
      rw [h.mem_validPages (by decide)]
      rcases Finset.mem_insert.1 hq with rfl | hq
      · exact ⟨by decide, 1, hL.mapped.2.2⟩
      · rw [Finset.mem_singleton.1 hq]
        exact ⟨by decide, 0, hL.mapped.2.1⟩
    rw [(h.exact (by decide)).count]
    exact Finset.card_le_card hsub

/-- The victim of a garbage collection is the block of the write cursor. -/
theorem Calm.victim_worn (h : Calm c L s) (hL : L.Worn n p) :
    s.gcSelectVictimBlock = some (wornBlock n) := by
  have hb : wornBlock n < totalBlocks := Nat.lt_of_lt_of_le wornBlock_lt (by decide)
  obtain ⟨hone, htwo⟩ := h.count_worn hL
  have hcount {b : ℕ} (hb : b < totalBlocks) :
      s.nand.getBlockValidPageCount b = (s.nand.blocks b).validPageCnt := by
    rw [Nand.getBlockValidPageCount, if_pos (h.inv.isBlockValid hb)]
  have hlt : s.nand.getBlockValidPageCount (wornBlock n) < s.nand.getBlockValidPageCount 0 := by
    rw [hcount hb, hcount (by decide), UInt32.lt_iff_toNat_lt]
    exact Nat.lt_of_le_of_lt hone htwo
  have hmem : wornBlock n ∈ s.nand.usedBlocks := by
    have hused := h.used hL.mapped.1
    rw [ppnToBlock_mk hb hL.page_lt, ← h.getBlockState hb] at hused
    exact List.mem_filter.2 ⟨List.mem_range.2 wornBlock_lt, decide_eq_true hused⟩
  rw [gcSelectVictimBlock, h.algo]
  dsimp only
  rw [gcSelectGreedy, fewestValidPages, scan_eq hmem]
  · rw [decide_eq_true_eq, hcount hb, UInt32.lt_iff_toNat_lt]
    exact Nat.lt_of_le_of_lt hone (by decide)
  · exact decide_eq_false (UInt32.lt_irrefl _)
  · intro b hbmem hne
    obtain rfl := (h.used_worn hL hbmem).resolve_right hne
    exact ⟨decide_eq_true hlt, decide_eq_false (UInt32.lt_asymm hlt)⟩

/-- The next free block, round and round. -/
theorem Calm.next_worn (h : Calm c L s) (hL : L.Worn n p) :
    s.findNextFreeBlock ((wornBlock n + 1) % 2 ^ 32) = some (wornBlock (n + 1)) := by
  have hlt : wornBlock n < userBlocks := wornBlock_lt
  have hempty := hL.empty (wornBlock_pos (n := n + 1)).ne' wornBlock_succ_ne
  have hmod : (wornBlock n + 1) % 2 ^ 32 = wornBlock n + 1 := by
    refine Nat.mod_eq_of_lt (Nat.lt_of_le_of_lt hlt ?_)
    decide
  rw [hmod]
  by_cases hnext : wornBlock n + 1 < userBlocks
  · rw [wornBlock_succ, if_pos hnext] at hempty ⊢
    exact h.findNextFreeBlock hnext hempty
  · -- The search begins again at the first block, which is used.
    have hlast : wornBlock n + 1 = userBlocks := le_antisymm hlt (Nat.le_of_not_lt hnext)
    rw [wornBlock_succ, if_neg hnext] at hempty ⊢
    have hzero : s.nand.getBlockState 0 = .used := by
      rw [h.getBlockState (by decide)]
      have hused := h.used hL.mapped.2.1
      rwa [ppnToBlock_mk (by decide) (by decide)] at hused
    have hone : s.nand.getBlockState 1 = .free := by
      rw [h.getBlockState (by decide), h.free (by decide) hempty]
    rw [Ftl.findNextFreeBlock, hlast]
    change List.find? _ (0 :: 1 :: List.range' 2 118) = _
    rw [List.find?_cons_of_neg (by simp [hzero]), List.find?_cons_of_pos (by simp [hone])]

/-- A device that is being worn out has its contents. -/
theorem Calm.inv_worn (h : Calm c L s) (hL : L.Worn n p) : Inv ∅ c s := by
  have hb : wornBlock n < totalBlocks := Nat.lt_of_lt_of_le wornBlock_lt (by decide)
  refine h.unpark (hL.block ▸ hb) (hL.page ▸ hL.page_lt) fun q hq hlt lpn hl => ?_
  rw [hL.page] at hq
  rw [hL.block] at hl
  rcases hL.cases hl with ⟨_, heq⟩ | ⟨_, heq⟩ | ⟨_, heq⟩
  · exact Nat.ne_of_gt hq (Prod.mk.inj (blockPageToPpn_inj hb hlt hb hL.page_lt heq)).2
  · exact wornBlock_pos.ne'
      (Prod.mk.inj (blockPageToPpn_inj hb hlt (by decide) (by decide) heq)).1
  · exact wornBlock_pos.ne'
      (Prod.mk.inj (blockPageToPpn_inj hb hlt (by decide) (by decide) heq)).1

/-- One more garbage collection. -/
theorem Calm.triggerGc_worn (h : Calm c L s) (hL : L.Worn n p) (hn : n < 20000) :
    ∃ L' s', s.triggerGc = (.ok, s') ∧ L'.Worn (n + 1) 0 ∧ Calm c L' s' := by
  have hb : wornBlock n < totalBlocks := Nat.lt_of_lt_of_le wornBlock_lt (by decide)
  have hb' : wornBlock (n + 1) < totalBlocks := Nat.lt_of_lt_of_le wornBlock_lt (by decide)
  have hsole : ∀ lpn ppn, L.table lpn = some ppn → ppnToBlock ppn = wornBlock n → lpn = 2 := by
    intro lpn ppn hl hblock
    rcases hL.block_of_mapped hl with ⟨_, hlpn⟩ | hzero
    · exact hlpn
    · exact absurd (hblock.symm.trans hzero) wornBlock_pos.ne'
  have herases : L.erases (wornBlock n) ≤ getEraseThreshold .tlc := by
    rw [hL.erases _ wornBlock_lt, UInt32.le_iff_toNat_le, UInt32.toNat_ofNat', wornCount,
      if_neg wornBlock_pos.ne']
    change _ ≤ 1000
    omega
  obtain ⟨L', s', hgc, hL', h', _⟩ := h.triggerGc_walk (h.inv_worn hL) hb hb' hL.page_lt
    wornBlock_succ_ne hL.mapped.1 hL.block hL.page hsole (h.victim_worn hL) (h.next_worn hL)
    (hL.empty wornBlock_pos.ne' wornBlock_succ_ne) herases
  refine ⟨L', s', hgc, ⟨?_, by decide, hL'.block, hL'.page, fun i hi => ?_, ?_⟩, h'⟩
  · rw [hL'.table, hL.table, Function.update_idem]
  · rw [hL'.erases, wornCount_succ hi, Function.update_apply]
    split
    · next heq => rw [hL.erases _ wornBlock_lt, heq, UInt32.ofNat_add]; rfl
    · rw [hL.erases i hi, Nat.add_zero]
  · rw [hL'.sinceCheck, hL.sinceCheck]

variable {allowed : Call → Prop}

/-- Some garbage collections. -/
theorem Reached.collect (h : Reached allowed c L s) (hgc : allowed .triggerGc) (hL : L.Worn 0 p)
    (k : ℕ) (hk : k < 20000) : ∃ L' s', Reached allowed c L' s' ∧ L'.Worn (k + 1) 0 := by
  have hstep {L : Layout} {s : Ftl} {n p : ℕ} (h : Reached allowed c L s) (hL : L.Worn n p)
      (hn : n < 20000) : ∃ L' s', Reached allowed c L' s' ∧ L'.Worn (n + 1) 0 := by
    obtain ⟨L', s', htrigger, hL', h'⟩ := h.calm.triggerGc_worn hL hn
    refine ⟨L', s', h.step (a := ⟨.ok, none⟩) hgc 0 ?_ h', hL'⟩
    rw [exec, htrigger]
    rfl
  induction k with
  | zero => exact hstep h hL hk
  | succ k ih =>
    obtain ⟨L₁, s₁, h₁, hL₁⟩ := ih (Nat.lt_of_succ_lt hk)
    exact hstep h₁ hL₁ hk

/-- The writes before the garbage collections: of the logical page 1 once, of the logical page 0 to
    the rest of the first block, and of the logical page 2, so that there are two more writes to
    the next static wear check. -/
theorem exists_unworn (hwrite : ∀ lpn buf, allowed (.write lpn buf)) :
    ∃ c L s, Reached allowed c L s ∧ L.Worn 0 229 := by
  obtain ⟨s₀, h₀⟩ := Reached.fresh allowed
  have hun₀ : Layout.fresh.Behind := fun lpn ppn hl => absurd hl.symm (Option.some_ne_none _)
  -- Three fills: one write of page 1, 255 of page 0, and 742 of page 2.
  set L₁ := Layout.fresh.fill 1 1
  obtain ⟨hcursor₁, hpage₁⟩ := Layout.fill_cursor (L := .fresh) 1 1 (by decide)
  change L₁.cursor = 1 at hcursor₁
  have hun₁ : L₁.Behind := Layout.fill_behind 1 1 (by decide) (by decide) hun₀
  have htable₁ : L₁.table = Function.update (fun _ => none) 1 (some 0) :=
    Layout.fill_table (by decide)
  obtain ⟨c₁, s₁, h₁⟩ := h₀.fill hwrite 1 1 (by decide) (by decide) (by decide) hun₀ (by decide)
    (fun _ _ => rfl) blankPage
  set L₂ := L₁.fill 0 255
  obtain ⟨hcursor₂, hpage₂⟩ := Layout.fill_cursor (L := L₁) 0 255 hpage₁
  rw [hcursor₁] at hcursor₂
  have hun₂ : L₂.Behind := Layout.fill_behind 0 255 hpage₁ (by rw [hcursor₁]; decide) hun₁
  have htable₂ : L₂.table = Function.update L₁.table 0 (some 255) := by
    rw [Layout.fill_table (by rw [hcursor₁]; decide), hcursor₁]
  obtain ⟨c₂, s₂, h₂⟩ := h₁.fill hwrite 0 255 (by decide) hpage₁ (by rw [hcursor₁]; decide) hun₁
    (by decide) (fun _ _ => rfl) blankPage
  set L₃ := L₂.fill 2 742
  have htable₃ : L₃.table = Function.update L₂.table 2 (some 997) := by
    rw [Layout.fill_table (by rw [hcursor₂]; decide), hcursor₂]
  have hsince₂ : L₂.sinceCheck = 256 := by
    rw [Layout.fill_sinceCheck, Layout.fill_sinceCheck]
    rfl
  have hsince₃ : L₃.sinceCheck = 998 := by
    rw [Layout.fill_sinceCheck, hsince₂]
    rfl
  have herases₂ : L₂.erases = fun _ => 0 := by
    rw [Layout.fill_erases, Layout.fill_erases]
    rfl
  have herases₃ : L₃.erases = fun _ => 0 := by
    rw [Layout.fill_erases, herases₂]
  obtain ⟨c₃, s₃, h₃⟩ := h₂.fill hwrite 2 742 (by decide) hpage₂ (by rw [hcursor₂]; decide) hun₂
    (by rw [hsince₂]; decide) (fun b _ => by rw [herases₂]) blankPage
  have hlast : L₃.block = ppnToBlock (L₂.cursor + 741) ∧
      L₃.page = ppnToPage (L₂.cursor + 741) + 1 := ⟨rfl, rfl⟩
  rw [hcursor₂] at hlast
  refine ⟨c₃, L₃, s₃, h₃, ⟨?_, by decide, hlast.1, hlast.2, fun i hi => ?_, hsince₃⟩⟩
  · rw [htable₃, htable₂, htable₁]
    rfl
  · have hzero : wornCount 0 i = 0 := by
      rw [wornCount]
      split
      · rfl
      · omega
    rw [herases₃, hzero]
    rfl

/-- A device whose blocks have all been erased 101 times, but for the first one. The write cursor
    is in the fourth block again. -/
structure Layout.Uneven (L : Layout) : Prop where
  table : L.table = Function.update (Function.update (Function.update (fun _ => none) 1
    (some (blockPageToPpn 0 0))) 0 (some (blockPageToPpn 0 255))) 2 (some (blockPageToPpn 3 0))
  block : L.block = 3
  page : L.page = 1
  erases : ∀ i < userBlocks, L.erases i = if i = 0 then 0 else 101
  sinceCheck : L.sinceCheck = 998

/-- Such a device is reached by writes and garbage collections. -/
theorem exists_uneven (hwrite : ∀ lpn buf, allowed (.write lpn buf)) (hgc : allowed .triggerGc) :
    ∃ c L s, Reached allowed c L s ∧ L.Uneven := by
  obtain ⟨c, L, s, h, hL⟩ := exists_unworn hwrite
  obtain ⟨L', s', h', hL'⟩ := h.collect hgc hL (101 * 119 - 1) (by decide)
  refine ⟨c, L', s', h', hL'.table, hL'.block, hL'.page, fun i hi => ?_, hL'.sinceCheck⟩
  have hcount : wornCount (101 * 119) i = if i = 0 then 0 else 101 := by
    rw [wornCount]
    refine if_congr Iff.rfl rfl ?_
    omega
  rw [hL'.erases i hi, hcount]
  split <;> rfl

end Worn

end Ftl

end FtlFirmware
