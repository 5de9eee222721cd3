import FtlFirmware.Ftl.Levelling
import FtlFirmware.Ftl.System

/-!
# The victims of the garbage collection

A victim is to be found whenever some block of the user area is used, it is to be such a block,
and for the greedy algorithm and FRA one with the fewest valid pages, as counted (`Selects`). The
four algorithms that compute with integers meet this exactly if their scans can see a block
(`Scannable`, `ChoicesFit`) and, for the windowed one, if the window, which goes along with the
write cursor into the reserved area, has no better block there (`WindowFit`), and the search through
it ends: there is a number behind the cursor (`answers_iff`).
-/

namespace FtlFirmware

namespace Ftl

variable {s : Ftl} {l : List ℕ} {b victim : ℕ}

/-- A block of the user area is used. -/
def UserUsed (s : Ftl) (b : ℕ) : Prop := b < userBlocks ∧ s.nand.getBlockState b = .used

theorem mem_usedBlocks : b ∈ s.nand.usedBlocks ↔ s.UserUsed b := by
  simp [UserUsed, Nand.usedBlocks, Nand.blocksIn]

/-- The answer of a selection is sound and complete. -/
structure Selected (s : Ftl) (victim : Option ℕ) : Prop where
  found : victim.isSome ↔ ∃ b, s.UserUsed b
  used : ∀ v, victim = some v → s.UserUsed v

/-- The selection of the victim ends, with this answer. -/
def Answers (s : Ftl) (victim : Option ℕ) : Prop := ∃ fuel, s.gcSelectExec fuel = some victim

/-- The answer of the greedy algorithm and FRA has the fewest valid pages, as counted. -/
def Fewest (s : Ftl) (victim : Option ℕ) : Prop :=
  s.gcAlgo = .greedy ∨ s.gcAlgo = .fra → ∀ v, victim = some v →
    ∀ b, s.UserUsed b → s.nand.getBlockValidPageCount v ≤ s.nand.getBlockValidPageCount b

/-- The selection of the victim ends, its answer is sound and complete, and for the greedy algorithm
    and FRA the victim has the fewest valid pages, as counted. -/
def Selects (s : Ftl) : Prop := ∃ victim, s.Answers victim ∧ s.Selected victim ∧ s.Fewest victim

/-! ## When the algorithms meet this -/

/-- Unless no block of the user area is used, some used one has a count that is in range. -/
def Scannable (s : Ftl) : Prop :=
  ∀ b, s.UserUsed b → ∃ u, s.UserUsed u ∧ s.nand.getBlockValidPageCount u ≤ 256

/-- The window of the windowed algorithm. -/
def InWindow (s : Ftl) (b : ℕ) : Prop := s.curWriteBlock - gcWindowSize ≤ b ∧ b ≤ s.curWriteBlock

/-- No used block that the window has in the reserved area has fewer valid pages, as counted,
    than all those that it has in the user area. -/
def WindowFit (s : Ftl) : Prop :=
  ∀ r, userBlocks ≤ r → s.InWindow r → s.nand.getBlockState r = .used →
    s.nand.getBlockValidPageCount r ≤ 256 → ∃ u, s.InWindow u ∧ s.UserUsed u ∧
      s.nand.getBlockValidPageCount u ≤ s.nand.getBlockValidPageCount r

/-- One of the used blocks at the indices that the number of collections chooses has a count that
    is in range. -/
def ChoicesFit (s : Ftl) : Prop :=
  ∃ i < gcDChoicesD, ∃ u ∈ s.nand.usedBlocks[
    (s.gcCount * 7 + i.toUInt32 * 13).toNat % s.nand.usedBlocks.length]?,
    s.nand.getBlockValidPageCount u ≤ 256

/-- The condition for each of the algorithms. -/
def SelectionFit (s : Ftl) : Prop :=
  match s.gcAlgo with
  | .windowed => s.curWriteBlock + 1 < 2 ^ 32 ∧ s.Scannable ∧ s.WindowFit
  | .dChoices => if s.nand.usedBlocks.length < gcDChoicesD then s.Scannable else s.ChoicesFit
  | _ => s.Scannable

/-! ## The scan for the fewest valid pages -/

/-- A count is below the bound of the scan if it is in range. -/
theorem count_lt {c : UInt32} : c < 257 ↔ c ≤ 256 := by
  rw [UInt32.lt_iff_toNat_lt, UInt32.le_iff_toNat_le]
  exact Nat.lt_succ_iff

/-- The scan finds a block if one has a count that is in range. -/
theorem fewestValidPages_isSome :
    (s.fewestValidPages l).isSome ↔ ∃ b ∈ l, s.nand.getBlockValidPageCount b ≤ 256 := by
  rw [fewestValidPages, scan_isSome]
  simp only [decide_eq_true_eq, count_lt]

/-- No block has fewer valid pages, as counted, than the one found. -/
theorem fewestValidPages_le (hv : s.fewestValidPages l = some victim) (hb : b ∈ l) :
    s.nand.getBlockValidPageCount victim ≤ s.nand.getBlockValidPageCount b := by
  have hbest := (ranks_lt.scan_best s.nand.getBlockValidPageCount 257 l).2 b hb
  rw [scan_score hv, decide_eq_false_iff_not] at hbest
  exact UInt32.not_lt.1 hbest

/-- The block found has a count that is in range. -/
theorem fewestValidPages_count (hv : s.fewestValidPages l = some victim) :
    s.nand.getBlockValidPageCount victim ≤ 256 := by
  obtain ⟨b, hb, hcount⟩ := fewestValidPages_isSome.1 (Option.isSome_of_eq_some hv)
  exact UInt32.le_trans (fewestValidPages_le hv hb) hcount

/-! ## The loop of the windowed algorithm -/

/-- The loop ends when it has been through the window, if there is a number behind it. -/
theorem windowLoop_eq (hlast : s.curWriteBlock + 1 < 2 ^ 32) {fuel n : ℕ} {i : UInt32}
    (hn : i.toNat + n = s.curWriteBlock + 1) (best : UInt32 × Option ℕ) :
    s.windowLoop fuel i best = if n < fuel then
      some ((s.nand.blocksIn .used (List.range' i.toNat n)).foldl
        (scanStep (fun a b => decide (a < b)) s.nand.getBlockValidPageCount) best).2
    else none := by
  induction fuel generalizing i n best with
  | zero => rfl
  | succ fuel ih =>
    rw [windowLoop]
    cases n with
    | zero =>
      rw [if_neg (by omega), if_pos (Nat.succ_pos fuel)]
      rfl
    | succ n =>
      have hnext : (i + 1).toNat = i.toNat + 1 := by
        rw [UInt32.toNat_add]
        exact Nat.mod_eq_of_lt (by rw [UInt32.toNat_one]; omega)
      rw [if_pos (by omega), ih (n := n) (by omega), hnext]
      simp only [Nat.succ_lt_succ_iff, List.range'_succ, Nand.blocksIn, List.filter_cons]
      by_cases hused : s.nand.getBlockState i.toNat = .used
      · simp [hused]
      · simp [hused]

/-- Otherwise it goes on for ever. -/
theorem windowLoop_eq_none (hlast : 2 ^ 32 ≤ s.curWriteBlock + 1) (fuel : ℕ) (i : UInt32)
    (best : UInt32 × Option ℕ) : s.windowLoop fuel i best = none := by
  induction fuel generalizing i best with
  | zero => rfl
  | succ fuel ih =>
    have hlt := i.toNat_lt
    rw [windowLoop, if_pos (by omega), ih]

/-! ## The algorithms -/

/-- The greedy algorithm. -/
theorem selected_greedy : s.Selected s.gcSelectGreedy ↔ s.Scannable := by
  have hsome : s.gcSelectGreedy.isSome ↔
      ∃ u, s.UserUsed u ∧ s.nand.getBlockValidPageCount u ≤ 256 := by
    rw [gcSelectGreedy, fewestValidPages_isSome]
    simp only [mem_usedBlocks]
  constructor
  · intro h b hb
    exact hsome.1 (h.found.2 ⟨b, hb⟩)
  · intro h
    refine ⟨⟨fun hv => ?_, fun hused => hused.elim fun b hb => hsome.2 (h b hb)⟩, fun v hv => ?_⟩
    · obtain ⟨u, hu, _⟩ := hsome.1 hv
      exact ⟨u, hu⟩
    · exact mem_usedBlocks.1 (scan_mem hv)

/-- The FRA algorithm. -/
theorem selected_fra : s.Selected s.gcSelectFra ↔ s.Scannable := by
  rw [gcSelectFra]
  cases hfind : s.nand.usedBlocks.find? fun i => s.nand.getBlockValidPageCount i = 0 with
  | none => exact selected_greedy
  | some v =>
    have hv := mem_usedBlocks.1 (List.mem_of_find?_eq_some hfind)
    have hzero : s.nand.getBlockValidPageCount v = 0 := by
      simpa using List.find?_some hfind
    refine iff_of_true ⟨iff_of_true rfl ⟨v, hv⟩, fun u hu => ?_⟩ fun b hb => ⟨v, hv, ?_⟩
    · rwa [← Option.some_inj.1 hu]
    · rw [hzero]
      decide

/-- No used block has fewer valid pages, as counted, than the victim of FRA. -/
theorem fra_le (hv : s.gcSelectFra = some victim) (hb : s.UserUsed b) :
    s.nand.getBlockValidPageCount victim ≤ s.nand.getBlockValidPageCount b := by
  rw [gcSelectFra] at hv
  split at hv
  · next hfind =>
    have hzero : s.nand.getBlockValidPageCount victim = 0 := by
      simpa using List.find?_some (hfind.trans hv)
    rw [hzero, UInt32.le_iff_toNat_le]
    exact Nat.zero_le _
  · exact fewestValidPages_le hv (mem_usedBlocks.2 hb)

/-- The d-choices algorithm, if there are enough used blocks. -/
theorem selected_dChoices (hlen : gcDChoicesD ≤ s.nand.usedBlocks.length) :
    s.Selected s.gcSelectDChoices ↔ s.ChoicesFit := by
  have hpos : 0 < s.nand.usedBlocks.length := Nat.lt_of_lt_of_le (by decide) hlen
  -- The indices are in range, so the blocks chosen are used ones.
  have hindex (i : ℕ) : ∃ u, s.nand.usedBlocks[
      (s.gcCount * 7 + i.toUInt32 * 13).toNat % s.nand.usedBlocks.length]? = some u ∧
      s.nand.usedBlocks.getD ((s.gcCount * 7 + i.toUInt32 * 13).toNat %
        s.nand.usedBlocks.length) 0 = u ∧ u ∈ s.nand.usedBlocks := by
    have hget := List.getElem?_eq_getElem
      (Nat.mod_lt (s.gcCount * 7 + i.toUInt32 * 13).toNat hpos)
    refine ⟨_, hget, ?_, List.getElem_mem _⟩
    rw [List.getD_eq_getElem?_getD, hget]
    rfl
  have hchoice : s.gcSelectDChoices = s.fewestValidPages ((List.range gcDChoicesD).map fun i =>
      s.nand.usedBlocks.getD ((s.gcCount * 7 + i.toUInt32 * 13).toNat %
        s.nand.usedBlocks.length) 0) := by
    rw [gcSelectDChoices, if_neg (Nat.not_lt.2 hlen)]
  have hused (v : ℕ) (hv : s.gcSelectDChoices = some v) : s.UserUsed v := by
    rw [hchoice] at hv
    obtain ⟨i, _, rfl⟩ := List.mem_map.1 (scan_mem hv)
    obtain ⟨u, _, hu, hmem⟩ := hindex i
    rw [hu]
    exact mem_usedBlocks.1 hmem
  have hsome : s.gcSelectDChoices.isSome ↔ s.ChoicesFit := by
    rw [hchoice, fewestValidPages_isSome, ChoicesFit]
    simp only [List.mem_map, exists_exists_and_eq_and, List.mem_range]
    refine exists_congr fun i => and_congr_right fun _ => ?_
    obtain ⟨u, hget, hu, _⟩ := hindex i
    rw [hget, hu]
    simp
  rw [← hsome]
  constructor
  · intro h
    exact h.found.2 ⟨_, mem_usedBlocks.1 (List.getElem_mem hpos)⟩
  · intro h
    obtain ⟨v, hv⟩ := Option.isSome_iff_exists.1 h
    exact ⟨iff_of_true h ⟨v, hused v hv⟩, hused⟩

/-- The used blocks of the window, in order. -/
def window (s : Ftl) : List ℕ :=
  s.nand.blocksIn .used (List.range' (s.curWriteBlock - gcWindowSize)
    (s.curWriteBlock + 1 - (s.curWriteBlock - gcWindowSize)))

theorem mem_window : b ∈ s.window ↔ s.InWindow b ∧ s.nand.getBlockState b = .used := by
  simp only [window, Nand.blocksIn, List.mem_filter, List.mem_range'_1, decide_eq_true_eq,
    InWindow]
  refine and_congr_left fun _ => and_congr_right fun _ => ?_
  omega

/-- The block found in the window is one of the user area, unless it shows that the window has a
    better block in the reserved area. -/
theorem window_user (hv : s.fewestValidPages s.window = some victim) (h : s.WindowFit) :
    s.UserUsed victim := by
  obtain ⟨hwin, hused⟩ := mem_window.1 (scan_mem hv)
  refine ⟨Nat.lt_of_not_le fun hle => ?_, hused⟩
  obtain ⟨u, hu, huser, hcount⟩ := h victim hle hwin hused (fewestValidPages_count hv)
  -- The block of the user area comes before the one found, which must beat it.
  obtain ⟨l₁, l₂, hl, hfirst⟩ := ranks_lt.scan_first hv
  have hsorted : s.window.Pairwise (· < ·) := (List.pairwise_lt_range' _).filter _
  rw [hl, List.pairwise_append, List.pairwise_cons] at hsorted
  have hafter : ∀ j ∈ l₂, victim < j := hsorted.2.1.1
  have hmem : u ∈ l₁ := by
    have hu' := mem_window.2 ⟨hu, huser.2⟩
    rw [hl, List.mem_append, List.mem_cons] at hu'
    rcases hu' with hu' | hu' | hu'
    · exact hu'
    · exact absurd (hu' ▸ huser.1) (Nat.not_lt.2 hle)
    · exact absurd (huser.1.trans_le hle) (Nat.lt_asymm (hafter u hu'))
  have hlt := hfirst u hmem
  rw [decide_eq_true_eq] at hlt
  exact absurd hlt (UInt32.not_lt.2 hcount)

/-- The windowed algorithm prefers a block of the window. -/
theorem gcSelectWindowed_eq :
    s.gcSelectWindowed = (s.fewestValidPages s.window).or s.gcSelectGreedy := by
  unfold gcSelectWindowed
  dsimp only
  split
  · next hv => rw [window, hv, Option.some_or]
  · next hnone => rw [window, hnone, Option.none_or]

/-- The windowed algorithm. -/
theorem selected_windowed : s.Selected s.gcSelectWindowed ↔ s.Scannable ∧ s.WindowFit := by
  rw [gcSelectWindowed_eq]
  cases hv : s.fewestValidPages s.window with
  | none =>
    rw [Option.none_or]
    -- Nothing in the window has a count that is in range.
    refine selected_greedy.trans (and_iff_left fun r hr hwin hused hcount => ?_).symm
    have := fewestValidPages_isSome.2 ⟨r, mem_window.2 ⟨hwin, hused⟩, hcount⟩
    rw [hv] at this
    exact absurd this Bool.false_ne_true
  | some v =>
    rw [Option.some_or]
    constructor
    · intro h
      have huser := h.used v rfl
      refine ⟨fun b _ => ⟨v, huser, fewestValidPages_count hv⟩, fun r _ hwin hused hcount => ?_⟩
      exact ⟨v, (mem_window.1 (scan_mem hv)).1, huser,
        fewestValidPages_le hv (mem_window.2 ⟨hwin, hused⟩)⟩
    · rintro ⟨_, hfit⟩
      have huser := window_user hv hfit
      refine ⟨iff_of_true rfl ⟨v, huser⟩, fun u hu => ?_⟩
      rwa [← Option.some_inj.1 hu]

/-- The selection ends unless no number is behind the cursor of the windowed algorithm. -/
theorem answers_iff {answer : Option ℕ} : s.Answers answer ↔
    (s.gcAlgo = .windowed → s.curWriteBlock + 1 < 2 ^ 32) ∧ answer = s.gcSelectVictimBlock := by
  simp only [Answers, gcSelectExec]
  by_cases halgo : s.gcAlgo = .windowed
  · simp only [if_pos halgo, forall_prop_of_true halgo]
    by_cases hlast : s.curWriteBlock + 1 < 2 ^ 32
    · have hstart : (UInt32.ofNat (s.curWriteBlock - gcWindowSize)).toNat =
          s.curWriteBlock - gcWindowSize := by
        rw [UInt32.toNat_ofNat']
        exact Nat.mod_eq_of_lt (by omega)
      have hvictim : s.gcSelectVictimBlock =
          (s.fewestValidPages s.window).or s.gcSelectGreedy := by
        rw [gcSelectVictimBlock, halgo, ← gcSelectWindowed_eq]
      have hloop (fuel : ℕ) : s.windowLoop fuel
          (UInt32.ofNat (s.curWriteBlock - gcWindowSize)) (257, none) =
          if s.curWriteBlock + 1 - (s.curWriteBlock - gcWindowSize) < fuel then
            some (s.fewestValidPages s.window)
          else none := by
        have hn : (UInt32.ofNat (s.curWriteBlock - gcWindowSize)).toNat +
            (s.curWriteBlock + 1 - (s.curWriteBlock - gcWindowSize)) = s.curWriteBlock + 1 := by
          rw [hstart]
          omega
        rw [windowLoop_eq hlast hn, hstart]
        rfl
      rw [and_iff_right hlast, hvictim]
      constructor
      · rintro ⟨fuel, h⟩
        rw [hloop] at h
        split_ifs at h
        · exact (Option.some.inj h).symm
        · cases h
      · rintro rfl
        exact ⟨_, by rw [hloop, if_pos (Nat.lt_succ_self _)]; rfl⟩
    · refine iff_of_false ?_ fun h => hlast h.1
      rintro ⟨fuel, h⟩
      rw [windowLoop_eq_none (Nat.le_of_not_lt hlast)] at h
      cases h
  · simp only [if_neg halgo, Option.some.injEq, exists_const]
    exact ⟨fun h => ⟨fun heq => absurd heq halgo, h.symm⟩, fun h => h.2.symm⟩

/-- The victims of the greedy algorithm and of FRA have the fewest valid pages, as counted. -/
theorem fewest_gcSelectVictimBlock : s.Fewest s.gcSelectVictimBlock := by
  rintro halgo v hv b hb
  rw [gcSelectVictimBlock] at hv
  rcases halgo with halgo | halgo
  · rw [halgo] at hv
    exact fewestValidPages_le hv (mem_usedBlocks.2 hb)
  · rw [halgo] at hv
    exact fra_le hv hb

/-- The selection of the victim ends, and is sound and complete, exactly if the condition for the
    algorithm holds, for the algorithms that compute with integers. -/
theorem selects_iff (s : Ftl) (hcost : s.gcAlgo ≠ .costBenefit) (hcat : s.gcAlgo ≠ .cat) :
    s.Selects ↔ s.SelectionFit := by
  have hselects : s.Selects ↔ (s.gcAlgo = .windowed → s.curWriteBlock + 1 < 2 ^ 32) ∧
      s.Selected s.gcSelectVictimBlock := by
    simp only [Selects, answers_iff]
    constructor
    · rintro ⟨_, ⟨hends, rfl⟩, hselected, -⟩
      exact ⟨hends, hselected⟩
    · rintro ⟨hends, hselected⟩
      exact ⟨_, ⟨hends, rfl⟩, hselected, fewest_gcSelectVictimBlock⟩
  rw [hselects, gcSelectVictimBlock, SelectionFit]
  cases halgo : s.gcAlgo with
  | greedy => simpa using selected_greedy
  | costBenefit => exact absurd halgo hcost
  | cat => exact absurd halgo hcat
  | windowed => simpa using and_congr_right fun _ => selected_windowed
  | dChoices =>
    have hne : GcAlgo.dChoices = .windowed → s.curWriteBlock + 1 < 2 ^ 32 := by simp
    rw [and_iff_right hne]
    dsimp only
    split
    · next hlen =>
      rw [gcSelectDChoices, if_pos hlen]
      exact selected_greedy
    · next hlen => exact selected_dChoices (Nat.not_lt.1 hlen)
  | fra => simpa using selected_fra

/-- A device whose only used block has one valid page. -/
theorem selects_erasedTwice : erasedTwice.Selects ∧ erasedTwice.Answers (some 0) := by
  refine ⟨(selects_iff _ (by decide) (by decide)).2 fun b _ => ⟨0, ?_, by decide⟩, 0, ?_⟩
  · exact ⟨by decide, rfl⟩
  · decide +kernel

/-- The replacement of the block of the write cursor takes the window of the windowed algorithm to
    the reserved area, where it finds a victim although no block of the user area is used. -/
theorem not_selects : ∃ (s s' : Ftl) (tr : List (Call × Answer)), Fresh s ∧
    Run Machine.anyCall s tr s' ∧ s'.gcAlgo = .windowed ∧ s'.Answers (some 120) ∧
    ¬ s'.Selects := by
  have heq : (execAll 0 [.write 0 blankPage, .setGcAlgo .windowed, .replaceBadBlock 0]
      (powerOn (fun _ => 99) fun _ => none).2).map (fun r =>
        (r.2.gcAlgo, r.2.gcSelectExec 34)) = some (.windowed, some (some 120)) := by
    decide +kernel
  obtain ⟨⟨tr, s⟩, hexec, hs⟩ := Option.map_eq_some_iff.1 heq
  obtain ⟨halgo, hvictim⟩ := Prod.mk.inj hs
  have hanswers : s.Answers (some 120) := ⟨34, hvictim⟩
  refine ⟨_, s, tr, ⟨fun _ => 99, fun _ => none, Prod.ext rfl rfl⟩,
    execAll_run (fun _ _ => True.intro) hexec, halgo, hanswers, fun h => ?_⟩
  obtain ⟨answer, hanswer, hselected, -⟩ := h
  rw [(answers_iff.1 hanswer).2, ← (answers_iff.1 hanswers).2] at hselected
  have := (hselected.used 120 rfl).1
  exact absurd this (by decide)

end Ftl

end FtlFirmware
