import FtlFirmware.Ftl.Evacuate

/-!
# The direction of the static wear levelling

The static wear levelling is to move a used block that has been erased often to a free block that
has been erased less often, by more than a threshold (`Uneven`). It compares the largest erase
count of the used blocks with the smallest one of the free blocks by a difference of unsigned
numbers, which wraps around when every free block has been erased more often than every used one.
The block is then moved the other way (`Reversed`), and in no other case
(`staticWearLevelingCheck_direction`).
-/

namespace FtlFirmware

namespace Ftl

variable {n : Nand} {s : Ftl} {src dst : ℕ}

/-- A used block has been erased more often than a free block, by more than the threshold. -/
def Uneven (n : Nand) : Prop :=
  ∃ u ∈ n.usedBlocks, ∃ f ∈ n.freeBlocks,
    (n.getBlockEraseCount f).toNat + staticWearThreshold.toNat < (n.getBlockEraseCount u).toNat

/-- Every free block has been erased more often than every used block, and the difference of the
    counts that are the closest to each other wraps to one above the threshold. -/
structure Reversed (n : Nand) : Prop where
  used : ∃ u ∈ n.usedBlocks, 0 < n.getBlockEraseCount u
  free : ∃ f ∈ n.freeBlocks, n.getBlockEraseCount f < 0xFFFFFFFF
  above : ∀ u ∈ n.usedBlocks, ∀ f ∈ n.freeBlocks, n.getBlockEraseCount u < n.getBlockEraseCount f
  near : ∃ u ∈ n.usedBlocks, ∃ f ∈ n.freeBlocks, (n.getBlockEraseCount f).toNat +
    staticWearThreshold.toNat < 2 ^ 32 + (n.getBlockEraseCount u).toNat

/-- A smaller count is better. -/
theorem ranks_lt : Ranks fun a b : UInt32 => decide (a < b) where
  asymm a b h := by
    simp only [decide_eq_true_eq, decide_eq_false_iff_not, UInt32.lt_iff_toNat_lt] at *
    omega
  negTrans a b c h := by
    simp only [decide_eq_true_eq, UInt32.lt_iff_toNat_lt] at *
    omega

/-- A larger count is better. -/
theorem ranks_gt : Ranks fun a b : UInt32 => decide (b < a) where
  asymm a b h := ranks_lt.asymm b a h
  negTrans a b c h := (ranks_lt.negTrans c b a h).symm

/-! ## The extreme counts -/

/-- The largest erase count of the used blocks, with the block that has it. -/
def worn (n : Nand) : UInt32 × Option ℕ :=
  scan (fun a b => decide (b < a)) n.getBlockEraseCount 0 n.usedBlocks

/-- The smallest erase count of the free blocks, with the block that has it. -/
def unworn (n : Nand) : UInt32 × Option ℕ :=
  scan (fun a b => decide (a < b)) n.getBlockEraseCount 0xFFFFFFFF n.freeBlocks

/-- A used block is found if one has been erased. -/
theorem worn_isSome : (worn n).2.isSome ↔ ∃ u ∈ n.usedBlocks, 0 < n.getBlockEraseCount u := by
  rw [worn, scan_isSome]
  simp only [decide_eq_true_eq]

/-- A free block is found if the count of one is below the largest number. -/
theorem unworn_isSome :
    (unworn n).2.isSome ↔ ∃ f ∈ n.freeBlocks, n.getBlockEraseCount f < 0xFFFFFFFF := by
  rw [unworn, scan_isSome]
  simp only [decide_eq_true_eq]

/-- A block is moved if both extremes are found, and their difference exceeds the threshold. -/
theorem staticWearPair_isSome : (staticWearPair n).isSome ↔
    staticWearThreshold < (worn n).1 - (unworn n).1 ∧ (worn n).2.isSome ∧ (unworn n).2.isSome := by
  rw [staticWearPair]
  dsimp only [worn, unworn]
  split
  · next hdiff =>
    rw [and_iff_right hdiff]
    cases (scan (fun a b => decide (b < a)) n.getBlockEraseCount 0 n.usedBlocks).2 <;>
      cases (scan (fun a b => decide (a < b)) n.getBlockEraseCount 0xFFFFFFFF n.freeBlocks).2 <;>
      simp
  · next hdiff => simp [hdiff]

/-- No used block has been erased more often than the largest count says. -/
theorem le_worn {u : ℕ} (hu : u ∈ n.usedBlocks) :
    (n.getBlockEraseCount u).toNat ≤ (worn n).1.toNat := by
  have := (ranks_gt.scan_best n.getBlockEraseCount 0 n.usedBlocks).2 u hu
  rw [decide_eq_false_iff_not, UInt32.lt_iff_toNat_lt] at this
  exact Nat.le_of_not_lt this

/-- No free block has been erased less often than the smallest count says. -/
theorem unworn_le {f : ℕ} (hf : f ∈ n.freeBlocks) :
    (unworn n).1.toNat ≤ (n.getBlockEraseCount f).toNat := by
  have := (ranks_lt.scan_best n.getBlockEraseCount 0xFFFFFFFF n.freeBlocks).2 f hf
  rw [decide_eq_false_iff_not, UInt32.lt_iff_toNat_lt] at this
  exact Nat.le_of_not_lt this

/-- Comparing some used block with some free block is comparing the extremes. -/
theorem uneven_iff {u f : ℕ} (hu : (worn n).2 = some u) (hf : (unworn n).2 = some f) :
    Uneven n ↔ (unworn n).1.toNat + staticWearThreshold.toNat < (worn n).1.toNat := by
  constructor
  · rintro ⟨u', hu', f', hf', hlt⟩
    have hle := le_worn hu'
    have hge := unworn_le hf'
    omega
  · intro hlt
    refine ⟨u, scan_mem hu, f, scan_mem hf, ?_⟩
    rwa [← scan_score hu, ← scan_score hf]

/-- The blocks are reversed if the extremes are. -/
theorem reversed_iff {u f : ℕ} (hu : (worn n).2 = some u) (hf : (unworn n).2 = some f) :
    Reversed n ↔ (worn n).1.toNat < (unworn n).1.toNat ∧
      (unworn n).1.toNat + staticWearThreshold.toNat < 2 ^ 32 + (worn n).1.toNat := by
  have hmax : (worn n).1 = n.getBlockEraseCount u := scan_score hu
  have hmin : (unworn n).1 = n.getBlockEraseCount f := scan_score hf
  constructor
  · intro h
    obtain ⟨u', hu', f', hf', hnear⟩ := h.near
    have hle := le_worn hu'
    have hge := unworn_le hf'
    refine ⟨?_, by omega⟩
    rw [hmax, hmin, ← UInt32.lt_iff_toNat_lt]
    exact h.above u (scan_mem hu) f (scan_mem hf)
  · rintro ⟨hlt, hnear⟩
    refine ⟨worn_isSome.1 (hu ▸ rfl), unworn_isSome.1 (hf ▸ rfl), fun u' hu' f' hf' => ?_,
      u, scan_mem hu, f, scan_mem hf, ?_⟩
    · have hle := le_worn hu'
      have hge := unworn_le hf'
      rw [UInt32.lt_iff_toNat_lt]
      omega
    · rwa [← hmax, ← hmin]

/-- A block is moved the wrong way exactly if the blocks are reversed. -/
theorem staticWearPair_reversed : (staticWearPair n).isSome ∧ ¬ Uneven n ↔ Reversed n := by
  rw [staticWearPair_isSome]
  constructor
  · rintro ⟨⟨hdiff, hworn, hunworn⟩, heven⟩
    obtain ⟨u, hu⟩ := Option.isSome_iff_exists.1 hworn
    obtain ⟨f, hf⟩ := Option.isSome_iff_exists.1 hunworn
    rw [uneven_iff hu hf] at heven
    rw [reversed_iff hu hf]
    rw [UInt32.lt_iff_toNat_lt, UInt32.toNat_sub] at hdiff
    have hmax := (worn n).1.toNat_lt
    have hmin := (unworn n).1.toNat_lt
    have hthreshold : staticWearThreshold.toNat = 100 := rfl
    omega
  · intro h
    have hworn := worn_isSome.2 h.used
    have hunworn := unworn_isSome.2 h.free
    obtain ⟨u, hu⟩ := Option.isSome_iff_exists.1 hworn
    obtain ⟨f, hf⟩ := Option.isSome_iff_exists.1 hunworn
    obtain ⟨hlt, hnear⟩ := (reversed_iff hu hf).1 h
    rw [uneven_iff hu hf]
    refine ⟨⟨?_, hworn, hunworn⟩, by omega⟩
    have hmax := (worn n).1.toNat_lt
    have hmin := (unworn n).1.toNat_lt
    rw [UInt32.lt_iff_toNat_lt, UInt32.toNat_sub]
    omega

/-! ## The direction -/

/-- Moving pages leaves the number of moves of blocks as it is. -/
theorem migratePages_staticWearCount (pages : List ℕ) (buf : PageData) (moved : UInt32) (s : Ftl) :
    (migratePages src dst buf moved pages s).2.staticWearCount = s.staticWearCount := by
  induction pages generalizing buf moved s with
  | nil => rfl
  | cons page pages ih =>
    rw [migratePages]
    split
    · exact ih buf moved s
    cases hr : s.reverseMap (blockPageToPpn src page) with
    | none => exact ih buf moved s
    | some lpn =>
      -- Written or not, a page changes the device below, the maps and the number of writes.
      have hpage : (s.migratePage src dst page lpn buf).2.2.staticWearCount = s.staticWearCount := by
        rw [migratePage]
        dsimp only
        split <;> rfl
      rw [← hpage]
      dsimp only
      split
      · next heq =>
        rw [ih, heq]
      · next heq =>
        rw [ih, heq]

/-- The static wear levelling changes the device if it moves a block. -/
theorem staticWearLevelingCheck_eq_iff :
    s.staticWearLevelingCheck = s ↔ staticWearPair s.nand = none := by
  constructor
  · intro heq
    by_contra hne
    obtain ⟨⟨src, dst⟩, hpair⟩ := Option.ne_none_iff_exists'.1 hne
    have hcount := congrArg staticWearCount heq
    rw [staticWearLevelingCheck, hpair] at hcount
    dsimp only at hcount
    rw [migratePages_staticWearCount] at hcount
    simp at hcount
  · intro hpair
    rw [staticWearLevelingCheck, hpair]

/-- The static wear levelling leaves the device as it is unless a used block has been erased
    more often than a free one, by more than the threshold; it does so exactly if the blocks are
    not reversed. -/
theorem staticWearLevelingCheck_direction (s : Ftl) :
    (¬ Uneven s.nand → s.staticWearLevelingCheck = s) ↔ ¬ Reversed s.nand := by
  rw [staticWearLevelingCheck_eq_iff, ← staticWearPair_reversed, not_and_not_right,
    Option.isSome_iff_ne_none]
  tauto

/-- A device whose first block holds a page and has been erased once, all other blocks being free
    and erased twice. -/
def erasedTwice : Ftl :=
  let s := (powerOn (fun _ => 99) fun _ => none).2
  let block := fun eraseCount : UInt32 => { PhyBlock.fresh with eraseCount := eraseCount }
  { s with
    nand := { s.nand with blocks := Function.update (fun _ => block 2) 0 ((block 1).program 0) }
    curWritePage := 1 }

/-- On this device, the static wear levelling moves the block that has been erased less often. -/
theorem not_staticWearLevelingCheck_direction :
    ¬ (¬ Uneven erasedTwice.nand → erasedTwice.staticWearLevelingCheck = erasedTwice) := by
  have hreversed : Reversed erasedTwice.nand := {
    used := ⟨0, by decide +kernel, by decide⟩
    free := ⟨1, by decide +kernel, by decide⟩
    above := by decide +kernel
    near := ⟨0, by decide +kernel, 1, by decide +kernel, by decide⟩ }
  obtain ⟨hpair, heven⟩ := staticWearPair_reversed.2 hreversed
  rw [staticWearLevelingCheck_eq_iff]
  intro h
  rw [h heven] at hpair
  exact Bool.false_ne_true hpair

end Ftl

end FtlFirmware
