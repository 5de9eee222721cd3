import FtlFirmware.Nand.Effect

/-!
# Retries

The accesses to a page with retries (`pageWriteWithRetry`, `pageReadWithRetry`). An access is tried
again as long as it fails in the way for which a retry is foreseen (`retry`): for a write, since the
page has been written already, and for a read, since it has not. Neither changes from one try to the
next, so the tries are used up (`retry_of_again`), and the block is marked as bad with all its
pages.

* `withRetry_keepsOthers_iff`: such a failure leaves the other pages of the block as they are if and
  only if none of them is valid.
-/

namespace FtlFirmware

section Retry

variable {σ : Type*} {op : σ → RetCode × σ} {again : RetCode} {s s' : σ} {ret : RetCode}

/-- Tries an operation up to `tries` times, and once more after every failure with the code `again`.
    Without a try, the answer is that all is well. -/
def retry (op : σ → RetCode × σ) (again : RetCode) : ℕ → RetCode → σ → RetCode × σ
  | 0, ret, s => (ret, s)
  | tries + 1, _, s =>
    match op s with
    | (ret, s) => if ret = again then retry op again tries ret s else (ret, s)

/-- A failure that changes nothing uses up the tries. -/
theorem retry_of_again (hop : op s = (again, s)) (tries : ℕ) (first : RetCode) :
    retry op again (tries + 1) first s = (again, s) := by
  induction tries generalizing first with
  | zero =>
    rw [retry, hop]
    exact if_pos rfl
  | succ tries ih =>
    rw [retry, hop]
    exact (if_pos rfl).trans (ih again)

end Retry

/-- The number of tries of a write (`NAND_WRITE_RETRY_COUNT`). -/
abbrev writeRetryCount : ℕ := 3

/-- The number of tries of a read (`NAND_READ_RETRY_COUNT`). -/
abbrev readRetryCount : ℕ := 3

namespace Nand

variable {n n' : Nand} {block page : ℕ} {buf : PageData}

/-- Writes a page with retries (`nand_page_write_with_retry`): a failure for good marks the block as
    bad. -/
def pageWriteWithRetry (n : Nand) (block page : ℕ) (buf : PageData) : RetCode × Nand :=
  match retry (fun n : Nand => n.pageWrite block page buf) .errOverwrite writeRetryCount .ok n with
  | (.ok, n) => (.ok, n)
  | (_, n) => (.errBadBlock, (n.markBlockBad block .wear).2)

/-- Reads a page with retries (`nand_page_read_with_retry`): a failure for good marks the block as
    bad. -/
def pageReadWithRetry (n : Nand) (block page : ℕ) (buf : PageData) : RetCode × PageData × Nand :=
  match retry (fun s : PageData × Nand => s.2.pageRead block page s.1) .errNotMapped readRetryCount
      .ok (buf, n) with
  | (.ok, buf, n) => (.ok, buf, n)
  | (_, buf, n) => (.errBadBlock, buf, (n.markBlockBad block .wear).2)

/-- A write fails since the page has been written only if the page is accessible, and changes
    nothing. -/
theorem pageWrite_of_overwrite (hwrite : (n.pageWrite block page buf).1 = .errOverwrite) :
    n.Accessible block page ∧ n.pageWrite block page buf = (.errOverwrite, n) := by
  rw [pageWrite] at hwrite ⊢
  split at hwrite
  · simp at hwrite
  · next hvalid =>
    push Not at hvalid
    split at hwrite
    · simp at hwrite
    · next hgood =>
      rw [if_neg (by simpa using hvalid), if_neg hgood]
      refine ⟨⟨hvalid.1, hvalid.2, hgood⟩, ?_⟩
      split at hwrite
      · next hv => exact if_pos hv
      · simp at hwrite

/-- A read fails since the page has not been written only if the page is accessible, and changes
    nothing. -/
theorem pageRead_of_notMapped (hread : (n.pageRead block page buf).1 = .errNotMapped) :
    n.Accessible block page ∧ n.pageRead block page buf = (.errNotMapped, buf, n) := by
  rw [pageRead] at hread ⊢
  split at hread
  · simp at hread
  · next hvalid =>
    push Not at hvalid
    split at hread
    · simp at hread
    · next hgood =>
      rw [if_neg (by simpa using hvalid), if_neg hgood]
      refine ⟨⟨hvalid.1, hvalid.2, hgood⟩, ?_⟩
      split at hread
      · next hv => exact if_pos hv
      · simp at hread

/-- A block in range is marked as bad. -/
theorem markBlockBad_of_accessible (h : n.Accessible block page) :
    (n.markBlockBad block .wear).2 = n.retire block .wear := by
  rw [markBlockBad, if_neg (not_not.2 h.blockValid)]

/-- A write to a page that has been written already marks its block as bad. -/
theorem pageWriteWithRetry_of_overwrite
    (hwrite : (n.pageWrite block page buf).1 = .errOverwrite) :
    n.pageWriteWithRetry block page buf = (.errBadBlock, n.retire block .wear) := by
  obtain ⟨hacc, heq⟩ := pageWrite_of_overwrite hwrite
  rw [pageWriteWithRetry, retry_of_again heq]
  exact congrArg _ (markBlockBad_of_accessible hacc)

/-- A read of a page that has not been written marks its block as bad. -/
theorem pageReadWithRetry_of_notMapped
    (hread : (n.pageRead block page buf).1 = .errNotMapped) :
    n.pageReadWithRetry block page buf = (.errBadBlock, buf, n.retire block .wear) := by
  obtain ⟨hacc, heq⟩ := pageRead_of_notMapped hread
  rw [pageReadWithRetry, retry_of_again (s := (buf, n)) heq]
  exact congrArg _ (congrArg _ (markBlockBad_of_accessible hacc))

/-! ## The other pages of the block -/

/-- The valid pages of the block other than `page` are valid afterwards, with the same data. -/
def KeepsOthers (n n' : Nand) (block page : ℕ) : Prop :=
  ∀ q < pagesPerBlock, q ≠ page → (n.blocks block).pageValid q →
    (n'.blocks block).pageValid q ∧ n'.media.data (block, q) = n.media.data (block, q)

/-- No page of the block other than `page` is valid. -/
def Alone (n : Nand) (block page : ℕ) : Prop :=
  ∀ q < pagesPerBlock, q ≠ page → (n.blocks block).pageValid q = false

/-- Marking a block as bad keeps its other pages only if there is none. -/
theorem retire_keepsOthers_iff (type : BadBlockType) :
    n.KeepsOthers (n.retire block type) block page ↔ n.Alone block page := by
  constructor
  · intro hkeeps q hq hne
    by_contra hv
    obtain ⟨hvalid, _⟩ := hkeeps q hq hne (Bool.eq_true_of_not_eq_false hv)
    simp at hvalid
  · intro halone q hq hne hv
    rw [halone q hq hne] at hv
    simp at hv

/-- A write with retries to a page that has been written, or a read with retries of a page that has
    not, leaves the other valid pages of the block as they are if and only if there are none. -/
theorem withRetry_keepsOthers_iff (n : Nand) (block page : ℕ) (buf : PageData) :
    ((n.pageWrite block page buf).1 = .errOverwrite →
      (n.KeepsOthers (n.pageWriteWithRetry block page buf).2 block page ↔ n.Alone block page)) ∧
    ((n.pageRead block page buf).1 = .errNotMapped →
      (n.KeepsOthers (n.pageReadWithRetry block page buf).2.2 block page ↔
        n.Alone block page)) := by
  constructor
  · intro hwrite
    rw [pageWriteWithRetry_of_overwrite hwrite]
    exact retire_keepsOthers_iff _
  · intro hread
    rw [pageReadWithRetry_of_notMapped hread]
    exact retire_keepsOthers_iff _

/-- New media of which the first `k` pages of the first block have been written. -/
def writtenPages (k : ℕ) : Nand :=
  (List.range k).foldl (fun n page => n.program 0 page blankPage) (Nand.init none fun _ => 99)

/-- A block of which only one page has been written. -/
theorem withRetry_keepsOthers_one :
    ((writtenPages 1).pageWrite 0 0 blankPage).1 = .errOverwrite ∧
      (writtenPages 1).KeepsOthers ((writtenPages 1).pageWriteWithRetry 0 0 blankPage).2 0 0 ∧
      ((writtenPages 0).pageRead 0 0 blankPage).1 = .errNotMapped ∧
      (writtenPages 0).KeepsOthers ((writtenPages 0).pageReadWithRetry 0 0 blankPage).2.2 0 0 := by
  have hnone : (writtenPages 0).Alone 0 0 := fun q _ _ => rfl
  have hone : (writtenPages 1).Alone 0 0 := fun q _ hne => Function.update_of_ne hne _ _
  have hwrite : ((writtenPages 1).pageWrite 0 0 blankPage).1 = .errOverwrite := by decide
  have hread : ((writtenPages 0).pageRead 0 0 blankPage).1 = .errNotMapped := by decide
  exact ⟨hwrite, ((withRetry_keepsOthers_iff _ 0 0 blankPage).1 hwrite).2 hone,
    hread, ((withRetry_keepsOthers_iff _ 0 0 blankPage).2 hread).2 hnone⟩

/-- Writing the first of two pages again, with retries, destroys the second one. -/
theorem pageWriteWithRetry_destroys :
    ¬ ∀ (n : Nand) (block page : ℕ) (buf : PageData),
      ((n.pageWrite block page buf).1 = .errOverwrite →
        n.KeepsOthers (n.pageWriteWithRetry block page buf).2 block page) ∧
      ((n.pageRead block page buf).1 = .errNotMapped →
        n.KeepsOthers (n.pageReadWithRetry block page buf).2.2 block page) := by
  intro hall
  have hwrite : ((writtenPages 2).pageWrite 0 0 blankPage).1 = .errOverwrite := by decide
  have hkeeps := (hall (writtenPages 2) 0 0 blankPage).1 hwrite
  rw [pageWriteWithRetry_of_overwrite hwrite, retire_keepsOthers_iff] at hkeeps
  exact absurd (hkeeps 1 (by decide) (by decide)) (by decide)

end Nand

end FtlFirmware
