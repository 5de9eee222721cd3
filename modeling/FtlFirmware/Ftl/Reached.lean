import FtlFirmware.Ftl.Calm

/-!
# Calm devices that are reached

The calm devices that a run from a fresh device reaches, with the contents that the run says
(`Reached`). From such a device, the calls that keep a device calm lead to further ones: writes that
fill a block (`Reached.fill`), reads (`Reached.reads`), a trim (`Reached.trim`), and the
handling of read disturb (`Reached.handleReadDisturb`).

In this way, a page can be moved ahead of the write cursor (`exists_stranded`): when a block in
which the cursor stands becomes free, as all its pages are trimmed, the handling of read disturb
takes it for an unused one.
-/

namespace FtlFirmware

namespace Ftl

namespace Layout

variable (L : Layout) (lpn : ℕ)

/-- The layout after the logical page `lpn` has been written `k` times, to one page after the
    other. -/
def fill : ℕ → Layout
  | 0 => L
  | k + 1 => ((fill k).write lpn (ppnToBlock (L.cursor + k)) (ppnToPage (L.cursor + k))).count

/-- The layout after `k` reads of the block `b`. -/
def readMany (b k : ℕ) : Layout :=
  { L with reads := Function.update L.reads b (L.reads b + UInt32.ofNat k) }

variable {L lpn} {k : ℕ}

@[simp] theorem fill_erases : (L.fill lpn k).erases = L.erases := by
  induction k with
  | zero => rfl
  | succ k ih => exact ih

@[simp] theorem fill_reads : (L.fill lpn k).reads = L.reads := by
  induction k with
  | zero => rfl
  | succ k ih => exact ih

theorem fill_sinceCheck : (L.fill lpn k).sinceCheck = L.sinceCheck + UInt32.ofNat k := by
  induction k with
  | zero => exact (UInt32.add_zero _).symm
  | succ k ih =>
    change (L.fill lpn k).sinceCheck + 1 = _
    rw [ih, UInt32.add_assoc, UInt32.ofNat_add]
    rfl

theorem fill_history : (L.fill lpn (k + 1)).history =
    .program (ppnToBlock (L.cursor + k)) (ppnToPage (L.cursor + k)) :: (L.fill lpn k).history := rfl

/-- The write cursor goes on by one page for each write. -/
theorem fill_cursor (lpn k : ℕ) (hpage : L.page ≤ pagesPerBlock) :
    (L.fill lpn k).cursor = L.cursor + k ∧ (L.fill lpn k).page ≤ pagesPerBlock := by
  cases k with
  | zero => exact ⟨(Nat.add_zero _).symm, hpage⟩
  | succ k =>
    have hdiv := Nat.div_add_mod' (L.cursor + k) pagesPerBlock
    refine ⟨?_, ppnToPage_lt⟩
    change ppnToBlock (L.cursor + k) * pagesPerBlock + (ppnToPage (L.cursor + k) + 1) = _
    rw [ppnToBlock, ppnToPage, ← Nat.add_assoc, hdiv, Nat.add_assoc]

theorem fill_table (hk : L.cursor + k < totalPpns) : (L.fill lpn (k + 1)).table =
    Function.update L.table lpn (some (L.cursor + k)) := by
  induction k with
  | zero =>
    change Function.update L.table lpn _ = _
    rw [blockPageToPpn_self hk]
  | succ k ih =>
    change Function.update (L.fill lpn (k + 1)).table lpn _ = _
    rw [ih (Nat.lt_of_succ_lt hk), Function.update_idem, blockPageToPpn_self hk]

/-- The pages written are behind the write cursor. -/
theorem fill_behind (lpn k : ℕ) (hpage : L.page ≤ pagesPerBlock) (hk : L.cursor + k ≤ totalPpns)
    (h : L.Behind) : (L.fill lpn k).Behind := by
  intro lpn' ppn hl
  rw [(fill_cursor lpn k hpage).1]
  cases k with
  | zero => exact Nat.lt_add_right 0 (h lpn' ppn hl)
  | succ k =>
    rw [fill_table hk, Function.update_apply] at hl
    split at hl
    · rw [← Option.some_inj.1 hl]
      exact Nat.lt_succ_self _
    · exact Nat.lt_add_right _ (h lpn' ppn hl)

end Layout

/-- The calm device is reached from a fresh one by allowed calls, which say what its contents
    are. -/
def Reached (allowed : Call → Prop) (c : Store) (L : Layout) (s : Ftl) : Prop :=
  ∃ s₀ tr, Fresh s₀ ∧ Run (fun _ call => allowed call) s₀ tr s ∧ contents tr = c ∧ Calm c L s

namespace Reached

variable {allowed : Call → Prop} {c : Store} {L L' : Layout} {s s' : Ftl} {a : Answer} {call : Call}
  {lpn b p k : ℕ}

/-- The device is calm. -/
theorem calm (h : Reached allowed c L s) : Calm c L s := h.choose_spec.choose_spec.2.2.2

/-- A call that keeps the device calm. -/
theorem step (h : Reached allowed c L s) (hcall : allowed call) (fuel : ℕ)
    (hexec : s.exec fuel call = some (a, s')) (hcalm : Calm (next c (call, a)) L' s') :
    Reached allowed (next c (call, a)) L' s' := by
  obtain ⟨s₀, tr, hfresh, hrun, rfl, _⟩ := h
  refine ⟨s₀, tr ++ [(call, a)], hfresh, hrun.snoc hcall ⟨fuel, hexec⟩, ?_, hcalm⟩
  rw [contents, List.foldl_append]
  rfl

/-- There is a fresh device. -/
theorem fresh (allowed : Call → Prop) : ∃ s, Reached allowed (fun _ => none) .fresh s := by
  obtain ⟨s, hon, h⟩ := Calm.powerOn (fun _ => 99) (fun _ => by decide) fun _ => none
  exact ⟨s, s, [], ⟨_, _, hon⟩, .nil, rfl, h⟩

/-- Writing a logical page `k` times, if the mapped pages are behind the write cursor. -/
theorem fill (h : Reached allowed c L s) (hcall : ∀ lpn buf, allowed (.write lpn buf)) (lpn k : ℕ)
    (hlpn : lpn < totalLpns) (hpage : L.page ≤ pagesPerBlock)
    (hk : L.cursor + k ≤ 100 * pagesPerBlock) (hun : L.Behind)
    (hcheck : L.sinceCheck.toNat + k < 1000) (heven : ∀ b < userBlocks, L.erases b = 0)
    (buf : PageData) : ∃ c' s', Reached allowed c' (L.fill lpn k) s' := by
  simp only [pagesPerBlock] at hk
  induction k with
  | zero => exact ⟨c, s, h⟩
  | succ k ih =>
    obtain ⟨c', s₁, h₁⟩ := ih (Nat.le_of_succ_le hk) (Nat.lt_of_succ_lt hcheck)
    obtain ⟨hcursor, hpage₁⟩ := Layout.fill_cursor lpn k hpage
    have hlt : L.cursor + k < totalPpns := by
      simp only [totalPpns, totalBlocks, pagesPerBlock]
      omega
    have hcheck' : (L.fill lpn k).sinceCheck + 1 < staticWearInterval := by
      rw [Layout.fill_sinceCheck, UInt32.lt_iff_toNat_lt]
      simp only [UInt32.toNat_add, UInt32.toNat_ofNat', UInt32.toNat_one]
      change _ < 1000
      omega
    have hun' := Layout.fill_behind lpn k hpage hlt.le hun
    have hend : (L.fill lpn k).cursor < 100 * pagesPerBlock := by
      rw [hcursor]
      exact hk
    have ha := h₁.calm.takeCursor hpage₁ hend hun'
    rw [Layout.Behind, hcursor] at hun'
    rw [hcursor] at ha
    obtain ⟨s₂, hw, h₂⟩ := h₁.calm.write hlpn (fun b hb lpn' ppn hl => by
      have hppn := hun' lpn' ppn hl
      simp only [ppnToBlock, pagesPerBlock]
      omega) (ppnToBlock_lt_iff.2 hlt) ppnToPage_lt (fun lpn' hl => by
        rw [blockPageToPpn_self hlt] at hl
        exact Nat.lt_irrefl _ (hun' lpn' _ hl)) ha hcheck'
        (fun b hb => by rw [Layout.fill_erases, heven b hb]) buf
    refine ⟨_, s₂, h₁.step (a := ⟨.ok, none⟩) (hcall lpn buf) 0 ?_ h₂⟩
    rw [exec, hw]
    rfl

/-- Reading a mapped page `k` times. -/
theorem reads (h : Reached allowed c L s) (hcall : ∀ lpn buf, allowed (.read lpn buf))
    (hlpn : lpn < totalLpns) (hb : b < totalBlocks) (hp : p < pagesPerBlock)
    (hl : L.table lpn = some (blockPageToPpn b p)) (k : ℕ) :
    ∃ s', Reached allowed c (L.readMany b k) s' := by
  induction k with
  | zero =>
    refine ⟨s, ?_⟩
    have heq : L.readMany b 0 = L := by
      simp [Layout.readMany]
    rwa [heq]
  | succ k ih =>
    obtain ⟨s₁, h₁⟩ := ih
    obtain ⟨d, -, hread, h₂⟩ := h₁.calm.read hlpn hl blankPage
    rw [ppnToBlock_mk hb hp] at hread h₂
    have heq : (L.readMany b k).read b = L.readMany b (k + 1) := by
      simp [Layout.read, Layout.readMany, UInt32.add_assoc, UInt32.ofNat_add]
    rw [heq] at h₂
    refine ⟨_, h₁.step (a := ⟨.ok, some d⟩) (hcall lpn blankPage) 0 ?_ h₂⟩
    rw [exec, hread]

/-- Trimming a logical page. -/
theorem trim (h : Reached allowed c L s) {lpn : UInt32} (hcall : allowed (.trim lpn 1))
    (hlpn : lpn.toNat < totalLpns) : ∃ s', Reached allowed (Function.update c lpn.toNat none)
      { L with table := Function.update L.table lpn.toNat none } s' := by
  obtain ⟨s₁, htrim, h₁⟩ := h.calm.trimPage hlpn
  have hlength : trimLength lpn 1 = 1 := by
    have hadd : (lpn + 1).toNat = lpn.toNat + 1 := by
      rw [UInt32.toNat_add, UInt32.toNat_one]
      exact Nat.mod_eq_of_lt (Nat.lt_of_le_of_lt (Nat.succ_le_succ hlpn.le) (by decide))
    rw [trimLength, hadd, if_neg (Nat.not_lt.2 hlpn)]
    rfl
  have hnext : next c (.trim lpn 1, ⟨.ok, none⟩) = Function.update c lpn.toNat none := by
    funext i
    rw [next, if_pos rfl, Function.update_apply, UInt32.toNat_one]
    exact if_congr (by omega) rfl rfl
  have h₂ : Calm (next c (.trim lpn 1, ⟨.ok, none⟩))
      { L with table := Function.update L.table lpn.toNat none }
      { s₁ with trimCount := s₁.trimCount + 1 } := by
    rw [hnext]
    exact { h₁ with inv := h₁.inv.congr rfl }
  refine ⟨_, hnext ▸ h.step hcall 0 ?_ h₂⟩
  rw [exec, Ftl.trim, if_neg (not_not.2 h.calm.inv.started), if_neg (by decide),
    if_neg (Nat.not_le.2 hlpn), hlength, List.range'_one, List.foldlM_cons, htrim]
  rfl

/-- The only mapped page is moved by the handling of read disturb. -/
theorem handleReadDisturb (h : Reached allowed c L s) (hcall : allowed .handleReadDisturb)
    {src dst : ℕ} (hsole : L.Sole lpn src p) (hsrc : src < userBlocks) (hp : p < pagesPerBlock)
    (hdst : dst < userBlocks) (hne : dst ≠ src) (hfirst : s.findNextFreeBlock 0 = some dst)
    (hreads : readDisturbThreshold ≤ L.reads src) (herases : L.erases src ≤ getEraseThreshold .tlc) :
    ∃ s', Reached allowed c (L.move lpn src dst p) s' := by
  obtain ⟨s', hdisturb, h'⟩ :=
    h.calm.handleReadDisturb hsole hsrc hp hdst hne hfirst hreads herases
  refine ⟨s', h.step (a := ⟨.ok, none⟩) hcall 0 ?_ h'⟩
  rw [exec, hdisturb]
  rfl

end Reached

/-! ## A page ahead of the write cursor -/

/-- The layout of a device that has not erased anything, with the logical page 0 mapped to the last
    page of the first block, and the write cursor at the page `m` of the block `b`. -/
structure Layout.Filled (L : Layout) (b m : ℕ) : Prop where
  sole : L.Sole 0 0 255
  block : L.block = b
  page : L.page = m
  erases : L.erases = fun _ => 0
  reads : L.reads = fun _ => 0

/-- The layout after the page has been moved to the second block, in which the write cursor is at
    the page `m`. The page behind the cursor has been programmed before, and the block has not
    been erased since. -/
structure Layout.Stranded (L : Layout) (m : ℕ) : Prop where
  sole : L.Sole 0 1 255
  block : L.block = 1
  page : L.page = m
  erases : ∀ b, b ≠ 0 → L.erases b = 0
  history : ∃ events, L.history = .erase 0 :: .program 1 255 :: .program 1 (m - 1) :: events

section Stranded

variable {allowed : Call → Prop} {c : Store} {L : Layout} {s : Ftl} {m : ℕ}

/-- The first block is filled with writes of the logical page 0. -/
theorem exists_filled (hwrite : ∀ lpn buf, allowed (.write lpn buf)) :
    ∃ c L s, Reached allowed c L s ∧ L.Filled 0 256 ∧ L.sinceCheck = 256 := by
  obtain ⟨s₀, h₀⟩ := Reached.fresh allowed
  obtain ⟨c, s, h⟩ := h₀.fill hwrite 0 256 (by decide) (by decide) (by decide)
    (fun lpn ppn hl => absurd hl.symm (Option.some_ne_none _)) (by decide) (fun _ _ => rfl) blankPage
  exact ⟨c, _, s, h, ⟨Layout.fill_table (by decide), rfl, rfl, Layout.fill_erases,
    Layout.fill_reads⟩, Layout.fill_sinceCheck⟩

/-- The logical page 1 is written `m` times to the second block, and then trimmed. -/
theorem Reached.writeTrim (h : Reached allowed c L s)
    (hwrite : ∀ lpn buf, allowed (.write lpn buf)) (htrim : ∀ lpn, allowed (.trim lpn 1))
    (hL : L.Filled 0 256) (hcheck : L.sinceCheck = 256) (hpos : 0 < m) (hm : m ≤ 256) :
    ∃ c' L' s', Reached allowed c' L' s' ∧ L'.Filled 1 m ∧
      ∃ events, L'.history = .program 1 (m - 1) :: events := by
  obtain ⟨k, rfl⟩ := Nat.exists_eq_succ_of_ne_zero hpos.ne'
  have hcursor : L.cursor = 256 := by
    rw [Layout.cursor, hL.block, hL.page, Nat.zero_mul, Nat.zero_add]
  have hblock : ppnToBlock (256 + k) = 1 := by
    simp only [ppnToBlock, pagesPerBlock]
    omega
  have hpage : ppnToPage (256 + k) = k := by
    simp only [ppnToPage, pagesPerBlock]
    omega
  obtain ⟨c₁, s₁, h₁⟩ := h.fill hwrite 1 (k + 1) (by decide) hL.page.le
    (by rw [hcursor]; simp only [pagesPerBlock]; omega)
    (fun lpn ppn hl => by
      rw [(hL.sole.table_eq hl).2, hcursor]
      decide) (by
      rw [hcheck]
      change 256 + (k + 1) < 1000
      omega) (fun b _ => by rw [hL.erases]) blankPage
  have htable : (L.fill 1 (k + 1)).table = Function.update L.table 1 (some (256 + k)) := by
    rw [Layout.fill_table, hcursor]
    rw [hcursor]
    simp only [totalPpns, totalBlocks, pagesPerBlock]
    omega
  -- After the trim, the logical page 0 is the only one mapped again.
  obtain ⟨s₂, h₂⟩ := h₁.trim (htrim 1) (by decide)
  refine ⟨_, _, s₂, h₂, ⟨?_, ?_, ?_, ?_, ?_⟩, (L.fill 1 k).history, ?_⟩
  · change Function.update (L.fill 1 (k + 1)).table 1 none = _
    rw [htable, Function.update_idem, hL.sole]
    funext lpn
    rcases eq_or_ne lpn 1 with rfl | hne
    · rfl
    · rw [Function.update_of_ne hne]
  · change ppnToBlock (L.cursor + k) = 1
    rw [hcursor, hblock]
  · change ppnToPage (L.cursor + k) + 1 = k + 1
    rw [hcursor, hpage]
  · exact Layout.fill_erases.trans hL.erases
  · exact Layout.fill_reads.trans hL.reads
  · change (L.fill 1 (k + 1)).history = _
    rw [Layout.fill_history, hcursor, hblock, hpage]
    rfl

/-- The other page is read until its block is to be reclaimed, and then moved. -/
theorem Reached.strand (h : Reached allowed c L s) (hread : ∀ lpn buf, allowed (.read lpn buf))
    (hdisturb : allowed .handleReadDisturb) (hL : L.Filled 1 m)
    (hhistory : ∃ events, L.history = .program 1 (m - 1) :: events) :
    ∃ L' s', Reached allowed c L' s' ∧ L'.Stranded m := by
  obtain ⟨s₁, h₁⟩ := h.reads hread (by decide) (by decide) (by decide) hL.sole.self 100000
  have hsole₁ : (L.readMany 0 100000).Sole 0 0 255 := hL.sole
  have hreads₁ : readDisturbThreshold ≤ (L.readMany 0 100000).reads 0 := by
    change readDisturbThreshold ≤ Function.update L.reads 0 (L.reads 0 + 100000) 0
    rw [Function.update_self, hL.reads]
    decide
  have herases₁ : (L.readMany 0 100000).erases 0 ≤ getEraseThreshold .tlc := by
    change L.erases 0 ≤ _
    rw [hL.erases]
    decide
  have hfirst := h₁.calm.findNextFreeBlock_succ (by decide) hsole₁.self
    (ppnToBlock_mk (by decide) (by decide)) (hsole₁.empty (by decide) (by decide) (by decide))
  obtain ⟨s₂, h₂⟩ := h₁.handleReadDisturb hdisturb hsole₁ (by decide) (by decide) (by decide)
    (by decide) hfirst hreads₁ herases₁
  obtain ⟨events, hevents⟩ := hhistory
  refine ⟨_, s₂, h₂, rfl, hL.block, hL.page, fun b hb => ?_, events, ?_⟩
  · refine (Function.update_of_ne hb _ _).trans ?_
    exact congrFun hL.erases b
  · change MediaEvent.erase 0 :: .program 1 255 :: L.history = _
    rw [hevents]

/-- A device is reached whose only mapped page is the last one of the block of the write cursor,
    which is at the page `m`. -/
theorem exists_stranded (hread : ∀ lpn buf, allowed (.read lpn buf))
    (hwrite : ∀ lpn buf, allowed (.write lpn buf)) (htrim : ∀ lpn, allowed (.trim lpn 1))
    (hdisturb : allowed .handleReadDisturb) (hpos : 0 < m) (hm : m ≤ 256) :
    ∃ c L s, Reached allowed c L s ∧ L.Stranded m := by
  obtain ⟨c₁, L₁, s₁, h₁, hL₁, hcheck⟩ := exists_filled hwrite
  obtain ⟨c₂, L₂, s₂, h₂, hL₂, hhistory⟩ := h₁.writeTrim hwrite htrim hL₁ hcheck hpos hm
  exact ⟨c₂, h₂.strand hread hdisturb hL₂ hhistory⟩

end Stranded

end Ftl

end FtlFirmware
