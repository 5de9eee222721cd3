import FtlFirmware.Ftl.Calls

/-!
# The accounts of the writes

Programmed pages are counted twice, by the FTL (`nandWritePages`) and by the NAND device
(`totalWritePages`), and the FTL also counts the writes of the host (`hostWritePages`). What a call
does to these accounts is said by `accounts`, the number of writes of the host and the difference of
the other two counters.

Every function that moves or writes pages programs them one by one, and counts each one that has
been programmed, so it keeps the accounts. There is one exception: the pages that the NAND device
copies when it replaces a block are not counted by the FTL (`Copies`). A write replaces bad blocks
only, from which nothing can be copied.

* `run_accounted`: in every run in which no block is replaced from which pages are copied, the two
  counters of programmed pages agree, and the writes of the host are those that have been answered
  well.
-/

namespace FtlFirmware

namespace Nand

variable (n : Nand) (b p : ℕ) (buf : PageData)

/-! ## Programmed pages -/

@[simp] theorem pageRead_totalWritePages :
    (n.pageRead b p buf).2.2.totalWritePages = n.totalWritePages := by
  rw [pageRead]
  split_ifs <;> rfl

@[simp] theorem markPageInvalid_totalWritePages :
    (n.markPageInvalid b p).2.totalWritePages = n.totalWritePages := by
  rw [markPageInvalid]
  split_ifs <;> rfl

@[simp] theorem blockErase_totalWritePages :
    (n.blockErase b).2.totalWritePages = n.totalWritePages := by
  rw [blockErase]
  split_ifs <;> rfl

@[simp] theorem markColdBlock_totalWritePages :
    (n.markColdBlock b).2.totalWritePages = n.totalWritePages := by
  rw [markColdBlock]
  split_ifs <;> rfl

/-- A page counts as programmed if the write is answered well. -/
theorem pageWrite_totalWritePages :
    (n.pageWrite b p buf).2.totalWritePages =
      n.totalWritePages + if (n.pageWrite b p buf).1 = .ok then 1 else 0 := by
  rw [pageWrite]
  split_ifs <;> simp_all [program]

/-- The replacement of the block copies pages: it is used, has a valid page, and there is a block to
    replace it. -/
def Copies (n : Nand) (b : ℕ) : Prop :=
  (n.blocks b).state = .used ∧ (∃ p < pagesPerBlock, (n.blocks b).pageValid p) ∧
    ∃ replacement, n.allocReservedBlock.1 = .ok replacement

variable {n b}

/-- Nothing is copied from a block without valid pages. -/
theorem copyPages_of_empty {dst : ℕ} {pages : List ℕ}
    (hempty : ∀ page ∈ pages, (n.blocks b).pageValid page = false) (buf : PageData) :
    n.copyPages b dst buf pages = n := by
  induction pages with
  | nil => rfl
  | cons page pages ih =>
    obtain ⟨hpage, hrest⟩ := List.forall_mem_cons.1 hempty
    rcases n.copyPages_cons b dst page pages buf with ⟨_, hv, _⟩ | ⟨_, hcopy⟩
    · rw [hpage] at hv
      simp at hv
    · rw [hcopy, ih hrest]

/-- Unless pages are copied, the replacement of a block programs nothing. -/
theorem replaceBadBlock_totalWritePages (h : ¬ n.Copies b) :
    (n.replaceBadBlock b).2.totalWritePages = n.totalWritePages := by
  rw [replaceBadBlock]
  split
  · rfl
  split
  · rfl
  split
  · rfl
  · next hfree =>
    rcases n.allocReservedBlock_cases with ⟨dst, _, _, _, halloc⟩ | ⟨ret, halloc⟩
    · -- a block is there, so this one is bad or has no valid page
      rw [halloc]
      dsimp only
      set taken : Nand := { n with reservedCount := n.reservedCount - 1 } with htaken
      have hcopy : taken.copyPages b dst blankPage (List.range pagesPerBlock) = taken := by
        cases hstate : (n.blocks b).state with
        | free => exact absurd hstate hfree
        | bad => exact copyPages_of_bad hstate
        | used =>
          refine copyPages_of_empty (fun page hpage => ?_) _
          by_contra hv
          refine h ⟨hstate, ⟨page, List.mem_range.1 hpage, Bool.eq_true_of_not_eq_false hv⟩, dst, ?_⟩
          rw [halloc]
      rw [hcopy]
      split <;> rfl
    · rw [halloc]

end Nand

namespace Ftl

variable {s s' : Ftl} {buf : PageData} {b p lpn ppn src dst fuel : ℕ} {ret : RetCode} {nand : Nand}

/-! ## The accounts -/

/-- The writes of the host, and how far the count of programmed pages of the FTL is ahead of that of
    the NAND device. -/
def accounts (s : Ftl) : UInt32 × UInt32 :=
  (s.hostWritePages, s.nandWritePages - s.nand.totalWritePages)

theorem accounts_hybridFree : HybridFree accounts := fun _ _ _ _ _ _ => rfl

/-- Operations of the NAND device that program nothing. -/
theorem accounts_nand (h : nand.totalWritePages = s.nand.totalWritePages) :
    accounts { s with nand := nand } = s.accounts := by
  rw [accounts, accounts]
  dsimp only
  rw [h]

/-- A page that cannot be written. -/
theorem accounts_refused (h : s.nand.pageWrite b p buf = (ret, nand)) (hret : ret ≠ .ok) :
    accounts { s with nand := nand } = s.accounts := by
  have htotal := s.nand.pageWrite_totalWritePages b p buf
  rw [h, if_neg hret, UInt32.add_zero] at htotal
  exact accounts_nand htotal

/-- A page that is written and counted. -/
theorem accounts_program (h : s.nand.pageWrite b p buf = (.ok, nand)) :
    accounts { s with nand := nand, nandWritePages := s.nandWritePages + 1 } = s.accounts := by
  have htotal := s.nand.pageWrite_totalWritePages b p buf
  rw [h, if_pos rfl] at htotal
  rw [accounts, accounts]
  dsimp only at htotal ⊢
  rw [htotal, Prod.mk.injEq]
  exact ⟨rfl, by grind⟩

theorem allocPhyPage_accounts (h : s.allocPhyPage = some (ppn, s')) : s'.accounts = s.accounts := by
  rcases allocPhyPage_cases h with ⟨_, _, rfl⟩ | ⟨_, _, _, _, rfl⟩ <;> rfl

/-! ## Garbage collection -/

theorem gcMovePage_accounts (victim page lpn : ℕ) (buf : PageData) :
    (s.gcMovePage victim page lpn buf).2.2.accounts = s.accounts := by
  have hread : accounts { s with nand := (s.nand.pageRead victim page buf).2.2 } = s.accounts :=
    accounts_nand (by simp)
  rw [gcMovePage]
  split
  · exact hread
  · next newPpn s₁ halloc =>
    have halloc := (allocPhyPage_accounts halloc).trans hread
    split
    · next nand hw => exact (accounts_program hw).trans halloc
    · next ret nand hret hw => exact (accounts_refused hw hret).trans halloc

theorem recyclePages_accounts (victim : ℕ) (pages : List ℕ) (s : Ftl) (buf : PageData) :
    (recyclePages victim buf pages s).2.accounts = s.accounts := by
  induction pages generalizing s buf with
  | nil => rfl
  | cons page pages ih =>
    rw [recyclePages]
    split
    · exact ih s buf
    · split
      · exact ih s buf
      · next lpn _ =>
        have hmove := s.gcMovePage_accounts victim page lpn buf
        split
        · next buf₁ s₁ hm =>
          rw [hm] at hmove
          exact (ih s₁ buf₁).trans hmove
        · next buf₁ s₁ _ hm =>
          rw [hm] at hmove
          exact hmove

theorem gcDoRecycle_accounts : s.gcDoRecycle.2.accounts = s.accounts := by
  rw [gcDoRecycle]
  split
  · rfl
  · next victim _ =>
    have hpages := recyclePages_accounts victim (List.range pagesPerBlock)
      { s with gcCount := s.gcCount + 1 } blankPage
    split
    · next s₁ hr =>
      rw [hr] at hpages
      exact (accounts_nand (by simp)).trans hpages
    · next s₁ _ hr =>
      rw [hr] at hpages
      exact hpages

theorem gcUntilSpace_accounts (h : gcUntilSpace fuel s = some (ret, s')) :
    s'.accounts = s.accounts := by
  induction fuel generalizing s with
  | zero =>
    rw [gcUntilSpace] at h
    split at h
    · simp at h
    · obtain ⟨_, rfl⟩ := Prod.mk.inj (Option.some_inj.1 h)
      rfl
  | succ fuel ih =>
    have hrecycle : s.gcDoRecycle.2.accounts = s.accounts := gcDoRecycle_accounts
    rw [gcUntilSpace] at h
    split at h
    · split at h
      · next s₁ hr =>
        rw [hr] at hrecycle
        exact (ih h).trans hrecycle
      · next s₁ _ hr =>
        rw [hr] at hrecycle
        obtain ⟨_, rfl⟩ := Prod.mk.inj (Option.some_inj.1 h)
        exact hrecycle
    · obtain ⟨_, rfl⟩ := Prod.mk.inj (Option.some_inj.1 h)
      rfl

/-! ## Relocations -/

theorem migratePage_accounts (src dst page lpn : ℕ) (buf : PageData) :
    (s.migratePage src dst page lpn buf).2.2.accounts = s.accounts := by
  have hread : accounts { s with nand := (s.nand.pageRead src page buf).2.2 } = s.accounts :=
    accounts_nand (by simp)
  rw [migratePage]
  dsimp only
  split
  · next nand hw =>
    have hwrite := (accounts_program (s := { s with nand := (s.nand.pageRead src page buf).2.2 })
      hw).trans hread
    exact (accounts_nand (by simp)).trans ((accounts_hybridFree _ _ _ _ _ _).trans hwrite)
  · next ret nand hret hw =>
    exact (accounts_refused (s := { s with nand := (s.nand.pageRead src page buf).2.2 }) hw
      hret).trans hread

theorem migratePages_accounts (src dst : ℕ) (pages : List ℕ) (s : Ftl) (buf : PageData)
    (moved : UInt32) : (migratePages src dst buf moved pages s).2.accounts = s.accounts := by
  induction pages generalizing s buf moved with
  | nil => rfl
  | cons page pages ih =>
    rw [migratePages]
    split
    · exact ih s buf moved
    · split
      · exact ih s buf moved
      · next lpn _ =>
        have hmove := s.migratePage_accounts src dst page lpn buf
        split
        · next buf₁ s₁ hm =>
          rw [hm] at hmove
          exact (ih s₁ buf₁ (moved + 1)).trans hmove
        · next buf₁ s₁ _ hm =>
          rw [hm] at hmove
          exact (ih s₁ buf₁ moved).trans hmove

theorem staticWearLevelingCheck_accounts : s.staticWearLevelingCheck.accounts = s.accounts := by
  rw [staticWearLevelingCheck]
  split
  · rfl
  · next src dst _ =>
    have hpages := migratePages_accounts src dst (List.range pagesPerBlock) s blankPage 0
    exact (accounts_nand (by simp)).trans hpages

theorem wearLevelingCheck_accounts : s.wearLevelingCheck.accounts = s.accounts := by
  rw [wearLevelingCheck]
  dsimp only
  split
  · split
    · rfl
    · next coldBlock _ =>
      have hmark : accounts { s with nand := (s.nand.markColdBlock coldBlock).2 } = s.accounts :=
        accounts_nand (by simp)
      exact hmark
  · rfl

theorem checkWear_accounts : s.checkWear.accounts = s.accounts := by
  have hwear : s.wearLevelingCheck.accounts = s.accounts := wearLevelingCheck_accounts
  rw [checkWear]
  generalize s.wearLevelingCheck = leveled at hwear ⊢
  dsimp only
  split
  · exact staticWearLevelingCheck_accounts.trans hwear
  · exact hwear

theorem handleReadDisturb_accounts : s.handleReadDisturb.2.accounts = s.accounts := by
  rw [handleReadDisturb]
  split
  · rfl
  split
  · rfl
  · next src _ =>
    split
    · rfl
    · next dst _ =>
      have hpages := migratePages_accounts src dst (List.range pagesPerBlock) s blankPage 0
      exact (accounts_nand (by simp)).trans hpages

theorem remapPages_accounts (block newBlock : ℕ) (pages : List ℕ) (s : Ftl) (moved : UInt32) :
    (remapPages block newBlock moved pages s).2.accounts = s.accounts := by
  induction pages generalizing s moved with
  | nil => rfl
  | cons page pages ih =>
    rw [remapPages]
    split
    · exact ih s moved
    · exact (ih _ _).trans (accounts_hybridFree s _ _ _ _ _)

/-- The replacement of a block keeps the accounts unless pages are copied. -/
theorem replaceBadBlock_accounts (h : ¬ s.nand.Copies b) :
    (s.replaceBadBlock b).2.accounts = s.accounts := by
  have htotal := Nand.replaceBadBlock_totalWritePages h
  rw [replaceBadBlock]
  split
  · rfl
  split
  · rfl
  split
  · next ret nand hr =>
    rw [hr] at htotal
    exact accounts_nand htotal
  · next newBlock nand hr =>
    rw [hr] at htotal
    exact (remapPages_accounts b newBlock _ _ 0).trans (accounts_nand htotal)

/-- Nothing is copied from a bad block. -/
theorem not_copies_of_bad {n : Nand} (hbad : (n.blocks b).state = .bad) : ¬ n.Copies b := by
  rintro ⟨hused, _⟩
  exact absurd (hbad.symm.trans hused) (by simp)

/-! ## The calls of the host -/

/-- A read finds a page in a bad block only if the block is bad. -/
theorem read_accounts (lpn : ℕ) (buf : PageData) : (s.read lpn buf).2.2.accounts = s.accounts := by
  rw [read]
  split
  · rfl
  split
  · rfl
  split
  · rfl
  · next ppn _ =>
    have hread : accounts { s with nand :=
        (s.nand.pageRead (ppnToBlock ppn) (ppnToPage ppn) buf).2.2 } = s.accounts :=
      accounts_nand (by simp)
    rcases s.nand.pageRead_cases (ppnToBlock ppn) (ppnToPage ppn) buf with ⟨_, _, heq⟩ |
      ⟨ret, _, heq, hbad⟩
    · rw [heq] at hread ⊢
      dsimp only
      rw [if_neg (by simp)]
      split
      · exact accounts_hybridFree.hybridUpdateAccessCount.trans hread
      · exact hread
    · rw [heq] at hread ⊢
      dsimp only
      split
      · next hret => exact replaceBadBlock_accounts (not_copies_of_bad (hbad hret).2)
      · split
        · exact accounts_hybridFree.hybridUpdateAccessCount.trans hread
        · exact hread

/-- The device after its last programmed page has been counted. -/
def counted (ret : RetCode) (s : Ftl) : Ftl :=
  if ret = .ok then { s with nandWritePages := s.nandWritePages + 1 } else s

/-- A page written and counted, if it has been written. -/
theorem counted_pageWrite (s : Ftl) (b p : ℕ) (buf : PageData) :
    (counted (s.nand.pageWrite b p buf).1
      { s with nand := (s.nand.pageWrite b p buf).2 }).accounts = s.accounts := by
  rw [counted]
  split
  · next hret => exact accounts_program (Prod.ext hret rfl)
  · next hret => exact accounts_refused rfl hret

/-- The page programmed for a write is the only one that is not counted yet. -/
theorem programPage_accounts (s : Ftl) (ppn : ℕ) (buf : PageData) :
    (counted (s.programPage ppn buf).1 (s.programPage ppn buf).2.2).accounts = s.accounts := by
  have hwrite := counted_pageWrite s (ppnToBlock ppn) (ppnToPage ppn) buf
  rw [programPage]
  rcases s.nand.pageWrite_cases (ppnToBlock ppn) (ppnToPage ppn) buf with ⟨_, _, heq⟩ |
    ⟨ret, hret, heq, hbad⟩
  · rw [heq] at hwrite ⊢
    exact hwrite
  · rw [heq]
    dsimp only
    split
    · next hbadBlock =>
      have hreplace : (s.replaceBadBlock (ppnToBlock ppn)).2.accounts = s.accounts :=
        replaceBadBlock_accounts (not_copies_of_bad (hbad hbadBlock).2)
      split
      · next s₁ hr =>
        rw [hr] at hreplace
        split
        · exact hreplace
        · next newPpn s₂ halloc =>
          have hsecond := counted_pageWrite s₂ (ppnToBlock newPpn) (ppnToPage newPpn) buf
          exact hsecond.trans ((allocPhyPage_accounts halloc).trans hreplace)
      · next ret' s₁ hret' hr =>
        rw [hr] at hreplace
        rw [counted, if_neg hret']
        exact hreplace
    · rw [counted, if_neg hret]

/-- The programmed page is counted when the maps are redirected to it, as is the write. -/
theorem commitWrite_accounts (h : s.commitWrite lpn ppn = some s') :
    s'.accounts = ((counted .ok s).accounts.1 + 1, (counted .ok s).accounts.2) := by
  rw [commitWrite] at h
  dsimp only at h
  cases hl : s.l2pTable lpn with
  | none =>
    rw [hl] at h
    obtain rfl := Option.some_inj.1 h
    rfl
  | some old =>
    rw [hl] at h
    dsimp only at h
    split at h
    · simp at h
    · obtain rfl := Option.some_inj.1 h
      rw [accounts]
      dsimp only
      rw [Nand.markPageInvalid_totalWritePages]
      rfl

theorem finishWrite_accounts (h : s.finishWrite lpn ppn = some s') :
    s'.accounts = ((counted .ok s).accounts.1 + 1, (counted .ok s).accounts.2) := by
  rw [finishWrite] at h
  obtain ⟨s₁, hcommit, hrest⟩ := Option.bind_eq_some_iff.1 h
  have hwear : s₁.checkWear.accounts = _ := checkWear_accounts.trans (commitWrite_accounts hcommit)
  dsimp only at hrest
  split at hrest
  · exact (accounts_hybridFree.hybridWrite hrest).trans hwear
  · obtain rfl := Option.some_inj.1 hrest
    exact hwear

/-- A write keeps the accounts, up to the write of the host itself if it is answered well. -/
theorem write_accounts (h : s.write fuel lpn buf = some (ret, s')) :
    s'.accounts = (s.accounts.1 + (if ret = .ok then 1 else 0), s.accounts.2) := by
  -- A write that fails counts for nothing.
  have hfailed (hret : ret ≠ .ok) (hsame : s'.accounts = s.accounts) :
      s'.accounts = (s.accounts.1 + (if ret = .ok then 1 else 0), s.accounts.2) := by
    rw [if_neg hret, UInt32.add_zero, hsame]
  rw [write] at h
  split at h
  · obtain ⟨rfl, rfl⟩ := Prod.mk.inj (Option.some_inj.1 h)
    exact hfailed (by simp) rfl
  split at h
  · obtain ⟨rfl, rfl⟩ := Prod.mk.inj (Option.some_inj.1 h)
    exact hfailed (by simp) rfl
  split at h
  · simp at h
  · next s₁ hgc =>
    have hcollect := gcUntilSpace_accounts hgc
    rw [writeOut] at h
    split at h
    · obtain ⟨rfl, rfl⟩ := Prod.mk.inj (Option.some_inj.1 h)
      exact hfailed (by simp) hcollect
    next newPpn s₂ halloc =>
    have htaken := (allocPhyPage_accounts halloc).trans hcollect
    obtain ⟨files, sequence, count, hlog⟩ :=
      s₂.walLog_ok (writeEntry lpn (s₂.l2pTable lpn) newPpn)
    rw [walLogWrite, hlog] at h
    dsimp only at h
    set logged : Ftl := { s₂ with files := files, walSequence := sequence, walEntryCount := count }
    have hprogram : (counted _ _).accounts = s.accounts :=
      (programPage_accounts logged newPpn buf).trans htaken
    split at h
    · next ppn s₃ hp =>
      rw [hp] at hprogram
      obtain ⟨s₄, hfinish, heq⟩ := Option.map_eq_some_iff.1 h
      obtain ⟨rfl, rfl⟩ := Prod.mk.inj heq
      rw [if_pos rfl, finishWrite_accounts hfinish, hprogram]
    · next ret' ppn s₃ hret hp =>
      rw [hp] at hprogram
      obtain ⟨rfl, rfl⟩ := Prod.mk.inj (Option.some_inj.1 h)
      rw [counted, if_neg hret] at hprogram
      exact hfailed hret hprogram
  · next ret' s₁ hret hgc =>
    obtain ⟨rfl, rfl⟩ := Prod.mk.inj (Option.some_inj.1 h)
    exact hfailed hret (gcUntilSpace_accounts hgc)

/-- A trim programs nothing. -/
theorem trimPage_accounts (h : s.trimPage lpn = some s') : s'.accounts = s.accounts := by
  rw [trimPage] at h
  split at h
  · simp at h
  · cases hl : s.l2pTable lpn with
    | none =>
      rw [hl] at h
      obtain rfl := Option.some_inj.1 h
      rfl
    | some ppn =>
      obtain ⟨files, sequence, number, hentry⟩ := s.walLog_ok (trimEntry lpn (s.l2pTable lpn))
      rw [hl] at h
      dsimp only at h
      split at h
      · simp at h
      · rw [walLogTrim, hentry] at h
        obtain rfl := Option.some_inj.1 h
        rw [accounts]
        dsimp only
        rw [Nand.markPageInvalid_totalWritePages]
        rfl

theorem trim_accounts {lpn count : UInt32} (h : s.trim lpn count = some (ret, s')) :
    s'.accounts = s.accounts := by
  rcases trim_cases h with rfl | ⟨s₁, hpages, rfl⟩
  · rfl
  · exact foldlM_invariant (P := fun s₂ => s₂.accounts = s.accounts) hpages rfl
      fun _ _ _ _ hs hpage => (trimPage_accounts hpage).trans hs

/-! ## Runs -/

/-- The call is a write that has been answered well. -/
def okWrite : Call × Answer → Bool
  | (.write _ _, a) => a.ret = .ok
  | _ => false

/-- The number of writes that have been answered well. -/
def okWrites (tr : List (Call × Answer)) : ℕ := tr.countP okWrite

/-- The call replaces no block from which pages are copied. -/
def CopiesNothing (s : Ftl) (call : Call) : Prop :=
  ∀ block, call = .replaceBadBlock block → ¬ s.nand.Copies block

variable {call : Call} {a : Answer} {s₀ : Ftl} {tr : List (Call × Answer)}

/-- A call that copies nothing keeps the accounts, up to the write of the host. -/
theorem exec_accounts (h : s.exec fuel call = some (a, s')) (hcall : s.CopiesNothing call) :
    s'.accounts = (s.accounts.1 + (if okWrite (call, a) then 1 else 0), s.accounts.2) := by
  have hkeeps (hcounted : okWrite (call, a) = false) (hsame : s'.accounts = s.accounts) :
      s'.accounts = (s.accounts.1 + (if okWrite (call, a) then 1 else 0), s.accounts.2) := by
    rw [hcounted, if_neg (by simp), UInt32.add_zero, hsame]
  -- A write counts for both accounts, if it succeeds; the other calls for none.
  cases call with
  | read lpn buf =>
    obtain ⟨_, rfl⟩ := Prod.mk.inj (Option.some_inj.1 h)
    exact hkeeps rfl (read_accounts lpn buf)
  | write lpn buf =>
    obtain ⟨⟨ret, s₁⟩, hwrite, heq⟩ := Option.map_eq_some_iff.1 h
    obtain ⟨rfl, rfl⟩ := Prod.mk.inj heq
    rw [write_accounts hwrite]
    simp [okWrite]
  | trim lpn count =>
    obtain ⟨⟨ret, s₁⟩, htrim, heq⟩ := Option.map_eq_some_iff.1 h
    obtain ⟨_, rfl⟩ := Prod.mk.inj heq
    exact hkeeps rfl (trim_accounts htrim)
  | setGcAlgo algo =>
    obtain ⟨_, rfl⟩ := Prod.mk.inj (Option.some_inj.1 h)
    exact hkeeps rfl rfl
  | triggerGc =>
    obtain ⟨_, rfl⟩ := Prod.mk.inj (Option.some_inj.1 h)
    refine hkeeps rfl ?_
    rw [triggerGc]
    split
    · rfl
    · exact gcDoRecycle_accounts
  | setMapMode mode =>
    obtain ⟨_, rfl⟩ := Prod.mk.inj (Option.some_inj.1 h)
    refine hkeeps rfl ?_
    rw [setMapMode]
    split <;> rfl
  | hotColdMigration =>
    obtain ⟨⟨ret, s₁⟩, hmigrate, heq⟩ := Option.map_eq_some_iff.1 h
    obtain ⟨_, rfl⟩ := Prod.mk.inj heq
    exact hkeeps rfl (accounts_hybridFree.hotColdMigration hmigrate)
  | handleReadDisturb =>
    obtain ⟨_, rfl⟩ := Prod.mk.inj (Option.some_inj.1 h)
    exact hkeeps rfl handleReadDisturb_accounts
  | replaceBadBlock block =>
    obtain ⟨_, rfl⟩ := Prod.mk.inj (Option.some_inj.1 h)
    exact hkeeps rfl (replaceBadBlock_accounts (hcall block rfl))
  | saveSnapshot path =>
    obtain ⟨_, rfl⟩ := Prod.mk.inj (Option.some_inj.1 h)
    refine hkeeps rfl ?_
    rw [saveSnapshot]
    split <;> rfl
  | walInit path =>
    obtain ⟨_, rfl⟩ := Prod.mk.inj (Option.some_inj.1 h)
    exact hkeeps rfl rfl
  | walEnable enable =>
    obtain ⟨_, rfl⟩ := Prod.mk.inj (Option.some_inj.1 h)
    exact hkeeps rfl rfl
  | walClear =>
    obtain ⟨_, rfl⟩ := Prod.mk.inj (Option.some_inj.1 h)
    refine hkeeps rfl ?_
    rw [walClear]
    split <;> rfl

/-- A run in which nothing is copied keeps the accounts, up to the writes of the host. -/
theorem run_accounts (hrun : Run CopiesNothing s₀ tr s) :
    s.accounts = (s₀.accounts.1 + UInt32.ofNat (okWrites tr), s₀.accounts.2) := by
  induction hrun with
  | nil => exact Prod.ext (UInt32.add_zero _).symm rfl
  | @snoc tr s call a s' _ hcall hstep ih =>
    obtain ⟨fuel, hexec⟩ := hstep
    rw [exec_accounts hexec hcall, ih, okWrites, okWrites, List.countP_append,
      List.countP_singleton, UInt32.ofNat_add, ← UInt32.add_assoc]
    split <;> rfl

/-- On power on, nothing has been counted. -/
theorem Fresh.accounts (hfresh : Fresh s) : s.accounts = (0, 0) := by
  obtain ⟨rand, files, hon⟩ := hfresh
  rw [powerOn, init] at hon
  split at hon
  · simp at hon
  · obtain ⟨_, rfl⟩ := Prod.mk.inj hon
    exact Prod.ext rfl (UInt32.sub_self 0)

/-- In every run from power on, of fewer than `2 ^ 32` calls none of which copies pages to replace a
    block, the FTL has counted as many programmed pages as the NAND device, and as many writes of
    the host as have been answered well. -/
theorem run_accounted (hfresh : Fresh s₀) (hrun : Run CopiesNothing s₀ tr s)
    (hlen : tr.length < 2 ^ 32) :
    s.nandWritePages = s.nand.totalWritePages ∧ s.hostWritePages.toNat = okWrites tr := by
  have haccounts := run_accounts hrun
  rw [hfresh.accounts, accounts, Prod.mk.injEq, UInt32.zero_add] at haccounts
  obtain ⟨hhost, hgap⟩ := haccounts
  have hlt : okWrites tr < 2 ^ 32 := Nat.lt_of_le_of_lt List.countP_le_length hlen
  constructor
  · grind
  · rw [hhost, UInt32.toNat_ofNat_of_lt' hlt]

/-- A single write is counted once by both. -/
theorem run_accounted_write : ∃ s₀ s : Ftl, Fresh s₀ ∧
    Run CopiesNothing s₀ [(.write 0 blankPage, ⟨.ok, none⟩)] s ∧
      s.nandWritePages = s.nand.totalWritePages ∧ s.hostWritePages.toNat = 1 := by
  have heq : (((powerOn (fun _ => 99) fun _ => none).2.write 0 0 blankPage).map
      fun r => decide (r.1 = .ok)) = some true := by
    decide +kernel
  obtain ⟨⟨ret, s⟩, hwrite, hret⟩ := Option.map_eq_some_iff.1 heq
  obtain rfl := of_decide_eq_true hret
  have hfresh : Fresh (powerOn (fun _ => 99) fun _ => none).2 := ⟨_, _, Prod.ext rfl rfl⟩
  have hrun : Run CopiesNothing _ [(.write 0 blankPage, ⟨.ok, none⟩)] s :=
    .single (fun _ hcall => absurd hcall (by simp)) ⟨0, by rw [exec, hwrite]; rfl⟩
  exact ⟨_, s, hfresh, hrun, run_accounted hfresh hrun (by decide)⟩

/-- The page copied when the block of a written page is replaced is counted by the NAND device
    only. -/
theorem not_run_accounted : ¬ ∀ (s₀ s : Ftl) (tr : List (Call × Answer)), Fresh s₀ →
    Run (fun _ _ => True) s₀ tr s → tr.length < 2 ^ 32 →
      s.nandWritePages = s.nand.totalWritePages ∧ s.hostWritePages.toNat = okWrites tr := by
  intro hall
  have heq : ((execAll 0 [.write 0 blankPage, .replaceBadBlock 0]
      (powerOn (fun _ => 99) fun _ => none).2).map fun r =>
        decide (r.1.length = 2 ∧ r.2.nandWritePages ≠ r.2.nand.totalWritePages)) = some true := by
    decide +kernel
  obtain ⟨⟨tr, s⟩, hexec, hdata⟩ := Option.map_eq_some_iff.1 heq
  obtain ⟨hlen, hne⟩ := of_decide_eq_true hdata
  have hfresh : Fresh (powerOn (fun _ => 99) fun _ => none).2 := ⟨_, _, Prod.ext rfl rfl⟩
  have hrun : Run (fun _ _ => True) _ tr s := execAll_run (fun _ _ => True.intro) hexec
  refine hne (hall _ s tr hfresh hrun ?_).1
  rw [hlen]
  decide

end Ftl

end FtlFirmware
