import FtlFirmware.Ftl.Replacing
import Mathlib.Logic.Relation

/-!
# The steps of the device

All functions of the FTL are made of a few elementary steps (`Step`): the operations on the NAND
device, the write cursor, and everything that is only a matter of the tables and counters. Pages are
copied through a buffer, which is a part of the state here, so that it is known what is written.

* `Reaches`: what is done by a number of steps. The parameters say what data the host hands over,
  and which blocks may be erased or replaced;
* `gcUntilSpace_reaches`, `checkWear_reaches` and so on: each function reaches its result.

What every step keeps is thus kept by every function, whatever branch it takes.
-/

namespace FtlFirmware

/-- What a read does to the device does not depend on the buffer. -/
theorem Nand.pageRead_nand {n : Nand} (b p : ℕ) (buf buf' : PageData) :
    (n.pageRead b p buf).2.2 = (n.pageRead b p buf').2.2 := by
  rw [Nand.pageRead, Nand.pageRead]
  split_ifs <;> rfl

namespace Ftl

variable {D : Set PageData} {E B : Set ℕ} {s s' : Ftl} {buf d : PageData} {b p lpn ppn src dst : ℕ}
  {ret : RetCode}

/-- The device is the same up to its maps, counters and settings. -/
structure SameDevice (s s' : Ftl) : Prop where
  nand : s'.nand = s.nand
  files : s'.files = s.files
  walFile : s'.walFile = s.walFile
  walEnabled : s'.walEnabled = s.walEnabled
  walSequence : s'.walSequence = s.walSequence
  curWriteBlock : s'.curWriteBlock = s.curWriteBlock
  curWritePage : s'.curWritePage = s.curWritePage
  isInitialized : s'.isInitialized = s.isInitialized

theorem SameDevice.of_eq
    (h : (s'.nand, s'.files, s'.walFile, s'.walEnabled, s'.walSequence, s'.curWriteBlock,
        s'.curWritePage, s'.isInitialized) =
      (s.nand, s.files, s.walFile, s.walEnabled, s.walSequence, s.curWriteBlock,
        s.curWritePage, s.isInitialized)) :
    SameDevice s s' := by
  simp only [Prod.mk.injEq] at h
  obtain ⟨hnand, hfiles, hfile, hwal, hseq, hblock, hpage, hinit⟩ := h
  exact ⟨hnand, hfiles, hfile, hwal, hseq, hblock, hpage, hinit⟩

theorem SameDevice.trans {s'' : Ftl} (h : SameDevice s s') (h' : SameDevice s' s'') :
    SameDevice s s'' where
  nand := h'.nand.trans h.nand
  files := h'.files.trans h.files
  walFile := h'.walFile.trans h.walFile
  walEnabled := h'.walEnabled.trans h.walEnabled
  walSequence := h'.walSequence.trans h.walSequence
  curWriteBlock := h'.curWriteBlock.trans h.curWriteBlock
  curWritePage := h'.curWritePage.trans h.curWritePage
  isInitialized := h'.isInitialized.trans h.isInitialized

/-- The device is the same, and the next check of the wear is due at the same time. -/
structure SameCheck (s s' : Ftl) : Prop extends SameDevice s s' where
  writeSinceLastCheck : s'.writeSinceLastCheck = s.writeSinceLastCheck

theorem SameCheck.of_eq
    (h : (s'.nand, s'.files, s'.walFile, s'.walEnabled, s'.walSequence, s'.curWriteBlock,
        s'.curWritePage, s'.isInitialized) =
      (s.nand, s.files, s.walFile, s.walEnabled, s.walSequence, s.curWriteBlock,
        s.curWritePage, s.isInitialized))
    (hcheck : s'.writeSinceLastCheck = s.writeSinceLastCheck) : SameCheck s s' :=
  ⟨.of_eq h, hcheck⟩

/-- A page of the block of the write cursor, or of the user area. -/
def Writable (s : Ftl) (b : ℕ) : Prop :=
  b < userBlocks ∨ ∃ p < pagesPerBlock, b = ppnToBlock (blockPageToPpn s.curWriteBlock p)

/-- An elementary step of the device and the buffer. The host hands over data of `D`; blocks of `E`
    may be erased, and blocks of `B` replaced. -/
inductive Step (D : Set PageData) (E B : Set ℕ) : Ftl × PageData → Ftl × PageData → Prop
  | books {s s' : Ftl} {buf : PageData} : SameDevice s s' → Step D E B (s, buf) (s', buf)
  | clear {s : Ftl} {buf : PageData} : Step D E B (s, buf) (s, blankPage)
  | load {s : Ftl} {buf d : PageData} : d ∈ D → Step D E B (s, buf) (s, d)
  | alloc {s s' : Ftl} {ppn : ℕ} {buf : PageData} : s.allocPhyPage = some (ppn, s') →
      Step D E B (s, buf) (s', buf)
  | read {s : Ftl} {buf : PageData} (b p : ℕ) : Step D E B (s, buf)
      ({ s with nand := (s.nand.pageRead b p buf).2.2 }, (s.nand.pageRead b p buf).2.1)
  | write {s : Ftl} {buf : PageData} {b : ℕ} (p : ℕ) : s.Writable b → Step D E B (s, buf)
      ({ s with nand := (s.nand.pageWrite b p buf).2 }, buf)
  | invalidate {s : Ftl} {buf : PageData} {b : ℕ} (p : ℕ) : b < userBlocks → Step D E B (s, buf)
      ({ s with nand := (s.nand.markPageInvalid b p).2 }, buf)
  | erase {s : Ftl} {buf : PageData} {b : ℕ} : b ∈ E → Step D E B (s, buf)
      ({ s with nand := (s.nand.blockErase b).2 }, buf)
  | markCold {s : Ftl} {buf : PageData} {b : ℕ} : b < userBlocks → Step D E B (s, buf)
      ({ s with nand := (s.nand.markColdBlock b).2 }, buf)
  | replace {s : Ftl} {buf : PageData} {b : ℕ} : b ∈ B → Step D E B (s, buf)
      ((s.replaceBadBlock b).2, buf)

/-- Steps of the device and the buffer. -/
abbrev Steps (D : Set PageData) (E B : Set ℕ) : Ftl × PageData → Ftl × PageData → Prop :=
  Relation.ReflTransGen (Step D E B)

/-- Steps of the device, beginning and ending with any buffer. -/
def Reaches (D : Set PageData) (E B : Set ℕ) (s s' : Ftl) : Prop :=
  ∀ buf, ∃ buf', Steps D E B (s, buf) (s', buf')

/-- What every step keeps is kept by all of them. -/
theorem Steps.invariant {P : Ftl × PageData → Prop} {x y : Ftl × PageData} (h : Steps D E B x y)
    (hx : P x) (hstep : ∀ x y, P x → Step D E B x y → P y) : P y := by
  induction h with
  | refl => exact hx
  | tail _ hlast ih => exact hstep _ _ ih hlast

namespace Reaches

theorem refl (s : Ftl) : Reaches D E B s s := fun buf => ⟨buf, .refl⟩

theorem trans {s'' : Ftl} (h : Reaches D E B s s') (h' : Reaches D E B s' s'') :
    Reaches D E B s s'' := fun buf => by
  obtain ⟨buf₁, hsteps⟩ := h buf
  obtain ⟨buf₂, hsteps'⟩ := h' buf₁
  exact ⟨buf₂, hsteps.trans hsteps'⟩

theorem books (h : SameDevice s s') : Reaches D E B s s' := fun buf => ⟨buf, .single (.books h)⟩

/-- Steps that begin with an empty buffer. -/
theorem of_clear (h : Steps D E B (s, blankPage) (s', buf)) : Reaches D E B s s' :=
  fun _ => ⟨buf, .head .clear h⟩

theorem erase (hb : b ∈ E) : Reaches D E B s { s with nand := (s.nand.blockErase b).2 } :=
  fun buf => ⟨buf, .single (.erase hb)⟩

theorem replace (hb : b ∈ B) : Reaches D E B s (s.replaceBadBlock b).2 :=
  fun buf => ⟨buf, .single (.replace hb)⟩

theorem alloc (h : s.allocPhyPage = some (ppn, s')) : Reaches D E B s s' :=
  fun buf => ⟨buf, .single (.alloc h)⟩

/-- More blocks may be erased or replaced. -/
theorem univ (h : Reaches D E B s s') : Reaches D Set.univ Set.univ s s' := fun buf => by
  obtain ⟨buf', hsteps⟩ := h buf
  refine ⟨buf', Relation.ReflTransGen.mono (fun x y hstep => ?_) _ _ hsteps⟩
  cases hstep with
  | books hsame => exact .books hsame
  | clear => exact .clear
  | load hd => exact .load hd
  | alloc halloc => exact .alloc halloc
  | read b p => exact .read b p
  | write p hw => exact .write p hw
  | invalidate p hb => exact .invalidate p hb
  | erase _ => exact .erase (Set.mem_univ _)
  | markCold hb => exact .markCold hb
  | replace _ => exact .replace (Set.mem_univ _)

/-- What every step keeps holds in the end, with some buffer. -/
theorem invariant {P : Ftl × PageData → Prop} (h : Reaches D E B s s') (hs : P (s, blankPage))
    (hstep : ∀ x y, P x → Step D E B x y → P y) : ∃ buf, P (s', buf) := by
  obtain ⟨buf, hsteps⟩ := h blankPage
  exact ⟨buf, hsteps.invariant hs hstep⟩

end Reaches

/-! ## Replacing a block -/

/-- Redirecting the maps leaves the device alone. -/
theorem remapPages_same (moved : UInt32) (pages : List ℕ) (s : Ftl) :
    SameDevice s (remapPages src dst moved pages s).2 := by
  induction pages generalizing s moved with
  | nil => exact .of_eq rfl
  | cons page pages ih =>
    rw [remapPages]
    split
    · exact ih moved s
    · refine SameDevice.trans ?_ (ih (moved + 1) _)
      exact .of_eq rfl

/-- A replacement fails, and changes nothing, or it is one of the NAND device, with which the write
    cursor goes along. -/
theorem replaceBadBlock_device (s : Ftl) (b : ℕ) :
    (∃ ret, ret ≠ .ok ∧ s.replaceBadBlock b = (ret, s)) ∨
      ∃ r n, s.isInitialized ∧ s.nand.replaceBadBlock b = (.ok r, n) ∧
        (s.replaceBadBlock b).1 = .ok ∧ SameDevice { s with
          nand := n
          curWriteBlock := if s.curWriteBlock = b then r else s.curWriteBlock }
            (s.replaceBadBlock b).2 := by
  rw [replaceBadBlock]
  split
  · exact Or.inl ⟨.errNotInit, by simp, rfl⟩
  next hon =>
  split
  · exact Or.inl ⟨.errParam, by simp, rfl⟩
  split
  · next ret n heq =>
    rcases s.nand.replaceBadBlock_cases b with
      ⟨ret', heq'⟩ | ⟨r, _, _, _, _, _, ⟨_, heq'⟩ | ⟨_, heq'⟩⟩ <;>
      rw [heq'] at heq
    · obtain ⟨hret, rfl⟩ := Prod.mk.inj heq
      obtain rfl := Except.error.inj hret
      exact Or.inl ⟨ret', Nand.replaceBadBlock_error (by rw [heq']), rfl⟩
    · simp at heq
    · simp at heq
  · next r n heq =>
    have hsame : SameDevice { s with nand := n }
        (remapPages b r 0 (List.range pagesPerBlock) { s with nand := n }).2 := remapPages_same _ _ _
    refine Or.inr ⟨r, n, not_not.1 hon, heq, rfl, ?_⟩
    exact {
      nand := hsame.nand
      files := hsame.files
      walFile := hsame.walFile
      walEnabled := hsame.walEnabled
      walSequence := hsame.walSequence
      curWriteBlock := by
        dsimp only
        rw [hsame.curWriteBlock]
      curWritePage := hsame.curWritePage
      isInitialized := hsame.isInitialized }

theorem replaceBadBlock_nand (s : Ftl) (b : ℕ) : (s.replaceBadBlock b).2.nand = s.nand ∨
    (s.replaceBadBlock b).2.nand = (s.nand.replaceBadBlock b).2 := by
  rcases s.replaceBadBlock_device b with ⟨ret, _, heq⟩ | ⟨r, n, _, heq, _, hsame⟩
  · rw [heq]
    exact Or.inl rfl
  · rw [hsame.nand, heq]
    exact Or.inr rfl

/-! ## The page taken for a write -/

/-- The page taken is one of the block in which the write cursor is then. -/
theorem allocPhyPage_writable (h : s.allocPhyPage = some (ppn, s')) :
    s'.Writable (ppnToBlock ppn) := by
  rcases allocPhyPage_cases h with ⟨hlt, rfl, rfl⟩ | ⟨_, b, _, rfl, rfl⟩
  · exact Or.inr ⟨_, hlt, rfl⟩
  · exact Or.inr ⟨0, by decide, rfl⟩

/-! ## Blocks of the user area -/

theorem mem_blocksIn_range {n : Nand} {st : BlockState} (hb : b ∈ n.blocksIn st (List.range
    userBlocks)) : b < userBlocks :=
  List.mem_range.1 (List.mem_filter.1 hb).1

theorem staticWearPair_user {n : Nand} (h : staticWearPair n = some (src, dst)) :
    src < userBlocks ∧ dst < userBlocks := by
  rw [staticWearPair] at h
  split at h
  · split at h
    · next hsrc hdst =>
      obtain ⟨rfl, rfl⟩ := Prod.mk.inj (Option.some_inj.1 h)
      exact ⟨mem_blocksIn_range (scan_mem hsrc), mem_blocksIn_range (scan_mem hdst)⟩
    · simp at h
  · simp at h

theorem checkReadDisturb_user {n : Nand} (h : n.checkReadDisturb = some src) :
    src < userBlocks := by
  rw [Nand.checkReadDisturb] at h
  split at h
  · exact mem_blocksIn_range (scan_mem h)
  · simp at h

theorem findNextFreeBlock_zero_user (h : s.findNextFreeBlock 0 = some b) : b < userBlocks := by
  have hmem := List.mem_of_find?_eq_some h
  simpa using hmem

/-- The scan finds a block among those it goes through. -/
theorem wearScan_user {n : Nand} (h : (wearScan n).2.2 = some b) : b < userBlocks := by
  have hfold : ∀ (l : List ℕ) (acc : UInt32 × UInt32 × Option ℕ),
      (l.foldl (wearScanStep n) acc).2.2 = some b → acc.2.2 = some b ∨ b ∈ l := by
    intro l
    induction l with
    | nil => exact fun acc h => Or.inl h
    | cons i l ih =>
      intro acc h
      rw [List.foldl_cons] at h
      rcases ih _ h with h | h
      · rw [wearScanStep] at h
        split at h
        · exact Or.inl h
        · dsimp only at h
          split at h
          · exact Or.inr (Option.some_inj.1 h ▸ List.mem_cons_self)
          · exact Or.inl h
      · exact Or.inr (List.mem_cons_of_mem _ h)
  exact List.mem_range.1 ((hfold _ _ h).resolve_left (by simp))

/-! ## Garbage collection -/

theorem gcMovePage_steps (victim page lpn : ℕ) (buf : PageData) :
    Steps D E B (s, buf) ((s.gcMovePage victim page lpn buf).2.2,
      (s.gcMovePage victim page lpn buf).2.1) := by
  have hread : Steps D E B (s, buf) ({ s with nand := (s.nand.pageRead victim page buf).2.2 },
      (s.nand.pageRead victim page buf).2.1) := .single (.read victim page)
  rw [gcMovePage]
  split
  · exact hread
  · next newPpn s₁ halloc =>
    have hwrite := (hread.tail (.alloc halloc)).tail
      (.write (ppnToPage newPpn) (allocPhyPage_writable halloc))
    split
    · next nand hw =>
      rw [hw] at hwrite
      exact hwrite.tail (.books (.of_eq rfl))
    · next nand _ hw =>
      rw [hw] at hwrite
      exact hwrite

theorem recyclePages_steps (victim : ℕ) (pages : List ℕ) (s : Ftl) (buf : PageData) :
    ∃ buf', Steps D E B (s, buf) ((recyclePages victim buf pages s).2, buf') := by
  induction pages generalizing s buf with
  | nil => exact ⟨buf, .refl⟩
  | cons page pages ih =>
    rw [recyclePages]
    split
    · exact ih s buf
    · split
      · exact ih s buf
      · next lpn _ =>
        have hmove := gcMovePage_steps (D := D) (E := E) (B := B) (s := s) victim page lpn buf
        split
        · next buf₁ s₁ hm =>
          rw [hm] at hmove
          obtain ⟨buf', hrest⟩ := ih s₁ buf₁
          exact ⟨buf', hmove.trans hrest⟩
        · next buf₁ s₁ _ hm =>
          rw [hm] at hmove
          exact ⟨buf₁, hmove⟩

/-- A garbage collection erases its victim only. -/
theorem gcDoRecycle_reaches (hE : ∀ victim, s.gcSelectVictimBlock = some victim → victim ∈ E) :
    Reaches D E B s s.gcDoRecycle.2 := by
  rw [gcDoRecycle]
  split
  · exact .refl s
  · next victim hvictim =>
    set counted : Ftl := { s with gcCount := s.gcCount + 1 } with hcounted
    obtain ⟨buf', hsteps⟩ := recyclePages_steps (D := D) (E := E) (B := B) victim
      (List.range pagesPerBlock) counted blankPage
    have hcount : Reaches D E B s counted := .books (.of_eq rfl)
    split
    · next s₁ hr =>
      rw [hr] at hsteps
      exact hcount.trans ((Reaches.of_clear hsteps).trans (.erase (hE victim hvictim)))
    · next s₁ _ hr =>
      rw [hr] at hsteps
      exact hcount.trans (.of_clear hsteps)

theorem gcUntilSpace_reaches {fuel : ℕ} (h : gcUntilSpace fuel s = some (ret, s')) :
    Reaches D Set.univ B s s' := by
  induction fuel generalizing s with
  | zero =>
    rw [gcUntilSpace] at h
    split at h
    · simp at h
    · obtain ⟨_, rfl⟩ := Prod.mk.inj (Option.some_inj.1 h)
      exact .refl s
  | succ fuel ih =>
    have hrecycle : Reaches D Set.univ B s s.gcDoRecycle.2 :=
      gcDoRecycle_reaches fun _ _ => Set.mem_univ _
    rw [gcUntilSpace] at h
    split at h
    · split at h
      · next s₁ hr =>
        rw [hr] at hrecycle
        exact hrecycle.trans (ih h)
      · next s₁ _ hr =>
        rw [hr] at hrecycle
        obtain ⟨_, rfl⟩ := Prod.mk.inj (Option.some_inj.1 h)
        exact hrecycle
    · obtain ⟨_, rfl⟩ := Prod.mk.inj (Option.some_inj.1 h)
      exact .refl s

/-! ## Relocations -/

theorem migratePage_steps (hsrc : src < userBlocks) (hdst : dst < userBlocks) (page lpn : ℕ)
    (buf : PageData) :
    Steps D E B (s, buf) ((s.migratePage src dst page lpn buf).2.2,
      (s.migratePage src dst page lpn buf).2.1) := by
  have hwrite : Steps D E B (s, buf) ({ s with
      nand := ((s.nand.pageRead src page buf).2.2.pageWrite dst page
        (s.nand.pageRead src page buf).2.1).2 }, (s.nand.pageRead src page buf).2.1) :=
    .tail (.single (.read src page)) (.write page (Or.inl hdst))
  rw [migratePage]
  dsimp only
  split
  · next nand hw =>
    rw [hw] at hwrite
    set moved := remap { s with nand := nand, nandWritePages := s.nandWritePages + 1 } lpn
      (blockPageToPpn src page) (blockPageToPpn dst page) with hmoved
    have hbooks : SameDevice { s with nand := nand } moved := .of_eq rfl
    exact (hwrite.tail (.books hbooks)).tail (.invalidate page hsrc)
  · next nand _ hw =>
    rw [hw] at hwrite
    exact hwrite

theorem migratePages_steps (hsrc : src < userBlocks) (hdst : dst < userBlocks) (pages : List ℕ)
    (s : Ftl) (buf : PageData) (moved : UInt32) :
    ∃ buf', Steps D E B (s, buf) ((migratePages src dst buf moved pages s).2, buf') := by
  induction pages generalizing s buf moved with
  | nil => exact ⟨buf, .refl⟩
  | cons page pages ih =>
    rw [migratePages]
    split
    · exact ih s buf moved
    · split
      · exact ih s buf moved
      · next lpn _ =>
        have hmove := migratePage_steps (D := D) (E := E) (B := B) (s := s) hsrc hdst page lpn buf
        split
        · next buf₁ s₁ hm =>
          rw [hm] at hmove
          obtain ⟨buf', hrest⟩ := ih s₁ buf₁ (moved + 1)
          exact ⟨buf', hmove.trans hrest⟩
        · next buf₁ s₁ _ hm =>
          rw [hm] at hmove
          obtain ⟨buf', hrest⟩ := ih s₁ buf₁ moved
          exact ⟨buf', hmove.trans hrest⟩

/-- The blocks of the user area. -/
def userArea : Set ℕ := {b | b < userBlocks}

/-- A block is moved to another one and erased. -/
theorem relocate_reaches (hsrc : src < userBlocks) (hdst : dst < userBlocks) (s : Ftl) :
    Reaches D userArea B s
      { (migratePages src dst blankPage 0 (List.range pagesPerBlock) s).2 with
        nand := ((migratePages src dst blankPage 0 (List.range pagesPerBlock)
          s).2.nand.blockErase src).2 } := by
  obtain ⟨buf', hsteps⟩ := migratePages_steps (D := D) (E := userArea) (B := B) hsrc hdst
    (List.range pagesPerBlock) s blankPage 0
  exact (Reaches.of_clear hsteps).trans (.erase hsrc)

theorem staticWearLevelingCheck_reaches : Reaches D userArea B s s.staticWearLevelingCheck := by
  rw [staticWearLevelingCheck]
  split
  · exact .refl s
  · next src dst hpair =>
    obtain ⟨hsrc, hdst⟩ := staticWearPair_user hpair
    exact (relocate_reaches hsrc hdst s).trans (.books (.of_eq rfl))

theorem wearLevelingCheck_reaches : Reaches D E B s s.wearLevelingCheck := by
  rw [wearLevelingCheck]
  dsimp only
  split
  · split
    · exact .refl s
    · next coldBlock hcold =>
      have hmark : Reaches D E B s { s with nand := (s.nand.markColdBlock coldBlock).2 } :=
        fun buf => ⟨buf, .single (.markCold (wearScan_user hcold))⟩
      exact hmark.trans (.books (.of_eq rfl))
  · exact .refl s

theorem checkWear_reaches : Reaches D userArea B s s.checkWear := by
  have hwear : Reaches D userArea B s s.wearLevelingCheck := wearLevelingCheck_reaches
  rw [checkWear]
  dsimp only
  split
  · exact (hwear.trans (.books (.of_eq (by rfl)))).trans staticWearLevelingCheck_reaches
  · exact hwear.trans (.books (.of_eq (by rfl)))

theorem handleReadDisturb_reaches : Reaches D userArea B s s.handleReadDisturb.2 := by
  rw [handleReadDisturb]
  split
  · exact .refl s
  · split
    · exact .refl s
    · next src hsrc =>
      split
      · exact .refl s
      · next dst hdst =>
        exact relocate_reaches (checkReadDisturb_user hsrc) (findNextFreeBlock_zero_user hdst) s

/-! ## Hybrid mapping -/

/-- What leaves alone all that does not depend on the hybrid mapping leaves the device alone. -/
theorem SameCheck.of_hybridFree (h : ∀ {β : Type} {f : Ftl → β}, HybridFree f → f s' = f s) :
    SameCheck s s' where
  nand := h (f := (·.nand)) fun _ _ _ _ _ _ => rfl
  files := h (f := (·.files)) fun _ _ _ _ _ _ => rfl
  walFile := h (f := (·.walFile)) fun _ _ _ _ _ _ => rfl
  walEnabled := h (f := (·.walEnabled)) fun _ _ _ _ _ _ => rfl
  walSequence := h (f := (·.walSequence)) fun _ _ _ _ _ _ => rfl
  curWriteBlock := h (f := (·.curWriteBlock)) fun _ _ _ _ _ _ => rfl
  curWritePage := h (f := (·.curWritePage)) fun _ _ _ _ _ _ => rfl
  isInitialized := h (f := (·.isInitialized)) fun _ _ _ _ _ _ => rfl
  writeSinceLastCheck := h (f := (·.writeSinceLastCheck)) fun _ _ _ _ _ _ => rfl

theorem hybridUpdateAccessCount_same : SameCheck s (s.hybridUpdateAccessCount lpn) :=
  .of_hybridFree fun hf => hf.hybridUpdateAccessCount

theorem hotColdMigration_same (h : s.hotColdMigration = some (ret, s')) : SameCheck s s' :=
  .of_hybridFree fun hf => hf.hotColdMigration h

theorem hybridWrite_same (h : s.hybridWrite lpn ppn = some s') : SameCheck s s' :=
  .of_hybridFree fun hf => hf.hybridWrite h

/-! ## The calls of the host -/

theorem read_reaches (lpn : ℕ) (buf : PageData) : Reaches D E Set.univ s (s.read lpn buf).2.2 := by
  rw [read]
  split
  · exact .refl s
  · split
    · exact .refl s
    · split
      · exact .refl s
      · next ppn _ =>
        -- What is read does not matter for the device.
        have hread : Reaches D E Set.univ s
            { s with nand := (s.nand.pageRead (ppnToBlock ppn) (ppnToPage ppn) buf).2.2 } := by
          intro buf'
          rw [Nand.pageRead_nand _ _ buf buf']
          exact ⟨_, .single (.read _ _)⟩
        dsimp only
        split
        · exact hread.trans (.replace (Set.mem_univ _))
        · split
          · exact hread.trans (.books hybridUpdateAccessCount_same.toSameDevice)
          · exact hread

theorem triggerGc_reaches : Reaches D Set.univ B s s.triggerGc.2 := by
  rw [triggerGc]
  split
  · exact .refl s
  · exact gcDoRecycle_reaches fun _ _ => Set.mem_univ _

/-- The page taken for a write is programmed with the data of the host. -/
theorem programPage_reaches (hbuf : buf ∈ D) (hw : s.Writable (ppnToBlock ppn)) :
    Reaches D E Set.univ s (s.programPage ppn buf).2.2 := by
  have hwrite (s : Ftl) (ppn : ℕ) (hw : s.Writable (ppnToBlock ppn)) : Reaches D E Set.univ s
      { s with nand := (s.nand.pageWrite (ppnToBlock ppn) (ppnToPage ppn) buf).2 } :=
    fun _ => ⟨buf, .tail (.single (.load hbuf)) (.write (ppnToPage ppn) hw)⟩
  have hfirst := hwrite s ppn hw
  rw [programPage]
  dsimp only
  split
  · set written : Ftl :=
      { s with nand := (s.nand.pageWrite (ppnToBlock ppn) (ppnToPage ppn) buf).2 } with hwritten
    have hreplaced : Reaches D E Set.univ s (written.replaceBadBlock (ppnToBlock ppn)).2 :=
      hfirst.trans (.replace (Set.mem_univ _))
    split
    · next s₁ hr =>
      rw [hr] at hreplaced
      split
      · exact hreplaced
      · next newPpn s₂ halloc =>
        have halloc' : Reaches D E Set.univ s₁ s₂ := .alloc halloc
        exact (hreplaced.trans halloc').trans (hwrite s₂ newPpn (allocPhyPage_writable halloc))
    · next s₁ _ hr =>
      rw [hr] at hreplaced
      exact hreplaced
  · exact hfirst

/-- Redirecting the maps to a new page invalidates the old one. -/
theorem commitWrite_same (h : s.commitWrite lpn ppn = some s') :
    SameCheck s s' ∨ ∃ old, s.l2pTable lpn = some old ∧
      SameCheck { s with nand := (s.nand.markPageInvalid (ppnToBlock old) (ppnToPage old)).2 }
        s' := by
  rw [commitWrite] at h
  dsimp only at h
  cases hl : s.l2pTable lpn with
  | none =>
    rw [hl] at h
    obtain rfl := Option.some_inj.1 h
    exact Or.inl (.of_eq rfl rfl)
  | some old =>
    rw [hl] at h
    dsimp only at h
    split at h
    · simp at h
    · obtain rfl := Option.some_inj.1 h
      exact Or.inr ⟨old, rfl, .of_eq rfl rfl⟩

/-- A write that has come as far as to be logged: steps, the entry of the log, steps, and the maps
    may have been redirected. -/
def Written (D : Set PageData) (s : Ftl) (lpn : ℕ) (ret : RetCode) (s' : Ftl) : Prop :=
  ∃ s₁ taken s₂, Reaches D Set.univ Set.univ s s₁ ∧
    Reaches D Set.univ Set.univ (s₁.walLogWrite lpn (s₁.l2pTable lpn) taken).2 s₂ ∧
      (ret ≠ .ok ∧ s' = s₂ ∨ ret = .ok ∧ ∃ ppn s₃, s₂.commitWrite lpn ppn = some s₃ ∧
        Reaches D userArea Set.univ s₃ s')

theorem finishWrite_steps (h : s.finishWrite lpn ppn = some s') :
    ∃ s₁, s.commitWrite lpn ppn = some s₁ ∧ Reaches D userArea B s₁ s' := by
  rw [finishWrite] at h
  obtain ⟨s₁, hcommit, hrest⟩ := Option.bind_eq_some_iff.1 h
  have hwear : Reaches D userArea B s₁ s₁.checkWear := checkWear_reaches
  refine ⟨s₁, hcommit, ?_⟩
  dsimp only at hrest
  split at hrest
  · exact hwear.trans (.books (hybridWrite_same hrest).toSameDevice)
  · obtain rfl := Option.some_inj.1 hrest
    exact hwear

/-- A write fails before it is logged, or it is logged. -/
theorem write_steps {fuel : ℕ} (hbuf : buf ∈ D) (h : s.write fuel lpn buf = some (ret, s')) :
    ret ≠ .ok ∧ Reaches D Set.univ Set.univ s s' ∨ lpn < totalLpns ∧ s.Written D lpn ret s' := by
  rw [write] at h
  split at h
  · obtain ⟨rfl, rfl⟩ := Prod.mk.inj (Option.some_inj.1 h)
    exact Or.inl ⟨by simp, .refl s⟩
  split at h
  · obtain ⟨rfl, rfl⟩ := Prod.mk.inj (Option.some_inj.1 h)
    exact Or.inl ⟨by simp, .refl s⟩
  next hlpn =>
  split at h
  · simp at h
  · next s₁ hgc =>
    -- The write comes after the garbage collections, with a page allocated and logged.
    have hcollect : Reaches D Set.univ Set.univ s s₁ := gcUntilSpace_reaches hgc
    rw [writeOut] at h
    split at h
    · obtain ⟨rfl, rfl⟩ := Prod.mk.inj (Option.some_inj.1 h)
      exact Or.inl ⟨by simp, hcollect⟩
    next newPpn s₂ halloc =>
    have halloc' : Reaches D Set.univ Set.univ s₁ s₂ := .alloc halloc
    refine Or.inr ⟨Nat.lt_of_not_le hlpn, s₂, newPpn, ?_⟩
    obtain ⟨files, sequence, count, hlog⟩ :=
      s₂.walLog_ok (writeEntry lpn (s₂.l2pTable lpn) newPpn)
    rw [walLogWrite, hlog] at h ⊢
    dsimp only at h ⊢
    set logged : Ftl := { s₂ with files := files, walSequence := sequence, walEntryCount := count }
    have hwritable := allocPhyPage_writable halloc
    have hprogram : Reaches D Set.univ Set.univ logged (logged.programPage newPpn buf).2.2 :=
      programPage_reaches hbuf hwritable
    split at h
    · next ppn s₃ hp =>
      rw [hp] at hprogram
      obtain ⟨s₄, hfinish, heq⟩ := Option.map_eq_some_iff.1 h
      obtain ⟨rfl, rfl⟩ := Prod.mk.inj heq
      obtain ⟨s₅, hcommit, hend⟩ := finishWrite_steps hfinish
      exact ⟨s₃, hcollect.trans halloc', hprogram, Or.inr ⟨rfl, ppn, s₅, hcommit, hend⟩⟩
    · next ret' ppn s₃ hret hp =>
      rw [hp] at hprogram
      obtain ⟨rfl, rfl⟩ := Prod.mk.inj (Option.some_inj.1 h)
      exact ⟨s₃, hcollect.trans halloc', hprogram, Or.inl ⟨hret, rfl⟩⟩
  · next ret' s₁ hret hgc =>
    obtain ⟨rfl, rfl⟩ := Prod.mk.inj (Option.some_inj.1 h)
    exact Or.inl ⟨hret, gcUntilSpace_reaches hgc⟩

end Ftl

end FtlFirmware
