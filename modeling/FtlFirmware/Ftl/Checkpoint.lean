import FtlFirmware.Ftl.Calm
import FtlFirmware.Ftl.Replaying
import FtlFirmware.Ftl.Steps

/-!
# Checkpoints

At a checkpoint, a snapshot is saved and the log is cleared. The replay of the log on top of the
snapshot is to change nothing then, and each write and trim that follows is to be found by a later
replay (`Found`).

Clearing the log only closes its file. So all entries stay, and the replay changes nothing exactly
if they agree with the snapshot (`walReplay_eq_self`): moves of the garbage collection, of the wear
levelling and of the replacement of blocks are not logged. What follows is found exactly if the log
has been opened again before (`found_iff`), and then also by every later replay
(`checkpoint_logged`).
-/

namespace FtlFirmware

namespace Ftl

variable {s s' s'' : Ftl} {log path snap : String} {e : WalEntry} {es : List WalEntry} {call : Call}
  {a : Answer} {lpn fuel : ℕ} {count : UInt32} {buf : PageData} {ret : RetCode}

/-! ## What is to hold -/

/-- The calls that are logged, each with the operations and logical pages of its entries: a write,
    and a trim of the pages that are mapped. -/
def toLog (s : Ftl) : Call → List (UInt32 × ℕ)
  | .write lpn _ => [(walOpWrite, lpn)]
  | .trim lpn count =>
    ((List.range' lpn.toNat (trimLength lpn count)).filter fun i => (s.l2pTable i).isSome).map
      fun i => (walOpTrim, i)
  | _ => []

/-- The call is a write or a trim. -/
def Logged : Call → Prop
  | .write _ _ | .trim _ _ => True
  | _ => False

/-- A call that has been made in `s` is found by a replay in `s'`: its entries are intact, and come
    right after those that have been there before. -/
def Found (log : String) (s : Ftl) (call : Call) (s' : Ftl) : Prop :=
  ∃ es, s.logOf log ++ es <+: s'.logOf log ∧ (∀ e ∈ es, e.intact) ∧
    es.map (fun e => (e.op, e.lpn.toNat)) = s.toLog call

/-- The log file has whole entries only. -/
def Whole (s : Ftl) (log : String) : Prop := WalEntry.size ∣ ((s.files log).getD []).length

/-- No snapshot is saved over the log file. -/
def Keeping (log : String) (_ : Ftl) : Call → Prop
  | .saveSnapshot path => path ≠ log
  | _ => True

/-! ## What changes the log -/

/-- The log files and the state of the log are the same. -/
structure SameLog (s s' : Ftl) : Prop where
  files : s'.files = s.files
  walFile : s'.walFile = s.walFile
  walEnabled : s'.walEnabled = s.walEnabled
  walSequence : s'.walSequence = s.walSequence

theorem SameDevice.sameLog (h : SameDevice s s') : SameLog s s' :=
  ⟨h.files, h.walFile, h.walEnabled, h.walSequence⟩

namespace SameLog

theorem trans (h : SameLog s s') (h' : SameLog s' s'') : SameLog s s'' where
  files := h'.files.trans h.files
  walFile := h'.walFile.trans h.walFile
  walEnabled := h'.walEnabled.trans h.walEnabled
  walSequence := h'.walSequence.trans h.walSequence

theorem logOf (h : SameLog s s') : s'.logOf log = s.logOf log := by
  rw [Ftl.logOf, Ftl.logOf, h.files]

theorem whole (h : SameLog s s') (hwhole : s.Whole log) : s'.Whole log := by
  rw [Whole, h.files]
  exact hwhole

/-- An entry is logged in the same way. -/
theorem walLog (h : SameLog s s') (e : WalEntry) : SameLog (s.walLog e).2 (s'.walLog e).2 := by
  rw [Ftl.walLog, Ftl.walLog, h.walEnabled, h.walFile]
  split
  · exact h
  · rw [walAppend, walAppend, h.walFile]
    cases hfile : s.walFile with
    | none => exact h
    | some path =>
      dsimp only
      refine ⟨?_, rfl, h.walEnabled, ?_⟩
      · rw [h.files, h.walSequence]
      · rw [h.walSequence]

end SameLog

/-- The replacement of a block is not logged. -/
theorem replaceBadBlock_sameLog (b : ℕ) : SameLog s (s.replaceBadBlock b).2 := by
  rcases s.replaceBadBlock_device b with ⟨ret, _, heq⟩ | ⟨_, _, _, _, _, hsame⟩
  · rw [heq]
    exact ⟨rfl, rfl, rfl, rfl⟩
  · refine SameLog.trans ?_ hsame.sameLog
    exact ⟨rfl, rfl, rfl, rfl⟩

/-- The steps of the device are not logged. -/
theorem Reaches.sameLog {D : Set PageData} {E B : Set ℕ} (h : Reaches D E B s s') : SameLog s s' := by
  obtain ⟨_, hlog⟩ := h.invariant (P := fun x => SameLog s x.1) ⟨rfl, rfl, rfl, rfl⟩
      fun x y hx hstep => by
    refine hx.trans ?_
    cases hstep with
    | books hsame => exact hsame.sameLog
    | alloc halloc =>
      rcases allocPhyPage_cases halloc with ⟨_, _, rfl⟩ | ⟨_, _, _, _, rfl⟩
      · exact ⟨rfl, rfl, rfl, rfl⟩
      · exact ⟨rfl, rfl, rfl, rfl⟩
    | @replace s₁ _ b _ => exact replaceBadBlock_sameLog b
    | _ => exact ⟨rfl, rfl, rfl, rfl⟩
  exact hlog

/-- Entries logged one after another. -/
def walLogAll (s : Ftl) (es : List WalEntry) : Ftl := es.foldl (fun s e => (s.walLog e).2) s

theorem SameLog.walLogAll (h : SameLog s s') (es : List WalEntry) :
    SameLog (s.walLogAll es) (s'.walLogAll es) := by
  induction es generalizing s s' with
  | nil => exact h
  | cons e es ih => exact ih (h.walLog e)

/-- A write logs one entry, if it comes as far as that. -/
theorem write_log (h : s.write fuel lpn buf = some (ret, s')) :
    ret ≠ .ok ∧ SameLog s s' ∨ lpn < totalLpns ∧ ∃ oldPpn newPpn,
      SameLog (s.walLogAll [writeEntry lpn oldPpn newPpn]) s' := by
  rcases write_steps (Set.mem_singleton buf) h with ⟨hret, hsteps⟩ |
    ⟨hlpn, s₁, taken, s₂, hsteps, hprogram, hend⟩
  · exact Or.inl ⟨hret, hsteps.sameLog⟩
  · refine Or.inr ⟨hlpn, s₁.l2pTable lpn, taken, ?_⟩
    have hlog := (hsteps.sameLog.walLog (writeEntry lpn (s₁.l2pTable lpn) taken)).trans
      hprogram.sameLog
    rcases hend with ⟨_, rfl⟩ | ⟨_, ppn, s₃, hcommit, hwear⟩
    · exact hlog
    · refine (hlog.trans ?_).trans hwear.sameLog
      rcases commitWrite_same hcommit with hsame | ⟨old, _, hsame⟩
      · exact hsame.toSameDevice.sameLog
      · refine SameLog.trans ?_ hsame.toSameDevice.sameLog
        exact ⟨rfl, rfl, rfl, rfl⟩

/-- The entries of a trim of logical pages: one for each that is mapped. -/
def trimEntries (s : Ftl) (pages : List ℕ) : List WalEntry :=
  (pages.filter fun i => (s.l2pTable i).isSome).map fun i => trimEntry i (s.l2pTable i)

/-- The entries depend on what the pages are mapped to. -/
theorem trimEntries_congr {pages : List ℕ} (h : ∀ i ∈ pages, s'.l2pTable i = s.l2pTable i) :
    s'.trimEntries pages = s.trimEntries pages := by
  rw [trimEntries, trimEntries, List.filter_congr fun i hi => by rw [h i hi]]
  exact List.map_congr_left fun i hi => by rw [h i (List.mem_of_mem_filter hi)]

/-- Trimming a logical page logs an entry if it is mapped. -/
theorem trimPage_log {i : ℕ} (h : s.trimPage i = some s') :
    i < totalLpns ∧ (∀ j, j ≠ i → s'.l2pTable j = s.l2pTable j) ∧
      SameLog (s.walLogAll (s.trimEntries [i])) s' := by
  rw [trimPage] at h
  split at h
  · simp at h
  next hlpn =>
  refine ⟨Nat.lt_of_not_le hlpn, ?_⟩
  cases hl : s.l2pTable i with
  | none =>
    rw [hl] at h
    obtain rfl := Option.some_inj.1 h
    rw [trimEntries, List.filter_cons_of_neg (by simp [hl])]
    exact ⟨fun _ _ => rfl, ⟨rfl, rfl, rfl, rfl⟩⟩
  | some ppn =>
    obtain ⟨files, sequence, number, hentry⟩ := s.walLog_ok (trimEntry i (s.l2pTable i))
    rw [hl] at h
    dsimp only at h
    split at h
    · simp at h
    · rw [walLogTrim, hentry] at h
      obtain rfl := Option.some_inj.1 h
      rw [trimEntries, List.filter_cons_of_pos (by simp [hl]), List.filter_nil, List.map_singleton,
        walLogAll, List.foldl_cons, hentry]
      exact ⟨fun j hj => Function.update_of_ne hj _ _, ⟨rfl, rfl, rfl, rfl⟩⟩

/-- A trim logs an entry for each of its logical pages that is mapped. -/
theorem foldlM_trimPage_log (pages : List ℕ) (hnd : pages.Nodup) (s : Ftl)
    (h : pages.foldlM trimPage s = some s') :
    (∀ i ∈ pages, i < totalLpns) ∧ SameLog (s.walLogAll (s.trimEntries pages)) s' := by
  induction pages generalizing s with
  | nil =>
    obtain rfl := Option.some_inj.1 h
    exact ⟨by simp, ⟨rfl, rfl, rfl, rfl⟩⟩
  | cons i pages ih =>
    obtain ⟨hi, hnd'⟩ := List.nodup_cons.1 hnd
    rw [List.foldlM_cons] at h
    obtain ⟨s₁, hpage, hrest⟩ := Option.bind_eq_some_iff.1 h
    obtain ⟨hlpn, hothers, hlog⟩ := trimPage_log hpage
    obtain ⟨hlt, hlog'⟩ := ih hnd' s₁ hrest
    -- The other pages are still mapped as before.
    rw [trimEntries_congr fun j hj => hothers j fun heq : j = i => hi (heq ▸ hj)] at hlog'
    have hsplit : s.trimEntries (i :: pages) = s.trimEntries [i] ++ s.trimEntries pages := by
      rw [trimEntries, trimEntries, trimEntries, ← List.map_append, ← List.filter_append]
      rfl
    refine ⟨List.forall_mem_cons.2 ⟨hlpn, hlt⟩, ?_⟩
    rw [hsplit, walLogAll, List.foldl_append]
    exact (hlog.walLogAll _).trans hlog'

/-- The entries of a write or a trim that comes as far as to be logged. -/
theorem exec_log (hcall : Logged call) (h : s.exec fuel call = some (a, s')) :
    a.ret ≠ .ok ∧ SameLog s s' ∨ ∃ es, SameLog (s.walLogAll es) s' ∧
      es.map (fun e => (e.op, e.lpn.toNat)) = s.toLog call := by
  cases call with
  | write lpn buf =>
    obtain ⟨⟨ret, s₁⟩, hwrite, heq⟩ := Option.map_eq_some_iff.1 h
    obtain ⟨rfl, rfl⟩ := Prod.mk.inj heq
    rcases write_log hwrite with hfailed | ⟨hlpn, oldPpn, newPpn, hlog⟩
    · exact Or.inl hfailed
    · refine Or.inr ⟨_, hlog, ?_⟩
      have hlt : lpn < 2 ^ 32 := hlpn.trans (by decide)
      simp only [toLog, writeEntry, List.map_cons, List.map_nil, UInt32.toNat_ofNat',
        Nat.mod_eq_of_lt hlt]
  | trim lpn count =>
    obtain ⟨⟨ret, s₁⟩, htrim, heq⟩ := Option.map_eq_some_iff.1 h
    obtain ⟨rfl, rfl⟩ := Prod.mk.inj heq
    rw [trim] at htrim
    split at htrim
    · obtain ⟨rfl, rfl⟩ := Prod.mk.inj (Option.some_inj.1 htrim)
      exact Or.inl ⟨by simp, ⟨rfl, rfl, rfl, rfl⟩⟩
    split at htrim
    · obtain ⟨rfl, rfl⟩ := Prod.mk.inj (Option.some_inj.1 htrim)
      exact Or.inl ⟨by simp, ⟨rfl, rfl, rfl, rfl⟩⟩
    split at htrim
    · obtain ⟨rfl, rfl⟩ := Prod.mk.inj (Option.some_inj.1 htrim)
      exact Or.inl ⟨by simp, ⟨rfl, rfl, rfl, rfl⟩⟩
    · obtain ⟨s₂, hpages, heq'⟩ := Option.map_eq_some_iff.1 htrim
      obtain ⟨rfl, rfl⟩ := Prod.mk.inj heq'
      obtain ⟨hlt, hlog⟩ := foldlM_trimPage_log _ List.nodup_range' _ hpages
      refine Or.inr ⟨_, hlog.trans ⟨rfl, rfl, rfl, rfl⟩, ?_⟩
      rw [trimEntries, List.map_map, toLog]
      refine List.map_congr_left fun i hi => ?_
      have hi' : i < 2 ^ 32 := (hlt i (List.mem_of_mem_filter hi)).trans (by decide)
      simp only [Function.comp_apply, trimEntry, UInt32.toNat_ofNat', Nat.mod_eq_of_lt hi']
  | _ => exact hcall.elim

/-! ## What the log gets -/

/-- An entry that has been sealed is intact. -/
theorem sealed_intact (e : WalEntry) (sequence : UInt32) : (e.sealed sequence).intact = true := by
  rw [WalEntry.intact, Bool.and_eq_true, decide_eq_true_eq, decide_eq_true_eq]
  exact ⟨rfl, rfl⟩

/-- Entries go to the log file, if it is open and the log enabled. -/
theorem walLogAll_open (es : List WalEntry) (hfile : s.walFile = some log)
    (hen : s.walEnabled = true) (hwhole : s.Whole log) :
    ∃ es', (s.walLogAll es).logOf log = s.logOf log ++ es' ∧ (∀ e ∈ es', e.intact) ∧
      es'.map (fun e => (e.op, e.lpn.toNat)) = es.map (fun e => (e.op, e.lpn.toNat)) ∧
      (s.walLogAll es).Whole log := by
  induction es generalizing s with
  | nil => exact ⟨[], by simp [walLogAll], by simp, rfl, hwhole⟩
  | cons e es ih =>
    set logged := (s.walLog e).2 with hlogged
    have heq : logged = { s with
        files := Function.update s.files log
          (some ((s.files log).getD [] ++ (e.sealed s.walSequence).bytes))
        walSequence := s.walSequence + 1
        walEntryCount := s.walEntryCount + 1 } := by
      rw [hlogged, walLog, if_neg (by simp [hen, hfile]), walAppend, hfile]
    have hcontent : (logged.files log).getD [] =
        (s.files log).getD [] ++ (e.sealed s.walSequence).bytes := by
      rw [heq]
      dsimp only
      rw [Function.update_self, Option.getD_some]
    have hentry : logged.logOf log = s.logOf log ++ [e.sealed s.walSequence] := by
      rw [logOf, hcontent, logEntries_append hwhole, logOf]
    have hwhole' : logged.Whole log := by
      rw [Whole, hcontent, List.length_append, WalEntry.length_bytes]
      exact Nat.dvd_add hwhole (Nat.dvd_refl _)
    obtain ⟨es', hlog, hintact, hmap, hend⟩ :=
      ih (s := logged) (by rw [heq]; exact hfile) (by rw [heq]; exact hen) hwhole'
    refine ⟨e.sealed s.walSequence :: es', ?_,
      List.forall_mem_cons.2 ⟨sealed_intact _ _, hintact⟩, ?_, hend⟩
    · rw [walLogAll, List.foldl_cons, ← walLogAll, ← hlogged, hlog, hentry, List.append_assoc]
      rfl
    · rw [List.map_cons, List.map_cons, hmap]
      rfl

/-- Entries do not go to a log file that is not open. -/
theorem walLogAll_closed (es : List WalEntry) (hfile : ¬ (s.walFile = some log ∧ s.walEnabled)) :
    (s.walLogAll es).files log = s.files log := by
  induction es generalizing s with
  | nil => rfl
  | cons e es ih =>
    have hkept : (s.walLog e).2.files log = s.files log ∧
        (s.walLog e).2.walFile = s.walFile ∧ (s.walLog e).2.walEnabled = s.walEnabled := by
      rw [walLog]
      split
      · exact ⟨rfl, rfl, rfl⟩
      · next hopen =>
        push Not at hopen
        rw [walAppend]
        cases hw : s.walFile with
        | none => exact ⟨rfl, hw, rfl⟩
        | some path =>
          have hne : log ≠ path := fun heq => hfile ⟨by rw [hw, heq], hopen.1⟩
          exact ⟨Function.update_of_ne hne _ _, rfl, rfl⟩
    rw [walLogAll, List.foldl_cons, ← walLogAll, ih (by rwa [hkept.2.1, hkept.2.2]), hkept.1]

/-- A log of whole entries gets longer by further ones. -/
theorem walLogAll_grows (es : List WalEntry) (hwhole : s.Whole log) :
    s.logOf log <+: (s.walLogAll es).logOf log ∧ (s.walLogAll es).Whole log := by
  by_cases hopen : s.walFile = some log ∧ s.walEnabled
  · obtain ⟨es', hlog, -, -, hend⟩ := walLogAll_open es hopen.1 hopen.2 hwhole
    exact ⟨⟨es', hlog.symm⟩, hend⟩
  · have hfiles := walLogAll_closed es hopen
    rw [logOf, logOf, Whole, hfiles]
    exact ⟨List.prefix_refl _, hwhole⟩

theorem SameLog.grows (h : SameLog s s') (hwhole : s.Whole log) :
    s.logOf log <+: s'.logOf log ∧ s'.Whole log :=
  ⟨h.logOf ▸ List.prefix_refl _, h.whole hwhole⟩

/-- A call keeps what the log has, unless it saves a snapshot over it. -/
theorem exec_grows (hkeep : Keeping log s call) (hwhole : s.Whole log)
    (h : s.exec fuel call = some (a, s')) : s.logOf log <+: s'.logOf log ∧ s'.Whole log := by
  -- Only writes and trims append to the log. The other calls leave its file as it is.
  by_cases hcall : Logged call
  · rcases exec_log hcall h with ⟨_, hsame⟩ | ⟨es, hsame, _⟩
    · exact hsame.grows hwhole
    · obtain ⟨hbegin, hend⟩ := walLogAll_grows es hwhole
      obtain ⟨hbegin', hend'⟩ := hsame.grows hend
      exact ⟨hbegin.trans hbegin', hend'⟩
  · have hreach {s' : Ftl} (hsteps : Reaches ∅ Set.univ Set.univ s s') :
        s.logOf log <+: s'.logOf log ∧ s'.Whole log := hsteps.sameLog.grows hwhole
    have hfiles {s' : Ftl} (hf : (s'.files log).getD [] = (s.files log).getD []) :
        s.logOf log <+: s'.logOf log ∧ s'.Whole log := by
      rw [logOf, logOf, Whole, hf]
      exact ⟨List.prefix_refl _, hwhole⟩
    cases call with
    | read lpn buf =>
      obtain ⟨_, rfl⟩ := Prod.mk.inj (Option.some_inj.1 h)
      exact hreach (read_reaches lpn buf)
    | write lpn buf => exact absurd trivial hcall
    | trim lpn count => exact absurd trivial hcall
    | setGcAlgo algo =>
      obtain ⟨_, rfl⟩ := Prod.mk.inj (Option.some_inj.1 h)
      exact hfiles rfl
    | triggerGc =>
      obtain ⟨_, rfl⟩ := Prod.mk.inj (Option.some_inj.1 h)
      exact hreach triggerGc_reaches
    | setMapMode mode =>
      obtain ⟨_, rfl⟩ := Prod.mk.inj (Option.some_inj.1 h)
      refine hfiles ?_
      rw [setMapMode]
      split <;> rfl
    | hotColdMigration =>
      obtain ⟨⟨ret, s₁⟩, hmigrate, heq⟩ := Option.map_eq_some_iff.1 h
      obtain ⟨_, rfl⟩ := Prod.mk.inj heq
      exact (hotColdMigration_same hmigrate).toSameDevice.sameLog.grows hwhole
    | handleReadDisturb =>
      obtain ⟨_, rfl⟩ := Prod.mk.inj (Option.some_inj.1 h)
      exact (handleReadDisturb_reaches (D := ∅) (B := ∅)).sameLog.grows hwhole
    | replaceBadBlock block =>
      obtain ⟨_, rfl⟩ := Prod.mk.inj (Option.some_inj.1 h)
      exact (replaceBadBlock_sameLog block).grows hwhole
    | saveSnapshot path =>
      obtain ⟨_, rfl⟩ := Prod.mk.inj (Option.some_inj.1 h)
      refine hfiles ?_
      rw [saveSnapshot]
      split
      · rfl
      · dsimp only
        rw [Function.update_of_ne (Ne.symm hkeep)]
    -- Opening the log creates the file, if there is none, without contents.
    | walInit path =>
      obtain ⟨_, rfl⟩ := Prod.mk.inj (Option.some_inj.1 h)
      refine hfiles ?_
      rw [walInit]
      dsimp only
      rcases eq_or_ne log path with rfl | hne
      · rw [Function.update_self, Option.getD_some]
      · rw [Function.update_of_ne hne]
    | walEnable enable =>
      obtain ⟨_, rfl⟩ := Prod.mk.inj (Option.some_inj.1 h)
      exact hfiles rfl
    | walClear =>
      obtain ⟨_, rfl⟩ := Prod.mk.inj (Option.some_inj.1 h)
      refine hfiles ?_
      rw [walClear]
      split <;> rfl

/-- The calls of a run keep what the log has. -/
theorem run_grows {tr : List (Call × Answer)} (hrun : Run (Keeping log) s tr s')
    (hwhole : s.Whole log) : s.logOf log <+: s'.logOf log ∧ s'.Whole log := by
  refine hrun.invariant (P := fun s' => s.logOf log <+: s'.logOf log ∧ s'.Whole log)
    ⟨List.prefix_refl _, hwhole⟩ ?_
  rintro s₁ call a s₂ ⟨hbegin, hwhole₁⟩ hkeep ⟨fuel, hexec⟩
  obtain ⟨hbegin', hwhole₂⟩ := exec_grows hkeep hwhole₁ hexec
  exact ⟨hbegin.trans hbegin', hwhole₂⟩

/-- A write or a trim that succeeds while the log is enabled is found exactly if the log file is
    open, or nothing is to be logged. -/
theorem found_iff (hwhole : s.Whole log) (hen : s.walEnabled = true) (hcall : Logged call)
    (h : s.exec fuel call = some (a, s')) (hok : a.ret = .ok) :
    Found log s call s' ↔ s.walFile = some log ∨ s.toLog call = [] := by
  obtain ⟨es, hsame, hes⟩ := (exec_log hcall h).resolve_left fun hfailed => hfailed.1 hok
  by_cases hfile : s.walFile = some log
  · obtain ⟨es', hlog, hintact, hmap, -⟩ := walLogAll_open es hfile hen hwhole
    refine iff_of_true ⟨es', ?_, hintact, hmap.trans hes⟩ (Or.inl hfile)
    rw [hsame.logOf, hlog]
  · have hlog : s'.logOf log = s.logOf log := by
      rw [hsame.logOf, logOf, logOf, walLogAll_closed es fun hopen => hfile hopen.1]
    rw [or_iff_right hfile]
    constructor
    · rintro ⟨es', hbegin, -, hmap⟩
      have hle := hbegin.length_le
      rw [hlog, List.length_append] at hle
      have hnil := List.length_eq_zero_iff.1 (by omega : es'.length = 0)
      rw [← hmap, hnil, List.map_nil]
    · intro hnone
      refine ⟨[], ?_, by simp, hnone.symm⟩
      rw [hlog, List.append_nil]

/-- What has been found is found by every later replay. -/
theorem Found.mono {tr : List (Call × Answer)} (h : Found log s call s') (hwhole : s'.Whole log)
    (hrun : Run (Keeping log) s' tr s'') : Found log s call s'' := by
  obtain ⟨es, hbegin, hes⟩ := h
  exact ⟨es, hbegin.trans (run_grows hrun hwhole).1, hes⟩

/-! ## Checkpoints -/

theorem saveSnapshot_ok (hon : s.isInitialized = true) (path : String) :
    s.saveSnapshot path =
      (.ok, { s with files := Function.update s.files path (some s.snapshotBytes) }) := by
  rw [saveSnapshot, if_neg (not_not.2 hon)]

/-- Clearing the log succeeds, and leaves only the state of the log changed. -/
theorem walClear_ok (s : Ftl) : s.walClear.1 = .ok ∧ s.walClear.2.files = s.files ∧
    s.walClear.2.walFile = none ∧ s.walClear.2.walEnabled = s.walEnabled := by
  rw [walClear]
  split
  · next hfile => exact ⟨rfl, rfl, hfile, rfl⟩
  · exact ⟨rfl, rfl, rfl, rfl⟩

/-- A checkpoint leaves the snapshot, and the log as it has been. -/
theorem checkpoint_files {s₁ s₂ : Ftl} (hsave : s.saveSnapshot snap = (.ok, s₁))
    (hclear : s₁.walClear = (.ok, s₂)) :
    s₂.files = Function.update s.files snap (some s.snapshotBytes) := by
  have hfiles := (walClear_ok s₁).2.1
  rw [hclear] at hfiles
  rw [hfiles]
  rw [saveSnapshot] at hsave
  split at hsave
  · simp at hsave
  · rw [← (Prod.mk.inj hsave).2]

/-- After a checkpoint, the snapshot is loaded again, and the replay of the log on top of it changes
    nothing exactly if the entries that have been left there agree with its maps. A write or a trim
    that follows, and succeeds while the log is enabled, is found in a log file exactly if this has
    been opened again before, or if nothing is to be logged. Then it is also found by every later
    replay. -/
theorem checkpoint_logged {s₁ s₂ : Ftl} (hne : snap ≠ log)
    (hsave : s.saveSnapshot snap = (.ok, s₁)) (hclear : s₁.walClear = (.ok, s₂)) :
    s₂.loadSnapshot snap = (.ok, s.restored s₂) ∧
      ((s.restored s₂).walReplay log = some (.ok, s.restored s₂) ↔
        LogAgrees (s.logOf log) (s.restored s₂).l2pTable (s.restored s₂).reverseMap) ∧
      ∀ file tr s₃ call a s₄, s₂.Whole file → Run (Keeping file) s₂ tr s₃ →
        s₃.walEnabled = true → Logged call → machine.step s₃ call a s₄ → a.ret = .ok →
          (Found file s₃ call s₄ ↔ s₃.walFile = some file ∨ s₃.toLog call = []) ∧
            ∀ tr' s₅, Run (Keeping file) s₄ tr' s₅ → Found file s₃ call s₄ →
              Found file s₃ call s₅ := by
  have hfiles := checkpoint_files hsave hclear
  refine ⟨loadSnapshot_eq (by rw [hfiles, Function.update_self]), ?_, ?_⟩
  · have hlog : (s.restored s₂).logOf log = s.logOf log := by
      rw [logOf, logOf]
      change logEntries ((s₂.files log).getD []) = _
      rw [hfiles, Function.update_of_ne hne.symm]
    rw [walReplay_eq_self, hlog]
  · rintro file tr s₃ call a s₄ hwhole hrun hen hcall ⟨fuel, hexec⟩ hok
    have hwhole₃ := (run_grows hrun hwhole).2
    refine ⟨found_iff hwhole₃ hen hcall hexec hok, fun tr' s₅ hrun' hfound => ?_⟩
    have hkeep : Keeping file s₃ call := by
      cases call with
      | write lpn buf => trivial
      | trim lpn count => trivial
      | _ => exact hcall.elim
    exact hfound.mono (exec_grows hkeep hwhole₃ hexec).2 hrun'

/-- Two pages have been written, as the log says, which is open. -/
def loggedTwice (s : Ftl) : Bool :=
  decide (((s.logOf "wal").map fun e => (e.op, e.lpn)) = [(walOpWrite, 0), (walOpWrite, 1)]) &&
    decide (((s.files "wal").getD []).length = 2 * WalEntry.size) && s.isInitialized && s.walEnabled

/-- A checkpoint with two entries in the log, which is opened again. The next write is found. -/
theorem checkpoint_logged_reopened :
    ∃ (s₀ : Ftl) (tr : List (Call × Answer)) (s s₁ s₂ s₃ s₄ : Ftl), Fresh s₀ ∧
      Run (fun _ _ => True) s₀ tr s ∧
      (s.logOf "wal").map (fun e => (e.op, e.lpn)) = [(walOpWrite, 0), (walOpWrite, 1)] ∧
      s.saveSnapshot "snap" = (.ok, s₁) ∧ s₁.walClear = (.ok, s₂) ∧
      s₂.loadSnapshot "snap" = (.ok, s.restored s₂) ∧
      ((s.restored s₂).walReplay "wal" = some (.ok, s.restored s₂) ↔
        LogAgrees (s.logOf "wal") (s.restored s₂).l2pTable (s.restored s₂).reverseMap) ∧
      Run (Keeping "wal") s₂ [(.walInit "wal", ⟨.ok, none⟩)] s₃ ∧ s₃.walEnabled = true ∧
      machine.step s₃ (.write 2 blankPage) ⟨.ok, none⟩ s₄ ∧
      Found "wal" s₃ (.write 2 blankPage) s₄ := by
  have heq : ((execAll 0 [.walInit "wal", .write 0 blankPage, .write 1 blankPage]
      (powerOn (fun _ => 99) fun _ => none).2).bind fun r =>
        (((r.2.saveSnapshot "snap").2.walClear.2.walInit "wal").2.write 0 2 blankPage).map fun r' =>
          loggedTwice r.2 && decide (r'.1 = .ok)) = some true := by
    decide +kernel
  obtain ⟨⟨tr, s⟩, hexec, hrest⟩ := Option.bind_eq_some_iff.1 heq
  obtain ⟨⟨ret, s₄⟩, hwrite, hdata⟩ := Option.map_eq_some_iff.1 hrest
  simp only [loggedTwice, Bool.and_eq_true, decide_eq_true_eq] at hdata
  obtain ⟨⟨⟨⟨hlog, hlen⟩, hon⟩, hen⟩, rfl⟩ := hdata
  set s₁ := (s.saveSnapshot "snap").2 with hs₁
  set s₂ := s₁.walClear.2 with hs₂
  set s₃ := (s₂.walInit "wal").2 with hs₃
  have hsave : s.saveSnapshot "snap" = (.ok, s₁) := by rw [hs₁, saveSnapshot_ok hon]
  have hclear : s₁.walClear = (.ok, s₂) := Prod.ext (walClear_ok s₁).1 rfl
  have hfiles := checkpoint_files hsave hclear
  have hen₃ : s₃.walEnabled = true := by
    obtain ⟨-, -, -, hen'⟩ := walClear_ok s₁
    rw [hs₃, walInit, hs₂, hen', hs₁, saveSnapshot_ok hon]
    exact hen
  have hwhole : s₂.Whole "wal" := by
    rewrite [Whole, hfiles, Function.update_of_ne (by decide), hlen]
    exact Nat.dvd_mul_left _ _
  have hopen : Run (Keeping "wal") s₂ [(.walInit "wal", ⟨.ok, none⟩)] s₃ :=
    .single trivial ⟨0, rfl⟩
  have hstep : machine.step s₃ (.write 2 blankPage) ⟨.ok, none⟩ s₄ := by
    refine ⟨0, ?_⟩
    rw [exec, hwrite]
    rfl
  obtain ⟨hload, hreplay, hlogged⟩ :=
    checkpoint_logged (show "snap" ≠ "wal" by decide) hsave hclear
  have hcall : Logged (.write 2 blankPage) := trivial
  obtain ⟨hfound, -⟩ := hlogged "wal" _ s₃ _ _ s₄ hwhole hopen hen₃ hcall hstep rfl
  exact ⟨_, tr, s, s₁, s₂, s₃, s₄, ⟨fun _ => 99, fun _ => none, Prod.ext rfl rfl⟩,
    execAll_run (fun _ _ => True.intro) hexec, hlog, hsave, hclear, hload, hreplay, hopen, hen₃,
    hstep, hfound.2 (Or.inl rfl)⟩

/-- Logical page 0 has been written to page (0, 0), as the log says, and is at page (120, 0) now;
    the log is open. -/
def movedUnlogged (s : Ftl) : Bool :=
  decide (s.l2pTable 0 = some 30720) && decide (s.walFile = some "wal") &&
    decide (lastAssigned ((s.logOf "wal").flatMap WalEntry.l2pAssigns) 0 = some (some 0)) &&
    decide (((s.files "wal").getD []).length = 28) && s.isInitialized && s.walEnabled

/-- Logical page 0 is written, and its block replaced. After the checkpoint, the replay of the log
    takes the page back to where it has been, and the next write is not found. -/
theorem not_checkpoint_logged : ∃ (s₀ : Ftl) (tr : List (Call × Answer)) (s s₁ s₂ s₃ : Ftl),
    Fresh s₀ ∧ Run (fun _ _ => True) s₀ tr s ∧ s.walFile = some "wal" ∧ s.walEnabled = true ∧
      s.saveSnapshot "snap" = (.ok, s₁) ∧ s₁.walClear = (.ok, s₂) ∧
      s₂.loadSnapshot "snap" = (.ok, s.restored s₂) ∧
      (s.restored s₂).walReplay "wal" ≠ some (.ok, s.restored s₂) ∧
      s₂.walEnabled = true ∧ machine.step s₂ (.write 1 blankPage) ⟨.ok, none⟩ s₃ ∧
      ¬ Found "wal" s₂ (.write 1 blankPage) s₃ := by
  have heq : ((execAll 0 [.walInit "wal", .write 0 blankPage, .replaceBadBlock 0]
      (powerOn (fun _ => 99) fun _ => none).2).bind fun r =>
        ((r.2.saveSnapshot "snap").2.walClear.2.write 0 1 blankPage).map fun r' =>
          movedUnlogged r.2 && decide (r'.1 = .ok)) = some true := by
    decide +kernel
  obtain ⟨⟨tr, s⟩, hexec, hrest⟩ := Option.bind_eq_some_iff.1 heq
  obtain ⟨⟨ret, s₃⟩, hwrite, hdata⟩ := Option.map_eq_some_iff.1 hrest
  simp only [movedUnlogged, Bool.and_eq_true, decide_eq_true_eq] at hdata
  obtain ⟨⟨⟨⟨⟨⟨hl, hfile⟩, hlast⟩, hlen⟩, hon⟩, hen⟩, rfl⟩ := hdata
  set s₁ := (s.saveSnapshot "snap").2 with hs₁
  set s₂ := s₁.walClear.2 with hs₂
  have hsave : s.saveSnapshot "snap" = (.ok, s₁) := by rw [hs₁, saveSnapshot_ok hon]
  have hclear : s₁.walClear = (.ok, s₂) := Prod.ext (walClear_ok s₁).1 rfl
  have hfiles := checkpoint_files hsave hclear
  obtain ⟨-, -, hclosed, hen'⟩ := walClear_ok s₁
  have hen₂ : s₂.walEnabled = true := by
    rw [hs₂, hen', hs₁, saveSnapshot_ok hon]
    exact hen
  have hlog : s₂.files "wal" = s.files "wal" := by
    rw [hfiles, Function.update_of_ne (by decide)]
  have hstep : s₂.exec 0 (.write 1 blankPage) = some (⟨.ok, none⟩, s₃) := by
    rw [exec, hwrite]
    rfl
  refine ⟨_, tr, s, s₁, s₂, s₃, ⟨fun _ => 99, fun _ => none, Prod.ext rfl rfl⟩,
    execAll_run (fun _ _ => True.intro) hexec, hfile, hen, hsave, hclear,
    loadSnapshot_eq (by rw [hfiles, Function.update_self]), fun hreplay => ?_, hen₂, ⟨0, hstep⟩,
    fun hfound => ?_⟩
  · have hagrees := walReplay_eq_self.1 hreplay
    have hsame : (s.restored s₂).logOf "wal" = s.logOf "wal" := by
      rw [logOf, logOf]
      exact congrArg (fun content => logEntries (Option.getD content [])) hlog
    have hpage := hagrees.l2pTable 0 (some 0) (by rw [hsame, hlast])
    have hrestored : (s.restored s₂).l2pTable 0 = some 30720 := by
      rw [restored_l2pTable (by decide), hl]
      rfl
    rw [hrestored] at hpage
    exact absurd hpage (by decide)
  · have hwhole : s₂.Whole "wal" := by
      rewrite [Whole, hlog, hlen]
      exact Nat.dvd_refl _
    have hlogged : Logged (.write 1 blankPage) := trivial
    rcases (found_iff hwhole hen₂ hlogged hstep rfl).1 hfound with hopen | hnone
    · exact absurd (hclosed.symm.trans hopen) (by decide)
    · cases hnone

end Ftl

end FtlFirmware
