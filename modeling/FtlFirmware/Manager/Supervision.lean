import FtlFirmware.Lib.Run
import FtlFirmware.Manager.Basic

/-!
# Supervision

The manager records the errors that the modules report, and those that it finds itself, when the
heartbeat of a module that runs is too old. A module with too many errors is recovered: it is then
ready, even if it did not run, and it is not supervised until it is started again.

What a number of errors does to a module is `FirmwareConfig.charge`, iterated (`Charged`). A call of
`Manager.process` *spares* the modules if it leads to no recovery (`Manager.Spares`).

* `Charged`: what is kept by each step of a call, and composes over them;
* `supervision_kept`: the modules are supervised as long as they are spared, and only then.
-/

namespace FtlFirmware

/-- What an error changes of a module: its state, and the number of its errors. -/
def ModuleInfo.standing (info : ModuleInfo) : ModuleState × UInt32 := (info.state, info.errorCount)

/-- What an error does: if it is one too many, the module is recovered. -/
def FirmwareConfig.charge (config : FirmwareConfig) (x : ModuleState × UInt32) :
    ModuleState × UInt32 :=
  if config.autoRecovery ∧ config.maxErrorCount ≤ x.2 + 1 then (.ready, 0) else (x.1, x.2 + 1)

namespace FirmwareConfig

variable {config : FirmwareConfig} {x : ModuleState × UInt32} {n : ℕ}

/-- The number of errors is one that leads to no recovery. -/
def Counted (config : FirmwareConfig) (x : ModuleState × UInt32) : Prop :=
  config.autoRecovery = true → x.2 = 0 ∨ x.2 < config.maxErrorCount

theorem counted_charge (config : FirmwareConfig) (x : ModuleState × UInt32) :
    config.Counted (config.charge x) := by
  intro hauto
  rw [charge]
  by_cases hmax : config.maxErrorCount ≤ x.2 + 1
  · rw [if_pos ⟨hauto, hmax⟩]
    exact Or.inl rfl
  · rw [if_neg fun h => hmax h.2]
    exact Or.inr (UInt32.not_le.1 hmax)

theorem Counted.iterate (h : config.Counted x) (n : ℕ) : config.Counted (config.charge^[n] x) := by
  cases n with
  | zero => exact h
  | succ n =>
    rw [Function.iterate_succ_apply']
    exact config.counted_charge _

/-- Without recovery, the state stays. -/
theorem iterate_charge_of_off (hauto : config.autoRecovery = false) (n : ℕ) :
    (config.charge^[n] x).1 = x.1 := by
  induction n with
  | zero => rfl
  | succ n ih =>
    rw [Function.iterate_succ_apply', charge, if_neg (by simp [hauto])]
    exact ih

/-- One more error is counted, as no number of errors is too large for that. -/
theorem toNat_add_one (hauto : config.autoRecovery = true) (h : config.Counted x) :
    (x.2 + 1).toNat = x.2.toNat + 1 := by
  have hlt : x.2.toNat + 1 < 2 ^ 32 := by
    rcases h hauto with hzero | hlt
    · rw [hzero]
      decide
    · have hmax := config.maxErrorCount.toNat_lt
      have hlt' := UInt32.lt_iff_toNat_lt.1 hlt
      omega
  rw [UInt32.toNat_add]
  exact Nat.mod_eq_of_lt hlt

/-- As long as there are few errors, they are counted. -/
theorem iterate_charge_of_few (h : config.Counted x) (hauto : config.autoRecovery = true)
    (hfew : n = 0 ∨ x.2.toNat + n < config.maxErrorCount.toNat) :
    (config.charge^[n] x).1 = x.1 ∧ (config.charge^[n] x).2.toNat = x.2.toNat + n := by
  induction n with
  | zero => exact ⟨rfl, rfl⟩
  | succ n ih =>
    have hlt := hfew.resolve_left n.succ_ne_zero
    obtain ⟨hstate, hcount⟩ := ih (Or.inr (by omega))
    have hadd := toNat_add_one hauto (h.iterate n)
    have hmax : ¬ config.maxErrorCount ≤ (config.charge^[n] x).2 + 1 := by
      rw [UInt32.le_iff_toNat_le, hadd]
      omega
    rw [Function.iterate_succ_apply', charge, if_neg fun h => hmax h.2]
    exact ⟨hstate, by rw [hadd, hcount]; rfl⟩

/-- A module that is ready stays so. -/
theorem charge_ready (hready : x.1 = .ready) : (config.charge x).1 = .ready := by
  rw [charge]
  split
  · rfl
  · exact hready

/-- Too many errors make the module ready. -/
theorem iterate_charge_of_many (h : config.Counted x) (hauto : config.autoRecovery = true)
    (hzero : n ≠ 0) (hmany : config.maxErrorCount.toNat ≤ x.2.toNat + n) :
    (config.charge^[n] x).1 = .ready := by
  induction n with
  | zero => exact absurd rfl hzero
  | succ n ih =>
    rw [Function.iterate_succ_apply']
    by_cases hfew : n = 0 ∨ x.2.toNat + n < config.maxErrorCount.toNat
    · -- The last error is the one that is too many.
      obtain ⟨-, hcount⟩ := iterate_charge_of_few h hauto hfew
      have hadd := toNat_add_one hauto (h.iterate n)
      have hmax : config.maxErrorCount ≤ (config.charge^[n] x).2 + 1 := by
        rw [UInt32.le_iff_toNat_le, hadd, hcount]
        exact hmany
      rw [charge, if_pos ⟨hauto, hmax⟩]
    · rw [not_or, Nat.not_lt] at hfew
      exact charge_ready (ih hfew.1 hfew.2)

/-- The number of errors is one that a module is spared for. -/
def Few (config : FirmwareConfig) (x : ModuleState × UInt32) (n : ℕ) : Prop :=
  config.autoRecovery = true → n = 0 ∨ x.2.toNat + n < config.maxErrorCount.toNat

instance (config : FirmwareConfig) (x : ModuleState × UInt32) (n : ℕ) :
    Decidable (config.Few x n) :=
  inferInstanceAs (Decidable (_ → _))

/-- Fewer errors are few. -/
theorem Few.mono {k : ℕ} (h : config.Few x n) (hle : k ≤ n) : config.Few x k := by
  intro hauto
  rcases h hauto with hzero | hlt
  · exact Or.inl (Nat.le_zero.1 (hzero ▸ hle))
  · exact Or.inr (lt_of_le_of_lt (Nat.add_le_add_left hle _) hlt)

/-- A module keeps its state if there are few errors. -/
theorem Few.state (h : config.Counted x) (hfew : config.Few x n) :
    (config.charge^[n] x).1 = x.1 := by
  by_cases hauto : config.autoRecovery = true
  · exact (iterate_charge_of_few h hauto (hfew hauto)).1
  · exact iterate_charge_of_off (Bool.eq_false_iff.2 hauto) n

/-- And it is ready otherwise. -/
theorem ready_of_not_few (h : config.Counted x) (hmany : ¬ config.Few x n) :
    (config.charge^[n] x).1 = .ready := by
  rw [Few, Classical.not_imp, not_or, Nat.not_lt] at hmany
  exact iterate_charge_of_many h hmany.1 hmany.2.1 hmany.2.2

end FirmwareConfig

namespace Manager

variable {clock : ℕ → UInt64} {m m' m'' : Manager} {i j n k : ℕ}

/-- The number of errors of a module that have been recorded. -/
def recorded (m : Manager) (i : ℕ) : ℕ := m.log.countP fun x => x.1 = i

/-- What the errors of the modules depend on, and change. -/
def core (m : Manager) : FirmwareConfig × Bool × (ℕ → ModuleInfo) × List (ℕ × UInt32) :=
  (m.config, m.isInitialized, m.modules, m.log)

/-- A module has had `n` errors more, each of which has been recorded. -/
structure Charged (m m' : Manager) (i n : ℕ) : Prop where
  config : m'.config = m.config
  initialized : m'.isInitialized = m.isInitialized
  standing : (m'.modules i).standing = m.config.charge^[n] (m.modules i).standing
  heartbeat : (m'.modules i).lastHeartbeatMs = (m.modules i).lastHeartbeatMs
  recorded : m'.recorded i = m.recorded i + n

namespace Charged

theorem refl (m : Manager) (i : ℕ) : Charged m m i 0 := ⟨rfl, rfl, rfl, rfl, rfl⟩

theorem trans (h : Charged m m' i n) (h' : Charged m' m'' i k) : Charged m m'' i (k + n) where
  config := h'.config.trans h.config
  initialized := h'.initialized.trans h.initialized
  standing := by rw [h'.standing, h.config, h.standing, Function.iterate_add_apply]
  heartbeat := h'.heartbeat.trans h.heartbeat
  recorded := by rw [h'.recorded, h.recorded, Nat.add_assoc, Nat.add_comm n k]

/-- Nothing else of the manager matters. -/
theorem congr (h : Charged m m' i n) {m₁ m₁' : Manager} (hm : m₁.core = m.core)
    (hm' : m₁'.core = m'.core) : Charged m₁ m₁' i n := by
  simp only [core, Prod.mk.injEq] at hm hm'
  obtain ⟨hconfig, hinit, hmodules, hlog⟩ := hm
  obtain ⟨hconfig', hinit', hmodules', hlog'⟩ := hm'
  refine ⟨?_, ?_, ?_, ?_, ?_⟩
  · rw [hconfig', h.config, hconfig]
  · rw [hinit', h.initialized, hinit]
  · rw [hmodules', h.standing, hconfig, hmodules]
  · rw [hmodules', h.heartbeat, hmodules]
  · rw [Manager.recorded, hlog', Manager.recorded, hlog]
    exact h.recorded

end Charged

/-! ### What the steps of a call do -/

/-- Checking a module reads the clock. -/
theorem checkModuleHealth_snd (hi : i < moduleMax) :
    (m.checkModuleHealth clock i).2 = { m with ticks := m.ticks + 1 } := by
  rw [checkModuleHealth, if_neg (Nat.not_le.2 hi)]
  dsimp only [getTimestampMs]
  repeat' split
  all_goals rfl

variable (clock)

/-- The manager after an error: the error is printed, and its module has it on its account. -/
theorem processErrorReport_spec (hi : i < moduleMax) (errorCode : UInt32) :
    ∃ info recoveries, m.processErrorReport clock i errorCode =
        { m with
          modules := Function.update m.modules i info
          totalErrors := m.totalErrors + 1
          totalRecoveries := recoveries
          ticks := m.ticks + 1
          log := m.log ++ [(i, errorCode)] } ∧
      info.standing = m.config.charge (m.modules i).standing ∧
      info.lastHeartbeatMs = (m.modules i).lastHeartbeatMs := by
  have hself : ∀ info : ModuleInfo, Function.update m.modules i info i = info := fun info =>
    Function.update_self ..
  have hcharge : m.config.charge (m.modules i).standing =
      if m.config.autoRecovery ∧ m.config.maxErrorCount ≤ (m.modules i).errorCount + 1 then
        (.ready, 0)
      else ((m.modules i).state, (m.modules i).errorCount + 1) := rfl
  rw [processErrorReport, if_neg (Nat.not_le.2 hi), hcharge]
  dsimp only
  rw [checkModuleHealth_snd hi]
  simp only [setModule, hself, Function.update_idem]
  split
  · -- The module is recovered.
    simp only [autoRecoverModule, if_neg (Nat.not_le.2 hi), setModule, hself, Function.update_idem]
    exact ⟨_, _, rfl, rfl, rfl⟩
  · exact ⟨_, _, rfl, rfl, rfl⟩

/-- An error is recorded, for its module only. -/
theorem charged_processErrorReport (hj : j < moduleMax) (errorCode : UInt32) :
    Charged m (m.processErrorReport clock i errorCode) j (if i = j then 1 else 0) := by
  by_cases hi : i < moduleMax
  · obtain ⟨info, recoveries, heq, hstanding, hheartbeat⟩ :=
      processErrorReport_spec clock (m := m) hi errorCode
    have hrecorded : (m.log ++ [(i, errorCode)]).countP (fun x => x.1 = j) =
        m.recorded j + if i = j then 1 else 0 := by
      simp [recorded, List.countP_append, List.countP_singleton]
    rw [heq]
    by_cases hij : i = j
    · subst hij
      exact ⟨rfl, rfl, by simpa using hstanding, by simpa using hheartbeat, hrecorded⟩
    · have hji : j ≠ i := Ne.symm hij
      exact ⟨rfl, rfl, by simp [hij, hji], by simp [hji], hrecorded⟩
  · rw [processErrorReport, if_pos (Nat.not_lt.1 hi), if_neg fun heq : i = j => hi (heq ▸ hj)]
    exact .refl m j

/-- The message reports an error of the module. -/
def Reports (msg : Message) (i : ℕ) : Prop :=
  msg.header.type = msgTypeErrorReport ∧ msg.header.srcModule = i

instance (msg : Message) (i : ℕ) : Decidable (Reports msg i) :=
  inferInstanceAs (Decidable (_ ∧ _))

/-- The message reports an error of one of the modules. -/
def Counts (msg : Message) : Prop :=
  msg.header.type = msgTypeErrorReport ∧ msg.header.srcModule < moduleMax

instance (msg : Message) : Decidable (Counts msg) := inferInstanceAs (Decidable (_ ∧ _))

/-- The number of errors of a module that the messages which wait report. -/
def reports (m : Manager) (i : ℕ) : ℕ := m.box.queue.countP fun x => Reports x.2 i

theorem charged_handleMsg (hi : i < moduleMax) (msg : Message) :
    Charged m (m.handleMsg clock msg) i (if Reports msg i then 1 else 0) := by
  rw [handleMsg]
  by_cases htype : msg.header.type = msgTypeErrorReport
  · have hiff : Reports msg i ↔ msg.header.srcModule = i := and_iff_right htype
    simp only [if_pos htype, hiff]
    exact charged_processErrorReport clock hi _
  · rw [if_neg htype, if_neg fun h => htype h.1]
    exact .refl m i

/-- The messages are not touched by handling one, and the clock is read for an error. -/
theorem handleMsg_frame (msg : Message) : (m.handleMsg clock msg).box = m.box ∧
    (m.handleMsg clock msg).ticks = m.ticks + if Counts msg then 1 else 0 := by
  rw [handleMsg]
  by_cases htype : msg.header.type = msgTypeErrorReport
  · have hiff : Counts msg ↔ msg.header.srcModule < moduleMax := and_iff_right htype
    simp only [if_pos htype, hiff]
    by_cases hi : msg.header.srcModule < moduleMax
    · obtain ⟨_, _, heq, -⟩ :=
        processErrorReport_spec clock (m := m) hi msg.errorCode
      rw [heq, if_pos hi]
      exact ⟨rfl, rfl⟩
    · rw [processErrorReport, if_pos (Nat.not_lt.1 hi), if_neg hi]
      exact ⟨rfl, rfl⟩
  · rw [if_neg htype, if_neg fun h => htype h.1]
    exact ⟨rfl, rfl⟩

/-- All messages that wait are handled. -/
theorem processMessages_spec (hi : i < moduleMax) {l : List (ℕ × Message)}
    (hl : m.box.queue = l) :
    Charged m (m.processMessages clock l.length) i (l.countP fun x => Reports x.2 i) ∧
      (m.processMessages clock l.length).ticks = m.ticks + l.countP fun x => Counts x.2 := by
  induction l generalizing m with
  | nil => exact ⟨.refl m i, rfl⟩
  | cons x l ih =>
    -- The first message is taken out of the mailbox and handled.
    have hfirst := charged_handleMsg clock (m := { m with box := m.box.deliver }) hi x.2
    obtain ⟨hbox, hticks⟩ :=
      handleMsg_frame clock (m := { m with box := m.box.deliver }) x.2
    obtain ⟨hrest, hticks'⟩ := ih (m := { m with box := m.box.deliver }.handleMsg clock x.2)
      (by rw [hbox, Mailbox.deliver, hl]; rfl)
    rw [List.length_cons, processMessages, hl]
    dsimp only
    rw [List.countP_cons, List.countP_cons]
    refine ⟨?_, ?_⟩
    · have hall := Charged.trans hfirst hrest
      simp only [decide_eq_true_eq]
      exact hall.congr rfl rfl
    · rw [hticks', hticks]
      simp only [decide_eq_true_eq]
      omega

/-- The heartbeat of a module is older than the timeout of the watchdog. -/
def Late (m : Manager) (now : UInt64) (i : ℕ) : Prop :=
  m.config.watchdogTimeoutMs.toUInt64 < heartbeatAge now (m.modules i).lastHeartbeatMs

instance (m : Manager) (now : UInt64) (i : ℕ) : Decidable (m.Late now i) :=
  inferInstanceAs (Decidable (_ < _))

/-- The watchdog finds the module: it runs, and its heartbeat is too old. -/
def Found (m : Manager) (now : UInt64) (i : ℕ) : Prop :=
  (m.modules i).state = .running ∧ m.Late now i

instance (m : Manager) (now : UInt64) (i : ℕ) : Decidable (m.Found now i) :=
  inferInstanceAs (Decidable (_ ∧ _))

namespace Charged

theorem state (h : Charged m m' i n) :
    (m'.modules i).state = (m.config.charge^[n] (m.modules i).standing).1 :=
  congrArg Prod.fst h.standing

theorem late_iff (h : Charged m m' i n) (now : UInt64) : m'.Late now i ↔ m.Late now i := by
  rw [Late, Late, h.config, h.heartbeat]

theorem found_iff (h : Charged m m' i n) (now : UInt64) : m'.Found now i ↔
    (m.config.charge^[n] (m.modules i).standing).1 = .running ∧ m.Late now i := by
  rw [Found, h.state, h.late_iff]

end Charged

theorem charged_watch (hj : j < moduleMax) (now : UInt64) :
    Charged m (m.watch clock now i) j (if i = j ∧ m.Found now j then 1 else 0) := by
  have hwatch : m.watch clock now i = if (m.modules i).state = .uninit then m
      else if m.Found now i then m.processErrorReport clock i 0xFF else m := rfl
  rw [hwatch]
  by_cases hfound : m.Found now i
  · have hinit : ¬ (m.modules i).state = .uninit := by simp [hfound.1]
    have hiff : (i = j ∧ m.Found now j) ↔ i = j := and_iff_left_of_imp fun h => h ▸ hfound
    rw [if_neg hinit, if_pos hfound]
    simp only [hiff]
    exact charged_processErrorReport clock hj _
  · rw [if_neg fun h : i = j ∧ m.Found now j => hfound (h.1 ▸ h.2)]
    split <;> exact .refl m j

/-- The watchdog finds a module once. -/
theorem charged_watchAll {l : List ℕ} (hl : l.Nodup) (hi : i < moduleMax) (now : UInt64) :
    Charged m (l.foldl (watch clock now) m) i (if i ∈ l ∧ m.Found now i then 1 else 0) := by
  induction l generalizing m with
  | nil => exact .refl m i
  | cons a l ih =>
    obtain ⟨ha, hl⟩ := List.nodup_cons.1 hl
    have hfirst := charged_watch clock (m := m) (i := a) hi now
    have hrest := ih (m := m.watch clock now a) hl
    rw [List.foldl_cons]
    by_cases hai : a = i
    · -- It has been found, or not, and the others do not matter.
      subst hai
      rw [if_neg fun h => ha h.1] at hrest
      simp only [true_and] at hfirst
      simpa using hfirst.trans hrest
    · rw [if_neg fun h => hai h.1] at hfirst
      have hiff : (i ∈ a :: l ∧ m.Found now i) ↔
          i ∈ l ∧ (m.watch clock now a).Found now i := by
        rw [hfirst.found_iff, List.mem_cons, or_iff_right (Ne.symm hai)]
        rfl
      simp only [hiff]
      exact hfirst.trans hrest

theorem charged_processHealthCheck (hi : i < moduleMax) :
    Charged m (m.processHealthCheck clock) i (if m.Found (clock m.ticks) i then 1 else 0) := by
  have h := charged_watchAll clock (m := { m with ticks := m.ticks + 1 })
    (List.nodup_range (n := moduleMax)) hi (clock m.ticks)
  have hiff : (i ∈ List.range moduleMax ∧ ({ m with ticks := m.ticks + 1 } : Manager).Found
      (clock m.ticks) i) ↔ m.Found (clock m.ticks) i := and_iff_right (List.mem_range.2 hi)
  rw [if_congr hiff rfl rfl] at h
  rw [processHealthCheck]
  dsimp only [getTimestampMs]
  exact h.congr rfl (by simp only [core])

/-- The time that the health check of a call reads: the clock has been read once for each of the
    errors reported before. -/
def healthNow (clock : ℕ → UInt64) (m : Manager) : UInt64 :=
  clock (m.ticks + m.box.queue.countP fun x => Counts x.2)

/-- A call handles the messages, and checks the modules. -/
theorem charged_process (hinit : m.isInitialized = true) (hi : i < moduleMax) :
    Charged m (m.process clock).2 i ((if (m.config.charge^[m.reports i] (m.modules i).standing).1 =
      .running ∧ m.Late (m.healthNow clock) i then 1 else 0) + m.reports i) := by
  obtain ⟨hmessages, hticks⟩ := processMessages_spec clock hi (rfl : m.box.queue = _)
  have hcheck := charged_processHealthCheck clock
    (m := m.processMessages clock m.box.queue.length) hi
  rw [hticks, if_congr (hmessages.found_iff _) rfl rfl] at hcheck
  have hall := hmessages.trans hcheck
  rw [process, if_neg (by simp [hinit])]
  dsimp only
  rw [processPowerManagement]
  split
  · exact hall.congr rfl (by simp only [core, getTimestampMs])
  · exact hall

variable {clock}

/-! ### The modules are spared -/

/-- The number of errors of a module in a call, if it is not recovered. -/
def errors (clock : ℕ → UInt64) (m : Manager) (i : ℕ) : ℕ :=
  (if m.Found (m.healthNow clock) i then 1 else 0) + m.reports i

/-- A call spares the modules that run, or are not initialised: it leads to no recovery. -/
def Spares (clock : ℕ → UInt64) (m : Manager) : Prop :=
  ∀ i < moduleMax, (m.modules i).state = .running ∨ (m.modules i).state = .uninit →
    m.config.Few (m.modules i).standing (m.errors clock i)

instance (clock : ℕ → UInt64) (m : Manager) : Decidable (m.Spares clock) :=
  inferInstanceAs (Decidable (∀ i < moduleMax, _ → _))

/-- A module that runs still does, and one that is not initialised is still not. -/
def Keeps (m m' : Manager) : Prop :=
  ∀ i < moduleMax, (m.modules i).state = .running ∨ (m.modules i).state = .uninit →
    (m'.modules i).state = (m.modules i).state

/-- What holds of the manager throughout a run. -/
structure Sound (m : Manager) : Prop where
  initialized : m.isInitialized = true
  counted : ∀ i < moduleMax, m.config.Counted (m.modules i).standing

/-- A call that leads to few errors of a module counts them. -/
theorem Sound.charged_process (h : m.Sound) (hi : i < moduleMax)
    (hfew : m.config.Few (m.modules i).standing (m.errors clock i)) :
    Charged m (m.process clock).2 i (m.errors clock i) := by
  have hstate := (hfew.mono (Nat.le_add_left _ _)).state (h.counted i hi)
  have hcall := Manager.charged_process clock h.initialized hi
  rw [hstate] at hcall
  exact hcall

/-- **A call keeps the modules if and only if it spares them.** -/
theorem Sound.keeps_iff (h : m.Sound) : Keeps m (m.process clock).2 ↔ m.Spares clock := by
  refine ⟨fun hkeeps i hi hstate => ?_, fun hspares i hi hstate => ?_⟩
  · by_contra hmany
    have hcounted := h.counted i hi
    have hcall := Manager.charged_process clock h.initialized hi
    have hnot : (m.modules i).state ≠ .ready := by
      rcases hstate with hstate | hstate <;> simp [hstate]
    -- The errors that are reported may be too many, or those together with the one of the watchdog.
    have hready : ((m.process clock).2.modules i).state = .ready := by
      rw [hcall.state]
      by_cases hfew : m.config.Few (m.modules i).standing (m.reports i)
      · rw [hfew.state hcounted]
        exact FirmwareConfig.ready_of_not_few hcounted hmany
      · refine FirmwareConfig.ready_of_not_few hcounted fun hall => hfew ?_
        exact hall.mono (Nat.le_add_left _ _)
    exact hnot ((hkeeps i hi hstate).symm.trans hready)
  · have hcall := h.charged_process hi (hspares i hi hstate)
    rw [hcall.state]
    exact (hspares i hi hstate).state (h.counted i hi)

/-! ### The other calls -/

/-- The states of the modules have changed, and else nothing that errors depend on. -/
structure Moved (m m' : Manager) (f : ℕ → ModuleState → ModuleState) : Prop where
  config : m'.config = m.config
  initialized : m'.isInitialized = m.isInitialized
  errorCount : ∀ i, (m'.modules i).errorCount = (m.modules i).errorCount
  state : ∀ i, (m'.modules i).state = f i (m.modules i).state

/-- One module changes its state. -/
theorem moved_at {f : ModuleState → ModuleState} (hconfig : m'.config = m.config)
    (hinit : m'.isInitialized = m.isInitialized)
    (hother : ∀ j, j ≠ i → m'.modules j = m.modules j)
    (hcount : (m'.modules i).errorCount = (m.modules i).errorCount)
    (hstate : (m'.modules i).state = f (m.modules i).state) :
    Moved m m' fun j st => if j = i then f st else st where
  config := hconfig
  initialized := hinit
  errorCount j := by
    by_cases hj : j = i
    · rw [hj, hcount]
    · rw [hother j hj]
  state j := by
    by_cases hj : j = i
    · rw [if_pos hj, hj, hstate]
    · rw [if_neg hj, hother j hj]

/-- A loop over modules that changes the state of each by `f`. -/
theorem moved_foldl {pass : Manager → ℕ → Manager} {f : ModuleState → ModuleState}
    (hf : ∀ st, f (f st) = f st)
    (hpass : ∀ m i, Moved m (pass m i) fun j st => if j = i then f st else st) (l : List ℕ)
    (m : Manager) : Moved m (l.foldl pass m) fun j st => if j ∈ l then f st else st := by
  induction l generalizing m with
  | nil => exact ⟨rfl, rfl, fun _ => rfl, fun _ => by simp⟩
  | cons a l ih =>
    have hfirst := hpass m a
    have hrest := ih (pass m a)
    refine ⟨hrest.config.trans hfirst.config, hrest.initialized.trans hfirst.initialized,
      fun j => (hrest.errorCount j).trans (hfirst.errorCount j), fun j => ?_⟩
    rw [List.foldl_cons, hrest.state, hfirst.state]
    by_cases hj : j = a <;> by_cases hl : j ∈ l <;> simp [hj, hl, hf]

/-- Starting. -/
def started (st : ModuleState) : ModuleState := if st = .ready then .running else st

/-- Stopping. -/
def stopped (st : ModuleState) : ModuleState := if st = .running then .ready else st

theorem moved_startModule (clock : ℕ → UInt64) (m : Manager) (i : ℕ) :
    Moved m (startModule clock m i) fun j st => if j = i then started st else st := by
  rw [startModule]
  by_cases hready : (m.modules i).state = .ready
  · rw [if_pos hready]
    exact moved_at rfl rfl (fun j hj => by simp [getTimestampMs, setModule, hj])
      (by simp [getTimestampMs, setModule]) (by simp [setModule, started, hready])
  · rw [if_neg hready]
    exact moved_at rfl rfl (fun _ _ => rfl) rfl (by simp [started, hready])

theorem moved_stopModule (m : Manager) (i : ℕ) :
    Moved m (stopModule m i) fun j st => if j = i then stopped st else st := by
  rw [stopModule]
  by_cases hrunning : (m.modules i).state = .running
  · rw [if_pos hrunning]
    exact moved_at rfl rfl (fun j hj => by simp [setModule, hj]) (by simp [setModule])
      (by simp [setModule, stopped, hrunning])
  · rw [if_neg hrunning]
    exact moved_at rfl rfl (fun _ _ => rfl) rfl (by simp [stopped, hrunning])

/-- What a call but `process` does to the state of a module. -/
def moves : ManagerCall → ModuleState → ModuleState
  | .startAllModules => started
  | .stopAllModules => stopped
  | _ => id

theorem Sound.exec_moves (h : m.Sound) {sent a : RetCode} {c : ManagerCall} (hc : c ≠ .process)
    (hexec : m.exec clock sent c = (a, m')) :
    ∃ f : ℕ → ModuleState → ModuleState, Moved m m' f ∧ ∀ i < moduleMax, f i = moves c := by
  -- Calls that leave the modules alone.
  have hsame : ∀ m' : Manager, m'.config = m.config → m'.isInitialized = m.isInitialized →
      m'.modules = m.modules → Moved m m' fun _ => id := fun m' hconfig hinit hmodules =>
    ⟨hconfig, hinit, fun _ => by rw [hmodules], fun _ => by rw [hmodules]; rfl⟩
  cases c with
  | startAllModules =>
    rw [exec, startAllModules, if_neg (by simp [h.initialized])] at hexec
    obtain rfl := (Prod.mk.inj hexec).2
    have hmoved := moved_foldl (fun st => by cases st <;> rfl) (moved_startModule clock)
      (List.range moduleMax) m
    refine ⟨fun j st => if j ∈ List.range moduleMax then started st else st,
      ⟨hmoved.config, hmoved.initialized, hmoved.errorCount, hmoved.state⟩, fun i hi => ?_⟩
    funext st
    simp [moves, hi]
  | stopAllModules =>
    rw [exec, stopAllModules, if_neg (by simp [h.initialized])] at hexec
    obtain rfl := (Prod.mk.inj hexec).2
    have hmoved := moved_foldl (fun st => by cases st <;> rfl) moved_stopModule
      (List.range moduleMax) m
    refine ⟨fun j st => if j ∈ List.range moduleMax then stopped st else st,
      ⟨hmoved.config, hmoved.initialized, hmoved.errorCount, hmoved.state⟩, fun i hi => ?_⟩
    funext st
    simp [moves, hi]
  | sendHeartbeat i =>
    rw [exec, sendHeartbeat] at hexec
    split at hexec
    · exact ⟨fun _ => id, (Prod.mk.inj hexec).2 ▸ hsame m rfl rfl rfl, fun _ _ => rfl⟩
    rw [if_neg (by simp [h.initialized])] at hexec
    obtain rfl := (Prod.mk.inj hexec).2
    refine ⟨fun j st => if j = i then id st else st, ?_, fun j _ => by funext st; simp [moves]⟩
    exact moved_at rfl rfl (fun j hj => by simp [setModule, hj]) (by simp [setModule])
      (by simp [setModule])
  | reportError i code text =>
    refine ⟨fun _ => id, ?_, fun _ _ => rfl⟩
    rw [exec, reportError] at hexec
    split at hexec
    · exact (Prod.mk.inj hexec).2 ▸ hsame m rfl rfl rfl
    rw [if_neg (by simp [h.initialized])] at hexec
    obtain rfl := (Prod.mk.inj hexec).2
    dsimp only [getTimestampMs]
    split <;> exact hsame _ rfl rfl rfl
  | process => exact absurd rfl hc
  | send msg =>
    refine ⟨fun _ => id, ?_, fun _ _ => rfl⟩
    rw [exec] at hexec
    obtain rfl := (Prod.mk.inj hexec).2
    split <;> exact hsame _ rfl rfl rfl

theorem Sound.moved (h : m.Sound) {f : ℕ → ModuleState → ModuleState} (hm : Moved m m' f) :
    m'.Sound where
  initialized := hm.initialized.trans h.initialized
  counted i hi := by
    rw [hm.config, FirmwareConfig.Counted, ModuleInfo.standing, hm.errorCount]
    exact h.counted i hi

theorem Sound.process (h : m.Sound) (clock : ℕ → UInt64) : (m.process clock).2.Sound where
  initialized :=
    ((Manager.charged_process clock h.initialized (Nat.succ_pos 4)).initialized).trans h.initialized
  counted i hi := by
    have hcall := Manager.charged_process clock h.initialized hi
    rw [hcall.config, hcall.standing]
    exact (h.counted i hi).iterate _

/-! ### Runs -/

theorem Sound.exec (h : m.Sound) {sent a : RetCode} {c : ManagerCall}
    (hexec : m.exec clock sent c = (a, m')) : m'.Sound := by
  by_cases hc : c = .process
  · subst hc
    exact (Prod.mk.inj hexec).2 ▸ h.process clock
  · obtain ⟨f, hmoved, -⟩ := h.exec_moves hc hexec
    exact h.moved hmoved

theorem moved_setReady (m : Manager) (i : ℕ) :
    Moved m (setReady m i) fun j st => if j = i then (fun _ => .ready) st else st :=
  moved_at rfl rfl (fun j hj => by simp [setReady, setModule, hj])
    (by simp [setReady, setModule]) (by simp [setReady, setModule])

/-- The manager is sound when it has been initialised. -/
theorem sound_boot (config : FirmwareConfig) (m : Manager) : (boot config m).Sound := by
  have hinit : (m.init config).2.Sound := ⟨rfl, fun _ _ _ => Or.inl rfl⟩
  have hmoved := moved_foldl (f := fun _ => .ready) (fun _ => rfl) moved_setReady [4, 0, 1, 2]
    (m.init config).2
  exact hinit.moved ⟨hmoved.config, hmoved.initialized, hmoved.errorCount, hmoved.state⟩

/-- In every run, the manager is sound. -/
theorem Sound.run {allowed : Manager → ManagerCall → Prop} (h : m.Sound)
    {tr : List (ManagerCall × RetCode)} (hrun : (machine clock).Run allowed m tr m') : m'.Sound :=
  hrun.invariant h fun _ _ _ _ h _ hstep => hstep.elim fun _ hexec => h.exec hexec

/-- The call spares the modules. -/
def Spared (clock : ℕ → UInt64) (m : Manager) (c : ManagerCall) : Prop :=
  c = .process → m.Spares clock

/-- The call spares the modules, and does not stop them. -/
def Kept (clock : ℕ → UInt64) (m : Manager) (c : ManagerCall) : Prop :=
  c ≠ .stopAllModules ∧ Spared clock m c

/-- The modules that are started are supervised: in every run, a heartbeat that is too old is
    recorded as an error. -/
def Supervised (clock : ℕ → UInt64) (allowed : Manager → ManagerCall → Prop) (m : Manager) : Prop :=
  ∀ i < moduleMax, (m.modules i).state = .ready →
    ∀ a m₁, (machine clock).step m .startAllModules a m₁ →
      ∀ tr m₂, (machine clock).Run allowed m₁ tr m₂ → allowed m₂ .process →
        m₂.Late (m₂.healthNow clock) i → m₂.recorded i < (m₂.process clock).2.recorded i

/-- The modules that are not initialised stay so, in every run. -/
def StaysUninit (clock : ℕ → UInt64) (allowed : Manager → ManagerCall → Prop) (m : Manager) :
    Prop :=
  ∀ i < moduleMax, (m.modules i).state = .uninit →
    ∀ tr m', (machine clock).Run allowed m tr m' → (m'.modules i).state = .uninit

/-- A call that spares the modules keeps those that run, unless it stops them, and those that are
    not initialised. -/
theorem Sound.exec_state (h : m.Sound) {sent a : RetCode} {c : ManagerCall}
    (hspared : Spared clock m c) (hexec : m.exec clock sent c = (a, m')) (hi : i < moduleMax)
    (hstate : (m.modules i).state = .running ∧ c ≠ .stopAllModules ∨
      (m.modules i).state = .uninit) : (m'.modules i).state = (m.modules i).state := by
  by_cases hc : c = .process
  · subst hc
    obtain rfl := (Prod.mk.inj hexec).2
    exact h.keeps_iff.2 (hspared rfl) i hi (hstate.imp_left And.left)
  · obtain ⟨f, hmoved, hf⟩ := h.exec_moves hc hexec
    rw [hmoved.state, hf i hi]
    rcases hstate with ⟨hstate, hstop⟩ | hstate
    · rw [hstate]
      cases c <;> first | rfl | exact absurd rfl hstop
    · rw [hstate]
      cases c <;> rfl

/-- In every run that spares the modules and does not stop them, those that run still do. -/
theorem Sound.run_running (h : m.Sound) {tr : List (ManagerCall × RetCode)}
    (hrun : (machine clock).Run (Kept clock) m tr m') (hi : i < moduleMax)
    (hstate : (m.modules i).state = .running) : (m'.modules i).state = .running := by
  induction hrun with
  | nil => exact hstate
  | snoc hrun hkept hstep ih =>
    obtain ⟨sent, hexec⟩ := hstep
    rw [(h.run hrun).exec_state hkept.2 hexec hi (Or.inl ⟨ih, hkept.1⟩), ih]

theorem Sound.staysUninit (h : m.Sound) : StaysUninit clock (Spared clock) m := by
  intro i hi hstate tr m' hrun
  induction hrun with
  | nil => exact hstate
  | snoc hrun hspared hstep ih =>
    obtain ⟨sent, hexec⟩ := hstep
    rw [(h.run hrun).exec_state hspared hexec hi (Or.inr ih), ih]

theorem Sound.supervised (h : m.Sound) : Supervised clock (Kept clock) m := by
  intro i hi hready a m₁ hstart tr m₂ hrun hkept hlate
  obtain ⟨sent, hexec⟩ := hstart
  obtain ⟨f, hmoved, hf⟩ := h.exec_moves (by simp) hexec
  have hrunning₁ : (m₁.modules i).state = .running := by
    rw [hmoved.state, hf i hi, hready]
    rfl
  have h₁ := h.exec hexec
  have h₂ := h₁.run hrun
  have hrunning := h₁.run_running hrun hi hrunning₁
  -- The watchdog finds the module, which is not recovered before.
  have hcall := h₂.charged_process hi (hkept.2 rfl i hi (Or.inl hrunning))
  rw [hcall.recorded, errors, if_pos ⟨hrunning, hlate⟩]
  omega

variable (clock) in
/-- **Supervision.** From every state that is reached after the manager has been initialised, by
    calls in any order, and whatever the clock reads: a call of `process` keeps the modules that
    run, and those that are not initialised, if and only if it spares them. In every run whose
    calls spare them, a module that has been started, and not been stopped since, has an error
    recorded by each call of `process` for which its heartbeat is too old, and one that is not
    initialised stays so. -/
theorem supervision_kept {config : FirmwareConfig} {m₀ : Manager}
    {tr : List (ManagerCall × RetCode)}
    (hrun : (machine clock).Run Machine.anyCall (boot config m₀) tr m) :
    (Keeps m (m.process clock).2 ↔ m.Spares clock) ∧ Supervised clock (Kept clock) m ∧
      StaysUninit clock (Spared clock) m :=
  have h := (sound_boot config m₀).run hrun
  ⟨h.keeps_iff, h.supervised, h.staysUninit⟩

/-! ### Two runs -/

/-- A configuration: a heartbeat is too old after a second, and a module with `max` errors is
    recovered. -/
def recovering (max : UInt32) : FirmwareConfig := ⟨1000, max, true, 5000, false⟩

/-- The firmware before the manager is initialised. -/
def off : Manager := ⟨recovering 0, fun _ => noModule, 0, 0, .unknown, false, false, 0, .empty, []⟩

/-- A clock of which each reading is two seconds after the one before. -/
def slow (n : ℕ) : UInt64 := UInt64.ofNat (2000 * n)

/-- The FTL has been started, and its heartbeat is too old: that is recorded. -/
theorem supervision_kept_once : ((boot (recovering 3) off).startAllModules slow).2.recorded 0 <
    (((boot (recovering 3) off).startAllModules slow).2.process slow).2.recorded 0 := by
  have hspared : Spared slow ((boot (recovering 3) off).startAllModules slow).2 .process :=
    fun _ => by decide
  exact (supervision_kept slow (.nil (s := boot (recovering 3) off))).2.1 0 (by decide)
    rfl .ok _ ⟨.ok, rfl⟩ [] _ .nil ⟨by simp, hspared⟩ (by decide)

/-- **A module that has been recovered is not supervised.** After one error the module is ready. -/
theorem supervision_lost : ¬ ∀ (clock : ℕ → UInt64) (config : FirmwareConfig) (m₀ m : Manager)
    (tr : List (ManagerCall × RetCode)),
    (machine clock).Run Machine.anyCall (boot config m₀) tr m →
      Keeps m (m.process clock).2 ∧ Supervised clock (fun _ c => c ≠ .stopAllModules) m := by
  intro h
  have hlost := (h slow (recovering 1) off _ [] .nil).2 0 (by decide) rfl .ok _ ⟨.ok, rfl⟩ _ _
    (.single (by simp) ⟨.ok, rfl⟩ : (machine slow).Run _ _ [(.process, .ok)] _) (by simp) (by decide)
  exact absurd hlost (by decide)

end Manager

end FtlFirmware
