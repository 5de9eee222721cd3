import FtlFirmware.Lib.Levels
import FtlFirmware.Manager.Basic

/-!
# The temperature and the power

The manager also watches the temperature and the power of the device (`ManagerDev`). The temperature
is looked at when it is updated and whenever the manager processes its messages. The power state
follows the time for which there has been no activity, and is looked at only in the latter case.

* `thermal_follows`: the state of the temperature is the one that the last reading outside of the
  band between the two lowest thresholds has decided on, however often the manager has looked at the
  same reading, and each rise to the critical state is counted once.
* `power_follows`: the power state is the one that the time from the last activity, or from the last
  time it was set, to the last look decides on, however often the manager has looked in between.
-/

namespace FtlFirmware

/-- The states of the temperature (`temp_state_t`). -/
inductive TempState
  | normal
  | warning
  | critical
  | shutdown
  deriving DecidableEq, Repr

/-- The thresholds of the temperature (`thermal_config_t`). -/
structure ThermalConfig where
  warningThreshold : ℤ
  criticalThreshold : ℤ
  shutdownThreshold : ℤ
  normalThreshold : ℤ

/-- What the manager knows of the temperature (`thermal_state_t`). -/
structure ThermalState where
  currentTemp : ℤ
  maxTemp : ℤ
  state : TempState
  throttlingCount : UInt32
  totalThrottlingMs : UInt64

/-- The power states (`power_state_t`). -/
inductive PowerState
  | active
  | idle
  | standby
  | sleep
  | deepSleep
  deriving DecidableEq, Repr

/-- The power state with a number, if there is one (`POWER_STATE_MAX`). -/
def PowerState.ofNat? : ℕ → Option PowerState
  | 0 => some .active
  | 1 => some .idle
  | 2 => some .standby
  | 3 => some .sleep
  | 4 => some .deepSleep
  | _ => none

/-- The timeouts of the power management (`power_config_t`). -/
structure PowerConfig where
  idleTimeoutMs : UInt32
  standbyTimeoutMs : UInt32
  sleepTimeoutMs : UInt32

/-- What the manager knows of the power (`power_state_info_t`). -/
structure PowerStateInfo where
  currentState : PowerState
  targetState : PowerState
  lastActivityMs : UInt64
  powerStateChanges : UInt32
  totalActiveMs : UInt64
  totalIdleMs : UInt64

/-- The manager, with the temperature and the power (`manager_dev_t`). -/
structure ManagerDev extends Manager where
  thermalConfig : ThermalConfig
  standbyTimeoutMs : UInt32
  sleepTimeoutMs : UInt32
  thermal : ThermalState
  power : PowerStateInfo

/-- Decides on the state of the temperature (`process_thermal_management`). In the band between the
    normal temperature and the warning, the state stays as it is. -/
def ThermalState.process (thermal : ThermalState) (config : ThermalConfig) : ThermalState :=
  let thermal :=
    if config.shutdownThreshold ≤ thermal.currentTemp then { thermal with state := .shutdown }
    else if config.criticalThreshold ≤ thermal.currentTemp then
      { thermal with
        state := .critical
        throttlingCount := thermal.throttlingCount + if thermal.state ≠ .critical then 1 else 0
        totalThrottlingMs := thermal.totalThrottlingMs + 1 }
    else if config.warningThreshold ≤ thermal.currentTemp then { thermal with state := .warning }
    else if thermal.currentTemp ≤ config.normalThreshold then { thermal with state := .normal }
    else thermal
  if thermal.maxTemp < thermal.currentTemp then { thermal with maxTemp := thermal.currentTemp }
  else thermal

/-- Enters a power state, unless it has been entered before. -/
def PowerStateInfo.enter (power : PowerStateInfo) (state : PowerState) : PowerStateInfo :=
  if power.currentState ≠ state then
    { power with currentState := state, powerStateChanges := power.powerStateChanges + 1 }
  else power

/-- The time for which there has been no activity, which is none if the clock has gone back. -/
def idleTime (now lastActivityMs : UInt64) : UInt64 :=
  if lastActivityMs ≤ now then now - lastActivityMs else 0

/-- Decides on the power state, at the time `now` (`process_power_management`). -/
def PowerStateInfo.process (power : PowerStateInfo) (config : PowerConfig) (now : UInt64) :
    PowerStateInfo :=
  let idle := idleTime now power.lastActivityMs
  let power :=
    if config.sleepTimeoutMs.toUInt64 ≤ idle then power.enter .sleep
    else if config.standbyTimeoutMs.toUInt64 ≤ idle then power.enter .standby
    else if config.idleTimeoutMs.toUInt64 ≤ idle then power.enter .idle
    else power
  if power.currentState = .active then { power with totalActiveMs := power.totalActiveMs + 1 }
  else { power with totalIdleMs := power.totalIdleMs + 1 }

namespace ManagerDev

variable (clock : ℕ → UInt64) (d : ManagerDev)

/-- The configuration of the power management. -/
def powerConfig : PowerConfig := ⟨d.config.idleTimeoutMs, d.standbyTimeoutMs, d.sleepTimeoutMs⟩

/-- Initialises the manager (`manager_init`). Without a first threshold or a first timeout, there
    are defaults for all of them. -/
def init (config : FirmwareConfig) (thermal : ThermalConfig) (power : PowerConfig) :
    ManagerDev where
  toManager := (d.toManager.init { config with idleTimeoutMs := power.idleTimeoutMs }).2
  thermalConfig := if thermal.warningThreshold = 0 then ⟨70, 80, 90, 60⟩ else thermal
  standbyTimeoutMs := if power.idleTimeoutMs = 0 then 30000 else power.standbyTimeoutMs
  sleepTimeoutMs := if power.idleTimeoutMs = 0 then 60000 else power.sleepTimeoutMs
  thermal := ⟨25, 25, .normal, 0, 0⟩
  power := ⟨.active, .active, 0, 0, 0, 0⟩

/-- Updates the temperature (`manager_update_temperature`). -/
def updateTemperature (temperature : ℤ) : RetCode × ManagerDev :=
  if !d.isInitialized then (.errNotInit, d)
  else
    (.ok, { d with
      thermal := { d.thermal with currentTemp := temperature }.process d.thermalConfig })

/-- Sets the power state (`manager_set_power_state`). The time that has been read is given with the
    answer. -/
def setPowerState (state : ℕ) : (RetCode × UInt64) × ManagerDev :=
  match PowerState.ofNat? state with
  | none => ((.errParam, 0), d)
  | some state =>
    if !d.isInitialized then ((.errNotInit, 0), d)
    else
      let (now, m) := d.getTimestampMs clock
      ((.ok, now), { d with
        toManager := m
        power := { d.power with
          targetState := state
          currentState := state
          powerStateChanges := d.power.powerStateChanges + 1
          lastActivityMs := now } })

/-- There is activity (`manager_report_activity`). -/
def reportActivity : (RetCode × UInt64) × ManagerDev :=
  if !d.isInitialized then ((.errNotInit, 0), d)
  else
    let (now, m) := d.getTimestampMs clock
    ((.ok, now), { d with
      toManager := m
      power := { d.power with lastActivityMs := now }.enter .active })

/-- Handles the messages that wait, checks the modules, and looks at the temperature and, if it is
    to be managed, at the power (`manager_process`). -/
def process : (RetCode × UInt64) × ManagerDev :=
  if !d.isInitialized then ((.errNotInit, 0), d)
  else
    let m := (d.processMessages clock d.box.queue.length).processHealthCheck clock
    let thermal := d.thermal.process d.thermalConfig
    if m.config.powerManagement then
      let (now, m) := m.getTimestampMs clock
      ((.ok, now), { d with
        toManager := m
        thermal := thermal
        power := d.power.process d.powerConfig now })
    else ((.ok, 0), { d with toManager := m, thermal := thermal })

/-- What happens to the manager itself is the same as without the temperature and the power. -/
theorem process_toManager : (d.process clock).1.1 = (d.toManager.process clock).1 ∧
    (d.process clock).2.toManager = (d.toManager.process clock).2 := by
  rw [process, Manager.process]
  split_ifs with hinit
  · exact ⟨rfl, rfl⟩
  · dsimp only
    rw [Manager.processPowerManagement]
    split_ifs <;> exact ⟨rfl, rfl⟩

end ManagerDev

/-- The calls of the manager with the temperature and the power. -/
inductive ManagerDevCall
  | manager (c : ManagerCall)
  | updateTemperature (temperature : ℤ)
  | setPowerState (state : ℕ)
  | reportActivity

namespace ManagerDev

/-- Executes a call. The answer is the code, and the time that has been read for the power, or
    `0`. -/
def exec (clock : ℕ → UInt64) (sent : RetCode) (d : ManagerDev) :
    ManagerDevCall → (RetCode × UInt64) × ManagerDev
  | .manager .process => d.process clock
  | .manager c =>
    let (ret, m) := d.toManager.exec clock sent c
    ((ret, 0), { d with toManager := m })
  | .updateTemperature t =>
    let (ret, d) := d.updateTemperature t
    ((ret, 0), d)
  | .setPowerState state => d.setPowerState clock state
  | .reportActivity => d.reportActivity clock

/-- The manager as a machine. -/
def machine (clock : ℕ → UInt64) : Machine ManagerDev ManagerDevCall (RetCode × UInt64) where
  step d c a d' := ∃ sent, d.exec clock sent c = (a, d')

end ManagerDev

/-! ## Decisions -/

/-- The state that a temperature decides on. -/
def ThermalConfig.level (config : ThermalConfig) (t : ℤ) : Option TempState :=
  if config.shutdownThreshold ≤ t then some .shutdown
  else if config.criticalThreshold ≤ t then some .critical
  else if config.warningThreshold ≤ t then some .warning
  else if t ≤ config.normalThreshold then some .normal
  else none

/-- The power state that a time without activity decides on. -/
def PowerConfig.level (config : PowerConfig) (idle : UInt64) : Option PowerState :=
  if config.sleepTimeoutMs.toUInt64 ≤ idle then some .sleep
  else if config.standbyTimeoutMs.toUInt64 ≤ idle then some .standby
  else if config.idleTimeoutMs.toUInt64 ≤ idle then some .idle
  else none

/-- What a look at the temperature changes. -/
theorem ThermalState.process_spec (thermal : ThermalState) (config : ThermalConfig) :
    (thermal.process config).currentTemp = thermal.currentTemp ∧
      (thermal.process config).state = (config.level thermal.currentTemp).getD thermal.state ∧
      (thermal.process config).maxTemp = max thermal.maxTemp thermal.currentTemp ∧
      (thermal.process config).throttlingCount = thermal.throttlingCount +
        if thermal.state ≠ .critical ∧ config.level thermal.currentTemp = some .critical then 1
        else 0 := by
  -- the record is kept at the end, whatever has been decided
  have hrecord (t : ThermalState) (ht : t.currentTemp = thermal.currentTemp)
      (hmax : t.maxTemp = thermal.maxTemp) :
      (if t.maxTemp < t.currentTemp then { t with maxTemp := t.currentTemp } else t) =
        { t with maxTemp := max thermal.maxTemp thermal.currentTemp } := by
    rw [← ht, ← hmax]
    split_ifs with hlt
    · rw [max_eq_right hlt.le]
    · rw [max_eq_left (not_lt.1 hlt)]
  rw [ThermalState.process, ThermalConfig.level, hrecord _ (by split_ifs <;> rfl)
    (by split_ifs <;> rfl)]
  split_ifs with h₁ h₂ h₃ h₄ h₅ <;> simp_all

theorem PowerStateInfo.enter_spec (power : PowerStateInfo) (state : PowerState) :
    (power.enter state).currentState = state ∧
      (power.enter state).lastActivityMs = power.lastActivityMs := by
  rw [enter]
  split_ifs with hne
  · exact ⟨rfl, rfl⟩
  · exact ⟨not_not.1 hne, rfl⟩

/-- What a look at the time changes. -/
theorem PowerStateInfo.process_spec (power : PowerStateInfo) (config : PowerConfig) (now : UInt64) :
    (power.process config now).currentState =
        (config.level (idleTime now power.lastActivityMs)).getD power.currentState ∧
      (power.process config now).lastActivityMs = power.lastActivityMs := by
  have hcount (p : PowerStateInfo) :
      (if p.currentState = PowerState.active then { p with totalActiveMs := p.totalActiveMs + 1 }
        else { p with totalIdleMs := p.totalIdleMs + 1 }).currentState = p.currentState ∧
      (if p.currentState = PowerState.active then { p with totalActiveMs := p.totalActiveMs + 1 }
        else { p with totalIdleMs := p.totalIdleMs + 1 }).lastActivityMs = p.lastActivityMs := by
    split_ifs <;> exact ⟨rfl, rfl⟩
  rw [PowerStateInfo.process, PowerConfig.level, (hcount _).1, (hcount _).2]
  split_ifs
  · exact power.enter_spec .sleep
  · exact power.enter_spec .standby
  · exact power.enter_spec .idle
  · exact ⟨rfl, rfl⟩

/-! ## The temperature -/

/-- The temperatures that have been looked at: those of the updates, and before these the one that
    the manager begins with, if it has been looked at. -/
def nextReadings (readings : List ℤ) : ManagerDevCall × (RetCode × UInt64) → List ℤ
  | (.updateTemperature t, _) => readings ++ [t]
  | (.manager .process, _) => if readings = [] then [25] else readings
  | _ => readings

/-- What the manager knows of the temperature is told by the temperatures that have been looked
    at. -/
structure ThermalState.Follows (thermal : ThermalState) (config : ThermalConfig)
    (readings : List ℤ) : Prop where
  current : thermal.currentTemp = readings.getLast?.getD 25
  state : thermal.state = Levels.held config.level .normal readings
  max : thermal.maxTemp = readings.foldl max 25
  count : thermal.throttlingCount =
    UInt32.ofNat (Levels.entries .critical .normal (readings.filterMap config.level))

section

variable {thermal : ThermalState} {config : ThermalConfig} {readings : List ℤ}

/-- A new temperature is looked at. -/
theorem ThermalState.Follows.look (h : thermal.Follows config readings) (t : ℤ) :
    ({ thermal with currentTemp := t }.process config).Follows config (readings ++ [t]) := by
  obtain ⟨hcurrent, hstate, hmax, hcount⟩ :=
    ThermalState.process_spec { thermal with currentTemp := t } config
  refine ⟨?_, ?_, ?_, ?_⟩
  · rw [hcurrent, List.getLast?_concat]
    rfl
  · rw [hstate, Levels.held_concat, ← h.state]
  · rw [hmax, List.foldl_append, ← h.max]
    rfl
  · have hentries : Levels.entries .critical .normal ((readings ++ [t]).filterMap config.level) =
        Levels.entries .critical .normal (readings.filterMap config.level) +
          if thermal.state ≠ .critical ∧ config.level t = some .critical then 1 else 0 := by
      rw [List.filterMap_append, List.filterMap_cons, List.filterMap_nil, h.state,
        Levels.held_eq_getLast]
      cases config.level t with
      | none => simp
      | some state => simp [Levels.entries_concat]
    rw [hcount, hentries, h.count, UInt32.ofNat_add]
    congr 1
    split_ifs <;> rfl

/-- The last temperature is looked at again. -/
theorem ThermalState.Follows.again (h : thermal.Follows config readings) (hne : readings ≠ []) :
    (thermal.process config).Follows config readings := by
  obtain ⟨hcurrent, hstate, hmax, hcount⟩ := thermal.process_spec config
  obtain ⟨before, t, rfl⟩ := (List.eq_nil_or_concat' readings).resolve_left hne
  have ht : thermal.currentTemp = t := by
    rw [h.current, List.getLast?_concat]
    rfl
  have hheld : (config.level t).getD thermal.state = thermal.state := by
    rw [h.state, Levels.held_concat]
    cases config.level t <;> rfl
  rw [ht] at hcurrent hstate hmax hcount
  refine ⟨?_, ?_, ?_, ?_⟩
  · rw [hcurrent, List.getLast?_concat]
    rfl
  · rw [hstate, hheld, h.state]
  · rw [hmax, h.max, List.foldl_append]
    exact max_eq_left (le_max_right _ _)
  · have hnone : ¬ (thermal.state ≠ .critical ∧ config.level t = some .critical) := by
      rintro ⟨hne, hlevel⟩
      rw [hlevel] at hheld
      exact hne hheld.symm
    rw [hcount, if_neg hnone, UInt32.add_zero, h.count]

end

/-! ## The manager itself -/

namespace Manager

variable {clock : ℕ → UInt64} {m m' m'' : Manager}

/-- The manager goes on: its configuration stays, and the clock is only read. -/
structure Advances (m m' : Manager) : Prop where
  config : m'.config = m.config
  initialized : m'.isInitialized = m.isInitialized
  ticks : m.ticks ≤ m'.ticks

theorem Advances.refl (m : Manager) : Advances m m := ⟨rfl, rfl, Nat.le_refl _⟩

theorem Advances.trans (h : Advances m m') (h' : Advances m' m'') : Advances m m'' :=
  ⟨h'.config.trans h.config, h'.initialized.trans h.initialized, h.ticks.trans h'.ticks⟩

/-- One after another. -/
theorem Advances.foldl {ι : Type*} {f : Manager → ι → Manager} (hf : ∀ m i, Advances m (f m i))
    (l : List ι) (m : Manager) : Advances m (l.foldl f m) := by
  induction l generalizing m with
  | nil => exact .refl m
  | cons i l ih => exact (hf m i).trans (ih (f m i))

variable (clock) (m)

theorem advances_checkModuleHealth (i : ℕ) : Advances m (m.checkModuleHealth clock i).2 := by
  rw [checkModuleHealth]
  dsimp only [getTimestampMs]
  split_ifs
  · exact .refl m
  all_goals exact ⟨rfl, rfl, Nat.le_succ _⟩

theorem advances_processErrorReport (i : ℕ) (errorCode : UInt32) :
    Advances m (m.processErrorReport clock i errorCode) := by
  rw [processErrorReport]
  split_ifs with hi
  · exact .refl m
  · have hcheck := advances_checkModuleHealth clock
      { m.setModule i { m.modules i with errorCount := (m.modules i).errorCount + 1 } with
        totalErrors := m.totalErrors + 1 } i
    dsimp only
    split_ifs
    · rw [autoRecoverModule, if_neg hi]
      exact ⟨hcheck.config, hcheck.initialized, hcheck.ticks⟩
    · exact ⟨hcheck.config, hcheck.initialized, hcheck.ticks⟩

theorem advances_processHealthCheck : Advances m (m.processHealthCheck clock) := by
  have hwatch (now : UInt64) (m : Manager) (i : ℕ) : Advances m (m.watch clock now i) := by
    rw [watch]
    split_ifs
    · exact .refl m
    · exact m.advances_processErrorReport clock i _
    · exact .refl m
  have hall := Advances.foldl (hwatch (clock m.ticks)) (List.range moduleMax)
    { m with ticks := m.ticks + 1 }
  rw [processHealthCheck]
  dsimp only [getTimestampMs]
  generalize List.foldl _ _ _ = m' at hall ⊢
  exact ⟨hall.config, hall.initialized, (Nat.le_succ _).trans hall.ticks⟩

theorem advances_processMessages (n : ℕ) : Advances m (m.processMessages clock n) := by
  induction n generalizing m with
  | zero => exact .refl m
  | succ n ih =>
    rw [processMessages]
    split
    · exact .refl m
    · next x _ _ =>
      have hmsg : Advances m ({ m with box := m.box.deliver }.handleMsg clock x.2) := by
        rw [handleMsg]
        split_ifs
        · have herror := advances_processErrorReport clock { m with box := m.box.deliver }
            x.2.header.srcModule x.2.errorCode
          exact ⟨herror.config, herror.initialized, herror.ticks⟩
        · exact ⟨rfl, rfl, Nat.le_refl _⟩
      exact hmsg.trans (ih _)

/-- Before it looks at the power. -/
theorem advances_checked :
    Advances m ((m.processMessages clock m.box.queue.length).processHealthCheck clock) :=
  (m.advances_processMessages clock _).trans (advances_processHealthCheck clock _)

theorem advances_exec (sent : RetCode) (c : ManagerCall) :
    Advances m (m.exec clock sent c).2 := by
  cases c with
  | startAllModules =>
    have hstart (m : Manager) (i : ℕ) : Advances m (m.startModule clock i) := by
      rw [startModule]
      split_ifs
      · exact ⟨rfl, rfl, Nat.le_succ _⟩
      · exact .refl m
    have hall := Advances.foldl hstart (List.range moduleMax) m
    rw [exec, startAllModules]
    split_ifs
    · exact .refl m
    · exact ⟨hall.config, hall.initialized, hall.ticks⟩
  | stopAllModules =>
    have hstop (m : Manager) (i : ℕ) : Advances m (m.stopModule i) := by
      rw [stopModule]
      split_ifs
      · exact ⟨rfl, rfl, Nat.le_refl _⟩
      · exact .refl m
    have hall := Advances.foldl hstop (List.range moduleMax) m
    rw [exec, stopAllModules]
    split_ifs
    · exact .refl m
    · exact ⟨hall.config, hall.initialized, hall.ticks⟩
  | sendHeartbeat i =>
    rw [exec, sendHeartbeat]
    split_ifs
    · exact .refl m
    · exact .refl m
    · exact ⟨rfl, rfl, Nat.le_succ _⟩
  | reportError i code text =>
    rw [exec, reportError]
    dsimp only [getTimestampMs]
    split_ifs
    · exact .refl m
    · exact .refl m
    all_goals exact ⟨rfl, rfl, Nat.le_succ _⟩
  | process =>
    have hall := m.advances_checked clock
    rw [exec, process]
    -- The messages and the health check come first, then the time is looked at.
    generalize (m.processMessages clock m.box.queue.length).processHealthCheck clock = m' at hall ⊢
    split_ifs
    · exact .refl m
    · dsimp only
      rw [processPowerManagement]
      split_ifs
      · exact ⟨hall.config, hall.initialized, hall.ticks.trans (Nat.le_succ _)⟩
      · exact hall
  | send msg =>
    rw [exec]
    split_ifs <;> exact ⟨rfl, rfl, Nat.le_refl _⟩

end Manager

/-! ## Runs -/

namespace ManagerDev

variable {clock : ℕ → UInt64} {d d' s : ManagerDev} {c : ManagerDevCall} {a : RetCode × UInt64}
  {tr : List (ManagerDevCall × (RetCode × UInt64))}

/-- Processing, when the manager has been initialised: the clock is read for the power after the
    checks. -/
theorem process_of_init (hinit : d.isInitialized = true) (clock : ℕ → UInt64) :
    ∃ m, d.Advances m ∧ d.process clock =
      if d.config.powerManagement then
        ((.ok, clock m.ticks), { d with
          toManager := { m with ticks := m.ticks + 1 }
          thermal := d.thermal.process d.thermalConfig
          power := d.power.process d.powerConfig (clock m.ticks) })
      else
        ((.ok, 0), { d with toManager := m, thermal := d.thermal.process d.thermalConfig }) := by
  have hchecked := d.advances_checked clock
  have hnot : ¬ (!d.isInitialized) = true := by simp [hinit]
  rw [process, if_neg hnot]
  generalize (d.processMessages clock d.box.queue.length).processHealthCheck clock = m
    at hchecked ⊢
  have hpower : m.config.powerManagement = d.config.powerManagement := by rw [hchecked.config]
  refine ⟨m, hchecked, ?_⟩
  simp only [hpower]
  rfl

/-- The configuration stays in every step. -/
theorem steady_step (h : (machine clock).step d c a d') (hinit : d.isInitialized = true) :
    d.Advances d'.toManager ∧ d'.thermalConfig = d.thermalConfig ∧
      d'.powerConfig = d.powerConfig := by
  obtain ⟨sent, h⟩ := h
  have hnot : ¬ (!d.isInitialized) = true := by simp [hinit]
  have hread (m : Manager) : m.Advances { m with ticks := m.ticks + 1 } :=
    ⟨rfl, rfl, Nat.le_succ _⟩
  have hkeep {m : Manager} (hm : d.Advances m) (thermal : ThermalState) (power : PowerStateInfo)
      (h : { d with toManager := m, thermal := thermal, power := power } = d') :
      d.Advances d'.toManager ∧ d'.thermalConfig = d.thermalConfig ∧
        d'.powerConfig = d.powerConfig := by
    subst h
    refine ⟨hm, rfl, ?_⟩
    rw [powerConfig, powerConfig, hm.config]
  have hmanager (c : ManagerCall) (hc : c ≠ .process)
      (h : d.exec clock sent (.manager c) = (a, d')) :
      d.Advances d'.toManager ∧ d'.thermalConfig = d.thermalConfig ∧
        d'.powerConfig = d.powerConfig := by
    have hexec := d.advances_exec clock sent c
    cases c with
    | process => exact absurd rfl hc
    | _ => exact hkeep hexec _ _ (Prod.mk.inj h).2
  cases c with
  | manager c =>
    by_cases hc : c = .process
    · subst hc
      obtain ⟨m, hm, hprocess⟩ := process_of_init hinit clock
      rw [exec, hprocess] at h
      split_ifs at h
      · exact hkeep (hm.trans (hread m)) _ _ (Prod.mk.inj h).2
      · exact hkeep hm _ _ (Prod.mk.inj h).2
    · exact hmanager c hc h
  | updateTemperature t =>
    rw [exec, updateTemperature, if_neg hnot] at h
    exact hkeep (.refl _) _ _ (Prod.mk.inj h).2
  | setPowerState state =>
    rw [exec, setPowerState] at h
    split at h
    · exact hkeep (.refl _) _ _ (Prod.mk.inj h).2
    · rw [if_neg hnot] at h
      exact hkeep (hread _) _ _ (Prod.mk.inj h).2
  | reportActivity =>
    rw [exec, reportActivity, if_neg hnot] at h
    exact hkeep (hread _) _ _ (Prod.mk.inj h).2

/-- What a step does to the temperature and to the power. -/
theorem step_cases (h : (machine clock).step d c a d') (hinit : d.isInitialized = true) :
    (c = .manager .process ∧ d'.thermal = d.thermal.process d.thermalConfig ∧
      ((d.config.powerManagement = true ∧ ∃ k, d.ticks ≤ k ∧ k < d'.ticks ∧ a = (.ok, clock k) ∧
          d'.power = d.power.process d.powerConfig (clock k)) ∨
        (d.config.powerManagement = false ∧ a = (.ok, 0) ∧ d'.power = d.power))) ∨
    (∃ t, c = .updateTemperature t ∧ d'.power = d.power ∧
      d'.thermal = { d.thermal with currentTemp := t }.process d.thermalConfig) ∨
    (d'.thermal = d.thermal ∧ ∃ state, (c = .reportActivity ∧ state = .active ∨
        ∃ n, c = .setPowerState n ∧ PowerState.ofNat? n = some state) ∧
      a = (.ok, clock d.ticks) ∧ d'.ticks = d.ticks + 1 ∧ d'.power.currentState = state ∧
      d'.power.lastActivityMs = clock d.ticks) ∨
    (d'.thermal = d.thermal ∧ d'.power = d.power ∧ ((∃ c', c = .manager c' ∧ c' ≠ .process) ∨
      ∃ n, c = .setPowerState n ∧ a.1 ≠ .ok)) := by
  obtain ⟨sent, h⟩ := h
  have hnot : ¬ (!d.isInitialized) = true := by simp [hinit]
  cases c with
  | manager c =>
    by_cases hc : c = .process
    · subst hc
      obtain ⟨m, hm, hprocess⟩ := process_of_init hinit clock
      rw [exec, hprocess] at h
      split_ifs at h with hpower
      all_goals obtain ⟨rfl, rfl⟩ := Prod.mk.inj h
      · exact .inl ⟨rfl, rfl, .inl ⟨hpower, m.ticks, hm.ticks, Nat.lt_succ_self _, rfl, rfl⟩⟩
      · exact .inl ⟨rfl, rfl, .inr ⟨Bool.eq_false_iff.2 hpower, rfl, rfl⟩⟩
    -- The other calls of the manager leave both parts alone.
    · have hsame : d'.thermal = d.thermal ∧ d'.power = d.power := by
        cases c with
        | process => exact absurd rfl hc
        | _ =>
          obtain rfl := (Prod.mk.inj h).2
          exact ⟨rfl, rfl⟩
      exact .inr (.inr (.inr ⟨hsame.1, hsame.2, .inl ⟨c, rfl, hc⟩⟩))
  | updateTemperature t =>
    rw [exec, updateTemperature, if_neg hnot] at h
    obtain rfl := (Prod.mk.inj h).2
    exact .inr (.inl ⟨t, rfl, rfl, rfl⟩)
  | setPowerState n =>
    rw [exec, setPowerState] at h
    split at h
    · obtain ⟨rfl, rfl⟩ := Prod.mk.inj h
      exact .inr (.inr (.inr ⟨rfl, rfl, .inr ⟨n, rfl, by decide⟩⟩))
    · next state hstate =>
      rw [if_neg hnot] at h
      obtain ⟨rfl, rfl⟩ := Prod.mk.inj h
      exact .inr (.inr (.inl ⟨rfl, state, .inr ⟨n, rfl, hstate⟩, rfl, rfl, rfl, rfl⟩))
  | reportActivity =>
    rw [exec, reportActivity, if_neg hnot] at h
    obtain ⟨rfl, rfl⟩ := Prod.mk.inj h
    obtain ⟨hstate, hlast⟩ :=
      { d.power with lastActivityMs := clock d.ticks }.enter_spec PowerState.active
    exact .inr (.inr (.inl ⟨rfl, _, .inl ⟨rfl, rfl⟩, rfl, rfl, hstate, hlast⟩))

/-- A step takes the readings along. -/
theorem thermal_step (h : (machine clock).step d c a d') (hinit : d.isInitialized = true)
    {readings : List ℤ} (hfollows : d.thermal.Follows d.thermalConfig readings) :
    d'.thermal.Follows d.thermalConfig (nextReadings readings (c, a)) := by
  obtain ⟨rfl, hthermal, -⟩ | ⟨t, rfl, -, hthermal⟩ | ⟨hthermal, state, hc, -⟩ |
    ⟨hthermal, -, hc⟩ := step_cases h hinit
  all_goals rw [hthermal]
  · rw [nextReadings]
    split_ifs with hempty
    · have hcurrent : d.thermal.currentTemp = 25 := by
        rw [hfollows.current, hempty]
        rfl
      have hself : { d.thermal with currentTemp := 25 } = d.thermal := by rw [← hcurrent]
      have hlook := hfollows.look 25
      rw [hself, hempty] at hlook
      exact hlook
    · exact hfollows.again hempty
  · exact hfollows.look t
  · obtain ⟨rfl, -⟩ | ⟨n, rfl, -⟩ := hc <;> exact hfollows
  · obtain ⟨c', rfl, hne⟩ | ⟨n, rfl, -⟩ := hc
    · cases c' with
      | process => exact absurd rfl hne
      | _ => exact hfollows
    · exact hfollows

/-- A manager that has been initialised and goes on. -/
structure Started (d d' : ManagerDev) : Prop where
  advances : d.Advances d'.toManager
  initialized : d.isInitialized = true
  thermalConfig : d'.thermalConfig = d.thermalConfig
  powerConfig : d'.powerConfig = d.powerConfig

theorem Started.step (h : Started d s) (hstep : (machine clock).step s c a d') : Started d d' := by
  have hinit : s.isInitialized = true := h.advances.initialized.trans h.initialized
  obtain ⟨hadvances, hthermal, hpower⟩ := steady_step hstep hinit
  exact ⟨h.advances.trans hadvances, h.initialized, hthermal.trans h.thermalConfig,
    hpower.trans h.powerConfig⟩

theorem Started.isInitialized (h : Started d s) : s.isInitialized = true :=
  h.advances.initialized.trans h.initialized

/-- Over every run from the initialisation on, whatever the clock reads: the state of the
    temperature is the last one that one of the temperatures looked at has decided on, the highest
    temperature is the highest one of these, and as many rises to the critical state have been
    counted as there have been among the decisions. -/
theorem thermal_follows {config : FirmwareConfig} {thermal : ThermalConfig} {power : PowerConfig}
    (hrun : (machine clock).Run Machine.anyCall (d.init config thermal power) tr s) :
    s.thermal.Follows (d.init config thermal power).thermalConfig (tr.foldl nextReadings []) := by
  generalize hd : d.init config thermal power = d₀ at hrun
  have hstart : Started d₀ d₀ := ⟨.refl _, by rw [← hd]; rfl, rfl, rfl⟩
  have hfollows : d₀.thermal.Follows d₀.thermalConfig [] := by
    rw [← hd]
    exact ⟨rfl, rfl, rfl, rfl⟩
  refine (hrun.simulation (R := fun s readings => Started d₀ s ∧
    s.thermal.Follows d₀.thermalConfig readings) ⟨hstart, hfollows⟩ ?_).2
  intro s readings c a s' hs _ hstep
  have hthermal := thermal_step hstep hs.1.isInitialized (hs.1.thermalConfig.symm ▸ hs.2)
  rw [hs.1.thermalConfig] at hthermal
  exact ⟨hs.1.step hstep, hthermal⟩

/-- The firmware before the manager is initialised. -/
def unset : ManagerDev where
  toManager :=
    ⟨⟨1000, 3, true, 1, true⟩, fun _ => Manager.noModule, 0, 0, .unknown, false, false, 0,
      .empty, []⟩
  thermalConfig := ⟨0, 0, 0, 0⟩
  standbyTimeoutMs := 30000
  sleepTimeoutMs := 60000
  thermal := ⟨0, 0, .normal, 0, 0⟩
  power := ⟨.active, .active, 0, 0, 0, 0⟩

/-- The firmware after the manager has been initialised, with the default thresholds. -/
def begun : ManagerDev := unset.init unset.config unset.thermalConfig unset.powerConfig

/-- A clock that counts its readings, and stops at the end. -/
def counter (n : ℕ) : UInt64 := UInt64.ofNat (min n (2 ^ 64 - 1))

/-- A temperature below the warning that comes after a critical one: the state stays critical. -/
theorem thermal_follows_band : ∃ s,
    (machine counter).Run Machine.anyCall begun
      [(.updateTemperature 85, (.ok, 0)), (.updateTemperature 65, (.ok, 0))] s ∧
    s.thermal.state = .critical ∧ s.thermal.throttlingCount = 1 ∧ s.thermal.maxTemp = 85 := by
  have hrun := (Machine.Run.single trivial ⟨.ok, rfl⟩ : (machine counter).Run Machine.anyCall begun
    [(.updateTemperature 85, (.ok, 0))] (begun.updateTemperature 85).2).snoc
    (a := .updateTemperature 65) (b := (.ok, 0)) trivial ⟨.ok, rfl⟩
  have hfollows := thermal_follows hrun
  exact ⟨_, hrun, hfollows.state.trans (by decide), hfollows.count.trans (by decide),
    hfollows.max.trans (by decide)⟩

/-! ## The power -/

/-- When there has last been activity, or the power state has been set, to which state, and when the
    manager has last looked at the power since. -/
structure PowerBook where
  since : UInt64
  state : PowerState
  checked : Option UInt64

namespace PowerBook

/-- The book at first. -/
def start : PowerBook := ⟨0, .active, none⟩

/-- What is noted in the book. The manager looks at the power if it is to be managed. -/
def next (managed : Bool) (b : PowerBook) : ManagerDevCall × (RetCode × UInt64) → PowerBook
  | (.setPowerState n, (.ok, now)) => ⟨now, (PowerState.ofNat? n).getD .active, none⟩
  | (.reportActivity, (.ok, now)) => ⟨now, .active, none⟩
  | (.manager .process, (.ok, now)) => if managed then { b with checked := some now } else b
  | _ => b

/-- The power state that the last look decides on. -/
def expected (config : PowerConfig) (b : PowerBook) : PowerState :=
  (b.checked.bind fun now => config.level (idleTime now b.since)).getD b.state

end PowerBook

/-- The time without activity only rises. -/
theorem idleTime_mono {since t now : UInt64} (h : t ≤ now) :
    idleTime t since ≤ idleTime now since := by
  rw [idleTime, idleTime]
  split_ifs with hsince hnow hnow
  · rw [UInt64.le_iff_toNat_le, UInt64.toNat_sub_of_le _ _ hsince, UInt64.toNat_sub_of_le _ _ hnow]
    exact Nat.sub_le_sub_right (UInt64.le_iff_toNat_le.1 h) _
  · exact absurd (UInt64.le_trans hsince h) hnow
  · exact UInt64.zero_le
  · exact UInt64.le_refl _

/-- If a time decides on nothing, a shorter one does not either. -/
theorem powerLevel_none {config : PowerConfig} {x y : UInt64} (h : x ≤ y)
    (hy : config.level y = none) : config.level x = none := by
  have hle {t : UInt64} (ht : ¬ t ≤ y) : ¬ t ≤ x := fun htx => ht (UInt64.le_trans htx h)
  rw [PowerConfig.level] at hy ⊢
  split_ifs at hy with hsleep hstandby hidle
  rw [if_neg (hle hsleep), if_neg (hle hstandby), if_neg (hle hidle)]

/-- The power is as the book says, and the clock has not been read since it was noted down. -/
structure Powered (clock : ℕ → UInt64) (d : ManagerDev) (b : PowerBook) : Prop where
  last : d.power.lastActivityMs = b.since
  state : d.power.currentState = b.expected d.powerConfig
  checked : ∀ t, b.checked = some t → ∀ j, d.ticks ≤ j → t ≤ clock j

/-- A step takes the book along. -/
theorem power_step (hclock : ∀ i j, i ≤ j → clock i ≤ clock j)
    (h : (machine clock).step d c a d') (hinit : d.isInitialized = true) {b : PowerBook}
    (hb : Powered clock d b) :
    Powered clock d' (PowerBook.next d.config.powerManagement b (c, a)) := by
  obtain ⟨hadvances, -, hconfig⟩ := steady_step h hinit
  -- Without a look and without activity the book stays as it is.
  have hkeep (hpower : d'.power = d.power) : Powered clock d' b := by
    refine ⟨?_, ?_, fun t ht j hj => hb.checked t ht j (hadvances.ticks.trans hj)⟩
    · rw [hpower, hb.last]
    · rw [hpower, hb.state, hconfig]
  obtain ⟨rfl, -, hlook⟩ | ⟨t, rfl, hpower, -⟩ | ⟨-, state, hc, rfl, -, hstate, hlast⟩ |
    ⟨-, hpower, hc⟩ := step_cases h hinit
  · obtain ⟨hmanaged, k, hk, hk', rfl, hpower⟩ | ⟨hmanaged, rfl, hpower⟩ := hlook
    · -- the manager looks at the time, which is not before the last look
      obtain ⟨hstate, hlast⟩ := d.power.process_spec d.powerConfig (clock k)
      rw [hmanaged]
      refine ⟨?_, ?_, ?_⟩
      · rw [hpower, hlast, hb.last]
        rfl
      · rw [hpower, hstate, hconfig, hb.state, hb.last]
        obtain ⟨since, state, checked⟩ := b
        cases checked with
        | none => rfl
        | some t =>
          exact Levels.getD_rising (fun _ _ => powerLevel_none)
            (idleTime_mono (hb.checked t rfl k hk))
      · intro t ht j hj
        obtain rfl := Option.some.inj ht
        exact hclock k j (hk'.le.trans hj)
    · rw [hmanaged]
      exact hkeep hpower
  · exact hkeep hpower
  · -- there is activity, or the state is set
    have hnext : PowerBook.next d.config.powerManagement b (c, (.ok, clock d.ticks)) =
        ⟨clock d.ticks, state, none⟩ := by
      obtain ⟨rfl, rfl⟩ | ⟨n, rfl, hn⟩ := hc
      · rfl
      · rw [PowerBook.next, hn]
        rfl
    rw [hnext]
    exact ⟨hlast, hstate, fun t ht => absurd ht (by simp)⟩
  · have hnext : PowerBook.next d.config.powerManagement b (c, a) = b := by
      obtain ⟨c', rfl, hne⟩ | ⟨n, rfl, hne⟩ := hc
      · cases c' with
        | process => exact absurd rfl hne
        | _ => rfl
      · obtain ⟨ret, now⟩ := a
        cases ret with
        | ok => exact absurd rfl hne
        | _ => rfl
    rw [hnext]
    exact hkeep hpower

/-- Over every run from the initialisation on, with a clock that does not go back: the power state
    is the one that the time from the last activity to the last look since decides on, or the one
    that it has been set to then, if this decides on nothing. How often the manager has looked in
    between does not matter. -/
theorem power_follows {config : FirmwareConfig} {thermal : ThermalConfig} {power : PowerConfig}
    (hclock : ∀ i j, i ≤ j → clock i ≤ clock j)
    (hrun : (machine clock).Run Machine.anyCall (d.init config thermal power) tr s) :
    s.power.currentState =
      (tr.foldl (PowerBook.next (d.init config thermal power).config.powerManagement)
        PowerBook.start).expected (d.init config thermal power).powerConfig := by
  generalize hd : d.init config thermal power = d₀ at hrun
  have hstart : Started d₀ d₀ := ⟨.refl _, by rw [← hd]; rfl, rfl, rfl⟩
  have hpowered : Powered clock d₀ PowerBook.start := by
    rw [← hd]
    exact ⟨rfl, rfl, fun t ht => absurd ht (by simp [PowerBook.start])⟩
  obtain ⟨hs, hb⟩ := hrun.simulation (R := fun s b => Started d₀ s ∧ Powered clock s b)
    ⟨hstart, hpowered⟩ fun s b c a s' hs _ hstep => by
      have hpower := power_step hclock hstep hs.1.isInitialized hs.2
      rw [hs.1.advances.config] at hpower
      exact ⟨hs.1.step hstep, hpower⟩
  rw [hb.state, hs.powerConfig]

/-- The device has been set to deep sleep: as soon as it has been idle for long enough to be idle,
    it is. -/
theorem power_follows_woken : ∃ s,
    (machine counter).Run Machine.anyCall begun
      [(.setPowerState 4, (.ok, 0)), (.manager .process, (.ok, 2))] s ∧
    s.power.currentState = .idle := by
  have hclock (i j : ℕ) (h : i ≤ j) : counter i ≤ counter j := by
    have hlt (n : ℕ) : min n (2 ^ 64 - 1) < 2 ^ 64 :=
      lt_of_le_of_lt (min_le_right _ _) (by decide)
    rw [UInt64.le_iff_toNat_le, counter, counter, UInt64.toNat_ofNat_of_lt' (hlt i),
      UInt64.toNat_ofNat_of_lt' (hlt j)]
    exact le_min ((min_le_left _ _).trans h) (min_le_right _ _)
  have hrun := (Machine.Run.single trivial ⟨.ok, rfl⟩ : (machine counter).Run Machine.anyCall begun
    [(.setPowerState 4, (.ok, 0))] (begun.setPowerState counter 4).2).snoc
    (a := .manager .process) (b := (.ok, 2)) trivial ⟨.ok, rfl⟩
  exact ⟨_, hrun, (power_follows hclock hrun).trans (by decide)⟩

end ManagerDev

end FtlFirmware
