import FtlFirmware.Ipc.Mailbox

/-!
# The manager

The manager (`Manager`) starts and stops the modules of the firmware, and supervises those that run:
each sends heartbeats, and reports its errors by messages. From time to time the manager handles the
messages that wait in its mailbox, and looks for modules whose heartbeat is too old
(`Manager.process`). A module with too many errors is recovered (`Manager.autoRecoverModule`).

What the clock reads is a parameter: `clock n` is its reading number `n`. The errors that have been
recorded are those printed (`Manager.log`).
-/

namespace FtlFirmware

/-- The states of a module (`module_state_t`). -/
inductive ModuleState
  | uninit
  | init
  | ready
  | running
  | error
  | reset
  deriving DecidableEq, Repr

/-- How a module is (`health_status_t`), the worst last. -/
inductive HealthStatus
  | unknown
  | healthy
  | warning
  | critical
  deriving DecidableEq, Repr

/-- The rank of a health status. -/
def HealthStatus.rank : HealthStatus → ℕ
  | .unknown => 0
  | .healthy => 1
  | .warning => 2
  | .critical => 3

/-- What the manager knows of a module (`module_info_t`). -/
structure ModuleInfo where
  state : ModuleState
  health : HealthStatus
  errorCount : UInt32
  lastHeartbeatMs : UInt64

/-- The configuration (`firmware_config_t`). -/
structure FirmwareConfig where
  watchdogTimeoutMs : UInt32
  maxErrorCount : UInt32
  autoRecovery : Bool
  idleTimeoutMs : UInt32
  powerManagement : Bool

/-- The manager (`manager_dev_t`), with the number of times that the clock has been read, its
    mailbox, and the errors printed, each of a module and with a code. -/
structure Manager where
  config : FirmwareConfig
  modules : ℕ → ModuleInfo
  totalErrors : UInt32
  totalRecoveries : UInt32
  overallHealth : HealthStatus
  isInitialized : Bool
  isRunning : Bool
  ticks : ℕ
  box : Mailbox
  log : List (ℕ × UInt32)

/-- The module of the manager itself (`MODULE_MANAGER`). -/
abbrev moduleManager : ℕ := 3

/-- The type of the messages that report an error (`MSG_TYPE_MGR_ERROR_REPORT`). -/
abbrev msgTypeErrorReport : ℕ := 31

/-- The error code of a message (`msg_error_report_t`), the lowest byte first. -/
def Message.errorCode (msg : Message) : UInt32 :=
  msg.data[4].toUInt32 ||| msg.data[5].toUInt32 <<< 8 ||| msg.data[6].toUInt32 <<< 16 |||
    msg.data[7].toUInt32 <<< 24

/-- The data of an error report: the module, the error code, the text, of which 127 bytes at most
    are taken, and the time. -/
def reportData (module code timestamp : UInt32) (text : List UInt8) : Vector UInt8 256 :=
  Vector.ofFn fun k =>
    if k < 4 then (module >>> UInt32.ofNat (8 * k)).toUInt8
    else if k < 8 then (code >>> UInt32.ofNat (8 * (k - 4))).toUInt8
    else if k < 135 then text.getD (k - 8) 0
    else if 136 ≤ k.val ∧ k < 140 then (timestamp >>> UInt32.ofNat (8 * (k - 136))).toUInt8
    else 0

/-- The age of a heartbeat, which is none if the clock has gone back. -/
def heartbeatAge (now lastHeartbeatMs : UInt64) : UInt64 :=
  if lastHeartbeatMs ≤ now then now - lastHeartbeatMs else 0

namespace Manager

variable (clock : ℕ → UInt64) (m : Manager)

/-- The manager with other information on a module. -/
def setModule (i : ℕ) (info : ModuleInfo) : Manager :=
  { m with modules := Function.update m.modules i info }

/-- Reads the clock (`get_timestamp_ms`). -/
def getTimestampMs : UInt64 × Manager := (clock m.ticks, { m with ticks := m.ticks + 1 })

/-! ### Errors -/

/-- Checks how a module is (`check_module_health`). -/
def checkModuleHealth (i : ℕ) : HealthStatus × Manager :=
  if moduleMax ≤ i then (.unknown, m)
  else
    let info := m.modules i
    let (now, m) := m.getTimestampMs clock
    if m.config.watchdogTimeoutMs.toUInt64 < heartbeatAge now info.lastHeartbeatMs then
      (.critical, m)
    else if info.errorCount = 0 then (.healthy, m)
    else if info.errorCount < m.config.maxErrorCount then (.warning, m)
    else (.critical, m)

/-- The health of the worst module that is initialised (`calc_overall_health`). -/
def calcOverallHealth : HealthStatus :=
  (List.range moduleMax).foldl (fun overall i =>
    if (m.modules i).state = .uninit then overall
    else if overall.rank < (m.modules i).health.rank then (m.modules i).health
    else overall) .healthy

/-- Recovers a module (`auto_recover_module`). -/
def autoRecoverModule (i : ℕ) : RetCode × Manager :=
  if moduleMax ≤ i then (.errParam, m)
  else
    (.ok, { m.setModule i { m.modules i with state := .ready, errorCount := 0, health := .healthy }
      with totalRecoveries := m.totalRecoveries + 1 })

/-- An error of a module is recorded; one that is too many leads to its recovery
    (`process_error_report`). -/
def processErrorReport (i : ℕ) (errorCode : UInt32) : Manager :=
  if moduleMax ≤ i then m
  else
    let m := { m.setModule i { m.modules i with errorCount := (m.modules i).errorCount + 1 } with
      totalErrors := m.totalErrors + 1 }
    let (health, m) := m.checkModuleHealth clock i
    let m := m.setModule i { m.modules i with health := health }
    let m := if m.config.autoRecovery ∧ m.config.maxErrorCount ≤ (m.modules i).errorCount then
        (m.autoRecoverModule i).2
      else m
    { m with log := m.log ++ [(i, errorCode)] }

/-! ### The health check -/

/-- The watchdog for one module: if it runs, and its heartbeat is too old at the time `now`, that is
    an error (`process_health_check`, loop). -/
def watch (now : UInt64) (m : Manager) (i : ℕ) : Manager :=
  if (m.modules i).state = .uninit then m
  else if (m.modules i).state = .running ∧
      m.config.watchdogTimeoutMs.toUInt64 < heartbeatAge now (m.modules i).lastHeartbeatMs then
    m.processErrorReport clock i 0xFF
  else m

/-- Checks all modules (`process_health_check`). -/
def processHealthCheck : Manager :=
  let (now, m) := m.getTimestampMs clock
  let m := (List.range moduleMax).foldl (watch clock now) m
  { m with overallHealth := m.calcOverallHealth }

/-- Handles a message. -/
def handleMsg (msg : Message) : Manager :=
  if msg.header.type = msgTypeErrorReport then
    m.processErrorReport clock msg.header.srcModule msg.errorCode
  else m

/-- Receives and handles up to `n` messages (`manager_process`, loop). -/
def processMessages : ℕ → Manager → Manager
  | 0, m => m
  | n + 1, m =>
    match m.box.queue with
    | [] => m
    | x :: _ => processMessages n ({ m with box := m.box.deliver }.handleMsg clock x.2)

/-- The management of the power reads the clock (`process_power_management`). -/
def processPowerManagement : Manager :=
  if m.config.powerManagement then (m.getTimestampMs clock).2 else m

/-- Handles the messages that wait, and checks the modules (`manager_process`). -/
def process : RetCode × Manager :=
  if !m.isInitialized then (.errNotInit, m)
  else
    (.ok, (((m.processMessages clock m.box.queue.length).processHealthCheck clock)
      |>.processPowerManagement clock))

/-! ### Modules -/

/-- The information on a module that is not initialised. -/
def noModule : ModuleInfo := ⟨.uninit, .unknown, 0, 0⟩

/-- Initialises the manager (`manager_init`). Without a timeout for the power management, it is
    turned on, with defaults. -/
def init (config : FirmwareConfig) : RetCode × Manager :=
  let config := if config.idleTimeoutMs = 0 then
      { config with idleTimeoutMs := 5000, powerManagement := true }
    else config
  (.ok, { m with
    config := config
    modules := fun _ => noModule
    totalErrors := 0
    totalRecoveries := 0
    overallHealth := .unknown
    isInitialized := true
    isRunning := false })

/-- A module is ready. -/
def setReady (m : Manager) (i : ℕ) : Manager :=
  m.setModule i { m.modules i with state := .ready }

/-- Initialises all modules but the manager (`manager_init_all_modules`): the log, the NAND, the FTL
    and the host interface. -/
def initAllModules : RetCode × Manager :=
  if !m.isInitialized then (.errNotInit, m)
  else (.ok, { [4, 0, 1, 2].foldl setReady m with overallHealth := .healthy })

/-- Starts a module, if it is ready (`manager_start_all_modules`, loop). -/
def startModule (m : Manager) (i : ℕ) : Manager :=
  if (m.modules i).state = .ready then
    let (now, m) := m.getTimestampMs clock
    m.setModule i { m.modules i with state := .running, health := .healthy, lastHeartbeatMs := now }
  else m

/-- Starts all modules that are ready (`manager_start_all_modules`). -/
def startAllModules : RetCode × Manager :=
  if !m.isInitialized then (.errNotInit, m)
  else (.ok, { (List.range moduleMax).foldl (startModule clock) m with isRunning := true })

/-- Stops a module, if it runs (`manager_stop_all_modules`, loop). -/
def stopModule (m : Manager) (i : ℕ) : Manager :=
  if (m.modules i).state = .running then m.setModule i { m.modules i with state := .ready } else m

/-- Stops all modules that run (`manager_stop_all_modules`). -/
def stopAllModules : RetCode × Manager :=
  if !m.isInitialized then (.errNotInit, m)
  else (.ok, { (List.range moduleMax).foldl stopModule m with isRunning := false })

/-- Reports an error of a module to the manager, by a message (`manager_report_error`). What the
    message queue answers is given. -/
def reportError (i : ℕ) (code : UInt32) (text : List UInt8) (sent : RetCode) : RetCode × Manager :=
  if moduleMax ≤ i then (.errParam, m)
  else if !m.isInitialized then (.errNotInit, m)
  else
    let (now, m) := m.getTimestampMs clock
    let msg : Message := ⟨⟨msgTypeErrorReport, 2, i, moduleManager, 0, 0, 0⟩,
      reportData (UInt32.ofNat i) code now.toUInt32 text⟩
    (sent, if sent = .ok then { m with box := m.box.accept msg } else m)

/-- A module is alive (`manager_send_heartbeat`). -/
def sendHeartbeat (i : ℕ) : RetCode × Manager :=
  if moduleMax ≤ i then (.errParam, m)
  else if !m.isInitialized then (.errNotInit, m)
  else
    let (now, m) := m.getTimestampMs clock
    (.ok, m.setModule i { m.modules i with lastHeartbeatMs := now })

end Manager

/-- The calls of the manager, and the messages that the modules send to it. -/
inductive ManagerCall
  | startAllModules
  | stopAllModules
  | sendHeartbeat (module : ℕ)
  | reportError (module : ℕ) (code : UInt32) (text : List UInt8)
  | process
  | send (msg : Message)

namespace Manager

/-- Executes a call. What the message queue answers is given. -/
def exec (clock : ℕ → UInt64) (sent : RetCode) (m : Manager) : ManagerCall → RetCode × Manager
  | .startAllModules => m.startAllModules clock
  | .stopAllModules => m.stopAllModules
  | .sendHeartbeat i => m.sendHeartbeat clock i
  | .reportError i code text => m.reportError clock i code text sent
  | .process => m.process clock
  | .send msg => (sent, if sent = .ok then { m with box := m.box.accept msg } else m)

/-- The manager as a machine. -/
def machine (clock : ℕ → UInt64) : Machine Manager ManagerCall RetCode where
  step m c a m' := ∃ sent, m.exec clock sent c = (a, m')

/-- The manager after it has been initialised, and has initialised the modules. -/
def boot (config : FirmwareConfig) (m : Manager) : Manager := (m.init config).2.initAllModules.2

end Manager

end FtlFirmware
