import FtlFirmware.Lib.Run
import FtlFirmware.Nvme.Firmware
import FtlFirmware.Nvme.Transfer

/-!
# The controller

The NVMe controller (`Ctrl`): its queues, the asynchronous events, the temperature sensors and
the firmware slots. It executes admin commands (`processAdminCmd`) and I/O commands
(`processIoCmd`), which it takes from the submission queues (`process`).
-/

namespace FtlFirmware

namespace Nvme

/-! ## Temperatures -/

/-- The number of temperature sensors (`NVME_TEMP_SENSOR_COUNT`). -/
abbrev tempSensorCount : ℕ := 8

/-- A temperature sensor (`nvme_temp_sensor_t`), in kelvins. -/
structure TempSensor where
  current : ℕ
  warning : ℕ
  critical : ℕ
  highest : ℕ
  minTemp : ℕ
  maxTemp : ℕ
  deriving DecidableEq, Repr

/-- The temperature sensors, the first one being that of the controller, and whether it is too
    hot. -/
structure Temps where
  sensors : ℕ → TempSensor
  warningActive : Bool
  criticalActive : Bool
  updateCounter : ℕ

namespace Temps

/-- The sensors at power on (`nvme_ctrl_temp_init`). The last ones are not used. -/
def init : Temps where
  sensors
    | 0 => ⟨313, 343, 358, 313, 293, 363⟩
    | 1 => ⟨308, 348, 358, 308, 288, 358⟩
    | 2 => ⟨308, 348, 358, 308, 288, 358⟩
    | 3 => ⟨318, 353, 368, 318, 293, 368⟩
    | 4 => ⟨300, 328, 338, 300, 283, 323⟩
    | 5 => ⟨310, 343, 353, 310, 293, 353⟩
    | _ => ⟨0, 0, 0, 0, 0, 0⟩
  warningActive := false
  criticalActive := false
  updateCounter := 0

/-- The next temperature of a sensor: a step of a random walk, upwards if there has been any
    activity, and within the bounds of the sensor. -/
def nextTemp (sensor : TempSensor) (draw ioActivity : ℕ) : ℤ :=
  let temp := (sensor.current : ℤ) + (draw % 3 : ℕ) - 1 + (if ioActivity > 0 then 1 else -1)
  let temp := if temp < sensor.minTemp then (sensor.minTemp : ℤ) else temp
  if temp > sensor.maxTemp then (sensor.maxTemp : ℤ) else temp

/-- Updates a sensor, unless it is not used. -/
def updateSensor (sensor : TempSensor) (draw ioActivity : ℕ) : TempSensor :=
  if sensor.current = 0 ∨ sensor.minTemp = 0 then
    sensor
  else
    let current := (nextTemp sensor draw ioActivity).toNat
    { sensor with
      current := current
      highest := if current > sensor.highest then current else sensor.highest }

end Temps

/-- An event about the temperature of the controller. -/
def tempEvent : AerEvent := ⟨aerTypeSmartHealth, 1, 0x02⟩

/-! ## The state of the controller -/

/-- The states of the controller (`nvme_ctrl_state_t`). -/
inductive CtrlState
  | reset
  | ready
  | error
  deriving DecidableEq, Repr

/-- The registers of the controller that the front ends read or write (`nvme_ctrl_regs_t`). -/
structure Regs where
  cap : UInt64
  vs : UInt32
  cc : UInt32
  csts : UInt32
  aqa : UInt32
  asq : UInt64
  acq : UInt64
  deriving DecidableEq, Repr

/-- The controller (`nvme_ctrl_dev_t` and the variables next to it). The numbers of `rand` are a
    stream. -/
structure Ctrl where
  initialized : Bool
  state : CtrlState
  regs : Regs
  adminSq : Sq
  adminCq : Cq
  ioSq : Sq
  ioCq : Cq
  aer : Aer
  temps : Temps
  fw : Firmware
  rand : ℕ → ℕ

namespace Ctrl

/-- The number of entries of the admin queues (`NVME_ADMIN_QSIZE`). -/
abbrev adminQsize : ℕ := 256

/-- The controller at power on (`nvme_ctrl_init`). -/
def init (rand : ℕ → ℕ) : Ctrl where
  initialized := true
  state := .reset
  regs := ⟨0xF0000103FF, 0x00010400, 0, 0, 0, 0, 0⟩
  adminSq := Sq.create 0 (adminQsize - 1) 0
  adminCq := Cq.create 0 (adminQsize - 1) 0
  ioSq := Sq.absent
  ioCq := Cq.absent
  aer := Aer.init
  temps := Temps.init
  fw := Firmware.init
  rand := rand

/-- The host writes the controller configuration (`nvme_ctrl_write_cc`). -/
def writeCc (c : Ctrl) (value : UInt32) : Ctrl :=
  { c with
    state := if value &&& 0x01 ≠ 0 then .ready else .reset
    regs := { c.regs with
      cc := value
      csts := if value &&& 0x01 ≠ 0 then c.regs.csts ||| 1 else c.regs.csts &&& ~~~1 } }

/-- The host writes the tail of a submission queue (`nvme_ctrl_sq_doorbell`). -/
def sqDoorbell (c : Ctrl) (qid : ℕ) (value : UInt32) : Option Ctrl :=
  if qid = 0 then (c.adminSq.sqDoorbell value).map fun sq => { c with adminSq := sq }
  else (c.ioSq.sqDoorbell value).map fun sq => { c with ioSq := sq }

/-- The host writes the head of a completion queue (`nvme_ctrl_cq_doorbell`). -/
def cqDoorbell (c : Ctrl) (qid : ℕ) (value : UInt32) : Option Ctrl :=
  if qid = 0 then (c.adminCq.cqDoorbell value).map fun cq => { c with adminCq := cq }
  else (c.ioCq.cqDoorbell value).map fun cq => { c with ioCq := cq }

/-! ## Admin commands -/

/-- Answers with the double word 0 and success. -/
def succeed (cpl : Completion) (dw0 : UInt32) : Completion :=
  { cpl with dw0 := dw0 }.setCompletionStatus scSuccess

/-- Identifies the controller or the namespace (`admin_identify`). The data are sent by the front
    ends. -/
def adminIdentify (cmd : Command) (cpl : Completion) : Completion :=
  if cmd.cdw10 &&& 0xFF ∈ [0x00, 0x01, 0x02] then succeed cpl 0
  else { cpl with dw0 := 0 }.setCompletionStatus scInvalidField

/-- Creates the I/O completion queue (`admin_create_iocq`). There is only one. -/
def adminCreateIocq (c : Ctrl) (cmd : Command) (cpl : Completion) : Completion × Ctrl :=
  let qid := (cmd.cdw10 &&& 0xFFFF).toNat
  let qsize := (cmd.cdw10 >>> 16 &&& 0xFFFF).toNat
  let vector := (cmd.cdw11 &&& 0xFFFF).toNat
  (succeed cpl 0, { c with ioCq := Cq.create qid qsize vector })

/-- Creates the I/O submission queue (`admin_create_iosq`). There is only one. -/
def adminCreateIosq (c : Ctrl) (cmd : Command) (cpl : Completion) : Completion × Ctrl :=
  let qid := (cmd.cdw10 &&& 0xFFFF).toNat
  let qsize := (cmd.cdw10 >>> 16 &&& 0xFFFF).toNat
  let cqid := (cmd.cdw11 &&& 0xFFFF).toNat
  (succeed cpl 0, { c with ioSq := Sq.create qid qsize cqid })

/-- Changes the temperature threshold of the controller. -/
def setWarning (c : Ctrl) (warning : ℕ) : Ctrl :=
  { c with temps := { c.temps with
    sensors := Function.update c.temps.sensors 0 { c.temps.sensors 0 with warning := warning } } }

/-- Sets a feature (`admin_set_features`). -/
def adminSetFeatures (c : Ctrl) (cmd : Command) (cpl : Completion) : Completion × Ctrl :=
  let fid := cmd.cdw10 &&& 0xFF
  if fid = 0x04 then
    let threshold := (cmd.cdw11 &&& 0xFFFF).toNat
    (succeed cpl cmd.cdw11, if threshold > 0 then c.setWarning threshold else c)
  else if fid = 0x07 then
    -- At most two queues of each kind are granted, as numbers from zero.
    let nsqr := cmd.cdw11 &&& 0xFFFF
    let ncqr := cmd.cdw11 >>> 16 &&& 0xFFFF
    let nsqa := if nsqr < 2 then nsqr else 1
    let ncqa := if ncqr < 2 then ncqr else 1
    (succeed cpl (ncqa <<< 16 ||| nsqa), c)
  else if fid = 0x0B then
    (succeed cpl cmd.cdw11, { c with aer := { c.aer with eventMask := cmd.cdw11 &&& 0x1F } })
  else
    (succeed cpl cmd.cdw11, c)

/-- Gets a feature (`admin_get_features`). -/
def adminGetFeatures (c : Ctrl) (cmd : Command) (cpl : Completion) : Completion :=
  let fid := cmd.cdw10 &&& 0xFF
  if fid = 0x04 then succeed cpl (UInt32.ofNat (c.temps.sensors 0).warning)
  else if fid = 0x0B then succeed cpl c.aer.eventMask
  else if fid = 0x07 then succeed cpl ((1 : UInt32) <<< 16 ||| 1)
  else succeed cpl 0

/-- Executes an admin command (`nvme_ctrl_process_admin_cmd`). Its completion is cleared first. -/
def processAdminCmd (c : Ctrl) (cmd : Command) : Completion × Ctrl :=
  let cpl := { Completion.blank with cid := cmd.cid }
  -- Deleting a queue is answered, but leaves the queue as it is.
  if cmd.opcode = 0x00 then (cpl.setCompletionStatus scSuccess, c)
  else if cmd.opcode = 0x01 then c.adminCreateIosq cmd cpl
  else if cmd.opcode = 0x02 then (succeed cpl 0, c)
  else if cmd.opcode = 0x04 then (cpl.setCompletionStatus scSuccess, c)
  else if cmd.opcode = 0x05 then c.adminCreateIocq cmd cpl
  else if cmd.opcode = 0x06 then (adminIdentify cmd cpl, c)
  else if cmd.opcode = 0x08 then (cpl.setCompletionStatus scSuccess, c)
  else if cmd.opcode = 0x09 then c.adminSetFeatures cmd cpl
  else if cmd.opcode = 0x0A then (c.adminGetFeatures cmd cpl, c)
  -- The completion may be marked: the request waits for an event.
  else if cmd.opcode = 0x0C then
    let r := c.aer.adminAsyncEvent cmd cpl
    (r.1, { c with aer := r.2 })
  else if cmd.opcode = 0x11 then
    let r := c.fw.adminFwDownload cmd cpl
    (r.1, { c with fw := r.2 })
  else if cmd.opcode = 0x10 then
    let r := c.fw.adminFwActivate c.aer cmd cpl
    (r.1, { c with fw := r.2.1, aer := r.2.2 })
  else if cmd.opcode = 0x80 then (cpl.setCompletionStatus scSuccess, c)
  else if cmd.opcode = 0x18 then (cpl.setCompletionStatus scSuccess, c)
  else (cpl.setCompletionStatus scInvalidOpcode, c)

/-- Executes an admin command for a front end, which sends the completion to the host whether or
    not it is marked as waiting for an event. -/
def frontAdminCmd (c : Ctrl) (cmd : Command) : Completion × Ctrl :=
  let r := c.processAdminCmd cmd
  (r.1, { r.2 with aer := r.2.aer.deliver r.1 })

end Ctrl

/-! ## I/O commands -/

/-- Executes an I/O command (`nvme_ctrl_process_io_cmd`). Its completion is cleared first. Reads
    and writes are done by the front ends, and only answered here; zeros are written. -/
def processIoCmd (fuel : ℕ) (c : Ctrl) (ftl : Ftl) (cmd : Command) :
    Option (Completion × Ftl) :=
  let cpl := { Completion.blank with cid := cmd.cid, sqid := c.ioSq.qid }
  if cmd.opcode = 0x08 then
    (writePages fuel (lpnAt cmd.cdw1011) (fun _ => blankPage) (List.range cmd.nlb) ftl).map fun r =>
      (cpl.setCompletionStatus (if r.1 then scSuccess else scInternalError), r.2)
  else if cmd.opcode ∈ [0x00, 0x01, 0x02, 0x04, 0x05, 0x09, 0x0C] then
    some (Ctrl.succeed cpl 0, ftl)
  else
    some (cpl.setCompletionStatus scInvalidOpcode, ftl)

/-! ## Processing the queues -/

namespace Ctrl

/-- Completes the event requests for which there are events (`aer_try_complete`). Each completion
    takes one event, so that `n` passes are enough for `n` events. -/
def aerTryComplete : ℕ → Ctrl → Option Ctrl
  | 0, c => some c
  | n + 1, c =>
    match c.aer.popEvent with
    | none => some c
    | some (cid, e, aer) =>
      let cpl := { Completion.blank with
        cid := cid
        sqhd := c.adminSq.head
        dw0 := e.logPage.toUInt32 <<< 24 ||| (e.eventType &&& 0xFFFF) }
      match c.adminCq.cqPostCompletion (cpl.setCompletionStatus scSuccess) with
      | none => none
      | some cq => aerTryComplete n { c with adminCq := cq, aer := aer }

/-- Executes the commands of the admin queue (the first loop of `nvme_ctrl_process`). The
    completion of a request that waits for an event is not written to the queue. The head written
    to the completion before the command is executed does not survive the command. -/
def processAdmin : ℕ → Ctrl → Option Ctrl
  | 0, _ => none
  | fuel + 1, c =>
    match c.adminSq.sqFetchCmd with
    | none => some c
    | some (cmd, sq) =>
      let r := { c with adminSq := sq }.processAdminCmd cmd
      if r.1.rsvd1 = aerSuspended then
        processAdmin fuel r.2
      else
        match r.2.adminCq.cqPostCompletion r.1 with
        | none => none
        | some cq => processAdmin fuel { r.2 with adminCq := cq }

/-- Executes the commands of the I/O queue (the second loop of `nvme_ctrl_process`), counting
    them. -/
def processIo (ftlFuel : ℕ) : ℕ → ℕ → Ctrl → Ftl → Option (ℕ × Ctrl × Ftl)
  | 0, _, _, _ => none
  | fuel + 1, count, c, ftl =>
    match c.ioSq.sqFetchCmd with
    | none => some (count, c, ftl)
    | some (cmd, sq) =>
      match processIoCmd ftlFuel { c with ioSq := sq } ftl cmd with
      | none => none
      | some (cpl, ftl) =>
        match c.ioCq.cqPostCompletion cpl with
        | none => none
        | some cq => processIo ftlFuel fuel (count + 1) { c with ioSq := sq, ioCq := cq } ftl

/-- Posts an event (`nvme_ctrl_post_aer_event`). -/
def postAerEvent (c : Ctrl) (e : AerEvent) : Ctrl := { c with aer := (c.aer.postAerEvent e).2 }

/-- Compares the temperature of the controller to its thresholds (`temp_check_thresholds`), and
    posts an event when it has crossed one. -/
def tempCheckThresholds (c : Ctrl) : Ctrl :=
  let comp := c.temps.sensors 0
  let critical := comp.current ≥ comp.critical
  let c := if critical ∧ !c.temps.criticalActive then c.postAerEvent tempEvent else c
  let c := { c with temps := { c.temps with criticalActive := critical } }
  let warning := comp.current ≥ comp.warning
  let c := if warning ∧ !c.temps.warningActive then c.postAerEvent tempEvent else c
  { c with temps := { c.temps with warningActive := warning } }

/-- Updates the temperatures (`nvme_ctrl_update_temperature`). Each sensor in use takes a random
    number. -/
def updateTemperature (c : Ctrl) (ioActivity : ℕ) : Ctrl :=
  let step (r : Temps × (ℕ → ℕ)) (i : ℕ) : Temps × (ℕ → ℕ) :=
    let sensor := r.1.sensors i
    if sensor.current = 0 ∨ sensor.minTemp = 0 then r
    else
      let sensor := Temps.updateSensor sensor (r.2 0) ioActivity
      ({ r.1 with sensors := Function.update r.1.sensors i sensor }, fun j => r.2 (j + 1))
  let r := (List.range tempSensorCount).foldl step (c.temps, c.rand)
  { c with temps := r.1, rand := r.2 }.tempCheckThresholds

/-- Updates the temperatures every eighth time. -/
def tickTemperature (c : Ctrl) (ioActivity : ℕ) : Ctrl :=
  let counter := c.temps.updateCounter + 1
  if counter ≥ 8 then
    { c with temps := { c.temps with updateCounter := 0 } }.updateTemperature ioActivity
  else
    { c with temps := { c.temps with updateCounter := counter } }

/-- Executes the commands in the queues (`nvme_ctrl_process`), and completes event requests. The
    fuel is enough for the commands in a queue and for the garbage collections of a write. -/
def process (fuel : ℕ) (c : Ctrl) (ftl : Ftl) : Option (Ctrl × Ftl) :=
  if !c.initialized ∨ c.state ≠ .ready then
    some (c, ftl)
  else
    match c.processAdmin fuel with
    | none => none
    | some c =>
      let io := if c.ioSq.entries.isSome then c.processIo fuel fuel 0 ftl else some (0, c, ftl)
      match io with
      | none => none
      | some (count, c, ftl) =>
        (c.aerTryComplete c.aer.eventCount).map fun c => (c.tickTemperature count, ftl)

end Ctrl

/-! ## The controller as a machine -/

/-- What the host and the firmware around the controller do: commands written to the entries of
    a submission queue, doorbells, the configuration, events, and the execution of commands. -/
inductive CtrlCall
  | hostWrite (qid i : ℕ) (cmd : Command)
  | sqDoorbell (qid : ℕ) (value : UInt32)
  | cqDoorbell (qid : ℕ) (value : UInt32)
  | writeCc (value : UInt32)
  | postAerEvent (e : AerEvent)
  | process

namespace Ctrl

/-- The host writes a command to an entry of a submission queue. -/
def hostWrite (c : Ctrl) (qid i : ℕ) (cmd : Command) : Ctrl :=
  if qid = 0 then { c with adminSq := c.adminSq.hostWrite i cmd }
  else { c with ioSq := c.ioSq.hostWrite i cmd }

end Ctrl

/-- Executes a call. -/
def ctrlExec (fuel : ℕ) (s : Ctrl × Ftl) : CtrlCall → Option (Ctrl × Ftl)
  | .hostWrite qid i cmd => some (s.1.hostWrite qid i cmd, s.2)
  | .sqDoorbell qid value => (s.1.sqDoorbell qid value).map fun c => (c, s.2)
  | .cqDoorbell qid value => (s.1.cqDoorbell qid value).map fun c => (c, s.2)
  | .writeCc value => some (s.1.writeCc value, s.2)
  | .postAerEvent e => some (s.1.postAerEvent e, s.2)
  | .process => s.1.process fuel s.2

/-- The controller, over the FTL, as a machine. -/
def ctrlMachine : Machine (Ctrl × Ftl) CtrlCall Unit where
  step s call _ s' := ∃ fuel, ctrlExec fuel s call = some s'

end Nvme

end FtlFirmware
