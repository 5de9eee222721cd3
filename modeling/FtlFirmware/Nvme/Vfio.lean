import FtlFirmware.Nvme.BlockIo
import FtlFirmware.Nvme.Controller

/-!
# The vfio-user back end

The back end through which a guest uses the controller by way of vfio-user (`Vfio`). The queues are
in the memory of the guest. A write to the doorbell of a submission queue has its commands executed
(`processQueueCommands`): the admin commands, by which the guest creates the other queues, and the
I/O commands, whose data are transferred from or to the memory of the guest.

The data of an Identify and of a log page are a parameter (`info`), which depends on the controller
and on the command.

A queue carries the entries of its completion queue that the guest has not released, as a ghost
field (`VfioQueue.ledger`).
-/

namespace FtlFirmware

namespace Nvme

/-- The number of queues: the admin queue and four others (`VFIO_MAX_QUEUES`). -/
abbrev vfioMaxQueues : ℕ := 5

/-- A pair of a submission queue and a completion queue (`vfio_queue_state_t`). The sizes and the
    indices are 16 bits wide. -/
structure VfioQueue where
  sqBase : UInt64
  cqBase : UInt64
  sqSize : ℕ
  cqSize : ℕ
  sqHead : ℕ
  sqTail : ℕ
  cqHead : ℕ
  cqTail : ℕ
  cqPhase : Bool
  valid : Bool
  /-- The completions written and not released by the guest (ghost). -/
  ledger : Ledger

namespace VfioQueue

/-- A queue that has not been created. -/
def absent : VfioQueue := ⟨0, 0, 0, 0, 0, 0, 0, 0, false, false, Ledger.fresh⟩

variable (q : VfioQueue)

/-- Moves the indices of a queue to the start. -/
def rewind : VfioQueue :=
  { q with sqHead := 0, sqTail := 0, cqHead := 0, cqTail := 0, cqPhase := true,
           ledger := Ledger.fresh }

/-- The number of completions that the guest releases when it moves the head to `head`. -/
def advance (head : ℕ) : ℕ := Ring.dist q.cqSize q.cqHead head

/-- The indices after a command has been completed. -/
def completed : VfioQueue :=
  { q with
    cqTail := if q.cqTail + 1 ≥ q.cqSize then 0 else q.cqTail + 1
    cqPhase := if q.cqTail + 1 ≥ q.cqSize then !q.cqPhase else q.cqPhase
    sqHead := if q.sqHead + 1 ≥ q.sqSize then 0 else q.sqHead + 1
    ledger := q.ledger.post q.cqTail }

end VfioQueue

/-- The back end, with the controller. -/
structure Vfio extends BlockIo where
  ctrl : Ctrl
  queues : ℕ → VfioQueue

namespace Command

variable (cmd : Command)

/-- The queue that an admin command names. -/
def queueId : ℕ := (cmd.cdw10 &&& 0xFFFF).toNat

/-- The size of the queue that an admin command creates: a 16-bit number, to which one has been
    added. -/
def queueSize : ℕ := ((cmd.cdw10 >>> 16 &&& 0xFFFF).toNat + 1) % 2 ^ 16

end Command

/-! ## Commands and completions in memory -/

/-- The command at the start of a buffer. -/
def Buffer.command (buf : Buffer) : Command where
  opcode := buf 0
  cid := buf.le16 2
  nsid := buf.le32 4
  dptrPrp1 := buf.le64 24
  dptrPrp2 := buf.le64 32
  cdw10 := buf.le32 40
  cdw11 := buf.le32 44
  cdw12 := buf.le32 48
  cdw13 := buf.le32 52

/-- The size of a command (`nvme_command_t`). -/
abbrev commandSize : ℕ := 64

/-- The size of a completion (`nvme_completion_t`). -/
abbrev completionSize : ℕ := 16

/-- The byte `k` of a number, the lowest one first. -/
def byteOf (n k : ℕ) : UInt8 := UInt8.ofNat (n / 256 ^ k)

/-- The bytes of a completion. -/
def Completion.buffer (cpl : Completion) : Buffer := fun k =>
  if k < 4 then byteOf cpl.dw0.toNat k
  else if k < 8 then byteOf cpl.rsvd1.toNat (k - 4)
  else if k < 10 then byteOf cpl.sqhd (k - 8)
  else if k < 12 then byteOf cpl.sqid (k - 10)
  else if k < 14 then byteOf cpl.cid.toNat (k - 12)
  else byteOf cpl.status.toNat (k - 14)

namespace Vfio

variable (v : Vfio)

/-- The back end when a guest has connected (`reset_queue_state`): there are no queues. -/
def init (rand : ℕ → ℕ) (ftl : Ftl) (guest : Guest) : Vfio where
  ctrl := Ctrl.init rand
  ftl := ftl
  guest := guest
  queues _ := VfioQueue.absent
  readBuf _ := 0
  writeBuf _ := 0

/-- Changes a queue. -/
def setQueue (qid : ℕ) (q : VfioQueue) : Vfio := { v with queues := Function.update v.queues qid q }

/-- Transfers data to the guest. -/
def prpWriteData (cmd : Command) (len : ℕ) (buf : Buffer) : Bool × Vfio :=
  let r := v.toBlockIo.prpWriteData backend cmd len buf
  (r.1, { v with toBlockIo := r.2 })

/-! ## Admin commands -/

/-- Creates or deletes a submission queue or a completion queue, if it is one for I/O. -/
def updateQueue (cmd : Command) : Vfio :=
  let qid := cmd.queueId
  let q := v.queues qid
  let base := cmd.dptrPrp1 &&& ~~~0xFFF
  let size := cmd.queueSize
  if 0 < qid ∧ qid < vfioMaxQueues then
    -- A queue is valid when both of its halves have a size.
    if cmd.opcode = 0x01 then
      v.setQueue qid { q with
        sqBase := base, sqSize := size, sqHead := 0, sqTail := 0, valid := decide (q.cqSize > 0) }
    else if cmd.opcode = 0x05 then
      v.setQueue qid { q with
        cqBase := base, cqSize := size, cqHead := 0, cqTail := 0, cqPhase := true
        valid := decide (q.sqSize > 0), ledger := Ledger.fresh }
    else if cmd.opcode = 0x00 then v.setQueue qid { q with sqSize := 0, valid := false }
    else if cmd.opcode = 0x04 then v.setQueue qid { q with cqSize := 0, valid := false }
    else v
  else v

/-- The length of the log page that a command asks for. -/
def logLen (cmd : Command) : ℕ := min (((cmd.cdw10 >>> 16 &&& 0xFFFF).toNat + 1) * 4) 4096

/-- Executes an admin command. Whether the data of an Identify or of a log page could be
    transferred makes no difference. -/
def processAdminCommand (info : Ctrl → Command → Buffer) (cmd : Command) : Completion × Vfio :=
  let cpl := { Completion.blank with cid := cmd.cid }
  if cmd.opcode = 0x06 then (cpl, (v.prpWriteData cmd 4096 (info v.ctrl cmd)).2)
  else if cmd.opcode = 0x02 then (cpl, (v.prpWriteData cmd (logLen cmd) (info v.ctrl cmd)).2)
  else
    let v := v.updateQueue cmd
    let r := v.ctrl.frontAdminCmd cmd
    (r.1, { v with ctrl := r.2 })

/-! ## I/O commands -/

/-- Executes a Read. -/
def read (io : BlockIo) (cmd : Command) : UInt16 × BlockIo :=
  let transferLen := cmd.nlb * pageSize
  if transferLen > maxIoSize then (scInternalError, io)
  else if transferLen > pageSize ∧ gpaToHva io.guest cmd.dptrPrp2 = none then (scDataXferError, io)
  else
    let io := io.readPages cmd
    let w := io.prpWriteData backend cmd transferLen io.readBuf
    (if w.1 then scSuccess else scDataXferError, w.2)

/-- Executes an I/O command. -/
def processIoCommand (fuel : ℕ) (cmd : Command) : Option (Completion × Vfio) :=
  let answer (r : UInt16 × BlockIo) : Completion × Vfio :=
    ({ Completion.blank with cid := cmd.cid, status := r.1 }, { v with toBlockIo := r.2 })
  if cmd.opcode = 0x02 then some (answer (read v.toBlockIo cmd))
  else if cmd.opcode = 0x01 then (v.toBlockIo.write backend cmd scDataXferError fuel).map answer
  else if cmd.opcode = 0x08 then (v.toBlockIo.writeZeroes cmd fuel).map answer
  else if cmd.opcode = 0x09 then (v.toBlockIo.datasetMgmt backend cmd scDataXferError).map answer
  else (processIoCmd fuel v.ctrl v.ftl cmd).map fun r => (r.1, { v with ftl := r.2 })

/-! ## Queues -/

/-- Executes a command of a queue (`process_nvme_command`). -/
def processNvmeCommand (fuel : ℕ) (info : Ctrl → Command → Buffer) (cmd : Command) (qid : ℕ) :
    Option (Completion × Vfio) :=
  if qid = 0 then some (v.processAdminCommand info cmd) else v.processIoCommand fuel cmd

/-- Writes a completion to the memory of the guest, and moves the indices on. -/
def postCompletion (qid : ℕ) (h : Hva) (cpl : Completion) : Vfio :=
  let q := v.queues qid
  let cpl := { cpl with
    sqhd := (q.sqHead + 1) % q.sqSize
    status := if q.cqPhase then cpl.status ||| 0x0001 else cpl.status &&& ~~~0x0001 }
  { v with guest := v.guest.write h completionSize cpl.buffer }.setQueue qid q.completed

/-- Executes the commands of a queue, from the head to the tail. It stops at an entry whose address
    cannot be translated. -/
def processCommands (fuel : ℕ) (info : Ctrl → Command → Buffer) (qid : ℕ) : ℕ → Vfio → Option Vfio
  | 0, _ => none
  | n + 1, v =>
    let q := v.queues qid
    if q.sqHead = q.sqTail then some v
    else
      -- The entry of the command. If it cannot be reached the loop is left, without an error.
      match gpaToHva v.guest (q.sqBase + UInt64.ofNat (q.sqHead * commandSize)) with
      | none => some v
      | some h =>
        match v.processNvmeCommand fuel info (v.guest.bytesAt h).command qid with
        | none => none
        | some (cpl, v) =>
          -- The command may have changed the queues.
          let q := v.queues qid
          match gpaToHva v.guest (q.cqBase + UInt64.ofNat (q.cqTail * completionSize)) with
          | none => some v
          | some h => processCommands fuel info qid n (v.postCompletion qid h cpl)

/-- Executes the commands of a queue, if there is such a queue (`process_queue_commands`). The fuel
    is enough for the commands and for the garbage collections of a write. -/
def processQueueCommands (fuel : ℕ) (info : Ctrl → Command → Buffer) (qid : ℕ) : Option Vfio :=
  let q := v.queues qid
  if qid ≥ vfioMaxQueues then some v
  else if q.valid = false ∨ q.sqSize = 0 ∨ q.cqSize = 0 then some v
  else processCommands fuel info qid fuel v

/-! ## Registers and doorbells -/

/-- Takes the admin queue from the registers (`update_admin_queue_from_regs`). -/
def updateAdminQueueFromRegs : Vfio :=
  let regs := v.ctrl.regs
  let sqSize := ((regs.aqa &&& 0xFFFF).toNat + 1) % 2 ^ 16
  let cqSize := ((regs.aqa >>> 16 &&& 0xFFFF).toNat + 1) % 2 ^ 16
  let sqBase := regs.asq &&& ~~~0xFFF
  let cqBase := regs.acq &&& ~~~0xFFF
  v.setQueue 0 { (v.queues 0).rewind with
    sqSize := sqSize
    cqSize := cqSize
    sqBase := sqBase
    cqBase := cqBase
    valid := decide (sqSize > 0 ∧ cqSize > 0 ∧ sqBase ≠ 0 ∧ cqBase ≠ 0) }

/-- Changes the registers. -/
def setRegs (regs : Regs) : Vfio := { v with ctrl := { v.ctrl with regs := regs } }

/-- The host writes a register of the controller (`handle_nvme_reg_write`). Only those that are not
    just kept make a difference. -/
def handleNvmeRegWrite (offset : ℕ) (value : UInt32) : Vfio :=
  let regs := v.ctrl.regs
  let low : UInt64 := 0xFFFFFFFF
  if offset = 0x14 then
    if value &&& 0x01 ≠ 0 then
      -- The controller becomes ready at once, with the admin queue of the registers.
      (v.setRegs { regs with cc := value, csts := regs.csts ||| 0x01 }).updateAdminQueueFromRegs
    else
      (v.setRegs { regs with cc := value, csts := regs.csts &&& ~~~0x01 }).setQueue 0
        (v.queues 0).rewind
  else if offset = 0x24 then (v.setRegs { regs with aqa := value }).updateAdminQueueFromRegs
  -- The halves of the two addresses are written one by one, and used at once.
  else if offset = 0x28 then
    (v.setRegs { regs with
      asq := (regs.asq &&& ~~~low) ||| value.toUInt64 }).updateAdminQueueFromRegs
  else if offset = 0x2C then
    (v.setRegs { regs with
      asq := (regs.asq &&& low) ||| value.toUInt64 <<< 32 }).updateAdminQueueFromRegs
  else if offset = 0x30 then
    (v.setRegs { regs with
      acq := (regs.acq &&& ~~~low) ||| value.toUInt64 }).updateAdminQueueFromRegs
  else if offset = 0x34 then
    (v.setRegs { regs with
      acq := (regs.acq &&& low) ||| value.toUInt64 <<< 32 }).updateAdminQueueFromRegs
  else v

/-- The guest writes the doorbell of a submission queue or of a completion queue
    (`handle_doorbell_write`). -/
def handleDoorbellWrite (fuel : ℕ) (info : Ctrl → Command → Buffer) (offset : ℕ) (value : UInt32) :
    Option Vfio :=
  let qid := offset / 8 % 2 ^ 16
  let q := v.queues qid
  let index := (value &&& 0xFFFF).toNat
  if qid ≥ vfioMaxQueues then some v
  else if offset % 8 = 0 then
    -- The doorbell goes to the controller too, which divides by the size of its own queue.
    match v.ctrl.sqDoorbell qid value with
    | none => none
    | some ctrl =>
      { v.setQueue qid { q with sqTail := index } with ctrl := ctrl }.processQueueCommands fuel info
        qid
  else
    (v.ctrl.cqDoorbell qid value).map fun ctrl =>
      { v.setQueue qid { q with cqHead := index, ledger := q.ledger.release (q.advance index) } with
        ctrl := ctrl }

end Vfio

/-! ## The back end as a machine -/

/-- What the guest does: it changes its memory, and writes registers and doorbells. -/
inductive VfioCall
  | store (mem : ℕ → Buffer)
  | regWrite (offset : ℕ) (value : UInt32)
  | doorbell (offset : ℕ) (value : UInt32)

/-- Executes a call. -/
def vfioExec (fuel : ℕ) (info : Ctrl → Command → Buffer) (v : Vfio) : VfioCall → Option Vfio
  | .store mem => some { v with guest := { v.guest with mem := mem } }
  | .regWrite offset value => some (v.handleNvmeRegWrite offset value)
  | .doorbell offset value => v.handleDoorbellWrite fuel info offset value

/-- The back end as a machine. -/
def vfioMachine (info : Ctrl → Command → Buffer) : Machine Vfio VfioCall Unit where
  step v call _ v' := ∃ fuel, vfioExec fuel info v call = some v'

end Nvme

end FtlFirmware
