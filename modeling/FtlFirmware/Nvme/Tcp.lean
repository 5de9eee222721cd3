import FtlFirmware.Nvme.Controller

/-!
# The NVMe/TCP target

The NVMe/TCP target (`Target`), which serves several connections, at the level of PDUs: the
initialization of a connection (`handleIcreq`), command capsules (`handleCapsuleCmd`) and the
data that the host sends for them (`handleH2cData`).

A connection keeps one command that waits for data. The data of all connections are collected in
one buffer (`Target.writeBuf`).

Connections, and the target, carry *ghost* fields, which no operation reads: whether a connection
has been initialized or asked to terminate, the commands executed, and those whose data have been
used, with these data.
-/

namespace FtlFirmware

namespace Nvme

/-- The most bytes of data for one command (`NVME_TCP_MAX_IO_SIZE`). -/
abbrev tcpMaxIoSize : ℕ := 1024 * 1024

/-- The states of a connection (`nvme_tcp_conn_state_t`). -/
inductive ConnState
  | new
  | ready
  | active
  | terminating
  | closed
  deriving DecidableEq, Repr

/-- A connection (`nvme_tcp_conn_t`). Its data buffer is either none or the buffer of the target,
    which `hasData` tells. Lengths are 32-bit numbers. -/
structure Conn where
  state : ConnState
  qid : ℕ
  hasData : Bool
  dataLen : ℕ
  dataTotal : ℕ
  pendingCmdId : UInt16
  pendingSqid : ℕ
  pendingSlba : UInt64
  pendingOpcode : UInt8
  /-- The initialization has been answered (ghost). -/
  answered : Bool
  /-- The termination has been requested (ghost). -/
  terminated : Bool

/-- A new connection. -/
def Conn.fresh : Conn := ⟨.new, 0, false, 0, 0, 0, 0, 0, 0, false, false⟩

/-- A command whose data have been used, on the connection `conn`: all the bytes of its data
    (ghost). Only a Write has a first block. -/
structure Performed where
  conn : ℕ
  cid : UInt16
  opcode : UInt8
  slba : UInt64
  bytes : List UInt8

/-- A command that has been executed, on the connection `conn`, with the state of the connection
    and the FTL before and after (ghost). -/
structure Executed where
  conn : ℕ
  qid : ℕ
  answered : Bool
  terminated : Bool
  before : Ftl
  after : Ftl

/-- The target: its connections, the buffer for the data that the hosts send, the controller and
    the FTL. -/
structure Target where
  conns : ℕ → Conn
  writeBuf : Buffer
  ctrl : Ctrl
  ftl : Ftl
  performed : List Performed
  executed : List Executed

/-- A target without connections initialized. -/
def Target.init (rand : ℕ → ℕ) (ftl : Ftl) : Target where
  conns _ := Conn.fresh
  writeBuf _ := 0
  ctrl := Ctrl.init rand
  ftl := ftl
  performed := []
  executed := []

/-- A PDU sent to the host: the answer to an initialization, a completion, a request for data, or
    data, which are those of a read or those of an admin command. -/
inductive Sent
  | icResp (conn : ℕ)
  | capsuleResp (conn : ℕ) (cpl : Completion)
  | r2t (conn : ℕ) (cccid : UInt16) (offset length : ℕ)
  | c2hPages (conn : ℕ) (cccid : UInt16) (pages : List PageData)
  | c2hInfo (conn : ℕ) (cccid : UInt16)

/-- A command capsule, with the bytes sent along, if any. -/
structure Capsule where
  cmd : Command
  data : Option Buffer
  dataLen : ℕ

/-- Data sent for a command. -/
structure H2cData where
  cccid : UInt16
  datao : ℕ
  datal : ℕ
  last : Bool
  data : Option Buffer

namespace Target

variable (t : Target) (i : ℕ)

/-- Changes a connection. -/
def setConn (conn : Conn) : Target := { t with conns := Function.update t.conns i conn }

/-! ## Initialization and termination -/

/-- Initializes a connection (`nvme_tcp_handle_icreq`), if its answer can be sent. -/
def handleIcreq (sent : Bool) : List Sent × Target :=
  if sent then
    ([.icResp i], t.setConn i { t.conns i with state := .ready, answered := true })
  else
    ([], t)

/-- Notes that the host, or the controller, asks for the termination of a connection. -/
def handleTermReq : Target :=
  t.setConn i { t.conns i with state := .terminating, terminated := true }

/-! ## Completions -/

/-- A completion that is sent has bit 15 of its status cleared
    (`nvme_tcp_send_capsule_resp`). -/
def sendCapsuleResp (cpl : Completion) : Sent :=
  .capsuleResp i { cpl with status := cpl.status &&& 0x7FFF }

/-- Sends a completion with a status (`nvme_tcp_send_completion`). -/
def sendCompletion (cid : UInt16) (sqid : ℕ) (status : UInt16) : Sent :=
  sendCapsuleResp i { Completion.blank with cid := cid, sqid := sqid, status := status }

/-! ## Commands with data from the host -/

/-- Makes a command the one that waits for data, and takes the data sent along. The buffer is
    cleared first for the ranges of a Dataset Management. -/
def startTransfer (c : Capsule) (total : ℕ) : Target :=
  let conn := t.conns i
  let buf := if c.cmd.opcode = 0x09 then t.writeBuf.store 0 total fun _ => 0 else t.writeBuf
  let copyLen := match c.data with
    | none => 0
    | some _ => min c.dataLen total
  let buf := match c.data with
    | none => buf
    | some data => buf.store 0 copyLen data
  { t.setConn i { conn with
      hasData := true
      dataLen := copyLen
      dataTotal := total
      pendingCmdId := c.cmd.cid
      pendingSqid := conn.qid
      -- The address of the command before stays for a Dataset Management, which has none.
      pendingSlba := if c.cmd.opcode = 0x09 then conn.pendingSlba else c.cmd.cdw1011
      pendingOpcode := c.cmd.opcode } with writeBuf := buf }

/-- Uses the data of the command that waits on a connection: writes its pages, or trims its
    ranges. Answers with the status. -/
def perform (fuel : ℕ) : Option (UInt16 × Target) :=
  let conn := t.conns i
  let bytes := t.writeBuf.bytes conn.dataTotal
  let done := { t with performed := t.performed ++
    [⟨i, conn.pendingCmdId, conn.pendingOpcode,
      -- A Write ends at the first page that fails, a Dataset Management goes on.
      if conn.pendingOpcode = 0x01 then conn.pendingSlba else 0, bytes⟩] }
  if conn.pendingOpcode = 0x01 then
    (writePages fuel (lpnAt conn.pendingSlba) (bufferOf bytes).page
      (List.range (conn.dataTotal / pageSize)) t.ftl).map fun r =>
        (if r.1 then 0x0000 else 0x0006, { done with ftl := r.2 })
  else if conn.pendingOpcode = 0x09 then
    (trimRanges (bufferOf bytes).range (List.range (conn.dataTotal / 16)) true t.ftl).map fun r =>
      (if r.1 then 0x0000 else 0x0006, { done with ftl := r.2 })
  else
    some (0x0000, done)

/-- No command waits for data any more. -/
def clearPending : Target :=
  t.setConn i { t.conns i with hasData := false, dataLen := 0, dataTotal := 0 }

/-- Completes the command that waits on a connection. -/
def complete (fuel : ℕ) : Option (List Sent × Target) :=
  let conn := t.conns i
  (t.perform i fuel).map fun r =>
    ([sendCompletion i conn.pendingCmdId conn.pendingSqid r.1], r.2.clearPending i)

/-- Takes a command with `total` bytes of data from the host. Data that are missing are asked
    for. -/
def transfer (fuel : ℕ) (c : Capsule) (total : ℕ) : Option (List Sent × Target) :=
  if total > tcpMaxIoSize then
    some ([sendCompletion i c.cmd.cid (t.conns i).qid 0x0006], t)
  else
    let t := t.startTransfer i c total
    let conn := t.conns i
    if conn.dataLen < total then
      some ([.r2t i c.cmd.cid conn.dataLen (total - conn.dataLen)], t)
    else
      t.complete i fuel

/-! ## Other commands -/

/-- The queue that a Connect asks for. -/
def connectQid (c : Capsule) : ℕ :=
  match c.data with
  | none => 0
  | some data =>
    if c.dataLen ≥ 18 then
      let qid := (data 16).toNat + (data 17).toNat * 2 ^ 8
      if qid = 0xFFFF then 0 else qid
    else
      0

/-- Writes a register (the Property Set of a fabrics command). -/
def propertySet (regs : Regs) (cmd : Command) : Regs :=
  let value := cmd.cdw13.toUInt64 <<< 32 ||| cmd.cdw12.toUInt64
  if cmd.cdw11 = 0x14 then
    { regs with
      cc := value.toUInt32
      csts := if value.toUInt32 &&& 0x01 ≠ 0 then regs.csts ||| 1 else regs.csts &&& ~~~1 }
  else if cmd.cdw11 = 0x24 then { regs with aqa := value.toUInt32 }
  else if cmd.cdw11 = 0x28 then { regs with asq := value }
  else if cmd.cdw11 = 0x30 then { regs with acq := value }
  else regs

/-- Reads a register (the Property Get of a fabrics command). -/
def propertyGet (regs : Regs) (cmd : Command) : UInt64 :=
  if cmd.cdw11 = 0x00 then regs.cap
  else if cmd.cdw11 = 0x08 then regs.vs.toUInt64
  else if cmd.cdw11 = 0x14 then regs.cc.toUInt64
  else if cmd.cdw11 = 0x1C then regs.csts.toUInt64
  else if cmd.cdw11 = 0x24 then regs.aqa.toUInt64
  else if cmd.cdw11 = 0x28 then regs.asq
  else if cmd.cdw11 = 0x30 then regs.acq
  else 0

/-- Executes a fabrics command. -/
def fabrics (c : Capsule) : Completion × Target :=
  let conn := t.conns i
  let cpl := { Completion.blank with cid := c.cmd.cid, sqid := conn.qid }
  let fctype := c.cmd.nsid &&& 0xFF
  if fctype = 0x01 then
    ({ cpl with dw0 := 0x0001 }, t.setConn i { conn with qid := connectQid c })
  else if fctype = 0x00 then
    (cpl, { t with ctrl := { t.ctrl with regs := propertySet t.ctrl.regs c.cmd } })
  else if fctype = 0x04 then
    let value := propertyGet t.ctrl.regs c.cmd
    ({ cpl with dw0 := value.toUInt32, rsvd1 := (value >>> 32).toUInt32 }, t)
  else
    (cpl, t)

/-- Executes a command of the admin queue, or of an I/O queue. A status other than success is
    cleared. -/
def dispatch (fuel : ℕ) (cmd : Command) : Option (Completion × Target) :=
  let r := if (t.conns i).qid = 0 then
      let r := t.ctrl.frontAdminCmd cmd
      some (r.1, { t with ctrl := r.2 })
    else
      (processIoCmd fuel t.ctrl t.ftl cmd).map fun r => (r.1, { t with ftl := r.2 })
  -- The status of the controller is taken for a success if its code is not zero.
  r.map fun r => (if r.1.status &&& 0x7FFE ≠ 0 then { r.1 with status := 0x0000 } else r.1, r.2)

/-- Executes a Write Zeroes, or a Read, after the command has been dispatched. The data of a Read
    are sent. -/
def afterDispatch (fuel : ℕ) (cmd : Command) (cpl : Completion) : Option (List Sent × Target) :=
  if cmd.opcode = 0x08 ∧ (t.conns i).qid ≠ 0 then
    (writePages fuel (lpnAt cmd.cdw1011) (fun _ => blankPage) (List.range cmd.nlb) t.ftl).map
      fun r => ([sendCapsuleResp i { cpl with status := if r.1 then 0x0000 else 0x0006 }],
        { t with ftl := r.2 })
  else if cmd.opcode = 0x02 then
    -- The pages that cannot be read are sent as zeros, with the status of the dispatcher.
    if cmd.nlb * pageSize ≤ tcpMaxIoSize then
      let r := readPages (lpnAt cmd.cdw1011) (List.range cmd.nlb) (fun _ => 0) t.ftl
      some ([.c2hPages i cmd.cid ((List.range cmd.nlb).map r.1.page), sendCapsuleResp i cpl],
        { t with ftl := r.2 })
    else
      some ([sendCapsuleResp i { cpl with status := 0x0006 }], t)
  else
    some ([sendCapsuleResp i cpl], t)

/-- Executes the command of a capsule (`nvme_tcp_handle_capsule_cmd`). -/
def executeCapsule (fuel : ℕ) (c : Capsule) : Option (List Sent × Target) :=
  let cmd := c.cmd
  let sqid := (t.conns i).qid
  -- A Write takes data on the admin queue too.
  if cmd.opcode = 0x01 then
    t.transfer i fuel c (cmd.nlb * pageSize)
  else if cmd.opcode = 0x09 ∧ sqid ≠ 0 then
    t.transfer i fuel c (cmd.nr * 16)
  else if cmd.opcode = 0x7F then
    let r := t.fabrics i c
    some ([sendCapsuleResp i r.1], r.2)
  else if cmd.opcode = 0x06 then
    some ([.c2hInfo i cmd.cid, sendCompletion i cmd.cid sqid 0x0000], t)
  else if cmd.opcode = 0x02 ∧ sqid = 0 then
    some ([.c2hInfo i cmd.cid, sendCompletion i cmd.cid sqid 0x0000], t)
  else
    match t.dispatch i fuel cmd with
    | none => none
    | some (cpl, t) => t.afterDispatch i fuel cmd cpl

/-- Records the execution of a command of the queue `qid`, which has led from the target `t` to
    the target `t'` (ghost). -/
def record (qid : ℕ) (t' : Target) : Target :=
  { t' with executed := t'.executed ++
    [⟨i, qid, (t.conns i).answered, (t.conns i).terminated, t.ftl, t'.ftl⟩] }

/-- Handles a command capsule (`nvme_tcp_handle_capsule_cmd`). -/
def handleCapsuleCmd (fuel : ℕ) (c : Capsule) : Option (List Sent × Target) :=
  (t.executeCapsule i fuel c).map fun r => (r.1, t.record i (t.conns i).qid r.2)

/-! ## Data from the host -/

/-- Takes data for the command that waits, whatever the command they are for. The difference and
    the sum are those of 32-bit numbers. -/
def receive (d : H2cData) : Target :=
  let conn := t.conns i
  match d.data with
  | none => t
  | some data =>
    let rest := (conn.dataTotal + 2 ^ 32 - d.datao) % 2 ^ 32
    let copyLen := min d.datal rest
    if d.datal > 0 ∧ (d.datao + copyLen) % 2 ^ 32 ≤ conn.dataTotal then
      { t.setConn i { conn with dataLen := (conn.dataLen + copyLen) % 2 ^ 32 } with
        writeBuf := t.writeBuf.store d.datao copyLen data }
    else
      t

/-- Handles data from the host (`nvme_tcp_handle_h2cdata`). With the last data, the command is
    completed. -/
def handleH2cData (fuel : ℕ) (d : H2cData) : Option (List Sent × Target) :=
  if (t.conns i).hasData = false ∨ (t.conns i).dataTotal = 0 then
    some ([], t)
  else
    let t' := t.receive i d
    if d.last ∧ (t'.conns i).dataLen ≥ (t'.conns i).dataTotal then
      (t'.complete i fuel).map fun r => (r.1, t.record i (t.conns i).pendingSqid r.2)
    else
      some ([], t')

end Target

/-! ## The target as a machine -/

/-- The PDUs that a connection receives. The answer to an initialization may not be sent. -/
inductive TcpCall
  | icreq (conn : ℕ) (sent : Bool)
  | capsule (conn : ℕ) (c : Capsule)
  | h2cData (conn : ℕ) (d : H2cData)
  | termReq (conn : ℕ)

/-- Handles a PDU. -/
def tcpExec (fuel : ℕ) (t : Target) : TcpCall → Option (List Sent × Target)
  | .icreq i sent => some (t.handleIcreq i sent)
  | .capsule i c => t.handleCapsuleCmd i fuel c
  | .h2cData i d => t.handleH2cData i fuel d
  | .termReq i => some ([], t.handleTermReq i)

/-- The target as a machine. -/
def tcpMachine : Machine Target TcpCall (List Sent) where
  step t call sent t' := ∃ fuel, tcpExec fuel t call = some (sent, t')

end Nvme

end FtlFirmware
