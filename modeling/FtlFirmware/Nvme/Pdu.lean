import FtlFirmware.Lib.Framing
import FtlFirmware.Nvme.Exchange

/-!
# PDUs

How a connection takes PDUs out of the bytes that it receives (`nvme_tcp_process_pdu`). The bytes
are collected in a buffer, the rest of which holds what earlier bytes have left there. A PDU is
handled when as many bytes as its header announces have come, and then taken out of the buffer.

The PDUs that have been handled are recorded with the bytes that their handlers look at
(`Wire.log`), which may be more than the announced ones (`Target.reach`).
-/

namespace FtlFirmware

namespace Nvme

/-- The size of the buffer of a connection (`NVME_TCP_BUFFER_SIZE`). -/
abbrev tcpBufferSize : ℕ := 65536

/-- The size of the header of a PDU (`nvme_tcp_pdu_hdr_t`). -/
abbrev pduHdrSize : ℕ := 8

/-- The size of an initialization request (`nvme_tcp_icreq_t`). -/
abbrev icreqSize : ℕ := 128

/-! ## Headers -/

namespace Buffer

variable (buf : Buffer)

/-- The type of a PDU. -/
def pduType : UInt8 := buf 0

/-- The offset of the data of a PDU. -/
def pdo : ℕ := (buf 3).toNat

/-- The length of a PDU, as announced. -/
def plen : ℕ := (buf.le32 4).toNat

/-- The command of a capsule. -/
def sqe : Command where
  opcode := buf 8
  cid := buf.le16 10
  nsid := buf.le32 12
  dptrPrp1 := buf.le64 32
  dptrPrp2 := buf.le64 40
  cdw10 := buf.le32 48
  cdw11 := buf.le32 52
  cdw12 := buf.le32 56
  cdw13 := buf.le32 60

/-- Where the data of a PDU start, if it has data. -/
def data : Option Buffer :=
  if 0 < buf.pdo ∧ buf.pdo < buf.plen then some fun k => buf (buf.pdo + k) else none

/-- The data that a PDU carries for a command. -/
def h2cData : H2cData where
  cccid := buf.le16 8
  datao := (buf.le32 12).toNat
  datal := (buf.le32 16).toNat
  last := buf 1 &&& 0x04 ≠ 0
  data := buf.data

/-- The PDU at the start of the buffer, if it is of a type that is handled. -/
def call (i : ℕ) (sent : Bool) : Option TcpCall :=
  if buf.pduType = 0x00 then some (.icreq i sent)
  else if buf.pduType = 0x04 then some (.capsule i ⟨buf.sqe, buf.data, buf.plen - buf.pdo⟩)
  else if buf.pduType = 0x06 then some (.h2cData i buf.h2cData)
  else if buf.pduType = 0x02 ∨ buf.pduType = 0x03 then some (.termReq i)
  else none

/-- The number of bytes that are taken out of the buffer: an initialization request has at most as
    many as its structure. -/
def removed : ℕ :=
  if buf.pduType = 0x00 ∧ buf.plen > icreqSize then icreqSize else buf.plen

end Buffer

/-- The number of bytes, from the start of the PDU, that its handler looks at, the data of a capsule
    apart: the fields of an initialization request, the command of a capsule, the fields of a data
    PDU and the data that are stored, or the reason of a termination. -/
def Target.reach (t : Target) (i : ℕ) (buf : Buffer) : ℕ :=
  if buf.pduType = 0x00 then 16
  else if buf.pduType = 0x04 then 72
  else if buf.pduType = 0x06 then
    let conn := t.conns i
    let d := buf.h2cData
    let copyLen := min d.datal ((conn.dataTotal + 2 ^ 32 - d.datao) % 2 ^ 32)
    if conn.hasData = true ∧ conn.dataTotal ≠ 0 ∧ d.data.isSome ∧ d.datal > 0 ∧
        (d.datao + copyLen) % 2 ^ 32 ≤ conn.dataTotal then
      max 20 (buf.pdo + copyLen)
    else
      20
  else if buf.pduType = 0x02 ∨ buf.pduType = 0x03 then 10
  else pduHdrSize

/-! ## The buffer of a connection -/

/-- A PDU that has been handled: the length announced, the number of bytes taken out, and the bytes
    that the handler may look at. -/
structure Dispatch where
  plen : ℕ
  removed : ℕ
  bytes : List UInt8
  deriving DecidableEq, Repr

/-- A connection of a target: its buffer, the number of bytes received, and whether it has been
    closed, with the PDUs handled (ghost). -/
structure Wire where
  buf : Buffer
  len : ℕ
  closed : Bool
  target : Target
  log : List Dispatch

/-- A new connection. Its buffer has not been cleared. -/
def Wire.fresh (buf : Buffer) (t : Target) : Wire := ⟨buf, 0, false, t, []⟩

namespace Wire

/-- Handles the PDU at the start of the buffer, and takes it out. The bytes are those that the
    handler may look at; the answers to initialization requests are sent, or not, as `sends` says.
    The fuel is that of the writes to the FTL. -/
def dispatch (fuel i : ℕ) (sends : ℕ → Bool) (w : Wire) : Option Wire :=
  let bytes := w.buf.bytes (max w.buf.plen (w.target.reach i w.buf))
  let target := match (bufferOf bytes).call i (sends w.log.length) with
    | none => some w.target
    | some call => (tcpExec fuel w.target call).map Prod.snd
  let len := w.len - w.buf.removed
  target.map fun t =>
    { w with
      buf := fun k => if k < len then w.buf (k + w.buf.removed) else w.buf k
      len := len
      target := t
      log := w.log ++ [⟨w.buf.plen, w.buf.removed, bytes⟩] }

/-- Handles the PDUs in the buffer. A length of zero, or one beyond the buffer, closes the
    connection. Every PDU takes a byte out, so that there are no more of them than bytes. -/
def dispatchAll (fuel i : ℕ) (sends : ℕ → Bool) : ℕ → Wire → Option Wire
  | 0, w => some w
  | n + 1, w =>
    if w.len < pduHdrSize then some w
    else if w.buf.plen = 0 ∨ w.buf.plen > tcpBufferSize then some { w with closed := true }
    else if w.len < w.buf.plen then some w
    else
      match w.dispatch fuel i sends with
      | none => none
      | some w => dispatchAll fuel i sends n w

/-- Receives bytes, and handles the PDUs in the buffer (`nvme_tcp_process_pdu`). -/
def processPdu (fuel i : ℕ) (sends : ℕ → Bool) (chunk : List UInt8) (w : Wire) : Option Wire :=
  let w := { w with
    buf := w.buf.store w.len chunk.length (bufferOf chunk)
    len := w.len + chunk.length }
  dispatchAll fuel i sends (w.len + 1) w

end Wire

/-- A connection as a machine. It receives bytes, at least one and as many as there is room for,
    while it has not been closed. -/
def wireMachine (fuel i : ℕ) (sends : ℕ → Bool) : Machine Wire (List UInt8) Unit where
  step w chunk _ w' := w.closed = false ∧ 0 < chunk.length ∧ w.len + chunk.length ≤ tcpBufferSize ∧
    w.processPdu fuel i sends chunk = some w'

end Nvme

end FtlFirmware
