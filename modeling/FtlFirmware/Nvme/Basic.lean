import Mathlib.Data.Nat.Notation
import Mathlib.Logic.Function.Basic
import FtlFirmware.Common
import FtlFirmware.Lib.Ledger

/-!
# Commands, completions and queues

The NVMe commands and their completions, and the submission and completion queues between the
host and the controller, with the operations on them of `nvme_controller.c`.

An operation that would divide by a size of zero, or write through a queue without entries, has
no result.

The queues carry *ghost* fields, which no operation reads: the commands taken from a submission
queue (`Sq.fetched`) and the completions written to a completion queue (`Cq.posted`) since it was
created, in order, and the entries of a completion queue that the host has not released
(`Cq.ledger`).
-/

namespace FtlFirmware

namespace Nvme

/-! ## Commands -/

/-- A command (`nvme_command_t`), with the fields that the firmware uses. -/
structure Command where
  opcode : UInt8
  cid : UInt16
  nsid : UInt32
  dptrPrp1 : UInt64
  dptrPrp2 : UInt64
  cdw10 : UInt32
  cdw11 : UInt32
  cdw12 : UInt32
  cdw13 : UInt32
  deriving DecidableEq, Repr, Inhabited

namespace Command

/-- The 64-bit number in the double words 10 and 11. -/
def cdw1011 (cmd : Command) : UInt64 := cmd.cdw11.toUInt64 <<< 32 ||| cmd.cdw10.toUInt64

end Command

/-- An empty command: all its fields are zero. -/
def Command.blank : Command := ⟨0, 0, 0, 0, 0, 0, 0, 0, 0⟩

/-! ## Completions -/

/-- A completion (`nvme_completion_t`). The queue head and the queue identifier are 16 bits
    wide. -/
structure Completion where
  dw0 : UInt32
  rsvd1 : UInt32
  sqhd : ℕ
  sqid : ℕ
  cid : UInt16
  status : UInt16
  deriving DecidableEq, Repr

namespace Completion

/-- An empty completion: all its fields are zero. -/
def blank : Completion := ⟨0, 0, 0, 0, 0, 0⟩

end Completion

/-- The command succeeded (`NVME_SC_SUCCESS`). -/
def scSuccess : UInt16 := 0x0000

/-- The operation code is not known (`NVME_SC_INVALID_OPCODE`). -/
def scInvalidOpcode : UInt16 := 0x0001

/-- A field of the command is wrong (`NVME_SC_INVALID_FIELD`). -/
def scInvalidField : UInt16 := 0x0002

/-- The data could not be transferred (`NVME_SC_DATA_XFER_ERROR`). -/
def scDataXferError : UInt16 := 0x0004

/-- The command failed (`NVME_SC_INTERNAL_ERROR`). -/
def scInternalError : UInt16 := 0x0006

/-- Too many event requests are pending (`NVME_SC_AER_LIMIT_EXCEEDED`). -/
def scAerLimitExceeded : UInt16 := 0x0605

/-- There is no such firmware slot, or it may not be replaced (`NVME_SC_INVALID_FW_SLOT`). -/
def scInvalidFwSlot : UInt16 := 0x0106

/-- There is no firmware image (`NVME_SC_INVALID_FW_IMAGE`). -/
def scInvalidFwImage : UInt16 := 0x0107

namespace Completion

/-- Sets the status from a status code (`set_completion_status`). The phase is left to the
    caller. -/
def setCompletionStatus (cpl : Completion) (statusCode : UInt16) : Completion :=
  { cpl with status := statusCode <<< 1 }

/-- The completion reports success. -/
def Succeeds (cpl : Completion) : Prop := cpl.status >>> 1 = 0

instance (cpl : Completion) : Decidable cpl.Succeeds :=
  inferInstanceAs (Decidable (cpl.status >>> 1 = 0))

/-- The phase of the completion: bit 0 of its status. -/
def phase (cpl : Completion) : Bool := cpl.status &&& 1 = 1

end Completion

/-! ## Queues -/

/-- A command taken from a submission queue, and the head of the queue after that. -/
structure Fetch where
  cmd : Command
  head : ℕ

/-- A completion written to a completion queue: the entry it is written to, and the phase of the
    pass through the queue at that time. -/
structure Post where
  slot : ℕ
  phase : Bool
  cpl : Completion

/-- A submission queue (`nvme_sq_t`). -/
structure Sq where
  qid : ℕ
  size : ℕ
  head : ℕ
  tail : ℕ
  cqid : ℕ
  entries : Option (ℕ → Command)
  /-- The commands taken from the queue (ghost). -/
  fetched : List Fetch

/-- A completion queue (`nvme_cq_t`). -/
structure Cq where
  qid : ℕ
  size : ℕ
  head : ℕ
  tail : ℕ
  vector : ℕ
  phase : Bool
  entries : Option (ℕ → Completion)
  /-- The completions written to the queue (ghost). -/
  posted : List Post
  /-- The entries written and not released by the host (ghost). -/
  ledger : Ledger

/-- A new submission queue, with room for `qsize + 1` commands. Its size is a 16-bit number. -/
def Sq.create (qid qsize cqid : ℕ) : Sq where
  qid := qid
  size := (qsize + 1) % 2 ^ 16
  head := 0
  tail := 0
  cqid := cqid
  entries := some fun _ => Command.blank
  fetched := []

/-- A new completion queue, with room for `qsize + 1` completions. Its size is a 16-bit number. -/
def Cq.create (qid qsize vector : ℕ) : Cq where
  qid := qid
  size := (qsize + 1) % 2 ^ 16
  head := 0
  tail := 0
  vector := vector
  phase := true
  entries := some fun _ => Completion.blank
  posted := []
  ledger := Ledger.fresh

/-- A submission queue that has not been created. -/
def Sq.absent : Sq := ⟨0, 0, 0, 0, 0, none, []⟩

/-- A completion queue that has not been created. -/
def Cq.absent : Cq := ⟨0, 0, 0, 0, 0, false, none, [], Ledger.fresh⟩

namespace Sq

/-- Takes the next command from the queue (`sq_fetch_cmd`). -/
def sqFetchCmd (sq : Sq) : Option (Command × Sq) :=
  if sq.head = sq.tail then
    none
  else
    sq.entries.map fun entries =>
      let head := (sq.head + 1) % sq.size
      (entries sq.head,
        { sq with head := head, fetched := sq.fetched ++ [⟨entries sq.head, head⟩] })

/-- The host writes the tail (`nvme_ctrl_sq_doorbell`). -/
def sqDoorbell (sq : Sq) (value : UInt32) : Option Sq :=
  if sq.size = 0 then none else some { sq with tail := value.toNat % sq.size }

/-- The host writes a command to an entry of the queue. -/
def hostWrite (sq : Sq) (i : ℕ) (cmd : Command) : Sq :=
  { sq with entries := sq.entries.map fun entries => Function.update entries i cmd }

end Sq

namespace Cq

/-- The completion in an entry of the queue. -/
def entry (cq : Cq) (slot : ℕ) : Option Completion := cq.entries.map fun entries => entries slot

/-- Writes a completion to the queue (`cq_post_completion`). -/
def cqPostCompletion (cq : Cq) (cpl : Completion) : Option Cq :=
  if cq.size = 0 then
    none
  else
    cq.entries.map fun entries =>
      let tail := (cq.tail + 1) % cq.size
      { cq with
        entries := some (Function.update entries cq.tail cpl)
        tail := tail
        phase := if tail = 0 then !cq.phase else cq.phase
        posted := cq.posted ++ [⟨cq.tail, cq.phase, cpl⟩]
        ledger := cq.ledger.post cq.tail }

/-- The number of entries that the host releases when it moves the head to `head`. -/
def advance (cq : Cq) (head : ℕ) : ℕ := Ring.dist cq.size cq.head head

/-- The host writes the head (`nvme_ctrl_cq_doorbell`). -/
def cqDoorbell (cq : Cq) (value : UInt32) : Option Cq :=
  if cq.size = 0 then
    none
  else
    let head := value.toNat % cq.size
    some { cq with head := head, ledger := cq.ledger.release (cq.advance head) }

end Cq

end Nvme

end FtlFirmware
