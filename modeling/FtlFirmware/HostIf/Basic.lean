import FtlFirmware.Lib.LinkedList
import FtlFirmware.Lib.Ring
import FtlFirmware.Lib.Run
import FtlFirmware.Nvme.Transfer

/-!
# The host interface

The host submits commands (`HostIf.submitCmd`), has them processed (`HostIf.process`), and polls
for their completions (`HostIf.pollCq`). The commands wait in a linked list of nodes, with a
pointer to the first and to the last one; the completions are a ring with a phase tag, which is
flipped whenever the tail goes around.

* `processReadCmd`, `processWriteCmd`, `processWriteZeroesCmd`, `processTrimCmd`: the I/O commands,
  which transfer pages between the memory of the host and the FTL;
* `processAdminCmd`: the admin commands, of which the ones that report give what is reported as
  `info`;
* `addCqe`: a completion goes into the ring, unless it is full.
-/

namespace FtlFirmware

open Nvme (Buffer)

/-- A status (`nvme_status_t`). -/
inductive HostStatus
  | success
  | invalidOpcode
  | invalidField
  | dataTransfer
  | aborted
  | internalError
  deriving DecidableEq, Repr

/-- A command (`nvme_cmd_t`). The address of its data is `0` where there are none. -/
structure HostCmd where
  opcode : ℕ
  nsid : UInt32
  slba : UInt64
  nlb : UInt32
  cid : UInt16
  dataBuf : ℕ
  dataLen : UInt32
  isAdmin : Bool

/-- A completion (`nvme_cqe_t`). -/
structure HostCqe where
  sqhd : UInt16
  sqid : UInt16
  cid : UInt16
  status : HostStatus
  phaseTag : Bool

/-- The interface (`host_if_dev_t`), with the counter of command identifiers, the heap of its
    nodes, the memory of the host, and the FTL. -/
structure HostIf where
  isInitialized : Bool
  queueSize : ℕ
  heap : Heap HostCmd
  sqHead : Option ℕ
  sqTail : Option ℕ
  sqCount : ℕ
  cq : Ring HostCqe
  phaseTag : Bool
  features : UInt8 → UInt32
  cidCounter : UInt16
  mem : Buffer
  ftl : Ftl

namespace HostIf

/-! ### I/O commands -/

/-- The page of a memory from an address on. -/
def pageAt (mem : Buffer) (address : ℕ) : PageData := Vector.ofFn fun j => mem (address + j)

/-- A memory with a page from an address on. -/
def setPageAt (mem : Buffer) (address : ℕ) (page : PageData) : Buffer :=
  mem.store address pageSize fun k => page.toArray.getD k 0

/-- The number of pages of a command: a 32-bit number. -/
def pageCount (cmd : HostCmd) : ℕ := (cmd.nlb + 1).toNat

/-- The `i`-th logical page of a command: a 32-bit number. -/
def lpnOf (cmd : HostCmd) (i : ℕ) : ℕ := (cmd.slba.toUInt32 + UInt32.ofNat i).toNat

/-- The address of the `i`-th page of the data of a command. The offset is a 32-bit number. -/
def addressOf (cmd : HostCmd) (i : ℕ) : ℕ := cmd.dataBuf + i * pageSize % 2 ^ 32

/-- Reads pages in turn, until a read fails (`process_read_cmd`, loop). -/
def readPages (cmd : HostCmd) : List ℕ → HostIf → HostStatus × HostIf
  | [], s => (.success, s)
  | i :: is, s =>
    let r := s.ftl.read (lpnOf cmd i) (pageAt s.mem (addressOf cmd i))
    let s := { s with mem := setPageAt s.mem (addressOf cmd i) r.2.1, ftl := r.2.2 }
    if r.1 = .ok then readPages cmd is s else (.internalError, s)

/-- Writes pages in turn, until a write fails (`process_write_cmd`, loop). -/
def writePages (fuel : ℕ) (cmd : HostCmd) (data : Buffer → ℕ → PageData) :
    List ℕ → HostIf → Option (HostStatus × HostIf)
  | [], s => some (.success, s)
  | i :: is, s =>
    (s.ftl.write fuel (lpnOf cmd i) (data s.mem i)).bind fun r =>
      if r.1 = .ok then writePages fuel cmd data is { s with ftl := r.2 }
      else some (.internalError, { s with ftl := r.2 })

variable (s : HostIf)

/-- Reads pages (`process_read_cmd`). -/
def processReadCmd (cmd : HostCmd) : HostStatus × HostIf :=
  readPages cmd (List.range (pageCount cmd)) s

/-- Writes pages (`process_write_cmd`). -/
def processWriteCmd (fuel : ℕ) (cmd : HostCmd) : Option (HostStatus × HostIf) :=
  writePages fuel cmd (fun mem i => pageAt mem (addressOf cmd i)) (List.range (pageCount cmd)) s

/-- Writes blank pages (`process_write_zeroes_cmd`). Whether memory could be allocated for one is
    given. -/
def processWriteZeroesCmd (fuel : ℕ) (allocated : Bool) (cmd : HostCmd) :
    Option (HostStatus × HostIf) :=
  if !allocated then some (.internalError, s)
  else writePages fuel cmd (fun _ _ => blankPage) (List.range (pageCount cmd)) s

/-- Trims pages (`process_trim_cmd`). -/
def processTrimCmd (cmd : HostCmd) : Option (HostStatus × HostIf) :=
  (s.ftl.trim cmd.slba.toUInt32 (cmd.nlb + 1)).map fun r =>
    (if r.1 = .ok then .success else .internalError, { s with ftl := r.2 })

/-- Executes an I/O command (`host_if_process`, switch). -/
def processIoCmd (fuel : ℕ) (allocated : Bool) (cmd : HostCmd) : Option (HostStatus × HostIf) :=
  match cmd.opcode with
  | 0x02 => some (s.processReadCmd cmd)
  | 0x01 => s.processWriteCmd fuel cmd
  | 0x08 => s.processWriteZeroesCmd fuel allocated cmd
  | 0x09 => s.processTrimCmd cmd
  | 0x00 => some (.success, s)
  | _ => some (.invalidOpcode, s)

/-! ### Admin commands -/

/-- What the commands that report write to the memory of the host. -/
abbrev Info := HostIf → HostCmd → Buffer

/-- The features that there are (`nvme_feature_id_t`). -/
def featureIds : List UInt8 :=
  [0x01, 0x02, 0x04, 0x05, 0x06, 0x07, 0x08, 0x0A, 0x0B, 0x0C, 0x0F, 0x10]

/-- The low byte of the namespace, which says what an admin command is about. -/
def selector (cmd : HostCmd) : UInt8 := cmd.nsid.toUInt8

/-- Reports what the controller or a namespace is (`host_if_process_identify`). -/
def processIdentify (info : Info) (cmd : HostCmd) : HostStatus × HostIf :=
  if cmd.dataBuf = 0 ∨ cmd.dataLen < 4096 then (.invalidField, s)
  else if selector cmd ∈ [0x01, 0x00, 0x02] then (.success, { s with mem := info s cmd })
  else (.invalidField, s)

/-- Reports a log (`host_if_process_get_log_page`). -/
def processGetLogPage (info : Info) (cmd : HostCmd) : HostStatus × HostIf :=
  if cmd.dataBuf = 0 then (.invalidField, s)
  else if selector cmd ∈ [0x02, 0x01, 0x03, 0x05] then (.success, { s with mem := info s cmd })
  else (.invalidField, s)

/-- Sets a feature (`host_if_process_set_feature`). -/
def processSetFeature (cmd : HostCmd) : HostStatus × HostIf :=
  if selector cmd ∈ featureIds then
    (.success, { s with features := Function.update s.features (selector cmd) cmd.slba.toUInt32 })
  else (.invalidField, s)

/-- Reports a feature (`host_if_process_get_feature`). -/
def processGetFeature (cmd : HostCmd) : HostStatus × HostIf :=
  if selector cmd ∈ featureIds then
    let value := s.features (selector cmd)
    let bytes := fun k => (value >>> UInt32.ofNat (8 * k)).toUInt8
    if cmd.dataBuf ≠ 0 ∧ 4 ≤ cmd.dataLen then
      (.success, { s with mem := s.mem.store cmd.dataBuf 4 bytes })
    else (.success, s)
  else (.invalidField, s)

/-- Executes an admin command (`host_if_process_admin_cmd`). -/
def processAdminCmd (info : Info) (cmd : HostCmd) : HostStatus × HostIf :=
  match cmd.opcode with
  | 0x06 => s.processIdentify info cmd
  | 0x02 => s.processGetLogPage info cmd
  | 0x09 => s.processSetFeature cmd
  | 0x0A => s.processGetFeature cmd
  | 0x01 | 0x00 | 0x05 | 0x04 => (.success, s)
  | 0x08 => (.success, s)
  | 0x0C => (.success, s)
  | 0x11 | 0x10 => (.success, s)
  | 0x80 => (.success, s)
  | _ => (.invalidOpcode, s)

/-- Executes a command. -/
def processCmd (info : Info) (fuel : ℕ) (allocated : Bool) (cmd : HostCmd) :
    Option (HostStatus × HostIf) :=
  if cmd.isAdmin then some (s.processAdminCmd info cmd) else s.processIoCmd fuel allocated cmd

/-! ### Queues -/

/-- The features at first. -/
def defaultFeatures : UInt8 → UInt32
  | 0x01 => 0x00000001
  | 0x04 => 345
  | 0x06 => 0x00000001
  | 0x07 => 0x0000FFFF
  | _ => 0

/-- Initializes the interface (`host_if_init`). Whether memory could be allocated for the ring is
    given; what it holds at first is that of before. -/
def init (queueSize : ℕ) (allocated : Bool) : RetCode × HostIf :=
  if queueSize = 0 then (.errParam, s)
  else
    let cleared := { s with
      isInitialized := false
      queueSize := queueSize
      sqHead := none
      sqTail := none
      sqCount := 0
      cq := ⟨s.cq.slots, 0, 0, 0⟩
      phaseTag := false
      features := fun _ => 0 }
    if !allocated then (.errInternal, cleared)
    else (.ok, { cleared with
      phaseTag := true
      features := defaultFeatures
      isInitialized := true })

/-- Adds a completion to the ring, unless it is full (`add_cqe`). -/
def addCqe (cqe : HostCqe) : RetCode × HostIf :=
  if s.queueSize ≤ s.cq.count then (.errNoSpace, s)
  else
    let cq := s.cq.push s.queueSize { cqe with phaseTag := s.phaseTag }
    (.ok, { s with cq := cq, phaseTag := if cq.tail = 0 then !s.phaseTag else s.phaseTag })

/-- Submits a command (`host_if_submit_cmd`). The address of the memory allocated for its node is
    given, if any. A command without an identifier gets one. -/
def submitCmd (address : Option ℕ) (cmd : HostCmd) : Option (RetCode × HostIf) :=
  if !s.isInitialized then some (.errNotInit, s)
  else if s.queueSize ≤ s.sqCount then some (.errNoSpace, s)
  else match address with
    | none => some (.errInternal, s)
    | some node =>
      let numbered := if cmd.cid = 0 then { cmd with cid := s.cidCounter } else cmd
      let counter := if cmd.cid = 0 then s.cidCounter + 1 else s.cidCounter
      let heap : Heap HostCmd := Function.update s.heap node (some ⟨numbered, none⟩)
      match s.sqHead with
      | none => some (.ok, { s with
          heap := heap, cidCounter := counter, sqCount := s.sqCount + 1,
          sqHead := some node, sqTail := some node })
      | some _ => s.sqTail.bind fun tail =>
        (heap.setNext tail (some node)).map fun heap => (.ok, { s with
          heap := heap, cidCounter := counter, sqCount := s.sqCount + 1, sqTail := some node })

/-- Polls for a completion (`host_if_poll_cq`). -/
def pollCq : (RetCode × Option HostCqe) × HostIf :=
  if !s.isInitialized then ((.errNotInit, none), s)
  else if s.cq.count = 0 then ((.errBusy, none), s)
  else ((.ok, some (s.cq.slots s.cq.head)), { s with cq := s.cq.pop s.queueSize })

/-- The command at the head is taken off the queue. -/
def takeCmd : Option ((ℕ × HostCmd) × HostIf) :=
  s.sqHead.bind fun node =>
    (s.heap node).map fun n =>
      ((node, n.val), { s with
        sqHead := n.next
        sqCount := s.sqCount - 1
        sqTail := if n.next = none then none else s.sqTail })

/-- Processes a command: it is executed, its completion is added, and its node is freed
    (`host_if_process`, one pass of the loop). -/
def processOne (info : Info) (fuel : ℕ) (allocated : Bool) : Option HostIf :=
  s.takeCmd.bind fun t =>
    (t.2.processCmd info fuel allocated t.1.2).map fun r =>
      let s := (r.2.addCqe ⟨UInt16.ofNat r.2.sqCount, 0, t.1.2.cid, r.1, false⟩).2
      { s with heap := Function.update s.heap t.1.1 none }

/-- Processes commands until none waits (`host_if_process`, loop). Whether memory can be allocated
    is given for each of them. -/
def processAll (info : Info) (fuel : ℕ) : ℕ → (ℕ → Bool) → HostIf → Option HostIf
  | 0, _, s => if s.sqCount = 0 then some s else none
  | n + 1, allocated, s =>
    if s.sqCount = 0 then some s
    else (s.processOne info fuel (allocated 0)).bind
      (processAll info fuel n fun i => allocated (i + 1))

/-- Processes all commands (`host_if_process`). -/
def process (info : Info) (fuel : ℕ) (allocated : ℕ → Bool) : Option (RetCode × HostIf) :=
  if !s.isInitialized then some (.errNotInit, s)
  else (processAll info fuel fuel allocated s).map fun s => (.ok, s)

end HostIf

/-- The calls of the host, which also writes its memory. -/
inductive HostCall
  | submitCmd (cmd : HostCmd)
  | process
  | pollCq
  | store (mem : Buffer)

namespace HostIf

/-- Executes a call, with enough fuel, the address for a new node, and the outcomes of the other
    allocations. -/
def exec (info : Info) (fuel : ℕ) (address : Option ℕ) (allocated : ℕ → Bool) (s : HostIf) :
    HostCall → Option ((RetCode × Option HostCqe) × HostIf)
  | .submitCmd cmd => (s.submitCmd address cmd).map fun r => ((r.1, none), r.2)
  | .process => (s.process info fuel allocated).map fun r => ((r.1, none), r.2)
  | .pollCq => some s.pollCq
  | .store mem => some ((.ok, none), { s with mem := mem })

/-- The address is one that memory can be allocated at: a free one. -/
def Free (s : HostIf) (address : Option ℕ) : Prop := ∀ a ∈ address, s.heap a = none

/-- The interface as a machine. -/
def machine (info : Info) : Machine HostIf HostCall (RetCode × Option HostCqe) where
  step s c a s' := ∃ fuel address allocated, s.Free address ∧
    s.exec info fuel address allocated c = some (a, s')

end HostIf

end FtlFirmware
