import FtlFirmware.Common
import FtlFirmware.Lib.LinkedList
import FtlFirmware.Lib.Run

/-!
# Message queues

The modules of the firmware send messages to one another. Each module has a queue (`MsgQueue`),
a linked list of nodes on a heap that all queues share, with a pointer to the first and to the
last node. A message goes in front of the first one with a lower priority.

* `Ipc.send`, `Ipc.recv`, `Ipc.clear`: the operations, with enough fuel for their loops. What
  follows a pointer that leads to no node has no outcome (`none`);
* `Ipc.machine`: the queues as a machine, where memory for a new node is allocated at any free
  address, or not at all.
-/

namespace FtlFirmware

/-- The number of modules (`MODULE_MAX`). -/
abbrev moduleMax : ℕ := 5

/-- The header of a message (`msg_header_t`). -/
structure MsgHeader where
  type : ℕ
  priority : ℕ
  srcModule : ℕ
  dstModule : ℕ
  msgId : UInt32
  timestamp : UInt32
  dataLen : UInt32

/-- A message (`message_t`). -/
structure Message where
  header : MsgHeader
  data : Vector UInt8 256

/-- The queue of a module (`msg_queue_t`). -/
structure MsgQueue where
  head : Option ℕ
  tail : Option ℕ
  count : ℕ
  maxSize : ℕ
  isInitialized : Bool

/-- The queues of all modules, the heap of their nodes, and the counters. -/
structure Ipc where
  heap : Heap Message
  queues : ℕ → MsgQueue
  msgIdCounter : UInt32
  timestampCounter : UInt32

/-- The calls. -/
inductive IpcCall
  | init (module : ℕ) (queueSize : ℕ)
  | deinit (module : ℕ)
  | send (msg : Message)
  | recv (module : ℕ)
  | clear (module : ℕ)

/-- The priority of a message. -/
def Message.priority (msg : Message) : ℕ := msg.header.priority

/-- The message with its number and its time. -/
def Message.stamp (msg : Message) (msgId timestamp : UInt32) : Message :=
  { msg with header := { msg.header with msgId := msgId, timestamp := timestamp } }

namespace MsgQueue

/-- A queue of zeroed memory. -/
def zeroed : MsgQueue := ⟨none, none, 0, 0, false⟩

/-- Goes along the nodes from `curr` up to the first one with a priority below `prio`: that node,
    and the one before it (`msg_queue_send`, loop). -/
def findPlace (heap : Heap Message) (prio : ℕ) :
    ℕ → Option ℕ → Option ℕ → Option (Option ℕ × Option ℕ)
  | _, prev, none => some (prev, none)
  | 0, _, some _ => none
  | fuel + 1, prev, some curr =>
    (heap curr).bind fun n =>
      if prio ≤ n.val.priority then findPlace heap prio fuel (some curr) n.next
      else some (prev, some curr)

/-- Links a node into a queue that is not empty, between the nodes found: at the front, at the
    end or in the middle. -/
def linkNode (q : MsgQueue) (heap : Heap Message) (node : ℕ) :
    Option ℕ × Option ℕ → Option (Heap Message × MsgQueue)
  | (none, _) => (heap.setNext node q.head).map fun heap => (heap, { q with head := some node })
  | (some _, none) => q.tail.bind fun tail =>
    (heap.setNext tail (some node)).map fun heap => (heap, { q with tail := some node })
  | (some prev, some curr) => (heap.setNext node (some curr)).bind fun heap =>
    (heap.setNext prev (some node)).map fun heap => (heap, q)

/-- Inserts a node into the queue (`msg_queue_send`, insertion). -/
def insertNode (q : MsgQueue) (fuel : ℕ) (heap : Heap Message) (node prio : ℕ) :
    Option (Heap Message × MsgQueue) :=
  match q.head with
  | none => some (heap, { q with head := some node, tail := some node })
  | some head => (findPlace heap prio fuel none (some head)).bind (q.linkNode heap node)

/-- Frees the nodes from `node` on. -/
def freeAll : ℕ → Heap Message → Option ℕ → Option (Heap Message)
  | _, heap, none => some heap
  | 0, _, some _ => none
  | fuel + 1, heap, some node =>
    (heap node).bind fun n => freeAll fuel (Function.update heap node none) n.next

end MsgQueue

namespace Ipc

/-- Before any call: no node, and zeroed memory. -/
def start : Ipc where
  heap _ := none
  queues _ := .zeroed
  msgIdCounter := 0
  timestampCounter := 0

variable (s : Ipc)

/-- The queues with another one for a module. -/
def setQueue (module : ℕ) (q : MsgQueue) : Ipc :=
  { s with queues := Function.update s.queues module q }

/-- Initializes the queue of a module (`msg_queue_init`). -/
def init (module queueSize : ℕ) : RetCode × Ipc :=
  if moduleMax ≤ module then (.errParam, s)
  else if queueSize = 0 then (.errParam, s)
  else (.ok, s.setQueue module ⟨none, none, 0, queueSize, true⟩)

/-- Frees the queue of a module (`msg_queue_deinit`). -/
def deinit (fuel module : ℕ) : Option (RetCode × Ipc) :=
  if moduleMax ≤ module then some (.errParam, s)
  else if !(s.queues module).isInitialized then some (.errNotInit, s)
  else (MsgQueue.freeAll fuel s.heap (s.queues module).head).map fun heap =>
    (.ok, { s with heap := heap }.setQueue module .zeroed)

/-- Sends a message (`msg_queue_send`). The address of the memory allocated for its node is
    given, if any. -/
def send (fuel : ℕ) (address : Option ℕ) (msg : Message) : Option (RetCode × Ipc) :=
  let dstModule := msg.header.dstModule
  if moduleMax ≤ dstModule then some (.errParam, s)
  else if !(s.queues dstModule).isInitialized then some (.errNotInit, s)
  else if (s.queues dstModule).maxSize ≤ (s.queues dstModule).count then some (.errNoSpace, s)
  else match address with
    | none => some (.errInternal, s)
    | some node =>
      let stamped := msg.stamp s.msgIdCounter s.timestampCounter
      let heap := Function.update s.heap node (some ⟨stamped, none⟩)
      ((s.queues dstModule).insertNode fuel heap node stamped.priority).map fun r =>
        (.ok, { s with heap := r.1,
                       msgIdCounter := s.msgIdCounter + 1,
                       timestampCounter := s.timestampCounter + 1 }.setQueue dstModule
          { r.2 with count := r.2.count + 1 })

/-- Receives a message (`msg_queue_recv`). -/
def recv (module : ℕ) : Option ((RetCode × Option Message) × Ipc) :=
  let q := s.queues module
  if moduleMax ≤ module then some ((.errParam, none), s)
  else if !q.isInitialized then some ((.errNotInit, none), s)
  else if q.count = 0 then some ((.errBusy, none), s)
  else q.head.bind fun node =>
    (s.heap node).map fun n =>
      let tail := if n.next = none then none else q.tail
      ((.ok, some n.val), { s with heap := Function.update s.heap node none }.setQueue module
        { q with head := n.next, count := q.count - 1, tail := tail })

/-- Empties the queue of a module (`msg_queue_clear`). -/
def clear (fuel module : ℕ) : Option (RetCode × Ipc) :=
  if moduleMax ≤ module then some (.errParam, s)
  else if !(s.queues module).isInitialized then some (.errNotInit, s)
  else (MsgQueue.freeAll fuel s.heap (s.queues module).head).map fun heap =>
    (.ok, { s with heap := heap }.setQueue module
      { s.queues module with head := none, tail := none, count := 0 })

/-- The answer of a call that receives no message. -/
def answer (r : RetCode × Ipc) : (RetCode × Option Message) × Ipc := ((r.1, none), r.2)

/-- Executes a call, with the fuel for its loops and the address for a new node. -/
def exec (fuel : ℕ) (address : Option ℕ) : IpcCall → Option ((RetCode × Option Message) × Ipc)
  | .init module queueSize => some (answer (s.init module queueSize))
  | .deinit module => (s.deinit fuel module).map answer
  | .send msg => (s.send fuel address msg).map answer
  | .recv module => s.recv module
  | .clear module => (s.clear fuel module).map answer

/-- The address is one that memory can be allocated at: a free one. -/
def Free (address : Option ℕ) : Prop := ∀ a ∈ address, s.heap a = none

/-- The queues as a machine. -/
def machine : Machine Ipc IpcCall (RetCode × Option Message) where
  step s c a s' := ∃ fuel address, s.Free address ∧ s.exec fuel address c = some (a, s')

/-- A module initializes its queue once, before it uses it. -/
def initOnce : Ipc → IpcCall → Prop
  | s, .init module _ => (s.queues module).isInitialized = false
  | _, _ => True

end Ipc

end FtlFirmware
