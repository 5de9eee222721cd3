import FtlFirmware.Nvme.Vfio
import FtlFirmware.Nvme.Vhost

/-!
# The rings of the vhost-user back end

The rings through which a guest gives its commands to the vhost-user back end (`VringHost`). A ring
consists of a table of descriptors, a ring of those that the guest has made available, and a ring of
those that the back end has used, all in the memory of the guest. The guest announces a ring by
messages (`VringCall`).

`process_vring` goes through the entries of a ring that are available, in a loop. The guest goes on
meanwhile, and may write its memory at any time, so that a pass through the loop is two steps: the
back end takes an entry and executes its command (`takeEntry`), and then it writes an entry of the
used ring (`putUsed`). In between, `phase` tells where the back end is in the loop.
-/

namespace FtlFirmware

namespace Nvme

/-- The number of rings (`VHOST_USER_NVME_MAX_QUEUES`). -/
abbrev vhostMaxQueues : ℕ := 8

/-- A ring (`vhost_user_vring_t`). -/
structure Vring where
  num : UInt32
  descAddr : UInt64
  availAddr : UInt64
  usedAddr : UInt64
  base : UInt32
  kickFd : ℤ
  enabled : Bool
  lastAvailIdx : UInt16
  usedIdx : UInt16

namespace Vring

/-- A ring that has not been announced. -/
def absent : Vring := ⟨0, 0, 0, 0, 0, -1, false, 0, 0⟩

variable (q : Vring)

/-- The slot of the ring that is next in the available ring. -/
def availSlot : ℕ := q.lastAvailIdx.toNat % q.num.toNat

/-- The slot that is next in the used ring. -/
def usedSlot : ℕ := q.usedIdx.toNat % q.num.toNat

/-- The ring when the guest has disconnected. Its size, its addresses and its base stay. -/
def closed : Vring :=
  { q with kickFd := -1, enabled := false, lastAvailIdx := 0, usedIdx := 0 }

end Vring

/-- Where the back end finds the parts of a ring. -/
structure Rings where
  desc : Hva
  avail : Hva
  used : Hva

/-- Where the back end is: outside of the loop, or in it, before it takes an entry or before it
    writes an entry of the used ring. It knows the ring, where its parts are, the index up to which
    entries are available, and the descriptor taken. A division by zero ends the program. -/
inductive VringPhase
  | idle
  | taking (i : ℕ) (rings : Rings) (availIdx : UInt16)
  | putting (i : ℕ) (rings : Rings) (availIdx descIdx : UInt16)
  | crashed

/-- The back end with its rings. -/
structure VringHost extends Vhost where
  vrings : ℕ → Vring
  phase : VringPhase

/-- The messages of the guest, the end of its connection, what it stores in its memory, and the
    processing of a ring: its beginning, given whether the notification of the guest could be read
    (if there is none yet, this counts as read, and the ring is looked at all the same), and what
    the back end does next. -/
inductive VringCall
  | setVringNum (index num : UInt32)
  | setVringAddr (index : UInt32) (desc avail used : UInt64)
  | setVringBase (index base : UInt32)
  | getVringBase (index : UInt32)
  | setVringKick (index : UInt32) (fd : ℤ)
  | setVringEnable (index num : UInt32)
  | setMemTable (guest : Guest)
  | setConfig (offset value : UInt32)
  | closeConnection
  | guestStores (mem : ℕ → Buffer)
  | processVring (i : Fin vhostMaxQueues) (kicked : Bool)
  | proceed

/-- What the back end answers, and what it does in the loop: the slots and the descriptors that it
    takes, and the slots of the used ring that it writes. -/
inductive VringAnswer
  | done
  | base (num : UInt32)
  | started (availIdx : UInt16)
  | finished
  | taken (slot : ℕ) (descIdx : UInt16)
  | skipped (slot : ℕ) (descIdx : UInt16)
  | put (slot : ℕ)
  | crashed
  deriving DecidableEq, Repr

/-- The guest address in a descriptor of a table. -/
def Buffer.descAddr (table : Buffer) (descIdx : UInt16) : UInt64 := table.le64 (16 * descIdx.toNat)

/-- The index up to which entries of an available ring, or of a used ring, have been written. -/
def Buffer.ringIdx (ring : Buffer) : UInt16 := ring.le16 2

/-- The descriptor in a slot of an available ring. -/
def Buffer.availEntry (ring : Buffer) (slot : ℕ) : UInt16 := ring.le16 (4 + 2 * slot)

/-- The descriptor in a slot of a used ring. -/
def Buffer.usedId (ring : Buffer) (slot : ℕ) : UInt32 := ring.le32 (4 + 8 * slot)

namespace VringHost

variable (s : VringHost)

/-- The back end after `vhost_user_nvme_init`. -/
def init (v : Vhost) : VringHost where
  toVhost := v
  vrings _ := Vring.absent
  phase := .idle

/-- Changes a ring. A message about a ring that does not exist changes nothing. -/
def setVring (index : UInt32) (f : Vring → Vring) : VringHost :=
  if index.toNat < vhostMaxQueues then
    { s with vrings := Function.update s.vrings index.toNat (f (s.vrings index.toNat)) }
  else s

/-- The guest writes a register (`handle_set_config`), as far as the doorbells of the controller are
    concerned, which are beyond the others. The other registers make no difference to the rings, and
    are left out here. -/
def setConfig (offset value : UInt32) : Option VringHost :=
  if offset < 0x1000 then some s
  else
    let qid := ((offset - 0x1000) / 8).toNat % 2 ^ 16
    let ctrl :=
      if (offset - 0x1000) % 8 = 0 then s.ctrl.sqDoorbell qid value
      else s.ctrl.cqDoorbell qid value
    ctrl.map fun ctrl => { s with ctrl := ctrl }

/-- The connection is closed (`close_connection`). -/
def closeConnection : VringHost :=
  { s with guest := { s.guest with regions := [] }, vrings := fun i => (s.vrings i).closed }

/-- The parts of a ring, if they are all in the memory of the guest. -/
def findRings (q : Vring) : Option Rings :=
  (Vhost.gpaToHva s.guest q.descAddr).bind fun desc =>
    (Vhost.gpaToHva s.guest q.availAddr).bind fun avail =>
      (Vhost.gpaToHva s.guest q.usedAddr).map fun used => ⟨desc, avail, used⟩

/-- Begins to process a ring (`process_vring`, up to the loop). -/
def processVring (i : ℕ) (kicked : Bool) : VringAnswer × VringHost :=
  let q := s.vrings i
  if !q.enabled ∨ q.kickFd < 0 ∨ !kicked then (.done, s)
  else
    match s.findRings q with
    | none => (.done, s)
    | some rings =>
      let availIdx := (s.guest.bytesAt rings.avail).ringIdx
      (.started availIdx, { s with phase := .taking i rings availIdx })

/-- The descriptor in a slot of the available ring. -/
def entry (rings : Rings) (slot : ℕ) : UInt16 := (s.guest.bytesAt rings.avail).availEntry slot

/-- Where the buffer of a descriptor is, if it is in the memory of the guest. -/
def findBuffer (rings : Rings) (descIdx : UInt16) : Option Hva :=
  Vhost.gpaToHva s.guest ((s.guest.bytesAt rings.desc).descAddr descIdx)

/-- An entry of the available ring is done with. -/
def consumed (i : ℕ) : VringHost :=
  { s with
    vrings := Function.update s.vrings i
      { s.vrings i with lastAvailIdx := (s.vrings i).lastAvailIdx + 1 } }

/-- Executes the command in a buffer, and puts the completion behind it. -/
def execute (fuel : ℕ) (info : Ctrl → Command → Buffer) (i : ℕ) (buf : Hva) : Option VringHost :=
  (s.toVhost.processNvmeCommand fuel info (s.guest.bytesAt buf).command i).map fun r =>
    { s with
      toVhost := { r.2 with
        guest := r.2.guest.write (buf.1, buf.2 + commandSize) completionSize r.1.buffer } }

/-- Takes the next entry of the available ring (`process_vring`, loop, up to the used ring). An
    entry whose buffer is not found is skipped. -/
def takeEntry (fuel : ℕ) (info : Ctrl → Command → Buffer) (i : ℕ) (rings : Rings)
    (availIdx : UInt16) : Option (VringAnswer × VringHost) :=
  let q := s.vrings i
  if q.lastAvailIdx = availIdx then some (.finished, { s with phase := .idle })
  else if q.num = 0 then some (.crashed, { s with phase := .crashed })
  else
    let descIdx := s.entry rings q.availSlot
    match s.findBuffer rings descIdx with
    | none => some (.skipped q.availSlot descIdx, s.consumed i)
    | some buf => (s.execute fuel info i buf).map fun s =>
      (.taken q.availSlot descIdx, { s with phase := .putting i rings availIdx descIdx })

/-- The memory of the guest after an entry of a used ring has been written, and its index. -/
def usedWritten (used : Hva) (slot : ℕ) (descIdx idx : UInt16) : Guest :=
  ((s.guest.write (used.1, used.2 + (4 + 8 * slot)) 4 (byteOf descIdx.toNat)).write
    (used.1, used.2 + (8 + 8 * slot)) 4 (byteOf completionSize)).write
    (used.1, used.2 + 2) 2 (byteOf idx.toNat)

/-- Writes an entry of the used ring (`process_vring`, loop, from the used ring on). -/
def putUsed (i : ℕ) (rings : Rings) (availIdx descIdx : UInt16) : VringAnswer × VringHost :=
  let q := s.vrings i
  if q.num = 0 then (.crashed, { s with phase := .crashed })
  else
    (.put q.usedSlot,
      { s with
        guest := s.usedWritten rings.used q.usedSlot descIdx (q.usedIdx + 1)
        vrings := Function.update s.vrings i
          { q with usedIdx := q.usedIdx + 1, lastAvailIdx := q.lastAvailIdx + 1 }
        phase := .taking i rings availIdx })

/-- What the back end does next in the loop. -/
def proceed (fuel : ℕ) (info : Ctrl → Command → Buffer) : Option (VringAnswer × VringHost) :=
  match s.phase with
  | .taking i rings availIdx => s.takeEntry fuel info i rings availIdx
  | .putting i rings availIdx descIdx => some (s.putUsed i rings availIdx descIdx)
  | _ => none

/-- Handles a message, when the back end is not in the loop. -/
def handle : VringCall → Option (VringAnswer × VringHost)
  | .setVringNum index num => some (.done, s.setVring index fun q => { q with num := num })
  | .setVringAddr index desc avail used => some (.done, s.setVring index fun q =>
      { q with descAddr := desc, availAddr := avail, usedAddr := used })
  | .setVringBase index base => some (.done, s.setVring index fun q =>
      { q with base := base, lastAvailIdx := base.toUInt16 })
  -- The base that has been set, not the index that the entries have got to.
  | .getVringBase index =>
    some (.base (if index.toNat < vhostMaxQueues then (s.vrings index.toNat).base else 0), s)
  | .setVringKick index fd => some (.done, s.setVring index fun q => { q with kickFd := fd })
  | .setVringEnable index num =>
    some (.done, s.setVring index fun q => { q with enabled := num != 0 })
  | .setMemTable guest => some (.done, { s with guest := guest })
  | .setConfig offset value => (s.setConfig offset value).map fun s => (.done, s)
  | .closeConnection => some (.done, s.closeConnection)
  | .processVring i kicked => some (s.processVring i kicked)
  | _ => none

/-- Executes a call, with enough fuel for a command. -/
def exec (info : Ctrl → Command → Buffer) (fuel : ℕ) (s : VringHost) :
    VringCall → Option (VringAnswer × VringHost)
  | .guestStores mem => some (.done, { s with guest := { s.guest with mem := mem } })
  | .proceed => s.proceed fuel info
  | c => match s.phase with
    | .idle => s.handle c
    | _ => none

/-- The back end with its rings, as a machine. -/
def machine (info : Ctrl → Command → Buffer) : Machine VringHost VringCall VringAnswer where
  step s c a s' := ∃ fuel, s.exec info fuel c = some (a, s')

end VringHost

end Nvme

end FtlFirmware
