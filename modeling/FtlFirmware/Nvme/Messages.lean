import FtlFirmware.Lib.Framing
import FtlFirmware.Lib.Records
import FtlFirmware.Nvme.Bar
import FtlFirmware.Nvme.Table
import FtlFirmware.Nvme.Translating

/-!
# The messages of vfio-user

The guest talks to the back end for vfio-user over a socket (`VfuConn`). A message is a header of 16
bytes, which says how long the message is, and a payload; file descriptors may come with it. The
back end takes one message at a time out of what has arrived, and handles it
(`VfuServer.dispatch`). The socket does not block: if less than a whole message has arrived when the
back end looks, it closes the connection.

A message is answered, unless its flags say that it is not to be. The answer has the number and the
command of the message.
-/

namespace FtlFirmware

namespace Nvme

/-! ## Messages -/

/-- The size of the header of a message (`vfu_msg_hdr_t`). -/
abbrev vfuHdrSize : ℕ := 16

/-- The size of the payload of a message at most (`VFIO_USER_MAX_PAYLOAD_SIZE`). -/
abbrev vfuMaxPayloadSize : ℕ := 8192

/-- The first word of the header: the number and the command of a message. -/
def vfuId (msg : List UInt8) : UInt32 := wordAt msg 0

/-- The command of a message. -/
def vfuCommand (msg : List UInt8) : UInt16 := (vfuId msg >>> 16).toUInt16

/-- The flags of a message. -/
def vfuFlags (msg : List UInt8) : UInt32 := wordAt msg 2

/-- What the bytes that have arrived tell about the first message (`vfu_recv_msg`). -/
def vfuSize (maxPayload : ℕ) (r : List UInt8) : FrameSize :=
  if r.length < vfuHdrSize then .more
  else
    let size := (wordAt r 1).toNat
    if size < vfuHdrSize then .bad
    else if size - vfuHdrSize > maxPayload then .bad
    else if r.length < size then .more
    else .frame size

/-- What a message finds when it is handled: the file descriptors that come with it, the error of
    `mmap` if it fails, the memory of the guest, and what is left in the buffer of the payload. -/
structure VfuInput where
  fds : List ℕ
  mmapError : Option UInt32
  mem : ℕ → Buffer
  stack : Buffer

/-- A message to be handled. -/
structure VfuMsg extends VfuInput where
  bytes : List UInt8

namespace VfuMsg

variable (msg : VfuMsg)

/-- The buffer of the payload. -/
def payload : Buffer := fun k =>
  if k + vfuHdrSize < msg.bytes.length then msg.bytes.getD (k + vfuHdrSize) 0 else msg.stack k

/-- The first of the file descriptors. -/
def fd : Option ℕ := msg.fds.head?

/-- Whether the message is to be answered. -/
def expectsReply : Bool := vfuFlags msg.bytes &&& 0x10 = 0

/-- The message as one about a region. -/
def region : RegionMsg := ⟨msg.payload, msg.bytes.length - vfuHdrSize⟩

end VfuMsg

/-- An answer: an error or zero, and the payload. -/
structure VfuReply where
  error : UInt32
  payload : List UInt8

/-- The bytes of an answer to a message (`vfu_send_msg`). They are all taken to be sent: that the
    socket fails or takes only some of them is not modelled. -/
def VfuReply.bytes (reply : VfuReply) (msg : VfuMsg) : List UInt8 :=
  wordBytes (vfuId msg.bytes) ++ wordBytes (UInt32.ofNat (vfuHdrSize + reply.payload.length)) ++
    wordBytes 0x1 ++ wordBytes reply.error ++ reply.payload

/-- The answer that all is well (`vfu_send_reply`). -/
def VfuReply.ok (payload : List UInt8) : VfuReply := ⟨0, payload⟩

/-- The answer that there is an error (`vfu_send_error`). -/
def VfuReply.fail (error : UInt32) : VfuReply := ⟨error, []⟩

/-- The two words of a long one. -/
def longBytes (x : UInt64) : List UInt8 := wordBytes x.toUInt32 ++ wordBytes (x >>> 32).toUInt32

/-- The payload of the answer to a message that reads a region. -/
def RegionReply.payload (r : RegionReply) : List UInt8 :=
  longBytes r.offset ++ wordBytes r.region ++ wordBytes r.count ++ r.data.bytes (r.size.toNat - 16)

/-! ## The back end -/

/-- The configuration space of PCI at first (`init_pci_config`). -/
def initPciConfig : Buffer :=
  bufferOf ([0x36, 0x1B, 0x10, 0x00, 0x06, 0x00, 0x10, 0x00, 0x01, 0x02, 0x08, 0x01, 0x10] ++
    List.replicate 3 0 ++ wordBytes 0xFFFF000C ++ List.replicate 20 0 ++
    [0x36, 0x1B, 0x10, 0x00] ++ List.replicate 8 0 ++ [0x40] ++ List.replicate 7 0 ++
    [0xFF, 0x01, 0x00, 0x00, 0x11, 0x00, 0x00, 0x00] ++ wordBytes 0x2000 ++ wordBytes 0x3000)

/-- The back end, with the file descriptors that it holds: those of the regions of the guest, and
    the one to interrupt the guest with. -/
structure VfuServer where
  device : VfioDevice
  table : RegionTable
  dmaFds : ℕ → Option ℕ
  msixEvtfd : Option ℕ
  /-- The file descriptors that have been closed (ghost). -/
  closed : List ℕ

namespace VfuServer

variable (s : VfuServer) (msg : VfuMsg)

/-- Closes a file descriptor, if there is one. -/
def close (fd : Option ℕ) : VfuServer := { s with closed := s.closed ++ fd.toList }

/-- Closes the file descriptor for interrupts. -/
def closeEvtfd : VfuServer := { s.close s.msixEvtfd with msixEvtfd := none }

/-- Resets the queues, the registers and the configuration space. -/
def resetDevice : VfuServer :=
  { s with device := { s.device with
      vfio := { s.device.vfio with queues := fun _ => VfioQueue.absent }
      nvmeRegs := initNvmeRegs
      pciConfig := initPciConfig
      msixEnabled := false } }

/-- Resets the device (`handle_set_reset`). -/
def handleSetReset : VfuReply × VfuServer := (.ok [], s.resetDevice.closeEvtfd)

/-- Maps a region of the guest (`handle_dma_map`). -/
def handleDmaMap : VfuReply × VfuServer :=
  let r : Region := ⟨msg.payload.le64 16, msg.payload.le64 24⟩
  if s.table.count ≥ maxRegions then (.fail 12, s.close msg.fd)
  else
    match msg.mmapError with
    | some errno => (.fail errno, s.close msg.fd)
    | none =>
      (.ok [], { s with
        table := (Vfio.dmaMap s.table r true).2
        dmaFds := Function.update s.dmaFds s.table.count msg.fd })

/-- Unmaps a region of the guest (`handle_dma_unmap`). -/
def handleDmaUnmap : VfuReply × VfuServer :=
  let r : Region := ⟨msg.payload.le64 8, msg.payload.le64 16⟩
  match (List.range s.table.count).find? fun i => decide (s.table.regions i = r) with
  | none => (.ok [], s)
  | some i =>
    let last := s.table.count - 1
    (.ok [], { s.close (s.dmaFds i) with
      table := Vfio.dmaUnmap s.table r
      dmaFds := if i < last then Function.update s.dmaFds i (s.dmaFds last)
        else Function.update s.dmaFds i none })

/-- The answer about the device (`handle_device_get_info`). -/
def handleDeviceGetInfo : VfuReply := .ok ([20, 2, 9, 3, 0].flatMap wordBytes)

/-- The answer about a region (`handle_device_get_region_info`). -/
def handleDeviceGetRegionInfo : VfuReply :=
  let index := msg.payload.le32 8
  let size : UInt64 := if index = 0 then 65536 else if index = 7 then 256 else 0
  .ok ([32, 0, index, 0].flatMap wordBytes ++ longBytes size ++ longBytes 0)

/-- The answer about an interrupt (`handle_device_get_irq_info`). -/
def handleDeviceGetIrqInfo : VfuReply :=
  let index := msg.payload.le32 8
  let count : UInt32 := if index = 0 then 1 else if index = 1 then 0 else if index = 2 then 1 else 0
  .ok ([16, 0, index, count].flatMap wordBytes)

/-- Sets the file descriptor to interrupt the guest with (`handle_device_set_irqs`). -/
def handleDeviceSetIrqs : VfuReply × VfuServer :=
  let index := msg.payload.le32 8
  let isEventfd := msg.payload.le32 4 &&& 0x4 ≠ 0
  -- Only MSI-X is used. The descriptors of the other kinds are closed at once.
  if index = 0 ∨ index = 1 then (.ok [], s.close msg.fd)
  else if index ≠ 2 then (.fail 22, s.close msg.fd)
  else if isEventfd then (.ok [], { s.closeEvtfd with msixEvtfd := msg.fd })
  else (.ok [], s.closeEvtfd.close msg.fd)

/-- Handles a message (`dispatch_message`). The fuel is that of the doorbells. -/
def dispatch (fuel : ℕ) (info : Ctrl → Command → Buffer) : Option (VfuReply × VfuServer) :=
  let s := { s with device.vfio.guest := s.table.guest msg.mem }
  if vfuCommand msg.bytes = 1 then some (.ok (wordBytes 0), s)
  else if vfuCommand msg.bytes = 13 then some s.handleSetReset
  else if vfuCommand msg.bytes = 2 then some (s.handleDmaMap msg)
  else if vfuCommand msg.bytes = 3 then some (s.handleDmaUnmap msg)
  else if vfuCommand msg.bytes = 4 then some (handleDeviceGetInfo, s)
  else if vfuCommand msg.bytes = 5 then some (handleDeviceGetRegionInfo msg, s)
  else if vfuCommand msg.bytes = 6 then some (.ok ([16, 0, 0, 0].flatMap wordBytes), s)
  else if vfuCommand msg.bytes = 7 then some (handleDeviceGetIrqInfo msg, s)
  else if vfuCommand msg.bytes = 8 then some (s.handleDeviceSetIrqs msg)
  else if vfuCommand msg.bytes = 9 then
    let r := s.device.handleRegionRead msg.region
    some (.ok r.2.1.payload, { s with device := r.2.2 })
  else if vfuCommand msg.bytes = 10 then
    (s.device.handleRegionWrite fuel info msg.region).2.map fun d =>
      (.ok [], { s with device := d })
  -- Accesses of the device to memory are for the other side, and are just answered.
  else if vfuCommand msg.bytes = 11 ∨ vfuCommand msg.bytes = 12 then some (.ok [], s)
  else some (.fail 22, s)

end VfuServer

namespace VfuServer

/-- The guest is gone (`close_connection`): nothing is mapped any more, and nothing held. -/
def closeConnection (s : VfuServer) : VfuServer :=
  let fds := (List.range s.table.count).flatMap fun i => (s.dmaFds i).toList
  { s.resetDevice with
    table := s.table.clear
    dmaFds := fun i => if i < s.table.count then none else s.dmaFds i
    msixEvtfd := none
    closed := s.closed ++ fds ++ s.msixEvtfd.toList }

end VfuServer

/-! ## Connections -/

/-- The connection to a guest: what has arrived and has not been handled, and the answers sent. -/
structure VfuConn where
  server : VfuServer
  connected : Bool
  pending : List UInt8
  sent : List (List UInt8)
  /-- All bytes that have arrived (ghost). -/
  stream : List UInt8
  /-- The messages that have been handled (ghost). -/
  handled : List VfuMsg
  /-- The file descriptors that have come (ghost). -/
  given : List ℕ

/-- What happens: a guest connects, bytes arrive, the back end looks at them
    (`handle_connection_messages`), or finds that the guest is gone. -/
inductive VfuCall
  | connect
  | arrive (bytes : List UInt8)
  | process (input : VfuInput)
  | hangUp

namespace VfuConn

/-- The back end at first (`vfio_user_nvme_init`). -/
def init (device : VfioDevice) : VfuConn where
  server := ⟨device, RegionTable.init, fun _ => none, none, []⟩
  connected := false
  pending := []
  sent := []
  stream := []
  handled := []
  given := []

variable (c : VfuConn)

/-- The message that has been received is answered, if it is to be. -/
def answer (msg : VfuMsg) (reply : VfuReply) : VfuConn :=
  { c with sent := c.sent ++ if msg.expectsReply then [reply.bytes msg] else [] }

/-- Handles the message at the start of what has arrived. If there is no whole message, the
    connection is closed; the file descriptors are lost if not even the header has arrived. -/
def receive (fuel : ℕ) (info : Ctrl → Command → Buffer) (input : VfuInput) : Option VfuConn :=
  match vfuSize vfuMaxPayloadSize c.pending with
  | .frame n =>
    let msg : VfuMsg := ⟨input, c.pending.take n⟩
    (c.server.dispatch msg fuel info).map fun r =>
      { c with
        server := r.2
        pending := c.pending.drop n
        handled := c.handled ++ [msg]
        given := c.given ++ input.fds }.answer msg r.1
  | _ =>
    -- Without a header the descriptors are nowhere to be found, otherwise they are closed.
    let server := if c.pending.length < vfuHdrSize then c.server
      else { c.server with closed := c.server.closed ++ input.fds }
    some { c with
      server := server.closeConnection
      connected := false
      given := c.given ++ input.fds }

/-- Executes a call. -/
def exec (fuel : ℕ) (info : Ctrl → Command → Buffer) : VfuCall → Option VfuConn
  | .connect =>
    some (if c.connected then c
      else { c with connected := true, pending := [], sent := [], stream := [], handled := [] })
  | .arrive bytes =>
    some (if c.connected then { c with pending := c.pending ++ bytes, stream := c.stream ++ bytes }
      else c)
  | .process input =>
    if c.connected = true ∧ c.pending ≠ [] then c.receive fuel info input else some c
  | .hangUp =>
    some (if c.connected then { c with server := c.server.closeConnection, connected := false }
      else c)

/-- The back end as a machine. -/
def machine (info : Ctrl → Command → Buffer) : Machine VfuConn VfuCall Unit where
  step c call _ c' := ∃ fuel, c.exec fuel info call = some c'

end VfuConn

end Nvme

end FtlFirmware
