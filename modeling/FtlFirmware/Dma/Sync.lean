import FtlFirmware.Dma.Basic
import FtlFirmware.Thread.Basic

/-!
# Synchronous transfers

The channels of the DMA controller with the threads that make its transfers (`DmaSystem`), for a
caller who allocates a channel, waits for the end of the transfer, and frees the channel again
(`transferSync`). Meanwhile nobody else uses the channel, and the thread of the transfer runs to its
end before the time is over.
-/

namespace FtlFirmware

/-- A channel (`dma_channel_priv_t`). -/
structure DmaChannel where
  state : DmaState
  desc : DmaDesc
  transferred : UInt32
  isAllocated : Bool
  threadId : UInt32

/-- The number of channels. -/
abbrev dmaMaxChannels : ℕ := 8

/-- The controller, and the memory of the buffers. -/
structure DmaController where
  initialized : Bool
  channels : ℕ → DmaChannel
  mem : ℕ → UInt8

/-- The entry functions of threads, with their arguments: the transfer of a channel, and those of
    other modules. -/
inductive ThreadFunc
  | dmaTransfer (channel : ℕ)
  | other (func arg : ℕ)
  deriving DecidableEq, Repr

namespace DmaDesc

/-- The loop of a transfer: as long as bytes remain, it copies a chunk, counts it, and moves the
    addresses on. -/
def transferLoop (d : DmaDesc) (p : Progress) (transferred : UInt32) (mem : ℕ → UInt8) :
    UInt32 × (ℕ → UInt8) :=
  if 0 < p.remaining then
    let n := min p.remaining chunkSize
    d.transferLoop
      { src := if d.srcIncrement then p.src + n else p.src
        dst := if d.dstIncrement then p.dst + n else p.dst
        remaining := p.remaining - n }
      (transferred + n.toUInt32)
      (if p.src ≠ 0 ∧ p.dst ≠ 0 then memcpy mem p.dst p.src n else mem)
  else (transferred, mem)
termination_by p.remaining
decreasing_by
  have hchunk : chunkSize = 4096 := rfl
  omega

end DmaDesc

namespace DmaController

variable (d : DmaController)

/-- The controller with another channel. -/
def setChannel (ch : ℕ) (c : DmaChannel) : DmaController :=
  { d with channels := Function.update d.channels ch c }

/-- A transfer from its beginning to its end (`dma_transfer_thread`). -/
def transferThread (ch : ℕ) : DmaController :=
  let c := d.channels ch
  if c.state ≠ .ready then d
  else
    let (transferred, mem) :=
      c.desc.transferLoop ⟨c.desc.srcAddr, c.desc.dstAddr, c.desc.length.toNat⟩ 0 d.mem
    { d.setChannel ch { c with state := .complete, transferred } with mem }

/-- What a thread does to the controller. -/
def call : ThreadFunc → DmaController → DmaController
  | .dmaTransfer ch, d => d.transferThread ch
  | .other _ _, d => d

end DmaController

/-- The controller with the thread manager. -/
structure DmaSystem where
  manager : ThreadManager ThreadFunc
  dma : DmaController

namespace DmaSystem

/-- A channel after `dma_init`. -/
def idleChannel : DmaChannel := ⟨.idle, ⟨0, 0, 0, false, false⟩, 0, false, 0⟩

variable (s : DmaSystem)

/-- `dma_init`. -/
def init : DmaSystem :=
  if s.dma.initialized then s
  else
    { manager := s.manager.init
      dma := { s.dma with initialized := true, channels := fun _ => idleChannel } }

/-- A channel of the controller. -/
def channel (ch : ℕ) : DmaChannel := s.dma.channels ch

/-- The system with another channel. -/
def setChannel (ch : ℕ) (c : DmaChannel) : DmaSystem := { s with dma := s.dma.setChannel ch c }

/-- Allocates the first channel that is free (`dma_alloc_channel`). -/
def allocChannel : Option ℕ × DmaSystem :=
  if !s.dma.initialized then (none, s)
  else
    match Pool.firstFree (fun i => (s.channel i).isAllocated) dmaMaxChannels with
    | none => (none, s)
    | some ch =>
      (some ch,
        s.setChannel ch { s.channel ch with isAllocated := true, state := .idle, transferred := 0 })

/-- The checks that the functions begin with, on their channel. -/
def check (ch : ℕ) (body : RetCode × DmaSystem) : RetCode × DmaSystem :=
  if !s.dma.initialized then (.errNotInit, s)
  else if dmaMaxChannels ≤ ch then (.errParam, s)
  else if !(s.channel ch).isAllocated then (.errParam, s)
  else body

/-- Waits for the thread of a channel, which is then forgotten. -/
def joinThread (ch : ℕ) : DmaSystem :=
  if (s.channel ch).threadId ≠ 0 then
    let (_, manager, dma) :=
      ThreadManager.join DmaController.call (s.channel ch).threadId s.manager s.dma
    { manager, dma := dma.setChannel ch { dma.channels ch with threadId := 0 } }
  else s

/-- Stops a transfer (`dma_stop_transfer`). -/
def stopTransfer (ch : ℕ) : RetCode × DmaSystem :=
  s.check ch
    (.ok, (s.setChannel ch { s.channel ch with state := Dma.abort (s.channel ch).state }).joinThread
      ch)

/-- Frees a channel (`dma_free_channel`). -/
def freeChannel (ch : ℕ) : RetCode × DmaSystem :=
  s.check ch
    (let s := if (s.channel ch).state = .running ∨ (s.channel ch).state = .paused then
        (s.stopTransfer ch).2 else s
     (.ok, s.setChannel ch { s.channel ch with isAllocated := false, state := .idle }))

/-- Configures a channel (`dma_config_channel`). -/
def configChannel (ch : ℕ) (desc : DmaDesc) : RetCode × DmaSystem :=
  s.check ch
    (if (s.channel ch).state = .running then (.errBusy, s)
    else (.ok, s.setChannel ch { s.channel ch with desc, state := .ready, transferred := 0 }))

/-- Resumes a transfer (`dma_resume_transfer`). -/
def resumeTransfer (ch : ℕ) : RetCode × DmaSystem :=
  s.check ch
    (if (s.channel ch).state ≠ .paused then (.errInternal, s)
    else (.ok, s.setChannel ch { s.channel ch with state := .running }))

/-- Starts a transfer (`dma_start_transfer`), in a thread of its own. -/
def startTransfer (ch : ℕ) : RetCode × DmaSystem :=
  s.check ch
    (if (s.channel ch).state ≠ .ready ∧ (s.channel ch).state ≠ .paused then (.errBusy, s)
    else if (s.channel ch).state = .paused then s.resumeTransfer ch
    else
      let (threadId, manager) := s.manager.create (.dmaTransfer ch)
      if threadId = 0 then
        (.errInternal, { s with manager }.setChannel ch
          { s.channel ch with threadId := threadId, state := .error })
      else
        let (ret, manager) := manager.start threadId
        (ret, { s with manager }.setChannel ch { s.channel ch with threadId := threadId }))

/-- The transfer has not come to its end. -/
def pending (ch : ℕ) : Prop :=
  (s.channel ch).state = .ready ∨ (s.channel ch).state = .running ∨ (s.channel ch).state = .paused

instance (ch : ℕ) : Decidable (s.pending ch) := inferInstanceAs (Decidable (_ ∨ _))

/-- While somebody waits for a transfer, its thread runs to its end. -/
def poll (ch : ℕ) : DmaSystem :=
  match s.manager.findThreadById (s.channel ch).threadId with
  | none => s
  | some slot =>
    let (manager, dma) := ThreadManager.runThread DmaController.call slot s.manager s.dma
    { manager, dma }

/-- Waits for the end of a transfer (`dma_wait_complete`). -/
def waitComplete (ch : ℕ) : RetCode × DmaSystem :=
  s.check ch
    (let s := if s.pending ch then s.poll ch else s
     if s.pending ch then (.errTimeout, s) else (.ok, s.joinThread ch))

/-- A synchronous transfer (`dma_transfer_sync`), with the number of bytes that it stores for its
    caller. -/
def transferSync (desc : DmaDesc) : RetCode × Option UInt32 × DmaSystem :=
  if !s.dma.initialized then (.errNotInit, none, s)
  else
    match s.allocChannel with
    | (none, s) => (.errNoSpace, none, s)
    | (some ch, s) =>
      match s.configChannel ch desc with
      | (.ok, s) =>
        match s.startTransfer ch with
        | (.ok, s) =>
          let (ret, s) := s.waitComplete ch
          (ret, some (s.channel ch).transferred, (s.freeChannel ch).2)
        | (ret, s) => (ret, none, (s.freeChannel ch).2)
      | (ret, s) => (ret, none, (s.freeChannel ch).2)

/-- Synchronous transfers, one after another, with what each of them answers. -/
def transfers : List DmaDesc → DmaSystem → List (RetCode × Option UInt32) × DmaSystem
  | [], s => ([], s)
  | desc :: descs, s =>
    let (ret, transferred, s) := s.transferSync desc
    let (answers, s) := transfers descs s
    ((ret, transferred) :: answers, s)

end DmaSystem

end FtlFirmware
