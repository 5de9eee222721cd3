import FtlFirmware.Common
import FtlFirmware.Lib.Run

/-!
# The DMA controller

A channel of the DMA controller (`Dma`). A transfer is made by a thread of its own (`DmaThread`),
while the functions of the controller are called by any number of callers (`DmaCaller`). All of them
go on in any order, one step at a time: a step is what is done under the lock of the channel at a
time, or an access to one of its fields outside of it.

The other channels, and the rest of the program, write the memory of the buffers (`DmaStep.store`).
-/

namespace FtlFirmware

/-- A descriptor of a transfer (`dma_transfer_desc_t`). The address zero is the null pointer. -/
structure DmaDesc where
  srcAddr : ℕ
  dstAddr : ℕ
  length : UInt32
  srcIncrement : Bool
  dstIncrement : Bool

/-- The states of a channel (`dma_ch_state_t`). -/
inductive DmaState
  | idle
  | ready
  | running
  | paused
  | complete
  | error
  deriving DecidableEq, Repr

/-- The local variables of a transfer thread. -/
structure Progress where
  src : ℕ
  dst : ℕ
  remaining : ℕ
  deriving DecidableEq, Repr

/-- Where a transfer thread is (`dma_transfer_thread`). It has been created or started; it looks at
    the state, copies `n` bytes, counts them, and moves its addresses on; it leaves the loop, and
    finishes. -/
inductive DmaThread
  | created
  | started
  | checking (p : Progress)
  | copying (p : Progress)
  | counting (p : Progress) (n : ℕ)
  | movingSrc (p : Progress) (n : ℕ)
  | movingDst (p : Progress) (n : ℕ)
  | leaving (p : Progress)
  | finished
  deriving DecidableEq, Repr

/-- The functions of the controller. -/
inductive DmaCall
  | allocChannel
  | freeChannel
  | configChannel (desc : DmaDesc)
  | startTransfer
  | stopTransfer
  | pauseTransfer
  | resumeTransfer

/-- Where a caller is in a function: the step that is next. A transfer can be stopped by itself, or
    because its channel is freed (`free`). -/
inductive DmaCaller
  | idle
  | allocTest
  | allocMark
  | allocState
  | allocReset
  | freeTest
  | freeRunning
  | freePaused
  | freeMark
  | freeState
  | configTest (desc : DmaDesc)
  | configBusy (desc : DmaDesc)
  | configCopy (desc : DmaDesc) (field : ℕ)
  | configState
  | configReset
  | startTest
  | startReady
  | startPaused
  | startResume
  | startCreate
  | startAssign (thread : ℕ)
  | startCreated
  | startError
  | startThread
  | stopTest (free : Bool)
  | stopLock (free : Bool)
  | stopThread (free : Bool)
  | stopJoin (free : Bool)
  | stopClear (free : Bool)
  | pauseTest
  | pauseRunning
  | pauseLock
  | resumeTest
  | resumePaused
  | resumeLock

/-- A channel (`dma_channel_priv_t`), with the memory, its threads, and the callers. -/
structure Dma where
  isAllocated : Bool
  state : DmaState
  desc : DmaDesc
  transferred : ℕ
  threadId : ℕ
  mem : ℕ → UInt8
  threads : ℕ → Option DmaThread
  nextThread : ℕ
  callers : ℕ → DmaCaller

/-- What happens next: a caller calls a function, or goes on in it (with the outcome of creating a
    thread), a thread goes on, or the memory is written. -/
inductive DmaStep
  | call (i : ℕ) (c : DmaCall)
  | advance (i : ℕ) (created : Bool)
  | run (thread : ℕ)
  | store (mem : ℕ → UInt8)

/-- The number of fields of a descriptor. -/
abbrev descFields : ℕ := 5

/-- Copies a field of a descriptor. -/
def DmaDesc.copyField (d new : DmaDesc) : ℕ → DmaDesc
  | 0 => { d with srcAddr := new.srcAddr }
  | 1 => { d with dstAddr := new.dstAddr }
  | 2 => { d with length := new.length }
  | 3 => { d with srcIncrement := new.srcIncrement }
  | _ => { d with dstIncrement := new.dstIncrement }

/-- Copies bytes of the memory. -/
def memcpy (mem : ℕ → UInt8) (dst src n : ℕ) : ℕ → UInt8 := fun k =>
  if dst ≤ k ∧ k < dst + n then mem (src + (k - dst)) else mem k

/-- The bytes copied at a time. -/
abbrev chunkSize : ℕ := 4096

/-- The first step of a function. -/
def DmaCall.begin : DmaCall → DmaCaller
  | .allocChannel => .allocTest
  | .freeChannel => .freeTest
  | .configChannel desc => .configTest desc
  | .startTransfer => .startTest
  | .stopTransfer => .stopTest false
  | .pauseTransfer => .pauseTest
  | .resumeTransfer => .resumeTest

namespace Dma

/-- A channel after `dma_init`. -/
def init (mem : ℕ → UInt8) : Dma where
  isAllocated := false
  state := .idle
  desc := ⟨0, 0, 0, false, false⟩
  transferred := 0
  threadId := 0
  mem := mem
  threads _ := none
  nextThread := 1
  callers _ := .idle

variable (s : Dma)

/-! ## Transfer threads -/

/-- A thread is at another place. -/
def setThread (t : ℕ) (thread : DmaThread) : Dma :=
  { s with threads := Function.update s.threads t (some thread) }

/-- The end of the loop: it goes on as long as bytes remain. -/
def loop (p : Progress) : DmaThread := if p.remaining = 0 then .leaving p else .checking p

/-- A transfer thread goes on (`dma_transfer_thread`). While the transfer is paused, it looks at the
    state again and again. -/
def runThread (t : ℕ) : DmaThread → Option Dma
  | .created => none
  | .started =>
    -- The first look at the state. The channel may have been stopped in between.
    if s.state = .ready then
      let p : Progress := ⟨s.desc.srcAddr, s.desc.dstAddr, s.desc.length.toNat⟩
      some ({ s with state := .running, transferred := 0 }.setThread t (loop p))
    else some (s.setThread t .finished)
  | .checking p =>
    if s.state = .paused then some s
    else if s.state = .running then some (s.setThread t (.copying p))
    else some (s.setThread t (.leaving p))
  | .copying p =>
    let n := min p.remaining chunkSize
    -- A null address means that nothing is copied, though the bytes are counted.
    let mem := if p.src ≠ 0 ∧ p.dst ≠ 0 then memcpy s.mem p.dst p.src n else s.mem
    some ({ s with mem := mem }.setThread t (.counting p n))
  | .counting p n =>
    some ({ s with transferred := (s.transferred + n) % 2 ^ 32 }.setThread t (.movingSrc p n))
  | .movingSrc p n =>
    let src := if s.desc.srcIncrement then p.src + n else p.src
    some (s.setThread t (.movingDst { p with src := src } n))
  | .movingDst p n =>
    let dst := if s.desc.dstIncrement then p.dst + n else p.dst
    some (s.setThread t (loop { p with dst := dst, remaining := p.remaining - n }))
  | .leaving _ =>
    -- Only a transfer that still runs becomes complete: a channel in error stays so.
    let state := if s.state = .running then .complete else s.state
    some ({ s with state := state }.setThread t .finished)
  | .finished => none

/-! ## Callers -/

/-- A caller is at another step. -/
def goto (i : ℕ) (c : DmaCaller) : Dma := { s with callers := Function.update s.callers i c }

/-- A function goes on. -/
def next (i : ℕ) (c : DmaCaller) : Option (Option RetCode × Dma) := some (none, s.goto i c)

/-- A function returns. -/
def ret (i : ℕ) (code : RetCode) : Option (Option RetCode × Dma) := some (some code, s.goto i .idle)

/-- The end of stopping a transfer: when a channel is freed, it goes on there. -/
def stopped (i : ℕ) (free : Bool) (code : RetCode) : Option (Option RetCode × Dma) :=
  if free then s.next i .freeMark else s.ret i code

/-- Aborting a transfer that is running or paused. -/
def abort : DmaState → DmaState
  | .running | .paused => .error
  | state => state

/-- Waiting for a thread ends: it does not exist, has not been started, or has finished. -/
def Joinable : Option DmaThread → Prop
  | none | some .created | some .finished => True
  | _ => False

instance : (thread : Option DmaThread) → Decidable (Joinable thread)
  | none | some .created | some .finished => isTrue trivial
  | some .started | some (.checking _) | some (.copying _) | some (.counting _ _)
  | some (.movingSrc _ _) | some (.movingDst _ _) | some (.leaving _) => isFalse id

/-- A caller goes on. -/
def advance (i : ℕ) (created : Bool) : Option (Option RetCode × Dma) :=
  match s.callers i with
  | .idle => none
  -- `dma_alloc_channel`
  | .allocTest => if s.isAllocated then s.ret i .errNoSpace else s.next i .allocMark
  | .allocMark => { s with isAllocated := true }.next i .allocState
  | .allocState => { s with state := .idle }.next i .allocReset
  | .allocReset => { s with transferred := 0 }.ret i .ok
  -- `dma_free_channel`
  | .freeTest => if !s.isAllocated then s.ret i .errParam else s.next i .freeRunning
  | .freeRunning =>
    if s.state = .running then s.next i (.stopTest true) else s.next i .freePaused
  | .freePaused => if s.state = .paused then s.next i (.stopTest true) else s.next i .freeMark
  | .freeMark => { s with isAllocated := false }.next i .freeState
  | .freeState => { s with state := .idle }.ret i .ok
  -- `dma_config_channel`
  | .configTest desc => if !s.isAllocated then s.ret i .errParam else s.next i (.configBusy desc)
  | .configBusy desc =>
    if s.state = .running then s.ret i .errBusy else s.next i (.configCopy desc 0)
  | .configCopy desc field =>
    { s with desc := s.desc.copyField desc field }.next i
      (if field + 1 < descFields then .configCopy desc (field + 1) else .configState)
  | .configState => { s with state := .ready }.next i .configReset
  | .configReset => { s with transferred := 0 }.ret i .ok
  -- `dma_start_transfer`
  | .startTest => if !s.isAllocated then s.ret i .errParam else s.next i .startReady
  | .startReady => if s.state ≠ .ready then s.next i .startPaused else s.next i .startResume
  | .startPaused => if s.state ≠ .paused then s.ret i .errBusy else s.next i .startResume
  | .startResume => if s.state = .paused then s.next i .resumeTest else s.next i .startCreate
  | .startCreate =>
    if created then
      { s.setThread s.nextThread .created with nextThread := s.nextThread + 1 }.next i
        (.startAssign s.nextThread)
    else s.next i (.startAssign 0)
  | .startAssign thread => { s with threadId := thread }.next i .startCreated
  | .startCreated => if s.threadId = 0 then s.next i .startError else s.next i .startThread
  | .startError => { s with state := .error }.ret i .errInternal
  | .startThread =>
    match s.threads s.threadId with
    | some .created =>
      if created then (s.setThread s.threadId .started).ret i .ok
      else (s.setThread s.threadId .finished).ret i .errInternal
    | none => s.ret i .errParam
    | _ => s.ret i .errInternal
  -- `dma_stop_transfer`
  | .stopTest free =>
    if !s.isAllocated then s.stopped i free .errParam else s.next i (.stopLock free)
  | .stopLock free => { s with state := abort s.state }.next i (.stopThread free)
  | .stopThread free =>
    if s.threadId ≠ 0 then s.next i (.stopJoin free) else s.stopped i free .ok
  | .stopJoin free =>
    if Joinable (s.threads s.threadId) then s.next i (.stopClear free) else none
  | .stopClear free => { s with threadId := 0 }.stopped i free .ok
  -- `dma_pause_transfer`
  | .pauseTest => if !s.isAllocated then s.ret i .errParam else s.next i .pauseRunning
  | .pauseRunning => if s.state ≠ .running then s.ret i .errInternal else s.next i .pauseLock
  | .pauseLock => { s with state := .paused }.ret i .ok
  -- `dma_resume_transfer`
  | .resumeTest => if !s.isAllocated then s.ret i .errParam else s.next i .resumePaused
  | .resumePaused => if s.state ≠ .paused then s.ret i .errInternal else s.next i .resumeLock
  | .resumeLock => { s with state := .running }.ret i .ok

/-! ## The machine -/

/-- What happens next. A function that returns answers a code. -/
def exec (s : Dma) : DmaStep → Option (Option RetCode × Dma)
  | .call i c => match s.callers i with
    | .idle => s.next i c.begin
    | _ => none
  | .advance i created => s.advance i created
  | .run t => (s.threads t).bind fun thread => (s.runThread t thread).map fun s => (none, s)
  | .store mem => some (none, { s with mem := mem })

/-- The channel as a machine. -/
def machine : Machine Dma DmaStep (Option RetCode) where
  step s c a s' := s.exec c = some (a, s')

end Dma

end FtlFirmware
