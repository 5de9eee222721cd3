import FtlFirmware.Dma.Transfer

/-!
# Waiting for the end of a transfer

A channel with its *owner*, the caller `0`, who allocates, configures and starts it, and waits for
the end of its transfer (`dma_wait_complete`) or makes a whole transfer at once
(`dma_transfer_sync`). Meanwhile other callers pause, resume and stop the transfer
(`DmaCall.Concurrent`). The steps of all of them, and of the threads, go on in any order
(`OwnedDma.exec`); a loop that waits reads the state once for each comparison.
-/

namespace FtlFirmware

/-- Where the owner of a channel is: in one of the functions that `Dma.callers` follows (`free`), in
    such a function on behalf of a synchronous transfer of a descriptor, or waiting for the end of a
    transfer, which may be a synchronous one. -/
inductive DmaOwner
  | free
  | allocating (desc : DmaDesc)
  | configuring (desc : DmaDesc)
  | starting (desc : DmaDesc)
  | waitTest (sync : Option DmaDesc)
  | waitReady (sync : Option DmaDesc)
  | waitRunning (sync : Option DmaDesc)
  | waitPaused (sync : Option DmaDesc)
  | waitClock (sync : Option DmaDesc)
  | waitThread (sync : Option DmaDesc)
  | waitJoin (sync : Option DmaDesc)
  | waitClear (sync : Option DmaDesc)
  | reading (desc : DmaDesc) (ret : RetCode)
  | freeing (desc : DmaDesc) (ret : RetCode) (transferred : Option ℕ)

/-- The functions that others call during a transfer. -/
def DmaCall.Concurrent : DmaCall → Prop
  | .stopTransfer | .pauseTransfer | .resumeTransfer => True
  | _ => False

instance : (c : DmaCall) → Decidable c.Concurrent
  | .stopTransfer | .pauseTransfer | .resumeTransfer => isTrue trivial
  | .allocChannel | .freeChannel | .configChannel _ | .startTransfer => isFalse id

/-- A channel and its owner. -/
structure OwnedDma where
  dma : Dma
  owner : DmaOwner

/-- What happens next: a caller calls a function, or goes on in it, or a thread goes on; the owner
    waits, or makes a synchronous transfer, or goes on in waiting (`late`: the time is over). -/
inductive DmaAction
  | call (i : ℕ) (c : DmaCall)
  | advance (i : ℕ) (created : Bool)
  | run (thread : ℕ)
  | waitComplete
  | transferSync (desc : DmaDesc)
  | wait (late : Bool)

/-- An answer: a code, and the number of bytes transferred if it is that of a synchronous transfer
    which has waited. -/
abbrev DmaAnswer := Option (RetCode × Option ℕ)

namespace OwnedDma

/-- A channel after `dma_init`. -/
def init (mem : ℕ → UInt8) : OwnedDma := ⟨Dma.init mem, .free⟩

variable (s : OwnedDma)

/-- The owner goes on elsewhere. -/
def goto (owner : DmaOwner) : Option (DmaAnswer × OwnedDma) := some (none, { s with owner })

/-- A function is called by the owner. -/
def begin (c : DmaCall) (owner : DmaOwner) : OwnedDma := ⟨s.dma.goto 0 c.begin, owner⟩

/-- A function that the owner has called returns: a synchronous transfer goes on to its next part
    (`dma_transfer_sync`). -/
def returned (code : RetCode) : DmaAnswer × OwnedDma :=
  match s.owner with
  | .allocating desc =>
    if code = .ok then (none, s.begin (.configChannel desc) (.configuring desc))
    else (some (.errNoSpace, none), { s with owner := .free })
  | .configuring desc =>
    if code = .ok then (none, s.begin .startTransfer (.starting desc))
    else (none, s.begin .freeChannel (.freeing desc code none))
  | .starting desc =>
    if code = .ok then (none, { s with owner := .waitTest (some desc) })
    else (none, s.begin .freeChannel (.freeing desc code none))
  | .freeing _ ret transferred => (some (ret, transferred), { s with owner := .free })
  | _ => (some (code, none), s)

/-- Waiting ends. -/
def waited (sync : Option DmaDesc) (ret : RetCode) : Option (DmaAnswer × OwnedDma) :=
  match sync with
  | none => some (some (ret, none), { s with owner := .free })
  | some desc => s.goto (.reading desc ret)

/-- The owner goes on in waiting (`dma_wait_complete`), or reads the number of bytes transferred
    (`dma_transfer_sync`). -/
def wait (late : Bool) : Option (DmaAnswer × OwnedDma) :=
  match s.owner with
  | .waitTest sync => if !s.dma.isAllocated then s.waited sync .errParam else s.goto (.waitReady sync)
  -- The state is read once for each of the three values that it is compared to.
  | .waitReady sync =>
    if s.dma.state = .ready then s.goto (.waitClock sync) else s.goto (.waitRunning sync)
  | .waitRunning sync =>
    if s.dma.state = .running then s.goto (.waitClock sync) else s.goto (.waitPaused sync)
  | .waitPaused sync =>
    if s.dma.state = .paused then s.goto (.waitClock sync) else s.goto (.waitThread sync)
  | .waitClock sync => if late then s.waited sync .errTimeout else s.goto (.waitReady sync)
  | .waitThread sync =>
    if s.dma.threadId ≠ 0 then s.goto (.waitJoin sync) else s.waited sync .ok
  -- The thread is joined when it has come to its end.
  | .waitJoin sync =>
    if Dma.Joinable (s.dma.threads s.dma.threadId) then s.goto (.waitClear sync) else none
  | .waitClear sync => { s with dma := { s.dma with threadId := 0 } }.waited sync .ok
  | .reading desc ret =>
    some (none, s.begin .freeChannel (.freeing desc ret (some s.dma.transferred)))
  | _ => none

/-- The caller is in no function. -/
def Idle : DmaCaller → Prop
  | .idle => True
  | _ => False

instance (c : DmaCaller) : Decidable (Idle c) := by
  cases c <;> first | exact isTrue trivial | exact isFalse id

/-- The owner is in no function at all. -/
def Ready : Prop :=
  match s.owner with
  | .free => Idle (s.dma.callers 0)
  | _ => False

instance (s : OwnedDma) : Decidable s.Ready :=
  match s with
  | ⟨dma, .free⟩ => inferInstanceAs (Decidable (Idle (dma.callers 0)))
  | ⟨_, .allocating _⟩ | ⟨_, .configuring _⟩ | ⟨_, .starting _⟩ | ⟨_, .waitTest _⟩
  | ⟨_, .waitReady _⟩ | ⟨_, .waitRunning _⟩ | ⟨_, .waitPaused _⟩ | ⟨_, .waitClock _⟩
  | ⟨_, .waitThread _⟩ | ⟨_, .waitJoin _⟩ | ⟨_, .waitClear _⟩ | ⟨_, .reading _ _⟩
  | ⟨_, .freeing _ _ _⟩ => isFalse id

/-- What happens next. -/
def exec (s : OwnedDma) : DmaAction → Option (DmaAnswer × OwnedDma)
  | .call i c =>
    if (if i = 0 then s.Ready else Idle (s.dma.callers i) ∧ c.Concurrent) then
      some (none, { s with dma := s.dma.goto i c.begin })
    else none
  | .advance i created => (s.dma.advance i created).map fun r =>
      match r.1 with
      | none => (none, { s with dma := r.2 })
      | some code => if i = 0 then { s with dma := r.2 }.returned code
        else (some (code, none), { s with dma := r.2 })
  | .run t => (s.dma.exec (.run t)).map fun r => (none, { s with dma := r.2 })
  | .waitComplete => if s.Ready then s.goto (.waitTest none) else none
  | .transferSync desc =>
    if s.Ready then some (none, s.begin .allocChannel (.allocating desc)) else none
  | .wait late => s.wait late

/-- The channel and its owner as a machine. -/
def machine : Machine OwnedDma DmaAction DmaAnswer where
  step s c a s' := s.exec c = some (a, s')

end OwnedDma

end FtlFirmware
