import FtlFirmware.Common
import FtlFirmware.Lib.Pool

/-!
# Threads

The thread manager (`ThreadManager`) keeps the threads of the firmware in a table of
`MAX_THREADS` slots. A thread is created in a free slot, with the next identifier, and started
later; the slot is free again when the thread is destroyed.

The entry functions are of a type `F`, with their arguments. What they do to the rest of the state
`σ` is a parameter: a thread that has been started runs from its beginning to its end when somebody
waits for it (`runThread`).
-/

namespace FtlFirmware

/-- The states of a thread (`thread_state_t`). -/
inductive ThreadState
  | uninit
  | ready
  | running
  | suspended
  | stopped
  | error
  deriving DecidableEq, Repr

/-- A thread (`thread_priv_t`). It is launched while its POSIX thread exists and has not ended. -/
structure Thread (F : Type*) where
  threadId : UInt32
  func : Option F
  state : ThreadState
  launched : Bool
  isInitialized : Bool

/-- The number of slots. -/
abbrev maxThreads : ℕ := 32

/-- The thread manager. -/
structure ThreadManager (F : Type*) where
  initialized : Bool
  threads : ℕ → Thread F
  threadCount : UInt32
  nextThreadId : UInt32

namespace ThreadManager

variable {F σ : Type*}

/-- The manager before it is initialised, and what `memset` leaves in a slot. -/
def unused : Thread F := ⟨0, none, .uninit, false, false⟩

/-- `thread_manager_init`. -/
def init (m : ThreadManager F) : ThreadManager F :=
  if m.initialized then m
  else { initialized := true, threads := fun _ => unused, threadCount := 0, nextThreadId := 1 }

variable (m : ThreadManager F)

/-- The slot is in use. -/
def used (i : ℕ) : Bool := (m.threads i).isInitialized

/-- The number of free slots. -/
def freeSlots : ℕ := (Pool.free m.used maxThreads).card

/-- The first free slot (`find_free_slot`). -/
def findFreeSlot : Option ℕ := Pool.firstFree m.used maxThreads

/-- The slot of a thread (`find_thread_by_id`). -/
def findThreadById (id : UInt32) : Option ℕ :=
  (List.range maxThreads).find? fun i =>
    (m.threads i).isInitialized && decide ((m.threads i).threadId = id)

/-- The manager with another thread in a slot. -/
def setThread (i : ℕ) (t : Thread F) : ThreadManager F :=
  { m with threads := Function.update m.threads i t }

/-- A free slot is taken by a new thread, with the next identifier. -/
def take (slot : ℕ) (func : F) : ThreadManager F :=
  { m.setThread slot ⟨m.nextThreadId, some func, .ready, false, true⟩ with
    threadCount := m.threadCount + 1
    nextThreadId := m.nextThreadId + 1 }

/-- Creates a thread (`thread_create`), answering its identifier, or zero. -/
def create (func : F) : UInt32 × ThreadManager F :=
  if !m.initialized then (0, m)
  else
    match m.findFreeSlot with
    | none => (0, m)
    | some slot => (m.nextThreadId, m.take slot func)

/-- Starts a thread (`thread_start`). -/
def start (id : UInt32) : RetCode × ThreadManager F :=
  if !m.initialized then (.errNotInit, m)
  else
    match m.findThreadById id with
    | none => (.errParam, m)
    | some slot =>
      if (m.threads slot).state ≠ .ready then (.errInternal, m)
      else (.ok, m.setThread slot { m.threads slot with launched := true })

/-- A thread that is launched runs to its end (`thread_wrapper`). -/
def runThread (call : F → σ → σ) (slot : ℕ) (m : ThreadManager F) (x : σ) :
    ThreadManager F × σ :=
  if (m.threads slot).launched then
    (m.setThread slot { m.threads slot with state := .stopped, launched := false },
      match (m.threads slot).func with
      | none => x
      | some func => call func x)
  else (m, x)

/-- Waits for the end of a thread (`thread_join`). -/
def join (call : F → σ → σ) (id : UInt32) (m : ThreadManager F) (x : σ) :
    RetCode × ThreadManager F × σ :=
  if !m.initialized then (.errNotInit, m, x)
  else
    match m.findThreadById id with
    | none => (.errParam, m, x)
    | some slot =>
      if (m.threads slot).state = .stopped ∨ (m.threads slot).state = .error then (.ok, m, x)
      else
        let (m, x) := runThread call slot m x
        (.ok, m.setThread slot { m.threads slot with state := .stopped }, x)

/-- Destroys a thread (`thread_destroy`), after the end of one that is running. -/
def destroy (call : F → σ → σ) (id : UInt32) (m : ThreadManager F) (x : σ) :
    RetCode × ThreadManager F × σ :=
  if !m.initialized then (.errNotInit, m, x)
  else
    match m.findThreadById id with
    | none => (.errParam, m, x)
    | some slot =>
      let (m, x) := if (m.threads slot).state = .running then runThread call slot m x else (m, x)
      (.ok,
        { m.setThread slot { m.threads slot with isInitialized := false } with
          threadCount := m.threadCount - 1 }, x)

end ThreadManager

end FtlFirmware
