import FtlFirmware.Lib.Run
import FtlFirmware.Thread.Basic

/-!
# The life of a thread

The table of threads (`ThreadTable`) when its functions are called by any number of callers
(`ThreadCaller`), while the POSIX threads that have been created (`OsThread`) go through the wrapper
of their entry functions (`OsThread.pc`). All of them go on in any order, one access to the table at
a time; the search for a slot looks at one slot at a time.

A POSIX thread keeps the identifier of the thread that it has been started for (`OsThread.id`),
which the source does not need. The numbers of POSIX threads stand for their handles, and how often
each of them has been joined is counted (`ThreadTable.joins`).
-/

namespace FtlFirmware

/-- A slot of the table (`thread_priv_t`). -/
structure ThreadSlot where
  threadId : UInt32
  pthread : Option ℕ
  func : ℕ
  retval : ℕ
  state : ThreadState
  startTimeMs : ℕ
  totalRunTimeMs : ℕ
  runCount : ℕ
  isInitialized : Bool
  shouldStop : Bool

/-- A slot that is all zeros. -/
def ThreadSlot.zero : ThreadSlot := ⟨0, none, 0, 0, .uninit, 0, 0, 0, false, false⟩

/-- Where a POSIX thread is in `thread_wrapper`: about to set the state, the start time and the
    number of runs, to call the entry function, in this function, about to store its value, to set
    the state again and the run time; or it has ended. -/
inductive WrapperPc
  | begin
  | time
  | count
  | call
  | executing (func : ℕ)
  | storing (retval : ℕ)
  | stopping
  | total
  | ended
  deriving DecidableEq, Repr

/-- A POSIX thread: the slot and the identifier of the thread that it has been started for, and
    where it is. -/
structure OsThread where
  slot : ℕ
  id : UInt32
  pc : WrapperPc

/-- The functions that look up a thread. -/
inductive ThreadFn
  | start
  | stop
  | join
  | destroy
  deriving DecidableEq, Repr

/-- The functions of the manager. -/
inductive ThreadCall
  | create (func : ℕ)
  | on (f : ThreadFn) (id : UInt32)

/-- `thread_start`. -/
abbrev ThreadCall.start (id : UInt32) : ThreadCall := .on .start id

/-- `thread_stop`. -/
abbrev ThreadCall.stop (id : UInt32) : ThreadCall := .on .stop id

/-- `thread_join`. -/
abbrev ThreadCall.join (id : UInt32) : ThreadCall := .on .join id

/-- `thread_destroy`. -/
abbrev ThreadCall.destroy (id : UInt32) : ThreadCall := .on .destroy id

/-- Where a caller is in a function: the step that is next, with the slot and what has been read. -/
inductive ThreadCaller
  | idle
  | createFind (func k : ℕ)
  | createClear (func k : ℕ)
  | createNext (func k : ℕ)
  | createBump (func k : ℕ) (id : UInt32)
  | createId (func k : ℕ) (id : UInt32)
  | createFunc (func k : ℕ)
  | createState (k : ℕ)
  | createInit (k : ℕ)
  | createStop (k : ℕ)
  | createReturn (k : ℕ)
  | find (f : ThreadFn) (id : UInt32) (k : ℕ)
  | test (f : ThreadFn) (id : UInt32) (k : ℕ)
  | startCreate (id : UInt32) (k : ℕ)
  | startError (id : UInt32) (k : ℕ)
  | joinError (id : UInt32) (k : ℕ)
  | flag (f : ThreadFn) (id : UInt32) (k : ℕ)
  | handle (f : ThreadFn) (id : UInt32) (k : ℕ)
  | wait (f : ThreadFn) (id : UInt32) (k : ℕ) (pthread : Option ℕ)
  | setStopped (f : ThreadFn) (id : UInt32) (k : ℕ)
  | free (id : UInt32) (k : ℕ)

/-- The table of threads, the POSIX threads, and the callers. -/
structure ThreadTable where
  slots : ℕ → ThreadSlot
  nextThreadId : UInt32
  os : ℕ → Option OsThread
  nextOs : ℕ
  joins : ℕ → ℕ
  callers : ℕ → ThreadCaller

/-- What happens next: a caller calls a function, or goes on in it (with the outcome of creating a
    POSIX thread), or a POSIX thread goes on (with what it reads from the clock, or what its entry
    function returns). -/
inductive ThreadAction
  | call (i : ℕ) (c : ThreadCall)
  | advance (i : ℕ) (created : Bool)
  | run (w value : ℕ)

/-- An answer: a code, or the identifier of a new thread, which is zero if there is none. -/
inductive ThreadAnswer
  | code (ret : RetCode)
  | id (id : UInt32)
  deriving DecidableEq, Repr

/-- The first step of a function. -/
def ThreadCall.begin : ThreadCall → ThreadCaller
  | .create func => .createFind func 0
  | .on f id => .find f id 0

namespace ThreadTable

/-- The table after `thread_manager_init`. -/
def start : ThreadTable where
  slots _ := .zero
  nextThreadId := 1
  os _ := none
  nextOs := 0
  joins _ := 0
  callers _ := .idle

variable (s : ThreadTable)

/-- Another slot in a place of the table. -/
def setSlot (k : ℕ) (t : ThreadSlot) : ThreadTable :=
  { s with slots := Function.update s.slots k t }

/-- A POSIX thread is elsewhere. -/
def setOs (w : ℕ) (o : OsThread) : ThreadTable := { s with os := Function.update s.os w (some o) }

/-- A caller is elsewhere. -/
def goto (i : ℕ) (c : ThreadCaller) : ThreadTable :=
  { s with callers := Function.update s.callers i c }

/-! ## The wrapper -/

/-- A POSIX thread goes on (`thread_wrapper`). -/
def runThread (w value : ℕ) (o : OsThread) : Option ThreadTable :=
  let t := s.slots o.slot
  match o.pc with
  | .begin => some ((s.setSlot o.slot { t with state := .running }).setOs w { o with pc := .time })
  | .time => some ((s.setSlot o.slot { t with startTimeMs := value }).setOs w { o with pc := .count })
  | .count =>
    some ((s.setSlot o.slot { t with runCount := t.runCount + 1 }).setOs w { o with pc := .call })
  -- What the function does is no part of it; it ends with a value.
  | .call => some (s.setOs w { o with pc := .executing t.func })
  | .executing _ => some (s.setOs w { o with pc := .storing value })
  | .storing retval => some ((s.setSlot o.slot { t with retval }).setOs w { o with pc := .stopping })
  | .stopping => some ((s.setSlot o.slot { t with state := .stopped }).setOs w { o with pc := .total })
  | .total =>
    let total := t.totalRunTimeMs + (value - t.startTimeMs)
    some ((s.setSlot o.slot { t with totalRunTimeMs := total }).setOs w { o with pc := .ended })
  | .ended => none

/-! ## The functions -/

/-- A function goes on. -/
def next (i : ℕ) (c : ThreadCaller) : Option (Option ThreadAnswer × ThreadTable) :=
  some (none, s.goto i c)

/-- A function returns. -/
def ret (i : ℕ) (a : ThreadAnswer) : Option (Option ThreadAnswer × ThreadTable) :=
  some (some a, s.goto i .idle)

/-- A POSIX thread has ended. -/
def Ended (w : ℕ) : Prop := (s.os w).map OsThread.pc = some .ended

instance (w : ℕ) : Decidable (s.Ended w) :=
  inferInstanceAs (Decidable (Option.map OsThread.pc (s.os w) = some .ended))

/-- What `pthread_join` waits for: the end of the thread, if there is one. -/
def Joined : Option ℕ → Prop
  | none => True
  | some w => s.Ended w

instance : (pthread : Option ℕ) → Decidable (s.Joined pthread)
  | none => isTrue trivial
  | some w => inferInstanceAs (Decidable (s.Ended w))

/-- `pthread_join` is called. -/
def callJoin (pthread : Option ℕ) : ThreadTable :=
  { s with joins := fun w => if pthread = some w then s.joins w + 1 else s.joins w }

/-- `pthread_create` has succeeded. -/
def launch (k : ℕ) : ThreadTable :=
  { (s.setSlot k { s.slots k with pthread := some s.nextOs }).setOs s.nextOs
      ⟨k, (s.slots k).threadId, .begin⟩ with nextOs := s.nextOs + 1 }

/-- A caller goes on. -/
def advance (i : ℕ) (created : Bool) : Option (Option ThreadAnswer × ThreadTable) :=
  match s.callers i with
  | .idle => none
  -- `find_free_slot` and `thread_create`
  | .createFind func k =>
    if maxThreads ≤ k then s.ret i (.id 0)
    else if (s.slots k).isInitialized then s.next i (.createFind func (k + 1))
    else s.next i (.createClear func k)
  | .createClear func k => (s.setSlot k .zero).next i (.createNext func k)
  | .createNext func k => s.next i (.createBump func k s.nextThreadId)
  | .createBump func k id => { s with nextThreadId := id + 1 }.next i (.createId func k id)
  | .createId func k id =>
    (s.setSlot k { s.slots k with threadId := id }).next i (.createFunc func k)
  | .createFunc func k => (s.setSlot k { s.slots k with func }).next i (.createState k)
  | .createState k => (s.setSlot k { s.slots k with state := .ready }).next i (.createInit k)
  | .createInit k => (s.setSlot k { s.slots k with isInitialized := true }).next i (.createStop k)
  | .createStop k => (s.setSlot k { s.slots k with shouldStop := false }).next i (.createReturn k)
  | .createReturn k => s.ret i (.id (s.slots k).threadId)
  -- `find_thread_by_id`
  | .find f id k =>
    if maxThreads ≤ k then s.ret i (.code .errParam)
    else if (s.slots k).isInitialized ∧ (s.slots k).threadId = id then s.next i (.test f id k)
    else s.next i (.find f id (k + 1))
  -- `thread_start`
  | .test .start id k =>
    if (s.slots k).state ≠ .ready then s.ret i (.code .errInternal) else s.next i (.startCreate id k)
  | .startCreate id k =>
    if created then (s.launch k).ret i (.code .ok) else s.next i (.startError id k)
  | .startError _ k =>
    (s.setSlot k { s.slots k with state := .error }).ret i (.code .errInternal)
  -- `thread_stop`
  | .test .stop id k =>
    if (s.slots k).state ≠ .running then s.ret i (.code .ok) else s.next i (.flag .stop id k)
  -- `thread_join`
  | .test .join id k =>
    if (s.slots k).state = .stopped then s.ret i (.code .ok) else s.next i (.joinError id k)
  | .joinError id k =>
    if (s.slots k).state = .error then s.ret i (.code .ok) else s.next i (.handle .join id k)
  -- `thread_destroy`
  | .test .destroy id k =>
    if (s.slots k).state = .running then s.next i (.flag .destroy id k) else s.next i (.free id k)
  | .free _ k => (s.setSlot k { s.slots k with isInitialized := false }).ret i (.code .ok)
  -- waiting for the end of a thread
  | .flag f id k => (s.setSlot k { s.slots k with shouldStop := true }).next i (.handle f id k)
  | .handle f id k =>
    (s.callJoin (s.slots k).pthread).next i (.wait f id k (s.slots k).pthread)
  | .wait f id k pthread =>
    if s.Joined pthread then
      s.next i (if f = .destroy then .free id k else .setStopped f id k)
    else none
  | .setStopped _ _ k => (s.setSlot k { s.slots k with state := .stopped }).ret i (.code .ok)

/-! ## The machine -/

/-- What happens next. A function that returns answers. -/
def exec (s : ThreadTable) : ThreadAction → Option (Option ThreadAnswer × ThreadTable)
  | .call i c => match s.callers i with
    | .idle => s.next i c.begin
    | _ => none
  | .advance i created => s.advance i created
  | .run w value => (s.os w).bind fun o => (s.runThread w value o).map fun s => (none, s)

/-- The table of threads as a machine. -/
def machine : Machine ThreadTable ThreadAction (Option ThreadAnswer) where
  step s c a s' := s.exec c = some (a, s')

end ThreadTable

end FtlFirmware
