import FtlFirmware.Lib.Ring
import FtlFirmware.Nvme.Basic

/-!
# Asynchronous events

The event requests that the host has sent and that wait for an event, and the queue of the
events that wait for a request: two tables, which are matched in `aerTryComplete`.

The tables carry *ghost* fields, which no operation reads: the requests accepted so far, each of
which has its place among them as its ticket, the events accepted so far, and the requests that
have been completed, each with the event that it reports.
-/

namespace FtlFirmware

namespace Nvme

/-- The most event requests pending at a time (`NVME_AER_MAX_PENDING`). -/
abbrev aerMaxPending : ℕ := 4

/-- The size of the event queue (`NVME_AER_QUEUE_SIZE`). -/
abbrev aerQueueSize : ℕ := 16

/-- A pending event request (`nvme_aer_pending_t`). -/
structure AerPending where
  active : Bool
  cid : UInt16
  /-- The ticket of the request (ghost). -/
  ticket : ℕ
  deriving DecidableEq, Repr

/-- An event (`nvme_aer_event_t`). -/
structure AerEvent where
  eventType : UInt32
  eventInfo : UInt32
  logPage : UInt8
  deriving DecidableEq, Repr

/-- The type of the events about the health of the device (`NVME_AER_TYPE_SMART_HEALTH`). -/
def aerTypeSmartHealth : UInt32 := 0x0002

/-- The type of the notices (`NVME_AER_TYPE_NOTICE`). -/
def aerTypeNotice : UInt32 := 0x0003

/-- What marks the completion of a request that waits for an event. -/
def aerSuspended : UInt32 := 0xAE01

/-- The event requests and the events. -/
structure Aer where
  pending : ℕ → AerPending
  eventQueue : ℕ → AerEvent
  eventHead : ℕ
  eventTail : ℕ
  eventCount : ℕ
  eventMask : UInt32
  /-- The command identifiers of the requests accepted (ghost). -/
  accepted : List UInt16
  /-- The events accepted (ghost). -/
  posted : List AerEvent
  /-- The tickets of the requests completed, with the events that they report (ghost). -/
  completed : List (ℕ × Option AerEvent)

namespace Aer

/-- No request and no event (`nvme_ctrl_aer_init`). -/
def init : Aer where
  pending _ := ⟨false, 0, 0⟩
  eventQueue _ := ⟨0, 0, 0⟩
  eventHead := 0
  eventTail := 0
  eventCount := 0
  eventMask := 0x1F
  accepted := []
  posted := []
  completed := []

/-- The first slot whose activity is `active`. -/
def findPending (aer : Aer) (active : Bool) : Option ℕ :=
  (List.range aerMaxPending).find? fun i => (aer.pending i).active == active

/-- Takes an event request (`admin_async_event`), which waits for an event. -/
def adminAsyncEvent (aer : Aer) (cmd : Command) (cpl : Completion) : Completion × Aer :=
  match aer.findPending false with
  | none => (cpl.setCompletionStatus scAerLimitExceeded, aer)
  | some i =>
    ({ cpl with rsvd1 := aerSuspended, cid := cmd.cid, sqid := 0 },
      { aer with
        pending := Function.update aer.pending i ⟨true, cmd.cid, aer.accepted.length⟩
        accepted := aer.accepted ++ [cmd.cid] })

/-- Whether an event is kept out by the mask. Other events than those about the health of the
    device are not. -/
def masked (aer : Aer) (e : AerEvent) : Bool :=
  e.eventType == aerTypeSmartHealth && aer.eventMask &&& (1 <<< (e.eventInfo &&& 0x1F)) == 0

/-- Posts an event (`nvme_ctrl_post_aer_event`). -/
def postAerEvent (aer : Aer) (e : AerEvent) : RetCode × Aer :=
  if aer.masked e then
    (.ok, aer)
  else if aer.eventCount ≥ aerQueueSize then
    (.errInternal, aer)
  else
    (.ok, { aer with
      eventQueue := Function.update aer.eventQueue aer.eventTail e
      eventTail := (aer.eventTail + 1) % aerQueueSize
      eventCount := aer.eventCount + 1
      posted := aer.posted ++ [e] })

/-- Takes the next event and the first request, if there are both: one pass of the loop of
    `aer_try_complete`. Answers with the command identifier of the request and the event. -/
def popEvent (aer : Aer) : Option (UInt16 × AerEvent × Aer) :=
  if aer.eventCount > 0 then
    (aer.findPending true).map fun i =>
      let e := aer.eventQueue aer.eventHead
      ((aer.pending i).cid, e,
        { aer with
          eventHead := (aer.eventHead + 1) % aerQueueSize
          eventCount := aer.eventCount - 1
          pending := Function.update aer.pending i { aer.pending i with active := false }
          completed := aer.completed ++ [((aer.pending i).ticket, some e)] })
  else
    none

/-- Records that the completion of a command has been sent to the host by its front end. If it is
    that of an event request that waits, which is the last one accepted, then the request is
    completed, without an event. -/
def deliver (aer : Aer) (cpl : Completion) : Aer :=
  if cpl.rsvd1 = aerSuspended then
    { aer with completed := aer.completed ++ [(aer.accepted.length - 1, none)] }
  else
    aer

end Aer

end Nvme

end FtlFirmware
