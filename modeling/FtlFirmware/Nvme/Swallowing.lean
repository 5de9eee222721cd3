import FtlFirmware.Lib.Chunks
import FtlFirmware.Lib.Records
import FtlFirmware.Lib.Run

/-!
# The messages of vhost-user

The guest talks to the vhost-user back end over a socket of its own (`VuConn`). A message is a
header of 12 bytes, which says how long the payload is, and the payload; file descriptors may come
with it. The back end takes as much out of the socket as a message can have at most, and handles all
of it as one message (`VuConn.process`). It does not look at the length in the header. So if the
next message has been sent by then, it is taken along, and never handled.

* `vhost_messages`: the messages that have been handled and those that wait are the ones that have
  been sent if and only if no message has been taken along.
-/

namespace FtlFirmware

namespace Nvme

/-- The size of the header of a message (`vhost_user_msg_hdr_t`). -/
abbrev vuHdrSize : ℕ := 12

/-- The size of the payload of a message at most (`VHOST_USER_MAX_PAYLOAD_SIZE`). -/
abbrev vuMaxPayloadSize : ℕ := 4096

/-- The number of file descriptors of a message at most (`VHOST_USER_MAX_MEM_REGIONS`). -/
abbrev vuMaxFds : ℕ := 16

/-- A message: its header (`vhost_user_msg_hdr_t`), the payload, and the file descriptors. -/
structure VuMsg where
  request : UInt32
  flags : UInt32
  size : UInt32
  payload : List UInt8
  fds : List ℕ
  deriving DecidableEq, Repr

namespace VuMsg

/-- What the back end makes of what it has received (`vu_recv_msg`). -/
def ofChunk (c : SocketChunk UInt8 ℕ) : VuMsg :=
  ⟨wordAt c.data 0, wordAt c.data 1, wordAt c.data 2, c.data.drop vuHdrSize, c.rights.take vuMaxFds⟩

variable (msg : VuMsg)

/-- What the guest sends. -/
def chunk : SocketChunk UInt8 ℕ where
  data := wordBytes msg.request ++ (wordBytes msg.flags ++ (wordBytes msg.size ++ msg.payload))
  rights := msg.fds

/-- A message as it should be: the header says how long the payload is. -/
structure Whole : Prop where
  size : msg.size.toNat = msg.payload.length
  payload : msg.payload.length ≤ vuMaxPayloadSize
  fds : msg.fds.length ≤ vuMaxFds

/-- The request of the answer to a message, if it is answered (`dispatch_message`). A request that
    is not known is answered if its flags say that it should be. -/
def answered : Option UInt32 :=
  if msg.request = 1 ∨ msg.request = 11 ∨ msg.request = 15 ∨ msg.request = 24 ∨
      msg.request = 17 then
    some msg.request
  else if msg.request = 2 ∨ msg.request = 3 ∨ msg.request = 4 ∨ msg.request = 5 ∨ msg.request = 8 ∨
      msg.request = 9 ∨ msg.request = 10 ∨ msg.request = 12 ∨ msg.request = 13 ∨ msg.request = 18 ∨
      msg.request = 16 ∨ msg.request = 25 then
    none
  else if msg.flags &&& 8 ≠ 0 then some msg.request
  else none

variable {msg}

theorem chunk_length : msg.chunk.data.length = vuHdrSize + msg.payload.length := by
  simp only [chunk, List.length_append, length_wordBytes, vuHdrSize]
  omega

/-- What has been sent is what is received. -/
theorem Whole.ofChunk_chunk (h : msg.Whole) : ofChunk msg.chunk = msg := by
  have hpayload : msg.chunk.data.drop vuHdrSize = msg.payload := by
    have hhdr : (wordBytes msg.request ++ wordBytes msg.flags ++ wordBytes msg.size).length =
        vuHdrSize := rfl
    rw [chunk, ← List.append_assoc, ← List.append_assoc, ← hhdr, List.drop_left]
  rw [ofChunk, hpayload, chunk]
  simp only [wordAt_cons_zero, wordAt_cons_succ, List.take_of_length_le h.fds]

theorem Whole.chunk_le (h : msg.Whole) :
    msg.chunk.data.length ≤ vuHdrSize + vuMaxPayloadSize := by
  rw [chunk_length]
  exact Nat.add_le_add_left h.payload _

end VuMsg

/-- A connection: what waits in the socket, the messages that have been handled, and the requests of
    the answers. -/
structure VuConn where
  waiting : List (SocketChunk UInt8 ℕ)
  handled : List VuMsg
  answers : List UInt32
  isOpen : Bool

/-- The guest sends a message, or the back end looks for one. -/
inductive VuCall
  | send (msg : VuMsg)
  | process

namespace VuConn

/-- A new connection. -/
def fresh : VuConn := ⟨[], [], [], true⟩

variable (c : VuConn)

/-- Takes what waits in the socket, and handles it (`handle_connection_messages`, with
    `vu_recv_msg`). If it is less than a header, the connection is closed. -/
def process : VuConn :=
  if c.isOpen = false ∨ c.waiting = [] then c
  else
    let r := SocketChunk.receive (vuHdrSize + vuMaxPayloadSize) c.waiting
    if r.1.data.length < vuHdrSize then { c with waiting := [], isOpen := false }
    else
      let msg := VuMsg.ofChunk r.1
      { c with
        waiting := r.2
        handled := c.handled ++ [msg]
        answers := c.answers ++ msg.answered.toList }

/-- Executes a call. -/
def exec : VuCall → VuConn
  | .send msg => { c with waiting := c.waiting ++ [msg.chunk] }
  | .process => c.process

/-- A connection as a machine. -/
def machine : Machine VuConn VuCall Unit where
  step c call _ c' := c.exec call = c'

/-- The guest sends messages as they should be, as long as the connection is open. -/
def Sending (c : VuConn) : VuCall → Prop
  | .send msg => c.isOpen = true ∧ msg.Whole
  | .process => True

/-- What waits first is alone, as far as the back end can tell: nothing waits after it, or file
    descriptors come with it, or it is as long as a message can be. -/
def Alone (c : VuConn) : Prop :=
  ∀ first second rest, c.waiting = first :: second :: rest →
    first.rights ≠ [] ∨ first.data.length = vuHdrSize + vuMaxPayloadSize

/-- In addition, the back end looks for messages only when the first one is alone. -/
def Separately (c : VuConn) (call : VuCall) : Prop :=
  c.Sending call ∧ (call = .process → c.Alone)

end VuConn

/-- The message that is sent by a call. -/
def VuCall.sent : VuCall → Option VuMsg
  | .send msg => some msg
  | .process => none

namespace VuConn

variable {c c' : VuConn} {tr : List (VuCall × Unit)} {sent : List VuMsg}

/-- The messages that have been sent in a run. -/
def sentIn (tr : List (VuCall × Unit)) : List VuMsg := tr.filterMap fun e => e.1.sent

/-- The messages that have been handled, and those that wait, are the ones that have been sent. -/
structure InStep (c : VuConn) (sent : List VuMsg) : Prop where
  isOpen : c.isOpen = true
  whole : ∀ chunk ∈ c.waiting, ∃ msg : VuMsg, msg.Whole ∧ chunk = msg.chunk
  sent : c.handled ++ c.waiting.map VuMsg.ofChunk = sent

/-- More has been handled as a message than the message that has been sent. -/
def Swallowed (c : VuConn) (sent : List VuMsg) : Prop :=
  ∃ (i : ℕ) (x y : VuMsg), c.handled[i]? = some x ∧ sent[i]? = some y ∧
    y.payload.length < x.payload.length

/-! ## Steps -/

theorem InStep.send (h : c.InStep sent) {msg : VuMsg} (hmsg : msg.Whole) :
    (c.exec (.send msg)).InStep (sent ++ [msg]) := by
  refine ⟨h.isOpen, fun chunk hchunk => ?_, ?_⟩
  · rcases List.mem_append.1 hchunk with hchunk | hchunk
    · exact h.whole chunk hchunk
    · exact ⟨msg, hmsg, List.mem_singleton.1 hchunk⟩
  · rw [exec, List.map_append, ← List.append_assoc, h.sent, List.map_singleton, hmsg.ofChunk_chunk]

/-- What the back end takes out of the socket, when messages wait. -/
theorem process_cons {first : SocketChunk UInt8 ℕ} {rest : List (SocketChunk UInt8 ℕ)}
    {r : SocketChunk UInt8 ℕ × List (SocketChunk UInt8 ℕ)} (hopen : c.isOpen = true)
    (hwaiting : c.waiting = first :: rest)
    (hr : SocketChunk.receive (vuHdrSize + vuMaxPayloadSize) (first :: rest) = r)
    (hlen : vuHdrSize ≤ r.1.data.length) :
    c.process = { c with
      waiting := r.2
      handled := c.handled ++ [VuMsg.ofChunk r.1]
      answers := c.answers ++ (VuMsg.ofChunk r.1).answered.toList } := by
  have hlook : ¬ (c.isOpen = false ∨ c.waiting = []) := by simp [hopen, hwaiting]
  rw [process, if_neg hlook, hwaiting, hr]
  exact if_neg (Nat.not_lt.2 hlen)

/-- A message that is alone is handled as it has been sent. -/
theorem InStep.process (h : c.InStep sent) (halone : c.Alone) : c.process.InStep sent := by
  obtain ⟨waiting, handled, answers, isOpen⟩ := c
  cases waiting with
  | nil =>
    rw [VuConn.process, if_pos (Or.inr rfl)]
    exact h
  | cons first rest =>
    obtain ⟨msg, hmsg, rfl⟩ := h.whole first List.mem_cons_self
    have hreceive : SocketChunk.receive (vuHdrSize + vuMaxPayloadSize) (msg.chunk :: rest) =
        (msg.chunk, rest) := by
      cases rest with
      | nil => exact SocketChunk.receive_alone hmsg.chunk_le
      | cons second rest => exact SocketChunk.receive_cons hmsg.chunk_le (halone _ _ _ rfl)
    have hlen : vuHdrSize ≤ msg.chunk.data.length := by
      rw [VuMsg.chunk_length]
      exact Nat.le_add_right _ _
    rw [process_cons h.isOpen rfl hreceive hlen]
    refine ⟨h.isOpen, fun chunk hchunk => h.whole chunk (List.mem_cons_of_mem _ hchunk), ?_⟩
    have hsent := h.sent
    rw [List.map_cons] at hsent
    rw [← hsent, List.append_assoc]
    rfl

/-- A message that is not alone swallows a part of the next one. -/
theorem InStep.swallowed (h : c.InStep sent) (halone : ¬ c.Alone) : c.process.Swallowed sent := by
  simp only [Alone, not_forall, not_or, not_not] at halone
  obtain ⟨first, second, rest, hwaiting, hrights, hlen⟩ := halone
  obtain ⟨msg, hmsg, rfl⟩ := h.whole first (hwaiting ▸ List.mem_cons_self)
  obtain ⟨msg', -, rfl⟩ :=
    h.whole second (hwaiting ▸ List.mem_cons_of_mem _ List.mem_cons_self)
  have hnonempty : msg'.chunk.data ≠ [] := by
    rw [← List.length_pos_iff, VuMsg.chunk_length]
    exact Nat.lt_of_lt_of_le (by decide) (Nat.le_add_right _ _)
  obtain ⟨extra, rights, left, hextra, hreceive⟩ : ∃ extra rights left, extra ≠ [] ∧
      SocketChunk.receive (vuHdrSize + vuMaxPayloadSize) (msg.chunk :: msg'.chunk :: rest) =
        (⟨msg.chunk.data ++ extra, rights⟩, left) :=
    SocketChunk.receive_more hrights (Nat.lt_of_le_of_ne hmsg.chunk_le hlen) hnonempty
  have hhdr : vuHdrSize ≤ (msg.chunk.data ++ extra).length := by
    rw [List.length_append, VuMsg.chunk_length, Nat.add_assoc]
    exact Nat.le_add_right _ _
  rw [process_cons h.isOpen hwaiting hreceive hhdr]
  refine ⟨c.handled.length, _, msg, List.getElem?_concat_length, ?_, ?_⟩
  · rw [← h.sent, hwaiting, List.map_cons, hmsg.ofChunk_chunk]
    simp
  · have hpos := List.length_pos_iff.2 hextra
    rw [VuMsg.ofChunk]
    dsimp only
    rw [List.length_drop, List.length_append, VuMsg.chunk_length]
    omega

/-- What has been swallowed is lost. -/
theorem Swallowed.exec (h : c.Swallowed sent) (call : VuCall) :
    (c.exec call).Swallowed (sent ++ call.sent.toList) := by
  obtain ⟨i, x, y, hx, hy, hlt⟩ := h
  have hkeep {α : Type} {l : List α} {a : α} (l' : List α) (h : l[i]? = some a) :
      (l ++ l')[i]? = some a := by
    rw [List.getElem?_append_left (List.getElem?_eq_some_iff.1 h).1, h]
  refine ⟨i, x, y, ?_, hkeep _ hy, hlt⟩
  cases call with
  | send msg => exact hx
  | process =>
    rw [VuConn.exec, VuConn.process]
    dsimp only
    split_ifs
    · exact hx
    · exact hx
    · exact hkeep _ hx

/-- What has been swallowed is not handled later. -/
theorem Swallowed.ne (h : c.Swallowed sent) (l : List VuMsg) : c.handled ++ l ≠ sent := by
  obtain ⟨i, x, y, hx, hy, hlt⟩ := h
  rintro rfl
  rw [List.getElem?_append_left (List.getElem?_eq_some_iff.1 hx).1, hx] at hy
  obtain rfl := Option.some.inj hy
  exact Nat.lt_irrefl _ hlt

/-! ## Runs -/

theorem sentIn_concat (call : VuCall) (a : Unit) :
    sentIn (tr ++ [(call, a)]) = sentIn tr ++ call.sent.toList := by
  rw [sentIn, List.filterMap_append]
  cases call <;> rfl

/-- As long as messages are alone when they are handled, none is lost. -/
theorem inStep_of_separately (h : machine.Run Separately fresh tr c) : c.InStep (sentIn tr) := by
  induction h with
  | nil => exact ⟨rfl, fun _ h => absurd h List.not_mem_nil, rfl⟩
  | @snoc tr c₁ call a c₂ hrun hallowed hstep ih =>
    obtain rfl := hstep
    rw [sentIn_concat]
    cases call with
    | send msg => exact ih.send hallowed.1.2
    | process =>
      rw [VuCall.sent, Option.toList_none, List.append_nil]
      exact ih.process (hallowed.2 rfl)

/-- As soon as one is not, one is lost. -/
theorem separately_or_swallowed (h : machine.Run Sending fresh tr c) :
    machine.Run Separately fresh tr c ∨ c.Swallowed (sentIn tr) := by
  induction h with
  | nil => exact Or.inl .nil
  | @snoc tr c₁ call a c₂ _ hallowed hstep ih =>
    rcases ih with hrun | hlost
    · by_cases halone : call = .process → c₁.Alone
      · exact Or.inl (hrun.snoc ⟨hallowed, halone⟩ hstep)
      · rw [Classical.not_imp] at halone
        obtain ⟨rfl, hnot⟩ := halone
        obtain rfl := hstep
        rw [sentIn_concat, VuCall.sent, Option.toList_none, List.append_nil]
        exact Or.inr ((inStep_of_separately hrun).swallowed hnot)
    · obtain rfl := hstep
      rw [sentIn_concat]
      exact Or.inr (hlost.exec call)

/-- The answers are those to the messages that have been handled. -/
theorem answers_eq (h : machine.Run Sending fresh tr c) :
    c.answers = c.handled.filterMap VuMsg.answered := by
  refine h.invariant (P := fun c => c.answers = c.handled.filterMap VuMsg.answered) rfl ?_
  intro c call _ c' hc _ hstep
  obtain rfl := hstep
  cases call with
  | send msg => exact hc
  | process =>
    rw [exec, process]
    dsimp only
    split_ifs
    · exact hc
    · exact hc
    · generalize VuMsg.ofChunk _ = msg
      have hone : [msg].filterMap VuMsg.answered = msg.answered.toList := by
        rw [List.filterMap_cons, List.filterMap_nil]
        cases msg.answered <;> rfl
      rw [List.filterMap_append, hone, ← hc]

/-- Over every run in which the guest sends messages as they should be: the messages that the back
    end has handled, followed by those that wait, are the ones that have been sent, each with its
    payload and its file descriptors, if and only if the back end has looked for messages only when
    the first one was alone; otherwise, a message has swallowed a part of the next one. The answers
    are those to the messages that have been handled, in this order. -/
theorem vhost_messages (hrun : machine.Run Sending fresh tr c) :
    (c.handled ++ c.waiting.map VuMsg.ofChunk = sentIn tr ↔ machine.Run Separately fresh tr c) ∧
      (¬ machine.Run Separately fresh tr c → c.Swallowed (sentIn tr)) ∧
      c.answers = c.handled.filterMap VuMsg.answered := by
  have hcases := separately_or_swallowed hrun
  refine ⟨⟨fun heq => ?_, fun h => (inStep_of_separately h).sent⟩, hcases.resolve_left,
    answers_eq hrun⟩
  exact hcases.resolve_right fun hlost => hlost.ne _ heq

/-- A request for the features, one that is not known, and one that sets the owner. -/
def vuRequest (request flags : UInt32) : VuMsg := ⟨request, flags, 0, [], []⟩

theorem vuRequest_whole (request flags : UInt32) : (vuRequest request flags).Whole :=
  ⟨rfl, Nat.zero_le _, Nat.zero_le _⟩

/-- Three messages, each handled before the next one is sent: the one that sets the owner is not
    answered. -/
theorem vhost_messages_three : ∃ tr c, machine.Run Sending fresh tr c ∧
    c.handled ++ c.waiting.map VuMsg.ofChunk = [vuRequest 3 8, vuRequest 1 0, vuRequest 40 8] ∧
      c.answers = [1, 40] := by
  have hsend (c : VuConn) (request flags : UInt32) (hopen : c.isOpen = true) (tr)
      (h : machine.Run Separately fresh tr c) (hempty : c.waiting = []) :
      machine.Run Separately fresh
        (tr ++ [(.send (vuRequest request flags), ())] ++ [(.process, ())])
        ((c.exec (.send (vuRequest request flags))).exec .process) := by
    have halone : (c.exec (.send (vuRequest request flags))).Alone := by
      intro first second rest hwaiting
      rw [exec, hempty] at hwaiting
      simp at hwaiting
    have hsending : c.Separately (.send (vuRequest request flags)) :=
      ⟨⟨hopen, vuRequest_whole request flags⟩, by simp⟩
    exact (h.snoc hsending rfl).snoc ⟨trivial, fun _ => halone⟩ rfl
  have hrun := hsend _ 40 8 rfl _ (hsend _ 1 0 rfl _ (hsend fresh 3 8 rfl [] .nil rfl) rfl) rfl
  have hsending := hrun.mono fun c call h => h.1
  obtain ⟨hiff, _, hanswers⟩ := vhost_messages hsending
  exact ⟨_, _, hsending, hiff.2 hrun, hanswers.trans (by decide)⟩

end VuConn

end Nvme

end FtlFirmware
