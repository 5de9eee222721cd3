import FtlFirmware.Nvme.Calls
import FtlFirmware.Nvme.Completing
import FtlFirmware.Nvme.Tcp

/-!
# Exchanges of data on connections

What the hosts send for their Writes and Dataset Managements, as a book (`Book`) that the calls
alone determine: the commands of each connection that wait for data, with the bytes sent so far,
and the commands for which all bytes have been sent. A host obeys the protocol if its calls fit
the book (`Book.Obeys`).

The second part is about the handlers of the target: what each of them leaves alone, and the
completions that it sends.
-/

namespace FtlFirmware

namespace Nvme

/-! ## The book -/

/-- A command that waits for data: the number of bytes that it needs, and those sent so far. -/
structure Pending where
  cid : UInt16
  opcode : UInt8
  slba : UInt64
  total : ℕ
  bytes : List UInt8

/-- The command, once its data have been used on the connection `i`. -/
def Pending.performed (p : Pending) (i : ℕ) : Performed :=
  ⟨i, p.cid, p.opcode, if p.opcode = 0x01 then p.slba else 0, p.bytes⟩

namespace Performed

variable (x : Performed) (fuel : ℕ) (ftl : Ftl)

/-- Uses the data of a command: its pages are written, or its ranges trimmed. -/
def store : Option (Bool × Ftl) :=
  if x.opcode = 0x01 then
    writePages fuel (lpnAt x.slba) (bufferOf x.bytes).page (List.range (x.bytes.length / pageSize))
      ftl
  else if x.opcode = 0x09 then
    trimRanges (bufferOf x.bytes).range (List.range (x.bytes.length / 16)) true ftl
  else
    some (true, ftl)

/-- The FTL calls of using the data of a command (`store`). -/
def calls : List (Call × Answer) :=
  if x.opcode = 0x01 then
    writeCalls fuel (lpnAt x.slba) (bufferOf x.bytes).page (List.range (x.bytes.length / pageSize))
      ftl
  else if x.opcode = 0x09 then
    trimCalls (bufferOf x.bytes).range (List.range (x.bytes.length / 16)) ftl
  else
    []

variable {x fuel ftl}

/-- The calls lead to the FTL that is left. -/
theorem store_run {ok : Bool} {ftl' : Ftl} (h : x.store fuel ftl = some (ok, ftl')) :
    Ftl.Run Machine.anyCall ftl (x.calls fuel ftl) ftl' := by
  rw [store] at h
  rw [calls]
  split_ifs at h ⊢
  · exact writePages_run h
  · exact trimRanges_run h
  · obtain ⟨_, rfl⟩ := Prod.mk.inj (Option.some.inj h)
    exact .nil

end Performed

/-- The book: the queue of each connection, the commands that wait for data on it, and the
    commands for which all data have been sent. -/
structure Book where
  qid : ℕ → ℕ
  outstanding : ℕ → List Pending
  performed : List Performed

/-- The book before anything has been sent. -/
def Book.init : Book := ⟨fun _ => 0, fun _ => [], []⟩

/-- The number of bytes of data of a command, if it is one with data from the host. -/
def transferTotal (qid : ℕ) (cmd : Command) : Option ℕ :=
  if cmd.opcode = 0x01 then some (cmd.nlb * pageSize)
  else if cmd.opcode = 0x09 ∧ qid ≠ 0 then some (cmd.nr * 16)
  else none

/-- The bytes of data sent along with a command that needs `total` bytes. -/
def Capsule.inline (c : Capsule) (total : ℕ) : List UInt8 :=
  match c.data with
  | none => []
  | some data => data.bytes (min c.dataLen total)

/-- The command of a capsule, with the data sent along. -/
def Capsule.pending (c : Capsule) (total : ℕ) : Pending :=
  ⟨c.cmd.cid, c.cmd.opcode, c.cmd.cdw1011, total, c.inline total⟩

/-- The bytes that a PDU carries. -/
def H2cData.bytes (d : H2cData) : List UInt8 :=
  match d.data with
  | none => []
  | some data => data.bytes d.datal

/-- Adds the bytes that a PDU carries. -/
def Pending.receive (p : Pending) (d : H2cData) : Pending := { p with bytes := p.bytes ++ d.bytes }

namespace Book

/-- What a PDU adds to the book. -/
def next (b : Book) : TcpCall → Book
  | .capsule i c =>
    match transferTotal (b.qid i) c.cmd with
    | some total =>
      -- A command with too much data is refused at once, one without enough waits for the rest.
      if total > tcpMaxIoSize then
        b
      else if (c.inline total).length < total then
        { b with outstanding := Function.update b.outstanding i (c.pending total :: b.outstanding i) }
      else
        { b with performed := b.performed ++ [(c.pending total).performed i] }
    -- A Connect chooses the queue of the connection.
    | none =>
      if c.cmd.opcode = 0x7F ∧ c.cmd.nsid &&& 0xFF = 0x01 then
        { b with qid := Function.update b.qid i (Target.connectQid c) }
      else
        b
  | .h2cData i d =>
    match (b.outstanding i).find? fun p => p.cid == d.cccid with
    | none => b
    | some p =>
      -- The command leaves the book with its last data.
      let rest := (b.outstanding i).filter fun p => p.cid != d.cccid
      if d.last ∧ (p.receive d).bytes.length = p.total then
        { b with
          outstanding := Function.update b.outstanding i rest
          performed := b.performed ++ [(p.receive d).performed i] }
      else
        { b with outstanding := Function.update b.outstanding i (p.receive d :: rest) }
  | .icreq _ _ => b
  | .termReq _ => b

/-- The command whose last data a PDU brings, with all data that have been sent for it. -/
def uses (b : Book) : TcpCall → Option Performed
  | .capsule i c =>
    match transferTotal (b.qid i) c.cmd with
    | some total =>
      if total > tcpMaxIoSize then none
      else if (c.inline total).length < total then none
      else some ((c.pending total).performed i)
    | none => none
  | .h2cData i d =>
    match (b.outstanding i).find? fun p => p.cid == d.cccid with
    | none => none
    | some p =>
      if d.last ∧ (p.receive d).bytes.length = p.total then some ((p.receive d).performed i)
      else none
  | .icreq _ _ => none
  | .termReq _ => none

/-- A PDU other than a capsule with a command that has no data from the host. -/
def Carries (b : Book) : TcpCall → Prop
  | .capsule i c => transferTotal (b.qid i) c.cmd ≠ none
  | _ => True

/-- The host follows the protocol: a new command has an identifier that is not in use, and data
    are sent for a command that waits, in order, all that are needed, the last ones being marked
    as such. -/
def Obeys (b : Book) : TcpCall → Prop
  | .capsule i c => ∀ p ∈ b.outstanding i, p.cid ≠ c.cmd.cid
  | .h2cData i d => ∃ p ∈ b.outstanding i, p.cid = d.cccid ∧ d.datao = p.bytes.length ∧
    0 < d.datal ∧ p.bytes.length + d.datal ≤ p.total ∧
    (d.last ↔ p.bytes.length + d.datal = p.total) ∧ d.data.isSome
  | .icreq _ _ => True
  | .termReq _ => True

/-- A command with data from the host is not sent while another one waits on the connection. -/
def Sole (b : Book) : TcpCall → Prop
  | .capsule i c => ∀ total, transferTotal (b.qid i) c.cmd = some total → total ≤ tcpMaxIoSize →
    b.outstanding i = []
  | _ => True

/-- The number of bytes at the start of the buffer that a command overwrites. -/
def overwritten (c : Capsule) (total : ℕ) : ℕ :=
  if c.cmd.opcode = 0x09 then total else (c.inline total).length

/-- Data are not stored over those received for a command that waits on another connection. -/
def Apart (b : Book) : TcpCall → Prop
  | .capsule i c => ∀ total, transferTotal (b.qid i) c.cmd = some total → total ≤ tcpMaxIoSize →
    overwritten c total = 0 ∨ ∀ j ≠ i, ∀ p ∈ b.outstanding j, p.bytes = []
  | .h2cData i d => ∀ j ≠ i, ∀ p ∈ b.outstanding j, p.bytes.length ≤ d.datao
  | _ => True

end Book

/-- The target, with the book. -/
def bookMachine : Machine (Target × Book) TcpCall (List Sent) where
  step s call sent s' := tcpMachine.step s.1 call sent s'.1 ∧ s'.2 = s.2.next call

/-! ## Buffers -/

namespace Buffer

variable (buf data : Buffer)

@[simp] theorem length_bytes (len : ℕ) : (buf.bytes len).length = len := by
  rw [bytes, List.length_map, List.length_range]

/-- Bytes before those stored are kept. -/
theorem bytes_store_of_le {k offset : ℕ} (len : ℕ) (h : k ≤ offset ∨ len = 0) :
    (buf.store offset len data).bytes k = buf.bytes k := by
  refine List.map_congr_left fun j hj => ?_
  have hlt := List.mem_range.1 hj
  rw [store, if_neg]
  omega

/-- The bytes up to the end of those stored. -/
theorem bytes_store (offset len : ℕ) :
    (buf.store offset len data).bytes (offset + len) = buf.bytes offset ++ data.bytes len := by
  refine List.ext_getElem ?_ fun j h₁ h₂ => ?_
  · rw [length_bytes, List.length_append, length_bytes, length_bytes]
  · rw [length_bytes] at h₁
    simp only [bytes, List.getElem_map, List.getElem_range, store]
    by_cases hj : j < offset
    · rw [if_neg (by omega), List.getElem_append_left (by simpa using hj)]
      simp
    · rw [if_pos (by omega), List.getElem_append_right (by simpa using hj)]
      simp

end Buffer

/-! ## What the handlers do -/

/-- The identifier in a completion sent on the connection `i`. -/
def Sent.response (i : ℕ) : Sent → Option UInt16
  | .capsuleResp j cpl => if j = i then some cpl.cid else none
  | _ => none

/-- The identifiers in the completions sent on the connection `i`. -/
def responses (i : ℕ) (sent : List Sent) : List UInt16 := sent.filterMap (Sent.response i)

/-- Exactly one completion is sent, on the connection `i`, with the identifier `cid`. -/
def Responds (i : ℕ) (cid : UInt16) (sent : List Sent) : Prop :=
  ∀ j, responses j sent = if i = j then [cid] else []

/-- Other PDUs than completions do not count. -/
theorem Responds.cons {i : ℕ} {cid : UInt16} {s : Sent} {sent : List Sent} (h : Responds i cid sent)
    (hs : ∀ j, s.response j = none) : Responds i cid (s :: sent) := by
  intro j
  rw [responses, List.filterMap_cons, hs j]
  exact h j

namespace Target

variable {t t' : Target} {i fuel total : ℕ} {c : Capsule} {d : H2cData} {sent : List Sent}
  {status : UInt16}

theorem responds_sendCapsuleResp (i : ℕ) (cpl : Completion) :
    Responds i cpl.cid [sendCapsuleResp i cpl] := by
  intro j
  rw [responses, sendCapsuleResp, List.filterMap_cons, Sent.response]
  by_cases hij : i = j
  · rw [if_pos hij, if_pos hij]
    rfl
  · rw [if_neg hij, if_neg hij]
    rfl

theorem responds_sendCompletion (i : ℕ) (cid : UInt16) (sqid : ℕ) (status : UInt16) :
    Responds i cid [sendCompletion i cid sqid status] :=
  responds_sendCapsuleResp i _

/-- The command that waits on a connection, with the data in the buffer. -/
def held (t : Target) (i : ℕ) : Performed :=
  ⟨i, (t.conns i).pendingCmdId, (t.conns i).pendingOpcode,
    if (t.conns i).pendingOpcode = 0x01 then (t.conns i).pendingSlba else 0,
    t.writeBuf.bytes (t.conns i).dataTotal⟩

/-- The data in the buffer are used. -/
theorem perform_eq_store (t : Target) (i fuel : ℕ) : t.perform i fuel =
    ((t.held i).store fuel t.ftl).map fun r => (if r.1 then 0x0000 else 0x0006,
      { t with performed := t.performed ++ [t.held i], ftl := r.2 }) := by
  rw [perform, held, Performed.store]
  dsimp only
  rw [Buffer.length_bytes]
  split_ifs <;> rfl

/-- Using the data of a command changes nothing but the FTL. -/
theorem perform_eq (h : t.perform i fuel = some (status, t')) :
    t'.conns = t.conns ∧ t'.writeBuf = t.writeBuf ∧ t'.ctrl = t.ctrl ∧ t'.executed = t.executed ∧
      t'.performed = t.performed ++ [t.held i] ∧
      ∃ ok, (t.held i).store fuel t.ftl = some (ok, t'.ftl) := by
  rw [perform_eq_store] at h
  obtain ⟨r, hstore, heq⟩ := Option.map_eq_some_iff.1 h
  obtain ⟨_, rfl⟩ := Prod.mk.inj heq
  exact ⟨rfl, rfl, rfl, rfl, rfl, r.1, hstore⟩

/-- Completing a command: its data are used, and it does not wait any more. -/
theorem complete_eq (h : t.complete i fuel = some (sent, t')) :
    Responds i (t.conns i).pendingCmdId sent ∧
      t'.conns = Function.update t.conns i
        { t.conns i with hasData := false, dataLen := 0, dataTotal := 0 } ∧
      t'.writeBuf = t.writeBuf ∧ t'.performed = t.performed ++ [t.held i] ∧
      t'.executed = t.executed ∧ ∃ ok, (t.held i).store fuel t.ftl = some (ok, t'.ftl) := by
  obtain ⟨⟨status, t₁⟩, hperform, heq⟩ := Option.map_eq_some_iff.1 h
  obtain ⟨rfl, rfl⟩ := Prod.mk.inj heq
  obtain ⟨hconns, hbuf, _, hexecuted, hperformed, hstore⟩ := perform_eq hperform
  refine ⟨responds_sendCompletion _ _ _ _, ?_, hbuf, hperformed, hexecuted, hstore⟩
  rw [clearPending, setConn]
  dsimp only
  rw [hconns]

/-- A command with data from the host. -/
theorem executeCapsule_transfer (h : transferTotal (t.conns i).qid c.cmd = some total) :
    t.executeCapsule i fuel c = t.transfer i fuel c total := by
  rw [transferTotal] at h
  rw [executeCapsule]
  dsimp only
  split_ifs at h with h₁ h₉
  · rw [if_pos h₁, Option.some.inj h]
  · rw [if_neg h₁, if_pos h₉, Option.some.inj h]

/-- Dispatching a command leaves connections and data alone. -/
theorem dispatch_eq {cmd : Command} {cpl : Completion}
    (h : t.dispatch i fuel cmd = some (cpl, t')) :
    cpl.cid = cmd.cid ∧ t'.conns = t.conns ∧ t'.writeBuf = t.writeBuf ∧
      t'.performed = t.performed ∧ t'.executed = t.executed ∧
      ((t.conns i).qid = 0 → t'.ftl = t.ftl) := by
  rw [dispatch] at h
  obtain ⟨⟨cpl₁, t₁⟩, hr, heq⟩ := Option.map_eq_some_iff.1 h
  obtain ⟨rfl, rfl⟩ := Prod.mk.inj heq
  have hcid : (if cpl₁.status &&& 0x7FFE ≠ 0 then { cpl₁ with status := 0x0000 } else cpl₁).cid =
      cpl₁.cid := by
    split <;> rfl
  dsimp only
  rw [hcid]
  split_ifs at hr with hqid
  · obtain ⟨rfl, rfl⟩ := Prod.mk.inj (Option.some.inj hr)
    refine ⟨?_, rfl, rfl, rfl, rfl, fun _ => rfl⟩
    show (t.ctrl.processAdminCmd cmd).1.cid = cmd.cid
    have hhandled := Ctrl.processAdminCmd_handled t.ctrl cmd
    generalize t.ctrl.processAdminCmd cmd = r at hhandled
    cases hhandled with
    | suspended _ _ hcid _ _ => exact hcid
    | answered _ hcpl _ _ => exact hcpl.cid
  · obtain ⟨r, hio, heq⟩ := Option.map_eq_some_iff.1 hr
    obtain ⟨rfl, rfl⟩ := Prod.mk.inj heq
    exact ⟨(Ctrl.processIoCmd_answers hio).cid, rfl, rfl, rfl, rfl, fun h0 => absurd h0 hqid⟩

/-- What follows the dispatch of a command sends its completion. -/
theorem afterDispatch_eq {cmd : Command} {cpl : Completion}
    (h : t.afterDispatch i fuel cmd cpl = some (sent, t')) :
    Responds i cpl.cid sent ∧ t'.conns = t.conns ∧ t'.writeBuf = t.writeBuf ∧
      t'.performed = t.performed ∧ t'.executed = t.executed ∧
      (cmd.opcode ≠ 0x02 → (t.conns i).qid = 0 → t'.ftl = t.ftl) := by
  rw [afterDispatch] at h
  dsimp only at h
  split_ifs at h with h₈ h₂ hmax
  · obtain ⟨r, _, heq⟩ := Option.map_eq_some_iff.1 h
    obtain ⟨rfl, rfl⟩ := Prod.mk.inj heq
    exact ⟨responds_sendCapsuleResp i _, rfl, rfl, rfl, rfl, fun _ h0 => absurd h0 h₈.2⟩
  · obtain ⟨rfl, rfl⟩ := Prod.mk.inj (Option.some.inj h)
    exact ⟨(responds_sendCapsuleResp i _).cons fun _ => rfl, rfl, rfl, rfl, rfl,
      fun hne => absurd h₂ hne⟩
  · obtain ⟨rfl, rfl⟩ := Prod.mk.inj (Option.some.inj h)
    exact ⟨responds_sendCapsuleResp i _, rfl, rfl, rfl, rfl, fun _ _ => rfl⟩
  · obtain ⟨rfl, rfl⟩ := Prod.mk.inj (Option.some.inj h)
    exact ⟨responds_sendCapsuleResp i _, rfl, rfl, rfl, rfl, fun _ _ => rfl⟩

/-- A command without data from the host: it gets one completion, and at most the queue of the
    connection changes. On the admin queue, it leaves the FTL alone. -/
theorem executeCapsule_other (h : transferTotal (t.conns i).qid c.cmd = none)
    (hexec : t.executeCapsule i fuel c = some (sent, t')) :
    Responds i c.cmd.cid sent ∧
      t'.conns = (if c.cmd.opcode = 0x7F ∧ c.cmd.nsid &&& 0xFF = 0x01 then
        Function.update t.conns i { t.conns i with qid := connectQid c } else t.conns) ∧
      t'.writeBuf = t.writeBuf ∧ t'.performed = t.performed ∧ t'.executed = t.executed ∧
      ((t.conns i).qid = 0 → t'.ftl = t.ftl) := by
  rw [transferTotal] at h
  rw [executeCapsule] at hexec
  dsimp only at hexec
  have h₁ : c.cmd.opcode ≠ 0x01 := fun heq => by simp [heq] at h
  have h₉ : ¬(c.cmd.opcode = 0x09 ∧ (t.conns i).qid ≠ 0) := fun heq => by simp [heq] at h
  rw [if_neg h₁, if_neg h₉] at hexec
  -- The cases of the handler in its order, the commands with data being excluded.
  by_cases h₇ : c.cmd.opcode = 0x7F
  · rw [if_pos h₇] at hexec
    obtain ⟨rfl, rfl⟩ := Prod.mk.inj (Option.some.inj hexec)
    have hfab : (t.fabrics i c).1.cid = c.cmd.cid ∧ (t.fabrics i c).2.conns =
        (if c.cmd.nsid &&& 0xFF = 0x01 then
          Function.update t.conns i { t.conns i with qid := connectQid c } else t.conns) ∧
        (t.fabrics i c).2.writeBuf = t.writeBuf ∧ (t.fabrics i c).2.performed = t.performed ∧
        (t.fabrics i c).2.executed = t.executed ∧ (t.fabrics i c).2.ftl = t.ftl := by
      rw [fabrics]
      dsimp only
      by_cases hc : c.cmd.nsid &&& 0xFF = 0x01
      · rw [if_pos hc, if_pos hc]
        exact ⟨rfl, rfl, rfl, rfl, rfl, rfl⟩
      · rw [if_neg hc, if_neg hc]
        split_ifs <;> exact ⟨rfl, rfl, rfl, rfl, rfl, rfl⟩
    obtain ⟨hcid, hconns, hbuf, hperformed, hexecuted, hftl⟩ := hfab
    refine ⟨?_, ?_, hbuf, hperformed, hexecuted, fun _ => hftl⟩
    · rw [← hcid]
      exact responds_sendCapsuleResp i _
    · rw [hconns]
      simp only [h₇, true_and]
  · rw [if_neg h₇] at hexec
    rw [if_neg fun hn => h₇ hn.1]
    by_cases h₆ : c.cmd.opcode = 0x06
    · rw [if_pos h₆] at hexec
      obtain ⟨rfl, rfl⟩ := Prod.mk.inj (Option.some.inj hexec)
      exact ⟨(responds_sendCompletion i _ _ _).cons fun _ => rfl, rfl, rfl, rfl, rfl, fun _ => rfl⟩
    · rw [if_neg h₆] at hexec
      by_cases h₂ : c.cmd.opcode = 0x02 ∧ (t.conns i).qid = 0
      · rw [if_pos h₂] at hexec
        obtain ⟨rfl, rfl⟩ := Prod.mk.inj (Option.some.inj hexec)
        exact ⟨(responds_sendCompletion i _ _ _).cons fun _ => rfl, rfl, rfl, rfl, rfl, fun _ => rfl⟩
      · rw [if_neg h₂] at hexec
        split at hexec
        · cases hexec
        · next cpl t₁ hdisp =>
          obtain ⟨hcid, hconns, hbuf, hperformed, hexecuted, hftl⟩ := dispatch_eq hdisp
          obtain ⟨hsent, hconns', hbuf', hperformed', hexecuted', hftl'⟩ := afterDispatch_eq hexec
          refine ⟨hcid ▸ hsent, hconns'.trans hconns, hbuf'.trans hbuf,
            hperformed'.trans hperformed, hexecuted'.trans hexecuted, fun h0 => ?_⟩
          rw [hftl' (fun h2 => h₂ ⟨h2, h0⟩) (by rw [hconns]; exact h0), hftl h0]

/-- Receiving data changes nothing but the buffer and the number of bytes received. -/
theorem receive_eq (t : Target) (i : ℕ) (d : H2cData) : ∃ len buf, t.receive i d =
    { t.setConn i { t.conns i with dataLen := len } with writeBuf := buf } := by
  have hsame : t = { t.setConn i { t.conns i with dataLen := (t.conns i).dataLen } with
      writeBuf := t.writeBuf } := by
    show t = { t with conns := Function.update t.conns i (t.conns i) }
    rw [Function.update_eq_self]
  rw [receive]
  cases d.data with
  | none => exact ⟨_, _, hsame⟩
  | some data =>
    dsimp only
    split
    · exact ⟨_, _, rfl⟩
    · exact ⟨_, _, hsame⟩

theorem receive_ftl : (t.receive i d).ftl = t.ftl := by
  obtain ⟨len, buf, h⟩ := receive_eq t i d
  rw [h]
  rfl

end Target

end Nvme

end FtlFirmware
