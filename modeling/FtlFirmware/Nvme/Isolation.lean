import FtlFirmware.Nvme.Exchange

/-!
# The target and the book

The target follows the book of what the hosts send (`Follows`): the record of a connection is that
of the command that waits on it, the buffer starts with the data received for it, and the data
used are those of the book. Every PDU keeps this (`Follows.step`), as long as data are never
stored over those received for another command, and no two commands wait on one connection.
-/

namespace FtlFirmware

namespace Nvme

namespace Target

variable {t t' : Target} {i j fuel total : ℕ} {c : Capsule} {d : H2cData} {sent : List Sent}
  {p : Pending}

/-! ## Commands that wait -/

/-- The record of a connection is that of the command `p`, which waits for data, and the buffer
    starts with the data received for it. -/
structure Waits (conn : Conn) (buf : Buffer) (p : Pending) : Prop where
  hasData : conn.hasData = true
  dataTotal : conn.dataTotal = p.total
  dataLen : conn.dataLen = p.bytes.length
  cid : conn.pendingCmdId = p.cid
  opcode : conn.pendingOpcode = p.opcode
  slba : p.opcode = 0x01 → conn.pendingSlba = p.slba
  lt : p.bytes.length < p.total
  le : p.total ≤ tcpMaxIoSize
  data : buf.bytes p.bytes.length = p.bytes

/-- The commands that wait on a connection are at most the one of its record. -/
inductive Holds (conn : Conn) (buf : Buffer) : List Pending → Prop
  | idle (h : conn.hasData = false) : Holds conn buf []
  | waits {p : Pending} (h : Waits conn buf p) : Holds conn buf [p]

/-- A command waits on, if the data received for it are kept. -/
theorem Holds.of_bytes {conn : Conn} {buf buf' : Buffer} {l : List Pending} (h : Holds conn buf l)
    (hbuf : ∀ p ∈ l, buf'.bytes p.bytes.length = buf.bytes p.bytes.length) :
    Holds conn buf' l := by
  cases h with
  | idle h => exact .idle h
  | waits h => exact .waits { h with data := (hbuf _ List.mem_cons_self).trans h.data }

/-- The state and the queue of a connection are of no concern to the command that waits on it. -/
theorem Holds.session {conn : Conn} {buf : Buffer} {l : List Pending} (h : Holds conn buf l)
    (state : ConnState) (qid : ℕ) (answered terminated : Bool) :
    Holds { conn with state := state, qid := qid, answered := answered, terminated := terminated }
      buf l := by
  cases h with
  | idle h => exact .idle h
  | waits h => exact .waits ⟨h.1, h.2, h.3, h.4, h.5, h.6, h.7, h.8, h.9⟩

/-- The one command that waits. -/
theorem Holds.get {conn : Conn} {buf : Buffer} {p : Pending}
    (h : Holds conn buf [p]) : Waits conn buf p := by
  cases h with
  | waits h => exact h

/-- What a command of the connection `i` with all its data leads to: its completion, and the use
    of its data. -/
structure Done (fuel : ℕ) (t t' : Target) (i : ℕ) (p : Pending) (sent : List Sent) : Prop where
  responds : Responds i p.cid sent
  hasData : (t'.conns i).hasData = false
  qid : (t'.conns i).qid = (t.conns i).qid
  conns : ∀ j ≠ i, t'.conns j = t.conns j
  writeBuf : t'.writeBuf = t.writeBuf
  performed : t'.performed = t.performed ++ [p.performed i]
  store : ∃ ok, (p.performed i).store fuel t.ftl = some (ok, t'.ftl)

/-- The command that waits, with all its data in the buffer. -/
theorem held_eq (hcid : (t.conns i).pendingCmdId = p.cid)
    (hopcode : (t.conns i).pendingOpcode = p.opcode)
    (hslba : p.opcode = 0x01 → (t.conns i).pendingSlba = p.slba)
    (hdata : t.writeBuf.bytes (t.conns i).dataTotal = p.bytes) : t.held i = p.performed i := by
  rw [held, Pending.performed, hcid, hopcode, hdata]
  by_cases h₁ : p.opcode = 0x01
  · rw [if_pos h₁, if_pos h₁, hslba h₁]
  · rw [if_neg h₁, if_neg h₁]

/-- Completing a command all of whose data are in the buffer. -/
theorem done_of_complete (hexec : t.complete i fuel = some (sent, t'))
    (hheld : t.held i = p.performed i) : Done fuel t t' i p sent := by
  obtain ⟨hsent, hconns, hbuf, hperformed, _, hstore⟩ := complete_eq hexec
  have hcid : (t.conns i).pendingCmdId = p.cid := congrArg Performed.cid hheld
  rw [hheld] at hperformed hstore
  refine ⟨hcid ▸ hsent, ?_, ?_, fun j hj => ?_, hbuf, hperformed, hstore⟩
  · rw [hconns, Function.update_self]
  · rw [hconns, Function.update_self]
  · rw [hconns, Function.update_of_ne hj]

/-! ## New commands -/

theorem length_inline : (c.inline total).length ≤ total := by
  rw [Capsule.inline]
  cases c.data with
  | none => exact Nat.zero_le _
  | some data =>
    dsimp only
    rw [Buffer.length_bytes]
    exact Nat.min_le_right _ _

/-- The record of a new command. -/
theorem startTransfer_conns : (t.startTransfer i c total).conns = Function.update t.conns i
    { t.conns i with
      hasData := true
      dataLen := (c.inline total).length
      dataTotal := total
      pendingCmdId := c.cmd.cid
      pendingSqid := (t.conns i).qid
      pendingSlba := if c.cmd.opcode = 0x09 then (t.conns i).pendingSlba else c.cmd.cdw1011
      pendingOpcode := c.cmd.opcode } := by
  rw [startTransfer, Capsule.inline]
  cases c.data with
  | none => rfl
  | some data =>
    dsimp only
    rw [Buffer.length_bytes, setConn]

/-- The buffer starts with the data sent along with a new command. -/
theorem startTransfer_bytes : (t.startTransfer i c total).writeBuf.bytes (c.inline total).length =
    c.inline total := by
  rw [startTransfer, Capsule.inline]
  cases c.data with
  | none => rfl
  | some data =>
    dsimp only
    rw [Buffer.length_bytes]
    have h := Buffer.bytes_store (if c.cmd.opcode = 0x09 then t.writeBuf.store 0 total fun _ => 0
      else t.writeBuf) data 0 (min c.dataLen total)
    rwa [Nat.zero_add] at h

/-- A new command keeps the data in the buffer if it stores none. -/
theorem startTransfer_bytes_of_eq (h : Book.overwritten c total = 0) (k : ℕ) :
    (t.startTransfer i c total).writeBuf.bytes k = t.writeBuf.bytes k := by
  rw [Book.overwritten] at h
  have hlen : (c.inline total).length = 0 := by
    by_cases h₉ : c.cmd.opcode = 0x09
    · rw [if_pos h₉] at h
      exact Nat.le_zero.1 (h ▸ length_inline)
    · rwa [if_neg h₉] at h
  rw [startTransfer]
  rw [Capsule.inline] at hlen
  have hclear : (if c.cmd.opcode = 0x09 then t.writeBuf.store 0 total fun _ => 0
      else t.writeBuf).bytes k = t.writeBuf.bytes k := by
    by_cases h₉ : c.cmd.opcode = 0x09
    · rw [if_pos h₉] at h ⊢
      exact Buffer.bytes_store_of_le _ _ _ (.inr h)
    · rw [if_neg h₉]
  cases hdata : c.data with
  | none => exact hclear
  | some data =>
    rw [hdata] at hlen
    dsimp only at hlen ⊢
    rw [Buffer.length_bytes] at hlen
    rw [hlen, Buffer.bytes_store_of_le _ _ _ (.inr rfl)]
    exact hclear

/-- A new command that has got all its data. -/
theorem held_startTransfer (hlt : ¬(c.inline total).length < total) :
    (t.startTransfer i c total).held i = (c.pending total).performed i := by
  have hconn := congrFun (@startTransfer_conns t i total c) i
  rw [Function.update_self] at hconn
  have heq : (c.inline total).length = total := le_antisymm length_inline (Nat.le_of_not_lt hlt)
  refine held_eq ?_ ?_ (fun h₁ => ?_) ?_
  · rw [hconn]
    rfl
  · rw [hconn]
    rfl
  · have h₁' : c.cmd.opcode = 0x01 := h₁
    rw [hconn, h₁']
    rfl
  · rw [hconn]
    show (t.startTransfer i c total).writeBuf.bytes total = c.inline total
    have h := @startTransfer_bytes t i total c
    rwa [heq] at h

/-- A new command that is not too long: it waits for data, or it is completed. -/
theorem transfer_eq (hmax : ¬total > tcpMaxIoSize) : t.transfer i fuel c total =
    if (c.inline total).length < total then
      some ([.r2t i c.cmd.cid (c.inline total).length (total - (c.inline total).length)],
        t.startTransfer i c total)
    else (t.startTransfer i c total).complete i fuel := by
  have hlen : ((t.startTransfer i c total).conns i).dataLen = (c.inline total).length := by
    rw [startTransfer_conns, Function.update_self]
  rw [transfer, if_neg hmax]
  dsimp only
  rw [hlen]

/-- A new command: it waits for data, which are asked for, or it has got all of them. -/
theorem transfer_cases (hmax : ¬total > tcpMaxIoSize)
    (hexec : t.transfer i fuel c total = some (sent, t')) :
    ((c.inline total).length < total ∧ (∀ j, responses j sent = []) ∧
        t' = t.startTransfer i c total) ∨
      (¬(c.inline total).length < total ∧
        Done fuel (t.startTransfer i c total) t' i (c.pending total) sent) := by
  rw [transfer_eq hmax] at hexec
  by_cases hlt : (c.inline total).length < total
  · rw [if_pos hlt] at hexec
    obtain ⟨rfl, rfl⟩ := Prod.mk.inj (Option.some.inj hexec)
    exact .inl ⟨hlt, fun _ => rfl, rfl⟩
  · rw [if_neg hlt] at hexec
    exact .inr ⟨hlt, done_of_complete hexec (held_startTransfer hlt)⟩

/-- A new command that waits for data. -/
theorem waits_startTransfer (hmax : ¬total > tcpMaxIoSize) (hlt : (c.inline total).length < total) :
    Waits ((t.startTransfer i c total).conns i) (t.startTransfer i c total).writeBuf
      (c.pending total) := by
  have hconn := congrFun (@startTransfer_conns t i total c) i
  rw [Function.update_self] at hconn
  rw [hconn]
  refine ⟨rfl, rfl, rfl, rfl, rfl, fun h₁ => ?_, hlt, Nat.le_of_not_gt hmax, startTransfer_bytes⟩
  have h₁' : c.cmd.opcode = 0x01 := h₁
  rw [h₁']
  rfl

/-! ## Data -/

/-- Data that follow those received for the command that waits. -/
theorem Waits.receive (h : Waits (t.conns i) t.writeBuf p) (hdatao : d.datao = p.bytes.length)
    (hdatal : 0 < d.datal) (hle : p.bytes.length + d.datal ≤ p.total) (hdata : d.data.isSome) :
    (t.receive i d).conns = Function.update t.conns i
        { t.conns i with dataLen := (p.receive d).bytes.length } ∧
      (p.receive d).bytes.length = p.bytes.length + d.datal ∧
      (t.receive i d).writeBuf.bytes (p.receive d).bytes.length = (p.receive d).bytes ∧
      (∀ k ≤ d.datao, (t.receive i d).writeBuf.bytes k = t.writeBuf.bytes k) ∧
      (t.receive i d).performed = t.performed := by
  obtain ⟨data, hsome⟩ := Option.isSome_iff_exists.1 hdata
  have hbytes : d.bytes = data.bytes d.datal := by rw [H2cData.bytes, hsome]
  have hlen : (p.receive d).bytes.length = p.bytes.length + d.datal := by
    rw [Pending.receive, List.length_append, hbytes, Buffer.length_bytes]
  have hmax := h.le
  -- No sum or difference wraps, as the command has at most a megabyte of data.
  have hrest : min d.datal ((p.total + 2 ^ 32 - d.datao) % 2 ^ 32) = d.datal := by
    simp only [tcpMaxIoSize] at hmax
    omega
  have hsum : (d.datao + d.datal) % 2 ^ 32 = p.bytes.length + d.datal := by
    simp only [tcpMaxIoSize] at hmax
    omega
  have hadd : (p.bytes.length + d.datal) % 2 ^ 32 = p.bytes.length + d.datal := by
    rw [← hdatao, hsum, hdatao]
  have heq : t.receive i d =
      { t.setConn i { t.conns i with dataLen := (p.receive d).bytes.length } with
        writeBuf := t.writeBuf.store d.datao d.datal data } := by
    rw [Target.receive, hsome]
    dsimp only
    rw [h.dataTotal, hrest, hsum, if_pos ⟨hdatal, hle⟩, h.dataLen, hadd, hlen]
  rw [heq]
  refine ⟨rfl, hlen, ?_, fun k hk => Buffer.bytes_store_of_le _ _ _ (.inl hk), rfl⟩
  dsimp only
  rw [hlen, hdatao, Buffer.bytes_store, h.data, Pending.receive, hbytes]

/-- Data for the command that waits complete it, or are all that happens. -/
theorem Waits.handleH2cData (h : Waits (t.conns i) t.writeBuf p)
    (hdatao : d.datao = p.bytes.length) (hdatal : 0 < d.datal)
    (hle : p.bytes.length + d.datal ≤ p.total) (hdata : d.data.isSome) :
    t.handleH2cData i fuel d =
      if d.last ∧ (p.receive d).bytes.length = p.total then
        ((t.receive i d).complete i fuel).map fun r =>
          (r.1, t.record i (t.conns i).pendingSqid r.2)
      else
        some ([], t.receive i d) := by
  obtain ⟨hconns, hlen, _⟩ := h.receive hdatao hdatal hle hdata
  have hwait : ¬((t.conns i).hasData = false ∨ (t.conns i).dataTotal = 0) := by
    rw [h.hasData, h.dataTotal]
    have hlt := h.lt
    simp only [Bool.true_eq_false, false_or]
    omega
  have hiff : d.last ∧ (p.receive d).bytes.length ≥ p.total ↔
      d.last ∧ (p.receive d).bytes.length = p.total := by
    rw [hlen]
    exact and_congr_right fun _ => ⟨fun hge => le_antisymm hle hge, fun heq => heq.ge⟩
  rw [Target.handleH2cData, if_neg hwait]
  dsimp only
  rw [hconns, Function.update_self]
  dsimp only
  rw [h.dataTotal, if_congr hiff rfl rfl]

/-- The last data for the command that waits. -/
theorem Waits.held_receive (h : Waits (t.conns i) t.writeBuf p)
    (hdatao : d.datao = p.bytes.length) (hdatal : 0 < d.datal)
    (htotal : p.bytes.length + d.datal = p.total) (hdata : d.data.isSome) :
    (t.receive i d).held i = (p.receive d).performed i := by
  obtain ⟨hconns, hlen, hbytes, _⟩ := h.receive hdatao hdatal (Nat.le_of_eq htotal) hdata
  have hconn := congrFun hconns i
  rw [Function.update_self] at hconn
  refine held_eq ?_ ?_ ?_ ?_
  · rw [hconn]
    exact h.cid
  · rw [hconn]
    exact h.opcode
  · rw [hconn]
    exact h.slba
  · rw [hconn]
    show (t.receive i d).writeBuf.bytes (t.conns i).dataTotal = _
    rw [h.dataTotal, ← htotal, ← hlen]
    exact hbytes

end Target

/-! ## The book -/

/-- The identifiers of the commands submitted on the connection `i`. -/
def TcpCall.submitted (i : ℕ) : TcpCall → List UInt16
  | .capsule j c => if j = i then [c.cmd.cid] else []
  | .icreq _ _ => []
  | .h2cData _ _ => []
  | .termReq _ => []

/-- The identifiers of the commands that wait for data on the connection `i`. -/
def Book.waiting (b : Book) (i : ℕ) : List UInt16 := (b.outstanding i).map Pending.cid

/-- The target follows the book. -/
structure Follows (t : Target) (b : Book) : Prop where
  qid : ∀ i, (t.conns i).qid = b.qid i
  holds : ∀ i, Target.Holds (t.conns i) t.writeBuf (b.outstanding i)
  performed : t.performed = b.performed

/-- Commands submitted, or waiting before, on a connection have been answered, or wait after. -/
def Balanced (b : Book) (call : TcpCall) (sent : List Sent) : Prop :=
  ∀ j, (call.submitted j ++ b.waiting j).Perm (responses j sent ++ (b.next call).waiting j)

/-- What a PDU does to the FTL, apart from commands without data from the host: the data that have
    been sent for the command that it completes are used, by the FTL calls for them, and without
    such a command there is no change. -/
structure Stores (fuel : ℕ) (t : Target) (b : Book) (call : TcpCall) (t' : Target) : Prop where
  used (x : Performed) : b.uses call = some x →
    (∃ ok, x.store fuel t.ftl = some (ok, t'.ftl)) ∧
      Ftl.Run Machine.anyCall t.ftl (x.calls fuel t.ftl) t'.ftl
  kept : b.uses call = none → b.Carries call → t'.ftl = t.ftl

section Steps

variable {t t' : Target} {b : Book} {i j fuel : ℕ} {c : Capsule} {d : H2cData} {sent : List Sent}
  {call : TcpCall}

/-- Only connections, data and the uses of them matter. -/
theorem Follows.of_eq (h : Follows t b) (hconns : t'.conns = t.conns)
    (hbuf : t'.writeBuf = t.writeBuf) (hperformed : t'.performed = t.performed) :
    Follows t' b :=
  ⟨fun i => hconns ▸ h.qid i, fun i => hconns ▸ hbuf ▸ h.holds i, hperformed ▸ h.performed⟩

/-- What holds while the command of the connection `i` is at work: the other connections follow
    the book. -/
structure Keeps (t : Target) (b : Book) (i : ℕ) : Prop where
  qid : ∀ j, (t.conns j).qid = b.qid j
  holds : ∀ j ≠ i, Target.Holds (t.conns j) t.writeBuf (b.outstanding j)
  performed : t.performed = b.performed

/-- Only the connection `i` changes, and the data received on the others are kept. -/
theorem Follows.keeps {conn : Conn} (h : Follows t b)
    (hconns : t'.conns = Function.update t.conns i conn) (hqid : conn.qid = (t.conns i).qid)
    (hbuf : ∀ j ≠ i, ∀ p ∈ b.outstanding j,
      t'.writeBuf.bytes p.bytes.length = t.writeBuf.bytes p.bytes.length)
    (hperformed : t'.performed = t.performed) : Keeps t' b i := by
  refine ⟨fun j => ?_, fun j hj => ?_, hperformed.trans h.performed⟩
  · rw [hconns]
    by_cases hj : j = i
    · subst hj
      rw [Function.update_self, hqid, h.qid j]
    · rw [Function.update_of_ne hj, h.qid j]
  · rw [hconns, Function.update_of_ne hj]
    exact (h.holds j).of_bytes (hbuf j hj)

/-- The command of the connection waits. -/
theorem Keeps.follows {l : List Pending} (h : Keeps t b i)
    (hholds : Target.Holds (t.conns i) t.writeBuf l) :
    Follows t { b with outstanding := Function.update b.outstanding i l } := by
  refine ⟨h.qid, fun j => ?_, h.performed⟩
  dsimp only
  by_cases hj : j = i
  · subst hj
    rwa [Function.update_self]
  · rw [Function.update_of_ne hj]
    exact h.holds j hj

/-- The command of the connection is completed. -/
theorem Keeps.done {p : Pending} (h : Keeps t b i) (hdone : Target.Done fuel t t' i p sent) :
    Follows t' { b with
      outstanding := Function.update b.outstanding i []
      performed := b.performed ++ [p.performed i] } := by
  refine ⟨fun j => ?_, fun j => ?_, ?_⟩
  · by_cases hj : j = i
    · subst hj
      rw [hdone.qid, h.qid]
    · rw [hdone.conns j hj, h.qid]
  · dsimp only
    by_cases hj : j = i
    · subst hj
      rw [Function.update_self]
      exact .idle hdone.hasData
    · rw [Function.update_of_ne hj, hdone.conns j hj, hdone.writeBuf]
      exact h.holds j hj
  · rw [hdone.performed, h.performed]

/-- A command that is answered at once. -/
theorem balanced_of_responds (hsent : Responds i c.cmd.cid sent)
    (hnext : (b.next (.capsule i c)).outstanding = b.outstanding) :
    Balanced b (.capsule i c) sent := by
  intro j
  rw [hsent j, Book.waiting, Book.waiting, hnext]
  rfl

/-- A command without data from the host. -/
theorem Follows.other (h : Follows t b) (htotal : transferTotal (b.qid i) c.cmd = none)
    (hexec : t.executeCapsule i fuel c = some (sent, t')) :
    Follows t' (b.next (.capsule i c)) ∧ Balanced b (.capsule i c) sent := by
  have htotal' := htotal
  rw [← h.qid i] at htotal'
  obtain ⟨hsent, hconns, hbuf, hperformed, _⟩ := Target.executeCapsule_other htotal' hexec
  have hnext : b.next (.capsule i c) =
      if c.cmd.opcode = 0x7F ∧ c.cmd.nsid &&& 0xFF = 0x01 then
        { b with qid := Function.update b.qid i (Target.connectQid c) }
      else b := by
    rw [Book.next, htotal]
  by_cases hconnect : c.cmd.opcode = 0x7F ∧ c.cmd.nsid &&& 0xFF = 0x01
  · rw [if_pos hconnect] at hnext hconns
    refine ⟨?_, balanced_of_responds hsent (by rw [hnext])⟩
    rw [hnext]
    refine ⟨fun j => ?_, fun j => ?_, hperformed.trans h.performed⟩
    · rw [hconns]
      dsimp only
      by_cases hj : j = i
      · subst hj
        rw [Function.update_self, Function.update_self]
      · rw [Function.update_of_ne hj, Function.update_of_ne hj]
        exact h.qid j
    · rw [hconns, hbuf]
      by_cases hj : j = i
      · subst hj
        rw [Function.update_self]
        exact (h.holds j).session _ _ _ _
      · rw [Function.update_of_ne hj]
        exact h.holds j
  · rw [if_neg hconnect] at hnext hconns
    rw [hnext]
    exact ⟨h.of_eq hconns hbuf hperformed, balanced_of_responds hsent (by rw [hnext])⟩

/-- A command with data from the host, if no other one waits on the connection. -/
theorem Follows.transfer {total : ℕ} (h : Follows t b)
    (htotal : transferTotal (b.qid i) c.cmd = some total)
    (hsole : b.Sole (.capsule i c)) (hapart : b.Apart (.capsule i c))
    (hexec : t.transfer i fuel c total = some (sent, t')) :
    Follows t' (b.next (.capsule i c)) ∧ Balanced b (.capsule i c) sent := by
  have hnext : b.next (.capsule i c) = if total > tcpMaxIoSize then b
      else if (c.inline total).length < total then
        { b with
          outstanding := Function.update b.outstanding i (c.pending total :: b.outstanding i) }
      else { b with performed := b.performed ++ [(c.pending total).performed i] } := by
    rw [Book.next, htotal]
  by_cases hmax : total > tcpMaxIoSize
  · -- Too many bytes: the command is refused.
    rw [if_pos hmax] at hnext
    rw [Target.transfer, if_pos hmax] at hexec
    obtain ⟨rfl, rfl⟩ := Prod.mk.inj (Option.some.inj hexec)
    rw [hnext]
    exact ⟨h, balanced_of_responds (Target.responds_sendCompletion i _ _ _) (by rw [hnext])⟩
  rw [if_neg hmax] at hnext
  have hnone := hsole total htotal (Nat.le_of_not_gt hmax)
  rw [hnone] at hnext
  have hkeeps : Keeps (t.startTransfer i c total) b i := by
    refine h.keeps Target.startTransfer_conns rfl (fun j hj p hp => ?_) rfl
    rcases hapart total htotal (Nat.le_of_not_gt hmax) with hzero | hempty
    · exact Target.startTransfer_bytes_of_eq hzero _
    · rw [hempty j hj p hp]
      rfl
  rcases Target.transfer_cases hmax hexec with ⟨hlt, hsent, rfl⟩ | ⟨hlt, hdone⟩
  · -- Data are asked for.
    rw [if_pos hlt] at hnext
    refine ⟨?_, fun j => ?_⟩
    · rw [hnext]
      exact hkeeps.follows (.waits (Target.waits_startTransfer hmax hlt))
    · rw [hsent j, hnext, Book.waiting, Book.waiting, TcpCall.submitted]
      dsimp only
      by_cases hj : j = i
      · subst hj
        rw [if_pos rfl, Function.update_self, hnone]
        exact .refl _
      · rw [if_neg (Ne.symm hj), Function.update_of_ne hj]
  · -- All data have come with the command.
    rw [if_neg hlt] at hnext
    have hfollows := hkeeps.done hdone
    rw [← hnone, Function.update_eq_self] at hfollows
    refine ⟨?_, balanced_of_responds hdone.responds (by rw [hnext])⟩
    rw [hnext]
    exact hfollows

/-- The only command that waits on a connection gets data. -/
theorem next_h2cData {p : Pending} (hlist : b.outstanding i = [p]) (hcid : p.cid = d.cccid) :
    b.next (.h2cData i d) =
      if d.last ∧ (p.receive d).bytes.length = p.total then
        { b with
          outstanding := Function.update b.outstanding i []
          performed := b.performed ++ [(p.receive d).performed i] }
      else
        { b with outstanding := Function.update b.outstanding i [p.receive d] } := by
  rw [Book.next, hlist]
  simp only [List.find?_cons, hcid, beq_self_eq_true, List.filter_cons, bne_self_eq_false,
    List.filter_nil, Bool.false_eq_true, if_false]

/-- Data for the command that waits. -/
theorem Follows.h2cData (h : Follows t b) (hobeys : b.Obeys (.h2cData i d))
    (hapart : b.Apart (.h2cData i d)) (hexec : t.handleH2cData i fuel d = some (sent, t')) :
    Follows t' (b.next (.h2cData i d)) ∧ Balanced b (.h2cData i d) sent := by
  obtain ⟨p, hp, hcid, hdatao, hdatal, hle, hlast, hdata⟩ := hobeys
  have hholds := h.holds i
  generalize hlist : b.outstanding i = l at hholds hp
  cases hholds with
  | idle => exact absurd hp List.not_mem_nil
  | waits hwaits =>
    obtain rfl := List.mem_singleton.1 hp
    obtain ⟨hconns, hlen, hbytes, hkept, hperformed⟩ := hwaits.receive hdatao hdatal hle hdata
    have hconn := congrFun hconns i
    rw [Function.update_self] at hconn
    have hkeeps : Keeps (t.receive i d) b i :=
      h.keeps hconns rfl (fun j hj q hq => hkept _ (hapart j hj q hq)) hperformed
    have hnext := next_h2cData (d := d) hlist hcid
    rw [hwaits.handleH2cData hdatao hdatal hle hdata] at hexec
    by_cases hdone : d.last ∧ (p.receive d).bytes.length = p.total
    · -- The last data: the command is completed.
      rw [if_pos hdone] at hexec hnext
      obtain ⟨⟨sent₁, t₁⟩, hcomplete, heq⟩ := Option.map_eq_some_iff.1 hexec
      obtain ⟨rfl, rfl⟩ := Prod.mk.inj heq
      have hdone' := Target.done_of_complete hcomplete
        (hwaits.held_receive hdatao hdatal (hlen ▸ hdone.2) hdata)
      refine ⟨?_, fun j => ?_⟩
      · rw [hnext]
        exact (hkeeps.done hdone').of_eq rfl rfl rfl
      · rw [hdone'.responds j, hnext, Book.waiting, Book.waiting, TcpCall.submitted]
        dsimp only
        by_cases hj : j = i
        · subst hj
          rw [if_pos rfl, Function.update_self, hlist]
          exact .refl _
        · rw [if_neg (Ne.symm hj), Function.update_of_ne hj]
    · -- More data are needed.
      have hlt : (p.receive d).bytes.length < p.total := by
        rw [hlen] at hdone ⊢
        have hne : p.bytes.length + d.datal ≠ p.total := fun heq => hdone ⟨hlast.2 heq, heq⟩
        omega
      rw [if_neg hdone] at hexec hnext
      obtain ⟨rfl, rfl⟩ := Prod.mk.inj (Option.some.inj hexec)
      refine ⟨?_, fun j => ?_⟩
      · rw [hnext]
        refine hkeeps.follows (.waits ?_)
        rw [hconn]
        exact ⟨hwaits.hasData, hwaits.dataTotal, rfl, hwaits.cid, hwaits.opcode, hwaits.slba, hlt,
          hwaits.le, hbytes⟩
      · rw [hnext, Book.waiting, Book.waiting, TcpCall.submitted]
        dsimp only
        by_cases hj : j = i
        · subst hj
          rw [Function.update_self, hlist]
          exact .refl _
        · rw [Function.update_of_ne hj]
          exact .refl _

/-- A PDU that only changes the state of a connection. -/
theorem Follows.setState {conn : Conn} (h : Follows t b) (hqid : conn.qid = (t.conns i).qid)
    (hholds : Target.Holds conn t.writeBuf (b.outstanding i)) : Follows (t.setConn i conn) b := by
  have hkeeps : Keeps (t.setConn i conn) b i := h.keeps rfl hqid (fun _ _ _ _ => rfl) rfl
  have hfollows := hkeeps.follows (l := b.outstanding i) (by
    rw [Target.setConn]
    dsimp only
    rwa [Function.update_self])
  rwa [Function.update_eq_self] at hfollows

/-- A PDU of another kind than commands and data. -/
theorem balanced_of_next (hsubmitted : ∀ j, call.submitted j = [])
    (hsent : ∀ j, responses j sent = []) (hnext : b.next call = b) : Balanced b call sent := by
  intro j
  rw [hsubmitted j, hsent j, hnext]

/-- The target follows the book, if no two commands wait on one connection and no data are stored
    over those received for another command. -/
theorem Follows.step (h : Follows t b) (hobeys : b.Obeys call) (hsole : b.Sole call)
    (hapart : b.Apart call) (hexec : tcpExec fuel t call = some (sent, t')) :
    Follows t' (b.next call) ∧ Balanced b call sent := by
  cases call with
  | icreq i answer =>
    rw [tcpExec, Target.handleIcreq] at hexec
    cases answer with
    | false =>
      obtain ⟨rfl, rfl⟩ := Prod.mk.inj (Option.some.inj hexec)
      exact ⟨h, balanced_of_next (fun _ => rfl) (fun _ => rfl) rfl⟩
    | true =>
      obtain ⟨rfl, rfl⟩ := Prod.mk.inj (Option.some.inj hexec)
      exact ⟨h.setState rfl ((h.holds i).session _ _ _ _),
        balanced_of_next (fun _ => rfl) (fun _ => rfl) rfl⟩
  | capsule i c =>
    rw [tcpExec, Target.handleCapsuleCmd] at hexec
    obtain ⟨⟨sent₁, t₁⟩, hcapsule, heq⟩ := Option.map_eq_some_iff.1 hexec
    obtain ⟨rfl, rfl⟩ := Prod.mk.inj heq
    have hstep : Follows t₁ (b.next (.capsule i c)) ∧ Balanced b (.capsule i c) sent₁ := by
      cases htotal : transferTotal (b.qid i) c.cmd with
      | none => exact h.other htotal hcapsule
      | some total =>
        have htotal' := htotal
        rw [← h.qid i] at htotal'
        rw [Target.executeCapsule_transfer htotal'] at hcapsule
        exact h.transfer htotal hsole hapart hcapsule
    exact ⟨hstep.1.of_eq rfl rfl rfl, hstep.2⟩
  | h2cData i d => exact h.h2cData hobeys hapart hexec
  | termReq i =>
    obtain ⟨rfl, rfl⟩ := Prod.mk.inj (Option.some.inj hexec)
    exact ⟨h.setState rfl ((h.holds i).session _ _ _ _),
      balanced_of_next (fun _ => rfl) (fun _ => rfl) rfl⟩

/-- The FTL is left as it is. -/
theorem Stores.of_eq (huses : b.uses call = none) (hftl : t'.ftl = t.ftl) :
    Stores fuel t b call t' :=
  ⟨fun x hx => (Option.some_ne_none x (hx.symm.trans huses)).elim, fun _ _ => hftl⟩

/-- A command with all its data uses them. -/
theorem Stores.of_done {t₁ t₂ : Target} {p : Pending} (hdone : Target.Done fuel t₁ t₂ i p sent)
    (huses : b.uses call = some (p.performed i)) (hfirst : t₁.ftl = t.ftl)
    (hlast : t'.ftl = t₂.ftl) : Stores fuel t b call t' := by
  obtain ⟨ok, hstore⟩ := hdone.store
  rw [hfirst, ← hlast] at hstore
  refine ⟨fun x hx => ?_, fun hnone => (Option.some_ne_none _ (huses.symm.trans hnone)).elim⟩
  obtain rfl := Option.some.inj (huses.symm.trans hx)
  exact ⟨⟨ok, hstore⟩, Performed.store_run hstore⟩

theorem uses_capsule_none (htotal : transferTotal (b.qid i) c.cmd = none) :
    b.uses (.capsule i c) = none := by
  rw [Book.uses, htotal]

/-- The data of a capsule are used if they are whole. -/
theorem uses_capsule {total : ℕ} (htotal : transferTotal (b.qid i) c.cmd = some total) :
    b.uses (.capsule i c) =
      if total > tcpMaxIoSize then none
      else if (c.inline total).length < total then none
      else some ((c.pending total).performed i) := by
  rw [Book.uses, htotal]

/-- The only command that waits on a connection, for which all data have come. -/
theorem uses_h2cData {p : Pending} (hlist : b.outstanding i = [p]) (hcid : p.cid = d.cccid) :
    b.uses (.h2cData i d) =
      if d.last ∧ (p.receive d).bytes.length = p.total then some ((p.receive d).performed i)
      else none := by
  rw [Book.uses, hlist]
  simp only [List.find?_cons, hcid, beq_self_eq_true]

/-- A target that follows the book uses the data that have been sent. -/
theorem Follows.stores (h : Follows t b) (hobeys : b.Obeys call)
    (hexec : tcpExec fuel t call = some (sent, t')) : Stores fuel t b call t' := by
  cases call with
  | icreq i answer =>
    rw [tcpExec, Target.handleIcreq] at hexec
    cases answer with
    | false =>
      obtain ⟨rfl, rfl⟩ := Prod.mk.inj (Option.some.inj hexec)
      exact .of_eq rfl rfl
    | true =>
      obtain ⟨rfl, rfl⟩ := Prod.mk.inj (Option.some.inj hexec)
      exact .of_eq rfl rfl
  | capsule i c =>
    rw [tcpExec, Target.handleCapsuleCmd] at hexec
    obtain ⟨⟨sent₁, t₁⟩, hcapsule, heq⟩ := Option.map_eq_some_iff.1 hexec
    obtain ⟨rfl, rfl⟩ := Prod.mk.inj heq
    cases htotal : transferTotal (b.qid i) c.cmd with
    | none =>
      exact ⟨fun x hx => (Option.some_ne_none x (hx.symm.trans (uses_capsule_none htotal))).elim,
        fun _ hcarries => absurd htotal hcarries⟩
    | some total =>
      have huses := uses_capsule (b := b) (c := c) htotal
      rw [← h.qid i] at htotal
      rw [Target.executeCapsule_transfer htotal] at hcapsule
      by_cases hmax : total > tcpMaxIoSize
      · rw [Target.transfer, if_pos hmax] at hcapsule
        obtain ⟨rfl, rfl⟩ := Prod.mk.inj (Option.some.inj hcapsule)
        exact .of_eq (huses.trans (if_pos hmax)) rfl
      -- The data sent along are all, or the command waits for the rest.
      rcases Target.transfer_cases hmax hcapsule with ⟨hlt, -, rfl⟩ | ⟨hlt, hdone⟩
      · exact .of_eq (huses.trans ((if_neg hmax).trans (if_pos hlt))) rfl
      · exact .of_done hdone (huses.trans ((if_neg hmax).trans (if_neg hlt))) rfl rfl
  | h2cData i d =>
    obtain ⟨p, hp, hcid, hdatao, hdatal, hle, hlast, hdata⟩ := hobeys
    have hholds := h.holds i
    generalize hlist : b.outstanding i = l at hholds hp
    cases hholds with
    | idle => exact absurd hp List.not_mem_nil
    | waits hwaits =>
      obtain rfl := List.mem_singleton.1 hp
      have huses := uses_h2cData (d := d) hlist hcid
      rw [tcpExec, hwaits.handleH2cData hdatao hdatal hle hdata] at hexec
      by_cases hdone : d.last ∧ (p.receive d).bytes.length = p.total
      · rw [if_pos hdone] at hexec huses
        obtain ⟨⟨sent₁, t₁⟩, hcomplete, heq⟩ := Option.map_eq_some_iff.1 hexec
        obtain ⟨rfl, rfl⟩ := Prod.mk.inj heq
        exact .of_done (Target.done_of_complete hcomplete
          (hwaits.held_receive hdatao hdatal (hlast.1 hdone.1) hdata)) huses
          Target.receive_ftl rfl
      · rw [if_neg hdone] at hexec huses
        obtain ⟨rfl, rfl⟩ := Prod.mk.inj (Option.some.inj hexec)
        exact .of_eq huses Target.receive_ftl
  | termReq i =>
    obtain ⟨rfl, rfl⟩ := Prod.mk.inj (Option.some.inj hexec)
    exact .of_eq rfl rfl

end Steps

end Nvme

end FtlFirmware
