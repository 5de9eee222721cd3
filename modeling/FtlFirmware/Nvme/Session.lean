import FtlFirmware.Nvme.Isolation

/-!
# Sessions

When commands are executed on a connection: between the answer to its initialization and a
request for its termination. Commands of the admin queue leave the FTL alone (`Executed.Lawful`).

The target does not look at the state of a connection, nor at its queue when it executes a Write.
The law holds if the host does not rely on it (`Target.Regular`): commands are executed only
between initialization and termination, and no Write is executed on the admin queue, unless it
fails at its first block (`tcp_session`).
-/

namespace FtlFirmware

namespace Nvme

/-- The command has been executed after the answer to an initialization, and before a request for
    termination. On the admin queue, the FTL has been left alone. -/
structure Executed.Lawful (e : Executed) : Prop where
  answered : e.answered = true
  terminated : e.terminated = false
  ftl : e.qid = 0 → e.after = e.before

namespace Target

/-- Data with which the command that waits on the connection `i` is completed. -/
def Completes (t : Target) (i : ℕ) (d : H2cData) : Prop :=
  (t.conns i).hasData = true ∧ (t.conns i).dataTotal ≠ 0 ∧ d.last ∧
    ((t.receive i d).conns i).dataLen ≥ ((t.receive i d).conns i).dataTotal

/-- A command is executed only between initialization and termination. No Write of the admin queue
    gets all its data, unless it is one of no block, or its first block does not exist. -/
def Regular (t : Target) : TcpCall → Prop
  | .capsule i c => (t.conns i).answered = true ∧ (t.conns i).terminated = false ∧
    ((t.conns i).qid = 0 → c.cmd.opcode = 0x01 → c.cmd.nlb * pageSize ≤ tcpMaxIoSize →
      (c.inline (c.cmd.nlb * pageSize)).length = c.cmd.nlb * pageSize →
      c.cmd.nlb = 0 ∨ totalLpns ≤ lpnAt c.cmd.cdw1011 0)
  | .h2cData i d => t.Completes i d →
    (t.conns i).answered = true ∧ (t.conns i).terminated = false ∧
      ((t.conns i).pendingSqid = 0 → (t.conns i).pendingOpcode = 0x01 →
        totalLpns ≤ lpnAt (t.conns i).pendingSlba 0)
  | .icreq _ _ => True
  | .termReq _ => True

variable {t t' : Target} {i fuel total : ℕ} {c : Capsule} {d : H2cData} {sent : List Sent}
  {status : UInt16}

/-- No pages are written if there are none, or the first one does not exist. -/
theorem writePages_of_le {lpn : ℕ → ℕ} {data : ℕ → PageData} {n : ℕ} {ftl ftl' : Ftl} {ok : Bool}
    (h : n = 0 ∨ totalLpns ≤ lpn 0) (hexec : writePages fuel lpn data (List.range n) ftl =
      some (ok, ftl')) : ftl' = ftl := by
  cases n with
  | zero =>
    obtain ⟨_, rfl⟩ := Prod.mk.inj (Option.some.inj hexec)
    rfl
  | succ n =>
    have hle := h.resolve_left n.succ_ne_zero
    have hwrite : ftl.write fuel (lpn 0) (data 0) = some (.errParam, ftl) := by
      rw [Ftl.write]
      split <;> rfl
    rw [List.range_succ_eq_map, writePages, hwrite] at hexec
    obtain ⟨_, rfl⟩ := Prod.mk.inj (Option.some.inj hexec)
    rfl

/-- Using the data of a command, which is not a Dataset Management, leaves the FTL alone if no
    page is written. -/
theorem perform_ftl (h₉ : (t.conns i).pendingOpcode ≠ 0x09)
    (h₁ : (t.conns i).pendingOpcode = 0x01 →
      (t.conns i).dataTotal / pageSize = 0 ∨ totalLpns ≤ lpnAt (t.conns i).pendingSlba 0)
    (hexec : t.perform i fuel = some (status, t')) : t'.ftl = t.ftl := by
  rw [perform] at hexec
  dsimp only at hexec
  by_cases hop : (t.conns i).pendingOpcode = 0x01
  · rw [if_pos hop] at hexec
    obtain ⟨r, hwrite, heq⟩ := Option.map_eq_some_iff.1 hexec
    obtain ⟨_, rfl⟩ := Prod.mk.inj heq
    exact writePages_of_le (h₁ hop) hwrite
  · rw [if_neg hop, if_neg h₉] at hexec
    obtain ⟨_, rfl⟩ := Prod.mk.inj (Option.some.inj hexec)
    rfl

/-- The same for its completion. -/
theorem complete_ftl (h₉ : (t.conns i).pendingOpcode ≠ 0x09)
    (h₁ : (t.conns i).pendingOpcode = 0x01 →
      (t.conns i).dataTotal / pageSize = 0 ∨ totalLpns ≤ lpnAt (t.conns i).pendingSlba 0)
    (hexec : t.complete i fuel = some (sent, t')) : t'.ftl = t.ftl := by
  obtain ⟨⟨status, t₁⟩, hperform, heq⟩ := Option.map_eq_some_iff.1 hexec
  obtain ⟨_, rfl⟩ := Prod.mk.inj heq
  show t₁.ftl = t.ftl
  exact perform_ftl h₉ h₁ hperform

/-- A Dataset Management waits on an I/O queue only. -/
def TrimsOnIo (t : Target) : Prop :=
  ∀ i, (t.conns i).hasData = true → (t.conns i).pendingOpcode = 0x09 → (t.conns i).pendingSqid ≠ 0

/-- A change of one connection, which does not make a Dataset Management wait on the admin queue. -/
theorem TrimsOnIo.update {conn : Conn} (h : t.TrimsOnIo)
    (hconns : t'.conns = Function.update t.conns i conn)
    (hconn : conn.hasData = true → conn.pendingOpcode = 0x09 → conn.pendingSqid ≠ 0) :
    t'.TrimsOnIo := by
  intro j
  rw [hconns]
  by_cases hj : j = i
  · subst hj
    rw [Function.update_self]
    exact hconn
  · rw [Function.update_of_ne hj]
    exact h j

/-- A command with data from the host: on the admin queue, it leaves the FTL alone if it does not
    write a page. -/
theorem transfer_session (h : t.TrimsOnIo) (htotal : transferTotal (t.conns i).qid c.cmd = some total)
    (hwrite : (t.conns i).qid = 0 → c.cmd.opcode = 0x01 → c.cmd.nlb * pageSize ≤ tcpMaxIoSize →
      (c.inline (c.cmd.nlb * pageSize)).length = c.cmd.nlb * pageSize →
      c.cmd.nlb = 0 ∨ totalLpns ≤ lpnAt c.cmd.cdw1011 0)
    (hexec : t.transfer i fuel c total = some (sent, t')) :
    t'.TrimsOnIo ∧ t'.executed = t.executed ∧ ((t.conns i).qid = 0 → t'.ftl = t.ftl) := by
  rw [transfer] at hexec
  by_cases hmax : total > tcpMaxIoSize
  · rw [if_pos hmax] at hexec
    obtain ⟨_, rfl⟩ := Prod.mk.inj (Option.some.inj hexec)
    exact ⟨h, rfl, fun _ => rfl⟩
  rw [if_neg hmax] at hexec
  dsimp only at hexec
  have hconns := @startTransfer_conns t i total c
  -- A Dataset Management with data is one of an I/O queue.
  have htrim : c.cmd.opcode = 0x09 → (t.conns i).qid ≠ 0 := by
    intro h₉ hqid
    rw [transferTotal, h₉, hqid, if_neg (by decide), if_neg fun hn => hn.2 rfl] at htotal
    cases htotal
  have hstart : (t.startTransfer i c total).TrimsOnIo := h.update hconns fun _ => htrim
  rw [hconns, Function.update_self] at hexec
  dsimp only at hexec
  by_cases hlt : (c.inline total).length < total
  · rw [if_pos hlt] at hexec
    obtain ⟨_, rfl⟩ := Prod.mk.inj (Option.some.inj hexec)
    exact ⟨hstart, rfl, fun _ => rfl⟩
  · rw [if_neg hlt] at hexec
    obtain ⟨_, hconns', _, _, hexecuted, _⟩ := complete_eq hexec
    refine ⟨hstart.update hconns' fun hn => Bool.noConfusion hn, hexecuted, fun hqid => ?_⟩
    have h₉ : c.cmd.opcode ≠ 0x09 := fun h₉ => htrim h₉ hqid
    refine (complete_ftl ?_ ?_ hexec).trans rfl
    · rw [hconns, Function.update_self]
      exact h₉
    · rw [hconns, Function.update_self]
      dsimp only
      intro h₁
      rw [if_neg h₉]
      rw [transferTotal, if_pos h₁] at htotal
      obtain rfl := Option.some.inj htotal
      rw [Nat.mul_div_cancel _ (by decide)]
      exact hwrite hqid h₁ (Nat.le_of_not_gt hmax) (le_antisymm length_inline (Nat.le_of_not_lt hlt))

/-- A command capsule is executed lawfully, and leaves lawful records. -/
theorem executeCapsule_session (h : t.TrimsOnIo)
    (hwrite : (t.conns i).qid = 0 → c.cmd.opcode = 0x01 → c.cmd.nlb * pageSize ≤ tcpMaxIoSize →
      (c.inline (c.cmd.nlb * pageSize)).length = c.cmd.nlb * pageSize →
      c.cmd.nlb = 0 ∨ totalLpns ≤ lpnAt c.cmd.cdw1011 0)
    (hexec : t.executeCapsule i fuel c = some (sent, t')) :
    t'.TrimsOnIo ∧ t'.executed = t.executed ∧ ((t.conns i).qid = 0 → t'.ftl = t.ftl) := by
  cases htotal : transferTotal (t.conns i).qid c.cmd with
  | some total =>
    rw [executeCapsule_transfer htotal] at hexec
    exact transfer_session h htotal hwrite hexec
  | none =>
    obtain ⟨_, hconns, _, _, hexecuted, hftl⟩ := executeCapsule_other htotal hexec
    refine ⟨?_, hexecuted, hftl⟩
    by_cases hconnect : c.cmd.opcode = 0x7F ∧ c.cmd.nsid &&& 0xFF = 0x01
    · rw [if_pos hconnect] at hconns
      exact h.update hconns (h i)
    · rw [if_neg hconnect] at hconns
      intro j
      rw [hconns]
      exact h j

/-- The commands executed are lawful. -/
structure Orderly (t : Target) : Prop where
  lawful : ∀ e ∈ t.executed, e.Lawful
  trims : t.TrimsOnIo

/-- One more lawful command. -/
theorem Orderly.record {qid : ℕ} (h : t.Orderly) (htrims : t'.TrimsOnIo)
    (hexecuted : t'.executed = t.executed) (hanswered : (t.conns i).answered = true)
    (hterminated : (t.conns i).terminated = false) (hftl : qid = 0 → t'.ftl = t.ftl) :
    (t.record i qid t').Orderly := by
  refine ⟨fun e he => ?_, htrims⟩
  rw [Target.record] at he
  dsimp only at he
  rw [hexecuted, List.mem_append, List.mem_singleton] at he
  rcases he with he | rfl
  · exact h.lawful e he
  · exact ⟨hanswered, hterminated, hftl⟩

/-- Data are used lawfully. -/
theorem Orderly.h2cData (h : t.Orderly) (hregular : t.Regular (.h2cData i d))
    (hexec : t.handleH2cData i fuel d = some (sent, t')) : t'.Orderly := by
  rw [handleH2cData] at hexec
  by_cases hwait : (t.conns i).hasData = false ∨ (t.conns i).dataTotal = 0
  · rw [if_pos hwait] at hexec
    obtain ⟨_, rfl⟩ := Prod.mk.inj (Option.some.inj hexec)
    exact h
  rw [if_neg hwait] at hexec
  dsimp only at hexec
  obtain ⟨hdata, htotal⟩ := not_or.1 hwait
  rw [Bool.not_eq_false] at hdata
  obtain ⟨len, buf, heq⟩ := receive_eq t i d
  have hconns : (t.receive i d).conns =
      Function.update t.conns i { t.conns i with dataLen := len } := by
    rw [heq]
    rfl
  have htrims : (t.receive i d).TrimsOnIo := h.trims.update hconns (h.trims i)
  by_cases hdone : d.last ∧
      ((t.receive i d).conns i).dataLen ≥ ((t.receive i d).conns i).dataTotal
  · rw [if_pos hdone] at hexec
    obtain ⟨hanswered, hterminated, hwrite⟩ := hregular ⟨hdata, htotal, hdone⟩
    obtain ⟨⟨sent₁, t₁⟩, hcomplete, heq'⟩ := Option.map_eq_some_iff.1 hexec
    obtain ⟨_, rfl⟩ := Prod.mk.inj heq'
    obtain ⟨_, hconns', _, _, hexecuted, _⟩ := complete_eq hcomplete
    refine h.record (htrims.update hconns' fun hn => Bool.noConfusion hn)
      (hexecuted.trans (by rw [heq]; rfl)) hanswered hterminated fun hqid => ?_
    refine (complete_ftl ?_ ?_ hcomplete).trans receive_ftl
    · rw [hconns, Function.update_self]
      exact fun h₉ => h.trims i hdata h₉ hqid
    · rw [hconns, Function.update_self]
      exact fun h₁ => .inr (hwrite hqid h₁)
  · rw [if_neg hdone] at hexec
    obtain ⟨_, rfl⟩ := Prod.mk.inj (Option.some.inj hexec)
    refine ⟨?_, htrims⟩
    rw [heq]
    exact h.lawful

/-- Every PDU keeps the law, if it is regular. -/
theorem Orderly.step {call : TcpCall} (h : t.Orderly) (hregular : t.Regular call)
    (hexec : tcpExec fuel t call = some (sent, t')) : t'.Orderly := by
  cases call with
  | icreq i answer =>
    rw [tcpExec, handleIcreq] at hexec
    cases answer with
    | false =>
      obtain ⟨_, rfl⟩ := Prod.mk.inj (Option.some.inj hexec)
      exact h
    | true =>
      obtain ⟨_, rfl⟩ := Prod.mk.inj (Option.some.inj hexec)
      exact ⟨h.lawful, h.trims.update rfl (h.trims i)⟩
  | capsule i c =>
    rw [tcpExec, handleCapsuleCmd] at hexec
    obtain ⟨⟨sent₁, t₁⟩, hcapsule, heq⟩ := Option.map_eq_some_iff.1 hexec
    obtain ⟨_, rfl⟩ := Prod.mk.inj heq
    obtain ⟨hanswered, hterminated, hwrite⟩ := hregular
    obtain ⟨htrims, hexecuted, hftl⟩ := executeCapsule_session h.trims hwrite hcapsule
    exact h.record htrims hexecuted hanswered hterminated hftl
  | h2cData i d => exact h.h2cData hregular hexec
  | termReq i =>
    obtain ⟨_, rfl⟩ := Prod.mk.inj (Option.some.inj hexec)
    exact ⟨h.lawful, h.trims.update rfl (h.trims i)⟩

end Target

variable {rand : ℕ → ℕ} {ftl : Ftl} {t : Target} {tr : List (TcpCall × List Sent)}

/-- If the PDUs are regular, every command is executed after the answer to an initialization and
    before a request for termination, and the commands of the admin queue leave the FTL alone. -/
theorem tcp_session (hrun : tcpMachine.Run Target.Regular (Target.init rand ftl) tr t) :
    ∀ e ∈ t.executed, e.Lawful := by
  have hinit : (Target.init rand ftl).Orderly :=
    ⟨fun _ he => absurd he List.not_mem_nil, fun _ hn => Bool.noConfusion hn⟩
  exact (hrun.invariant hinit fun _ _ _ _ h hregular hstep =>
    hstep.elim fun _ hexec => h.step hregular hexec).lawful

/-- A keep alive, without data. -/
def keepAliveCapsule : Capsule := ⟨keepAlive, none, 0⟩

/-- A run goes on by any PDU that is handled. -/
theorem tcp_snoc {allowed : Target → TcpCall → Prop} {t₀ t' : Target} {call : TcpCall}
    {sent : List Sent} {fuel : ℕ} (hrun : tcpMachine.Run allowed t₀ tr t) (hallowed : allowed t call)
    (hexec : tcpExec fuel t call = some (sent, t')) :
    tcpMachine.Run allowed t₀ (tr ++ [(call, sent)]) t' :=
  hrun.snoc hallowed ⟨fuel, hexec⟩

/-- A keep alive on a connection that has been initialized. -/
theorem tcp_session_keepAlive :
    ∃ ftl tr t, tcpMachine.Run Target.Regular (Target.init (fun _ => 0) ftl) tr t ∧
      t.executed.length = 1 ∧ ∀ e ∈ t.executed, e.Lawful := by
  obtain ⟨ftl⟩ : Nonempty Ftl := ⟨(Ftl.powerOn (fun _ => 0) fun _ => none).2⟩
  have hrun₁ := @tcp_snoc (Target.init (fun _ => 0) ftl) [] Target.Regular _ _ (.icreq 0 true) _ 0
    .nil trivial rfl
  have hrun₂ := @tcp_snoc _ _ _ _ _ (.capsule 0 keepAliveCapsule) _ 0 hrun₁
    ⟨rfl, rfl, fun _ h₁ => absurd h₁ (by decide)⟩ rfl
  exact ⟨ftl, _, _, hrun₂, rfl, tcp_session hrun₂⟩

/-- A command may be executed on a connection that has not been initialized. -/
theorem not_tcp_session : ¬ ∀ rand ftl tr t,
    tcpMachine.Run Machine.anyCall (Target.init rand ftl) tr t → ∀ e ∈ t.executed, e.Lawful := by
  intro h
  obtain ⟨ftl⟩ : Nonempty Ftl := ⟨(Ftl.powerOn (fun _ => 0) fun _ => none).2⟩
  have hrun := @tcp_snoc (Target.init (fun _ => 0) ftl) [] Machine.anyCall _ _
    (.capsule 0 keepAliveCapsule) _ 0 .nil trivial rfl
  exact Bool.noConfusion (h _ _ _ _ hrun _ List.mem_cons_self).answered

end Nvme

end FtlFirmware
