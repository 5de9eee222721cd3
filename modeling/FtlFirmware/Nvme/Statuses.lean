import FtlFirmware.Nvme.Exchange
import FtlFirmware.Nvme.Outcomes

/-!
# Statuses of completions

What the hosts are told about the outcomes of their commands. A front end *reports* an outcome
(`Reported`) if it sends exactly one completion, the status of which has the code decided, or none
if the command is not completed yet.

The vfio-user and the vhost-user back end report a code if it has been set by
`set_completion_status`. The NVMe/TCP target stores its own codes, clears all codes of the
controller, and lets the second execution of a Write Zeroes overwrite the outcome of the first: it
reports nothing but success. So do all front ends for the codes that they store
(`statuses_reported_iff`).
-/

namespace FtlFirmware

namespace Nvme

/-- The status of a PDU that is a completion. -/
def Sent.status : Sent → Option UInt16
  | .capsuleResp _ cpl => some cpl.status
  | _ => none

/-- The statuses of the completions that are sent. -/
def statuses (sent : List Sent) : List UInt16 := sent.filterMap Sent.status

/-- The statuses sent report an outcome: there is one, with the code decided, or none if there is
    no outcome yet. -/
def Reported (sent : List UInt16) : Option Outcome → Prop
  | none => sent = []
  | some o => ∃ status, sent = [status] ∧ statusCode status = o.code

/-! ## The NVMe/TCP target -/

/-- The first failure of two outcomes. -/
def Outcome.first (o o' : Outcome) : Outcome := if o.code = scSuccess then o' else o

namespace Target

variable (t : Target) (i fuel : ℕ) (c : Capsule) (cmd : Command)

/-- The outcome of a command that the controller executes. -/
def ctrlOutcome : Option Outcome :=
  if (t.conns i).qid = 0 then some (t.ctrl.adminOutcome cmd) else ioOutcome cmd fuel t.ftl

/-- The outcome of a command whose data are used. -/
def performOutcome : Option Outcome := (t.perform i fuel).map fun r => .stored r.1

/-- The outcome of a command with data from the host, unless these are missing. -/
def transferOutcome (total : ℕ) : Option Outcome :=
  if total > tcpMaxIoSize then some (.stored 0x0006)
  else
    let t := t.startTransfer i c total
    if (t.conns i).dataLen < total then none else t.performOutcome i fuel

/-- The outcome of a command that has been dispatched with the outcome `o`: zeros are written once
    more, and a Read must not be too long. -/
def dispatchedOutcome (o : Outcome) : Option Outcome :=
  if cmd.opcode = 0x08 ∧ (t.conns i).qid ≠ 0 then
    (writePages fuel (lpnAt cmd.cdw1011) (fun _ => blankPage) (List.range cmd.nlb) t.ftl).map
      fun r => o.first (.stored (if r.1 then 0x0000 else 0x0006))
  else if cmd.opcode = 0x02 then
    if cmd.nlb * pageSize ≤ tcpMaxIoSize then some o else some (o.first (.stored 0x0006))
  else some o

/-- The outcome of the command of a capsule (`nvme_tcp_handle_capsule_cmd`), unless its data are
    missing. -/
def outcome : Option Outcome :=
  let sqid := (t.conns i).qid
  if c.cmd.opcode = 0x01 then t.transferOutcome i fuel c (c.cmd.nlb * pageSize)
  else if c.cmd.opcode = 0x09 ∧ sqid ≠ 0 then t.transferOutcome i fuel c (c.cmd.nr * 16)
  else if c.cmd.opcode = 0x7F then some (.stored 0x0000)
  else if c.cmd.opcode = 0x06 then some (.stored 0x0000)
  else if c.cmd.opcode = 0x02 ∧ sqid = 0 then some (.stored 0x0000)
  else
    match t.dispatch i fuel c.cmd, t.ctrlOutcome i fuel c.cmd with
    | some (_, t), some o => t.dispatchedOutcome i fuel c.cmd o
    | _, _ => none

/-- The outcome of the command that waits for data, once they have been received
    (`nvme_tcp_handle_h2cdata`). -/
def h2cOutcome (d : H2cData) : Option Outcome :=
  if (t.conns i).hasData = false ∨ (t.conns i).dataTotal = 0 then none
  else
    let t' := t.receive i d
    if d.last ∧ (t'.conns i).dataLen ≥ (t'.conns i).dataTotal then t'.performOutcome i fuel
    else none

end Target

/-- Of the outcomes of the target, only success is reported. -/
def ReportsSuccess (sent : List UInt16) : Option Outcome → Prop
  | none => sent = []
  | some o => ∃ status, sent = [status] ∧ (statusCode status = o.code ↔ o.code = scSuccess)

theorem ReportsSuccess.reported_iff {sent : List UInt16} {o : Option Outcome}
    (h : ReportsSuccess sent o) : Reported sent o ↔ ∀ out ∈ o, out.code = scSuccess := by
  cases o with
  | none => exact iff_of_true h fun _ ho => absurd ho (by simp)
  | some o =>
    obtain ⟨status, rfl, hiff⟩ := h
    constructor
    · rintro ⟨_, hsent, hcode⟩ out hout
      rw [← Option.some.inj hout]
      exact hiff.1 ((List.singleton_inj.1 hsent) ▸ hcode)
    · exact fun h => ⟨status, rfl, hiff.2 (h o rfl)⟩

/-- The codes that the target stores. -/
def tcpCodes : List UInt16 := [0x0000, 0x0006]

theorem forall_tcpCodes {p : UInt16 → Prop} (h : p 0x0000 ∧ p 0x0006) :
    ∀ code ∈ tcpCodes, p code := by
  simpa only [tcpCodes, List.forall_mem_cons, List.not_mem_nil, IsEmpty.forall_iff, implies_true,
    and_true] using h

/-- A stored code is reported if it is that of success. -/
theorem statusCode_stored {code : UInt16} (h : code ∈ tcpCodes) :
    statusCode (code &&& 0x7FFF) = code ↔ code = scSuccess := by
  have hall : ∀ code ∈ tcpCodes, statusCode (code &&& 0x7FFF) = code ↔ code = scSuccess :=
    forall_tcpCodes (by decide)
  exact hall code h

/-- What is stored does not report an earlier failure either. -/
theorem statusCode_first {o : Outcome} {code : UInt16} (ho : o.code ∈ Outcome.setCodes)
    (h : code ∈ tcpCodes) : statusCode (code &&& 0x7FFF) = (o.first (.stored code)).code ↔
      (o.first (.stored code)).code = scSuccess := by
  have hall : ∀ code ∈ tcpCodes, ∀ first ∈ Outcome.setCodes, first ≠ scSuccess →
      statusCode (code &&& 0x7FFF) ≠ first :=
    forall_tcpCodes ⟨Outcome.forall_setCodes (by decide), Outcome.forall_setCodes (by decide)⟩
  rw [Outcome.first]
  split_ifs with hfirst
  · exact statusCode_stored h
  · exact iff_of_false (hall _ h _ ho hfirst) hfirst

/-- The status that a command is dispatched with: a code is cleared. -/
def cleared (status : UInt16) : UInt16 := if status &&& 0x7FFE ≠ 0 then 0x0000 else status

/-- A code of the controller is cleared, so that only success is reported. -/
theorem statusCode_cleared {o : Outcome} (h : o.Proper) :
    statusCode (cleared o.status &&& 0x7FFF) = o.code ↔ o.code = scSuccess := by
  have hall : ∀ code ∈ Outcome.setCodes,
      statusCode (cleared (code <<< 1) &&& 0x7FFF) = code ↔ code = scSuccess :=
    Outcome.forall_setCodes (by decide)
  rw [h.2]
  exact hall o.code h.1

namespace Target

variable {t t' : Target} {i fuel total : ℕ} {c : Capsule} {d : H2cData} {cmd : Command}
  {cpl : Completion} {o : Outcome} {sent : List Sent} {r : UInt16 × Target}

theorem statuses_sendCapsuleResp :
    statuses [sendCapsuleResp i cpl] = [cpl.status &&& 0x7FFF] := rfl

/-- A completion with a code that is stored. -/
theorem reportsSuccess_stored {code : UInt16} (hcpl : cpl.status = code) (h : code ∈ tcpCodes) :
    ReportsSuccess (statuses [sendCapsuleResp i cpl]) (some (.stored code)) := by
  rw [statuses_sendCapsuleResp, hcpl]
  exact ⟨_, rfl, statusCode_stored h⟩

theorem perform_code (h : t.perform i fuel = some r) : r.1 ∈ tcpCodes := by
  have hcode : ∀ ok : Bool, (if ok then 0x0000 else 0x0006 : UInt16) ∈ tcpCodes := by decide
  rw [perform] at h
  dsimp only at h
  split_ifs at h
  · obtain ⟨w, _, rfl⟩ := Option.map_eq_some_iff.1 h
    exact hcode w.1
  · obtain ⟨w, _, rfl⟩ := Option.map_eq_some_iff.1 h
    exact hcode w.1
  · rw [← Option.some.inj h]
    exact hcode true

/-- The status of a command whose data are used. -/
theorem complete_reports (h : t.complete i fuel = some (sent, t')) :
    ReportsSuccess (statuses sent) (t.performOutcome i fuel) := by
  obtain ⟨r, hperform, heq⟩ := Option.map_eq_some_iff.1 h
  obtain ⟨rfl, -⟩ := Prod.mk.inj heq
  rw [performOutcome, hperform]
  exact reportsSuccess_stored rfl (perform_code hperform)

theorem transfer_reports (h : t.transfer i fuel c total = some (sent, t')) :
    ReportsSuccess (statuses sent) (t.transferOutcome i fuel c total) := by
  rw [transfer] at h
  rw [transferOutcome]
  dsimp only at h ⊢
  split_ifs at h ⊢
  · obtain ⟨rfl, -⟩ := Prod.mk.inj (Option.some.inj h)
    exact reportsSuccess_stored rfl (by decide)
  · obtain ⟨rfl, -⟩ := Prod.mk.inj (Option.some.inj h)
    rfl
  · exact complete_reports h

/-- The status that a command is dispatched with is that of its outcome, cleared. -/
theorem dispatch_status (h : t.dispatch i fuel cmd = some (cpl, t')) :
    ∃ o, t.ctrlOutcome i fuel cmd = some o ∧ o.Proper ∧ cpl.status = cleared o.status := by
  rw [dispatch] at h
  obtain ⟨⟨cpl₁, t₁⟩, hr, heq⟩ := Option.map_eq_some_iff.1 h
  obtain ⟨rfl, rfl⟩ := Prod.mk.inj heq
  have hcleared : (if cpl₁.status &&& 0x7FFE ≠ 0 then { cpl₁ with status := 0x0000 }
      else cpl₁).status = cleared cpl₁.status := by
    rw [cleared]
    split <;> rfl
  dsimp only
  rw [hcleared, ctrlOutcome]
  split_ifs at hr ⊢
  · obtain ⟨rfl, -⟩ := Prod.mk.inj (Option.some.inj hr)
    exact ⟨_, rfl, adminOutcome_proper, congrArg cleared processAdminCmd_status⟩
  · obtain ⟨r, hio, heq⟩ := Option.map_eq_some_iff.1 hr
    obtain ⟨rfl, -⟩ := Prod.mk.inj heq
    obtain ⟨o, ho, hstatus⟩ := exists_of_map_eq processIoCmd_status hio
    exact ⟨o, ho, ioOutcome_proper ho, congrArg cleared hstatus⟩

/-- The status that is sent after a command has been dispatched. -/
theorem afterDispatch_reports (ho : o.Proper) (hcpl : cpl.status = cleared o.status)
    (h : t.afterDispatch i fuel cmd cpl = some (sent, t')) :
    ReportsSuccess (statuses sent) (t.dispatchedOutcome i fuel cmd o) := by
  rw [afterDispatch] at h
  rw [dispatchedOutcome]
  dsimp only at h
  by_cases h08 : cmd.opcode = 0x08 ∧ (t.conns i).qid ≠ 0
  · rw [if_pos h08] at h ⊢
    obtain ⟨w, hw, heq⟩ := Option.map_eq_some_iff.1 h
    obtain ⟨rfl, -⟩ := Prod.mk.inj heq
    rw [hw]
    have hcode : (if w.1 then 0x0000 else 0x0006 : UInt16) ∈ tcpCodes := by
      cases w.1 <;> decide
    exact ⟨_, statuses_sendCapsuleResp, statusCode_first ho.1 hcode⟩
  · rw [if_neg h08] at h ⊢
    split_ifs at h ⊢
    · obtain ⟨rfl, -⟩ := Prod.mk.inj (Option.some.inj h)
      exact ⟨_, statuses_sendCapsuleResp (i := i), hcpl ▸ statusCode_cleared ho⟩
    · obtain ⟨rfl, -⟩ := Prod.mk.inj (Option.some.inj h)
      have hcode : 0x0006 ∈ tcpCodes := by decide
      exact ⟨_, statuses_sendCapsuleResp, statusCode_first ho.1 hcode⟩
    · obtain ⟨rfl, -⟩ := Prod.mk.inj (Option.some.inj h)
      exact ⟨_, statuses_sendCapsuleResp, hcpl ▸ statusCode_cleared ho⟩

/-- What is sent for the command of a capsule. -/
theorem handleCapsuleCmd_reports (h : t.handleCapsuleCmd i fuel c = some (sent, t')) :
    ReportsSuccess (statuses sent) (t.outcome i fuel c) := by
  obtain ⟨⟨sent, t₁⟩, hexec, heq⟩ := Option.map_eq_some_iff.1 h
  obtain ⟨rfl, -⟩ := Prod.mk.inj heq
  rw [executeCapsule] at hexec
  rw [outcome]
  dsimp only at hexec ⊢
  split_ifs at hexec ⊢
  · exact transfer_reports hexec
  · exact transfer_reports hexec
  · obtain ⟨rfl, -⟩ := Prod.mk.inj (Option.some.inj hexec)
    refine reportsSuccess_stored ?_ (by decide)
    rw [fabrics]
    dsimp only
    split_ifs <;> rfl
  · obtain ⟨rfl, -⟩ := Prod.mk.inj (Option.some.inj hexec)
    exact reportsSuccess_stored (i := i) rfl (by decide)
  · obtain ⟨rfl, -⟩ := Prod.mk.inj (Option.some.inj hexec)
    exact reportsSuccess_stored (i := i) rfl (by decide)
  · cases hdispatch : t.dispatch i fuel c.cmd with
    | none =>
      rw [hdispatch] at hexec
      exact absurd hexec (by simp)
    | some r =>
      obtain ⟨cpl, t₂⟩ := r
      obtain ⟨o, ho, hproper, hcpl⟩ := dispatch_status hdispatch
      rw [hdispatch] at hexec
      rw [ho]
      exact afterDispatch_reports hproper hcpl hexec

/-- What is sent for data from the host. -/
theorem handleH2cData_reports (h : t.handleH2cData i fuel d = some (sent, t')) :
    ReportsSuccess (statuses sent) (t.h2cOutcome i fuel d) := by
  rw [handleH2cData] at h
  rw [h2cOutcome]
  dsimp only at h ⊢
  split_ifs at h ⊢
  · obtain ⟨rfl, -⟩ := Prod.mk.inj (Option.some.inj h)
    rfl
  · obtain ⟨⟨sent, t₁⟩, hcomplete, heq⟩ := Option.map_eq_some_iff.1 h
    obtain ⟨rfl, -⟩ := Prod.mk.inj heq
    exact complete_reports hcomplete
  · obtain ⟨rfl, -⟩ := Prod.mk.inj (Option.some.inj h)
    rfl

end Target

/-! ## All front ends -/

/-- A known outcome is reported by its own status if its code has been set, or is that of
    success. -/
theorem reported_status_iff {o : Outcome} {status : UInt16} (h : o.Known)
    (hstatus : statusCode status = statusCode o.status) :
    Reported [status] (some o) ↔ ∀ out ∈ some o, out.Shifted ∨ out.code = scSuccess := by
  have hiff := Outcome.statusCode_iff h
  rw [← hstatus] at hiff
  constructor
  · rintro ⟨_, hsent, hcode⟩ out hout
    rw [← Option.some.inj hout]
    exact hiff.1 ((List.singleton_inj.1 hsent) ▸ hcode)
  · exact fun h => ⟨status, rfl, hiff.2 (h o rfl)⟩

/-- The status of a completion of vfio-user is that of the outcome, but for the phase. -/
theorem vfio_reported_iff {fuel qid : ℕ} {info : Ctrl → Command → Buffer} {v v' : Vfio}
    {cmd : Command} {cpl : Completion}
    (h : v.processNvmeCommand fuel info cmd qid = some (cpl, v')) :
    Reported [v'.sentStatus qid cpl] (v.outcome fuel cmd qid) ↔
      ∀ o ∈ v.outcome fuel cmd qid, o.Shifted ∨ o.code = scSuccess := by
  obtain ⟨o, ho, hstatus⟩ := exists_of_map_eq Vfio.processNvmeCommand_status h
  dsimp only at hstatus
  rw [ho]
  refine reported_status_iff (Vfio.outcome_known ho) ?_
  rw [Vfio.sentStatus, statusCode_withPhase, hstatus]

/-- The status of a completion of vhost-user is that of the outcome. -/
theorem vhost_reported_iff {fuel qid : ℕ} {info : Ctrl → Command → Buffer} {v v' : Vhost}
    {cmd : Command} {cpl : Completion}
    (h : v.processNvmeCommand fuel info cmd qid = some (cpl, v')) :
    Reported [cpl.status] (v.outcome fuel cmd qid) ↔
      ∀ o ∈ v.outcome fuel cmd qid, o.Shifted ∨ o.code = scSuccess := by
  obtain ⟨o, ho, hstatus⟩ := exists_of_map_eq Vhost.processNvmeCommand_status h
  rw [ho]
  exact reported_status_iff (Vhost.outcome_known ho) (congrArg statusCode hstatus)

/-- The back ends report an outcome if its code has been set, or is that of success; and the
    NVMe/TCP target, if the code is that of success. -/
theorem statuses_reported_iff (fuel : ℕ) (info : Ctrl → Command → Buffer) :
    (∀ v v' cmd qid cpl, Vfio.processNvmeCommand v fuel info cmd qid = some (cpl, v') →
      (Reported [v'.sentStatus qid cpl] (v.outcome fuel cmd qid) ↔
        ∀ o ∈ v.outcome fuel cmd qid, o.Shifted ∨ o.code = scSuccess)) ∧
    (∀ v v' cmd qid cpl, Vhost.processNvmeCommand v fuel info cmd qid = some (cpl, v') →
      (Reported [cpl.status] (v.outcome fuel cmd qid) ↔
        ∀ o ∈ v.outcome fuel cmd qid, o.Shifted ∨ o.code = scSuccess)) ∧
    (∀ t t' i c sent, Target.handleCapsuleCmd t i fuel c = some (sent, t') →
      (Reported (statuses sent) (t.outcome i fuel c) ↔
        ∀ o ∈ t.outcome i fuel c, o.code = scSuccess)) ∧
    (∀ t t' i d sent, Target.handleH2cData t i fuel d = some (sent, t') →
      (Reported (statuses sent) (t.h2cOutcome i fuel d) ↔
        ∀ o ∈ t.h2cOutcome i fuel d, o.code = scSuccess)) :=
  ⟨fun _ _ _ _ _ h => vfio_reported_iff h, fun _ _ _ _ _ h => vhost_reported_iff h,
    fun _ _ _ _ _ h => (Target.handleCapsuleCmd_reports h).reported_iff,
    fun _ _ _ _ _ h => (Target.handleH2cData_reports h).reported_iff⟩

/-- A capsule with an admin command that has no fields. -/
def plainCapsule (opcode : UInt8) : Capsule :=
  ⟨{ Command.blank with opcode := opcode }, none, 0⟩

/-- Through vfio-user it is reported that a command is not known, and over NVMe/TCP that a Keep
    Alive has succeeded. -/
theorem statuses_reported_unknown :
    (∃ v v' : Vfio, ∃ cpl,
      v.processNvmeCommand 0 (fun _ _ _ => 0) (plainCapsule 0x0B).cmd 0 = some (cpl, v') ∧
        v.outcome 0 (plainCapsule 0x0B).cmd 0 = some (.set scInvalidOpcode) ∧
          statusCode (v'.sentStatus 0 cpl) = scInvalidOpcode) ∧
    ∃ t t' : Target, ∃ sent, t.handleCapsuleCmd 0 0 (plainCapsule 0x18) = some (sent, t') ∧
      Reported (statuses sent) (t.outcome 0 0 (plainCapsule 0x18)) := by
  obtain ⟨ftl⟩ : Nonempty Ftl := ⟨(Ftl.powerOn (fun _ => 0) fun _ => none).2⟩
  obtain ⟨hvfio, _, htcp, _⟩ := statuses_reported_iff 0 fun _ _ _ => 0
  constructor
  · have hexec : ((Vfio.init (fun _ => 0) ftl ⟨[], fun _ _ => 0⟩).processNvmeCommand 0
        (fun _ _ _ => 0) (plainCapsule 0x0B).cmd 0).isSome := rfl
    obtain ⟨⟨cpl, v'⟩, hexec⟩ := Option.isSome_iff_exists.1 hexec
    obtain ⟨_, hsent, hcode⟩ := (hvfio _ _ _ 0 _ hexec).2 fun o ho => by
      have hset : o = .set scInvalidOpcode := (Option.some.inj ho).symm
      rw [hset]
      exact Or.inl trivial
    exact ⟨_, _, _, hexec, rfl, (congrArg statusCode (List.singleton_inj.1 hsent)).trans hcode⟩
  · have hexec : ((Target.init (fun _ => 0) ftl).handleCapsuleCmd 0 0 (plainCapsule 0x18)).isSome :=
      rfl
    obtain ⟨⟨sent, t'⟩, hexec⟩ := Option.isSome_iff_exists.1 hexec
    refine ⟨_, _, _, hexec, (htcp _ _ 0 _ _ hexec).2 fun o ho => ?_⟩
    have hcode : o = .set scSuccess := (Option.some.inj ho).symm
    rw [hcode]
    rfl

/-- A command that is not known is reported as a success over NVMe/TCP. -/
theorem statuses_not_reported : ¬ ∀ fuel (t t' : Target) i c sent,
    t.handleCapsuleCmd i fuel c = some (sent, t') →
    Reported (statuses sent) (t.outcome i fuel c) := by
  intro h
  obtain ⟨ftl⟩ : Nonempty Ftl := ⟨(Ftl.powerOn (fun _ => 0) fun _ => none).2⟩
  have hexec : ((Target.init (fun _ => 0) ftl).handleCapsuleCmd 0 0 (plainCapsule 0x0B)).isSome :=
    rfl
  obtain ⟨⟨sent, t'⟩, hexec⟩ := Option.isSome_iff_exists.1 hexec
  have hsuccess := (Target.handleCapsuleCmd_reports hexec).reported_iff.1 (h _ _ _ _ _ _ hexec)
  exact absurd (hsuccess (.set scInvalidOpcode) rfl) (by decide)

end Nvme

end FtlFirmware
