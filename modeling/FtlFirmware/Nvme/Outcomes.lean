import FtlFirmware.Nvme.Vfio
import FtlFirmware.Nvme.Vhost

/-!
# Outcomes of commands

What the handlers of commands decide, apart from how they report it: the *outcome* of a command
(`Outcome`) is a status code and how it gets into the completion. `set_completion_status` shifts the
code past the phase; other handlers store the code as it is.

The outcomes of the commands of the controller (`Ctrl.adminOutcome`, `ioOutcome`) and of those that
the back ends execute themselves (`Vfio.outcome`, `Vhost.outcome`) follow the branches of the
handlers. The status of a completion is that of the outcome (`processNvmeCommand_status`).
-/

namespace FtlFirmware

namespace Nvme

/-! ## Codes and statuses -/

/-- The status code of a status field: bits 1 to 8, and the type of the code above them. Bit 0 is
    the phase. -/
def statusCode (status : UInt16) : UInt16 := status >>> 1 &&& 0x7FF

/-- A status with a phase. -/
def withPhase (phase : Bool) (status : UInt16) : UInt16 :=
  if phase then status ||| 0x0001 else status &&& ~~~0x0001

/-- The phase is not part of the status code. -/
theorem statusCode_withPhase (phase : Bool) (status : UInt16) :
    statusCode (withPhase phase status) = statusCode status := by
  have hor : (status ||| 1) >>> 1 = status >>> 1 := by
    apply UInt16.eq_of_toBitVec_eq
    ext i
    simp
  have hand : (status &&& ~~~1) >>> 1 = status >>> 1 := by
    have hmask : ∀ i < 15, (65534#16).getLsbD (1 + i) = true := by decide
    apply UInt16.eq_of_toBitVec_eq
    ext i
    simp
    intro hbit
    have hlt := BitVec.lt_of_getLsbD hbit
    exact hmask i (by omega)
  rw [withPhase, statusCode, statusCode]
  split
  · rw [hor]
  · rw [hand]

/-- The outcome of a command: a status code, which is set by `set_completion_status` or stored. -/
inductive Outcome
  | set (code : UInt16)
  | stored (code : UInt16)
  deriving DecidableEq, Repr

namespace Outcome

/-- The status code that has been decided. -/
def code : Outcome → UInt16
  | set code => code
  | stored code => code

/-- The status field of the completion. -/
def status : Outcome → UInt16
  | set code => code <<< 1
  | stored code => code

/-- The code has been set by `set_completion_status`. -/
def Shifted : Outcome → Prop
  | set _ => True
  | stored _ => False

instance : DecidablePred Shifted
  | set _ => isTrue trivial
  | stored _ => isFalse not_false

/-- The codes that are set. -/
def setCodes : List UInt16 :=
  [scSuccess, scInvalidOpcode, scInvalidField, scInternalError, scAerLimitExceeded,
    scInvalidFwSlot, scInvalidFwImage]

/-- The codes that are stored. -/
def storedCodes : List UInt16 := [scSuccess, scDataXferError, scInternalError]

theorem forall_setCodes {p : UInt16 → Prop} (h : p scSuccess ∧ p scInvalidOpcode ∧
    p scInvalidField ∧ p scInternalError ∧ p scAerLimitExceeded ∧ p scInvalidFwSlot ∧
    p scInvalidFwImage) : ∀ code ∈ setCodes, p code := by
  simpa only [setCodes, List.forall_mem_cons, List.not_mem_nil, IsEmpty.forall_iff, implies_true,
    and_true] using h

theorem forall_storedCodes {p : UInt16 → Prop}
    (h : p scSuccess ∧ p scDataXferError ∧ p scInternalError) : ∀ code ∈ storedCodes, p code := by
  simpa only [storedCodes, List.forall_mem_cons, List.not_mem_nil, IsEmpty.forall_iff,
    implies_true, and_true] using h

/-- The outcome is one that a handler can have. -/
def Known : Outcome → Prop
  | set code => code ∈ setCodes
  | stored code => code ∈ storedCodes

instance : DecidablePred Known
  | set code => inferInstanceAs (Decidable (code ∈ setCodes))
  | stored code => inferInstanceAs (Decidable (code ∈ storedCodes))

/-- The outcome is one that a handler of the controller can have: its code has been set, or it is
    that of success. -/
def Proper (o : Outcome) : Prop := o.code ∈ setCodes ∧ o.status = o.code <<< 1

instance : DecidablePred Proper := fun o =>
  inferInstanceAs (Decidable (o.code ∈ setCodes ∧ o.status = o.code <<< 1))

theorem Proper.known {o : Outcome} (h : o.Proper) : o.Known := by
  have hstored : ∀ code ∈ setCodes, code = code <<< 1 → code ∈ storedCodes :=
    forall_setCodes (by decide)
  cases o with
  | set code => exact h.1
  | stored code => exact hstored code h.1 h.2

/-- A status reports the code of an outcome if the code has been set, or is that of success. -/
theorem statusCode_iff {o : Outcome} (h : o.Known) :
    statusCode o.status = o.code ↔ o.Shifted ∨ o.code = scSuccess := by
  have hset : ∀ code ∈ setCodes, statusCode (code <<< 1) = code := forall_setCodes (by decide)
  have hstored : ∀ code ∈ storedCodes, statusCode code = code ↔ code = scSuccess :=
    forall_storedCodes (by decide)
  cases o with
  | set code => exact iff_of_true (hset code h) (Or.inl trivial)
  | stored code => exact (hstored code h).trans (or_iff_right not_false).symm

end Outcome

/-! ## The controller -/

section

variable (fw : Firmware) (aer : Aer) (c : Ctrl) (cmd : Command)

/-- The outcome of a firmware download. -/
def Firmware.downloadOutcome : Outcome :=
  let offsetBytes := (cmd.cdw1011 * 4).toNat
  let download := if offsetBytes = 0 then ⟨true, 0⟩ else fw.download
  if !download.active then .set scInvalidField
  else if offsetBytes ≠ download.downloadedSize then .set scInvalidField
  else if offsetBytes + fwChunkSize > fwMaxImageSize then .set scInvalidField
  else .set scSuccess

/-- The outcome of a firmware commit. -/
def Firmware.activateOutcome : Outcome :=
  let slot := Firmware.commitSlot cmd
  let action := Firmware.commitAction cmd
  if slot < 1 ∨ slot > fwSlotCount then .set scInvalidFwSlot
  else if action = 3 then
    if (fw.slots (slot - 1)).state = .empty then .set scInvalidFwImage else .set scSuccess
  else if !fw.download.active ∨ fw.download.downloadedSize = 0 then .set scInvalidFwImage
  else if action = 0 ∧ slot = fw.runningSlot then .set scInvalidFwSlot
  else .set scSuccess

/-- The outcome of an event request. One that waits has the status that its completion has been
    cleared to. -/
def Aer.requestOutcome : Outcome :=
  if (aer.findPending false).isNone then .set scAerLimitExceeded else .stored scSuccess

/-- The outcome of an Identify of the controller. -/
def identifyOutcome : Outcome :=
  if cmd.cdw10 &&& 0xFF ∈ [0x00, 0x01, 0x02] then .set scSuccess else .set scInvalidField

/-- The outcome of an admin command of the controller (`nvme_ctrl_process_admin_cmd`). -/
def Ctrl.adminOutcome : Outcome :=
  if cmd.opcode = 0x00 then .set scSuccess
  else if cmd.opcode = 0x01 then .set scSuccess
  else if cmd.opcode = 0x02 then .set scSuccess
  else if cmd.opcode = 0x04 then .set scSuccess
  else if cmd.opcode = 0x05 then .set scSuccess
  else if cmd.opcode = 0x06 then identifyOutcome cmd
  else if cmd.opcode = 0x08 then .set scSuccess
  else if cmd.opcode = 0x09 then .set scSuccess
  else if cmd.opcode = 0x0A then .set scSuccess
  else if cmd.opcode = 0x0C then c.aer.requestOutcome
  else if cmd.opcode = 0x11 then c.fw.downloadOutcome cmd
  else if cmd.opcode = 0x10 then c.fw.activateOutcome cmd
  else if cmd.opcode = 0x80 then .set scSuccess
  else if cmd.opcode = 0x18 then .set scSuccess
  else .set scInvalidOpcode

/-- The outcome of an I/O command of the controller (`nvme_ctrl_process_io_cmd`). -/
def ioOutcome (fuel : ℕ) (ftl : Ftl) : Option Outcome :=
  if cmd.opcode = 0x08 then
    (writePages fuel (lpnAt cmd.cdw1011) (fun _ => blankPage) (List.range cmd.nlb) ftl).map fun r =>
      .set (if r.1 then scSuccess else scInternalError)
  else if cmd.opcode ∈ [0x00, 0x01, 0x02, 0x04, 0x05, 0x09, 0x0C] then some (.set scSuccess)
  else some (.set scInvalidOpcode)

end

section

variable {fw : Firmware} {aer : Aer} {c : Ctrl} {cmd : Command} {cpl : Completion} {ftl : Ftl}
  {fuel : ℕ} {o : Outcome}

theorem adminFwDownload_status :
    (fw.adminFwDownload cmd cpl).1.status = (fw.downloadOutcome cmd).status := by
  rw [Firmware.adminFwDownload, Firmware.downloadOutcome]
  generalize (if (cmd.cdw1011 * 4).toNat = 0 then ⟨true, 0⟩ else fw.download : FwDownload) = d
  split_ifs <;> rfl

theorem adminFwActivate_status :
    (fw.adminFwActivate aer cmd cpl).1.status = (fw.activateOutcome cmd).status := by
  rw [Firmware.adminFwActivate, Firmware.activateOutcome]
  dsimp only
  split_ifs <;> rfl

theorem adminAsyncEvent_status (h : cpl.status = 0) :
    (aer.adminAsyncEvent cmd cpl).1.status = aer.requestOutcome.status := by
  rw [Aer.adminAsyncEvent, Aer.requestOutcome]
  cases aer.findPending false with
  | none => rfl
  | some i => exact h

theorem adminSetFeatures_status : (c.adminSetFeatures cmd cpl).1.status = 0 := by
  rw [Ctrl.adminSetFeatures]
  dsimp only
  split_ifs <;> rfl

theorem adminGetFeatures_status : (c.adminGetFeatures cmd cpl).status = 0 := by
  rw [Ctrl.adminGetFeatures]
  split_ifs <;> rfl

theorem adminIdentify_status :
    (Ctrl.adminIdentify cmd cpl).status = (identifyOutcome cmd).status := by
  rw [Ctrl.adminIdentify, identifyOutcome]
  split_ifs <;> rfl

/-- Statuses agree branch by branch. -/
theorem status_ite {p : Prop} [Decidable p] {r r' : Completion × Ctrl} {o o' : Outcome}
    (h : r.1.status = o.status) (h' : r'.1.status = o'.status) :
    (if p then r else r').1.status = (if p then o else o').status := by
  split
  · exact h
  · exact h'

/-- The status of an admin command is that of its outcome. -/
theorem processAdminCmd_status :
    (c.processAdminCmd cmd).1.status = (c.adminOutcome cmd).status := by
  rw [Ctrl.processAdminCmd, Ctrl.adminOutcome]
  -- the operation codes, in the order in which they are compared
  refine status_ite rfl (status_ite rfl (status_ite rfl (status_ite rfl (status_ite rfl ?_))))
  refine status_ite adminIdentify_status (status_ite rfl ?_)
  refine status_ite adminSetFeatures_status (status_ite adminGetFeatures_status ?_)
  refine status_ite (adminAsyncEvent_status rfl) (status_ite adminFwDownload_status ?_)
  exact status_ite adminFwActivate_status (status_ite rfl (status_ite rfl rfl))

/-- The status of an I/O command of the controller is that of its outcome. -/
theorem processIoCmd_status : (processIoCmd fuel c ftl cmd).map (fun r => r.1.status) =
    (ioOutcome cmd fuel ftl).map Outcome.status := by
  rw [processIoCmd, ioOutcome]
  by_cases h08 : cmd.opcode = 0x08
  · rw [if_pos h08, if_pos h08, Option.map_map, Option.map_map]
    rfl
  · rw [if_neg h08, if_neg h08]
    by_cases hop : cmd.opcode ∈ ([0x00, 0x01, 0x02, 0x04, 0x05, 0x09, 0x0C] : List UInt8)
    · rw [if_pos hop, if_pos hop]
      rfl
    · rw [if_neg hop, if_neg hop]
      rfl

/-- Values that agree on two options, if there is the first, there is the second. -/
theorem exists_of_map_eq {α β γ : Type*} {f : α → γ} {g : β → γ} {a : Option α} {b : Option β}
    {x : α} (h : a.map f = b.map g) (hx : a = some x) : ∃ y, b = some y ∧ f x = g y := by
  rw [hx] at h
  obtain ⟨y, hy, heq⟩ := Option.map_eq_some_iff.1 h.symm
  exact ⟨y, hy, heq.symm⟩

/-! ## The outcomes of the controller -/

theorem Outcome.Proper.ite {p : Prop} [Decidable p] {o o' : Outcome} (h : o.Proper)
    (h' : o'.Proper) : (if p then o else o').Proper := by
  split
  · exact h
  · exact h'

theorem proper_success : (Outcome.set scSuccess).Proper := by decide

theorem proper_invalidField : (Outcome.set scInvalidField).Proper := by decide

theorem downloadOutcome_proper : (fw.downloadOutcome cmd).Proper := by
  rw [Firmware.downloadOutcome]
  generalize (if (cmd.cdw1011 * 4).toNat = 0 then ⟨true, 0⟩ else fw.download : FwDownload) = d
  refine .ite proper_invalidField (.ite proper_invalidField ?_)
  generalize fwMaxImageSize = size
  exact .ite proper_invalidField proper_success

theorem activateOutcome_proper : (fw.activateOutcome cmd).Proper := by
  have hslot : (Outcome.set scInvalidFwSlot).Proper := by decide
  have himage : (Outcome.set scInvalidFwImage).Proper := by decide
  exact hslot.ite ((himage.ite proper_success).ite (himage.ite (hslot.ite proper_success)))

theorem requestOutcome_proper : aer.requestOutcome.Proper := by
  have hlimit : (Outcome.set scAerLimitExceeded).Proper := by decide
  have hwaits : (Outcome.stored scSuccess).Proper := by decide
  exact hlimit.ite hwaits

theorem adminOutcome_proper : (c.adminOutcome cmd).Proper := by
  have hopcode : (Outcome.set scInvalidOpcode).Proper := by decide
  have hidentify : (identifyOutcome cmd).Proper := proper_success.ite proper_invalidField
  have hok := proper_success
  refine hok.ite (hok.ite (hok.ite (hok.ite (hok.ite (hidentify.ite (hok.ite ?_))))))
  refine hok.ite (hok.ite (requestOutcome_proper.ite (downloadOutcome_proper.ite ?_)))
  exact activateOutcome_proper.ite (hok.ite (hok.ite hopcode))

theorem ioOutcome_proper (h : ioOutcome cmd fuel ftl = some o) : o.Proper := by
  have hopcode : (Outcome.set scInvalidOpcode).Proper := by decide
  have hwritten : ∀ ok : Bool,
      (Outcome.set (if ok then scSuccess else scInternalError)).Proper := by decide
  rw [ioOutcome] at h
  by_cases h08 : cmd.opcode = 0x08
  · rw [if_pos h08] at h
    obtain ⟨r, _, rfl⟩ := Option.map_eq_some_iff.1 h
    exact hwritten r.1
  · rw [if_neg h08] at h
    have hproper : ∀ p [Decidable p], some o = (if p then some (.set scSuccess)
        else some (.set scInvalidOpcode)) → o.Proper := by
      intro p _ heq
      split at heq
      · rw [Option.some.inj heq]
        exact proper_success
      · rw [Option.some.inj heq]
        exact hopcode
    exact hproper _ h.symm

end

/-! ## The back ends -/

section

variable (io : BlockIo) (b : Backend) (xferError readCode : UInt16) (fuel : ℕ) (cmd : Command)

/-- The outcome of an admin command. The back ends answer an Identify and a Get Log Page. -/
def Ctrl.frontOutcome (c : Ctrl) : Outcome :=
  if cmd.opcode = 0x06 then .stored scSuccess
  else if cmd.opcode = 0x02 then .stored scSuccess
  else c.adminOutcome cmd

/-- The outcome of an I/O command, of which the back ends execute those that have data. The code
    `readCode` is that of a Read. -/
def BlockIo.outcome : Option Outcome :=
  if cmd.opcode = 0x02 then some (.stored readCode)
  else if cmd.opcode = 0x01 then (io.write b cmd xferError fuel).map fun r => .stored r.1
  else if cmd.opcode = 0x08 then (io.writeZeroes cmd fuel).map fun r => .stored r.1
  else if cmd.opcode = 0x09 then (io.datasetMgmt b cmd xferError).map fun r => .stored r.1
  else ioOutcome cmd fuel io.ftl

variable {io b xferError readCode fuel cmd} {c : Ctrl} {r : UInt16 × BlockIo} {o : Outcome}

theorem Outcome.Known.ite {p : Prop} [Decidable p] {o o' : Outcome} (h : o.Known)
    (h' : o'.Known) : (if p then o else o').Known := by
  split
  · exact h
  · exact h'

theorem frontOutcome_known : (c.frontOutcome cmd).Known := by
  have hok : (Outcome.stored scSuccess).Known := by decide
  exact hok.ite (hok.ite adminOutcome_proper.known)

theorem mem_success : scSuccess ∈ Outcome.storedCodes := by decide

theorem mem_dataXferError : scDataXferError ∈ Outcome.storedCodes := by decide

theorem mem_internalError : scInternalError ∈ Outcome.storedCodes := by decide

/-- The codes of writes and trims. -/
theorem mem_storedCodes (ok : Bool) :
    (if ok then scSuccess else scInternalError) ∈ Outcome.storedCodes := by
  cases ok
  · exact mem_internalError
  · exact mem_success

theorem write_code (hxfer : xferError ∈ Outcome.storedCodes)
    (h : io.write b cmd xferError fuel = some r) : r.1 ∈ Outcome.storedCodes := by
  rw [BlockIo.write] at h
  dsimp only at h
  split_ifs at h
  · rw [← Option.some.inj h]
    exact mem_internalError
  · rw [← Option.some.inj h]
    exact hxfer
  · obtain ⟨w, _, rfl⟩ := Option.map_eq_some_iff.1 h
    exact mem_storedCodes w.1

theorem writeZeroes_code (h : io.writeZeroes cmd fuel = some r) : r.1 ∈ Outcome.storedCodes := by
  obtain ⟨w, _, rfl⟩ := Option.map_eq_some_iff.1 h
  exact mem_storedCodes w.1

theorem datasetMgmt_code (hxfer : xferError ∈ Outcome.storedCodes)
    (h : io.datasetMgmt b cmd xferError = some r) : r.1 ∈ Outcome.storedCodes := by
  rw [BlockIo.datasetMgmt] at h
  dsimp only at h
  split_ifs at h
  · rw [← Option.some.inj h]
    exact mem_internalError
  · rw [← Option.some.inj h]
    exact hxfer
  · obtain ⟨w, _, rfl⟩ := Option.map_eq_some_iff.1 h
    exact mem_storedCodes w.1

/-- The outcomes that I/O commands can have. -/
theorem outcome_known (hread : readCode ∈ Outcome.storedCodes)
    (hxfer : xferError ∈ Outcome.storedCodes)
    (h : io.outcome b xferError readCode fuel cmd = some o) : o.Known := by
  rw [BlockIo.outcome] at h
  split_ifs at h
  · rw [← Option.some.inj h]
    exact hread
  · obtain ⟨r, hr, rfl⟩ := Option.map_eq_some_iff.1 h
    exact write_code hxfer hr
  · obtain ⟨r, hr, rfl⟩ := Option.map_eq_some_iff.1 h
    exact writeZeroes_code hr
  · obtain ⟨r, hr, rfl⟩ := Option.map_eq_some_iff.1 h
    exact datasetMgmt_code hxfer hr
  · exact (ioOutcome_proper h).known

end

namespace Vfio

variable (v : Vfio) (fuel : ℕ) (cmd : Command) (qid : ℕ)

/-- The outcome of a command of a queue. -/
def outcome : Option Outcome :=
  if qid = 0 then some ((v.updateQueue cmd).ctrl.frontOutcome cmd)
  else v.toBlockIo.outcome backend scDataXferError (read v.toBlockIo cmd).1 fuel cmd

/-- The status that a completion of a queue is written with: its phase is that of the queue. -/
def sentStatus (cpl : Completion) : UInt16 := withPhase (v.queues qid).cqPhase cpl.status

/-- A completion is written to the memory of the guest with this status. -/
theorem postCompletion_guest (h : Hva) (cpl : Completion) :
    (v.postCompletion qid h cpl).guest = v.guest.write h completionSize
      { cpl with
        sqhd := ((v.queues qid).sqHead + 1) % (v.queues qid).sqSize
        status := v.sentStatus qid cpl }.buffer := rfl

variable {v fuel cmd qid} {info : Ctrl → Command → Buffer} {o : Outcome}

/-- The status of a completion is that of the outcome. -/
theorem processNvmeCommand_status :
    (v.processNvmeCommand fuel info cmd qid).map (fun r => r.1.status) =
      (v.outcome fuel cmd qid).map Outcome.status := by
  rw [processNvmeCommand, outcome]
  by_cases hqid : qid = 0
  · rw [if_pos hqid, if_pos hqid, processAdminCommand, Ctrl.frontOutcome]
    refine congrArg some ?_
    split_ifs
    · rfl
    · rfl
    · exact processAdminCmd_status
  · rw [if_neg hqid, if_neg hqid, processIoCommand, BlockIo.outcome]
    split_ifs
    · rfl
    · rw [Option.map_map, Option.map_map]
      rfl
    · rw [Option.map_map, Option.map_map]
      rfl
    · rw [Option.map_map, Option.map_map]
      rfl
    · rw [Option.map_map, ← processIoCmd_status (c := v.ctrl)]
      rfl

theorem read_code {io : BlockIo} : (read io cmd).1 ∈ Outcome.storedCodes := by
  rw [read]
  dsimp only
  split_ifs
  · exact mem_internalError
  · exact mem_dataXferError
  · exact mem_success
  · exact mem_dataXferError

/-- The outcomes that commands can have. -/
theorem outcome_known (h : v.outcome fuel cmd qid = some o) : o.Known := by
  rw [outcome] at h
  split_ifs at h
  · rw [← Option.some.inj h]
    exact frontOutcome_known
  · exact Nvme.outcome_known read_code mem_dataXferError h

end Vfio

namespace Vhost

variable (v : Vhost) (fuel : ℕ) (cmd : Command) (qid : ℕ)

/-- The outcome of a command of a queue. -/
def outcome : Option Outcome :=
  if qid = 0 then some (v.ctrl.frontOutcome cmd)
  else v.toBlockIo.outcome backend 0x0006 (read v.toBlockIo cmd).1 fuel cmd

variable {v fuel cmd qid} {info : Ctrl → Command → Buffer} {o : Outcome}

/-- The status of a completion is that of the outcome. -/
theorem processNvmeCommand_status :
    (v.processNvmeCommand fuel info cmd qid).map (fun r => r.1.status) =
      (v.outcome fuel cmd qid).map Outcome.status := by
  rw [processNvmeCommand, outcome]
  by_cases hqid : qid = 0
  · rw [if_pos hqid, if_pos hqid, processAdminCommand, Ctrl.frontOutcome]
    refine congrArg some ?_
    split_ifs
    · rfl
    · rfl
    · exact processAdminCmd_status
  · rw [if_neg hqid, if_neg hqid, processIoCommand, BlockIo.outcome]
    split_ifs
    · rfl
    · rw [Option.map_map, Option.map_map]
      rfl
    · rw [Option.map_map, Option.map_map]
      rfl
    · rw [Option.map_map, Option.map_map]
      rfl
    · rw [Option.map_map, ← processIoCmd_status (c := v.ctrl)]
      rfl

theorem read_code {io : BlockIo} : (read io cmd).1 ∈ Outcome.storedCodes := by
  rw [read]
  dsimp only
  split_ifs
  · exact mem_internalError
  · exact mem_success

/-- The outcomes that commands can have. -/
theorem outcome_known (h : v.outcome fuel cmd qid = some o) : o.Known := by
  rw [outcome] at h
  split_ifs at h
  · rw [← Option.some.inj h]
    exact frontOutcome_known
  · exact Nvme.outcome_known read_code mem_internalError h

end Vhost

end Nvme

end FtlFirmware
