import FtlFirmware.Ftl.Answering
import FtlFirmware.Nvme.Calls
import FtlFirmware.Nvme.Vfio
import FtlFirmware.Nvme.Vhost

/-!
# Commands that come back

A command comes back if the FTL calls that it makes do. The reads and the writes do so on a lively
device, which stays lively (`processIoCmd_lively`, `processNvmeCommand_lively`). The exception is a
Dataset Management of a guest with a range the end of which wraps around (`BlockIo.Overruns`): the
other commands of the two back ends come back (`processNvmeCommand_iff`).
-/

open Filter

namespace FtlFirmware

namespace Nvme

variable {fuel : ℕ} {lpn : ℕ → ℕ} {data : ℕ → PageData} {range : ℕ → TrimRange} {is : List ℕ}
  {ftl ftl' : Ftl} {ok ok' : Bool}

/-! ## Writes, reads and trims -/

/-- A run of calls keeps a device lively. -/
theorem lively_run {tr : List (Call × Answer)} (h : ftl.Lively)
    (hrun : Ftl.Run Machine.anyCall ftl tr ftl') : ftl'.Lively :=
  hrun.invariant (P := Ftl.Lively) h fun _ _ _ _ hs _ hstep =>
    hstep.elim fun _ hexec => hs.exec hexec

/-- Writing pages comes back, with any fuel that is enough. -/
theorem writePages_returns (lpn : ℕ → ℕ) (data : ℕ → PageData) (is : List ℕ) (h : ftl.Lively) :
    ∃ r, ∀ᶠ fuel in atTop, writePages fuel lpn data is ftl = some r := by
  induction is generalizing ftl with
  | nil => exact ⟨(true, ftl), .of_forall fun _ => rfl⟩
  | cons i is ih =>
    obtain ⟨⟨ret, ftl₁⟩, hwrite, h₁⟩ := h.write (lpn i) (data i)
    by_cases hret : ret = .ok
    · subst hret
      obtain ⟨r, hrest⟩ := ih h₁
      refine ⟨r, (hwrite.and hrest).mono fun fuel hboth => ?_⟩
      rw [writePages, hboth.1]
      exact hboth.2
    · refine ⟨(false, ftl₁), hwrite.mono fun fuel hfirst => ?_⟩
      rw [writePages, hfirst]
      cases ret <;> first | rfl | exact absurd rfl hret

/-- What follows a computation that comes back with any fuel that is enough. -/
theorem eventually_map {α β : Type*} {f : ℕ → Option α} {r : α} (g : α → β)
    (h : ∀ᶠ fuel in atTop, f fuel = some r) :
    ∃ r', ∀ᶠ fuel in atTop, (f fuel).map g = some r' := by
  refine ⟨g r, h.mono fun fuel hfuel => ?_⟩
  rw [hfuel, Option.map_some]

/-- Writing pages keeps the device lively. -/
theorem writePages_lively {lpn : ℕ → ℕ} {data : ℕ → PageData} {is : List ℕ} {ftl : Ftl}
    {r : Bool × Ftl} (h : ftl.Lively) (hwrite : writePages fuel lpn data is ftl = some r) :
    r.2.Lively :=
  lively_run h (writePages_run hwrite)

/-- A trim that does not stop at a range has none that wraps around. -/
theorem trimRanges_iff (range : ℕ → TrimRange) (is : List ℕ) (ok : Bool) (h : ftl.Lively) :
    (∃ r, trimRanges range is ok ftl = some r) ↔
      ∀ r ∈ is, ¬ ftl.TrimWraps (range r).lpn (range r).count := by
  induction is generalizing ftl ok with
  | nil => exact ⟨fun _ _ hmem => absurd hmem List.not_mem_nil, fun _ => ⟨_, rfl⟩⟩
  | cons r is ih =>
    rw [List.forall_mem_cons, ← h.trim_iff]
    cases htrim : ftl.trim (range r).lpn (range r).count with
    | none =>
      have hnone : trimRanges range (r :: is) ok ftl = none := by rw [trimRanges, htrim]
      rw [hnone]
      constructor
      · rintro ⟨_, heq⟩
        simp at heq
      · rintro ⟨⟨_, heq⟩, _⟩
        simp at heq
    | some r' =>
      have h₁ : r'.2.Lively := h.of_trim htrim
      have hsame : ∀ i, r'.2.TrimWraps (range i).lpn (range i).count ↔
          ftl.TrimWraps (range i).lpn (range i).count := fun i => by
        rw [Ftl.TrimWraps, Ftl.TrimWraps, Ftl.trim_isInitialized htrim]
      have hrest (ok' : Bool) : (∃ r, trimRanges range is ok' r'.2 = some r) ↔
          ∀ i ∈ is, ¬ ftl.TrimWraps (range i).lpn (range i).count := by
        simp only [ih ok' h₁, hsame]
      rw [trimRanges, htrim, and_iff_right ⟨r', rfl⟩]
      obtain ⟨ret, ftl₁⟩ := r'
      cases ret <;> exact hrest _

/-! ## Commands -/

/-- An I/O command keeps the device lively. -/
theorem processIoCmd_lively {ftl : Ftl} {ctrl : Ctrl} {cmd : Command} {r : Completion × Ftl}
    (h : ftl.Lively) (hexec : processIoCmd fuel ctrl ftl cmd = some r) : r.2.Lively := by
  rw [processIoCmd] at hexec
  dsimp only at hexec
  split_ifs at hexec
  · obtain ⟨w, hwrite, rfl⟩ := Option.map_eq_some_iff.1 hexec
    exact writePages_lively h hwrite
  · exact Option.some.inj hexec ▸ h
  · exact Option.some.inj hexec ▸ h

/-- An I/O command comes back, with any fuel that is enough. -/
theorem processIoCmd_returns {ftl : Ftl} (h : ftl.Lively) (ctrl : Ctrl) (cmd : Command) :
    ∃ r, ∀ᶠ fuel in atTop, processIoCmd fuel ctrl ftl cmd = some r := by
  by_cases h₈ : cmd.opcode = 0x08
  · obtain ⟨r, hwrite⟩ := writePages_returns (lpnAt cmd.cdw1011) (fun _ => blankPage)
      (List.range cmd.nlb) h
    simp only [processIoCmd, if_pos h₈]
    exact eventually_map _ hwrite
  · simp only [processIoCmd, if_neg h₈]
    split_ifs
    · exact ⟨_, .of_forall fun _ => rfl⟩
    · exact ⟨_, .of_forall fun _ => rfl⟩

/-- A computation that is possible with enough fuel is possible with any answer made of it. -/
theorem exists_map {α β : Type*} {f : ℕ → Option α} (g : α → β) (h : ∃ fuel r, f fuel = some r) :
    ∃ fuel r, (f fuel).map g = some r := by
  obtain ⟨fuel, r, hr⟩ := h
  exact ⟨fuel, g r, by rw [hr, Option.map_some]⟩

namespace BlockIo

variable {io : BlockIo} {b : Backend} {qid : ℕ} {cmd : Command} {xferError : UInt16}
  {r : UInt16 × BlockIo}

/-- A Dataset Management that leaves the tables of the FTL: one of its ranges wraps around. -/
def Overruns (io : BlockIo) (b : Backend) (qid : ℕ) (cmd : Command) : Prop :=
  qid ≠ 0 ∧ cmd.opcode = 0x09 ∧
    let r := io.prpReadData b cmd (cmd.nr * 16)
    r.1 = true ∧ ∃ i < cmd.nr,
      io.ftl.TrimWraps (r.2.writeBuf.range i).lpn (r.2.writeBuf.range i).count

/-- The ranges of a Dataset Management fit in the buffer. -/
theorem nr_le (cmd : Command) : ¬ cmd.nr * 16 > maxIoSize := by
  have hlt : cmd.nr < 2 ^ 8 := Nat.mod_lt _ (by decide)
  rw [maxIoSize]
  omega

/-- A Write comes back, with enough fuel. -/
theorem write_returns (b : Backend) (xferError : UInt16) (h : io.ftl.Lively) (cmd : Command) :
    ∃ fuel r, io.write b cmd xferError fuel = some r := by
  simp only [write]
  split_ifs
  · exact ⟨0, _, rfl⟩
  · exact ⟨0, _, rfl⟩
  · set r := io.prpReadData b cmd (cmd.nlb * pageSize)
    have hr : r.2.ftl.Lively := h
    obtain ⟨w, hw⟩ :=
      writePages_returns (lpnAt cmd.cdw1011) r.2.writeBuf.page (List.range cmd.nlb) hr
    obtain ⟨fuel, hfuel⟩ := hw.exists
    exact ⟨fuel, _, by rw [hfuel]; rfl⟩

/-- A Write Zeroes comes back, with enough fuel. -/
theorem writeZeroes_returns (h : io.ftl.Lively) (cmd : Command) :
    ∃ fuel r, io.writeZeroes cmd fuel = some r := by
  obtain ⟨w, hw⟩ := writePages_returns (lpnAt cmd.cdw1011) (fun _ => blankPage)
    (List.range cmd.nlb) h
  obtain ⟨fuel, hfuel⟩ := hw.exists
  exact ⟨fuel, _, by rw [writeZeroes, hfuel]; rfl⟩

/-- A Dataset Management comes back unless it leaves the tables. -/
theorem datasetMgmt_iff (b : Backend) (xferError : UInt16) (h : io.ftl.Lively) (hqid : qid ≠ 0)
    (hop : cmd.opcode = 0x09) :
    (∃ r, io.datasetMgmt b cmd xferError = some r) ↔ ¬ io.Overruns b qid cmd := by
  rw [datasetMgmt, Overruns]
  dsimp only
  rw [if_neg (nr_le cmd), and_iff_right hqid, and_iff_right hop]
  generalize hread : io.prpReadData b cmd (cmd.nr * 16) = r
  have hftl : r.2.ftl = io.ftl := by
    rw [← hread]
    rfl
  cases hok : r.1 with
  | false => simp
  | true =>
    have hranges := trimRanges_iff r.2.writeBuf.range (List.range cmd.nr) true
      (hftl ▸ h : r.2.ftl.Lively)
    simp only [List.mem_range, hftl] at hranges
    simp only [Bool.not_true, Bool.false_eq_true, if_false, true_and, not_exists, not_and]
    rw [hftl, ← hranges]
    constructor
    · rintro ⟨_, heq⟩
      obtain ⟨w, hw, _⟩ := Option.map_eq_some_iff.1 heq
      exact ⟨w, hw⟩
    · rintro ⟨w, hw⟩
      exact ⟨_, by rw [hw]; rfl⟩

/-! ## The device stays lively -/

theorem readPages_lively (h : io.ftl.Lively) (cmd : Command) : (io.readPages cmd).ftl.Lively :=
  lively_run h readPages_run

theorem write_lively (h : io.ftl.Lively) (hr : io.write b cmd xferError fuel = some r) :
    r.2.ftl.Lively := by
  rw [write] at hr
  dsimp only at hr
  split_ifs at hr
  · exact Option.some.inj hr ▸ h
  · exact Option.some.inj hr ▸ h
  · obtain ⟨w, hw, rfl⟩ := Option.map_eq_some_iff.1 hr
    exact lively_run h (writePages_run hw)

theorem writeZeroes_lively (h : io.ftl.Lively) (hr : io.writeZeroes cmd fuel = some r) :
    r.2.ftl.Lively := by
  obtain ⟨w, hw, rfl⟩ := Option.map_eq_some_iff.1 hr
  exact lively_run h (writePages_run hw)

theorem datasetMgmt_lively (h : io.ftl.Lively) (hr : io.datasetMgmt b cmd xferError = some r) :
    r.2.ftl.Lively := by
  rw [datasetMgmt] at hr
  dsimp only at hr
  split_ifs at hr
  · exact Option.some.inj hr ▸ h
  · exact Option.some.inj hr ▸ h
  · obtain ⟨w, hw, rfl⟩ := Option.map_eq_some_iff.1 hr
    exact lively_run h (trimRanges_run hw)

/-! ## The commands of the I/O queues -/

variable {α : Type*} {x y : α} {f : UInt16 × BlockIo → α} {g : Completion × Ftl → α} {ctrl : Ctrl}

/-- A command of an I/O queue comes back, with enough fuel, if and only if it does not leave the
    tables. The back ends make different answers of what they execute. -/
theorem ioCommand_iff (b : Backend) (xferError : UInt16) (h : io.ftl.Lively) (hqid : qid ≠ 0) :
    (∃ fuel y, (if cmd.opcode = 0x02 then some x
      else if cmd.opcode = 0x01 then (io.write b cmd xferError fuel).map f
      else if cmd.opcode = 0x08 then (io.writeZeroes cmd fuel).map f
      else if cmd.opcode = 0x09 then (io.datasetMgmt b cmd xferError).map f
      else (processIoCmd fuel ctrl io.ftl cmd).map g) = some y) ↔ ¬ io.Overruns b qid cmd := by
  by_cases hop : cmd.opcode = 0x09
  · rw [← datasetMgmt_iff b xferError h hqid hop]
    simp only [hop]
    simp
  · -- the other commands come back
    refine iff_of_true ?_ fun hover => hop hover.2.1
    simp only [if_neg hop]
    split_ifs
    · exact ⟨0, x, rfl⟩
    · exact exists_map f (write_returns b xferError h cmd)
    · exact exists_map f (writeZeroes_returns h cmd)
    · obtain ⟨r, hr⟩ := processIoCmd_returns h ctrl cmd
      obtain ⟨fuel, hfuel⟩ := hr.exists
      exact exists_map g ⟨fuel, r, hfuel⟩

/-- A command of an I/O queue keeps the device lively, which is in the answer. -/
theorem ioCommand_lively (ftl : α → Ftl) (h : io.ftl.Lively) (hx : (ftl x).Lively)
    (hf : ∀ r, ftl (f r) = r.2.ftl) (hg : ∀ r, ftl (g r) = r.2)
    (hy : (if cmd.opcode = 0x02 then some x
      else if cmd.opcode = 0x01 then (io.write b cmd xferError fuel).map f
      else if cmd.opcode = 0x08 then (io.writeZeroes cmd fuel).map f
      else if cmd.opcode = 0x09 then (io.datasetMgmt b cmd xferError).map f
      else (processIoCmd fuel ctrl io.ftl cmd).map g) = some y) : (ftl y).Lively := by
  split_ifs at hy
  · exact Option.some.inj hy ▸ hx
  · obtain ⟨r, hr, rfl⟩ := Option.map_eq_some_iff.1 hy
    exact hf r ▸ write_lively h hr
  · obtain ⟨r, hr, rfl⟩ := Option.map_eq_some_iff.1 hy
    exact hf r ▸ writeZeroes_lively h hr
  · obtain ⟨r, hr, rfl⟩ := Option.map_eq_some_iff.1 hy
    exact hf r ▸ datasetMgmt_lively h hr
  · obtain ⟨r, hr, rfl⟩ := Option.map_eq_some_iff.1 hy
    exact hg r ▸ processIoCmd_lively h hr

end BlockIo

namespace Vfio

variable {v v' : Vfio} {info : Ctrl → Command → Buffer} {qid : ℕ} {cmd : Command} {cpl : Completion}

/-- A Dataset Management that leaves the tables of the FTL: one of its ranges wraps around. -/
def Overruns (v : Vfio) (qid : ℕ) (cmd : Command) : Prop := v.toBlockIo.Overruns backend qid cmd

/-- A command comes back, with enough fuel, if and only if it does not leave the tables. -/
theorem processNvmeCommand_iff (h : v.ftl.Lively) :
    (∃ fuel r, v.processNvmeCommand fuel info cmd qid = some r) ↔ ¬ v.Overruns qid cmd := by
  by_cases hqid : qid = 0
  · refine iff_of_true ⟨0, v.processAdminCommand info cmd, if_pos hqid⟩ fun hover => ?_
    exact hover.1 hqid
  · simp only [processNvmeCommand, if_neg hqid, processIoCommand]
    exact BlockIo.ioCommand_iff backend scDataXferError h hqid

theorem processAdminCommand_ftl (v : Vfio) (info : Ctrl → Command → Buffer) (cmd : Command) :
    (v.processAdminCommand info cmd).2.ftl = v.ftl := by
  unfold processAdminCommand
  split_ifs
  · rfl
  · rfl
  · show (v.updateQueue cmd).ftl = v.ftl
    rw [updateQueue]
    split_ifs
    all_goals rfl

theorem read_lively {io : BlockIo} (h : io.ftl.Lively) (cmd : Command) :
    (read io cmd).2.ftl.Lively := by
  rw [read]
  dsimp only
  split_ifs
  · exact h
  · exact h
  · exact BlockIo.readPages_lively h cmd
  · exact BlockIo.readPages_lively h cmd

/-- The commands keep the device lively. -/
theorem processNvmeCommand_lively (h : v.ftl.Lively)
    (hcmd : v.processNvmeCommand fuel info cmd qid = some (cpl, v')) : v'.ftl.Lively := by
  rw [processNvmeCommand] at hcmd
  split_ifs at hcmd
  · have hftl := v.processAdminCommand_ftl info cmd
    rw [Option.some.inj hcmd] at hftl
    exact hftl ▸ h
  · exact BlockIo.ioCommand_lively (fun r => r.2.ftl) h (read_lively h cmd) (fun _ => rfl)
      (fun _ => rfl) hcmd

end Vfio

namespace Vhost

variable {v v' : Vhost} {info : Ctrl → Command → Buffer} {qid : ℕ} {cmd : Command}
  {cpl : Completion}

/-- A Dataset Management that leaves the tables of the FTL: one of its ranges wraps around. -/
def Overruns (v : Vhost) (qid : ℕ) (cmd : Command) : Prop := v.toBlockIo.Overruns backend qid cmd

/-- A command comes back, with enough fuel, if and only if it does not leave the tables. -/
theorem processNvmeCommand_iff (h : v.ftl.Lively) :
    (∃ fuel r, v.processNvmeCommand fuel info cmd qid = some r) ↔ ¬ v.Overruns qid cmd := by
  by_cases hqid : qid = 0
  · refine iff_of_true ⟨0, v.processAdminCommand info cmd, if_pos hqid⟩ fun hover => ?_
    exact hover.1 hqid
  · simp only [processNvmeCommand, if_neg hqid, processIoCommand]
    exact BlockIo.ioCommand_iff backend 0x0006 h hqid

theorem processAdminCommand_ftl (v : Vhost) (info : Ctrl → Command → Buffer) (cmd : Command) :
    (v.processAdminCommand info cmd).2.ftl = v.ftl := by
  unfold processAdminCommand
  split_ifs
  all_goals rfl

theorem read_lively {io : BlockIo} (h : io.ftl.Lively) (cmd : Command) :
    (read io cmd).2.ftl.Lively := by
  rw [read]
  dsimp only
  split_ifs
  · exact h
  · exact BlockIo.readPages_lively h cmd

/-- The commands keep the device lively. -/
theorem processNvmeCommand_lively (h : v.ftl.Lively)
    (hcmd : v.processNvmeCommand fuel info cmd qid = some (cpl, v')) : v'.ftl.Lively := by
  rw [processNvmeCommand] at hcmd
  split_ifs at hcmd
  · have hftl := v.processAdminCommand_ftl info cmd
    rw [Option.some.inj hcmd] at hftl
    exact hftl ▸ h
  · exact BlockIo.ioCommand_lively (fun r => r.2.ftl) h (read_lively h cmd) (fun _ => rfl)
      (fun _ => rfl) hcmd

end Vhost

end Nvme

end FtlFirmware
