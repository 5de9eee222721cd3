import FtlFirmware.Nvme.Isolation
import FtlFirmware.Nvme.Returning

/-!
# PDUs that are handled

The handler of a PDU comes back if the FTL calls that it makes do. On a lively device, which stays
lively (`tcpExec_lively`), the only exception is the PDU with which the data of a Dataset Management
are complete, if one of its ranges wraps around (`tcpExec_iff`).
-/

open Filter

namespace FtlFirmware

namespace Nvme

variable {fuel i : ℕ} {c : Capsule} {d : H2cData} {sent : List Sent} {call : TcpCall} {b : Book}

/-! ## The use of the data -/

namespace Performed

variable {x : Performed} {ftl : Ftl}

/-- The command is a Dataset Management, with a range the end of which wraps around. -/
def Wraps (x : Performed) (ftl : Ftl) : Prop :=
  x.opcode = 0x09 ∧ ∃ r < x.bytes.length / 16,
    ftl.TrimWraps ((bufferOf x.bytes).range r).lpn ((bufferOf x.bytes).range r).count

/-- The data of a command can be used, with enough fuel, if no range wraps around. -/
theorem store_iff (h : ftl.Lively) : (∃ fuel r, x.store fuel ftl = some r) ↔ ¬ x.Wraps ftl := by
  by_cases h₁ : x.opcode = 0x01
  · refine iff_of_true ?_ fun hwraps => absurd (hwraps.1.symm.trans h₁) (by decide)
    obtain ⟨r, hwrite⟩ := writePages_returns (lpnAt x.slba) (bufferOf x.bytes).page
      (List.range (x.bytes.length / pageSize)) h
    obtain ⟨fuel, hfuel⟩ := hwrite.exists
    exact ⟨fuel, r, (if_pos h₁).trans hfuel⟩
  by_cases h₉ : x.opcode = 0x09
  · have htrim := trimRanges_iff (bufferOf x.bytes).range (List.range (x.bytes.length / 16)) true h
    simp only [List.mem_range] at htrim
    have hstore : ∀ fuel, x.store fuel ftl = trimRanges (bufferOf x.bytes).range
        (List.range (x.bytes.length / 16)) true ftl := fun fuel =>
      (if_neg h₁).trans (if_pos h₉)
    simp only [hstore, exists_const, htrim, Wraps, h₉, true_and, not_exists, not_and]
  · exact iff_of_true ⟨0, _, (if_neg h₁).trans (if_neg h₉)⟩ fun hwraps => h₉ hwraps.1

/-- Using the data of a command keeps the device lively. -/
theorem store_lively {r : Bool × Ftl} (h : ftl.Lively) (hstore : x.store fuel ftl = some r) :
    r.2.Lively :=
  lively_run h (store_run hstore)

end Performed

namespace Target

variable {t t' : Target} {cmd : Command} {cpl : Completion}

/-- Dispatching a command keeps the device lively. -/
theorem dispatch_lively {r : Completion × Target} (h : t.ftl.Lively)
    (hexec : t.dispatch i fuel cmd = some r) : r.2.ftl.Lively := by
  rw [dispatch] at hexec
  obtain ⟨r₁, hr₁, rfl⟩ := Option.map_eq_some_iff.1 hexec
  split_ifs at hr₁
  · exact Option.some.inj hr₁ ▸ h
  · obtain ⟨w, hcmd, rfl⟩ := Option.map_eq_some_iff.1 hr₁
    exact processIoCmd_lively h hcmd

/-- A command that is dispatched comes back, with any fuel that is enough. -/
theorem dispatch_returns (h : t.ftl.Lively) (i : ℕ) (cmd : Command) :
    ∃ r, ∀ᶠ fuel in atTop, t.dispatch i fuel cmd = some r := by
  by_cases hqid : (t.conns i).qid = 0
  · simp only [dispatch, if_pos hqid, Option.map_some]
    exact ⟨_, .of_forall fun _ => rfl⟩
  · obtain ⟨r, hcmd⟩ := processIoCmd_returns h t.ctrl cmd
    simp only [dispatch, if_neg hqid, Option.map_map]
    exact eventually_map _ hcmd

/-- What follows keeps the device lively. -/
theorem afterDispatch_lively (h : t.ftl.Lively)
    (hexec : t.afterDispatch i fuel cmd cpl = some (sent, t')) : t'.ftl.Lively := by
  rw [afterDispatch] at hexec
  dsimp only at hexec
  split_ifs at hexec
  · obtain ⟨w, hwrite, heq⟩ := Option.map_eq_some_iff.1 hexec
    obtain ⟨_, rfl⟩ := Prod.mk.inj heq
    exact writePages_lively h hwrite
  · obtain ⟨_, rfl⟩ := Prod.mk.inj (Option.some.inj hexec)
    exact lively_run h readPages_run
  · obtain ⟨_, rfl⟩ := Prod.mk.inj (Option.some.inj hexec)
    exact h
  · obtain ⟨_, rfl⟩ := Prod.mk.inj (Option.some.inj hexec)
    exact h

/-- What follows comes back, too. -/
theorem afterDispatch_returns (h : t.ftl.Lively) (i : ℕ) (cmd : Command) (cpl : Completion) :
    ∃ r, ∀ᶠ fuel in atTop, t.afterDispatch i fuel cmd cpl = some r := by
  by_cases h₈ : cmd.opcode = 0x08 ∧ (t.conns i).qid ≠ 0
  · obtain ⟨r, hwrite⟩ := writePages_returns (lpnAt cmd.cdw1011) (fun _ => blankPage)
      (List.range cmd.nlb) h
    simp only [afterDispatch, if_pos h₈]
    exact eventually_map _ hwrite
  · simp only [afterDispatch, if_neg h₈]
    split_ifs
    · exact ⟨_, .of_forall fun _ => rfl⟩
    · exact ⟨_, .of_forall fun _ => rfl⟩
    · exact ⟨_, .of_forall fun _ => rfl⟩

theorem fabrics_ftl : (t.fabrics i c).2.ftl = t.ftl := by
  rw [fabrics]
  dsimp only
  split_ifs <;> rfl

/-- A command without data from the host is answered at once, or it is dispatched. -/
theorem executeCapsule_none (htotal : transferTotal (t.conns i).qid c.cmd = none) :
    (∃ sent t', (∀ fuel, t.executeCapsule i fuel c = some (sent, t')) ∧ t'.ftl = t.ftl) ∨
      ∀ fuel, t.executeCapsule i fuel c = match t.dispatch i fuel c.cmd with
        | none => none
        | some (cpl, t) => t.afterDispatch i fuel c.cmd cpl := by
  rw [transferTotal] at htotal
  have h₁ : c.cmd.opcode ≠ 0x01 := fun heq => by simp [heq] at htotal
  have h₉ : ¬(c.cmd.opcode = 0x09 ∧ (t.conns i).qid ≠ 0) := fun heq => by simp [heq] at htotal
  simp only [executeCapsule, if_neg h₁, if_neg h₉]
  split_ifs
  · exact Or.inl ⟨_, _, fun _ => rfl, fabrics_ftl⟩
  · exact Or.inl ⟨_, _, fun _ => rfl, rfl⟩
  · exact Or.inl ⟨_, _, fun _ => rfl, rfl⟩
  · exact Or.inr fun _ => rfl

/-- A command without data from the host comes back. -/
theorem executeCapsule_returns (h : t.ftl.Lively)
    (htotal : transferTotal (t.conns i).qid c.cmd = none) :
    ∃ fuel r, t.executeCapsule i fuel c = some r := by
  rcases executeCapsule_none htotal with ⟨sent, t', hexec, _⟩ | hexec
  · exact ⟨0, _, hexec 0⟩
  · obtain ⟨⟨cpl, t₁⟩, hdispatch⟩ := dispatch_returns h i c.cmd
    obtain ⟨r, hafter⟩ :=
      afterDispatch_returns (dispatch_lively h hdispatch.exists.choose_spec) i c.cmd cpl
    obtain ⟨fuel, hfirst, hsecond⟩ := (hdispatch.and hafter).exists
    refine ⟨fuel, r, ?_⟩
    rw [hexec fuel, hfirst]
    exact hsecond

/-- A command is completed, with enough fuel, if its data can be used. -/
theorem complete_iff (h : t.ftl.Lively) :
    (∃ fuel r, t.complete i fuel = some r) ↔ ¬ (t.held i).Wraps t.ftl := by
  rw [← Performed.store_iff h]
  simp only [complete, perform_eq_store, Option.map_map, Option.map_eq_some_iff]
  constructor
  · rintro ⟨fuel, _, r, hstore, _⟩
    exact ⟨fuel, r, hstore⟩
  · rintro ⟨fuel, r, hstore⟩
    exact ⟨fuel, _, r, hstore, rfl⟩

/-- Completing a command keeps the device lively. -/
theorem complete_lively (h : t.ftl.Lively) (hexec : t.complete i fuel = some (sent, t')) :
    t'.ftl.Lively := by
  obtain ⟨_, _, _, _, _, ok, hstore⟩ := complete_eq hexec
  exact Performed.store_lively h hstore

/-- A capsule keeps the device lively. -/
theorem executeCapsule_lively (h : t.ftl.Lively)
    (hexec : t.executeCapsule i fuel c = some (sent, t')) : t'.ftl.Lively := by
  cases htotal : transferTotal (t.conns i).qid c.cmd with
  | none =>
    rcases executeCapsule_none htotal with ⟨sent₁, t₁, hsame, hftl⟩ | hsame
    · rw [hsame fuel] at hexec
      obtain ⟨_, rfl⟩ := Prod.mk.inj (Option.some.inj hexec)
      exact hftl ▸ h
    · rw [hsame fuel] at hexec
      split at hexec
      · cases hexec
      · next cpl t₁ hdispatch => exact afterDispatch_lively (dispatch_lively h hdispatch) hexec
  | some total =>
    rw [executeCapsule_transfer htotal] at hexec
    by_cases hmax : total > tcpMaxIoSize
    · rw [transfer, if_pos hmax] at hexec
      obtain ⟨_, rfl⟩ := Prod.mk.inj (Option.some.inj hexec)
      exact h
    rw [transfer_eq hmax] at hexec
    split_ifs at hexec
    · obtain ⟨_, rfl⟩ := Prod.mk.inj (Option.some.inj hexec)
      exact h
    · exact complete_lively (t := t.startTransfer i c total) h hexec

end Target

/-! ## PDUs -/

variable {t t' : Target}

/-- The handler of a PDU keeps the device lively. -/
theorem tcpExec_lively (h : t.ftl.Lively) (hexec : tcpExec fuel t call = some (sent, t')) :
    t'.ftl.Lively := by
  cases call with
  | icreq i answer =>
    rw [tcpExec, Target.handleIcreq] at hexec
    cases answer <;>
    · obtain ⟨_, rfl⟩ := Prod.mk.inj (Option.some.inj hexec)
      exact h
  | capsule i c =>
    obtain ⟨⟨sent₁, t₁⟩, hcapsule, heq⟩ := Option.map_eq_some_iff.1 hexec
    obtain ⟨_, rfl⟩ := Prod.mk.inj heq
    have hlively := Target.executeCapsule_lively h hcapsule
    exact hlively
  | h2cData i d =>
    rw [tcpExec, Target.handleH2cData] at hexec
    dsimp only at hexec
    have hreceive : (t.receive i d).ftl.Lively := Target.receive_ftl.symm ▸ h
    split_ifs at hexec
    · obtain ⟨_, rfl⟩ := Prod.mk.inj (Option.some.inj hexec)
      exact h
    · obtain ⟨⟨sent₁, t₁⟩, hcomplete, heq⟩ := Option.map_eq_some_iff.1 hexec
      obtain ⟨_, rfl⟩ := Prod.mk.inj heq
      have hlively := Target.complete_lively hreceive hcomplete
      exact hlively
    · obtain ⟨_, rfl⟩ := Prod.mk.inj (Option.some.inj hexec)
      exact hreceive
  | termReq i =>
    obtain ⟨_, rfl⟩ := Prod.mk.inj (Option.some.inj hexec)
    exact h

/-- Whether the handler of a capsule comes back. -/
theorem exists_handleCapsuleCmd :
    (∃ fuel r, tcpExec fuel t (.capsule i c) = some r) ↔
      ∃ fuel r, t.executeCapsule i fuel c = some r := by
  simp only [tcpExec, Target.handleCapsuleCmd, Option.map_eq_some_iff]
  constructor
  · rintro ⟨fuel, _, r, hexec, _⟩
    exact ⟨fuel, r, hexec⟩
  · rintro ⟨fuel, r, hexec⟩
    exact ⟨fuel, _, r, hexec, rfl⟩

/-- The handler of a PDU comes back, with enough fuel, if it does not complete a Dataset Management
    with a range that wraps around. -/
theorem tcpExec_iff (h : Follows t b) (hftl : t.ftl.Lively) (hobeys : b.Obeys call) :
    (∃ fuel r, tcpExec fuel t call = some r) ↔ ∀ x, b.uses call = some x → ¬ x.Wraps t.ftl := by
  -- A PDU that completes no command: its handler comes back in any case.
  have hnone {call : TcpCall} (huses : b.uses call = none) (hexec : ∃ fuel r, tcpExec fuel t call =
      some r) : (∃ fuel r, tcpExec fuel t call = some r) ↔
        ∀ x, b.uses call = some x → ¬ x.Wraps t.ftl :=
    iff_of_true hexec fun x hx => (Option.some_ne_none x (hx.symm.trans huses)).elim
  cases call with
  | icreq i answer => exact hnone rfl ⟨0, _, rfl⟩
  | capsule i c =>
    cases htotal : transferTotal (b.qid i) c.cmd with
    | none =>
      have huses := uses_capsule_none (b := b) (c := c) htotal
      rw [← h.qid i] at htotal
      exact hnone huses (exists_handleCapsuleCmd.2 (Target.executeCapsule_returns hftl htotal))
    | some total =>
      have huses := uses_capsule (b := b) (c := c) htotal
      rw [← h.qid i] at htotal
      by_cases hmax : total > tcpMaxIoSize
      · refine hnone (huses.trans (if_pos hmax)) (exists_handleCapsuleCmd.2 ⟨0, ?_⟩)
        rw [Target.executeCapsule_transfer htotal, Target.transfer, if_pos hmax]
        exact ⟨_, rfl⟩
      by_cases hlt : (c.inline total).length < total
      · refine hnone (huses.trans ((if_neg hmax).trans (if_pos hlt)))
          (exists_handleCapsuleCmd.2 ⟨0, ?_⟩)
        rw [Target.executeCapsule_transfer htotal, Target.transfer_eq hmax, if_pos hlt]
        exact ⟨_, rfl⟩
      · have hused := huses.trans ((if_neg hmax).trans (if_neg hlt))
        rw [exists_handleCapsuleCmd]
        simp only [Target.executeCapsule_transfer htotal, Target.transfer_eq hmax, if_neg hlt]
        rw [Target.complete_iff (t := t.startTransfer i c total) hftl,
          Target.held_startTransfer hlt, hused]
        simp only [Option.some.injEq, forall_eq']
        exact Iff.rfl
  | h2cData i d =>
    obtain ⟨p, hp, hcid, hdatao, hdatal, hle, hlast, hdata⟩ := hobeys
    have hholds := h.holds i
    generalize hlist : b.outstanding i = l at hholds hp
    cases hholds with
    | idle => exact absurd hp List.not_mem_nil
    | waits hwaits =>
      obtain rfl := List.mem_singleton.1 hp
      have huses := uses_h2cData (d := d) hlist hcid
      by_cases hdone : d.last ∧ (p.receive d).bytes.length = p.total
      · rw [if_pos hdone] at huses
        have hreceive : (t.receive i d).ftl.Lively := Target.receive_ftl.symm ▸ hftl
        have hcomplete := Target.complete_iff (i := i) hreceive
        rw [hwaits.held_receive hdatao hdatal (hlast.1 hdone.1) hdata, Target.receive_ftl]
          at hcomplete
        simp only [tcpExec, hwaits.handleH2cData hdatao hdatal hle hdata, if_pos hdone,
          Option.map_eq_some_iff, huses, Option.some.injEq, forall_eq']
        rw [← hcomplete]
        constructor
        · rintro ⟨fuel, _, r, hexec, _⟩
          exact ⟨fuel, r, hexec⟩
        · rintro ⟨fuel, r, hexec⟩
          exact ⟨fuel, _, r, hexec, rfl⟩
      · rw [if_neg hdone] at huses
        refine hnone huses ⟨0, ?_⟩
        rw [tcpExec, hwaits.handleH2cData hdatao hdatal hle hdata, if_neg hdone]
        exact ⟨_, rfl⟩
  | termReq i => exact hnone rfl ⟨0, _, rfl⟩

end Nvme

end FtlFirmware
