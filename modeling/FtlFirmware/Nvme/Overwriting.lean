import Mathlib.Data.List.DropRight
import FtlFirmware.Nvme.Completing
import FtlFirmware.Nvme.Vfio

/-!
# Completions that are overwritten

The controller and the vfio-user back end write completions without looking at the head of the
completion queue. The controller overwrites no completion that the host has not released as long as
there is room for the completions of all commands that are waiting when they are executed
(`Ctrl.Roomy`), and of the event requests. The queues of the back end are sound as long as a command
is completed only when there is an entry that is not held (`VfioQueue.Sound.completed`).
-/

namespace FtlFirmware

namespace Nvme

/-! ## The queues of the controller -/

/-- The completions that the host has not released: the last ones written. -/
def Cq.unreleased (cq : Cq) : List Post := cq.posted.rtake cq.ledger.held.length

/-- The entries that the host has not released are those from the head to the tail, and none has
    been overwritten. -/
structure Cq.Tracked (cq : Cq) : Prop where
  clean : cq.ledger.clobbered = false
  le : cq.ledger.held.length ≤ cq.size
  slots : cq.unreleased.map Post.slot = cq.ledger.held
  tracks : cq.size ≠ 0 → cq.ledger.Tracks cq.size cq.head cq.tail

namespace Cq

variable {cq cq' : Cq} {cpl : Completion} {value : UInt32}

theorem create_tracked (qid qsize vector : ℕ) : (Cq.create qid qsize vector).Tracked where
  clean := rfl
  le := Nat.zero_le _
  slots := rfl
  tracks h := Ledger.fresh_tracks (Nat.pos_of_ne_zero h)

theorem absent_tracked : absent.Tracked where
  clean := rfl
  le := Nat.zero_le _
  slots := rfl
  tracks h := absurd rfl h

/-- Writing a completion when not all entries are held. -/
theorem Tracked.post (h : cq.Tracked) (hroom : cq.ledger.held.length < cq.size)
    (hpost : cq.cqPostCompletion cpl = some cq') :
    cq'.Tracked ∧ cq'.size = cq.size ∧
      cq'.ledger.held.length = cq.ledger.held.length + 1 := by
  rw [cqPostCompletion] at hpost
  split_ifs at hpost with hsize
  obtain ⟨entries, _, rfl⟩ := Option.map_eq_some_iff.1 hpost
  have htracks := (h.tracks hsize).post hroom
  refine ⟨⟨htracks.clean, htracks.le, ?_, fun _ => htracks⟩, rfl, Ledger.length_post _ _⟩
  rw [unreleased]
  dsimp only
  rw [Ledger.length_post, List.rtake_concat_succ, List.map_append, ← unreleased, h.slots]
  rfl

/-- The host releases entries that it holds. -/
theorem Tracked.doorbell (h : cq.Tracked)
    (hk : cq.advance (value.toNat % cq.size) ≤ cq.ledger.held.length)
    (hbell : cq.cqDoorbell value = some cq') : cq'.Tracked := by
  rw [cqDoorbell] at hbell
  split_ifs at hbell with hsize
  obtain rfl := Option.some.inj hbell
  have htracks := (h.tracks hsize).advance (Nat.mod_lt _ (Nat.pos_of_ne_zero hsize)) hk
  refine ⟨htracks.clean, htracks.le, ?_, fun _ => htracks⟩
  -- The completions that are released are the first ones.
  have hlen := congrArg List.length h.slots
  rw [List.length_map, unreleased, List.rtake, List.length_drop] at hlen
  rw [unreleased, Ledger.release]
  dsimp only
  rw [← h.slots, unreleased, ← List.map_drop, List.length_map, List.length_drop, List.rtake,
    List.rtake, List.drop_drop, List.length_drop]
  congr 2
  omega

end Cq

/-! ## The loops of the controller -/

namespace Ctrl

variable {c c' : Ctrl} {cmd : Command}

/-- What an admin command does: it creates a queue for I/O, or it leaves the queues and the
    registers alone. -/
inductive AdminEffect (c : Ctrl) (cmd : Command) : Ctrl → Prop
  | createSq (qid cqid : ℕ) : cmd.opcode = 0x01 →
      AdminEffect c cmd
        { c with ioSq := Sq.create qid (cmd.cdw10 >>> 16 &&& 0xFFFF).toNat cqid }
  | createCq (qid vector : ℕ) : cmd.opcode = 0x05 →
      AdminEffect c cmd
        { c with ioCq := Cq.create qid (cmd.cdw10 >>> 16 &&& 0xFFFF).toNat vector }
  | other (aer : Aer) (temps : Temps) (fw : Firmware) : cmd.opcode ≠ 0x01 → cmd.opcode ≠ 0x05 →
      AdminEffect c cmd { c with aer, temps, fw }

theorem AdminEffect.ite {k : UInt8} {r r' : Completion × Ctrl}
    (h : cmd.opcode = k → AdminEffect c cmd r.2) (h' : cmd.opcode ≠ k → AdminEffect c cmd r'.2) :
    AdminEffect c cmd (if cmd.opcode = k then r else r').2 := by
  split
  · exact h ‹_›
  · exact h' ‹_›

theorem processAdminCmd_effect (c : Ctrl) (cmd : Command) :
    AdminEffect c cmd (c.processAdminCmd cmd).2 := by
  have hother {k : UInt8} (hop : cmd.opcode = k) (hsq : k ≠ 0x01) (hcq : k ≠ 0x05) (aer : Aer)
      (temps : Temps) (fw : Firmware) : AdminEffect c cmd { c with aer, temps, fw } :=
    .other aer temps fw (hop ▸ hsq) (hop ▸ hcq)
  have hset (hop : cmd.opcode = 0x09) (cpl : Completion) :
      AdminEffect c cmd (c.adminSetFeatures cmd cpl).2 := by
    rw [adminSetFeatures]
    dsimp only
    split_ifs
    all_goals exact hother hop (by simp) (by simp) _ _ _
  -- The operation codes, in the order in which they are compared.
  rw [processAdminCmd]
  refine .ite (fun hop => hother hop (by simp) (by simp) _ _ _) fun _ => ?_
  refine .ite (fun hop => .createSq _ _ hop) fun hsq => ?_
  refine .ite (fun hop => hother hop (by simp) (by simp) _ _ _) fun _ => ?_
  refine .ite (fun hop => hother hop (by simp) (by simp) _ _ _) fun _ => ?_
  refine .ite (fun hop => .createCq _ _ hop) fun hcq => ?_
  refine .ite (fun hop => hother hop (by simp) (by simp) _ _ _) fun _ => ?_
  refine .ite (fun hop => hother hop (by simp) (by simp) _ _ _) fun _ => ?_
  refine .ite (fun hop => hset hop _) fun _ => ?_
  refine .ite (fun hop => hother hop (by simp) (by simp) _ _ _) fun _ => ?_
  refine .ite (fun hop => hother hop (by simp) (by simp) _ _ _) fun _ => ?_
  refine .ite (fun hop => hother hop (by simp) (by simp) _ _ _) fun _ => ?_
  refine .ite (fun hop => hother hop (by simp) (by simp) _ _ _) fun _ => ?_
  refine .ite (fun hop => hother hop (by simp) (by simp) _ _ _) fun _ => ?_
  refine .ite (fun hop => hother hop (by simp) (by simp) _ _ _) fun _ => ?_
  exact .other _ _ _ hsq hcq

/-- What an admin command does to the I/O queues. -/
inductive IoHandled (c : Ctrl) (cmd : Command) (c' : Ctrl) : Prop
  | same : c'.ioSq = c.ioSq → c'.ioCq = c.ioCq → IoHandled c cmd c'
  | createSq (qid qsize cqid : ℕ) : c'.ioSq = Sq.create qid qsize cqid → c'.ioCq = c.ioCq →
      IoHandled c cmd c'
  | createCq (qid vector : ℕ) : cmd.opcode = 0x05 → c'.ioSq = c.ioSq →
      c'.ioCq = Cq.create qid (cmd.cdw10 >>> 16 &&& 0xFFFF).toNat vector → IoHandled c cmd c'

theorem processAdminCmd_io (c : Ctrl) (cmd : Command) :
    IoHandled c cmd (c.processAdminCmd cmd).2 := by
  have heffect := c.processAdminCmd_effect cmd
  generalize (c.processAdminCmd cmd).2 = c' at heffect
  cases heffect with
  | createSq qid cqid => exact .createSq qid _ cqid rfl rfl
  | createCq qid vector hop => exact .createCq qid vector hop rfl rfl
  | other => exact .same rfl rfl

/-- The queues are tracked. -/
structure Tracked (c : Ctrl) : Prop where
  adminCq : c.adminCq.Tracked
  ioCq : c.ioCq.Tracked
  adminSq : c.adminSq.Bounded
  ioSq : c.ioSq.Bounded

/-- The entries that the admin completion queue would hold after the commands that wait, and the
    event requests, have been completed. -/
def adminLoad (c : Ctrl) : ℕ :=
  c.adminCq.ledger.held.length + c.adminSq.commands.length + (aerMaxPending - c.aer.freeSlots)

/-- The entries that the I/O completion queue would hold after the commands that wait have been
    completed. -/
def ioLoad (c : Ctrl) : ℕ := c.ioCq.ledger.held.length + c.ioSq.commands.length

/-- There is room for the completions of the commands that wait, also in a completion queue that
    one of them creates. -/
structure Roomy (c : Ctrl) : Prop where
  admin : c.adminLoad ≤ c.adminCq.size
  io : c.ioLoad ≤ c.ioCq.size
  created : ∀ cmd ∈ c.adminSq.commands, cmd.opcode = 0x05 → c.ioSq.commands.length ≤ cmd.queueSize

theorem freeSlots_le (aer : Aer) : aer.freeSlots ≤ aerMaxPending := by
  rw [Aer.freeSlots]
  exact List.countP_le_length.trans_eq List.length_range

/-- An admin command keeps the I/O queues tracked, with room. -/
theorem IoHandled.roomy (h : IoHandled c cmd c') (hcq : c.ioCq.Tracked) (hsq : c.ioSq.Bounded)
    (hio : c.ioLoad ≤ c.ioCq.size)
    (hcreated : cmd.opcode = 0x05 → c.ioSq.commands.length ≤ cmd.queueSize) :
    c'.ioCq.Tracked ∧ c'.ioSq.Bounded ∧ c'.ioLoad ≤ c'.ioCq.size ∧
      c'.ioSq.commands.length ≤ c.ioSq.commands.length := by
  cases h with
  | same hsq' hcq' =>
    rw [ioLoad, hsq', hcq']
    exact ⟨hcq, hsq, hio, le_rfl⟩
  | createSq qid qsize cqid hsq' hcq' =>
    rw [ioLoad, hsq', hcq', Sq.create_commands]
    exact ⟨hcq, Sq.create_bounded _ _ _, (Nat.le_add_right _ _).trans hio, Nat.zero_le _⟩
  | createCq qid vector hop hsq' hcq' =>
    rw [ioLoad, hsq', hcq']
    refine ⟨Cq.create_tracked _ _ _, hsq, ?_, le_rfl⟩
    rw [show (Cq.create qid (cmd.cdw10 >>> 16 &&& 0xFFFF).toNat vector).ledger =
      Ledger.fresh from rfl, Ledger.fresh, List.length_nil, Nat.zero_add]
    exact hcreated hop

/-- The commands of the admin queue are executed without overwriting a completion. -/
theorem processAdmin_tracked {fuel : ℕ} (h : c.Tracked) (hroom : c.Roomy)
    (hc' : c.processAdmin fuel = some c') : c'.Tracked ∧ c'.Roomy := by
  induction fuel generalizing c with
  | zero =>
    rw [processAdmin] at hc'
    cases hc'
  | succ fuel ih =>
    rw [processAdmin] at hc'
    cases hfetch : c.adminSq.sqFetchCmd with
    | none =>
      rw [hfetch] at hc'
      exact Option.some.inj hc' ▸ ⟨h, hroom⟩
    | some r =>
      obtain ⟨cmd, sq⟩ := r
      rw [hfetch] at hc'
      dsimp only at hc'
      obtain ⟨hbounded, _⟩ := h.adminSq.fetch hfetch
      have hcommands := h.adminSq.commands hfetch
      have hfree := freeSlots_le c.aer
      have hload := hroom.admin
      rw [adminLoad, hcommands, List.length_cons] at hload
      have hhandled := processAdminCmd_handled { c with adminSq := sq } cmd
      have hio := processAdminCmd_io { c with adminSq := sq } cmd
      generalize ({ c with adminSq := sq } : Ctrl).processAdminCmd cmd = r at hc' hhandled hio
      obtain ⟨cpl, c₁⟩ := r
      obtain ⟨hcq₁, hsq₁, hio₁, hle⟩ := hio.roomy h.ioCq h.ioSq hroom.io
        (hroom.created cmd (hcommands ▸ List.mem_cons_self))
      have hcreated : ∀ cmd' ∈ sq.commands, cmd'.opcode = 0x05 →
          c₁.ioSq.commands.length ≤ cmd'.queueSize := fun cmd' hmem hop =>
        hle.trans (hroom.created cmd' (hcommands ▸ List.mem_cons_of_mem _ hmem) hop)
      cases hhandled with
      | suspended _ hrsvd _ hslots hkept =>
        -- the request waits, and its completion is still to come
        obtain ⟨_, _, hsq, hcq, _, _⟩ := hkept
        have hslots := hslots.freeSlots
        dsimp only at hsq hcq hslots
        rw [if_pos hrsvd] at hc'
        refine ih ⟨hcq ▸ h.adminCq, hcq₁, hsq ▸ hbounded, hsq₁⟩ ⟨?_, hio₁, hsq ▸ hcreated⟩ hc'
        rw [adminLoad, hcq, hsq]
        dsimp only
        omega
      | answered _ hcpl hslots hkept =>
        obtain ⟨_, _, hsq, hcq, _, _⟩ := hkept
        have hslots := hslots.freeSlots
        dsimp only at hsq hcq hslots
        have hrsvd : cpl.rsvd1 = 0 := hcpl.rsvd1
        rw [if_neg (by rw [hrsvd]; decide), hcq] at hc'
        cases hpost : c.adminCq.cqPostCompletion cpl with
        | none =>
          rw [hpost] at hc'
          cases hc'
        | some cq =>
          rw [hpost] at hc'
          dsimp only at hc'
          obtain ⟨htracked, hsize, hheld⟩ := h.adminCq.post (by omega) hpost
          refine ih (c := { c₁ with adminCq := cq }) ⟨htracked, hcq₁, hsq ▸ hbounded, hsq₁⟩
            ⟨?_, hio₁, hsq ▸ hcreated⟩ hc'
          rw [adminLoad]
          dsimp only
          rw [hsize, hheld, hsq, hslots]
          omega

/-- The commands of the I/O queue are executed without overwriting a completion. -/
theorem processIo_tracked {ftlFuel fuel count count' : ℕ} {ftl ftl' : Ftl} (h : c.Tracked)
    (hroom : c.ioLoad ≤ c.ioCq.size)
    (hc' : c.processIo ftlFuel fuel count ftl = some (count', c', ftl')) :
    c'.Tracked ∧ c'.adminCq = c.adminCq ∧ c'.aer = c.aer := by
  induction fuel generalizing c count ftl with
  | zero =>
    rw [processIo] at hc'
    cases hc'
  | succ fuel ih =>
    rw [processIo] at hc'
    cases hfetch : c.ioSq.sqFetchCmd with
    | none =>
      rw [hfetch] at hc'
      obtain ⟨-, rfl, -⟩ := Prod.mk.inj (Option.some.inj hc')
      exact ⟨h, rfl, rfl⟩
    | some r =>
      obtain ⟨cmd, sq⟩ := r
      rw [hfetch] at hc'
      dsimp only at hc'
      obtain ⟨hbounded, _⟩ := h.ioSq.fetch hfetch
      have hcommands := h.ioSq.commands hfetch
      rw [ioLoad, hcommands, List.length_cons] at hroom
      cases hcmd : processIoCmd ftlFuel { c with ioSq := sq } ftl cmd with
      | none =>
        rw [hcmd] at hc'
        cases hc'
      | some r =>
        obtain ⟨cpl, ftl₁⟩ := r
        rw [hcmd] at hc'
        dsimp only at hc'
        cases hpost : c.ioCq.cqPostCompletion cpl with
        | none =>
          rw [hpost] at hc'
          cases hc'
        | some cq =>
          rw [hpost] at hc'
          -- One command less waits, one entry more is held: the room is enough as before.
          obtain ⟨htracked, hsize, hheld⟩ := h.ioCq.post (by omega) hpost
          refine ih (c := { c with ioSq := sq, ioCq := cq })
            ⟨h.adminCq, htracked, h.adminSq, hbounded⟩ ?_ hc'
          rw [ioLoad]
          dsimp only
          rw [hsize, hheld]
          omega

/-- Taking an event for a request leaves one more free slot. -/
theorem popEvent_freeSlots {aer aer' : Aer} {cid : UInt16} {e : AerEvent}
    (h : aer.popEvent = some (cid, e, aer')) : aer'.freeSlots = aer.freeSlots + 1 := by
  rw [Aer.popEvent] at h
  split_ifs at h
  obtain ⟨i, hfind, heq⟩ := Option.map_eq_some_iff.1 h
  obtain ⟨hi, hactive⟩ := Aer.findPending_some hfind
  obtain ⟨-, -, rfl⟩ : _ ∧ _ ∧ _ = aer' := by
    simpa only [Prod.mk.injEq] using heq
  refine Aer.freeSlots_fill hi ?_ hactive fun j hj => ?_
  · dsimp only
    rw [Function.update_self]
  · dsimp only
    rw [Function.update_of_ne hj]

/-- Event requests are completed without overwriting a completion. -/
theorem aerTryComplete_tracked {n : ℕ} (h : c.Tracked)
    (hroom : c.adminCq.ledger.held.length + (aerMaxPending - c.aer.freeSlots) ≤ c.adminCq.size)
    (hc' : c.aerTryComplete n = some c') : c'.Tracked := by
  induction n generalizing c with
  | zero =>
    rw [aerTryComplete] at hc'
    exact Option.some.inj hc' ▸ h
  | succ n ih =>
    rw [aerTryComplete] at hc'
    split at hc'
    · exact Option.some.inj hc' ▸ h
    · next cid e aer hpop =>
      dsimp only at hc'
      split at hc'
      · cases hc'
      · next cq hpost =>
        have hslots := popEvent_freeSlots hpop
        have hfree := freeSlots_le aer
        obtain ⟨htracked, hsize, hheld⟩ := h.adminCq.post (by omega) hpost
        refine ih (c := { c with adminCq := cq, aer := aer })
          ⟨htracked, h.ioCq, h.adminSq, h.ioSq⟩ ?_ hc'
        dsimp only
        rw [hsize, hheld]
        omega

end Ctrl

/-! ## Runs of the controller -/

/-- A host that follows the queue protocol releases only entries that have been written. -/
def CtrlFollows (s : Ctrl × Ftl) : CtrlCall → Prop
  | .cqDoorbell qid value =>
    let cq := if qid = 0 then s.1.adminCq else s.1.ioCq
    cq.advance (value.toNat % cq.size) ≤ cq.ledger.held.length
  | _ => True

/-- When commands are executed, there is room for their completions. -/
def CtrlRoomy (s : Ctrl × Ftl) : CtrlCall → Prop
  | .process => s.1.Roomy
  | _ => True

namespace Ctrl

variable {c c' : Ctrl}

theorem Tracked.same (h : c.Tracked) (hsame : SameQueues c c') : c'.Tracked := by
  obtain ⟨-, hsq, hcq, hiosq, hiocq⟩ := hsame
  exact ⟨hcq ▸ h.adminCq, hiocq ▸ h.ioCq, hsq ▸ h.adminSq, hiosq ▸ h.ioSq⟩

theorem init_tracked (rand : ℕ → ℕ) : (init rand).Tracked where
  adminCq := Cq.create_tracked _ _ _
  ioCq := Cq.absent_tracked
  adminSq := Sq.create_bounded _ _ _
  ioSq := .inl ⟨rfl, rfl⟩

/-- Executing the commands in the queues. -/
theorem Tracked.process {fuel : ℕ} {ftl : Ftl} {s' : Ctrl × Ftl} (h : c.Tracked) (hready : c.Ready)
    (hroom : c.Roomy) (hs' : c.process fuel ftl = some s') : s'.1.Tracked := by
  by_cases hstate : c.state = .ready
  · obtain ⟨c₁, count, c₂, c₃, hadmin, hio, haer, heq⟩ := hready.process_cases hstate hs'
    obtain ⟨h₁, hroom₁⟩ := processAdmin_tracked h hroom hadmin
    have hload := hroom₁.admin
    rw [adminLoad] at hload
    have h₂ : c₂.Tracked ∧ c₂.adminCq = c₁.adminCq ∧ c₂.aer = c₁.aer := by
      rcases hio with hio | ⟨_, rfl⟩
      · exact processIo_tracked h₁ hroom₁.io hio
      · exact ⟨h₁, rfl, rfl⟩
    obtain ⟨h₂, hcq, haer₂⟩ := h₂
    have h₃ := aerTryComplete_tracked h₂ (by rw [hcq, haer₂]; omega) haer
    rw [heq]
    exact h₃.same (tickTemperature_same _ _)
  · rw [Ctrl.process, if_pos (.inr hstate)] at hs'
    obtain rfl := Option.some.inj hs'
    exact h

theorem Tracked.exec {fuel : ℕ} {ftl : Ftl} {s' : Ctrl × Ftl} {call : CtrlCall} (h : c.Tracked)
    (hready : c.Ready) (hfollows : CtrlFollows (c, ftl) call) (hroom : CtrlRoomy (c, ftl) call)
    (hs' : ctrlExec fuel (c, ftl) call = some s') : s'.1.Tracked := by
  cases call with
  | hostWrite qid i cmd =>
    obtain rfl := Option.some.inj hs'
    show (c.hostWrite qid i cmd).Tracked
    rw [Ctrl.hostWrite]
    split
    · exact ⟨h.adminCq, h.ioCq, h.adminSq.hostWrite i, h.ioSq⟩
    · exact ⟨h.adminCq, h.ioCq, h.adminSq, h.ioSq.hostWrite i⟩
  | sqDoorbell qid value =>
    obtain ⟨c', hc', rfl⟩ := Option.map_eq_some_iff.1 hs'
    rw [Ctrl.sqDoorbell] at hc'
    split at hc'
    · obtain ⟨sq, hsq, rfl⟩ := Option.map_eq_some_iff.1 hc'
      exact ⟨h.adminCq, h.ioCq, h.adminSq.doorbell hsq, h.ioSq⟩
    · obtain ⟨sq, hsq, rfl⟩ := Option.map_eq_some_iff.1 hc'
      exact ⟨h.adminCq, h.ioCq, h.adminSq, h.ioSq.doorbell hsq⟩
  | cqDoorbell qid value =>
    obtain ⟨c', hc', rfl⟩ := Option.map_eq_some_iff.1 hs'
    rw [Ctrl.cqDoorbell] at hc'
    rw [CtrlFollows] at hfollows
    split at hc'
    · next hqid =>
      obtain ⟨cq, hcq, rfl⟩ := Option.map_eq_some_iff.1 hc'
      rw [if_pos hqid] at hfollows
      exact ⟨h.adminCq.doorbell hfollows hcq, h.ioCq, h.adminSq, h.ioSq⟩
    · next hqid =>
      obtain ⟨cq, hcq, rfl⟩ := Option.map_eq_some_iff.1 hc'
      rw [if_neg hqid] at hfollows
      exact ⟨h.adminCq, h.ioCq.doorbell hfollows hcq, h.adminSq, h.ioSq⟩
  | writeCc value =>
    obtain rfl := Option.some.inj hs'
    exact ⟨h.adminCq, h.ioCq, h.adminSq, h.ioSq⟩
  | postAerEvent e =>
    obtain rfl := Option.some.inj hs'
    exact ⟨h.adminCq, h.ioCq, h.adminSq, h.ioSq⟩
  | process => exact h.process hready hroom hs'

end Ctrl

/-- The queues of the controller are tracked throughout a run of a host that follows the queue
    protocol, if there is room whenever commands are executed. -/
theorem ctrl_tracked {rand : ℕ → ℕ} {ftl : Ftl} {tr : List (CtrlCall × Unit)} {s : Ctrl × Ftl}
    (hrun : ctrlMachine.Run (fun s call => CtrlFollows s call ∧ CtrlRoomy s call)
      (Ctrl.init rand, ftl) tr s) : s.1.Ready ∧ s.1.Tracked := by
  have hinv := hrun.invariant (P := fun s => (s.1.Ready ∧ s.1.aer.Sound) ∧ s.1.Tracked)
    ⟨⟨Ctrl.init_ready rand, Aer.Sound.init⟩, Ctrl.init_tracked rand⟩
    fun _ _ _ _ h hcall hstep => hstep.elim fun _ hexec =>
      ⟨⟨h.1.1.exec h.1.2 hexec, h.1.2.steps (Ctrl.exec_aer hexec)⟩,
        h.2.exec h.1.1 hcall.1 hcall.2 hexec⟩
  exact ⟨hinv.1.1, hinv.2⟩

/-! ## The queues of the back end -/

/-- The head of the submission queue is in the queue, and the completions that the guest has not
    released are those from the head to the tail, none of which has been overwritten. -/
structure VfioQueue.Sound (q : VfioQueue) : Prop where
  head : q.sqSize ≠ 0 → q.sqHead < q.sqSize
  small : q.cqSize < 2 ^ 16
  clean : q.ledger.clobbered = false
  tracks : q.cqSize ≠ 0 → q.ledger.Tracks q.cqSize q.cqHead q.cqTail

namespace VfioQueue

variable {q : VfioQueue} {index : ℕ}

theorem absent_sound : absent.Sound :=
  ⟨fun h => absurd rfl h, show 0 < 2 ^ 16 by decide, rfl, fun h => absurd rfl h⟩

/-- Queues whose indices are at the start. -/
theorem sound_of_start (hhead : q.sqHead = 0) (hledger : q.ledger = Ledger.fresh)
    (hcqHead : q.cqHead = 0) (hcqTail : q.cqTail = 0) (hsmall : q.cqSize < 2 ^ 16) :
    q.Sound where
  head h := hhead ▸ Nat.pos_of_ne_zero h
  small := hsmall
  clean := hledger ▸ rfl
  tracks h := by
    rw [hledger, hcqHead, hcqTail]
    exact Ledger.fresh_tracks (Nat.pos_of_ne_zero h)

/-- The next index in a ring, as the back end computes it. -/
theorem next_index {n i : ℕ} (h : i < n) : (if i + 1 ≥ n then 0 else i + 1) = (i + 1) % n := by
  by_cases hlast : i + 1 ≥ n
  · rw [if_pos hlast, show i + 1 = n by omega, Nat.mod_self]
  · rw [if_neg hlast, Nat.mod_eq_of_lt (by omega)]

/-- The number of commands that wait. -/
def pending (q : VfioQueue) : ℕ := Ring.dist q.sqSize q.sqHead q.sqTail

/-- Completing a command when not all entries are held. -/
theorem Sound.completed (h : q.Sound) (hsq : q.sqSize ≠ 0) (hcq : q.cqSize ≠ 0)
    (htail : q.sqTail < q.sqSize) (hne : q.sqHead ≠ q.sqTail)
    (hroom : q.ledger.held.length < q.cqSize) :
    q.completed.Sound ∧ q.completed.ledger.held.length = q.ledger.held.length + 1 ∧
      q.pending = q.completed.pending + 1 := by
  have htracks := h.tracks hcq
  have hpost := htracks.post hroom
  have hhead := h.head hsq
  refine ⟨⟨fun _ => ?_, h.small, hpost.clean, fun _ => ?_⟩, Ledger.length_post _ _, ?_⟩
  · show (if q.sqHead + 1 ≥ q.sqSize then 0 else q.sqHead + 1) < q.sqSize
    rw [next_index hhead]
    exact Nat.mod_lt _ (Nat.pos_of_ne_zero hsq)
  · show (q.ledger.post q.cqTail).Tracks q.cqSize q.cqHead
      (if q.cqTail + 1 ≥ q.cqSize then 0 else q.cqTail + 1)
    rw [next_index htracks.tail_lt]
    exact hpost
  · show Ring.dist q.sqSize q.sqHead q.sqTail =
      Ring.dist q.sqSize (if q.sqHead + 1 ≥ q.sqSize then 0 else q.sqHead + 1) q.sqTail + 1
    rw [next_index hhead]
    exact Ring.dist_succ hhead htail hne

end VfioQueue

namespace Vfio

variable {v v' : Vfio} {info : Ctrl → Command → Buffer} {fuel qid : ℕ} {cmd : Command}
  {cpl : Completion}

/-- An admin command leaves the admin queue alone, and keeps the other ones sound. -/
theorem updateQueue_queues (v : Vfio) (cmd : Command) :
    (v.updateQueue cmd).queues 0 = v.queues 0 ∧
      ∀ i, (v.queues i).Sound → ((v.updateQueue cmd).queues i).Sound := by
  have hset {qid : ℕ} {q : VfioQueue} (hpos : 0 < qid)
      (hq : (v.queues qid).Sound → q.Sound) : (v.setQueue qid q).queues 0 = v.queues 0 ∧
        ∀ i, (v.queues i).Sound → ((v.setQueue qid q).queues i).Sound := by
    refine ⟨Function.update_of_ne hpos.ne _ _, fun i hi => ?_⟩
    rw [setQueue]
    dsimp only
    rcases eq_or_ne i qid with rfl | hne
    · rw [Function.update_self]
      exact hq hi
    · rwa [Function.update_of_ne hne]
  rw [updateQueue]
  split_ifs with hqid
  · exact hset hqid.1 fun h => ⟨fun hsize => Nat.pos_of_ne_zero hsize, h.small, h.clean, h.tracks⟩
  · exact hset hqid.1 fun h => ⟨h.head, Nat.mod_lt _ (by decide), rfl,
      fun hsize => Ledger.fresh_tracks (Nat.pos_of_ne_zero hsize)⟩
  · exact hset hqid.1 fun h => ⟨fun hsize => absurd rfl hsize, h.small, h.clean, h.tracks⟩
  · exact hset hqid.1 fun h =>
      ⟨h.head, show 0 < 2 ^ 16 by decide, h.clean, fun hsize => absurd rfl hsize⟩
  · exact ⟨rfl, fun _ h => h⟩
  · exact ⟨rfl, fun _ h => h⟩

/-- An I/O command leaves the queues alone. -/
theorem processIoCommand_queues (h : v.processIoCommand fuel cmd = some (cpl, v')) :
    v'.queues = v.queues := by
  have hmap {α : Type} {r : Option α} {f : α → Completion × Vfio}
      (hf : ∀ a, (f a).2.queues = v.queues) (hr : r.map f = some (cpl, v')) :
      v'.queues = v.queues := by
    obtain ⟨a, _, heq⟩ := Option.map_eq_some_iff.1 hr
    rw [← hf a, heq]
  rw [processIoCommand] at h
  split_ifs at h
  · obtain ⟨-, rfl⟩ := Prod.mk.inj (Option.some.inj h)
    rfl
  all_goals exact hmap (fun _ => rfl) h

/-- A command leaves its own queue alone, and keeps the other ones sound. -/
theorem processNvmeCommand_queues
    (h : v.processNvmeCommand fuel info cmd qid = some (cpl, v')) :
    v'.queues qid = v.queues qid ∧ ∀ i, (v.queues i).Sound → (v'.queues i).Sound := by
  rw [processNvmeCommand] at h
  split_ifs at h with hqid
  · have heq : v' = (v.processAdminCommand info cmd).2 := by rw [Option.some.inj h]
    rw [heq, hqid]
    unfold processAdminCommand
    split_ifs
    · exact ⟨rfl, fun _ h => h⟩
    · exact ⟨rfl, fun _ h => h⟩
    · exact updateQueue_queues v cmd
  · rw [processIoCommand_queues h]
    exact ⟨rfl, fun _ h => h⟩

end Vfio

/-! ## Runs of the back end -/

/-- A guest that follows the queue protocol moves the tail of a submission queue, and the head of a
    completion queue, within the queue, and releases only completions that have been written. -/
def VfioFollows (v : Vfio) : VfioCall → Prop
  | .doorbell offset value =>
    let q := v.queues (offset / 8 % 2 ^ 16)
    let index := (value &&& 0xFFFF).toNat
    if offset % 8 = 0 then index < q.sqSize
    else index < q.cqSize ∧ q.advance index ≤ q.ledger.held.length
  | _ => True

/-- When the tail of a submission queue is moved, there is room for the completions of the commands
    that wait. -/
def VfioRoomy (v : Vfio) : VfioCall → Prop
  | .doorbell offset value =>
    let q := v.queues (offset / 8 % 2 ^ 16)
    offset % 8 = 0 → q.cqSize ≠ 0 →
      q.ledger.held.length + { q with sqTail := (value &&& 0xFFFF).toNat }.pending ≤ q.cqSize
  | _ => True

namespace Vfio

variable {v v' : Vfio} {info : Ctrl → Command → Buffer} {fuel : ℕ}

/-- Changing a queue. -/
theorem forall_setQueue {P : VfioQueue → Prop} {q : VfioQueue} (qid : ℕ) (h : ∀ i, P (v.queues i))
    (hq : P q) : ∀ i, P ((v.setQueue qid q).queues i) := by
  intro i
  rw [setQueue]
  dsimp only
  rcases eq_or_ne i qid with rfl | hne
  · rw [Function.update_self]
    exact hq
  · rw [Function.update_of_ne hne]
    exact h i

/-- Writing a register leaves the queues alone, or moves the indices of the admin queue to the
    start. -/
theorem forall_handleNvmeRegWrite {P : VfioQueue → Prop} (h : ∀ i, P (v.queues i))
    (hstart : ∀ q : VfioQueue, q.sqHead = 0 → q.ledger = Ledger.fresh → q.cqHead = 0 →
      q.cqTail = 0 → q.cqSize < 2 ^ 16 ∨ q.cqSize = (v.queues 0).cqSize → P q) (offset : ℕ)
    (value : UInt32) : ∀ i, P ((v.handleNvmeRegWrite offset value).queues i) := by
  have hadmin {w : Vfio} (hw : w.queues = v.queues) :
      ∀ i, P (w.updateAdminQueueFromRegs.queues i) :=
    forall_setQueue 0 (hw ▸ h) (hstart _ rfl rfl rfl rfl (.inl (Nat.mod_lt _ (by decide))))
  rw [handleNvmeRegWrite]
  split_ifs
  · exact hadmin rfl
  · exact forall_setQueue 0 h (hstart _ rfl rfl rfl rfl (.inr rfl))
  · exact hadmin rfl
  · exact hadmin rfl
  · exact hadmin rfl
  · exact hadmin rfl
  · exact hadmin rfl
  · exact h

theorem handleNvmeRegWrite_sound (h : ∀ i, (v.queues i).Sound) (offset : ℕ) (value : UInt32) :
    ∀ i, ((v.handleNvmeRegWrite offset value).queues i).Sound :=
  forall_handleNvmeRegWrite h (fun _ hhead hledger hcqHead hcqTail hsize =>
    VfioQueue.sound_of_start hhead hledger hcqHead hcqTail
      (hsize.elim id fun heq => heq ▸ (h 0).small)) offset value

end Vfio

end Nvme

end FtlFirmware
