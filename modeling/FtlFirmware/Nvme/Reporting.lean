import FtlFirmware.Nvme.Completing

/-!
# Reporting of events

Every completion that the controller writes to the admin queue answers a command that is not an
accepted event request, or reports an event to an accepted one (`AdminLog`). The front ends send the
completion of a request that has just been accepted, whatever its mark says. If they accept no
request, then requests are completed at most once, with one event each, in the order of posting
(`aer_reports`).
-/

namespace FtlFirmware

namespace Nvme

/-! ## Front ends -/

/-- The calls to the controller, among them the admin commands that the front ends have executed. -/
inductive FrontCall
  | ctrl (call : CtrlCall)
  | adminCmd (cmd : Command)

/-- The controller with its front ends as a machine. A front end sends the completion of each
    admin command, which is the answer of the machine. -/
def frontMachine : Machine (Ctrl × Ftl) FrontCall (Option Completion) where
  step s call sent s' :=
    match call with
    | .ctrl call => sent = none ∧ ctrlMachine.step s call () s'
    | .adminCmd cmd =>
      sent = some (s.1.frontAdminCmd cmd).1 ∧ s' = ((s.1.frontAdminCmd cmd).2, s.2)

/-- The front ends have no event request executed when there is a slot for it. -/
def NoRequest (s : Ctrl × Ftl) : FrontCall → Prop
  | .ctrl _ => True
  | .adminCmd cmd => cmd.opcode = 0x0C → s.1.aer.freeSlots = 0

variable {s s' : Ctrl × Ftl} {tr : List (FrontCall × Option Completion)} {rand : ℕ → ℕ} {ftl : Ftl}

/-! ## The admin queue -/

/-- The completion answers a command. An event request is refused. -/
def RepliesTo (cmd : Command) (cpl : Completion) : Prop :=
  cpl.cid = cmd.cid ∧ cpl.rsvd1 = 0 ∧ (cmd.opcode = 0x0C → cpl.status = scAerLimitExceeded <<< 1)

/-- What the commands taken from the admin queue and the completions written to it are, the requests
    accepted being `as`, and those completed `rs`: a command is an event request that is accepted,
    or it is answered by a completion. Another completion reports an event to a request that has
    been accepted before. -/
inductive AdminLog : List Fetch → List Post → List UInt16 → List (ℕ × Option AerEvent) → Prop
  | nil : AdminLog [] [] [] []
  | accepted {fs ps as rs} {f : Fetch} : AdminLog fs ps as rs → f.cmd.opcode = 0x0C →
      AdminLog (fs ++ [f]) ps (as ++ [f.cmd.cid]) rs
  | answered {fs ps as rs} {f : Fetch} {p : Post} : AdminLog fs ps as rs → RepliesTo f.cmd p.cpl →
      AdminLog (fs ++ [f]) (ps ++ [p]) as rs
  | reported {fs ps as rs} {p : Post} {r : ℕ × Option AerEvent} : AdminLog fs ps as rs →
      Reports as p r → AdminLog fs (ps ++ [p]) as (rs ++ [r])

namespace Ctrl

variable {c c' : Ctrl} {cmd : Command}

/-- The admin queues and the event requests have a log. -/
def Logged (c : Ctrl) : Prop :=
  AdminLog c.adminSq.fetched c.adminCq.posted c.aer.accepted c.aer.completed

theorem Handled.repliesTo {cpl : Completion}
    (hop : cmd.opcode = 0x0C → c.aer.freeSlots = 0 ∧ cpl.status = scAerLimitExceeded <<< 1)
    (h : ({ Completion.blank with cid := cmd.cid } : Completion).Answers cpl) : RepliesTo cmd cpl :=
  ⟨h.cid, h.rsvd1, fun heq => (hop heq).2⟩

namespace Logged

theorem congr (h : c.Logged) (hsq : c'.adminSq.fetched = c.adminSq.fetched)
    (hcq : c'.adminCq.posted = c.adminCq.posted) (haer : c.aer.SameRequests c'.aer) :
    c'.Logged := by
  rw [Logged, hsq, hcq, haer.accepted, haer.completed]
  exact h

/-- The commands of the admin queue are answered, or accepted. -/
theorem processAdmin {fuel : ℕ} (h : c.Logged) (hc' : c.processAdmin fuel = some c') :
    c'.Logged := by
  induction fuel generalizing c with
  | zero =>
    rw [Ctrl.processAdmin] at hc'
    cases hc'
  | succ fuel ih =>
    rw [Ctrl.processAdmin] at hc'
    cases hfetch : c.adminSq.sqFetchCmd with
    | none =>
      rw [hfetch] at hc'
      exact Option.some.inj hc' ▸ h
    | some r =>
      obtain ⟨cmd, sq⟩ := r
      obtain ⟨_, _, _, _, _, _, hfetched⟩ := Sq.sqFetchCmd_eq hfetch
      rw [hfetch] at hc'
      dsimp only at hc'
      have hhandled := processAdminCmd_handled { c with adminSq := sq } cmd
      generalize ({ c with adminSq := sq } : Ctrl).processAdminCmd cmd = r at hc' hhandled
      obtain ⟨cpl, c₁⟩ := r
      -- A request that waits is accepted; any other command is answered at once.
      cases hhandled with
      | suspended hop hrsvd _ hnew hkept =>
        rw [if_pos hrsvd] at hc'
        refine ih ?_ hc'
        rw [Logged, hkept.adminSq, hkept.adminCq, hnew.accepted, hnew.completed, hfetched]
        exact .accepted h hop
      | answered hop hcpl hsame hkept =>
        have hrsvd : cpl.rsvd1 = 0 := hcpl.rsvd1
        rw [if_neg (by rw [hrsvd]; decide), hkept.adminCq] at hc'
        cases hpost : c.adminCq.cqPostCompletion cpl with
        | none =>
          rw [hpost] at hc'
          cases hc'
        | some cq =>
          rw [hpost] at hc'
          obtain ⟨_, _, _, _, _, _, _, hposted⟩ := Cq.cqPostCompletion_eq hpost
          refine ih ?_ hc'
          rw [Logged, hkept.adminSq, hsame.accepted, hsame.completed, hfetched]
          dsimp only
          rw [hposted]
          exact .answered h (Handled.repliesTo hop hcpl)

/-- The completions of event requests report events. -/
theorem aerTryComplete {n : ℕ} (h : c.Logged) (hsound : c.aer.Sound)
    (hc' : c.aerTryComplete n = some c') : c'.Logged := by
  induction n generalizing c with
  | zero =>
    rw [Ctrl.aerTryComplete] at hc'
    exact Option.some.inj hc' ▸ h
  | succ n ih =>
    rw [Ctrl.aerTryComplete] at hc'
    split at hc'
    · exact Option.some.inj hc' ▸ h
    · next cid e aer hpop =>
      dsimp only at hc'
      split at hc'
      · cases hc'
      · next cq hpost =>
        obtain ⟨_, _, _, _, _, _, _, hposted⟩ := Cq.cqPostCompletion_eq hpost
        obtain ⟨hacc, k, hk, hcompleted⟩ := hsound.pop_completed hpop
        refine ih ?_ (hsound.pop hpop) hc'
        rw [Logged]
        dsimp only
        rw [hposted, hacc, hcompleted]
        exact .reported h (reports_completion c.adminSq.head e hk)

/-- Executing the commands in the queues. -/
theorem process {fuel : ℕ} {ftl : Ftl} {s' : Ctrl × Ftl} (h : c.Logged) (hready : c.Ready)
    (hsound : c.aer.Sound) (hs' : c.process fuel ftl = some s') : s'.1.Logged := by
  by_cases hstate : c.state = .ready
  · obtain ⟨c₁, count, c₂, c₃, hadmin, hio, haer, heq⟩ := hready.process_cases hstate hs'
    have h₁ := h.processAdmin hadmin
    have hready₁ := hready.processAdmin hadmin
    have hsound₁ := hsound.steps (processAdmin_aer hadmin)
    have h₂ : c₂.Logged ∧ c₂.aer.Sound := by
      rcases hio with hio | ⟨_, rfl⟩
      · obtain ⟨_, _, _, hsq, hcq, haer₂, _⟩ :=
          processIo_answers hio hready₁.ioPaced hready₁.ioBounded
        rw [Logged, hsq, hcq, haer₂]
        exact ⟨h₁, hsound₁⟩
      · exact ⟨h₁, hsound₁⟩
    have h₃ := h₂.1.aerTryComplete h₂.2 haer
    have hsame := tickTemperature_same c₃ count
    rw [heq]
    exact h₃.congr (congrArg Sq.fetched hsame.adminSq) (congrArg Cq.posted hsame.adminCq)
      (tickTemperature_requests c₃ count)
  · rw [Ctrl.process, if_pos (.inr hstate)] at hs'
    exact Option.some.inj hs' ▸ h

/-- Every call to the controller goes on with the log. -/
theorem exec {fuel : ℕ} {ftl : Ftl} {s' : Ctrl × Ftl} {call : CtrlCall} (h : c.Logged)
    (hready : c.Ready) (hsound : c.aer.Sound) (hs' : ctrlExec fuel (c, ftl) call = some s') :
    s'.1.Logged := by
  cases call with
  | hostWrite qid i cmd =>
    obtain rfl := Option.some.inj hs'
    show (c.hostWrite qid i cmd).Logged
    rw [Ctrl.hostWrite]
    split <;> exact h
  | sqDoorbell qid value =>
    obtain ⟨c', hc', rfl⟩ := Option.map_eq_some_iff.1 hs'
    rw [Ctrl.sqDoorbell] at hc'
    split at hc'
    · obtain ⟨sq, hsq, rfl⟩ := Option.map_eq_some_iff.1 hc'
      rw [Sq.sqDoorbell] at hsq
      split_ifs at hsq
      obtain rfl := Option.some.inj hsq
      exact h
    · obtain ⟨sq, _, rfl⟩ := Option.map_eq_some_iff.1 hc'
      exact h
  | cqDoorbell qid value =>
    obtain ⟨c', hc', rfl⟩ := Option.map_eq_some_iff.1 hs'
    rw [Ctrl.cqDoorbell] at hc'
    split at hc'
    · obtain ⟨cq, hcq, rfl⟩ := Option.map_eq_some_iff.1 hc'
      rw [Cq.cqDoorbell] at hcq
      split_ifs at hcq
      obtain rfl := Option.some.inj hcq
      exact h
    · obtain ⟨cq, _, rfl⟩ := Option.map_eq_some_iff.1 hc'
      exact h
  | writeCc value =>
    obtain rfl := Option.some.inj hs'
    exact h
  | postAerEvent e =>
    obtain rfl := Option.some.inj hs'
    exact h.congr rfl rfl (postAerEvent_requests _ _)
  | process => exact h.process hready hsound hs'

end Logged

end Ctrl

/-! ## Commands of the front ends -/

/-- A front end that does not have an event request accepted leaves the admin queues and the event
    requests alone, and sends an answer to the command. -/
theorem frontAdminCmd_repliesTo {c : Ctrl} {cmd : Command}
    (h : cmd.opcode = 0x0C → c.aer.freeSlots = 0) :
    RepliesTo cmd (c.frontAdminCmd cmd).1 ∧ AerSteps c.aer (c.frontAdminCmd cmd).2.aer ∧
      c.aer.SameRequests (c.frontAdminCmd cmd).2.aer ∧ c.Kept (c.frontAdminCmd cmd).2 := by
  have hsteps := Ctrl.processAdminCmd_aer c cmd
  have hhandled := Ctrl.processAdminCmd_handled c cmd
  rw [Ctrl.frontAdminCmd]
  dsimp only
  generalize c.processAdminCmd cmd = r at hsteps hhandled
  cases hhandled with
  | suspended hop _ _ hnew _ =>
    have hfree := hnew.freeSlots
    rw [h hop] at hfree
    cases hfree
  | answered hop hcpl hsame hkept =>
    -- The completion is not marked.
    have hmark : ¬({ Completion.blank with cid := cmd.cid } : Completion).rsvd1 = aerSuspended :=
      show ¬(0 : UInt32) = aerSuspended by decide
    rw [Aer.deliver, hcpl.rsvd1, if_neg hmark]
    exact ⟨Ctrl.Handled.repliesTo hop hcpl, hsteps, hsame, hkept⟩

/-! ## The law of reporting -/

/-- The law of reporting: requests that have been accepted are completed at most once, each with
    an event, and the events posted are those reported, in order, followed by those in the queue.
    The queue has as many entries as head and tail tell, or is full. -/
structure Aer.Lawful (aer : Aer) : Prop where
  once : aer.tickets.Nodup
  accepted : ∀ r ∈ aer.completed, r.1 < aer.accepted.length ∧ ∃ e, r.2 = some e
  order : aer.posted = aer.reported ++ aer.ring.contents aerQueueSize
  count : aer.eventCount + aer.reported.length = aer.posted.length
  bound : aer.eventCount ≤ aerQueueSize
  indices : (aer.eventTail + aerQueueSize - aer.eventHead) % aerQueueSize =
    aer.eventCount % aerQueueSize

theorem Aer.Sound.lawful {aer : Aer} (h : aer.Sound) : aer.Lawful where
  once := h.nodup
  accepted r hr :=
    ⟨h.accepted _ (List.mem_map_of_mem hr), Option.isSome_iff_exists.1 (h.event r hr)⟩
  order := h.posted
  count := by
    rw [h.posted, List.length_append, Ring.length_contents, Nat.add_comm]
    rfl
  bound := h.ring.count_le
  indices := h.ring.count_mod

/-- The law holds, and the completions that the host gets are those of the law: those in the entries
    of the admin queue, and those that the front ends have sent, which answer commands that are not
    accepted event requests. -/
structure AerLaw (tr : List (FrontCall × Option Completion)) (c : Ctrl) : Prop where
  lawful : c.aer.Lawful
  paced : c.adminCq.Paced
  logged : c.Logged
  sent : ∀ cmd cpl, (FrontCall.adminCmd cmd, some cpl) ∈ tr → RepliesTo cmd cpl

/-- What the front ends have sent answers commands that are not accepted. -/
theorem sent_repliesTo (hrun : frontMachine.Run NoRequest (Ctrl.init rand, ftl) tr s)
    {cmd : Command} {cpl : Completion} (hmem : (FrontCall.adminCmd cmd, some cpl) ∈ tr) :
    RepliesTo cmd cpl := by
  obtain ⟨tr₁, tr₂, rfl⟩ := List.append_of_mem hmem
  obtain ⟨s₁, s₂, _, hallowed, hstep, _⟩ := hrun.middle
  obtain ⟨hsent, _⟩ := hstep
  rw [Option.some.inj hsent]
  exact (frontAdminCmd_repliesTo hallowed).1

/-- If no front end has an event request accepted, the law of reporting holds in every state that
    is reached, of the completions that the host gets. -/
theorem aer_reports (hrun : frontMachine.Run NoRequest (Ctrl.init rand, ftl) tr s) :
    AerLaw tr s.1 := by
  have hinv := hrun.invariant
    (P := fun s : Ctrl × Ftl => s.1.Ready ∧ s.1.aer.Sound ∧ s.1.Logged)
    ⟨Ctrl.init_ready rand, Aer.Sound.init, .nil⟩ fun s call _ s' h hallowed hstep => by
      obtain ⟨hready, hsound, hlogged⟩ := h
      cases call with
      | ctrl call =>
        obtain ⟨_, fuel, hexec⟩ := hstep
        exact ⟨hready.exec hsound hexec, hsound.steps (Ctrl.exec_aer hexec),
          hlogged.exec hready hsound hexec⟩
      | adminCmd cmd =>
        obtain ⟨_, rfl⟩ := hstep
        obtain ⟨_, hsteps, hsame, hkept⟩ := frontAdminCmd_repliesTo hallowed
        exact ⟨hready.kept hkept, hsound.steps hsteps,
          hlogged.congr (congrArg Sq.fetched hkept.adminSq) (congrArg Cq.posted hkept.adminCq)
            hsame⟩
  obtain ⟨hready, hsound, hlogged⟩ := hinv
  exact ⟨hsound.lawful, hready.adminPaced, hlogged, fun _ _ hmem => sent_repliesTo hrun hmem⟩

/-- An event request. -/
def aerCommand : Command := { Command.blank with opcode := 0x0C, cid := 5 }

/-- A run goes on by any call that returns. -/
theorem front_snoc {allowed : Ctrl × Ftl → FrontCall → Prop} {s₀ : Ctrl × Ftl} {call : CtrlCall}
    (fuel : ℕ) (hrun : frontMachine.Run allowed s₀ tr s) (hallowed : allowed s (.ctrl call))
    (h : ctrlExec fuel s call = some s') :
    frontMachine.Run allowed s₀ (tr ++ [(.ctrl call, none)]) s' :=
  hrun.snoc hallowed ⟨rfl, fuel, h⟩

/-- A controller with an event and, in its admin queue, a request. -/
def aerReady : Ctrl :=
  let c := (ctrlOn.postAerEvent tempEvent).hostWrite 0 0 aerCommand
  { c with adminSq := { c.adminSq with tail := 1 } }

/-- An event is posted and a request is sent, which is completed with the event: the completion is
    in the first entry of the admin queue. -/
theorem aer_reports_one : ∃ tr ftl s,
    frontMachine.Run NoRequest (Ctrl.init fun _ => 0, ftl) tr s ∧
    tr.map Prod.fst = [.ctrl (.writeCc 1), .ctrl (.postAerEvent tempEvent),
      .ctrl (.hostWrite 0 0 aerCommand), .ctrl (.sqDoorbell 0 1), .ctrl .process] ∧
    s.1.aer.completed = [(0, some tempEvent)] ∧
    s.1.adminCq.entry 0 = some { Completion.blank with dw0 := 0x02000002, sqhd := 1, cid := 5 } ∧
    AerLaw tr s.1 := by
  obtain ⟨ftl⟩ : Nonempty Ftl := ⟨(Ftl.powerOn (fun _ => 0) fun _ => none).2⟩
  have hon := @front_snoc (Ctrl.init fun _ => 0, ftl) _ [] NoRequest (Ctrl.init fun _ => 0, ftl)
    (.writeCc 1) 0 .nil trivial rfl
  have hpost := @front_snoc _ _ _ _ _ (.postAerEvent tempEvent) 0 hon trivial rfl
  have hwrite := @front_snoc _ _ _ _ _ (.hostWrite 0 0 aerCommand) 0 hpost trivial rfl
  have hring := @front_snoc _ (aerReady, ftl) _ _ _ (.sqDoorbell 0 1) 0 hwrite trivial rfl
  have hdw0 : tempEvent.logPage.toUInt32 <<< 24 ||| (tempEvent.eventType &&& 0xFFFF) = 0x02000002 :=
    by decide
  have hmap : (ctrlExec 2 (aerReady, ftl) .process).map
      (fun s => (s.1.aer.completed, s.1.adminCq.entry 0)) = some ([(0, some tempEvent)],
        some { Completion.blank with
          dw0 := tempEvent.logPage.toUInt32 <<< 24 ||| (tempEvent.eventType &&& 0xFFFF)
          sqhd := 1, cid := 5 }) := rfl
  rw [hdw0] at hmap
  obtain ⟨s, hexec, heq⟩ := Option.map_eq_some_iff.1 hmap
  obtain ⟨hcompleted, hentry⟩ := Prod.mk.inj heq
  have hrun := front_snoc 2 hring trivial hexec
  exact ⟨_, ftl, s, hrun, rfl, hcompleted, hentry, aer_reports hrun⟩

/-- A front end sends the completion of an event request at once, without an event. -/
theorem not_aer_reports : ¬ ∀ rand ftl tr s,
    frontMachine.Run Machine.anyCall (Ctrl.init rand, ftl) tr s → AerLaw tr s.1 := by
  intro h
  obtain ⟨ftl⟩ : Nonempty Ftl := ⟨(Ftl.powerOn (fun _ => 0) fun _ => none).2⟩
  have hrun : frontMachine.Run Machine.anyCall (Ctrl.init fun _ => 0, ftl)
      [(.adminCmd aerCommand, some ((Ctrl.init fun _ => 0).frontAdminCmd aerCommand).1)]
      (((Ctrl.init fun _ => 0).frontAdminCmd aerCommand).2, ftl) :=
    .single trivial ⟨rfl, rfl⟩
  obtain ⟨_, hmark, _⟩ := (h _ _ _ _ hrun).sent _ _ List.mem_cons_self
  have hsuspended : aerSuspended = 0 := hmark
  exact absurd hsuspended (by decide)

end Nvme

end FtlFirmware
