import FtlFirmware.Nvme.Overwriting

/-!
# The queues of the vfio-user back end at work

The back end executes the commands of a queue one after another (`VfioWork`): it takes a command
from the submission queue, executes it, and writes its completion, until there are no more commands.
The guest may change its memory at any time in between. Each command is an event (`QueueEvent`),
which says where it came from, and where its completion went.

Every call of the back end is made of such steps (`vfioExec_steps`), and so is every run of it
(`vfio_run_steps`). A call that does not return also is, as far as it has got.
-/

namespace FtlFirmware

namespace Nvme

/-- A command that has been executed: the submission queue and the entry that it was taken from, and
    the address and the contents of its completion, if it could be written. -/
structure QueueEvent where
  qid : ℕ
  slot : ℕ
  cmd : Command
  posted : Option (UInt64 × Completion)

/-- The back end at work, with the queue whose commands it executes. -/
structure VfioWork where
  vfio : Vfio
  busy : Option ℕ
  /-- The completion queue that was named when a submission queue was created (ghost). -/
  cqids : ℕ → ℕ

/-- What happens next: the guest changes its memory, or writes a register or a doorbell; a command
    is executed; or the back end is done with a queue. -/
inductive QueueStep
  | store (mem : ℕ → Buffer)
  | regWrite (offset : ℕ) (value : UInt32)
  | doorbell (offset : ℕ) (value : UInt32)
  | execute
  | leave

namespace VfioQueue

variable (q : VfioQueue)

/-- The address of the next command. -/
def sqEntry : UInt64 := q.sqBase + UInt64.ofNat (q.sqHead * commandSize)

/-- The address of the next completion. -/
def cqEntry : UInt64 := q.cqBase + UInt64.ofNat (q.cqTail * completionSize)

/-- The next completion, with the head of the submission queue and the phase. -/
def completion (cpl : Completion) : Completion :=
  { cpl with
    sqhd := (q.sqHead + 1) % q.sqSize
    status := if q.cqPhase then cpl.status ||| 0x0001 else cpl.status &&& ~~~0x0001 }

/-- The commands of the queue are executed. -/
def Working : Prop := ¬ (q.valid = false ∨ q.sqSize = 0 ∨ q.cqSize = 0)

instance : Decidable q.Working := inferInstanceAs (Decidable (¬ _))

end VfioQueue

/-- A command creates a submission queue for I/O. -/
def Command.CreatesSq (cmd : Command) : Prop :=
  cmd.opcode = 0x01 ∧ 0 < cmd.queueId ∧ cmd.queueId < vfioMaxQueues

instance (cmd : Command) : Decidable cmd.CreatesSq := inferInstanceAs (Decidable (_ ∧ _))

namespace VfioWork

variable (s : VfioWork) (cqid : Command → ℕ)

/-- The back end when a guest has connected. -/
def init (rand : ℕ → ℕ) (ftl : Ftl) (guest : Guest) : VfioWork where
  vfio := Vfio.init rand ftl guest
  busy := none
  cqids _ := 0

/-- The tail of a submission queue is moved. -/
def ring (qid : ℕ) (value : UInt32) : Option VfioWork :=
  (s.vfio.ctrl.sqDoorbell qid value).map fun ctrl =>
    let q := { s.vfio.queues qid with sqTail := (value &&& 0xFFFF).toNat }
    { s with
      vfio := { s.vfio.setQueue qid q with ctrl := ctrl }
      busy := if q.Working then some qid else none }

/-- The completion queue named when a submission queue was created, after a command. -/
def named (qid : ℕ) (cmd : Command) : ℕ → ℕ :=
  if qid = 0 ∧ cmd.CreatesSq then Function.update s.cqids cmd.queueId (cqid cmd) else s.cqids

/-- A command of a queue is executed, and its completion is written. -/
def execute (fuel : ℕ) (info : Ctrl → Command → Buffer) (qid : ℕ) : Option (QueueEvent × VfioWork) :=
  let q := s.vfio.queues qid
  if q.sqHead = q.sqTail then none
  else
    match Vfio.gpaToHva s.vfio.guest q.sqEntry with
    | none => none
    | some h =>
      -- The completion goes where the queue has its entry once the command is done.
      let cmd := (s.vfio.guest.bytesAt h).command
      (s.vfio.processNvmeCommand fuel info cmd qid).map fun r =>
        let cqids := s.named cqid qid cmd
        match Vfio.gpaToHva r.2.guest (r.2.queues qid).cqEntry with
        | none => (⟨qid, q.sqHead, cmd, none⟩, ⟨r.2, none, cqids⟩)
        | some h =>
          (⟨qid, q.sqHead, cmd, some ((r.2.queues qid).cqEntry, (r.2.queues qid).completion r.1)⟩,
            ⟨r.2.postCompletion qid h r.1, s.busy, cqids⟩)

/-- What happens next. A command that is executed is answered. -/
def exec (fuel : ℕ) (info : Ctrl → Command → Buffer) :
    QueueStep → Option (Option QueueEvent × VfioWork)
  | .store mem => some (none, { s with vfio := { s.vfio with guest := { s.vfio.guest with mem } } })
  | .regWrite offset value =>
    if s.busy = none then some (none, { s with vfio := s.vfio.handleNvmeRegWrite offset value })
    else none
  | .doorbell offset value =>
    if s.busy ≠ none then none
    -- The doorbell of a submission queue starts the loop over its commands.
    else if offset % 8 = 0 ∧ offset / 8 % 2 ^ 16 < vfioMaxQueues then
      (s.ring (offset / 8 % 2 ^ 16) value).map fun s => (none, s)
    else
      (s.vfio.handleDoorbellWrite fuel info offset value).map fun v => (none, { s with vfio := v })
  | .execute => s.busy.bind fun qid =>
    (s.execute cqid fuel info qid).map fun r => (some r.1, r.2)
  | .leave => s.busy.bind fun qid =>
    let q := s.vfio.queues qid
    if q.sqHead = q.sqTail ∨ Vfio.gpaToHva s.vfio.guest q.sqEntry = none then
      some (none, { s with busy := none })
    else none

end VfioWork

/-- The back end at work as a machine. -/
def queueMachine (cqid : Command → ℕ) (info : Ctrl → Command → Buffer) :
    Machine VfioWork QueueStep (Option QueueEvent) where
  step s c a s' := ∃ fuel, s.exec cqid fuel info c = some (a, s')

/-! ## The calls of the back end, step by step -/

namespace VfioWork

variable {cqid : Command → ℕ} {info : Ctrl → Command → Buffer} {fuel : ℕ} {v v' : Vfio}

variable {s s' : VfioWork} {qid : ℕ} {e : QueueEvent}

/-- What is known of a command that has been executed: the address that it was taken from, its
    completion, and the back end before the completion is written. -/
structure Taken (cqid : Command → ℕ) (info : Ctrl → Command → Buffer) (fuel qid : ℕ) (s : VfioWork)
    (h : Hva) (cpl : Completion) (v : Vfio) : Prop where
  waiting : (s.vfio.queues qid).sqHead ≠ (s.vfio.queues qid).sqTail
  entry : Vfio.gpaToHva s.vfio.guest (s.vfio.queues qid).sqEntry = some h
  executed : s.vfio.processNvmeCommand fuel info (s.vfio.guest.bytesAt h).command qid =
    some (cpl, v)

/-- The completion is written to the address `h'`. -/
theorem Taken.posted {h h' : Hva} {cpl : Completion} (ht : Taken cqid info fuel qid s h cpl v)
    (hcq : Vfio.gpaToHva v.guest (v.queues qid).cqEntry = some h') :
    s.execute cqid fuel info qid =
      some (⟨qid, (s.vfio.queues qid).sqHead, (s.vfio.guest.bytesAt h).command,
          some ((v.queues qid).cqEntry, (v.queues qid).completion cpl)⟩,
        ⟨v.postCompletion qid h' cpl, s.busy,
          s.named cqid qid (s.vfio.guest.bytesAt h).command⟩) := by
  rw [execute]
  dsimp only
  rw [if_neg ht.waiting, ht.entry]
  dsimp only
  rw [ht.executed, Option.map_some, hcq]

/-- The completion cannot be written. -/
theorem Taken.lost {h : Hva} {cpl : Completion} (ht : Taken cqid info fuel qid s h cpl v)
    (hcq : Vfio.gpaToHva v.guest (v.queues qid).cqEntry = none) :
    s.execute cqid fuel info qid =
      some (⟨qid, (s.vfio.queues qid).sqHead, (s.vfio.guest.bytesAt h).command, none⟩,
        ⟨v, none, s.named cqid qid (s.vfio.guest.bytesAt h).command⟩) := by
  rw [execute]
  dsimp only
  rw [if_neg ht.waiting, ht.entry]
  dsimp only
  rw [ht.executed, Option.map_some, hcq]

/-- Every command that is executed has been taken from an entry. -/
theorem taken_of_execute (hs' : s.execute cqid fuel info qid = some (e, s')) :
    ∃ h cpl v, Taken cqid info fuel qid s h cpl v := by
  rw [execute] at hs'
  dsimp only at hs'
  split at hs'
  · cases hs'
  · next hne =>
    split at hs'
    · cases hs'
    · next h hsq =>
      obtain ⟨⟨cpl, v⟩, hcmd, -⟩ := Option.map_eq_some_iff.1 hs'
      exact ⟨h, cpl, v, hne, hsq, hcmd⟩

/-- The steps that the guest takes meet the condition on its calls. -/
def Obeys (allowed : Vfio → VfioCall → Prop) (s : VfioWork) : QueueStep → Prop
  | .store mem => allowed s.vfio (.store mem)
  | .regWrite offset value => allowed s.vfio (.regWrite offset value)
  | .doorbell offset value => allowed s.vfio (.doorbell offset value)
  | .execute | .leave => True

variable {allowed : Vfio → VfioCall → Prop}

theorem obeys_execute : Obeys allowed s .execute := trivial

theorem obeys_leave : Obeys allowed s .leave := trivial

/-- The commands of a queue are executed one after another. -/
theorem processCommands_steps {n : ℕ} (cqids : ℕ → ℕ)
    (hv' : v.processCommands fuel info qid n = some v') : ∃ tr cqids',
      (queueMachine cqid info).Run (Obeys allowed) ⟨v, some qid, cqids⟩ tr
        ⟨v', none, cqids'⟩ := by
  induction n generalizing v cqids with
  | zero =>
    rw [Vfio.processCommands] at hv'
    cases hv'
  | succ n ih =>
    rw [Vfio.processCommands] at hv'
    dsimp only at hv'
    have hleave (h : (v.queues qid).sqHead = (v.queues qid).sqTail ∨
        Vfio.gpaToHva v.guest (v.queues qid).sqEntry = none) :
        (queueMachine cqid info).step ⟨v, some qid, cqids⟩ .leave none ⟨v, none, cqids⟩ :=
      ⟨0, if_pos h⟩
    split at hv'
    · next heq =>
      obtain rfl := Option.some.inj hv'
      exact ⟨_, _, .single obeys_leave (hleave (.inl heq))⟩
    · next hne =>
      split at hv'
      · next hsq =>
        obtain rfl := Option.some.inj hv'
        exact ⟨_, _, .single obeys_leave (hleave (.inr hsq))⟩
      · next h hsq =>
        split at hv'
        · cases hv'
        · next cpl v₁ hcmd =>
          have ht : Taken cqid info fuel qid ⟨v, some qid, cqids⟩ h cpl v₁ := ⟨hne, hsq, hcmd⟩
          have hstep {e : QueueEvent} {s' : VfioWork}
              (he : execute ⟨v, some qid, cqids⟩ cqid fuel info qid = some (e, s')) :
              (queueMachine cqid info).step ⟨v, some qid, cqids⟩ .execute (some e) s' :=
            ⟨fuel, by rw [exec, Option.bind_some, he, Option.map_some]⟩
          split at hv'
          · next hcq =>
            obtain rfl := Option.some.inj hv'
            exact ⟨_, _, .single obeys_execute (hstep (ht.lost hcq))⟩
          · next h' hcq =>
            obtain ⟨tr, cqids', hrun⟩ := ih _ hv'
            exact ⟨_, cqids',
              (Machine.Run.single obeys_execute (hstep (ht.posted hcq))).append hrun⟩

/-- Every call of the back end is made of steps. -/
theorem vfioExec_steps {call : VfioCall} (cqids : ℕ → ℕ) (hcall : allowed v call)
    (hv' : vfioExec fuel info v call = some v') : ∃ tr cqids',
      (queueMachine cqid info).Run (Obeys allowed) ⟨v, none, cqids⟩ tr ⟨v', none, cqids'⟩ := by
  have hsingle {c : QueueStep} (hc' : Obeys allowed ⟨v, none, cqids⟩ c)
      (hc : exec ⟨v, none, cqids⟩ cqid fuel info c = some (none, ⟨v', none, cqids⟩)) : ∃ tr cqids',
      (queueMachine cqid info).Run (Obeys allowed) ⟨v, none, cqids⟩ tr ⟨v', none, cqids'⟩ :=
    ⟨_, cqids, .single hc' ⟨fuel, hc⟩⟩
  cases call with
  | store mem =>
    obtain rfl := Option.some.inj hv'
    exact hsingle (c := .store mem) hcall rfl
  | regWrite offset value =>
    obtain rfl := Option.some.inj hv'
    exact hsingle (c := .regWrite offset value) hcall rfl
  | doorbell offset value =>
    change v.handleDoorbellWrite fuel info offset value = some v' at hv'
    have hobeys : Obeys allowed ⟨v, none, cqids⟩ (.doorbell offset value) := hcall
    by_cases hsq : offset % 8 = 0 ∧ offset / 8 % 2 ^ 16 < vfioMaxQueues
    · -- the doorbell of a submission queue: its commands are executed
      rw [Vfio.handleDoorbellWrite] at hv'
      dsimp only at hv'
      rw [if_neg (Nat.not_le_of_lt hsq.2), if_pos hsq.1] at hv'
      generalize hqid : offset / 8 % 2 ^ 16 = qid at hv' hsq
      split at hv'
      · cases hv'
      · next ctrl hctrl =>
        generalize hv₁ : ({ v.setQueue qid
          { v.queues qid with sqTail := (value &&& 0xFFFF).toNat } with ctrl := ctrl } : Vfio) = v₁
          at hv'
        have hq : v₁.queues qid = { v.queues qid with sqTail := (value &&& 0xFFFF).toNat } := by
          rw [← hv₁]
          exact Function.update_self _ _ _
        have hring : (queueMachine cqid info).step ⟨v, none, cqids⟩ (.doorbell offset value) none
            ⟨v₁, if (v₁.queues qid).Working then some qid else none, cqids⟩ := by
          refine ⟨fuel, ?_⟩
          rw [exec, if_neg (not_not_intro rfl), hqid, if_pos hsq, ring]
          dsimp only
          rw [hctrl, hq, ← hv₁]
          rfl
        rw [Vfio.processQueueCommands] at hv'
        rw [if_neg (Nat.not_le_of_lt hsq.2)] at hv'
        split at hv'
        · next hidle =>
          obtain rfl := Option.some.inj hv'
          have hidle : ¬ (v₁.queues qid).Working := not_not_intro hidle
          rw [if_neg hidle] at hring
          exact ⟨_, cqids, .single hobeys hring⟩
        · next hworking =>
          have hworking : (v₁.queues qid).Working := hworking
          rw [if_pos hworking] at hring
          obtain ⟨tr, cqids', hrun⟩ := processCommands_steps cqids hv'
          exact ⟨_, cqids', (Machine.Run.single hobeys hring).append hrun⟩
    · refine hsingle (c := .doorbell offset value) hcall ?_
      rw [exec, if_neg (not_not_intro rfl), if_neg hsq]
      rw [hv', Option.map_some]

/-- Every run of the back end is made of steps, under the same condition on the calls. -/
theorem vfio_run_steps {tr : List (VfioCall × Unit)} (cqids : ℕ → ℕ)
    (hrun : (vfioMachine info).Run allowed v tr v') : ∃ tr' cqids',
      (queueMachine cqid info).Run (Obeys allowed) ⟨v, none, cqids⟩ tr' ⟨v', none, cqids'⟩ := by
  induction hrun with
  | nil => exact ⟨[], cqids, .nil⟩
  | snoc _ hcall hstep ih =>
    obtain ⟨tr₁, cqids₁, hrun₁⟩ := ih
    obtain ⟨fuel, hexec⟩ := hstep
    obtain ⟨tr₂, cqids₂, hrun₂⟩ := vfioExec_steps cqids₁ hcall hexec
    exact ⟨tr₁ ++ tr₂, cqids₂, hrun₁.append hrun₂⟩

end VfioWork

end Nvme

end FtlFirmware
