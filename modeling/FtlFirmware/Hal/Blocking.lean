import FtlFirmware.Hal.Queue
import FtlFirmware.Lib.Monitor

/-!
# Queues on which tasks wait

A call of a queue of the operating system may wait for at most a given time (`OsQueue.monitor`): a
sender until there is room, a receiver until there is an item. Both wait on the same condition
variable, and each call that succeeds wakes up one of those that wait, whether a sender or a
receiver.

* `queue_attended`: if a sender and a receiver never sleep at the same time, the items and the room
  are left to those that are awake;
* `queue_pair`: with one task that sends and one that receives, who sleeps has nothing to do;
* `queue_stalls`: with more tasks, a queue of any length can end up with a sender that sleeps
  although the queue is empty, and nobody who is awake.
-/

namespace FtlFirmware

open Nvme (Buffer)

/-- A call, with the time that it waits at most, in milliseconds. -/
structure OsQueueRequest where
  call : OsQueueCall
  timeout : UInt32

/-- What a call waits for. -/
inductive QueueNeed
  | room
  | items
  deriving DecidableEq

namespace OsQueue

/-- What a call waits for: a sender for room, a receiver for items. -/
def need (r : OsQueueRequest) : QueueNeed :=
  match r.call with
  | .send _ => .room
  | .receive => .items

/-- How many items there are, or there is room for. -/
def avail (q : OsQueue) : QueueNeed → ℕ
  | .room => q.length.toNat - q.count.toNat
  | .items => q.count.toNat

/-- Whether a call has to wait. -/
def blocks (q : OsQueue) (r : OsQueueRequest) : Bool :=
  match r.call with
  | .send _ => q.length ≤ q.count
  | .receive => q.count = 0

/-- A queue under its mutex (`os_queue_send`, `os_queue_receive`). -/
def monitor : Monitor OsQueue OsQueueRequest (RetCode × Option (List UInt8)) where
  turn r q := if q.blocks r then none else some ((q.exec r.call).1, (q.exec r.call).2, .one)
  waits r := r.timeout != 0
  expired _ := (.errTimeout, none)

variable {ι : Type*} {q : OsQueue} {r : OsQueueRequest}

/-- A call has to wait if and only if there is nothing of what it waits for. -/
theorem blocks_iff (q : OsQueue) (r : OsQueueRequest) : q.blocks r ↔ q.avail (need r) = 0 := by
  cases h : r.call with
  | send item =>
    simp only [blocks, need, avail, h, decide_eq_true_eq, UInt32.le_iff_toNat_le]
    omega
  | receive => simp only [blocks, need, avail, h, decide_eq_true_eq, ← UInt32.toNat_inj,
      UInt32.toNat_zero]

theorem exec_send (item : Buffer) (h : q.count.toNat < q.length.toNat) :
    (q.exec (.send item)).2.count.toNat = q.count.toNat + 1 ∧
      (q.exec (.send item)).2.length = q.length := by
  simp only [exec, send, if_neg (UInt32.not_le.2 (UInt32.lt_iff_toNat_lt.2 h)), toNat_succ h,
    and_self]

theorem exec_receive (h : 0 < q.count.toNat) :
    (q.exec .receive).2.count.toNat = q.count.toNat - 1 ∧
      (q.exec .receive).2.length = q.length := by
  have hne : q.count ≠ 0 := fun hzero => absurd (congrArg UInt32.toNat hzero) h.ne'
  have hsub : (q.count - 1).toNat = q.count.toNat - 1 :=
    UInt32.toNat_sub_of_le _ _ (UInt32.le_iff_toNat_le.2 h)
  simp only [exec, receive, if_neg hne, hsub, and_self]

/-- A call that does not wait takes a unit of what it needs, and provides one of the other. -/
theorem avail_exec (h : q.blocks r = false) (d : QueueNeed) :
    if d = need r then (q.exec r.call).2.avail d < q.avail d
    else (q.exec r.call).2.avail d ≤ q.avail d + 1 := by
  cases hcall : r.call with
  | send item =>
    simp only [blocks, hcall, decide_eq_false_iff_not, UInt32.not_le, UInt32.lt_iff_toNat_lt] at h
    obtain ⟨hcount, hlength⟩ := exec_send item h
    cases d
    all_goals
      simp only [need, hcall, avail, hcount, hlength, reduceCtorEq, if_true, if_false]
      omega
  | receive =>
    simp only [blocks, hcall, decide_eq_false_iff_not] at h
    have hpos : 0 < q.count.toNat :=
      Nat.pos_of_ne_zero fun hzero => h (UInt32.toNat_inj.1 hzero)
    obtain ⟨hcount, hlength⟩ := exec_receive hpos
    cases d
    all_goals
      simp only [need, hcall, avail, hcount, hlength, reduceCtorEq, if_true, if_false]
      omega

/-- The turn of a call. -/
theorem turn_cases {b : RetCode × Option (List UInt8)} {q' : OsQueue} {w : Wake}
    (h : monitor.turn r q = some (b, q', w)) :
    q.blocks r = false ∧ b = (q.exec r.call).1 ∧ q' = (q.exec r.call).2 ∧ w = .one := by
  simp only [monitor] at h
  split at h
  · cases h
  · rename_i hblocks
    obtain ⟨rfl, rfl, rfl⟩ := h
    exact ⟨Bool.eq_false_of_not_eq_true hblocks, rfl, rfl, rfl⟩

theorem turn_eq_none (h : monitor.turn r q = none) : q.blocks r := by
  simp only [monitor] at h
  split at h
  · assumption
  · cases h

theorem signals : monitor.Signals need (fun d q => q.avail d) where
  blocked {r q} h := (blocks_iff q r).1 (turn_eq_none h)
  takes {r q b q' w} _ h := by
    obtain ⟨hblocks, _, rfl, _⟩ := turn_cases h
    have hexec := avail_exec hblocks (need r)
    rwa [if_pos rfl] at hexec
  gives {r q b q' w} h d := by
    obtain ⟨hblocks, _, rfl, rfl⟩ := turn_cases h
    have hexec := avail_exec hblocks d
    split at hexec
    · exact .inl hexec.le
    · exact .inr ⟨hexec, by decide⟩

/-- What is available is left to those that are awake, if never a sender and a receiver sleep at the
    same time. -/
theorem queue_attended [DecidableEq ι] {tr} {s : Monitor.State OsQueue OsQueueRequest ι}
    (h : monitor.machine.Run
      (fun s a => ∀ b s', monitor.exec s a = some (b, s') → Monitor.Sole need s')
      ⟨q, [], []⟩ tr s) :
    ∀ v ∈ s.asleep, s.shared.avail (need v.2) ≤ s.awake.countP (need ·.2 = need v.2) :=
  Monitor.run_attended signals h rfl rfl

/-- Two receivers wait, and an item is sent: one of them is woken up, and the item is left to it. -/
theorem queue_attended_woken : ∃ tr s,
    monitor.machine.Run
      (fun s a => ∀ b s', monitor.exec s a = some (b, s') → Monitor.Sole need s')
      ⟨⟨fun _ => 0, 0, 0, 0, 1, 4⟩, [], []⟩ tr s ∧
      tr.map Prod.fst = [.call 0 ⟨.receive, 1⟩ 0, .call 1 ⟨.receive, 1⟩ 0,
        .call 2 ⟨.send fun _ => 7, 1⟩ 0] ∧
      s.asleep = [(0, ⟨.receive, 1⟩)] ∧ s.awake = [(1, ⟨.receive, 1⟩)] ∧
      s.shared.avail .items = 1 ∧
      ∀ v ∈ s.asleep, s.shared.avail (need v.2) ≤ s.awake.countP (need ·.2 = need v.2) := by
  have hactions : Machine.After monitor.exec
      (fun s a => ∀ b s', monitor.exec s a = some (b, s') → Monitor.Sole need s')
      (fun s => s.asleep = [(0, ⟨.receive, 1⟩)] ∧ s.awake = [(1, ⟨.receive, 1⟩)] ∧
        s.shared.avail .items = 1)
      [.call 0 ⟨.receive, 1⟩ 0, .call 1 ⟨.receive, 1⟩ 0, .call 2 ⟨.send fun _ => 7, 1⟩ 0]
      (⟨⟨fun _ => 0, 0, 0, 0, 1, 4⟩, [], []⟩ : Monitor.State OsQueue OsQueueRequest ℕ) := by
    simp [Machine.After, Monitor.exec, Monitor.take, Monitor.State.wake, Monitor.State.rouse,
      Monitor.State.Waiting, Monitor.Sole, monitor, blocks, need, exec, send, avail]
    rintro _ _ (⟨_, rfl⟩ | ⟨_, rfl⟩) _ _ (⟨_, rfl⟩ | ⟨_, rfl⟩) <;> rfl
  obtain ⟨tr, s, hrun, hcalls, hasleep, hawake, havail⟩ :=
    Machine.After.run (m := monitor.machine) (fun _ _ _ _ h => h) hactions
  exact ⟨tr, s, hrun, hcalls, hasleep, hawake, havail, queue_attended hrun⟩

/-! ## One sender and one receiver -/

/-- The requests are those of the tasks that make them, each of which waits for one answer at a
    time. -/
structure Paired (role : ι → QueueNeed) (s : Monitor.State OsQueue OsQueueRequest ι) : Prop where
  willing : monitor.Willing s
  single : Monitor.Single s
  roles : ∀ v ∈ s.asleep ++ s.awake, need v.2 = role v.1
  sole : Monitor.Sole need s
  attended : Monitor.Attended need (fun d q => q.avail d) s
  pos : 0 < s.shared.length.toNat

variable {role : ι → QueueNeed} {s s' : Monitor.State OsQueue OsQueueRequest ι}
  {a : Monitor.Action OsQueueRequest ι}
  {b : Option (ι × OsQueueRequest × RetCode × Option (List UInt8))}

theorem avail_pos (hq : 0 < q.length.toNat) {d d' : QueueNeed} (hd : q.avail d = 0) (hne : d' ≠ d) :
    0 < q.avail d' := by
  cases d
  all_goals cases d'
  all_goals simp only [avail, ne_eq, not_true_eq_false, reduceCtorEq, not_false_eq_true] at hd hne ⊢
  all_goals omega

theorem length_exec (q : OsQueue) (c : OsQueueCall) : (q.exec c).2.length = q.length := by
  cases c with
  | send item =>
    simp only [exec, send]
    split
    all_goals rfl
  | receive =>
    simp only [exec, receive]
    split
    all_goals rfl

theorem length_outcome {x : RetCode × Option (List UInt8)} {q' : OsQueue}
    (h : monitor.Outcome q r x q') : q'.length = q.length := by
  cases h with
  | answered hturn =>
    obtain ⟨_, _, rfl, _⟩ := turn_cases hturn
    exact length_exec q r.call
  | expired => rfl

/-- A task that sleeps has no other request that is awake. -/
theorem Paired.ne_awake (hs : Paired role s) (hrole : Function.Injective role)
    {v w : ι × OsQueueRequest} (hv : v ∈ s.asleep) (hw : w ∈ s.awake) : need w.2 ≠ need v.2 := by
  intro heq
  have howner : w.1 = v.1 := by
    refine hrole ?_
    rw [← hs.roles w (List.mem_append_right _ hw), ← hs.roles v (List.mem_append_left _ hv), heq]
  have hnodup := hs.single
  rw [Monitor.Single, List.map_append] at hnodup
  exact List.disjoint_of_nodup_append hnodup (List.mem_map_of_mem hv)
    (howner ▸ List.mem_map_of_mem hw)

/-- Who sleeps finds nothing of what it needs: somebody of its kind would be awake otherwise. -/
theorem Paired.avail_asleep (hs : Paired role s) (hrole : Function.Injective role)
    {v : ι × OsQueueRequest} (hv : v ∈ s.asleep) : s.shared.avail (need v.2) = 0 := by
  have hle := hs.attended v hv
  have hnone : Monitor.awakeOf need s (need v.2) = 0 :=
    List.countP_eq_zero.2 fun w hw => by simpa using hs.ne_awake hrole hv hw
  exact Nat.eq_zero_of_le_zero (hnone ▸ hle)

/-- A task goes to sleep only where the other one does not sleep. -/
theorem Paired.sole_of_effect (hs : Paired role s) (hrole : Function.Injective role)
    (h : monitor.Effect s a b s') : Monitor.Sole need s' := by
  have hzero : ∀ v ∈ s'.asleep, s.shared.avail (need v.2) = 0 := fun v hv =>
    (h.asleep hv).elim (hs.avail_asleep hrole) signals.blocked
  intro v hv w hw
  by_contra hne
  exact absurd (hzero v hv) (avail_pos hs.pos (hzero w hw) hne).ne'

theorem Paired.effect (hs : Paired role s) (hrole : Function.Injective role)
    (ha : ∀ t c pick, a = .call t c pick → need c = role t) (h : monitor.Effect s a b s') :
    Paired role s' where
  willing := h.willing hs.willing
  single := h.single hs.single
  roles := h.requests ha hs.roles
  sole := hs.sole_of_effect hrole h
  attended := h.attended signals hs.willing hs.sole (hs.sole_of_effect hrole h) hs.attended
  pos := by
    obtain ⟨_, heq⟩ | ⟨_, _, _, _, hout⟩ := h.outcome
    · rw [heq]
      exact hs.pos
    · rw [length_outcome hout]
      exact hs.pos

theorem Paired.keen (hs : Paired role s) (hrole : Function.Injective role) : monitor.Keen s :=
  fun _ hv => if_pos ((blocks_iff _ _).2 (hs.avail_asleep hrole hv))

/-- With one task that sends and one that receives, a call times out only where it has to wait, and
    who sleeps has to wait. -/
theorem queue_pair [DecidableEq ι] (hrole : Function.Injective role) (hq : 0 < q.length.toNat) {tr}
    (h : monitor.machine.Run (fun _ a => ∀ t c pick, a = .call t c pick → need c = role t)
      ⟨q, [], []⟩ tr s) :
    monitor.atomic.Run Machine.anyCall q (Monitor.answered tr) s.shared ∧
      ∀ v ∈ s.asleep, s.shared.blocks v.2 := by
  have hnil : ∀ {P : ι × OsQueueRequest → Prop}, ∀ v ∈ ([] : List (ι × OsQueueRequest)), P v :=
    List.forall_mem_nil _
  have hstart : Paired role (⟨q, [], []⟩ : Monitor.State OsQueue OsQueueRequest ι) :=
    ⟨hnil, List.nodup_nil, hnil, hnil, hnil, hq⟩
  refine ⟨Monitor.run_atomic_of_keen h hstart (fun _ _ _ _ hs ha heff => hs.effect hrole ha heff)
    fun _ hs => hs.keen hrole, fun v hv => ?_⟩
  have hs := h.invariant hstart fun _ _ _ _ hs ha hstep =>
    hs.effect hrole ha (Monitor.effect_exec hstep)
  exact turn_eq_none (hs.keen hrole v hv)

/-- A receiver that waits, and a sender. -/
theorem queue_pair_sent : ∃ role : Bool → QueueNeed, ∃ tr s,
    Function.Injective role ∧
      monitor.machine.Run (fun _ a => ∀ t c pick, a = .call t c pick → need c = role t)
        ⟨⟨fun _ => 0, 0, 0, 0, 1, 4⟩, [], []⟩ tr s ∧ s.awake = [(true, ⟨.receive, 1⟩)] ∧
      monitor.atomic.Run Machine.anyCall ⟨fun _ => 0, 0, 0, 0, 1, 4⟩ (Monitor.answered tr)
        s.shared ∧ ∀ v ∈ s.asleep, s.shared.blocks v.2 := by
  have hrole : Function.Injective fun t : Bool => if t then QueueNeed.items else .room := by decide
  have hactions : Machine.After monitor.exec
      (fun _ a => ∀ t c pick, a = .call t c pick → need c = if t then QueueNeed.items else .room)
      (·.awake = [(true, ⟨.receive, 1⟩)])
      [.call true ⟨.receive, 1⟩ 0, .call false ⟨.send fun _ => 7, 1⟩ 0]
      (⟨⟨fun _ => 0, 0, 0, 0, 1, 4⟩, [], []⟩ : Monitor.State OsQueue OsQueueRequest Bool) := by
    simp [Machine.After, Monitor.exec, Monitor.take, Monitor.State.wake, Monitor.State.rouse,
      Monitor.State.Waiting, monitor, blocks, need, exec, send]
  obtain ⟨tr, s, hrun, -, hawake⟩ :=
    Machine.After.run (m := monitor.machine) (fun _ _ _ _ h => h) hactions
  exact ⟨_, tr, s, hrole, hrun, hawake, queue_pair hrole (by decide) hrun⟩

/-! ## Many senders and receivers -/

section Stall

variable {timeout : UInt32} {item : Buffer} {t : ι} {pick : ℕ}

/-- A call that has to wait goes to sleep. -/
theorem take_blocked (h : s.shared.blocks r) (hr : r.timeout ≠ 0) :
    monitor.take s t r pick = (none, { s with asleep := (t, r) :: s.asleep }) := by
  have hturn : monitor.turn r s.shared = none := if_pos h
  have hwaits : monitor.waits r = true := bne_iff_ne.2 hr
  rw [Monitor.take, hturn]
  exact if_pos hwaits

/-- A call that does not have to wait wakes somebody up. -/
theorem take_served (h : s.shared.blocks r = false) :
    monitor.take s t r pick = (some (t, r, (s.shared.exec r.call).1),
      Monitor.State.wake { s with shared := (s.shared.exec r.call).2 } pick .one) := by
  have hturn : monitor.turn r s.shared =
      some ((s.shared.exec r.call).1, (s.shared.exec r.call).2, .one) :=
    if_neg (Bool.not_eq_true _ ▸ h)
  rw [Monitor.take, hturn]

/-- A receiver that waits. -/
def receiver (timeout : UInt32) : OsQueueRequest := ⟨.receive, timeout⟩

/-- A sender that waits. -/
def sender (timeout : UInt32) (item : Buffer) : OsQueueRequest := ⟨.send item, timeout⟩

/-- So many items, and receivers asleep and awake, which are tasks below a number. -/
structure Crowd (timeout n : UInt32) (count sleepers wakers limit : ℕ)
    (s : Monitor.State OsQueue OsQueueRequest ℕ) : Prop where
  length : s.shared.length = n
  count : s.shared.count.toNat = count
  asleep : s.asleep.length = sleepers
  awake : s.awake.length = wakers
  receivers : ∀ v ∈ s.asleep ++ s.awake, v.2 = receiver timeout ∧ v.1 < limit

/-- Somebody sleeps, after all the others. -/
def beside (v : ℕ × OsQueueRequest) (s : Monitor.State OsQueue OsQueueRequest ℕ) :
    Monitor.State OsQueue OsQueueRequest ℕ :=
  { s with asleep := v :: s.asleep }

variable {n : UInt32} {count sleepers wakers limit : ℕ}
  {z z' : Monitor.State OsQueue OsQueueRequest ℕ}

theorem Crowd.not_waiting (h : Crowd timeout n count sleepers wakers limit z) :
    ¬ z.Waiting limit := by
  rintro ⟨v, hv, heq⟩
  exact absurd heq (h.receivers v hv).2.ne

/-- A receiver finds no item, and goes to sleep. -/
theorem Crowd.call_receive (h : Crowd timeout n 0 sleepers wakers limit z) (ht : timeout ≠ 0) :
    ∃ b z', monitor.exec z (.call limit (receiver timeout) 0) = some (b, z') ∧
      Crowd timeout n 0 (sleepers + 1) wakers (limit + 1) z' := by
  have hblocks : z.shared.blocks (receiver timeout) :=
    decide_eq_true (UInt32.toNat_inj.1 h.count)
  refine ⟨_, _, (if_neg h.not_waiting).trans (congrArg some (take_blocked hblocks ht)), h.length,
    h.count, congrArg (· + 1) h.asleep, h.awake, fun v hv => ?_⟩
  rcases List.mem_cons.1 hv with rfl | hv
  · exact ⟨rfl, Nat.lt_succ_self _⟩
  · exact (h.receivers v hv).imp_right Nat.lt_succ_of_lt

/-- A sender finds room, and wakes up a receiver. -/
theorem Crowd.call_send (h : Crowd timeout n count (sleepers + 1) wakers limit z)
    (hcount : count < n.toNat) :
    ∃ b z', monitor.exec z (.call limit (sender timeout item) 0) = some (b, z') ∧
      Crowd timeout n (count + 1) sleepers (wakers + 1) limit z' := by
  have hlt : z.shared.count.toNat < z.shared.length.toNat := by rwa [h.count, h.length]
  have hblocks : z.shared.blocks (sender timeout item) = false :=
    decide_eq_false (UInt32.not_le.2 (UInt32.lt_iff_toNat_lt.2 hlt))
  obtain ⟨hcount', hlength⟩ := exec_send item hlt
  refine ⟨_, _, (if_neg h.not_waiting).trans (congrArg some (take_served hblocks)), ?_⟩
  obtain ⟨hnil, _⟩ | ⟨v, asleep, hperm, heq⟩ := Monitor.wake_one
    { z with shared := (z.shared.exec (.send item)).2 } 0
  · exact absurd (congrArg List.length hnil) (by rw [h.asleep]; exact Nat.succ_ne_zero _)
  · rw [sender, heq]
    refine ⟨hlength.trans h.length, hcount'.trans (congrArg (· + 1) h.count), ?_,
      congrArg (· + 1) h.awake, fun w hw => h.receivers w ?_⟩
    · exact Nat.succ.inj (hperm.length_eq.symm.trans h.asleep)
    · exact (hperm.append_right z.awake).mem_iff.2 (List.perm_middle.mem_iff.1 hw)

/-- A sender finds no room, and goes to sleep. -/
theorem Crowd.call_send_full (h : Crowd timeout n n.toNat sleepers wakers limit z)
    (ht : timeout ≠ 0) (item : Buffer) : monitor.exec z (.call limit (sender timeout item) 0) =
      some (none, beside (limit, sender timeout item) z) := by
  have hblocks : z.shared.blocks (sender timeout item) := by
    refine decide_eq_true (UInt32.le_iff_toNat_le.2 ?_)
    rw [h.count, h.length]
  exact (if_neg h.not_waiting).trans (congrArg some (take_blocked hblocks ht))

/-- A receiver takes an item. It wakes up another receiver, not the sender. -/
theorem Crowd.resume_beside {v : ℕ × OsQueueRequest}
    (h : Crowd timeout n (count + 1) (sleepers + 1) (wakers + 1) limit z) :
    ∃ b z', monitor.exec (beside v z) (.resume 0 1) = some (b, beside v z') ∧
      Crowd timeout n count sleepers (wakers + 1) limit z' := by
  obtain ⟨q, asleep, awake⟩ := z
  obtain ⟨w, asleep, rfl⟩ := List.exists_cons_of_length_eq_add_one h.asleep
  obtain ⟨u, awake, rfl⟩ := List.exists_cons_of_length_eq_add_one h.awake
  have hu : u.2 = receiver timeout := (h.receivers u (by simp)).1
  have hpos : 0 < q.count.toNat := h.count ▸ Nat.succ_pos _
  have hblocks : q.blocks u.2 = false := by
    rw [hu]
    exact decide_eq_false fun hzero => absurd (congrArg UInt32.toNat hzero) hpos.ne'
  obtain ⟨hcount, hlength⟩ := exec_receive hpos
  have hone : 1 % (v :: w :: asleep).length = 1 := Nat.mod_eq_of_lt (by simp)
  refine ⟨_, ⟨(q.exec u.2.call).2, asleep, w :: awake⟩,
    congrArg some ((take_served hblocks).trans (Prod.ext rfl ?_)), ?_⟩
  · simp only [Monitor.State.wake, Monitor.State.rouse, beside, hone, List.getElem?_cons_succ,
      List.getElem?_cons_zero, List.eraseIdx_cons_succ, List.eraseIdx_cons_zero]
  · have hexec : (q.exec u.2.call).2 = (q.exec .receive).2 := by rw [hu, receiver]
    refine ⟨?_, ?_, Nat.succ.inj h.asleep, h.awake, fun x hx => h.receivers x ?_⟩
    · rw [hexec, hlength]
      exact h.length
    · rw [hexec, hcount]
      exact congrArg (· - 1) h.count
    · simp only [List.mem_append, List.mem_cons] at hx ⊢
      tauto

/-- The queue is empty, somebody sleeps, and so many receivers are awake. -/
structure Drained (timeout n : UInt32) (v : ℕ × OsQueueRequest) (wakers : ℕ)
    (s : Monitor.State OsQueue OsQueueRequest ℕ) : Prop where
  length : s.shared.length = n
  count : s.shared.count = 0
  asleep : v ∈ s.asleep
  awake : s.awake.length = wakers
  receivers : ∀ u ∈ s.awake, u.2 = receiver timeout

/-- A receiver that has been woken up finds no item, and goes to sleep again. -/
theorem Drained.resume {v : ℕ × OsQueueRequest} (h : Drained timeout n v (wakers + 1) z)
    (ht : timeout ≠ 0) : ∃ b z', monitor.exec z (.resume 0 0) = some (b, z') ∧
      Drained timeout n v wakers z' := by
  obtain ⟨q, asleep, awake⟩ := z
  obtain ⟨u, awake, rfl⟩ := List.exists_cons_of_length_eq_add_one h.awake
  have hu : u.2 = receiver timeout := h.receivers u List.mem_cons_self
  have hblocks : q.blocks u.2 := by
    rw [hu]
    exact decide_eq_true h.count
  exact ⟨_, _, congrArg some (take_blocked hblocks (hu ▸ ht)), h.length, h.count,
    List.mem_cons_of_mem _ h.asleep, Nat.succ.inj h.awake,
    fun x hx => h.receivers x (List.mem_cons_of_mem _ hx)⟩

/-- The requests made in a run, with their owners. -/
def requests {α : Type*} (tr : List (Monitor.Action OsQueueRequest ℕ × α)) :
    List (ℕ × OsQueueRequest) :=
  (tr.map Prod.fst).filterMap Monitor.Action.request

theorem requests_append {α : Type*} (tr tr' : List (Monitor.Action OsQueueRequest ℕ × α)) :
    requests (tr ++ tr') = requests tr ++ requests tr' := by
  rw [requests, List.map_append, List.filterMap_append]
  rfl

/-- The requests of calls made one after another. -/
theorem requests_calls {α : Type*} {tr : List (Monitor.Action OsQueueRequest ℕ × α)} {m : ℕ}
    {owner : ℕ → ℕ} {r : OsQueueRequest}
    (h : tr.map Prod.fst = (List.range m).map fun k => .call (owner k) r 0) :
    requests tr = (List.range m).map fun k => (owner k, r) := by
  rw [requests, h, List.filterMap_map]
  exact congrFun (List.filterMap_eq_map (f := fun k => (owner k, r))) _

/-- Those who take their turns make no requests. -/
theorem requests_resumes {α : Type*} {tr : List (Monitor.Action OsQueueRequest ℕ × α)} {m pick : ℕ}
    (h : tr.map Prod.fst = (List.range m).map fun _ => .resume 0 pick) : requests tr = [] := by
  rw [requests, h, List.filterMap_map]
  exact List.filterMap_eq_nil_iff.2 fun _ _ => rfl

/-- All receivers go to sleep, and a sender fills the queue, which wakes up half of them. -/
theorem run_filled {q : OsQueue} (hlength : q.length = n) (hcount : q.count = 0)
    (ht : timeout ≠ 0) (item : Buffer) : ∃ tr z,
      monitor.machine.Run Machine.anyCall ⟨q, [], []⟩ tr z ∧
      requests tr = (List.range (2 * n.toNat)).map (fun k => (k, receiver timeout)) ++
        (List.range n.toNat).map (fun _ => (2 * n.toNat, sender timeout item)) ∧
      Crowd timeout n n.toNat n.toNat n.toNat (2 * n.toNat) z := by
  have hstart : Crowd timeout n 0 0 0 0 ⟨q, [], []⟩ :=
    ⟨hlength, congrArg UInt32.toNat hcount, rfl, rfl, fun v hv => absurd hv List.not_mem_nil⟩
  obtain ⟨tr, z, hrun, hcalls, hz⟩ : ∃ tr z, monitor.machine.Run Machine.anyCall ⟨q, [], []⟩ tr z ∧
      _ ∧ Crowd timeout n 0 (2 * n.toNat) 0 (2 * n.toNat) z :=
    Machine.Run.iterate (a := fun k => Monitor.Action.call k (receiver timeout) 0)
      (P := fun k => Crowd timeout n 0 k 0 k)
      (fun k _ z hz => ⟨trivial, hz.call_receive ht⟩) hstart
  have hz : Crowd timeout n 0 (n.toNat - 0 + n.toNat) 0 (2 * n.toNat) z := by
    rw [Nat.sub_zero, ← Nat.two_mul]
    exact hz
  obtain ⟨tr', z', hrun', hcalls', hz'⟩ : ∃ tr' z', monitor.machine.Run Machine.anyCall z tr' z' ∧
      _ ∧ Crowd timeout n n.toNat (n.toNat - n.toNat + n.toNat) n.toNat (2 * n.toNat) z' :=
    Machine.Run.iterate (a := fun _ => Monitor.Action.call (2 * n.toNat) (sender timeout item) 0)
      (P := fun k => Crowd timeout n k (n.toNat - k + n.toNat) k (2 * n.toNat))
      (fun k hk z hz => ⟨trivial, Crowd.call_send (by
        rwa [show n.toNat - k + n.toNat = n.toNat - (k + 1) + n.toNat + 1 by omega] at hz) hk⟩) hz
  rw [Nat.sub_self, Nat.zero_add] at hz'
  refine ⟨_, z', hrun.append hrun', ?_, hz'⟩
  rw [requests_append, requests_calls hcalls, requests_calls hcalls']

/-- The receivers that are awake take all items, and wake up the others instead of the sender. -/
theorem run_drained {v : ℕ × OsQueueRequest}
    (hz : Crowd timeout n n.toNat n.toNat n.toNat limit z) : ∃ tr z',
      monitor.machine.Run Machine.anyCall (beside v z) tr z' ∧ requests tr = [] ∧
      Drained timeout n v n.toNat z' := by
  have hstart : Crowd timeout n (n.toNat - 0) (n.toNat - 0) n.toNat limit z := hz
  obtain ⟨tr, z', hrun, hresumes, z₀, rfl, hz₀⟩ : ∃ tr z',
      monitor.machine.Run Machine.anyCall (beside v z) tr z' ∧ _ ∧ ∃ z₀, z' = beside v z₀ ∧
        Crowd timeout n (n.toNat - n.toNat) (n.toNat - n.toNat) n.toNat limit z₀ :=
    Machine.Run.iterate (a := fun _ => Monitor.Action.resume 0 1)
      (P := fun k x => ∃ z, x = beside v z ∧
        Crowd timeout n (n.toNat - k) (n.toNat - k) n.toNat limit z)
      (fun k hk x hx => by
        obtain ⟨z, rfl, hz⟩ := hx
        obtain ⟨m, hm⟩ : ∃ m, n.toNat = m + 1 := ⟨n.toNat - 1, by omega⟩
        rw [show n.toNat - k = n.toNat - (k + 1) + 1 by omega, hm] at hz
        obtain ⟨b, z', hstep, hz'⟩ := hz.resume_beside (v := v)
        rw [← hm] at hz'
        exact ⟨trivial, b, _, hstep, z', rfl, hz'⟩) ⟨z, rfl, hstart⟩
  rw [Nat.sub_self] at hz₀
  refine ⟨tr, _, hrun, requests_resumes hresumes, hz₀.length, UInt32.toNat_inj.1 hz₀.count,
    List.mem_cons_self, hz₀.awake, fun u hu => (hz₀.receivers u (List.mem_append_right _ hu)).1⟩

/-- With twice as many receivers as items and one sender, a queue of any length can end up with the
    sender asleep although there is room, and nobody awake. -/
theorem queue_stalls {itemSize : UInt32} (hn : n ≠ 0) (hsize : itemSize ≠ 0) (ht : timeout ≠ 0)
    (item : Buffer) : ∃ q tr s, create n itemSize true = some q ∧
      monitor.machine.Run Machine.anyCall ⟨q, [], []⟩ tr s ∧
      requests tr = (List.range (2 * n.toNat)).map (fun k => (k, receiver timeout)) ++
        (List.range (n.toNat + 1)).map (fun _ => (2 * n.toNat, sender timeout item)) ∧
      s.awake = [] ∧ ∃ v : ℕ × OsQueueRequest, v ∈ s.asleep ∧ v.2 = sender timeout item ∧
        s.shared.blocks v.2 = false := by
  have hcreate : create n itemSize true = some ⟨fun _ => 0, 0, 0, 0, n, itemSize⟩ := by
    rw [create, if_neg (not_or.2 ⟨hn, hsize⟩)]
    rfl
  obtain ⟨tr₁, z₁, hrun₁, hcalls₁, hz₁⟩ :=
    run_filled (q := ⟨fun _ => 0, 0, 0, 0, n, itemSize⟩) rfl rfl ht item
  have hrun₂ : monitor.machine.Run Machine.anyCall z₁
      [(.call (2 * n.toNat) (sender timeout item) 0, none)] _ :=
    .single trivial (hz₁.call_send_full ht item)
  obtain ⟨tr₃, z₃, hrun₃, hcalls₃, hz₃⟩ := run_drained (v := (2 * n.toNat, sender timeout item)) hz₁
  have hstart : Drained timeout n (2 * n.toNat, sender timeout item) (n.toNat - 0) z₃ := hz₃
  obtain ⟨tr₄, z₄, hrun₄, hresumes₄, hz₄⟩ : ∃ tr₄ z₄,
      monitor.machine.Run Machine.anyCall z₃ tr₄ z₄ ∧
      _ ∧ Drained timeout n (2 * n.toNat, sender timeout item) (n.toNat - n.toNat) z₄ :=
    Machine.Run.iterate (a := fun _ => Monitor.Action.resume 0 0)
      (P := fun k => Drained timeout n (2 * n.toNat, sender timeout item) (n.toNat - k))
      (fun k hk z hz => ⟨trivial, Drained.resume (by
        rwa [show n.toNat - k = n.toNat - (k + 1) + 1 by omega] at hz) ht⟩) hstart
  rw [Nat.sub_self] at hz₄
  refine ⟨_, _, z₄, hcreate, hrun₁.append (hrun₂.append (hrun₃.append hrun₄)), ?_,
    List.length_eq_zero_iff.1 hz₄.awake, _, hz₄.asleep, rfl, ?_⟩
  · rw [requests_append, requests_append, requests_append, hcalls₁, hcalls₃,
      requests_resumes hresumes₄, List.range_succ, List.map_append, List.append_nil,
      List.append_nil, List.append_assoc]
    rfl
  · refine decide_eq_false fun hle => hn ?_
    rw [hz₄.length, hz₄.count] at hle
    exact UInt32.le_antisymm hle (UInt32.le_iff_toNat_le.2 (Nat.zero_le _))

/-- A queue of one item, which two receivers leave empty. -/
theorem queue_stalls_one : ∃ q tr s, create 1 4 true = some q ∧
    monitor.machine.Run Machine.anyCall ⟨q, [], []⟩ tr s ∧
      requests tr = [(0, receiver 1000), (1, receiver 1000), (2, sender 1000 fun _ => 7),
        (2, sender 1000 fun _ => 7)] ∧
      s.awake = [] ∧ ∃ v : ℕ × OsQueueRequest, v ∈ s.asleep ∧ v.2 = sender 1000 (fun _ => 7) ∧
        s.shared.blocks v.2 = false :=
  queue_stalls (by decide) (by decide) (by decide) _

end Stall

end OsQueue

end FtlFirmware
