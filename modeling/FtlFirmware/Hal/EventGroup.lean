import FtlFirmware.Common
import FtlFirmware.Lib.Monitor
import Mathlib.Data.UInt

/-!
# Event groups and notifications

Event groups (`linux_event_group_t`) are 32 flags that tasks set, and wait for, under a mutex
(`EventGroup.monitor`): some of the flags or all of them, and those that are found may be cleared.
Setting flags wakes up all that wait. A notification (`linux_task_notify_t`) is one value for
whoever waits for it (`Notify.monitor`), and wakes up one of them.

* `eventGroup_atomic`: whatever the order of the tasks and of their timeouts, the answers are those
  of calls that give up only where their flags are not set, nobody sleeps whose flags are set, and a
  flag is taken at most as often as it is set;
* `notify_attended`: while somebody sleeps, a pending notification is left to somebody who is awake;
  what is received is the last notification, and it is received once.
-/

namespace FtlFirmware

/-! ## Event groups -/

/-- The calls. The timeouts are in milliseconds. -/
inductive EventCall
  | set (bits : UInt32)
  | wait (bits : UInt32) (clearOnExit waitForAll : Bool) (timeout : UInt32)

/-- Their answers. -/
inductive EventAnswer
  | done (ret : RetCode)
  | bits (result : UInt32)

namespace EventGroup

/-- Whether the flags that are waited for are set. -/
def Met (x bits : UInt32) (waitForAll : Bool) : Prop :=
  if waitForAll then x &&& bits = bits else x &&& bits ≠ 0

instance (x bits : UInt32) (waitForAll : Bool) : Decidable (Met x bits waitForAll) :=
  inferInstanceAs (Decidable (ite _ _ _))

/-- An event group under its mutex (`os_event_group_set`, `os_event_group_wait`). -/
def monitor : Monitor UInt32 EventCall EventAnswer where
  turn
    | .set bits, x => some (.done .ok, x ||| bits, .all)
    | .wait bits clearOnExit waitForAll _, x =>
      if bits = 0 then some (.bits 0, x, .nobody)
      else if Met x bits waitForAll then
        some (.bits (x &&& bits), if clearOnExit then x &&& ~~~(x &&& bits) else x, .nobody)
      else none
  waits
    | .set _ => false
    | .wait _ _ _ timeout => timeout != 0
  expired
    | .set _ => .done .ok
    | .wait .. => .bits 0

/-- An event group as it is created (`os_event_group_create`). -/
def create (ι : Type*) : Monitor.State UInt32 EventCall ι := ⟨0, [], []⟩

/-- A flag. -/
def flag (x : UInt32) (i : ℕ) : Bool := x.toBitVec.getLsbD i

/-- Whether a call sets the flag `i`. -/
def sets (i : ℕ) : EventCall × EventAnswer → Bool
  | (.set bits, _) => flag bits i
  | _ => false

/-- Whether a call takes the flag `i`: it finds it and clears it. -/
def takes (i : ℕ) : EventCall × EventAnswer → Bool
  | (.wait _ true _ _, .bits result) => flag result i
  | _ => false

variable {ι : Type*} {x y bits : UInt32} {waitForAll : Bool} {c : EventCall} {b : EventAnswer}

@[simp]
theorem flag_zero (i : ℕ) : flag 0 i = false := BitVec.getLsbD_zero

@[simp]
theorem flag_or (x y : UInt32) (i : ℕ) : flag (x ||| y) i = (flag x i || flag y i) :=
  BitVec.getLsbD_or

@[simp]
theorem flag_and (x y : UInt32) (i : ℕ) : flag (x &&& y) i = (flag x i && flag y i) :=
  BitVec.getLsbD_and

@[simp]
theorem flag_not (x : UInt32) (i : ℕ) : flag (~~~x) i = (decide (i < 32) && !flag x i) :=
  BitVec.getLsbD_not

/-- What is not met stays so when flags are cleared. -/
theorem not_met_and (h : ¬ Met x bits waitForAll) (y : UInt32) :
    ¬ Met (x &&& y) bits waitForAll := by
  have hcomm : (x &&& y) &&& bits = (x &&& bits) &&& y := by
    rw [UInt32.and_assoc, UInt32.and_comm y, UInt32.and_assoc]
  cases waitForAll with
  | true =>
    simp only [Met, if_true] at h ⊢
    intro hy
    refine h ?_
    rw [← hy, ← UInt32.and_assoc, ← UInt32.and_assoc, UInt32.and_self]
  | false =>
    simp only [Met, Bool.false_eq_true, if_false, ne_eq, not_not] at h ⊢
    rw [hcomm, h, UInt32.zero_and]

/-- The turn of a call that waits: it answers the flags that it finds. -/
theorem turn_wait {clearOnExit : Bool} {timeout : UInt32} {w : Wake}
    (h : monitor.turn (.wait bits clearOnExit waitForAll timeout) x = some (b, y, w)) :
    b = .bits (x &&& bits) ∧ y = if clearOnExit then x &&& ~~~(x &&& bits) else x := by
  simp only [monitor] at h
  split at h
  · rename_i hbits
    obtain ⟨rfl, rfl, _⟩ := h
    rw [hbits, UInt32.and_zero]
    refine ⟨rfl, ?_⟩
    rw [UInt32.not_zero, UInt32.and_neg_one, ite_self]
  · split at h
    · obtain ⟨rfl, rfl, _⟩ := h
      exact ⟨rfl, rfl⟩
    · cases h

theorem turn_and (h : monitor.turn c x = none) (y : UInt32) : monitor.turn c (x &&& y) = none := by
  cases c with
  | set bits => cases h
  | wait bits clearOnExit waitForAll timeout =>
    simp only [monitor] at h ⊢
    split at h
    · cases h
    · rename_i hbits
      split at h
      · cases h
      · rename_i hmet
        rw [if_neg hbits, if_neg (not_met_and hmet y)]

/-- Only setting flags helps those that wait, and it wakes up everybody. -/
theorem broadcasts : monitor.Broadcasts := by
  intro c x b y w hturn
  cases c with
  | set bits => exact .inl (Prod.mk.inj (Prod.mk.inj (Option.some.inj hturn)).2).2.symm
  | wait bits clearOnExit waitForAll timeout =>
    right
    intro d hd
    rw [(turn_wait hturn).2]
    split
    · exact turn_and hd _
    · exact hd

/-- A flag that is taken was set, and is so no longer. -/
theorem flag_answers (h : monitor.Answers x c b y) (i : ℕ) :
    (takes i (c, b)).toNat + (flag y i).toNat ≤ (sets i (c, b)).toNat + (flag x i).toNat := by
  cases h with
  | answered hturn =>
    cases c with
    | set bits =>
      obtain ⟨rfl, rfl, _⟩ := hturn
      simp only [takes, sets, flag_or]
      cases flag x i <;> cases flag bits i <;> decide
    | wait bits clearOnExit waitForAll timeout =>
      obtain ⟨rfl, rfl⟩ := turn_wait hturn
      cases clearOnExit with
      | true =>
        simp only [takes, sets, if_true, flag_and, flag_not]
        cases flag x i <;> cases flag bits i <;> simp [Bool.toNat_le]
      | false => simp [takes, sets]
  | expired hturn =>
    cases c with
    | set bits => cases hturn
    | wait bits clearOnExit waitForAll timeout =>
      cases clearOnExit <;> simp [monitor, takes, sets]

theorem countP_single {α : Type*} (p : α → Bool) (a : α) : [a].countP p = (p a).toNat := by
  rw [List.countP_singleton]
  cases p a
  all_goals rfl

/-- A flag is taken at most as often as it is set. -/
theorem countP_takes {tr : List (EventCall × EventAnswer)}
    (h : monitor.atomic.Run Machine.anyCall x tr y) (i : ℕ) :
    tr.countP (takes i) + (flag y i).toNat ≤ tr.countP (sets i) + (flag x i).toNat := by
  induction h with
  | nil => simp
  | snoc _ _ hstep ih =>
    have hflag := flag_answers hstep i
    rw [List.countP_append, List.countP_append, countP_single, countP_single]
    omega

/-- Event groups are atomic, and lose no wake-up. -/
theorem eventGroup_atomic [DecidableEq ι] {tr} {s : Monitor.State UInt32 EventCall ι}
    (h : monitor.machine.Run Machine.anyCall (create ι) tr s) :
    monitor.atomic.Run Machine.anyCall 0 (Monitor.answered tr) s.shared ∧
      (∀ v ∈ s.asleep, monitor.turn v.2 s.shared = none) ∧
      ∀ i, (Monitor.answered tr).countP (takes i) ≤ (Monitor.answered tr).countP (sets i) := by
  have hkeen : monitor.Keen (create ι) := fun v hv => absurd hv List.not_mem_nil
  have hrun := Monitor.run_atomic broadcasts h hkeen
  refine ⟨hrun, Monitor.run_keen broadcasts h hkeen, fun i => ?_⟩
  have hcount : _ ≤ _ + (flag 0 i).toNat := countP_takes hrun i
  rw [flag_zero] at hcount
  exact (Nat.le_add_right _ _).trans hcount

/-- A task waits for one of two flags, and takes the one that another task sets. -/
theorem eventGroup_atomic_taken : ∃ tr s,
    monitor.machine.Run Machine.anyCall (create Bool) tr s ∧ s.shared = 2 ∧
      monitor.atomic.Run Machine.anyCall 0 (Monitor.answered tr) s.shared ∧
      (∀ v ∈ s.asleep, monitor.turn v.2 s.shared = none) ∧
      ∀ i, (Monitor.answered tr).countP (takes i) ≤ (Monitor.answered tr).countP (sets i) := by
  have hactions : Machine.After monitor.exec Machine.anyCall (·.shared = 2)
      [.call false (.wait 5 true false 10) 0, .call true (.set 3) 0, .resume 0 0]
      (create Bool) := by
    simp [Machine.After, Machine.anyCall, Monitor.exec, Monitor.take, Monitor.State.wake,
      Monitor.State.Waiting, monitor, create, Met]
    rfl
  obtain ⟨tr, s, hrun, -, hshared⟩ :=
    Machine.After.run (m := monitor.machine) (fun _ _ _ _ h => h) hactions
  exact ⟨tr, s, hrun, hshared, eventGroup_atomic hrun⟩

end EventGroup

/-! ## Notifications -/

/-- A notification (`linux_task_notify_t`). -/
structure Notify where
  value : UInt32
  pending : Bool

/-- The calls. The timeout is in milliseconds. -/
inductive NotifyCall
  | notify (value : UInt32)
  | wait (timeout : UInt32)

namespace Notify

/-- A notification under its mutex (`os_task_notify`, `os_task_notify_wait`). -/
def monitor : Monitor Notify NotifyCall (RetCode × Option UInt32) where
  turn
    | .notify value, _ => some ((.ok, none), ⟨value, true⟩, .one)
    | .wait _, n =>
      if n.pending then some ((.ok, some n.value), { n with pending := false }, .nobody) else none
  waits
    | .notify _ => false
    | .wait timeout => timeout != 0
  expired _ := (.errTimeout, none)

/-- No notification yet. -/
def start (ι : Type*) : Monitor.State Notify NotifyCall ι := ⟨⟨0, false⟩, [], []⟩

/-- What is to be received, after a call has been answered. -/
def inbox (n : Option UInt32) : NotifyCall × (RetCode × Option UInt32) → Option UInt32
  | (.notify value, (.ok, _)) => some value
  | (.wait _, (.ok, _)) => none
  | _ => n

/-- What is to be received. -/
def next (n : Notify) : Option UInt32 := if n.pending then some n.value else none

/-- There is one notification to be received, or none. -/
def avail (_ : Unit) (n : Notify) : ℕ := if n.pending then 1 else 0

theorem signals : monitor.Signals (fun _ => ()) avail where
  blocked {c n} h := by
    cases c with
    | notify value => cases h
    | wait timeout =>
      simp only [monitor] at h
      split at h
      · cases h
      · rename_i hpending
        exact if_neg hpending
  takes {c n b n' w} hwaits h := by
    cases c with
    | notify value => cases hwaits
    | wait timeout =>
      simp only [monitor] at h
      split at h
      · rename_i hpending
        obtain ⟨rfl, rfl, _⟩ := h
        rw [avail, avail, if_pos hpending]
        exact Nat.zero_lt_one
      · cases h
  gives {c n b n' w} h d := by
    cases c with
    | notify value =>
      obtain ⟨rfl, rfl, rfl⟩ := h
      refine .inr ⟨?_, by decide⟩
      exact Nat.le_add_left _ _
    | wait timeout =>
      simp only [monitor] at h
      split at h
      · obtain ⟨rfl, rfl, _⟩ := h
        exact .inl (Nat.zero_le _)
      · cases h

variable {n n' : Notify} {c : NotifyCall} {b : RetCode × Option UInt32}

/-- What an answered call receives, and what it leaves to be received. -/
theorem next_outcome (h : monitor.Outcome n c b n') :
    n'.next = inbox n.next (c, b) ∧ ∀ t, c = .wait t → b.1 = .ok → b.2 = n.next ∧ n.pending := by
  cases h with
  | answered hturn =>
    cases c with
    | notify value =>
      obtain ⟨rfl, rfl, _⟩ := hturn
      exact ⟨rfl, fun _ h => by cases h⟩
    | wait timeout =>
      simp only [monitor] at hturn
      split at hturn
      · rename_i hpending
        obtain ⟨rfl, rfl, _⟩ := hturn
        exact ⟨rfl, fun _ _ _ => ⟨(if_pos hpending).symm, hpending⟩⟩
      · cases hturn
  | expired =>
    refine ⟨?_, fun _ _ h => by cases h⟩
    cases c
    all_goals rfl

/-- What is to be received, after a run. -/
theorem run_next {tr : List (NotifyCall × (RetCode × Option UInt32))}
    (h : monitor.outcomes.Run Machine.anyCall n tr n') : n'.next = tr.foldl inbox n.next :=
  h.simulation (R := fun n x => n.next = x) rfl fun n x c b n' hx _ hstep => by
    rw [(next_outcome hstep).1, hx]

/-- Notifications are not left to sleepers, and each is received once. -/
theorem notify_attended {ι : Type*} [DecidableEq ι] {tr} {s : Monitor.State Notify NotifyCall ι}
    (h : monitor.machine.Run Machine.anyCall (start ι) tr s) :
    (s.shared.pending → s.asleep ≠ [] → s.awake ≠ []) ∧
      ∀ tr₁ t r tr₂, Monitor.answered tr = tr₁ ++ (.wait t, (.ok, r)) :: tr₂ →
        r = tr₁.foldl inbox none ∧ r ≠ none := by
  refine ⟨fun hpending hasleep => ?_, fun tr₁ t r tr₂ htr => ?_⟩
  · have hsole : ∀ s : Monitor.State Notify NotifyCall ι, Monitor.Sole (fun _ => ()) s :=
      fun _ _ _ _ _ => rfl
    have hatt := Monitor.run_attended signals (h.mono fun _ _ _ _ s' _ => hsole s') rfl rfl
    obtain ⟨v, hv⟩ := List.exists_mem_of_ne_nil _ hasleep
    have hle := hatt v hv
    rw [avail, if_pos hpending] at hle
    exact List.ne_nil_of_length_pos (hle.trans List.countP_le_length)
  · have hrun := Monitor.run_outcomes h
    rw [htr] at hrun
    obtain ⟨n₁, n₂, hrun₁, _, hstep, _⟩ := hrun.middle
    obtain ⟨hr, hpending⟩ := (next_outcome hstep).2 t rfl rfl
    have hnext := run_next hrun₁
    refine ⟨hr.trans hnext, ?_⟩
    change r = n₁.next at hr
    rw [hr, next, if_pos hpending]
    exact Option.some_ne_none _

/-- A task waits, and receives the second of two notifications. -/
theorem notify_attended_second : ∃ tr s,
    monitor.machine.Run Machine.anyCall (start Bool) tr s ∧ s.shared = ⟨7, false⟩ ∧
      (s.shared.pending → s.asleep ≠ [] → s.awake ≠ []) ∧
      ∀ tr₁ t r tr₂, Monitor.answered tr = tr₁ ++ (.wait t, (.ok, r)) :: tr₂ →
        r = tr₁.foldl inbox none ∧ r ≠ none := by
  have hactions : Machine.After monitor.exec Machine.anyCall (·.shared = ⟨7, false⟩)
      [.call false (.wait 5) 0, .call true (.notify 3) 0, .call true (.notify 7) 0, .resume 0 0]
      (start Bool) := by
    simp [Machine.After, Machine.anyCall, Monitor.exec, Monitor.take, Monitor.State.wake,
      Monitor.State.rouse, Monitor.State.Waiting, monitor, start]
  obtain ⟨tr, s, hrun, -, hshared⟩ :=
    Machine.After.run (m := monitor.machine) (fun _ _ _ _ h => h) hactions
  exact ⟨tr, s, hrun, hshared, notify_attended hrun⟩

end Notify
end FtlFirmware
