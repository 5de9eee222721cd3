import FtlFirmware.Nvme.Returning
import FtlFirmware.Nvme.Routing

/-!
# The doorbells of the vfio-user back end

The guest writes the tail of a submission queue, or the head of a completion queue, to a doorbell.
The controller takes the remainder of it by the size of the queue, and the back end executes the
commands up to the tail, which it takes as it is.

* The size is not zero if and only if the queue has been created, and its size has not been cut to
  zero (`Created`). This is about the queue created last: the controller has only one for I/O, which
  is not deleted.
* At most as many commands as the submission queue has entries are executed if and only if the tail
  is in the queue, or an address is not translated before long (`Ends`).
* Throughout, the head of the queue is in the queue, and each command comes back unless it is a trim
  that leaves the tables.

`doorbells_served` has all of this, for every run in which the guest changes its memory at any time.
A doorbell before its queue has been created stops the back end, and a tail that is not in the queue
is never reached (`not_doorbells_served`).
-/

namespace FtlFirmware

namespace Nvme

/-! ## Going through a queue -/

namespace VfioQueue

variable {q q' : VfioQueue} {g g' : Guest} {k n : ℕ}

/-- The indices of a queue are in the queue. -/
structure Indexed (q : VfioQueue) : Prop where
  sq : q.sqSize ≠ 0 → q.sqHead < q.sqSize
  cq : q.cqSize ≠ 0 → q.cqTail < q.cqSize

/-- Queues whose indices are at the start. -/
theorem indexed_of_start (hhead : q.sqHead = 0) (htail : q.cqTail = 0) : q.Indexed where
  sq h := hhead ▸ Nat.pos_of_ne_zero h
  cq h := htail ▸ Nat.pos_of_ne_zero h

theorem Indexed.completed (h : q.Indexed) : q.completed.Indexed where
  sq hsize := by
    show (if q.sqHead + 1 ≥ q.sqSize then 0 else q.sqHead + 1) < q.sqSize
    rw [next_index (h.sq hsize)]
    exact Nat.mod_lt _ (Nat.pos_of_ne_zero hsize)
  cq hsize := by
    show (if q.cqTail + 1 ≥ q.cqSize then 0 else q.cqTail + 1) < q.cqSize
    rw [next_index (h.cq hsize)]
    exact Nat.mod_lt _ (Nat.pos_of_ne_zero hsize)

/-- The queue `q`, after `k` commands of it have been completed. -/
structure Advanced (q : VfioQueue) (k : ℕ) (q' : VfioQueue) : Prop where
  sqBase : q'.sqBase = q.sqBase
  cqBase : q'.cqBase = q.cqBase
  sqSize : q'.sqSize = q.sqSize
  cqSize : q'.cqSize = q.cqSize
  sqTail : q'.sqTail = q.sqTail
  sqHead : q'.sqHead = (q.sqHead + k) % q.sqSize
  cqTail : q'.cqTail = (q.cqTail + k) % q.cqSize

/-- The address of the command `k` entries after the head. -/
def command (q : VfioQueue) (k : ℕ) : UInt64 :=
  q.sqBase + UInt64.ofNat ((q.sqHead + k) % q.sqSize * commandSize)

/-- The address of the completion `k` entries after the tail. -/
def post (q : VfioQueue) (k : ℕ) : UInt64 :=
  q.cqBase + UInt64.ofNat ((q.cqTail + k) % q.cqSize * completionSize)

/-- There is a command `k` entries after the head: the tail is elsewhere, and the address is
    translated. -/
def Takes (q : VfioQueue) (g : Guest) (k : ℕ) : Prop :=
  (q.sqHead + k) % q.sqSize ≠ q.sqTail ∧ Vfio.gpaToHva g (q.command k) ≠ none

/-- The completion `k` entries after the tail can be written. -/
def Posts (q : VfioQueue) (g : Guest) (k : ℕ) : Prop := Vfio.gpaToHva g (q.post k) ≠ none

/-- `n` commands are executed: each of them is taken, after the ones before it have been
    completed. -/
def Lasts (q : VfioQueue) (g : Guest) (n : ℕ) : Prop :=
  ∀ k < n, q.Takes g k ∧ ∀ j < k, q.Posts g j

/-- The commands come to an end after at most as many as the submission queue has entries: the tail
    is in the queue, or an address of the queue is not translated, or that of a completion. -/
def Ends (q : VfioQueue) (g : Guest) : Prop :=
  q.sqTail < q.sqSize ∨
    (∃ i < q.sqSize, Vfio.gpaToHva g (q.sqBase + UInt64.ofNat (i * commandSize)) = none) ∨
      ∃ k < q.sqSize, Vfio.gpaToHva g (q.post k) = none

namespace Advanced

theorem zero (h : q.Indexed) (hsq : q.sqSize ≠ 0) (hcq : q.cqSize ≠ 0) : q.Advanced 0 q where
  sqBase := rfl
  cqBase := rfl
  sqSize := rfl
  cqSize := rfl
  sqTail := rfl
  sqHead := (Nat.mod_eq_of_lt (h.sq hsq)).symm
  cqTail := (Nat.mod_eq_of_lt (h.cq hcq)).symm

/-- One more command is completed. -/
theorem completed (h : q.Advanced k q') (hsq : q.sqSize ≠ 0) (hcq : q.cqSize ≠ 0) :
    q.Advanced (k + 1) q'.completed where
  sqBase := h.sqBase
  cqBase := h.cqBase
  sqSize := h.sqSize
  cqSize := h.cqSize
  sqTail := h.sqTail
  sqHead := by
    show (if q'.sqHead + 1 ≥ q'.sqSize then 0 else q'.sqHead + 1) = _
    rw [h.sqHead, h.sqSize, next_index (Nat.mod_lt _ (Nat.pos_of_ne_zero hsq)), Nat.mod_add_mod,
      Nat.add_assoc]
  cqTail := by
    show (if q'.cqTail + 1 ≥ q'.cqSize then 0 else q'.cqTail + 1) = _
    rw [h.cqTail, h.cqSize, next_index (Nat.mod_lt _ (Nat.pos_of_ne_zero hcq)), Nat.mod_add_mod,
      Nat.add_assoc]

theorem sqEntry (h : q.Advanced k q') : q'.sqEntry = q.command k := by
  rw [VfioQueue.sqEntry, command, h.sqBase, h.sqHead]

theorem cqEntry (h : q.Advanced k q') : q'.cqEntry = q.post k := by
  rw [VfioQueue.cqEntry, post, h.cqBase, h.cqTail]

/-- The next command is taken. -/
theorem takes_iff (h : q.Advanced k q') (hg : g'.regions = g.regions) :
    q.Takes g k ↔ q'.sqHead ≠ q'.sqTail ∧ Vfio.gpaToHva g' q'.sqEntry ≠ none := by
  rw [Takes, h.sqEntry, h.sqHead, h.sqTail, Vfio.gpaToHva_congr hg]

/-- The next completion is written. -/
theorem posts_iff (h : q.Advanced k q') (hg : g'.regions = g.regions) :
    q.Posts g k ↔ Vfio.gpaToHva g' q'.cqEntry ≠ none := by
  rw [Posts, h.cqEntry, Vfio.gpaToHva_congr hg]

end Advanced

/-- From any entry of a ring, any other is reached within a round. -/
theorem exists_add_mod {i j : ℕ} (hi : i < n) (hj : j < n) : ∃ k < n, (i + k) % n = j := by
  refine ⟨(j + n - i) % n, Nat.mod_lt _ (Nat.zero_lt_of_lt hi), ?_⟩
  rw [Nat.add_mod_mod, Nat.add_sub_cancel' (by omega), Nat.add_mod_right, Nat.mod_eq_of_lt hj]

/-- More commands than the queue has entries are executed, unless they come to an end. -/
theorem not_lasts_iff (h : q.Indexed) (hsize : q.sqSize ≠ 0) :
    ¬ q.Lasts g (q.sqSize + 1) ↔ q.Ends g := by
  have hhead := h.sq hsize
  constructor
  · intro hlasts
    by_contra hends
    simp only [Ends, not_or, not_exists, not_and, Nat.not_lt] at hends
    obtain ⟨htail, hsq, hcq⟩ := hends
    refine hlasts fun k hk => ⟨⟨?_, ?_⟩, fun j hj => hcq j (by omega)⟩
    · exact ((Nat.mod_lt _ (Nat.pos_of_ne_zero hsize)).trans_le htail).ne
    · exact hsq _ (Nat.mod_lt _ (Nat.pos_of_ne_zero hsize))
  · rintro (htail | ⟨i, hi, hnone⟩ | ⟨k, hk, hnone⟩) hlasts
    · -- the tail is reached
      obtain ⟨k, hk, heq⟩ := exists_add_mod hhead htail
      exact (hlasts k (Nat.lt_succ_of_lt hk)).1.1 heq
    · obtain ⟨k, hk, heq⟩ := exists_add_mod hhead hi
      exact (hlasts k (Nat.lt_succ_of_lt hk)).1.2 (by rw [command, heq, hnone])
    · exact (hlasts _ (Nat.lt_succ_self _)).2 k hk hnone

end VfioQueue

/-! ## The commands of a queue -/

namespace VfioWork

variable {cqid : Command → ℕ} {info : Ctrl → Command → Buffer} {fuel qid k n : ℕ} {s s₁ s' : VfioWork}
  {e : QueueEvent} {tr : List (QueueStep × Option QueueEvent)}

/-- The back end is executing the commands of a queue. -/
def AtWork (s : VfioWork) (_ : QueueStep) : Prop := s.busy ≠ none

/-- The number of commands that are executed. -/
def executions (tr : List (QueueStep × Option QueueEvent)) : ℕ := tr.countP fun x => x.2.isSome

theorem executions_append (tr tr' : List (QueueStep × Option QueueEvent)) :
    executions (tr ++ tr') = executions tr + executions tr' := List.countP_append

/-- A command leaves its own queue and the regions alone. -/
theorem Taken.same {h : Hva} {cpl : Completion} {v : Vfio}
    (ht : Taken cqid info fuel qid s h cpl v) :
    v.queues qid = s.vfio.queues qid ∧ v.guest.regions = s.vfio.guest.regions :=
  ⟨(Vfio.processNvmeCommand_queues ht.executed).1,
    (Vfio.processNvmeCommand_processed ht.executed).regions⟩

/-- A command is executed: it is completed, or the back end stops at its completion. -/
theorem execute_cases (hs' : s.execute cqid fuel info qid = some (e, s')) :
    ∃ h cpl v, Taken cqid info fuel qid s h cpl v ∧
      e.qid = qid ∧ e.cmd = (s.vfio.guest.bytesAt h).command ∧
      ((∃ h', Vfio.gpaToHva v.guest (v.queues qid).cqEntry = some h' ∧
          s'.vfio = v.postCompletion qid h' cpl ∧ s'.busy = s.busy) ∨
        (Vfio.gpaToHva v.guest (v.queues qid).cqEntry = none ∧ s'.vfio = v ∧ s'.busy = none)) := by
  obtain ⟨h, cpl, v, ht⟩ := taken_of_execute hs'
  refine ⟨h, cpl, v, ht, ?_⟩
  cases hcq : Vfio.gpaToHva v.guest (v.queues qid).cqEntry with
  | none =>
    rw [ht.lost hcq] at hs'
    obtain ⟨rfl, rfl⟩ := Prod.mk.inj (Option.some.inj hs')
    exact ⟨rfl, rfl, Or.inr ⟨rfl, rfl, rfl⟩⟩
  | some h' =>
    rw [ht.posted hcq] at hs'
    obtain ⟨rfl, rfl⟩ := Prod.mk.inj (Option.some.inj hs')
    exact ⟨rfl, rfl, Or.inl ⟨h', rfl, rfl, rfl⟩⟩

/-- The back end at work, after `k` commands of the queue have been executed. -/
structure Progress (s₁ : VfioWork) (qid k : ℕ) (s : VfioWork) : Prop where
  regions : s.vfio.guest.regions = s₁.vfio.guest.regions
  lasts : (s₁.vfio.queues qid).Lasts s₁.vfio.guest k
  busy : ∀ i ∈ s.busy, i = qid ∧ (s₁.vfio.queues qid).Advanced k (s.vfio.queues qid) ∧
    ∀ j < k, (s₁.vfio.queues qid).Posts s₁.vfio.guest j

/-- The back end begins with the commands of a queue. -/
theorem Progress.start (hbusy : s₁.busy = some qid) (hindexed : (s₁.vfio.queues qid).Indexed)
    (hsq : (s₁.vfio.queues qid).sqSize ≠ 0) (hcq : (s₁.vfio.queues qid).cqSize ≠ 0) :
    s₁.Progress qid 0 s₁ where
  regions := rfl
  lasts _ hk := absurd hk (Nat.not_lt_zero _)
  busy i hi := by
    obtain rfl := Option.some.inj (hbusy.symm.trans hi)
    exact ⟨rfl, .zero hindexed hsq hcq, fun _ hj => absurd hj (Nat.not_lt_zero _)⟩

/-- A command is executed. -/
theorem Progress.execute (h : s₁.Progress qid k s) (hbusy : s.busy = some qid)
    (hsq : (s₁.vfio.queues qid).sqSize ≠ 0) (hcq : (s₁.vfio.queues qid).cqSize ≠ 0)
    (hs' : s.execute cqid fuel info qid = some (e, s')) : s₁.Progress qid (k + 1) s' := by
  obtain ⟨_, hadvanced, hposts⟩ := h.busy qid hbusy
  obtain ⟨a, cpl, v, ht, _, _, hpost⟩ := execute_cases hs'
  obtain ⟨hqueue, hregions⟩ := ht.same
  have hregions₁ := hregions.trans h.regions
  have htakes : (s₁.vfio.queues qid).Takes s₁.vfio.guest k :=
    (hadvanced.takes_iff h.regions).2 ⟨ht.waiting, by rw [ht.entry]; simp⟩
  have hlasts : (s₁.vfio.queues qid).Lasts s₁.vfio.guest (k + 1) := by
    intro i hi
    rcases Nat.lt_succ_iff_lt_or_eq.1 hi with hlt | rfl
    · exact h.lasts i hlt
    · exact ⟨htakes, hposts⟩
  rcases hpost with ⟨a', hcqEntry, hv, hbusy'⟩ | ⟨_, hv, hbusy'⟩
  · refine ⟨?_, hlasts, fun i hi => ?_⟩
    · rw [hv]
      exact hregions₁
    · rw [hbusy', hbusy] at hi
      have hself : (v.postCompletion qid a' cpl).queues qid = (v.queues qid).completed :=
        Function.update_self _ _ _
      refine ⟨(Option.some.inj hi).symm, ?_, fun j hj => ?_⟩
      · rw [hv, hself, hqueue]
        exact hadvanced.completed hsq hcq
      · rcases Nat.lt_succ_iff_lt_or_eq.1 hj with hlt | rfl
        · exact hposts j hlt
        · refine (hadvanced.posts_iff hregions₁).2 ?_
          rw [← hqueue, hcqEntry]
          simp
  · refine ⟨by rw [hv, hregions₁], hlasts, fun i hi => ?_⟩
    rw [hbusy'] at hi
    simp at hi

/-- A step of the back end at work. -/
theorem Progress.step {c : QueueStep} {a : Option QueueEvent} (h : s₁.Progress qid k s)
    (hsq : (s₁.vfio.queues qid).sqSize ≠ 0) (hcq : (s₁.vfio.queues qid).cqSize ≠ 0)
    (hwork : s.AtWork c) (hs' : s.exec cqid fuel info c = some (a, s')) :
    s₁.Progress qid (k + executions [(c, a)]) s' := by
  cases c with
  | store mem =>
    obtain ⟨rfl, rfl⟩ := Prod.mk.inj (Option.some.inj hs')
    exact ⟨h.regions, h.lasts, h.busy⟩
  | regWrite offset value =>
    rw [exec, if_neg hwork] at hs'
    simp at hs'
  | doorbell offset value =>
    have hwork : s.busy ≠ none := hwork
    rw [exec, if_pos hwork] at hs'
    simp at hs'
  | execute =>
    obtain ⟨i, hbusy, hmap⟩ := Option.bind_eq_some_iff.1 hs'
    obtain ⟨⟨e, s₂⟩, hexec, heq⟩ := Option.map_eq_some_iff.1 hmap
    obtain ⟨rfl, rfl⟩ := Prod.mk.inj heq
    obtain rfl := (h.busy i hbusy).1
    exact h.execute hbusy hsq hcq hexec
  | leave =>
    obtain ⟨i, _, hexec⟩ := Option.bind_eq_some_iff.1 hs'
    dsimp only at hexec
    split_ifs at hexec
    obtain ⟨rfl, rfl⟩ := Prod.mk.inj (Option.some.inj hexec)
    exact ⟨h.regions, h.lasts, fun _ hmem => absurd hmem (by simp)⟩

/-- The commands that are executed. -/
theorem Progress.run (h : s₁.Progress qid k s) (hsq : (s₁.vfio.queues qid).sqSize ≠ 0)
    (hcq : (s₁.vfio.queues qid).cqSize ≠ 0)
    (hrun : (queueMachine cqid info).Run AtWork s tr s') :
    s₁.Progress qid (k + executions tr) s' := by
  induction hrun with
  | nil => exact h
  | snoc _ hwork hstep ih =>
    obtain ⟨fuel, hexec⟩ := hstep
    rw [executions_append, ← Nat.add_assoc]
    exact ih.step hsq hcq hwork hexec

/-- A command with the operation code 0 comes back. -/
theorem exists_flush {v : Vfio} {cmd : Command} (hop : cmd.opcode = 0) :
    ∃ r, v.processNvmeCommand 0 info cmd qid = some r := by
  rw [Vfio.processNvmeCommand]
  split_ifs
  · exact ⟨_, rfl⟩
  · simp [Vfio.processIoCommand, processIoCmd, hop]

/-- A guest whose memory is all zero has a command of the queue executed. -/
theorem exists_execute (hbusy : s.busy = some qid)
    (hwaiting : (s.vfio.queues qid).sqHead ≠ (s.vfio.queues qid).sqTail)
    (hentry : Vfio.gpaToHva s.vfio.guest (s.vfio.queues qid).sqEntry ≠ none) :
    ∃ tr s', (queueMachine cqid info).Run AtWork s tr s' ∧ executions tr = 1 ∧
      (Vfio.gpaToHva s.vfio.guest (s.vfio.queues qid).cqEntry ≠ none → s'.busy = some qid) := by
  set s₂ : VfioWork := { s with vfio := { s.vfio with guest :=
    { s.vfio.guest with mem := fun _ _ => 0 } } } with hs₂
  have hstore : (queueMachine cqid info).step s (.store fun _ _ => 0) none s₂ := ⟨0, rfl⟩
  obtain ⟨h, hh⟩ := Option.ne_none_iff_exists'.1 hentry
  have hflush : ∃ r, s₂.vfio.processNvmeCommand 0 info (s₂.vfio.guest.bytesAt h).command qid =
      some r := exists_flush rfl
  obtain ⟨⟨cpl, v⟩, hcmd⟩ := hflush
  have ht : Taken cqid info 0 qid s₂ h cpl v := ⟨hwaiting, hh, hcmd⟩
  obtain ⟨hqueue, hregions⟩ := ht.same
  have hexecute {e : QueueEvent} {s' : VfioWork}
      (he : s₂.execute cqid 0 info qid = some (e, s')) :
      (queueMachine cqid info).Run AtWork s [(.store fun _ _ => 0, none), (.execute, some e)] s' := by
    have hfirst : (queueMachine cqid info).Run AtWork s [(.store fun _ _ => 0, none)] s₂ :=
      .single (by rw [AtWork, hbusy]; simp) hstore
    refine hfirst.snoc (by rw [AtWork, hs₂, hbusy]; simp) ⟨0, ?_⟩
    rw [exec, show s₂.busy = some qid from hbusy, Option.bind_some, he, Option.map_some]
  cases hcq : Vfio.gpaToHva v.guest (v.queues qid).cqEntry with
  | none =>
    refine ⟨_, _, hexecute (ht.lost hcq), rfl, fun hne => absurd ?_ hne⟩
    rwa [hqueue, Vfio.gpaToHva_congr hregions] at hcq
  | some h' => exact ⟨_, _, hexecute (ht.posted hcq), rfl, fun _ => hbusy⟩

/-- The next command is executed, if there is one. -/
theorem Progress.exists_next (h : s₁.Progress qid k s) (hbusy : s.busy = some qid)
    (htakes : (s₁.vfio.queues qid).Takes s₁.vfio.guest k) :
    ∃ tr s', (queueMachine cqid info).Run AtWork s tr s' ∧ executions tr = 1 ∧
      ((s₁.vfio.queues qid).Posts s₁.vfio.guest k → s'.busy = some qid) := by
  obtain ⟨_, hadvanced, _⟩ := h.busy qid hbusy
  obtain ⟨hwaiting, hentry⟩ := (hadvanced.takes_iff h.regions).1 htakes
  rw [hadvanced.posts_iff h.regions]
  exact exists_execute hbusy hwaiting hentry

/-- Commands are executed as long as there are any. -/
theorem exists_run (hbusy : s₁.busy = some qid) (hindexed : (s₁.vfio.queues qid).Indexed)
    (hsq : (s₁.vfio.queues qid).sqSize ≠ 0) (hcq : (s₁.vfio.queues qid).cqSize ≠ 0)
    (hgoes : ∀ j < k, (s₁.vfio.queues qid).Takes s₁.vfio.guest j ∧
      (s₁.vfio.queues qid).Posts s₁.vfio.guest j) :
    ∃ tr s, (queueMachine cqid info).Run AtWork s₁ tr s ∧ executions tr = k ∧
      s.busy = some qid := by
  induction k with
  | zero => exact ⟨[], s₁, .nil, rfl, hbusy⟩
  | succ k ih =>
    obtain ⟨tr, s, hrun, hk, hs⟩ := ih fun j hj => hgoes j (Nat.lt_succ_of_lt hj)
    obtain ⟨htakes, hposts⟩ := hgoes k (Nat.lt_succ_self k)
    have hprogress := (Progress.start hbusy hindexed hsq hcq).run hsq hcq hrun
    rw [hk, Nat.zero_add] at hprogress
    obtain ⟨tr', s', hnext, hone, hbusy'⟩ := hprogress.exists_next hs htakes
    refine ⟨tr ++ tr', s', hrun.append hnext, ?_, hbusy' hposts⟩
    rw [executions_append, hk, hone]

/-- At most `n` commands of the queue are executed, whatever the guest does, if and only if not more
    than `n` of them are there. -/
theorem executions_le_iff (hbusy : s₁.busy = some qid) (hindexed : (s₁.vfio.queues qid).Indexed)
    (hsq : (s₁.vfio.queues qid).sqSize ≠ 0) (hcq : (s₁.vfio.queues qid).cqSize ≠ 0) :
    (∀ tr s, (queueMachine cqid info).Run AtWork s₁ tr s → executions tr ≤ n) ↔
      ¬ (s₁.vfio.queues qid).Lasts s₁.vfio.guest (n + 1) := by
  have hstart := Progress.start hbusy hindexed hsq hcq
  constructor
  · intro hle hlasts
    obtain ⟨htakes, hposts⟩ := hlasts n (Nat.lt_succ_self n)
    obtain ⟨tr, s, hrun, hn, hs⟩ := exists_run (k := n) hbusy hindexed hsq hcq fun j hj =>
      ⟨(hlasts j (Nat.lt_succ_of_lt hj)).1, hposts j hj⟩
    have hprogress := hstart.run hsq hcq hrun
    rw [hn, Nat.zero_add] at hprogress
    obtain ⟨tr', s', hnext, hone, _⟩ := hprogress.exists_next hs htakes
    have hmore := hle _ _ (hrun.append hnext)
    rw [executions_append, hn, hone] at hmore
    exact Nat.not_succ_le_self n hmore
  · intro hends tr s hrun
    by_contra hmore
    have hprogress := hstart.run hsq hcq hrun
    rw [Nat.zero_add] at hprogress
    exact hends fun k hk => hprogress.lasts k (hk.trans_le (Nat.not_le.1 hmore))

end VfioWork

/-! ## The sizes of the queues of the controller -/

namespace Ctrl

variable {c c' : Ctrl} {cmd : Command} {last : UInt8 → Option Command}

/-- The size that the command has given to a queue, if there is one. -/
def sizeOf (created : Option Command) : ℕ := (created.map Command.queueSize).getD 0

/-- The sizes of the queues: that of the admin queues is fixed, and those of the queues for I/O are
    given by the commands that have created them last. -/
structure Sized (c : Ctrl) (last : UInt8 → Option Command) : Prop where
  adminSq : c.adminSq.size = adminQsize
  adminCq : c.adminCq.size = adminQsize
  ioSq : c.ioSq.size = sizeOf (last 0x01)
  ioCq : c.ioCq.size = sizeOf (last 0x05)

theorem init_sized (rand : ℕ → ℕ) : (init rand).Sized fun _ => none := ⟨rfl, rfl, rfl, rfl⟩

/-- Commands with another operation code create no queue. -/
theorem Sized.other (h : c.Sized last) (hsq : cmd.opcode ≠ 0x01) (hcq : cmd.opcode ≠ 0x05) :
    c.Sized (Function.update last cmd.opcode (some cmd)) where
  adminSq := h.adminSq
  adminCq := h.adminCq
  ioSq := by
    rw [Function.update_of_ne (Ne.symm hsq)]
    exact h.ioSq
  ioCq := by
    rw [Function.update_of_ne (Ne.symm hcq)]
    exact h.ioCq

/-- An admin command gives the size of the queue that it creates. -/
theorem Sized.processAdminCmd (h : c.Sized last) (cmd : Command) :
    (c.processAdminCmd cmd).2.Sized (Function.update last cmd.opcode (some cmd)) := by
  have heffect := c.processAdminCmd_effect cmd
  generalize (c.processAdminCmd cmd).2 = c' at heffect ⊢
  cases heffect with
  | createSq qid cqid hop =>
    refine ⟨h.adminSq, h.adminCq, ?_, ?_⟩
    · rw [hop, Function.update_self]
      rfl
    · rw [hop, Function.update_of_ne (by decide)]
      exact h.ioCq
  | createCq qid vector hop =>
    refine ⟨h.adminSq, h.adminCq, ?_, ?_⟩
    · rw [hop, Function.update_of_ne (by decide)]
      exact h.ioSq
    · rw [hop, Function.update_self]
      rfl
  | other aer temps fw hsq hcq =>
    have hsame := h.other hsq hcq
    exact ⟨hsame.adminSq, hsame.adminCq, hsame.ioSq, hsame.ioCq⟩

theorem Sized.sqDoorbell {qid : ℕ} {value : UInt32} (h : c.Sized last)
    (hc' : c.sqDoorbell qid value = some c') : c'.Sized last := by
  have hsize {sq sq' : Sq} (hsq : sq.sqDoorbell value = some sq') : sq'.size = sq.size := by
    rw [Sq.sqDoorbell] at hsq
    split_ifs at hsq
    obtain rfl := Option.some.inj hsq
    rfl
  rw [Ctrl.sqDoorbell] at hc'
  split_ifs at hc'
  all_goals obtain ⟨sq, hsq, rfl⟩ := Option.map_eq_some_iff.1 hc'
  · exact ⟨(hsize hsq).trans h.adminSq, h.adminCq, h.ioSq, h.ioCq⟩
  · exact ⟨h.adminSq, h.adminCq, (hsize hsq).trans h.ioSq, h.ioCq⟩

theorem Sized.cqDoorbell {qid : ℕ} {value : UInt32} (h : c.Sized last)
    (hc' : c.cqDoorbell qid value = some c') : c'.Sized last := by
  have hsize {cq cq' : Cq} (hcq : cq.cqDoorbell value = some cq') : cq'.size = cq.size := by
    rw [Cq.cqDoorbell] at hcq
    split_ifs at hcq
    obtain rfl := Option.some.inj hcq
    rfl
  rw [Ctrl.cqDoorbell] at hc'
  split_ifs at hc'
  all_goals obtain ⟨cq, hcq, rfl⟩ := Option.map_eq_some_iff.1 hc'
  · exact ⟨h.adminSq, (hsize hcq).trans h.adminCq, h.ioSq, h.ioCq⟩
  · exact ⟨h.adminSq, h.adminCq, h.ioSq, (hsize hcq).trans h.ioCq⟩

/-- A remainder can be computed if the queue for I/O is not empty. -/
theorem Sized.sqDoorbell_iff {qid : ℕ} (value : UInt32) (h : c.Sized last) :
    (∃ c', c.sqDoorbell qid value = some c') ↔ (qid ≠ 0 → sizeOf (last 0x01) ≠ 0) := by
  rw [Ctrl.sqDoorbell]
  split_ifs with hqid
  · simp [Sq.sqDoorbell, h.adminSq, hqid]
  · simp [Sq.sqDoorbell, h.ioSq, hqid]

theorem Sized.cqDoorbell_iff {qid : ℕ} (value : UInt32) (h : c.Sized last) :
    (∃ c', c.cqDoorbell qid value = some c') ↔ (qid ≠ 0 → sizeOf (last 0x05) ≠ 0) := by
  rw [Ctrl.cqDoorbell]
  split_ifs with hqid
  · simp [Cq.cqDoorbell, h.adminCq, hqid]
  · simp [Cq.cqDoorbell, h.ioCq, hqid]

end Ctrl

/-! ## The back end over a run -/

namespace Vfio

variable {v v' : Vfio} {info : Ctrl → Command → Buffer} {fuel qid : ℕ} {cmd : Command}
  {cpl : Completion} {last : UInt8 → Option Command}

/-- An admin command keeps the indices of the queues in the queues. -/
theorem updateQueue_indexed (h : ∀ i, (v.queues i).Indexed) (cmd : Command) :
    ∀ i, ((v.updateQueue cmd).queues i).Indexed := by
  have hqid := h cmd.queueId
  rw [updateQueue]
  split_ifs
  · exact forall_setQueue _ h ⟨fun hsize => Nat.pos_of_ne_zero hsize, hqid.cq⟩
  · exact forall_setQueue _ h ⟨hqid.sq, fun hsize => Nat.pos_of_ne_zero hsize⟩
  · exact forall_setQueue _ h ⟨fun hsize => absurd rfl hsize, hqid.cq⟩
  · exact forall_setQueue _ h ⟨hqid.sq, fun hsize => absurd rfl hsize⟩
  · exact h
  · exact h

theorem updateQueue_ctrl (v : Vfio) (cmd : Command) : (v.updateQueue cmd).ctrl = v.ctrl := by
  rw [updateQueue]
  split_ifs
  all_goals rfl

/-- A command keeps the indices of the queues in the queues. -/
theorem processNvmeCommand_indexed (h : ∀ i, (v.queues i).Indexed)
    (hcmd : v.processNvmeCommand fuel info cmd qid = some (cpl, v')) :
    ∀ i, (v'.queues i).Indexed := by
  rw [(processNvmeCommand_processed hcmd).queues]
  split
  · exact updateQueue_indexed h cmd
  · exact h

/-- An I/O command leaves the controller alone. -/
theorem processIoCommand_ctrl (hcmd : v.processIoCommand fuel cmd = some (cpl, v')) :
    v'.ctrl = v.ctrl := by
  rw [processIoCommand] at hcmd
  split_ifs at hcmd
  · obtain ⟨_, rfl⟩ := Prod.mk.inj (Option.some.inj hcmd)
    rfl
  all_goals
    obtain ⟨_, _, heq⟩ := Option.map_eq_some_iff.1 hcmd
    obtain ⟨_, rfl⟩ := Prod.mk.inj heq
    rfl

/-- The admin commands give the sizes of the queues. -/
theorem processNvmeCommand_sized (h : v.ctrl.Sized last)
    (hcmd : v.processNvmeCommand fuel info cmd qid = some (cpl, v')) :
    v'.ctrl.Sized (if qid = 0 then Function.update last cmd.opcode (some cmd) else last) := by
  rw [processNvmeCommand] at hcmd
  split_ifs at hcmd ⊢
  · unfold processAdminCommand at hcmd
    split_ifs at hcmd with hid hlog
    · obtain ⟨_, rfl⟩ := Prod.mk.inj (Option.some.inj hcmd)
      exact h.other (hid ▸ (by simp)) (hid ▸ (by simp))
    · obtain ⟨_, rfl⟩ := Prod.mk.inj (Option.some.inj hcmd)
      exact h.other (hlog ▸ (by simp)) (hlog ▸ (by simp))
    · obtain ⟨_, rfl⟩ := Prod.mk.inj (Option.some.inj hcmd)
      have hsized := (updateQueue_ctrl v cmd ▸ h).processAdminCmd cmd
      exact ⟨hsized.adminSq, hsized.adminCq, hsized.ioSq, hsized.ioCq⟩
  · rw [processIoCommand_ctrl hcmd]
    exact h

/-- Writing a register changes nothing else of the controller, and leaves the FTL alone. -/
theorem handleNvmeRegWrite_regs (v : Vfio) (offset : ℕ) (value : UInt32) :
    (∃ regs, (v.handleNvmeRegWrite offset value).ctrl = { v.ctrl with regs }) ∧
      (v.handleNvmeRegWrite offset value).ftl = v.ftl := by
  rw [handleNvmeRegWrite]
  split_ifs
  all_goals exact ⟨⟨_, rfl⟩, rfl⟩

end Vfio

namespace VfioWork

variable {cqid : Command → ℕ} {info : Ctrl → Command → Buffer} {fuel qid : ℕ} {s s' : VfioWork}
  {last : UInt8 → Option Command} {offset : ℕ} {value : UInt32}
  {tr : List (QueueStep × Option QueueEvent)}

/-- The admin commands executed last, one for each operation code, after a step. -/
def noteAdmin (last : UInt8 → Option Command) :
    QueueStep × Option QueueEvent → UInt8 → Option Command
  | (_, some e) => if e.qid = 0 then Function.update last e.cmd.opcode (some e.cmd) else last
  | (_, none) => last

/-- The admin commands executed last in a run, one for each operation code. -/
def lastAdmin (tr : List (QueueStep × Option QueueEvent)) : UInt8 → Option Command :=
  tr.foldl noteAdmin fun _ => none

/-- The back end can go on: the FTL answers, the indices of the queues are in the queues, and there
    is a queue if commands are being executed. The sizes of the queues of the controller are those
    given last. -/
structure Going (s : VfioWork) (last : UInt8 → Option Command) : Prop where
  lively : s.vfio.ftl.Lively
  indexed : ∀ i, (s.vfio.queues i).Indexed
  sized : s.vfio.ctrl.Sized last
  working : ∀ qid ∈ s.busy, (s.vfio.queues qid).sqSize ≠ 0 ∧ (s.vfio.queues qid).cqSize ≠ 0

theorem init_going {rand : ℕ → ℕ} {ftl : Ftl} {guest : Guest} (h : ftl.Lively) :
    (init rand ftl guest).Going fun _ => none where
  lively := h
  indexed _ := VfioQueue.indexed_of_start rfl rfl
  sized := Ctrl.init_sized rand
  working _ h := absurd h (by simp [init])

/-- After the doorbell of a submission queue, its commands are executed, if there is a queue. -/
theorem ring_eq (hs' : s.ring qid value = some s') :
    let q := { s.vfio.queues qid with sqTail := (value &&& 0xFFFF).toNat }
    s'.vfio.queues qid = q ∧ s'.vfio.guest = s.vfio.guest ∧
      s'.busy = if q.Working then some qid else none := by
  obtain ⟨ctrl, _, rfl⟩ := Option.map_eq_some_iff.1 hs'
  exact ⟨Function.update_self _ _ _, rfl, rfl⟩

/-- The doorbell of a submission queue. -/
theorem Going.ring (h : s.Going last) (hs' : s.ring qid value = some s') : s'.Going last := by
  obtain ⟨hqueue, _, hbusy⟩ := ring_eq hs'
  obtain ⟨ctrl, hctrl, rfl⟩ := Option.map_eq_some_iff.1 hs'
  have hqid := h.indexed qid
  refine ⟨h.lively, Vfio.forall_setQueue qid h.indexed ⟨hqid.sq, hqid.cq⟩, h.sized.sqDoorbell hctrl,
    fun i hi => ?_⟩
  rw [hbusy] at hi
  split_ifs at hi with hworking
  · obtain rfl := Option.some.inj hi
    rw [hqueue]
    rw [VfioQueue.Working, not_or, not_or] at hworking
    exact hworking.2
  · cases hi

/-- The doorbell of a completion queue. -/
theorem Going.doorbell {v : Vfio} (h : s.Going last) (hidle : s.busy = none)
    (hsq : ¬ (offset % 8 = 0 ∧ offset / 8 % 2 ^ 16 < vfioMaxQueues))
    (hv : s.vfio.handleDoorbellWrite fuel info offset value = some v) :
    ({ s with vfio := v } : VfioWork).Going last := by
  have hworking : ∀ qid ∈ s.busy, (v.queues qid).sqSize ≠ 0 ∧ (v.queues qid).cqSize ≠ 0 := by
    rw [hidle]
    exact fun _ hmem => absurd hmem (by simp)
  rw [Vfio.handleDoorbellWrite] at hv
  dsimp only at hv
  split_ifs at hv with hmax hkind
  · obtain rfl := Option.some.inj hv
    exact ⟨h.lively, h.indexed, h.sized, hworking⟩
  · exact absurd ⟨hkind, Nat.lt_of_not_le hmax⟩ hsq
  · obtain ⟨ctrl, hctrl, rfl⟩ := Option.map_eq_some_iff.1 hv
    have hqid := h.indexed (offset / 8 % 2 ^ 16)
    exact ⟨h.lively, Vfio.forall_setQueue _ h.indexed ⟨hqid.sq, hqid.cq⟩, h.sized.cqDoorbell hctrl,
      hworking⟩

/-- A command of a queue. -/
theorem Going.execute {e : QueueEvent} (h : s.Going last) (hbusy : s.busy = some qid)
    (hs' : s.execute cqid fuel info qid = some (e, s')) :
    s'.Going (noteAdmin last (.execute, some e)) := by
  obtain ⟨a, cpl, v, ht, hqid, hcmd, hpost⟩ := execute_cases hs'
  have hlively := Vfio.processNvmeCommand_lively h.lively ht.executed
  have hindexed := Vfio.processNvmeCommand_indexed h.indexed ht.executed
  have hsized := Vfio.processNvmeCommand_sized h.sized ht.executed
  rw [noteAdmin, hqid, hcmd]
  rcases hpost with ⟨a', _, hv, hbusy'⟩ | ⟨_, hv, hbusy'⟩
  · obtain ⟨hqueue, _⟩ := ht.same
    refine ⟨hv ▸ hlively, ?_, hv ▸ hsized, fun i hi => ?_⟩
    · rw [hv]
      exact Vfio.forall_setQueue qid hindexed (hindexed qid).completed
    · rw [hbusy', hbusy] at hi
      obtain rfl := Option.some.inj hi
      have hself : (v.postCompletion qid a' cpl).queues qid = (v.queues qid).completed :=
        Function.update_self _ _ _
      rw [hv, hself, hqueue]
      exact h.working qid hbusy
  · refine ⟨hv ▸ hlively, hv ▸ hindexed, hv ▸ hsized, fun i hi => ?_⟩
    rw [hbusy'] at hi
    simp at hi

/-- Every step. -/
theorem Going.exec {c : QueueStep} {a : Option QueueEvent} (h : s.Going last)
    (hs' : s.exec cqid fuel info c = some (a, s')) : s'.Going (noteAdmin last (c, a)) := by
  cases c with
  | store mem =>
    obtain ⟨rfl, rfl⟩ := Prod.mk.inj (Option.some.inj hs')
    exact ⟨h.lively, h.indexed, h.sized, h.working⟩
  | regWrite offset value =>
    rw [VfioWork.exec] at hs'
    split_ifs at hs' with hidle
    obtain ⟨rfl, rfl⟩ := Prod.mk.inj (Option.some.inj hs')
    obtain ⟨⟨regs, hctrl⟩, hftl⟩ := s.vfio.handleNvmeRegWrite_regs offset value
    refine ⟨hftl ▸ h.lively, ?_, ?_, fun i hi => ?_⟩
    · exact Vfio.forall_handleNvmeRegWrite h.indexed
        (fun _ hhead _ _ htail _ => VfioQueue.indexed_of_start hhead htail) offset value
    · rw [hctrl]
      exact ⟨h.sized.adminSq, h.sized.adminCq, h.sized.ioSq, h.sized.ioCq⟩
    · rw [hidle] at hi
      simp at hi
  | doorbell offset value =>
    rw [VfioWork.exec] at hs'
    split_ifs at hs' with hidle hsq
    · obtain ⟨s₁, hs₁, heq⟩ := Option.map_eq_some_iff.1 hs'
      obtain ⟨rfl, rfl⟩ := Prod.mk.inj heq
      exact h.ring hs₁
    · obtain ⟨v, hv, heq⟩ := Option.map_eq_some_iff.1 hs'
      obtain ⟨rfl, rfl⟩ := Prod.mk.inj heq
      exact h.doorbell (not_not.1 hidle) hsq hv
  | execute =>
    obtain ⟨qid, hbusy, hmap⟩ := Option.bind_eq_some_iff.1 hs'
    obtain ⟨⟨e, s₁⟩, hexec, heq⟩ := Option.map_eq_some_iff.1 hmap
    obtain ⟨rfl, rfl⟩ := Prod.mk.inj heq
    exact h.execute hbusy hexec
  | leave =>
    obtain ⟨qid, hbusy, hexec⟩ := Option.bind_eq_some_iff.1 hs'
    dsimp only at hexec
    split_ifs at hexec
    obtain ⟨rfl, rfl⟩ := Prod.mk.inj (Option.some.inj hexec)
    exact ⟨h.lively, h.indexed, h.sized, fun _ hmem => absurd hmem (by simp)⟩

/-- The back end can go on in every run. -/
theorem run_going {rand : ℕ → ℕ} {ftl : Ftl} {guest : Guest} (h : ftl.Lively)
    (hrun : (queueMachine cqid info).Run Machine.anyCall (init rand ftl guest) tr s) :
    s.Going (lastAdmin tr) :=
  hrun.simulation (init_going h) fun _ _ _ _ _ hs _ hstep =>
    hstep.elim fun _ hexec => hs.exec hexec

/-! ## The commands come back -/

/-- The back end executes the next command of the queue, or is done with it. -/
def GoesOn (cqid : Command → ℕ) (info : Ctrl → Command → Buffer) (s : VfioWork) : Prop :=
  ∃ c a s', (c = .execute ∨ c = .leave) ∧ (queueMachine cqid info).step s c a s'

/-- The next command is a trim that leaves the tables of the FTL. -/
def Overruns (s : VfioWork) : Prop :=
  ∃ qid ∈ s.busy, (s.vfio.queues qid).sqHead ≠ (s.vfio.queues qid).sqTail ∧
    ∃ h, Vfio.gpaToHva s.vfio.guest (s.vfio.queues qid).sqEntry = some h ∧
      s.vfio.Overruns qid (s.vfio.guest.bytesAt h).command

/-- The next command is executed if and only if it comes back. -/
theorem exists_execute_iff {h : Hva} (hbusy : s.busy = some qid)
    (hwaiting : (s.vfio.queues qid).sqHead ≠ (s.vfio.queues qid).sqTail)
    (hentry : Vfio.gpaToHva s.vfio.guest (s.vfio.queues qid).sqEntry = some h) :
    (∃ a s', (queueMachine cqid info).step s .execute a s') ↔
      ∃ fuel r, s.vfio.processNvmeCommand fuel info (s.vfio.guest.bytesAt h).command qid = some r := by
  constructor
  · rintro ⟨a, s', fuel, hexec⟩
    obtain ⟨i, hi, hmap⟩ := Option.bind_eq_some_iff.1 hexec
    obtain rfl := Option.some.inj (hbusy.symm.trans hi)
    obtain ⟨⟨e, s₁⟩, hexecute, _⟩ := Option.map_eq_some_iff.1 hmap
    obtain ⟨h', cpl, v, ht⟩ := taken_of_execute hexecute
    obtain rfl := Option.some.inj (hentry.symm.trans ht.entry)
    exact ⟨fuel, _, ht.executed⟩
  · rintro ⟨fuel, ⟨cpl, v⟩, hcmd⟩
    have ht : Taken cqid info fuel qid s h cpl v := ⟨hwaiting, hentry, hcmd⟩
    have hexecute : ∃ e s', s.execute cqid fuel info qid = some (e, s') := by
      cases hcq : Vfio.gpaToHva v.guest (v.queues qid).cqEntry with
      | none => exact ⟨_, _, ht.lost hcq⟩
      | some h' => exact ⟨_, _, ht.posted hcq⟩
    obtain ⟨e, s', hexecute⟩ := hexecute
    exact ⟨some e, s', fuel, by
      rw [VfioWork.exec, hbusy, Option.bind_some, hexecute, Option.map_some]⟩

/-- The back end goes on unless the next command leaves the tables. -/
theorem Going.goesOn_iff (h : s.Going last) (hbusy : s.busy = some qid) :
    s.GoesOn cqid info ↔ ¬ s.Overruns := by
  by_cases hdone : (s.vfio.queues qid).sqHead = (s.vfio.queues qid).sqTail ∨
      Vfio.gpaToHva s.vfio.guest (s.vfio.queues qid).sqEntry = none
  · -- there is no next command
    refine iff_of_true ⟨.leave, none, { s with busy := none }, Or.inr rfl, 0, ?_⟩ ?_
    · rw [VfioWork.exec, hbusy, Option.bind_some]
      exact if_pos hdone
    · rintro ⟨i, hi, hwaiting, a, hentry, _⟩
      obtain rfl := Option.some.inj (hbusy.symm.trans hi)
      rcases hdone with hdone | hdone
      · exact hwaiting hdone
      · exact absurd (hdone.symm.trans hentry) (by simp)
  · obtain ⟨hwaiting, hentry⟩ := not_or.1 hdone
    obtain ⟨a, hentry⟩ := Option.ne_none_iff_exists'.1 hentry
    have hexecute : s.GoesOn cqid info ↔ ∃ a s', (queueMachine cqid info).step s .execute a s' := by
      constructor
      · rintro ⟨c, b, s', rfl | rfl, hstep⟩
        · exact ⟨b, s', hstep⟩
        · obtain ⟨_, hexec⟩ := hstep
          rw [VfioWork.exec, hbusy, Option.bind_some] at hexec
          dsimp only at hexec
          rw [if_neg hdone] at hexec
          simp at hexec
      · rintro ⟨b, s', hstep⟩
        exact ⟨.execute, b, s', Or.inl rfl, hstep⟩
    rw [hexecute, exists_execute_iff hbusy hwaiting hentry, Vfio.processNvmeCommand_iff h.lively]
    refine not_congr ⟨fun hover => ⟨qid, hbusy, hwaiting, a, hentry, hover⟩, ?_⟩
    rintro ⟨i, hi, _, a', hentry', hover⟩
    obtain rfl := Option.some.inj (hbusy.symm.trans hi)
    obtain rfl := Option.some.inj (hentry.symm.trans hentry')
    exact hover

/-! ## Doorbells -/

/-- The queue of a doorbell has been created, if it is one for I/O, and its size has not been cut to
    zero. -/
def Created (tr : List (QueueStep × Option QueueEvent)) (offset : ℕ) : Prop :=
  let qid := offset / 8 % 2 ^ 16
  qid ≠ 0 → qid < vfioMaxQueues →
    ∃ cmd, lastAdmin tr (if offset % 8 = 0 then 0x01 else 0x05) = some cmd ∧ cmd.queueSize ≠ 0

/-- The doorbell is served: the controller computes the remainder, and then at most as many commands
    as the queue has entries are executed, whatever the guest does in the meantime. -/
structure Served (cqid : Command → ℕ) (info : Ctrl → Command → Buffer) (s : VfioWork) (offset : ℕ)
    (value : UInt32) : Prop where
  answered : ∃ s₁, (queueMachine cqid info).step s (.doorbell offset value) none s₁
  bounded : ∀ s₁, (queueMachine cqid info).step s (.doorbell offset value) none s₁ →
    ∀ qid ∈ s₁.busy, ∀ tr s₂, (queueMachine cqid info).Run AtWork s₁ tr s₂ →
      executions tr ≤ (s₁.vfio.queues qid).sqSize

/-- The queue has been created, and the commands up to the tail that the guest writes come to an
    end. -/
def Answerable (tr : List (QueueStep × Option QueueEvent)) (s : VfioWork) (offset : ℕ)
    (value : UInt32) : Prop :=
  let qid := offset / 8 % 2 ^ 16
  let q := { s.vfio.queues qid with sqTail := (value &&& 0xFFFF).toNat }
  Created tr offset ∧
    (offset % 8 = 0 → qid < vfioMaxQueues → q.Working → q.Ends s.vfio.guest)

/-- The size given to a queue is not zero. -/
theorem sizeOf_ne_zero {created : Option Command} :
    Ctrl.sizeOf created ≠ 0 ↔ ∃ cmd, created = some cmd ∧ cmd.queueSize ≠ 0 := by
  cases created <;> simp [Ctrl.sizeOf]

/-- The doorbell of a submission queue is answered if the remainder can be computed. -/
theorem step_ring_iff {s₁ : VfioWork} (hidle : s.busy = none)
    (hsq : offset % 8 = 0 ∧ offset / 8 % 2 ^ 16 < vfioMaxQueues) :
    (queueMachine cqid info).step s (.doorbell offset value) none s₁ ↔
      s.ring (offset / 8 % 2 ^ 16) value = some s₁ := by
  have hexec (fuel : ℕ) : s.exec cqid fuel info (.doorbell offset value) =
      (s.ring (offset / 8 % 2 ^ 16) value).map fun s => (none, s) := by
    rw [VfioWork.exec, if_neg (not_not_intro hidle), if_pos hsq]
  simp [queueMachine, hexec]

/-- Another doorbell is answered if the back end takes no notice of it, or the remainder can be
    computed. -/
theorem exists_step_iff (hidle : s.busy = none)
    (hsq : ¬ (offset % 8 = 0 ∧ offset / 8 % 2 ^ 16 < vfioMaxQueues)) :
    (∃ s₁, (queueMachine cqid info).step s (.doorbell offset value) none s₁) ↔
      (offset / 8 % 2 ^ 16 < vfioMaxQueues →
        ∃ c, s.vfio.ctrl.cqDoorbell (offset / 8 % 2 ^ 16) value = some c) := by
  have hexec (fuel : ℕ) : s.exec cqid fuel info (.doorbell offset value) =
      (s.vfio.handleDoorbellWrite fuel info offset value).map fun v =>
        (none, { s with vfio := v }) := by
    rw [VfioWork.exec, if_neg (not_not_intro hidle), if_neg hsq]
  have hstep (fuel : ℕ) : (∃ v, s.vfio.handleDoorbellWrite fuel info offset value = some v) ↔
      (offset / 8 % 2 ^ 16 < vfioMaxQueues →
        ∃ c, s.vfio.ctrl.cqDoorbell (offset / 8 % 2 ^ 16) value = some c) := by
    simp only [Vfio.handleDoorbellWrite]
    split_ifs with hmax hkind
    · exact iff_of_true ⟨_, rfl⟩ fun hlt => absurd hlt (Nat.not_lt.2 hmax)
    · exact absurd ⟨hkind, Nat.lt_of_not_le hmax⟩ hsq
    · constructor
      · rintro ⟨v, hv⟩ _
        obtain ⟨c, hc, _⟩ := Option.map_eq_some_iff.1 hv
        exact ⟨c, hc⟩
      · intro hcq
        obtain ⟨c, hc⟩ := hcq (Nat.lt_of_not_le hmax)
        exact ⟨_, by rw [hc]; rfl⟩
  constructor
  · rintro ⟨s₁, fuel, hs₁⟩
    rw [hexec] at hs₁
    obtain ⟨v, hv, _⟩ := Option.map_eq_some_iff.1 hs₁
    exact (hstep fuel).1 ⟨v, hv⟩
  · intro hcq
    obtain ⟨v, hv⟩ := (hstep 0).2 hcq
    exact ⟨{ s with vfio := v }, 0, by rw [hexec, hv]; rfl⟩

/-- No remainder by zero is computed if and only if the queue has been created. -/
theorem Going.answered_iff (h : s.Going (lastAdmin tr)) (hidle : s.busy = none) :
    (∃ s₁, (queueMachine cqid info).step s (.doorbell offset value) none s₁) ↔
      Created tr offset := by
  rw [Created]
  by_cases hsq : offset % 8 = 0 ∧ offset / 8 % 2 ^ 16 < vfioMaxQueues
  · simp only [step_ring_iff hidle hsq, if_pos hsq.1, ← sizeOf_ne_zero, hsq.2, forall_const]
    rw [← h.sized.sqDoorbell_iff value]
    simp [VfioWork.ring]
  · rw [exists_step_iff hidle hsq]
    by_cases hmax : offset / 8 % 2 ^ 16 < vfioMaxQueues
    · have hkind : offset % 8 ≠ 0 := fun hkind => hsq ⟨hkind, hmax⟩
      simp only [hmax, forall_const, if_neg hkind, ← sizeOf_ne_zero, h.sized.cqDoorbell_iff value]
    · simp only [hmax, false_imp_iff, implies_true]

/-- The commands after the doorbell come to an end. -/
theorem Going.bounded_iff {s₁ : VfioWork} (h : s.Going last) (hidle : s.busy = none)
    (hs₁ : (queueMachine cqid info).step s (.doorbell offset value) none s₁) :
    (∀ qid ∈ s₁.busy, ∀ tr s₂, (queueMachine cqid info).Run AtWork s₁ tr s₂ →
        executions tr ≤ (s₁.vfio.queues qid).sqSize) ↔
      let qid := offset / 8 % 2 ^ 16
      let q := { s.vfio.queues qid with sqTail := (value &&& 0xFFFF).toNat }
      offset % 8 = 0 → qid < vfioMaxQueues → q.Working → q.Ends s.vfio.guest := by
  dsimp only
  by_cases hsq : offset % 8 = 0 ∧ offset / 8 % 2 ^ 16 < vfioMaxQueues
  · rw [step_ring_iff hidle hsq] at hs₁
    rw [forall_prop_of_true hsq.1, forall_prop_of_true hsq.2]
    obtain ⟨hqueue, hguest, hbusy⟩ := ring_eq hs₁
    have hindexed := (h.ring hs₁).indexed (offset / 8 % 2 ^ 16)
    generalize offset / 8 % 2 ^ 16 = qid at hqueue hbusy hindexed ⊢
    rw [← hqueue] at hbusy ⊢
    by_cases hworking : (s₁.vfio.queues qid).Working
    · rw [if_pos hworking] at hbusy
      rw [forall_prop_of_true hworking]
      rw [VfioQueue.Working, not_or, not_or] at hworking
      have hle : (∀ tr s₂, (queueMachine cqid info).Run AtWork s₁ tr s₂ →
          executions tr ≤ (s₁.vfio.queues qid).sqSize) ↔ _ :=
        executions_le_iff hbusy hindexed hworking.2.1 hworking.2.2
      rw [← VfioQueue.not_lasts_iff hindexed hworking.2.1, ← hguest, ← hle]
      simp [hbusy]
    · rw [if_neg hworking] at hbusy
      simp [hbusy, hworking]
  · have hbusy : s₁.busy = none := by
      obtain ⟨fuel, hexec⟩ := hs₁
      rw [VfioWork.exec, if_neg (not_not_intro hidle), if_neg hsq] at hexec
      obtain ⟨v, _, heq⟩ := Option.map_eq_some_iff.1 hexec
      obtain ⟨_, rfl⟩ := Prod.mk.inj heq
      exact hidle
    refine iff_of_true ?_ fun hkind hmax => absurd ⟨hkind, hmax⟩ hsq
    rw [hbusy]
    exact fun _ hmem => absurd hmem (by simp)

/-- A doorbell is served if and only if it can be answered. -/
theorem Going.served_iff (h : s.Going (lastAdmin tr)) (hidle : s.busy = none) :
    Served cqid info s offset value ↔ s.Answerable tr offset value := by
  constructor
  · intro hserved
    obtain ⟨s₁, hs₁⟩ := hserved.answered
    exact ⟨(h.answered_iff hidle).1 hserved.answered,
      (h.bounded_iff hidle hs₁).1 (hserved.bounded s₁ hs₁)⟩
  · rintro ⟨hcreated, hends⟩
    exact ⟨(h.answered_iff hidle).2 hcreated, fun s₁ hs₁ => (h.bounded_iff hidle hs₁).2 hends⟩

end VfioWork

open VfioWork in
/-- In every run, a doorbell is served if and only if it can be answered. While commands are
    executed, the head is in the queue, and the back end goes on unless the next command leaves the
    tables of the FTL. -/
theorem doorbells_served {cqid : Command → ℕ} {info : Ctrl → Command → Buffer} {rand rand' : ℕ → ℕ}
    {files : String → Option (List UInt8)} {ftl₀ ftl : Ftl} {calls : List (Call × Answer)}
    {guest : Guest} {tr : List (QueueStep × Option QueueEvent)} {s : VfioWork}
    (hrand : Recurs Nand.WearsOut rand) (hon : Ftl.powerOn rand files = (.ok, ftl₀))
    (hcalls : Ftl.Run (fun _ _ => True) ftl₀ calls ftl)
    (hrun : (queueMachine cqid info).Run Machine.anyCall (VfioWork.init rand' ftl guest) tr s) :
    (s.busy = none → ∀ offset value,
      Served cqid info s offset value ↔ s.Answerable tr offset value) ∧
    ∀ qid ∈ s.busy, (s.vfio.queues qid).sqHead < (s.vfio.queues qid).sqSize ∧
      (s.GoesOn cqid info ↔ ¬ s.Overruns) := by
  have hgoing : s.Going (lastAdmin tr) := run_going (.of_run hrand hon hcalls) hrun
  refine ⟨fun hidle offset value => hgoing.served_iff hidle, fun qid hbusy => ⟨?_, ?_⟩⟩
  · exact (hgoing.indexed qid).sq (hgoing.working qid hbusy).1
  · exact hgoing.goesOn_iff hbusy

/-! ## A queue of two entries -/

/-- A guest has connected, whose memory is empty. -/
private def connected : VfioWork :=
  VfioWork.init (fun _ => 0) (Ftl.powerOn Ftl.fourRand fun _ => none).2
    ⟨[⟨0x1000, 0x8000⟩], fun _ _ => 0⟩

/-- It has given the size and the address of admin queues of two entries. -/
private def configured : VfioWork :=
  { connected with
    vfio := ((connected.vfio.handleNvmeRegWrite 0x24 0x00010001).handleNvmeRegWrite 0x28
      0x1000).handleNvmeRegWrite 0x30 0x2000 }

private theorem configured_run : ∃ tr,
    (queueMachine (fun _ => 0) fun _ _ _ => 0).Run Machine.anyCall connected tr configured := by
  have hplay : VfioWork.play Machine.anyCall (fun _ => 0) (fun _ _ _ => 0) 0
      [.regWrite 0x24 0x00010001, .regWrite 0x28 0x1000, .regWrite 0x30 0x2000] connected =
        some (_, configured) := rfl
  exact ⟨_, VfioWork.play_run hplay⟩

/-- The first command of the admin queue. -/
theorem doorbells_served_first : ∃ tr s,
    (queueMachine (fun _ => 0) fun _ _ _ => 0).Run Machine.anyCall connected tr s ∧
      VfioWork.Served (fun _ => 0) (fun _ _ _ => 0) s 0 1 := by
  obtain ⟨tr, hrun⟩ := configured_run
  refine ⟨tr, configured, hrun, ?_⟩
  refine ((doorbells_served Ftl.fourRand_recurs (Prod.ext rfl rfl) .nil hrun).1 rfl 0 1).2 ⟨?_, ?_⟩
  · exact fun hqid => absurd rfl hqid
  · exact fun _ _ _ => Or.inl (show 1 < 2 by decide)

/-- The doorbell of a queue that has not been created is not answered. A tail that is the size of
    the admin queue is answered, and there is no end to the commands that are executed. -/
theorem not_doorbells_served :
    (¬ ∃ s₁, (queueMachine (fun _ => 0) fun _ _ _ => 0).step connected (.doorbell 8 0) none s₁) ∧
      ∃ tr s s₁, (queueMachine (fun _ => 0) fun _ _ _ => 0).Run Machine.anyCall connected tr s ∧
        (queueMachine (fun _ => 0) fun _ _ _ => 0).step s (.doorbell 0 2) none s₁ ∧
        s₁.busy = some 0 ∧ (s₁.vfio.queues 0).sqSize = 2 ∧
        ∀ n, ∃ tr' s₂, (queueMachine (fun _ => 0) fun _ _ _ => 0).Run VfioWork.AtWork s₁ tr' s₂ ∧
          VfioWork.executions tr' = n := by
  refine ⟨?_, ?_⟩
  · rintro ⟨s₁, hstep⟩
    have hring := (VfioWork.step_ring_iff rfl (by decide)).1 hstep
    exact absurd (show none = some s₁ from hring) (by simp)
  · obtain ⟨tr, hrun⟩ := configured_run
    obtain ⟨s₁, hring⟩ := Option.isSome_iff_exists.1 (rfl : (configured.ring 0 2).isSome = true)
    obtain ⟨hqueue, hguest, hbusy⟩ := VfioWork.ring_eq hring
    have hbusy : s₁.busy = some 0 := hbusy
    have hindexed : (s₁.vfio.queues 0).Indexed := by
      rw [hqueue]
      exact VfioQueue.indexed_of_start rfl rfl
    have hsize : (s₁.vfio.queues 0).sqSize = 2 := by
      rw [hqueue]
      rfl
    have hcqSize : (s₁.vfio.queues 0).cqSize = 2 := by
      rw [hqueue]
      rfl
    have hcommand : ∀ i < 2, Vfio.gpaToHva connected.vfio.guest
        (0x1000 + UInt64.ofNat (i * commandSize)) ≠ none := by decide
    have hpost : ∀ i < 2, Vfio.gpaToHva connected.vfio.guest
        (0x2000 + UInt64.ofNat (i * completionSize)) ≠ none := by decide
    refine ⟨tr, configured, s₁, hrun, (VfioWork.step_ring_iff rfl (by decide)).2 hring, hbusy, hsize,
      fun n => ?_⟩
    have hgoes : ∀ j < n, (s₁.vfio.queues 0).Takes s₁.vfio.guest j ∧
        (s₁.vfio.queues 0).Posts s₁.vfio.guest j := by
      -- the indices are below the tail, and all addresses are translated
      rw [hqueue, hguest]
      intro j _
      have hlt := Nat.mod_lt (0 + j) (show 0 < 2 by decide)
      exact ⟨⟨hlt.ne, hcommand _ hlt⟩, hpost _ hlt⟩
    obtain ⟨tr', s₂, hcommands, hn, _⟩ := VfioWork.exists_run hbusy hindexed
      (by rw [hsize]; decide) (by rw [hcqSize]; decide) hgoes
    exact ⟨tr', s₂, hcommands, hn⟩

end Nvme

end FtlFirmware
