import FtlFirmware.Ufs.Sectors

/-!
# Commands with retries

A command that fails is tried again (`UfsDev.processCmdWithRetry`), with the response and the data
that the last try has left. Successes, failures and retries are counted. A retry is counted before
it is known whether there is a try left, so that a command that fails for good has one retry counted
too many.

* `retries_are_runs`: what the target does with retries, it also does without them, if each command
  is given so often: once, or up to three times as long as it fails. The counters tell how often.
-/

namespace FtlFirmware

open Nvme (Buffer)

/-- The number of tries of a command (`UFS_MAX_RETRY_COUNT`). -/
abbrev ufsMaxRetryCount : ℕ := 3

/-- The statistics of the commands with retries (`ufs_error_stats_t`). -/
structure UfsErrorStats where
  successCount : UInt32
  retryCount : UInt32
  failureCount : UInt32

/-- The target with its statistics. -/
structure UfsDev extends Ufs where
  stats : UfsErrorStats

namespace UfsDev

variable (request : UfsRequest) (dataLen : UInt32) (fuel : ℕ)

/-- Tries a command, with so many tries left (`ufs_target_process_cmd_with_retry`, loop). As each
    try counts as a retry if it fails, the retries have not been used up as long as a try is
    left. -/
def tryCmd : ℕ → UfsReply → UfsDev → Option (UfsReply × UfsDev)
  | 0, reply, d =>
    some (reply, { d with stats := { d.stats with failureCount := d.stats.failureCount + 1 } })
  | left + 1, reply, d =>
    (d.processCmd request reply.response reply.data dataLen fuel).bind fun r =>
      let d := { d with toUfs := r.2 }
      if r.1.ret = .ok ∧ r.1.response.scsiStatus = .good then
        some (r.1, { d with stats := { d.stats with successCount := d.stats.successCount + 1 } })
      else if r.1.response.scsiStatus = .checkCondition then
        tryCmd left r.1 { d with stats := { d.stats with retryCount := d.stats.retryCount + 1 } }
      else
        some (r.1, { d with stats := { d.stats with failureCount := d.stats.failureCount + 1 } })

/-- Executes a command with retries (`ufs_target_process_cmd_with_retry`). -/
def processCmdWithRetry (d : UfsDev) (response : UfsResponse) (data : Buffer) :
    Option (UfsReply × UfsDev) :=
  d.tryCmd request dataLen fuel ufsMaxRetryCount ⟨.ok, response, data⟩

end UfsDev

/-- The calls of the target, and a command with retries. -/
inductive UfsDevCall
  | plain (c : UfsCall)
  | withRetry (request : UfsRequest) (response : UfsResponse) (data : Buffer) (dataLen : UInt32)

/-- The answer to a command. -/
def UfsReply.answer (reply : UfsReply) : UfsAnswer := ⟨reply.ret, some (reply.response, reply.data)⟩

namespace UfsDev

/-- Executes a call, with enough fuel for the garbage collections of its writes. -/
def exec (fuel : ℕ) (d : UfsDev) : UfsDevCall → Option (UfsAnswer × UfsDev)
  | .plain c => (d.toUfs.exec fuel c).map fun r => (r.1, { d with toUfs := r.2 })
  | .withRetry request response data dataLen =>
    (d.processCmdWithRetry request dataLen fuel response data).map fun r => (r.1.answer, r.2)

/-- The target with its statistics, as a machine. -/
def machine : Machine UfsDev UfsDevCall UfsAnswer where
  step d c a d' := ∃ fuel, d.exec fuel c = some (a, d')

/-! ## Tries -/

/-- A command has failed. -/
def Failed (a : UfsAnswer) : Prop := a.status? = some .checkCondition

instance (a : UfsAnswer) : Decidable (Failed a) := inferInstanceAs (Decidable (_ = _))

/-- The calls that a command with so many tries consists of, and its answer: all tries but the last
    one have failed, and the last one, if it is not the last possible one, has not. -/
inductive Tries (request : UfsRequest) (dataLen : UInt32) :
    ℕ → UfsResponse → Buffer → UfsAnswer → List (UfsCall × UfsAnswer) → Prop
  | good {left response data a} (h : ¬ Failed a) : Tries request dataLen (left + 1) response data a
      [(.processCmd request response data dataLen, a)]
  | last {response data a} (h : Failed a) : Tries request dataLen 1 response data a
      [(.processCmd request response data dataLen, a)]
  | again {left response data a part} {reply : UfsReply} (h : Failed reply.answer)
      (hnext : Tries request dataLen (left + 1) reply.response reply.data a part) :
      Tries request dataLen (left + 2) response data a
        ((.processCmd request response data dataLen, reply.answer) :: part)

/-- The calls of the target without retries that a call consists of. -/
def Consists : UfsDevCall × UfsAnswer → List (UfsCall × UfsAnswer) → Prop
  | (.plain c, a), part => part = [(c, a)]
  | (.withRetry request response data dataLen, a), part =>
    Tries request dataLen ufsMaxRetryCount response data a part

/-- The statistics after a command with so many tries: all of them are retries if the command has
    failed, and all but the last one otherwise. -/
def count (stats : UfsErrorStats) (a : UfsAnswer) (tries : ℕ) : UfsErrorStats :=
  if Failed a then
    { stats with
      failureCount := stats.failureCount + 1
      retryCount := stats.retryCount + UInt32.ofNat tries }
  else
    { stats with
      successCount := stats.successCount + 1
      retryCount := stats.retryCount + UInt32.ofNat (tries - 1) }

/-- The statistics after a call that consists of such calls. -/
def counted (stats : UfsErrorStats) (e : (UfsDevCall × UfsAnswer) × List (UfsCall × UfsAnswer)) :
    UfsErrorStats :=
  match e.1.1 with
  | .plain _ => stats
  | .withRetry .. => count stats e.1.2 e.2.length

variable {request : UfsRequest} {response : UfsResponse} {data : Buffer} {dataLen : UInt32}
  {fuel left n : ℕ} {reply reply' : UfsReply} {d d' : UfsDev} {a : UfsAnswer} {s s' : Ufs}
  {part : List (UfsCall × UfsAnswer)} {stats : UfsErrorStats}

/-- A command whose status is good has been executed without an error. -/
theorem processCmd_ok (h : s.processCmd request response data dataLen fuel = some (reply, s'))
    (hgood : reply.response.scsiStatus = .good) : reply.ret = .ok := by
  have hread (h : (s.handleRead10 request response data dataLen).1 = reply) : reply.ret = .ok := by
    rw [Ufs.handleRead10] at h
    dsimp only at h
    split_ifs at h
    · subst h
      cases hgood
    · subst h
      rfl
    · subst h
      cases hgood
  have hwrite (h : s.handleWrite10 request response data dataLen fuel = some (reply, s')) :
      reply.ret = .ok := by
    rw [Ufs.handleWrite10] at h
    split_ifs at h
    · cases h
      rfl
    · cases h
      cases hgood
    · obtain ⟨r, _, hr⟩ := Option.map_eq_some_iff.1 h
      split_ifs at hr
      · cases hr
        rfl
      · cases hr
        cases hgood
  have hcapacity (h : s.handleReadCapacity response data dataLen = reply) : reply.ret = .ok := by
    rw [Ufs.handleReadCapacity] at h
    split_ifs at h
    · subst h
      rfl
    · subst h
      rfl
    · subst h
      cases hgood
  have hready (h : s.handleTestUnitReady response data = reply) : reply.ret = .ok := by
    rw [Ufs.handleTestUnitReady] at h
    split_ifs at h <;> subst h <;> rfl
  -- The handlers set the status and the answer together, each in its own way.
  rw [Ufs.processCmd] at h
  split_ifs at h
  · exact hready (congrArg Prod.fst (Option.some.inj h))
  · cases h
    rfl
  · exact hcapacity (congrArg Prod.fst (Option.some.inj h))
  · exact hread (congrArg Prod.fst (Option.some.inj h))
  · exact hwrite h
  · cases h
    rfl
  · cases h
    rfl
  · cases h
    cases hgood

/-- A command is a step of the target. -/
theorem step_processCmd
    (h : s.processCmd request response data dataLen fuel = some (reply, s')) :
    s.exec fuel (.processCmd request response data dataLen) = some (reply.answer, s') := by
  rw [Ufs.exec, h]
  rfl

/-- A command has failed if its status says so. -/
theorem failed_answer : Failed reply.answer ↔ reply.response.scsiStatus = .checkCondition :=
  Option.some_inj

/-- A try that fails is one more of the retries that follow. -/
theorem count_again (h : 0 < n) :
    count { stats with retryCount := stats.retryCount + 1 } a n = count stats a (n + 1) := by
  have hadd (k : ℕ) :
      stats.retryCount + 1 + UInt32.ofNat k = stats.retryCount + UInt32.ofNat (k + 1) := by
    rw [UInt32.ofNat_add, UInt32.add_assoc, UInt32.add_comm 1]
    rfl
  unfold count
  split_ifs
  · rw [hadd]
  · rw [hadd, Nat.sub_add_cancel h, Nat.add_sub_cancel]

theorem Tries.length_pos (h : Tries request dataLen left response data a part) :
    0 < part.length := by
  cases h <;> exact Nat.succ_pos _

/-- What one try does: the command is over, or it has failed and is tried again. -/
theorem tryCmd_succ (h : d.tryCmd request dataLen fuel (left + 1) reply = some (reply', d')) :
    ∃ r s, d.processCmd request reply.response reply.data dataLen fuel = some (r, s) ∧
      ((¬ Failed r.answer ∧ r = reply' ∧ d'.toUfs = s ∧ d'.stats = count d.stats r.answer 1) ∨
        (Failed r.answer ∧ tryCmd request dataLen fuel left r
          { toUfs := s, stats := { d.stats with retryCount := d.stats.retryCount + 1 } } =
            some (reply', d'))) := by
  rw [tryCmd] at h
  obtain ⟨⟨r, s⟩, hr, h⟩ := Option.bind_eq_some_iff.1 h
  refine ⟨r, s, hr, ?_⟩
  cases hstatus : r.response.scsiStatus with
  | good =>
    have hfailed : ¬ Failed r.answer := by
      rw [failed_answer, hstatus]
      exact ScsiStatus.noConfusion
    rw [if_pos ⟨processCmd_ok hr hstatus, hstatus⟩] at h
    obtain ⟨rfl, rfl⟩ := Prod.mk.inj (Option.some.inj h)
    refine Or.inl ⟨hfailed, rfl, rfl, ?_⟩
    rw [count, if_neg hfailed]
    simp
  | checkCondition =>
    have hgood : ¬ (r.ret = .ok ∧ r.response.scsiStatus = .good) := by
      rw [hstatus]
      exact fun hand => ScsiStatus.noConfusion hand.2
    rw [if_neg hgood, if_pos hstatus] at h
    exact Or.inr ⟨failed_answer.2 hstatus, h⟩

/-- What is tried with retries also happens without them. -/
theorem tryCmd_tries (h : d.tryCmd request dataLen fuel (left + 1) reply = some (reply', d')) :
    ∃ part, Tries request dataLen (left + 1) reply.response reply.data reply'.answer part ∧
      Ufs.machine.Run Machine.anyCall d.toUfs part d'.toUfs ∧
      d'.stats = count d.stats reply'.answer part.length := by
  induction left generalizing reply d with
  | zero =>
    obtain ⟨r, s, hr, ⟨hfailed, rfl, rfl, hstats⟩ | ⟨hfailed, h⟩⟩ := tryCmd_succ h
    · exact ⟨_, .good hfailed, .single trivial ⟨fuel, step_processCmd hr⟩, hstats⟩
    · -- There is no try left.
      obtain ⟨rfl, rfl⟩ := Prod.mk.inj (Option.some.inj h)
      refine ⟨_, .last hfailed, .single trivial ⟨fuel, step_processCmd hr⟩, ?_⟩
      rw [count, if_pos hfailed]
      rfl
  | succ left ih =>
    obtain ⟨r, s, hr, ⟨hfailed, rfl, rfl, hstats⟩ | ⟨hfailed, h⟩⟩ := tryCmd_succ h
    · exact ⟨_, .good hfailed, .single trivial ⟨fuel, step_processCmd hr⟩, hstats⟩
    · obtain ⟨part, htries, hrun, hstats⟩ := ih h
      have hfirst : Ufs.machine.Run Machine.anyCall d.toUfs
          [(.processCmd request reply.response reply.data dataLen, r.answer)] s :=
        .single trivial ⟨fuel, step_processCmd hr⟩
      refine ⟨_, .again hfailed htries, hfirst.append hrun, ?_⟩
      rw [hstats, count_again htries.length_pos]
      rfl

/-- A call of the target is the calls that it consists of. -/
theorem step_parts {c : UfsDevCall} (h : machine.step d c a d') :
    ∃ part, Consists (c, a) part ∧ Ufs.machine.Run Machine.anyCall d.toUfs part d'.toUfs ∧
      d'.stats = counted d.stats ((c, a), part) := by
  obtain ⟨fuel, h⟩ := h
  cases c with
  | plain c =>
    obtain ⟨r, hr, h⟩ := Option.map_eq_some_iff.1 h
    obtain ⟨rfl, rfl⟩ := Prod.mk.inj h
    exact ⟨_, rfl, .single trivial ⟨fuel, hr⟩, rfl⟩
  | withRetry request response data dataLen =>
    obtain ⟨r, hr, h⟩ := Option.map_eq_some_iff.1 h
    obtain ⟨rfl, rfl⟩ := Prod.mk.inj h
    exact tryCmd_tries hr

variable {tr : List (UfsDevCall × UfsAnswer)}

/-- Whatever the target has done, each of its calls consists of calls without retries, which it has
    made one after another: as many tries of a command as it takes, up to three. The statistics are
    those of the tries. -/
theorem retries_are_runs (hrun : machine.Run Machine.anyCall d tr d') :
    ∃ parts, List.Forall₂ Consists tr parts ∧
      Ufs.machine.Run Machine.anyCall d.toUfs parts.flatten d'.toUfs ∧
      d'.stats = (tr.zip parts).foldl counted d.stats := by
  induction hrun with
  | nil => exact ⟨[], .nil, .nil, rfl⟩
  | snoc _ _ hstep ih =>
    obtain ⟨parts, hparts, hruns, hstats⟩ := ih
    obtain ⟨part, hpart, hpartrun, hpartstats⟩ := step_parts hstep
    refine ⟨parts ++ [part], List.rel_append hparts (.cons hpart .nil), ?_, ?_⟩
    · rw [List.flatten_append, List.flatten_singleton]
      exact hruns.append hpartrun
    · rw [List.zip_append hparts.length_eq, List.foldl_append, ← hstats]
      exact hpartstats

/-- A command that is unknown to the target. -/
def unknown : UfsDevCall := .withRetry (Ufs.sectorCmd 0xFF 0 0) Ufs.blankResponse (fun _ => 0) 0

/-- The answer to it. -/
def refused : UfsAnswer :=
  ⟨.errParam, some (Ufs.blankResponse.setCheckCondition 0x05 0x20 0x00, fun _ => 0)⟩

/-- An unknown command is tried three times. -/
theorem retries_are_runs_unknown : ∃ (d d' : UfsDev) (parts : List (List (UfsCall × UfsAnswer))),
    List.Forall₂ Consists [(unknown, refused)] parts ∧
      Ufs.machine.Run Machine.anyCall d.toUfs parts.flatten d'.toUfs ∧
      d'.stats = ([(unknown, refused)].zip parts).foldl counted ⟨0, 0, 0⟩ ∧
      d'.stats.retryCount = 3 := by
  obtain ⟨ftl, _⟩ := Ftl.exists_written 0 (by decide) (Vector.replicate pageSize 0)
  let d : UfsDev := { Ufs.load ftl with stats := ⟨0, 0, 0⟩ }
  let d' : UfsDev := { Ufs.load ftl with stats := ⟨0, 3, 1⟩ }
  have hrun : machine.Run Machine.anyCall d [(unknown, refused)] d' := .single trivial ⟨0, rfl⟩
  obtain ⟨parts, hparts, hruns, hstats⟩ := retries_are_runs hrun
  exact ⟨d, d', parts, hparts, hruns, hstats, rfl⟩

end UfsDev

end FtlFirmware
