import FtlFirmware.Lib.Run
import FtlFirmware.Nvme.Requests
import FtlFirmware.Nvme.Returning

/-!
# Completions

Every command that the controller takes from a submission queue is answered, in order, by one
completion in the matching queue, but for the event requests that wait (`process_answers`). The
completion carries the identifier of the command.

The head of the submission queue and the phase are written before the completion is cleared, or
not at all. They are right if and only if they are zero (`Answers`).

A call comes back if and only if the completions of the I/O commands have entries to go to
(`Ctrl.Ready.process_returns_iff`).
-/

open Filter

namespace FtlFirmware

namespace Nvme

/-! ## The passes through a completion queue -/

/-- The completions go to the entries of the queue in turn, and the phase changes with every
    pass. A completion stays in its entry for one pass. -/
structure Cq.Paced (cq : Cq) : Prop where
  posted : ∀ k p, cq.posted[k]? = some p →
    p.slot = k % cq.size ∧ p.phase = decide (k / cq.size % 2 = 0)
  stored : ∀ k p, cq.posted[k]? = some p → cq.posted.length ≤ k + cq.size →
    cq.entry p.slot = some p.cpl
  tail : cq.tail = cq.posted.length % cq.size
  phase : cq.entries.isSome → cq.phase = decide (cq.posted.length / cq.size % 2 = 0)

namespace Cq

variable {cq cq' : Cq} {cpl : Completion}

theorem create_paced (qid qsize vector : ℕ) : (Cq.create qid qsize vector).Paced where
  posted k p h := by
    rw [create] at h
    simp at h
  stored k p h := by
    rw [create] at h
    simp at h
  tail := (Nat.zero_mod _).symm
  phase _ := by
    rw [create]
    dsimp only
    rw [List.length_nil, Nat.zero_div]
    rfl

theorem absent_paced : absent.Paced where
  posted k p h := by
    rw [absent] at h
    simp at h
  stored k p h := by
    rw [absent] at h
    simp at h
  tail := rfl
  phase h := by
    rw [absent] at h
    exact absurd h (by simp)

/-- What writing a completion does. -/
theorem cqPostCompletion_eq (h : cq.cqPostCompletion cpl = some cq') :
    cq.size ≠ 0 ∧ cq.entries.isSome ∧ cq'.entries.isSome ∧ cq'.size = cq.size ∧
      cq'.head = cq.head ∧ cq'.tail = (cq.tail + 1) % cq.size ∧
      cq'.phase = (if (cq.tail + 1) % cq.size = 0 then !cq.phase else cq.phase) ∧
      cq'.posted = cq.posted ++ [⟨cq.tail, cq.phase, cpl⟩] := by
  rw [cqPostCompletion] at h
  split_ifs at h with hsize
  obtain ⟨entries, hentries, rfl⟩ := Option.map_eq_some_iff.1 h
  refine ⟨hsize, ?_, rfl, rfl, rfl, rfl, rfl, rfl⟩
  rw [hentries]
  rfl

/-- The completion is in the entry at the tail, and the other entries are as before. -/
theorem cqPostCompletion_entry (h : cq.cqPostCompletion cpl = some cq') (slot : ℕ) :
    cq'.entry slot = if slot = cq.tail then some cpl else cq.entry slot := by
  rw [cqPostCompletion] at h
  split_ifs at h
  obtain ⟨entries, hentries, rfl⟩ := Option.map_eq_some_iff.1 h
  rw [entry, entry, hentries]
  dsimp only [Option.map_some]
  rw [Function.update_apply]
  exact apply_ite some _ _ _

/-- A completion goes to the next entry. -/
theorem Paced.post (h : cq.Paced) (hpost : cq.cqPostCompletion cpl = some cq') : cq'.Paced := by
  obtain ⟨hsize, hentries, _, hsize', _, htail', hphase', hposted'⟩ := cqPostCompletion_eq hpost
  have hphase := h.phase hentries
  have htail : (cq.tail + 1) % cq.size = (cq.posted.length + 1) % cq.size := by
    rw [h.tail, Nat.mod_add_mod]
  refine ⟨fun k p hk => ?_, fun k p hk hpass => ?_, ?_, fun _ => ?_⟩
  · rw [hsize']
    rw [hposted'] at hk
    by_cases hlt : k < cq.posted.length
    · rw [List.getElem?_append_left hlt] at hk
      exact h.posted k p hk
    · -- The completion just written.
      rw [List.getElem?_append_right (Nat.le_of_not_lt hlt), List.getElem?_singleton] at hk
      split_ifs at hk with hk0
      obtain rfl := Option.some.inj hk
      obtain rfl : k = cq.posted.length := by omega
      exact ⟨h.tail, hphase⟩
  · rw [hsize', hposted', List.length_append, List.length_singleton] at hpass
    rw [cqPostCompletion_entry hpost]
    rw [hposted'] at hk
    by_cases hlt : k < cq.posted.length
    · rw [List.getElem?_append_left hlt] at hk
      -- Less than a pass ago, another entry has been written.
      have hne : p.slot ≠ cq.tail := by
        rw [(h.posted k p hk).1, h.tail]
        have hadd : (k + 0) % cq.size ≠ (k + (cq.posted.length - k)) % cq.size :=
          Ring.add_mod_ne k (by omega) (by omega)
        rwa [Nat.add_zero, Nat.add_sub_of_le hlt.le] at hadd
      rw [if_neg hne]
      exact h.stored k p hk (by omega)
    · rw [List.getElem?_append_right (Nat.le_of_not_lt hlt), List.getElem?_singleton] at hk
      split_ifs at hk with hk0
      obtain rfl := Option.some.inj hk
      exact if_pos rfl
  · rw [htail', hsize', hposted', List.length_append, htail]
    rfl
  · rw [hphase', hsize', hposted', List.length_append, List.length_singleton, htail, Nat.succ_div,
      hphase]
    by_cases hwrap : (cq.posted.length + 1) % cq.size = 0
    · rw [if_pos hwrap, if_pos (Nat.dvd_of_mod_eq_zero hwrap), ← decide_not, decide_eq_decide]
      omega
    · rw [if_neg hwrap, if_neg fun hdvd => hwrap (Nat.mod_eq_zero_of_dvd hdvd), Nat.add_zero]

end Cq

/-! ## The commands that wait -/

/-- The indices of a submission queue are in the queue, and the queue has entries. -/
def Sq.Bounded (sq : Sq) : Prop :=
  sq.size = 0 ∧ sq.head = sq.tail ∨ sq.head < sq.size ∧ sq.tail < sq.size ∧ sq.entries.isSome

/-- The commands that wait in a submission queue, each with the head after it has been taken. -/
def Sq.waiting (sq : Sq) : List Fetch :=
  (List.range (Ring.dist sq.size sq.head sq.tail)).map fun k =>
    ⟨(sq.entries.getD fun _ => Command.blank) ((sq.head + k) % sq.size),
      (sq.head + k + 1) % sq.size⟩

/-- The commands that wait in a submission queue. -/
def Sq.commands (sq : Sq) : List Command := sq.waiting.map Fetch.cmd

namespace Sq

variable {sq sq' : Sq} {cmd : Command} {value : UInt32}

/-- What taking a command does. -/
theorem sqFetchCmd_eq (h : sq.sqFetchCmd = some (cmd, sq')) :
    sq.head ≠ sq.tail ∧ sq'.size = sq.size ∧ sq'.tail = sq.tail ∧ sq'.qid = sq.qid ∧
      sq'.entries = sq.entries ∧ sq'.head = (sq.head + 1) % sq.size ∧
      sq'.fetched = sq.fetched ++ [⟨cmd, sq'.head⟩] := by
  rw [sqFetchCmd] at h
  split_ifs at h with hne
  obtain ⟨entries, _, heq⟩ := Option.map_eq_some_iff.1 h
  obtain ⟨rfl, rfl⟩ := Prod.mk.inj heq
  exact ⟨hne, rfl, rfl, rfl, rfl, rfl, rfl⟩

theorem waiting_of_eq (h : sq.head = sq.tail) : sq.waiting = [] := by
  rw [waiting, h, Ring.dist_self]
  rfl

theorem create_bounded (qid qsize cqid : ℕ) : (Sq.create qid qsize cqid).Bounded := by
  by_cases h : (Sq.create qid qsize cqid).size = 0
  · exact .inl ⟨h, rfl⟩
  · exact .inr ⟨Nat.pos_of_ne_zero h, Nat.pos_of_ne_zero h, rfl⟩

theorem create_commands (qid qsize cqid : ℕ) : (Sq.create qid qsize cqid).commands = [] := by
  rw [commands, waiting_of_eq rfl]
  rfl

namespace Bounded

/-- Taking a command. -/
theorem fetch (h : sq.Bounded) (hfetch : sq.sqFetchCmd = some (cmd, sq')) :
    sq'.Bounded ∧ sq.waiting = ⟨cmd, sq'.head⟩ :: sq'.waiting := by
  rw [sqFetchCmd] at hfetch
  split_ifs at hfetch with hne
  obtain ⟨entries, hentries, heq⟩ := Option.map_eq_some_iff.1 hfetch
  obtain ⟨rfl, rfl⟩ := Prod.mk.inj heq
  rcases h with ⟨_, heq⟩ | ⟨hhead, htail, hsome⟩
  · exact absurd heq hne
  · refine ⟨.inr ⟨Nat.mod_lt _ (Nat.zero_lt_of_lt hhead), htail, hsome⟩, ?_⟩
    rw [waiting, waiting, Ring.dist_succ hhead htail hne, List.range_succ_eq_map, List.map_cons,
      List.map_map, Nat.add_zero, Nat.mod_eq_of_lt hhead, hentries]
    refine congrArg _ (List.map_congr_left fun k _ => ?_)
    have hslot := Ring.succ_add_mod sq.head k (n := sq.size)
    have hhead' := Ring.succ_add_mod sq.head (k + 1) (n := sq.size)
    rw [Function.comp_apply, Fetch.mk.injEq]
    exact ⟨congrArg _ hslot.symm, hhead'.symm⟩

theorem commands (h : sq.Bounded) (hfetch : sq.sqFetchCmd = some (cmd, sq')) :
    sq.commands = cmd :: sq'.commands := by
  rw [Sq.commands, (h.fetch hfetch).2]
  rfl

/-- No command is taken only if none waits. -/
theorem waiting_nil (h : sq.Bounded) (hfetch : sq.sqFetchCmd = none) : sq.waiting = [] := by
  rcases h with ⟨_, heq⟩ | ⟨_, _, hsome⟩
  · exact waiting_of_eq heq
  · obtain ⟨entries, hentries⟩ := Option.isSome_iff_exists.1 hsome
    rw [sqFetchCmd] at hfetch
    split_ifs at hfetch with heq
    · exact waiting_of_eq heq
    · rw [hentries] at hfetch
      cases hfetch

/-- The next command is taken if one waits. -/
theorem exists_fetch (h : sq.Bounded) (hne : sq.waiting ≠ []) :
    ∃ cmd sq', sq.sqFetchCmd = some (cmd, sq') := by
  cases hfetch : sq.sqFetchCmd with
  | none => exact absurd (h.waiting_nil hfetch) hne
  | some r => exact ⟨r.1, r.2, rfl⟩

/-- No command waits in a queue without entries. -/
theorem waiting_of_none (h : sq.Bounded) (hnone : sq.entries = none) : sq.waiting = [] := by
  rcases h with ⟨_, heq⟩ | ⟨_, _, hsome⟩
  · exact waiting_of_eq heq
  · rw [hnone] at hsome
    cases hsome

/-- The host writes the tail. -/
theorem doorbell (h : sq.Bounded) (hbell : sq.sqDoorbell value = some sq') : sq'.Bounded := by
  rw [sqDoorbell] at hbell
  split_ifs at hbell with hsize
  obtain rfl := Option.some.inj hbell
  rcases h with ⟨hzero, _⟩ | ⟨hhead, _, hsome⟩
  · exact absurd hzero hsize
  · exact .inr ⟨hhead, Nat.mod_lt _ (Nat.pos_of_ne_zero hsize), hsome⟩

/-- The host writes a command. -/
theorem hostWrite (h : sq.Bounded) (i : ℕ) : (sq.hostWrite i cmd).Bounded := by
  rcases h with h | ⟨hhead, htail, hsome⟩
  · exact .inl h
  · refine .inr ⟨hhead, htail, ?_⟩
    rw [Sq.hostWrite, Option.isSome_map]
    exact hsome

end Bounded

end Sq

/-! ## The answers to commands -/

/-- The completion `cpl` is `cpl₀` with a double word 0 and a status code. -/
def Completion.Answers (cpl₀ cpl : Completion) : Prop :=
  ∃ dw0 code, cpl = { cpl₀ with dw0 := dw0 }.setCompletionStatus code

namespace Completion

variable {cpl₀ cpl : Completion}

theorem answers_setCompletionStatus (cpl₀ : Completion) (code : UInt16) :
    cpl₀.Answers (cpl₀.setCompletionStatus code) :=
  ⟨cpl₀.dw0, code, rfl⟩

theorem answers_succeed (cpl₀ : Completion) (dw0 : UInt32) :
    cpl₀.Answers (Ctrl.succeed cpl₀ dw0) :=
  ⟨dw0, scSuccess, rfl⟩

/-- A status code is shifted by one bit, so that the phase is zero. -/
theorem setCompletionStatus_phase (cpl : Completion) (code : UInt16) :
    (cpl.setCompletionStatus code).phase = false := by
  have h : (code <<< 1) &&& 1 = 0 := by
    rw [← UInt16.toNat_inj, UInt16.toNat_and, UInt16.toNat_shiftLeft]
    show (code.toNat <<< 1 % 2 ^ 16) &&& 1 = 0
    rw [Nat.and_one_is_mod, Nat.shiftLeft_eq]
    omega
  show decide ((code <<< 1) &&& 1 = 1) = false
  rw [h]
  rfl

namespace Answers

theorem cid (h : cpl₀.Answers cpl) : cpl.cid = cpl₀.cid := by
  obtain ⟨_, _, rfl⟩ := h
  rfl

theorem sqhd (h : cpl₀.Answers cpl) : cpl.sqhd = cpl₀.sqhd := by
  obtain ⟨_, _, rfl⟩ := h
  rfl

theorem rsvd1 (h : cpl₀.Answers cpl) : cpl.rsvd1 = cpl₀.rsvd1 := by
  obtain ⟨_, _, rfl⟩ := h
  rfl

theorem phase (h : cpl₀.Answers cpl) : cpl.phase = false := by
  obtain ⟨_, _, rfl⟩ := h
  exact setCompletionStatus_phase _ _

end Answers

end Completion

namespace Firmware

theorem adminFwDownload_answers (fw : Firmware) (cmd : Command) (cpl : Completion) :
    cpl.Answers (fw.adminFwDownload cmd cpl).1 := by
  rw [adminFwDownload]
  generalize (if (cmd.cdw1011 * 4).toNat = 0 then ⟨true, 0⟩ else fw.download : FwDownload) = download
  split_ifs
  · exact cpl.answers_setCompletionStatus _
  · exact cpl.answers_setCompletionStatus _
  · exact cpl.answers_setCompletionStatus _
  · exact cpl.answers_succeed 0

theorem adminFwActivate_answers (fw : Firmware) (aer : Aer) (cmd : Command) (cpl : Completion) :
    cpl.Answers (fw.adminFwActivate aer cmd cpl).1 := by
  rw [adminFwActivate]
  dsimp only
  split_ifs
  · exact cpl.answers_setCompletionStatus _
  · exact cpl.answers_setCompletionStatus _
  · exact cpl.answers_succeed 0
  · exact cpl.answers_setCompletionStatus _
  · exact cpl.answers_setCompletionStatus _
  · exact cpl.answers_succeed 0
  · exact cpl.answers_succeed 0
  · exact cpl.answers_succeed 0

end Firmware

/-! ## The commands of the controller -/

namespace Ctrl

variable {c c' : Ctrl} {cmd : Command} {cpl : Completion}

/-- What every admin command keeps: the admin queues, and the I/O queues unless it creates a new
    one. -/
structure Kept (c c' : Ctrl) : Prop where
  initialized : c'.initialized = c.initialized
  state : c'.state = c.state
  adminSq : c'.adminSq = c.adminSq
  adminCq : c'.adminCq = c.adminCq
  ioCq : c'.ioCq = c.ioCq ∨ ∃ qid qsize vector, c'.ioCq = Cq.create qid qsize vector
  ioSq : c'.ioSq = c.ioSq ∨ ∃ qid qsize cqid, c'.ioSq = Sq.create qid qsize cqid

/-- What an admin command does to the event requests: a request for which there is a free slot
    waits there, and every other command is answered, a request with an error. -/
inductive Handled (c : Ctrl) (cmd : Command) : Completion × Ctrl → Prop
  | suspended {cpl : Completion} {c' : Ctrl} :
      cmd.opcode = 0x0C → cpl.rsvd1 = aerSuspended → cpl.cid = cmd.cid →
      c.aer.NewRequest cmd.cid c'.aer → Kept c c' → Handled c cmd (cpl, c')
  | answered {cpl : Completion} {c' : Ctrl} :
      (cmd.opcode = 0x0C → c.aer.freeSlots = 0 ∧ cpl.status = scAerLimitExceeded <<< 1) →
      ({ Completion.blank with cid := cmd.cid } : Completion).Answers cpl →
      c.aer.SameRequests c'.aer → Kept c c' → Handled c cmd (cpl, c')

theorem Handled.kept {r : Completion × Ctrl} (h : Handled c cmd r) : Kept c r.2 := by
  cases h with
  | suspended _ _ _ _ hkept => exact hkept
  | answered _ _ _ hkept => exact hkept

/-- An event leaves the event requests alone. -/
theorem postAerEvent_requests (aer : Aer) (e : AerEvent) :
    aer.SameRequests (aer.postAerEvent e).2 := by
  rw [Aer.postAerEvent]
  split_ifs <;> exact ⟨rfl, rfl, rfl⟩

theorem adminFwActivate_requests (fw : Firmware) (aer : Aer) (cmd : Command) (cpl : Completion) :
    aer.SameRequests (fw.adminFwActivate aer cmd cpl).2.2 := by
  rw [Firmware.adminFwActivate]
  dsimp only
  split_ifs
  all_goals first
    | exact ⟨rfl, rfl, rfl⟩
    | exact postAerEvent_requests aer _

theorem adminSetFeatures_handled (h : cmd.opcode ≠ 0x0C) :
    Handled c cmd (c.adminSetFeatures cmd { Completion.blank with cid := cmd.cid }) := by
  rw [adminSetFeatures]
  dsimp only
  split_ifs
  all_goals
    exact .answered (fun hop => absurd hop h) (Completion.answers_succeed _ _) ⟨rfl, rfl, rfl⟩
      ⟨rfl, rfl, rfl, rfl, .inl rfl, .inl rfl⟩

theorem adminAsyncEvent_handled (h : cmd.opcode = 0x0C) :
    Handled c cmd ((c.aer.adminAsyncEvent cmd { Completion.blank with cid := cmd.cid }).1,
      { c with aer := (c.aer.adminAsyncEvent cmd { Completion.blank with cid := cmd.cid }).2 }) := by
  rw [Aer.adminAsyncEvent]
  cases hfind : c.aer.findPending false with
  | none =>
    exact .answered (fun _ => ⟨Aer.freeSlots_eq_zero hfind, rfl⟩)
      (Completion.answers_setCompletionStatus _ _) ⟨rfl, rfl, rfl⟩
      ⟨rfl, rfl, rfl, rfl, .inl rfl, .inl rfl⟩
  | some i =>
    obtain ⟨hi, hfree⟩ := Aer.findPending_some hfind
    refine .suspended h rfl rfl ⟨Aer.freeSlots_fill hi hfree ?_ fun j hj => ?_, rfl, rfl⟩
      ⟨rfl, rfl, rfl, rfl, .inl rfl, .inl rfl⟩
    · dsimp only
      rw [Function.update_self]
    · dsimp only
      rw [Function.update_of_ne hj]

theorem Handled.ite {p : Prop} [Decidable p] {r r' : Completion × Ctrl}
    (h : p → Handled c cmd r) (h' : ¬ p → Handled c cmd r') :
    Handled c cmd (if p then r else r') := by
  split
  · exact h ‹_›
  · exact h' ‹_›

theorem processAdminCmd_handled (c : Ctrl) (cmd : Command) :
    Handled c cmd (c.processAdminCmd cmd) := by
  have hanswered {cpl : Completion} {c' : Ctrl} (h : cmd.opcode ≠ 0x0C)
      (hcpl : ({ Completion.blank with cid := cmd.cid } : Completion).Answers cpl)
      (hsame : c.aer.SameRequests c'.aer) (hkept : Kept c c') : Handled c cmd (cpl, c') :=
    .answered (fun hop => absurd hop h) hcpl hsame hkept
  have haer : c.aer.SameRequests c.aer := ⟨rfl, rfl, rfl⟩
  have hsame : Kept c c := ⟨rfl, rfl, rfl, rfl, .inl rfl, .inl rfl⟩
  have hplain (code : UInt16) (h : cmd.opcode ≠ 0x0C) : Handled c cmd
      (({ Completion.blank with cid := cmd.cid } : Completion).setCompletionStatus code, c) :=
    hanswered h (Completion.answers_setCompletionStatus _ _) haer hsame
  have hidentify : ({ Completion.blank with cid := cmd.cid } : Completion).Answers
      (adminIdentify cmd { Completion.blank with cid := cmd.cid }) := by
    rw [adminIdentify]
    split
    · exact Completion.answers_succeed _ _
    · exact ⟨0, scInvalidField, rfl⟩
  have hget : ({ Completion.blank with cid := cmd.cid } : Completion).Answers
      (c.adminGetFeatures cmd { Completion.blank with cid := cmd.cid }) := by
    rw [adminGetFeatures]
    dsimp only
    split_ifs <;> exact Completion.answers_succeed _ _
  -- The operation codes, in the order in which they are compared.
  rw [processAdminCmd]
  refine .ite (fun h => hplain _ (by rw [h]; decide)) fun _ => ?_
  refine .ite (fun h => hanswered (by rw [h]; decide) (Completion.answers_succeed _ _) haer
    ⟨rfl, rfl, rfl, rfl, .inl rfl, .inr ⟨_, _, _, rfl⟩⟩) fun _ => ?_
  refine .ite (fun h => hanswered (by rw [h]; decide) (Completion.answers_succeed _ _) haer hsame)
    fun _ => ?_
  refine .ite (fun h => hplain _ (by rw [h]; decide)) fun _ => ?_
  refine .ite (fun h => hanswered (by rw [h]; decide) (Completion.answers_succeed _ _) haer
    ⟨rfl, rfl, rfl, rfl, .inr ⟨_, _, _, rfl⟩, .inl rfl⟩) fun _ => ?_
  refine .ite (fun h => hanswered (by rw [h]; decide) hidentify haer hsame) fun _ => ?_
  refine .ite (fun h => hplain _ (by rw [h]; decide)) fun _ => ?_
  refine .ite (fun h => adminSetFeatures_handled (by rw [h]; decide)) fun _ => ?_
  refine .ite (fun h => hanswered (by rw [h]; decide) hget haer hsame) fun _ => ?_
  refine .ite adminAsyncEvent_handled fun hne => ?_
  refine .ite (fun _ => hanswered hne (Firmware.adminFwDownload_answers _ _ _) haer
    ⟨rfl, rfl, rfl, rfl, .inl rfl, .inl rfl⟩) fun _ => ?_
  refine .ite (fun _ => hanswered hne (Firmware.adminFwActivate_answers _ _ _ _)
    (adminFwActivate_requests _ _ _ _) ⟨rfl, rfl, rfl, rfl, .inl rfl, .inl rfl⟩) fun _ => ?_
  refine .ite (fun _ => hplain _ hne) fun _ => ?_
  exact .ite (fun _ => hplain _ hne) fun _ => hplain _ hne

end Ctrl

/-! ## The loops -/

/-- The completions `ps` answer the admin commands `fs` in order, with `n` free slots for event
    requests: a request for which there is a slot is not answered, and every other command is
    answered by one completion. -/
inductive AdminAnswers (R : Fetch → Post → Prop) : ℕ → List Fetch → List Post → Prop
  | nil {n : ℕ} : AdminAnswers R n [] []
  | suspended {n : ℕ} {f : Fetch} {fs : List Fetch} {ps : List Post} : f.cmd.opcode = 0x0C →
      AdminAnswers R n fs ps → AdminAnswers R (n + 1) (f :: fs) ps
  | answered {n : ℕ} {f : Fetch} {p : Post} {fs : List Fetch} {ps : List Post} :
      (f.cmd.opcode = 0x0C → n = 0) → R f p → AdminAnswers R n fs ps →
      AdminAnswers R n (f :: fs) (p :: ps)

/-- The completion reports an event to a request, the requests accepted being `accepted`: it carries
    the identifier of the request, and the event in the double word 0. -/
def Reports (accepted : List UInt16) (p : Post) (r : ℕ × Option AerEvent) : Prop :=
  accepted[r.1]? = some p.cpl.cid ∧ p.cpl.rsvd1 = 0 ∧ p.cpl.status = scSuccess <<< 1 ∧
    ∃ e, r.2 = some e ∧ p.cpl.dw0 = e.logPage.toUInt32 <<< 24 ||| (e.eventType &&& 0xFFFF)

theorem reports_completion {accepted : List UInt16} {k slot : ℕ} {phase : Bool} {cid : UInt16}
    (head : ℕ) (e : AerEvent) (hk : accepted[k]? = some cid) :
    Reports accepted ⟨slot, phase, { Completion.blank with
      cid := cid, sqhd := head
      dw0 := e.logPage.toUInt32 <<< 24 ||| (e.eventType &&& 0xFFFF)
      }.setCompletionStatus scSuccess⟩ (k, some e) :=
  ⟨hk, rfl, rfl, e, rfl, rfl⟩

/-- The completion carries the identifier of the command. -/
def SameCid (f : Fetch) (p : Post) : Prop := p.cpl.cid = f.cmd.cid

/-- The completion carries the identifier of the command, the head of the submission queue after
    the command has been taken, and the phase of the pass. -/
def Right (f : Fetch) (p : Post) : Prop :=
  p.cpl.cid = f.cmd.cid ∧ p.cpl.sqhd = f.head ∧ p.cpl.phase = p.phase

/-- The command is taken from the last entry of its queue, in a pass of phase zero. -/
def Quiet (f : Fetch) (p : Post) : Prop := f.head = 0 ∧ p.phase = false

/-- The completion carries the identifier of the command. Its head and its phase are zero. -/
def Plain (f : Fetch) (p : Post) : Prop :=
  p.cpl.cid = f.cmd.cid ∧ p.cpl.sqhd = 0 ∧ p.cpl.phase = false

theorem Plain.right_iff {f : Fetch} {p : Post} (h : Plain f p) : Right f p ↔ Quiet f p := by
  obtain ⟨hcid, hsqhd, hphase⟩ := h
  rw [Right, Quiet, hsqhd, hphase]
  exact ⟨fun hr => ⟨hr.2.1.symm, hr.2.2.symm⟩, fun hq => ⟨hcid, hq.1.symm, hq.2.symm⟩⟩

namespace AdminAnswers

variable {R R' : Fetch → Post → Prop} {n : ℕ} {fs : List Fetch} {ps : List Post}

theorem mono (h : AdminAnswers R n fs ps) (hle : ∀ f p, R f p → R' f p) :
    AdminAnswers R' n fs ps := by
  induction h with
  | nil => exact .nil
  | suspended hop _ ih => exact .suspended hop ih
  | answered hop hr _ ih => exact .answered hop (hle _ _ hr) ih

/-- The pairs of commands and completions are determined, so that a property of the pairs may be
    replaced by one that is equivalent on them. -/
theorem congr {P : Fetch → Post → Prop} (h : AdminAnswers P n fs ps)
    (hiff : ∀ f p, P f p → (R f p ↔ R' f p)) :
    AdminAnswers R n fs ps ↔ AdminAnswers R' n fs ps := by
  suffices hmp : ∀ {R R' : Fetch → Post → Prop}, (∀ f p, P f p → R f p → R' f p) →
      AdminAnswers R n fs ps → AdminAnswers R' n fs ps from
    ⟨hmp fun f p hp => (hiff f p hp).1, hmp fun f p hp => (hiff f p hp).2⟩
  intro R R' hle
  clear hiff
  induction h with
  | nil => exact fun _ => .nil
  | suspended hop _ ih =>
    intro hr
    cases hr with
    | suspended _ hr => exact .suspended hop (ih hr)
    | answered hop' => exact absurd (hop' hop) (Nat.succ_ne_zero _)
  | answered hop hp _ ih =>
    intro hr
    cases hr with
    | suspended hop' => exact absurd (hop hop') (Nat.succ_ne_zero _)
    | answered _ hr' hr => exact .answered hop (hle _ _ hp hr') (ih hr)

end AdminAnswers

namespace Ctrl

variable {c c' : Ctrl}

/-- The commands that wait in the admin queue are answered in order. -/
theorem processAdmin_answers {fuel : ℕ} (h : c.processAdmin fuel = some c')
    (hpaced : c.adminCq.Paced) (hbounded : c.adminSq.Bounded) :
    c'.adminCq.Paced ∧ c'.aer.completed = c.aer.completed ∧
      ∃ ps, c'.adminSq.fetched = c.adminSq.fetched ++ c.adminSq.waiting ∧
        c'.adminCq.posted = c.adminCq.posted ++ ps ∧
        AdminAnswers Plain c.aer.freeSlots c.adminSq.waiting ps := by
  induction fuel generalizing c with
  | zero =>
    rw [processAdmin] at h
    cases h
  | succ fuel ih =>
    rw [processAdmin] at h
    cases hfetch : c.adminSq.sqFetchCmd with
    | none =>
      rw [hfetch] at h
      obtain rfl := Option.some.inj h
      rw [hbounded.waiting_nil hfetch]
      exact ⟨hpaced, rfl, [], (List.append_nil _).symm, (List.append_nil _).symm, .nil⟩
    | some r =>
      obtain ⟨cmd, sq⟩ := r
      obtain ⟨_, _, _, _, _, _, hfetched⟩ := Sq.sqFetchCmd_eq hfetch
      obtain ⟨hbounded', hwaiting⟩ := hbounded.fetch hfetch
      rw [hfetch] at h
      dsimp only at h
      have hhandled := processAdminCmd_handled { c with adminSq := sq } cmd
      generalize ({ c with adminSq := sq } : Ctrl).processAdminCmd cmd = r at h hhandled
      obtain ⟨cpl, c₁⟩ := r
      rw [hwaiting]
      -- A request that waits for an event takes a free slot, and posts no completion.
      cases hhandled with
      | suspended hop hrsvd _ hnew hkept =>
        obtain ⟨_, _, hsq, hcq, _, _⟩ := hkept
        dsimp only at hsq hcq
        rw [if_pos hrsvd] at h
        obtain ⟨hpaced', hcompleted, ps, hfs, hps, hanswers⟩ :=
          ih h (hcq ▸ hpaced) (hsq ▸ hbounded')
        refine ⟨hpaced', hcompleted.trans hnew.completed, ps, ?_, ?_, ?_⟩
        · rw [hfs, hsq, hfetched, List.append_assoc]
          rfl
        · rw [hps, hcq]
        · rw [show c.aer.freeSlots = c₁.aer.freeSlots + 1 from hnew.freeSlots]
          exact .suspended hop (hsq ▸ hanswers)
      | answered hop hcpl hsame hkept =>
        obtain ⟨_, _, hsq, hcq, _, _⟩ := hkept
        dsimp only at hsq hcq
        have hrsvd : cpl.rsvd1 = 0 := hcpl.rsvd1
        rw [if_neg (by rw [hrsvd]; decide), hcq] at h
        cases hpost : c.adminCq.cqPostCompletion cpl with
        | none =>
          rw [hpost] at h
          cases h
        | some cq =>
          rw [hpost] at h
          obtain ⟨hpaced', hcompleted, ps, hfs, hps, hanswers⟩ :=
            ih h (hpaced.post hpost) (hsq ▸ hbounded')
          obtain ⟨_, _, _, _, _, _, _, hposted⟩ := Cq.cqPostCompletion_eq hpost
          dsimp only at hcompleted hfs hps hanswers
          refine ⟨hpaced', hcompleted.trans hsame.completed,
            ⟨c.adminCq.tail, c.adminCq.phase, cpl⟩ :: ps, ?_, ?_, ?_⟩
          · rw [hfs, hsq, hfetched, List.append_assoc]
            rfl
          · rw [hps, hposted, List.append_assoc]
            rfl
          · rw [show c₁.aer.freeSlots = c.aer.freeSlots from hsame.freeSlots, hsq] at hanswers
            exact .answered (fun h => (hop h).1) ⟨hcpl.cid, hcpl.sqhd, hcpl.phase⟩ hanswers

/-- An I/O command is answered. -/
theorem processIoCmd_answers {fuel : ℕ} {ftl ftl' : Ftl} {cmd : Command} {cpl : Completion}
    (h : processIoCmd fuel c ftl cmd = some (cpl, ftl')) :
    ({ Completion.blank with cid := cmd.cid, sqid := c.ioSq.qid } : Completion).Answers cpl := by
  rw [processIoCmd] at h
  dsimp only at h
  split_ifs at h
  · obtain ⟨r, _, heq⟩ := Option.map_eq_some_iff.1 h
    rw [← (Prod.mk.inj heq).1]
    exact Completion.answers_setCompletionStatus _ _
  · rw [← (Prod.mk.inj (Option.some.inj h)).1]
    exact Completion.answers_succeed _ _
  · rw [← (Prod.mk.inj (Option.some.inj h)).1]
    exact Completion.answers_setCompletionStatus _ _

/-- The commands that wait in the I/O queue are answered in order. -/
theorem processIo_answers {ftlFuel fuel count count' : ℕ} {ftl ftl' : Ftl}
    (h : c.processIo ftlFuel fuel count ftl = some (count', c', ftl')) (hpaced : c.ioCq.Paced)
    (hbounded : c.ioSq.Bounded) :
    c'.ioCq.Paced ∧ c'.ioSq.Bounded ∧ c'.initialized = c.initialized ∧ c'.adminSq = c.adminSq ∧
      c'.adminCq = c.adminCq ∧ c'.aer = c.aer ∧
      ∃ qs, c'.ioSq.fetched = c.ioSq.fetched ++ c.ioSq.waiting ∧
        c'.ioCq.posted = c.ioCq.posted ++ qs ∧ List.Forall₂ Plain c.ioSq.waiting qs := by
  induction fuel generalizing c count ftl with
  | zero =>
    rw [processIo] at h
    cases h
  | succ fuel ih =>
    rw [processIo] at h
    cases hfetch : c.ioSq.sqFetchCmd with
    | none =>
      rw [hfetch] at h
      obtain ⟨-, rfl, -⟩ := Prod.mk.inj (Option.some.inj h)
      rw [hbounded.waiting_nil hfetch]
      exact ⟨hpaced, hbounded, rfl, rfl, rfl, rfl, [], (List.append_nil _).symm,
        (List.append_nil _).symm, .nil⟩
    | some r =>
      obtain ⟨cmd, sq⟩ := r
      obtain ⟨_, _, _, _, _, _, hfetched⟩ := Sq.sqFetchCmd_eq hfetch
      obtain ⟨hbounded', hwaiting⟩ := hbounded.fetch hfetch
      rw [hfetch] at h
      dsimp only at h
      cases hcmd : processIoCmd ftlFuel { c with ioSq := sq } ftl cmd with
      | none =>
        rw [hcmd] at h
        cases h
      | some r =>
        obtain ⟨cpl, ftl₁⟩ := r
        have hcpl := processIoCmd_answers hcmd
        rw [hcmd] at h
        dsimp only at h
        cases hpost : c.ioCq.cqPostCompletion cpl with
        | none =>
          rw [hpost] at h
          cases h
        | some cq =>
          rw [hpost] at h
          obtain ⟨hpaced', hbounded'', hinit, hsq, hcq, haer, qs, hfs, hqs, hanswers⟩ :=
            ih h (hpaced.post hpost) hbounded'
          obtain ⟨_, _, _, _, _, _, _, hposted⟩ := Cq.cqPostCompletion_eq hpost
          refine ⟨hpaced', hbounded'', hinit, hsq, hcq, haer,
            ⟨c.ioCq.tail, c.ioCq.phase, cpl⟩ :: qs, ?_, ?_, ?_⟩
          · rw [hfs, hfetched, hwaiting, List.append_assoc]
            rfl
          · rw [hqs, hposted, List.append_assoc]
            rfl
          · rw [hwaiting]
            exact .cons ⟨hcpl.cid, hcpl.sqhd, hcpl.phase⟩ hanswers

end Ctrl

/-! ## The loops that come to an end -/

namespace Ctrl

variable {c c' : Ctrl} {ftl : Ftl}

/-- The completions of the I/O commands that wait have entries to go to. -/
def IoPostable (c : Ctrl) : Prop :=
  c.ioSq.waiting ≠ [] → c.ioCq.size ≠ 0 ∧ c.ioCq.entries.isSome

/-- More fuel leaves the result of the loop over the admin queue as it is. -/
theorem processAdmin_mono {n fuel : ℕ} (h : c.processAdmin n = some c') (hle : n ≤ fuel) :
    c.processAdmin fuel = some c' := by
  induction n generalizing c fuel with
  | zero =>
    rw [processAdmin] at h
    cases h
  | succ n ih =>
    obtain ⟨fuel, rfl⟩ := Nat.exists_eq_add_of_le' (Nat.zero_lt_of_lt hle)
    have hle' : n ≤ fuel := Nat.le_of_succ_le_succ hle
    rw [processAdmin] at h ⊢
    cases hfetch : c.adminSq.sqFetchCmd with
    | none =>
      rw [hfetch] at h
      exact h
    | some r =>
      rw [hfetch] at h
      dsimp only at h ⊢
      split at h
      · next hmark =>
        rw [if_pos hmark]
        exact ih h hle'
      · next hmark =>
        rw [if_neg hmark]
        split at h
        · cases h
        · exact ih h hle'

/-- The loop over the admin queue has one result. -/
theorem processAdmin_unique {n m : ℕ} {c₁ c₂ : Ctrl} (h₁ : c.processAdmin n = some c₁)
    (h₂ : c.processAdmin m = some c₂) : c₁ = c₂ :=
  Option.some.inj ((processAdmin_mono h₁ (Nat.le_max_left n m)).symm.trans
    (processAdmin_mono h₂ (Nat.le_max_right n m)))

/-- The loop over the I/O queue comes to an end on a lively device. -/
theorem processIo_returns {n : ℕ} (hbounded : c.ioSq.Bounded) (hcq : c.IoPostable)
    (h : ftl.Lively) (count : ℕ) (hn : c.ioSq.waiting.length = n) :
    ∃ r, ∀ᶠ fuel in atTop, ∀ m > n, c.processIo fuel m count ftl = some r := by
  induction n generalizing c ftl count with
  | zero =>
    have hnone : c.ioSq.sqFetchCmd = none := by
      by_contra hne
      obtain ⟨⟨cmd, sq⟩, hfetch⟩ := Option.ne_none_iff_exists'.1 hne
      rw [(hbounded.fetch hfetch).2] at hn
      exact absurd hn (Nat.succ_ne_zero _)
    refine ⟨(count, c, ftl), .of_forall fun fuel m hm => ?_⟩
    obtain ⟨m, rfl⟩ := Nat.exists_eq_add_of_le' hm
    rw [processIo, hnone]
  | succ n ih =>
    have hne : c.ioSq.waiting ≠ [] := fun hnil => by
      rw [hnil] at hn
      cases hn
    obtain ⟨cmd, sq, hfetch⟩ := hbounded.exists_fetch hne
    obtain ⟨hbounded', hwaiting⟩ := hbounded.fetch hfetch
    obtain ⟨⟨cpl, ftl₁⟩, hcmd⟩ := processIoCmd_returns h { c with ioSq := sq } cmd
    obtain ⟨hsize, hentries⟩ := hcq hne
    obtain ⟨cq, hpost⟩ : ∃ cq, c.ioCq.cqPostCompletion cpl = some cq := by
      obtain ⟨entries, hsome⟩ := Option.isSome_iff_exists.1 hentries
      rw [Cq.cqPostCompletion, if_neg hsize, hsome]
      exact ⟨_, rfl⟩
    obtain ⟨_, _, hentries', hsize', _⟩ := Cq.cqPostCompletion_eq hpost
    have hlively : ftl₁.Lively := hcmd.exists.elim fun _ hexec => processIoCmd_lively h hexec
    -- One command less waits, and the queue of its completion is still there.
    obtain ⟨r, hrest⟩ := @ih { c with ioSq := sq, ioCq := cq } ftl₁ hbounded'
      (fun _ => ⟨hsize' ▸ hsize, hentries'⟩) hlively (count + 1)
      (Nat.succ.inj ((congrArg List.length hwaiting).symm.trans hn))
    refine ⟨r, (hcmd.and hrest).mono fun fuel hboth m hm => ?_⟩
    obtain ⟨m, rfl⟩ := Nat.exists_eq_add_of_le' (Nat.zero_lt_of_lt hm)
    rw [processIo, hfetch]
    dsimp only
    rw [hboth.1]
    dsimp only
    rw [hpost]
    exact hboth.2 m (Nat.lt_of_succ_lt_succ hm)

/-- It comes to an end only if the completions have entries to go to. -/
theorem IoPostable.of_processIo {ftlFuel fuel count : ℕ} {r : ℕ × Ctrl × Ftl}
    (hbounded : c.ioSq.Bounded) (h : c.processIo ftlFuel fuel count ftl = some r) :
    c.IoPostable := by
  intro hne
  obtain ⟨cmd, sq, hfetch⟩ := hbounded.exists_fetch hne
  cases fuel with
  | zero =>
    rw [processIo] at h
    cases h
  | succ fuel =>
    rw [processIo, hfetch] at h
    dsimp only at h
    split at h
    · cases h
    · split at h
      · cases h
      · next hpost =>
        obtain ⟨hsize, hentries, _⟩ := Cq.cqPostCompletion_eq hpost
        exact ⟨hsize, hentries⟩

end Ctrl

/-! ## Runs -/

namespace Ctrl

variable {c c' : Ctrl}

/-- The controllers have the same queues. -/
structure SameQueues (c c' : Ctrl) : Prop where
  initialized : c'.initialized = c.initialized
  adminSq : c'.adminSq = c.adminSq
  adminCq : c'.adminCq = c.adminCq
  ioSq : c'.ioSq = c.ioSq
  ioCq : c'.ioCq = c.ioCq

/-- Comparing the temperature to its thresholds leaves the queues alone. -/
theorem tempCheckThresholds_same (c : Ctrl) : SameQueues c c.tempCheckThresholds := by
  rw [tempCheckThresholds]
  dsimp only
  split_ifs <;> exact ⟨rfl, rfl, rfl, rfl, rfl⟩

/-- Updating the temperatures leaves the queues alone. -/
theorem tickTemperature_same (c : Ctrl) (ioActivity : ℕ) :
    SameQueues c (c.tickTemperature ioActivity) := by
  rw [tickTemperature]
  dsimp only
  split_ifs
  · rw [updateTemperature]
    dsimp only
    obtain ⟨h₀, h₁, h₂, h₃, h₄⟩ := tempCheckThresholds_same _
    exact ⟨h₀, h₁, h₂, h₃, h₄⟩
  · exact ⟨rfl, rfl, rfl, rfl, rfl⟩

/-- Updating the temperatures leaves the event requests alone. -/
theorem tickTemperature_requests (c : Ctrl) (ioActivity : ℕ) :
    c.aer.SameRequests (c.tickTemperature ioActivity).aer := by
  have hcheck (c : Ctrl) : c.aer.SameRequests c.tempCheckThresholds.aer := by
    rw [tempCheckThresholds]
    dsimp only
    have hpost := postAerEvent_requests c.aer tempEvent
    split_ifs
    · exact hpost.trans (postAerEvent_requests _ tempEvent)
    · exact hpost
    · exact hpost
    · exact ⟨rfl, rfl, rfl⟩
  rw [tickTemperature]
  dsimp only
  split_ifs
  · rw [updateTemperature]
    dsimp only
    generalize List.foldl _ _ _ = r
    have hrequests := hcheck { c with temps := r.1, rand := r.2 }
    exact hrequests
  · exact ⟨rfl, rfl, rfl⟩

/-- The controller is on, its admin queues have all their entries, its completion queues are paced,
    and the indices of its queues are in bounds. -/
structure Ready (c : Ctrl) : Prop where
  initialized : c.initialized = true
  sqSize : c.adminSq.size = adminQsize
  sqHead : c.adminSq.head < adminQsize
  sqTail : c.adminSq.tail < adminQsize
  sqEntries : c.adminSq.entries.isSome
  cqSize : c.adminCq.size = adminQsize
  cqEntries : c.adminCq.entries.isSome
  adminPaced : c.adminCq.Paced
  ioPaced : c.ioCq.Paced
  ioBounded : c.ioSq.Bounded

theorem init_ready (rand : ℕ → ℕ) : (init rand).Ready where
  initialized := rfl
  sqSize := rfl
  sqHead := show 0 < adminQsize by decide
  sqTail := show 0 < adminQsize by decide
  sqEntries := rfl
  cqSize := rfl
  cqEntries := rfl
  adminPaced := Cq.create_paced _ _ _
  ioPaced := Cq.absent_paced
  ioBounded := .inl ⟨rfl, rfl⟩

namespace Ready

/-- The indices of the admin queue are in the queue. -/
theorem adminBounded (h : c.Ready) : c.adminSq.Bounded := by
  refine .inr ⟨?_, ?_, h.sqEntries⟩ <;> rw [h.sqSize]
  · exact h.sqHead
  · exact h.sqTail

theorem same (h : c.Ready) (hsame : SameQueues c c') : c'.Ready := by
  obtain ⟨h₀, h₁, h₂, h₃, h₄⟩ := hsame
  constructor
  · rw [h₀]
    exact h.initialized
  all_goals first
    | rw [h₁]
      first | exact h.sqSize | exact h.sqHead | exact h.sqTail | exact h.sqEntries
    | rw [h₂]
      first | exact h.cqSize | exact h.cqEntries | exact h.adminPaced
    | rw [h₃]
      exact h.ioBounded
    | rw [h₄]
      exact h.ioPaced

/-- Taking an admin command. -/
theorem fetch {cmd : Command} {sq : Sq} (h : c.Ready)
    (hfetch : c.adminSq.sqFetchCmd = some (cmd, sq)) : ({ c with adminSq := sq } : Ctrl).Ready := by
  obtain ⟨_, hsize, htail, _, hentries, hhead, _⟩ := Sq.sqFetchCmd_eq hfetch
  refine { h with sqSize := ?_, sqHead := ?_, sqTail := ?_, sqEntries := ?_ }
  · exact hsize.trans h.sqSize
  · show sq.head < adminQsize
    rw [hhead, h.sqSize]
    exact Nat.mod_lt _ (by decide)
  · exact htail ▸ h.sqTail
  · exact hentries ▸ h.sqEntries

/-- Executing an admin command. -/
theorem kept (h : c.Ready) (hkept : Kept c c') : c'.Ready := by
  obtain ⟨hinit, _, hsq, hcq, hio, hiosq⟩ := hkept
  constructor
  · rw [hinit]
    exact h.initialized
  · rw [hsq]
    exact h.sqSize
  · rw [hsq]
    exact h.sqHead
  · rw [hsq]
    exact h.sqTail
  · rw [hsq]
    exact h.sqEntries
  · rw [hcq]
    exact h.cqSize
  · rw [hcq]
    exact h.cqEntries
  · rw [hcq]
    exact h.adminPaced
  · rcases hio with heq | ⟨_, _, _, heq⟩ <;> rw [heq]
    · exact h.ioPaced
    · exact Cq.create_paced _ _ _
  · rcases hiosq with heq | ⟨_, _, _, heq⟩ <;> rw [heq]
    · exact h.ioBounded
    · exact Sq.create_bounded _ _ _

/-- Writing a completion to the admin queue. -/
theorem post {cpl : Completion} {cq : Cq} (h : c.Ready)
    (hpost : c.adminCq.cqPostCompletion cpl = some cq) :
    ({ c with adminCq := cq } : Ctrl).Ready := by
  obtain ⟨_, _, hentries, hsize, _⟩ := Cq.cqPostCompletion_eq hpost
  exact { h with
    cqSize := hsize.trans h.cqSize
    cqEntries := hentries
    adminPaced := h.adminPaced.post hpost }

/-- A completion can be written to the admin queue. -/
theorem exists_post (h : c.Ready) (cpl : Completion) :
    ∃ cq, c.adminCq.cqPostCompletion cpl = some cq := by
  obtain ⟨entries, hentries⟩ := Option.isSome_iff_exists.1 h.cqEntries
  rw [Cq.cqPostCompletion, h.cqSize, if_neg (by decide), hentries]
  exact ⟨_, rfl⟩

theorem processAdmin {fuel : ℕ} (h : c.Ready) (hc' : c.processAdmin fuel = some c') :
    c'.Ready := by
  induction fuel generalizing c with
  | zero =>
    rw [Ctrl.processAdmin] at hc'
    cases hc'
  | succ fuel ih =>
    rw [Ctrl.processAdmin] at hc'
    cases hfetch : c.adminSq.sqFetchCmd with
    | none =>
      rw [hfetch] at hc'
      exact Option.some.inj hc' ▸ h
    | some r =>
      obtain ⟨cmd, sq⟩ := r
      rw [hfetch] at hc'
      dsimp only at hc'
      have hready := (h.fetch hfetch).kept (processAdminCmd_handled _ cmd).kept
      split at hc'
      · exact ih hready hc'
      · split at hc'
        · cases hc'
        · next hpost => exact ih (hready.post hpost) hc'

/-- The loop over the admin queue comes to an end. -/
theorem exists_processAdmin {n : ℕ} (h : c.Ready)
    (hn : (c.adminSq.tail + adminQsize - c.adminSq.head) % adminQsize = n) :
    ∃ c', c.processAdmin (n + 1) = some c' := by
  induction n generalizing c with
  | zero =>
    have hempty : c.adminSq.head = c.adminSq.tail := by
      have hhead := h.sqHead
      have htail := h.sqTail
      simp only [adminQsize] at *
      omega
    rw [Ctrl.processAdmin, Sq.sqFetchCmd, if_pos hempty]
    exact ⟨c, rfl⟩
  | succ n ih =>
    have hhead := h.sqHead
    have htail := h.sqTail
    have hne : c.adminSq.head ≠ c.adminSq.tail := by
      simp only [adminQsize] at *
      omega
    obtain ⟨entries, hentries⟩ := Option.isSome_iff_exists.1 h.sqEntries
    have hsome : ∃ r, c.adminSq.sqFetchCmd = some r := by
      rw [Sq.sqFetchCmd, if_neg hne, hentries]
      exact ⟨_, rfl⟩
    obtain ⟨⟨cmd, sq⟩, hfetch⟩ := hsome
    obtain ⟨_, _, htail', _, _, hhead', _⟩ := Sq.sqFetchCmd_eq hfetch
    have hready := (h.fetch hfetch).kept (processAdminCmd_handled _ cmd).kept
    -- One command less is left in the queue.
    have hn' : (sq.tail + adminQsize - sq.head) % adminQsize = n := by
      rw [htail', hhead', h.sqSize]
      simp only [adminQsize] at *
      omega
    have hsq : (({ c with adminSq := sq } : Ctrl).processAdminCmd cmd).2.adminSq = sq :=
      (processAdminCmd_handled { c with adminSq := sq } cmd).kept.adminSq
    rw [Ctrl.processAdmin, hfetch]
    dsimp only
    split
    · exact ih hready (by rw [hsq]; exact hn')
    · obtain ⟨cq, hpost⟩ := hready.exists_post
        (({ c with adminSq := sq } : Ctrl).processAdminCmd cmd).1
      rw [hpost]
      exact ih (hready.post hpost) (by dsimp only; rw [hsq]; exact hn')

theorem processIo {ftlFuel fuel count count' : ℕ} {ftl ftl' : Ftl} (h : c.Ready)
    (hc' : c.processIo ftlFuel fuel count ftl = some (count', c', ftl')) : c'.Ready := by
  obtain ⟨hio, hbounded, hinit, hsq, hcq, _⟩ := processIo_answers hc' h.ioPaced h.ioBounded
  constructor
  · rw [hinit]
    exact h.initialized
  · rw [hsq]
    exact h.sqSize
  · rw [hsq]
    exact h.sqHead
  · rw [hsq]
    exact h.sqTail
  · rw [hsq]
    exact h.sqEntries
  · rw [hcq]
    exact h.cqSize
  · rw [hcq]
    exact h.cqEntries
  · rw [hcq]
    exact h.adminPaced
  · exact hio
  · exact hbounded

/-- The completions of event requests are added to the admin queue. -/
theorem aerTryComplete {n : ℕ} (h : c.Ready) (hsound : c.aer.Sound)
    (hc' : c.aerTryComplete n = some c') :
    c'.Ready ∧ c'.adminSq = c.adminSq ∧ c'.ioSq = c.ioSq ∧ c'.ioCq = c.ioCq ∧
      c'.aer.accepted = c.aer.accepted ∧ ∃ es rs, c'.adminCq.posted = c.adminCq.posted ++ es ∧
        c'.aer.completed = c.aer.completed ++ rs ∧
        List.Forall₂ (Reports c.aer.accepted) es rs := by
  induction n generalizing c with
  | zero =>
    rw [Ctrl.aerTryComplete] at hc'
    obtain rfl := Option.some.inj hc'
    exact ⟨h, rfl, rfl, rfl, rfl, [], [], (List.append_nil _).symm, (List.append_nil _).symm, .nil⟩
  | succ n ih =>
    rw [Ctrl.aerTryComplete] at hc'
    split at hc'
    · obtain rfl := Option.some.inj hc'
      exact ⟨h, rfl, rfl, rfl, rfl, [], [], (List.append_nil _).symm, (List.append_nil _).symm,
        .nil⟩
    · next cid e aer hpop =>
      dsimp only at hc'
      split at hc'
      · cases hc'
      · next cq hpost =>
        have hready := (h.post hpost).same
          (show SameQueues _ { c with adminCq := cq, aer := aer } from ⟨rfl, rfl, rfl, rfl, rfl⟩)
        obtain ⟨hready', hsq, hio, hiocq, hacc, es, rs, hes, hrs, hreports⟩ :=
          ih hready (hsound.pop hpop) hc'
        obtain ⟨_, _, _, _, _, _, _, hposted⟩ := Cq.cqPostCompletion_eq hpost
        obtain ⟨hacc', k, hk, hcompleted⟩ := hsound.pop_completed hpop
        dsimp only at hacc hes hrs hreports
        rw [hacc'] at hacc hreports
        refine ⟨hready', hsq, hio, hiocq, hacc,
          ⟨c.adminCq.tail, c.adminCq.phase, _⟩ :: es, (k, some e) :: rs, ?_, ?_,
          .cons (reports_completion c.adminSq.head e hk) hreports⟩
        · rw [hes, hposted, List.append_assoc]
          rfl
        · rw [hrs, hcompleted, List.append_assoc]
          rfl

/-- The completions of event requests can be added to the admin queue. -/
theorem exists_aerTryComplete (n : ℕ) (h : c.Ready) : ∃ c', c.aerTryComplete n = some c' := by
  induction n generalizing c with
  | zero => exact ⟨c, rfl⟩
  | succ n ih =>
    rw [Ctrl.aerTryComplete]
    split
    · exact ⟨c, rfl⟩
    · dsimp only
      split
      · next hpost =>
        obtain ⟨cq, hsome⟩ := h.exists_post _
        rw [hsome] at hpost
        cases hpost
      · next hpost => exact ih { h.post hpost with }

/-- The parts of a call that executes the commands in the queues. -/
theorem process_cases {fuel : ℕ} {ftl : Ftl} {s' : Ctrl × Ftl} (hstate : c.state = .ready)
    (h : c.Ready) (hs' : c.process fuel ftl = some s') :
    ∃ c₁ count c₂ c₃, c.processAdmin fuel = some c₁ ∧
      (c₁.processIo fuel fuel 0 ftl = some (count, c₂, s'.2) ∨
        c₁.ioSq.entries = none ∧ c₂ = c₁) ∧
      c₂.aerTryComplete c₂.aer.eventCount = some c₃ ∧ s'.1 = c₃.tickTemperature count := by
  rw [process, h.initialized, hstate, if_neg (by simp)] at hs'
  split at hs'
  · cases hs'
  · next c₁ hadmin =>
    dsimp only at hs'
    split at hs'
    · cases hs'
    · next count c₂ ftl' hio =>
      obtain ⟨c₃, haer, rfl⟩ := Option.map_eq_some_iff.1 hs'
      refine ⟨c₁, count, c₂, c₃, hadmin, ?_, haer, rfl⟩
      split_ifs at hio with hsome
      · exact .inl hio
      · exact .inr ⟨Option.not_isSome_iff_eq_none.1 hsome,
          (Prod.mk.inj (Prod.mk.inj (Option.some.inj hio)).2).1.symm⟩

/-- A call comes back if and only if the completions of the I/O commands have entries to go to, once
    the admin commands have been executed. -/
theorem process_returns_iff {n : ℕ} {c₁ : Ctrl} {ftl : Ftl} (h : c.Ready)
    (hstate : c.state = .ready) (hlively : ftl.Lively) (hadmin : c.processAdmin n = some c₁) :
    (∃ fuel s', c.process fuel ftl = some s') ↔ c₁.IoPostable := by
  have h₁ := h.processAdmin hadmin
  constructor
  · rintro ⟨fuel, s', hs'⟩
    obtain ⟨c₁', count, c₂, c₃, hadmin', hio, _⟩ := h.process_cases hstate hs'
    obtain rfl := processAdmin_unique hadmin hadmin'
    rcases hio with hio | ⟨hnone, _⟩
    · exact .of_processIo h₁.ioBounded hio
    · exact fun hne => absurd (h₁.ioBounded.waiting_of_none hnone) hne
  · intro hcq
    obtain ⟨⟨count, c₂, ftl'⟩, hloop⟩ := processIo_returns h₁.ioBounded hcq hlively 0 rfl
    -- Fuel that is enough for the three parts.
    obtain ⟨fuel, ⟨hio, hn⟩, hlen⟩ := ((hloop.and (eventually_ge_atTop n)).and
      (eventually_gt_atTop c₁.ioSq.waiting.length)).exists
    have hio := hio fuel hlen
    by_cases hsome : c₁.ioSq.entries.isSome
    · obtain ⟨c₃, hc₃⟩ := exists_aerTryComplete c₂.aer.eventCount (h₁.processIo hio)
      refine ⟨fuel, (c₃.tickTemperature count, ftl'), ?_⟩
      rw [process, h.initialized, hstate, if_neg (by simp), processAdmin_mono hadmin hn]
      dsimp only
      rw [if_pos hsome, hio]
      dsimp only
      rw [hc₃]
      rfl
    · -- There is no I/O queue.
      obtain ⟨c₃, hc₃⟩ := exists_aerTryComplete c₁.aer.eventCount h₁
      refine ⟨fuel, (c₃.tickTemperature 0, ftl), ?_⟩
      rw [process, h.initialized, hstate, if_neg (by simp), processAdmin_mono hadmin hn]
      dsimp only
      rw [if_neg hsome]
      dsimp only
      rw [hc₃]
      rfl

/-- Every call leaves a controller that is ready. -/
theorem exec {fuel : ℕ} {ftl : Ftl} {s' : Ctrl × Ftl} {call : CtrlCall} (h : c.Ready)
    (hsound : c.aer.Sound) (hs' : ctrlExec fuel (c, ftl) call = some s') : s'.1.Ready := by
  cases call with
  | hostWrite qid i cmd =>
    obtain rfl := Option.some.inj hs'
    show (c.hostWrite qid i cmd).Ready
    rw [Ctrl.hostWrite]
    split
    · refine { h with sqEntries := ?_ }
      show (c.adminSq.entries.map _).isSome
      rw [Option.isSome_map]
      exact h.sqEntries
    · exact { h with ioBounded := h.ioBounded.hostWrite i }
  | sqDoorbell qid value =>
    obtain ⟨c', hc', rfl⟩ := Option.map_eq_some_iff.1 hs'
    rw [Ctrl.sqDoorbell] at hc'
    split at hc'
    · obtain ⟨sq, hsq, rfl⟩ := Option.map_eq_some_iff.1 hc'
      rw [Sq.sqDoorbell, h.sqSize, if_neg (by decide)] at hsq
      obtain rfl := Option.some.inj hsq
      exact { h with sqSize := rfl, sqTail := Nat.mod_lt _ (by decide) }
    · obtain ⟨sq, hsq, rfl⟩ := Option.map_eq_some_iff.1 hc'
      exact { h with ioBounded := h.ioBounded.doorbell hsq }
  | cqDoorbell qid value =>
    obtain ⟨c', hc', rfl⟩ := Option.map_eq_some_iff.1 hs'
    rw [Ctrl.cqDoorbell] at hc'
    have hpaced {cq cq' : Cq} (hcq : cq.Paced) (heq : cq.cqDoorbell value = some cq') :
        cq'.Paced ∧ cq'.size = cq.size ∧ cq'.entries = cq.entries := by
      rw [Cq.cqDoorbell] at heq
      split_ifs at heq
      obtain rfl := Option.some.inj heq
      exact ⟨⟨hcq.posted, hcq.stored, hcq.tail, hcq.phase⟩, rfl, rfl⟩
    split at hc'
    · obtain ⟨cq, hcq, rfl⟩ := Option.map_eq_some_iff.1 hc'
      obtain ⟨hp, hsize, hentries⟩ := hpaced h.adminPaced hcq
      exact { h with
        cqSize := hsize.trans h.cqSize
        cqEntries := hentries ▸ h.cqEntries
        adminPaced := hp }
    · obtain ⟨cq, hcq, rfl⟩ := Option.map_eq_some_iff.1 hc'
      exact { h with ioPaced := (hpaced h.ioPaced hcq).1 }
  | writeCc value =>
    obtain rfl := Option.some.inj hs'
    exact { h with }
  | postAerEvent e =>
    obtain rfl := Option.some.inj hs'
    exact { h with }
  | process =>
    by_cases hstate : c.state = .ready
    · obtain ⟨c₁, count, c₂, c₃, hadmin, hio, haer, heq⟩ := h.process_cases hstate hs'
      have h₁ := h.processAdmin hadmin
      have h₂ : c₂.Ready := by
        rcases hio with hio | ⟨_, rfl⟩
        · exact h₁.processIo hio
        · exact h₁
      have hsound₂ : c₂.aer.Sound := by
        rcases hio with hio | ⟨_, rfl⟩
        · rw [processIo_aer hio]
          exact hsound.steps (processAdmin_aer hadmin)
        · exact hsound.steps (processAdmin_aer hadmin)
      rw [heq]
      exact (h₂.aerTryComplete hsound₂ haer).1.same (tickTemperature_same _ _)
    · change c.process fuel ftl = some s' at hs'
      rw [Ctrl.process, if_pos (.inr hstate)] at hs'
      obtain rfl := Option.some.inj hs'
      exact h

end Ready

end Ctrl

variable {s s' : Ctrl × Ftl} {tr : List (CtrlCall × Unit)} {rand : ℕ → ℕ} {ftl : Ftl}

/-- The controller is ready throughout a run, and the tables of events are sound. -/
theorem ctrl_ready (hrun : ctrlMachine.Run Machine.anyCall (Ctrl.init rand, ftl) tr s) :
    s.1.Ready ∧ s.1.aer.Sound :=
  hrun.invariant (P := fun s => s.1.Ready ∧ s.1.aer.Sound)
    ⟨Ctrl.init_ready rand, Aer.Sound.init⟩
    fun _ _ _ _ h _ hstep => hstep.elim fun _ hexec =>
      ⟨h.1.exec h.2 hexec, h.2.steps (Ctrl.exec_aer hexec)⟩

/-- What the execution of commands adds to the queues, the pairs of commands and completions
    having the property `R`. The commands that wait in the admin queue are answered by `ps`, and
    those in the I/O queue by `qs`. The completions `es` report events to requests. The admin
    commands may have created the I/O queues of `c`. -/
structure Processed (R : Fetch → Post → Prop) (s c s' : Ctrl) (ps es qs : List Post) : Prop where
  adminFetched : s'.adminSq.fetched = s.adminSq.fetched ++ s.adminSq.waiting
  adminPosted : s'.adminCq.posted = s.adminCq.posted ++ ps ++ es
  ioFetched : s'.ioSq.fetched = c.ioSq.fetched ++ c.ioSq.waiting
  ioPosted : s'.ioCq.posted = c.ioCq.posted ++ qs
  admin : AdminAnswers R s.aer.freeSlots s.adminSq.waiting ps
  io : List.Forall₂ R c.ioSq.waiting qs
  events : ∃ rs, s'.aer.completed = s.aer.completed ++ rs ∧
    List.Forall₂ (Reports s'.aer.accepted) es rs

/-- The pairs of commands and completions are determined. -/
theorem Processed.congr {P R R' : Fetch → Post → Prop} {s c s' : Ctrl} {ps es qs : List Post}
    (h : Processed P s c s' ps es qs) (hiff : ∀ f p, P f p → (R f p ↔ R' f p)) :
    Processed R s c s' ps es qs ↔ Processed R' s c s' ps es qs := by
  have hio : List.Forall₂ R c.ioSq.waiting qs ↔ List.Forall₂ R' c.ioSq.waiting qs :=
    ⟨h.io.mp fun f p hp => (hiff f p hp).1, h.io.mp fun f p hp => (hiff f p hp).2⟩
  exact ⟨fun hr => { hr with admin := (h.admin.congr hiff).1 hr.admin, io := hio.1 hr.io },
    fun hr => { hr with admin := (h.admin.congr hiff).2 hr.admin, io := hio.2 hr.io }⟩

/-- What executing the commands in the queues adds to the queues. -/
theorem Ctrl.Ready.processed {c : Ctrl} {fuel : ℕ} (h : c.Ready) (hsound : c.aer.Sound)
    (hstate : c.state = .ready) (hs' : c.process fuel ftl = some s') :
    ∃ c₁ ps es qs, c.processAdmin fuel = some c₁ ∧ Processed Plain c c₁ s'.1 ps es qs := by
  obtain ⟨c₁, count, c₂, c₃, hadmin, hio, haer, heq⟩ := h.process_cases hstate hs'
  have h₁ := h.processAdmin hadmin
  have hsound₁ := hsound.steps (Ctrl.processAdmin_aer hadmin)
  obtain ⟨_, hcompleted, ps, hfs, hps, hanswers⟩ :=
    Ctrl.processAdmin_answers hadmin h.adminPaced h.adminBounded
  have hloop : c₂.Ready ∧ c₂.adminSq = c₁.adminSq ∧ c₂.adminCq = c₁.adminCq ∧ c₂.aer = c₁.aer ∧
      ∃ qs, c₂.ioSq.fetched = c₁.ioSq.fetched ++ c₁.ioSq.waiting ∧
        c₂.ioCq.posted = c₁.ioCq.posted ++ qs ∧ List.Forall₂ Plain c₁.ioSq.waiting qs := by
    rcases hio with hio | ⟨hnone, rfl⟩
    · obtain ⟨_, _, _, hsq, hcq, haer, hqs⟩ := Ctrl.processIo_answers hio h₁.ioPaced h₁.ioBounded
      exact ⟨h₁.processIo hio, hsq, hcq, haer, hqs⟩
    · -- There is no I/O queue.
      rw [h₁.ioBounded.waiting_of_none hnone]
      exact ⟨h₁, rfl, rfl, rfl, [], (List.append_nil _).symm, (List.append_nil _).symm, .nil⟩
  obtain ⟨h₂, hsq, hcq, haer₂, qs, hgs, hqs, hio⟩ := hloop
  obtain ⟨_, hsq', hiosq', hiocq', hacc, es, rs, hes, hrs, hreports⟩ :=
    h₂.aerTryComplete (haer₂ ▸ hsound₁) haer
  have hsame := Ctrl.tickTemperature_same c₃ count
  have hrequests := Ctrl.tickTemperature_requests c₃ count
  refine ⟨c₁, ps, es, qs, hadmin, ?_, ?_, ?_, ?_, hanswers, hio, rs, ?_, ?_⟩
  · rw [heq, hsame.adminSq, hsq', hsq, hfs]
  · rw [heq, hsame.adminCq, hes, hcq, hps]
  · rw [heq, hsame.ioSq, hiosq', hgs]
  · rw [heq, hsame.ioCq, hiocq', hqs]
  · rw [heq, hrequests.completed, hrs, haer₂, hcompleted]
  · rw [heq, hrequests.accepted, hacc]
    exact hreports

/-- In every state that the controller reaches, the loop over the admin queue comes to an end, and
    so does the call, on a lively device, if and only if the completions of the I/O commands have
    entries to go to. Executing the commands in the queues answers each command that waits, in
    order, by one completion with its identifier, which goes to the next entry of the matching
    queue. The heads and the phases in the completions are right if and only if every command is
    taken from the last entry of its queue, and answered in a pass of phase zero. -/
theorem process_answers (hrun : ctrlMachine.Run Machine.anyCall (Ctrl.init rand, ftl) tr s)
    (hstate : s.1.state = .ready) :
    ∃ n c₁, s.1.processAdmin n = some c₁ ∧
      (s.2.Lively → ((∃ fuel s', s.1.process fuel s.2 = some s') ↔ c₁.IoPostable)) ∧
      ∀ fuel s', s.1.process fuel s.2 = some s' →
        s'.1.adminCq.Paced ∧ s'.1.ioCq.Paced ∧
        ∃ ps es qs, Processed SameCid s.1 c₁ s'.1 ps es qs ∧
          (Processed Right s.1 c₁ s'.1 ps es qs ↔ Processed Quiet s.1 c₁ s'.1 ps es qs) := by
  obtain ⟨h, hsound⟩ := ctrl_ready hrun
  obtain ⟨c₁, hadmin⟩ := h.exists_processAdmin rfl
  refine ⟨_, c₁, hadmin, fun hlively => h.process_returns_iff hstate hlively hadmin,
    fun fuel s' hs' => ?_⟩
  have h' : s'.1.Ready := h.exec hsound (show ctrlExec fuel (s.1, s.2) .process = some s' from hs')
  obtain ⟨c₁', ps, es, qs, hadmin', hplain⟩ := h.processed hsound hstate hs'
  obtain rfl := Ctrl.processAdmin_unique hadmin hadmin'
  have hcid : Processed SameCid s.1 c₁ s'.1 ps es qs :=
    { hplain with
      admin := hplain.admin.mono fun _ _ hp => hp.1
      io := hplain.io.imp fun _ _ hp => hp.1 }
  exact ⟨h'.adminPaced, h'.ioPaced, ps, es, qs, hcid, hplain.congr fun _ _ hp => hp.right_iff⟩

variable {allowed : Ctrl × Ftl → CtrlCall → Prop}

/-- A run goes on by any call that returns. -/
theorem ctrl_snoc {s₀ : Ctrl × Ftl} {call : CtrlCall} (fuel : ℕ)
    (hrun : ctrlMachine.Run allowed s₀ tr s) (hallowed : allowed s call)
    (h : ctrlExec fuel s call = some s') :
    ctrlMachine.Run allowed s₀ (tr ++ [(call, ())]) s' :=
  hrun.snoc hallowed ⟨fuel, h⟩

/-- A controller that has just been enabled. -/
def ctrlOn : Ctrl := (Ctrl.init fun _ => 0).writeCc 1

/-- The first command of the admin queue: a keep alive. -/
def keepAlive : Command := { Command.blank with opcode := 0x18, cid := 7 }

/-- The calls after which a command waits in the admin queue. -/
def queueCalls (cmd : Command) : List (CtrlCall × Unit) :=
  [(.writeCc 1, ()), (.hostWrite 0 0 cmd, ()), (.sqDoorbell 0 1, ())]

/-- The controller after these calls. -/
def queuedCtrl (cmd : Command) : Ctrl :=
  let c := ctrlOn.hostWrite 0 0 cmd
  { c with adminSq := { c.adminSq with tail := 1 } }

theorem queuedCtrl_run (cmd : Command) (ftl : Ftl)
    (hallowed : ∀ s, ∀ call ∈ queueCalls cmd, allowed s call.1) :
    ctrlMachine.Run allowed (Ctrl.init fun _ => 0, ftl) (queueCalls cmd) (queuedCtrl cmd, ftl) := by
  have hon : ctrlMachine.Run allowed (Ctrl.init fun _ => 0, ftl) [(.writeCc 1, ())] (ctrlOn, ftl) :=
    ctrl_snoc 0 .nil (hallowed _ (.writeCc 1, ()) (by simp [queueCalls])) rfl
  have hwrite := @ctrl_snoc _ _ _ _ _ (.hostWrite 0 0 cmd) 0 hon
    (hallowed _ (.hostWrite 0 0 cmd, ()) (by simp [queueCalls])) rfl
  exact @ctrl_snoc _ (queuedCtrl cmd, ftl) _ _ _ (.sqDoorbell 0 1) 0 hwrite
    (hallowed _ (.sqDoorbell 0 1, ()) (by simp [queueCalls])) rfl

theorem queuedCtrl_waiting (cmd : Command) : (queuedCtrl cmd).adminSq.waiting = [⟨cmd, 1⟩] := by
  have hsize : (queuedCtrl cmd).adminSq.size = 256 := rfl
  have hhead : (queuedCtrl cmd).adminSq.head = 0 := rfl
  have htail : (queuedCtrl cmd).adminSq.tail = 1 := rfl
  rw [Sq.waiting, hsize, hhead, htail, show Ring.dist 256 0 1 = 1 from rfl]
  rfl

/-- A keep alive is answered in the first entry of the completion queue. -/
theorem process_answers_keepAlive : ∃ s s' : Ctrl × Ftl,
    ctrlMachine.Run Machine.anyCall (Ctrl.init fun _ => 0, s.2)
      (queueCalls keepAlive) s ∧
    s.1.adminSq.waiting = [⟨keepAlive, 1⟩] ∧
    s.1.process 2 s.2 = some s' ∧
    s'.1.adminCq.entry 0 = some { Completion.blank with cid := 7 } ∧
    s'.1.adminCq.Paced ∧
    ∃ c₁ ps es qs, Processed SameCid s.1 c₁ s'.1 ps es qs := by
  obtain ⟨ftl⟩ : Nonempty Ftl := ⟨(Ftl.powerOn (fun _ => 0) fun _ => none).2⟩
  have hrun := @queuedCtrl_run Machine.anyCall keepAlive ftl fun _ _ _ => trivial
  obtain ⟨s', hs', hentry⟩ := Option.map_eq_some_iff.1 (rfl :
    ((queuedCtrl keepAlive).process 2 ftl).map (fun s => s.1.adminCq.entry 0) =
      some (some { Completion.blank with cid := 7 }))
  obtain ⟨_, c₁, _, _, hall⟩ := process_answers hrun rfl
  obtain ⟨hpaced, _, ps, es, qs, hcid, _⟩ := hall 2 s' hs'
  exact ⟨_, s', hrun, queuedCtrl_waiting _, hs', hentry, hpaced, c₁, ps, es, qs, hcid⟩

/-- The head and the phase of a completion may be wrong: those of the first command are. -/
theorem not_process_answers :
    ¬ ∀ rand ftl tr s fuel s', ctrlMachine.Run Machine.anyCall (Ctrl.init rand, ftl) tr s →
      s.1.state = .ready → s.1.process fuel s.2 = some s' →
      ∃ c₁ ps es qs, s.1.processAdmin fuel = some c₁ ∧
        Processed Right s.1 c₁ s'.1 ps es qs := by
  intro h
  obtain ⟨ftl⟩ : Nonempty Ftl := ⟨(Ftl.powerOn (fun _ => 0) fun _ => none).2⟩
  obtain ⟨_, ps, es, qs, _, hright⟩ := h _ ftl _ _ 2 _
    (queuedCtrl_run keepAlive ftl fun _ _ _ => trivial) rfl rfl
  -- One command has been taken, so that the head is 1, and one completion has been written.
  have hadmin := hright.admin
  rw [queuedCtrl_waiting] at hadmin
  cases hadmin with
  | suspended hop => exact absurd hop (by decide)
  | answered _ hr _ =>
    have hps := hright.adminPosted
    rw [List.append_assoc] at hps
    have hp := (List.cons.inj hps).1
    rw [← hp] at hr
    have hhead : (0 : ℕ) = 1 := hr.2.1
    exact absurd hhead (by decide)

end Nvme

end FtlFirmware
