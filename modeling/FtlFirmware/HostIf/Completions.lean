import FtlFirmware.Ftl.Answering
import FtlFirmware.HostIf.Basic

/-!
# The completions of the host interface

The books of the host (`HostBook`): the identifiers of the commands accepted, in order, and the
completions polled. The completions made so far are those polled and those in the ring
(`HostIf.completions`).

* `Tracks` holds throughout a run: the completions made, and after them the commands that wait,
  are some of those accepted, in order, and their phase tags tell the rounds of the ring;
* `completes_iff`: none is missing if and only if the ring has room for all commands that wait
  whenever they are processed. A completion that does not fit in is dropped;
* `Tracks.returns_iff`: the commands that wait are all processed if and only if none of them is a
  trim the end of whose range wraps around. Such a trim never comes back (`Wraps`).
-/

namespace FtlFirmware

open Filter
open Nvme (Buffer)

/-- The books of the host. -/
structure HostBook where
  accepted : List UInt16
  polled : List HostCqe
  counter : UInt16

namespace HostBook

/-- The books after a call and its answer. A command without an identifier gets the next number
    of the interface. -/
def next (b : HostBook) : HostCall × (RetCode × Option HostCqe) → HostBook
  | (.submitCmd cmd, (.ok, _)) =>
    { b with accepted := b.accepted ++ [if cmd.cid = 0 then b.counter else cmd.cid],
             counter := if cmd.cid = 0 then b.counter + 1 else b.counter }
  | (.pollCq, (.ok, some cqe)) => { b with polled := b.polled ++ [cqe] }
  | _ => b

end HostBook

namespace HostIf

/-- The queue of the commands that wait is `l`, and the ring of completions is valid. -/
structure Holds (s : HostIf) (l : List (ℕ × HostCmd)) : Prop where
  initialized : s.isInitialized = true
  pos : 0 < s.queueSize
  linked : Linked s.heap s.sqHead l none
  tail : s.sqTail = l.getLast?.map Prod.fst
  count : s.sqCount = l.length
  nodup : (l.map Prod.fst).Nodup
  ring : s.cq.Valid s.queueSize

/-- The completions made so far. -/
def completions (s : HostIf) (b : HostBook) : List HostCqe :=
  b.polled ++ s.cq.contents s.queueSize

/-- The phase tag of the completion `k`: whether its round of the ring is an even one. -/
def phaseOf (n k : ℕ) : Bool := decide (k / n % 2 = 0)

/-- The interface follows the books of the host. -/
structure Tracks (s : HostIf) (b : HostBook) (l : List (ℕ × HostCmd)) : Prop where
  holds : s.Holds l
  counter : s.cidCounter = b.counter
  order : ((s.completions b).map HostCqe.cid ++ l.map fun x => x.2.cid).Sublist b.accepted
  phases : ∀ k cqe, (s.completions b)[k]? = some cqe → cqe.phaseTag = phaseOf s.queueSize k
  tail : s.cq.tail = (s.completions b).length % s.queueSize
  phase : s.phaseTag = phaseOf s.queueSize (s.completions b).length

variable {s s' : HostIf} {b : HostBook} {l : List (ℕ × HostCmd)} {cmd : HostCmd} {cqe : HostCqe}
  {a fuel n : ℕ} {info : Info}

/-! ### Commands -/

/-- A command changes the memory of the host, the FTL and the features only. The FTL stays
    initialized, and it stays lively. -/
structure Executed (s s' : HostIf) : Prop where
  frame : ∃ mem ftl features, s' = { s with mem := mem, ftl := ftl, features := features }
  isInitialized : s'.ftl.isInitialized = s.ftl.isInitialized
  lively : s.ftl.Lively → s'.ftl.Lively

theorem Executed.trans {s'' : HostIf} (h : Executed s s') (h' : Executed s' s'') :
    Executed s s'' where
  frame := by
    obtain ⟨_, _, _, rfl⟩ := h.frame
    obtain ⟨mem, ftl, features, rfl⟩ := h'.frame
    exact ⟨mem, ftl, features, rfl⟩
  isInitialized := h'.isInitialized.trans h.isInitialized
  lively hlively := h'.lively (h.lively hlively)

/-- A command that leaves the FTL alone. -/
theorem Executed.of_frame (mem : Buffer) (features : UInt8 → UInt32) :
    Executed s { s with mem := mem, features := features } where
  frame := ⟨mem, s.ftl, features, rfl⟩
  isInitialized := rfl
  lively := id

theorem Executed.refl (s : HostIf) : Executed s s := .of_frame s.mem s.features

theorem Executed.read (lpn : ℕ) (buf : PageData) (mem : Buffer) :
    Executed s { s with mem := mem, ftl := (s.ftl.read lpn buf).2.2 } where
  frame := ⟨mem, _, s.features, rfl⟩
  isInitialized := Ftl.read_isInitialized lpn buf
  lively hlively := hlively.read lpn buf

theorem Executed.write {lpn : ℕ} {buf : PageData} {r : RetCode × Ftl}
    (h : s.ftl.write fuel lpn buf = some r) : Executed s { s with ftl := r.2 } where
  frame := ⟨s.mem, _, s.features, rfl⟩
  isInitialized := Ftl.write_isInitialized h
  lively hlively := hlively.of_write h

theorem Executed.trim {lpn count : UInt32} {r : RetCode × Ftl}
    (h : s.ftl.trim lpn count = some r) : Executed s { s with ftl := r.2 } where
  frame := ⟨s.mem, _, s.features, rfl⟩
  isInitialized := Ftl.trim_isInitialized h
  lively hlively := hlively.of_trim h

theorem readPages_executed (is : List ℕ) (s : HostIf) : Executed s (readPages cmd is s).2 := by
  induction is generalizing s with
  | nil => exact .refl s
  | cons i is ih =>
    rw [readPages]
    split_ifs
    · exact Executed.trans (.read _ _ _) (ih _)
    · exact .read _ _ _

theorem writePages_executed {data : Buffer → ℕ → PageData} {is : List ℕ} {r : HostStatus × HostIf}
    (h : writePages fuel cmd data is s = some r) : Executed s r.2 := by
  induction is generalizing s with
  | nil =>
    cases h
    exact .refl s
  | cons i is ih =>
    obtain ⟨w, hwrite, hw⟩ := Option.bind_eq_some_iff.1 h
    split_ifs at hw
    · exact Executed.trans (.write hwrite) (ih hw)
    · cases hw
      exact .write hwrite

/-- An admin command leaves the FTL alone. -/
theorem processAdminCmd_executed : Executed s (s.processAdminCmd info cmd).2 := by
  rw [processAdminCmd]
  split
  · rw [processIdentify]
    split_ifs <;> exact .of_frame _ _
  · rw [processGetLogPage]
    split_ifs <;> exact .of_frame _ _
  · rw [processSetFeature]
    split_ifs <;> exact .of_frame _ _
  · rw [processGetFeature]
    dsimp only
    split_ifs <;> exact .of_frame _ _
  all_goals exact .refl s

/-- A command that is executed changes neither queue. -/
theorem processCmd_executed {allocated : Bool} {r : HostStatus × HostIf}
    (h : s.processCmd info fuel allocated cmd = some r) : Executed s r.2 := by
  rw [processCmd] at h
  split_ifs at h
  · cases h
    exact processAdminCmd_executed
  · rw [processIoCmd] at h
    split at h
    · cases h
      exact readPages_executed _ s
    · exact writePages_executed h
    · rw [processWriteZeroesCmd] at h
      split_ifs at h
      · cases h
        exact .refl s
      · exact writePages_executed h
    · obtain ⟨w, htrim, rfl⟩ := Option.map_eq_some_iff.1 h
      exact .trim htrim
    all_goals
      cases h
      exact .refl s

/-! ### Commands that come back -/

/-- The command is a Dataset Management, and the end of its range wraps around. -/
def Wraps (ftl : Ftl) (cmd : HostCmd) : Prop :=
  cmd.isAdmin = false ∧ cmd.opcode = 0x09 ∧ ftl.TrimWraps cmd.slba.toUInt32 (cmd.nlb + 1)

/-- Whether a command wraps around depends on whether the FTL has been initialized only. -/
theorem Executed.wraps_iff (h : Executed s s') : Wraps s'.ftl cmd ↔ Wraps s.ftl cmd := by
  rw [Wraps, Wraps, Ftl.TrimWraps, Ftl.TrimWraps, h.isInitialized]

/-- Writing pages comes back, with any fuel that is enough. -/
theorem writePages_returns (data : Buffer → ℕ → PageData) (is : List ℕ) (h : s.ftl.Lively) :
    ∃ r, ∀ᶠ fuel in atTop, writePages fuel cmd data is s = some r := by
  induction is generalizing s with
  | nil => exact ⟨_, .of_forall fun _ => rfl⟩
  | cons i is ih =>
    obtain ⟨⟨ret, ftl⟩, hwrite, hlively⟩ := h.write (lpnOf cmd i) (data s.mem i)
    by_cases hret : ret = .ok
    · obtain ⟨r, hrest⟩ := ih (s := { s with ftl := ftl }) hlively
      refine ⟨r, (hwrite.and hrest).mono fun fuel hboth => ?_⟩
      rw [writePages, hboth.1, Option.bind_some, if_pos hret]
      exact hboth.2
    · refine ⟨(.internalError, { s with ftl := ftl }), hwrite.mono fun fuel hfirst => ?_⟩
      rw [writePages, hfirst, Option.bind_some, if_neg hret]

/-- A command comes back, with any fuel that is enough, if it does not wrap around. -/
theorem processCmd_returns (info : Info) (h : s.ftl.Lively) (hwraps : ¬ Wraps s.ftl cmd)
    (allocated : Bool) : ∃ r, ∀ᶠ fuel in atTop, s.processCmd info fuel allocated cmd = some r := by
  by_cases hadmin : cmd.isAdmin = true
  · simp only [processCmd, if_pos hadmin]
    exact ⟨_, .of_forall fun _ => rfl⟩
  simp only [processCmd, if_neg hadmin, processIoCmd]
  split
  · exact ⟨_, .of_forall fun _ => rfl⟩
  · exact writePages_returns _ _ h
  · simp only [processWriteZeroesCmd]
    split_ifs
    · exact ⟨_, .of_forall fun _ => rfl⟩
    · exact writePages_returns _ _ h
  · next hopcode =>
    obtain ⟨r, htrim⟩ := h.trim_iff.2 fun htrim =>
      hwraps ⟨Bool.eq_false_iff.2 hadmin, hopcode, htrim⟩
    exact ⟨_, .of_forall fun _ => congrArg (Option.map _) htrim⟩
  · exact ⟨_, .of_forall fun _ => rfl⟩
  · exact ⟨_, .of_forall fun _ => rfl⟩

/-- A command that wraps around does not come back. -/
theorem not_wraps (h : s.ftl.Lively) {allocated : Bool} {r : HostStatus × HostIf}
    (hexec : s.processCmd info fuel allocated cmd = some r) : ¬ Wraps s.ftl cmd := by
  rintro ⟨hadmin, hopcode, hwraps⟩
  rw [processCmd, if_neg (Bool.not_eq_true _ ▸ hadmin), processIoCmd, hopcode] at hexec
  obtain ⟨w, htrim, _⟩ := Option.map_eq_some_iff.1 hexec
  exact h.trim_iff.1 ⟨w, htrim⟩ hwraps

/-! ### The ring of completions -/

/-- The round of the ring changes where the tail goes around. -/
theorem phaseOf_succ (n k : ℕ) :
    phaseOf n (k + 1) = if (k + 1) % n = 0 then !phaseOf n k else phaseOf n k := by
  rw [phaseOf, phaseOf, Nat.succ_div]
  by_cases hdvd : n ∣ k + 1
  · rw [if_pos hdvd, if_pos (Nat.mod_eq_zero_of_dvd hdvd), ← decide_not, decide_eq_decide]
    omega
  · rw [if_neg hdvd, if_neg fun hmod => hdvd (Nat.dvd_of_mod_eq_zero hmod), Nat.add_zero]

/-- A completion that fits into the ring is the last one made. -/
theorem completions_push (hring : s.cq.Valid s.queueSize) (hroom : s.cq.count < s.queueSize)
    (hcq : s'.cq = s.cq.push s.queueSize cqe) (hsize : s'.queueSize = s.queueSize) :
    s'.completions b = s.completions b ++ [cqe] := by
  rw [completions, completions, hcq, hsize, Ring.contents_push hring hroom, List.append_assoc]

/-- What is known of the completions when one more has been made. -/
theorem Tracks.push (h : Tracks s b l) {l' : List (ℕ × HostCmd)} (cqe : HostCqe) (hs' : s'.Holds l')
    (hroom : s.cq.count < s.queueSize) (hcq : s'.cq = s.cq.push s.queueSize cqe)
    (hsize : s'.queueSize = s.queueSize) (hcounter : s'.cidCounter = s.cidCounter)
    (hphase : cqe.phaseTag = s.phaseTag) (hflip : s'.phaseTag =
      if s'.cq.tail = 0 then !s.phaseTag else s.phaseTag)
    (hcid : l.map (fun x => x.2.cid) = cqe.cid :: l'.map fun x => x.2.cid) :
    Tracks s' b l' := by
  have hmade := completions_push (b := b) h.holds.ring hroom hcq hsize
  have htail : s'.cq.tail = (s'.completions b).length % s'.queueSize := by
    rw [hcq, hmade, hsize, List.length_append, List.length_singleton]
    change (s.cq.tail + 1) % s.queueSize = _
    rw [h.tail, Nat.mod_add_mod]
  refine ⟨hs', hcounter.trans h.counter, ?_, fun k cqe' hk => ?_, htail, ?_⟩
  · have horder := h.order
    rw [hcid] at horder
    rw [hmade, List.map_append, List.map_singleton, List.append_assoc]
    exact horder
  · rw [hmade] at hk
    rw [hsize]
    by_cases hlt : k < (s.completions b).length
    · rw [List.getElem?_append_left hlt] at hk
      exact h.phases k cqe' hk
    · -- The one made last has the phase tag of its place.
      rw [List.getElem?_append_right (Nat.le_of_not_lt hlt),
        List.getElem?_singleton] at hk
      split_ifs at hk with hlast
      rw [← Option.some_inj.1 hk, hphase, h.phase,
        Nat.le_antisymm (Nat.le_of_sub_eq_zero hlast) (Nat.le_of_not_lt hlt)]
  · rw [hflip, htail, h.phase, hmade, hsize, List.length_append, List.length_singleton,
      phaseOf_succ]

/-- What is known of the completions when none has been made. -/
theorem Tracks.keep (h : Tracks s b l) {l' : List (ℕ × HostCmd)} (hs' : s'.Holds l')
    (hcq : s'.cq = s.cq) (hsize : s'.queueSize = s.queueSize)
    (hcounter : s'.cidCounter = s.cidCounter) (hphase : s'.phaseTag = s.phaseTag)
    (hsub : (l'.map fun x => x.2.cid).Sublist (l.map fun x => x.2.cid)) : Tracks s' b l' := by
  have hmade : s'.completions b = s.completions b := by rw [completions, completions, hcq, hsize]
  refine ⟨hs', hcounter.trans h.counter, ?_, fun k cqe' hk => ?_, ?_, ?_⟩
  · rw [hmade]
    exact (hsub.append_left _).trans h.order
  · rw [hsize]
    exact h.phases k cqe' (hmade ▸ hk)
  · rw [hcq, hmade, hsize, h.tail]
  · rw [hphase, hmade, hsize, h.phase]

/-! ### Processing -/

/-- A command is processed: its completion is made, if there is room. -/
theorem Tracks.processOne {x : ℕ × HostCmd} (h : Tracks s b (x :: l)) {allocated : Bool}
    (hp : s.processOne info fuel allocated = some s') :
    Tracks s' b l ∧ s'.queueSize = s.queueSize ∧
      (s.cq.count < s.queueSize → s'.cq.count = s.cq.count + 1) := by
  obtain ⟨t, ht, hp⟩ := Option.bind_eq_some_iff.1 hp
  obtain ⟨r, hr, rfl⟩ := Option.map_eq_some_iff.1 hp
  obtain ⟨hhead, next, hx, hlinked⟩ := h.holds.linked
  obtain ⟨hxl, hnodup⟩ := List.nodup_cons.1 h.holds.nodup
  rw [takeCmd, hhead, Option.bind_some, hx, Option.map_some, Option.some_inj] at ht
  subst ht
  obtain ⟨mem, ftl, features, hexec⟩ := (processCmd_executed hr).frame
  obtain ⟨status, s₁⟩ := r
  dsimp only at hexec
  subst hexec
  -- The queue without its first command, whatever becomes of the ring.
  have hcount : s.sqCount - 1 = l.length := by rw [h.holds.count]; rfl
  have htail : (if next = none then none else s.sqTail) = l.getLast?.map Prod.fst := by
    cases l with
    | nil =>
      rw [if_pos (linked_nil.1 hlinked)]
      rfl
    | cons y l =>
      rw [if_neg fun hnone => absurd (hlinked.eq_nil_iff.1 hnone) (List.cons_ne_nil y l),
        h.holds.tail, List.getLast?_cons_cons]
  have hheap := hlinked.update (x := none) hxl
  by_cases hroom : s.cq.count < s.queueSize
  · rw [addCqe, if_neg (Nat.not_le_of_lt hroom)]
    refine ⟨h.push ⟨_, 0, x.2.cid, status, s.phaseTag⟩
      ⟨h.holds.initialized, h.holds.pos, hheap, htail, hcount, hnodup, h.holds.ring.push hroom _⟩
      hroom rfl rfl rfl rfl rfl rfl, rfl, fun _ => rfl⟩
  · rw [addCqe, if_pos (Nat.le_of_not_lt hroom)]
    exact ⟨h.keep ⟨h.holds.initialized, h.holds.pos, hheap, htail, hcount, hnodup, h.holds.ring⟩
      rfl rfl rfl rfl (List.sublist_cons_self _ _), rfl, fun hlt => absurd hlt hroom⟩

/-- All commands are processed: their completions are made, if there is room for them. -/
theorem Tracks.processAll (h : Tracks s b l) {allocated : ℕ → Bool}
    (hp : processAll info fuel n allocated s = some s') :
    Tracks s' b [] ∧ s'.queueSize = s.queueSize ∧
      (s.cq.count + l.length ≤ s.queueSize → s'.cq.count = s.cq.count + l.length) := by
  induction n generalizing s l allocated with
  | zero =>
    rw [HostIf.processAll] at hp
    split_ifs at hp with hzero
    cases hp
    obtain rfl : l = [] := List.length_eq_zero_iff.1 (h.holds.count.symm.trans hzero)
    exact ⟨h, rfl, fun _ => rfl⟩
  | succ n ih =>
    rw [HostIf.processAll] at hp
    split_ifs at hp with hzero
    · cases hp
      obtain rfl : l = [] := List.length_eq_zero_iff.1 (h.holds.count.symm.trans hzero)
      exact ⟨h, rfl, fun _ => rfl⟩
    · obtain ⟨s₁, hone, hp⟩ := Option.bind_eq_some_iff.1 hp
      cases l with
      | nil => exact absurd h.holds.count hzero
      | cons x l =>
        obtain ⟨h₁, hsize, hmade⟩ := h.processOne hone
        obtain ⟨h', hsize', hmade'⟩ := ih h₁ hp
        refine ⟨h', hsize'.trans hsize, fun hroom => ?_⟩
        rw [List.length_cons] at hroom ⊢
        have hone := hmade (by omega)
        rw [hmade' (by omega), hone]
        omega

/-- A completion leaves the FTL alone. -/
theorem addCqe_ftl (cqe : HostCqe) : (s.addCqe cqe).2.ftl = s.ftl := by
  rw [addCqe]
  split_ifs <;> rfl

/-- The first command comes back, with any fuel that is enough, if it does not wrap around. -/
theorem Holds.processOne_returns {x : ℕ × HostCmd} (info : Info) (h : s.Holds (x :: l))
    (hlively : s.ftl.Lively) (hwraps : ¬ Wraps s.ftl x.2) (allocated : Bool) :
    ∃ s', ∀ᶠ fuel in atTop, s.processOne info fuel allocated = some s' := by
  obtain ⟨hhead, next, hx, -⟩ := h.linked
  simp only [processOne, takeCmd, hhead, Option.bind_some, hx, Option.map_some]
  obtain ⟨r, hr⟩ := processCmd_returns info
    (s := { s with
      sqHead := next
      sqCount := s.sqCount - 1
      sqTail := if next = none then none else s.sqTail }) hlively hwraps allocated
  exact ⟨_, hr.mono fun fuel hfuel => congrArg (Option.map _) hfuel⟩

/-- If it has come back, it does not wrap around, and the FTL stays lively and initialized. -/
theorem Holds.processOne_ftl {x : ℕ × HostCmd} (h : s.Holds (x :: l)) (hlively : s.ftl.Lively)
    {allocated : Bool} (hp : s.processOne info fuel allocated = some s') :
    ¬ Wraps s.ftl x.2 ∧ s'.ftl.Lively ∧ ∀ cmd, Wraps s'.ftl cmd ↔ Wraps s.ftl cmd := by
  obtain ⟨hhead, next, hx, -⟩ := h.linked
  obtain ⟨t, ht, hp⟩ := Option.bind_eq_some_iff.1 hp
  obtain ⟨r, hr, rfl⟩ := Option.map_eq_some_iff.1 hp
  rw [takeCmd, hhead, Option.bind_some, hx, Option.map_some, Option.some_inj] at ht
  subst ht
  have hexec := processCmd_executed hr
  dsimp only
  rw [addCqe_ftl]
  exact ⟨not_wraps (s := { s with
    sqHead := next
    sqCount := s.sqCount - 1
    sqTail := if next = none then none else s.sqTail }) hlively hr, hexec.lively hlively,
    fun _ => hexec.wraps_iff⟩

/-- All commands come back, with any fuel that is enough, if none of them wraps around. -/
theorem Tracks.processAll_returns (info : Info) (h : Tracks s b l) (hlively : s.ftl.Lively)
    (hwraps : ∀ x ∈ l, ¬ Wraps s.ftl x.2) (allocated : ℕ → Bool) :
    ∃ s', ∀ᶠ fuel in atTop, ∀ n, l.length ≤ n →
      HostIf.processAll info fuel n allocated s = some s' := by
  induction l generalizing s allocated with
  | nil =>
    refine ⟨s, .of_forall fun fuel n _ => ?_⟩
    have hzero : s.sqCount = 0 := h.holds.count
    cases n with
    | zero => rw [HostIf.processAll, if_pos hzero]
    | succ n => rw [HostIf.processAll, if_pos hzero]
  | cons x l ih =>
    obtain ⟨hx, hl⟩ := List.forall_mem_cons.1 hwraps
    obtain ⟨s₁, hone⟩ := h.holds.processOne_returns info hlively hx (allocated 0)
    obtain ⟨fuel₁, hexec⟩ := hone.exists
    obtain ⟨-, hlively₁, hsame⟩ := h.holds.processOne_ftl hlively hexec
    obtain ⟨s', hrest⟩ := ih (h.processOne hexec).1 hlively₁
      (fun y hy hyw => hl y hy ((hsame _).1 hyw)) fun i => allocated (i + 1)
    refine ⟨s', (hone.and hrest).mono fun fuel hboth n hn => ?_⟩
    obtain ⟨m, rfl⟩ := Nat.exists_eq_add_of_lt hn
    have hpos : s.sqCount ≠ 0 := by
      rw [h.holds.count]
      exact Nat.succ_ne_zero _
    rw [HostIf.processAll, if_neg hpos, hboth.1, Option.bind_some]
    exact hboth.2 _ (Nat.le_add_right _ _)

/-- If all commands have come back, none of them wraps around. -/
theorem Tracks.processAll_ftl (h : Tracks s b l) (hlively : s.ftl.Lively) {allocated : ℕ → Bool}
    (hp : HostIf.processAll info fuel n allocated s = some s') :
    (∀ x ∈ l, ¬ Wraps s.ftl x.2) ∧ s'.ftl.Lively := by
  induction l generalizing s n allocated with
  | nil =>
    have hzero : s.sqCount = 0 := h.holds.count
    refine ⟨fun x hx => absurd hx List.not_mem_nil, ?_⟩
    cases n with
    | zero =>
      rw [HostIf.processAll, if_pos hzero] at hp
      exact Option.some.inj hp ▸ hlively
    | succ n =>
      rw [HostIf.processAll, if_pos hzero] at hp
      exact Option.some.inj hp ▸ hlively
  | cons x l ih =>
    have hpos : s.sqCount ≠ 0 := by
      rw [h.holds.count]
      exact Nat.succ_ne_zero _
    cases n with
    | zero =>
      rw [HostIf.processAll, if_neg hpos] at hp
      cases hp
    | succ n =>
      rw [HostIf.processAll, if_neg hpos] at hp
      obtain ⟨s₁, hone, hp⟩ := Option.bind_eq_some_iff.1 hp
      obtain ⟨hx, hlively₁, hsame⟩ := h.holds.processOne_ftl hlively hone
      obtain ⟨hl, hlively'⟩ := ih (h.processOne hone).1 hlively₁ hp
      exact ⟨List.forall_mem_cons.2 ⟨hx, fun y hy hyw => hl y hy ((hsame _).2 hyw)⟩, hlively'⟩

/-- Processing comes back if and only if none of the commands that wait wraps around. -/
theorem Tracks.process_iff (h : Tracks s b l) (hlively : s.ftl.Lively) :
    (∃ a s', (machine info).step s .process a s') ↔ ∀ x ∈ l, ¬ Wraps s.ftl x.2 := by
  have hon : ¬(!s.isInitialized) = true := by simp [h.holds.initialized]
  constructor
  · rintro ⟨a, s', fuel, address, allocated, -, hexec⟩
    obtain ⟨r, hr, -⟩ := Option.map_eq_some_iff.1 hexec
    rw [process, if_neg hon] at hr
    obtain ⟨s₁, hall, -⟩ := Option.map_eq_some_iff.1 hr
    exact (h.processAll_ftl hlively hall).1
  · intro hwraps
    obtain ⟨s', hall⟩ := h.processAll_returns info hlively hwraps fun _ => true
    obtain ⟨fuel, hfuel, hle⟩ := (hall.and (eventually_ge_atTop l.length)).exists
    refine ⟨(.ok, none), s', fuel, none, fun _ => true, fun a ha => ?_, ?_⟩
    · exact absurd ha (Option.not_mem_none a)
    · rw [HostIf.exec, process, if_neg hon, hfuel fuel hle]
      rfl

/-! ### Submitting and polling -/

/-- The pointer to the last node. -/
theorem Holds.tail_concat {e : ℕ} {w : HostCmd} (h : s.Holds (l ++ [(e, w)])) :
    s.sqTail = some e := by
  rw [h.tail, List.getLast?_append, List.getLast?_singleton, Option.some_or, Option.map_some]

/-- A command is submitted: it waits behind the others. -/
theorem Tracks.submitCmd (h : Tracks s b l) {address : Option ℕ} (hfree : s.Free address)
    {r : RetCode × HostIf} (hr : s.submitCmd address cmd = some r) :
    (r.1 ≠ .ok ∧ r.2 = s) ∨ (r.1 = .ok ∧ r.2.cq = s.cq ∧ r.2.queueSize = s.queueSize ∧
      ∃ l', Tracks r.2 (b.next (.submitCmd cmd, (.ok, none))) l' ∧ l'.length = l.length + 1) := by
  unfold HostIf.submitCmd at hr
  rw [if_neg (by simp [h.holds.initialized])] at hr
  by_cases hspace : s.queueSize ≤ s.sqCount
  · rw [if_pos hspace] at hr
    cases hr
    exact Or.inl ⟨RetCode.noConfusion, rfl⟩
  rw [if_neg hspace] at hr
  cases address with
  | none =>
    cases hr
    exact Or.inl ⟨RetCode.noConfusion, rfl⟩
  | some a =>
    refine Or.inr ?_
    dsimp only at hr
    generalize hnumbered : (if cmd.cid = 0 then { cmd with cid := s.cidCounter } else cmd) =
      numbered at hr
    have hcid : numbered.cid = if cmd.cid = 0 then b.counter else cmd.cid := by
      rw [← hnumbered, ← h.counter]
      split_ifs <;> rfl
    have ha : a ∉ l.map Prod.fst := h.holds.linked.notMem (hfree a rfl)
    have hnodup : ((l ++ [(a, numbered)]).map Prod.fst).Nodup := by
      rw [List.map_append, List.nodup_append_comm]
      exact List.nodup_cons.2 ⟨ha, h.holds.nodup⟩
    -- Whichever way the node is linked, the books are kept.
    have hbooks : ∀ s', s'.Holds (l ++ [(a, numbered)]) → s'.cq = s.cq →
        s'.queueSize = s.queueSize → s'.phaseTag = s.phaseTag →
        s'.cidCounter = (if cmd.cid = 0 then s.cidCounter + 1 else s.cidCounter) →
        Tracks s' (b.next (.submitCmd cmd, (.ok, none))) (l ++ [(a, numbered)]) := by
      intro s' hs' hcq hsize hphase hcounter
      have hmade : s'.completions (b.next (.submitCmd cmd, (.ok, none))) = s.completions b := by
        rw [completions, completions, hcq, hsize]
        rfl
      refine ⟨hs', ?_, ?_, fun k cqe hk => ?_, ?_, ?_⟩
      · rw [hcounter, h.counter]
        rfl
      · rw [hmade, List.map_append, ← List.append_assoc, List.map_singleton, hcid]
        exact h.order.append (List.Sublist.refl _)
      · rw [hsize]
        exact h.phases k cqe (hmade ▸ hk)
      · rw [hcq, hmade, hsize, h.tail]
      · rw [hphase, hmade, hsize, h.phase]
    have hcount : s.sqCount + 1 = (l ++ [(a, numbered)]).length := by
      rw [h.holds.count, List.length_append, List.length_singleton]
    have hlinked := h.holds.linked.update (x := some ⟨numbered, none⟩) ha
    cases hhead : s.sqHead with
    | none =>
      obtain rfl : l = [] := h.holds.linked.eq_nil_iff.1 hhead
      rw [hhead] at hr
      cases hr
      refine ⟨rfl, rfl, rfl, _, hbooks _ ⟨h.holds.initialized, h.holds.pos, ?_, rfl, hcount, hnodup,
        h.holds.ring⟩ rfl rfl rfl rfl, rfl⟩
      exact ⟨rfl, none, Function.update_self .., rfl⟩
    | some head =>
      rcases List.eq_nil_or_concat l with rfl | ⟨t, ⟨e, w⟩, rfl⟩
      · rw [h.holds.linked.eq_nil_iff.2 rfl] at hhead
        exact absurd hhead.symm (Option.some_ne_none head)
      · rw [List.concat_eq_append] at *
        have htail : s.sqTail = some e := h.holds.tail_concat
        have he : e ∉ t.map Prod.fst := by
          have hnodup := h.holds.nodup
          rw [List.map_append, List.nodup_append_comm] at hnodup
          exact (List.nodup_cons.1 hnodup).1
        have hea : a ≠ e := by
          rintro rfl
          exact ha (by simp)
        rw [hhead] at hr
        dsimp only at hr
        rw [htail, Option.bind_some, hlinked.setNext_eq, Option.map_some, Option.some_inj] at hr
        subst hr
        refine ⟨rfl, rfl, rfl, _, hbooks _ ⟨h.holds.initialized, h.holds.pos, ?_, ?_, hcount,
          hnodup, h.holds.ring⟩ rfl rfl rfl rfl, ?_⟩
        · rw [hhead] at hlinked
          exact hlinked.insert_after (linked_nil.2 rfl) (Function.update_self ..) he
            List.not_mem_nil hea
        · rw [List.getLast?_append, List.getLast?_singleton, Option.some_or, Option.map_some]
        · rw [List.length_append, List.length_singleton]

/-- A command is accepted if there is room for it, and memory for its node. -/
theorem Holds.accepts (h : s.Holds l) (hroom : s.sqCount < s.queueSize) (ha : s.heap a = none)
    (cmd : HostCmd) : ∃ s', s.submitCmd (some a) cmd = some (.ok, s') := by
  unfold HostIf.submitCmd
  rw [if_neg (by simp [h.initialized]), if_neg (Nat.not_le_of_lt hroom)]
  dsimp only
  cases hhead : s.sqHead with
  | none => exact ⟨_, rfl⟩
  | some head =>
    rcases List.eq_nil_or_concat l with rfl | ⟨t, ⟨e, w⟩, rfl⟩
    · rw [h.linked.eq_nil_iff.2 rfl] at hhead
      exact absurd hhead.symm (Option.some_ne_none head)
    · rw [List.concat_eq_append] at h
      dsimp only
      rw [h.tail_concat, Option.bind_some, (h.linked.update (h.linked.notMem ha)).setNext_eq]
      exact ⟨_, rfl⟩

/-- A command that is submitted leaves the FTL alone. -/
theorem submitCmd_ftl {address : Option ℕ} {r : RetCode × HostIf}
    (h : s.submitCmd address cmd = some r) : r.2.ftl = s.ftl := by
  unfold HostIf.submitCmd at h
  split at h
  · cases h
    rfl
  split at h
  · cases h
    rfl
  cases address with
  | none =>
    cases h
    rfl
  | some a =>
    dsimp only at h
    split at h
    · cases h
      rfl
    · obtain ⟨tail, _, h⟩ := Option.bind_eq_some_iff.1 h
      obtain ⟨heap, _, rfl⟩ := Option.map_eq_some_iff.1 h
      rfl

/-- The host polls: the first completion of the ring, if any, goes to it. -/
theorem Tracks.pollCq (h : Tracks s b l) :
    Tracks s.pollCq.2 (b.next (.pollCq, s.pollCq.1)) l ∧
      s.pollCq.2.queueSize = s.queueSize ∧ s.pollCq.2.sqCount = s.sqCount ∧
      (b.next (.pollCq, s.pollCq.1)).accepted = b.accepted ∧
      (s.pollCq.2.completions (b.next (.pollCq, s.pollCq.1))).length =
        (s.completions b).length := by
  rw [HostIf.pollCq, if_neg (by simp [h.holds.initialized])]
  by_cases hzero : s.cq.count = 0
  · rw [if_pos hzero]
    exact ⟨h, rfl, rfl, rfl, rfl⟩
  · rw [if_neg hzero]
    have hpos := Nat.pos_of_ne_zero hzero
    have hmade : HostIf.completions { s with cq := s.cq.pop s.queueSize }
        { b with polled := b.polled ++ [s.cq.slots s.cq.head] } = s.completions b := by
      rw [completions, completions, Ring.contents_pop h.holds.ring hpos, List.append_assoc]
      rfl
    refine ⟨⟨{ h.holds with ring := h.holds.ring.pop hpos }, h.counter, ?_, ?_, ?_, ?_⟩, rfl, rfl,
      rfl, congrArg List.length hmade⟩
    · exact hmade ▸ h.order
    · exact hmade ▸ h.phases
    · exact hmade ▸ h.tail
    · exact hmade ▸ h.phase

/-! ### Runs -/

/-- There is room in the ring for the completions of all commands that wait, when they are
    processed. -/
def Roomy : HostIf → HostCall → Prop
  | s, .process => s.cq.count + s.sqCount ≤ s.queueSize
  | _, _ => True

/-- What a call does to the queues besides: a command that is refused changes nothing; when the
    commands have been processed, none of them waits; and a poll gives the oldest completion that is
    left. -/
def Handled (s : HostIf) (a : RetCode × Option HostCqe) (s' : HostIf) : HostCall → Prop
  | .submitCmd _ => a.1 = .ok ∨ s' = s
  | .process => a = (.ok, none) ∧ s'.sqHead = none ∧ s'.sqCount = 0
  | .pollCq => s.cq.contents s.queueSize = [] ∧ a = (.errBusy, none) ∨
      ∃ cqe, a = (.ok, some cqe) ∧
        s.cq.contents s.queueSize = cqe :: s'.cq.contents s'.queueSize
  | .store _ => True

/-- The command that waits is a Dataset Management the end of whose range wraps around. -/
def Overruns (s : HostIf) : Prop :=
  ∃ l, Linked s.heap s.sqHead l none ∧ ∃ x ∈ l, Wraps s.ftl x.2

/-- The books of a run from `s` on. -/
def book (s : HostIf) (tr : List (HostCall × (RetCode × Option HostCqe))) : HostBook :=
  tr.foldl HostBook.next ⟨[], [], s.cidCounter⟩

/-- Every command accepted has been completed or waits, once and in order, and the completions
    carry the phase tags of their places. -/
structure Completes (s : HostIf) (b : HostBook) : Prop where
  inOrder : ∃ l, Linked s.heap s.sqHead l none ∧
    ((s.completions b).map HostCqe.cid ++ l.map fun x => x.2.cid) = b.accepted
  phases : ∀ k cqe, (s.completions b)[k]? = some cqe → cqe.phaseTag = phaseOf s.queueSize k

/-- As many commands have been completed or wait as have been accepted. -/
def Full (s : HostIf) (b : HostBook) : Prop :=
  (s.completions b).length + s.sqCount = b.accepted.length

namespace Tracks

/-- No more commands have been completed or wait than have been accepted. -/
theorem le (h : Tracks s b l) : (s.completions b).length + s.sqCount ≤ b.accepted.length := by
  have hle := h.order.length_le
  rwa [List.length_append, List.length_map, List.length_map, ← h.holds.count] at hle

/-- None is missing if their numbers agree. -/
theorem completes_iff_full (h : Tracks s b l) : Completes s b ↔ Full s b := by
  constructor
  · rintro ⟨⟨l', hl', heq⟩, -⟩
    rw [Full, ← heq, List.length_append, List.length_map, List.length_map, h.holds.count,
      h.holds.linked.unique hl']
  · intro hfull
    refine ⟨⟨l, h.holds.linked, h.order.eq_of_length ?_⟩, h.phases⟩
    rw [List.length_append, List.length_map, List.length_map, ← h.holds.count, hfull]

/-- Each call keeps the books, and no command goes missing but where the ring has no room. -/
theorem exec (h : Tracks s b l) {c : HostCall} {a : RetCode × Option HostCqe}
    (hstep : (machine info).step s c a s') : ∃ l', Tracks s' (b.next (c, a)) l' ∧
      (Full s' (b.next (c, a)) ↔ Full s b ∧ Roomy s c) := by
  obtain ⟨fuel, address, allocated, hfree, hexec⟩ := hstep
  cases c with
  | submitCmd cmd =>
    obtain ⟨r, hr, heq⟩ := Option.map_eq_some_iff.1 hexec
    cases heq
    rcases h.submitCmd hfree hr with ⟨hret, hs⟩ | ⟨hret, hcq, hsize, l', h', hlen⟩
    · have hnext : b.next (.submitCmd cmd, (r.1, none)) = b := by
        cases hcase : r.1 <;> first | exact absurd hcase hret | rfl
      rw [hnext, hs]
      exact ⟨l, h, (and_iff_left trivial).symm⟩
    · rw [hret]
      refine ⟨l', h', ?_⟩
      have hmade : (r.2.completions (b.next (.submitCmd cmd, (.ok, none)))).length =
          (s.completions b).length := by
        rw [completions, completions, hcq, hsize]
        rfl
      have haccepted : (b.next (.submitCmd cmd, (.ok, none))).accepted.length =
          b.accepted.length + 1 := List.length_append
      rw [Full, Full, hmade, haccepted, h'.holds.count, hlen, h.holds.count, ← Nat.add_assoc,
        Nat.add_right_cancel_iff]
      exact (and_iff_left trivial).symm
  | process =>
    obtain ⟨r, hr, heq⟩ := Option.map_eq_some_iff.1 hexec
    cases heq
    rw [process, if_neg (by simp [h.holds.initialized])] at hr
    obtain ⟨s', hall, rfl⟩ := Option.map_eq_some_iff.1 hr
    obtain ⟨h', hsize, hmade⟩ := h.processAll hall
    refine ⟨[], h', ?_⟩
    have hle := h.le
    have hring := h'.holds.ring.count_le
    have hlen : ∀ s : HostIf, (s.completions b).length = b.polled.length + s.cq.count := fun s => by
      rw [completions, List.length_append, Ring.length_contents]
    rw [← h.holds.count] at hmade
    change (s'.completions b).length + s'.sqCount = b.accepted.length ↔
      (s.completions b).length + s.sqCount = b.accepted.length ∧
        s.cq.count + s.sqCount ≤ s.queueSize
    have hnone : s'.sqCount = 0 := h'.holds.count
    rw [hlen, hnone, hlen]
    rw [hlen] at hle
    rw [hsize] at hring
    constructor
    · -- What is made must fit into the ring.
      intro hfull
      have hroom : s.cq.count + s.sqCount ≤ s.queueSize := by omega
      have hcount := hmade hroom
      exact ⟨by omega, hroom⟩
    · rintro ⟨hfull, hroom⟩
      rw [hmade hroom]
      omega
  | pollCq =>
    obtain ⟨h', hsize, hcount, haccepted, hmade⟩ := h.pollCq
    rw [Option.some_inj.1 hexec] at h' hsize hcount haccepted hmade
    refine ⟨l, h', ?_⟩
    rw [Full, hmade, hcount, haccepted]
    exact (and_iff_left trivial).symm
  | store mem =>
    cases hexec
    exact ⟨l, ⟨{ h.holds with }, h.counter, h.order, h.phases, h.tail, h.phase⟩,
      (and_iff_left trivial).symm⟩

/-- Each call treats the queues as it should. -/
theorem handled (h : Tracks s b l) {c : HostCall} {a : RetCode × Option HostCqe}
    (hstep : (machine info).step s c a s') : Handled s a s' c := by
  obtain ⟨fuel, address, allocated, hfree, hexec⟩ := hstep
  cases c with
  | submitCmd cmd =>
    obtain ⟨r, hr, heq⟩ := Option.map_eq_some_iff.1 hexec
    cases heq
    rcases h.submitCmd hfree hr with ⟨_, hs⟩ | ⟨hret, _⟩
    · exact .inr hs
    · exact .inl hret
  | process =>
    obtain ⟨r, hr, heq⟩ := Option.map_eq_some_iff.1 hexec
    cases heq
    rw [process, if_neg (by simp [h.holds.initialized])] at hr
    obtain ⟨s', hall, rfl⟩ := Option.map_eq_some_iff.1 hr
    obtain ⟨h', -⟩ := h.processAll hall
    exact ⟨rfl, h'.holds.linked, h'.holds.count⟩
  | pollCq =>
    have hpoll := Option.some_inj.1 hexec
    rw [HostIf.pollCq, if_neg (by simp [h.holds.initialized])] at hpoll
    by_cases hzero : s.cq.count = 0
    · rw [if_pos hzero] at hpoll
      cases hpoll
      refine .inl ⟨List.length_eq_zero_iff.1 ?_, rfl⟩
      rw [Ring.length_contents, hzero]
    · rw [if_neg hzero] at hpoll
      cases hpoll
      exact .inr ⟨_, rfl, Ring.contents_pop h.holds.ring (Nat.pos_of_ne_zero hzero)⟩
  | store mem => trivial

/-- Each call keeps the FTL lively. -/
theorem exec_lively (h : Tracks s b l) (hlively : s.ftl.Lively) {c : HostCall}
    {a : RetCode × Option HostCqe} (hstep : (machine info).step s c a s') : s'.ftl.Lively := by
  obtain ⟨fuel, address, allocated, -, hexec⟩ := hstep
  cases c with
  | submitCmd cmd =>
    obtain ⟨r, hr, heq⟩ := Option.map_eq_some_iff.1 hexec
    cases heq
    exact submitCmd_ftl hr ▸ hlively
  | process =>
    obtain ⟨r, hr, heq⟩ := Option.map_eq_some_iff.1 hexec
    cases heq
    rw [process, if_neg (by simp [h.holds.initialized])] at hr
    obtain ⟨s', hall, rfl⟩ := Option.map_eq_some_iff.1 hr
    exact (h.processAll_ftl hlively hall).2
  | pollCq =>
    have hpoll := Option.some_inj.1 hexec
    rw [HostIf.pollCq] at hpoll
    split_ifs at hpoll <;>
    · cases hpoll
      exact hlively
  | store mem =>
    cases hexec
    exact hlively

/-- Processing comes back if and only if no command that waits wraps around. -/
theorem returns_iff (h : Tracks s b l) (hlively : s.ftl.Lively) :
    (∃ a s', (machine info).step s .process a s') ↔ ¬ s.Overruns := by
  rw [h.process_iff hlively]
  constructor
  · rintro hwraps ⟨l', hl', x, hx, hxw⟩
    rw [h.holds.linked.unique hl'] at hwraps
    exact hwraps x hx hxw
  · intro hnone x hx hxw
    exact hnone ⟨l, h.holds.linked, x, hx, hxw⟩

end Tracks

/-- The interface as initialized. -/
theorem init_tracks {s₀ : HostIf} {size : ℕ} {allocated : Bool}
    (hinit : s₀.init size allocated = (.ok, s)) :
    Tracks s (book s []) [] ∧ Full s (book s []) := by
  rw [init] at hinit
  by_cases hzero : size = 0
  · rw [if_pos hzero] at hinit
    exact absurd (Prod.ext_iff.1 hinit).1 RetCode.noConfusion
  rw [if_neg hzero] at hinit
  cases allocated with
  | false => exact absurd (Prod.ext_iff.1 hinit).1 RetCode.noConfusion
  | true =>
    obtain rfl := (Prod.ext_iff.1 hinit).2
    have hpos := Nat.pos_of_ne_zero hzero
    refine ⟨⟨⟨rfl, hpos, rfl, rfl, rfl, List.nodup_nil, ⟨hpos, Nat.zero_le _, ?_⟩⟩, rfl,
      List.Sublist.refl _, fun k cqe hk => ?_, ?_, ?_⟩, rfl⟩
    · exact (Nat.zero_mod size).symm
    · exact absurd hk.symm (Option.some_ne_none cqe)
    · exact (Nat.zero_mod size).symm
    · change true = phaseOf size 0
      rw [phaseOf, Nat.zero_div]
      rfl

theorem book_snoc {tr : List (HostCall × (RetCode × Option HostCqe))} {c : HostCall}
    {r : RetCode × Option HostCqe} : book s (tr ++ [(c, r)]) = (book s tr).next (c, r) :=
  List.foldl_append

/-- The books are kept in every run. -/
theorem run_tracks {s₀ : HostIf} {size : ℕ} {allocated : Bool} {allowed : HostIf → HostCall → Prop}
    {tr : List (HostCall × (RetCode × Option HostCqe))}
    (hinit : s₀.init size allocated = (.ok, s)) (hrun : (machine info).Run allowed s tr s') :
    ∃ l, Tracks s' (book s tr) l := by
  induction hrun with
  | nil => exact ⟨[], (init_tracks hinit).1⟩
  | snoc _ _ hstep ih =>
    obtain ⟨l, h⟩ := ih
    obtain ⟨l', h', -⟩ := h.exec hstep
    rw [book_snoc]
    exact ⟨l', h'⟩

/-- As long as there is room, no command goes missing. -/
theorem run_full {s₀ : HostIf} {size : ℕ} {allocated : Bool}
    {tr : List (HostCall × (RetCode × Option HostCqe))}
    (hinit : s₀.init size allocated = (.ok, s)) (hrun : (machine info).Run Roomy s tr s') :
    Full s' (book s tr) := by
  induction hrun with
  | nil => exact (init_tracks hinit).2
  | snoc hrun hroomy hstep ih =>
    obtain ⟨l, h⟩ := run_tracks hinit hrun
    obtain ⟨l', -, hiff⟩ := h.exec hstep
    rw [book_snoc]
    exact hiff.2 ⟨ih, hroomy⟩

/-- If no command has gone missing, there has been room. -/
theorem roomy_of_full {s₀ : HostIf} {size : ℕ} {allocated : Bool}
    {tr : List (HostCall × (RetCode × Option HostCqe))}
    (hinit : s₀.init size allocated = (.ok, s))
    (hrun : (machine info).Run Machine.anyCall s tr s') (hfull : Full s' (book s tr)) :
    (machine info).Run Roomy s tr s' := by
  induction hrun with
  | nil => exact .nil
  | snoc hrun _ hstep ih =>
    obtain ⟨l, h⟩ := run_tracks hinit hrun
    obtain ⟨l', -, hiff⟩ := h.exec hstep
    rw [book_snoc] at hfull
    obtain ⟨hfull, hroomy⟩ := hiff.1 hfull
    exact .snoc (ih hfull) hroomy hstep

/-- The FTL stays lively in every run. -/
theorem run_lively {s₀ : HostIf} {size : ℕ} {allocated : Bool} {allowed : HostIf → HostCall → Prop}
    {tr : List (HostCall × (RetCode × Option HostCqe))}
    (hinit : s₀.init size allocated = (.ok, s)) (hrun : (machine info).Run allowed s tr s')
    (hlively : s.ftl.Lively) : s'.ftl.Lively := by
  induction hrun with
  | nil => exact hlively
  | snoc hrun _ hstep ih =>
    obtain ⟨l, h⟩ := run_tracks hinit hrun
    exact h.exec_lively ih hstep

/-- **The host interface completes every command.** For every size of the queues, and in every run
    of the host: every command accepted has been completed or waits, once and in the order of
    submission, and the phase tag of a completion tells the round of the ring, if and only if the
    ring has had room for the completions of all commands that waited whenever they were
    processed. No command waits when they have been processed, a poll gives the oldest completion,
    and a command is accepted if there is room and memory. On a lively device, processing comes back
    unless a trim that waits wraps around. -/
theorem completes_iff {s₀ : HostIf} {size : ℕ} {allocated : Bool}
    {tr : List (HostCall × (RetCode × Option HostCqe))}
    (hinit : s₀.init size allocated = (.ok, s))
    (hrun : (machine info).Run Machine.anyCall s tr s') :
    (Completes s' (book s tr) ↔ (machine info).Run Roomy s tr s') ∧
    (∀ c a s'', (machine info).step s' c a s'' → Handled s' a s'' c) ∧
    (∀ cmd a, s'.sqCount < s'.queueSize → s'.heap a = none →
      ∃ s'', (machine info).step s' (.submitCmd cmd) (.ok, none) s'') ∧
    (s.ftl.Lively → ((∃ a s'', (machine info).step s' .process a s'') ↔ ¬ s'.Overruns)) := by
  obtain ⟨l, h⟩ := run_tracks hinit hrun
  refine ⟨?_, fun c a s'' hstep => h.handled hstep, fun cmd a hroom ha => ?_, fun hlively => ?_⟩
  · rw [h.completes_iff_full]
    exact ⟨roomy_of_full hinit hrun, run_full hinit⟩
  · obtain ⟨s'', haccept⟩ := h.holds.accepts hroom ha cmd
    refine ⟨s'', 0, some a, fun _ => true, fun a' ha' => Option.some_inj.1 ha' ▸ ha, ?_⟩
    rw [HostIf.exec, haccept]
    rfl
  · exact h.returns_iff (run_lively hinit hrun hlively)

/-- The interface before it is initialized, on a device that has just been powered on. -/
def unused : HostIf where
  isInitialized := false
  queueSize := 0
  heap _ := none
  sqHead := none
  sqTail := none
  sqCount := 0
  cq := ⟨fun _ => ⟨0, 0, 0, .success, false⟩, 0, 0, 0⟩
  phaseTag := false
  features _ := 0
  cidCounter := 0
  mem _ := 0
  ftl := (Ftl.powerOn Ftl.fourRand fun _ => none).2

/-- The interface with queues of one entry. -/
def single : HostIf := (unused.init 1 true).2

/-- A Flush with the identifier `cid`. -/
def flush (cid : UInt16) : HostCmd := ⟨0x00, 1, 0, 0, cid, 0, 0, false⟩

/-- What the host reports to nobody. -/
def noInfo : Info := fun s _ => s.mem

/-- The interface after a Flush has been submitted. -/
def submitted (s : HostIf) (cid : UInt16) : HostIf :=
  ((s.submitCmd (some 0) (flush cid)).getD (.ok, s)).2

/-- The interface after the commands that wait have been processed. -/
def processed (s : HostIf) : HostIf := ((s.process noInfo 1 fun _ => true).getD (.ok, s)).2

/-- The interface after a poll. -/
def polled (s : HostIf) : HostIf := s.pollCq.2

theorem submit_step (s : HostIf) (cid : UInt16)
    (h : s.submitCmd (some 0) (flush cid) = some (.ok, s.submitted cid)) (hfree : s.heap 0 = none) :
    (machine noInfo).step s (.submitCmd (flush cid)) (.ok, none) (s.submitted cid) := by
  refine ⟨0, some 0, fun _ => true, fun a ha => Option.some_inj.1 ha ▸ hfree, ?_⟩
  rw [HostIf.exec, h]
  rfl

theorem process_step (s : HostIf)
    (h : s.process noInfo 1 (fun _ => true) = some (.ok, s.processed)) :
    (machine noInfo).step s .process (.ok, none) s.processed := by
  refine ⟨1, none, fun _ => true, fun a ha => absurd ha (Option.not_mem_none a), ?_⟩
  rw [HostIf.exec, h]
  rfl

theorem poll_step (s : HostIf) {a : RetCode × Option HostCqe} (h : s.pollCq = (a, s.polled)) :
    (machine noInfo).step s .pollCq a s.polled := by
  refine ⟨0, none, fun _ => true, fun a ha => absurd ha (Option.not_mem_none a), ?_⟩
  rw [HostIf.exec, h]

/-- A Flush is submitted and processed, and its completion is polled; then another one is, in the
    next round of the ring. A third one that waits can be processed. -/
theorem completes_iff_flush :
    let tr := [(.submitCmd (flush 1), (.ok, none)), (.process, (.ok, none)),
      (.pollCq, (.ok, some ⟨0, 0, 1, .success, true⟩)), (.submitCmd (flush 2), (.ok, none)),
      (.process, (.ok, none)), (.pollCq, (.ok, some ⟨0, 0, 2, .success, false⟩)),
      (.submitCmd (flush 3), (.ok, none))]
    ∃ s, (machine noInfo).Run Roomy single tr s ∧ Completes s (book single tr) ∧
      ∃ a s', (machine noInfo).step s .process a s' ∧ s'.sqCount = 0 := by
  intro tr
  set s₁ := (single.submitted 1).processed.polled
  set s₂ := (s₁.submitted 2).processed.polled
  have hrun : (machine noInfo).Run Roomy single tr (s₂.submitted 3) :=
    .snoc (.snoc (.snoc (.snoc (.snoc (.snoc (.snoc .nil trivial (submit_step single 1 rfl rfl))
      (Nat.le_refl 1) (process_step _ rfl)) trivial (poll_step _ rfl))
      trivial (submit_step s₁ 2 rfl rfl)) (Nat.le_refl 1) (process_step _ rfl)) trivial
      (poll_step _ rfl)) trivial (submit_step s₂ 3 rfl rfl)
  have hinit : unused.init 1 true = (.ok, single) := rfl
  obtain ⟨hcompletes, hhandled, _, hreturns⟩ :=
    completes_iff hinit (hrun.mono fun _ _ _ => trivial)
  obtain ⟨ftl₀, hon, _⟩ := Ftl.Calm.powerOn Ftl.fourRand
    (fun _ => (by decide : getInitBadRatio .tlc ≤ 4 % 100)) fun _ => none
  have hlively : single.ftl.Lively := by
    have hftl : single.ftl = ftl₀ := congrArg Prod.snd hon
    rw [hftl]
    exact .of_run Ftl.fourRand_recurs hon .nil
  have hnone : ¬ (s₂.submitted 3).Overruns := by
    rintro ⟨l, hl, x, hx, -, hopcode, -⟩
    obtain rfl : l = [(0, flush 3)] := hl.unique ⟨rfl, none, rfl, rfl⟩
    obtain rfl := List.mem_singleton.1 hx
    cases hopcode
  obtain ⟨a, s', hstep⟩ := (hreturns hlively).2 hnone
  obtain ⟨_, _, hcount⟩ := hhandled _ _ _ hstep
  exact ⟨_, hrun, hcompletes.2 hrun, a, s', hstep, hcount⟩

/-- The completion of a Flush is dropped, since that of the one before has not been polled. -/
theorem not_completes : ¬∀ (info : Info) (s₀ s s' : HostIf) (size : ℕ) (allocated : Bool)
    (tr : List (HostCall × (RetCode × Option HostCqe))), s₀.init size allocated = (.ok, s) →
    (machine info).Run Machine.anyCall s tr s' → Completes s' (book s tr) := by
  intro hall
  have hsubmit : (machine noInfo).step single (.submitCmd (flush 1)) (.ok, none)
      (single.submitted 1) :=
    ⟨0, some 0, fun _ => true, fun _ h => Option.some_inj.1 h ▸ rfl, rfl⟩
  have hprocess : (machine noInfo).step (single.submitted 1) .process (.ok, none)
      (single.submitted 1).processed := ⟨1, none, fun _ => true, fun _ h => absurd h (by simp), rfl⟩
  have hsubmit' : (machine noInfo).step (single.submitted 1).processed (.submitCmd (flush 2))
      (.ok, none) ((single.submitted 1).processed.submitted 2) :=
    ⟨0, some 0, fun _ => true, fun _ h => Option.some_inj.1 h ▸ rfl, rfl⟩
  have hprocess' : (machine noInfo).step ((single.submitted 1).processed.submitted 2) .process
      (.ok, none) ((single.submitted 1).processed.submitted 2).processed :=
    ⟨1, none, fun _ => true, fun _ h => absurd h (by simp), rfl⟩
  have hrun : (machine noInfo).Run Machine.anyCall single _ _ :=
    .snoc (.snoc (.snoc (.snoc .nil trivial hsubmit) trivial hprocess) trivial hsubmit') trivial
      hprocess'
  obtain ⟨⟨l, hl, heq⟩, -⟩ := hall noInfo unused single _ 1 true _ rfl hrun
  -- Two commands have been accepted and none waits, but there is one completion.
  obtain rfl : l = [] := hl.eq_nil_iff.1 rfl
  have hlen := congrArg List.length heq
  exact absurd hlen (by decide)

end HostIf

end FtlFirmware
