import FtlFirmware.Dma.Keeping

/-!
# What is reported of a transfer

A transfer whose end is reported has been made, and one that has been stopped is over, whatever
others do at the same time (`reports_truthful`), as long as the steps are careful, and

* nobody waits but for a transfer that goes on, is paused or is complete: the loop of
  `dma_wait_complete` ends at any other state as well (`reports_not_truthful`);
* a transfer whose end has been seen is not paused or resumed;
* stopping a transfer does not end while one is being started.
-/

namespace FtlFirmware

/-- The owner has seen the end of the transfer, and has not yet reported it. -/
def DmaOwner.Left : DmaOwner → Prop
  | .waitThread _ | .waitJoin _ | .waitClear _ | .reading _ .ok => True
  | _ => False

namespace OwnedDma

variable {s s' : OwnedDma} {d : Dma} {i : ℕ} {created : Bool} {a : DmaAnswer}

/-! ### The owner -/

/-- Where the owner is in the functions of the controller, and what it has made the channel do. -/
def Phase (s : OwnedDma) : Prop :=
  match s.owner with
  | .free => True
  | .allocating _ => (s.dma.callers 0).function = .alloc
  | .configuring desc => (s.dma.callers 0).Configures s.dma.desc desc
  | .starting desc => ((s.dma.callers 0).function = .start ∨
      (s.dma.callers 0).function = .resume) ∧ s.dma.desc.length = desc.length
  | .waitTest sync | .waitReady sync | .waitRunning sync | .waitPaused sync | .waitClock sync
  | .waitThread sync | .waitJoin sync | .waitClear sync =>
    s.dma.callers 0 = .idle ∧ ∀ desc, sync = some desc → s.dma.desc.length = desc.length
  | .reading desc _ => s.dma.callers 0 = .idle ∧ s.dma.desc.length = desc.length
  | .freeing desc ret transferred => (s.dma.callers 0).function = .free ∧
      (ret = .ok → transferred = some desc.length.toNat)

/-- What holds of a channel and its owner throughout a run. -/
structure Inv (s : OwnedDma) : Prop where
  kept : s.dma.Kept
  phase : s.Phase
  left : s.owner.Left → s.dma.state = .complete
  clearing : ∀ sync, s.owner = .waitClear sync → s.dma.NoLive

/-- A caller does not disturb what the owner has seen, and does not end stopping a transfer while
    the owner starts one. -/
def Undisturbed (s : OwnedDma) (i : ℕ) : Prop :=
  match s.dma.callers i with
  | .pauseLock | .resumeLock => ¬ s.owner.Left
  | .stopThread _ => s.dma.threadId = 0 → (s.dma.callers 0).function ≠ .start
  | .stopClear _ => (s.dma.callers 0).function ≠ .start
  | _ => True

/-- The callers are careful, and do not disturb the owner, who does not leave the loop of waiting
    but for a channel that is paused or complete. -/
def Conforms (s : OwnedDma) : DmaAction → Prop
  | .advance i _ => s.dma.Careful i ∧ s.Undisturbed i
  | .wait _ => match s.owner with
    | .waitPaused _ => s.dma.state = .paused ∨ s.dma.state = .complete
    | _ => True
  | _ => True

theorem init_inv (mem : ℕ → UInt8) : (init mem).Inv where
  kept := Dma.init_kept mem
  phase := trivial
  left h := h.elim
  clearing _ h := by cases h

/-- The owner is where it is as long as neither its place nor the descriptor changes. -/
theorem Phase.congr (h : s.Phase) (hcallers : d.callers 0 = s.dma.callers 0)
    (hdesc : d.desc = s.dma.desc) : Phase { s with dma := d } := by
  rw [Phase] at h ⊢
  dsimp only
  rwa [hcallers, hdesc]

/-- While the end of a transfer has been seen, the owner is in no function. -/
theorem Phase.idle (h : s.Phase) (hleft : s.owner.Left) : s.dma.callers 0 = .idle := by
  rw [Phase] at h
  generalize s.owner = owner at h hleft
  cases owner <;> first | exact hleft.elim | exact h.1

/-- One who is in no function has no next step. -/
theorem advance_idle (h : d.callers i = .idle) : d.advance i created = none := by
  rw [Dma.advance, h]

/-! ### The steps of callers -/

/-- A caller other than the owner goes on. -/
theorem Inv.advance_other (h : s.Inv) (hi : i ≠ 0) (hconf : s.Conforms (.advance i created))
    {code : Option RetCode} (hadv : s.dma.advance i created = some (code, d)) :
    Inv { s with dma := d } := by
  have hmoved := Dma.moved hadv
  have hconc := h.kept.others i hi
  have hcallers : d.callers 0 = s.dma.callers 0 := hmoved.others 0 hi.symm
  have hdesc : d.desc = s.dma.desc := by
    refine hmoved.desc.resolve_right ?_
    rintro ⟨desc, field, hp⟩
    rw [hp] at hconc
    exact hconc
  refine ⟨h.kept.advance hconf.1 hadv, h.phase.congr hcallers hdesc, fun hleft => ?_,
    fun sync howner => ?_⟩
  · have hundisturbed := hconf.2
    rw [Undisturbed] at hundisturbed
    rcases hmoved.state (h.left hleft) with hst | hp | hp | hnot
    · exact hst
    · rw [hp] at hundisturbed
      exact absurd hleft hundisturbed
    · rw [hp] at hundisturbed
      exact absurd hleft hundisturbed
    · exact absurd hconc hnot
  · refine hmoved.noLive (h.clearing sync howner) fun hp => ?_
    rw [hp] at hconc
    exact hconc

/-- The owner goes on in a function. -/
theorem Inv.advance_owner (h : s.Inv) (hconf : s.Conforms (.advance 0 created))
    (hadv : s.dma.advance 0 created = some (none, d)) : Inv { s with dma := d } := by
  have hmoved := Dma.moved hadv
  have hnext := hmoved.next rfl
  have hnot : s.dma.callers 0 ≠ .idle := fun hidle => by
    rw [advance_idle hidle] at hadv
    cases hadv
  have hleft : ¬ s.owner.Left := fun hleft => hnot (h.phase.idle hleft)
  have hclear : ∀ sync, s.owner ≠ .waitClear sync := fun sync howner =>
    hleft (by rw [howner]; trivial)
  refine ⟨h.kept.advance hconf.1 hadv, ?_, fun hleft' => absurd hleft' hleft, fun sync howner =>
    absurd howner (hclear sync)⟩
  have hphase := h.phase
  rw [Phase] at hphase ⊢
  dsimp only
  generalize s.owner = owner at hphase
  -- By the function that the owner is in: its next step is one of that function.
  cases owner with
  | free => trivial
  | allocating desc =>
    rw [hphase] at hnext
    simpa using hnext
  | configuring desc => exact (hmoved.configures desc hphase).1 rfl
  | starting desc =>
    have hdesc : d.desc = s.dma.desc := by
      refine hmoved.desc.resolve_right ?_
      rintro ⟨desc', field, hp⟩
      rw [hp] at hphase
      simp [DmaCaller.function] at hphase
    rw [hdesc]
    refine ⟨?_, hphase.2⟩
    rcases hphase.1 with hp | hp
    · rw [hp] at hnext
      simpa using hnext
    · rw [hp] at hnext
      exact .inr (by simpa using hnext)
  | freeing desc ret transferred =>
    rw [hphase.1] at hnext
    exact ⟨by simpa using hnext, hphase.2⟩
  | _ => exact absurd hphase.1 hnot

/-- The owner calls a function. -/
theorem begin_inv (owner : DmaOwner) {c : DmaCall} (h : s.dma.Kept)
    (hidle : s.dma.callers 0 = .idle) (hphase : (s.begin c owner).Phase)
    (howner : ¬ owner.Left) : (s.begin c owner).Inv where
  kept := by
    refine h.goto (fun f hf => ?_) ?_ (fun _ => ?_) fun hne => absurd rfl hne
    · cases c <;> cases hf
    · cases c <;> exact id
    · rw [hidle]
      exact id
  phase := hphase
  left hleft := absurd hleft howner
  clearing sync hsync := by
    cases hsync
    exact absurd trivial howner

/-- A function that the owner has called returns. -/
theorem Inv.returned (h : s.Inv) (hconf : s.Conforms (.advance 0 created)) {code : RetCode}
    (hadv : s.dma.advance 0 created = some (some code, d)) :
    ({ s with dma := d }.returned code).2.Inv := by
  have hmoved := Dma.moved hadv
  have hkept := h.kept.advance hconf.1 hadv
  have hidle : d.callers 0 = .idle := hmoved.idle (by simp)
  have hnot : s.dma.callers 0 ≠ .idle := fun hidle => by
    rw [advance_idle hidle] at hadv
    cases hadv
  have hphase := h.phase
  rw [Phase] at hphase
  rw [OwnedDma.returned]
  dsimp only
  generalize howner : s.owner = owner at hphase ⊢
  -- What comes next depends on the function that has returned, and on its answer.
  cases owner with
  | free => exact ⟨hkept, trivial, False.elim, by simp⟩
  | allocating desc =>
    dsimp only
    split
    · refine begin_inv _ hkept hidle ?_ id
      rw [Phase]
      simp [begin, DmaCall.begin, DmaCaller.Configures]
    · exact ⟨hkept, trivial, False.elim, by simp⟩
  | configuring desc =>
    dsimp only
    split
    · rename_i hcode
      have hlength := (hmoved.configures desc hphase).2 (by rw [hcode])
      refine begin_inv _ hkept hidle ?_ id
      rw [Phase]
      simpa [begin, DmaCall.begin, DmaCaller.function] using hlength
    · rename_i hcode
      refine begin_inv _ hkept hidle ?_ id
      rw [Phase]
      simp [begin, DmaCall.begin, DmaCaller.function, hcode]
  | starting desc =>
    dsimp only
    split
    · have hdesc : d.desc = s.dma.desc := by
        refine hmoved.desc.resolve_right ?_
        rintro ⟨desc', field, hp⟩
        rw [hp] at hphase
        simp [DmaCaller.function] at hphase
      refine ⟨hkept, ⟨hidle, ?_⟩, False.elim, by simp⟩
      rintro desc' heq
      cases heq
      rw [hdesc]
      exact hphase.2
    · rename_i hcode
      refine begin_inv _ hkept hidle ?_ id
      rw [Phase]
      simp [begin, DmaCall.begin, DmaCaller.function, hcode]
  | freeing desc ret transferred => exact ⟨hkept, trivial, False.elim, by simp⟩
  | _ => exact absurd hphase.1 hnot

/-! ### Waiting -/

/-- The transfer whose end has been seen is completed. -/
theorem Inv.completed (h : s.Inv) (hleft : s.owner.Left) : s.dma.Completed := by
  refine ⟨h.left hleft, h.kept.complete (h.left hleft) ?_⟩
  rw [h.phase.idle hleft]
  exact id

/-- Waiting ends: with success only if the transfer is completed. -/
theorem waited_inv {sync : Option DmaDesc} {ret : RetCode} (hw : s.waited sync ret = some (a, s'))
    (hkept : s.dma.Kept) (hidle : s.dma.callers 0 = .idle)
    (hsync : ∀ desc, sync = some desc → s.dma.desc.length = desc.length)
    (hret : ret = .ok → s.dma.Completed) :
    s'.Inv ∧ (a = some (.ok, none) → s'.dma.Completed) := by
  cases sync with
  | none =>
    cases hw
    exact ⟨⟨hkept, trivial, False.elim, by simp⟩, fun ha => hret (by simpa using ha)⟩
  | some desc =>
    cases hw
    refine ⟨⟨hkept, ⟨hidle, hsync desc rfl⟩, fun hleft => (hret ?_).1, by simp⟩, by simp⟩
    by_contra hne
    cases ret <;> first | exact hne rfl | exact hleft

/-- The owner goes on in waiting. -/
theorem goto_inv {owner : DmaOwner} (hw : s.goto owner = some (a, s')) (hkept : s.dma.Kept)
    (hphase : Phase { s with owner }) (hleft : owner.Left → s.dma.state = .complete)
    (hclear : ∀ sync, owner = .waitClear sync → s.dma.NoLive) :
    s'.Inv ∧ (a = some (.ok, none) → s'.dma.Completed) := by
  cases hw
  exact ⟨⟨hkept, hphase, hleft, hclear⟩, by simp⟩

/-- The steps of waiting: those that end it with success end it for a completed transfer. -/
theorem Inv.wait (h : s.Inv) {late : Bool} (hconf : s.Conforms (.wait late))
    (hw : s.wait late = some (a, s')) :
    s'.Inv ∧ (a = some (.ok, none) → s'.dma.Completed) := by
  have hphase := h.phase
  have hcompleted := h.completed
  have hclearing := h.clearing
  rw [Phase] at hphase
  rw [Conforms] at hconf
  rw [OwnedDma.wait] at hw
  generalize s.owner = owner at hphase hcompleted hclearing hconf hw
  cases owner with
  | free | allocating desc | configuring desc | starting desc | freeing desc ret n => cases hw
  | waitTest sync =>
    dsimp only at hw
    split at hw
    · exact waited_inv hw h.kept hphase.1 hphase.2 (by simp)
    · exact goto_inv hw h.kept hphase False.elim (by simp)
  | waitReady sync | waitRunning sync =>
    dsimp only at hw
    split at hw
    · exact goto_inv hw h.kept hphase False.elim (by simp)
    · exact goto_inv hw h.kept hphase False.elim (by simp)
  | waitPaused sync =>
    dsimp only at hw
    split at hw
    · exact goto_inv hw h.kept hphase False.elim (by simp)
    · rename_i hpaused
      exact goto_inv hw h.kept hphase (fun _ => hconf.resolve_left hpaused) (by simp)
  -- Only a time-out ends the loop here, and it is no success.
  | waitClock sync =>
    dsimp only at hw
    split at hw
    · exact waited_inv hw h.kept hphase.1 hphase.2 (by simp)
    · exact goto_inv hw h.kept hphase False.elim (by simp)
  | waitThread sync =>
    dsimp only at hw
    split at hw
    · exact goto_inv hw h.kept hphase (fun _ => (hcompleted trivial).1) (by simp)
    · exact waited_inv hw h.kept hphase.1 hphase.2 (fun _ => hcompleted trivial)
  -- A thread that can be joined has ended, and there is no other.
  | waitJoin sync =>
    dsimp only at hw
    split at hw
    · rename_i hjoin
      exact goto_inv hw h.kept hphase (fun _ => (hcompleted trivial).1)
        (fun _ _ => h.kept.noLive hjoin)
    · cases hw
  | waitClear sync =>
    exact waited_inv hw (h.kept.forget (hclearing sync rfl)) hphase.1 hphase.2
      fun _ => hcompleted trivial
  | reading desc ret =>
    cases hw
    refine ⟨begin_inv _ h.kept hphase.1 ?_ id, by simp⟩
    refine ⟨by simp [begin, DmaCall.begin, DmaCaller.function], fun hret => ?_⟩
    rw [hret] at hcompleted
    rw [(hcompleted trivial).2, hphase.2]

/-! ### All steps -/

theorem Ready.idle (h : s.Ready) : s.dma.callers 0 = .idle ∧ s.owner = .free := by
  obtain ⟨dma, owner⟩ := s
  cases owner with
  | free =>
    have hidle : Idle (dma.callers 0) := h
    generalize dma.callers 0 = p at hidle
    cases p <;> first | exact ⟨rfl, rfl⟩ | exact hidle.elim
  | _ => exact h.elim

variable {c : DmaAction}

/-- The steps that conform keep what holds of the channel and its owner. -/
theorem Inv.exec (h : s.Inv) (hconf : s.Conforms c) (hexec : s.exec c = some (a, s')) :
    s'.Inv := by
  cases c with
  | call i call =>
    rw [OwnedDma.exec] at hexec
    by_cases hallowed : if i = 0 then s.Ready else Idle (s.dma.callers i) ∧ call.Concurrent
    · rw [if_pos hallowed] at hexec
      cases hexec
      by_cases hi : i = 0
      · subst hi
        obtain ⟨hidle, howner⟩ := Ready.idle (by simpa using hallowed)
        have hinv := begin_inv .free (c := call) h.kept hidle trivial id
        rw [begin, ← howner] at hinv
        exact hinv
      -- Another caller: the owner is not concerned.
      · obtain ⟨hidle, hconc⟩ : Idle (s.dma.callers i) ∧ call.Concurrent := by
          simpa [hi] using hallowed
        have hcallers : (s.dma.goto i call.begin).callers 0 = s.dma.callers 0 :=
          Function.update_of_ne (Ne.symm hi) ..
        refine ⟨h.kept.goto (fun f hf => ?_) ?_ (fun heq => absurd heq hi) fun _ => ?_,
          h.phase.congr hcallers rfl, h.left, h.clearing⟩
        · cases call <;> cases hf
        · cases call <;> exact id
        · cases call <;> first | exact hconc.elim | trivial
    · rw [if_neg hallowed] at hexec
      cases hexec
  | advance i created =>
    obtain ⟨⟨code, d⟩, hadv, heq⟩ := Option.map_eq_some_iff.1 hexec
    dsimp only at heq
    cases code with
    | none =>
      cases heq
      by_cases hi : i = 0
      · subst hi
        exact h.advance_owner hconf hadv
      · exact h.advance_other hi hconf hadv
    | some code =>
      dsimp only at heq
      by_cases hi : i = 0
      · subst hi
        rw [if_pos rfl] at heq
        have hinv := h.returned hconf hadv
        rw [heq] at hinv
        exact hinv
      · rw [if_neg hi] at heq
        cases heq
        exact h.advance_other hi hconf hadv
  | run t =>
    obtain ⟨⟨code, d⟩, hrun, heq⟩ := Option.map_eq_some_iff.1 hexec
    cases heq
    obtain ⟨thread, ht, hrun⟩ := Option.bind_eq_some_iff.1 hrun
    obtain ⟨d', hr, heq⟩ := Option.map_eq_some_iff.1 hrun
    cases heq
    obtain ⟨hlive, hcallers, -, hdesc, -⟩ := Dma.runThread_frame hr
    refine ⟨h.kept.run ht hr, h.phase.congr (by rw [hcallers]) hdesc, fun hleft => ?_,
      fun sync howner => absurd ⟨thread, ht, hlive⟩ (h.clearing sync howner t)⟩
    exact h.kept.runThread_stays ht hr (h.left hleft)
  | waitComplete =>
    rw [OwnedDma.exec] at hexec
    split at hexec
    · rename_i hready
      exact (goto_inv hexec h.kept ⟨(Ready.idle hready).1, by simp⟩ False.elim (by simp)).1
    · cases hexec
  | transferSync desc =>
    rw [OwnedDma.exec] at hexec
    split at hexec
    · rename_i hready
      cases hexec
      exact begin_inv _ h.kept (Ready.idle hready).1
        (by simp [Phase, begin, DmaCall.begin, DmaCaller.function]) id
    · cases hexec
  | wait late => exact (h.wait hconf hexec).1

/-! ### A transfer that is over -/

/-- The step does not begin to start a transfer. -/
def NoStart (s : OwnedDma) (c : DmaAction) : Prop :=
  ∀ a s', s.exec c = some (a, s') → (s'.dma.callers 0).function = .start →
    (s.dma.callers 0).function = .start

/-- As long as no transfer is started again, no byte is written, and the channel does not become
    complete. -/
def Over (s : OwnedDma) : Prop :=
  ∀ tr s', machine.Run NoStart s tr s' → s'.dma.mem = s.dma.mem ∧ s'.dma.state ≠ .complete

/-- Nothing goes on: there is neither a thread nor a start of one. -/
structure Still (mem : ℕ → UInt8) (s : OwnedDma) : Prop where
  noLive : s.dma.NoLive
  start : (s.dma.callers 0).function ≠ .start
  state : s.dma.state ≠ .complete
  mem : s.dma.mem = mem
  others : ∀ i ≠ 0, (s.dma.callers i).function.Concurrent

/-- The channel is the same but for the owner, or for its thread which has been forgotten. -/
inductive Same (d : Dma) : Dma → Prop
  | refl : Same d d
  | forget : Same d { d with threadId := 0 }
  | goto (p : DmaCaller) : Same d (d.goto 0 p)

theorem returned_same (s : OwnedDma) (code : RetCode) : Same s.dma (s.returned code).2.dma := by
  obtain ⟨dma, owner⟩ := s
  cases owner with
  | allocating desc | configuring desc | starting desc =>
    rw [OwnedDma.returned]
    dsimp only
    split <;> first | exact .goto _ | exact .refl
  | _ => exact .refl

theorem waited_same {sync : Option DmaDesc} {ret : RetCode}
    (hw : s.waited sync ret = some (a, s')) : s'.dma = s.dma := by
  cases sync <;> cases hw <;> rfl

theorem wait_same {late : Bool} (hw : s.wait late = some (a, s')) : Same s.dma s'.dma := by
  have hgoto : ∀ owner, s.goto owner = some (a, s') → Same s.dma s'.dma := fun _ h => by
    cases h
    exact .refl
  have hwaited : ∀ {sync ret}, s.waited sync ret = some (a, s') → Same s.dma s'.dma := fun h => by
    rw [waited_same h]
    exact .refl
  rw [OwnedDma.wait] at hw
  split at hw
  · split at hw
    · exact hwaited hw
    · exact hgoto _ hw
  · split at hw <;> exact hgoto _ hw
  · split at hw <;> exact hgoto _ hw
  · split at hw <;> exact hgoto _ hw
  · split at hw
    · exact hwaited hw
    · exact hgoto _ hw
  · split at hw
    · exact hgoto _ hw
    · exact hwaited hw
  · split at hw
    · exact hgoto _ hw
    · cases hw
  · rw [waited_same hw]
    exact .forget
  · cases hw
    exact .goto _
  · cases hw

/-- What does not concern the threads leaves everything still, if no transfer is started. -/
theorem Still.same {mem : ℕ → UInt8} {d' : Dma} {owner : DmaOwner}
    (hno : d.NoLive) (hstate : d.state ≠ .complete) (hmem : d.mem = mem)
    (hothers : ∀ i ≠ 0, (d.callers i).function.Concurrent) (hsame : Same d d')
    (hstart : (d'.callers 0).function ≠ .start) : Still mem ⟨d', owner⟩ := by
  cases hsame with
  | refl => exact ⟨hno, hstart, hstate, hmem, hothers⟩
  | forget => exact ⟨hno, hstart, hstate, hmem, hothers⟩
  | goto p =>
    refine ⟨hno, hstart, hstate, hmem, fun i hi => ?_⟩
    rw [show (d.goto 0 p).callers i = d.callers i from Function.update_of_ne hi ..]
    exact hothers i hi

theorem Still.exec {mem : ℕ → UInt8} (h : Still mem s) (hstart : s.NoStart c)
    (hexec : s.exec c = some (a, s')) : Still mem s' := by
  have hstart' : (s'.dma.callers 0).function ≠ .start := fun hs => h.start (hstart a s' hexec hs)
  cases c with
  | call i call =>
    rw [OwnedDma.exec] at hexec
    by_cases hallowed : if i = 0 then s.Ready else Idle (s.dma.callers i) ∧ call.Concurrent
    · rw [if_pos hallowed] at hexec
      cases hexec
      refine ⟨h.noLive, hstart', h.state, h.mem, fun j hj => ?_⟩
      by_cases hji : j = i
      · subst hji
        rw [if_neg hj] at hallowed
        rw [Dma.callers_goto]
        have hconc := hallowed.2
        cases call <;> first | exact hconc.elim | trivial
      · rw [show (s.dma.goto i call.begin).callers j = s.dma.callers j from
          Function.update_of_ne hji ..]
        exact h.others j hj
    · rw [if_neg hallowed] at hexec
      cases hexec
  | advance i created =>
    obtain ⟨⟨code, d⟩, hadv, heq⟩ := Option.map_eq_some_iff.1 hexec
    have hmoved := Dma.moved hadv
    -- A thread is created only by starting a transfer, which nobody does.
    have hno : d.NoLive := by
      refine hmoved.noLive h.noLive fun hp => ?_
      by_cases hi : i = 0
      · exact h.start (by rw [← hi, hp]; rfl)
      · have hconc := h.others i hi
        rw [hp] at hconc
        exact hconc
    have hstate : d.state ≠ .complete := fun hst => h.state (Dma.complete_of_advance hadv hst)
    have hothers : ∀ j ≠ 0, (d.callers j).function.Concurrent := fun j hj => by
      by_cases hji : j = i
      · subst hji
        exact hmoved.concurrent (h.others j hj)
      · rw [hmoved.others j hji]
        exact h.others j hj
    have hsame : Same d s'.dma := by
      dsimp only at heq
      split at heq
      · cases heq
        exact .refl
      · rename_i code'
        split at heq
        · have hreturned := returned_same { s with dma := d } code'
          rwa [heq] at hreturned
        · cases heq
          exact .refl
    exact Still.same hno hstate (hmoved.mem.trans h.mem) hothers hsame hstart'
  | run t =>
    obtain ⟨⟨code, d⟩, hrun, heq⟩ := Option.map_eq_some_iff.1 hexec
    obtain ⟨thread, ht, hrun⟩ := Option.bind_eq_some_iff.1 hrun
    obtain ⟨d', hr, -⟩ := Option.map_eq_some_iff.1 hrun
    exact absurd ⟨thread, ht, (Dma.runThread_frame hr).1⟩ (h.noLive t)
  | waitComplete =>
    rw [OwnedDma.exec] at hexec
    split at hexec
    · cases hexec
      exact ⟨h.noLive, hstart', h.state, h.mem, h.others⟩
    · cases hexec
  | transferSync desc =>
    rw [OwnedDma.exec] at hexec
    split at hexec
    · cases hexec
      exact Still.same h.noLive h.state h.mem h.others (.goto _) hstart'
    · cases hexec
  | wait late => exact Still.same h.noLive h.state h.mem h.others (wait_same hexec) hstart'

/-- A transfer is over when nothing goes on. -/
theorem Still.over {mem : ℕ → UInt8} (h : Still mem s) : s.Over := by
  intro tr s' hrun
  have hstill := hrun.invariant h fun _ _ _ _ h hstart hstep => h.exec hstart hstep
  exact ⟨hstill.mem.trans h.mem.symm, hstill.state⟩

/-! ### What is reported -/

/-- What is reported in a step holds: a transfer is completed when waiting for it ends with success,
    also as part of a synchronous transfer, which answers the length of its descriptor; and one
    whose stopping ends with success before its completion is over. -/
structure Reports (s : OwnedDma) (c : DmaAction) (a : DmaAnswer) (s' : OwnedDma) : Prop where
  wait : ∀ late, c = .wait late → a = some (.ok, none) → s'.dma.Completed
  sync : ∀ late desc, c = .wait late → s.owner = .reading desc .ok →
    s.dma.state = .complete ∧ s.dma.transferred = desc.length.toNat
  answer : ∀ created desc ret n m, c = .advance 0 created → s.owner = .freeing desc ret n →
    a = some (.ok, m) → m = some desc.length.toNat
  stop : ∀ i created, c = .advance i created →
    s.dma.callers i = .stopThread false ∨ s.dma.callers i = .stopClear false →
    a = some (.ok, none) → s'.dma.state ≠ .complete → s'.Over

/-- When stopping a transfer ends, nothing goes on. -/
theorem Inv.stopped (h : s.Inv) (hconf : s.Conforms (.advance i created))
    (hexec : s.exec (.advance i created) = some (a, s'))
    (hp : s.dma.callers i = .stopThread false ∨ s.dma.callers i = .stopClear false)
    (ha : a = some (.ok, none)) (hst : s'.dma.state ≠ .complete) : s'.Over := by
  have hinv := h.exec hconf hexec
  obtain ⟨⟨code, d⟩, hadv, heq⟩ := Option.map_eq_some_iff.1 hexec
  have hmoved := Dma.moved hadv
  have hcode : code ≠ none := by
    rintro rfl
    cases heq
    cases ha
  have hzero : s.dma.callers i = .stopThread false → s.dma.threadId = 0 := fun hp => by
    rw [Dma.advance, hp] at hadv
    dsimp only at hadv
    split at hadv
    · cases hadv
      exact absurd rfl hcode
    · rename_i hzero
      exact not_not.1 hzero
  have hno : s.dma.NoLive := by
    rcases hp with hp | hp
    · exact h.kept.noLive_of_zero (hzero hp)
    · exact h.kept.cleared i false hp
  have hfunction : (s.dma.callers i).function = .stop := by
    rcases hp with hp | hp <;> rw [hp] <;> rfl
  have hd : d.NoLive := hmoved.noLive hno (by rcases hp with hp | hp <;> simp [hp])
  have hstart : (d.callers 0).function ≠ .start ∧ s'.dma = d := by
    obtain ⟨code, rfl⟩ := Option.ne_none_iff_exists'.1 hcode
    dsimp only at heq
    by_cases hi : i = 0
    · subst hi
      -- The owner is not in a synchronous transfer, which stops none.
      have howner : s.owner = .free := by
        have hphase := h.phase
        rw [Phase] at hphase
        generalize s.owner = owner at hphase
        cases owner with
        | configuring desc =>
          rw [hphase.function_eq] at hfunction
          cases hfunction
        | _ => simp_all
      rw [hmoved.idle (by simp)]
      rw [if_pos rfl, OwnedDma.returned, howner] at heq
      cases heq
      exact ⟨by simp [DmaCaller.function], rfl⟩
    · rw [if_neg hi] at heq
      cases heq
      rw [hmoved.others 0 (Ne.symm hi)]
      refine ⟨?_, rfl⟩
      have hundisturbed := hconf.2
      rw [Undisturbed] at hundisturbed
      rcases hp with hp | hp
      · rw [hp] at hundisturbed
        exact hundisturbed (hzero hp)
      · rw [hp] at hundisturbed
        exact hundisturbed
  exact Still.over ⟨hstart.2 ▸ hd, hstart.2 ▸ hstart.1, hst, rfl, hinv.kept.others⟩

/-- **What the controller reports of a transfer is true.** In every run, whatever others do during a
    transfer, if all steps conform: a wait that ends with success ends for a channel that is
    complete and has transferred all bytes, a synchronous transfer with success has transferred all
    bytes, and after stopping a transfer with success before its completion, none of its bytes is
    written, and the channel does not become complete, until a transfer is started again. -/
theorem reports_truthful {mem : ℕ → UInt8} {tr : List (DmaAction × DmaAnswer)} {c : DmaAction}
    (hrun : machine.Run Conforms (init mem) tr s) (hconf : s.Conforms c)
    (hstep : machine.step s c a s') : Reports s c a s' := by
  have hinv : s.Inv := hrun.invariant (init_inv mem) fun _ _ _ _ h hconf hstep => h.exec hconf hstep
  refine ⟨?_, ?_, ?_, ?_⟩
  · rintro late rfl
    exact (hinv.wait hconf hstep).2
  · rintro late desc rfl howner
    have hleft : s.owner.Left := by
      rw [howner]
      trivial
    have hphase := hinv.phase
    rw [Phase, howner] at hphase
    exact ⟨hinv.left hleft, by rw [(hinv.completed hleft).2, hphase.2]⟩
  · rintro created desc ret n m rfl howner ha
    have hphase := hinv.phase
    rw [Phase, howner] at hphase
    obtain ⟨⟨code, d⟩, -, heq⟩ := Option.map_eq_some_iff.1 hstep
    cases code with
    | none =>
      cases heq
      cases ha
    | some code =>
      simp only [if_true, OwnedDma.returned, howner] at heq
      cases heq
      obtain ⟨rfl, rfl⟩ := Prod.mk.inj (Option.some.inj ha)
      exact hphase.2 rfl
  · rintro i created rfl hp ha hst
    exact hinv.stopped hconf hstep hp ha hst

/-- A function is called, and goes on `n` times. -/
def callActions (c : DmaCall) (n : ℕ) : List DmaAction :=
  .call 0 c :: List.replicate n (.advance 0 true)

/-- A transfer of three bytes is configured and started. -/
def startThree : List DmaAction :=
  callActions .allocChannel 4 ++ callActions (.configChannel ⟨16, 32, 3, true, true⟩) 9 ++
    callActions .startTransfer 7 ++ [.run 1]

/-- The owner waits for the end of a transfer of three bytes, and it is reported. -/
theorem reports_truthful_three : ∃ s s', s.Conforms (.wait false) ∧
    machine.step s (.wait false) (some (.ok, none)) s' ∧ s'.dma.Completed := by
  have hactions : Machine.After exec Conforms
      (fun s => s.Conforms (.wait false) ∧ ∃ s', machine.step s (.wait false) (some (.ok, none)) s')
      (startThree ++ List.replicate 6 (.run 1) ++ [.waitComplete] ++
        List.replicate 6 (.wait false))
      (init fun k => k.toUInt8) := by
    simp [Machine.After, startThree, callActions, DmaCall.begin, exec, Dma.exec, Dma.advance,
      Dma.next, Dma.ret, Dma.goto, init, Dma.init, Conforms, Dma.Careful, Undisturbed, Dma.NoLive,
      Dma.Live, DmaThread.Live, DmaDesc.copyField, descFields, Dma.setThread, Dma.runThread,
      Dma.loop, chunkSize, machine, Ready, Idle, OwnedDma.returned, OwnedDma.wait, goto, waited,
      Dma.Joinable, Function.update_apply]
    intro j
    split <;> simp
  obtain ⟨tr, s, hrun, -, hconf, s', hstep⟩ := hactions.run (m := machine) fun _ _ _ _ h => h
  exact ⟨s, s', hconf, hstep, (reports_truthful hrun hconf hstep).wait false rfl rfl⟩

/-- A transfer is stopped while the owner waits: its end is reported as that of a transfer which has
    been completed. -/
theorem reports_not_truthful : ¬ ∀ mem tr s c a s', machine.Run Machine.anyCall (init mem) tr s →
    machine.step s c a s' → Reports s c a s' := by
  intro h
  have hactions : Machine.After exec Machine.anyCall
      (fun s => ∃ s', machine.step s (.wait false) (some (.ok, none)) s' ∧ s'.dma.state = .error)
      (startThree ++ [.waitComplete, .call 1 .stopTransfer, .advance 1 true, .advance 1 true,
        .run 1, .run 1] ++ List.replicate 6 (.wait false))
      (init fun _ => 0) := by
    simp [Machine.After, startThree, callActions, DmaCall.begin, exec, Dma.exec, Dma.advance,
      Dma.next, Dma.ret, Dma.goto, init, Dma.init, Machine.anyCall, DmaDesc.copyField, descFields,
      Dma.setThread, Dma.runThread, Dma.loop, chunkSize, machine, Ready, Idle, OwnedDma.returned,
      OwnedDma.wait, goto, waited, Dma.Joinable, Dma.abort, DmaCall.Concurrent]
  obtain ⟨tr, s, hrun, -, s', hstep, herror⟩ := hactions.run (m := machine) fun _ _ _ _ h => h
  have hcomplete := ((h _ tr s _ _ s' hrun hstep).wait false rfl rfl).1
  rw [herror] at hcomplete
  cases hcomplete

end OwnedDma

end FtlFirmware
