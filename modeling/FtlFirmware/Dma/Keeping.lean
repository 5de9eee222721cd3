import FtlFirmware.Dma.Waiting

/-!
# What the steps keep of a channel

A thread that has been started, and has not finished, is *live* (`Dma.Live`). What a step of a
caller may change is said once (`Dma.Moved`). The channel is kept (`Dma.Kept`) by all steps of its
threads, and by the careful ones of its callers (`Dma.Careful`):

* a channel is allocated or configured, and a thread is assigned to it, only when none is live;
* no thread is started while another caller forgets it;
* a transfer is not resumed when its thread has left it.
-/

namespace FtlFirmware

/-- The functions of the controller, for a caller who is in one of them. -/
inductive DmaFunction
  | none
  | alloc
  | free
  | config
  | start
  | stop
  | pause
  | resume
  deriving DecidableEq, Repr

/-- The functions that others than the owner are in. -/
def DmaFunction.Concurrent : DmaFunction → Prop
  | .none | .stop | .pause | .resume => True
  | _ => False

namespace DmaCaller

/-- The function that a caller is in. A transfer that is stopped because its channel is freed is
    part of freeing it. -/
def function : DmaCaller → DmaFunction
  | .idle => .none
  | .allocTest | .allocMark | .allocState | .allocReset => .alloc
  | .freeTest | .freeRunning | .freePaused | .freeMark | .freeState => .free
  | .configTest _ | .configBusy _ | .configCopy _ _ | .configState | .configReset => .config
  | .startTest | .startReady | .startPaused | .startResume | .startCreate | .startAssign _
  | .startCreated | .startError | .startThread => .start
  | .stopTest free | .stopLock free | .stopThread free | .stopJoin free | .stopClear free =>
    if free then .free else .stop
  | .pauseTest | .pauseRunning | .pauseLock => .pause
  | .resumeTest | .resumePaused | .resumeLock => .resume

/-- The caller is about to change the descriptor, or the state after that. -/
def Copies : DmaCaller → Prop
  | .configCopy _ _ | .configState => True
  | _ => False

/-- The caller is about to reset the number of bytes transferred. -/
def Resets : DmaCaller → Prop
  | .allocReset | .configReset => True
  | _ => False

/-- The caller configures the channel for the descriptor `d`, and has copied its length already if
    it is past it. -/
def Configures (desc d : DmaDesc) : DmaCaller → Prop
  | .configTest d' | .configBusy d' => d' = d
  | .configCopy d' field => d' = d ∧ (2 < field → desc.length = d.length)
  | .configState | .configReset => desc.length = d.length
  | _ => False

theorem Configures.function_eq {desc d : DmaDesc} {c : DmaCaller} (h : c.Configures desc d) :
    c.function = .config := by
  cases c <;> first | rfl | exact h.elim

end DmaCaller

namespace DmaThread

/-- The thread has been started, and has not finished. -/
def Live : DmaThread → Prop
  | .created | .finished => False
  | _ => True

theorem Active.live {thread : DmaThread} (h : thread.Active) : thread.Live := by
  cases thread <;> first | exact h | trivial

end DmaThread

namespace Dma

/-- A thread has been started, and has not finished. -/
def Live (s : Dma) (t : ℕ) : Prop := ∃ thread, s.threads t = some thread ∧ thread.Live

/-- No thread has been started that has not finished. -/
def NoLive (s : Dma) : Prop := ∀ t, ¬ s.Live t

/-- The transfer has been completed: all bytes of the descriptor have been counted. -/
def Completed (s : Dma) : Prop := s.state = .complete ∧ s.transferred = s.desc.length.toNat

variable {s s' : Dma} {i t : ℕ} {created : Bool} {a : Option RetCode} {thread : DmaThread}

@[simp] theorem callers_goto (s : Dma) (i : ℕ) (c : DmaCaller) : (s.goto i c).callers i = c :=
  Function.update_self ..

@[simp] theorem desc_goto (s : Dma) (i : ℕ) (c : DmaCaller) : (s.goto i c).desc = s.desc := rfl

theorem NoLive.quiet (h : s.NoLive) : s.Quiet := by
  rintro t ⟨thread, ht, hact⟩
  exact h t ⟨thread, ht, hact.live⟩

/-! ### The steps of callers -/

/-- What a step of a caller may change. -/
structure Moved (s : Dma) (i : ℕ) (a : Option RetCode) (s' : Dma) : Prop where
  mem : s'.mem = s.mem
  others : ∀ j ≠ i, s'.callers j = s.callers j
  idle : a ≠ none → s'.callers i = .idle
  next : a = none → (s'.callers i).function = (s.callers i).function ∨
    (s.callers i).function = .start ∧ (s'.callers i).function = .resume
  threadId : s'.threadId = s.threadId ∨ (∃ t, s.callers i = .startAssign t) ∨
    ∃ f, s.callers i = .stopClear f
  desc : s'.desc = s.desc ∨ ∃ d k, s.callers i = .configCopy d k
  transferred : s'.transferred = s.transferred ∨ (s.callers i).Resets
  clear : ∀ f, s'.callers i = .stopClear f → Joinable (s.threads s.threadId)
  reset : (s'.callers i).Resets → s'.state ≠ .complete ∧
    (s.callers i = .allocState ∨ s.callers i = .configState)
  copies : (s.callers i).Copies → (s'.callers i).Copies ∨ s'.state = .ready
  state : s.state = .complete → s'.state = .complete ∨ s.callers i = .pauseLock ∨
    s.callers i = .resumeLock ∨ ¬ (s.callers i).function.Concurrent
  configures : ∀ d, (s.callers i).Configures s.desc d →
    (a = none → (s'.callers i).Configures s'.desc d) ∧
      (a = some .ok → s'.desc.length = d.length)
  threads : s'.threads = s.threads ∧ s'.nextThread = s.nextThread ∨
    s'.threads = Function.update s.threads s.nextThread (some .created) ∧
      s'.nextThread = s.nextThread + 1 ∨
    s.callers i = .startThread ∧ s.threads s.threadId = some .created ∧
      s'.nextThread = s.nextThread ∧ ∃ thread, ¬ DmaThread.Active thread ∧
        s'.threads = Function.update s.threads s.threadId (some thread)

/-- The length of a descriptor has been copied after its first three fields. -/
theorem length_copyField {d new : DmaDesc} {field : ℕ} (h : 2 < field → d.length = new.length)
    (hfield : 2 < field + 1) : (d.copyField new field).length = new.length := by
  rcases Nat.eq_or_lt_of_le (Nat.le_of_lt_succ hfield) with rfl | hlt
  · rfl
  · obtain ⟨n, rfl⟩ := Nat.exists_eq_add_of_lt hlt
    rw [← h hlt, show 2 + n + 1 = n + 3 by omega, DmaDesc.copyField.eq_def]
    cases n <;> rfl

theorem moved (h : s.advance i created = some (a, s')) : Moved s i a s' := by
  rw [advance] at h
  generalize hp : s.callers i = p at h
  cases p <;> simp only [next, ret, stopped, goto] at h <;> (repeat' split at h) <;> cases h <;>
    constructor <;> simp_all [DmaCaller.function, DmaCaller.Copies, DmaCaller.Resets,
      DmaCaller.Configures, DmaFunction.Concurrent, setThread]
  · exact fun h hfield => length_copyField h (by omega)
  · rename_i hlast
    exact fun h => length_copyField h (Nat.lt_of_lt_of_le (by decide) hlast)
  · exact ⟨_, id, rfl⟩
  · exact ⟨_, id, rfl⟩
  · exact fun _ => .inl rfl

namespace Moved

variable (h : Moved s i a s')
include h

theorem active (ht : s'.Active t) : s.Active t := by
  obtain ⟨thread, ht, hact⟩ := ht
  rcases h.threads with ⟨hsame, -⟩ | ⟨hnew, -⟩ | ⟨-, -, -, thread', hthread', hstarted⟩
  · exact ⟨thread, hsame ▸ ht, hact⟩
  · rw [hnew] at ht
    rcases threads_setThread (s := s) ht with ⟨-, rfl⟩ | ⟨-, hold⟩
    · exact absurd hact id
    · exact ⟨thread, hold, hact⟩
  · rw [hstarted] at ht
    rcases threads_setThread (s := s) ht with ⟨-, rfl⟩ | ⟨-, hold⟩
    · exact absurd hact hthread'
    · exact ⟨thread, hold, hact⟩

/-- A thread is started by the caller who has created it. -/
theorem live (ht : s'.Live t) : s.Live t ∨ s.callers i = .startThread ∧ t = s.threadId := by
  obtain ⟨thread, ht, hlive⟩ := ht
  rcases h.threads with ⟨hsame, -⟩ | ⟨hnew, -⟩ | ⟨hp, -, -, thread', -, hstarted⟩
  · exact .inl ⟨thread, hsame ▸ ht, hlive⟩
  · rw [hnew] at ht
    rcases threads_setThread (s := s) ht with ⟨-, rfl⟩ | ⟨-, hold⟩
    · exact absurd hlive id
    · exact .inl ⟨thread, hold, hlive⟩
  · rw [hstarted] at ht
    rcases threads_setThread (s := s) ht with ⟨rfl, -⟩ | ⟨-, hold⟩
    · exact .inr ⟨hp, rfl⟩
    · exact .inl ⟨thread, hold, hlive⟩

theorem noLive (hno : s.NoLive) (hp : s.callers i ≠ .startThread) : s'.NoLive := fun t ht =>
  (h.live ht).elim (hno t) fun hstart => hp hstart.1

theorem zero (hzero : s.threads 0 = none) (hpos : 0 < s.nextThread) :
    s'.threads 0 = none ∧ 0 < s'.nextThread := by
  rcases h.threads with ⟨hsame, hnext⟩ | ⟨hnew, hnext⟩ | ⟨-, hcreated, hnext, thread', -, hstarted⟩
  · rw [hsame, hnext]
    exact ⟨hzero, hpos⟩
  · rw [hnew, hnext, Function.update_of_ne (Nat.ne_of_lt hpos)]
    exact ⟨hzero, Nat.succ_pos _⟩
  · have hne : 0 ≠ s.threadId := fun heq => by
      rw [← heq, hzero] at hcreated
      cases hcreated
    rw [hstarted, hnext, Function.update_of_ne hne]
    exact ⟨hzero, hpos⟩

/-- One who is in a function that others call stays in such functions. -/
theorem concurrent (hp : (s.callers i).function.Concurrent) :
    (s'.callers i).function.Concurrent := by
  cases ha : a with
  | none =>
    rcases h.next ha with heq | ⟨hstart, -⟩
    · rwa [heq]
    · rw [hstart] at hp
      exact hp.elim
  | some code =>
    rw [h.idle (by simp [ha])]
    trivial

end Moved

/-! ### The channel -/

/-- What holds of the channel throughout a run. A thread that has been started and has not finished
    is the one of the channel; there is none while the thread of the channel is forgotten, or the
    number of bytes transferred reset. A channel that is complete has counted all bytes of its
    descriptor, as long as this does not change. -/
structure Kept (s : Dma) : Prop where
  inv : s.Inv
  zero : s.threads 0 = none
  pos : 0 < s.nextThread
  assigned : ∀ t, s.Live t → s.threadId = t
  quiet : s.state = .complete → s.Quiet
  cleared : ∀ i f, s.callers i = .stopClear f → s.NoLive
  reset : (s.callers 0).Resets → s.NoLive ∧ s.state ≠ .complete
  complete : s.state = .complete → ¬ (s.callers 0).Copies →
    s.transferred = s.desc.length.toNat
  others : ∀ i ≠ 0, (s.callers i).function.Concurrent

/-- The step of a caller is careful: the channel is configured, or allocated, and a thread assigned
    to it, only when none goes on; none is started while its number is forgotten; and a transfer is
    not resumed when a thread has left it. -/
def Careful (s : Dma) (i : ℕ) : Prop :=
  match s.callers i with
  | .allocState | .allocReset | .configCopy _ _ | .configState | .configReset | .startAssign _ =>
    s.NoLive
  | .startThread => ∀ j f, s.callers j ≠ .stopClear f
  | .resumeLock => s.NoneLeft
  | _ => True

theorem Careful.conforms (h : s.Careful i) (created : Bool) : s.Conforms (.advance i created) := by
  rw [Careful] at h
  rw [Conforms]
  generalize s.callers i = p at h ⊢
  cases p <;> first | exact h | exact h.quiet | trivial

/-- A thread cannot be waited for, as it goes on. -/
theorem not_joinable (h : thread.Live) : ¬ Joinable (some thread) := by
  cases thread <;> first | exact fun _ => h | exact id

theorem init_kept (mem : ℕ → UInt8) : (init mem).Kept where
  inv := init_inv mem
  zero := rfl
  pos := Nat.one_pos
  assigned := by
    rintro t ⟨_, ht, -⟩
    cases ht
  quiet hst := by cases hst
  cleared _ _ hp := by cases hp
  reset hp := hp.elim
  complete hst := by cases hst
  others _ _ := trivial

namespace Kept

/-- A thread that can be waited for is not going on, and no other one is. -/
theorem noLive (h : s.Kept) (hjoin : Joinable (s.threads s.threadId)) : s.NoLive := by
  intro t ht
  have heq := h.assigned t ht
  obtain ⟨thread, ht, hlive⟩ := ht
  rw [heq, ht] at hjoin
  exact not_joinable hlive hjoin

/-- No thread goes on if the channel has none. -/
theorem noLive_of_zero (h : s.Kept) (hzero : s.threadId = 0) : s.NoLive :=
  h.noLive (by rw [hzero, h.zero]; trivial)

/-- Only the owner changes the descriptor, and starts transfers. -/
theorem owner_of_not_concurrent (h : s.Kept) (hp : ¬ (s.callers i).function.Concurrent) : i = 0 :=
  Classical.byContradiction fun hne => hp (h.others i hne)

section

variable (h : s.Kept) (hmoved : Moved s i a s')
include h hmoved

/-- The thread of the channel is another one only when none goes on. -/
theorem advance_assigned (hcareful : s.Careful i) (ht : s'.Live t) : s'.threadId = t := by
  rw [Careful] at hcareful
  rcases hmoved.threadId with heq | ⟨t', hp⟩ | ⟨f, hp⟩
  · rw [heq]
    rcases hmoved.live ht with hold | ⟨-, rfl⟩
    · exact h.assigned t hold
    · rfl
  · rw [hp] at hcareful
    exact absurd ht (hmoved.noLive hcareful (by simp [hp]) t)
  · exact absurd ht (hmoved.noLive (h.cleared i f hp) (by simp [hp]) t)

/-- A caller who is about to forget the thread has waited for it, and no other one is started. -/
theorem advance_cleared (hcareful : s.Careful i) {j : ℕ} {f : Bool}
    (hj : s'.callers j = .stopClear f) : s'.NoLive := by
  by_cases hji : j = i
  · subst hji
    have hstart : s.callers j ≠ .startThread := by
      intro hp
      cases ha : a with
      | none =>
        have hnext := hmoved.next ha
        rw [hp, hj] at hnext
        revert hnext
        cases f <;> simp [DmaCaller.function]
      | some code =>
        have hidle := hmoved.idle (by simp [ha])
        rw [hj] at hidle
        cases hidle
    exact hmoved.noLive (h.noLive (hmoved.clear f hj)) hstart
  · have hj' : s.callers j = .stopClear f := (hmoved.others j hji).symm.trans hj
    refine hmoved.noLive (h.cleared j f hj') fun hp => ?_
    rw [Careful, hp] at hcareful
    exact hcareful j f hj'

/-- The number of bytes is reset after the channel has got another state, while no thread goes
    on. -/
theorem advance_reset (hcareful : s.Careful i)
    (hcomplete : s'.state = .complete → s.state = .complete) (hreset : (s'.callers 0).Resets) :
    s'.NoLive ∧ s'.state ≠ .complete := by
  by_cases hi : 0 = i
  · subst hi
    obtain ⟨hstate, hp⟩ := hmoved.reset hreset
    rw [Careful] at hcareful
    rcases hp with hp | hp
    · rw [hp] at hcareful
      exact ⟨hmoved.noLive hcareful (by simp [hp]), hstate⟩
    · rw [hp] at hcareful
      exact ⟨hmoved.noLive hcareful (by simp [hp]), hstate⟩
  · rw [hmoved.others 0 hi] at hreset
    obtain ⟨hno, hstate⟩ := h.reset hreset
    refine ⟨hmoved.noLive hno fun hp => ?_, fun hst => hstate (hcomplete hst)⟩
    exact hi (h.owner_of_not_concurrent (by simp [hp, DmaCaller.function,
      DmaFunction.Concurrent])).symm

/-- A channel that is complete has counted its bytes, also after the step of a caller. -/
theorem advance_complete (hst : s.state = .complete) (hst' : s'.state = .complete)
    (hcopies : ¬ (s'.callers 0).Copies) : s'.transferred = s'.desc.length.toNat := by
  -- A caller who copies the descriptor goes on with that.
  have hcopies₀ : ¬ (s.callers i).Copies ∨ i ≠ 0 := by
    by_contra hboth
    rw [not_or, not_not, not_not] at hboth
    obtain ⟨hp, rfl⟩ := hboth
    rcases hmoved.copies hp with hp' | hready
    · exact hcopies hp'
    · rw [hready] at hst'
      cases hst'
  have hcopies_owner : ¬ (s.callers 0).Copies := by
    rcases hcopies₀ with hp | hne
    · by_cases hi : 0 = i
      · rwa [hi]
      · rwa [← hmoved.others 0 hi]
    · rwa [← hmoved.others 0 hne.symm]
  have hdesc : s'.desc = s.desc := by
    refine hmoved.desc.resolve_right ?_
    rintro ⟨d, k, hp⟩
    have hi : i = 0 := h.owner_of_not_concurrent (by simp [hp, DmaCaller.function,
      DmaFunction.Concurrent])
    rcases hcopies₀ with hnot | hne
    · exact hnot (hp ▸ trivial)
    · exact hne hi
  have htransferred : s'.transferred = s.transferred := by
    refine hmoved.transferred.resolve_right fun hreset => ?_
    have hi : i = 0 := h.owner_of_not_concurrent fun hconc => by
      cases hp : s.callers i <;> simp_all [DmaCaller.Resets, DmaCaller.function,
        DmaFunction.Concurrent]
    exact (h.reset (hi ▸ hreset)).2 hst
  rw [hdesc, htransferred]
  exact h.complete hst hcopies_owner

theorem advance_others {j : ℕ} (hj : j ≠ 0) : (s'.callers j).function.Concurrent := by
  by_cases hji : j = i
  · subst hji
    exact hmoved.concurrent (h.others j hj)
  · rw [hmoved.others j hji]
    exact h.others j hj

end

/-- The steps of callers keep the channel. -/
theorem advance (h : s.Kept) (hcareful : s.Careful i)
    (hadv : s.advance i created = some (a, s')) : s'.Kept := by
  have hmoved := moved hadv
  have hcomplete : s'.state = .complete → s.state = .complete := complete_of_advance hadv
  exact {
    inv := h.inv.advance (hcareful.conforms created) hadv
    zero := (hmoved.zero h.zero h.pos).1
    pos := (hmoved.zero h.zero h.pos).2
    assigned := fun t ht => h.advance_assigned hmoved hcareful ht
    quiet := fun hst t ht => h.quiet (hcomplete hst) t (hmoved.active ht)
    cleared := fun j f hj => h.advance_cleared hmoved hcareful hj
    reset := fun hreset => h.advance_reset hmoved hcareful hcomplete hreset
    complete := fun hst hcopies => h.advance_complete hmoved (hcomplete hst) hst hcopies
    others := fun j hj => h.advance_others hmoved hj }

/-- A caller is elsewhere. -/
theorem goto (h : s.Kept) {c : DmaCaller} (hclear : ∀ f, c ≠ .stopClear f)
    (hresets : ¬ c.Resets) (howner : i = 0 → ¬ (s.callers 0).Copies)
    (hconc : i ≠ 0 → c.function.Concurrent) : (s.goto i c).Kept where
  inv := h.inv.goto i c
  zero := h.zero
  pos := h.pos
  assigned := h.assigned
  quiet := h.quiet
  cleared j f hj := by
    by_cases hji : j = i
    · subst hji
      exact absurd ((callers_goto ..).symm.trans hj) (hclear f)
    · exact h.cleared j f ((Function.update_of_ne hji ..).symm.trans hj)
  reset hreset := by
    by_cases hi : 0 = i
    · subst hi
      rw [callers_goto] at hreset
      exact absurd hreset hresets
    · rw [show (s.goto i c).callers 0 = s.callers 0 from Function.update_of_ne hi ..] at hreset
      exact h.reset hreset
  complete hst hcopies := by
    refine h.complete hst ?_
    by_cases hi : 0 = i
    · exact howner hi.symm
    · rwa [show (s.goto i c).callers 0 = s.callers 0 from Function.update_of_ne hi ..] at hcopies
  others j hj := by
    by_cases hji : j = i
    · subst hji
      rw [callers_goto]
      exact hconc hj
    · rw [show (s.goto i c).callers j = s.callers j from Function.update_of_ne hji ..]
      exact h.others j hj

/-- The thread of the channel is forgotten when none goes on. -/
theorem forget (h : s.Kept) (hno : s.NoLive) : Kept { s with threadId := 0 } where
  inv := h.inv.same rfl rfl (.inr ⟨rfl, rfl, rfl⟩) .inl .inl
  zero := h.zero
  pos := h.pos
  assigned t ht := absurd ht (hno t)
  quiet := h.quiet
  cleared := h.cleared
  reset := h.reset
  complete := h.complete
  others := h.others

end Kept

/-! ### The steps of threads -/

/-- What a step of a thread leaves as it is. -/
theorem runThread_frame (hr : s.runThread t thread = some s') :
    thread.Live ∧ s'.callers = s.callers ∧ s'.threadId = s.threadId ∧ s'.desc = s.desc ∧
      s'.nextThread = s.nextThread ∧
      (s'.threads = s.threads ∨ ∃ x, s'.threads = Function.update s.threads t (some x)) := by
  cases thread <;> simp only [runThread] at hr <;> (repeat' split at hr) <;> cases hr <;>
    first
      | exact ⟨trivial, rfl, rfl, rfl, rfl, .inr ⟨_, rfl⟩⟩
      | exact ⟨trivial, rfl, rfl, rfl, rfl, .inl rfl⟩

/-- After the step of a thread, a channel that is complete has no active thread, and has been
    completed by this step, or has not been touched. -/
theorem Kept.runThread_complete (h : s.Kept) (ht : s.threads t = some thread)
    (hr : s.runThread t thread = some s') (hst : s'.state = .complete) :
    s'.Quiet ∧ (s.state = .complete ∧ s'.transferred = s.transferred ∨
      s'.transferred = s'.desc.length.toNat) := by
  have hquiet := h.quiet
  have hother : ∀ {x : DmaThread}, ¬ x.Active → (∀ t' ≠ t, ¬ s.Active t') →
      ∀ {s₁ : Dma}, s₁.threads = s.threads → (s₁.setThread t x).Quiet := by
    rintro x hx hother s₁ hs₁ t' ⟨thread', ht', hact⟩
    rcases threads_setThread ht' with ⟨-, rfl⟩ | ⟨hne, hold⟩
    · exact hx hact
    · exact hother t' hne ⟨thread', hs₁ ▸ hold, hact⟩
  by_cases hold : s.state = .complete
  · -- Only a thread that has not begun is left, which finds the channel not ready.
    have hnot : ¬ thread.Active := fun hact => hquiet hold t ⟨thread, ht, hact⟩
    cases thread with
    | created => cases hr
    | finished => cases hr
    | started =>
      rw [runThread, if_neg (by simp [hold])] at hr
      cases hr
      exact ⟨hother id (fun t' _ => hquiet hold t') rfl, .inl ⟨hold, rfl⟩⟩
    | _ => exact absurd trivial hnot
  · have htransferred := (h.inv.transferred ht hr hold hst).1
    refine ⟨?_, .inr htransferred⟩
    cases thread with
    | created => cases hr
    | finished => cases hr
    | started =>
      rw [runThread] at hr
      split_ifs at hr <;> cases hr
      · cases hst
      · exact absurd hst hold
    | checking p =>
      rw [runThread] at hr
      split_ifs at hr <;> cases hr <;> exact absurd hst hold
    | copying p | counting p n | movingSrc p n | movingDst p n =>
      cases hr
      exact absurd hst hold
    | leaving p =>
      cases hr
      have hact : s.Active t := ⟨_, ht, trivial⟩
      exact hother id (fun t' hne hact' => hne (h.inv.exclusive t' t hact' hact)) rfl

/-- A channel that is complete stays so. -/
theorem Kept.runThread_stays (h : s.Kept) (ht : s.threads t = some thread)
    (hr : s.runThread t thread = some s') (hst : s.state = .complete) : s'.state = .complete := by
  have hnot : ¬ thread.Active := fun hact => h.quiet hst t ⟨thread, ht, hact⟩
  cases thread with
  | created => cases hr
  | finished => cases hr
  | started =>
    rw [runThread, if_neg (by simp [hst])] at hr
    cases hr
    exact hst
  | _ => exact absurd trivial hnot

/-- The steps of threads keep the channel. -/
theorem Kept.run (h : s.Kept) (ht : s.threads t = some thread)
    (hr : s.runThread t thread = some s') : s'.Kept := by
  obtain ⟨hlive, hcallers, hthread, hdesc, hnext, hthreads⟩ := runThread_frame hr
  have hlives : s.Live t := ⟨thread, ht, hlive⟩
  have hsub : ∀ t', s'.Live t' → s.Live t' := by
    rintro t' ⟨x, ht', hx⟩
    rcases hthreads with heq | ⟨y, heq⟩
    · exact ⟨x, heq ▸ ht', hx⟩
    · rw [heq] at ht'
      rcases threads_setThread (s := s) ht' with ⟨rfl, -⟩ | ⟨-, hold⟩
      · exact hlives
      · exact ⟨x, hold, hx⟩
  have hne : 0 ≠ t := fun heq => by
    rw [← heq, h.zero] at ht
    cases ht
  exact {
    inv := h.inv.runThread ht hr
    zero := by
      rcases hthreads with heq | ⟨y, heq⟩
      · rw [heq, h.zero]
      · rw [heq, Function.update_of_ne hne, h.zero]
    pos := hnext ▸ h.pos
    assigned := fun t' ht' => hthread ▸ h.assigned t' (hsub t' ht')
    quiet := fun hst => (h.runThread_complete ht hr hst).1
    cleared := fun i f hi => absurd hlives (h.cleared i f (hcallers ▸ hi) t)
    reset := fun hreset => absurd hlives ((h.reset (hcallers ▸ hreset)).1 t)
    complete := fun hst hcopies => by
      rcases (h.runThread_complete ht hr hst).2 with ⟨hold, heq⟩ | heq
      · rw [heq, hdesc]
        exact h.complete hold (hcallers ▸ hcopies)
      · exact heq
    others := fun i hi => hcallers ▸ h.others i hi }

end Dma

end FtlFirmware
