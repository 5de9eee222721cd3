import FtlFirmware.Thread.Sound

/-!
# Threads that are not disturbed

In every run, a slot of the table has one thread at most that executes its function, each thread is
joined once at most, after a thread has been stopped or destroyed none with its identifier executes,
and no slot is written by a thread of an earlier one (`threads_undisturbed`), as long as
(`Conforms`):

* one caller at a time works on a slot, from its test of the state on, and the slot has not been
  taken or destroyed since it has been found;
* a thread that has been started is not started again before it runs, and not stopped or destroyed
  either; nor is it destroyed, or its slot taken, before its wrapper has ended;
* no identifier is assigned twice at a time.

The state of a slot is set by the new thread itself, so that `thread_start`, `thread_stop` and
`thread_destroy` still find it `READY` (`threads_disturbed`).
-/

namespace FtlFirmware

namespace ThreadTable

section

variable (s : ThreadTable)

/-- What a function that looks up a thread relies on when it tests the state of the slot. It goes on
    alone, with a slot that is still that of the thread. A thread is started when there is no other
    one, does not execute when it is found not to run on stopping it, and has ended when it is found
    not to run on destroying it. -/
def Settled (i : ℕ) (id : UInt32) (k : ℕ) : ThreadFn → Prop
  | .start => (s.slots k).state = .ready → s.NoUser i k ∧ s.Held id k ∧ s.NoLive k
  | .stop => s.Held id k ∧ ((s.slots k).state = .running → s.NoUser i k) ∧
    ((s.slots k).state ≠ .running → s.NoneExecutes k)
  | .join => (s.slots k).state ≠ .stopped → s.NoUser i k ∧ s.Held id k
  | .destroy => s.NoUser i k ∧ s.Held id k ∧ ((s.slots k).state ≠ .running → s.NoLive k)

/-- A slot that is taken is still free, nobody works on it and its threads have ended; an identifier
    is new when it is assigned; and a thread that is looked up is where its state says. -/
def Conforms : ThreadAction → Prop
  | .advance i _ => match s.callers i with
    | .createClear _ k => s.NoUser i k ∧ (s.slots k).isInitialized = false ∧ s.NoLive k
    | .createId _ _ id => ∀ k, s.Occupied k → (s.slots k).threadId ≠ id
    | .test f id k => s.Settled i id k f
    | _ => True
  | _ => True

end

variable {s s' : ThreadTable} {i k w : ℕ} {c : ThreadCaller} {t : ThreadSlot} {o : OsThread}

namespace Sound

/-! ### The steps of callers -/

/-- A caller goes on, or returns, and works on no slot any more. -/
theorem leave (h : s.Sound) (hwait : ∀ f id k w, s.callers i ≠ .wait f id k w)
    (huses : c.uses = none) (hdoing : s.Doing c) : (s.goto i c).Sound := by
  refine h.goto hdoing (fun k hk => ?_) (fun k hk => ?_) fun f id k w hi =>
    absurd hi (hwait f id k _)
  · rw [huses] at hk
    cases hk
  · rw [ThreadCaller.uses_of_names hk] at huses
    cases huses

/-- A caller begins to work on a slot, or goes on with it. -/
theorem work (h : s.Sound) (hwait : ∀ f id k w, s.callers i ≠ .wait f id k w)
    (huses : c.uses = some k) (huser : s.NoUser i k) (hnames : c.names = none)
    (hdoing : s.Doing c) : (s.goto i c).Sound := by
  refine h.goto hdoing (fun k' hk' => ?_) (fun k' hk' => ?_) fun f id k w hi =>
    absurd hi (hwait f id k _)
  · rw [huses] at hk'
    cases hk'
    exact huser
  · rw [hnames] at hk'
    cases hk'

/-- A caller writes to its slot what does not matter here. -/
theorem writeData (h : s.Sound) (hi : (s.callers i).uses = some k)
    (hinit : t.isInitialized = (s.slots k).isInitialized)
    (hid : t.threadId = (s.slots k).threadId) (hpthread : t.pthread = (s.slots k).pthread)
    (hstate : t.state = (s.slots k).state) (hnames : c.names = some k → s.Occupied k)
    (hdoing : ((s.setSlot k t).goto i c).Doing c) (huses : c.uses = some k)
    (hwait : ∀ f id k w, s.callers i ≠ .wait f id k w) :
    ((s.setSlot k t).goto i c).Sound := by
  refine h.write (h.noUser hi) (fun w o ho hk hpc => ?_) (fun w hw => ?_) (fun hocc k' hne hk' heq =>
    ?_) hdoing (fun k' hk' => ?_) fun f id k w => hwait f id k _
  · have hlive := (h.live w o ho hpc).1.1
    rw [hk] at hlive
    exact ⟨hid, hpthread, hinit.trans hlive⟩
  · rw [hpthread] at hw
    refine ⟨hw, fun o ho => ?_⟩
    obtain ⟨o', ho', -, hst⟩ := h.handle k w hw
    rw [ho] at ho'
    cases ho'
    exact hstate.trans hst
  · have hk : s.Occupied k := by
      rcases hocc with hocc | hocc
      · exact .inl (hinit ▸ hocc)
      · exact hnames hocc
    exact hne (h.unique k' k hk' hk (heq.trans hid))
  · rw [huses] at hk'
    cases hk'
    rfl

/-- A caller writes to a slot without a thread. -/
theorem writeCleared (h : s.Sound) (hi : (s.callers i).uses = some k)
    (hnone : (s.slots k).pthread = none) (hpthread : t.pthread = (s.slots k).pthread)
    (hunique : t.isInitialized = true ∨ c.names = some k → ∀ k' ≠ k, s.Occupied k' →
      (s.slots k').threadId ≠ t.threadId)
    (hdoing : ((s.setSlot k t).goto i c).Doing c) (huses : ∀ k', c.uses = some k' → k' = k)
    (hwait : ∀ f id k w, s.callers i ≠ .wait f id k w) :
    ((s.setSlot k t).goto i c).Sound := by
  refine h.write (h.noUser hi) (fun w o ho hk hpc => ?_) (fun w hw => ?_) hunique hdoing huses
    fun f id k w => hwait f id k _
  · exact absurd (h.noLive_of_none hnone w o ho hk) hpc
  · rw [hpthread, hnone] at hw
    cases hw

/-- No other slot has the identifier of one that has been named. -/
theorem ne_of_occupied (h : s.Sound) (hk : s.Occupied k) :
    ∀ k' ≠ k, s.Occupied k' → (s.slots k').threadId ≠ (s.slots k).threadId :=
  fun k' hne hk' heq => hne (h.unique k' k hk' hk heq)

/-- A slot that has been written is still to be filled. -/
theorem cleared_write (hinit : t.isInitialized = false) (hpthread : t.pthread = none) :
    ((s.setSlot k t).goto i c).Cleared k := by
  rw [Cleared, slots_goto, slots_setSlot]
  exact ⟨hinit, hpthread⟩

/-- A slot that has been written is still that of a thread. -/
theorem held_write {id : UInt32} (hinit : t.isInitialized = true) (hid : t.threadId = id) :
    ((s.setSlot k t).goto i c).Held id k := by
  rw [Held, slots_goto, slots_setSlot]
  exact ⟨hinit, hid⟩

variable {func : ℕ} {id : UInt32} {f : ThreadFn} {created : Bool} {a : Option ThreadAnswer}

/-- A free slot is taken. -/
theorem clear (h : s.Sound) (hp : s.callers i = .createClear func k)
    (hconf : s.Conforms (.advance i created)) :
    ((s.setSlot k .zero).goto i (.createNext func k)).Sound := by
  rw [Conforms, hp] at hconf
  obtain ⟨huser, -, hno⟩ := hconf
  refine h.write huser (fun w o ho hk hpc => absurd (hno w o ho hk) hpc) (fun w hw => ?_)
    (fun hocc => ?_) (cleared_write rfl rfl) (fun k' hk' => ?_) (by simp [hp])
  · cases hw
  · rcases hocc with hocc | hocc
    · cases hocc
    · cases hocc
  · cases hk'
    rfl

/-- The slot of a new thread gets an identifier that no other one has. -/
theorem setId (h : s.Sound) (hp : s.callers i = .createId func k id)
    (hconf : s.Conforms (.advance i created)) :
    ((s.setSlot k { s.slots k with threadId := id }).goto i (.createFunc func k)).Sound := by
  have hdoing := h.doing i
  rw [Conforms, hp] at hconf
  rw [hp] at hdoing
  refine h.writeCleared (by rw [hp]; rfl) hdoing.2 rfl (fun _ k' _ hk' => hconf k' hk')
    (cleared_write hdoing.1 hdoing.2) (fun k' hk' => ?_) (by simp [hp])
  cases hk'
  rfl

/-- A slot that has an identifier is filled. -/
theorem fill (h : s.Sound) (hnames : (s.callers i).names = some k)
    (hnone : (s.slots k).pthread = none) (hid : t.threadId = (s.slots k).threadId)
    (hpthread : t.pthread = (s.slots k).pthread) (hdoing : ((s.setSlot k t).goto i c).Doing c)
    (huses : ∀ k', c.uses = some k' → k' = k)
    (hwait : ∀ f id k w, s.callers i ≠ .wait f id k w) :
    ((s.setSlot k t).goto i c).Sound := by
  refine h.writeCleared (ThreadCaller.uses_of_names hnames) hnone hpthread (fun _ k' hne hk' => ?_)
    hdoing huses hwait
  rw [hid]
  exact h.ne_of_occupied (.inr ⟨i, hnames⟩) k' hne hk'

/-- A thread that is about to be started has no POSIX thread yet. -/
theorem pthread_of_ready (h : s.Sound) (hready : (s.slots k).state = .ready)
    (hno : s.NoLive k) : (s.slots k).pthread = none := by
  by_contra hne
  obtain ⟨w, hw⟩ := Option.ne_none_iff_exists'.mp hne
  obtain ⟨o, ho, hslot, hst⟩ := h.handle k w hw
  rw [hready, hno w o ho hslot] at hst
  cases hst

/-- The state of a thread that has been looked up is tested. -/
theorem test (h : s.Sound) (hp : s.callers i = .test f id k)
    (hconf : s.Conforms (.advance i created))
    (hadv : s.advance i created = some (a, s')) : s'.Sound := by
  have hwait : ∀ f id k w, s.callers i ≠ .wait f id k w := by simp [hp]
  have hnone : (s.callers i).uses = none := by
    rw [hp]
    rfl
  rw [Conforms, hp] at hconf
  rw [ThreadTable.advance, hp] at hadv
  -- The function that has found the slot looks at its state, and goes on or returns.
  cases f with
  | start =>
    dsimp only at hadv
    split at hadv
    · cases hadv
      exact h.leave hwait rfl trivial
    · next hready =>
      rw [not_not] at hready
      obtain ⟨huser, hheld, hno⟩ := hconf hready
      cases hadv
      exact h.work hwait rfl huser rfl ⟨hheld, h.pthread_of_ready hready hno, hready⟩
  | stop =>
    dsimp only at hadv
    split at hadv
    · cases hadv
      exact h.leave hwait rfl trivial
    · next hrunning =>
      rw [not_not] at hrunning
      have huser := hconf.2.1 hrunning
      cases hadv
      exact h.work hwait rfl huser rfl ⟨hconf.1, h.unjoined huser hnone (by simp [hrunning])⟩
  | join =>
    dsimp only at hadv
    split at hadv
    · cases hadv
      exact h.leave hwait rfl trivial
    · next hstopped =>
      obtain ⟨huser, hheld⟩ := hconf hstopped
      cases hadv
      exact h.work hwait rfl huser rfl ⟨hheld, h.unjoined huser hnone hstopped⟩
  | destroy =>
    obtain ⟨huser, hheld, hno⟩ := hconf
    dsimp only at hadv
    split at hadv
    · next hrunning =>
      cases hadv
      exact h.work hwait rfl huser rfl ⟨hheld, h.unjoined huser hnone (by simp [hrunning])⟩
    · next hrunning =>
      cases hadv
      exact h.work hwait rfl huser rfl ⟨hheld, hno hrunning⟩

/-- A thread has been waited for. -/
theorem wait (h : s.Sound) {pthread : Option ℕ} (hp : s.callers i = .wait f id k pthread)
    (hjoined : s.Joined pthread) :
    (s.goto i (if f = .destroy then .free id k else .setStopped f id k)).Sound := by
  have hdoing := h.doing i
  rw [hp] at hdoing
  have hno : s.NoLive k := h.noLive fun w hw => by
    rw [hdoing.2] at hw
    rw [hw] at hjoined
    exact hjoined
  have huser : s.NoUser i k := h.noUser (by rw [hp]; rfl)
  refine h.goto ?_ (fun k' hk' => ?_) (fun k' hk' => ?_) fun f' id' k' w hi => ?_
  · split
    · exact ⟨hdoing.1, hno⟩
    · exact ⟨hdoing.1, hno⟩
  · split at hk'
    · cases hk'
      exact huser
    · cases hk'
      exact huser
  · split at hk'
    · cases hk'
    · cases hk'
  · rw [hp] at hi
    cases hi
    exact hjoined

/-- A thread that has been waited for is stopped. -/
theorem setStopped (h : s.Sound) (hp : s.callers i = .setStopped f id k) :
    ((s.setSlot k { s.slots k with state := .stopped }).goto i .idle).Sound := by
  have hdoing := h.doing i
  rw [hp] at hdoing
  refine h.write (h.noUser (by rw [hp]; rfl))
    (fun w o ho hk hpc => absurd (hdoing.2 w o ho hk) hpc) (fun w hw => ⟨hw, fun o ho => ?_⟩)
    (fun _ => h.ne_of_occupied (.inl hdoing.1.1)) trivial (fun k' hk' => ?_) (by simp [hp])
  · obtain ⟨o', ho', hslot, -⟩ := h.handle k w hw
    rw [ho] at ho'
    cases ho'
    rw [hdoing.2 w o ho hslot]
    rfl
  · cases hk'

/-- The slot of a thread that has been destroyed is freed. -/
theorem free (h : s.Sound) (hp : s.callers i = .free id k) :
    ((s.setSlot k { s.slots k with isInitialized := false }).goto i .idle).Sound := by
  have hdoing := h.doing i
  rw [hp] at hdoing
  refine h.write (h.noUser (by rw [hp]; rfl))
    (fun w o ho hk hpc => absurd (hdoing.2 w o ho hk) hpc) (fun w hw => ⟨hw, fun o ho => ?_⟩)
    (fun hocc => ?_) trivial (fun k' hk' => ?_) (by simp [hp])
  · obtain ⟨o', ho', -, hst⟩ := h.handle k w hw
    rw [ho] at ho'
    cases ho'
    exact hst
  · rcases hocc with hocc | hocc
    · cases hocc
    · cases hocc
  · cases hk'

/-- The steps of callers, as long as they conform. -/
theorem advance (h : s.Sound) (hconf : s.Conforms (.advance i created))
    (hadv : s.advance i created = some (a, s')) : s'.Sound := by
  have hdoing := h.doing i
  have hinv := hadv
  rw [ThreadTable.advance] at hadv
  cases hp : s.callers i with
  | idle =>
    rw [hp] at hadv
    cases hadv
  | createFind func k =>
    rw [hp] at hadv
    dsimp only at hadv
    split at hadv
    · cases hadv
      exact h.leave (by simp [hp]) rfl trivial
    · split at hadv
      · cases hadv
        exact h.leave (by simp [hp]) rfl trivial
      · cases hadv
        exact h.leave (by simp [hp]) rfl trivial
  | createClear func k =>
    rw [hp] at hadv
    cases hadv
    exact h.clear hp hconf
  | createNext func k =>
    rw [hp] at hadv hdoing
    cases hadv
    exact h.work (by simp [hp]) rfl (h.noUser (by rw [hp]; rfl)) rfl hdoing
  | createBump func k id =>
    rw [hp] at hadv hdoing
    cases hadv
    exact (h.setNext (id + 1)).work (by simp [hp]) rfl (h.noUser (by rw [hp]; rfl)) rfl hdoing
  | createId func k id =>
    rw [hp] at hadv
    cases hadv
    exact h.setId hp hconf
  -- The slot is filled in step by step. Nobody else uses it, so that only its owner matters.
  | createFunc func k =>
    rw [hp] at hadv hdoing
    cases hadv
    refine h.fill (by rw [hp]; rfl) hdoing.2 rfl rfl (cleared_write hdoing.1 hdoing.2)
      (fun k' hk' => ?_) (by simp [hp])
    cases hk'
    rfl
  | createState k =>
    rw [hp] at hadv hdoing
    cases hadv
    refine h.fill (by rw [hp]; rfl) hdoing.2 rfl rfl (cleared_write hdoing.1 hdoing.2)
      (fun k' hk' => ?_) (by simp [hp])
    cases hk'
    rfl
  | createInit k =>
    rw [hp] at hadv hdoing
    cases hadv
    refine h.fill (by rw [hp]; rfl) hdoing.2 rfl rfl trivial (fun k' hk' => ?_) (by simp [hp])
    cases hk'
    rfl
  | createStop k =>
    rw [hp] at hadv
    cases hadv
    refine h.writeData (by rw [hp]; rfl) rfl rfl rfl rfl (fun hk => ?_) trivial rfl (by simp [hp])
    cases hk
  | createReturn k =>
    rw [hp] at hadv
    cases hadv
    exact h.leave (by simp [hp]) rfl trivial
  | find f id k =>
    rw [hp] at hadv
    dsimp only at hadv
    split at hadv
    · cases hadv
      exact h.leave (by simp [hp]) rfl trivial
    · split at hadv
      · cases hadv
        exact h.leave (by simp [hp]) rfl trivial
      · cases hadv
        exact h.leave (by simp [hp]) rfl trivial
  | test f id k => exact h.test hp hconf hinv
  | startCreate id k =>
    rw [hp] at hadv hdoing
    dsimp only at hadv
    split at hadv
    · cases hadv
      exact h.create hp
    · cases hadv
      exact h.work (by simp [hp]) rfl (h.noUser (by rw [hp]; rfl)) rfl ⟨hdoing.1, hdoing.2.1⟩
  | startError id k =>
    rw [hp] at hadv hdoing
    cases hadv
    refine h.writeCleared (by rw [hp]; rfl) hdoing.2 rfl
      (fun _ => h.ne_of_occupied (.inl hdoing.1.1)) trivial (fun k' hk' => ?_) (by simp [hp])
    cases hk'
  | joinError id k =>
    rw [hp] at hadv hdoing
    dsimp only at hadv
    split at hadv
    · cases hadv
      exact h.leave (by simp [hp]) rfl trivial
    · cases hadv
      exact h.work (by simp [hp]) rfl (h.noUser (by rw [hp]; rfl)) rfl hdoing
  | flag f id k =>
    rw [hp] at hadv hdoing
    cases hadv
    refine h.writeData (by rw [hp]; rfl) rfl rfl rfl rfl (fun hk => ?_)
      ⟨held_write hdoing.1.1 hdoing.1.2, fun w hw => hdoing.2 w ?_⟩ rfl (by simp [hp])
    · cases hk
    · rwa [slots_goto, slots_setSlot] at hw
  | handle f id k =>
    rw [hp] at hadv
    cases hadv
    exact h.callJoin hp
  -- The call returns only once the thread has ended.
  | wait f id k pthread =>
    rw [hp] at hadv
    dsimp only at hadv
    split at hadv
    · next hjoined =>
      cases hadv
      exact h.wait hp hjoined
    · cases hadv
  | setStopped f id k =>
    rw [hp] at hadv
    cases hadv
    exact h.setStopped hp
  | free id k =>
    rw [hp] at hadv
    cases hadv
    exact h.free hp

/-- The steps, as long as they conform. -/
theorem exec (h : s.Sound) {b : ThreadAction} (hconf : s.Conforms b)
    (hexec : s.exec b = some (a, s')) : s'.Sound := by
  cases b with
  | call i c =>
    rw [ThreadTable.exec] at hexec
    split at hexec
    · next hidle =>
      cases hexec
      cases c with
      | create func => exact h.leave (by simp [hidle]) rfl trivial
      | on f id => exact h.leave (by simp [hidle]) rfl trivial
    · cases hexec
  | advance i created => exact h.advance hconf hexec
  | run w value =>
    obtain ⟨o, ho, hrun⟩ := Option.bind_eq_some_iff.1 hexec
    obtain ⟨d, hd, heq⟩ := Option.map_eq_some_iff.1 hrun
    cases heq
    exact h.run ho hd

end Sound

/-! ### What is not disturbed -/

/-- No thread with an identifier executes, or will do so. -/
def Quiet (s : ThreadTable) (id : UInt32) : Prop :=
  ∀ w o, s.os w = some o → o.id = id → ¬ o.pc.Executes

/-- What holds after a step: one thread at most executes the function of a slot, each thread has
    been joined once at most, none has been overtaken by another one that has taken its slot; and
    when stopping or destroying a thread ends with success, it does not execute any more. -/
structure Undisturbed (s : ThreadTable) (b : ThreadAction) (a : Option ThreadAnswer)
    (s' : ThreadTable) : Prop where
  one : ∀ w w' o o', s'.os w = some o → s'.os w' = some o' → o.slot = o'.slot →
    o.pc.Executes → o'.pc.Executes → w = w'
  joins : ∀ w, s'.joins w ≤ 1
  own : ∀ w o, s'.os w = some o → o.pc ≠ .ended → s'.Held o.id o.slot
  quiet : ∀ i created f id, b = .advance i created → (s.callers i).looked = some (f, id) →
    f = .stop ∨ f = .destroy → a = some (.code .ok) → s'.Quiet id

/-- A thread does not execute any more when that of its slot does not. -/
theorem Sound.quiet (h : s.Sound) {id : UInt32} (hheld : s.Held id k) (hnone : s.NoneExecutes k) :
    s.Quiet id := by
  rintro w o ho rfl hexecutes
  exact hnone w o ho (h.slot_eq hheld ho hexecutes.ne_ended) hexecutes

theorem NoLive.noneExecutes (h : s.NoLive k) : s.NoneExecutes k :=
  fun w o ho hslot hexecutes => hexecutes.ne_ended (h w o ho hslot)

/-- When stopping or destroying a thread ends with success, it does not execute any more. -/
theorem Sound.quiet_of_ok (h : s.Sound) {created : Bool} {f : ThreadFn} {id : UInt32}
    (hconf : s.Conforms (.advance i created))
    (hadv : s.advance i created = some (some (.code .ok), s'))
    (hlooked : (s.callers i).looked = some (f, id)) (hf : f = .stop ∨ f = .destroy) :
    s'.Quiet id := by
  have hdoing := h.doing i
  rw [Conforms] at hconf
  rw [ThreadTable.advance] at hadv
  cases hp : s.callers i with
  | test f' id' k =>
    rw [hp] at hlooked hconf hadv
    cases hlooked
    rcases hf with rfl | rfl
    · dsimp only at hadv
      split at hadv
      · next hrunning =>
        cases hadv
        exact h.quiet hconf.1 (hconf.2.2 hrunning)
      · cases hadv
    · dsimp only at hadv
      split at hadv
      · cases hadv
      · cases hadv
  | setStopped f' id' k | free id' k =>
    rw [hp] at hlooked hdoing hadv
    cases hlooked
    cases hadv
    exact h.quiet hdoing.1 (NoLive.noneExecutes hdoing.2)
  | startCreate id' k | startError id' k | joinError id' k =>
    rw [hp] at hlooked
    cases hlooked
    rcases hf with hf | hf
    · cases hf
    · cases hf
  | find f' id' k =>
    rw [hp] at hadv
    dsimp only at hadv
    split at hadv
    · cases hadv
    · split at hadv
      · cases hadv
      · cases hadv
  | flag f' id' k | handle f' id' k =>
    rw [hp] at hadv
    cases hadv
  | wait f' id' k pthread =>
    rw [hp] at hadv
    dsimp only at hadv
    split at hadv
    · cases hadv
    · cases hadv
  | _ =>
    rw [hp] at hlooked
    cases hlooked

/-- **Threads are not disturbed.** In every run whose steps conform, whatever is called and in which
    order all go on: a slot has one thread at most that executes its function, every thread is
    joined once at most and keeps its slot until its wrapper ends, and after `thread_stop` or
    `thread_destroy` has returned `RET_OK`, no thread with its identifier executes. -/
theorem threads_undisturbed {tr : List (ThreadAction × Option ThreadAnswer)} {b : ThreadAction}
    {a : Option ThreadAnswer} (hrun : machine.Run Conforms start tr s) (hconf : s.Conforms b)
    (hstep : machine.step s b a s') : Undisturbed s b a s' := by
  have hsound : s.Sound :=
    hrun.invariant start_sound fun _ _ _ _ h hconf hstep => h.exec hconf hstep
  have hsound' : s'.Sound := hsound.exec hconf hstep
  refine ⟨fun w w' o o' ho ho' hslot hexecutes hexecutes' => ?_, fun w => (hsound'.joined w).1,
    fun w o ho hpc => (hsound'.live w o ho hpc).1, ?_⟩
  · exact hsound'.eq_of_slot ho ho' hexecutes.ne_ended hexecutes'.ne_ended hslot
  · rintro i created f id rfl hlooked hf rfl
    exact hsound.quiet_of_ok hconf hstep hlooked hf

/-- A function is called, and goes on `n` times. -/
def callActions (c : ThreadCall) (n : ℕ) : List ThreadAction :=
  .call 0 c :: List.replicate n (.advance 0 true)

/-- A thread is created and started. -/
def startOne : List ThreadAction := callActions (.create 7) 10 ++ callActions (.start 1) 3

/-- A thread that runs is stopped. -/
theorem threads_undisturbed_stop : ∃ s s', s.Conforms (.advance 0 true) ∧
    machine.step s (.advance 0 true) (some (.code .ok)) s' ∧
    Undisturbed s (.advance 0 true) (some (.code .ok)) s' := by
  have hactions : Machine.After exec Conforms
      (fun s => s.Conforms (.advance 0 true) ∧
        ∃ s', machine.step s (.advance 0 true) (some (.code .ok)) s')
      (startOne ++ List.replicate 4 (.run 0 0) ++ callActions (.stop 1) 4 ++
        List.replicate 4 (.run 0 0) ++ [.advance 0 true]) start := by
    simp [Machine.After, startOne, callActions, ThreadCall.begin, exec, advance, next, ret, goto,
      start, setSlot, setOs, ThreadSlot.zero, launch, runThread, Conforms, Settled, machine, Joined,
      Ended, callJoin, maxThreads, Function.update_apply, NoUser, NoLive, Held, NoneExecutes,
      Occupied]
    refine ⟨fun j hj => ?_, fun j hj => ?_, fun j hj => ?_⟩
    all_goals
      rw [if_neg hj]
      simp [ThreadCaller.uses]
  obtain ⟨tr, s, hrun, -, hconf, s', hstep⟩ := hactions.run (m := machine) fun _ _ _ _ h => h
  exact ⟨s, s', hconf, hstep, threads_undisturbed hrun hconf hstep⟩

/-- A thread is started twice before it runs, and is executed twice. -/
theorem threads_disturbed : ¬ ∀ tr s b a s', machine.Run Machine.anyCall start tr s →
    machine.step s b a s' → Undisturbed s b a s' := by
  intro h
  have hactions : Machine.After exec Machine.anyCall
      (fun s => ∃ s', machine.step s (.run 1 0) none s' ∧
        s'.os 0 = some ⟨0, 1, .executing 7⟩ ∧ s'.os 1 = some ⟨0, 1, .executing 7⟩)
      (startOne ++ callActions (.start 1) 3 ++ List.replicate 4 (.run 0 0) ++
        List.replicate 3 (.run 1 0)) start := by
    simp [Machine.After, startOne, callActions, ThreadCall.begin, exec, advance, next, ret, goto,
      start, setSlot, setOs, ThreadSlot.zero, launch, runThread, machine, Machine.anyCall,
      maxThreads]
  obtain ⟨tr, s, hrun, -, s', hstep, hos, hos'⟩ :=
    hactions.run (m := machine) fun _ _ _ _ h => h
  exact absurd ((h tr s _ _ s' hrun hstep).one 0 1 _ _ hos hos' rfl trivial trivial) (by simp)

end ThreadTable

end FtlFirmware
