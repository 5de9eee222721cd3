import FtlFirmware.Thread.Lifecycle

/-!
# The threads and their slots

A thread that goes on is that of its slot, whose state says where it is; the identifiers in use are
different; and a thread that has been joined has ended, or is being joined (`ThreadTable.Sound`).
This holds after `thread_manager_init` (`ThreadTable.start_sound`), and is kept

* when a caller goes on without writing to the table (`Sound.goto`);
* when it writes to the slot that it works on (`Sound.write`);
* when it starts a thread (`Sound.create`), and waits for one (`Sound.callJoin`);
* when a thread goes on (`Sound.run`).
-/

namespace FtlFirmware

namespace WrapperPc

/-- The state of the slot of a thread. -/
def state : WrapperPc → ThreadState
  | .begin => .ready
  | .total | .ended => .stopped
  | _ => .running

/-- The thread executes its function, or will do so. -/
def Executes : WrapperPc → Prop
  | .begin | .time | .count | .call | .executing _ => True
  | _ => False

theorem Executes.ne_ended {pc : WrapperPc} (h : pc.Executes) : pc ≠ .ended := by
  rintro rfl
  exact h

end WrapperPc

namespace ThreadCaller

/-- The slot that a caller works on. -/
def uses : ThreadCaller → Option ℕ
  | .createNext _ k | .createBump _ k _ | .createId _ k _ | .createFunc _ k | .createState k
  | .createInit k | .createStop k | .createReturn k | .startCreate _ k | .startError _ k
  | .joinError _ k | .flag _ _ k | .handle _ _ k | .wait _ _ k _ | .setStopped _ _ k
  | .free _ k => some k
  | _ => none

/-- The slot that a caller has given an identifier to, and not yet initialised. -/
def names : ThreadCaller → Option ℕ
  | .createFunc _ k | .createState k | .createInit k => some k
  | _ => none

/-- The function that looks up a thread, and its identifier. -/
def looked : ThreadCaller → Option (ThreadFn × UInt32)
  | .find f id _ | .test f id _ | .flag f id _ | .handle f id _ | .wait f id _ _
  | .setStopped f id _ => some (f, id)
  | .startCreate id _ | .startError id _ => some (.start, id)
  | .joinError id _ => some (.join, id)
  | .free id _ => some (.destroy, id)
  | _ => none

theorem uses_of_names {c : ThreadCaller} {k : ℕ} (h : c.names = some k) : c.uses = some k := by
  cases c <;> first | exact h | cases h

end ThreadCaller

namespace ThreadTable

variable (s : ThreadTable)

/-- The threads of a slot have ended. -/
def NoLive (k : ℕ) : Prop := ∀ w o, s.os w = some o → o.slot = k → o.pc = .ended

/-- No thread of a slot executes, or will do so. -/
def NoneExecutes (k : ℕ) : Prop := ∀ w o, s.os w = some o → o.slot = k → ¬ o.pc.Executes

/-- The slot is that of the thread with an identifier. -/
def Held (id : UInt32) (k : ℕ) : Prop :=
  (s.slots k).isInitialized = true ∧ (s.slots k).threadId = id

/-- The slot is about to be filled. -/
def Cleared (k : ℕ) : Prop := (s.slots k).isInitialized = false ∧ (s.slots k).pthread = none

/-- The thread of the slot has not been joined. -/
def Unjoined (k : ℕ) : Prop := ∀ w, (s.slots k).pthread = some w → s.joins w = 0

/-- The slot has an identifier. -/
def Occupied (k : ℕ) : Prop :=
  (s.slots k).isInitialized = true ∨ ∃ i, (s.callers i).names = some k

/-- No caller but `i` works on the slot. -/
def NoUser (i k : ℕ) : Prop := ∀ j ≠ i, (s.callers j).uses ≠ some k

/-- What a caller who works on a slot relies on. -/
def Doing : ThreadCaller → Prop
  | .createNext _ k | .createBump _ k _ | .createId _ k _ | .createFunc _ k | .createState k
  | .createInit k => s.Cleared k
  | .startCreate id k => s.Held id k ∧ (s.slots k).pthread = none ∧ (s.slots k).state = .ready
  | .startError id k => s.Held id k ∧ (s.slots k).pthread = none
  | .joinError id k | .flag _ id k | .handle _ id k => s.Held id k ∧ s.Unjoined k
  | .wait _ id k pthread => s.Held id k ∧ (s.slots k).pthread = pthread
  | .setStopped _ id k | .free id k => s.Held id k ∧ s.NoLive k
  | _ => True

/-- What holds throughout a run. A thread that has not ended is that of its slot, whose state says
    where it is; a thread that has been joined has ended, or is being joined. -/
structure Sound : Prop where
  fresh : ∀ w, s.nextOs ≤ w → s.os w = none ∧ s.joins w = 0
  live : ∀ w o, s.os w = some o → o.pc ≠ .ended →
    s.Held o.id o.slot ∧ (s.slots o.slot).pthread = some w
  handle : ∀ k w, (s.slots k).pthread = some w →
    ∃ o, s.os w = some o ∧ o.slot = k ∧ (s.slots k).state = o.pc.state
  unique : ∀ k k', s.Occupied k → s.Occupied k' → (s.slots k).threadId = (s.slots k').threadId →
    k = k'
  joined : ∀ w, s.joins w ≤ 1 ∧ (s.joins w = 1 → s.Ended w ∨
    ∃ i f id k, s.callers i = .wait f id k (some w))
  alone : ∀ i j k, (s.callers i).uses = some k → (s.callers j).uses = some k → i = j
  doing : ∀ i, s.Doing (s.callers i)

variable {s} {s' : ThreadTable} {i k w : ℕ} {c : ThreadCaller} {t : ThreadSlot} {o : OsThread}

theorem start_sound : start.Sound where
  fresh _ _ := ⟨rfl, rfl⟩
  live _ _ ho := by cases ho
  handle _ _ h := by cases h
  unique k k' h := by
    rcases h with h | ⟨i, h⟩
    · cases h
    · cases h
  joined _ := ⟨Nat.zero_le 1, fun h => absurd h (by simp [start])⟩
  alone _ _ _ h := by cases h
  doing _ := trivial

/-- What a caller relies on concerns the slot that it works on only. -/
theorem Doing.congr (h : s.Doing c)
    (hslot : ∀ k, c.uses = some k → (s'.slots k).isInitialized = (s.slots k).isInitialized ∧
      (s'.slots k).threadId = (s.slots k).threadId ∧ (s'.slots k).pthread = (s.slots k).pthread ∧
      ((s.slots k).pthread = none → (s'.slots k).state = (s.slots k).state) ∧
      (s.NoLive k → s'.NoLive k) ∧
      ∀ w, (s.slots k).pthread = some w → s'.joins w = s.joins w) : s'.Doing c := by
  have hheld : ∀ {id k}, c.uses = some k → s.Held id k → s'.Held id k := fun huses hheld => by
    obtain ⟨hinit, hid, -⟩ := hslot _ huses
    exact ⟨hinit.trans hheld.1, hid.trans hheld.2⟩
  cases c with
  | idle | createFind func k | createClear func k | createStop k | createReturn k | find f id k
  | test f id k => trivial
  | createNext func k | createBump func k id | createId func k id | createFunc func k
  | createState k | createInit k =>
    obtain ⟨hinit, -, hpthread, -⟩ := hslot k rfl
    exact ⟨hinit.trans h.1, hpthread.trans h.2⟩
  | startCreate id k =>
    obtain ⟨-, -, hpthread, hstate, -⟩ := hslot k rfl
    exact ⟨hheld rfl h.1, hpthread.trans h.2.1, (hstate h.2.1).trans h.2.2⟩
  | startError id k =>
    obtain ⟨-, -, hpthread, -⟩ := hslot k rfl
    exact ⟨hheld rfl h.1, hpthread.trans h.2⟩
  | joinError id k | flag f id k | handle f id k =>
    obtain ⟨-, -, hpthread, -, -, hjoins⟩ := hslot k rfl
    refine ⟨hheld rfl h.1, fun w hw => ?_⟩
    rw [hpthread] at hw
    rw [hjoins w hw]
    exact h.2 w hw
  | wait f id k pthread =>
    obtain ⟨-, -, hpthread, -⟩ := hslot k rfl
    exact ⟨hheld rfl h.1, hpthread.trans h.2⟩
  | setStopped f id k | free id k =>
    obtain ⟨-, -, -, -, hno, -⟩ := hslot k rfl
    exact ⟨hheld rfl h.1, hno h.2⟩

/-- What a caller relies on does not concern where callers are. -/
theorem Doing.goto (h : s.Doing c) (i : ℕ) (c' : ThreadCaller) : (s.goto i c').Doing c :=
  h.congr fun _ _ => ⟨rfl, rfl, rfl, fun _ => rfl, id, fun _ _ => rfl⟩

@[simp] theorem callers_goto (s : ThreadTable) (i : ℕ) (c : ThreadCaller) :
    (s.goto i c).callers i = c :=
  Function.update_self ..

@[simp] theorem slots_goto (s : ThreadTable) (i : ℕ) (c : ThreadCaller) :
    (s.goto i c).slots = s.slots :=
  rfl

theorem callers_goto_of_ne {j : ℕ} (hne : j ≠ i) : (s.goto i c).callers j = s.callers j :=
  Function.update_of_ne hne ..

@[simp] theorem slots_setSlot (s : ThreadTable) (k : ℕ) (t : ThreadSlot) :
    (s.setSlot k t).slots k = t :=
  Function.update_self ..

theorem slots_setSlot_of_ne {k' : ℕ} (hne : k' ≠ k) : (s.setSlot k t).slots k' = s.slots k' :=
  Function.update_of_ne hne ..

/-! ### When a caller goes on -/

theorem occupied_goto (hocc : (s.goto i c).Occupied k) : c.names = some k ∨ s.Occupied k := by
  rcases hocc with hinit | ⟨j, hj⟩
  · exact .inr (.inl hinit)
  · by_cases hji : j = i
    · rw [hji, callers_goto] at hj
      exact .inl hj
    · rw [callers_goto_of_ne hji] at hj
      exact .inr (.inr ⟨j, hj⟩)

/-- Nobody else works on a slot, if nobody else does when it is taken. -/
theorem alone_goto
    (halone : ∀ i j k, (s.callers i).uses = some k → (s.callers j).uses = some k → i = j)
    (huses : ∀ k, c.uses = some k → s.NoUser i k) (j j' k : ℕ)
    (hj : ((s.goto i c).callers j).uses = some k)
    (hj' : ((s.goto i c).callers j').uses = some k) : j = j' := by
  by_cases hji : j = i
  · by_cases hji' : j' = i
    · rw [hji, hji']
    · rw [hji, callers_goto] at hj
      rw [callers_goto_of_ne hji'] at hj'
      exact absurd hj' (huses k hj j' hji')
  · rw [callers_goto_of_ne hji] at hj
    by_cases hji' : j' = i
    · rw [hji', callers_goto] at hj'
      exact absurd hj (huses k hj' j hji)
    · rw [callers_goto_of_ne hji'] at hj'
      exact halone j j' k hj hj'

/-- A thread that is being joined still is, unless it has ended. -/
theorem joined_goto (hwait : ∀ f id k w, s.callers i = .wait f id k (some w) → s.Ended w)
    (hjoined : s.Ended w ∨ ∃ j f id k, s.callers j = .wait f id k (some w)) :
    (s.goto i c).Ended w ∨ ∃ j f id k, (s.goto i c).callers j = .wait f id k (some w) := by
  rcases hjoined with hended | ⟨j, f, id, k, hj⟩
  · exact .inl hended
  · by_cases hji : j = i
    · exact .inl (hwait f id k w (hji ▸ hj))
    · exact .inr ⟨j, f, id, k, (callers_goto_of_ne hji).trans hj⟩

namespace Sound

/-- A thread that has not ended is the one of its slot. -/
theorem eq_of_slot (h : s.Sound) {w' : ℕ} {o' : OsThread} (ho : s.os w = some o)
    (ho' : s.os w' = some o') (hpc : o.pc ≠ .ended) (hpc' : o'.pc ≠ .ended)
    (hslot : o.slot = o'.slot) : w = w' := by
  have hw := (h.live w o ho hpc).2
  rw [hslot, (h.live w' o' ho' hpc').2] at hw
  exact (Option.some.inj hw).symm

/-- A slot whose thread, if any, has ended has none that has not. -/
theorem noLive (h : s.Sound) (hended : ∀ w, (s.slots k).pthread = some w → s.Ended w) :
    s.NoLive k := by
  rintro w o ho rfl
  by_contra hpc
  have heq := hended w (h.live w o ho hpc).2
  rw [Ended, ho] at heq
  exact hpc (Option.some.inj heq)

/-- A slot that has no thread has none that goes on. -/
theorem noLive_of_none (h : s.Sound) (hnone : (s.slots k).pthread = none) : s.NoLive k :=
  h.noLive fun w hw => by
    rw [hnone] at hw
    cases hw

/-- Nobody else works on the slot of a caller. -/
theorem noUser (h : s.Sound) (hi : (s.callers i).uses = some k) : s.NoUser i k :=
  fun j hne hj => hne (h.alone j i k hj hi)

/-- The threads with the identifier of a slot are in this slot, as long as they go on. -/
theorem slot_eq (h : s.Sound) (hheld : s.Held o.id k) (ho : s.os w = some o)
    (hpc : o.pc ≠ .ended) : o.slot = k := by
  have hlive := (h.live w o ho hpc).1
  exact h.unique o.slot k (.inl hlive.1) (.inl hheld.1) (hlive.2.trans hheld.2.symm)

/-- A caller is elsewhere. -/
theorem goto (h : s.Sound) (hdoing : s.Doing c)
    (huses : ∀ k, c.uses = some k → s.NoUser i k)
    (hnames : ∀ k, c.names = some k → s.Occupied k)
    (hwait : ∀ f id k w, s.callers i = .wait f id k (some w) → s.Ended w) :
    (s.goto i c).Sound where
  fresh := h.fresh
  live := h.live
  handle := h.handle
  unique k k' hk hk' :=
    h.unique k k' ((occupied_goto hk).elim (hnames k) id) ((occupied_goto hk').elim (hnames k') id)
  joined w := ⟨(h.joined w).1, fun hw => joined_goto hwait ((h.joined w).2 hw)⟩
  alone := alone_goto h.alone huses
  doing j := by
    by_cases hji : j = i
    · rw [hji, callers_goto]
      exact hdoing.goto i c
    · rw [callers_goto_of_ne hji]
      exact (h.doing j).goto i c

/-- The identifier that is next does not matter. -/
theorem setNext (h : s.Sound) (id : UInt32) : Sound { s with nextThreadId := id } where
  fresh := h.fresh
  live := h.live
  handle := h.handle
  unique := h.unique
  joined := h.joined
  alone := h.alone
  doing j := (h.doing j).congr fun _ _ =>
    ⟨rfl, rfl, rfl, fun _ => rfl, fun hno => hno, fun _ _ => rfl⟩

/-- What is in use after a caller has written to a slot, and has gone on. -/
theorem occupied_write (huses : ∀ k', c.uses = some k' → k' = k) {k' : ℕ}
    (hne : k' ≠ k) (hocc : ((s.setSlot k t).goto i c).Occupied k') : s.Occupied k' := by
  rcases occupied_goto hocc with hnames | hinit | huser
  · exact absurd (huses k' (ThreadCaller.uses_of_names hnames)) hne
  · rw [slots_setSlot_of_ne hne] at hinit
    exact .inl hinit
  · exact .inr huser

theorem occupied_write_self (huser : s.NoUser i k)
    (hocc : ((s.setSlot k t).goto i c).Occupied k) :
    t.isInitialized = true ∨ c.names = some k := by
  rcases hocc with hinit | ⟨j, hj⟩
  · refine .inl ?_
    rwa [slots_goto, slots_setSlot] at hinit
  · by_cases hji : j = i
    · rw [hji, callers_goto] at hj
      exact .inr hj
    · rw [callers_goto_of_ne hji] at hj
      exact absurd (ThreadCaller.uses_of_names hj) (huser j hji)

/-- A caller writes to the slot that it works on, and goes on. -/
theorem write (h : s.Sound) (huser : s.NoUser i k)
    (hlive : ∀ w o, s.os w = some o → o.slot = k → o.pc ≠ .ended →
      t.threadId = (s.slots k).threadId ∧ t.pthread = (s.slots k).pthread ∧
        t.isInitialized = true)
    (hhandle : ∀ w, t.pthread = some w → (s.slots k).pthread = some w ∧
      ∀ o, s.os w = some o → t.state = o.pc.state)
    (hunique : t.isInitialized = true ∨ c.names = some k → ∀ k' ≠ k, s.Occupied k' →
      (s.slots k').threadId ≠ t.threadId)
    (hdoing : ((s.setSlot k t).goto i c).Doing c)
    (huses : ∀ k', c.uses = some k' → k' = k)
    (hwait : ∀ f id k w, s.callers i ≠ .wait f id k (some w)) :
    ((s.setSlot k t).goto i c).Sound where
  fresh := h.fresh
  live w o ho hpc := by
    rw [Held, slots_goto]
    by_cases hk : o.slot = k
    · obtain ⟨hid, hpthread, hinit⟩ := hlive w o ho hk hpc
      obtain ⟨hheld, hw⟩ := h.live w o ho hpc
      rw [hk] at hheld hw ⊢
      rw [slots_setSlot]
      exact ⟨⟨hinit, hid.trans hheld.2⟩, hpthread.trans hw⟩
    · rw [slots_setSlot_of_ne hk]
      exact h.live w o ho hpc
  handle k' w hw := by
    rw [slots_goto] at hw ⊢
    by_cases hk : k' = k
    · rw [hk] at hw ⊢
      rw [slots_setSlot] at hw ⊢
      obtain ⟨hold, hstate⟩ := hhandle w hw
      obtain ⟨o, ho, hslot, -⟩ := h.handle k w hold
      exact ⟨o, ho, hslot, hstate o ho⟩
    · rw [slots_setSlot_of_ne hk] at hw ⊢
      exact h.handle k' w hw
  unique k₁ k₂ hk₁ hk₂ heq := by
    -- The other slots that are occupied were so before.
    have hold : ∀ k' ≠ k, ((s.setSlot k t).goto i c).Occupied k' → s.Occupied k' :=
      fun k' hne hocc => occupied_write huses hne hocc
    have hnew : ((s.setSlot k t).goto i c).Occupied k → t.isInitialized = true ∨ c.names = some k :=
      occupied_write_self huser
    rw [slots_goto] at heq
    by_cases hk : k₁ = k
    · by_cases hk' : k₂ = k
      · rw [hk, hk']
      · rw [hk] at hk₁ heq
        rw [slots_setSlot, slots_setSlot_of_ne hk'] at heq
        exact absurd heq.symm (hunique (hnew hk₁) k₂ hk' (hold k₂ hk' hk₂))
    · rw [slots_setSlot_of_ne hk] at heq
      by_cases hk' : k₂ = k
      · rw [hk'] at hk₂ heq
        rw [slots_setSlot] at heq
        exact absurd heq (hunique (hnew hk₂) k₁ hk (hold k₁ hk hk₁))
      · rw [slots_setSlot_of_ne hk'] at heq
        exact h.unique k₁ k₂ (hold k₁ hk hk₁) (hold k₂ hk' hk₂) heq
  joined w := ⟨(h.joined w).1, fun hw => joined_goto (s := s.setSlot k t)
    (fun f id k' w' hi => absurd hi (hwait f id k' w')) ((h.joined w).2 hw)⟩
  alone := alone_goto h.alone fun k' hk' => huses k' hk' ▸ huser
  doing j := by
    by_cases hji : j = i
    · rw [hji, callers_goto]
      exact hdoing
    · rw [callers_goto_of_ne hji]
      refine (h.doing j).congr fun k' hk' => ?_
      have hne : k' ≠ k := fun heq => huser j hji (heq ▸ hk')
      rw [slots_goto, slots_setSlot_of_ne hne]
      exact ⟨rfl, rfl, rfl, fun _ => rfl, fun hno => hno, fun _ _ => rfl⟩

/-- Slots that have the same thread are the same. -/
theorem eq_of_pthread (h : s.Sound) {k' : ℕ} (hw : (s.slots k).pthread = some w)
    (hw' : (s.slots k').pthread = some w) : k = k' := by
  obtain ⟨o, ho, hslot, -⟩ := h.handle k w hw
  obtain ⟨o', ho', hslot', -⟩ := h.handle k' w hw'
  rw [ho] at ho'
  cases ho'
  exact hslot.symm.trans hslot'

/-- A thread is about to be joined. -/
theorem callJoin (h : s.Sound) {f : ThreadFn} {id : UInt32}
    (hi : s.callers i = .handle f id k) :
    ((s.callJoin (s.slots k).pthread).goto i (.wait f id k (s.slots k).pthread)).Sound := by
  have hdoing : s.Held id k ∧ s.Unjoined k := by
    have hdoing := h.doing i
    rwa [hi] at hdoing
  have huser : s.NoUser i k := h.noUser (by rw [hi]; rfl)
  have hsub : ∀ k', ((s.callJoin (s.slots k).pthread).goto i
      (.wait f id k (s.slots k).pthread)).Occupied k' → s.Occupied k' := fun k' hk' =>
    (occupied_goto hk').resolve_left (by simp [ThreadCaller.names])
  exact {
    fresh := fun w hw => by
      refine ⟨(h.fresh w hw).1, ?_⟩
      have hne : ¬ (s.slots k).pthread = some w := fun heq => by
        obtain ⟨o, ho, -⟩ := h.handle k w heq
        rw [(h.fresh w hw).1] at ho
        cases ho
      exact (if_neg hne).trans (h.fresh w hw).2
    live := h.live
    handle := h.handle
    unique := fun k₁ k₂ hk₁ hk₂ heq => h.unique k₁ k₂ (hsub k₁ hk₁) (hsub k₂ hk₂) heq
    joined := fun w => by
      -- The thread of the slot has not been joined yet, and the caller waits for it now.
      by_cases hw : (s.slots k).pthread = some w
      · have hjoins : (if (s.slots k).pthread = some w then s.joins w + 1 else s.joins w) = 1 := by
          rw [if_pos hw, hdoing.2 w hw]
        exact ⟨hjoins.le, fun _ => .inr ⟨i, f, id, k, by rw [callers_goto, hw]⟩⟩
      · have hjoins : (if (s.slots k).pthread = some w then s.joins w + 1 else s.joins w) =
            s.joins w := if_neg hw
        refine ⟨hjoins.trans_le (h.joined w).1, fun hone => ?_⟩
        refine joined_goto (s := s.callJoin (s.slots k).pthread) (fun f' id' k' w' hi' => ?_)
          ((h.joined w).2 (hjoins.symm.trans hone))
        exact absurd (hi.symm.trans hi') (by simp)
    alone := alone_goto h.alone fun k' hk' => by
      cases hk'
      exact huser
    doing := fun j => by
      by_cases hji : j = i
      · rw [hji, callers_goto]
        exact ⟨hdoing.1, rfl⟩
      · rw [callers_goto_of_ne hji]
        refine (h.doing j).congr fun k' hk' => ⟨rfl, rfl, rfl, fun _ => rfl,
          fun hno => hno, fun w hw => ?_⟩
        refine if_neg fun hw' => huser j hji ?_
        rw [h.eq_of_pthread hw' hw]
        exact hk' }

/-- A thread is started. -/
theorem create (h : s.Sound) {id : UInt32} (hi : s.callers i = .startCreate id k) :
    ((s.launch k).goto i .idle).Sound := by
  have hdoing : s.Held id k ∧ (s.slots k).pthread = none ∧ (s.slots k).state = .ready := by
    have hdoing := h.doing i
    rwa [hi] at hdoing
  -- The slot is the caller's own, and the thread that is created has no other.
  have huser : s.NoUser i k := h.noUser (by rw [hi]; rfl)
  have hno := h.noLive_of_none hdoing.2.1
  have hself : ((s.launch k).goto i .idle).slots k = { s.slots k with pthread := some s.nextOs } :=
    Function.update_self ..
  have hslot : ∀ k', k' ≠ k → ((s.launch k).goto i .idle).slots k' = s.slots k' := fun k' hne =>
    Function.update_of_ne hne ..
  have hnew : ((s.launch k).goto i .idle).os s.nextOs = some ⟨k, (s.slots k).threadId, .begin⟩ :=
    Function.update_self ..
  have hold : ∀ w, w ≠ s.nextOs → ((s.launch k).goto i .idle).os w = s.os w := fun w hne =>
    Function.update_of_ne hne ..
  have hids : ∀ k', (((s.launch k).goto i .idle).slots k').threadId = (s.slots k').threadId ∧
      (((s.launch k).goto i .idle).slots k').isInitialized = (s.slots k').isInitialized := by
    intro k'
    by_cases hk : k' = k
    · rw [hk, hself]
      exact ⟨rfl, rfl⟩
    · rw [hslot k' hk]
      exact ⟨rfl, rfl⟩
  have hsub : ∀ k', ((s.launch k).goto i .idle).Occupied k' → s.Occupied k' := by
    intro k' hk'
    rcases occupied_goto hk' with hnames | hinit | hnames
    · cases hnames
    · exact .inl ((hids k').2 ▸ hinit)
    · exact .inr hnames
  exact {
    fresh := fun w hw => by
      have hlt : s.nextOs < w := hw
      rw [hold w (Nat.ne_of_gt hlt)]
      exact h.fresh w hlt.le
    live := fun w o ho hpc => by
      by_cases hw : w = s.nextOs
      · subst hw
        rw [hnew] at ho
        cases ho
        refine ⟨⟨(hids k).2.trans hdoing.1.1, (hids k).1⟩, ?_⟩
        rw [hself]
      · rw [hold w hw] at ho
        have hne : o.slot ≠ k := fun heq => hpc (hno w o ho heq)
        rw [Held, hslot o.slot hne]
        exact h.live w o ho hpc
    handle := fun k' w hw => by
      by_cases hk : k' = k
      · rw [hk, hself] at hw ⊢
        cases hw
        exact ⟨_, hnew, rfl, hdoing.2.2⟩
      · rw [hslot k' hk] at hw ⊢
        obtain ⟨o, ho, hs⟩ := h.handle k' w hw
        have hne : w ≠ s.nextOs := fun heq => by
          rw [heq, (h.fresh s.nextOs le_rfl).1] at ho
          cases ho
        exact ⟨o, (hold w hne).trans ho, hs⟩
    unique := fun k₁ k₂ hk₁ hk₂ heq => by
      rw [(hids k₁).1, (hids k₂).1] at heq
      exact h.unique k₁ k₂ (hsub k₁ hk₁) (hsub k₂ hk₂) heq
    joined := fun w => by
      refine ⟨(h.joined w).1, fun hw => ?_⟩
      have hne : w ≠ s.nextOs := fun heq => by
        rw [heq] at hw
        exact absurd (hw.symm.trans (h.fresh s.nextOs le_rfl).2) Nat.one_ne_zero
      refine joined_goto (s := s.launch k) (fun f id' k' w' hi' => ?_)
        (((h.joined w).2 hw).imp_left fun hended => ?_)
      · exact absurd (hi.symm.trans hi') (by simp)
      · exact (congrArg (Option.map OsThread.pc) (hold w hne)).trans hended
    alone := alone_goto h.alone fun k' hk' => by cases hk'
    doing := fun j => by
      by_cases hji : j = i
      · rw [hji, callers_goto]
        trivial
      · rw [callers_goto_of_ne hji]
        refine (h.doing j).congr fun k' hk' => ?_
        have hne : k' ≠ k := fun heq => huser j hji (heq ▸ hk')
        rw [hslot k' hne]
        refine ⟨rfl, rfl, rfl, fun _ => rfl, fun hno' w o ho hs => ?_, fun _ _ => rfl⟩
        have hw : w ≠ s.nextOs := fun heq => by
          rw [heq, hnew] at ho
          cases ho
          exact hne hs.symm
        rw [hold w hw] at ho
        exact hno' w o ho hs }

/-- What a step of a thread writes to its slot. -/
theorem runThread_spec {value : ℕ} (hr : s.runThread w value o = some s') :
    o.pc ≠ .ended ∧ ∃ t pc, s' = (s.setSlot o.slot t).setOs w { o with pc } ∧
      t.isInitialized = (s.slots o.slot).isInitialized ∧
      t.threadId = (s.slots o.slot).threadId ∧ t.pthread = (s.slots o.slot).pthread ∧
      ((s.slots o.slot).state = o.pc.state → t.state = pc.state) := by
  have hsame : ∀ o' : OsThread, s.setOs w o' = (s.setSlot o.slot (s.slots o.slot)).setOs w o' :=
    fun o' => by rw [setSlot, Function.update_eq_self]
  obtain ⟨slot, id, pc⟩ := o
  cases pc with
  | ended => cases hr
  | call | executing func =>
    cases hr
    exact ⟨by simp, _, _, hsame _, rfl, rfl, rfl, fun hs => hs⟩
  | begin | stopping =>
    cases hr
    exact ⟨by simp, _, _, rfl, rfl, rfl, rfl, fun _ => rfl⟩
  | time | count | storing retval | total =>
    cases hr
    exact ⟨by simp, _, _, rfl, rfl, rfl, rfl, fun hs => hs⟩

/-- A thread goes on, and writes to its slot. -/
theorem run (h : s.Sound) {value : ℕ} (ho : s.os w = some o)
    (hr : s.runThread w value o = some s') : s'.Sound := by
  obtain ⟨hpc, t, pc, rfl, hinit, hid, hpthread, hstate⟩ := runThread_spec hr
  obtain ⟨hheld, hw⟩ := h.live w o ho hpc
  have hself : ((s.setSlot o.slot t).setOs w { o with pc }).slots o.slot = t :=
    Function.update_self ..
  have hslot : ∀ k, k ≠ o.slot →
      ((s.setSlot o.slot t).setOs w { o with pc }).slots k = s.slots k := fun k hne =>
    Function.update_of_ne hne ..
  have hnew : ((s.setSlot o.slot t).setOs w { o with pc }).os w = some { o with pc } :=
    Function.update_self ..
  have hold : ∀ w', w' ≠ w →
      ((s.setSlot o.slot t).setOs w { o with pc }).os w' = s.os w' := fun w' hne =>
    Function.update_of_ne hne ..
  -- Of a slot, only the state changes, and other data.
  have hkept : ∀ k, (((s.setSlot o.slot t).setOs w { o with pc }).slots k).isInitialized =
      (s.slots k).isInitialized ∧
      (((s.setSlot o.slot t).setOs w { o with pc }).slots k).threadId = (s.slots k).threadId ∧
      (((s.setSlot o.slot t).setOs w { o with pc }).slots k).pthread = (s.slots k).pthread := by
    intro k
    by_cases hk : k = o.slot
    · rw [hk, hself]
      exact ⟨hinit, hid, hpthread⟩
    · rw [hslot k hk]
      exact ⟨rfl, rfl, rfl⟩
  exact {
    fresh := fun w' hw' => by
      have hne : w' ≠ w := fun heq => by
        rw [← heq, (h.fresh w' hw').1] at ho
        cases ho
      rw [hold w' hne]
      exact h.fresh w' hw'
    live := fun w' o' ho' hpc' => by
      rw [Held, (hkept o'.slot).1, (hkept o'.slot).2.1, (hkept o'.slot).2.2]
      by_cases heq : w' = w
      · rw [heq, hnew] at ho'
        cases ho'
        rw [heq]
        exact ⟨hheld, hw⟩
      · rw [hold w' heq] at ho'
        exact h.live w' o' ho' hpc'
    handle := fun k w' hw' => by
      rw [(hkept k).2.2] at hw'
      obtain ⟨o', ho', hs, hst⟩ := h.handle k w' hw'
      by_cases hk : k = o.slot
      · rw [hk, hw] at hw'
        cases hw'
        rw [ho] at ho'
        cases ho'
        exact ⟨_, hnew, hs, by rw [hk, hself]; exact hstate (hk ▸ hst)⟩
      · have hne : w' ≠ w := fun heq => by
          rw [heq, ho] at ho'
          cases ho'
          exact hk hs.symm
        rw [hslot k hk]
        exact ⟨o', (hold w' hne).trans ho', hs, hst⟩
    unique := fun k₁ k₂ hk₁ hk₂ heq => by
      have hsub : ∀ k, ((s.setSlot o.slot t).setOs w { o with pc }).Occupied k → s.Occupied k :=
        fun k hk => hk.imp_left fun hinit => (hkept k).1 ▸ hinit
      rw [(hkept k₁).2.1, (hkept k₂).2.1] at heq
      exact h.unique k₁ k₂ (hsub k₁ hk₁) (hsub k₂ hk₂) heq
    joined := fun w' => by
      refine ⟨(h.joined w').1, fun hj => ?_⟩
      rcases (h.joined w').2 hj with hended | hwait
      · refine .inl ?_
        have hne : w' ≠ w := fun heq => by
          rw [Ended, heq, ho] at hended
          exact hpc (Option.some.inj hended)
        rw [Ended, hold w' hne]
        exact hended
      · exact .inr hwait
    alone := h.alone
    doing := fun j => by
      refine (h.doing j).congr fun k _ => ⟨(hkept k).1, (hkept k).2.1, (hkept k).2.2,
        fun hnone => ?_, fun hno w' o' ho' hs => ?_, fun _ _ => rfl⟩
      · have hk : k ≠ o.slot := fun heq => by
          rw [heq, hw] at hnone
          cases hnone
        rw [hslot k hk]
      · have hne : w' ≠ w := fun heq => by
          rw [heq, hnew] at ho'
          cases ho'
          exact hpc (hno w o ho hs)
        rw [hold w' hne] at ho'
        exact hno w' o' ho' hs }

/-- The thread of a slot whose state says that it has not ended has not been joined. -/
theorem unjoined (h : s.Sound) (hnouser : s.NoUser i k) (hi : (s.callers i).uses = none)
    (hstate : (s.slots k).state ≠ .stopped) : s.Unjoined k := by
  intro w hw
  by_contra hne
  have hone : s.joins w = 1 := by
    have hle := (h.joined w).1
    omega
  obtain ⟨o, ho, -, hst⟩ := h.handle k w hw
  rcases (h.joined w).2 hone with hended | ⟨j, f, id, k', hj⟩
  · rw [Ended, ho] at hended
    have hpc : o.pc = .ended := Option.some.inj hended
    rw [hst, hpc] at hstate
    exact hstate rfl
  · have hdoing := h.doing j
    rw [hj] at hdoing
    have hk : k' = k := h.eq_of_pthread hdoing.2 hw
    by_cases hji : j = i
    · rw [← hji, hj] at hi
      cases hi
    · refine hnouser j hji ?_
      rw [hj, ← hk]
      rfl

end Sound

end ThreadTable

end FtlFirmware
