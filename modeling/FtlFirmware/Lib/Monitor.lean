import FtlFirmware.Lib.Run
import Mathlib.Algebra.Order.Group.Nat
import Mathlib.Data.List.Basic

/-!
# Monitors

A *monitor* is a state under a mutex, with one condition variable: a request whose condition does
not hold goes to sleep on the variable, and takes another turn when it has been woken up. A turn
that changes the state may wake up one of the sleepers, whichever, or all of them. A sleeper may
also wake up for no reason, or give up when its time is over.

* `run_keen`: if every turn that may help a sleeper wakes up all of them, then nobody ever sleeps
  while its condition holds;
* `run_outcomes`: the answers come one after another, each that of a turn or of giving up;
* `run_atomic`: if all are woken up, a request gives up only where its condition does not hold;
* `run_attended`: if a turn wakes up one sleeper for every unit of a resource that it provides, and
  those that sleep at the same time wait for the same resource, then at least as many of them are
  awake as there are units, as long as somebody sleeps.
-/

namespace FtlFirmware

/-- Whom a turn wakes up. -/
inductive Wake
  | nobody
  | one
  | all
  deriving DecidableEq

/-- A monitor with the state `σ`, the requests `κ` and the answers `β`. -/
structure Monitor (σ κ β : Type*) where
  /-- The turn of a request: its answer, the next state and whom it wakes up, if its condition
      holds. -/
  turn : κ → σ → Option (β × σ × Wake)
  /-- Whether a request waits for its condition. -/
  waits : κ → Bool
  /-- What a request that does not wait any longer answers. -/
  expired : κ → β

namespace Monitor

variable {σ κ β ι : Type*}

/-- The state, the requests that sleep, and those that have been woken up, all with their owners. -/
structure State (σ κ ι : Type*) where
  shared : σ
  asleep : List (ι × κ)
  awake : List (ι × κ)

/-- What happens: a request is made; one that has been woken up takes its turn; a sleeper wakes up
    for no reason, or its time is over. Where a turn wakes up one sleeper, `pick` says which. -/
inductive Action (κ ι : Type*)
  | call (t : ι) (c : κ) (pick : ℕ)
  | resume (i pick : ℕ)
  | rouse (i : ℕ)
  | expire (i : ℕ)

/-- The request that is made, if any, with its owner. -/
def Action.request : Action κ ι → Option (ι × κ)
  | .call t c _ => some (t, c)
  | _ => none

namespace State

/-- The sleeper `i` wakes up. -/
def rouse (s : State σ κ ι) (i : ℕ) : State σ κ ι :=
  match s.asleep[i]? with
  | none => s
  | some w => { s with asleep := s.asleep.eraseIdx i, awake := w :: s.awake }

/-- A turn wakes up sleepers. -/
def wake (s : State σ κ ι) (pick : ℕ) : Wake → State σ κ ι
  | .nobody => s
  | .one => s.rouse (pick % s.asleep.length)
  | .all => { s with asleep := [], awake := s.asleep ++ s.awake }

/-- Whether an owner waits for an answer. -/
def Waiting (s : State σ κ ι) (t : ι) : Prop := ∃ w ∈ s.asleep ++ s.awake, w.1 = t

instance [DecidableEq ι] (s : State σ κ ι) (t : ι) : Decidable (s.Waiting t) :=
  inferInstanceAs (Decidable (∃ w ∈ s.asleep ++ s.awake, w.1 = t))

end State

variable (m : Monitor σ κ β)

/-- A request takes its turn, or goes to sleep. -/
def take (s : State σ κ ι) (t : ι) (c : κ) (pick : ℕ) : Option (ι × κ × β) × State σ κ ι :=
  match m.turn c s.shared with
  | some (b, x, w) => (some (t, c, b), { s with shared := x }.wake pick w)
  | none =>
    if m.waits c then (none, { s with asleep := (t, c) :: s.asleep })
    else (some (t, c, m.expired c), s)

/-- Executes an action. The answer, if there is one, goes to the owner of the request. -/
def exec [DecidableEq ι] (s : State σ κ ι) :
    Action κ ι → Option (Option (ι × κ × β) × State σ κ ι)
  | .call t c pick => if s.Waiting t then none else some (m.take s t c pick)
  | .resume i pick =>
    match s.awake[i]? with
    | none => none
    | some (t, c) => some (m.take { s with awake := s.awake.eraseIdx i } t c pick)
  | .rouse i => if i < s.asleep.length then some (none, s.rouse i) else none
  | .expire i =>
    match s.asleep[i]? with
    | none => none
    | some (t, c) => some (some (t, c, m.expired c), { s with asleep := s.asleep.eraseIdx i })

/-- The monitor as a machine. -/
def machine [DecidableEq ι] :
    Machine (State σ κ ι) (Action κ ι) (Option (ι × κ × β)) where
  step s a b s' := m.exec s a = some (b, s')

/-! ## What an action does -/

/-- Who takes a turn was not waiting, or has been woken up. -/
inductive Ready (s : State σ κ ι) : Action κ ι → ι → κ → List (ι × κ) → Prop
  | new {t c pick} : ¬ s.Waiting t → Ready s (.call t c pick) t c s.awake
  | woken {t c awake i pick} : s.awake.Perm ((t, c) :: awake) → Ready s (.resume i pick) t c awake

/-- All that an action can do. -/
inductive Effect (s : State σ κ ι) (a : Action κ ι) : Option (ι × κ × β) → State σ κ ι → Prop
  | answered {t c awake b x w} (pick : ℕ) : Ready s a t c awake →
      m.turn c s.shared = some (b, x, w) →
      Effect s a (some (t, c, b)) (State.wake ⟨x, s.asleep, awake⟩ pick w)
  | slept {t c awake} : Ready s a t c awake → m.turn c s.shared = none → m.waits c →
      Effect s a none ⟨s.shared, (t, c) :: s.asleep, awake⟩
  | refused {t c awake} : Ready s a t c awake → m.turn c s.shared = none → ¬ m.waits c →
      Effect s a (some (t, c, m.expired c)) ⟨s.shared, s.asleep, awake⟩
  | roused (i : ℕ) : Effect s a none (s.rouse i)
  | gaveUp {t c asleep} : s.asleep.Perm ((t, c) :: asleep) →
      Effect s a (some (t, c, m.expired c)) ⟨s.shared, asleep, s.awake⟩

/-- An element of a list and the others. -/
theorem perm_eraseIdx {α : Type*} {l : List α} {i : ℕ} {a : α} (h : l[i]? = some a) :
    l.Perm (a :: l.eraseIdx i) := by
  obtain ⟨hi, rfl⟩ := List.getElem?_eq_some_iff.1 h
  rw [List.eraseIdx_eq_take_drop_succ]
  conv_lhs => rw [← List.take_append_drop i l, List.drop_eq_getElem_cons hi]
  exact List.perm_middle

variable {m} {s s' : State σ κ ι} {a : Action κ ι} {b : Option (ι × κ × β)}

theorem effect_take {t : ι} {c : κ} {awake : List (ι × κ)} (h : Ready s a t c awake) (pick : ℕ) :
    m.Effect s a (m.take ⟨s.shared, s.asleep, awake⟩ t c pick).1
      (m.take ⟨s.shared, s.asleep, awake⟩ t c pick).2 := by
  unfold take
  split
  · rename_i hturn
    exact .answered pick h hturn
  · rename_i hturn
    split
    · rename_i hwaits
      exact .slept h hturn hwaits
    · rename_i hwaits
      exact .refused h hturn hwaits

theorem effect_exec [DecidableEq ι] (h : m.exec s a = some (b, s')) : m.Effect s a b s' := by
  cases a with
  | call t c pick =>
    simp only [exec] at h
    split at h
    · cases h
    · rename_i hnew
      obtain ⟨rfl, rfl⟩ := Prod.mk.inj (Option.some.inj h)
      exact effect_take (.new hnew) pick
  | resume i pick =>
    simp only [exec] at h
    split at h
    · cases h
    · rename_i hi
      obtain ⟨rfl, rfl⟩ := Prod.mk.inj (Option.some.inj h)
      exact effect_take (.woken (perm_eraseIdx hi)) pick
  | rouse i =>
    simp only [exec] at h
    split at h
    · obtain ⟨rfl, rfl⟩ := Prod.mk.inj (Option.some.inj h)
      exact .roused i
    · cases h
  | expire i =>
    simp only [exec] at h
    split at h
    · cases h
    · rename_i hi
      obtain ⟨rfl, rfl⟩ := Prod.mk.inj (Option.some.inj h)
      exact .gaveUp (perm_eraseIdx hi)

/-- A sleeper that wakes up joins those that are awake. -/
theorem rouse_cases (s : State σ κ ι) (i : ℕ) :
    s.rouse i = s ∨ ∃ w asleep, s.asleep.Perm (w :: asleep) ∧
      s.rouse i = ⟨s.shared, asleep, w :: s.awake⟩ := by
  unfold State.rouse
  split
  · exact .inl rfl
  · rename_i w hw
    exact .inr ⟨w, _, perm_eraseIdx hw, rfl⟩

/-- Somebody is woken up, unless nobody sleeps. -/
theorem wake_one (s : State σ κ ι) (pick : ℕ) :
    s.asleep = [] ∧ s.wake pick .one = s ∨ ∃ w asleep, s.asleep.Perm (w :: asleep) ∧
      s.wake pick .one = ⟨s.shared, asleep, w :: s.awake⟩ := by
  simp only [State.wake, State.rouse]
  split
  · rename_i h
    refine .inl ⟨List.length_eq_zero_iff.1 ?_, rfl⟩
    by_contra hne
    exact absurd (List.getElem?_eq_none_iff.1 h)
      (Nat.not_le.2 (Nat.mod_lt _ (Nat.pos_of_ne_zero hne)))
  · rename_i w hw
    exact .inr ⟨w, _, perm_eraseIdx hw, rfl⟩

@[simp]
theorem wake_shared (s : State σ κ ι) (pick : ℕ) (w : Wake) :
    (s.wake pick w).shared = s.shared := by
  cases w with
  | nobody => rfl
  | one =>
    obtain ⟨_, h⟩ | ⟨_, _, _, h⟩ := wake_one s pick
    all_goals rw [h]
  | all => rfl

/-- Nobody falls asleep by being woken up. -/
theorem mem_of_wake (s : State σ κ ι) {w : Wake} {pick : ℕ} {x : ι × κ}
    (h : x ∈ (s.wake pick w).asleep) : x ∈ s.asleep := by
  cases w with
  | nobody => exact h
  | one =>
    obtain ⟨_, heq⟩ | ⟨_, _, hperm, heq⟩ := wake_one s pick
    · rwa [heq] at h
    · rw [heq] at h
      exact hperm.mem_iff.2 (List.mem_cons_of_mem _ h)
  | all => exact absurd h List.not_mem_nil

theorem rouse_perm (s : State σ κ ι) (i : ℕ) :
    ((s.rouse i).asleep ++ (s.rouse i).awake).Perm (s.asleep ++ s.awake) := by
  obtain h | ⟨_, _, hperm, h⟩ := rouse_cases s i
  · rw [h]
  · rw [h]
    exact List.perm_middle.trans (hperm.symm.append_right s.awake)

/-- Being woken up, nobody gets lost. -/
theorem wake_perm (s : State σ κ ι) (pick : ℕ) (w : Wake) :
    ((s.wake pick w).asleep ++ (s.wake pick w).awake).Perm (s.asleep ++ s.awake) := by
  cases w with
  | nobody => rfl
  | one => exact rouse_perm s _
  | all => rfl

/-- Those that are left, when a request takes its turn. -/
theorem Ready.subset {t : ι} {c : κ} {awake : List (ι × κ)} (h : Ready s a t c awake) :
    awake ⊆ s.awake := by
  cases h with
  | new => exact List.Subset.refl _
  | woken hperm => exact fun v hv => hperm.mem_iff.2 (List.mem_cons_of_mem _ hv)

/-- Who sleeps has been asleep, or has found its condition not to hold. -/
theorem Effect.asleep (h : m.Effect s a b s') {v : ι × κ} (hv : v ∈ s'.asleep) :
    v ∈ s.asleep ∨ m.turn v.2 s.shared = none := by
  cases h with
  | answered pick _ _ =>
    have hmem := mem_of_wake _ hv
    exact .inl hmem
  | slept _ hturn _ =>
    rcases List.mem_cons.1 hv with rfl | hv
    · exact .inr hturn
    · exact .inl hv
  | refused => exact .inl hv
  | roused i =>
    obtain h | ⟨_, _, hperm, h⟩ := rouse_cases s i
    all_goals rw [h] at hv
    · exact .inl hv
    · exact .inl (hperm.mem_iff.2 (List.mem_cons_of_mem _ hv))
  | gaveUp hperm => exact .inl (hperm.mem_iff.2 (List.mem_cons_of_mem _ hv))

/-- What holds of the requests that are made holds of those that wait. -/
theorem Effect.requests (h : m.Effect s a b s') {P : ι × κ → Prop}
    (hnew : ∀ t c pick, a = .call t c pick → P (t, c)) (hs : ∀ v ∈ s.asleep ++ s.awake, P v) :
    ∀ v ∈ s'.asleep ++ s'.awake, P v := by
  have hleft : ∀ {t c awake}, Ready s a t c awake → ∀ v ∈ s.asleep ++ awake, P v :=
    fun h v hv => hs v (List.mem_append.2 ((List.mem_append.1 hv).imp_right fun hv => h.subset hv))
  cases h with
  | answered pick hr _ => exact fun v hv => hleft hr v ((wake_perm _ _ _).mem_iff.1 hv)
  | slept hr _ _ =>
    intro v hv
    rcases List.mem_cons.1 hv with rfl | hv
    · cases hr with
      | new => exact hnew _ _ _ rfl
      | woken hperm =>
        exact hs _ (List.mem_append_right _ (hperm.mem_iff.2 List.mem_cons_self))
    · exact hleft hr v hv
  | refused hr _ _ => exact hleft hr
  | roused i => exact fun v hv => hs v ((rouse_perm s i).mem_iff.1 hv)
  | gaveUp hperm =>
    exact fun v hv => hs v ((hperm.append_right s.awake).mem_iff.2 (List.mem_cons_of_mem _ hv))

/-! ## Owners -/

/-- An owner waits for one answer at a time. -/
def Single (s : State σ κ ι) : Prop := ((s.asleep ++ s.awake).map Prod.fst).Nodup

theorem Ready.single {t : ι} {c : κ} {awake : List (ι × κ)} (h : Ready s a t c awake)
    (hs : Single s) : (((t, c) :: (s.asleep ++ awake)).map Prod.fst).Nodup := by
  cases h with
  | new hnew =>
    refine List.nodup_cons.2 ⟨fun hmem => hnew ?_, hs⟩
    obtain ⟨w, hw, heq⟩ := List.mem_map.1 hmem
    exact ⟨w, hw, heq⟩
  | woken hperm =>
    have hall := (hperm.append_left s.asleep).trans List.perm_middle
    exact (hall.map Prod.fst).nodup_iff.1 hs

theorem Effect.single (h : m.Effect s a b s') (hs : Single s) : Single s' := by
  cases h with
  | answered pick hready _ =>
    exact ((wake_perm _ _ _).map Prod.fst).nodup_iff.2 (List.nodup_cons.1 (hready.single hs)).2
  | slept hready _ _ => exact hready.single hs
  | refused hready _ _ => exact (List.nodup_cons.1 (hready.single hs)).2
  | roused i => exact ((rouse_perm s i).map Prod.fst).nodup_iff.2 hs
  | gaveUp hperm =>
    have hall := (hperm.append_right s.awake).map Prod.fst
    exact (List.nodup_cons.1 (hall.nodup_iff.1 hs)).2

/-! ## Everybody is woken up -/

variable (m)

/-- Every turn that may help a sleeper wakes up all of them. -/
def Broadcasts : Prop :=
  ∀ c x b y w, m.turn c x = some (b, y, w) → w = .all ∨ ∀ d, m.turn d x = none → m.turn d y = none

/-- Nobody sleeps while its condition holds. -/
def Keen (s : State σ κ ι) : Prop := ∀ w ∈ s.asleep, m.turn w.2 s.shared = none

/-- What an answer may be: that of a turn, or a request gives up. -/
inductive Outcome : σ → κ → β → σ → Prop
  | answered {c x b y w} : m.turn c x = some (b, y, w) → Outcome x c b y
  | expired {c x} : Outcome x c (m.expired c) x

/-- The answers without sleep: a request gives up only where its condition does not hold. -/
inductive Answers : σ → κ → β → σ → Prop
  | answered {c x b y w} : m.turn c x = some (b, y, w) → Answers x c b y
  | expired {c x} : m.turn c x = none → Answers x c (m.expired c) x

/-- The monitor without its sleepers, as a machine. -/
def outcomes : Machine σ κ β where
  step := m.Outcome

/-- The monitor without sleep, as a machine. -/
def atomic : Machine σ κ β where
  step := m.Answers

/-- The requests of a run that have been answered, with their answers. -/
def answered (tr : List (Action κ ι × Option (ι × κ × β))) : List (κ × β) :=
  tr.filterMap fun e => e.2.map Prod.snd

theorem answered_append (tr : List (Action κ ι × Option (ι × κ × β))) (a : Action κ ι) (t : ι)
    (c : κ) (x : β) : answered (tr ++ [(a, some (t, c, x))]) = answered tr ++ [(c, x)] :=
  List.filterMap_append

theorem answered_unanswered (tr : List (Action κ ι × Option (ι × κ × β))) (a : Action κ ι) :
    answered (tr ++ [(a, none)]) = answered tr := by
  rw [answered, List.filterMap_append]
  exact List.append_nil _

variable {m}

/-- Sleepers stay asleep only where their conditions do not hold. -/
theorem Effect.keen (hm : m.Broadcasts) (h : m.Effect s a b s') (hs : m.Keen s) : m.Keen s' := by
  cases h with
  | answered pick _ hturn =>
    intro v hv
    rw [wake_shared]
    rcases hm _ _ _ _ _ hturn with rfl | hkeeps
    · exact absurd hv List.not_mem_nil
    · have hmem := mem_of_wake _ hv
      exact hkeeps _ (hs v hmem)
  | slept _ hturn _ =>
    intro v hv
    rcases List.mem_cons.1 hv with rfl | hv
    · exact hturn
    · exact hs v hv
  | refused => exact hs
  | roused i =>
    obtain ⟨h⟩ | ⟨_, _, hperm, h⟩ := rouse_cases s i
    · rwa [h]
    · rw [h]
      exact fun v hv => hs v (hperm.mem_iff.2 (List.mem_cons_of_mem _ hv))
  | gaveUp hperm => exact fun v hv => hs v (hperm.mem_iff.2 (List.mem_cons_of_mem _ hv))

/-- An answer is that of a turn, or of giving up. What is not answered yet changes nothing. -/
theorem Effect.outcome (h : m.Effect s a b s') : b = none ∧ s'.shared = s.shared ∨
    ∃ t c x, b = some (t, c, x) ∧ m.Outcome s.shared c x s'.shared := by
  cases h with
  | answered pick _ hturn =>
    rw [wake_shared]
    exact .inr ⟨_, _, _, rfl, .answered hturn⟩
  | slept => exact .inl ⟨rfl, rfl⟩
  | refused => exact .inr ⟨_, _, _, rfl, .expired⟩
  | roused i =>
    obtain h | ⟨_, _, _, h⟩ := rouse_cases s i
    all_goals exact .inl ⟨rfl, by rw [h]⟩
  | gaveUp => exact .inr ⟨_, _, _, rfl, .expired⟩

/-- A request gives up only where its condition does not hold. -/
theorem Effect.answers {t : ι} {c : κ} {x : β} (h : m.Effect s a (some (t, c, x)) s')
    (hs : m.Keen s) : m.Answers s.shared c x s'.shared := by
  cases h with
  | answered pick _ hturn =>
    rw [wake_shared]
    exact .answered hturn
  | refused _ hturn _ => exact .expired hturn
  | gaveUp hperm => exact .expired (hs _ (hperm.mem_iff.2 List.mem_cons_self))

section Run

variable [DecidableEq ι] {allowed : State σ κ ι → Action κ ι → Prop}
  {tr : List (Action κ ι × Option (ι × κ × β))}

/-- Nobody ever sleeps while its condition holds, if all are woken up. -/
theorem run_keen (hm : m.Broadcasts) (h : m.machine.Run allowed s tr s') (hs : m.Keen s) :
    m.Keen s' :=
  h.invariant hs fun _ _ _ _ hkeen _ hstep => (effect_exec hstep).keen hm hkeen

/-- The answers come one after another. -/
theorem run_outcomes (h : m.machine.Run allowed s tr s') :
    m.outcomes.Run Machine.anyCall s.shared (answered tr) s'.shared := by
  induction h with
  | nil => exact .nil
  | snoc _ _ hstep ih =>
    obtain ⟨rfl, heq⟩ | ⟨t, c, x, rfl, hout⟩ := (effect_exec hstep).outcome
    · rw [heq, answered_unanswered]
      exact ih
    · rw [answered_append]
      exact .snoc ih trivial hout

/-- Where nobody ever sleeps while its condition holds, the answers are those without sleep. -/
theorem run_atomic_of_keen {P : State σ κ ι → Prop} (h : m.machine.Run allowed s tr s') (h₀ : P s)
    (hstep : ∀ s a b s', P s → allowed s a → m.Effect s a b s' → P s')
    (hkeen : ∀ s, P s → m.Keen s) :
    m.atomic.Run Machine.anyCall s.shared (answered tr) s'.shared := by
  induction h with
  | nil => exact .nil
  | snoc hrun _ hlast ih =>
    have hinv := hrun.invariant h₀ fun s a b s' hs ha h => hstep s a b s' hs ha (effect_exec h)
    have heff := effect_exec hlast
    obtain ⟨rfl, heq⟩ | ⟨t, c, x, rfl, _⟩ := heff.outcome
    · rw [heq, answered_unanswered]
      exact ih
    · rw [answered_append]
      exact .snoc ih trivial (heff.answers (hkeen _ hinv))

/-- If all are woken up, the answers are those without sleep. -/
theorem run_atomic (hm : m.Broadcasts) (h : m.machine.Run allowed s tr s') (hs : m.Keen s) :
    m.atomic.Run Machine.anyCall s.shared (answered tr) s'.shared :=
  run_atomic_of_keen h hs (fun _ _ _ _ hkeen _ heff => heff.keen hm hkeen) fun _ hkeen => hkeen

end Run

/-! ## One is woken up for each unit -/

variable {δ : Type*} (m) (kind : κ → δ) (avail : δ → σ → ℕ)

/-- A request that waits needs a unit of the resource of its kind, and takes it. A turn provides at
    most one unit of each resource, and then wakes somebody up. -/
structure Signals : Prop where
  blocked : ∀ {c x}, m.turn c x = none → avail (kind c) x = 0
  takes : ∀ {c x b y w}, m.waits c → m.turn c x = some (b, y, w) →
    avail (kind c) y < avail (kind c) x
  gives : ∀ {c x b y w}, m.turn c x = some (b, y, w) → ∀ d, avail d y ≤ avail d x ∨
    avail d y ≤ avail d x + 1 ∧ w ≠ .nobody

/-- Those that have slept do wait. -/
def Willing (s : State σ κ ι) : Prop := ∀ v ∈ s.asleep ++ s.awake, m.waits v.2

/-- Those that sleep are of the same kind. -/
def Sole (s : State σ κ ι) : Prop := ∀ v ∈ s.asleep, ∀ w ∈ s.asleep, kind v.2 = kind w.2

/-- How many requests of a kind are awake. -/
def awakeOf [DecidableEq δ] (s : State σ κ ι) (d : δ) : ℕ := s.awake.countP (kind ·.2 = d)

/-- As long as somebody sleeps, the units it waits for are left to those that are awake. -/
def Attended [DecidableEq δ] (s : State σ κ ι) : Prop :=
  ∀ v ∈ s.asleep, avail (kind v.2) s.shared ≤ awakeOf kind s (kind v.2)

variable {m kind avail}

theorem Effect.willing (h : m.Effect s a b s') (hs : m.Willing s) : m.Willing s' := by
  have hready : ∀ {t c awake}, Ready s a t c awake → ∀ v ∈ s.asleep ++ awake, m.waits v.2 :=
    fun h v hv => hs v (List.mem_append.2 ((List.mem_append.1 hv).imp_right fun hv => h.subset hv))
  cases h with
  | answered pick hr _ => exact fun v hv => hready hr v ((wake_perm _ _ _).mem_iff.1 hv)
  | slept hr _ hwaits =>
    intro v hv
    rcases List.mem_cons.1 hv with rfl | hv
    · exact hwaits
    · exact hready hr v hv
  | refused hr _ _ => exact hready hr
  | roused i => exact fun v hv => hs v ((rouse_perm s i).mem_iff.1 hv)
  | gaveUp hperm =>
    exact fun v hv => hs v ((hperm.append_right s.awake).mem_iff.2 (List.mem_cons_of_mem _ hv))

variable [DecidableEq δ]

/-- Who takes a turn is no longer awake, the others still are. -/
theorem Ready.count_le {t : ι} {c : κ} {awake : List (ι × κ)} (h : Ready s a t c awake) (x : σ)
    (d : δ) : awakeOf kind s d ≤
      awakeOf kind ⟨x, s.asleep, awake⟩ d + if kind c = d then 1 else 0 := by
  cases h with
  | new => exact Nat.le_add_right _ _
  | woken hperm =>
    simp only [awakeOf, hperm.countP_eq, List.countP_cons, decide_eq_true_eq, le_refl]

theorem awakeOf_wake (s : State σ κ ι) (pick : ℕ) (w : Wake) (d : δ) :
    awakeOf kind s d ≤ awakeOf kind (s.wake pick w) d := by
  cases w with
  | nobody => exact le_rfl
  | one =>
    obtain ⟨_, h⟩ | ⟨_, _, _, h⟩ := wake_one s pick
    · rw [h]
    · rw [h]
      exact List.Sublist.countP_le (List.sublist_cons_self _ _)
  | all => exact List.Sublist.countP_le (List.sublist_append_right _ _)

/-- If somebody still sleeps after a wake-up, one more of its kind is awake. -/
theorem Sole.awakeOf_wake (hs : Sole kind s) {pick : ℕ} {w : Wake} (hw : w ≠ .nobody) {v : ι × κ}
    (hv : v ∈ (s.wake pick w).asleep) :
    awakeOf kind s (kind v.2) + 1 ≤ awakeOf kind (s.wake pick w) (kind v.2) := by
  have hmem := mem_of_wake s hv
  cases w with
  | nobody => exact absurd rfl hw
  | one =>
    obtain ⟨hnil, _⟩ | ⟨u, _, hperm, h⟩ := wake_one s pick
    · exact absurd (hnil ▸ hmem) List.not_mem_nil
    · have hkind : kind u.2 = kind v.2 := hs u (hperm.mem_iff.2 List.mem_cons_self) v hmem
      simp only [h, awakeOf, List.countP_cons, hkind, decide_true, if_true, le_refl]
  | all => exact absurd hv List.not_mem_nil

/-- The units after a turn are left to those that are awake, before the turn wakes up somebody. -/
theorem Ready.units (hm : m.Signals kind avail) (hwilling : m.Willing s) {t : ι} {c : κ}
    {awake : List (ι × κ)} (h : Ready s a t c awake) {d : δ}
    (hs : avail d s.shared ≤ awakeOf kind s d) {b : β} {x : σ} {w : Wake}
    (hturn : m.turn c s.shared = some (b, x, w)) :
    avail d x ≤ awakeOf kind ⟨x, s.asleep, awake⟩ d ∨
      avail d x ≤ awakeOf kind ⟨x, s.asleep, awake⟩ d + 1 ∧ w ≠ .nobody := by
  have hgives := hm.gives hturn d
  cases h with
  | new => exact hgives.imp hs.trans' fun h => ⟨h.1.trans (Nat.succ_le_succ hs), h.2⟩
  | woken hperm =>
    simp only [awakeOf, hperm.countP_eq, List.countP_cons, decide_eq_true_eq] at hs ⊢
    by_cases hkind : kind c = d
    · -- One of its kind has taken a unit: it is no longer awake.
      have hwaits := hwilling (t, c) (List.mem_append_right _ (hperm.mem_iff.2 List.mem_cons_self))
      have htakes := hm.takes hwaits hturn
      rw [hkind] at htakes
      rw [if_pos hkind] at hs
      exact .inl (Nat.le_of_lt_succ (htakes.trans_le hs))
    · rw [if_neg hkind] at hs
      exact hgives.imp hs.trans' fun h => ⟨h.1.trans (Nat.succ_le_succ hs), h.2⟩

/-- The sleepers stay attended. -/
theorem Effect.attended (hm : m.Signals kind avail) (h : m.Effect s a b s') (hwilling : m.Willing s)
    (hsole : Sole kind s) (hsole' : Sole kind s') (hs : Attended kind avail s) :
    Attended kind avail s' := by
  cases h with
  | @answered t c awake b x w pick hready hturn =>
    intro v hv
    have hmem := mem_of_wake _ hv
    have hwake : awakeOf kind ⟨x, s.asleep, awake⟩ (kind v.2) ≤ _ := awakeOf_wake _ pick w _
    rw [wake_shared]
    rcases hready.units hm hwilling (hs v hmem) hturn with hle | ⟨hle, hw⟩
    · exact hle.trans hwake
    · exact hle.trans (Sole.awakeOf_wake (s := ⟨x, s.asleep, awake⟩) hsole hw hv)
  | @slept t c awake hready hturn _ =>
    intro v hv
    have hkind : kind v.2 = kind c := hsole' v hv (t, c) List.mem_cons_self
    rw [hkind, hm.blocked hturn]
    exact Nat.zero_le _
  | @refused t c awake hready hturn _ =>
    intro v hv
    have hle := (hs v hv).trans (hready.count_le s.shared (kind v.2))
    by_cases hkind : kind c = kind v.2
    · rw [← hkind, hm.blocked hturn]
      exact Nat.zero_le _
    · rwa [if_neg hkind] at hle
  | roused i =>
    obtain h | ⟨_, _, hperm, h⟩ := rouse_cases s i
    · rwa [h]
    · rw [h]
      intro v hv
      exact (hs v (hperm.mem_iff.2 (List.mem_cons_of_mem _ hv))).trans
        (List.Sublist.countP_le (List.sublist_cons_self _ _))
  | gaveUp hperm => exact fun v hv => hs v (hperm.mem_iff.2 (List.mem_cons_of_mem _ hv))

/-- In a run in which those that sleep at the same time are of the same kind, they are attended. -/
theorem run_attended [DecidableEq ι] (hm : m.Signals kind avail)
    {tr : List (Action κ ι × Option (ι × κ × β))}
    (h : m.machine.Run (fun s a => ∀ b s', m.exec s a = some (b, s') → Sole kind s') s tr s')
    (hs : s.asleep = []) (hs' : s.awake = []) : Attended kind avail s' := by
  have hnil : ∀ v, v ∉ s.asleep := fun v hv => absurd (hs ▸ hv) List.not_mem_nil
  refine (h.invariant (P := fun s => m.Willing s ∧ Sole kind s ∧ Attended kind avail s)
    ⟨?_, fun v hv => absurd hv (hnil v), fun v hv => absurd hv (hnil v)⟩ ?_).2.2
  · intro v hv
    rw [hs, hs'] at hv
    exact absurd hv List.not_mem_nil
  · rintro s a b s' ⟨hwilling, hsole, hatt⟩ hallowed hstep
    have heff := effect_exec hstep
    have hsole' := hallowed b s' hstep
    exact ⟨heff.willing hwilling, hsole', heff.attended hm hwilling hsole hsole' hatt⟩

end Monitor

end FtlFirmware
