import FtlFirmware.Dma.Basic
import Mathlib.Tactic.Common

/-!
# Transfers of a channel

A thread that has begun a transfer, and has not finished it, is *active* (`Dma.Active`). In every
run there is one such thread at most, and a channel becomes complete only when all bytes have been
copied (`transfers_exclusive`), whatever the callers do at the same time, as long as two things do
not happen (`Dma.Conforms`):

* a channel is configured, or allocated, while a thread is active on it;
* a transfer is resumed when its thread has already left the loop because of another state.

`config_channel` accepts a channel that is paused (`not_transfers_exclusive`), and `resume_transfer`
looks at the state before it has the lock.
-/

namespace FtlFirmware

namespace DmaThread

/-- The thread has begun a transfer, and has not finished it. -/
def Active : DmaThread → Prop
  | .created | .started | .finished => False
  | _ => True

end DmaThread

namespace DmaDesc

variable (d : DmaDesc)

/-- A descriptor of a transfer between two buffers that do not overlap. -/
structure Plain : Prop where
  srcIncrement : d.srcIncrement = true
  dstIncrement : d.dstIncrement = true
  src_ne : d.srcAddr ≠ 0
  dst_ne : d.dstAddr ≠ 0
  apart : d.srcAddr + d.length.toNat ≤ d.dstAddr ∨ d.dstAddr + d.length.toNat ≤ d.srcAddr

/-- The first `n` bytes of the destination are those of the source. -/
def Copied (mem : ℕ → UInt8) (n : ℕ) : Prop :=
  ∀ k < n, mem (d.dstAddr + k) = mem (d.srcAddr + k)

/-- A thread is at `p` in the transfer. Of the bytes that it has not yet taken off those that
    remain, it has copied some, counted some, and moved its addresses over some. -/
structure Follows (mem : ℕ → UInt8) (transferred : ℕ) (p : Progress)
    (copied counted movedSrc movedDst : ℕ) : Prop where
  le : p.remaining ≤ d.length.toNat
  counted : transferred = d.length.toNat - p.remaining + counted
  src : d.Plain → p.src = d.srcAddr + (d.length.toNat - p.remaining) + movedSrc
  dst : d.Plain → p.dst = d.dstAddr + (d.length.toNat - p.remaining) + movedDst
  bytes : d.Plain → d.Copied mem (d.length.toNat - p.remaining + copied)

/-- A thread follows the transfer. -/
def Followed (mem : ℕ → UInt8) (transferred : ℕ) : DmaThread → Prop
  | .checking p | .copying p | .leaving p => d.Follows mem transferred p 0 0 0 0
  | .counting p n => n ≤ p.remaining ∧ d.Follows mem transferred p n 0 0 0
  | .movingSrc p n => n ≤ p.remaining ∧ d.Follows mem transferred p n n 0 0
  | .movingDst p n => n ≤ p.remaining ∧ d.Follows mem transferred p n n n 0
  | _ => True

end DmaDesc

namespace Dma

/-- A thread is active. -/
def Active (s : Dma) (t : ℕ) : Prop := ∃ thread, s.threads t = some thread ∧ thread.Active

/-- No thread is active. -/
def Quiet (s : Dma) : Prop := ∀ t, ¬ s.Active t

/-- No thread has left the loop before the end of its transfer. -/
def NoneLeft (s : Dma) : Prop := ∀ t p, s.threads t = some (.leaving p) → p.remaining = 0

/-- One thread is active, at most. -/
def Exclusive (s : Dma) : Prop := ∀ t t', s.Active t → s.Active t' → t = t'

/-- The transfer has been made: all of its bytes have been counted, and copied. -/
def Transferred (s : Dma) : Prop :=
  s.transferred = s.desc.length.toNat ∧ (s.desc.Plain → s.desc.Copied s.mem s.desc.length.toNat)

/-- The channel is configured and allocated only when no thread is active, a transfer is not resumed
    when a thread has left it, and nothing else writes the buffers of a transfer. -/
def Conforms (s : Dma) : DmaStep → Prop
  | .advance i _ => match s.callers i with
    | .configCopy _ _ | .configState | .configReset | .allocReset => s.Quiet
    | .resumeLock => s.NoneLeft
    | _ => True
  | .store mem => (∃ t, s.Active t) → ∀ k < s.desc.length.toNat,
      mem (s.desc.srcAddr + k) = s.mem (s.desc.srcAddr + k) ∧
        mem (s.desc.dstAddr + k) = s.mem (s.desc.dstAddr + k)
  | _ => True

/-! ### The invariant -/

/-- What holds throughout a run. -/
structure Inv (s : Dma) : Prop where
  fresh : ∀ t, s.nextThread ≤ t → s.threads t = none
  exclusive : s.Exclusive
  not_ready : ∀ t, s.Active t → s.state ≠ .ready
  follows : ∀ t thread, s.threads t = some thread →
    s.desc.Followed s.mem s.transferred thread
  left : ∀ t p, s.threads t = some (.leaving p) → p.remaining ≠ 0 → s.state ≠ .running

variable {s s' : Dma} {t i : ℕ} {thread : DmaThread} {a : Option RetCode}

theorem init_inv (mem : ℕ → UInt8) : (init mem).Inv where
  fresh _ _ := rfl
  exclusive := by
    rintro t t' ⟨_, ht, _⟩
    cases ht
  not_ready := by
    rintro t ⟨_, ht, _⟩
    cases ht
  follows _ _ ht := by cases ht
  left _ _ ht := by cases ht

/-- A thread that is not active follows any transfer. -/
theorem followed_of_not_active {d : DmaDesc} {mem : ℕ → UInt8} {transferred : ℕ}
    (h : ¬ thread.Active) : d.Followed mem transferred thread := by
  cases thread with
  | created => trivial
  | started => trivial
  | finished => trivial
  | _ => exact absurd trivial h

/-- The active threads stay where they are. What they look at changes only if there are none; the
    state becomes ready only then, and running only if none has left. -/
theorem Inv.idle (h : s.Inv) (hfresh : ∀ t, s'.nextThread ≤ t → s'.threads t = none)
    (hthreads : ∀ t thread, s'.threads t = some thread → thread.Active → s.threads t = some thread)
    (hdata : s.Quiet ∨ s'.desc = s.desc ∧ s'.mem = s.mem ∧ s'.transferred = s.transferred)
    (hready : s'.state = .ready → s.state = .ready ∨ s.Quiet)
    (hrunning : s'.state = .running → s.state = .running ∨ s.NoneLeft) : s'.Inv := by
  have hactive : ∀ t, s'.Active t → s.Active t := by
    rintro t ⟨thread, ht, hact⟩
    exact ⟨thread, hthreads t thread ht hact, hact⟩
  refine ⟨hfresh, fun t t' ht ht' => ?_, fun t ht hstate => ?_, fun t thread ht => ?_,
    fun t p ht hp hstate => ?_⟩
  · exact h.exclusive t t' (hactive t ht) (hactive t' ht')
  · rcases hready hstate with hready' | hquiet
    · exact h.not_ready t (hactive t ht) hready'
    · exact hquiet t (hactive t ht)
  · by_cases hact : thread.Active
    · rcases hdata with hquiet | ⟨hdesc, hmem, htransferred⟩
      · exact absurd (hactive t ⟨thread, ht, hact⟩) (hquiet t)
      · rw [hdesc, hmem, htransferred]
        exact h.follows t thread (hthreads t thread ht hact)
    · exact followed_of_not_active hact
  · have ht' := hthreads t _ ht trivial
    rcases hrunning hstate with hrunning' | hnone
    · exact h.left t p ht' hp hrunning'
    · exact hp (hnone t p ht')

/-- A caller goes on to another step, and changes what no thread looks at. -/
theorem Inv.same (h : s.Inv) (hthreads : s'.threads = s.threads)
    (hnext : s'.nextThread = s.nextThread)
    (hdata : s.Quiet ∨ s'.desc = s.desc ∧ s'.mem = s.mem ∧ s'.transferred = s.transferred)
    (hready : s'.state = .ready → s.state = .ready ∨ s.Quiet)
    (hrunning : s'.state = .running → s.state = .running ∨ s.NoneLeft) : s'.Inv := by
  refine h.idle (fun t ht => ?_) (fun t thread ht _ => ?_) hdata hready hrunning
  · rw [hthreads]
    exact h.fresh t (hnext ▸ ht)
  · rwa [hthreads] at ht

theorem Inv.goto (h : s.Inv) (i : ℕ) (c : DmaCaller) : (s.goto i c).Inv :=
  h.same rfl rfl (.inr ⟨rfl, rfl, rfl⟩) .inl .inl

/-- The threads after one of them has gone on. -/
theorem threads_setThread {t' : ℕ} {thread' : DmaThread}
    (h : (s.setThread t thread).threads t' = some thread') :
    t' = t ∧ thread' = thread ∨ t' ≠ t ∧ s.threads t' = some thread' := by
  rw [show (s.setThread t thread).threads = Function.update s.threads t (some thread) from rfl] at h
  by_cases heq : t' = t
  · subst heq
    rw [Function.update_self] at h
    exact .inl ⟨rfl, (Option.some.inj h).symm⟩
  · rw [Function.update_of_ne heq] at h
    exact .inr ⟨heq, h⟩

/-- A thread that has not begun, or has finished. -/
theorem Inv.setThread (h : s.Inv) (hthread : ¬ thread.Active) (ht : t < s.nextThread) :
    (s.setThread t thread).Inv := by
  refine h.idle (fun t' ht' => ?_) (fun t' thread' ht' hact => ?_) (.inr ⟨rfl, rfl, rfl⟩) .inl .inl
  · have hne : t' ≠ t := fun heq => Nat.lt_irrefl _ (Nat.lt_of_lt_of_le (heq ▸ ht) ht')
    exact (Function.update_of_ne hne _ _).trans (h.fresh t' ht')
  · rcases threads_setThread ht' with ⟨_, rfl⟩ | ⟨_, hold⟩
    · exact absurd hact hthread
    · exact hold

/-- A thread that has been created is none of those before. -/
theorem Inv.created (h : s.Inv) :
    Inv { s.setThread s.nextThread .created with nextThread := s.nextThread + 1 } := by
  refine h.idle (fun t' ht' => ?_) (fun t' thread' ht' hact => ?_) (.inr ⟨rfl, rfl, rfl⟩) .inl .inl
  · have hne : t' ≠ s.nextThread := fun heq => Nat.not_succ_le_self _ (heq ▸ ht')
    exact (Function.update_of_ne hne _ _).trans (h.fresh t' (Nat.le_of_succ_le ht'))
  · rcases threads_setThread ht' with ⟨_, rfl⟩ | ⟨_, hold⟩
    · exact absurd hact id
    · exact hold

theorem Inv.lt_nextThread (h : s.Inv) (ht : s.threads t = some thread) : t < s.nextThread := by
  refine Nat.lt_of_not_le fun hle => ?_
  rw [h.fresh t hle] at ht
  cases ht

/-- What a thread that goes on leaves, if it is the only active one. -/
theorem Inv.run (h : s.Inv) (hquiet : ∀ t' ≠ t, ¬ s.Active t') (ht : t < s.nextThread)
    {s₁ : Dma} (hthreads : s₁.threads = s.threads) (hnext : s₁.nextThread = s.nextThread)
    (hready : thread.Active → s₁.state ≠ .ready)
    (hfollows : s₁.desc.Followed s₁.mem s₁.transferred thread)
    (hleft : ∀ p, thread = .leaving p → p.remaining ≠ 0 → s₁.state ≠ .running) :
    (s₁.setThread t thread).Inv := by
  have hother : ∀ t' ≠ t, ¬ (s₁.setThread t thread).Active t' := by
    rintro t' hne ⟨thread', ht', hact⟩
    rcases threads_setThread ht' with ⟨heq, _⟩ | ⟨_, hold⟩
    · exact hne heq
    · rw [hthreads] at hold
      exact hquiet t' hne ⟨thread', hold, hact⟩
  refine ⟨fun t' ht' => ?_, fun t₁ t₂ h₁ h₂ => ?_, ?_, fun t' thread' ht' => ?_, ?_⟩
  · have hne : t' ≠ t := fun heq =>
      Nat.lt_irrefl _ (Nat.lt_of_lt_of_le (heq ▸ ht) (hnext ▸ ht'))
    refine (Function.update_of_ne hne _ _).trans ?_
    rw [hthreads]
    exact h.fresh t' (hnext ▸ ht')
  · have heq : ∀ t', (s₁.setThread t thread).Active t' → t' = t := fun t' hact =>
      Classical.byContradiction fun hne => hother t' hne hact
    rw [heq t₁ h₁, heq t₂ h₂]
  · rintro t' ⟨thread', ht', hact⟩
    rcases threads_setThread ht' with ⟨_, rfl⟩ | ⟨hne, _⟩
    · exact hready hact
    · exact absurd ⟨thread', ht', hact⟩ (hother t' hne)
  · rcases threads_setThread ht' with ⟨_, rfl⟩ | ⟨hne, _⟩
    · exact hfollows
    · exact followed_of_not_active fun hact => hother t' hne ⟨thread', ht', hact⟩
  · intro t' p ht' hp
    rcases threads_setThread ht' with ⟨_, heq⟩ | ⟨hne, _⟩
    · exact hleft p heq.symm hp
    · exact absurd ⟨_, ht', trivial⟩ (hother t' hne)

end Dma

/-! ### The steps of a transfer -/

namespace DmaDesc

variable {d : DmaDesc} {mem : ℕ → UInt8} {transferred n : ℕ} {p : Progress}

/-- The beginning of a transfer. -/
theorem follows_begin : d.Follows mem 0 ⟨d.srcAddr, d.dstAddr, d.length.toNat⟩ 0 0 0 0 where
  le := Nat.le_refl _
  counted := by rw [Nat.sub_self]
  src _ := by
    rw [Nat.sub_self]
    rfl
  dst _ := by
    rw [Nat.sub_self]
    rfl
  bytes _ k hk := by
    rw [Nat.sub_self] at hk
    exact absurd hk (Nat.not_lt_zero k)

/-- The next bytes are copied. -/
theorem Follows.copied (h : d.Follows mem transferred p 0 0 0 0) (hn : n ≤ p.remaining) :
    d.Follows (if p.src ≠ 0 ∧ p.dst ≠ 0 then memcpy mem p.dst p.src n else mem) transferred p n 0 0
      0 where
  le := h.le
  counted := h.counted
  src := h.src
  dst := h.dst
  bytes hplain k hk := by
    have hle := h.le
    have hsrc := h.src hplain
    have hdst := h.dst hplain
    have hsrc_ne := hplain.src_ne
    have hdst_ne := hplain.dst_ne
    rw [if_pos ⟨by omega, by omega⟩, memcpy, memcpy]
    have hlt : k < d.length.toNat := by omega
    -- the source does not change, as the destination does not overlap it
    have hout : ¬(p.dst ≤ d.srcAddr + k ∧ d.srcAddr + k < p.dst + n) := by
      rcases hplain.apart with hapart | hapart <;> omega
    rw [if_neg hout]
    by_cases hold : k < d.length.toNat - p.remaining
    · rw [if_neg (by omega)]
      exact h.bytes hplain k hold
    · rw [if_pos (by omega)]
      congr 1
      omega

/-- The bytes copied are counted. -/
theorem Follows.count (h : d.Follows mem transferred p n 0 0 0) (hn : n ≤ p.remaining) :
    d.Follows mem ((transferred + n) % 2 ^ 32) p n n 0 0 where
  le := h.le
  counted := by
    have hcounted := h.counted
    have hle := h.le
    have hlt := d.length.toNat_lt
    rw [Nat.mod_eq_of_lt (by omega)]
    omega
  src := h.src
  dst := h.dst
  bytes := h.bytes

/-- The address of the source is moved on. -/
theorem Follows.moveSrc (h : d.Follows mem transferred p n n 0 0) :
    d.Follows mem transferred { p with src := if d.srcIncrement then p.src + n else p.src } n n n
      0 where
  le := h.le
  counted := h.counted
  src hplain := by
    rw [if_pos hplain.srcIncrement, h.src hplain]
    rfl
  dst := h.dst
  bytes := h.bytes

/-- The address of the destination is moved on, and the bytes are taken off those that remain. -/
theorem Follows.moveDst (h : d.Follows mem transferred p n n n 0) (hn : n ≤ p.remaining) :
    d.Follows mem transferred
      { p with dst := if d.dstIncrement then p.dst + n else p.dst, remaining := p.remaining - n } 0 0
      0 0 := by
  have hle := h.le
  have hdone : d.length.toNat - (p.remaining - n) = d.length.toNat - p.remaining + n := by omega
  refine ⟨Nat.le_trans (Nat.sub_le _ _) hle, ?_, fun hplain => ?_, fun hplain => ?_,
    fun hplain k hk => ?_⟩
  · rw [hdone]
    exact h.counted
  · rw [hdone, ← Nat.add_assoc]
    exact h.src hplain
  · dsimp only
    rw [if_pos hplain.dstIncrement, hdone, h.dst hplain]
    omega
  · dsimp only at hk
    rw [hdone] at hk
    exact h.bytes hplain k hk

/-- Something else is written to the memory than the buffers. -/
theorem Follows.store {mem' : ℕ → UInt8} {copied counted movedSrc movedDst : ℕ}
    (h : d.Follows mem transferred p copied counted movedSrc movedDst)
    (hcopied : copied ≤ p.remaining) (hmem : ∀ k < d.length.toNat,
      mem' (d.srcAddr + k) = mem (d.srcAddr + k) ∧ mem' (d.dstAddr + k) = mem (d.dstAddr + k)) :
    d.Follows mem' transferred p copied counted movedSrc movedDst where
  le := h.le
  counted := h.counted
  src := h.src
  dst := h.dst
  bytes hplain k hk := by
    have hle := h.le
    obtain ⟨hsrc, hdst⟩ := hmem k (by omega)
    rw [hsrc, hdst]
    exact h.bytes hplain k hk

theorem Followed.store {mem' : ℕ → UInt8} {thread : DmaThread}
    (h : d.Followed mem transferred thread) (hmem : ∀ k < d.length.toNat,
      mem' (d.srcAddr + k) = mem (d.srcAddr + k) ∧ mem' (d.dstAddr + k) = mem (d.dstAddr + k)) :
    d.Followed mem' transferred thread := by
  cases thread with
  | created | started | finished => trivial
  | checking p | copying p | leaving p => exact Follows.store h (Nat.zero_le _) hmem
  | counting p n | movingSrc p n | movingDst p n => exact ⟨h.1, h.2.store h.1 hmem⟩

/-- Going on with the loop, or leaving it. -/
theorem Follows.loop (h : d.Follows mem transferred p 0 0 0 0) :
    d.Followed mem transferred (Dma.loop p) := by
  rw [Dma.loop]
  split_ifs
  · exact h
  · exact h

end DmaDesc

namespace Dma

variable {s s' s₁ : Dma} {t i : ℕ} {thread : DmaThread} {a : Option RetCode}

/-- The loop ends with the transfer. -/
theorem loop_leaving {p p' : Progress} (h : loop p = .leaving p') : p'.remaining = 0 := by
  rw [loop] at h
  split_ifs at h with hzero
  cases h
  exact hzero

/-- A transfer thread goes on. -/
theorem Inv.runThread (h : s.Inv) (ht : s.threads t = some thread)
    (hr : s.runThread t thread = some s') : s'.Inv := by
  have hlt := h.lt_nextThread ht
  -- While a thread is active no other is, so that the memory is its own.
  have hother : thread.Active → ∀ t' ≠ t, ¬ s.Active t' := fun hact t' hne hact' =>
    hne (h.exclusive t' t hact' ⟨thread, ht, hact⟩)
  have hnot_ready : thread.Active → s.state ≠ .ready := fun hact =>
    h.not_ready t ⟨thread, ht, hact⟩
  have hfollows := h.follows t thread ht
  cases thread with
  | created => cases hr
  | finished => cases hr
  | started =>
    rw [Dma.runThread] at hr
    split_ifs at hr with hready
    · cases hr
      have hquiet : ∀ t' ≠ t, ¬ s.Active t' := fun t' _ hact => h.not_ready t' hact hready
      refine h.run hquiet hlt rfl rfl (fun _ => ?_) DmaDesc.follows_begin.loop ?_
      · exact fun hstate : DmaState.running = .ready => absurd hstate (by simp)
      · exact fun p hp hne => absurd (loop_leaving hp) hne
    · cases hr
      exact h.setThread id hlt
  | checking p =>
    rw [Dma.runThread] at hr
    split_ifs at hr with hpaused hrunning
    · cases hr
      exact h
    · cases hr
      exact h.run (hother trivial) hlt rfl rfl (fun _ => hnot_ready trivial) hfollows
        fun _ hp => absurd hp (by simp)
    · cases hr
      exact h.run (hother trivial) hlt rfl rfl (fun _ => hnot_ready trivial) hfollows
        fun _ _ _ => hrunning
  | copying p =>
    cases hr
    have hmin : min p.remaining chunkSize ≤ p.remaining := Nat.min_le_left _ _
    exact h.run (hother trivial) hlt rfl rfl (fun _ => hnot_ready trivial)
      ⟨hmin, hfollows.copied hmin⟩ fun _ hp => absurd hp (by simp)
  | counting p n =>
    cases hr
    exact h.run (hother trivial) hlt rfl rfl (fun _ => hnot_ready trivial)
      ⟨hfollows.1, hfollows.2.count hfollows.1⟩ fun _ hp => absurd hp (by simp)
  | movingSrc p n =>
    cases hr
    exact h.run (hother trivial) hlt rfl rfl (fun _ => hnot_ready trivial)
      ⟨hfollows.1, hfollows.2.moveSrc⟩ fun _ hp => absurd hp (by simp)
  | movingDst p n =>
    cases hr
    exact h.run (hother trivial) hlt rfl rfl (fun _ => hnot_ready trivial)
      (hfollows.2.moveDst hfollows.1).loop fun _ hp hne => absurd (loop_leaving hp) hne
  | leaving p =>
    cases hr
    exact h.run (hother trivial) hlt rfl rfl (fun hact => absurd hact id) trivial
      fun _ hp => absurd hp (by simp)

/-! ### The steps of the callers -/

/-- A state other than the error is the one before. -/
theorem abort_eq {state state' : DmaState} (h : abort state = state') (hne : state' ≠ .error) :
    state = state' := by
  cases state with
  | running | paused => exact absurd h.symm hne
  | _ => exact h

/-- What a caller changes in a step, besides its own place. -/
inductive Effect (s : Dma) : DmaCaller → Dma → Prop
  | none {c : DmaCaller} : Effect s c s
  | isAllocated {c : DmaCaller} (b : Bool) : Effect s c { s with isAllocated := b }
  | threadId {c : DmaCaller} (t : ℕ) : Effect s c { s with threadId := t }
  | idle {c : DmaCaller} : Effect s c { s with state := .idle }
  | paused {c : DmaCaller} : Effect s c { s with state := .paused }
  | error {c : DmaCaller} : Effect s c { s with state := .error }
  | abort {c : DmaCaller} : Effect s c { s with state := abort s.state }
  | running : Effect s .resumeLock { s with state := .running }
  | ready : Effect s .configState { s with state := .ready }
  | allocReset : Effect s .allocReset { s with transferred := 0 }
  | configReset : Effect s .configReset { s with transferred := 0 }
  | copy (desc : DmaDesc) (field : ℕ) :
    Effect s (.configCopy desc field) { s with desc := s.desc.copyField desc field }
  | create {c : DmaCaller} :
    Effect s c { s.setThread s.nextThread .created with nextThread := s.nextThread + 1 }
  | start {c : DmaCaller} {t : ℕ} {thread : DmaThread} (h : s.threads t = some .created)
    (hthread : ¬ thread.Active) : Effect s c (s.setThread t thread)

/-- A caller has made a change, and has gone on to another step. -/
def Stepped (s : Dma) (i : ℕ) (caller : DmaCaller) (s' : Dma) : Prop :=
  ∃ s₁ c, s' = s₁.goto i c ∧ Effect s caller s₁

theorem Effect.next {caller c : DmaCaller} (heffect : Effect s caller s₁)
    (h : s₁.next i c = some (a, s')) : Stepped s i caller s' := by
  cases h
  exact ⟨s₁, c, rfl, heffect⟩

theorem Effect.ret {caller : DmaCaller} {code : RetCode} (heffect : Effect s caller s₁)
    (h : s₁.ret i code = some (a, s')) : Stepped s i caller s' := by
  cases h
  exact ⟨s₁, .idle, rfl, heffect⟩

theorem Effect.stopped {caller : DmaCaller} {free : Bool} {code : RetCode}
    (heffect : Effect s caller s₁) (h : s₁.stopped i free code = some (a, s')) :
    Stepped s i caller s' := by
  rw [Dma.stopped] at h
  split_ifs at h
  · exact heffect.next h
  · exact heffect.ret h

/-- What a caller does in a step. -/
theorem advance_cases {created : Bool} (h : s.advance i created = some (a, s')) :
    Stepped s i (s.callers i) s' := by
  rw [advance] at h
  generalize s.callers i = caller at h ⊢
  cases caller with
  | idle => cases h
  -- `dma_alloc_channel`
  | allocTest =>
    dsimp only at h
    split_ifs at h
    · exact Effect.none.ret h
    · exact Effect.none.next h
  | allocMark => exact (Effect.isAllocated true).next h
  | allocState => exact Effect.idle.next h
  | allocReset => exact Effect.allocReset.ret h
  -- `dma_free_channel`
  | freeTest =>
    dsimp only at h
    split_ifs at h
    · exact Effect.none.ret h
    · exact Effect.none.next h
  | freeRunning | freePaused =>
    dsimp only at h
    split_ifs at h
    · exact Effect.none.next h
    · exact Effect.none.next h
  | freeMark => exact (Effect.isAllocated false).next h
  | freeState => exact Effect.idle.ret h
  -- `dma_config_channel`
  | configTest | configBusy =>
    dsimp only at h
    split_ifs at h
    · exact Effect.none.ret h
    · exact Effect.none.next h
  | configCopy desc field => exact (Effect.copy desc field).next h
  | configState => exact Effect.ready.next h
  | configReset => exact Effect.configReset.ret h
  -- `dma_start_transfer`
  | startTest | startPaused =>
    dsimp only at h
    split_ifs at h
    · exact Effect.none.ret h
    · exact Effect.none.next h
  | startReady | startResume | startCreated =>
    dsimp only at h
    split_ifs at h
    · exact Effect.none.next h
    · exact Effect.none.next h
  | startCreate =>
    dsimp only at h
    split_ifs at h
    · exact Effect.create.next h
    · exact Effect.none.next h
  | startAssign thread => exact (Effect.threadId thread).next h
  | startError => exact Effect.error.ret h
  | startThread =>
    dsimp only at h
    split at h
    · rename_i hthread
      split_ifs at h
      · exact (Effect.start hthread id).ret h
      · exact (Effect.start hthread id).ret h
    · exact Effect.none.ret h
    · exact Effect.none.ret h
  -- `dma_stop_transfer`
  | stopTest free =>
    dsimp only at h
    split_ifs at h
    · exact Effect.none.stopped h
    · exact Effect.none.next h
  | stopLock free => exact Effect.abort.next h
  | stopThread free =>
    dsimp only at h
    split_ifs at h
    · exact Effect.none.next h
    · exact Effect.none.stopped h
  | stopJoin free =>
    dsimp only at h
    split_ifs at h
    exact Effect.none.next h
  | stopClear free => exact (Effect.threadId 0).stopped h
  -- `dma_pause_transfer` and `dma_resume_transfer`
  | pauseTest | pauseRunning | resumeTest | resumePaused =>
    dsimp only at h
    split_ifs at h
    · exact Effect.none.ret h
    · exact Effect.none.next h
  | pauseLock => exact Effect.paused.ret h
  | resumeLock => exact Effect.running.ret h

/-- A caller goes on. -/
theorem Inv.advance {created : Bool} (h : s.Inv) (hconf : s.Conforms (.advance i created))
    (hadv : s.advance i created = some (a, s')) : s'.Inv := by
  obtain ⟨s₁, c, rfl, heffect⟩ := advance_cases hadv
  rw [Conforms] at hconf
  have hdata : s.Quiet ∨ s.desc = s.desc ∧ s.mem = s.mem ∧ s.transferred = s.transferred :=
    .inr ⟨rfl, rfl, rfl⟩
  refine Inv.goto ?_ i c
  generalize hc : s.callers i = caller at hconf heffect
  cases heffect with
  | none => exact h
  | isAllocated b => exact h.same rfl rfl hdata .inl .inl
  | threadId t => exact h.same rfl rfl hdata .inl .inl
  | idle | paused | error =>
    exact h.same rfl rfl hdata (fun hst => absurd hst (by simp)) fun hst => absurd hst (by simp)
  | abort =>
    refine h.same rfl rfl hdata (fun hst => .inl ?_) fun hst => .inl ?_
    · exact abort_eq hst (by decide)
    · exact abort_eq hst (by decide)
  | running => exact h.same rfl rfl hdata (fun hst => absurd hst (by simp)) fun _ => .inr hconf
  | ready => exact h.same rfl rfl hdata (fun _ => .inr hconf) fun hst => absurd hst (by simp)
  | allocReset => exact h.same rfl rfl (.inl hconf) .inl .inl
  | configReset => exact h.same rfl rfl (.inl hconf) .inl .inl
  | copy desc field =>
    exact h.same rfl rfl (.inl hconf) .inl .inl
  | create => exact h.created
  | start hthread hinactive => exact h.setThread hinactive (h.lt_nextThread hthread)

/-- No caller completes a transfer. -/
theorem complete_of_advance {created : Bool} (hadv : s.advance i created = some (a, s'))
    (hcomplete : s'.state = .complete) : s.state = .complete := by
  obtain ⟨s₁, c, rfl, heffect⟩ := advance_cases hadv
  generalize s.callers i = caller at heffect
  cases heffect with
  | abort => exact abort_eq hcomplete (by decide)
  | idle | paused | error | running | ready => cases hcomplete
  | _ => exact hcomplete

/-- A thread completes a transfer only when all bytes have been copied. -/
theorem Inv.transferred (h : s.Inv) (ht : s.threads t = some thread)
    (hr : s.runThread t thread = some s') (hne : s.state ≠ .complete)
    (hcomplete : s'.state = .complete) : s'.Transferred := by
  cases thread with
  | created => cases hr
  | finished => cases hr
  | started =>
    rw [Dma.runThread] at hr
    split_ifs at hr
    · cases hr
      cases hcomplete
    · cases hr
      exact absurd hcomplete hne
  | checking p =>
    rw [Dma.runThread] at hr
    split_ifs at hr <;> cases hr <;> exact absurd hcomplete hne
  | copying p | counting p n | movingSrc p n | movingDst p n =>
    cases hr
    exact absurd hcomplete hne
  | leaving p =>
    cases hr
    have hrunning : s.state = .running := by
      by_contra hst
      refine hne ?_
      rwa [Dma.setThread, if_neg hst] at hcomplete
    -- a thread that has left the loop early would not have found the state running
    have hzero : p.remaining = 0 := by
      by_contra hpos
      exact h.left t p ht hpos hrunning
    have hfollows := h.follows t _ ht
    have hdone : s.desc.length.toNat - p.remaining + 0 = s.desc.length.toNat := by
      rw [hzero, Nat.sub_zero, Nat.add_zero]
    refine ⟨hfollows.counted.trans hdone, fun hplain k hk => hfollows.bytes hplain k ?_⟩
    rwa [hdone]

/-! ### Runs -/

variable {c : DmaStep}

/-- What conforms keeps the invariant. -/
theorem Inv.exec (h : s.Inv) (hconf : s.Conforms c) (hexec : s.exec c = some (a, s')) : s'.Inv := by
  cases c with
  | call i call =>
    rw [Dma.exec] at hexec
    split at hexec
    · cases hexec
      exact h.goto i _
    · cases hexec
  | advance i created => exact h.advance hconf hexec
  | run t =>
    obtain ⟨thread, ht, hrun⟩ := Option.bind_eq_some_iff.1 hexec
    obtain ⟨s₁, hs₁, heq⟩ := Option.map_eq_some_iff.1 hrun
    cases heq
    exact h.runThread ht hs₁
  | store mem =>
    cases hexec
    by_cases hactive : ∃ t, s.Active t
    · have hkept := hconf hactive
      refine ⟨h.fresh, h.exclusive, h.not_ready, fun t thread ht => ?_, h.left⟩
      exact (h.follows t thread ht).store hkept
    · exact ⟨h.fresh, h.exclusive, h.not_ready, fun t thread ht => followed_of_not_active
        fun hact => hactive ⟨t, thread, ht, hact⟩, h.left⟩

/-- The channel becomes complete only when all bytes have been copied. -/
theorem Inv.complete (h : s.Inv) (hexec : s.exec c = some (a, s')) (hne : s.state ≠ .complete)
    (hcomplete : s'.state = .complete) : s'.Transferred := by
  cases c with
  | call i call =>
    rw [Dma.exec] at hexec
    split at hexec
    · cases hexec
      exact absurd hcomplete hne
    · cases hexec
  | advance i created => exact absurd (complete_of_advance hexec hcomplete) hne
  | run t =>
    obtain ⟨thread, ht, hrun⟩ := Option.bind_eq_some_iff.1 hexec
    obtain ⟨s₁, hs₁, heq⟩ := Option.map_eq_some_iff.1 hrun
    cases heq
    exact h.transferred ht hs₁ hne hcomplete
  | store mem =>
    cases hexec
    exact absurd hcomplete hne

/-- A function is called, and goes on `n` times. -/
def callSteps (c : DmaCall) (n : ℕ) : List DmaStep :=
  .call 0 c :: List.replicate n (.advance 0 true)

/-- In every run, one thread is active at most, and the channel becomes complete only when all bytes
    have been copied. -/
theorem transfers_exclusive {mem : ℕ → UInt8} {tr : List (DmaStep × Option RetCode)}
    (hrun : machine.Run Conforms (init mem) tr s) :
    s.Exclusive ∧ ∀ c a s', machine.step s c a s' → s.state ≠ .complete →
      s'.state = .complete → s'.Transferred := by
  have hinv : s.Inv := hrun.invariant (init_inv mem) fun _ _ _ _ h hconf hstep => h.exec hconf hstep
  exact ⟨hinv.exclusive, fun c a s' hstep => hinv.complete hstep⟩

/-- A transfer of three bytes, to its end. -/
theorem transfers_exclusive_three : ∃ tr s s', machine.Run Conforms (init fun k => k.toUInt8) tr s ∧
    s.Exclusive ∧ machine.step s (.run 1) none s' ∧ s'.state = .complete ∧ s'.Transferred := by
  have hsteps : Machine.After exec Conforms
      (fun s => s.state = .running ∧ ∃ s', machine.step s (.run 1) none s' ∧ s'.state = .complete)
      (callSteps .allocChannel 4 ++ callSteps (.configChannel ⟨16, 32, 3, true, true⟩) 9 ++
        callSteps .startTransfer 7 ++ List.replicate 6 (.run 1))
      (init fun k => k.toUInt8) := by
    simp [Machine.After, callSteps, DmaCall.begin, exec, advance, next, ret, goto, init, Conforms,
      Quiet, Active, DmaDesc.copyField, descFields, setThread, runThread, loop, chunkSize, machine]
  obtain ⟨tr, s, hrun, -, hrunning, s', hstep, hcomplete⟩ :=
    Machine.After.run (m := machine) (fun _ _ _ _ h => h) hsteps
  have h := transfers_exclusive hrun
  refine ⟨tr, s, s', hrun, h.1, hstep, hcomplete, h.2 _ _ _ hstep ?_ hcomplete⟩
  rw [hrunning]
  simp

/-- A channel is configured while its transfer is paused, and started again: two threads are
    active. -/
theorem not_transfers_exclusive : ¬ ∀ mem tr s, machine.Run Machine.anyCall (init mem) tr s →
    s.Exclusive ∧ ∀ c a s', machine.step s c a s' → s.state ≠ .complete →
      s'.state = .complete → s'.Transferred := by
  intro h
  have hsteps : Machine.After exec Machine.anyCall (fun s => s.Active 1 ∧ s.Active 2)
      (callSteps .allocChannel 4 ++ callSteps (.configChannel ⟨16, 32, 3, true, true⟩) 9 ++
        callSteps .startTransfer 7 ++ [.run 1] ++ callSteps .pauseTransfer 3 ++
        callSteps (.configChannel ⟨48, 64, 3, true, true⟩) 9 ++ callSteps .startTransfer 7 ++
        [.run 2])
      (init fun _ => 0) := by
    simp [Machine.After, callSteps, DmaCall.begin, exec, advance, next, ret, goto, init,
      Machine.anyCall, Active, DmaThread.Active, DmaDesc.copyField, descFields, setThread, runThread,
      loop]
  obtain ⟨tr, s, hrun, -, h₁, h₂⟩ :=
    Machine.After.run (m := machine) (fun _ _ _ _ h => h) hsteps
  exact absurd ((h _ tr s hrun).1 1 2 h₁ h₂) (by decide)

end Dma

end FtlFirmware
