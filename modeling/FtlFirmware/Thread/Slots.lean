import FtlFirmware.Thread.Basic
import Mathlib.Tactic.Common

/-!
# The slots of threads

What the functions of the thread manager do to its slots: creating a thread takes a free one
(`create_cases`, `freeSlots_take`), destroying it releases the slot (`freeSlots_destroy`), and all
others leave the slots as they are, waiting for the end of a thread included.
-/

namespace FtlFirmware

namespace ThreadManager

variable {F σ : Type*} {m : ThreadManager F} {i slot : ℕ} {id : UInt32} {func : F} {t : Thread F}

@[simp] theorem setThread_self : (m.setThread i t).threads i = t := Function.update_self ..

@[simp] theorem setThread_setThread (t' : Thread F) :
    (m.setThread i t).setThread i t' = m.setThread i t' := by
  simp [setThread]

/-- A thread that is replaced by one with the same identifier. -/
theorem findThreadById_setThread (hid : t.threadId = (m.threads i).threadId)
    (hinit : t.isInitialized = (m.threads i).isInitialized) :
    (m.setThread i t).findThreadById id = m.findThreadById id := by
  unfold findThreadById
  congr 1
  funext j
  simp only [setThread, Function.update_apply]
  split
  · next hj => rw [hid, hinit, hj]
  · rfl

/-! ## Slots in use -/

/-- A thread that is replaced by one that is initialised as well. -/
theorem setThread_used (h : t.isInitialized = m.used i) : (m.setThread i t).used = m.used := by
  funext j
  simp only [used, setThread, Function.update_apply]
  split
  · next hj => rw [h, hj, used]
  · rfl

theorem take_used : (m.take slot func).used = Function.update m.used slot true := by
  funext j
  simp only [used, take, setThread, Function.update_apply]
  split <;> rfl

theorem start_used : (m.start id).2.used = m.used := by
  rw [start]
  split
  · rfl
  · cases m.findThreadById id with
    | none => rfl
    | some slot =>
      dsimp only
      split
      · rfl
      · exact setThread_used rfl

theorem runThread_used (call : F → σ → σ) (slot : ℕ) (x : σ) :
    (runThread call slot m x).1.used = m.used := by
  rw [runThread]
  split
  · exact setThread_used rfl
  · rfl

theorem join_used (call : F → σ → σ) (x : σ) : (join call id m x).2.1.used = m.used := by
  rw [join]
  split
  · rfl
  · cases m.findThreadById id with
    | none => rfl
    | some slot =>
      dsimp only
      split
      · rfl
      · refine Eq.trans (setThread_used ?_) (runThread_used call slot x)
        rfl

/-! ## Free slots -/

theorem freeSlots_congr {m' : ThreadManager F} (h : m'.used = m.used) :
    m'.freeSlots = m.freeSlots := by
  rw [freeSlots, freeSlots, h]

/-- A new thread takes one of the free slots. -/
theorem freeSlots_take (h : slot ∈ Pool.free m.used maxThreads) :
    (m.take slot func).freeSlots + 1 = m.freeSlots := by
  rw [freeSlots, take_used]
  exact Pool.card_take h

/-- What creating a thread does: nothing if there is no slot for it, and otherwise it takes one. -/
theorem create_cases (m : ThreadManager F) (func : F) :
    m.create func = (0, m) ∧ (m.initialized → m.freeSlots = 0) ∨
      ∃ slot ∈ Pool.free m.used maxThreads,
        m.create func = (m.nextThreadId, m.take slot func) := by
  rw [create]
  by_cases hinit : m.initialized = true
  · rw [if_neg (by simp [hinit])]
    cases hslot : m.findFreeSlot with
    | none => exact Or.inl ⟨rfl, fun _ => Pool.firstFree_eq_none.1 hslot⟩
    | some slot => exact Or.inr ⟨slot, Pool.firstFree_mem hslot, rfl⟩
  · rw [if_pos (by simpa using hinit)]
    exact Or.inl ⟨rfl, fun h => absurd h hinit⟩

/-- The thread that is found is in use. -/
theorem findThreadById_used (h : m.findThreadById id = some slot) :
    slot < maxThreads ∧ m.used slot = true ∧ (m.threads slot).threadId = id := by
  have hlt := List.mem_range.1 (List.mem_of_find?_eq_some h)
  have hfound := List.find?_some h
  rw [Bool.and_eq_true, decide_eq_true_eq] at hfound
  exact ⟨hlt, hfound⟩

/-- Destroying a thread gives its slot back. -/
theorem freeSlots_destroy (call : F → σ → σ) (x : σ) (hinit : m.initialized = true)
    (hfound : m.findThreadById id = some slot) :
    (destroy call id m x).2.1.freeSlots = m.freeSlots + 1 := by
  obtain ⟨hlt, hused, -⟩ := findThreadById_used hfound
  rw [destroy, if_neg (by simp [hinit]), hfound]
  dsimp only
  set p := if (m.threads slot).state = .running then runThread call slot m x else (m, x) with hp
  have hkept : p.1.used = m.used := by
    rw [hp]
    split
    · exact runThread_used call slot x
    · rfl
  have hdestroyed : ({ p.1.setThread slot { p.1.threads slot with isInitialized := false } with
      threadCount := p.1.threadCount - 1 } : ThreadManager F).used =
        Function.update m.used slot false := by
    rw [← hkept]
    funext j
    simp only [used, setThread, Function.update_apply]
    split <;> rfl
  rw [freeSlots, hdestroyed]
  exact Pool.card_release hlt hused

/-! ## New threads -/

/-- The threads in use have got their identifiers before the next one, and there are identifiers for
    `n` more of them. -/
structure Numbered (m : ThreadManager F) (n : ℕ) : Prop where
  initialized : m.initialized = true
  before : ∀ i < maxThreads, m.used i = true → (m.threads i).threadId < m.nextThreadId
  pos : 0 < m.nextThreadId.toNat
  left : m.nextThreadId.toNat + n < 2 ^ 32

/-- Before the first thread. -/
theorem numbered_init {n : ℕ} (hinit : m.initialized = false) (hn : n + 1 < 2 ^ 32) :
    m.init.Numbered n := by
  rw [init, hinit]
  exact ⟨rfl, fun i _ hused => absurd hused Bool.false_ne_true, Nat.one_pos,
    by simpa [Nat.add_comm] using hn⟩

namespace Numbered

variable {n : ℕ}

theorem next_ne_zero (h : m.Numbered n) : m.nextThreadId ≠ 0 := by
  intro hzero
  have hpos := h.pos
  rw [hzero] at hpos
  exact hpos.ne rfl

theorem of_le {k : ℕ} (h : m.Numbered n) (hle : k ≤ n) : m.Numbered k :=
  ⟨h.initialized, h.before, h.pos, (Nat.add_le_add_left hle _).trans_lt h.left⟩

/-- There is a new thread as long as there are free slots. -/
theorem create_eq (h : m.Numbered n) (func : F) :
    m.create func = (0, m) ∧ m.freeSlots = 0 ∨
      ∃ slot ∈ Pool.free m.used maxThreads,
        m.create func = (m.nextThreadId, m.take slot func) :=
  (m.create_cases func).imp_left fun hnone => ⟨hnone.1, hnone.2 h.initialized⟩

theorem take (h : m.Numbered (n + 1)) (slot : ℕ) (func : F) : (m.take slot func).Numbered n := by
  have hleft := h.left
  have hnext : (m.nextThreadId + 1).toNat = m.nextThreadId.toNat + 1 := by
    rw [UInt32.toNat_add]
    exact Nat.mod_eq_of_lt (by simp; omega)
  refine ⟨h.initialized, fun i hi hused => ?_, ?_, ?_⟩
  · rw [UInt32.lt_iff_toNat_lt]
    change _ < (m.nextThreadId + 1).toNat
    rw [hnext]
    simp only [ThreadManager.take, ThreadManager.setThread, Function.update_apply]
    split
    · exact Nat.lt_succ_self _
    · next hne =>
      rw [take_used, Function.update_of_ne hne] at hused
      exact Nat.lt_succ_of_lt (UInt32.lt_iff_toNat_lt.1 (h.before i hi hused))
  · change 0 < (m.nextThreadId + 1).toNat
    omega
  · change (m.nextThreadId + 1).toNat + n < 2 ^ 32
    omega

/-- A thread that is replaced by one with the same identifier. -/
theorem setThread (h : m.Numbered n) (hid : t.threadId = (m.threads slot).threadId)
    (hused : t.isInitialized = m.used slot) : (m.setThread slot t).Numbered n where
  initialized := h.initialized
  before i hi hi' := by
    rw [setThread_used hused] at hi'
    have hbefore := h.before i hi hi'
    simp only [ThreadManager.setThread, Function.update_apply]
    split
    · next heq => rwa [hid, ← heq]
    · exact hbefore
  pos := h.pos
  left := h.left

/-- The new thread is found by its identifier. -/
theorem findThreadById_take (h : m.Numbered n) (hslot : slot ∈ Pool.free m.used maxThreads)
    (func : F) : (m.take slot func).findThreadById m.nextThreadId = some slot := by
  obtain ⟨hlt, -⟩ := Pool.mem_free.1 hslot
  obtain ⟨i, hi⟩ := Option.isSome_iff_exists.1 (show
      ((m.take slot func).findThreadById m.nextThreadId).isSome = true from
    List.find?_isSome.2 ⟨slot, List.mem_range.2 hlt, by simp [ThreadManager.take]⟩)
  obtain ⟨hlt', hused, hid⟩ := findThreadById_used hi
  -- No other thread has this identifier.
  rcases eq_or_ne i slot with rfl | hne
  · exact hi
  · rw [take_used, Function.update_of_ne hne] at hused
    have hbefore := h.before i hlt' hused
    simp only [ThreadManager.take, ThreadManager.setThread, Function.update_of_ne hne] at hid
    rw [hid] at hbefore
    exact absurd hbefore (UInt32.lt_irrefl _)

end Numbered

end ThreadManager

end FtlFirmware
