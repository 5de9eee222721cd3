import FtlFirmware.Dma.Sync
import FtlFirmware.Thread.Slots

/-!
# What a synchronous transfer gives back

A synchronous transfer is to succeed and to give back what it has taken, its channel and the slot of
its thread (`Returned`). It waits for its thread, but nobody destroys it: a transfer that succeeds
leaves a slot less than before (`transferSync_ok`), so that the calls give back everything only if
there are none (`transfers_returned`). As many of them succeed as there have been free slots, and
all others fail.
-/

namespace FtlFirmware

namespace DmaDesc

/-- All bytes are counted. -/
theorem transferLoop_fst (d : DmaDesc) (p : Progress) (transferred : UInt32) (mem : ℕ → UInt8) :
    (d.transferLoop p transferred mem).1 = transferred + p.remaining.toUInt32 := by
  fun_induction transferLoop d p transferred mem with
  | case1 p transferred mem hpos n ih =>
    have hle : n ≤ p.remaining := Nat.min_le_left ..
    simp only [dite_eq_ite] at ih
    rw [ih, UInt32.add_assoc]
    congr 1
    change UInt32.ofNat n + UInt32.ofNat (p.remaining - n) = UInt32.ofNat p.remaining
    rw [← UInt32.ofNat_add, Nat.add_sub_cancel' hle]
  | case2 p transferred mem hpos =>
    rw [Nat.eq_zero_of_not_pos hpos]
    simp

end DmaDesc

namespace DmaSystem

variable {s s' : DmaSystem} {ch n : ℕ} {desc : DmaDesc} {descs : List DmaDesc} {c : DmaChannel}
  {body : RetCode × DmaSystem} {ret : RetCode}

/-! ## What is to hold -/

/-- The number of free slots for threads. -/
def freeSlots (s : DmaSystem) : ℕ := s.manager.freeSlots

/-- The same channels are allocated. -/
def SameChannels (s s' : DmaSystem) : Prop :=
  ∀ ch, (s'.channel ch).isAllocated = (s.channel ch).isAllocated

/-- A call succeeds, and gives back what it has taken. -/
structure Returned (s : DmaSystem) (r : RetCode × Option UInt32 × DmaSystem) : Prop where
  ok : r.1 = .ok
  channels : s.SameChannels r.2.2
  slots : r.2.2.freeSlots = s.freeSlots

/-- Each of the calls made one after another gives back what it has taken. -/
def AllReturned : List DmaDesc → DmaSystem → Prop
  | [], _ => True
  | desc :: descs, s =>
    s.Returned (s.transferSync desc) ∧ AllReturned descs (s.transferSync desc).2.2

/-- The controller is initialised, has a free channel, and there are identifiers for the threads of
    `n` transfers. -/
structure Ready (s : DmaSystem) (n : ℕ) : Prop where
  initialized : s.dma.initialized = true
  channel : ∃ ch < dmaMaxChannels, (s.channel ch).isAllocated = false
  numbered : s.manager.Numbered n

/-! ## Channels -/

@[simp] theorem setChannel_self : (s.setChannel ch c).channel ch = c := Function.update_self ..

@[simp] theorem setChannel_manager : (s.setChannel ch c).manager = s.manager := rfl

@[simp] theorem setChannel_setChannel (c' : DmaChannel) :
    (s.setChannel ch c).setChannel ch c' = s.setChannel ch c' := by
  simp [setChannel, DmaController.setChannel]

/-- The channel may be used. -/
structure Usable (s : DmaSystem) (ch : ℕ) : Prop where
  initialized : s.dma.initialized = true
  lt : ch < dmaMaxChannels
  allocated : (s.channel ch).isAllocated = true

/-- The checks are passed by a channel that may be used. -/
theorem Usable.check_eq (h : s.Usable ch) (body : RetCode × DmaSystem) :
    s.check ch body = body := by
  rw [check, if_neg (by simp [h.initialized]), if_neg h.lt.not_ge, if_neg (by simp [h.allocated])]

/-- Channels that are replaced may still be used. -/
theorem Usable.setChannel (h : s.dma.initialized = true) (hlt : ch < dmaMaxChannels)
    (hc : c.isAllocated = true) : (s.setChannel ch c).Usable ch :=
  ⟨h, hlt, by rwa [setChannel_self]⟩

/-! ## Slots -/

/-- What is checked before leaves the slots alone. -/
theorem check_used (h : body.2.manager.used = s.manager.used) :
    (s.check ch body).2.manager.used = s.manager.used := by
  unfold check
  split_ifs <;> first | rfl | exact h

theorem joinThread_used : (s.joinThread ch).manager.used = s.manager.used := by
  rw [joinThread]
  split
  · exact ThreadManager.join_used _ _
  · rfl

theorem poll_used : (s.poll ch).manager.used = s.manager.used := by
  rw [poll]
  split
  · rfl
  · exact ThreadManager.runThread_used _ _ _

theorem stopTransfer_used : (s.stopTransfer ch).2.manager.used = s.manager.used :=
  check_used joinThread_used

theorem freeChannel_used : (s.freeChannel ch).2.manager.used = s.manager.used := by
  refine check_used ?_
  dsimp only
  split
  · exact stopTransfer_used
  · rfl

theorem waitComplete_used : (s.waitComplete ch).2.manager.used = s.manager.used := by
  refine check_used ?_
  dsimp only
  set polled := if s.pending ch then s.poll ch else s with hpolled
  have hused : polled.manager.used = s.manager.used := by
    rw [hpolled]
    split
    · exact poll_used
    · rfl
  by_cases hpending : polled.pending ch
  · rwa [if_pos hpending]
  · rw [if_neg hpending]
    exact joinThread_used.trans hused

/-! ## The begin of a transfer -/

/-- A transfer that is started has got a slot. -/
theorem startTransfer_ok (hready : (s.channel ch).state = .ready)
    (hstart : s.startTransfer ch = (.ok, s')) : s'.freeSlots + 1 = s.freeSlots := by
  unfold startTransfer check at hstart
  split_ifs at hstart with h₁ h₂ h₃ h₄ h₅
  · simp at hstart
  · simp at hstart
  · simp at hstart
  · exact absurd hready h₄.1
  · rw [hready] at h₅
    simp at h₅
  · rcases s.manager.create_cases (.dmaTransfer ch) with ⟨hcreate, -⟩ | ⟨slot, hslot, hcreate⟩
    · rw [hcreate] at hstart
      simp at hstart
    · rw [hcreate] at hstart
      dsimp only at hstart
      split at hstart
      · simp at hstart
      · obtain ⟨-, rfl⟩ := Prod.mk.inj hstart
        rw [freeSlots, freeSlots, ← ThreadManager.freeSlots_take hslot]
        exact congrArg (· + 1) (ThreadManager.freeSlots_congr ThreadManager.start_used)

/-- A channel that has been allocated and configured. -/
def readied (s : DmaSystem) (ch : ℕ) (desc : DmaDesc) : DmaSystem :=
  s.setChannel ch ⟨.ready, desc, 0, true, (s.channel ch).threadId⟩

/-- A synchronous transfer allocates and configures the first channel that is free. -/
theorem transferSync_eq (hinit : s.dma.initialized = true)
    (hch : Pool.firstFree (fun i => (s.channel i).isAllocated) dmaMaxChannels = some ch) :
    s.transferSync desc =
      match (s.readied ch desc).startTransfer ch with
      | (.ok, s) =>
        let (ret, s) := s.waitComplete ch
        (ret, some (s.channel ch).transferred, (s.freeChannel ch).2)
      | (ret, s) => (ret, none, (s.freeChannel ch).2) := by
  have hlt := (Pool.mem_free.1 (Pool.firstFree_mem hch)).1
  have hconfig : (s.setChannel ch
      { s.channel ch with isAllocated := true, state := .idle, transferred := 0 }).configChannel ch
        desc = (.ok, s.readied ch desc) := by
    rw [configChannel, (Usable.setChannel hinit hlt rfl).check_eq, setChannel_self,
      if_neg (by simp), setChannel_setChannel]
    rfl
  rw [transferSync, if_neg (by simp [hinit]), allocChannel, if_neg (by simp [hinit]), hch]
  dsimp only
  rewrite [hconfig]
  rfl

/-- Without a free channel, no transfer succeeds. -/
theorem transferSync_none
    (hch : Pool.firstFree (fun i => (s.channel i).isAllocated) dmaMaxChannels = none) :
    (s.transferSync desc).1 ≠ .ok := by
  rw [transferSync]
  split
  · simp
  · next hinit =>
    rw [allocChannel, if_neg hinit, hch]
    simp

/-- A transfer that succeeds leaves a slot less than before. -/
theorem transferSync_ok (hok : (s.transferSync desc).1 = .ok) :
    (s.transferSync desc).2.2.freeSlots + 1 = s.freeSlots := by
  cases hch : Pool.firstFree (fun i => (s.channel i).isAllocated) dmaMaxChannels with
  | none => exact absurd hok (transferSync_none hch)
  | some ch =>
    by_cases hinit : s.dma.initialized = true
    · rw [transferSync_eq hinit hch] at hok ⊢
      rcases hstart : (s.readied ch desc).startTransfer ch with ⟨ret, s₁⟩
      rw [hstart] at hok
      cases ret with
      | ok =>
        have hslots := startTransfer_ok (by simp [readied]) hstart
        have hused : ((s₁.waitComplete ch).2.freeChannel ch).2.manager.used = s₁.manager.used :=
          freeChannel_used.trans waitComplete_used
        dsimp only
        rw [freeSlots, ThreadManager.freeSlots_congr hused]
        exact hslots
      | _ => simp at hok
    · rw [transferSync, if_pos (by simpa using hinit)] at hok
      simp at hok

/-! ## A transfer from its beginning to its end -/

/-- Freeing a channel whose transfer has come to its end. -/
theorem Usable.freeChannel_eq (h : s.Usable ch) (hstate : (s.channel ch).state = .complete ∨
    (s.channel ch).state = .error) : s.freeChannel ch =
      (.ok, s.setChannel ch { s.channel ch with isAllocated := false, state := .idle }) := by
  rw [freeChannel, h.check_eq]
  rcases hstate with hstate | hstate <;> simp [hstate]

/-- A transfer for which there is no slot. -/
theorem startTransfer_full (hinit : s.dma.initialized = true) (hlt : ch < dmaMaxChannels)
    (hcreate : s.manager.create (.dmaTransfer ch) = (0, s.manager)) :
    (s.readied ch desc).startTransfer ch =
      (.errInternal, s.setChannel ch ⟨.error, desc, 0, true, 0⟩) := by
  rw [startTransfer, readied, (Usable.setChannel hinit hlt rfl).check_eq, setChannel_self,
    if_neg (by simp), if_neg (by simp), setChannel_manager, hcreate]
  dsimp only
  rw [if_pos rfl]
  exact congrArg (Prod.mk _) (setChannel_setChannel _)

/-- The system with the thread of a transfer in a slot, and another memory. -/
def transferring (s : DmaSystem) (ch : ℕ) (c : DmaChannel) (slot : ℕ) (state : ThreadState)
    (launched : Bool) (mem : ℕ → UInt8) : DmaSystem where
  manager := (s.manager.take slot (.dmaTransfer ch)).setThread slot
    ⟨s.manager.nextThreadId, some (.dmaTransfer ch), state, launched, true⟩
  dma := { s.dma.setChannel ch c with mem }

variable {slot : ℕ} {state : ThreadState} {launched : Bool} {mem : ℕ → UInt8}

@[simp] theorem transferring_channel :
    (s.transferring ch c slot state launched mem).channel ch = c :=
  Function.update_self ..

@[simp] theorem transferring_thread :
    (s.transferring ch c slot state launched mem).manager.threads slot =
      ⟨s.manager.nextThreadId, some (.dmaTransfer ch), state, launched, true⟩ :=
  Function.update_self ..

/-- The thread of a transfer is found. -/
theorem transferring_found (h : s.Ready n) (hslot : slot ∈ Pool.free s.manager.used maxThreads) :
    (s.transferring ch c slot state launched mem).manager.findThreadById s.manager.nextThreadId =
      some slot := by
  rw [transferring, ThreadManager.findThreadById_setThread]
  · exact h.numbered.findThreadById_take hslot _
  · simp [ThreadManager.take]
  · simp [ThreadManager.take]

/-- A transfer with a slot is started. -/
theorem startTransfer_slot (h : s.Ready n) (hlt : ch < dmaMaxChannels)
    (hslot : slot ∈ Pool.free s.manager.used maxThreads)
    (hcreate : s.manager.create (.dmaTransfer ch) =
      (s.manager.nextThreadId, s.manager.take slot (.dmaTransfer ch))) :
    (s.readied ch desc).startTransfer ch =
      (.ok, s.transferring ch ⟨.ready, desc, 0, true, s.manager.nextThreadId⟩ slot .ready true
        s.dma.mem) := by
  have hthread : (s.manager.take slot (.dmaTransfer ch)).threads slot =
      ⟨s.manager.nextThreadId, some (.dmaTransfer ch), .ready, false, true⟩ :=
    ThreadManager.setThread_self
  have hstart : (s.manager.take slot (.dmaTransfer ch)).start s.manager.nextThreadId =
      (.ok, (s.manager.take slot (.dmaTransfer ch)).setThread slot
        ⟨s.manager.nextThreadId, some (.dmaTransfer ch), .ready, true, true⟩) := by
    have hinit : (s.manager.take slot (.dmaTransfer ch)).initialized = true :=
      h.numbered.initialized
    rw [ThreadManager.start, if_neg (by simp [hinit]), h.numbered.findThreadById_take hslot]
    dsimp only
    rw [hthread, if_neg (by simp)]
  rw [startTransfer, readied, (Usable.setChannel h.initialized hlt rfl).check_eq, setChannel_self,
    if_neg (by simp), if_neg (by simp), setChannel_manager, hcreate]
  dsimp only
  rw [if_neg h.numbered.next_ne_zero, hstart]
  simp [transferring, setChannel, DmaController.setChannel]

/-- The thread of a transfer that has been started runs to its end. -/
theorem poll_slot (ch : ℕ) (desc : DmaDesc) (mem : ℕ → UInt8) (h : s.Ready n)
    (hslot : slot ∈ Pool.free s.manager.used maxThreads) :
    ∃ mem', (s.transferring ch ⟨.ready, desc, 0, true, s.manager.nextThreadId⟩ slot .ready true
      mem).poll ch = s.transferring ch ⟨.complete, desc, desc.length, true,
        s.manager.nextThreadId⟩ slot .stopped false mem' := by
  set progress : Progress := ⟨desc.srcAddr, desc.dstAddr, desc.length.toNat⟩ with hprogress
  have hcount : (desc.transferLoop progress 0 mem).1 = desc.length := by
    rw [desc.transferLoop_fst, UInt32.zero_add]
    exact UInt32.ofNat_toNat
  refine ⟨(desc.transferLoop progress 0 mem).2, ?_⟩
  rw [poll, transferring_channel, transferring_found h hslot]
  dsimp only
  rw [ThreadManager.runThread, transferring_thread, if_pos rfl]
  simp [transferring, DmaController.call, DmaController.transferThread, DmaController.setChannel,
    ← hprogress, hcount]

/-- A transfer that has come to its end has no thread that would have to be waited for. -/
theorem joinThread_slot (h : s.Ready n) (hslot : slot ∈ Pool.free s.manager.used maxThreads) :
    (s.transferring ch ⟨.complete, desc, desc.length, true, s.manager.nextThreadId⟩ slot .stopped
      false mem).joinThread ch =
        s.transferring ch ⟨.complete, desc, desc.length, true, 0⟩ slot .stopped false mem := by
  set ended := s.transferring ch ⟨.complete, desc, desc.length, true, s.manager.nextThreadId⟩ slot
    .stopped false mem with hended
  have hjoin : ThreadManager.join DmaController.call s.manager.nextThreadId ended.manager
      ended.dma = (.ok, ended.manager, ended.dma) := by
    have hinit : ended.manager.initialized = true := h.numbered.initialized
    rw [ThreadManager.join, if_neg (by simp [hinit]), hended, transferring_found h hslot]
    dsimp only
    rw [transferring_thread, if_pos (Or.inl rfl)]
  have hid : (ended.channel ch).threadId = s.manager.nextThreadId := by simp [hended]
  rw [joinThread, hid, if_pos h.numbered.next_ne_zero, hjoin]
  simp [hended, transferring, DmaController.setChannel]

/-- Waiting for the end of a transfer that has been started. -/
theorem waitComplete_slot (desc : DmaDesc) (mem : ℕ → UInt8) (h : s.Ready n) (hlt : ch < dmaMaxChannels)
    (hslot : slot ∈ Pool.free s.manager.used maxThreads) : ∃ mem',
    (s.transferring ch ⟨.ready, desc, 0, true, s.manager.nextThreadId⟩ slot .ready true
        mem).waitComplete ch =
      (.ok, s.transferring ch ⟨.complete, desc, desc.length, true, 0⟩ slot .stopped false
        mem') := by
  obtain ⟨mem', hpoll⟩ := poll_slot ch desc mem h hslot
  refine ⟨mem', ?_⟩
  set started := s.transferring ch ⟨.ready, desc, 0, true, s.manager.nextThreadId⟩ slot .ready true
    mem with hstarted
  have husable : started.Usable ch := ⟨h.initialized, hlt, by simp [hstarted]⟩
  have hpending : started.pending ch := by simp [pending, hstarted]
  rw [waitComplete, husable.check_eq, if_pos hpending, hpoll, if_neg (by simp [pending]),
    joinThread_slot h hslot]

/-- Channels are allocated as before if only a free one has been replaced, and is free again. -/
theorem sameChannels_update (hfree : (s.channel ch).isAllocated = false)
    (hc : c.isAllocated = false)
    (hs' : s'.dma.channels = Function.update s.dma.channels ch c) : s.SameChannels s' := by
  intro i
  rw [channel, hs', Function.update_apply]
  split
  · next hi => rw [hc, hi, hfree]
  · rfl

theorem SameChannels.trans {s'' : DmaSystem} (h : s.SameChannels s') (h' : s'.SameChannels s'') :
    s.SameChannels s'' :=
  fun i => (h' i).trans (h i)

/-- A transfer succeeds exactly if there is a slot for its thread. In any case its channel is free
    again. -/
theorem transferSync_spec (h : s.Ready (n + 1)) (desc : DmaDesc) :
    ∃ s', s'.Ready n ∧ s.SameChannels s' ∧
      (s.freeSlots = 0 ∧ s'.freeSlots = 0 ∧ s.transferSync desc = (.errInternal, none, s') ∨
        s'.freeSlots + 1 = s.freeSlots ∧
          s.transferSync desc = (.ok, some desc.length, s')) := by
  have hsome : Pool.firstFree (fun i => (s.channel i).isAllocated) dmaMaxChannels ≠ none := by
    obtain ⟨i, hi, hfree⟩ := h.channel
    rw [Ne, Pool.firstFree_eq_none, Finset.card_eq_zero]
    exact Finset.ne_empty_of_mem (Pool.mem_free.2 ⟨hi, hfree⟩)
  obtain ⟨ch, hch⟩ := Option.ne_none_iff_exists'.1 hsome
  obtain ⟨hlt, hfree⟩ := Pool.mem_free.1 (Pool.firstFree_mem hch)
  -- The transfer takes a slot of the thread manager, or there is none left.
  rcases h.numbered.create_eq (.dmaTransfer ch) with ⟨hcreate, hzero⟩ | ⟨slot, hslot, hcreate⟩
  · refine ⟨s.setChannel ch ⟨.idle, desc, 0, false, 0⟩, ⟨h.initialized, ⟨ch, hlt, by simp⟩, ?_⟩,
      sameChannels_update hfree rfl rfl, Or.inl ⟨hzero, hzero, ?_⟩⟩
    · exact h.numbered.of_le n.le_succ
    · rw [transferSync_eq h.initialized hch, startTransfer_full h.initialized hlt hcreate]
      dsimp only
      rw [(Usable.setChannel h.initialized hlt rfl).freeChannel_eq (by simp)]
      simp
  · obtain ⟨mem, hwait⟩ := waitComplete_slot desc s.dma.mem h hlt hslot
    refine ⟨s.transferring ch ⟨.idle, desc, desc.length, false, 0⟩ slot .stopped false mem,
      ⟨h.initialized, ⟨ch, hlt, by simp⟩, ?_⟩, sameChannels_update hfree rfl rfl,
      Or.inr ⟨?_, ?_⟩⟩
    · exact (h.numbered.take slot _).setThread (by simp [ThreadManager.take])
        (by rw [ThreadManager.take_used, Function.update_self])
    · have hused := ThreadManager.setThread_used (m := s.manager.take slot (.dmaTransfer ch))
        (i := slot) (t := ⟨s.manager.nextThreadId, some (.dmaTransfer ch), .stopped, false, true⟩)
        (by rw [ThreadManager.take_used, Function.update_self])
      rw [freeSlots, freeSlots, ← ThreadManager.freeSlots_take hslot]
      exact congrArg (· + 1) (ThreadManager.freeSlots_congr hused)
    · have husable : (s.transferring ch ⟨.complete, desc, desc.length, true, 0⟩ slot .stopped false
          mem).Usable ch := ⟨h.initialized, hlt, by simp⟩
      rw [transferSync_eq h.initialized hch, startTransfer_slot h hlt hslot hcreate]
      dsimp only
      rw [hwait]
      dsimp only
      rw [husable.freeChannel_eq (by simp), transferring_channel]
      simp [transferring, setChannel, DmaController.setChannel]

/-! ## Transfers one after another -/

/-- What transfers made one after another answer, if there are `k` slots for their threads. -/
def answers (descs : List DmaDesc) (k : ℕ) : List (RetCode × Option UInt32) :=
  (descs.take k).map (fun desc => (.ok, some desc.length)) ++
    List.replicate (descs.length - k) (.errInternal, none)

/-- Each transfer that succeeds takes a slot for good. -/
theorem transfers_spec (descs : List DmaDesc) (h : s.Ready descs.length) :
    (transfers descs s).1 = answers descs s.freeSlots ∧
      (transfers descs s).2.freeSlots = s.freeSlots - descs.length ∧
      s.SameChannels (transfers descs s).2 := by
  induction descs generalizing s with
  | nil => exact ⟨by simp [transfers, answers], rfl, fun _ => rfl⟩
  | cons desc descs ih =>
    obtain ⟨s', hready, hsame, ⟨hzero, hzero', heq⟩ | ⟨hslots, heq⟩⟩ := transferSync_spec h desc
    · obtain ⟨hanswers, hleft, hchannels⟩ := ih hready
      rw [transfers, heq]
      dsimp only
      refine ⟨?_, ?_, hsame.trans hchannels⟩
      · rw [hanswers, hzero, hzero']
        simp [answers, List.replicate_succ]
      · rw [hleft, hzero, hzero', Nat.zero_sub, Nat.zero_sub]
    · obtain ⟨hanswers, hleft, hchannels⟩ := ih hready
      rw [transfers, heq]
      dsimp only
      refine ⟨?_, ?_, hsame.trans hchannels⟩
      · rw [hanswers, ← hslots]
        simp [answers]
      · rw [hleft, ← hslots, List.length_cons, Nat.add_sub_add_right]

/-- The transfers made one after another give back what they have taken only if there are none: each
    one that succeeds leaves a slot less. If the controller is ready, as many of them succeed as
    there are free slots, all others fail, and the channels are free again. -/
theorem transfers_returned (s : DmaSystem) (descs : List DmaDesc) :
    (AllReturned descs s ↔ descs = []) ∧
      (s.Ready descs.length →
        (transfers descs s).1 = answers descs s.freeSlots ∧
          (transfers descs s).2.freeSlots = s.freeSlots - descs.length ∧
          s.SameChannels (transfers descs s).2) := by
  refine ⟨⟨fun h => ?_, fun h => ?_⟩, transfers_spec descs⟩
  · cases descs with
    | nil => rfl
    | cons desc descs =>
      have hslots := transferSync_ok h.1.ok
      rw [h.1.slots] at hslots
      exact absurd hslots (Nat.succ_ne_self _)
  · subst h
    trivial

/-- The thread manager before it is initialised. -/
def noThreads : ThreadManager ThreadFunc := ⟨false, fun _ => ThreadManager.unused, 0, 1⟩

/-- The controller after `dma_init`, when nothing has been used before. -/
def powerOn (mem : ℕ → UInt8) : DmaSystem := init ⟨noThreads, ⟨false, fun _ => idleChannel, mem⟩⟩

theorem powerOn_ready (mem : ℕ → UInt8) (hn : n + 1 < 2 ^ 32) : (powerOn mem).Ready n :=
  ⟨rfl, ⟨0, Nat.zero_lt_succ _, rfl⟩, ThreadManager.numbered_init (m := noThreads) rfl hn⟩

theorem powerOn_freeSlots (mem : ℕ → UInt8) : (powerOn mem).freeSlots = maxThreads := by
  simp [freeSlots, ThreadManager.freeSlots, Pool.free, powerOn, noThreads, init,
    ThreadManager.init, ThreadManager.used, ThreadManager.unused]

/-- The first transfer after `dma_init`. -/
theorem transfers_returned_first :
    (transfers [⟨100, 200, 4, true, true⟩] (powerOn fun _ => 0)).1 = [(.ok, some 4)] ∧
      (transfers [⟨100, 200, 4, true, true⟩] (powerOn fun _ => 0)).2.freeSlots = 31 := by
  obtain ⟨hanswers, hleft, -⟩ := (transfers_returned (powerOn fun _ => 0)
    [⟨100, 200, 4, true, true⟩]).2 (powerOn_ready _ (by simp))
  rw [hanswers, hleft, powerOn_freeSlots]
  exact ⟨rfl, rfl⟩

/-- After `dma_init`, the first transfer of four bytes succeeds, but its slot is not free again; of
    33 transfers, the last one fails. -/
theorem not_transfers_returned :
    let desc : DmaDesc := ⟨100, 200, 4, true, true⟩
    let s := powerOn fun _ => 0
    (transfers [desc] s).1 = [(.ok, some 4)] ∧ s.freeSlots = 32 ∧
      (transfers [desc] s).2.freeSlots = 31 ∧ ¬ AllReturned [desc] s ∧
      (transfers (List.replicate 33 desc) s).1.getLast? = some (.errInternal, none) := by
  intro desc s
  have hslots : s.freeSlots = 32 := powerOn_freeSlots _
  obtain ⟨hone, hleft, -⟩ := transfers_spec [desc] (powerOn_ready (fun _ => 0) (by simp))
  obtain ⟨hall, -, -⟩ := transfers_spec (List.replicate 33 desc)
    (powerOn_ready (fun _ => 0) (by simp))
  refine ⟨?_, hslots, ?_, fun h => ?_, ?_⟩
  · rw [hone, powerOn_freeSlots]
    rfl
  · rw [hleft, powerOn_freeSlots]
    rfl
  · have hok : (s.transferSync desc).1 = .ok := h.1.ok
    have hlost := transferSync_ok hok
    rw [h.1.slots] at hlost
    exact absurd hlost (Nat.succ_ne_self _)
  · rw [hall, powerOn_freeSlots]
    rfl

end DmaSystem

end FtlFirmware
