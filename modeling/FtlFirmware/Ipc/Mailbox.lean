import FtlFirmware.Ipc.Linked

/-!
# Mailboxes

What the queues are for: each module has a mailbox, a stable priority queue of the messages that
wait (`Mailbox`), with the books of what has been accepted, received and cleared. `Post.next`
follows the calls and their answers.

* `Mailbox.Sound` is kept: the messages that wait are in order, and each accepted one waits, has
  been received or has been cleared, once;
* `Ipc.Follows` is kept by each call (`Follows.exec`): the queues hold the messages that wait;
* `msg_queue_refines`: so it is throughout every run, and what is received is what the mailbox
  serves.
-/

namespace FtlFirmware

open scoped List

/-- The mailbox of a module: the messages accepted, numbered in the order in which they have been
    sent, and those of them that wait, have been received and have been cleared. -/
structure Mailbox where
  accepted : List (ℕ × Message)
  queue : List (ℕ × Message)
  received : List (ℕ × Message)
  cleared : List (ℕ × Message)

namespace Mailbox

/-- Nothing has been sent. -/
def empty : Mailbox := ⟨[], [], [], []⟩

variable (b : Mailbox)

/-- A message is accepted: it waits behind those that are not of lower priority. -/
def accept (msg : Message) : Mailbox :=
  { b with accepted := b.accepted ++ [(b.accepted.length, msg)],
           queue := PriorityQueue.enqueue nodePriority (b.accepted.length, msg) b.queue }

/-- The first message that waits is received. -/
def deliver : Mailbox :=
  { b with queue := b.queue.tail, received := b.received ++ b.queue.head?.toList }

/-- The messages that wait are cleared. -/
def clear : Mailbox := { b with queue := [], cleared := b.cleared ++ b.queue }

/-- The answer to a module that wants to receive a message. -/
def serve : RetCode × Option Message :=
  match b.queue with
  | [] => (.errBusy, none)
  | x :: _ => (.ok, some x.2)

/-- The message `x` comes before the message `y`: it has a higher priority, or the same one and
    has been sent before. -/
abbrev Before : ℕ × Message → ℕ × Message → Prop :=
  PriorityQueue.Before nodePriority fun x y => x.1 < y.1

/-- What holds of a mailbox throughout a run. -/
structure Sound : Prop where
  ordered : b.queue.Pairwise Before
  conserved : (b.received ++ b.cleared ++ b.queue).Perm b.accepted
  numbered : b.accepted.map Prod.fst = List.range b.accepted.length

variable {b}

theorem empty_sound : empty.Sound := ⟨List.Pairwise.nil, List.Perm.nil, rfl⟩

namespace Sound

/-- The messages that wait have been sent before the next one. -/
theorem lt_length (h : b.Sound) {x : ℕ × Message} (hx : x ∈ b.queue) :
    x.1 < b.accepted.length := by
  have hmem : x.1 ∈ b.accepted.map Prod.fst :=
    List.mem_map_of_mem (h.conserved.mem_iff.1 (List.mem_append_right _ hx))
  rwa [h.numbered, List.mem_range] at hmem

theorem accept (h : b.Sound) (msg : Message) : (b.accept msg).Sound where
  ordered := PriorityQueue.pairwise_enqueue h.ordered fun _ hx => h.lt_length hx
  conserved := by
    calc b.received ++ b.cleared ++ PriorityQueue.enqueue nodePriority _ b.queue
        ~ b.received ++ b.cleared ++ (b.accepted.length, msg) :: b.queue :=
          PriorityQueue.perm_enqueue.append_left _
      _ ~ (b.accepted.length, msg) :: (b.received ++ b.cleared ++ b.queue) := List.perm_middle
      _ ~ (b.accepted.length, msg) :: b.accepted := h.conserved.cons _
      _ ~ b.accepted ++ [(b.accepted.length, msg)] := (List.perm_append_singleton _ _).symm
  numbered := by
    rw [Mailbox.accept, List.map_append, h.numbered, List.length_append, List.length_singleton,
      List.range_succ]
    rfl

theorem deliver (h : b.Sound) : b.deliver.Sound where
  ordered := h.ordered.tail
  conserved := by
    rw [Mailbox.deliver]
    cases hq : b.queue with
    | nil => simpa [hq] using h.conserved
    | cons x l =>
      calc b.received ++ [x] ++ b.cleared ++ l
          ~ b.received ++ (x :: (b.cleared ++ l)) := by simp
        _ ~ b.received ++ (b.cleared ++ x :: l) := List.perm_middle.symm.append_left _
        _ ~ b.received ++ b.cleared ++ b.queue := by rw [hq, List.append_assoc]
        _ ~ b.accepted := h.conserved
  numbered := h.numbered

theorem clear (h : b.Sound) : b.clear.Sound where
  ordered := List.Pairwise.nil
  conserved := by
    rw [Mailbox.clear, List.append_nil, ← List.append_assoc]
    exact h.conserved
  numbered := h.numbered

end Sound

end Mailbox

/-- The mailboxes of all modules, and the number of messages accepted by any of them. -/
structure Post where
  stamps : ℕ
  box : ℕ → Mailbox

namespace Post

/-- Nothing has been sent. -/
def start : Post := ⟨0, fun _ => .empty⟩

/-- The mailboxes with another one for a module. -/
def setBox (p : Post) (module : ℕ) (b : Mailbox) : Post :=
  { p with box := Function.update p.box module b }

/-- The mailboxes after a call and its answer. -/
def next (p : Post) : IpcCall × (RetCode × Option Message) → Post
  | (.send msg, (.ok, _)) =>
    { p with stamps := p.stamps + 1 }.setBox msg.header.dstModule
      ((p.box msg.header.dstModule).accept
        (msg.stamp (UInt32.ofNat p.stamps) (UInt32.ofNat p.stamps)))
  | (.recv module, (.ok, _)) => p.setBox module (p.box module).deliver
  | (.clear module, (.ok, _)) => p.setBox module (p.box module).clear
  | (.deinit module, (.ok, _)) => p.setBox module (p.box module).clear
  | _ => p

end Post

namespace Ipc

/-- The queues hold the nodes given, and no node is in two queues. -/
structure Holds (s : Ipc) (nodes : ℕ → List (ℕ × Message)) : Prop where
  queue : ∀ m, (s.queues m).Holds s.heap (nodes m)
  disjoint : ∀ m m', m ≠ m' → ∀ a ∈ (nodes m).map Prod.fst, a ∉ (nodes m').map Prod.fst

/-- The queues hold the messages that wait in the mailboxes. -/
structure Follows (s : Ipc) (p : Post) : Prop where
  holds : ∃ nodes, s.Holds nodes ∧
    ∀ m, (nodes m).map Prod.snd = (p.box m).queue.map Prod.snd
  msgId : s.msgIdCounter = UInt32.ofNat p.stamps
  timestamp : s.timestampCounter = UInt32.ofNat p.stamps
  sound : ∀ m, (p.box m).Sound

variable {s s' : Ipc} {nodes : ℕ → List (ℕ × Message)} {m fuel : ℕ} {q : MsgQueue}
  {l : List (ℕ × Message)} {p : Post} {msg : Message}

namespace Holds

/-- The queue of one module changes, and its nodes. -/
theorem change (h : s.Holds nodes) (hqueues : s'.queues = Function.update s.queues m q)
    (hq : q.Holds s'.heap l) (hframe : ∀ m' ≠ m, ∀ x ∈ nodes m', s'.heap x.1 = s.heap x.1)
    (hnew : ∀ a ∈ l.map Prod.fst, ∀ m' ≠ m, a ∉ (nodes m').map Prod.fst) :
    s'.Holds (Function.update nodes m l) where
  queue m' := by
    rcases eq_or_ne m' m with rfl | hne
    · rwa [hqueues, Function.update_self, Function.update_self]
    · rw [hqueues, Function.update_of_ne hne, Function.update_of_ne hne]
      exact { h.queue m' with linked := (h.queue m').linked.congr (hframe m' hne) }
  disjoint m₁ m₂ hne a ha := by
    rcases eq_or_ne m₁ m with rfl | hne₁
    · rw [Function.update_self] at ha
      rw [Function.update_of_ne hne.symm]
      exact hnew a ha m₂ hne.symm
    · rw [Function.update_of_ne hne₁] at ha
      rcases eq_or_ne m₂ m with rfl | hne₂
      · rw [Function.update_self]
        exact fun ha' => hnew a ha' m₁ hne₁ ha
      · rw [Function.update_of_ne hne₂]
        exact h.disjoint m₁ m₂ hne a ha

/-- The nodes of a queue go, and those of the others stay. -/
theorem drop (h : s.Holds nodes) (hqueues : s'.queues = Function.update s.queues m q)
    (hq : q.Holds s'.heap l) (hsub : ∀ a ∈ l.map Prod.fst, a ∈ (nodes m).map Prod.fst)
    (hframe : ∀ a ∉ (nodes m).map Prod.fst, s'.heap a = s.heap a) :
    s'.Holds (Function.update nodes m l) := by
  refine h.change hqueues hq (fun m' hne x hx => hframe x.1 ?_) fun a ha m' hne => ?_
  · exact h.disjoint m' m hne x.1 (List.mem_map_of_mem hx)
  · exact h.disjoint m m' hne.symm a (hsub a ha)

/-- A message is sent: its node is enqueued. -/
theorem send (h : s.Holds nodes) {address : Option ℕ} (hfree : s.Free address)
    {r : RetCode × Ipc} (hr : s.send fuel address msg = some r) :
    (r.1 ≠ .ok ∧ r.2 = s) ∨ (r.1 = .ok ∧ r.2.msgIdCounter = s.msgIdCounter + 1 ∧
      r.2.timestampCounter = s.timestampCounter + 1 ∧ ∃ a, r.2.Holds
        (Function.update nodes msg.header.dstModule (PriorityQueue.enqueue nodePriority
          (a, msg.stamp s.msgIdCounter s.timestampCounter) (nodes msg.header.dstModule)))) := by
  unfold Ipc.send at hr
  dsimp only at hr
  by_cases hm : moduleMax ≤ msg.header.dstModule
  · rw [if_pos hm] at hr
    cases hr
    exact Or.inl ⟨RetCode.noConfusion, rfl⟩
  rw [if_neg hm] at hr
  by_cases hinit : (s.queues msg.header.dstModule).isInitialized = true
  swap
  · rw [if_pos (by simp [hinit])] at hr
    cases hr
    exact Or.inl ⟨RetCode.noConfusion, rfl⟩
  rw [if_neg (by simp [hinit])] at hr
  by_cases hspace : (s.queues msg.header.dstModule).maxSize ≤
      (s.queues msg.header.dstModule).count
  · rw [if_pos hspace] at hr
    cases hr
    exact Or.inl ⟨RetCode.noConfusion, rfl⟩
  rw [if_neg hspace] at hr
  cases address with
  | none =>
    cases hr
    exact Or.inl ⟨RetCode.noConfusion, rfl⟩
  | some a =>
    obtain ⟨x, hx, rfl⟩ := Option.map_eq_some_iff.1 hr
    have hnone : s.heap a = none := hfree a rfl
    have ha : ∀ m, a ∉ (nodes m).map Prod.fst := fun m => (h.queue m).linked.notMem hnone
    have hq := h.queue msg.header.dstModule
    -- The new node is on the heap before it is linked.
    obtain ⟨x', hx', hins⟩ := MsgQueue.insertNode_spec
      { hq with linked := hq.linked.update (ha _) } (ha _) (Function.update_self ..)
      (MsgQueue.exists_place hx).choose_spec
    obtain rfl : x = x' := Option.some_inj.1 (hx.symm.trans hx')
    refine Or.inr ⟨rfl, rfl, rfl, a, h.change rfl ⟨hins.linked, hins.tail, ?_, ?_, ?_, ?_⟩
      (fun m' hne y hy => ?_) fun b hb m' hne => ?_⟩
    · rw [PriorityQueue.length_enqueue, hins.count, hq.count]
    · rw [PriorityQueue.length_enqueue, hins.maxSize, ← hq.count]
      exact Nat.lt_of_not_le hspace
    · rw [(PriorityQueue.perm_enqueue.map Prod.fst).nodup_iff]
      exact List.nodup_cons.2 ⟨ha _, hq.nodup⟩
    · intro hfalse
      rw [hins.initialized, hinit] at hfalse
      exact absurd hfalse.symm Bool.false_ne_true
    · -- The nodes of other queues are neither the new one nor nodes of this queue.
      have hya : y.1 ≠ a := fun heq => ha m' (heq ▸ List.mem_map_of_mem hy)
      have hyq := h.disjoint m' _ hne y.1 (List.mem_map_of_mem hy)
      exact (hins.frame y.1 hya hyq).trans (Function.update_of_ne hya ..)
    · obtain ⟨y, hy, rfl⟩ := List.mem_map.1 hb
      rcases PriorityQueue.mem_enqueue.1 hy with rfl | hy
      · exact ha m'
      · exact h.disjoint _ m' hne.symm y.1 (List.mem_map_of_mem hy)

/-- A message is received: the first one of the queue. -/
theorem recv (h : s.Holds nodes) {r : (RetCode × Option Message) × Ipc}
    (hr : s.recv m = some r) :
    (r.1.1 ≠ .ok ∧ r.2 = s) ∨ (r.2.msgIdCounter = s.msgIdCounter ∧
      r.2.timestampCounter = s.timestampCounter ∧ ∃ x l, nodes m = x :: l ∧
      r.1 = (.ok, some x.2) ∧ r.2.Holds (Function.update nodes m l)) := by
  unfold Ipc.recv at hr
  dsimp only at hr
  split at hr
  · cases hr
    exact Or.inl ⟨RetCode.noConfusion, rfl⟩
  split at hr
  · cases hr
    exact Or.inl ⟨RetCode.noConfusion, rfl⟩
  rename_i hinit
  split at hr
  · cases hr
    exact Or.inl ⟨RetCode.noConfusion, rfl⟩
  obtain ⟨node, hnode, hr⟩ := Option.bind_eq_some_iff.1 hr
  obtain ⟨n, hn, rfl⟩ := Option.map_eq_some_iff.1 hr
  have hq := h.queue m
  have hlinked := hq.linked
  have hnodup := hq.nodup
  have htail := hq.tail
  have hcount := hq.count
  have hbound := hq.bound
  cases hl : nodes m with
  | nil =>
    rw [hl, linked_nil, hnode] at hlinked
    exact absurd hlinked (Option.some_ne_none node)
  | cons x l =>
    rw [hl] at hlinked hnodup htail hcount hbound
    obtain ⟨hhead, next, hx, hlinked⟩ := hlinked
    obtain rfl : node = x.1 := Option.some_inj.1 (hnode.symm.trans hhead)
    obtain rfl : n = ⟨x.2, next⟩ := Option.some_inj.1 (hn.symm.trans hx)
    obtain ⟨hxl, hnodup⟩ := List.nodup_cons.1 hnodup
    refine Or.inr ⟨rfl, rfl, x, l, rfl, rfl, h.drop rfl ⟨hlinked.update hxl, ?_, ?_, ?_, hnodup, ?_⟩
      (fun b hb => ?_) fun b hb => ?_⟩
    · -- The tail goes with the last node.
      cases l with
      | nil =>
        rw [if_pos (linked_nil.1 hlinked)]
        rfl
      | cons y l =>
        rw [if_neg fun hnone => absurd (hlinked.eq_nil_iff.1 hnone) (List.cons_ne_nil y l), htail,
          List.getLast?_cons_cons]
    · rw [hcount]
      rfl
    · exact Nat.le_of_succ_le hbound
    · intro hfalse
      have hfalse' : (s.queues m).isInitialized = false := hfalse
      exact absurd (by rw [hfalse']; rfl) hinit
    · rw [hl]
      exact List.mem_cons_of_mem _ hb
    · rw [hl] at hb
      refine Function.update_of_ne (fun heq => hb ?_) ..
      rw [heq]
      exact List.mem_cons_self

/-- A module that has a queue is answered. -/
theorem recv_eq (h : s.Holds nodes) (hm : m < moduleMax)
    (hinit : (s.queues m).isInitialized = true) : ∃ s', s.recv m = some (match nodes m with
      | [] => ((.errBusy, none), s')
      | x :: _ => ((.ok, some x.2), s')) := by
  have hlinked := (h.queue m).linked
  have hcount := (h.queue m).count
  rw [Ipc.recv]
  dsimp only
  rw [if_neg (Nat.not_le_of_lt hm), if_neg (by simp [hinit]), hcount]
  cases hl : nodes m with
  | nil => exact ⟨s, rfl⟩
  | cons x l =>
    rw [hl] at hlinked
    obtain ⟨hhead, next, hx, -⟩ := hlinked
    have hlen : ¬(x :: l).length = 0 := Nat.succ_ne_zero l.length
    rw [if_neg hlen, hhead, Option.bind_some, hx]
    exact ⟨_, rfl⟩

/-- The nodes of a queue are freed. -/
theorem freeAll (h : s.Holds nodes) (hqueues : s'.queues = Function.update s.queues m q)
    (hfree : MsgQueue.freeAll fuel s.heap (s.queues m).head = some s'.heap)
    (hq : q.Holds s'.heap []) : s'.Holds (Function.update nodes m []) := by
  refine h.drop hqueues hq (fun a ha => absurd ha List.not_mem_nil) fun a ha => ?_
  rw [MsgQueue.freeAll_eq (h.queue m).linked (h.queue m).nodup hfree, if_neg ha]

/-- A queue is emptied. -/
theorem clear (h : s.Holds nodes) {r : RetCode × Ipc} (hr : s.clear fuel m = some r) :
    (r.1 ≠ .ok ∧ r.2 = s) ∨ (r.1 = .ok ∧ r.2.msgIdCounter = s.msgIdCounter ∧
      r.2.timestampCounter = s.timestampCounter ∧ r.2.Holds (Function.update nodes m [])) := by
  rw [Ipc.clear] at hr
  split at hr
  · cases hr
    exact Or.inl ⟨RetCode.noConfusion, rfl⟩
  split at hr
  · cases hr
    exact Or.inl ⟨RetCode.noConfusion, rfl⟩
  obtain ⟨heap', hfree, rfl⟩ := Option.map_eq_some_iff.1 hr
  exact Or.inr ⟨rfl, rfl, rfl, h.freeAll rfl hfree (.nil rfl rfl rfl)⟩

/-- A queue is given up. -/
theorem deinit (h : s.Holds nodes) {r : RetCode × Ipc} (hr : s.deinit fuel m = some r) :
    (r.1 ≠ .ok ∧ r.2 = s) ∨ (r.1 = .ok ∧ r.2.msgIdCounter = s.msgIdCounter ∧
      r.2.timestampCounter = s.timestampCounter ∧ r.2.Holds (Function.update nodes m [])) := by
  rw [Ipc.deinit] at hr
  split at hr
  · cases hr
    exact Or.inl ⟨RetCode.noConfusion, rfl⟩
  split at hr
  · cases hr
    exact Or.inl ⟨RetCode.noConfusion, rfl⟩
  obtain ⟨heap', hfree, rfl⟩ := Option.map_eq_some_iff.1 hr
  exact Or.inr ⟨rfl, rfl, rfl, h.freeAll rfl hfree (.nil rfl rfl rfl)⟩

/-- A queue that is not in use is initialized. -/
theorem init (h : s.Holds nodes) (hunused : (s.queues m).isInitialized = false) (size : ℕ) :
    (s.init m size).2.msgIdCounter = s.msgIdCounter ∧
    (s.init m size).2.timestampCounter = s.timestampCounter ∧ (s.init m size).2.Holds nodes := by
  have hnil := (h.queue m).unused hunused
  rw [Ipc.init]
  split
  · exact ⟨rfl, rfl, h⟩
  split
  · exact ⟨rfl, rfl, h⟩
  · refine ⟨rfl, rfl, ?_⟩
    have hchange : (s.setQueue m ⟨none, none, 0, size, true⟩).Holds
        (Function.update nodes m []) :=
      h.drop rfl (.nil rfl rfl rfl) (fun _ ha => absurd ha List.not_mem_nil) fun _ _ => rfl
    rwa [← hnil, Function.update_eq_self] at hchange

/-- Every call comes back, wherever memory is allocated. -/
theorem exists_exec (h : s.Holds nodes) (address : Option ℕ) (hfree : s.Free address)
    (c : IpcCall) : ∃ fuel r, s.exec fuel address c = some r := by
  have hfreed : ∀ m, ∃ heap',
      MsgQueue.freeAll (nodes m).length s.heap (s.queues m).head = some heap' := fun m =>
    MsgQueue.exists_freeAll (h.queue m).linked (h.queue m).nodup (Nat.le_refl _)
  cases c with
  | init m size => exact ⟨0, _, rfl⟩
  | deinit m =>
    obtain ⟨heap', hheap⟩ := hfreed m
    refine ⟨(nodes m).length, ?_⟩
    rw [exec, Ipc.deinit, hheap]
    split_ifs <;> exact ⟨_, rfl⟩
  | send msg =>
    have hq := h.queue msg.header.dstModule
    refine ⟨(nodes msg.header.dstModule).length, ?_⟩
    unfold exec Ipc.send
    dsimp only
    cases address with
    | none => split_ifs <;> exact ⟨_, rfl⟩
    -- The place of the message is found on the way to the end of the list.
    | some a =>
      have ha := hq.linked.notMem (hfree a rfl)
      have hq' := { hq with linked := hq.linked.update (x := some
        ⟨msg.stamp s.msgIdCounter s.timestampCounter, none⟩) ha }
      obtain ⟨place, hplace⟩ := MsgQueue.exists_findPlace
        (msg.stamp s.msgIdCounter s.timestampCounter).priority none hq'.linked (Nat.le_refl _)
      obtain ⟨r, hr, -⟩ := MsgQueue.insertNode_spec hq' ha (Function.update_self ..) hplace
      simp only [hr]
      split_ifs <;> exact ⟨_, rfl⟩
  | recv m =>
    refine ⟨0, ?_⟩
    rw [exec]
    by_cases hm : m < moduleMax
    · by_cases hinit : (s.queues m).isInitialized = true
      · obtain ⟨s', hs'⟩ := h.recv_eq hm hinit
        exact ⟨_, hs'⟩
      · rw [Ipc.recv]
        dsimp only
        rw [if_neg (Nat.not_le_of_lt hm), if_pos (by simp [hinit])]
        exact ⟨_, rfl⟩
    · rw [Ipc.recv]
      dsimp only
      rw [if_pos (Nat.le_of_not_lt hm)]
      exact ⟨_, rfl⟩
  | clear m =>
    obtain ⟨heap', hheap⟩ := hfreed m
    refine ⟨(nodes m).length, ?_⟩
    rw [exec, Ipc.clear, hheap]
    split_ifs <;> exact ⟨_, rfl⟩

end Holds

namespace Follows

/-- The mailboxes before any call. -/
theorem start : start.Follows .start where
  holds := ⟨fun _ => [], ⟨fun _ => .nil rfl rfl rfl, fun _ _ _ _ ha => absurd ha List.not_mem_nil⟩,
    fun _ => rfl⟩
  msgId := rfl
  timestamp := rfl
  sound _ := Mailbox.empty_sound

/-- A queue and its mailbox change. -/
theorem change (h : s.Follows p) {b : Mailbox} (hnodes : s'.Holds (Function.update nodes m l))
    (hsame : ∀ m, (nodes m).map Prod.snd = (p.box m).queue.map Prod.snd)
    (hl : l.map Prod.snd = b.queue.map Prod.snd) (hb : b.Sound)
    (hid : s'.msgIdCounter = s.msgIdCounter) (htime : s'.timestampCounter = s.timestampCounter) :
    s'.Follows (p.setBox m b) where
  holds := by
    refine ⟨_, hnodes, fun m' => ?_⟩
    rcases eq_or_ne m' m with rfl | hne
    · simpa [Post.setBox] using hl
    · simpa [Post.setBox, hne] using hsame m'
  msgId := hid.trans h.msgId
  timestamp := htime.trans h.timestamp
  sound m' := by
    rcases eq_or_ne m' m with rfl | hne
    · simpa [Post.setBox] using hb
    · simpa [Post.setBox, hne] using h.sound m'

/-- A message is sent. -/
theorem send (h : s.Follows p) {address : Option ℕ} (hfree : s.Free address)
    {r : RetCode × Ipc} (hr : s.send fuel address msg = some r) (o : Option Message) :
    r.2.Follows (p.next (.send msg, (r.1, o))) := by
  obtain ⟨nodes, hnodes, hsame⟩ := h.holds
  rcases hnodes.send hfree hr with ⟨hret, hs⟩ | ⟨hret, hid, htime, a, hnodes'⟩
  · have hnext : p.next (.send msg, (r.1, o)) = p := by
      cases hcase : r.1 <;> first | exact absurd hcase hret | rfl
    rw [hnext, hs]
    exact h
  · rw [hret]
    have hstamps : UInt32.ofNat p.stamps + 1 = UInt32.ofNat (p.stamps + 1) := by
      rw [UInt32.ofNat_add]
      rfl
    refine ⟨⟨_, hnodes', fun m => ?_⟩, ?_, ?_, fun m => ?_⟩
    · rcases eq_or_ne m msg.header.dstModule with rfl | hne
      · -- The nodes and the messages of the mailbox go by the same priorities.
        have hmap := PriorityQueue.map_enqueue Message.priority
          (Prod.snd : ℕ × Message → Message)
        rw [Function.update_self, h.msgId, h.timestamp]
        refine (hmap _ _).trans ?_
        rw [hsame, ← hmap ((p.box msg.header.dstModule).accepted.length,
          msg.stamp (UInt32.ofNat p.stamps) (UInt32.ofNat p.stamps))]
        simp [Post.next, Post.setBox, Mailbox.accept]
        rfl
      · simpa [Post.next, Post.setBox, hne] using hsame m
    · rw [hid, h.msgId, hstamps]
      rfl
    · rw [htime, h.timestamp, hstamps]
      rfl
    · rcases eq_or_ne m msg.header.dstModule with rfl | hne
      · simpa [Post.next, Post.setBox] using (h.sound _).accept _
      · simpa [Post.next, Post.setBox, hne] using h.sound m

/-- A message is received, and it is the one that the mailbox serves. -/
theorem recv (h : s.Follows p) {r : (RetCode × Option Message) × Ipc} (hr : s.recv m = some r) :
    r.2.Follows (p.next (.recv m, r.1)) ∧
      (r.1.1 = .ok → r.1.2 = (p.box m).queue.head?.map Prod.snd) := by
  obtain ⟨nodes, hnodes, hsame⟩ := h.holds
  rcases hnodes.recv hr with ⟨hret, hs⟩ | ⟨hid, htime, x, l, hl, hret, hnodes'⟩
  · have hnext : p.next (.recv m, r.1) = p := by
      obtain ⟨⟨ret, o⟩, s'⟩ := r
      cases ret <;> first | exact absurd rfl hret | rfl
    rw [hnext, hs]
    exact ⟨h, fun hok => absurd hok hret⟩
  · have hm := hsame m
    rw [hl, List.map_cons] at hm
    cases hq : (p.box m).queue with
    | nil =>
      rw [hq] at hm
      exact absurd hm (List.cons_ne_nil _ _)
    | cons y t =>
      rw [hq, List.map_cons, List.cons.injEq] at hm
      rw [hret]
      refine ⟨h.change hnodes' hsame ?_ (h.sound m).deliver hid htime, fun _ => ?_⟩
      · rw [Mailbox.deliver, hq]
        exact hm.2
      · exact congrArg some hm.1

/-- A queue is emptied, or given up. -/
theorem empty (h : s.Follows p) (hid : s'.msgIdCounter = s.msgIdCounter)
    (htime : s'.timestampCounter = s.timestampCounter) {nodes : ℕ → List (ℕ × Message)}
    (hsame : ∀ m, (nodes m).map Prod.snd = (p.box m).queue.map Prod.snd)
    (hnodes : s'.Holds (Function.update nodes m [])) : s'.Follows (p.setBox m (p.box m).clear) :=
  h.change hnodes hsame rfl (h.sound m).clear hid htime

/-- Each call keeps the mailboxes. -/
theorem exec (h : s.Follows p) {c : IpcCall} {a : RetCode × Option Message}
    (hallowed : initOnce s c) (hstep : machine.step s c a s') : s'.Follows (p.next (c, a)) := by
  obtain ⟨fuel, address, hfree, hexec⟩ := hstep
  obtain ⟨nodes, hnodes, hsame⟩ := h.holds
  cases c with
  | init m size =>
    cases hexec
    obtain ⟨hid, htime, hinit⟩ := hnodes.init hallowed size
    exact ⟨⟨nodes, hinit, hsame⟩, hid.trans h.msgId, htime.trans h.timestamp, h.sound⟩
  | deinit m =>
    obtain ⟨r, hr, heq⟩ := Option.map_eq_some_iff.1 hexec
    cases heq
    rcases hnodes.deinit hr with ⟨hret, hs⟩ | ⟨hret, hid, htime, hnodes'⟩
    · have hnext : p.next (.deinit m, (r.1, none)) = p := by
        cases hcase : r.1 <;> first | exact absurd hcase hret | rfl
      rw [hnext, hs]
      exact h
    · rw [hret]
      exact h.empty hid htime hsame hnodes'
  | send msg =>
    obtain ⟨r, hr, heq⟩ := Option.map_eq_some_iff.1 hexec
    cases heq
    exact h.send hfree hr none
  | recv m => exact (h.recv hexec).1
  | clear m =>
    obtain ⟨r, hr, heq⟩ := Option.map_eq_some_iff.1 hexec
    cases heq
    rcases hnodes.clear hr with ⟨hret, hs⟩ | ⟨hret, hid, htime, hnodes'⟩
    · have hnext : p.next (.clear m, (r.1, none)) = p := by
        cases hcase : r.1 <;> first | exact absurd hcase hret | rfl
      rw [hnext, hs]
      exact h
    · rw [hret]
      exact h.empty hid htime hsame hnodes'

end Follows

/-! ### Runs -/

/-- The mailboxes of a run. -/
def post (tr : List (IpcCall × (RetCode × Option Message))) : Post := tr.foldl Post.next .start

/-- The messages that a call hands to the module `m`. -/
def handed (m : ℕ) : IpcCall × (RetCode × Option Message) → List Message
  | (.recv m', (.ok, o)) => if m' = m then o.toList else []
  | _ => []

/-- What a call hands to a module has been received from its mailbox. -/
theorem received_next (h : s.Follows p) {c : IpcCall} {a : RetCode × Option Message}
    (hstep : machine.step s c a s') (m : ℕ) :
    ((p.next (c, a)).box m).received.map Prod.snd =
      (p.box m).received.map Prod.snd ++ handed m (c, a) := by
  obtain ⟨ret, o⟩ := a
  obtain ⟨fuel, address, -, hexec⟩ := hstep
  have hsame : ∀ b : Mailbox, ∀ m', b.received = (p.box m').received →
      ((p.setBox m' b).box m).received = (p.box m).received := by
    intro b m' hb
    rcases eq_or_ne m m' with rfl | hne
    · simpa [Post.setBox] using hb
    · simp [Post.setBox, hne]
  cases c with
  | init m' size => simp [Post.next, handed]
  | deinit m' =>
    cases ret <;> simp [Post.next, handed, hsame (p.box m').clear m' rfl]
  | send msg =>
    cases ret <;> simp only [Post.next, handed, List.append_nil]
    congr 1
    exact hsame _ _ rfl
  | clear m' =>
    cases ret <;> simp [Post.next, handed, hsame (p.box m').clear m' rfl]
  | recv m' =>
    have hserved := (h.recv hexec).2
    cases ret with
    | ok =>
      obtain rfl : o = (p.box m').queue.head?.map Prod.snd := hserved rfl
      rcases eq_or_ne m m' with rfl | hne
      · rw [handed, if_pos rfl]
        simp only [Post.next, Post.setBox, Function.update_self, Mailbox.deliver, List.map_append]
        cases (p.box m).queue <;> rfl
      · rw [handed, if_neg hne.symm]
        simp [Post.next, Post.setBox, hne]
    | _ => simp [Post.next, handed]

/-- Throughout a run, the queues hold what waits in the mailboxes, and the messages handed over
    are those received from them. -/
theorem run_follows {tr : List (IpcCall × (RetCode × Option Message))}
    (h : machine.Run initOnce start tr s) : s.Follows (post tr) ∧
      ∀ m, tr.flatMap (handed m) = ((post tr).box m).received.map Prod.snd := by
  induction h with
  | nil => exact ⟨Follows.start, fun _ => rfl⟩
  | @snoc tr s c a s' _ hallowed hstep ih =>
    have hpost : post (tr ++ [(c, a)]) = (post tr).next (c, a) := List.foldl_append
    rw [hpost]
    refine ⟨ih.1.exec hallowed hstep, fun m => ?_⟩
    rw [List.flatMap_append, ih.2 m, received_next ih.1 hstep m]
    simp

/-- A message is accepted if there is room for it, and memory for its node. -/
theorem send_accepted {msg : Message} {fuel addr : ℕ} {r : RetCode × Ipc}
    (hdst : msg.header.dstModule < moduleMax)
    (hinit : (s.queues msg.header.dstModule).isInitialized = true)
    (hroom : (s.queues msg.header.dstModule).count < (s.queues msg.header.dstModule).maxSize)
    (hr : s.send fuel (some addr) msg = some r) : r.1 = .ok := by
  rw [send] at hr
  dsimp only at hr
  rw [if_neg (Nat.not_le.2 hdst), hinit, if_neg (by decide), if_neg (Nat.not_le.2 hroom)] at hr
  obtain ⟨_, _, rfl⟩ := Option.map_eq_some_iff.1 hr
  rfl

/-- Nothing is left of a queue that is cleared. -/
theorem clear_cleared {fuel : ℕ} {r : RetCode × Ipc} (hm : m < moduleMax)
    (hinit : (s.queues m).isInitialized = true) (hr : s.clear fuel m = some r) :
    r.1 = .ok ∧ (r.2.queues m).head = none ∧ (r.2.queues m).count = 0 := by
  rw [clear, if_neg (Nat.not_le.2 hm), hinit, if_neg (by decide)] at hr
  obtain ⟨_, _, rfl⟩ := Option.map_eq_some_iff.1 hr
  refine ⟨rfl, ?_, ?_⟩ <;> simp [setQueue]

/-- **The message queues are stable priority queues.** Throughout every run of the modules, each of
    which initializes its queue before it uses it: each queue is a linked list of as many nodes as
    its count says, not more than its size, up to its tail, and the list holds the messages that
    wait in the mailbox of the module. These are in the order of their priorities, and in the
    order of sending where these are equal. Each message accepted has been received, has been
    cleared or waits, once, and the messages handed over are those received. A module that
    receives a message gets the first one that waits. And every call comes back: a message is
    accepted if there is room for it and memory for its node, and a queue that is cleared is
    empty. -/
theorem msg_queue_refines {tr : List (IpcCall × (RetCode × Option Message))}
    (h : machine.Run initOnce start tr s) :
    (∀ m, ∃ l, Linked s.heap (s.queues m).head l none ∧ (s.queues m).count = l.length ∧
      l.length ≤ (s.queues m).maxSize ∧ (s.queues m).tail = l.getLast?.map Prod.fst ∧
      l.map Prod.snd = ((post tr).box m).queue.map Prod.snd) ∧
    (∀ m, ((post tr).box m).Sound) ∧
    (∀ m, tr.flatMap (handed m) = ((post tr).box m).received.map Prod.snd) ∧
    (∀ m < moduleMax, (s.queues m).isInitialized = true →
      ∀ a s', machine.step s (.recv m) a s' → a = ((post tr).box m).serve) ∧
    (∀ c address, s.Free address → ∃ fuel r, s.exec fuel address c = some r) ∧
    (∀ msg, msg.header.dstModule < moduleMax →
      (s.queues msg.header.dstModule).isInitialized = true →
      (s.queues msg.header.dstModule).count < (s.queues msg.header.dstModule).maxSize →
      ∀ fuel addr a s', s.exec fuel (some addr) (.send msg) = some (a, s') → a = (.ok, none)) ∧
    ∀ m < moduleMax, (s.queues m).isInitialized = true → ∀ a s', machine.step s (.clear m) a s' →
      a = (.ok, none) ∧ (s'.queues m).head = none ∧ (s'.queues m).count = 0 := by
  obtain ⟨hfollows, hhanded⟩ := run_follows h
  obtain ⟨nodes, hnodes, hsame⟩ := hfollows.holds
  refine ⟨fun m => ?_, hfollows.sound, hhanded, ?_,
    fun c address hfree => hnodes.exists_exec address hfree c, ?_, ?_⟩
  · have hq := hnodes.queue m
    exact ⟨nodes m, hq.linked, hq.count, hq.bound, hq.tail, hsame m⟩
  · rintro m hm hinit a s' ⟨fuel, address, -, hexec⟩
    obtain ⟨s'', hrecv⟩ := hnodes.recv_eq hm hinit
    rw [show s.exec fuel address (.recv m) = s.recv m from rfl, hrecv, Option.some_inj] at hexec
    have hm := hsame m
    rw [Mailbox.serve]
    cases hq : ((post tr).box m).queue with
    | nil =>
      rw [hq, List.map_nil, List.map_eq_nil_iff] at hm
      rw [hm] at hexec
      exact (Prod.ext_iff.1 hexec).1.symm
    | cons x l =>
      cases hl : nodes m with
      | nil =>
        rw [hl, hq] at hm
        exact absurd hm.symm (List.cons_ne_nil _ _)
      | cons y l' =>
        rw [hl, hq, List.map_cons, List.map_cons, List.cons.injEq] at hm
        rw [hl] at hexec
        have ha : (RetCode.ok, some y.2) = a := (Prod.ext_iff.1 hexec).1
        rw [← ha, hm.1]
  · intro msg hdst hinit hroom fuel addr a s' hexec
    obtain ⟨r, hr, heq⟩ := Option.map_eq_some_iff.1 hexec
    cases heq
    rw [send_accepted hdst hinit hroom hr]
  · rintro m hm hinit a s' ⟨fuel, address, -, hexec⟩
    obtain ⟨r, hr, heq⟩ := Option.map_eq_some_iff.1 hexec
    cases heq
    obtain ⟨hret, hempty⟩ := clear_cleared hm hinit hr
    exact ⟨by rw [hret], hempty⟩

/-- A message of a given priority to the module `1`. -/
def letter (priority : ℕ) : Message :=
  ⟨⟨0, priority, 0, 1, 0, 0, 0⟩, Vector.replicate 256 0⟩

/-- The module `1` when its queue is initialized. -/
def opened : Ipc := (start.init 1 2).2

/-- The module `1` after a message has been sent to it. -/
def waiting : Ipc := ((opened.send 0 (some 0) (letter 0)).getD (.ok, opened)).2

/-- The module `1` after another message has been sent to it, an urgent one. -/
def urgent : Ipc := ((waiting.send 1 (some 1) (letter 3)).getD (.ok, waiting)).2

/-- Two messages are sent to a module, the second one is urgent: it is received first. -/
theorem msg_queue_refines_urgent : ∃ tr s s',
    machine.Run initOnce start tr s ∧
    tr.map Prod.fst = [.init 1 2, .send (letter 0), .send (letter 3)] ∧
    machine.step s (.recv 1) (.ok, some ((letter 3).stamp 1 1)) s' ∧
    (.ok, some ((letter 3).stamp 1 1)) = ((post tr).box 1).serve := by
  have hinit : machine.step start (.init 1 2) (.ok, none) opened :=
    ⟨0, none, fun _ h => absurd h (by simp), rfl⟩
  have hsend : machine.step opened (.send (letter 0)) (.ok, none) waiting :=
    ⟨0, some 0, fun _ h => Option.some_inj.1 h ▸ rfl, rfl⟩
  have hsend' : machine.step waiting (.send (letter 3)) (.ok, none) urgent :=
    ⟨1, some 1, fun _ h => Option.some_inj.1 h ▸ rfl, rfl⟩
  have hrun : machine.Run initOnce start _ waiting :=
    .snoc (.snoc .nil (show initOnce start (.init 1 2) from rfl) hinit)
      (show initOnce opened (.send (letter 0)) from trivial) hsend
  have hrun' : machine.Run initOnce start _ urgent :=
    hrun.snoc (show initOnce waiting (.send (letter 3)) from trivial) hsend'
  have hrecv : ∃ s', machine.step urgent (.recv 1) (.ok, some ((letter 3).stamp 1 1)) s' :=
    ⟨_, 0, none, fun _ h => absurd h (by simp), rfl⟩
  obtain ⟨s', hrecv⟩ := hrecv
  exact ⟨_, _, s', hrun', rfl, hrecv,
    (msg_queue_refines hrun').2.2.2.1 1 (by decide) rfl _ _ hrecv⟩

end Ipc

end FtlFirmware
