import Mathlib.Data.Nat.Basic
import FtlFirmware.Ipc.MsgQueue
import FtlFirmware.Lib.PriorityQueue

/-!
# The queues as linked lists

A queue holds a list of nodes (`MsgQueue.Holds`): they are linked from its head on, its tail is
the last one, and its count is their number. The queues of all modules hold lists without a node
in common (`Ipc.Holds`).

* `findPlace_eq`: the loop of `msg_queue_send` stops at the first node with a lower priority;
* `insertNode_spec`: in each of the four cases, the new node is enqueued, and the tail is right;
* `freeAll_eq`: the loop of `msg_queue_clear` frees the nodes of the queue, and no other one.
-/

namespace FtlFirmware

/-- The priority of a node. -/
abbrev nodePriority (x : ℕ × Message) : ℕ := x.2.priority

namespace MsgQueue

/-- The queue holds the nodes `l`. -/
structure Holds (heap : Heap Message) (q : MsgQueue) (l : List (ℕ × Message)) : Prop where
  linked : Linked heap q.head l none
  tail : q.tail = l.getLast?.map Prod.fst
  count : q.count = l.length
  bound : l.length ≤ q.maxSize
  nodup : (l.map Prod.fst).Nodup
  unused : q.isInitialized = false → l = []

variable {heap : Heap Message} {q : MsgQueue} {l : List (ℕ × Message)} {prio fuel a : ℕ}
  {prev curr : Option ℕ} {v : Message}

/-- An empty queue. -/
theorem Holds.nil (hhead : q.head = none) (htail : q.tail = none) (hcount : q.count = 0) :
    q.Holds heap [] :=
  ⟨hhead, htail, hcount, Nat.zero_le _, List.nodup_nil, fun _ => rfl⟩

/-! ### The place of a message -/

theorem findPlace_none : findPlace heap prio fuel prev none = some (prev, none) := by
  cases fuel <;> rfl

/-- The loop stops at the first node with a lower priority. -/
theorem findPlace_eq (hl : Linked heap curr l none) {r : Option ℕ × Option ℕ}
    (h : findPlace heap prio fuel prev curr = some r) :
    r = (((l.takeWhile fun x => decide (prio ≤ nodePriority x)).getLast?.map Prod.fst).or prev,
      (l.dropWhile fun x => decide (prio ≤ nodePriority x)).head?.map Prod.fst) := by
  induction l generalizing fuel prev curr with
  | nil =>
    obtain rfl := linked_nil.1 hl
    rw [findPlace_none] at h
    exact (Option.some_inj.1 h).symm
  | cons x l ih =>
    obtain ⟨rfl, next, hx, hl⟩ := hl
    cases fuel with
    | zero => exact absurd h.symm (Option.some_ne_none r)
    | succ fuel =>
      rw [findPlace, hx, Option.bind_some] at h
      by_cases hprio : prio ≤ nodePriority x
      · -- The node is passed: it is the one before, unless others follow.
        rw [if_pos hprio] at h
        rw [ih hl h, List.takeWhile_cons_of_pos (by simpa using hprio),
          List.dropWhile_cons_of_pos (by simpa using hprio)]
        cases l.takeWhile fun x => decide (prio ≤ nodePriority x) with
        | nil => rfl
        | cons y t =>
          rw [List.getLast?_cons_cons, List.getLast?_cons]
          rfl
      · rw [if_neg hprio] at h
        rw [← Option.some_inj.1 h, List.takeWhile_cons_of_neg (by simpa using hprio),
          List.dropWhile_cons_of_neg (by simpa using hprio)]
        rfl

/-- The loop ends. -/
theorem exists_findPlace (prio : ℕ) (prev : Option ℕ) (hl : Linked heap curr l none)
    (hfuel : l.length ≤ fuel) :
    ∃ r, findPlace heap prio fuel prev curr = some r := by
  induction l generalizing fuel prev curr with
  | nil =>
    obtain rfl := linked_nil.1 hl
    exact ⟨_, findPlace_none⟩
  | cons x l ih =>
    obtain ⟨rfl, next, hx, hl⟩ := hl
    cases fuel with
    | zero => exact absurd hfuel (Nat.not_succ_le_zero l.length)
    | succ fuel =>
      rw [findPlace, hx, Option.bind_some]
      by_cases hprio : prio ≤ x.2.priority
      · rw [if_pos hprio]
        exact ih _ hl (Nat.le_of_succ_le_succ hfuel)
      · rw [if_neg hprio]
        exact ⟨_, rfl⟩

/-! ### Insertion -/

/-- What an insertion leads to: the new node is enqueued. -/
structure Inserted (heap : Heap Message) (q : MsgQueue) (l : List (ℕ × Message)) (a : ℕ)
    (v : Message) (r : Heap Message × MsgQueue) : Prop where
  linked : Linked r.1 r.2.head (PriorityQueue.enqueue nodePriority (a, v) l) none
  tail : r.2.tail = (PriorityQueue.enqueue nodePriority (a, v) l).getLast?.map Prod.fst
  count : r.2.count = q.count
  maxSize : r.2.maxSize = q.maxSize
  initialized : r.2.isInitialized = q.isInitialized
  frame : ∀ b, b ≠ a → b ∉ l.map Prod.fst → r.1 b = heap b

/-- The nodes passed, and those that remain: the new node goes between them. -/
theorem linkNode_spec {t d : List (ℕ × Message)} (hl : Linked heap q.head (t ++ d) none)
    (htail : q.tail = (t ++ d).getLast?.map Prod.fst) (hnodup : ((t ++ d).map Prod.fst).Nodup)
    (hne : t ++ d ≠ []) (ha : a ∉ (t ++ d).map Prod.fst) (hnode : heap a = some ⟨v, none⟩) :
    ∃ r, q.linkNode heap a (t.getLast?.map Prod.fst, d.head?.map Prod.fst) = some r ∧
      Linked r.1 r.2.head (t ++ (a, v) :: d) none ∧
      r.2.tail = (t ++ (a, v) :: d).getLast?.map Prod.fst ∧
      (r.2.count = q.count ∧ r.2.maxSize = q.maxSize ∧ r.2.isInitialized = q.isInitialized) ∧
      ∀ c, c ≠ a → c ∉ (t ++ d).map Prod.fst → r.1 c = heap c := by
  have hset : ∀ p, heap.setNext a p = some (Function.update heap a (some ⟨v, p⟩)) := fun p => by
    rw [Heap.setNext, hnode, Option.map_some]
  rcases List.eq_nil_or_concat t with rfl | ⟨t, ⟨b, w⟩, rfl⟩
  · -- No node is passed: the new node goes to the front, and the tail stays.
    refine ⟨(Function.update heap a (some ⟨v, q.head⟩), { q with head := some a }), ?_,
      hl.cons_update ha, ?_, ⟨rfl, rfl, rfl⟩, fun c hc _ => Function.update_of_ne hc ..⟩
    · rw [List.getLast?_nil, Option.map_none, linkNode, hset, Option.map_some]
    · obtain ⟨y, d, rfl⟩ := List.exists_cons_of_ne_nil hne
      exact htail
  -- The last node passed gets the new one as its next node.
  rw [List.concat_eq_append] at *
  have hlast : ((t ++ [(b, w)]).getLast?.map Prod.fst) = some b := by
    rw [List.getLast?_append, List.getLast?_singleton, Option.some_or, Option.map_some]
  have hba : b ≠ a := by
    rintro rfl
    exact ha (by simp)
  have hb : b ∉ t.map Prod.fst ∧ b ∉ d.map Prod.fst := by
    rw [List.map_append, List.map_append, List.append_assoc] at hnodup
    have hmiddle := (List.nodup_cons.1 (List.perm_middle.nodup_iff.1 hnodup)).1
    rwa [List.mem_append, not_or] at hmiddle
  have hframe : ∀ c, c ∉ (t ++ [(b, w)] ++ d).map Prod.fst → c ≠ b := by
    rintro c hc rfl
    exact hc (by simp)
  rw [hlast]
  cases d with
  | nil =>
    -- All nodes are passed: the new node goes to the end, and becomes the tail.
    rw [List.append_nil] at hl htail
    refine ⟨(Function.update heap b (some ⟨w, some a⟩), { q with tail := some a }), ?_, ?_, ?_,
      ⟨rfl, rfl, rfl⟩, fun c _ hc => Function.update_of_ne (hframe c hc) ..⟩
    · rw [List.head?_nil, Option.map_none, linkNode, htail, hlast, Option.bind_some,
        hl.setNext_eq, Option.map_some]
    · exact hl.insert_after (linked_nil.2 rfl) hnode hb.1 List.not_mem_nil hba.symm
    · rw [List.getLast?_append, List.getLast?_singleton, Option.some_or, Option.map_some]
  | cons y d =>
    -- The new node is linked to the first one that remains, and the tail stays.
    obtain ⟨p, hl, hl'⟩ := linked_append.1 hl
    obtain rfl : p = some y.1 := hl'.1
    have hat : a ∉ (t ++ [(b, w)]).map Prod.fst := fun hmem => ha (by
      rw [List.map_append]
      exact List.mem_append_left _ hmem)
    have had : a ∉ (y :: d).map Prod.fst := fun hmem => ha (by
      rw [List.map_append]
      exact List.mem_append_right _ hmem)
    have hl₁ := hl.update (x := some ⟨v, some y.1⟩) hat
    refine ⟨(Function.update (Function.update heap a (some ⟨v, some y.1⟩)) b
      (some ⟨w, some a⟩), q), ?_, ?_, ?_, ⟨rfl, rfl, rfl⟩, fun c hca hc => ?_⟩
    · rw [List.head?_cons, Option.map_some, linkNode, hset, Option.bind_some, hl₁.setNext_eq,
        Option.map_some]
    · exact hl₁.insert_after (hl'.update had) (Function.update_self ..) hb.1 hb.2 hba.symm
    · have hend : ∀ l : List (ℕ × Message), (l ++ y :: d).getLast? = (y :: d).getLast? := by
        intro l
        rw [List.getLast?_append, List.getLast?_cons, Option.some_or]
      rw [htail, hend, List.append_cons _ (a, v), hend]
    · exact (Function.update_of_ne (hframe c hc) ..).trans (Function.update_of_ne hca ..)

/-- A node is inserted into a queue. -/
theorem insertNode_spec (hq : q.Holds heap l) (ha : a ∉ l.map Prod.fst)
    (hnode : heap a = some ⟨v, none⟩) {place : Option ℕ × Option ℕ}
    (hplace : findPlace heap v.priority fuel none q.head = some place) :
    ∃ r, q.insertNode fuel heap a v.priority = some r ∧ Inserted heap q l a v r := by
  have hlinked := hq.linked
  cases hhead : q.head with
  | none =>
    obtain rfl : l = [] := hlinked.eq_nil_iff.1 hhead
    refine ⟨(heap, { q with head := some a, tail := some a }), ?_, ?_⟩
    · rw [insertNode, hhead]
    · exact ⟨⟨rfl, none, hnode, rfl⟩, rfl, rfl, rfl, rfl, fun _ _ _ => rfl⟩
  | some head =>
    have hne : l ≠ [] := fun hnil => by
      rw [hlinked.eq_nil_iff.2 hnil] at hhead
      exact Option.some_ne_none head hhead.symm
    have hsplit : l.takeWhile (fun x => decide (v.priority ≤ nodePriority x)) ++
        l.dropWhile (fun x => decide (v.priority ≤ nodePriority x)) = l :=
      List.takeWhile_append_dropWhile
    obtain ⟨r, hr, hlinked', htail, ⟨hcount, hmax, hinit⟩, hframe⟩ := linkNode_spec
      (hsplit.symm ▸ hlinked) (hsplit.symm ▸ hq.tail) (hsplit.symm ▸ hq.nodup)
      (hsplit.symm ▸ hne) (hsplit.symm ▸ ha) hnode
    rw [hsplit] at hframe
    refine ⟨r, ?_, hlinked', htail, hcount, hmax, hinit, hframe⟩
    rw [findPlace_eq hlinked hplace, Option.or_none, hhead] at hplace
    rw [insertNode, hhead]
    change (findPlace heap v.priority fuel none (some head)).bind _ = some r
    rw [hplace, Option.bind_some, hr]

/-- An insertion has found its place. -/
theorem exists_place {r : Heap Message × MsgQueue} (h : q.insertNode fuel heap a prio = some r) :
    ∃ place, findPlace heap prio fuel none q.head = some place := by
  rw [insertNode] at h
  cases hhead : q.head with
  | none => exact ⟨_, findPlace_none⟩
  | some head =>
    rw [hhead] at h
    obtain ⟨place, hplace, _⟩ := Option.bind_eq_some_iff.1 h
    exact ⟨place, hplace⟩

/-! ### Freeing -/

theorem freeAll_none : freeAll fuel heap none = some heap := by
  cases fuel <;> rfl

/-- The loop frees the nodes of the list, and no other one. -/
theorem freeAll_eq (hl : Linked heap curr l none) (hnodup : (l.map Prod.fst).Nodup)
    {heap' : Heap Message} (h : freeAll fuel heap curr = some heap') (b : ℕ) :
    heap' b = if b ∈ l.map Prod.fst then none else heap b := by
  induction l generalizing fuel heap curr with
  | nil =>
    obtain rfl := linked_nil.1 hl
    rw [freeAll_none] at h
    rw [← Option.some_inj.1 h]
    exact (if_neg List.not_mem_nil).symm
  | cons x l ih =>
    obtain ⟨rfl, next, hx, hl⟩ := hl
    obtain ⟨hxl, hnodup⟩ := List.nodup_cons.1 hnodup
    cases fuel with
    | zero => exact absurd h.symm (Option.some_ne_none heap')
    | succ fuel =>
      rw [freeAll, hx, Option.bind_some] at h
      rw [ih (hl.update hxl) hnodup h, List.map_cons]
      by_cases hb : b ∈ l.map Prod.fst
      · rw [if_pos hb, if_pos (List.mem_cons_of_mem _ hb)]
      · rw [if_neg hb]
        rcases eq_or_ne b x.1 with rfl | hne
        · rw [Function.update_self, if_pos List.mem_cons_self]
        · rw [Function.update_of_ne hne, if_neg]
          exact fun hmem => (List.mem_cons.1 hmem).elim hne hb

/-- The loop ends. -/
theorem exists_freeAll (hl : Linked heap curr l none) (hnodup : (l.map Prod.fst).Nodup)
    (hfuel : l.length ≤ fuel) : ∃ heap', freeAll fuel heap curr = some heap' := by
  induction l generalizing fuel heap curr with
  | nil =>
    obtain rfl := linked_nil.1 hl
    exact ⟨heap, freeAll_none⟩
  | cons x l ih =>
    obtain ⟨rfl, next, hx, hl⟩ := hl
    obtain ⟨hxl, hnodup⟩ := List.nodup_cons.1 hnodup
    cases fuel with
    | zero => exact absurd hfuel (Nat.not_succ_le_zero l.length)
    | succ fuel =>
      rw [freeAll, hx, Option.bind_some]
      exact ih (hl.update hxl) hnodup (Nat.le_of_succ_le_succ hfuel)

end MsgQueue

end FtlFirmware
