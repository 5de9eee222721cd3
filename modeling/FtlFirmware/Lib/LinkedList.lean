import Mathlib.Data.List.Basic
import Mathlib.Logic.Function.Basic

/-!
# Linked lists

Nodes on a heap, each with a value and the address of the next node (`Heap`). `Linked h p l q`
says that the nodes `l`, with their addresses and values, are linked from `p` on, the last one to
`q`.

* `linked_append`: linked lists compose;
* `Linked.congr`: a linked list depends on its own nodes only;
* `Linked.cons_update`, `Linked.relink`: a node at the front, and another link of the last node;
* `Linked.insert_after`: a node after another one.
-/

namespace FtlFirmware

/-- A node of a linked list: a value and the address of the next node, if any. -/
structure Node (α : Type*) where
  val : α
  next : Option ℕ

/-- The nodes at each address. -/
abbrev Heap (α : Type*) := ℕ → Option (Node α)

variable {α : Type*}

/-- The nodes `l` are linked from `p` on, the last one to `q`. -/
def Linked (h : Heap α) : Option ℕ → List (ℕ × α) → Option ℕ → Prop
  | p, [], q => p = q
  | p, x :: l, q => p = some x.1 ∧ ∃ next, h x.1 = some ⟨x.2, next⟩ ∧ Linked h next l q

namespace Heap

/-- Sets the link of a node, if there is one at this address. -/
def setNext (h : Heap α) (a : ℕ) (p : Option ℕ) : Option (Heap α) :=
  (h a).map fun n => Function.update h a (some { n with next := p })

end Heap

variable {h h' : Heap α} {p q r : Option ℕ} {l l' : List (ℕ × α)} {a b : ℕ} {v w : α}
  {x : Option (Node α)}

@[simp]
theorem linked_nil : Linked h p [] q ↔ p = q := Iff.rfl

/-- Linked lists compose. -/
theorem linked_append : Linked h p (l ++ l') q ↔ ∃ r, Linked h p l r ∧ Linked h r l' q := by
  induction l generalizing p with
  | nil =>
    constructor
    · exact fun hl => ⟨p, rfl, hl⟩
    · rintro ⟨r, hp, hl⟩
      exact hp ▸ hl
  | cons x l ih =>
    constructor
    · rintro ⟨hp, next, hx, hl⟩
      obtain ⟨r, hl, hl'⟩ := ih.1 hl
      exact ⟨r, ⟨hp, next, hx, hl⟩, hl'⟩
    · rintro ⟨r, ⟨hp, next, hx, hl⟩, hl'⟩
      exact ⟨hp, next, hx, ih.2 ⟨r, hl, hl'⟩⟩

namespace Linked

/-- A linked list depends on its own nodes only. -/
theorem congr (hl : Linked h p l q) (heq : ∀ x ∈ l, h' x.1 = h x.1) : Linked h' p l q := by
  induction l generalizing p with
  | nil => exact hl
  | cons x l ih =>
    obtain ⟨hp, next, hx, hl⟩ := hl
    refine ⟨hp, next, (heq x List.mem_cons_self).trans hx, ih hl fun y hy => ?_⟩
    exact heq y (List.mem_cons_of_mem x hy)

/-- Another node may change. -/
theorem update (hl : Linked h p l q) (ha : a ∉ l.map Prod.fst) :
    Linked (Function.update h a x) p l q := by
  refine hl.congr fun y hy => Function.update_of_ne ?_ ..
  rintro rfl
  exact ha (List.mem_map_of_mem hy)

/-- The nodes of a linked list are on the heap. -/
theorem mem (hl : Linked h p l q) (ha : a ∈ l.map Prod.fst) : (h a).isSome = true := by
  induction l generalizing p with
  | nil => exact absurd ha List.not_mem_nil
  | cons x l ih =>
    obtain ⟨-, next, hx, hl⟩ := hl
    rcases List.mem_cons.1 ha with rfl | ha
    · rw [hx]
      rfl
    · exact ih hl ha

/-- An address without a node is not one of a linked list. -/
theorem notMem (hl : Linked h p l q) (ha : h a = none) : a ∉ l.map Prod.fst := fun hmem => by
  have hsome := hl.mem hmem
  rw [ha] at hsome
  exact Bool.false_ne_true hsome

/-- The address of the first node. -/
theorem head_eq (hl : Linked h p l none) : p = l.head?.map Prod.fst := by
  cases l with
  | nil => exact hl
  | cons x l => exact hl.1

/-- A list is empty if and only if there is no first node. -/
theorem eq_nil_iff (hl : Linked h p l none) : p = none ↔ l = [] := by
  rw [hl.head_eq]
  cases l <;> simp

/-- There is only one list linked from an address. -/
theorem unique (hl : Linked h p l none) (hl' : Linked h p l' none) : l = l' := by
  induction l generalizing p l' with
  | nil => exact (hl'.eq_nil_iff.1 hl).symm
  | cons x l ih =>
    obtain ⟨hp, next, hx, hl⟩ := hl
    cases l' with
    | nil => exact absurd (hp.symm.trans hl') (Option.some_ne_none x.1)
    | cons y l' =>
      obtain ⟨hp', next', hy, hl'⟩ := hl'
      have hxy : x.1 = y.1 := Option.some_inj.1 (hp.symm.trans hp')
      rw [hxy, hy, Option.some_inj, Node.mk.injEq] at hx
      obtain ⟨hval, rfl⟩ := hx
      rw [ih hl hl', Prod.ext hxy hval.symm]

/-- A new node at the front. -/
theorem cons_update (hl : Linked h p l q) (ha : a ∉ l.map Prod.fst) :
    Linked (Function.update h a (some ⟨v, p⟩)) (some a) ((a, v) :: l) q :=
  ⟨rfl, p, Function.update_self .., hl.update ha⟩

/-- Another link of the last node. -/
theorem relink (hl : Linked h p (l ++ [(a, v)]) q) (ha : a ∉ l.map Prod.fst) :
    Linked (Function.update h a (some ⟨v, r⟩)) p (l ++ [(a, v)]) r := by
  obtain ⟨p', hl, hp', next, -, -⟩ := linked_append.1 hl
  exact linked_append.2 ⟨p', hl.update ha, hp', r, Function.update_self .., rfl⟩

/-- The link of the last node is set. -/
theorem setNext_eq (hl : Linked h p (l ++ [(a, v)]) q) (r : Option ℕ) :
    h.setNext a r = some (Function.update h a (some ⟨v, r⟩)) := by
  obtain ⟨p', -, -, next, ha, -⟩ := linked_append.1 hl
  rw [Heap.setNext, ha, Option.map_some]

/-- A node `b`, linked to what follows the node `a`, goes after it. -/
theorem insert_after (hl : Linked h p (l ++ [(a, v)]) r) (hl' : Linked h r l' q)
    (hb : h b = some ⟨w, r⟩) (ha : a ∉ l.map Prod.fst) (ha' : a ∉ l'.map Prod.fst) (hne : b ≠ a) :
    Linked (Function.update h a (some ⟨v, some b⟩)) p (l ++ [(a, v)] ++ (b, w) :: l') q := by
  refine linked_append.2 ⟨some b, hl.relink ha, rfl, r, ?_, hl'.update ha'⟩
  rw [Function.update_of_ne hne, hb]

end Linked

end FtlFirmware
