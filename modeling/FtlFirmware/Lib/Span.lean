import Mathlib.Data.List.Basic
import Mathlib.Data.Nat.Basic

/-!
# Spans of bytes

What a program accesses in memory that is made up of several *areas* of fixed sizes: spans of bytes
(`Span`). A span is *within* its area if each of its bytes is one of the area (`Span.Within`). A
span of no bytes is, wherever it begins.

* `within_iff`: the bounds of a span that is within its area;
* `allWithin_append`: accesses one after the other;
* `Covers`: the bytes that are accessed, which are bytes of the areas if the spans are within them
  (`AllWithin.lt_of_covers`).
-/

namespace FtlFirmware

/-- A number of bytes of an area, from an offset on. -/
structure Span (ρ : Type*) where
  area : ρ
  offset : ℕ
  len : ℕ
  deriving DecidableEq

namespace Span

variable {ρ : Type*} {size : ρ → ℕ} {s : Span ρ} {l l' : List (Span ρ)}

/-- Every byte of the span is one of its area. -/
def Within (size : ρ → ℕ) (s : Span ρ) : Prop := ∀ k < s.len, s.offset + k < size s.area

/-- All spans are within their areas. -/
def AllWithin (size : ρ → ℕ) (l : List (Span ρ)) : Prop := ∀ s ∈ l, s.Within size

theorem within_iff : s.Within size ↔ s.len = 0 ∨ s.offset + s.len ≤ size s.area := by
  constructor
  · intro h
    rcases Nat.eq_zero_or_pos s.len with hzero | hpos
    · exact Or.inl hzero
    · have hlast := h (s.len - 1) (Nat.sub_lt hpos Nat.one_pos)
      omega
  · rintro (hzero | hle) k hk
    · exact absurd hk (hzero ▸ Nat.not_lt_zero k)
    · omega

@[simp] theorem allWithin_nil : AllWithin size [] := fun _ h => absurd h List.not_mem_nil

@[simp] theorem allWithin_cons : AllWithin size (s :: l) ↔ s.Within size ∧ AllWithin size l :=
  List.forall_mem_cons

@[simp] theorem allWithin_append :
    AllWithin size (l ++ l') ↔ AllWithin size l ∧ AllWithin size l' :=
  List.forall_mem_append

/-! ### Bytes -/

variable {a : ρ} {k : ℕ}

/-- A byte of an area is one of the spans. -/
def Covers (l : List (Span ρ)) (a : ρ) (k : ℕ) : Prop :=
  ∃ s ∈ l, s.area = a ∧ s.offset ≤ k ∧ k < s.offset + s.len

@[simp] theorem not_covers_nil : ¬ Covers [] a k := by simp [Covers]

@[simp] theorem covers_cons :
    Covers (s :: l) a k ↔ (s.area = a ∧ s.offset ≤ k ∧ k < s.offset + s.len) ∨ Covers l a k :=
  List.exists_mem_cons_iff ..

@[simp] theorem covers_append : Covers (l ++ l') a k ↔ Covers l a k ∨ Covers l' a k := by
  simp only [Covers, List.mem_append, or_and_right, exists_or]

/-- A byte of a span that is within its area. -/
theorem Within.lt (h : s.Within size) (hle : s.offset ≤ k) (hlt : k < s.offset + s.len) :
    k < size s.area := by
  have hk := h (k - s.offset) (by omega)
  rwa [Nat.add_sub_cancel' hle] at hk

theorem AllWithin.lt_of_covers (h : AllWithin size l) (hk : Covers l a k) : k < size a := by
  obtain ⟨s, hs, rfl, hle, hlt⟩ := hk
  exact (h s hs).lt hle hlt

end Span

end FtlFirmware
