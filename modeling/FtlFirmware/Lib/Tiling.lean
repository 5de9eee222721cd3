import Mathlib.Data.List.Basic
import Mathlib.Data.Nat.Basic

/-!
# Tilings

Data sent in *pieces* (`Piece`), of which one may be marked as the last. Pieces *tile* the data from
one offset to another (`Tiles`) if they begin where the one before ends, none of them is empty, and
exactly that which ends with the data is marked.

* `Tiles.offsets`: the offsets of the pieces are those of the data, in order and each once;
* `Tiles.last_iff`: exactly the last piece is marked;
* `Tiles.stop_le`: every piece is within the data.
-/

namespace FtlFirmware

/-- A piece of data: the offset it begins at, its length, and whether it is marked as the last. -/
structure Piece where
  offset : ℕ
  len : ℕ
  last : Bool
  deriving DecidableEq

/-- The offsets of a piece. -/
def Piece.offsets (p : Piece) : List ℕ := List.range' p.offset p.len

/-- Pieces tile the data from an offset on, up to the offset `stop`. -/
inductive Tiles (stop : ℕ) : ℕ → List Piece → Prop
  | nil : Tiles stop stop []
  | cons {p : Piece} {l : List Piece} (hpos : 0 < p.len)
      (hlast : p.last = true ↔ p.offset + p.len = stop) (h : Tiles stop (p.offset + p.len) l) :
      Tiles stop p.offset (p :: l)

namespace Tiles

variable {start stop : ℕ} {p : Piece} {l l₁ l₂ : List Piece}

theorem le (h : Tiles stop start l) : start ≤ stop := by
  induction h with
  | nil => exact le_rfl
  | cons _ _ _ ih => exact Nat.le_trans (Nat.le_add_right _ _) ih

/-- The pieces cover the data in order, without gaps and without overlaps. -/
theorem offsets (h : Tiles stop start l) :
    l.flatMap Piece.offsets = List.range' start (stop - start) := by
  induction h with
  | nil => rw [Nat.sub_self]; rfl
  | @cons p l _ _ h ih =>
    have hlen : p.len + (stop - (p.offset + p.len)) = stop - p.offset := by
      have := h.le
      omega
    rw [List.flatMap_cons, ih, Piece.offsets, List.range'_append_1, hlen]

/-- Every piece ends within the data. -/
theorem stop_le (h : Tiles stop start l) (hp : p ∈ l) : p.offset + p.len ≤ stop := by
  induction h with
  | nil => exact absurd hp List.not_mem_nil
  | cons _ _ h ih =>
    rcases List.mem_cons.1 hp with rfl | hp
    · exact h.le
    · exact ih hp

/-- Only when there are no data left are there no pieces. -/
theorem eq_nil_iff (h : Tiles stop start l) : l = [] ↔ start = stop := by
  cases h with
  | nil => exact ⟨fun _ => rfl, fun _ => rfl⟩
  | cons hpos _ h =>
    have := h.le
    exact ⟨by simp, fun heq => by omega⟩

/-- Exactly the last piece is marked as such. -/
theorem last_iff (h : Tiles stop start l) (hl : l = l₁ ++ p :: l₂) : p.last = true ↔ l₂ = [] := by
  induction h generalizing l₁ with
  | nil => exact absurd hl.symm (List.append_ne_nil_of_right_ne_nil _ (List.cons_ne_nil _ _))
  | cons _ hlast h ih =>
    cases l₁ with
    | nil =>
      obtain ⟨rfl, rfl⟩ := List.cons.inj hl
      exact hlast.trans h.eq_nil_iff.symm
    | cons _ l₁ => exact ih (List.cons.inj hl).2

/-- What the pieces carry, each at its offsets, is what the data are. -/
theorem values {α : Type*} (h : Tiles stop 0 l) (f : ℕ → α) :
    (l.flatMap fun p => p.offsets.map f) = (List.range stop).map f := by
  rw [← List.map_flatMap, h.offsets, Nat.sub_zero, ← List.range_eq_range']

end Tiles

end FtlFirmware
