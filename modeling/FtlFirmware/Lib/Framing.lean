import Mathlib.Data.List.Basic

/-!
# Framing

Cutting a stream into frames, as a receiver does that finds the length of a frame in its first
entries (`frames`): from what has been received, it learns that more is needed, the length of the
first frame, or that the stream is broken. What it learns does not change with what follows
(`Stable`). Then the frames of a stream do not depend on the parts in which it is received
(`frames_append`).
-/

namespace FtlFirmware

/-- What the start of a stream tells about its first frame. -/
inductive FrameSize
  | more
  | bad
  | frame (n : ℕ)
  deriving DecidableEq, Repr

namespace Framing

variable {α : Type*}

/-- What has been received tells the same when more has been. A frame is not empty, and has been
    received as a whole. -/
structure Stable (size : List α → FrameSize) : Prop where
  pos : ∀ r n, size r = .frame n → 0 < n
  le : ∀ r n, size r = .frame n → n ≤ r.length
  bad : ∀ r s, size r = .bad → size (r ++ s) = .bad
  frame : ∀ r s n, size r = .frame n → size (r ++ s) = .frame n

/-- The frames of what has been received, and the rest, if the stream is not broken. At most `k`
    frames are taken. -/
def framesUpTo (size : List α → FrameSize) : ℕ → List α → List (List α) × Option (List α)
  | 0, r => ([], some r)
  | k + 1, r =>
    match size r with
    | .more => ([], some r)
    | .bad => ([], none)
    | .frame n =>
      let rest := framesUpTo size k (r.drop n)
      (r.take n :: rest.1, rest.2)

/-- The frames of what has been received, and the rest, if the stream is not broken. There are no
    more frames than entries. -/
def frames (size : List α → FrameSize) (r : List α) : List (List α) × Option (List α) :=
  framesUpTo size (r.length + 1) r

variable {size : List α → FrameSize} {r s : List α} {k l n : ℕ}

/-- There are no more frames than entries. -/
theorem framesUpTo_eq (h : Stable size) (hk : r.length < k) (hl : r.length < l) :
    framesUpTo size k r = framesUpTo size l r := by
  induction k generalizing r l with
  | zero => exact absurd hk (Nat.not_lt_zero _)
  | succ k ih =>
    obtain ⟨l, rfl⟩ := Nat.exists_eq_succ_of_ne_zero (Nat.ne_zero_of_lt hl)
    rw [framesUpTo, framesUpTo]
    cases hsize : size r with
    | more => rfl
    | bad => rfl
    | frame n =>
      have hpos := h.pos r n hsize
      have hle := h.le r n hsize
      have hlen : (r.drop n).length < r.length := by
        rw [List.length_drop]
        omega
      dsimp only
      rw [ih (Nat.lt_of_lt_of_le hlen (Nat.le_of_lt_succ hk))
        (Nat.lt_of_lt_of_le hlen (Nat.le_of_lt_succ hl))]

/-- There is no frame yet. -/
theorem frames_more (hsize : size r = .more) : frames size r = ([], some r) := by
  rw [frames, framesUpTo, hsize]

/-- The stream is broken. -/
theorem frames_bad (hsize : size r = .bad) : frames size r = ([], none) := by
  rw [frames, framesUpTo, hsize]

/-- The first frame. -/
theorem frames_frame (h : Stable size) (hsize : size r = .frame n) :
    frames size r = (r.take n :: (frames size (r.drop n)).1, (frames size (r.drop n)).2) := by
  have hpos := h.pos r n hsize
  have hle := h.le r n hsize
  have hlen : (r.drop n).length < r.length := by
    rw [List.length_drop]
    omega
  rw [frames, framesUpTo, hsize]
  dsimp only
  rw [frames, framesUpTo_eq h hlen (Nat.lt_succ_self _)]

/-- The frames of a stream are those of its first part, followed by those of the rest of this part
    with the second part. -/
theorem frames_append (h : Stable size) (r s : List α) : frames size (r ++ s) =
    match (frames size r).2 with
    | none => frames size r
    | some rest =>
      ((frames size r).1 ++ (frames size (rest ++ s)).1, (frames size (rest ++ s)).2) := by
  generalize hk : r.length = k
  induction k using Nat.strongRecOn generalizing r with
  | ind k ih =>
    cases hsize : size r with
    | more =>
      rw [frames_more hsize]
      rfl
    | bad => rw [frames_bad hsize, frames_bad (h.bad r s hsize)]
    | frame n =>
      have hpos := h.pos r n hsize
      have hle := h.le r n hsize
      have hlen : (r.drop n).length < k := by
        rw [List.length_drop]
        omega
      have hrest := ih _ hlen (r.drop n) rfl
      rw [frames_frame h hsize, frames_frame h (h.frame r s n hsize),
        List.take_append_of_le_length hle, List.drop_append_of_le_length hle, hrest]
      cases htail : (frames size (r.drop n)).2 with
      | none =>
        dsimp only
        rw [htail]
      | some rest => rfl

/-- Frames one after another are taken apart. -/
theorem frames_flatten (h : Stable size) {l : List (List α)}
    (hl : ∀ m ∈ l, size m = .frame m.length) (rest : List α) :
    frames size (l.flatten ++ rest) = (l ++ (frames size rest).1, (frames size rest).2) := by
  induction l with
  | nil => rfl
  | cons m l ih =>
    have hm := h.frame m (l.flatten ++ rest) m.length (hl m List.mem_cons_self)
    rw [List.flatten_cons, List.append_assoc, frames_frame h hm, List.take_left, List.drop_left,
      ih fun m hm => hl m (List.mem_cons_of_mem _ hm)]
    rfl

end Framing

end FtlFirmware
