import Mathlib.Data.List.Basic
import Mathlib.Logic.Function.Iterate

/-!
# Running checksums

A running checksum adds the code of one symbol after the other to an accumulator, and turns the
accumulator after each of them (`checksum`). Addition is any associative and commutative operation
that the turning respects, such as the exclusive or of words and a rotation of their bits.

The checksum is additive in an error, wherever it occurs: an error of the accumulator is turned once
for each symbol to come (`checksum_add`), and so is an error of a symbol (`checksum_set`). Errors of
several symbols add a checksum of their own (`checksum_zipWith`).
-/

namespace FtlFirmware

variable {α G : Type*} (op : G → G → G) (turn : G → G) (code : α → G)

/-- The checksum of the symbols `data`, from the accumulator `acc`. -/
def checksum (acc : G) (data : List α) : G :=
  data.foldl (fun acc x => turn (op acc (code x))) acc

/-- Symbols that leave the accumulator as it is. -/
theorem checksum_replicate {acc : G} {x : α} (hfix : turn (op acc (code x)) = acc) (k : ℕ) :
    checksum op turn code acc (List.replicate k x) = acc := by
  induction k with
  | zero => rfl
  | succ k ih =>
    rw [List.replicate_succ, checksum, List.foldl_cons, hfix]
    exact ih

/-- The checksum of the symbols to come depends on those before only through the accumulator. -/
theorem checksum_append (acc : G) (before after : List α) :
    checksum op turn code acc (before ++ after) =
      checksum op turn code (checksum op turn code acc before) after :=
  List.foldl_append

variable [Std.Associative op] [Std.Commutative op]
  (hturn : ∀ a b, turn (op a b) = op (turn a) (turn b))
include hturn

/-- An error of the accumulator. -/
theorem checksum_add (acc e : G) (data : List α) :
    checksum op turn code (op acc e) data =
      op (checksum op turn code acc data) (turn^[data.length] e) := by
  induction data generalizing acc e with
  | nil => rfl
  | cons x data ih =>
    have hswap : turn (op (op acc e) (code x)) = op (turn (op acc (code x))) (turn e) := by
      rw [← hturn]
      congr 1
      ac_rfl
    rw [checksum, List.foldl_cons, hswap]
    exact ih _ _

/-- An error of one symbol. -/
theorem checksum_set {data : List α} {i : ℕ} (hi : i < data.length) {y : α} {e : G}
    (hcode : code y = op (code data[i]) e) (acc : G) :
    checksum op turn code acc (data.set i y) =
      op (checksum op turn code acc data) (turn^[data.length - i] e) := by
  induction data generalizing i acc with
  | nil => exact absurd hi (Nat.not_lt_zero i)
  | cons x data ih =>
    cases i with
    | zero =>
      have hfirst : turn (op acc (code y)) = op (turn (op acc (code x))) (turn e) := by
        rw [← hturn, hcode]
        exact congrArg turn (Std.Associative.assoc acc (code x) e).symm
      rw [List.set_cons_zero, checksum, List.foldl_cons, hfirst]
      exact checksum_add op turn code hturn _ _ _
    | succ i =>
      rw [List.set_cons_succ, List.length_cons, Nat.add_sub_add_right]
      exact ih (Nat.lt_of_succ_lt_succ hi) hcode _

/-- Errors of the accumulator and of the symbols add their own checksum. -/
theorem checksum_zipWith {add : α → α → α} (hcode : ∀ x y, code (add x y) = op (code x) (code y))
    {data err : List α} (hlen : data.length = err.length) (acc e : G) :
    checksum op turn code (op acc e) (List.zipWith add data err) =
      op (checksum op turn code acc data) (checksum op turn code e err) := by
  induction data generalizing err acc e with
  | nil =>
    cases List.length_eq_zero_iff.1 hlen.symm
    rfl
  | cons x data ih =>
    cases err with
    | nil => exact absurd hlen (Nat.succ_ne_zero _)
    | cons y err =>
      have hfirst : turn (op (op acc e) (code (add x y))) =
          op (turn (op acc (code x))) (turn (op e (code y))) := by
        rw [← hturn, hcode]
        congr 1
        ac_rfl
      rw [List.zipWith_cons_cons, checksum, List.foldl_cons, hfirst]
      exact ih (Nat.succ.inj hlen) _ _

end FtlFirmware
