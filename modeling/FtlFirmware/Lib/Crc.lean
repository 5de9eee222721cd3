import FtlFirmware.Lib.Checksum
import Mathlib.Data.UInt

/-!
# Cyclic redundancy checks

The shift register of a reflected CRC of 32 bits takes one bit at a time (`Crc.feed`): it moves down
by one bit, and the polynomial is subtracted if the bit that leaves it and the bit that comes are
not the same.

A register that takes a byte at a time is a running checksum, which is turned by the steps of eight
bits at once (`register_eq_checksum`). As a step is linear (`shift_xor`), these are those of the low
byte, which may be looked up in a table, and a move of the others (`shift_eight`).
-/

namespace FtlFirmware

namespace Crc

variable (poly : UInt32)

/-- What is subtracted from the register for a bit. -/
def mask (bit : Bool) : UInt32 := if bit = true then poly else 0

/-- The register takes a bit. -/
def feed (crc : UInt32) (bit : Bool) : UInt32 :=
  (crc >>> 1) ^^^ mask poly (crc.toNat.testBit 0 ^^ bit)

/-- The bits of a byte, the lowest one first. -/
def bitsOf (byte : UInt8) : List Bool := (List.range 8).map byte.toNat.testBit

/-- The register after all bits of the data, those of the first byte first. -/
def register (crc : UInt32) (data : List UInt8) : UInt32 :=
  (data.flatMap bitsOf).foldl (feed poly) crc

/-- The reflected CRC of 32 bits: the register is full of ones at first, and complemented at the
    end. -/
def reflected (data : List UInt8) : UInt32 := ~~~ register poly 0xFFFFFFFF data

/-- The register moves down by one bit. -/
def shift (crc : UInt32) : UInt32 := (crc >>> 1) ^^^ mask poly (crc.toNat.testBit 0)

variable {poly} {x : UInt32}

/-! ## A byte at a time -/

theorem mask_xor (a b : Bool) : mask poly (a ^^ b) = mask poly a ^^^ mask poly b := by
  cases a <;> cases b <;> simp [mask]

/-- A step is linear. -/
theorem shift_xor (a b : UInt32) : shift poly (a ^^^ b) = shift poly a ^^^ shift poly b := by
  rw [shift, UInt32.shiftRight_xor, UInt32.toNat_xor, Nat.testBit_xor, mask_xor, shift, shift]
  ac_rfl

theorem shift_iterate_xor (k : ℕ) (a b : UInt32) :
    (shift poly)^[k] (a ^^^ b) = (shift poly)^[k] a ^^^ (shift poly)^[k] b := by
  induction k generalizing a b with
  | zero => rfl
  | succ k ih => rw [Function.iterate_succ_apply, shift_xor, ih]; rfl

/-- A bit that comes is one in the lowest place of the register. -/
theorem feed_eq_shift (crc : UInt32) (bit : Bool) :
    feed poly crc bit = shift poly (crc ^^^ if bit = true then 1 else 0) := by
  cases bit with
  | false => simp [feed, shift]
  | true =>
    have hone : (1 : UInt32) >>> 1 = 0 := rfl
    rw [feed, shift, if_pos rfl, UInt32.shiftRight_xor, UInt32.toNat_xor, Nat.testBit_xor, hone,
      UInt32.xor_zero]
    rfl

/-- A register that takes its own bits is empty in the end. -/
theorem foldl_feed_self (poly : UInt32) (x : UInt32) (k : ℕ) :
    ((List.range k).map x.toNat.testBit).foldl (feed poly) x = UInt32.ofNat (x.toNat >>> k) := by
  induction k with
  | zero => exact (UInt32.ofNat_toNat).symm
  | succ k ih =>
    have hlt : x.toNat >>> k < 2 ^ 32 := by
      rw [Nat.shiftRight_eq_div_pow]
      exact Nat.lt_of_le_of_lt (Nat.div_le_self _ _) x.toNat_lt
    have hbit : (x.toNat >>> k).testBit 0 = x.toNat.testBit k := by
      rw [Nat.testBit_shiftRight, Nat.add_zero]
    rw [List.range_succ, List.map_append, List.foldl_append, ih, List.map_singleton,
      List.foldl_cons, List.foldl_nil, feed, UInt32.toNat_ofNat_of_lt' hlt, hbit, Bool.xor_self,
      mask, if_neg Bool.false_ne_true, UInt32.xor_zero]
    refine UInt32.toNat_inj.1 ?_
    rw [UInt32.toNat_shiftRight, UInt32.toNat_ofNat_of_lt' hlt, Nat.shiftRight_add,
      UInt32.toNat_ofNat_of_lt']
    · rfl
    · exact Nat.lt_of_le_of_lt (Nat.shiftRight_le _ _) hlt

/-- The register takes bits as it moves: a difference of the register moves along. -/
theorem foldl_feed_xor (poly : UInt32) (bits : List Bool) (crc e : UInt32) :
    bits.foldl (feed poly) (crc ^^^ e) =
      bits.foldl (feed poly) crc ^^^ (shift poly)^[bits.length] e := by
  have hfeed : feed poly = fun crc bit => shift poly (crc ^^^ if bit = true then 1 else 0) := by
    funext crc bit
    exact feed_eq_shift crc bit
  rw [hfeed]
  exact checksum_add (· ^^^ ·) (shift poly) _ shift_xor crc e bits

/-- The register takes a byte: it is added to the register, which moves by eight bits. -/
theorem foldl_feed_bitsOf (crc : UInt32) (byte : UInt8) :
    (bitsOf byte).foldl (feed poly) crc = (shift poly)^[8] (crc ^^^ byte.toUInt32) := by
  have hself : (bitsOf byte).foldl (feed poly) byte.toUInt32 = 0 := by
    have h := foldl_feed_self poly byte.toUInt32 8
    rw [UInt8.toNat_toUInt32, Nat.shiftRight_eq_div_pow, Nat.div_eq_of_lt byte.toNat_lt] at h
    exact h
  -- the difference between the register and the byte moves along
  have hadd := foldl_feed_xor poly (bitsOf byte) byte.toUInt32 (crc ^^^ byte.toUInt32)
  have hcancel : byte.toUInt32 ^^^ (crc ^^^ byte.toUInt32) = crc := by
    rw [UInt32.xor_comm, UInt32.xor_assoc, UInt32.xor_self, UInt32.xor_zero]
  rw [hself, hcancel, UInt32.zero_xor] at hadd
  exact hadd

/-- The register is a running checksum of the bytes. -/
theorem register_eq_checksum (crc : UInt32) (data : List UInt8) :
    register poly crc data =
      checksum (· ^^^ ·) (shift poly)^[8] UInt8.toUInt32 crc data := by
  induction data generalizing crc with
  | nil => rfl
  | cons byte data ih =>
    rw [register, List.flatMap_cons, List.foldl_append, foldl_feed_bitsOf]
    exact ih _

/-! ## The low byte and the others -/

/-- An even register just moves. -/
theorem toNat_shift {m : ℕ} (h : x.toNat = 2 * m) : (shift poly x).toNat = m := by
  have hbit : x.toNat.testBit 0 = false := by
    rw [h, Nat.testBit_zero, Nat.mul_mod_right]
    rfl
  rw [shift, hbit, mask, if_neg Bool.false_ne_true, UInt32.xor_zero, UInt32.toNat_shiftRight, h]
  exact Nat.mul_div_cancel_left m (by decide)

theorem toNat_shift_iterate {k m : ℕ} (h : x.toNat = 2 ^ k * m) :
    ((shift poly)^[k] x).toNat = m := by
  induction k generalizing x with
  | zero => rw [Function.iterate_zero_apply, h, Nat.pow_zero, Nat.one_mul]
  | succ k ih =>
    refine ih (toNat_shift ?_)
    rw [h, Nat.pow_succ, Nat.mul_comm (2 ^ k) 2, Nat.mul_assoc]

/-- A number without its low bits. -/
theorem xor_mod_two_pow (n k : ℕ) : n ^^^ n % 2 ^ k = 2 ^ k * (n / 2 ^ k) := by
  refine Nat.eq_of_testBit_eq fun i => ?_
  rw [Nat.testBit_xor, Nat.testBit_mod_two_pow, Nat.testBit_two_pow_mul, Nat.testBit_div_two_pow]
  by_cases h : i < k
  · simp [h]
  · simp [h, Nat.not_lt.1 h, Nat.sub_add_cancel (Nat.not_lt.1 h)]

/-- The steps of eight bits: those of the low byte, while the others move down. -/
theorem shift_eight (x : UInt32) :
    (shift poly)^[8] x = (x >>> 8) ^^^ (shift poly)^[8] x.toUInt8.toUInt32 := by
  have hhigh : (shift poly)^[8] (x ^^^ x.toUInt8.toUInt32) = x >>> 8 := by
    refine UInt32.toNat_inj.1 (toNat_shift_iterate ?_)
    rw [UInt32.toNat_xor, UInt8.toNat_toUInt32, UInt32.toNat_toUInt8, UInt32.toNat_shiftRight,
      xor_mod_two_pow, Nat.shiftRight_eq_div_pow]
    rfl
  rw [← hhigh, ← shift_iterate_xor, UInt32.xor_assoc, UInt32.xor_self, UInt32.xor_zero]

/-- A register that is looked up in a table of the steps of eight bits. -/
theorem register_eq_lookup {table : UInt8 → UInt32}
    (htable : ∀ i, table i = (shift poly)^[8] i.toUInt32) (crc : UInt32) (data : List UInt8) :
    register poly crc data =
      data.foldl (fun (crc : UInt32) (byte : UInt8) =>
        (crc >>> 8) ^^^ table (crc ^^^ byte.toUInt32).toUInt8) crc := by
  have hbyte : ∀ byte : UInt8, byte.toUInt32 >>> 8 = 0 := fun byte => by
    refine UInt32.toNat_inj.1 ?_
    rw [UInt32.toNat_shiftRight, UInt8.toNat_toUInt32, Nat.shiftRight_eq_div_pow]
    exact Nat.div_eq_of_lt byte.toNat_lt
  rw [register_eq_checksum, checksum]
  congr 1
  funext crc byte
  rw [shift_eight, UInt32.shiftRight_xor, hbyte, UInt32.xor_zero, htable]

end Crc

end FtlFirmware
