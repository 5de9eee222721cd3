import FtlFirmware.Nand.Hamming
import Mathlib.Algebra.BigOperators.Group.Finset.Basic
import Mathlib.Data.Nat.Bits

/-!
# The BCH and the LDPC code of a page

The two other codes that a page may be stored with. Both are running checksums, of the parity bits
of a code of each byte, with an accumulator that is rotated by one bit after each byte (`bchEcc`,
`ldpcEcc`). Their decoders never touch the buffer: they count the bits in which the checksum differs
from the stored one, and tell from this number whether the buffer is in order, is to be taken for
corrected, or is beyond correction (`thresholdDecode`).

A rotation does not change the number of bits (`errorBits_rotate`), so after the flip of one bit it
is the number of parity bits of that bit alone (`errorBits_flipBit`), in whichever byte it is.

* `decode_vouches_iff`: the decoder does not pass off a buffer with a flipped bit for the original
  if and only if the code is the BCH code and the bit one of the two lowest of its byte.
-/

namespace FtlFirmware

variable {len : ℕ} {data : Vector UInt8 len} {ecc : UInt32} {i b : ℕ}

/-! ## The codes of a byte -/

/-- One step of the shift register of `bch_encode_7bit`. -/
def bchShift (codeword : UInt16) : UInt16 :=
  let feedback := (codeword >>> 14) &&& 0x01
  let codeword := codeword <<< 1
  if feedback ≠ 0 then codeword ^^^ 0x01D1 else codeword

/-- The BCH code of the low seven bits of `data` (`bch_encode_7bit`). -/
def bchEncode7bit (data : UInt8) : UInt16 :=
  bchShift^[7] ((data &&& 0x7F).toUInt16 <<< 8) &&& 0x7FFF

/-- The parity check matrix of the LDPC code (`ldpc_H_matrix`). -/
def ldpcHMatrix : List (List UInt8) := [
  [1, 1, 0, 1, 0, 0, 1, 0, 0, 0, 0, 0],
  [0, 1, 1, 0, 1, 0, 0, 1, 0, 0, 0, 0],
  [0, 0, 1, 1, 0, 1, 0, 0, 1, 0, 0, 0],
  [1, 0, 0, 1, 1, 0, 0, 0, 0, 1, 0, 0],
  [0, 1, 0, 0, 1, 1, 0, 0, 0, 0, 1, 0],
  [1, 0, 1, 0, 0, 1, 0, 0, 0, 0, 0, 1]]

/-- The number of data bits of the LDPC code (`NAND_LDPC_K`). -/
abbrev ldpcK : ℕ := 6

/-- The number of check bits of the LDPC code (`NAND_LDPC_M`). -/
abbrev ldpcM : ℕ := 6

/-- An entry of the parity check matrix. -/
def ldpcH (i j : ℕ) : UInt8 := (ldpcHMatrix.getD i []).getD j 0

/-- The value of the check bit `i`. -/
def ldpcParity (data : UInt8) (i : ℕ) : UInt8 :=
  (List.range ldpcK).foldl
    (fun parity j => if ldpcH i j ≠ 0 then parity ^^^ ((data >>> UInt8.ofNat j) &&& 1) else parity) 0

/-- The LDPC code of the low six bits of `data` (`ldpc_encode_6bit`). -/
def ldpcEncode6bit (data : UInt8) : UInt16 :=
  (List.range ldpcM).foldl
    (fun codeword i =>
      if ldpcParity data i ≠ 0 then codeword ||| ((1 : UInt16) <<< UInt16.ofNat (ldpcK + i))
      else codeword)
    (data &&& 0x3F).toUInt16 &&& 0x0FFF

/-- What one byte contributes to the BCH code of a page. -/
def bchByte (byte : UInt8) : UInt32 := (bchEncode7bit (byte &&& 0x7F) &&& 0xFF).toUInt32

/-- What one byte contributes to the LDPC code of a page. -/
def ldpcByte (byte : UInt8) : UInt32 := ((ldpcEncode6bit (byte &&& 0x3F) >>> 6) &&& 0x3F).toUInt32

/-! ## The codes of a page -/

/-- The rotation of the accumulator after each byte. -/
def rotate (ecc : UInt32) : UInt32 := (ecc <<< 1) ||| ((ecc >>> 31) &&& 1)

/-- The checksum of a buffer: the loop of the two encoders, with the code of a byte as parameter. -/
def rotatingEcc (code : UInt8 → UInt32) (data : Vector UInt8 len) : UInt32 :=
  data.toList.foldl (fun ecc byte => rotate (ecc ^^^ code byte)) 0

/-- The BCH code of a buffer. -/
def bchEcc (data : Vector UInt8 len) : UInt32 := rotatingEcc bchByte data

/-- The LDPC code of a buffer. -/
def ldpcEcc (data : Vector UInt8 len) : UInt32 := rotatingEcc ldpcByte data

/-- The BCH code of a buffer; an empty one is refused (`nand_ecc_bch_encode`). -/
def eccBchEncode (data : Vector UInt8 len) : Except RetCode UInt32 :=
  if len = 0 then .error .errParam else .ok (bchEcc data)

/-- The LDPC code of a buffer; an empty one is refused (`nand_ecc_ldpc_encode`). -/
def eccLdpcEncode (data : Vector UInt8 len) : Except RetCode UInt32 :=
  if len = 0 then .error .errParam else .ok (ldpcEcc data)

/-! ## The decoders -/

/-- The number of bits that are set: the loop of the two decoders. -/
def errorBits (diff : UInt32) : ℕ :=
  if diff = 0 then 0 else (diff &&& 1).toNat + errorBits (diff >>> 1)
termination_by diff.toNat
decreasing_by
  next hne =>
  have hpos : 0 < diff.toNat := Nat.pos_of_ne_zero fun h => hne (UInt32.toNat_inj.1 h)
  rw [UInt32.toNat_shiftRight]
  exact Nat.div_lt_self hpos (by decide)

/-- Compares the checksum of a buffer with the one stored with it, and tells the outcome from the
    number of bits in which they differ, `threshold` of which count as corrected. -/
def thresholdDecode (code : Vector UInt8 len → UInt32) (threshold : ℕ) (data : Vector UInt8 len)
    (ecc : UInt32) : EccResult × Vector UInt8 len :=
  if len = 0 then (.uncorrectable, data)
  else if errorBits (code data ^^^ ecc) = 0 then (.ok, data)
  else if errorBits (code data ^^^ ecc) ≤ threshold then (.corrected, data)
  else (.uncorrectable, data)

/-- The number of errors that the BCH code corrects (`NAND_BCH_T`). -/
abbrev bchT : ℕ := 2

/-- The number of errors that the LDPC code corrects (`NAND_LDPC_T`). -/
abbrev ldpcT : ℕ := 3

/-- The decoder of the BCH code (`nand_ecc_bch_decode`). -/
def eccBchDecode (data : Vector UInt8 len) (ecc : UInt32) : EccResult × Vector UInt8 len :=
  thresholdDecode bchEcc bchT data ecc

/-- The decoder of the LDPC code (`nand_ecc_ldpc_decode`). -/
def eccLdpcDecode (data : Vector UInt8 len) (ecc : UInt32) : EccResult × Vector UInt8 len :=
  thresholdDecode ldpcEcc ldpcT data ecc

/-! ## Rotations -/

/-- The bits of a rotated word. -/
theorem toBitVec_rotate (x : UInt32) : (rotate x).toBitVec = x.toBitVec.rotateLeft 1 := by
  ext k hk
  rw [rotate]
  cases k <;> simp [BitVec.getElem_rotateLeft]

/-- A rotation respects the exclusive or. -/
theorem rotate_xor (x y : UInt32) : rotate (x ^^^ y) = rotate x ^^^ rotate y := by
  refine UInt32.toBitVec_inj.1 ?_
  rw [UInt32.toBitVec_xor, toBitVec_rotate, toBitVec_rotate, toBitVec_rotate, UInt32.toBitVec_xor]
  ext k hk
  simp only [BitVec.getElem_rotateLeft, BitVec.getElem_xor]
  split <;> rfl

/-- The number of bits that are set of a word below `2 ^ m`, bit by bit. -/
theorem errorBits_eq_sum_of_lt (m : ℕ) {x : UInt32} (hx : x.toNat < 2 ^ m) :
    errorBits x = ∑ k ∈ Finset.range m, (x.toBitVec.getLsbD k).toNat := by
  induction m generalizing x with
  | zero =>
    have hzero : x = 0 := UInt32.toNat_inj.1 (Nat.lt_one_iff.1 hx)
    rw [hzero, errorBits, if_pos rfl, Finset.sum_range_zero]
  | succ m ih =>
    rw [errorBits, Finset.sum_range_succ']
    split
    · next hzero => simp [hzero]
    · have hhalf : (x >>> 1).toNat < 2 ^ m := by
        rw [UInt32.toNat_shiftRight]
        exact Nat.div_lt_of_lt_mul (by rwa [← Nat.pow_succ'])
      have hlow : (x &&& 1).toNat = (x.toBitVec.getLsbD 0).toNat := by
        have hbit : x.toBitVec.getLsbD 0 = decide (x.toNat % 2 = 1) := by simp [BitVec.getLsbD]
        rw [UInt32.toNat_and, hbit]
        rcases Nat.mod_two_eq_zero_or_one x.toNat with hmod | hmod <;> simp [hmod]
      rw [ih hhalf, hlow, Nat.add_comm]
      refine congrArg (· + _) (Finset.sum_congr rfl fun k _ => ?_)
      simp [Nat.add_comm]

/-- The number of bits that are set, bit by bit. -/
theorem errorBits_eq_sum (x : UInt32) :
    errorBits x = ∑ k ∈ Finset.range 32, (x.toBitVec.getLsbD k).toNat :=
  errorBits_eq_sum_of_lt 32 x.toNat_lt

/-- A rotation does not change the number of bits. -/
theorem errorBits_rotate (x : UInt32) : errorBits (rotate x) = errorBits x := by
  -- the highest bit becomes the lowest one, and any other bit moves up by one
  have hfirst : (rotate x).toBitVec.getLsbD 0 = x.toBitVec.getLsbD 31 := by
    rw [toBitVec_rotate, BitVec.getLsbD_rotateLeft]
    simp
  have hnext : ∀ k ∈ Finset.range 31, ((rotate x).toBitVec.getLsbD (k + 1)).toNat =
      (x.toBitVec.getLsbD k).toNat := by
    intro k hk
    have hlt : k + 1 < 32 := Nat.succ_lt_succ (Finset.mem_range.1 hk)
    rw [toBitVec_rotate, BitVec.getLsbD_rotateLeft]
    simp [hlt]
  calc errorBits (rotate x)
    _ = ∑ k ∈ Finset.range 31, ((rotate x).toBitVec.getLsbD (k + 1)).toNat +
        ((rotate x).toBitVec.getLsbD 0).toNat := by
      rw [errorBits_eq_sum]
      exact Finset.sum_range_succ' (fun k => ((rotate x).toBitVec.getLsbD k).toNat) 31
    _ = ∑ k ∈ Finset.range 31, (x.toBitVec.getLsbD k).toNat + (x.toBitVec.getLsbD 31).toNat := by
      rw [hfirst, Finset.sum_congr rfl hnext]
    _ = errorBits x := by
      rw [errorBits_eq_sum]
      exact (Finset.sum_range_succ (fun k => (x.toBitVec.getLsbD k).toNat) 31).symm

theorem errorBits_iterate_rotate (k : ℕ) (x : UInt32) : errorBits (rotate^[k] x) = errorBits x := by
  induction k generalizing x with
  | zero => rfl
  | succ k ih => rw [Function.iterate_succ_apply, ih, errorBits_rotate]

/-! ## A flipped bit -/

/-- After a flip, the checksum differs by the code of the flipped bit, rotated. -/
theorem rotatingEcc_flipBit {code : UInt8 → UInt32} (hcode : AddsUp code) (hi : i < len) :
    rotatingEcc code (flipBit data i b) =
      rotatingEcc code data ^^^ rotate^[len - i] (code (bitMask b)) := by
  have hlen : i < data.toList.length := by rwa [Vector.length_toList]
  have hbyte : code (data[i] ^^^ bitMask b) = code data.toList[i] ^^^ code (bitMask b) := by
    rw [Vector.getElem_toList]
    exact hcode.xor _ _
  have hsum := checksum_set (· ^^^ ·) rotate code rotate_xor hlen hbyte 0
  rw [Vector.length_toList] at hsum
  rw [rotatingEcc, toList_flipBit hi]
  exact hsum

/-- After a flip, the checksum differs in as many bits as the code of the flipped bit has. -/
theorem errorBits_flipBit {code : UInt8 → UInt32} (hcode : AddsUp code) (hi : i < len) :
    errorBits (rotatingEcc code (flipBit data i b) ^^^ rotatingEcc code data) =
      errorBits (code (bitMask b)) := by
  rw [rotatingEcc_flipBit hcode hi, UInt32.xor_comm, ← UInt32.xor_assoc, UInt32.xor_self,
    UInt32.zero_xor, errorBits_iterate_rotate]

/-- The codes of all bytes, and the parity bits of the bits of a byte. -/
private theorem rotatingTable : AddsUp bchByte ∧ AddsUp ldpcByte ∧
    (∀ b < 8,
      ∑ k ∈ Finset.range 32, ((bchByte (bitMask b)).toBitVec.getLsbD k).toNat ≤ 2 ↔ 2 ≤ b) ∧
      ∀ b < 8, ∑ k ∈ Finset.range 32, ((ldpcByte (bitMask b)).toBitVec.getLsbD k).toNat ≤ 3 := by
  rw [AddsUp, AddsUp]
  decide +kernel

theorem bchByte_addsUp : AddsUp bchByte := rotatingTable.1

theorem ldpcByte_addsUp : AddsUp ldpcByte := rotatingTable.2.1

/-- The highest bit of a byte does not count in the BCH code. -/
theorem bchEcc_flipBit_highest (hi : i < len) : bchEcc (flipBit data i 7) = bchEcc data := by
  have hcode : bchByte (bitMask 7) = 0 := by decide
  rw [bchEcc, rotatingEcc_flipBit bchByte_addsUp hi, hcode,
    Function.iterate_fixed (f := rotate) (x := 0) rfl, UInt32.xor_zero]
  rfl

/-- Only the two lowest bits of a byte have more parity bits in the BCH code than it corrects. -/
theorem errorBits_bchByte (hb : b < 8) : errorBits (bchByte (bitMask b)) ≤ bchT ↔ 2 ≤ b := by
  rw [errorBits_eq_sum]
  exact rotatingTable.2.2.1 b hb

/-- No bit of a byte has more parity bits in the LDPC code than it corrects. -/
theorem errorBits_ldpcByte (hb : b < 8) : errorBits (ldpcByte (bitMask b)) ≤ ldpcT := by
  rw [errorBits_eq_sum]
  exact rotatingTable.2.2.2 b hb

/-! ## What the decoders vouch for -/

section Threshold

variable {code : Vector UInt8 len → UInt32} {threshold : ℕ}

/-- The decoders never touch the buffer. -/
@[simp] theorem thresholdDecode_snd : (thresholdDecode code threshold data ecc).2 = data := by
  rw [thresholdDecode]
  split_ifs <;> rfl

/-- A buffer is beyond correction if its checksum differs in more bits than are corrected. -/
theorem thresholdDecode_fst (hlen : len ≠ 0) :
    (thresholdDecode code threshold data ecc).1 = .uncorrectable ↔
      threshold < errorBits (code data ^^^ ecc) := by
  rw [thresholdDecode, if_neg hlen]
  split_ifs with hzero hle
  · exact iff_of_false (by simp) (by omega)
  · exact iff_of_false (by simp) (Nat.not_lt.2 hle)
  · exact iff_of_true rfl (Nat.not_le.1 hle)

/-- A buffer with its own checksum is in order. -/
theorem thresholdDecode_self (data : Vector UInt8 len) (hlen : len ≠ 0) :
    thresholdDecode code threshold data (code data) = (.ok, data) := by
  have hzero : errorBits (code data ^^^ code data) = 0 := by
    rw [UInt32.xor_self, errorBits, if_pos rfl]
  rw [thresholdDecode, if_neg hlen, if_pos hzero]

end Threshold

/-- The two codes with a rotating accumulator. -/
inductive RotatingCode
  | bch
  | ldpc
  deriving DecidableEq, Repr

namespace RotatingCode

/-- The encoder of the code. -/
def encode (data : Vector UInt8 len) : RotatingCode → Except RetCode UInt32
  | bch => eccBchEncode data
  | ldpc => eccLdpcEncode data

/-- The decoder of the code. -/
def decode (data : Vector UInt8 len) (ecc : UInt32) : RotatingCode → EccResult × Vector UInt8 len
  | bch => eccBchDecode data ecc
  | ldpc => eccLdpcDecode data ecc

variable {code : RotatingCode}

/-- A buffer with a flipped bit is found to be beyond correction only by the BCH code, and only for
    the two lowest bits of a byte. -/
theorem decode_flipBit_fst (henc : code.encode data = .ok ecc) (hi : i < len) (hb : b < 8) :
    (code.decode (flipBit data i b) ecc).1 = .uncorrectable ↔ code = .bch ∧ b < 2 := by
  have hlen : len ≠ 0 := Nat.ne_zero_of_lt hi
  cases code with
  | bch =>
    rw [encode, eccBchEncode, if_neg hlen] at henc
    rw [decode, eccBchDecode, thresholdDecode_fst hlen, ← Except.ok.inj henc, bchEcc, bchEcc,
      errorBits_flipBit bchByte_addsUp hi, ← Nat.not_le, errorBits_bchByte hb, Nat.not_le]
    exact (and_iff_right rfl).symm
  | ldpc =>
    rw [encode, eccLdpcEncode, if_neg hlen] at henc
    rw [decode, eccLdpcDecode, thresholdDecode_fst hlen, ← Except.ok.inj henc, ldpcEcc, ldpcEcc,
      errorBits_flipBit ldpcByte_addsUp hi, ← Nat.not_le]
    exact iff_of_false (not_not.2 (errorBits_ldpcByte hb)) (by simp)

/-- The decoders hand over the buffer as it is. -/
theorem decode_snd : (code.decode data ecc).2 = data := by
  cases code <;> exact thresholdDecode_snd

/-- A decoder that finds a buffer with a flipped bit in order, or corrected, leaves the original in
    the buffer, if and only if the code is the BCH code and the bit one of the two lowest of its
    byte. -/
theorem decode_vouches_iff (henc : code.encode data = .ok ecc) (hi : i < len) (hb : b < 8) :
    ((code.decode (flipBit data i b) ecc).1 = .ok ∨
        (code.decode (flipBit data i b) ecc).1 = .corrected →
      (code.decode (flipBit data i b) ecc).2 = data) ↔ code = .bch ∧ b < 2 := by
  rw [decode_snd, ← decode_flipBit_fst henc hi hb]
  have hne : flipBit data i b ≠ data := flipBit_ne hi hb
  cases (code.decode (flipBit data i b) ecc).1 <;> simp [hne]

/-- The lowest bit of a byte, with the BCH code. -/
theorem bch_vouches_lowest :
    ¬((bch.decode (flipBit #v[0x5A, 0xC3] 1 0) (bchEcc #v[0x5A, 0xC3])).1 = .ok ∨
        (bch.decode (flipBit #v[0x5A, 0xC3] 1 0) (bchEcc #v[0x5A, 0xC3])).1 = .corrected) ∨
      (bch.decode (flipBit #v[0x5A, 0xC3] 1 0) (bchEcc #v[0x5A, 0xC3])).2 = #v[0x5A, 0xC3] :=
  not_or_of_imp ((decode_vouches_iff rfl (by decide) (by decide)).2 ⟨rfl, by decide⟩)

/-- The highest bit of a byte is not protected by any of the two codes. -/
theorem decode_vouches_highest :
    ¬ ∀ (len : ℕ) (data : Vector UInt8 len) (code : RotatingCode) (ecc : UInt32) (i b : ℕ),
      code.encode data = .ok ecc → i < len → b < 8 →
        (code.decode (flipBit data i b) ecc).1 = .ok ∨
          (code.decode (flipBit data i b) ecc).1 = .corrected →
        (code.decode (flipBit data i b) ecc).2 = data := by
  intro hall
  have hdata := hall 1 #v[0x5A] bch _ 0 7 rfl (by decide) (by decide)
  have hnot := (decode_flipBit_fst (i := 0) (b := 7) (rfl : bch.encode #v[0x5A] = .ok _)
    (by decide) (by decide)).not.2 (by decide)
  rw [decode_snd] at hdata
  cases hret : (bch.decode (flipBit #v[0x5A] 0 7) (bchEcc #v[0x5A])).1 with
  | ok => exact absurd (hdata (Or.inl hret)) (by decide)
  | corrected => exact absurd (hdata (Or.inr hret)) (by decide)
  | uncorrectable => exact hnot hret

end RotatingCode

end FtlFirmware
