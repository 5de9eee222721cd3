import FtlFirmware.Common
import Mathlib.Data.List.Basic

/-!
# The page ECC

Every page is stored with a 32-bit ECC: the exclusive or, over the bytes of the page, of the
(7,4) Hamming codes of the two halves of the byte (`hammingEcc`). When a page is read back, the
decoder recomputes it. If it differs from the stored one, the decoder flips one bit after the
other until it agrees, and gives up when no single flip does (`Nand.eccHammingDecode`).

* `eccHammingDecode_self`: a page read back with its own ECC is left as it is.
-/

namespace FtlFirmware

/-- The outcome of a decoder (`ecc_result_t`). -/
inductive EccResult
  | ok
  | corrected
  | uncorrectable
  deriving DecidableEq, Repr

/-- The ECC algorithms (`ecc_algo_type_t`). -/
inductive EccAlgo
  | none
  | hamming
  | bch
  | ldpc
  deriving DecidableEq, Repr

variable {len : ℕ}

/-- The (7,4) Hamming code of the low four bits of `data`, as the bits `p1 p2 d0 p4 d1 d2 d3`. -/
def hammingEncode4bit (data : UInt8) : UInt8 :=
  let d0 := (data >>> 0) &&& 0x01
  let d1 := (data >>> 1) &&& 0x01
  let d2 := (data >>> 2) &&& 0x01
  let d3 := (data >>> 3) &&& 0x01
  let p1 := d0 ^^^ d1 ^^^ d3
  let p2 := d0 ^^^ d2 ^^^ d3
  let p4 := d1 ^^^ d2 ^^^ d3
  (p1 <<< 0) ||| (p2 <<< 1) ||| (d0 <<< 2) ||| (p4 <<< 3) ||| (d1 <<< 4) ||| (d2 <<< 5) |||
    (d3 <<< 6)

/-- What one byte contributes to the ECC: the codes of its two halves. -/
def hammingByte (byte : UInt8) : UInt32 :=
  ((hammingEncode4bit (byte &&& 0x0F)).toUInt32 <<< 0) ^^^
    ((hammingEncode4bit ((byte >>> 4) &&& 0x0F)).toUInt32 <<< 7)

/-- The ECC of a buffer: the loop of `nand_ecc_hamming_encode`. -/
def hammingEcc (data : Vector UInt8 len) : UInt32 :=
  data.toList.foldl (fun ecc byte => ecc ^^^ hammingByte byte) 0

/-- The ECC of a buffer; an empty one is refused. -/
def eccHammingEncode (data : Vector UInt8 len) : Except RetCode UInt32 :=
  if len = 0 then .error .errParam else .ok (hammingEcc data)

/-- The buffer with the bit `bit` of its byte `i` flipped. -/
def flipBit (data : Vector UInt8 len) (i bit : ℕ) : Vector UInt8 len :=
  data.setIfInBounds i (data.toArray.getD i 0 ^^^ ((1 : UInt8) <<< UInt8.ofNat bit))

/-- The bit positions in the order in which the decoder tries them. -/
def bitPositions (len : ℕ) : List (ℕ × ℕ) :=
  (List.range len).flatMap fun i => (List.range 8).map fun bit => (i, bit)

/-- Checks a buffer against the ECC stored with it, and corrects a single bit: the first flip in
    the order of the positions after which the ECC agrees. -/
def eccHammingDecode (data : Vector UInt8 len) (ecc : UInt32) : EccResult × Vector UInt8 len :=
  if len = 0 then (.uncorrectable, data)
  else if hammingEcc data = ecc then (.ok, data)
  else
    match (bitPositions len).find? fun (i, bit) => hammingEcc (flipBit data i bit) = ecc with
    | some (i, bit) => (.corrected, flipBit data i bit)
    | none => (.uncorrectable, data)

/-- A buffer with its own ECC is in order, and left as it is. -/
theorem eccHammingDecode_self (data : Vector UInt8 len) (hlen : len ≠ 0) :
    eccHammingDecode data (hammingEcc data) = (.ok, data) := by
  simp [eccHammingDecode, hlen]

/-- A buffer is found to be in order if and only if its ECC is the one stored with it. -/
theorem eccHammingDecode_fst_eq_ok {data : Vector UInt8 len} {ecc : UInt32} (hlen : len ≠ 0) :
    (eccHammingDecode data ecc).1 = .ok ↔ hammingEcc data = ecc := by
  rw [eccHammingDecode, if_neg hlen]
  split_ifs with heq
  · exact iff_of_true rfl heq
  · refine iff_of_false ?_ heq
    split <;> simp

end FtlFirmware
