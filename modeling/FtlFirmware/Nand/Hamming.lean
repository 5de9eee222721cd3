import FtlFirmware.Lib.Checksum
import FtlFirmware.Nand.Ecc

/-!
# What the Hamming ECC of a page tells

The ECC of a page is a running checksum (`hammingEcc_eq_checksum`): a flipped bit changes it by the
code of the bit in its byte, whichever byte that is (`hammingEcc_flipBit`). So the ECC tells which
bit of a byte has been flipped, but not of which byte, and the decoder takes the first byte
(`eccHammingDecode_single`).

* `eccHammingDecode_flipBit_iff`: a single flipped bit is corrected if and only if it is one of the
  first byte.
-/

namespace FtlFirmware

variable {len : ℕ} {data : Vector UInt8 len} {ecc : UInt32} {i j b c : ℕ}

/-! ## Flipped bits -/

/-- The byte in which only the bit `b` is set. -/
abbrev bitMask (b : ℕ) : UInt8 := (1 : UInt8) <<< UInt8.ofNat b

/-- What a bit of a byte contributes to the ECC. -/
def bitCode (b : ℕ) : UInt32 := hammingByte (bitMask b)

theorem bitMask_ne_zero (hb : b < 8) : bitMask b ≠ 0 := by
  revert b
  decide

theorem toList_flipBit (hi : i < len) :
    (flipBit data i b).toList = data.toList.set i (data[i] ^^^ bitMask b) := by
  have hbyte : data.toArray.getD i 0 = data[i] := by simp [hi]
  rw [flipBit, hbyte]
  simp

/-- The bytes of a buffer with a flipped bit. -/
theorem getElem_flipBit (hj : j < len) :
    (flipBit data i b)[j] = if i = j then data[j] ^^^ bitMask b else data[j] := by
  rw [flipBit, Vector.getElem_setIfInBounds]
  split
  · next heq =>
    subst heq
    simp [hj]
  · rfl

/-- Flipping a bit twice. -/
@[simp] theorem flipBit_flipBit_self : flipBit (flipBit data i b) i b = data := by
  ext j hj
  simp only [getElem_flipBit hj]
  split
  · rw [UInt8.xor_assoc, UInt8.xor_self, UInt8.xor_zero]
  · rfl

/-- A flipped bit alters the buffer. -/
theorem flipBit_ne (hi : i < len) (hb : b < 8) : flipBit data i b ≠ data := by
  intro heq
  have hbyte : (flipBit data i b)[i] = data[i] ^^^ bitMask b := by
    rw [getElem_flipBit hi, if_pos rfl]
  rw [heq, ← UInt8.xor_right_inj data[i], ← UInt8.xor_assoc, UInt8.xor_self, UInt8.zero_xor]
    at hbyte
  exact bitMask_ne_zero hb hbyte.symm

/-- Different bits of a byte have different masks. -/
theorem bitMask_inj (hb : b < 8) (hc : c < 8) : bitMask b = bitMask c ↔ b = c := by
  have htable : ∀ b < 8, ∀ c < 8, bitMask b = bitMask c ↔ b = c := by decide
  exact htable b hb c hc

/-- Flipping different bits gives different buffers. -/
theorem flipBit_inj (hi : i < len) (hb : b < 8) (hc : c < 8) :
    flipBit data i b = flipBit data j c ↔ i = j ∧ b = c := by
  constructor
  · intro heq
    have hbyte : data[i] ^^^ bitMask b = (flipBit data j c)[i] := by
      rw [← heq, getElem_flipBit hi, if_pos rfl]
    rw [getElem_flipBit hi] at hbyte
    split at hbyte
    · next hij =>
      rw [UInt8.xor_right_inj] at hbyte
      exact ⟨hij.symm, (bitMask_inj hb hc).1 hbyte⟩
    · -- only one of the two buffers has another byte here
      have hself : data[i] ^^^ bitMask b = data[i] ^^^ 0 := by rw [hbyte, UInt8.xor_zero]
      exact absurd ((UInt8.xor_right_inj _).1 hself) (bitMask_ne_zero hb)
  · rintro ⟨rfl, rfl⟩
    rfl

/-- A second flip undoes the first one if and only if it is that of the same bit. -/
theorem flipBit_flipBit_eq_iff (hi : i < len) (hb : b < 8) (hc : c < 8) :
    flipBit (flipBit data i b) j c = data ↔ i = j ∧ b = c := by
  have hinj : flipBit data i b = flipBit data j c ↔ i = j ∧ b = c := flipBit_inj hi hb hc
  rw [← hinj]
  constructor
  · intro heq
    calc flipBit data i b
      _ = flipBit (flipBit (flipBit data i b) j c) j c := flipBit_flipBit_self.symm
      _ = flipBit data j c := by rw [heq]
  · intro heq
    rw [heq, flipBit_flipBit_self]

/-! ## The code of a bit -/

theorem xor_eq_self_iff {x y : UInt32} : x ^^^ y = x ↔ y = 0 := by
  rw [← UInt32.xor_right_inj x, ← UInt32.xor_assoc, UInt32.xor_self, UInt32.zero_xor]

/-- The sum of the codes of those of the bits `bits` that are set in `n`. -/
def bitSum (code : UInt8 → UInt32) : List ℕ → ℕ → UInt32
  | [], _ => 0
  | b :: bits, n => (if n.testBit b then code (bitMask b) else 0) ^^^ bitSum code bits n

theorem bitSum_xor (code : UInt8 → UInt32) (bits : List ℕ) (m n : ℕ) :
    bitSum code bits (m ^^^ n) = bitSum code bits m ^^^ bitSum code bits n := by
  induction bits with
  | nil => exact UInt32.xor_self.symm
  | cons b bits ih =>
    have hbit : (if (m ^^^ n).testBit b then code (bitMask b) else 0) =
        (if m.testBit b then code (bitMask b) else 0) ^^^
          (if n.testBit b then code (bitMask b) else 0) := by
      rw [Nat.testBit_xor]
      cases m.testBit b <;> cases n.testBit b <;> simp
    rw [bitSum, bitSum, bitSum, ih, hbit]
    ac_rfl

/-- The code of every byte is the sum of the codes of its bits. -/
def AddsUp (code : UInt8 → UInt32) : Prop :=
  ∀ n < 256, code (UInt8.ofNat n) = bitSum code (List.range 8) n

/-- A code that adds up respects the exclusive or. -/
theorem AddsUp.xor {code : UInt8 → UInt32} (h : AddsUp code) (x y : UInt8) :
    code (x ^^^ y) = code x ^^^ code y := by
  have heq : ∀ z : UInt8, code z = bitSum code (List.range 8) z.toNat := fun z => by
    rw [← h z.toNat z.toNat_lt, UInt8.ofNat_toNat]
  rw [heq (x ^^^ y), heq x, heq y, UInt8.toNat_xor, bitSum_xor]

/-- The codes of all bytes, and of the bits of a byte. -/
private theorem hammingTable : AddsUp hammingByte ∧ (∀ b < 8, bitCode b ≠ 0) ∧
    (∀ b < 8, ∀ c < 8, bitCode b = bitCode c ↔ b = c) ∧
      ∀ b < 8, ∀ c < 8, b ≠ c → ∀ d < 8, bitCode b ^^^ bitCode c ≠ bitCode d := by
  rw [AddsUp]
  decide +kernel

theorem hammingByte_addsUp : AddsUp hammingByte := hammingTable.1

theorem bitCode_ne_zero (hb : b < 8) : bitCode b ≠ 0 := hammingTable.2.1 b hb

/-- Different bits of a byte have different codes. -/
theorem bitCode_inj (hb : b < 8) (hc : c < 8) : bitCode b = bitCode c ↔ b = c :=
  hammingTable.2.2.1 b hb c hc

/-- The codes of two bits of a byte do not add up to that of a third. -/
theorem bitCode_xor_ne (hb : b < 8) (hc : c < 8) (hbc : b ≠ c) {d : ℕ} (hd : d < 8) :
    bitCode b ^^^ bitCode c ≠ bitCode d :=
  hammingTable.2.2.2 b hb c hc hbc d hd

/-- The ECC is a running checksum that is not turned. -/
theorem hammingEcc_eq_checksum (data : Vector UInt8 len) :
    hammingEcc data = checksum (· ^^^ ·) id hammingByte 0 data.toList := rfl

/-- A flipped bit changes the ECC by the code of the bit, in whichever byte it is. -/
theorem hammingEcc_flipBit (hi : i < len) :
    hammingEcc (flipBit data i b) = hammingEcc data ^^^ bitCode b := by
  have hlen : i < data.toList.length := by rwa [Vector.length_toList]
  have hbyte : hammingByte (data[i] ^^^ bitMask b) = hammingByte data.toList[i] ^^^ bitCode b := by
    rw [Vector.getElem_toList]
    exact hammingByte_addsUp.xor _ _
  rw [hammingEcc_eq_checksum, toList_flipBit hi,
    checksum_set (· ^^^ ·) id hammingByte (fun _ _ => rfl) hlen hbyte, Function.iterate_id]
  rfl

/-! ## The decoder -/

theorem mem_bitPositions : (i, b) ∈ bitPositions len ↔ i < len ∧ b < 8 := by
  simp [bitPositions]

/-- The first position, if only the bit counts. -/
theorem find?_bitPositions {p : ℕ × ℕ → Bool} (hlen : len ≠ 0) (hb : b < 8) (hp : p (0, b))
    (hbefore : ∀ c < b, p (0, c) = false) : (bitPositions len).find? p = some (0, b) := by
  obtain ⟨len, rfl⟩ := Nat.exists_eq_succ_of_ne_zero hlen
  have hrow : (List.range 8).find? (fun bit => p (0, bit)) = some b := by
    rw [List.find?_range_eq_some]
    refine ⟨hp, List.mem_range.2 hb, fun c hc => ?_⟩
    rw [hbefore c hc, Bool.not_false]
  have hmap : ((List.range 8).map fun bit => (0, bit)).find? p = some (0, b) := by
    rw [List.find?_map]
    exact congrArg (Option.map _) hrow
  rw [bitPositions, List.range_succ_eq_map (n := len), List.flatMap_cons, List.find?_append, hmap,
    Option.some_or]

/-- An ECC that differs by the code of a bit: the bit is flipped in the first byte. -/
theorem eccHammingDecode_single (hlen : len ≠ 0) (hb : b < 8)
    (hecc : hammingEcc data = ecc ^^^ bitCode b) :
    eccHammingDecode data ecc = (.corrected, flipBit data 0 b) := by
  have hpos : 0 < len := Nat.pos_of_ne_zero hlen
  have hne : hammingEcc data ≠ ecc := by
    rw [hecc, Ne, xor_eq_self_iff]
    exact bitCode_ne_zero hb
  -- a flip in the first byte makes the ECC agree if and only if it is that of the bit
  have hagree : ∀ c < 8, hammingEcc (flipBit data 0 c) = ecc ↔ b = c := fun c hc => by
    rw [hammingEcc_flipBit hpos, hecc, UInt32.xor_assoc, xor_eq_self_iff, UInt32.xor_eq_zero_iff,
      bitCode_inj hb hc]
  rw [eccHammingDecode, if_neg hlen, if_neg hne, find?_bitPositions hlen hb]
  · exact decide_eq_true ((hagree b hb).2 rfl)
  · intro c hc
    exact decide_eq_false fun h => Nat.ne_of_gt hc ((hagree c (Nat.lt_trans hc hb)).1 h)

/-- An ECC that differs by the code of no bit: nothing is corrected. -/
theorem eccHammingDecode_none (hlen : len ≠ 0) (hne : hammingEcc data ≠ ecc)
    (hnone : ∀ b < 8, hammingEcc data ≠ ecc ^^^ bitCode b) :
    eccHammingDecode data ecc = (.uncorrectable, data) := by
  rw [eccHammingDecode, if_neg hlen, if_neg hne, List.find?_eq_none.2]
  rintro ⟨i, bit⟩ hmem hagree
  obtain ⟨hi, hbit⟩ := mem_bitPositions.1 hmem
  rw [decide_eq_true_iff, hammingEcc_flipBit hi] at hagree
  refine hnone bit hbit ?_
  rw [← hagree, UInt32.xor_assoc, UInt32.xor_self, UInt32.xor_zero]

/-- A buffer with a flipped bit, read back with its ECC: the bit is flipped in the first byte. -/
theorem eccHammingDecode_flipBit (hi : i < len) (hb : b < 8) :
    eccHammingDecode (flipBit data i b) (hammingEcc data) =
      (.corrected, flipBit (flipBit data i b) 0 b) :=
  eccHammingDecode_single (Nat.ne_zero_of_lt hi) hb (hammingEcc_flipBit hi)

/-- A single flipped bit is corrected if and only if it is one of the first byte. -/
theorem eccHammingDecode_flipBit_iff (henc : eccHammingEncode data = .ok ecc) (hi : i < len)
    (hb : b < 8) : eccHammingDecode (flipBit data i b) ecc = (.corrected, data) ↔ i = 0 := by
  have hecc : ecc = hammingEcc data := by
    rw [eccHammingEncode, if_neg (Nat.ne_zero_of_lt hi)] at henc
    exact (Except.ok.inj henc).symm
  rw [hecc, eccHammingDecode_flipBit hi hb, Prod.mk.injEq, flipBit_flipBit_eq_iff hi hb hb]
  tauto

/-- A bit of the first of two bytes is corrected. -/
theorem first_byte_corrected :
    eccHammingDecode (flipBit #v[0x5A, 0xC3] 0 6) (hammingEcc #v[0x5A, 0xC3]) =
      (.corrected, #v[0x5A, 0xC3]) :=
  (eccHammingDecode_flipBit_iff rfl (by decide) (by decide)).2 rfl

/-- A bit of the second of two bytes is flipped back in the first one. -/
theorem second_byte_miscorrected :
    ¬ ∀ (len : ℕ) (data : Vector UInt8 len) (ecc : UInt32) (i b : ℕ),
      eccHammingEncode data = .ok ecc → i < len → b < 8 →
        eccHammingDecode (flipBit data i b) ecc = (.corrected, data) := by
  intro hall
  have hdecode := hall 2 #v[0x5A, 0xC3] _ 1 0 rfl (by decide) (by decide)
  revert hdecode
  decide

end FtlFirmware
