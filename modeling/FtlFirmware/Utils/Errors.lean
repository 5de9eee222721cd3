import FtlFirmware.Lib.CrcErrors
import FtlFirmware.Nand.Hamming
import FtlFirmware.Utils.Crc
import Mathlib.Tactic.NormNum.Prime

/-!
# The errors that the two CRCs find

A single bit comes back to its place in the register of the two CRCs after `2 ^ 32 - 1` bits and not
before (`crc32_period`): these are all the values that a register other than the empty one can have.

* `crc32_detects`: both CRCs notice everything that has happened to a buffer within 32 bits, and two
  flipped bits unless the number of bits between them is a multiple of `2 ^ 32 - 1`.
-/

namespace FtlFirmware

/-- The bits of a number of 32 bits, the highest one first. -/
private def bits32 (n : ℕ) : List Bool := ((List.range 32).map n.testBit).reverse

/-- The prime factors of the number of bits after which a bit comes back. -/
private theorem prime_dvd_period {p : ℕ} (hp : p.Prime) (h : p ∣ 2 ^ 32 - 1) :
    p = 3 ∨ p = 5 ∨ p = 17 ∨ p = 257 ∨ p = 65537 := by
  have hfactors : 2 ^ 32 - 1 = 3 * 5 * 17 * 257 * 65537 := rfl
  rw [hfactors, hp.dvd_mul, hp.dvd_mul, hp.dvd_mul, hp.dvd_mul] at h
  have hself {q : ℕ} (hq : q.Prime) (hdvd : p ∣ q) : p = q :=
    (Nat.prime_dvd_prime_iff_eq hp hq).1 hdvd
  obtain (((h | h) | h) | h) | h := h
  · exact Or.inl (hself (by norm_num) h)
  · exact Or.inr (Or.inl (hself (by norm_num) h))
  · exact Or.inr (Or.inr (Or.inl (hself (by norm_num) h)))
  · exact Or.inr (Or.inr (Or.inr (Or.inl (hself (by norm_num) h))))
  · exact Or.inr (Or.inr (Or.inr (Or.inr (hself (by norm_num) h))))

/-- Where the top bit has moved to after these bits, and after the part of them that a prime factor
    leaves. -/
private theorem crc32Powers : Crc.power crc32Poly (bits32 (2 ^ 32 - 1)) = Crc.top ∧
    ∀ p ∈ [3, 5, 17, 257, 65537],
      Crc.value (bits32 ((2 ^ 32 - 1) / p)) = (2 ^ 32 - 1) / p ∧
        Crc.power crc32Poly (bits32 ((2 ^ 32 - 1) / p)) ≠ Crc.top := by
  decide +kernel

/-- The register is back where it has been after `2 ^ 32 - 1` bits. -/
theorem crc32_period : Function.minimalPeriod (Crc.shift crc32Poly) Crc.top = 2 ^ 32 - 1 := by
  refine Crc.minimalPeriod_top ?_ fun p hp hdvd => ?_
  · have hvalue : Crc.value (bits32 (2 ^ 32 - 1)) = 2 ^ 32 - 1 := by decide +kernel
    rw [← hvalue, ← Crc.power_eq]
    exact crc32Powers.1
  · obtain ⟨hvalue, hpower⟩ := crc32Powers.2 p (by simpa using prime_dvd_period hp hdvd)
    rw [← hvalue, ← Crc.power_eq]
    exact hpower

variable {len : ℕ} {data data' : Vector UInt8 len} {i b j c : ℕ}

/-- The register after the bytes of a buffer. -/
def crc32Register (data : Vector UInt8 len) : UInt32 :=
  Crc.register crc32Poly 0xFFFFFFFF data.toList

theorem crc32Calculate_eq_register (data : Vector UInt8 len) :
    crc32Calculate data = crc32Register data ^^^ 0xFFFFFFFF := by
  rw [crc32Calculate_eq_foldl, foldl_crc32Step]
  rfl

theorem utilsCrc32_eq_register (data : Vector UInt8 len) :
    utilsCrc32 data = crc32Register data ^^^ 0xFFFFFFFF := by
  rw [utilsCrc32_eq_foldl, foldl_utilsCrc32Step]
  rfl

/-- Buffers have the same CRC if and only if they have the same register. -/
theorem crc32Calculate_inj :
    crc32Calculate data = crc32Calculate data' ↔ crc32Register data = crc32Register data' := by
  rw [crc32Calculate_eq_register, crc32Calculate_eq_register]
  exact UInt32.xor_left_inj _

theorem utilsCrc32_inj :
    utilsCrc32 data = utilsCrc32 data' ↔ crc32Register data = crc32Register data' := by
  rw [utilsCrc32_eq_register, utilsCrc32_eq_register]
  exact UInt32.xor_left_inj _

/-- A flipped bit of a buffer. -/
theorem crc32Register_flipBit (hi : i < len) (hb : b < 8) :
    crc32Register (flipBit data i b) =
      crc32Register data ^^^ (Crc.shift crc32Poly)^[8 * len - (8 * i + b)] 1 := by
  have hlen : i < data.toList.length := by rwa [Vector.length_toList]
  have hflip : Crc.register crc32Poly 0xFFFFFFFF _ = _ := Crc.register_flip hlen hb 0xFFFFFFFF
  rw [Vector.getElem_toList, Vector.length_toList] at hflip
  rw [crc32Register, toList_flipBit hi]
  exact hflip

/-- Two flipped bits are not noticed if and only if the register is back where it has been between
    them. -/
theorem crc32Register_flipBit_flipBit (hi : i < len) (hb : b < 8) (hj : j < len) (hc : c < 8) :
    crc32Register (flipBit (flipBit data i b) j c) = crc32Register data ↔
      8 * i + b ≡ 8 * j + c [MOD 2 ^ 32 - 1] := by
  rw [crc32Register_flipBit hj hc, crc32Register_flipBit hi hb, UInt32.xor_assoc, xor_eq_self_iff,
    UInt32.xor_eq_zero_iff, Crc.shift_iterate_eq_iff (by decide) (by omega) (by omega),
    crc32_period]

/-- A single flipped bit is noticed. -/
theorem crc32Register_flipBit_ne (hi : i < len) (hb : b < 8) :
    crc32Register (flipBit data i b) ≠ crc32Register data := by
  have hzero : (Crc.shift crc32Poly)^[8 * len - (8 * i + b)] 0 = 0 := Crc.shift_iterate_zero _
  rw [crc32Register_flipBit hi hb, Ne, xor_eq_self_iff]
  intro hone
  exact absurd ((Crc.shift_injective (by decide)).iterate _ (hone.trans hzero.symm)) (by decide)

/-- A change within 32 bits is noticed. -/
theorem crc32Register_burst {before after w w' : List Bool}
    (hdata : data.toList.flatMap Crc.bitsOf = before ++ w ++ after)
    (hdata' : data'.toList.flatMap Crc.bitsOf = before ++ w' ++ after) (hw : w.length ≤ 32)
    (hne : w ≠ w') : crc32Register data ≠ crc32Register data' := by
  have hbits (d : Vector UInt8 len) : (d.toList.flatMap Crc.bitsOf).length = 8 * len := by
    simp [Crc.bitsOf, List.length_flatMap, Nat.mul_comm]
  have hlen : w.length = w'.length := by
    have h := (congrArg List.length hdata).symm.trans ((hbits data).trans (hbits data').symm)
    rw [hdata'] at h
    simpa using h
  rw [crc32Register, crc32Register, Crc.register, Crc.register, hdata, hdata']
  exact Crc.foldl_feed_burst (by decide) _ hlen hw hne

/-- Both CRCs of a buffer change with every change of the buffer within 32 bits, and they do not
    change with two flips of a bit if and only if the number of bits from one to the other is a
    multiple of `2 ^ 32 - 1`. -/
theorem crc32_detects (data : Vector UInt8 len) :
    (∀ (data' : Vector UInt8 len) (before after w w' : List Bool),
      data.toList.flatMap Crc.bitsOf = before ++ w ++ after →
        data'.toList.flatMap Crc.bitsOf = before ++ w' ++ after → w.length ≤ 32 → w ≠ w' →
          crc32Calculate data ≠ crc32Calculate data' ∧ utilsCrc32 data ≠ utilsCrc32 data') ∧
      ∀ i b j c, i < len → b < 8 → j < len → c < 8 →
        (crc32Calculate (flipBit (flipBit data i b) j c) = crc32Calculate data ↔
            8 * i + b ≡ 8 * j + c [MOD 2 ^ 32 - 1]) ∧
          (utilsCrc32 (flipBit (flipBit data i b) j c) = utilsCrc32 data ↔
            8 * i + b ≡ 8 * j + c [MOD 2 ^ 32 - 1]) := by
  constructor
  · intro data' before after w w' hdata hdata' hw hne
    have hburst := crc32Register_burst hdata hdata' hw hne
    exact ⟨fun heq => hburst (crc32Calculate_inj.1 heq), fun heq => hburst (utilsCrc32_inj.1 heq)⟩
  · intro i b j c hi hb hj hc
    have hpair : crc32Register (flipBit (flipBit data i b) j c) = crc32Register data ↔ _ :=
      crc32Register_flipBit_flipBit hi hb hj hc
    exact ⟨crc32Calculate_inj.trans hpair, utilsCrc32_inj.trans hpair⟩

/-- A byte that has been replaced, and two bits that have been flipped. -/
theorem crc32_detects_bytes :
    crc32Calculate #v[0x46, 0x54, 0x4C] ≠ crc32Calculate #v[0x46, 0xAB, 0x4C] ∧
      utilsCrc32 (flipBit (flipBit #v[0x46, 0x54, 0x4C] 0 3) 2 5) ≠
        utilsCrc32 #v[0x46, 0x54, 0x4C] := by
  obtain ⟨hburst, hpair⟩ := crc32_detects #v[0x46, 0x54, 0x4C]
  constructor
  · exact (hburst #v[0x46, 0xAB, 0x4C] (Crc.bitsOf 0x46) (Crc.bitsOf 0x4C) (Crc.bitsOf 0x54)
      (Crc.bitsOf 0xAB) rfl rfl (by decide) (by decide)).1
  · intro heq
    exact absurd ((hpair 0 3 2 5 (by decide) (by decide) (by decide) (by decide)).2.1 heq)
      (by decide)

end FtlFirmware
