import FtlFirmware.Lib.Crc
import Mathlib.Data.Nat.Prime.Basic
import Mathlib.Data.Nat.ModEq
import Mathlib.Dynamics.PeriodicPts.Defs
import Mathlib.Tactic.SplitIfs

/-!
# The errors that a CRC finds

A register whose polynomial has its highest bit never loses anything as it moves
(`shift_injective`). So two strings of bits that differ only within as many bits as the register has
lead to different registers (`foldl_feed_burst`), and a flipped bit changes the register in a way
that depends only on how many bits follow it (`register_flip`). Two flipped bits have the same
effect if and only if the register comes back to where it has been between them
(`shift_iterate_eq_iff`).

How long that takes is computed by squaring (`power`), as a register may be moved by as many bits as
another one has been moved (`mul`).
-/

namespace FtlFirmware

namespace Crc

variable {poly : UInt32}

/-! ## The register loses nothing -/

theorem shift_zero : shift poly 0 = 0 := by
  rw [shift]
  simp [mask]

theorem shift_iterate_zero (k : ℕ) : (shift poly)^[k] 0 = 0 :=
  Function.iterate_fixed shift_zero k

/-- Only an empty register moves to an empty one. -/
theorem eq_zero_of_shift (hpoly : poly.toNat.testBit 31 = true) {x : UInt32}
    (h : shift poly x = 0) : x = 0 := by
  rw [shift, UInt32.xor_eq_zero_iff] at h
  have hhalf : (x >>> 1).toNat = x.toNat / 2 := by
    rw [UInt32.toNat_shiftRight, Nat.shiftRight_eq_div_pow]
    rfl
  have hx := x.toNat_lt
  cases hbit : x.toNat.testBit 0 with
  | true =>
    -- the polynomial would not have its highest bit
    rw [hbit, mask, if_pos rfl] at h
    have hlt : poly.toNat < 2 ^ 31 := by
      rw [← h, hhalf]
      omega
    rw [Nat.testBit_lt_two_pow hlt] at hpoly
    exact absurd hpoly Bool.false_ne_true
  | false =>
    rw [hbit, mask, if_neg Bool.false_ne_true] at h
    rw [h] at hhalf
    rw [Nat.testBit_zero, decide_eq_false_iff_not] at hbit
    refine UInt32.toNat_inj.1 ?_
    have hzero : (0 : UInt32).toNat = 0 := rfl
    omega

theorem shift_injective (hpoly : poly.toNat.testBit 31 = true) :
    Function.Injective (shift poly) := by
  intro a b h
  refine UInt32.xor_eq_zero_iff.1 (eq_zero_of_shift hpoly ?_)
  rw [shift_xor, h, UInt32.xor_self]

/-! ## Bursts -/

/-- The word with the given bits, the lowest one first. -/
theorem exists_bits {bits : List Bool} (h : bits.length ≤ 32) :
    ∃ x : UInt32, x.toNat < 2 ^ bits.length ∧
      (List.range bits.length).map x.toNat.testBit = bits := by
  have hlt := Nat.ofBits_lt_two_pow fun i : Fin bits.length => bits[i]
  have hword : (UInt32.ofNat (Nat.ofBits fun i : Fin bits.length => bits[i])).toNat =
      Nat.ofBits fun i : Fin bits.length => bits[i] :=
    UInt32.toNat_ofNat_of_lt' (hlt.trans_le (Nat.pow_le_pow_right (by decide) h))
  refine ⟨_, hword ▸ hlt, List.ext_getElem (by simp) fun i h₁ h₂ => ?_⟩
  rw [List.getElem_map, List.getElem_range, hword, Nat.testBit_ofBits_lt _ _ h₂]
  rfl

/-- Bits that the register takes, as a move of the register with these bits in it. -/
theorem foldl_feed_eq (crc x : UInt32) {k : ℕ} (h : x.toNat < 2 ^ k) :
    ((List.range k).map x.toNat.testBit).foldl (feed poly) crc =
      (shift poly)^[k] (crc ^^^ x) := by
  have hadd := foldl_feed_xor poly ((List.range k).map x.toNat.testBit) x (crc ^^^ x)
  have hcancel : x ^^^ (crc ^^^ x) = crc := by
    rw [UInt32.xor_comm, UInt32.xor_assoc, UInt32.xor_self, UInt32.xor_zero]
  rw [foldl_feed_self, Nat.shiftRight_eq_div_pow, Nat.div_eq_of_lt h, hcancel, List.length_map,
    List.length_range] at hadd
  rw [hadd]
  exact UInt32.zero_xor

/-- Strings of bits that differ only within 32 bits lead to different registers. -/
theorem foldl_feed_burst (hpoly : poly.toNat.testBit 31 = true) {before after w w' : List Bool}
    (crc : UInt32) (hlen : w.length = w'.length) (hw : w.length ≤ 32) (hne : w ≠ w') :
    (before ++ w ++ after).foldl (feed poly) crc ≠
      (before ++ w' ++ after).foldl (feed poly) crc := by
  rw [List.foldl_append, List.foldl_append, List.foldl_append, List.foldl_append]
  generalize before.foldl (feed poly) crc = r
  have hinj (k : ℕ) : Function.Injective (shift poly)^[k] := (shift_injective hpoly).iterate k
  -- the registers after the burst are different
  have hburst : w.foldl (feed poly) r ≠ w'.foldl (feed poly) r := by
    obtain ⟨x, hx, hbits⟩ := exists_bits hw
    obtain ⟨x', hx', hbits'⟩ := exists_bits (hlen ▸ hw)
    rw [← hbits, ← hbits', foldl_feed_eq r x hx, foldl_feed_eq r x' hx', ← hlen]
    intro heq
    have hword : x = x' := (UInt32.xor_right_inj r).1 (hinj _ heq)
    refine hne ?_
    calc w = (List.range w.length).map x.toNat.testBit := hbits.symm
      _ = (List.range w'.length).map x'.toNat.testBit := by rw [hlen, hword]
      _ = w' := hbits'
  -- and so they stay
  generalize w.foldl (feed poly) r = s at hburst
  generalize w'.foldl (feed poly) r = s' at hburst
  intro heq
  have hadd := foldl_feed_xor poly after s (s ^^^ s')
  rw [← UInt32.xor_assoc, UInt32.xor_self, UInt32.zero_xor, ← heq] at hadd
  have hzero := UInt32.xor_right_inj (after.foldl (feed poly) s) |>.1
    ((UInt32.xor_zero).trans hadd)
  have hiterate : (shift poly)^[after.length] 0 = 0 := shift_iterate_zero _
  rw [← hiterate] at hzero
  exact hburst (UInt32.xor_eq_zero_iff.1 (hinj _ hzero.symm))

/-! ## Flipped bits -/

/-- A bit of a byte comes down to the lowest place. -/
theorem shift_iterate_bit {b : ℕ} (hb : b < 8) :
    (shift poly)^[b] ((1 : UInt8) <<< UInt8.ofNat b).toUInt32 = 1 := by
  refine UInt32.toNat_inj.1 (toNat_shift_iterate ?_)
  rw [UInt8.toNat_toUInt32]
  obtain rfl | rfl | rfl | rfl | rfl | rfl | rfl | rfl :
    b = 0 ∨ b = 1 ∨ b = 2 ∨ b = 3 ∨ b = 4 ∨ b = 5 ∨ b = 6 ∨ b = 7 := by omega
  all_goals rfl

/-- What a flipped bit changes of the register is that of a single bit, moved by the bits that
    follow. -/
theorem register_flip {data : List UInt8} {i b : ℕ} (hi : i < data.length) (hb : b < 8)
    (crc : UInt32) :
    register poly crc (data.set i (data[i] ^^^ ((1 : UInt8) <<< UInt8.ofNat b))) =
      register poly crc data ^^^ (shift poly)^[8 * data.length - (8 * i + b)] 1 := by
  have hcode : (data[i] ^^^ ((1 : UInt8) <<< UInt8.ofNat b)).toUInt32 =
      data[i].toUInt32 ^^^ ((1 : UInt8) <<< UInt8.ofNat b).toUInt32 := UInt8.toUInt32_xor ..
  have hsteps : 8 * data.length - (8 * i + b) + b = 8 * (data.length - i) := by omega
  rw [register_eq_checksum, register_eq_checksum,
    checksum_set (· ^^^ ·) (shift poly)^[8] _ (shift_iterate_xor 8) hi hcode]
  congr 1
  have hbit : (shift poly)^[b] ((1 : UInt8) <<< UInt8.ofNat b).toUInt32 = 1 :=
    shift_iterate_bit hb
  rw [← hbit, ← Function.iterate_add_apply, hsteps, Function.iterate_mul]

/-! ## How long it takes to come back -/

/-- The highest bit: the register before a single bit has moved all the way down. -/
abbrev top : UInt32 := 0x80000000

/-- The register that results from moving `v` by as many bits as `u` has been moved from the top. -/
def mul (poly u v : UInt32) : UInt32 :=
  (List.range 32).foldl
    (fun acc j => shift poly acc ^^^ if u.toNat.testBit j then v else 0) 0

/-- The top bit moved by as many bits as a number has, which is given by its bits, the highest one
    first. -/
def power (poly : UInt32) (bits : List Bool) : UInt32 :=
  bits.foldl (fun x bit =>
    if bit = true then shift poly (mul poly x x) else mul poly x x) top

/-- The number with the given bits, the highest one first. -/
def value (bits : List Bool) : ℕ := bits.foldl (fun n bit => 2 * n + bit.toNat) 0

theorem mul_shift (u v : UInt32) : mul poly u (shift poly v) = shift poly (mul poly u v) := by
  have hfold (l : List ℕ) (acc : UInt32) :
      l.foldl (fun acc j => shift poly acc ^^^ if u.toNat.testBit j then shift poly v else 0)
          (shift poly acc) =
        shift poly (l.foldl (fun acc j => shift poly acc ^^^ if u.toNat.testBit j then v else 0)
          acc) := by
    induction l generalizing acc with
    | nil => rfl
    | cons j l ih =>
      rw [List.foldl_cons, List.foldl_cons, ← ih, shift_xor, apply_ite (shift poly), shift_zero]
  have hmul := hfold (List.range 32) 0
  rw [shift_zero] at hmul
  exact hmul

/-- From the top, the bits of a register come one after another to where they are. -/
theorem mul_top (u : UInt32) : mul poly u top = u := by
  have hfold (k : ℕ) (hk : k ≤ 32) : ((List.range k).foldl
      (fun acc j => shift poly acc ^^^ if u.toNat.testBit j then top else 0) 0).toNat =
        u.toNat % 2 ^ k * 2 ^ (32 - k) := by
    induction k with
    | zero => rw [Nat.pow_zero, Nat.mod_one, Nat.zero_mul]; rfl
    | succ k ih =>
      have hpow : 2 ^ (32 - k) = 2 * 2 ^ (31 - k) := by
        rw [← Nat.pow_succ']
        congr 1
        omega
      have hacc := ih (Nat.le_of_succ_le hk)
      rw [hpow, Nat.mul_left_comm] at hacc
      have htop : (if u.toNat.testBit k then top else 0).toNat =
          if u.toNat.testBit k then 2 ^ 31 else 0 := by
        split_ifs <;> rfl
      have hplace : 32 - (k + 1) = 31 - k := by omega
      rw [List.range_succ, List.foldl_append, List.foldl_cons, List.foldl_nil, UInt32.toNat_xor,
        toNat_shift hacc, htop, hplace]
      -- the new bit is the highest one
      refine Nat.eq_of_testBit_eq fun i => ?_
      rw [Nat.testBit_xor, Nat.testBit_mul_two_pow, Nat.testBit_mul_two_pow,
        Nat.testBit_mod_two_pow, Nat.testBit_mod_two_pow]
      by_cases hi : i = 31
      · have hk' : i - (31 - k) = k := by omega
        have hone : (2 ^ 31).testBit 31 = true := by decide
        rw [hk', hi, decide_eq_false (Nat.lt_irrefl k), decide_eq_true (Nat.lt_succ_self k)]
        cases u.toNat.testBit k <;> simp [hone, -Nat.reducePow]
      · have hbit : (if u.toNat.testBit k = true then 2 ^ 31 else 0).testBit i = false := by
          split_ifs
          · rw [Nat.testBit_two_pow, decide_eq_false (Ne.symm hi)]
          · exact Nat.zero_testBit i
        have hlt : 31 - k ≤ i → (i - (31 - k) < k ↔ i - (31 - k) < k + 1) := by omega
        rw [hbit, Bool.xor_false]
        by_cases hle : 31 - k ≤ i
        · rw [decide_eq_decide.2 (hlt hle)]
        · rw [decide_eq_false hle, Bool.false_and, Bool.false_and]
  have hall := hfold 32 (Nat.le_refl 32)
  rw [Nat.mod_eq_of_lt u.toNat_lt, Nat.sub_self, Nat.pow_zero, Nat.mul_one] at hall
  exact UInt32.toNat_inj.1 hall

theorem mul_iterate (a b : ℕ) :
    mul poly ((shift poly)^[a] top) ((shift poly)^[b] top) = (shift poly)^[a + b] top := by
  induction b with
  | zero => exact mul_top _
  | succ b ih =>
    rw [Function.iterate_succ_apply', mul_shift, ih, ← Nat.add_assoc,
      Function.iterate_succ_apply']

theorem power_eq (bits : List Bool) : power poly bits = (shift poly)^[value bits] top := by
  have hfold (n : ℕ) : bits.foldl (fun x bit =>
      if bit = true then shift poly (mul poly x x) else mul poly x x) ((shift poly)^[n] top) =
        (shift poly)^[bits.foldl (fun n bit => 2 * n + bit.toNat) n] top := by
    induction bits generalizing n with
    | nil => rfl
    | cons bit bits ih =>
      rw [List.foldl_cons, List.foldl_cons, mul_iterate, ← Nat.two_mul]
      cases bit with
      | false => exact ih (2 * n)
      | true =>
        rw [if_pos rfl, ← Function.iterate_succ_apply' (shift poly)]
        exact ih (2 * n + 1)
  exact hfold 0

/-- The number of bits after which the register is back where it has been, if it is so after these
    bits, but not after the part of them that a prime leaves. -/
theorem minimalPeriod_top {n : ℕ} (hn : (shift poly)^[n] top = top)
    (hprime : ∀ p, p.Prime → p ∣ n → (shift poly)^[n / p] top ≠ top) :
    Function.minimalPeriod (shift poly) top = n := by
  obtain ⟨d, hd⟩ : Function.minimalPeriod (shift poly) top ∣ n :=
    Function.IsPeriodicPt.minimalPeriod_dvd hn
  suffices hd₁ : d = 1 by rw [hd, hd₁, Nat.mul_one]
  by_contra hne
  obtain ⟨p, hp, c, rfl⟩ := Nat.exists_prime_and_dvd hne
  have hdiv : n / p = Function.minimalPeriod (shift poly) top * c := by
    rw [hd, Nat.mul_left_comm, Nat.mul_div_cancel_left _ hp.pos]
  refine hprime p hp (hd ▸ (Dvd.intro c rfl).mul_left _) ?_
  rw [hdiv]
  exact (Function.isPeriodicPt_minimalPeriod _ _).mul_const c

/-- A single bit in the lowest place has been at the top before, and comes back as often. -/
theorem shift_iterate_one_iff (hpoly : poly.toNat.testBit 31 = true) {k : ℕ} :
    (shift poly)^[k] 1 = 1 ↔ Function.minimalPeriod (shift poly) top ∣ k := by
  have hdown : (shift poly)^[31] top = 1 := UInt32.toNat_inj.1 (toNat_shift_iterate rfl)
  rw [← hdown, ← Function.iterate_add_apply, Nat.add_comm, Function.iterate_add_apply,
    ((shift_injective hpoly).iterate 31).eq_iff]
  exact Function.isPeriodicPt_iff_minimalPeriod_dvd

/-- Two bits have the same effect on the register if and only if it comes back to where it has been
    between them. -/
theorem shift_iterate_eq_iff (hpoly : poly.toNat.testBit 31 = true) {p q n : ℕ} (hp : p ≤ n)
    (hq : q ≤ n) : (shift poly)^[n - p] 1 = (shift poly)^[n - q] 1 ↔
      p ≡ q [MOD Function.minimalPeriod (shift poly) top] := by
  wlog hpq : p ≤ q generalizing p q
  · rw [eq_comm, this hq hp (Nat.le_of_not_le hpq)]
    exact Nat.ModEq.comm
  have hsteps : n - p = (n - q) + (q - p) := by omega
  rw [Nat.modEq_iff_dvd' hpq, ← shift_iterate_one_iff hpoly, hsteps, Function.iterate_add_apply]
  exact ((shift_injective hpoly).iterate _).eq_iff

end Crc

end FtlFirmware
