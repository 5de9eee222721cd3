import Mathlib.Data.Nat.Basic
import Mathlib.Order.Basic

/-!
# Striping

Positions dealt out to `n` members in stripes of `s` positions (`deal`): the first stripe goes to
member `0`, the next one to member `1`, and so on around. `gather` is the way back.

* `gather_deal`, `deal_injective`: no two positions share a place;
* `deal_lt`: members of `c` places take `n * c` positions, if stripes fit `c` exactly (or there
  is only one member);
* `exists_deal_eq`: otherwise one of the `n * c` positions is dealt to the place `c`.
-/

namespace FtlFirmware

namespace Striping

variable {s n c x y : ℕ}

/-- The member and the place that the position `x` is dealt to. -/
def deal (s n x : ℕ) : ℕ × ℕ := (x / s % n, x / s / n * s + x % s)

/-- The position dealt to a member and a place. -/
def gather (s n : ℕ) (p : ℕ × ℕ) : ℕ := (p.2 / s * n + p.1) * s + p.2 % s

/-- The stripe of a place is the number of rounds before it. -/
theorem deal_snd_div (hs : 0 < s) (x : ℕ) : (deal s n x).2 / s = x / s / n := by
  have hx : x % s / s = 0 := Nat.div_eq_of_lt (Nat.mod_lt x hs)
  rw [deal, Nat.mul_comm, Nat.mul_add_div hs, hx, Nat.add_zero]

/-- A position keeps its offset in the stripe. -/
theorem deal_snd_mod (x : ℕ) : (deal s n x).2 % s = x % s := by
  rw [deal, Nat.mul_add_mod_self_right, Nat.mod_mod]

/-- Gathering takes dealing back. -/
theorem gather_deal (hs : 0 < s) (x : ℕ) : gather s n (deal s n x) = x := by
  rw [gather, deal_snd_div hs, deal_snd_mod]
  change (x / s / n * n + x / s % n) * s + x % s = x
  rw [Nat.div_add_mod' (x / s) n, Nat.div_add_mod']

/-- No two positions share a place. -/
theorem deal_injective (hs : 0 < s) (h : deal s n x = deal s n y) : x = y := by
  rw [← gather_deal hs x, h, gather_deal hs]

/-- Positions are dealt to the members. -/
theorem deal_fst_lt (hn : 0 < n) (x : ℕ) : (deal s n x).1 < n := Nat.mod_lt _ hn

/-- A single member gets every position in its place. -/
theorem deal_one (x : ℕ) : deal s 1 x = (0, x) := by
  rw [deal, Nat.mod_one, Nat.div_one, Nat.div_add_mod']

/-- The first position of the stripe `i` goes to member `i`. -/
theorem deal_mul {i : ℕ} (hs : 0 < s) (hi : i < n) : (deal s n (i * s)).1 = i := by
  rw [deal, Nat.mul_div_cancel i hs, Nat.mod_eq_of_lt hi]

/-- Members of `c` places have room for `n * c` positions, if the stripes fit. -/
theorem deal_lt (hs : 0 < s) (hfit : n = 1 ∨ s ∣ c) (hx : x < n * c) : (deal s n x).2 < c := by
  rcases hfit with rfl | ⟨k, rfl⟩
  · rw [deal_one]
    rwa [Nat.one_mul] at hx
  · -- There are `k` rounds, and a position of a round stays in its stripe.
    have hround : x / s / n < k := by
      rw [Nat.div_div_eq_div_mul, Nat.mul_comm s n]
      exact Nat.div_lt_of_lt_mul (by rwa [Nat.mul_assoc])
    calc (deal s n x).2 < x / s / n * s + s := Nat.add_lt_add_left (Nat.mod_lt x hs) _
      _ = (x / s / n + 1) * s := (Nat.succ_mul _ _).symm
      _ ≤ k * s := Nat.mul_le_mul_right s hround
      _ = s * k := Nat.mul_comm k s

/-- Stripes that do not fit: one of the `n * c` positions is dealt to the place `c`. -/
theorem exists_deal_eq (hs : 0 < s) (hn : 1 < n) (hfit : ¬s ∣ c) :
    ∃ x < n * c, (deal s n x).2 = c := by
  have hc : c / s * s + c % s = c := Nat.div_add_mod' c s
  have hpos : 0 < c % s := Nat.pos_of_ne_zero fun h => hfit (Nat.dvd_of_mod_eq_zero h)
  have hmod : c % s < s := Nat.mod_lt c hs
  -- The position of offset `c % s` in the first stripe of the last, partial round.
  have hdiv : (c / s * n * s + c % s) / s = c / s * n := by
    rw [Nat.mul_comm _ s, Nat.mul_add_div hs, Nat.div_eq_of_lt hmod, Nat.add_zero]
  refine ⟨c / s * n * s + c % s, ?_, ?_⟩
  · calc c / s * n * s + c % s < c / s * n * s + n * (c % s) :=
          Nat.add_lt_add_left ((Nat.lt_mul_iff_one_lt_left hpos).2 hn) _
      _ = n * (c / s * s + c % s) := by rw [Nat.mul_comm (c / s) n, Nat.mul_assoc, Nat.mul_add]
      _ = n * c := by rw [hc]
  · rw [deal, hdiv, Nat.mul_div_cancel _ (Nat.zero_lt_of_lt hn), Nat.mul_add_mod_self_right,
      Nat.mod_mod, hc]

end Striping

end FtlFirmware
