import FtlFirmware.Raid.Array

/-!
# The address map of a striped array

At level 0, `raid0_map` deals the logical pages out to the members (`Striping.deal`), and the
capacity is the one of a member times the number of members.

* `Striped`: every logical page has a page of its own on a member that is present, and writes of
  different pages do not meet;
* `striped_iff`: so it is if all members are present, and the stripes fit the members. The
  capacity counts neither the members that are missing nor the pages beyond the last full stripe,
  and no stripe size is refused.
-/

namespace FtlFirmware

namespace Raid

/-- The address map of a striped array does what it is for. -/
structure Striped (r : Raid) : Prop where
  /-- Every logical page has a place on a member that is present. -/
  mapped : ∀ lpn < r.logicalCapacity, ∃ i m, r.raid0Map lpn = some (i, m) ∧
    r.present i = true ∧ m < (r.members i).totalLpns
  /-- No two logical pages share a place. -/
  injective : ∀ lpn < r.logicalCapacity, ∀ lpn' < r.logicalCapacity,
    r.raid0Map lpn = r.raid0Map lpn' → lpn = lpn'
  /-- Every logical page can be written, and keeps what is written. -/
  written : ∀ lpn < r.logicalCapacity, ∀ buf, ∃ r', r.write lpn buf = some (.ok, r') ∧
    (∀ b, r'.read lpn b = some (.ok, buf)) ∧
    ∀ lpn' < r.logicalCapacity, lpn' ≠ lpn → ∀ b, r'.read lpn' b = r.read lpn' b

variable {r : Raid} {lpn : ℕ}

/-- The map deals pages out, where it is defined. -/
theorem raid0Map_eq (hs : 0 < r.config.stripeSize) (hn : 0 < r.config.memberCount) (lpn : ℕ) :
    r.raid0Map lpn = some (Striping.deal r.config.stripeSize r.config.memberCount lpn) := by
  rw [raid0Map, if_neg (not_or.2 ⟨hs.ne', hn.ne'⟩)]
  rfl

/-- Without stripes, it is not. -/
theorem raid0Map_zero (hs : r.config.stripeSize = 0) (lpn : ℕ) : r.raid0Map lpn = none := by
  rw [raid0Map, if_pos (Or.inl hs)]

namespace Sound

/-- A page of a striped array is read from its place. -/
theorem read_level0 (h : r.Sound) (hl : r.config.level = .level0) (hlpn : lpn < r.logicalCapacity)
    {p : ℕ × ℕ} (hmap : r.raid0Map lpn = some p) (hp : r.present p.1 = true)
    (hlt : p.2 < memberLpns) (buf : PageData) :
    r.read lpn buf = (r.page p.1 p.2).map fun d => (.ok, d) := by
  obtain ⟨d, hd, hread⟩ := h.memberRead hp hlt buf
  rw [read, if_neg (by simp [h.initialized]), if_neg (Nat.not_le_of_lt hlpn), hl, hd]
  change (r.raid0Map lpn).bind _ = _
  rw [hmap]
  exact hread

/-- A page of a striped array is written in its place. -/
theorem write_level0 (h : r.Sound) (hl : r.config.level = .level0)
    (hlpn : lpn < r.logicalCapacity) {p : ℕ × ℕ} (hmap : r.raid0Map lpn = some p)
    (hp : r.present p.1 = true) (hlt : p.2 < memberLpns) (buf : PageData) :
    r.write lpn buf = some (.ok, r.setPage p.1 p.2 buf) := by
  rw [Raid.write, if_neg (by simp [h.initialized]), if_neg (Nat.not_le_of_lt hlpn), hl]
  change (r.raid0Map lpn).bind _ = _
  rw [hmap]
  exact h.memberWrite hp hlt buf

/-- A map into the members, without collisions, keeps the pages apart. -/
theorem striped (h : r.Sound) (hl : r.config.level = .level0)
    (hs : 0 < r.config.stripeSize)
    (hplace : ∀ lpn < r.logicalCapacity,
      r.present (Striping.deal r.config.stripeSize r.config.memberCount lpn).1 = true ∧
      (Striping.deal r.config.stripeSize r.config.memberCount lpn).2 < memberLpns) :
    r.Striped where
  mapped lpn hlpn := by
    obtain ⟨hp, hlt⟩ := hplace lpn hlpn
    exact ⟨_, _, raid0Map_eq hs h.accepted.count_pos lpn, hp, hlt.trans_eq (h.total hp).symm⟩
  injective lpn _ lpn' _ heq := by
    rw [raid0Map_eq hs h.accepted.count_pos, raid0Map_eq hs h.accepted.count_pos,
      Option.some_inj] at heq
    exact Striping.deal_injective hs heq
  written lpn hlpn buf := by
    have hmap := raid0Map_eq hs h.accepted.count_pos
    obtain ⟨hp, hlt⟩ := hplace lpn hlpn
    have hs' := h.setPage
      (Striping.deal r.config.stripeSize r.config.memberCount lpn).1
      (Striping.deal r.config.stripeSize r.config.memberCount lpn).2 buf
    -- The map is the same after the write, and so are the members present.
    refine ⟨_, h.write_level0 hl hlpn (hmap lpn) hp hlt buf, fun b => ?_, fun lpn' hlpn' hne b => ?_⟩
    · rw [hs'.read_level0 hl hlpn (hmap lpn) (by rwa [present_setPage]) hlt b,
        page_setPage_self h hp, Option.map_some]
    · obtain ⟨hp', hlt'⟩ := hplace lpn' hlpn'
      rw [hs'.read_level0 hl hlpn' (hmap lpn') (by rwa [present_setPage]) hlt' b,
        h.read_level0 hl hlpn' (hmap lpn') hp' hlt' b, page_setPage_of_ne]
      -- Different pages have different places.
      by_contra hsame
      rw [not_or, not_not, not_not] at hsame
      exact hne (Striping.deal_injective hs (Prod.ext hsame.1 hsame.2))

end Sound

/-- **The address map of a striped array.** In every run of an array initialized at level 0: the
    address map is defined below the capacity, leads to pages of members that are present, no two
    of them to the same one, and every page can be written without a change to another one, if
    and only if the array has no member at all, or the stripes are not empty and fit the members
    (unless there is only one) and all members are present. -/
theorem striped_iff {c : RaidConfig} {r₀ : Raid}
    {tr : List (RaidCall × (RetCode × Option PageData))} (hlevel : c.level = .level0)
    (hinit : zeroed.init c = (.ok, r₀)) (hrun : machine.Run Machine.anyCall r₀ tr r) :
    r.Striped ↔ (∀ i, r.present i ≠ true) ∨
      (0 < c.stripeSize ∧ (c.memberCount = 1 ∨ c.stripeSize ∣ memberLpns) ∧
        ∀ i < c.memberCount, r.present i = true) := by
  obtain ⟨h, rfl⟩ := run_sound hinit hrun
  have hn := h.accepted.count_pos
  constructor
  · intro hstriped
    by_contra hnot
    obtain ⟨hsome, hnot⟩ := not_or.1 hnot
    obtain ⟨i, hi⟩ := not_forall.1 hsome
    have hcap : r.logicalCapacity = r.config.memberCount * memberLpns := by
      rw [h.capacity_of_present (not_not.1 hi), if_pos hlevel, Nat.mul_comm]
    -- The first page has a place, so that the stripes are not empty.
    have hs : 0 < r.config.stripeSize := by
      refine Nat.pos_of_ne_zero fun hzero => ?_
      obtain ⟨_, _, hmap, -⟩ := hstriped.mapped 0 (by rw [hcap]; exact Nat.mul_pos hn (by decide))
      rw [raid0Map_zero hzero] at hmap
      exact Option.some_ne_none _ hmap.symm
    have hplace : ∀ lpn < r.logicalCapacity,
        r.present (Striping.deal r.config.stripeSize r.config.memberCount lpn).1 = true ∧
        (Striping.deal r.config.stripeSize r.config.memberCount lpn).2 < memberLpns := by
      intro lpn hlpn
      obtain ⟨j, m, hmap, hp, hlt⟩ := hstriped.mapped lpn hlpn
      rw [raid0Map_eq hs hn, Option.some_inj] at hmap
      rw [h.total hp] at hlt
      rw [hmap]
      exact ⟨hp, hlt⟩
    -- Stripes that do not fit would leave a page without a place.
    have hfit : r.config.memberCount = 1 ∨ r.config.stripeSize ∣ memberLpns := by
      by_contra hfit
      obtain ⟨hone, hdvd⟩ := not_or.1 hfit
      obtain ⟨lpn, hlpn, hlast⟩ := Striping.exists_deal_eq hs
        (Nat.lt_of_le_of_ne hn (Ne.symm hone)) hdvd
      exact absurd hlast (hplace lpn (by rwa [hcap])).2.ne
    -- The first page of stripe `i` is on member `i`.
    refine hnot ⟨hs, hfit, fun i hi => ?_⟩
    have hlpn : i * r.config.stripeSize < r.logicalCapacity := by
      rw [hcap]
      rcases hfit with hone | hdvd
      · rw [hone, Nat.lt_one_iff] at hi
        rw [hi, Nat.zero_mul]
        exact Nat.mul_pos hn (by decide)
      · calc i * r.config.stripeSize ≤ i * memberLpns :=
              Nat.mul_le_mul_left i (Nat.le_of_dvd (by decide) hdvd)
          _ < r.config.memberCount * memberLpns := Nat.mul_lt_mul_of_pos_right hi (by decide)
    have hi' := (hplace _ hlpn).1
    rwa [Striping.deal_mul hs hi] at hi'
  · rintro (hnone | ⟨hs, hfit, hall⟩)
    · -- Without members, there is no page.
      have hcap := h.capacity_of_absent hnone
      constructor <;> intro lpn hlpn <;> exact absurd (hcap ▸ hlpn) (Nat.not_lt_zero lpn)
    · refine h.striped hlevel hs fun lpn hlpn => ?_
      have hcap : r.logicalCapacity = r.config.memberCount * memberLpns := by
        rw [h.capacity_of_present (hall 0 hn), if_pos hlevel, Nat.mul_comm]
      exact ⟨hall _ (Striping.deal_fst_lt hn lpn), Striping.deal_lt hs hfit (by rwa [← hcap])⟩

/-- An array of two members with stripes of `s` pages. -/
def pair (s : ℕ) : Raid :=
  (((zeroed.init ⟨.level0, 2, s⟩).2.addMember 0 true).2.addMember 1 true).2

/-- Both members are added in a run. -/
theorem pair_run (s : ℕ) : machine.Run Machine.anyCall (zeroed.init ⟨.level0, 2, s⟩).2
    [(.addMember 0 true, (.ok, none)), (.addMember 1 true, (.ok, none))] (pair s) :=
  .snoc (.snoc .nil trivial (show _ = some _ from rfl)) trivial (show _ = some _ from rfl)

/-- Two members with stripes of four pages. -/
theorem striped_iff_pair : (pair 4).Striped := by
  refine (striped_iff (c := ⟨.level0, 2, 4⟩) rfl rfl (pair_run 4)).2
    (Or.inr ⟨by decide, Or.inr ⟨256, rfl⟩, fun i hi => ?_⟩)
  have hi : i < 2 := hi
  obtain rfl | rfl : i = 0 ∨ i = 1 := by omega
  · rfl
  · rfl

/-- Two members with stripes of three pages: the last page of the array has no place. -/
theorem not_striped : ¬∀ (config : RaidConfig) (r₀ r : Raid)
    (tr : List (RaidCall × (RetCode × Option PageData))), config.level = .level0 →
    zeroed.init config = (.ok, r₀) → machine.Run Machine.anyCall r₀ tr r → r.Striped := by
  intro hall
  have h := hall ⟨.level0, 2, 3⟩ _ (pair 3) _ rfl rfl (pair_run 3)
  obtain ⟨i, m, hmap, -, hlt⟩ := h.mapped 2047 (by decide)
  cases hmap
  exact absurd hlt (by decide)

end Raid

end FtlFirmware
