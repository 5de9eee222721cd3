import FtlFirmware.Nvme.Touches

/-!
# Translating guest addresses

A back end answers for a guest address where the region that it is in has been mapped, and nothing
for one that is in no region that is mapped; and what it then accesses stays in that mapping
(`addresses_translated`). The exceptions are these.

* vfio-user rejects the addresses beyond 4 GiB, address zero, and one that looks as if it had not
  been set (`Vfio.Accepts`).
* A region whose end is no address is taken to be empty (`Region.Fits`).
* vhost-user searches as many places of its table as there are regions that are mapped. After a
  region that could not be mapped, it answers addresses that are not mapped, and misses regions that
  are (`not_addresses_translated`).
* No back end checks that a region goes on for as long as what it accesses (`RegionTable.Room`).
-/

namespace FtlFirmware

namespace Nvme

namespace RegionTable

variable (t : RegionTable)

/-- The memory of the guest as far as it is searched, given the bytes of the mappings. -/
def guest (mem : ℕ → Buffer) : Guest where
  regions := (List.range t.count).map t.regions
  mem i := (t.mappings i).elim (fun _ => 0) mem

/-- If the guest address is translated, the bytes accessed are in the mapping that the pointer is
    to. -/
def Inside (pointer : Option Pointer) (y : Touch) : Prop :=
  ∀ p, pointer = some p →
    ∃ x ∈ t.mapped, p.1 = some x.1 ∧ p.2 + y.offset + y.len ≤ x.2.size.toNat

/-- The first region that contains the guest address goes on for as long as what is accessed. -/
def Room (y : Touch) : Prop :=
  ∀ i < t.count, (t.regions i).contains y.gpa = true →
    (∀ j < i, (t.regions j).contains y.gpa = false) →
      y.gpa.toNat + y.offset + y.len ≤ (t.regions i).base.toNat + (t.regions i).size.toNat

variable {t} {gpa : UInt64} {y : Touch} {mem : ℕ → Buffer} {i : ℕ}

theorem find_eq_some : t.find gpa = some i ↔ i < t.count ∧ (t.regions i).contains gpa = true ∧
    ∀ j < i, (t.regions j).contains gpa = false := by
  rw [find, List.find?_range_eq_some, List.mem_range]
  simp only [Bool.not_eq_true']
  exact ⟨fun h => ⟨h.2.1, h.1, h.2.2⟩, fun h => ⟨h.2.1, h.1, h.2.2⟩⟩

/-- Searching the table is searching the memory of the guest. -/
theorem locate_guest : (t.guest mem).locate gpa =
    (t.find gpa).map fun i => (i, (gpa - (t.regions i).base).toNat) := by
  have hlen : ((List.range t.count).map t.regions).length = t.count := by
    rw [List.length_map, List.length_range]
  have hget : ∀ i, (h : i < ((List.range t.count).map t.regions).length) →
      ((List.range t.count).map t.regions)[i] = t.regions i := by
    intro i h
    rw [List.getElem_map, List.getElem_range]
  have hfind : (((List.range t.count).map t.regions).findIdx? fun r =>
      decide (r.base ≤ gpa ∧ gpa < r.base + r.size)) = t.find gpa := by
    cases hf : t.find gpa with
    | none =>
      rw [List.findIdx?_eq_none_iff]
      intro r hr
      obtain ⟨i, hi, rfl⟩ := List.mem_map.1 hr
      exact find_none.1 hf i (List.mem_range.1 hi)
    | some i =>
      obtain ⟨hi, hcontains, hfirst⟩ := find_eq_some.1 hf
      rw [List.findIdx?_eq_some_iff_getElem]
      refine ⟨by rwa [hlen], ?_, fun j hj => ?_⟩
      · rw [hget]
        exact hcontains
      · rw [hget]
        exact Bool.eq_false_iff.1 (hfirst j hj)
  rw [Guest.locate, show (t.guest mem).regions = (List.range t.count).map t.regions from rfl, hfind]
  cases hf : t.find gpa with
  | none => rfl
  | some i =>
    have hi := (find_some hf).1
    dsimp only
    rw [List.getD_eq_getElem?_getD, List.getElem?_eq_getElem (by rwa [hlen]), Option.getD_some,
      hget]
    rfl

/-- The pointer for a guest address. -/
theorem lookup_eq : t.lookup gpa =
    ((t.guest mem).locate gpa).bind fun h => Pointer.of (t.mappings h.1) h.2 := by
  rw [locate_guest, lookup]
  cases t.find gpa <;> rfl

/-- What is accessed is in the mapping if and only if the region goes on for as long. -/
theorem Valid.inside_iff (h : t.Valid) : t.Inside (t.lookup y.gpa) y ↔ t.Room y := by
  cases hfind : t.find y.gpa with
  | none =>
    have hlookup : t.lookup y.gpa = none := by rw [lookup, hfind, Option.bind_none]
    rw [hlookup]
    refine ⟨fun _ i hi hcontains _ => ?_, fun _ p hp => absurd hp (by simp)⟩
    rw [find_none.1 hfind i hi] at hcontains
    cases hcontains
  | some i =>
    obtain ⟨hi, hcontains, hfirst⟩ := find_eq_some.1 hfind
    obtain ⟨x, hx, hm, hr, hholds, hlookup⟩ := h.lookup_some hfind
    rw [hlookup]
    refine ⟨fun hinside j hj hcontains' hfirst' => ?_, fun hroom p hp => ?_⟩
    · -- there is only one first region
      have hj' := find_eq_some.2 ⟨hj, hcontains', hfirst'⟩
      rw [hfind] at hj'
      cases hj'
      obtain ⟨z, hz, hnum, hle⟩ := hinside _ rfl
      have hxz := h.unique hx hz (Option.some.inj hnum)
      subst hxz
      have hbase := hholds.1
      rw [hr]
      dsimp only at hle
      omega
    · cases hp
      refine ⟨x, hx, rfl, ?_⟩
      have hle := hroom i hi hcontains hfirst
      have hbase := hholds.1
      rw [hr] at hle
      dsimp only
      omega

end RegionTable

/-! ## The back ends -/

namespace Vfio

variable {t : RegionTable} {gpa : UInt64} {y : Touch} {mem : ℕ → Buffer}

/-- The transfers translate like the table. -/
theorem translate_eq : translate t gpa =
    (gpaToHva (t.guest mem) gpa).bind fun h => Pointer.of (t.mappings h.1) h.2 := by
  rw [translate, gpaToHva]
  split_ifs
  · rfl
  · exact RegionTable.lookup_eq

/-- What is found is right if and only if a guest address in a region that is mapped is one that is
    accepted, in a region whose end is an address. -/
theorem right_iff (h : t.Valid) : t.Right gpa (translate t gpa) ↔ ∀ x ∈ t.mapped,
    x.2.Holds gpa → Accepts gpa ∧ ∃ y ∈ t.mapped, y.2.Holds gpa ∧ y.2.Fits := by
  rw [translate]
  by_cases haccepts : Accepts gpa
  · rw [if_neg haccepts, h.right_iff]
    exact ⟨fun hfits x hx hholds => ⟨haccepts, hfits x hx hholds⟩,
      fun hfits x hx hholds => (hfits x hx hholds).2⟩
  · rw [if_pos (not_not.1 haccepts)]
    exact ⟨fun hnone x hx hholds => absurd hholds (hnone x hx),
      fun hfits x hx hholds => haccepts (hfits x hx hholds).1⟩

/-- What is accessed is in the mapping if and only if the region goes on for as long. -/
theorem inside_iff (h : t.Valid) :
    t.Inside (translate t y.gpa) y ↔ (Accepts y.gpa → t.Room y) := by
  rw [translate]
  by_cases haccepts : Accepts y.gpa
  · rw [if_neg haccepts, h.inside_iff]
    exact ⟨fun hroom _ => hroom, fun hroom => hroom haccepts⟩
  · rw [if_pos (not_not.1 haccepts)]
    exact ⟨fun _ hacc => absurd hacc haccepts, fun _ _ hp => absurd hp (by simp)⟩

end Vfio

/-! ## Gaps -/

section

variable {α : Type} {p : α → Bool}

/-- There are no more entries of a kind than places they are in. -/
theorem countP_le_of_lt {l : List α} {n : ℕ} (h : ∀ j x, l[j]? = some x → p x = true → j < n) :
    l.countP p ≤ n := by
  induction l generalizing n with
  | nil => exact Nat.zero_le n
  | cons x l ih =>
    have hrest := ih (n := n - 1) fun j y hy hp => by
      have := h (j + 1) y hy hp
      omega
    rw [List.countP_cons]
    by_cases hx : p x = true
    · have := h 0 x rfl hx
      rw [if_pos hx]
      omega
    · rw [if_neg hx]
      omega

/-- If the entries of a kind are in as many of the first places, there is no other entry before one
    of them. -/
theorem pairwise_of_lt_countP {l : List α}
    (h : ∀ j x, l[j]? = some x → p x = true → j < l.countP p) :
    l.Pairwise fun x y => p y = true → p x = true := by
  induction l with
  | nil => exact List.Pairwise.nil
  | cons x l ih =>
    rw [List.pairwise_cons]
    by_cases hx : p x = true
    · refine ⟨fun _ _ _ => hx, ih fun j y hy hp => ?_⟩
      have := h (j + 1) y hy hp
      rw [List.countP_cons, if_pos hx] at this
      omega
    · have hlt : ∀ j y, l[j]? = some y → p y = true → j < l.countP p - 1 := fun j y hy hp => by
        have := h (j + 1) y hy hp
        rw [List.countP_cons, if_neg hx] at this
        omega
      -- there is one place less than entries, so that there are none
      have hzero : l.countP p = 0 := by
        have := countP_le_of_lt hlt
        omega
      refine ⟨fun y hy hp => absurd hp (List.countP_eq_zero.1 hzero y hy), ih fun j y hy hp => ?_⟩
      have := hlt j y hy hp
      omega

end

namespace Vhost

variable {t : RegionTable} {gpa : UInt64} {l : List (Region × Bool)} {i j : ℕ} {r : Region}

/-- As many regions are searched as have been mapped. -/
theorem count_mapRegions : (mapRegions i l t).count = t.count + l.countP Prod.snd := by
  induction l generalizing i t with
  | nil => rfl
  | cons x l ih =>
    obtain ⟨r, mmap⟩ := x
    rw [mapRegions, ih, List.countP_cons]
    cases mmap
    · rfl
    · rw [if_pos rfl, if_pos rfl, RegionTable.enter, Nat.add_right_comm, Nat.add_assoc]

/-- The places before the first one keep their regions. -/
theorem regions_mapRegions_of_lt (hj : j < i) :
    (mapRegions i l t).regions j = t.regions j := by
  induction l generalizing i t with
  | nil => rfl
  | cons x l ih =>
    obtain ⟨r, mmap⟩ := x
    rw [mapRegions, ih (Nat.lt_succ_of_lt hj)]
    cases mmap
    · exact Function.update_of_ne (Nat.ne_of_lt hj) _ _
    · exact Function.update_of_ne (Nat.ne_of_lt hj) _ _

/-- Each region is put in its place, whether it can be mapped or not. -/
theorem regions_mapRegions {x : Region × Bool} (hx : l[j]? = some x) :
    (mapRegions i l t).regions (i + j) = x.1 := by
  induction l generalizing i j t with
  | nil => cases hx
  | cons y l ih =>
    obtain ⟨r, mmap⟩ := y
    rw [mapRegions]
    cases j with
    | zero =>
      cases hx
      show (mapRegions (i + 1) l _).regions i = r
      rw [regions_mapRegions_of_lt (Nat.lt_add_one i)]
      cases mmap
      · exact Function.update_self _ _ _
      · exact Function.update_self _ _ _
    | succ j =>
      rw [show i + (j + 1) = i + 1 + j by omega]
      exact ih hx

/-- What is mapped stays so. -/
theorem mapped_mapRegions {x : ℕ × Region} (hx : x ∈ t.mapped) :
    x ∈ (mapRegions i l t).mapped := by
  induction l generalizing i t with
  | nil => exact hx
  | cons y l ih =>
    obtain ⟨r, mmap⟩ := y
    rw [mapRegions]
    cases mmap
    · exact ih hx
    · exact ih (List.mem_append_left _ hx)

/-- The regions that can be mapped are. -/
theorem exists_mapped (hr : (r, true) ∈ l) : ∃ m, (m, r) ∈ (mapRegions i l t).mapped := by
  induction l generalizing i t with
  | nil => cases hr
  | cons y l ih =>
    rw [mapRegions]
    rcases List.mem_cons.1 hr with rfl | hr'
    · exact ⟨t.fresh, mapped_mapRegions (List.mem_append_right _ (List.mem_singleton_self _))⟩
    · exact ih hr'

/-- Only regions that can be mapped are. -/
theorem mem_mapRegions {x : ℕ × Region} (hx : x ∈ (mapRegions i l t).mapped) :
    x ∈ t.mapped ∨ (x.2, true) ∈ l := by
  induction l generalizing i t with
  | nil => exact Or.inl hx
  | cons y l ih =>
    obtain ⟨r, mmap⟩ := y
    rw [mapRegions] at hx
    rcases ih hx with hold | hnew
    · cases mmap
      · exact Or.inl hold
      · rcases List.mem_append.1 hold with hold | hnew
        · exact Or.inl hold
        · rw [List.mem_singleton.1 hnew]
          exact Or.inr List.mem_cons_self
    · exact Or.inr (List.mem_cons_of_mem _ hnew)

/-- The regions mapped are among those given. -/
theorem of_mem_mapped {x : ℕ × Region} (hx : x ∈ (setMemTable t l).mapped) : (x.2, true) ∈ l := by
  rcases mem_mapRegions hx with hold | hnew
  · exact absurd hold List.not_mem_nil
  · exact List.mem_of_mem_take hnew

/-- The regions that are given do not overlap, and those that can be mapped are not empty, and have
    an address as their end. -/
structure Proper (l : List (Region × Bool)) : Prop where
  apart : (l.take maxRegions).Pairwise fun x y => ∀ gpa, ¬(x.1.Holds gpa ∧ y.1.Holds gpa)
  pos : ∀ x ∈ l, x.2 = true → 0 < x.1.size.toNat
  fits : ∀ x ∈ l, x.2 = true → x.1.Fits

/-- After a region that cannot be mapped, regions that are mapped are missed. -/
theorem Proper.unbroken (h : Proper l)
    (hright : ∀ gpa, (setMemTable t l).Right gpa (translate (setMemTable t l) gpa)) :
    MemCall.Unbroken (.setMemTable l) := by
  refine pairwise_of_lt_countP fun k x hx hmmap => Nat.lt_of_not_le fun hle => ?_
  obtain ⟨r, mmap⟩ := x
  obtain rfl : mmap = true := hmmap
  have hmem := List.mem_of_getElem? hx
  have hpos := h.pos _ (List.mem_of_mem_take hmem) rfl
  have hcount : (setMemTable t l).count = (l.take maxRegions).countP Prod.snd := by
    rw [setMemTable, count_mapRegions, RegionTable.clear, Nat.zero_add]
  have hholds : r.Holds r.base := ⟨Nat.le_refl _, Nat.lt_add_of_pos_right hpos⟩
  -- none of the regions searched contains the base of the region
  have hfind : (setMemTable t l).find r.base = none := by
    rw [RegionTable.find_none]
    intro j hj
    rw [hcount] at hj
    have hlt : j < (l.take maxRegions).length := Nat.lt_of_lt_of_le hj List.countP_le_length
    have hj' := List.getElem?_eq_getElem hlt
    have hregion := @regions_mapRegions t.clear (l.take maxRegions) 0 j _ hj'
    rw [Nat.zero_add] at hregion
    rw [setMemTable, hregion]
    refine Bool.eq_false_iff.2 fun hcontains => ?_
    have hpair := List.pairwise_iff_getElem.1 h.apart j k hlt
      (List.getElem?_eq_some_iff.1 hx).1 (Nat.lt_of_lt_of_le hj hle) r.base
    rw [(List.getElem?_eq_some_iff.1 hx).2] at hpair
    exact hpair ⟨(Region.contains_iff.1 hcontains).1, hholds⟩
  have hnone := hright r.base
  rw [translate, RegionTable.lookup, hfind, Option.bind_none] at hnone
  obtain ⟨m, hm⟩ := @exists_mapped t.clear (l.take maxRegions) 0 r hmem
  exact hnone _ hm hholds

end Vhost

/-! ## Both back ends -/

/-- After any messages, a back end finds the right pointer for a guest address, and what it accesses
    stays in the mapping, as far as the regions and the addresses allow; with vhost-user, only if no
    region has been mapped after one that could not be. The guest with the table is translated like
    the table, and the accesses to it are those listed. -/
theorem addresses_translated (t : RegionTable) :
    (∀ tr, dmaMachine.Run Machine.anyCall RegionTable.init tr t →
      (∀ gpa, t.Right gpa (Vfio.translate t gpa) ↔ ∀ x ∈ t.mapped, x.2.Holds gpa →
        Vfio.Accepts gpa ∧ ∃ y ∈ t.mapped, y.2.Holds gpa ∧ y.2.Fits) ∧
      ∀ y, t.Inside (Vfio.translate t y.gpa) y ↔ (Vfio.Accepts y.gpa → t.Room y)) ∧
    (∀ v : Vfio, ∀ mem, v.guest = t.guest mem →
      (∀ gpa, Vfio.translate t gpa =
        (Vfio.gpaToHva v.guest gpa).bind fun h => Pointer.of (t.mappings h.1) h.2) ∧
      Vfio.backend.TransfersListed v.guest ∧ v.QueuesListed) ∧
    (∀ tr, memMachine.Run Machine.anyCall RegionTable.init tr t →
      (∀ c ∈ tr.getLast?, c.1.Unbroken) →
      (∀ gpa, t.Right gpa (Vhost.translate t gpa) ↔ ∀ x ∈ t.mapped, x.2.Holds gpa →
        ∃ y ∈ t.mapped, y.2.Holds gpa ∧ y.2.Fits) ∧
      ∀ y, t.Inside (Vhost.translate t y.gpa) y ↔ t.Room y) ∧
    (∀ s : VringHost, ∀ mem, s.guest = t.guest mem →
      (∀ gpa, Vhost.translate t gpa =
        (Vhost.gpaToHva s.guest gpa).bind fun h => Pointer.of (t.mappings h.1) h.2) ∧
      Vhost.backend.TransfersListed s.guest ∧
      ∀ i rings, s.findRings (s.vrings i) = some rings → s.ServesListed i rings) ∧
    ∀ l, Vhost.Proper l →
      ((∀ gpa, (Vhost.setMemTable t l).Right gpa (Vhost.translate (Vhost.setMemTable t l) gpa)) ↔
        MemCall.Unbroken (.setMemTable l)) := by
  refine ⟨fun tr hrun => ?_, fun v mem hguest => ?_, fun tr hrun hlast => ?_,
    fun s mem hguest => ?_, fun l hproper => ?_⟩
  · have hvalid := Vfio.run_valid hrun
    exact ⟨fun gpa => Vfio.right_iff hvalid, fun y => Vfio.inside_iff hvalid⟩
  · exact ⟨fun gpa => hguest ▸ Vfio.translate_eq, Vfio.regular.transfersListed _, v.queuesListed⟩
  · have hvalid := Vhost.run_valid hrun hlast
    exact ⟨fun gpa => hvalid.right_iff, fun y => hvalid.inside_iff⟩
  · exact ⟨fun gpa => hguest ▸ RegionTable.lookup_eq, Vhost.regular.transfersListed _,
      fun i rings => VringHost.servesListed⟩
  · refine ⟨hproper.unbroken, fun hunbroken gpa => ?_⟩
    have hvalid := Vhost.setMemTable_valid (t := t) hunbroken
    refine hvalid.right_iff.2 fun x hx hholds => ⟨x, hx, hholds, ?_⟩
    exact hproper.fits _ (Vhost.of_mem_mapped hx) rfl

/-- A region of two pages. -/
private def twoPages : Region := ⟨0x1000, 0x2000⟩

/-- An address in the region, and the first entry of a queue in it. -/
theorem addresses_translated_page :
    ((Vfio.dmaMap .init twoPages true).2.Right 0x1800
      (Vfio.translate (Vfio.dmaMap .init twoPages true).2 0x1800) ∧
      (Vfio.dmaMap .init twoPages true).2.Inside
        (Vfio.translate (Vfio.dmaMap .init twoPages true).2 0x1000) ⟨0x1000, 0, commandSize⟩) ∧
    (Vhost.setMemTable .init [(twoPages, true)]).Right 0x1800
      (Vhost.translate (Vhost.setMemTable .init [(twoPages, true)]) 0x1800) ∧
    MemCall.Unbroken (.setMemTable [(twoPages, true)]) := by
  have hproper : Vhost.Proper [(twoPages, true)] := by
    refine ⟨List.pairwise_singleton _ _, fun x hx _ => ?_, fun x hx _ => ?_⟩
    · rw [List.mem_singleton.1 hx]
      decide
    · rw [List.mem_singleton.1 hx]
      decide
  have hfits : ∀ x ∈ [(0, twoPages)], x.2.Holds 0x1800 →
      ∃ y ∈ [(0, twoPages)], y.2.Holds 0x1800 ∧ y.2.Fits := by
    intro x _ _
    exact ⟨(0, twoPages), List.mem_singleton_self _, by decide, by decide⟩
  have hdma : dmaMachine.Run Machine.anyCall .init [(.dmaMap twoPages true, ())]
      (Vfio.dmaMap .init twoPages true).2 := .single trivial rfl
  have hmem : memMachine.Run Machine.anyCall .init [(.setMemTable [(twoPages, true)], ())]
      (Vhost.setMemTable .init [(twoPages, true)]) := .single trivial rfl
  have hunbroken : MemCall.Unbroken (.setMemTable [(twoPages, true)]) :=
    List.pairwise_singleton _ _
  have hlast : ∀ c ∈ [((.setMemTable [(twoPages, true)] : MemCall), ())].getLast?,
      c.1.Unbroken := by
    rintro c ⟨⟩
    exact hunbroken
  obtain ⟨hright, hinside⟩ := (addresses_translated _).1 _ hdma
  have htable := (addresses_translated _).2.2.1 _ hmem hlast
  refine ⟨⟨(hright 0x1800).2 fun x hx hholds => ⟨by decide, hfits x hx hholds⟩, ?_⟩,
    (htable.1 0x1800).2 hfits, ((addresses_translated .init).2.2.2.2 _ hproper).1 fun gpa => ?_⟩
  · -- the queue begins with the region
    refine (hinside ⟨0x1000, 0, commandSize⟩).2 fun _ i hi _ _ => ?_
    obtain rfl : i = 0 := Nat.lt_one_iff.1 hi
    decide
  · refine (htable.1 gpa).2 fun x hx hholds => ?_
    obtain rfl := List.mem_singleton.1 hx
    exact ⟨_, hx, hholds, by decide⟩

/-- vhost-user answers an address of a region that could not be mapped, if another one has been
    mapped after it. -/
theorem not_addresses_translated : ¬ ∀ tr t,
    memMachine.Run Machine.anyCall RegionTable.init tr t →
      ∀ gpa, t.Right gpa (Vhost.translate t gpa) := by
  intro hall
  have hmem : memMachine.Run Machine.anyCall .init
      [(.setMemTable [(⟨0x8000, 0x1000⟩, false), (twoPages, true)], ())]
      (Vhost.setMemTable .init [(⟨0x8000, 0x1000⟩, false), (twoPages, true)]) :=
    .single trivial rfl
  have hstray : Vhost.translate
      (Vhost.setMemTable .init [(⟨0x8000, 0x1000⟩, false), (twoPages, true)]) 0x8800 =
        some (none, 0x800) := by decide
  have hright := hall _ _ hmem 0x8800
  rw [hstray] at hright
  obtain ⟨_, _, _, heq⟩ := hright
  exact Option.some_ne_none _ (congrArg Prod.fst heq).symm

end Nvme

end FtlFirmware
