import FtlFirmware.Lib.Run
import FtlFirmware.Nvme.Guest

/-!
# The tables of the regions

The back ends keep the regions of the guest in a table, together with where they have mapped each of
them (`RegionTable`). With vfio-user, the guest gives and takes its regions one by one
(`dmaMap`, `dmaUnmap`), and the table has no gaps. With vhost-user, it gives all of them at a time
(`setMemTable`); a region that cannot be mapped leaves a gap, but the table is searched only as far
as there are regions that have been mapped.

A table is *valid* (`Valid`) if the regions searched are those that are mapped. Then the address of
the back end that is found for a guest address is the right one, as long as the end of the region
is not beyond the last address (`Valid.right_iff`).
-/

namespace FtlFirmware

namespace Nvme

/-! ## Regions -/

namespace Region

variable (r : Region) (gpa : UInt64)

/-- The guest address is in the region, as the back ends compute it. -/
def contains : Bool := decide (r.base ≤ gpa ∧ gpa < r.base + r.size)

/-- The guest address is in the region. -/
def Holds : Prop :=
  r.base.toNat ≤ gpa.toNat ∧ gpa.toNat < r.base.toNat + r.size.toNat

/-- The end of the region is an address. -/
def Fits : Prop := r.base.toNat + r.size.toNat < 2 ^ 64

instance : Decidable (r.Holds gpa) := inferInstanceAs (Decidable (_ ∧ _))

instance : Decidable r.Fits := inferInstanceAs (Decidable (_ < _))

variable {r gpa}

/-- Where the end of the region is no address, the region is taken to be empty. -/
theorem contains_iff : r.contains gpa = true ↔ r.Holds gpa ∧ r.Fits := by
  have hbase := r.base.toNat_lt
  have hsize := r.size.toNat_lt
  rw [contains, decide_eq_true_iff, UInt64.le_iff_toNat_le, UInt64.lt_iff_toNat_lt,
    UInt64.toNat_add, Holds, Fits]
  omega

end Region

/-! ## Tables -/

/-- An address of the back end: the number of the mapping, or none for the null pointer, and the
    offset from it. -/
abbrev Pointer := Option ℕ × ℕ

/-- The table of the regions: the number of those searched, and where each is mapped, if it is.
    Mappings have numbers. -/
structure RegionTable where
  count : ℕ
  regions : ℕ → Region
  mappings : ℕ → Option ℕ
  /-- The regions that the guest has given and that are mapped, with their mappings (ghost). -/
  mapped : List (ℕ × Region)
  /-- The number of the next mapping (ghost). -/
  fresh : ℕ

/-- The number of regions in a table (`VFIO_USER_MAX_DMA_REGIONS` and
    `VHOST_USER_MAX_MEM_REGIONS`). -/
abbrev maxRegions : ℕ := 16

/-- Adds an offset to a pointer. Only the null pointer itself is the answer that there is none. -/
def Pointer.of (mapping : Option ℕ) (offset : ℕ) : Option Pointer :=
  if mapping = none ∧ offset = 0 then none else some (mapping, offset)

namespace RegionTable

variable (t : RegionTable)

/-- The table of a back end that has been initialized. -/
def init : RegionTable := ⟨0, fun _ => ⟨0, 0⟩, fun _ => none, [], 0⟩

/-- The first region that contains a guest address. -/
def find (gpa : UInt64) : Option ℕ :=
  (List.range t.count).find? fun i => (t.regions i).contains gpa

/-- Looks up a guest address in the table. -/
def lookup (gpa : UInt64) : Option Pointer :=
  (t.find gpa).bind fun i => Pointer.of (t.mappings i) (gpa - (t.regions i).base).toNat

/-- The guest address is in a region that is mapped, and this is where; or it is in none, and there
    is no pointer. -/
def Right (gpa : UInt64) : Option Pointer → Prop
  | none => ∀ x ∈ t.mapped, ¬ x.2.Holds gpa
  | some p => ∃ x ∈ t.mapped, x.2.Holds gpa ∧ p = (some x.1, gpa.toNat - x.2.base.toNat)

/-! ### Changes -/

/-- A region has been mapped, and is put into the table. -/
def enter (i : ℕ) (r : Region) : RegionTable where
  count := t.count + 1
  regions := Function.update t.regions i r
  mappings := Function.update t.mappings i (some t.fresh)
  mapped := t.mapped ++ [(t.fresh, r)]
  fresh := t.fresh + 1

/-- The regions searched are unmapped. -/
def clear : RegionTable :=
  { t with count := 0, mappings := fun i => if i < t.count then none else t.mappings i, mapped := [] }

end RegionTable

/-! ## vfio-user -/

namespace Vfio

/-- The guest address is not one of those that the back end rejects, because they look like ones
    that have not been set. -/
def Accepts (gpa : UInt64) : Prop := ¬(gpa = 0 ∨ gpa = 0xCCCCCCCCCCCCCCCC ∨ gpa > 0xFFFFFFFF)

instance (gpa : UInt64) : Decidable (Accepts gpa) := inferInstanceAs (Decidable (¬_))

variable (t : RegionTable)

/-- Translates a guest address (`gpa_to_hva`). -/
def translate (gpa : UInt64) : Option Pointer :=
  if gpa = 0 ∨ gpa = 0xCCCCCCCCCCCCCCCC ∨ gpa > 0xFFFFFFFF then none else t.lookup gpa

/-- The guest gives a region (`handle_dma_map`). Whether it can be mapped is given. -/
def dmaMap (r : Region) (mmap : Bool) : Bool × RegionTable :=
  if t.count ≥ maxRegions then (false, t)
  else if !mmap then (false, t)
  else (true, t.enter t.count r)

/-- The guest takes a region (`handle_dma_unmap`). The last region takes its place. -/
def dmaUnmap (r : Region) : RegionTable :=
  match (List.range t.count).find? fun i => decide (t.regions i = r) with
  | none => t
  | some i =>
    -- The region is unmapped, and the last one takes its place.
    let mapped := t.mapped.filter fun x => decide (t.mappings i ≠ some x.1)
    let mappings := Function.update t.mappings i none
    let last := t.count - 1
    if i < last then
      { t with
        count := last
        regions := Function.update t.regions i (t.regions last)
        mappings := Function.update mappings i (mappings last)
        mapped := mapped }
    else { t with count := last, mappings := mappings, mapped := mapped }

end Vfio

/-- What the guest does by way of vfio-user, and the end of its connection. -/
inductive DmaCall
  | dmaMap (r : Region) (mmap : Bool)
  | dmaUnmap (r : Region)
  | closeConnection

/-- The table of the back end for vfio-user, as a machine. -/
def dmaMachine : Machine RegionTable DmaCall Unit where
  step
    | t, .dmaMap r mmap, _, t' => t' = (Vfio.dmaMap t r mmap).2
    | t, .dmaUnmap r, _, t' => t' = Vfio.dmaUnmap t r
    | t, .closeConnection, _, t' => t' = t.clear

/-! ## vhost-user -/

namespace Vhost

variable (t : RegionTable)

/-- Translates a guest address (`gpa_to_hva`). -/
def translate (gpa : UInt64) : Option Pointer := t.lookup gpa

/-- Puts regions into the table, from the place `i` on. Whether each can be mapped is given. -/
def mapRegions : ℕ → List (Region × Bool) → RegionTable → RegionTable
  | _, [], t => t
  | i, (r, mmap) :: l, t =>
    mapRegions (i + 1) l
      (if mmap then t.enter i r else { t with regions := Function.update t.regions i r })

/-- The guest gives all its regions (`handle_set_mem_table`). -/
def setMemTable (l : List (Region × Bool)) : RegionTable :=
  mapRegions 0 (l.take maxRegions) t.clear

end Vhost

/-- What the guest does by way of vhost-user, and the end of its connection. -/
inductive MemCall
  | setMemTable (l : List (Region × Bool))
  | closeConnection

/-- The table of the back end for vhost-user, as a machine. -/
def memMachine : Machine RegionTable MemCall Unit where
  step
    | t, .setMemTable l, _, t' => t' = Vhost.setMemTable t l
    | t, .closeConnection, _, t' => t' = t.clear

/-- None of the regions that are given is mapped after one that cannot be. -/
def MemCall.Unbroken : MemCall → Prop
  | .setMemTable l => (l.take maxRegions).Pairwise fun x y => y.2 = true → x.2 = true
  | .closeConnection => True

/-! ## Valid tables -/

namespace RegionTable

/-- The regions searched are those that are mapped. -/
structure Valid (t : RegionTable) : Prop where
  live : ∀ i < t.count, ∃ m, t.mappings i = some m ∧ (m, t.regions i) ∈ t.mapped
  found : ∀ x ∈ t.mapped, ∃ i < t.count, t.mappings i = some x.1 ∧ t.regions i = x.2
  inj : ∀ i < t.count, ∀ j < t.count, t.mappings i = t.mappings j → i = j
  fresh : ∀ x ∈ t.mapped, x.1 < t.fresh

variable {t t' : RegionTable} {gpa : UInt64} {r : Region} {i : ℕ}

theorem init_valid : init.Valid where
  live _ hi := absurd hi (Nat.not_lt_zero _)
  found _ hx := absurd hx List.not_mem_nil
  inj _ hi := absurd hi (Nat.not_lt_zero _)
  fresh _ hx := absurd hx List.not_mem_nil

theorem clear_valid (t : RegionTable) : t.clear.Valid where
  live _ hi := absurd hi (Nat.not_lt_zero _)
  found _ hx := absurd hx List.not_mem_nil
  inj _ hi := absurd hi (Nat.not_lt_zero _)
  fresh _ hx := absurd hx List.not_mem_nil

/-- A mapping is that of one region. -/
theorem Valid.unique (h : t.Valid) {x y : ℕ × Region} (hx : x ∈ t.mapped) (hy : y ∈ t.mapped)
    (heq : x.1 = y.1) : x = y := by
  obtain ⟨i, hi, hmi, hri⟩ := h.found x hx
  obtain ⟨j, hj, hmj, hrj⟩ := h.found y hy
  have hij := h.inj i hi j hj (by rw [hmi, hmj, heq])
  subst hij
  exact Prod.ext heq (hri.symm.trans hrj)

/-- A region put at the end of those searched. -/
theorem Valid.enter (h : t.Valid) (r : Region) : (t.enter t.count r).Valid where
  live i hi := by
    rw [RegionTable.enter] at hi ⊢
    rcases Nat.lt_succ_iff_lt_or_eq.1 hi with hlt | rfl
    · obtain ⟨m, hm, hmem⟩ := h.live i hlt
      refine ⟨m, ?_, ?_⟩
      · rw [← hm]
        exact Function.update_of_ne (Nat.ne_of_lt hlt) _ _
      · dsimp only
        rw [Function.update_of_ne (Nat.ne_of_lt hlt)]
        exact List.mem_append_left _ hmem
    · refine ⟨t.fresh, Function.update_self _ _ _, ?_⟩
      dsimp only
      rw [Function.update_self]
      exact List.mem_append_right _ (List.mem_singleton_self _)
  found x hx := by
    rcases List.mem_append.1 hx with hold | hnew
    · obtain ⟨i, hi, hm, hr⟩ := h.found x hold
      refine ⟨i, Nat.lt_succ_of_lt hi, ?_, ?_⟩
      · rw [← hm]
        exact Function.update_of_ne (Nat.ne_of_lt hi) _ _
      · rw [← hr]
        exact Function.update_of_ne (Nat.ne_of_lt hi) _ _
    · rw [List.mem_singleton.1 hnew]
      exact ⟨t.count, Nat.lt_succ_self _, Function.update_self _ _ _, Function.update_self _ _ _⟩
  inj i hi j hj heq := by
    -- The new mapping differs from all others.
    have hne : ∀ k < t.count, t.mappings k ≠ some t.fresh := by
      intro k hk hm
      obtain ⟨m, hm', hmem⟩ := h.live k hk
      have hlt := h.fresh _ hmem
      rw [hm] at hm'
      cases hm'
      exact Nat.lt_irrefl _ hlt
    rw [RegionTable.enter] at hi hj heq
    dsimp only at heq
    rcases Nat.lt_succ_iff_lt_or_eq.1 hi with hi' | rfl
    · rw [Function.update_of_ne (Nat.ne_of_lt hi')] at heq
      rcases Nat.lt_succ_iff_lt_or_eq.1 hj with hj' | rfl
      · rw [Function.update_of_ne (Nat.ne_of_lt hj')] at heq
        exact h.inj i hi' j hj' heq
      · rw [Function.update_self] at heq
        exact absurd heq (hne i hi')
    · rw [Function.update_self] at heq
      rcases Nat.lt_succ_iff_lt_or_eq.1 hj with hj' | rfl
      · rw [Function.update_of_ne (Nat.ne_of_lt hj')] at heq
        exact absurd heq.symm (hne j hj')
      · rfl
  fresh x hx := by
    rcases List.mem_append.1 hx with hold | hnew
    · exact Nat.lt_succ_of_lt (h.fresh x hold)
    · rw [List.mem_singleton.1 hnew]
      exact Nat.lt_succ_self _

/-- A region is removed, and the last one takes its place. -/
theorem Valid.remove (h : t.Valid) (hi : i < t.count) (hcount : t'.count = t.count - 1)
    (hentry : ∀ j < t.count - 1,
      t'.mappings j = t.mappings (if j = i then t.count - 1 else j) ∧
      t'.regions j = t.regions (if j = i then t.count - 1 else j))
    (hmapped : t'.mapped = t.mapped.filter fun x => decide (t.mappings i ≠ some x.1))
    (hfresh : t'.fresh = t.fresh) : t'.Valid where
  live j hj := by
    rw [hcount] at hj
    obtain ⟨hm', hr'⟩ := hentry j hj
    have hlt : (if j = i then t.count - 1 else j) < t.count := by split <;> omega
    have hne : (if j = i then t.count - 1 else j) ≠ i := by split <;> omega
    obtain ⟨m, hm, hmem⟩ := h.live _ hlt
    refine ⟨m, hm'.trans hm, ?_⟩
    rw [hmapped, hr', List.mem_filter]
    refine ⟨hmem, decide_eq_true fun heq => hne ?_⟩
    exact h.inj _ hlt i hi (hm.trans heq.symm)
  found x hx := by
    rw [hmapped, List.mem_filter, decide_eq_true_iff] at hx
    obtain ⟨k, hk, hm, hr⟩ := h.found x hx.1
    have hne : k ≠ i := fun heq => hx.2 (heq ▸ hm)
    by_cases hlast : k = t.count - 1
    · -- the last region is now in the place of the one removed
      have hlt : i < t.count - 1 := by omega
      obtain ⟨hm', hr'⟩ := hentry i hlt
      rw [if_pos rfl, ← hlast] at hm' hr'
      exact ⟨i, hcount ▸ hlt, hm'.trans hm, hr'.trans hr⟩
    · have hlt : k < t.count - 1 := by omega
      obtain ⟨hm', hr'⟩ := hentry k hlt
      rw [if_neg hne] at hm' hr'
      exact ⟨k, hcount ▸ hlt, hm'.trans hm, hr'.trans hr⟩
  inj j hj k hk heq := by
    rw [hcount] at hj hk
    rw [(hentry j hj).1, (hentry k hk).1] at heq
    have heq' := h.inj _ (by split <;> omega) _ (by split <;> omega) heq
    by_cases hji : j = i
    · by_cases hki : k = i
      · rw [hji, hki]
      · rw [if_pos hji, if_neg hki] at heq'
        omega
    · by_cases hki : k = i
      · rw [if_neg hji, if_pos hki] at heq'
        omega
      · rwa [if_neg hji, if_neg hki] at heq'
  fresh x hx := by
    rw [hmapped] at hx
    rw [hfresh]
    exact h.fresh x (List.mem_of_mem_filter hx)

/-- The part of the table that is not searched makes no difference. -/
theorem Valid.congr (h : t.Valid) (hcount : t'.count = t.count)
    (hentry : ∀ j < t.count, t'.mappings j = t.mappings j ∧ t'.regions j = t.regions j)
    (hmapped : t'.mapped = t.mapped) (hfresh : t'.fresh = t.fresh) : t'.Valid where
  live j hj := by
    rw [hcount] at hj
    rw [(hentry j hj).1, (hentry j hj).2, hmapped]
    exact h.live j hj
  found x hx := by
    rw [hmapped] at hx
    obtain ⟨j, hj, hm, hr⟩ := h.found x hx
    exact ⟨j, hcount ▸ hj, (hentry j hj).1.trans hm, (hentry j hj).2.trans hr⟩
  inj j hj k hk heq := by
    rw [hcount] at hj hk
    rw [(hentry j hj).1, (hentry k hk).1] at heq
    exact h.inj j hj k hk heq
  fresh x hx := by
    rw [hmapped] at hx
    rw [hfresh]
    exact h.fresh x hx

/-! ### What is found -/

theorem find_some (h : t.find gpa = some i) : i < t.count ∧ (t.regions i).contains gpa = true :=
  ⟨List.mem_range.1 (List.mem_of_find?_eq_some h),
    List.find?_some (p := fun i => (t.regions i).contains gpa) h⟩

theorem find_none : t.find gpa = none ↔ ∀ i < t.count, (t.regions i).contains gpa = false := by
  rw [find, List.find?_eq_none]
  refine ⟨fun h i hi => ?_, fun h i hi => ?_⟩
  · exact Bool.eq_false_iff.2 (h i (List.mem_range.2 hi))
  · rw [h i (List.mem_range.1 hi)]
    exact Bool.false_ne_true

/-- A pointer found in a valid table is right. -/
theorem Valid.lookup_some (h : t.Valid) (hfind : t.find gpa = some i) :
    ∃ x ∈ t.mapped, t.mappings i = some x.1 ∧ t.regions i = x.2 ∧ x.2.Holds gpa ∧
      t.lookup gpa = some (some x.1, gpa.toNat - x.2.base.toNat) := by
  obtain ⟨hi, hcontains⟩ := find_some hfind
  obtain ⟨m, hm, hmem⟩ := h.live i hi
  have hholds := (Region.contains_iff.1 hcontains).1
  refine ⟨(m, t.regions i), hmem, hm, rfl, hholds, ?_⟩
  rw [lookup, hfind, Option.bind_some, Pointer.of, hm,
    if_neg fun hnone => Option.some_ne_none _ hnone.1,
    UInt64.toNat_sub_of_le _ _ (UInt64.le_iff_toNat_le.2 hholds.1)]

/-- What is found in a valid table is right if and only if a guest address in a region that is
    mapped is in one whose end is an address. -/
theorem Valid.right_iff (h : t.Valid) : t.Right gpa (t.lookup gpa) ↔
    ∀ x ∈ t.mapped, x.2.Holds gpa → ∃ y ∈ t.mapped, y.2.Holds gpa ∧ y.2.Fits := by
  cases hfind : t.find gpa with
  | none =>
    have hlookup : t.lookup gpa = none := by rw [lookup, hfind, Option.bind_none]
    rw [hlookup]
    refine ⟨fun hright x hx hholds => absurd hholds (hright x hx), fun hfits x hx hholds => ?_⟩
    obtain ⟨y, hy, hyholds, hyfits⟩ := hfits x hx hholds
    obtain ⟨i, hi, _, hr⟩ := h.found y hy
    have hcontains := find_none.1 hfind i hi
    rw [hr, Region.contains_iff.2 ⟨hyholds, hyfits⟩] at hcontains
    cases hcontains
  | some i =>
    obtain ⟨x, hx, _, hr, hholds, hlookup⟩ := h.lookup_some hfind
    have hfits := (Region.contains_iff.1 (find_some hfind).2).2
    rw [hr] at hfits
    rw [hlookup]
    exact ⟨fun _ _ _ _ => ⟨x, hx, hholds, hfits⟩, fun _ => ⟨x, hx, hholds, rfl⟩⟩

end RegionTable

/-! ## Runs -/

namespace Vfio

variable {t : RegionTable} {gpa : UInt64}

theorem dmaMap_valid (h : t.Valid) (r : Region) (mmap : Bool) : (dmaMap t r mmap).2.Valid := by
  rw [dmaMap]
  split_ifs
  · exact h
  · exact h
  · exact h.enter r

theorem dmaUnmap_valid (h : t.Valid) (r : Region) : (dmaUnmap t r).Valid := by
  rw [dmaUnmap]
  split
  · exact h
  · rename_i i hfind
    have hi := List.mem_range.1 (List.mem_of_find?_eq_some hfind)
    dsimp only
    by_cases hlast : i < t.count - 1
    · rw [if_pos hlast]
      refine h.remove hi rfl (fun j hj => ?_) rfl rfl
      dsimp only
      by_cases hji : j = i
      · subst hji
        rw [if_pos rfl, Function.update_self, Function.update_self,
          Function.update_of_ne (Nat.ne_of_gt hlast)]
        exact ⟨rfl, rfl⟩
      · rw [if_neg hji, Function.update_of_ne hji, Function.update_of_ne hji,
          Function.update_of_ne hji]
        exact ⟨rfl, rfl⟩
    · rw [if_neg hlast]
      refine h.remove hi rfl (fun j hj => ?_) rfl rfl
      have hji : j ≠ i := by omega
      rw [if_neg hji]
      exact ⟨Function.update_of_ne hji _ _, rfl⟩

/-- The table for vfio-user is valid throughout a run. -/
theorem run_valid {allowed : RegionTable → DmaCall → Prop} {tr : List (DmaCall × Unit)}
    (h : dmaMachine.Run allowed RegionTable.init tr t) : t.Valid := by
  refine h.invariant RegionTable.init_valid fun t c _ t' hvalid _ hstep => ?_
  cases c with
  | dmaMap r mmap =>
    rw [show t' = _ from hstep]
    exact dmaMap_valid hvalid r mmap
  | dmaUnmap r =>
    rw [show t' = _ from hstep]
    exact dmaUnmap_valid hvalid r
  | closeConnection =>
    rw [show t' = _ from hstep]
    exact t.clear_valid

end Vfio

namespace Vhost

variable {t : RegionTable} {gpa : UInt64}

/-- Regions none of which can be mapped go where the table is not searched. -/
theorem mapRegions_unmapped {i : ℕ} {l : List (Region × Bool)} (h : t.Valid) (hi : t.count ≤ i)
    (hl : ∀ x ∈ l, x.2 = false) : (mapRegions i l t).Valid := by
  induction l generalizing i t with
  | nil => exact h
  | cons x l ih =>
    obtain ⟨r, mmap⟩ := x
    obtain rfl : mmap = false := hl (r, mmap) List.mem_cons_self
    rw [mapRegions, if_neg Bool.false_ne_true]
    refine ih ?_ (Nat.le_succ_of_le hi) fun y hy => hl y (List.mem_cons_of_mem _ hy)
    refine h.congr rfl (fun j hj => ⟨rfl, ?_⟩) rfl rfl
    exact Function.update_of_ne (Nat.ne_of_lt (Nat.lt_of_lt_of_le hj hi)) _ _

/-- Regions that are mapped are put one after the other. -/
theorem mapRegions_valid {l : List (Region × Bool)} (h : t.Valid)
    (hl : l.Pairwise fun x y => y.2 = true → x.2 = true) : (mapRegions t.count l t).Valid := by
  induction l generalizing t with
  | nil => exact h
  | cons x l ih =>
    obtain ⟨r, mmap⟩ := x
    obtain ⟨hx, hl'⟩ := List.pairwise_cons.1 hl
    rw [mapRegions]
    cases mmap with
    | true => exact ih (h.enter r) hl'
    | false =>
      rw [if_neg Bool.false_ne_true]
      refine mapRegions_unmapped ?_ (Nat.le_succ _) fun y hy => ?_
      · refine h.congr rfl (fun j hj => ⟨rfl, ?_⟩) rfl rfl
        exact Function.update_of_ne (Nat.ne_of_lt hj) _ _
      · exact Bool.eq_false_iff.2 fun htrue => Bool.false_ne_true (hx y hy htrue)

/-- A table is valid if none of its regions is mapped after one that cannot be. -/
theorem setMemTable_valid {l : List (Region × Bool)} (hl : MemCall.Unbroken (.setMemTable l)) :
    (setMemTable t l).Valid :=
  mapRegions_valid t.clear_valid hl

/-- The table for vhost-user is valid after a run if the regions given last are such. -/
theorem run_valid {allowed : RegionTable → MemCall → Prop} {tr : List (MemCall × Unit)}
    (h : memMachine.Run allowed RegionTable.init tr t) (hlast : ∀ c ∈ tr.getLast?, c.1.Unbroken) :
    t.Valid := by
  cases h with
  | nil => exact RegionTable.init_valid
  | @snoc tr s c b _ _ _ hstep =>
    have hcall : c.Unbroken := hlast (c, b) List.getLast?_concat
    cases c with
    | setMemTable l =>
      rw [show t = _ from hstep]
      exact setMemTable_valid hcall
    | closeConnection =>
      rw [show t = _ from hstep]
      exact s.clear_valid

end Vhost

end Nvme

end FtlFirmware
