import FtlFirmware.Raid.Basic

/-!
# The array throughout a run

After `Raid.init`, members come and go and pages are written and read (`RaidCall`). What the
array holds is the page of each member present (`Raid.page`).

* `Raid.Sound` holds throughout a run (`run_sound`): a member that is valid is online, has its
  buffer and its capacity; the logical capacity is the one of the members present;
* `Sound.capacity_of_present`: that is the one of a full array, as soon as one member is present;
* `page_addMember`, `page_removeMember`, `page_setPage`: what the operations change.
-/

namespace FtlFirmware

/-- The calls made to an array that is initialized. Whether memory can be allocated for a new
    member is given, and a read hands over a buffer. -/
inductive RaidCall
  | addMember (i : ℕ) (allocated : Bool)
  | removeMember (i : ℕ)
  | write (lpn : ℕ) (buf : PageData)
  | read (lpn : ℕ) (buf : PageData)

/-- A configuration that `raid_init` accepts. -/
structure RaidConfig.Accepted (c : RaidConfig) : Prop where
  level : c.level ≠ .max
  count_pos : 0 < c.memberCount
  count_le : c.memberCount ≤ raidMaxMembers
  even : c.level = .level1 → c.memberCount % 2 = 0

/-- A member that is valid has all that is needed. -/
structure RaidMember.Sound (m : RaidMember) : Prop where
  online : m.isValid = true → m.isOnline = true
  buffer : m.isValid = true → m.dataBuffer.isSome = true
  total : m.isValid = true → m.totalLpns = memberLpns

namespace Raid

/-- Executes a call. -/
def exec (r : Raid) : RaidCall → Option ((RetCode × Option PageData) × Raid)
  | .addMember i allocated => let a := r.addMember i allocated; some ((a.1, none), a.2)
  | .removeMember i => let a := r.removeMember i; some ((a.1, none), a.2)
  | .write lpn buf => (r.write lpn buf).map fun a => ((a.1, none), a.2)
  | .read lpn buf => (r.read lpn buf).map fun a => ((a.1, some a.2), r)

/-- The array as a machine. -/
def machine : Machine Raid RaidCall (RetCode × Option PageData) where
  step r c a r' := r.exec c = some (a, r')

/-- The page of a member that is present. -/
def page (r : Raid) (i lpn : ℕ) : Option PageData :=
  if r.present i then (r.members i).dataBuffer.map fun pages => pages lpn else none

/-- What holds of the array throughout a run. -/
structure Sound (r : Raid) : Prop where
  initialized : r.isInitialized = true
  accepted : r.config.Accepted
  member : ∀ i, (r.members i).Sound
  range : ∀ i, (r.members i).isValid = true → i < raidMaxMembers
  capacity : r.logicalCapacity = r.calculateLogicalCapacity

variable {r r' : Raid} {i j lpn lpn' : ℕ} {buf : PageData} {m : RaidMember}

/-! ### The capacity -/

/-- The smallest capacity depends on the members present only. -/
theorem minCapacity_congr (hpresent : ∀ i, r'.present i = r.present i)
    (htotal : ∀ i, r.present i = true → (r'.members i).totalLpns = (r.members i).totalLpns) :
    r'.minCapacity = r.minCapacity := by
  unfold minCapacity
  congr 1
  funext least i
  rw [hpresent]
  by_cases hi : r.present i = true
  · rw [htotal i hi]
  · simp [hi]

/-- So does the logical capacity, of arrays with the same configuration. -/
theorem calculateLogicalCapacity_congr (hconfig : r'.config = r.config)
    (hpresent : ∀ i, r'.present i = r.present i)
    (htotal : ∀ i, r.present i = true → (r'.members i).totalLpns = (r.members i).totalLpns) :
    r'.calculateLogicalCapacity = r.calculateLogicalCapacity := by
  rw [calculateLogicalCapacity, calculateLogicalCapacity, minCapacity_congr hpresent htotal,
    hconfig]

namespace Sound

/-- A member present is valid. -/
theorem present_iff (h : r.Sound) : r.present i = true ↔ (r.members i).isValid = true := by
  rw [present, Bool.and_eq_true]
  exact ⟨And.left, fun hi => ⟨hi, (h.member i).online hi⟩⟩

/-- A member present is one of the members. -/
theorem lt (h : r.Sound) (hi : r.present i = true) : i < raidMaxMembers :=
  h.range i (h.present_iff.1 hi)

/-- The capacity of a member present. -/
theorem total (h : r.Sound) (hi : r.present i = true) : (r.members i).totalLpns = memberLpns :=
  (h.member i).total (h.present_iff.1 hi)

/-- The members that are present are those with pages. -/
theorem page_isSome (h : r.Sound) (lpn : ℕ) : (r.page i lpn).isSome = true ↔ r.present i = true := by
  rw [page]
  by_cases hi : r.present i = true
  · rw [if_pos hi, Option.isSome_map]
    exact ⟨fun _ => hi, fun _ => (h.member i).buffer (h.present_iff.1 hi)⟩
  · rw [if_neg hi]
    simp [hi]

/-- The smallest capacity of members of equal capacity, from the smallest one so far. -/
theorem foldl_minCapacity (h : r.Sound) (l : List ℕ) {least : ℕ}
    (hleast : least = noCapacity ∨ least = memberLpns) :
    l.foldl (fun least i =>
      if r.present i && decide ((r.members i).totalLpns < least) then (r.members i).totalLpns
      else least) least =
    if least = memberLpns ∨ ∃ i ∈ l, r.present i = true then memberLpns else noCapacity := by
  induction l generalizing least with
  | nil => rcases hleast with rfl | rfl <;> simp
  | cons i l ih =>
    rw [List.foldl_cons]
    by_cases hi : r.present i = true
    · -- A member that is present: from now on, its capacity.
      have hstep : (if r.present i && decide ((r.members i).totalLpns < least) then
          (r.members i).totalLpns else least) = memberLpns := by
        rw [h.total hi, hi]
        rcases hleast with rfl | rfl <;> rfl
      rw [hstep, ih (Or.inr rfl), if_pos (Or.inl rfl),
        if_pos (Or.inr ⟨i, List.mem_cons_self, hi⟩)]
    · simp only [hi, Bool.false_and, Bool.false_eq_true, if_false, ih hleast, List.mem_cons,
        exists_eq_or_imp, false_or]

/-- With a member present, the array has the capacity of a full one. -/
theorem capacity_of_present (h : r.Sound) (hi : r.present i = true) : r.logicalCapacity =
    if r.config.level = .level0 then memberLpns * r.config.memberCount else memberLpns := by
  have hmin : r.minCapacity = memberLpns := by
    rw [minCapacity, h.foldl_minCapacity _ (Or.inl rfl),
      if_pos (Or.inr ⟨i, List.mem_range.2 (h.lt hi), hi⟩)]
  rw [h.capacity, calculateLogicalCapacity, hmin, if_neg (by decide)]
  cases hl : r.config.level with
  | level0 => rfl
  | level1 => rfl
  | max => exact absurd hl h.accepted.level

/-- Without members, the array has no capacity. -/
theorem capacity_of_absent (h : r.Sound) (hnone : ∀ i, r.present i ≠ true) :
    r.logicalCapacity = 0 := by
  have hmin : r.minCapacity = noCapacity := by
    rw [minCapacity, h.foldl_minCapacity _ (Or.inl rfl), if_neg]
    rintro (hnot | ⟨i, _, hi⟩)
    · exact absurd hnot (by decide)
    · exact hnone i hi
  rw [h.capacity, calculateLogicalCapacity, if_pos hmin]

/-- An array with a logical page has a member. -/
theorem exists_present (h : r.Sound) (hlpn : lpn < r.logicalCapacity) :
    ∃ i, r.present i = true := by
  by_contra hnone
  rw [h.capacity_of_absent fun i hi => hnone ⟨i, hi⟩] at hlpn
  exact absurd hlpn (Nat.not_lt_zero lpn)

end Sound

/-! ### Single pages -/

@[simp]
theorem present_setPage : (r.setPage i lpn buf).present j = r.present j := by
  rcases eq_or_ne j i with rfl | hj
  · simp [present, setPage]
  · simp [present, setPage, hj]

@[simp]
theorem config_setPage : (r.setPage i lpn buf).config = r.config := rfl

@[simp]
theorem logicalCapacity_setPage :
    (r.setPage i lpn buf).logicalCapacity = r.logicalCapacity := rfl

/-- A page that is set, of a member that is present. -/
theorem page_setPage_self (h : r.Sound) (hi : r.present i = true) :
    (r.setPage i lpn buf).page i lpn = some buf := by
  obtain ⟨pages, hpages⟩ := Option.isSome_iff_exists.1
    ((h.member i).buffer (h.present_iff.1 hi))
  rw [page, present_setPage, if_pos hi]
  simp [setPage, hpages]

/-- Setting a page changes no other one. -/
theorem page_setPage_of_ne (hne : j ≠ i ∨ lpn' ≠ lpn) :
    (r.setPage i lpn buf).page j lpn' = r.page j lpn' := by
  rw [page, page, present_setPage]
  rcases eq_or_ne j i with rfl | hj
  · have hlpn : lpn' ≠ lpn := hne.resolve_left (absurd rfl)
    cases hpages : (r.members j).dataBuffer <;> simp [setPage, hpages, hlpn]
  · simp [setPage, hj]

namespace Sound

/-- Setting a page of a member keeps what holds of the array. -/
theorem setPage (h : r.Sound) (i lpn : ℕ) (buf : PageData) : (r.setPage i lpn buf).Sound where
  initialized := h.initialized
  accepted := h.accepted
  member j := by
    rcases eq_or_ne j i with rfl | hj
    · have hj := h.member j
      exact ⟨by simpa [Raid.setPage] using hj.online, by simpa [Raid.setPage] using hj.buffer,
        by simpa [Raid.setPage] using hj.total⟩
    · simpa [Raid.setPage, hj] using h.member j
  range j hj := by
    rcases eq_or_ne j i with rfl | hne
    · exact h.range j (by simpa [Raid.setPage] using hj)
    · exact h.range j (by simpa [Raid.setPage, hne] using hj)
  capacity := by
    rw [logicalCapacity_setPage, h.capacity]
    refine (calculateLogicalCapacity_congr ?_ (fun _ => ?_) fun j _ => ?_).symm
    · rfl
    · exact present_setPage
    · rcases eq_or_ne j i with rfl | hj
      · simp [Raid.setPage]
      · simp [Raid.setPage, hj]

/-- A page of a member present is read. -/
theorem memberRead (h : r.Sound) (hi : r.present i = true) (hlpn : lpn < memberLpns)
    (buf : PageData) : ∃ d, r.page i lpn = some d ∧ r.memberRead i lpn buf = some (.ok, d) := by
  obtain ⟨pages, hpages⟩ := Option.isSome_iff_exists.1
    ((h.member i).buffer (h.present_iff.1 hi))
  refine ⟨pages lpn, ?_, ?_⟩
  · rw [page, if_pos hi, hpages, Option.map_some]
  · rw [Raid.memberRead, if_neg (Nat.not_le_of_lt (h.lt hi)), if_neg (by simp [hi]), h.total hi,
      if_neg (Nat.not_le_of_lt hlpn), hpages, Option.map_some]

/-- A page of a member present is written. -/
theorem memberWrite (h : r.Sound) (hi : r.present i = true) (hlpn : lpn < memberLpns)
    (buf : PageData) : r.memberWrite i lpn buf = some (.ok, r.setPage i lpn buf) := by
  obtain ⟨pages, hpages⟩ := Option.isSome_iff_exists.1
    ((h.member i).buffer (h.present_iff.1 hi))
  rw [Raid.memberWrite, if_neg (Nat.not_le_of_lt (h.lt hi)), if_neg (by simp [hi]), h.total hi,
    if_neg (Nat.not_le_of_lt hlpn), hpages, Option.map_some]

end Sound

/-- What a write of a member leads to, if anything. -/
theorem memberWrite_cases {a : RetCode × Raid} (ha : r.memberWrite i lpn buf = some a) :
    a.1 ≠ .ok ∧ a.2 = r ∨ a = (.ok, r.setPage i lpn buf) := by
  rw [Raid.memberWrite] at ha
  split at ha
  · exact Or.inl (by cases ha; exact ⟨RetCode.noConfusion, rfl⟩)
  · split at ha
    · exact Or.inl (by cases ha; exact ⟨RetCode.noConfusion, rfl⟩)
    · split at ha
      · exact Or.inl (by cases ha; exact ⟨RetCode.noConfusion, rfl⟩)
      · obtain ⟨_, _, rfl⟩ := Option.map_eq_some_iff.1 ha
        exact Or.inr rfl

/-! ### Members -/

/-- A member in place of another one, with the capacity adapted. -/
theorem Sound.change (h : r.Sound) (hi : i < raidMaxMembers) (hm : m.Sound) :
    (r.setMember i m).recalculate.Sound where
  initialized := h.initialized
  accepted := h.accepted
  member j := by
    rcases eq_or_ne j i with rfl | hj
    · simpa [setMember, recalculate] using hm
    · simpa [setMember, recalculate, hj] using h.member j
  range j hj := by
    rcases eq_or_ne j i with rfl | hne
    · exact hi
    · exact h.range j (by simpa [setMember, recalculate, hne] using hj)
  capacity := calculateLogicalCapacity_congr rfl (fun _ => rfl) fun _ _ => rfl

/-- The pages with a member in place of another one. -/
theorem page_change : (r.setMember i m).recalculate.page j lpn =
    if j = i then
      if m.isValid && m.isOnline then m.dataBuffer.map fun pages => pages lpn else none
    else r.page j lpn := by
  rcases eq_or_ne j i with rfl | hj
  · simp [page, present, setMember, recalculate]
  · simp [page, present, setMember, recalculate, hj]

namespace Sound

/-- Adding a member: a blank one comes in, or else no page changes. -/
theorem addMember (h : r.Sound) (i : ℕ) (allocated : Bool) :
    (r.addMember i allocated).2.Sound ∧
    (r.addMember i allocated).2.config = r.config ∧
    ∀ j lpn, (r.addMember i allocated).2.page j lpn =
      if j = i ∧ (r.addMember i allocated).1 = .ok then some blankPage else r.page j lpn := by
  rw [Raid.addMember, if_neg (by simp [h.initialized])]
  by_cases hi : raidMaxMembers ≤ i
  · rw [if_pos hi]
    exact ⟨h, rfl, fun j lpn => by simp⟩
  rw [if_neg hi]
  by_cases hvalid : (r.members i).isValid = true
  · rw [if_pos hvalid]
    exact ⟨h, rfl, fun j lpn => by simp⟩
  rw [if_neg hvalid]
  cases allocated with
  | false =>
    -- The member is left invalid, so that neither the pages nor the capacity change.
    have hm : RaidMember.Sound
        { r.members i with totalLpns := memberLpns, dataBuffer := none } :=
      ⟨fun hv => absurd hv hvalid, fun hv => absurd hv hvalid, fun hv => absurd hv hvalid⟩
    have hcapacity := (h.change (Nat.lt_of_not_le hi) hm).capacity
    have hpage : ∀ j lpn, (r.setMember i
        { r.members i with totalLpns := memberLpns, dataBuffer := none }).page j lpn =
        r.page j lpn := by
      intro j lpn
      rcases eq_or_ne j i with rfl | hj
      · simp [page, present, setMember, hvalid]
      · simp [page, present, setMember, hj]
    refine ⟨?_, rfl, fun j lpn => by simp [hpage]⟩
    refine { h.change (Nat.lt_of_not_le hi) hm with capacity := ?_ }
    refine h.capacity.trans (calculateLogicalCapacity_congr ?_ (fun j => ?_) fun j hj => ?_).symm
    · rfl
    · rcases eq_or_ne j i with rfl | hne
      · simp [present, setMember]
      · simp [present, setMember, hne]
    · rcases eq_or_ne j i with rfl | hne
      · exact absurd (h.present_iff.1 hj) hvalid
      · simp [setMember, hne]
  | true =>
    refine ⟨h.change (Nat.lt_of_not_le hi) ⟨fun _ => rfl, fun _ => rfl, fun _ => rfl⟩, rfl,
      fun j lpn => ?_⟩
    simp [page_change]

/-- A member is added where there is none. -/
theorem addMember_ok (h : r.Sound) {allocated : Bool} (hok : (r.addMember i allocated).1 = .ok) :
    r.present i ≠ true := by
  intro hi
  rw [Raid.addMember, if_neg (by simp [h.initialized]), if_neg (Nat.not_le_of_lt (h.lt hi)),
    if_pos (h.present_iff.1 hi)] at hok
  exact RetCode.noConfusion hok

/-- Removing a member: it goes, and no other page changes. -/
theorem removeMember (h : r.Sound) (i : ℕ) :
    (r.removeMember i).2.Sound ∧ (r.removeMember i).2.config = r.config ∧
    ∀ j lpn, (r.removeMember i).2.page j lpn = if j = i then none else r.page j lpn := by
  have habsent : (r.members i).isValid ≠ true → ∀ j lpn,
      r.page j lpn = if j = i then none else r.page j lpn := by
    intro hvalid j lpn
    rcases eq_or_ne j i with rfl | hj
    · rw [if_pos rfl, page, if_neg fun hj => hvalid (h.present_iff.1 hj)]
    · rw [if_neg hj]
  rw [Raid.removeMember, if_neg (by simp [h.initialized])]
  by_cases hi : raidMaxMembers ≤ i
  · rw [if_pos hi]
    exact ⟨h, rfl, habsent fun hvalid => Nat.not_lt_of_le hi (h.range i hvalid)⟩
  rw [if_neg hi]
  by_cases hvalid : (r.members i).isValid = true
  · rw [if_neg (by simp [hvalid])]
    refine ⟨h.change (Nat.lt_of_not_le hi) ⟨?_, ?_, ?_⟩, rfl, fun j lpn => ?_⟩
    · exact fun hv => absurd hv Bool.false_ne_true
    · exact fun hv => absurd hv Bool.false_ne_true
    · exact fun hv => absurd hv Bool.false_ne_true
    · simp [page_change]
  · rw [if_pos (by simp [hvalid])]
    exact ⟨h, rfl, habsent hvalid⟩

/-- The first of the mirrors present is read. -/
theorem mirrorRead (h : r.Sound) (hlpn : lpn < memberLpns) (l : List ℕ) (buf : PageData) :
    r.mirrorRead lpn l buf = some (match l.findSome? fun i => r.page i lpn with
      | some d => (.ok, d)
      | none => (.errInternal, buf)) := by
  induction l with
  | nil => rfl
  | cons i l ih =>
    rw [Raid.mirrorRead, List.findSome?_cons]
    by_cases hi : r.present i = true
    · obtain ⟨d, hd, hread⟩ := h.memberRead hi hlpn buf
      rw [if_pos hi, hread, hd]
      rfl
    · have hnone : r.page i lpn = none := by rw [page, if_neg hi]
      rw [if_neg hi, hnone, ih]

/-- All mirrors present are written. -/
theorem mirrorWrite (h : r.Sound) (hlpn : lpn < memberLpns) (l : List ℕ) (buf : PageData) :
    ∃ r', Raid.mirrorWrite lpn buf l .ok r = some (.ok, r') ∧ r'.Sound ∧
      r'.config = r.config ∧ ∀ j lpn', r'.page j lpn' =
        if lpn' = lpn ∧ j ∈ l ∧ r.present j = true then some buf else r.page j lpn' := by
  induction l generalizing r with
  | nil => exact ⟨r, rfl, h, rfl, fun j lpn' => by simp⟩
  | cons i l ih =>
    rw [Raid.mirrorWrite]
    by_cases hi : r.present i = true
    · obtain ⟨r', hwrite, hs, hconfig, hpage⟩ := ih (h.setPage i lpn buf)
      rw [if_pos hi, h.memberWrite hi hlpn buf]
      refine ⟨r', hwrite, hs, hconfig, fun j lpn' => ?_⟩
      rw [hpage, present_setPage]
      by_cases hj : lpn' = lpn ∧ j = i
      · -- The page just written: a later write of it would be the same.
        obtain ⟨rfl, rfl⟩ := hj
        rw [page_setPage_self h hi]
        simp [hi]
      · rw [page_setPage_of_ne (by tauto)]
        congr 1
        rw [List.mem_cons]
        exact propext ⟨by tauto, by tauto⟩
    · obtain ⟨r', hwrite, hs, hconfig, hpage⟩ := ih h
      refine ⟨r', by rw [if_neg hi, hwrite], hs, hconfig, fun j lpn' => ?_⟩
      rw [hpage]
      congr 1
      rw [List.mem_cons]
      refine propext ⟨by tauto, fun hj => ⟨hj.1, hj.2.1.resolve_left ?_, hj.2.2⟩⟩
      rintro rfl
      exact hi hj.2.2

/-- A write keeps what holds of the array. -/
theorem write (h : r.Sound) {a : RetCode × Raid} (ha : r.write lpn buf = some a) :
    a.2.Sound ∧ a.2.config = r.config := by
  rw [Raid.write, if_neg (by simp [h.initialized])] at ha
  by_cases hlpn : r.logicalCapacity ≤ lpn
  · rw [if_pos hlpn] at ha
    cases ha
    exact ⟨h, rfl⟩
  rw [if_neg hlpn] at ha
  obtain ⟨i, hi⟩ := h.exists_present (Nat.lt_of_not_le hlpn)
  cases hl : r.config.level with
  | level0 =>
    rw [hl] at ha
    obtain ⟨p, _, hwrite⟩ := Option.bind_eq_some_iff.1 ha
    rcases memberWrite_cases hwrite with ⟨_, hsame⟩ | rfl
    · rw [hsame]
      exact ⟨h, rfl⟩
    · exact ⟨h.setPage _ _ _, rfl⟩
  | level1 =>
    have hcap : r.logicalCapacity = memberLpns := by
      rw [h.capacity_of_present hi, hl, if_neg RaidLevel.noConfusion]
    rw [hl] at ha
    obtain ⟨r', hwrite, hs, hconfig, _⟩ :=
      h.mirrorWrite (hcap ▸ Nat.lt_of_not_le hlpn) (List.range r.config.memberCount) buf
    have ha' : some (RetCode.ok, r') = some a := hwrite.symm.trans ha
    cases ha'
    exact ⟨hs, hconfig⟩
  | max => exact absurd hl h.accepted.level

/-- Each call keeps what holds of the array, and its configuration. -/
theorem exec (h : r.Sound) {c : RaidCall} {a : RetCode × Option PageData}
    (hexec : r.exec c = some (a, r')) : r'.Sound ∧ r'.config = r.config := by
  cases c with
  | addMember i allocated =>
    cases hexec
    exact ⟨(h.addMember i allocated).1, (h.addMember i allocated).2.1⟩
  | removeMember i =>
    cases hexec
    exact ⟨(h.removeMember i).1, (h.removeMember i).2.1⟩
  | write lpn buf =>
    obtain ⟨b, hb, heq⟩ := Option.map_eq_some_iff.1 hexec
    cases heq
    exact h.write hb
  | read lpn buf =>
    obtain ⟨b, _, heq⟩ := Option.map_eq_some_iff.1 hexec
    cases heq
    exact ⟨h, rfl⟩

end Sound

/-! ### Runs -/

/-- The array as initialized. -/
theorem init_sound {config : RaidConfig} (h : zeroed.init config = (.ok, r)) :
    r.Sound ∧ r.config = config ∧ ∀ i lpn, r.page i lpn = none := by
  rw [init] at h
  split at h
  · exact absurd (Prod.ext_iff.1 h).1 RetCode.noConfusion
  · rename_i hlevel
    split at h
    · exact absurd (Prod.ext_iff.1 h).1 RetCode.noConfusion
    · rename_i hcount
      split at h
      · exact absurd (Prod.ext_iff.1 h).1 RetCode.noConfusion
      · rename_i heven
        cases h
        refine ⟨⟨rfl, ⟨hlevel, ?_, ?_, fun hl => ?_⟩, ?_, ?_, rfl⟩, rfl, fun _ _ => rfl⟩
        · exact Nat.pos_of_ne_zero fun hzero => hcount (Or.inl hzero)
        · exact Nat.le_of_not_lt fun hlt => hcount (Or.inr hlt)
        · exact Decidable.not_not.1 fun hodd => heven ⟨hl, hodd⟩
        · exact fun i => ⟨fun hv => absurd hv Bool.false_ne_true,
            fun hv => absurd hv Bool.false_ne_true, fun hv => absurd hv Bool.false_ne_true⟩
        · exact fun i hv => absurd hv Bool.false_ne_true

/-- What holds of the array throughout a run. -/
theorem run_sound {config : RaidConfig} {r₀ : Raid} {tr : List (RaidCall × _)}
    (hinit : zeroed.init config = (.ok, r₀)) (h : machine.Run Machine.anyCall r₀ tr r) :
    r.Sound ∧ r.config = config := by
  obtain ⟨hs, hconfig, _⟩ := init_sound hinit
  refine h.invariant (P := fun r => r.Sound ∧ r.config = config) ⟨hs, hconfig⟩ ?_
  rintro s c a s' ⟨hs, hconfig⟩ - hstep
  have hs' := hs.exec hstep
  exact ⟨hs'.1, hs'.2.trans hconfig⟩

/-- Initializing again has no effect. -/
theorem init_again {config : RaidConfig} (h : r.Sound) : (r.init config).2 = r := by
  rw [init]
  split_ifs with _ _ _ hinit
  · rfl
  · rfl
  · rfl
  · rfl
  · exact absurd h.initialized hinit

/-- A configuration that is accepted gives an array without members. -/
theorem init_accepted {config : RaidConfig} (hinit : r.isInitialized = false)
    (h : config.Accepted) :
    r.init config = (.ok, { zeroed with config := config, isInitialized := true }) := by
  have hcount : ¬(config.memberCount = 0 ∨ raidMaxMembers < config.memberCount) := by
    rintro (hzero | hlt)
    · exact absurd hzero h.count_pos.ne'
    · exact Nat.not_lt_of_le h.count_le hlt
  rw [init, if_neg h.level, if_neg hcount, if_neg fun hl => hl.2 (h.even hl.1),
    if_neg (by simp [hinit])]

/-- Nothing of an array survives `raid_deinit`. -/
theorem init_deinit {config : RaidConfig} (h : r.Sound) (hconfig : config.Accepted) :
    r.deinit.2.init config = zeroed.init config := by
  have hinit : r.deinit.2.isInitialized = false := by rw [deinit, if_neg (by simp [h.initialized])]
  rw [init_accepted hinit hconfig, init_accepted rfl hconfig]

end Raid

end FtlFirmware
