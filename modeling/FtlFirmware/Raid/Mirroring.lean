import FtlFirmware.Raid.Array

/-!
# Redundancy of a mirrored array

At level 1, a write goes to all members present below the member count, and a read is answered
by the first of them. `Copies` keeps the books of a run: who is in the array, the last data
written to each page, and the members that received them and have stayed since.

* `Tracks`: the members that hold a page are those in the books, and all others are blank;
* `mirrored_iff`: the last data written are read if and only if the first member present is one
  of those that hold them (or they are blank), and a write is stored by a member if and only if
  one of the members present is below the member count. The code takes a member that has just
  been added for a copy of the others, and counts members that are never written.
-/

namespace FtlFirmware

/-- The copies of the pages: the members in the array, the last data written to each page, and
    the members that received them and have stayed since. -/
structure Copies where
  members : ℕ → Prop
  last : ℕ → Option PageData
  holders : ℕ → ℕ → Prop

namespace Copies

/-- No member, and nothing written. -/
def start : Copies := ⟨fun _ => False, fun _ => none, fun _ _ => False⟩

/-- The copies after a write, which goes to the members in the array below the member count. -/
def write (count : ℕ) (c : Copies) (lpn : ℕ) (buf : PageData) : Copies where
  members := c.members
  last := Function.update c.last lpn (some buf)
  holders := Function.update c.holders lpn fun j => j < count ∧ c.members j

/-- The copies after a call and its answer. -/
def next (count : ℕ) (c : Copies) : RaidCall × (RetCode × Option PageData) → Copies
  | (.addMember i _, (.ok, _)) => { c with members := fun j => j = i ∨ c.members j }
  | (.removeMember i, (.ok, _)) =>
    { c with members := fun j => j ≠ i ∧ c.members j,
             holders := fun lpn j => j ≠ i ∧ c.holders lpn j }
  | (.write lpn buf, (.ok, _)) => c.write count lpn buf
  | _ => c

variable {count lpn lpn' i : ℕ} {buf : PageData} {c : Copies}

@[simp]
theorem holders_write_self :
    (c.write count lpn buf).holders lpn i ↔ i < count ∧ c.members i := by
  simp [write]

@[simp]
theorem holders_write_of_ne (h : lpn' ≠ lpn) :
    (c.write count lpn buf).holders lpn' i ↔ c.holders lpn' i := by
  simp [write, h]

end Copies

namespace Raid

/-- The first member present below the member count. -/
def firstOnline (r : Raid) : Option ℕ := (List.range r.config.memberCount).find? r.present

/-- The array holds the copies in the books. -/
structure Tracks (r : Raid) (c : Copies) : Prop where
  members : ∀ i, c.members i ↔ r.present i = true
  bound : ∀ lpn i, c.holders lpn i → lpn < memberLpns ∧ i < r.config.memberCount
  held : ∀ lpn i, c.holders lpn i → ∃ d, c.last lpn = some d ∧ r.page i lpn = some d
  blank : ∀ lpn i, r.present i = true → ¬c.holders lpn i → r.page i lpn = some blankPage

/-- A page that is not blank. -/
def onesPage : PageData := Vector.replicate pageSize 1

/-- It differs from the blank one. -/
theorem onesPage_ne : onesPage ≠ blankPage := by
  intro h
  have hpos : 0 < pageSize := by decide
  have hbyte := congrArg (fun v : PageData => v[0]) h
  simp [onesPage, blankPage] at hbyte

variable {r r' : Raid} {i lpn : ℕ} {buf d : PageData} {c : Copies}

namespace Sound

/-- The capacity of a mirrored array that has a page. -/
theorem capacity_level1 (h : r.Sound) (hl : r.config.level = .level1)
    (hi : r.present i = true) : r.logicalCapacity = memberLpns := by
  rw [h.capacity_of_present hi, hl, if_neg RaidLevel.noConfusion]

/-- The page of the first member present is the first page. -/
theorem findSome?_page (h : r.Sound) (lpn : ℕ) (l : List ℕ) :
    (l.findSome? fun i => r.page i lpn) = (l.find? r.present).bind fun i => r.page i lpn := by
  induction l with
  | nil => rfl
  | cons i l ih =>
    rw [List.findSome?_cons, List.find?_cons]
    cases hi : r.present i with
    | false =>
      have hnone : r.page i lpn = none := by rw [page, hi, if_neg Bool.false_ne_true]
      rw [hnone]
      exact ih
    | true =>
      obtain ⟨d, hd⟩ := Option.isSome_iff_exists.1 ((h.page_isSome lpn).2 hi)
      rw [hd, Option.bind_some, hd]

/-- A page of a mirrored array is read from the first member present. -/
theorem read_level1 (h : r.Sound) (hl : r.config.level = .level1)
    (hlpn : lpn < memberLpns) (hi : r.firstOnline = some i) (buf : PageData) :
    r.read lpn buf = (r.page i lpn).map fun d => (.ok, d) := by
  have hp : r.present i = true := List.find?_some hi
  obtain ⟨d, hd⟩ := Option.isSome_iff_exists.1 ((h.page_isSome lpn).2 hp)
  rw [read, if_neg (by simp [h.initialized]), h.capacity_level1 hl hp,
    if_neg (Nat.not_le_of_lt hlpn), hl, hd]
  change r.mirrorRead lpn (List.range r.config.memberCount) buf = _
  rw [h.mirrorRead hlpn, h.findSome?_page, show List.find? _ _ = some i from hi, Option.bind_some,
    hd]
  rfl

/-- A page of a mirrored array is written to all members present below the member count. -/
theorem write_level1 (h : r.Sound) (hl : r.config.level = .level1)
    (hlpn : lpn < r.logicalCapacity) (buf : PageData) :
    ∃ r', r.write lpn buf = some (.ok, r') ∧ r'.Sound ∧ r'.config = r.config ∧
      ∀ j lpn', r'.page j lpn' =
        if lpn' = lpn ∧ j < r.config.memberCount ∧ r.present j = true then some buf
        else r.page j lpn' := by
  obtain ⟨i, hi⟩ := h.exists_present hlpn
  obtain ⟨r', hwrite, hs, hconfig, hpage⟩ := h.mirrorWrite
    (h.capacity_level1 hl hi ▸ hlpn) (List.range r.config.memberCount) buf
  refine ⟨r', ?_, hs, hconfig, fun j lpn' => by simp only [hpage, List.mem_range]⟩
  rw [Raid.write, if_neg (by simp [h.initialized]), if_neg (Nat.not_le_of_lt hlpn), hl]
  exact hwrite

/-- A page beyond the capacity is not written. -/
theorem write_beyond (h : r.Sound) (hlpn : r.logicalCapacity ≤ lpn) (buf : PageData) :
    r.write lpn buf = some (.errParam, r) := by
  rw [Raid.write, if_neg (by simp [h.initialized]), if_pos hlpn]

end Sound

namespace Tracks

/-- Only members in the array hold pages. -/
theorem present (h : r.Tracks c) (hs : r.Sound) (hi : c.holders lpn i) : r.present i = true := by
  obtain ⟨d, -, hd⟩ := h.held lpn i hi
  exact (hs.page_isSome lpn).1 (Option.isSome_iff_exists.2 ⟨d, hd⟩)

/-- Adding a member, which is blank. -/
theorem addMember (h : r.Tracks c) (hs : r.Sound) (i : ℕ) (allocated : Bool)
    (b : Option PageData) : (r.addMember i allocated).2.Tracks
      (c.next r.config.memberCount (.addMember i allocated, ((r.addMember i allocated).1, b))) := by
  obtain ⟨hs', hconfig, hpage⟩ := hs.addMember i allocated
  have hpresent : ∀ j, (r.addMember i allocated).2.present j = true ↔
      (j = i ∧ (r.addMember i allocated).1 = .ok) ∨ r.present j = true := by
    intro j
    rw [← hs'.page_isSome 0, hpage, ← hs.page_isSome 0]
    by_cases hj : j = i ∧ (r.addMember i allocated).1 = .ok <;> simp [hj]
  by_cases hok : (r.addMember i allocated).1 = .ok
  -- A member that is added holds no copy yet.
  · have hnew : ∀ lpn, ¬c.holders lpn i := fun lpn hi =>
      hs.addMember_ok hok (h.present hs hi)
    rw [hok] at hpage hpresent ⊢
    refine ⟨fun j => ?_, fun lpn j hj => ?_, fun lpn j hj => ?_, fun lpn j hj hnot => ?_⟩
    · rw [hpresent, ← h.members]
      exact or_congr_left (and_iff_left rfl).symm
    · rw [hconfig]
      exact h.bound lpn j hj
    · -- The holders of a page are other members.
      rw [hpage, if_neg (by rintro ⟨rfl, -⟩; exact hnew lpn hj)]
      exact h.held lpn j hj
    · rw [hpage]
      by_cases hji : j = i ∧ RetCode.ok = RetCode.ok
      · rw [if_pos hji]
      · rw [if_neg hji]
        exact h.blank lpn j (((hpresent j).1 hj).resolve_left hji) hnot
  · have hnext : c.next r.config.memberCount
        (.addMember i allocated, ((r.addMember i allocated).1, b)) = c := by
      cases hret : (r.addMember i allocated).1 <;> first | exact absurd hret hok | rfl
    have hsame : ∀ j lpn, (r.addMember i allocated).2.page j lpn = r.page j lpn := fun j lpn => by
      rw [hpage, if_neg fun hj => hok hj.2]
    rw [hnext]
    refine ⟨fun j => ?_, fun lpn j hj => ?_, fun lpn j hj => ?_, fun lpn j hj hnot => ?_⟩
    · rw [hpresent, h.members, or_iff_right fun hj => hok hj.2]
    · rw [hconfig]
      exact h.bound lpn j hj
    · rw [hsame]
      exact h.held lpn j hj
    · rw [hsame]
      exact h.blank lpn j (((hpresent j).1 hj).resolve_left fun hj => hok hj.2) hnot

/-- Removing a member, with its copies. -/
theorem removeMember (h : r.Tracks c) (hs : r.Sound) (i : ℕ) (b : Option PageData) :
    (r.removeMember i).2.Tracks
      (c.next r.config.memberCount (.removeMember i, ((r.removeMember i).1, b))) := by
  obtain ⟨hs', hconfig, hpage⟩ := hs.removeMember i
  have hpresent : ∀ j, (r.removeMember i).2.present j = true ↔ j ≠ i ∧ r.present j = true := by
    intro j
    rw [← hs'.page_isSome 0, hpage, ← hs.page_isSome 0]
    by_cases hj : j = i <;> simp [hj]
  -- A call that fails names no member, and the books would not change if it did.
  have hgone : ∀ lpn, (r.removeMember i).1 ≠ .ok → ¬c.holders lpn i := fun lpn hret hi => by
    rw [Raid.removeMember, if_neg (by simp [hs.initialized]),
      if_neg (Nat.not_le_of_lt (hs.lt (h.present hs hi)))] at hret
    split at hret <;> exact hret rfl
  have habsent : (r.removeMember i).1 ≠ .ok → ¬r.present i = true := fun hret hi => by
    rw [Raid.removeMember, if_neg (by simp [hs.initialized]),
      if_neg (Nat.not_le_of_lt (hs.lt hi))] at hret
    split at hret <;> exact hret rfl
  by_cases hok : (r.removeMember i).1 = .ok
  · rw [hok]
    refine ⟨fun j => ?_, fun lpn j hj => ?_, fun lpn j hj => ?_, fun lpn j hj hnot => ?_⟩
    · rw [hpresent, ← h.members]
      rfl
    · rw [hconfig]
      exact h.bound lpn j hj.2
    · rw [hpage, if_neg hj.1]
      exact h.held lpn j hj.2
    · obtain ⟨hne, hj⟩ := (hpresent j).1 hj
      rw [hpage, if_neg hne]
      exact h.blank lpn j hj fun hh => hnot ⟨hne, hh⟩
  · have hnext : c.next r.config.memberCount
        (.removeMember i, ((r.removeMember i).1, b)) = c := by
      cases hret : (r.removeMember i).1 <;> first | exact absurd hret hok | rfl
    rw [hnext]
    refine ⟨fun j => ?_, fun lpn j hj => ?_, fun lpn j hj => ?_, fun lpn j hj hnot => ?_⟩
    · rw [hpresent, h.members]
      refine ⟨fun hj => ⟨?_, hj⟩, And.right⟩
      rintro rfl
      exact habsent hok hj
    · rw [hconfig]
      exact h.bound lpn j hj
    · rw [hpage, if_neg (by rintro rfl; exact hgone lpn hok hj)]
      exact h.held lpn j hj
    · obtain ⟨hne, hj⟩ := (hpresent j).1 hj
      rw [hpage, if_neg hne]
      exact h.blank lpn j hj hnot

/-- A write, to all members present below the member count. -/
theorem write (h : r.Tracks c) (hs : r.Sound) (hl : r.config.level = .level1)
    {a : RetCode × Raid} (ha : r.write lpn buf = some a) (b : Option PageData) :
    a.2.Tracks (c.next r.config.memberCount (.write lpn buf, (a.1, b))) := by
  by_cases hlpn : r.logicalCapacity ≤ lpn
  · rw [hs.write_beyond hlpn] at ha
    cases ha
    exact h
  obtain ⟨r', hwrite, hs', hconfig, hpage⟩ := hs.write_level1 hl (Nat.lt_of_not_le hlpn) buf
  obtain ⟨i, hi⟩ := hs.exists_present (Nat.lt_of_not_le hlpn)
  have hcap := hs.capacity_level1 hl hi
  rw [hwrite] at ha
  cases ha
  have hpresent : ∀ j, r'.present j = true ↔ r.present j = true := by
    intro j
    rw [← hs'.page_isSome 0, hpage]
    by_cases hj : 0 = lpn ∧ j < r.config.memberCount ∧ r.present j = true
    · rw [if_pos hj]
      exact ⟨fun _ => hj.2.2, fun _ => rfl⟩
    · rw [if_neg hj, hs.page_isSome]
  refine ⟨fun j => ?_, fun lpn' j hj => ?_, fun lpn' j hj => ?_, fun lpn' j hj hnot => ?_⟩
  · rw [hpresent, ← h.members]
    rfl
  · rcases eq_or_ne lpn' lpn with rfl | hne
    · exact ⟨hcap ▸ Nat.lt_of_not_le hlpn, hconfig ▸ (Copies.holders_write_self.1 hj).1⟩
    · rw [hconfig]
      exact h.bound lpn' j ((Copies.holders_write_of_ne hne).1 hj)
  · rcases eq_or_ne lpn' lpn with rfl | hne
    · -- The page written: its holders are the members that received it.
      have hj := Copies.holders_write_self.1 hj
      rw [h.members] at hj
      exact ⟨buf, Function.update_self .., by rw [hpage, if_pos ⟨rfl, hj⟩]⟩
    · obtain ⟨d, hlast, hd⟩ := h.held lpn' j ((Copies.holders_write_of_ne hne).1 hj)
      exact ⟨d, (Function.update_of_ne hne ..).trans hlast, by rw [hpage, if_neg (by tauto), hd]⟩
  · rw [hpresent] at hj
    rcases eq_or_ne lpn' lpn with rfl | hne
    · -- A member that did not receive it is beyond the member count, and held no page before.
      have hcount : ¬j < r.config.memberCount := fun hlt =>
        hnot (Copies.holders_write_self.2 ⟨hlt, (h.members j).2 hj⟩)
      rw [hpage, if_neg (by tauto)]
      exact h.blank lpn' j hj fun hh => hcount (h.bound lpn' j hh).2
    · rw [hpage, if_neg (by tauto)]
      exact h.blank lpn' j hj fun hh => hnot ((Copies.holders_write_of_ne hne).2 hh)

/-- Each call keeps the books. -/
theorem exec (h : r.Tracks c) (hs : r.Sound) (hl : r.config.level = .level1) {k : RaidCall}
    {a : RetCode × Option PageData} (hexec : r.exec k = some (a, r')) :
    r'.Tracks (c.next r.config.memberCount (k, a)) := by
  cases k with
  | addMember i allocated =>
    cases hexec
    exact h.addMember hs i allocated none
  | removeMember i =>
    cases hexec
    exact h.removeMember hs i none
  | write lpn buf =>
    obtain ⟨b, hb, heq⟩ := Option.map_eq_some_iff.1 hexec
    cases heq
    exact h.write hs hl hb none
  | read lpn buf =>
    obtain ⟨b, _, heq⟩ := Option.map_eq_some_iff.1 hexec
    cases heq
    exact h

/-- The page of the first member present is the last one written, if that member holds it, or
    else if what was written is blank. -/
theorem read_iff (h : r.Tracks c) (hs : r.Sound) (hl : r.config.level = .level1)
    (hlast : c.last lpn = some d) (hholder : ∃ i, c.holders lpn i) :
    (∀ buf, r.read lpn buf = some (.ok, d)) ↔
      ∃ i, r.firstOnline = some i ∧ (c.holders lpn i ∨ d = blankPage) := by
  obtain ⟨j, hj⟩ := hholder
  obtain ⟨hlpn, hcount⟩ := h.bound lpn j hj
  -- A holder is online, so that there is a first member online.
  obtain ⟨i, hi⟩ := Option.isSome_iff_exists.1
    (List.find?_isSome.2 ⟨j, List.mem_range.2 hcount, h.present hs hj⟩)
  have hp : r.present i = true := List.find?_some hi
  have hread := hs.read_level1 hl hlpn hi
  constructor
  · intro hall
    refine ⟨i, hi, ?_⟩
    by_cases hh : c.holders lpn i
    · exact Or.inl hh
    · have hd := hall blankPage
      rw [hread, h.blank lpn i hp hh, Option.map_some, Option.some_inj] at hd
      exact Or.inr (Prod.ext_iff.1 hd).2.symm
  · rintro ⟨i', hi', hcopy⟩ buf
    obtain rfl : i = i' := Option.some_inj.1 (hi.symm.trans hi')
    rw [hread]
    by_cases hh : c.holders lpn i
    · obtain ⟨d', hlast', hd'⟩ := h.held lpn i hh
      rw [hd', Option.map_some, Option.some_inj.1 (hlast.symm.trans hlast')]
    · rw [h.blank lpn i hp hh, Option.map_some, hcopy.resolve_left hh]

/-- A write that is acknowledged is stored by a member, if one below the member count is
    present. -/
theorem write_iff (h : r.Tracks c) (hs : r.Sound) (hl : r.config.level = .level1) :
    (∀ lpn buf r', r.write lpn buf = some (.ok, r') → ∃ i, r'.page i lpn = some buf) ↔
      (∀ i, r.present i ≠ true) ∨ ∃ i < r.config.memberCount, r.present i = true := by
  constructor
  · intro hall
    by_cases hsome : ∃ i, r.present i = true
    · refine Or.inr ?_
      obtain ⟨i, hi⟩ := hsome
      -- A page that is not blank, so that a member storing it is one that received it.
      have hlpn : 0 < r.logicalCapacity := by rw [hs.capacity_level1 hl hi]; decide
      obtain ⟨r', hwrite, _, _, hpage⟩ := hs.write_level1 hl hlpn onesPage
      obtain ⟨j, hj⟩ := hall _ _ r' hwrite
      by_contra hnone
      have hcount : ¬(j < r.config.memberCount ∧ r.present j = true) :=
        fun hj => hnone ⟨j, hj⟩
      rw [hpage, if_neg fun hj => hcount hj.2] at hj
      have hp : r.present j = true := (hs.page_isSome 0).1 (Option.isSome_iff_exists.2 ⟨_, hj⟩)
      rw [h.blank 0 j hp fun hh => hcount ⟨(h.bound 0 j hh).2, hp⟩, Option.some_inj] at hj
      exact onesPage_ne hj.symm
    · exact Or.inl fun i hi => hsome ⟨i, hi⟩
  · rintro (hnone | ⟨i, hcount, hi⟩) lpn buf r' hwrite
    · rw [hs.write_beyond (by rw [hs.capacity_of_absent hnone]; exact Nat.zero_le lpn)] at hwrite
      exact absurd (Prod.ext_iff.1 (Option.some_inj.1 hwrite)).1 RetCode.noConfusion
    · by_cases hlpn : r.logicalCapacity ≤ lpn
      · rw [hs.write_beyond hlpn] at hwrite
        exact absurd (Prod.ext_iff.1 (Option.some_inj.1 hwrite)).1 RetCode.noConfusion
      · obtain ⟨r'', hwrite', _, _, hpage⟩ :=
          hs.write_level1 hl (Nat.lt_of_not_le hlpn) buf
        rw [hwrite'] at hwrite
        cases hwrite
        exact ⟨i, by rw [hpage, if_pos ⟨rfl, hcount, hi⟩]⟩

end Tracks

/-- The books of a run. -/
def copies (count : ℕ) (tr : List (RaidCall × (RetCode × Option PageData))) : Copies :=
  tr.foldl (Copies.next count) .start

/-- The books are right throughout a run of a mirrored array. -/
theorem run_tracks {config : RaidConfig} {r₀ : Raid}
    {tr : List (RaidCall × (RetCode × Option PageData))} (hlevel : config.level = .level1)
    (hinit : zeroed.init config = (.ok, r₀)) (hrun : machine.Run Machine.anyCall r₀ tr r) :
    r.Tracks (copies config.memberCount tr) := by
  obtain ⟨hs, hconfig, hpage⟩ := init_sound hinit
  have hstart : r₀.Tracks .start := by
    refine ⟨fun i => ?_, fun _ _ hi => hi.elim, fun _ _ hi => hi.elim, fun lpn i hi => ?_⟩
    · rw [← hs.page_isSome 0, hpage]
      exact ⟨False.elim, fun hi => absurd hi Bool.false_ne_true⟩
    · obtain ⟨d, hd⟩ := Option.isSome_iff_exists.1 ((hs.page_isSome lpn).2 hi)
      rw [hpage] at hd
      exact absurd hd.symm (Option.some_ne_none d)
  have hstep : ∀ s c k a s', (s.Sound ∧ s.config = config ∧ s.Tracks c) →
      Machine.anyCall s k → machine.step s k a s' →
      s'.Sound ∧ s'.config = config ∧ s'.Tracks (c.next config.memberCount (k, a)) := by
    rintro s c k a s' ⟨hs, hconfig, h⟩ - hstep
    have hs' := hs.exec hstep
    refine ⟨hs'.1, hs'.2.trans hconfig, ?_⟩
    rw [← hconfig]
    exact h.exec hs (by rw [hconfig, hlevel]) hstep
  exact (hrun.simulation (R := fun r c => r.Sound ∧ r.config = config ∧ r.Tracks c)
    ⟨hs, hconfig, hstart⟩ hstep).2.2

/-- **The redundancy of a mirrored array.** In every run of an array initialized at level 1, and
    for every page that has been written and of which a member that received it has stayed in
    the array: the page is read, and as last written, if and only if the first member online
    below the member count is one of those that received it and have stayed, or blank data were
    written. And writes are acknowledged only when a member stores the data if and only if the
    array has no member at all, or a member below the member count. -/
theorem mirrored_iff {k : RaidConfig} {r₀ : Raid}
    {tr : List (RaidCall × (RetCode × Option PageData))} (hlevel : k.level = .level1)
    (hinit : zeroed.init k = (.ok, r₀)) (hrun : machine.Run Machine.anyCall r₀ tr r) :
    (∀ lpn d, (copies k.memberCount tr).last lpn = some d →
      (∃ i, (copies k.memberCount tr).holders lpn i) →
      ((∀ buf, r.read lpn buf = some (.ok, d)) ↔ ∃ i, r.firstOnline = some i ∧
        ((copies k.memberCount tr).holders lpn i ∨ d = blankPage))) ∧
    ((∀ lpn buf r', r.write lpn buf = some (.ok, r') → ∃ i, r'.page i lpn = some buf) ↔
      (∀ i, r.present i ≠ true) ∨ ∃ i < k.memberCount, r.present i = true) := by
  have h := run_tracks hlevel hinit hrun
  obtain ⟨hs, rfl⟩ := run_sound hinit hrun
  exact ⟨fun lpn d hlast hholder => h.read_iff hs hlevel hlast hholder, h.write_iff hs hlevel⟩

/-- Two members, and a page written to both. -/
def mirrors : Raid :=
  let r := (((zeroed.init ⟨.level1, 2, 0⟩).2.addMember 0 true).2.addMember 1 true).2
  ((r.write 0 onesPage).getD (.ok, r)).2

/-- The members are added and the page is written in a run. -/
theorem mirrors_run : machine.Run Machine.anyCall (zeroed.init ⟨.level1, 2, 0⟩).2
    [(.addMember 0 true, (.ok, none)), (.addMember 1 true, (.ok, none)),
      (.write 0 onesPage, (.ok, none))] mirrors :=
  .snoc (.snoc (.snoc .nil trivial (show _ = some _ from rfl)) trivial
    (show _ = some _ from rfl)) trivial (show _ = some _ from rfl)

/-- The second member is removed and another one added: the first one is read. -/
theorem mirrored_iff_replaced :
    ((mirrors.removeMember 1).2.addMember 1 true).2.read 0 blankPage = some (.ok, onesPage) := by
  have hrun := (mirrors_run.snoc trivial (show machine.step _ (.removeMember 1) (.ok, none) _
    from rfl)).snoc trivial (show machine.step _ (.addMember 1 true) (.ok, none) _ from rfl)
  have hholder : ¬(0 : ℕ) = 1 ∧ 0 < 2 ∧ (0 = 1 ∨ 0 = 0 ∨ False) :=
    ⟨by decide, by decide, Or.inr (Or.inl rfl)⟩
  exact ((mirrored_iff (k := ⟨.level1, 2, 0⟩) rfl rfl hrun).1 0 onesPage rfl
    ⟨0, hholder⟩).2 ⟨0, rfl, Or.inl hholder⟩ blankPage

/-- The first member is removed and another one added: the new one is read. -/
theorem not_mirrored : ¬∀ (config : RaidConfig) (r₀ r : Raid)
    (tr : List (RaidCall × (RetCode × Option PageData))), config.level = .level1 →
    zeroed.init config = (.ok, r₀) → machine.Run Machine.anyCall r₀ tr r →
    (∀ lpn d, (copies config.memberCount tr).last lpn = some d →
      (∃ i, (copies config.memberCount tr).holders lpn i) →
      ∀ buf, r.read lpn buf = some (.ok, d)) ∧
    ∀ lpn buf r', r.write lpn buf = some (.ok, r') → ∃ i, r'.page i lpn = some buf := by
  intro hall
  have hrun := (mirrors_run.snoc trivial (show machine.step _ (.removeMember 0) (.ok, none) _
    from rfl)).snoc trivial (show machine.step _ (.addMember 0 true) (.ok, none) _ from rfl)
  have hread := (hall ⟨.level1, 2, 0⟩ _ _ _ rfl rfl hrun).1 0 onesPage rfl
    ⟨1, by decide, by decide, Or.inl rfl⟩ onesPage
  exact onesPage_ne (Prod.ext_iff.1 (Option.some_inj.1 hread)).2.symm

end Raid

end FtlFirmware
