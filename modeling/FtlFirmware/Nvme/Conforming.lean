import FtlFirmware.Nvme.Accesses

/-!
# Which transfers are exact

A transfer of vfio-user is exact if and only if the parts of it fit in their pages (`PagesFit`):
only the first entry may have an offset, unless what is left at the last one is short enough. For
vhost-user this holds of two pages at most; with more, it takes the list for the second page, so
that the list has to begin with its own address (`BackEnd.Fits`).

* `prp_transfers`: both directions are exact under these conditions, and only then; transfers of the
  two back ends that succeed agree, and what has been written is read back;
* `not_prp_transfers`: vhost-user reads three pages from the wrong places.
-/

namespace FtlFirmware

namespace Nvme

namespace Backend

section

variable (b : Backend) (prp1 prp2 : UInt64) (len : ℕ) (g : Guest)

/-- The back end finds the page `i`: there is an entry, whose page it translates. -/
def Finds (i : ℕ) : Prop :=
  ∃ addr, g.prpEntry prp1 prp2 len i = some addr ∧ b.gpaToHva g (pageBase addr) ≠ none ∧
    (i ≠ 0 → firstPage prp1 + pageSize < len → b.gpaToHva g prp2 ≠ none)

/-- The parts of the pages that the back end gets to fit in these pages. -/
def PagesFit : Prop :=
  ∀ i, partStart prp1 i < len → (∀ j ≤ i, b.Finds prp1 prp2 len g j) →
    ∀ addr, g.prpEntry prp1 prp2 len i = some addr →
      pageOffset addr + partLen prp1 len i ≤ pageSize

/-- The back end takes the entries that there are. -/
def TakesEntries : Prop :=
  ∀ i, partStart prp1 (i + 1) < len →
    b.prpNext prp1 prp2 len (partStart prp1 (i + 1)) (i + 1) ≠ .stop ∧
      ∀ addr, b.taken prp1 prp2 len g (i + 1) = some addr ↔
        g.prpEntry prp1 prp2 len (i + 1) = some addr ∧
          (firstPage prp1 + pageSize < len → b.gpaToHva g prp2 ≠ none)

/-- A transfer from the guest is exact. -/
def ReadsExactly (buf : Buffer) : Prop :=
  Exact g prp1 prp2 len (b.readLogged prp1 prp2 len g buf).1 (b.readLogged prp1 prp2 len g buf).2.2

/-- A transfer to the guest is exact. -/
def WritesExactly (data : Buffer) : Prop :=
  Exact g prp1 prp2 len (b.writeLogged prp1 prp2 len g data).1
    (b.writeLogged prp1 prp2 len g data).2.2

end

variable {b : Backend} {prp1 prp2 : UInt64} {len : ℕ} {g : Guest} {i : ℕ} {addr : UInt64} {h : Hva}

/-! ### Parts and pages -/

/-- The bytes of a page. -/
theorem partStart_succ_sub (prp1 : UInt64) (i : ℕ) :
    partStart prp1 (i + 1) - partStart prp1 i = if i = 0 then firstPage prp1 else pageSize := by
  cases i with
  | zero =>
    rw [if_pos rfl]
    show firstPage prp1 + 0 * 4096 - 0 = _
    omega
  | succ i =>
    rw [if_neg (Nat.succ_ne_zero i)]
    show firstPage prp1 + (i + 1) * 4096 - (firstPage prp1 + i * 4096) = 4096
    omega

/-- The first part fits in its page. -/
theorem first_fits : pageOffset prp1 + partLen prp1 len 0 ≤ pageSize := by
  have := pageOffset_lt prp1
  have hle : partLen prp1 len 0 ≤ firstPage prp1 := by
    rw [partLen, partStart_succ_sub, if_pos rfl]
    exact Nat.min_le_left _ _
  rw [firstPage] at hle
  omega

/-- What is taken of a page is the part if and only if the part fits. -/
theorem taken_len (haddr : g.prpEntry prp1 prp2 len i = some addr) :
    min (pageSize - pageOffset addr) (len - partStart prp1 i) = partLen prp1 len i ↔
      pageOffset addr + partLen prp1 len i ≤ pageSize := by
  have hoff := pageOffset_lt addr
  rw [partLen, partStart_succ_sub]
  by_cases hi : i = 0
  · subst hi
    cases haddr
    rw [if_pos rfl, ← firstPage]
    have := pageOffset_lt prp1
    exact iff_of_true rfl (by rw [firstPage]; omega)
  · rw [if_neg hi]
    omega

/-- The part of a page that is found. -/
theorem part_of_entry (hb : b.Sound) (hlt : partStart prp1 i < len)
    (haddr : g.prpEntry prp1 prp2 len i = some addr) (hh : b.gpaToHva g (pageBase addr) = some h) :
    g.part prp1 prp2 len i = some ((h.1, h.2 + pageOffset addr), partLen prp1 len i) := by
  rw [Guest.part, if_neg (Nat.not_le.2 hlt), haddr, Option.bind_some, hb _ _ _ hh, Option.map_some]

/-- The right part is taken of the first page. -/
theorem takes_first (hb : b.Sound) (hlt : 0 < len) : b.Takes prp1 prp2 len g 0 := by
  refine ⟨fun hne => absurd rfl hne, fun x hx => ?_⟩
  obtain ⟨addr, htaken, hmap⟩ := Option.bind_eq_some_iff.1 hx
  obtain ⟨h, hh, rfl⟩ := Option.map_eq_some_iff.1 hmap
  cases htaken
  have hentry : g.prpEntry prp1 prp2 len 0 = some prp1 := rfl
  rw [part_of_entry hb hlt hentry hh, (taken_len hentry).2 first_fits]

/-- The entry taken for a page, if all entries are taken. -/
theorem TakesEntries.taken_iff (he : b.TakesEntries prp1 prp2 len g) (hlt : partStart prp1 i < len) :
    b.taken prp1 prp2 len g i = some addr ↔ g.prpEntry prp1 prp2 len i = some addr ∧
      (i ≠ 0 → firstPage prp1 + pageSize < len → b.gpaToHva g prp2 ≠ none) := by
  cases i with
  | zero => exact ⟨fun htaken => ⟨htaken, fun hne => absurd rfl hne⟩, fun hentry => hentry.1⟩
  | succ i =>
    rw [(he i hlt).2 addr]
    exact and_congr_right fun _ => ⟨fun hlong _ => hlong, fun hlong => hlong (Nat.succ_ne_zero i)⟩

/-- A page is found if and only if a part of it is taken. -/
theorem TakesEntries.isSome_iff (he : b.TakesEntries prp1 prp2 len g)
    (hlt : partStart prp1 i < len) :
    (b.part prp1 prp2 len g i).isSome ↔ b.Finds prp1 prp2 len g i := by
  rw [Option.isSome_iff_exists]
  constructor
  · rintro ⟨x, hx⟩
    obtain ⟨addr, htaken, hmap⟩ := Option.bind_eq_some_iff.1 hx
    obtain ⟨h, hh, _⟩ := Option.map_eq_some_iff.1 hmap
    obtain ⟨hentry, hlong⟩ := (he.taken_iff hlt).1 htaken
    exact ⟨addr, hentry, fun hnone => Option.some_ne_none h (hh.symm.trans hnone), hlong⟩
  · rintro ⟨addr, hentry, hne, hlong⟩
    obtain ⟨h, hh⟩ := Option.ne_none_iff_exists'.1 hne
    rw [part, (he.taken_iff hlt).2 ⟨hentry, hlong⟩, Option.bind_some, hh]
    exact ⟨_, rfl⟩

/-- The right part is taken of a page if and only if it fits, should the page be found. -/
theorem TakesEntries.takes_iff (he : b.TakesEntries prp1 prp2 len g) (hb : b.Sound)
    (hlt : partStart prp1 i < len) : b.Takes prp1 prp2 len g i ↔
      (b.Finds prp1 prp2 len g i → ∀ addr, g.prpEntry prp1 prp2 len i = some addr →
        pageOffset addr + partLen prp1 len i ≤ pageSize) := by
  have hstop : i ≠ 0 → b.prpNext prp1 prp2 len (partStart prp1 i) i ≠ .stop := by
    intro hne
    obtain ⟨j, rfl⟩ := Nat.exists_eq_succ_of_ne_zero hne
    exact (he j hlt).1
  constructor
  · rintro ⟨_, htakes⟩ ⟨addr, hentry, hne, hlong⟩ addr' hentry'
    rw [hentry] at hentry'
    cases hentry'
    obtain ⟨h, hh⟩ := Option.ne_none_iff_exists'.1 hne
    have hpart : b.part prp1 prp2 len g i = some ((h.1, h.2 + pageOffset addr),
        min (pageSize - pageOffset addr) (len - partStart prp1 i)) := by
      rw [part, (he.taken_iff hlt).2 ⟨hentry, hlong⟩, Option.bind_some, hh, Option.map_some]
    have hg := htakes _ hpart
    rw [part_of_entry hb hlt hentry hh, Option.some_inj, Prod.mk.injEq] at hg
    exact (taken_len hentry).1 hg.2.symm
  · refine fun hfits => ⟨hstop, fun x hx => ?_⟩
    have hfinds := (he.isSome_iff hlt).1 (by rw [hx]; rfl)
    obtain ⟨addr, htaken, hmap⟩ := Option.bind_eq_some_iff.1 hx
    obtain ⟨h, hh, rfl⟩ := Option.map_eq_some_iff.1 hmap
    have hentry := ((he.taken_iff hlt).1 htaken).1
    rw [part_of_entry hb hlt hentry hh, (taken_len hentry).2 (hfits hfinds addr hentry)]

/-- All right parts are taken if and only if they fit in their pages. -/
theorem TakesEntries.takesAll_iff (he : b.TakesEntries prp1 prp2 len g) (hb : b.Sound) :
    b.TakesAll prp1 prp2 len g ↔ b.PagesFit prp1 prp2 len g := by
  have hbefore : ∀ {i j}, partStart prp1 i < len → j ≤ i → partStart prp1 j < len :=
    fun hlt hle => Nat.lt_of_le_of_lt (partStart_le hle) hlt
  constructor
  · intro htakes i hlt hfinds
    refine (he.takes_iff hb hlt).1 (htakes i hlt fun j hj => ?_) (hfinds i le_rfl)
    exact (he.isSome_iff (hbefore hlt hj.le)).2 (hfinds j hj.le)
  · intro hfit i hlt hfound
    refine (he.takes_iff hb hlt).2 fun hfinds => hfit i hlt fun j hj => ?_
    rcases Nat.eq_or_lt_of_le hj with rfl | hj
    · exact hfinds
    · exact (he.isSome_iff (hbefore hlt hj.le)).1 (hfound j hj)

/-- A back end that follows the entries takes them. -/
theorem Follows.takesEntries (hf : b.Follows prp1 prp2 len) (hb : b.Sound) :
    b.TakesEntries prp1 prp2 len g := by
  intro i hlt
  have hnext : b.prpNext prp1 prp2 len (partStart prp1 (i + 1)) (i + 1) =
      if len ≤ firstPage prp1 + pageSize then .second else .list i := hf i hlt
  by_cases htwo : len ≤ firstPage prp1 + pageSize
  · rw [if_pos htwo] at hnext
    refine ⟨by rw [hnext]; exact PrpNext.noConfusion, fun addr => ?_⟩
    rw [taken, hnext, Guest.prpEntry, if_pos htwo]
    exact ⟨fun haddr => ⟨haddr, fun hlong => absurd hlong (Nat.not_lt.2 htwo)⟩, fun h => h.1⟩
  · rw [if_neg htwo] at hnext
    refine ⟨by rw [hnext]; exact PrpNext.noConfusion, fun addr => ?_⟩
    rw [taken, hnext, Guest.prpEntry, if_neg htwo]
    dsimp only
    cases hl : b.gpaToHva g prp2 with
    | none =>
      rw [Option.map_none]
      exact ⟨fun h => absurd h (by simp), fun h => absurd rfl (h.2 (Nat.lt_of_not_le htwo))⟩
    | some l =>
      rw [Option.map_some, hb _ _ _ hl, Option.map_some]
      exact ⟨fun haddr => ⟨haddr, fun _ => Option.some_ne_none l⟩, fun h => h.1⟩

end Backend

/-! ### The back ends -/

variable {prp1 prp2 addr : UInt64} {len : ℕ} {g : Guest} {h : Hva} {i : ℕ}

theorem Vfio.regular : Vfio.backend.Regular where
  sound := Vfio.sound
  regions g g' hregions := by
    funext gpa
    show Vfio.gpaToHva g' gpa = Vfio.gpaToHva g gpa
    rw [Vfio.gpaToHva, Vfio.gpaToHva, Backend.locate_congr hregions]
  list prp1 prp2 len i j hlt hnext := by
    change Vfio.prpNext prp1 prp2 len (partStart prp1 (i + 1)) (i + 1) = .list j at hnext
    rw [Vfio.prpNext, ← firstPage] at hnext
    split_ifs at hnext with hlong
    cases hnext
    exact ⟨rfl, hlong⟩

theorem Vhost.regular : Vhost.backend.Regular where
  sound := Vhost.sound
  regions g g' hregions := by
    funext gpa
    exact Backend.locate_congr hregions gpa
  list prp1 prp2 len i j hlt hnext := by
    change Vhost.prpNext prp1 prp2 len (firstPage prp1 + i * 4096) (i + 1) = .list j at hnext
    rw [Vhost.prpNext, ← firstPage] at hnext
    split_ifs at hnext with hlist
    cases hnext
    have hlt' : firstPage prp1 + i * 4096 < len := hlt
    refine ⟨?_, ?_⟩
    · show (firstPage prp1 + i * 4096 - firstPage prp1) / 4096 = i
      rw [Nat.add_sub_cancel_left, Nat.mul_div_cancel i (by decide)]
    · have := hlist.2
      show firstPage prp1 + 4096 < len
      rcases Nat.eq_zero_or_pos i with rfl | hpos
      · omega
      · omega

/-- An address is the start of its page and the offset. -/
theorem pageBase_add_pageOffset (addr : UInt64) :
    pageBase addr + UInt64.ofNat (pageOffset addr) = addr := by
  have hzero : (addr &&& 0xFFF) &&& pageBase addr = 0 := by
    rw [pageBase, UInt64.and_comm addr (~~~0xFFF), UInt64.and_assoc, ← UInt64.and_assoc 0xFFF,
      show (0xFFF &&& ~~~0xFFF : UInt64) = 0 from rfl, UInt64.zero_and, UInt64.and_zero]
  have hadd : (addr &&& 0xFFF) + pageBase addr = (addr &&& 0xFFF) ||| pageBase addr :=
    UInt64.toBitVec_inj.1 (BitVec.add_eq_or_of_and_eq_zero _ _ (congrArg UInt64.toBitVec hzero))
  rw [pageOffset, UInt64.ofNat_toNat, UInt64.add_comm, hadd, or_pageBase]

namespace Vhost

variable (prp1 prp2 len g)

/-- The parts of a transfer of vhost-user fit: if there are more than two pages, and the first page
    and the page of the second entry are in memory, this entry is the first one of its list. -/
def Fits : Prop :=
  if len ≤ firstPage prp1 + pageSize then backend.PagesFit prp1 prp2 len g
  else g.locate (pageBase prp1) ≠ none → g.locate (pageBase prp2) ≠ none →
    g.prpEntry prp1 prp2 len 1 = some prp2 ∧ backend.PagesFit prp1 prp2 len g

variable {prp1 prp2 len g}

/-- The second page is the one of the second entry. -/
theorem prpNext_first : backend.prpNext prp1 prp2 len (partStart prp1 1) 1 = .second := by
  show prpNext prp1 prp2 len (firstPage prp1 + 0 * 4096) 1 = .second
  rw [prpNext, ← firstPage, Nat.zero_mul, Nat.add_zero]
  rw [if_neg fun hlist => absurd hlist.2 (Nat.lt_irrefl _), if_pos rfl]

/-- The pages after the second one are those of the list, if the second entry is at the start of a
    page. -/
theorem prpNext_list (hoff : pageOffset prp2 = 0) :
    backend.prpNext prp1 prp2 len (partStart prp1 (i + 2)) (i + 2) = .list (i + 1) := by
  show prpNext prp1 prp2 len (firstPage prp1 + (i + 1) * 4096) (i + 2) = .list (i + 1)
  rw [prpNext, ← firstPage]
  rw [if_pos ⟨hoff, by omega⟩, Nat.add_sub_cancel_left]
  exact congrArg PrpNext.list (Nat.mul_div_cancel (i + 1) (by decide))

/-- A list that begins with its own address gives all entries. -/
theorem takesEntries_list (hlong : firstPage prp1 + pageSize < len)
    (hentry : g.prpEntry prp1 prp2 len 1 = some prp2) (hoff : pageOffset prp2 = 0) :
    backend.TakesEntries prp1 prp2 len g := by
  have hlist : ∀ j, g.prpEntry prp1 prp2 len (j + 1) =
      (g.locate prp2).map fun l => (g.bytesAt l).le64 (8 * j) := fun j => by
    rw [Guest.prpEntry, if_neg (Nat.not_le.2 hlong)]
  have hfound : g.locate prp2 ≠ none := by
    intro hnone
    rw [hlist 0, hnone, Option.map_none] at hentry
    cases hentry
  intro i _
  cases i with
  | zero =>
    refine ⟨by rw [prpNext_first]; exact PrpNext.noConfusion, fun addr => ?_⟩
    rw [Backend.taken, prpNext_first, hentry]
    exact ⟨fun haddr => ⟨haddr, fun _ => hfound⟩, fun h => h.1⟩
  | succ i =>
    refine ⟨by rw [prpNext_list hoff]; exact PrpNext.noConfusion, fun addr => ?_⟩
    rw [Backend.taken, prpNext_list hoff, hlist]
    exact ⟨fun haddr => ⟨haddr, fun _ => hfound⟩, fun h => h.1⟩

/-- If the right part is taken for the second page, the list begins with its own address. -/
theorem entry_of_takes (hlong : firstPage prp1 + pageSize < len)
    (hfirst : g.locate (pageBase prp1) ≠ none) (hsecond : g.locate (pageBase prp2) ≠ none)
    (htakes : backend.TakesAll prp1 prp2 len g) :
    g.prpEntry prp1 prp2 len 1 = some prp2 ∧ pageOffset prp2 = 0 := by
  obtain ⟨h₁, hh₁⟩ := Option.ne_none_iff_exists'.1 hfirst
  obtain ⟨h₂, hh₂⟩ := Option.ne_none_iff_exists'.1 hsecond
  have hstart : partStart prp1 1 = firstPage prp1 := Nat.add_zero _
  have htake := htakes 1 (by rw [hstart]; omega) fun j hj => by
    obtain rfl := Nat.lt_one_iff.1 hj
    rw [Backend.part, Backend.taken, Option.bind_some, show backend.gpaToHva g (pageBase prp1) =
      some h₁ from hh₁]
    rfl
  have hpart : backend.part prp1 prp2 len g 1 = some ((h₂.1, h₂.2 + pageOffset prp2),
      min (pageSize - pageOffset prp2) (len - partStart prp1 1)) := by
    rw [Backend.part, Backend.taken, prpNext_first, Option.bind_some,
      show backend.gpaToHva g (pageBase prp2) = some h₂ from hh₂, Option.map_some]
  have hg := htake.2 _ hpart
  -- The chunk is a whole page, so that the second entry is at the start of one.
  have hlen := Guest.part_len hg
  rw [partLen, Backend.partStart_succ_sub, if_neg one_ne_zero, hstart] at hlen
  have hoff : pageOffset prp2 = 0 := by
    have := pageOffset_lt prp2
    dsimp only at hlen
    omega
  refine ⟨?_, hoff⟩
  rw [Guest.part, if_neg (by rw [hstart]; omega)] at hg
  obtain ⟨addr, hentry, hmap⟩ := Option.bind_eq_some_iff.1 hg
  obtain ⟨h, hh, heq⟩ := Option.map_eq_some_iff.1 hmap
  rw [Prod.mk.injEq, Prod.mk.injEq] at heq
  have haddr := pageBase_add_pageOffset addr
  have hprp2 := (Guest.locate_eq hh₂).1
  rw [pageBase_of_offset hoff] at hprp2
  rw [(Guest.locate_eq hh).1, heq.1.1, UInt64.add_assoc, ← UInt64.ofNat_add, heq.1.2, hoff,
    Nat.add_zero, ← hprp2] at haddr
  rw [hentry, ← haddr]

/-- All right parts are taken if and only if they fit. -/
theorem takesAll_iff : backend.TakesAll prp1 prp2 len g ↔ Fits prp1 prp2 len g := by
  rw [Fits]
  split_ifs with htwo
  · exact ((Vhost.follows htwo).takesEntries sound).takesAll_iff sound
  have hlong := Nat.lt_of_not_le htwo
  constructor
  · intro htakes hfirst hsecond
    obtain ⟨hentry, hoff⟩ := entry_of_takes hlong hfirst hsecond htakes
    exact ⟨hentry, ((takesEntries_list hlong hentry hoff).takesAll_iff sound).1 htakes⟩
  · intro hfits
    have hstart : partStart prp1 1 = firstPage prp1 := Nat.add_zero _
    by_cases hfirst : g.locate (pageBase prp1) = none
    · -- The first page is not found, and nothing is taken.
      have hnone : backend.part prp1 prp2 len g 0 = none := by
        rw [Backend.part, Backend.taken, Option.bind_some,
          show backend.gpaToHva g (pageBase prp1) = none from hfirst, Option.map_none]
      intro i hlt hfound
      rcases Nat.eq_zero_or_pos i with rfl | hpos
      · exact Backend.takes_first sound hlt
      · exact absurd (hfound 0 hpos) (by rw [hnone]; exact Bool.false_ne_true)
    by_cases hsecond : g.locate (pageBase prp2) = none
    · -- Nothing is taken after the first page.
      have hnone : backend.part prp1 prp2 len g 1 = none := by
        rw [Backend.part, Backend.taken, prpNext_first, Option.bind_some,
          show backend.gpaToHva g (pageBase prp2) = none from hsecond, Option.map_none]
      intro i hlt hfound
      rcases Nat.lt_or_ge 1 i with hi | hi
      · exact absurd (hfound 1 hi) (by rw [hnone]; exact Bool.false_ne_true)
      · rcases Nat.le_one_iff_eq_zero_or_eq_one.1 hi with rfl | rfl
        · exact Backend.takes_first sound hlt
        · refine ⟨fun _ => by rw [prpNext_first]; exact PrpNext.noConfusion, fun x hx => ?_⟩
          rw [hnone] at hx
          cases hx
    obtain ⟨hentry, hfit⟩ := hfits hfirst hsecond
    have hlist : g.locate prp2 ≠ none := by
      intro hnone
      rw [Guest.prpEntry, if_neg htwo, hnone, Option.map_none] at hentry
      cases hentry
    have hoff := hfit 1 (by rw [hstart]; omega) (fun j hj => ?_) prp2 hentry
    · rw [partLen, Backend.partStart_succ_sub, if_neg one_ne_zero, hstart] at hoff
      exact ((takesEntries_list hlong hentry (by omega)).takesAll_iff sound).2 hfit
    · rcases Nat.le_one_iff_eq_zero_or_eq_one.1 hj with rfl | rfl
      · exact ⟨prp1, rfl, hfirst, fun hne => absurd rfl hne⟩
      · exact ⟨prp2, hentry, hsecond, fun _ _ => hlist⟩

end Vhost

/-- All right parts of a transfer of vfio-user are taken if and only if they fit. -/
theorem Vfio.takesAll_iff :
    Vfio.backend.TakesAll prp1 prp2 len g ↔ Vfio.backend.PagesFit prp1 prp2 len g :=
  ((Vfio.follows prp1 prp2 len).takesEntries Vfio.sound).takesAll_iff Vfio.sound

/-- The two back ends. -/
inductive BackEnd
  | vfio
  | vhost
  deriving DecidableEq, Repr

namespace BackEnd

/-- How the back end transfers data. -/
def backend : BackEnd → Backend
  | vfio => Vfio.backend
  | vhost => Vhost.backend

/-- The parts of a transfer fit. -/
def Fits (prp1 prp2 : UInt64) (len : ℕ) (g : Guest) : BackEnd → Prop
  | vfio => Vfio.backend.PagesFit prp1 prp2 len g
  | vhost => Vhost.Fits prp1 prp2 len g

theorem regular (x : BackEnd) : x.backend.Regular := by
  cases x with
  | vfio => exact Vfio.regular
  | vhost => exact Vhost.regular

theorem takesAll_iff (x : BackEnd) :
    x.backend.TakesAll prp1 prp2 len g ↔ x.Fits prp1 prp2 len g := by
  cases x with
  | vfio => exact Vfio.takesAll_iff
  | vhost => exact Vhost.takesAll_iff

/-- Whether a transfer from the guest succeeds. -/
theorem read_ok_iff {x : BackEnd} {buf : Buffer} (hfits : x.Fits prp1 prp2 len g) :
    (x.backend.prpReadData prp1 prp2 len g buf).1 = true ↔
      x.backend.FindsAll prp1 prp2 len g := by
  rw [Backend.prpReadData_eq]
  exact (Backend.read_outcome x.regular buf).whole.2 (x.takesAll_iff.2 hfits)

/-- Whether a transfer to the guest succeeds. -/
theorem write_ok_iff {x : BackEnd} {data : Buffer} (hfits : x.Fits prp1 prp2 len g)
    (hapart : ListApart g prp1 prp2 len) :
    (x.backend.prpWriteData prp1 prp2 len data g).1 = true ↔
      x.backend.FindsAll prp1 prp2 len g := by
  rw [Backend.prpWriteData_eq]
  exact (Backend.write_outcome x.regular hapart data).whole.2 (x.takesAll_iff.2 hfits)

end BackEnd

/-! ## The law -/

/-- A transfer of a back end from the guest is exact if and only if its parts fit, and so is one to
    the guest that does not overwrite entries of its list before it reads them. Transfers of the two
    back ends whose parts fit agree, if they succeed. Data that has been written to parts that do
    not overlap is read back by the same back end, and by the other one if it finds the pages. -/
theorem prp_transfers (x y : BackEnd) (g : Guest) (prp1 prp2 : UInt64) (len : ℕ)
    (data buf : Buffer) :
    (x.backend.ReadsExactly prp1 prp2 len g buf ↔ x.Fits prp1 prp2 len g) ∧
    (ListApart g prp1 prp2 len →
      (x.backend.WritesExactly prp1 prp2 len g data ↔ x.Fits prp1 prp2 len g)) ∧
    (x.Fits prp1 prp2 len g → y.Fits prp1 prp2 len g →
      (x.backend.prpReadData prp1 prp2 len g buf).1 = true →
      (y.backend.prpReadData prp1 prp2 len g buf).1 = true →
        (x.backend.prpReadData prp1 prp2 len g buf).2 =
          (y.backend.prpReadData prp1 prp2 len g buf).2 ∧
        (ListApart g prp1 prp2 len → (x.backend.prpWriteData prp1 prp2 len data g).2 =
          (y.backend.prpWriteData prp1 prp2 len data g).2)) ∧
    (Apart g prp1 prp2 len → x.Fits prp1 prp2 len g → y.Fits prp1 prp2 len g →
      (x.backend.prpWriteData prp1 prp2 len data g).1 = true →
      (x = y ∨ (y.backend.prpReadData prp1 prp2 len g buf).1 = true) →
        let g' := (x.backend.prpWriteData prp1 prp2 len data g).2
        (y.backend.prpReadData prp1 prp2 len g' buf).1 = true ∧
          ∀ k < len, (y.backend.prpReadData prp1 prp2 len g' buf).2 k = data k) := by
  refine ⟨(Backend.read_outcome x.regular buf).whole.1.trans x.takesAll_iff, fun hapart =>
    (Backend.write_outcome x.regular hapart data).whole.1.trans x.takesAll_iff,
    fun hx hy hokx hoky => ?_, fun hapart hx hy hokx hoky => ?_⟩
  · have htakes := x.takesAll_iff.2 hx
    have htakes' := y.takesAll_iff.2 hy
    have hfinds := (BackEnd.read_ok_iff hx).1 hokx
    have hfinds' := (BackEnd.read_ok_iff hy).1 hoky
    exact ⟨Backend.read_agree x.regular y.regular htakes htakes' hfinds hfinds', fun hapart =>
      Backend.write_agree x.regular y.regular hapart htakes htakes' hfinds hfinds'⟩
  · have htakes := x.takesAll_iff.2 hx
    have htakes' := y.takesAll_iff.2 hy
    have hfinds := (BackEnd.write_ok_iff hx hapart.list).1 hokx
    have hfinds' : y.backend.FindsAll prp1 prp2 len g := by
      rcases hoky with rfl | hoky
      · exact hfinds
      · exact (BackEnd.read_ok_iff hy).1 hoky
    have hsame := (Backend.write_part x.regular hapart htakes hfinds data).1
    have hfits : y.Fits prp1 prp2 len (x.backend.prpWriteData prp1 prp2 len data g).2 :=
      y.takesAll_iff.1 (htakes'.same y.regular hsame)
    exact ⟨(BackEnd.read_ok_iff hfits).2 (hfinds'.same y.regular hsame), fun k hk =>
      Backend.read_written x.regular y.regular hapart htakes htakes' hfinds hfinds' hk⟩

/-- A guest with 64 KiB of memory from the address `0x1000` on. Its list at `0x4000` names the
    pages at `0x2000` and `0x3000`. -/
def listGuest : Guest where
  regions := [⟨0x1000, 0x10000⟩]
  mem _ k := if k = 0x3001 then 0x20 else if k = 0x3009 then 0x30 else 0

/-- Two whole pages, next to each other. -/
theorem listGuest_part {i : ℕ} {x : Part} (h : listGuest.part 0x1000 0x2000 8192 i = some x) :
    i < 2 ∧ x = ((0, i * 4096), 4096) := by
  have hlt := Guest.part_lt h
  have hi : i < 2 := by
    by_contra hle
    have hstart : partStart 0x1000 2 ≤ partStart 0x1000 i := partStart_le (Nat.le_of_not_lt hle)
    rw [show partStart 0x1000 2 = 8192 from rfl] at hstart
    omega
  refine ⟨hi, ?_⟩
  have hfirst : listGuest.part 0x1000 0x2000 8192 0 = some ((0, 0), 4096) := by decide
  have hsecond : listGuest.part 0x1000 0x2000 8192 1 = some ((0, 4096), 4096) := by decide
  rcases Nat.le_one_iff_eq_zero_or_eq_one.1 (Nat.le_of_lt_succ hi) with rfl | rfl
  · exact (Option.some.inj (hfirst.symm.trans h)).symm
  · exact (Option.some.inj (hsecond.symm.trans h)).symm

/-- The data of two pages is read back by the other back end. -/
theorem prp_transfers_two : (Vhost.backend.prpReadData 0x1000 0x2000 8192
    (Vfio.backend.prpWriteData 0x1000 0x2000 8192 (fun _ => 7) listGuest).2 fun _ => 0).2 5000 =
      7 := by
  have hfit : ∀ b : Backend, b.PagesFit 0x1000 0x2000 8192 listGuest := by
    intro b i hlt _ addr haddr
    rcases Nat.eq_zero_or_pos i with rfl | hpos
    · cases haddr
      exact Backend.first_fits
    · obtain ⟨i, rfl⟩ := Nat.exists_eq_succ_of_ne_zero (Nat.ne_of_gt hpos)
      rw [Guest.prpEntry, if_pos (by decide), Option.some_inj] at haddr
      subst haddr
      rw [show pageOffset 0x2000 = 0 from rfl, partLen, Backend.partStart_succ_sub,
        if_neg (Nat.succ_ne_zero i), Nat.zero_add]
      exact Nat.min_le_left _ _
  -- Two pages need no list, and they are different ones.
  have hapart : Apart listGuest 0x1000 0x2000 8192 := by
    refine ⟨fun hlong => absurd hlong (by decide), ?_⟩
    intro i j h h' chunk chunk' hi hj hne x hx y hy heq
    obtain ⟨_, hi⟩ := listGuest_part hi
    obtain ⟨_, hj⟩ := listGuest_part hj
    cases hi
    cases hj
    have := (Prod.mk.inj heq).2
    omega
  have htwo : 8192 ≤ firstPage 0x1000 + pageSize := by decide
  have hfinds : ∀ b : Backend, b.TakesEntries 0x1000 0x2000 8192 listGuest →
      (∀ addr, addr = 0x1000 ∨ addr = 0x2000 → b.gpaToHva listGuest addr ≠ none) →
        b.FindsAll 0x1000 0x2000 8192 listGuest := by
    intro b he hgpa i hlt
    refine (he.isSome_iff hlt).2 ?_
    rcases Nat.eq_zero_or_pos i with rfl | hpos
    · exact ⟨0x1000, rfl, hgpa _ (Or.inl rfl), fun hne => absurd rfl hne⟩
    · obtain ⟨i, rfl⟩ := Nat.exists_eq_succ_of_ne_zero (Nat.ne_of_gt hpos)
      have hsecond : listGuest.prpEntry 0x1000 0x2000 8192 (i + 1) = some 0x2000 := by
        rw [Guest.prpEntry, if_pos htwo]
      exact ⟨0x2000, hsecond, hgpa _ (Or.inr rfl), fun _ hlong =>
        absurd hlong (Nat.not_lt.2 htwo)⟩
  have hvfio := hfinds Vfio.backend ((Vfio.follows _ _ _).takesEntries Vfio.sound) (by
    rintro addr (rfl | rfl) <;> decide)
  have hvhost := hfinds Vhost.backend ((Vhost.follows htwo).takesEntries Vhost.sound) (by
    rintro addr (rfl | rfl) <;> decide)
  have hx : BackEnd.vfio.Fits 0x1000 0x2000 8192 listGuest := hfit _
  have hy : BackEnd.vhost.Fits 0x1000 0x2000 8192 listGuest := by
    show Vhost.Fits 0x1000 0x2000 8192 listGuest
    rw [Vhost.Fits, if_pos (by decide)]
    exact hfit _
  exact ((prp_transfers .vfio .vhost listGuest 0x1000 0x2000 8192 (fun _ => 7) fun _ => 0).2.2.2
    hapart hx hy ((BackEnd.write_ok_iff hx hapart.list).2 hvfio)
    (Or.inr ((BackEnd.read_ok_iff hy).2 hvhost))).2 5000 (by decide)

/-- vhost-user takes the list of a transfer of three pages for the second page. -/
theorem not_prp_transfers : ¬ ∀ (x : BackEnd) (g : Guest) (prp1 prp2 : UInt64) (len : ℕ)
    (buf : Buffer), x.backend.ReadsExactly prp1 prp2 len g buf := by
  intro hall
  have hfits := (BackEnd.takesAll_iff .vhost).1 ((Backend.read_outcome Vhost.regular _).whole.1.1
    (hall .vhost listGuest 0x1000 0x4000 12288 fun _ => 0))
  change Vhost.Fits 0x1000 0x4000 12288 listGuest at hfits
  rw [Vhost.Fits, if_neg (by decide)] at hfits
  have hentry := (hfits (by decide) (by decide)).1
  exact absurd hentry (by decide)

end Nvme

end FtlFirmware
