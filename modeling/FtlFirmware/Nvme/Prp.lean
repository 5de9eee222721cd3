import FtlFirmware.Nvme.Guest

/-!
# The data that the entries of a command describe

Where the bytes of a transfer are in the memory of a guest, as the two entries of the command have
it (`Located`), and what the back ends make of it: the bytes that they copy are those, as long as
they find the pages where the entries have them (`Backend.Follows`).

* `Backend.prpReadData_located`: the buffer has the bytes of the guest;
* `Backend.prpWriteData_located`: the guest has the bytes of the buffer.

The back end for vfio-user finds all pages (`Vfio.follows`), the one for vhost-user those of a
transfer with two pages at most (`Vhost.follows`).
-/

namespace FtlFirmware

namespace Nvme

/-! ## Pages -/

theorem pageOffset_lt (addr : UInt64) : pageOffset addr < pageSize := by
  rw [pageOffset, UInt64.toNat_and]
  exact Nat.lt_succ_of_le Nat.and_le_right

/-- The bits of an address: those of its offset, and those of its page. -/
theorem or_pageBase (addr : UInt64) : addr &&& 0xFFF ||| pageBase addr = addr := by
  have hsplit : addr &&& (0xFFF ||| ~~~0xFFF) = addr &&& 0xFFF ||| addr &&& ~~~0xFFF :=
    UInt64.toBitVec_inj.1 BitVec.and_or_distrib_left
  rw [show (0xFFF ||| ~~~0xFFF : UInt64) = -1 from rfl, UInt64.and_neg_one] at hsplit
  exact hsplit.symm

/-- The start of a page is in this page. -/
theorem pageBase_of_offset {addr : UInt64} (h : pageOffset addr = 0) : pageBase addr = addr := by
  have h0 : addr &&& 0xFFF = 0 := UInt64.toNat_inj.1 h
  have hor := or_pageBase addr
  rwa [h0, UInt64.zero_or] at hor

/-- The bytes of a transfer in its first page, if it is long enough. -/
def firstPage (prp1 : UInt64) : ℕ := pageSize - pageOffset prp1

theorem firstPage_pos (prp1 : UInt64) : 0 < firstPage prp1 := Nat.sub_pos_of_lt (pageOffset_lt prp1)

/-! ## The bytes of a transfer -/

section

variable (g : Guest) (prp1 prp2 : UInt64) (len : ℕ)

/-- The entry of a page: the first one, the second one, or one of the list. -/
def Guest.prpEntry : ℕ → Option UInt64
  | 0 => some prp1
  | j + 1 =>
    if len ≤ firstPage prp1 + pageSize then some prp2
    else (g.locate prp2).map fun l => (g.bytesAt l).le64 (8 * j)

/-- The byte `k` of the transfer is the one at `loc k`. Only the first page need not be used from
    its start on. A list does not go over the end of its page, where it would go on elsewhere. -/
structure Located (loc : ℕ → Hva) : Prop where
  first : ∃ h, g.locate (pageBase prp1) = some h ∧
    ∀ k < firstPage prp1, k < len → loc k = (h.1, h.2 + pageOffset prp1 + k)
  page (j : ℕ) : firstPage prp1 + j * pageSize < len → ∃ addr h,
    g.prpEntry prp1 prp2 len (j + 1) = some addr ∧ pageOffset addr = 0 ∧ g.locate addr = some h ∧
      ∀ k < pageSize, firstPage prp1 + j * pageSize + k < len →
        loc (firstPage prp1 + j * pageSize + k) = (h.1, h.2 + k)
  list (j : ℕ) : firstPage prp1 + pageSize < len → firstPage prp1 + j * pageSize < len →
    pageOffset prp2 + 8 * (j + 1) ≤ pageSize

/-- The entries describe the data. -/
def Describes (data : Buffer) : Prop :=
  ∃ loc, Located g prp1 prp2 len loc ∧ ∀ k < len, data k = g.mem (loc k).1 (loc k).2

end

/-! ## Going through the pages -/

namespace Backend

variable {b : Backend} {σ : Type} {guest : σ → Guest} {copy : Hva → (offset chunk : ℕ) → σ → σ}
  {prp1 prp2 : UInt64} {len : ℕ} {g g' : Guest} {loc : ℕ → Hva}

/-- The back end translates an address, if it does, as the regions have it. -/
def Sound (b : Backend) : Prop := ∀ g addr h, b.gpaToHva g addr = some h → g.locate addr = some h

/-- The back end translates all addresses that the regions have. -/
def Total (b : Backend) : Prop := ∀ g addr h, g.locate addr = some h → b.gpaToHva g addr ≠ none

/-- After each page, the back end finds the next one where the entries have it. -/
def Follows (b : Backend) (prp1 prp2 : UInt64) (len : ℕ) : Prop :=
  ∀ j, firstPage prp1 + j * pageSize < len →
    b.prpNext prp1 prp2 len (firstPage prp1 + j * pageSize) (j + 1) =
      if len ≤ firstPage prp1 + pageSize then .second else .list j

/-- What holds after some bytes have been copied: it does not touch the regions nor the list, and
    copying more bytes from where they are keeps it. -/
structure Copies (g : Guest) (prp1 prp2 : UInt64) (len : ℕ) (loc : ℕ → Hva) (guest : σ → Guest)
    (copy : Hva → (offset chunk : ℕ) → σ → σ) (I : ℕ → σ → Prop) : Prop where
  regions (offset : ℕ) (s : σ) : I offset s → (guest s).regions = g.regions
  list (offset : ℕ) (s : σ) : I offset s → firstPage prp1 + pageSize < len → ∀ l,
    g.locate prp2 = some l → ∀ j, firstPage prp1 + j * pageSize < len →
      ((guest s).bytesAt l).le64 (8 * j) = (g.bytesAt l).le64 (8 * j)
  copy (offset chunk : ℕ) (h : Hva) (s : σ) : I offset s → offset + chunk ≤ len →
    (∀ k < chunk, loc (offset + k) = (h.1, h.2 + k)) → I (offset + chunk) (copy h offset chunk s)

/-- Before a page is copied: the bytes and the pages that precede it, and its entry. -/
inductive AtPage (g : Guest) (prp1 prp2 : UInt64) (len : ℕ) : UInt64 → ℕ → ℕ → Prop
  | first : AtPage g prp1 prp2 len prp1 0 0
  | next {j : ℕ} {addr : UInt64} (hlt : firstPage prp1 + j * pageSize < len)
      (h : g.prpEntry prp1 prp2 len (j + 1) = some addr) :
      AtPage g prp1 prp2 len addr (firstPage prp1 + j * pageSize) (j + 1)

theorem locate_congr (h : g'.regions = g.regions) (addr : UInt64) :
    g'.locate addr = g.locate addr := by
  rw [Guest.locate, Guest.locate, h]

/-- The bytes of the page that is to be copied are where the entry has them. -/
theorem AtPage.located {addr : UInt64} {offset pages : ℕ} (hloc : Located g prp1 prp2 len loc)
    (h : AtPage g prp1 prp2 len addr offset pages) :
    ∃ hva, g.locate (pageBase addr) = some hva ∧
      (∀ k < pageSize - pageOffset addr, offset + k < len →
        loc (offset + k) = (hva.1, hva.2 + pageOffset addr + k)) ∧
      offset + (pageSize - pageOffset addr) = firstPage prp1 + pages * pageSize := by
  cases h with
  | first =>
    obtain ⟨hva, hl, hk⟩ := hloc.first
    refine ⟨hva, hl, fun k hk' hlen => ?_, ?_⟩
    · rw [Nat.zero_add] at hlen ⊢
      exact hk k hk' hlen
    · rw [Nat.zero_add, Nat.zero_mul, Nat.add_zero]
      rfl
  | next hlt hentry =>
    obtain ⟨addr', hva, hentry', hoff, hl, hk⟩ := hloc.page _ hlt
    rw [hentry] at hentry'
    cases hentry'
    refine ⟨hva, by rw [pageBase_of_offset hoff]; exact hl, fun k hk' hlen => ?_, ?_⟩
    · rw [hoff] at hk' ⊢
      exact hk k hk' hlen
    · rw [hoff, Nat.sub_zero, Nat.add_assoc, ← Nat.succ_mul]

/-- Going through the pages copies all bytes, unless the back end does not translate an address
    that the regions have. -/
theorem prpPages_copies {I : ℕ → σ → Prop} (hloc : Located g prp1 prp2 len loc) (hb : b.Sound)
    (hf : b.Follows prp1 prp2 len) (hI : Copies g prp1 prp2 len loc guest copy I) {n : ℕ}
    {addr : UInt64} {offset pages : ℕ} {s : σ} (hat : AtPage g prp1 prp2 len addr offset pages)
    (hle : offset ≤ len) (hn : len ≤ offset + n) (hs : I offset s) {r : Bool × σ}
    (h : b.prpPages guest copy prp1 prp2 len n addr offset pages s = r) :
    (r.1 = true → I len r.2) ∧ (b.Total → r.1 = true) := by
  induction n generalizing addr offset pages s with
  | zero =>
    subst h
    exact ⟨fun _ => by rwa [← Nat.le_antisymm hle hn], fun _ => rfl⟩
  | succ n ih =>
    rw [prpPages] at h
    by_cases hend : len ≤ offset
    · rw [if_pos hend] at h
      subst h
      exact ⟨fun _ => by rwa [← Nat.le_antisymm hle hend], fun _ => rfl⟩
    rw [if_neg hend] at h
    obtain ⟨hva, hl, hk, hpages⟩ := hat.located hloc
    have hlt := pageOffset_lt addr
    rw [← locate_congr (hI.regions _ _ hs)] at hl
    dsimp only at h
    split at h
    next hnone =>
      subst h
      exact ⟨fun h => absurd h (by simp), fun htotal => absurd hnone (htotal _ _ _ hl)⟩
    next hva' hbase =>
    obtain rfl : hva = hva' := Option.some.inj (hl.symm.trans (hb _ _ _ hbase))
    -- The chunk that is copied ends with the page, or with the transfer.
    generalize hchunk : min (pageSize - pageOffset addr) (len - offset) = chunk at h
    have hs' := hI.copy offset chunk (hva.1, hva.2 + pageOffset addr) s hs (by omega)
      fun k hk' => hk k (by omega) (by omega)
    by_cases hend' : len ≤ offset + chunk
    · rw [if_pos hend'] at h
      subst h
      exact ⟨fun _ => by rwa [show len = offset + chunk by omega], fun _ => rfl⟩
    rw [if_neg hend'] at h
    have hnext : offset + chunk = firstPage prp1 + pages * pageSize := by omega
    rw [hnext] at h hs' hend'
    rw [hf pages (by omega)] at h
    by_cases htwo : len ≤ firstPage prp1 + pageSize
    · rw [if_pos htwo] at h
      refine ih (.next (by omega) ?_) (by omega) (by omega) hs' h
      rw [Guest.prpEntry, if_pos htwo]
    · rw [if_neg htwo] at h
      have hregions := locate_congr (hI.regions _ _ hs') prp2
      dsimp only at h
      split at h
      next hnone =>
        subst h
        refine ⟨fun h => absurd h (by simp), fun htotal => ?_⟩
        obtain ⟨_, _, hentry, _⟩ := hloc.page pages (by omega)
        rw [Guest.prpEntry, if_neg htwo] at hentry
        obtain ⟨l, hl2, _⟩ := Option.map_eq_some_iff.1 hentry
        exact absurd hnone (htotal _ _ _ (hregions.trans hl2))
      next l hl2 =>
      have hl2' := hregions.symm.trans (hb _ _ _ hl2)
      rw [hI.list _ _ hs' (by omega) l hl2' pages (by omega)] at h
      refine ih (.next (by omega) ?_) (by omega) (by omega) hs' h
      rw [Guest.prpEntry, if_neg htwo, hl2', Option.map_some]

/-! ## Reading from the guest -/

/-- The buffer gets the bytes of the transfer. -/
theorem prpReadData_located (hloc : Located g prp1 prp2 len loc) (hb : b.Sound)
    (hf : b.Follows prp1 prp2 len) {buf : Buffer}
    (h : (b.prpReadData prp1 prp2 len g buf).1 = true) :
    ∀ k < len, (b.prpReadData prp1 prp2 len g buf).2 k = g.mem (loc k).1 (loc k).2 := by
  refine (prpPages_copies (I := fun offset buf => ∀ k < offset, buf k = g.mem (loc k).1 (loc k).2)
    hloc hb hf ⟨fun _ _ _ => rfl, fun _ _ _ _ _ _ _ _ => rfl, ?_⟩ .first (Nat.zero_le _)
    (by omega) (fun k hk => absurd hk (Nat.not_lt_zero k)) rfl).1 h
  intro offset chunk hva buf hbuf _ hchunk k hk
  rw [Buffer.store]
  by_cases hlt : offset ≤ k
  · rw [if_pos ⟨hlt, hk⟩, Guest.bytesAt]
    have hk' := hchunk (k - offset) (by omega)
    rw [Nat.add_sub_cancel' hlt] at hk'
    rw [hk']
  · rw [if_neg fun hc => hlt hc.1]
    exact hbuf k (by omega)

/-! ## Writing to the guest -/

end Backend

/-- The pages of a transfer do not overlap each other, nor the list of them. -/
structure Disjoint (g : Guest) (prp1 prp2 : UInt64) (len : ℕ) (loc : ℕ → Hva) : Prop where
  inj {k j : ℕ} : k < len → j < len → loc k = loc j → k = j
  list {k : ℕ} {l : Hva} : k < len → firstPage prp1 + pageSize < len → g.locate prp2 = some l →
    ∀ j, firstPage prp1 + j * pageSize < len → ∀ i < 8, loc k ≠ (l.1, l.2 + (8 * j + i))

namespace Backend

variable {b : Backend} {prp1 prp2 : UInt64} {len : ℕ} {g : Guest} {loc : ℕ → Hva}

/-- The guest gets the bytes of the buffer. A back end that translates all addresses does not
    fail. -/
theorem prpWriteData_located (hloc : Located g prp1 prp2 len loc) (hb : b.Sound)
    (hf : b.Follows prp1 prp2 len) (ha : Disjoint g prp1 prp2 len loc) {buf : Buffer}
    (h : (b.prpWriteData prp1 prp2 len buf g).1 = true ∨ b.Total) :
    ∀ k < len, (b.prpWriteData prp1 prp2 len buf g).2.mem (loc k).1 (loc k).2 = buf k := by
  -- The list of the pages is not written to.
  have hcopies : Copies g prp1 prp2 len loc id
      (fun h offset chunk g => g.write h chunk fun k => buf (offset + k))
      fun offset g' => g'.regions = g.regions ∧
        (firstPage prp1 + pageSize < len → ∀ l, g.locate prp2 = some l → ∀ j,
          firstPage prp1 + j * pageSize < len → ∀ i < 8,
            g'.mem l.1 (l.2 + (8 * j + i)) = g.mem l.1 (l.2 + (8 * j + i))) ∧
        ∀ k < offset, g'.mem (loc k).1 (loc k).2 = buf k := by
    refine ⟨fun _ _ hI => hI.1, fun _ g' hI hlong l hl j hj => ?_, ?_⟩
    · refine Buffer.le64_congr fun i hi => ?_
      exact hI.2.1 hlong l hl j hj i hi
    intro offset chunk hva g' hI hle hchunk
    -- What is written are the bytes from `offset` on, and only those.
    refine ⟨hI.1, fun hlong l hl j hj i hi => ?_, fun k hk => ?_⟩
    · rw [Guest.write_mem, if_neg, hI.2.1 hlong l hl j hj i hi]
      rintro ⟨hx, hy, hy'⟩
      refine ha.list (k := offset + (l.2 + (8 * j + i) - hva.2)) (by omega) hlong hl j hj i hi ?_
      rw [hchunk _ (by omega), hx, Nat.add_sub_cancel' hy]
    · rw [Guest.write_mem]
      by_cases hlt : offset ≤ k
      · have hk' := hchunk (k - offset) (by omega)
        rw [Nat.add_sub_cancel' hlt] at hk'
        rw [hk', if_pos ⟨rfl, by omega, by omega⟩, Nat.add_sub_cancel_left,
          Nat.add_sub_cancel' hlt]
      · rw [if_neg, hI.2.2 k (by omega)]
        rintro ⟨hx, hy, hy'⟩
        have hkk := ha.inj (k := k) (j := offset + ((loc k).2 - hva.2)) (by omega) (by omega) ?_
        · omega
        · rw [hchunk _ (by omega), ← hx, Nat.add_sub_cancel' hy]
  obtain ⟨hall, htotal⟩ := prpPages_copies (n := len) (r := b.prpWriteData prp1 prp2 len buf g) hloc
    hb hf hcopies .first (Nat.zero_le _) (by omega)
    ⟨rfl, fun _ _ _ _ _ _ _ => rfl, fun k hk => absurd hk (Nat.not_lt_zero k)⟩ rfl
  exact (hall (h.elim id htotal)).2.2

end Backend

/-! ## The back ends -/

theorem Vfio.sound : Vfio.backend.Sound := fun _ _ _ => locate_of_gpaToHva

theorem Vhost.sound : Vhost.backend.Sound := fun _ _ _ h => h

theorem Vhost.total : Vhost.backend.Total := by
  intro g addr h hl hnone
  exact Option.some_ne_none _ (hl.symm.trans hnone)

/-- A transfer with two pages at most has no third one. -/
theorem page_eq_zero {prp1 : UInt64} {len j : ℕ} (h : len ≤ firstPage prp1 + pageSize)
    (hj : firstPage prp1 + j * pageSize < len) : j = 0 := by
  by_contra hne
  have := Nat.mul_le_mul_right pageSize (Nat.one_le_iff_ne_zero.2 hne)
  omega

theorem Vfio.follows (prp1 prp2 : UInt64) (len : ℕ) : Vfio.backend.Follows prp1 prp2 len := by
  intro j hj
  show Vfio.prpNext prp1 prp2 len (firstPage prp1 + j * pageSize) (j + 1) = _
  rw [Vfio.prpNext, ← firstPage]
  by_cases htwo : len ≤ firstPage prp1 + pageSize
  · have hj0 := page_eq_zero htwo hj
    rw [if_neg (by omega), if_pos (by omega), if_pos htwo]
  · rw [if_pos (by omega), if_neg htwo, Nat.add_sub_cancel]

/-- In a transfer with two pages at most, the second entry is the second page. -/
theorem Vhost.follows {prp1 prp2 : UInt64} {len : ℕ} (h : len ≤ firstPage prp1 + pageSize) :
    Vhost.backend.Follows prp1 prp2 len := by
  intro j hj
  obtain rfl := page_eq_zero h hj
  rw [Nat.zero_mul, Nat.add_zero, if_pos h]
  show Vhost.prpNext prp1 prp2 len (firstPage prp1) 1 = _
  rw [Vhost.prpNext, ← firstPage]
  rw [if_neg fun hc => absurd hc.2 (Nat.lt_irrefl _), if_pos rfl]

end Nvme

end FtlFirmware
