import FtlFirmware.Nvme.Conforming
import FtlFirmware.Nvme.Table
import FtlFirmware.Nvme.Vring

/-!
# What the back ends access

The memory of the guest that the back ends access, after having translated a guest address: bytes
from the pointer on, or from further on (`Touch`). The transfers access the data and the list of the
pages (`Backend.touches`), and nothing else: no other byte is written (`prpWriteData_frame`), and no
other byte matters (`prpReadData_frame`). The queues and the rings are accessed entry by entry
(`VfioQueue.touches`, `Vring.touches`), and nothing else either (`Vfio.queuesListed`,
`VringHost.servesListed`).
-/

namespace FtlFirmware

namespace Nvme

/-- An access: the guest address that is translated, the offset from the pointer, and the number of
    bytes. -/
structure Touch where
  gpa : UInt64
  offset : ℕ
  len : ℕ

namespace Backend

section

variable (b : Backend) {σ : Type} (guest : σ → Guest) (copy : Hva → (offset chunk : ℕ) → σ → σ)
  (prp1 prp2 : UInt64) (len : ℕ)

/-- The accesses of a transfer, from the page at `addr` on: they follow `prpPages`. -/
def touches : ℕ → UInt64 → ℕ → ℕ → σ → List Touch
  | 0, _, _, _, _ => []
  | n + 1, addr, offset, pages, s =>
    if len ≤ offset then []
    else
      let chunk := min (pageSize - pageOffset addr) (len - offset)
      match b.gpaToHva (guest s) (pageBase addr) with
      | none => []
      | some h =>
        let s := copy (h.1, h.2 + pageOffset addr) offset chunk s
        let offset := offset + chunk
        let pages := pages + 1
        ⟨pageBase addr, pageOffset addr, chunk⟩ ::
          (if len ≤ offset then []
          else
            match b.prpNext prp1 prp2 len offset pages with
            | .stop => []
            | .second => touches n prp2 offset pages s
            | .list i =>
              match b.gpaToHva (guest s) prp2 with
              | none => []
              | some l => ⟨prp2, 8 * i, 8⟩ ::
                touches n (((guest s).bytesAt l).le64 (8 * i)) offset pages s)

/-- The accesses of a transfer from the guest. -/
def readTouches (g : Guest) (buf : Buffer) : List Touch :=
  b.touches (fun _ => g) (fun h offset chunk buf => buf.store offset chunk (g.bytesAt h)) prp1 prp2
    len len prp1 0 0 buf

/-- The accesses of a transfer to the guest. -/
def writeTouches (buf : Buffer) (g : Guest) : List Touch :=
  b.touches id (fun h offset chunk g => g.write h chunk fun k => buf (offset + k)) prp1 prp2
    len len prp1 0 0 g

/-- The byte `y` of the mapping `x` is one of those accessed. -/
def Covers (g : Guest) (t : Touch) (x y : ℕ) : Prop :=
  ∃ h, b.gpaToHva g t.gpa = some h ∧ x = h.1 ∧ h.2 + t.offset ≤ y ∧ y < h.2 + t.offset + t.len

end

/-! ## Nothing else is accessed -/

variable {b : Backend} {prp1 prp2 : UInt64} {len : ℕ} {g g' : Guest}

/-- A transfer to the guest changes only bytes that it accesses. -/
theorem prpPages_write_frame (hb : b.Regular) {g₀ : Guest} {data : Buffer} {x y n : ℕ}
    {addr : UInt64} {offset pages : ℕ} (hg : g.regions = g₀.regions)
    (hout : ∀ t ∈ b.touches id (fun h offset chunk g => g.write h chunk fun k => data (offset + k))
      prp1 prp2 len n addr offset pages g, ¬ b.Covers g₀ t x y) :
    (b.prpPages id (fun h offset chunk g => g.write h chunk fun k => data (offset + k))
      prp1 prp2 len n addr offset pages g).2.mem x y = g.mem x y := by
  induction n generalizing addr offset pages g with
  | zero => rfl
  | succ n ih =>
    rw [prpPages]
    rw [touches] at hout
    by_cases hend : len ≤ offset
    · rw [if_pos hend]
    rw [if_neg hend] at hout ⊢
    dsimp only [id] at hout ⊢
    generalize hchunk : min (pageSize - pageOffset addr) (len - offset) = chunk at hout ⊢
    cases hbase : b.gpaToHva g (pageBase addr) with
    | none => rfl
    | some h =>
      rw [hbase] at hout
      dsimp only at hout ⊢
      obtain ⟨hfirst, hrest⟩ := List.forall_mem_cons.1 hout
      -- the chunk that is copied is one of the accesses
      have hmem : (g.write (h.1, h.2 + pageOffset addr) chunk fun k => data (offset + k)).mem x y =
          g.mem x y := by
        rw [Guest.write_mem, if_neg]
        rintro ⟨hx, hle, hlt⟩
        exact hfirst ⟨h, (congrFun (hb.regions g₀ g hg) _).symm.trans hbase, hx, hle, hlt⟩
      have hregions : (g.write (h.1, h.2 + pageOffset addr) chunk fun k =>
          data (offset + k)).regions = g₀.regions := hg
      by_cases hend' : len ≤ offset + chunk
      · rw [if_pos hend']
        exact hmem
      rw [if_neg hend'] at hrest ⊢
      cases hnext : b.prpNext prp1 prp2 len (offset + chunk) (pages + 1) with
      | stop => exact hmem
      | second =>
        rw [hnext] at hrest
        exact (ih hregions hrest).trans hmem
      | list i =>
        rw [hnext] at hrest
        dsimp only at hrest ⊢
        set g' := g.write (h.1, h.2 + pageOffset addr) chunk fun k => data (offset + k)
        cases hlist : b.gpaToHva g' prp2 with
        | none => exact hmem
        | some l =>
          rw [hlist] at hrest
          exact (ih hregions (List.forall_mem_cons.1 hrest).2).trans hmem

/-- No other byte of the guest is written. -/
theorem prpWriteData_frame (hb : b.Regular) {buf : Buffer} {x y : ℕ}
    (hout : ∀ t ∈ b.writeTouches prp1 prp2 len buf g, ¬ b.Covers g t x y) :
    (b.prpWriteData prp1 prp2 len buf g).2.mem x y = g.mem x y :=
  prpPages_write_frame hb rfl hout

/-- A transfer from the guest depends only on bytes that it accesses. -/
theorem prpPages_read_frame (hb : b.Regular) (hg : g'.regions = g.regions) {n : ℕ} {addr : UInt64}
    {offset pages : ℕ} {buf : Buffer}
    (hagree : ∀ t ∈ b.touches (fun _ => g)
      (fun h offset chunk buf => buf.store offset chunk (g.bytesAt h)) prp1 prp2 len n addr offset
      pages buf, ∀ x y, b.Covers g t x y → g'.mem x y = g.mem x y) :
    b.prpPages (fun _ => g') (fun h offset chunk buf => buf.store offset chunk (g'.bytesAt h)) prp1
        prp2 len n addr offset pages buf =
      b.prpPages (fun _ => g) (fun h offset chunk buf => buf.store offset chunk (g.bytesAt h)) prp1
        prp2 len n addr offset pages buf := by
  -- Page by page: each reads its chunk, and perhaps an entry of the list, in both memories.
  induction n generalizing addr offset pages buf with
  | zero => rfl
  | succ n ih =>
    rw [prpPages, prpPages, hb.regions g g' hg]
    rw [touches] at hagree
    by_cases hend : len ≤ offset
    · rw [if_pos hend, if_pos hend]
    rw [if_neg hend] at hagree ⊢
    rw [if_neg hend]
    dsimp only at hagree ⊢
    generalize hchunk : min (pageSize - pageOffset addr) (len - offset) = chunk at hagree ⊢
    cases hbase : b.gpaToHva g (pageBase addr) with
    | none => rfl
    | some h =>
      rw [hbase] at hagree
      dsimp only at hagree ⊢
      obtain ⟨hfirst, hrest⟩ := List.forall_mem_cons.1 hagree
      have hstore : buf.store offset chunk (g'.bytesAt (h.1, h.2 + pageOffset addr)) =
          buf.store offset chunk (g.bytesAt (h.1, h.2 + pageOffset addr)) := by
        refine Buffer.store_congr fun k hk => hfirst _ _ ⟨h, hbase, rfl, ?_, ?_⟩
        · exact Nat.le_add_right _ _
        · exact Nat.add_lt_add_left hk _
      rw [hstore]
      by_cases hend' : len ≤ offset + chunk
      · rw [if_pos hend', if_pos hend']
      rw [if_neg hend'] at hrest ⊢
      rw [if_neg hend']
      cases hnext : b.prpNext prp1 prp2 len (offset + chunk) (pages + 1) with
      | stop => rfl
      | second =>
        rw [hnext] at hrest
        exact ih hrest
      | list i =>
        rw [hnext] at hrest
        dsimp only at hrest ⊢
        cases hlist : b.gpaToHva g prp2 with
        | none => rfl
        | some l =>
          rw [hlist] at hrest
          obtain ⟨hentry, hrest⟩ := List.forall_mem_cons.1 hrest
          have hle : (g'.bytesAt l).le64 (8 * i) = (g.bytesAt l).le64 (8 * i) := by
            refine Buffer.le64_congr fun k hk => hentry _ _ ⟨l, hlist, rfl, ?_, ?_⟩
            · exact Nat.add_le_add_left (Nat.le_add_right _ _) _
            · rw [← Nat.add_assoc]
              exact Nat.add_lt_add_left hk _
          dsimp only
          rw [hle]
          exact ih hrest

/-- No other byte of the guest matters. -/
theorem prpReadData_frame (hb : b.Regular) (hg : g'.regions = g.regions) {buf : Buffer}
    (hagree : ∀ t ∈ b.readTouches prp1 prp2 len g buf, ∀ x y, b.Covers g t x y →
      g'.mem x y = g.mem x y) :
    b.prpReadData prp1 prp2 len g' buf = b.prpReadData prp1 prp2 len g buf :=
  prpPages_read_frame hb hg hagree

end Backend

/-! ## Queues and rings -/

/-- The accesses to a pair of queues, when a command is fetched and completed. -/
def VfioQueue.touches (q : VfioQueue) : List Touch :=
  [⟨q.sqBase + UInt64.ofNat (q.sqHead * commandSize), 0, commandSize⟩,
    ⟨q.cqBase + UInt64.ofNat (q.cqTail * completionSize), 0, completionSize⟩]

/-- The accesses to a ring, when an entry with a descriptor is served: the index and the entry of
    the available ring, the descriptor and its buffer, the entry and the index of the used ring. -/
def Vring.touches (q : Vring) (descIdx : UInt16) (addr : UInt64) : List Touch :=
  [⟨q.availAddr, 2, 2⟩, ⟨q.availAddr, 4 + 2 * q.availSlot, 2⟩,
    ⟨q.descAddr, 16 * descIdx.toNat, 8⟩, ⟨addr, 0, commandSize + completionSize⟩,
    ⟨q.usedAddr, 4 + 8 * q.usedSlot, 8⟩, ⟨q.usedAddr, 2, 2⟩]

/-- The first bytes of a buffer are those of the command. -/
theorem Buffer.command_congr {buf buf' : Buffer} (h : ∀ k < commandSize, buf k = buf' k) :
    buf.command = buf'.command := by
  have h32 (j : ℕ) (hj : j + 4 ≤ commandSize) : buf.le32 j = buf'.le32 j :=
    le32_congr fun i hi => h _ (by omega)
  have h64 (j : ℕ) (hj : j + 8 ≤ commandSize) : buf.le64 j = buf'.le64 j :=
    le64_congr fun i hi => h _ (by omega)
  have hcid : buf.le16 2 = buf'.le16 2 :=
    le16_congr fun i hi => h _ (Nat.lt_trans (Nat.add_lt_add_left hi 2) (by decide))
  rw [command, command, h 0 (by decide), hcid, h32 4 (by decide), h64 24 (by decide),
    h64 32 (by decide), h32 40 (by decide), h32 44 (by decide), h32 48 (by decide),
    h32 52 (by decide)]

namespace Backend

variable {b : Backend} {ts : List Touch} {t : Touch} {g g' : Guest} {h : Hva}

/-- Two guests have the same regions, and the same bytes where they are accessed. -/
structure SameBytes (b : Backend) (ts : List Touch) (g g' : Guest) : Prop where
  regions : g'.regions = g.regions
  mem (t : Touch) : t ∈ ts → ∀ x y, b.Covers g t x y → g'.mem x y = g.mem x y

/-- The bytes of an access. -/
theorem SameBytes.bytesAt (hsame : b.SameBytes ts g g') (ht : t ∈ ts)
    (hh : b.gpaToHva g t.gpa = some h) {k : ℕ} (hle : t.offset ≤ k) (hlt : k < t.offset + t.len) :
    g'.bytesAt h k = g.bytesAt h k :=
  hsame.mem t ht _ _ ⟨h, hh, rfl, by omega, by omega⟩

/-- Bytes that are written within an access. -/
theorem write_frame {chunk x y : ℕ} {data : Buffer} (offset : ℕ) (hout : ¬ b.Covers g t x y)
    (hh : b.gpaToHva g t.gpa = some h) (hle : t.offset ≤ offset)
    (hlen : offset + chunk ≤ t.offset + t.len) :
    (g'.write (h.1, h.2 + offset) chunk data).mem x y = g'.mem x y := by
  rw [Guest.write_mem, if_neg]
  rintro ⟨hx, hge, hlt⟩
  dsimp only at hge hlt
  exact hout ⟨h, hh, hx, by omega, by omega⟩

end Backend

/-- Transfers access nothing of a guest but what is listed. -/
structure Backend.TransfersListed (b : Backend) (g : Guest) : Prop where
  readData (prp1 prp2 : UInt64) (len : ℕ) (buf : Buffer) (g' : Guest) :
    b.SameBytes (b.readTouches prp1 prp2 len g buf) g g' →
    b.prpReadData prp1 prp2 len g' buf = b.prpReadData prp1 prp2 len g buf
  writeData (prp1 prp2 : UInt64) (len : ℕ) (buf : Buffer) (x y : ℕ) :
    (∀ t ∈ b.writeTouches prp1 prp2 len buf g, ¬ b.Covers g t x y) →
    (b.prpWriteData prp1 prp2 len buf g).2.mem x y = g.mem x y

theorem Backend.Regular.transfersListed {b : Backend} (hb : b.Regular) (g : Guest) :
    b.TransfersListed g where
  readData _ _ _ _ _ hsame := Backend.prpReadData_frame hb hsame.regions hsame.mem
  writeData _ _ _ _ _ _ hout := Backend.prpWriteData_frame hb hout

/-- The queues of the back end for vfio-user access nothing of the guest but what is listed, when a
    command is fetched and when a completion is posted. -/
structure Vfio.QueuesListed (v : Vfio) : Prop where
  command (qid : ℕ) (h : Hva) (g' : Guest) :
    Vfio.gpaToHva v.guest ((v.queues qid).sqBase +
      UInt64.ofNat ((v.queues qid).sqHead * commandSize)) = some h →
    Vfio.backend.SameBytes (v.queues qid).touches v.guest g' →
    (g'.bytesAt h).command = (v.guest.bytesAt h).command
  completion (qid : ℕ) (h : Hva) (cpl : Completion) (x y : ℕ) :
    Vfio.gpaToHva v.guest ((v.queues qid).cqBase +
      UInt64.ofNat ((v.queues qid).cqTail * completionSize)) = some h →
    (∀ t ∈ (v.queues qid).touches, ¬ Vfio.backend.Covers v.guest t x y) →
    (v.postCompletion qid h cpl).guest.mem x y = v.guest.mem x y

theorem Vfio.queuesListed (v : Vfio) : v.QueuesListed where
  command qid h g' hh hsame := Buffer.command_congr fun k hk =>
    hsame.bytesAt List.mem_cons_self hh (Nat.zero_le k) (by rwa [Nat.zero_add])
  completion qid h cpl x y hh hout :=
    Backend.write_frame 0 (hout _ (List.mem_cons_of_mem _ List.mem_cons_self)) hh (Nat.le_refl 0)
      (Nat.le_refl _)

namespace VringHost

variable (s : VringHost) (i : ℕ) (rings : Rings)

/-- The descriptor that is next in a ring. -/
def nextDesc : UInt16 := s.entry rings (s.vrings i).availSlot

/-- The accesses to a ring, when the next entry is served. -/
def ringTouches : List Touch :=
  (s.vrings i).touches (s.nextDesc i rings)
    ((s.guest.bytesAt rings.desc).descAddr (s.nextDesc i rings))

/-- The back end for vhost-user accesses nothing of its guest but what is listed when it serves an
    entry of a ring: it reads the index and the entry of the available ring, the descriptor and the
    command, and writes the completion and the used ring. -/
structure ServesListed : Prop where
  reads (g' : Guest) : Vhost.backend.SameBytes (s.ringTouches i rings) s.guest g' →
    let s' := { s with guest := g' }
    (g'.bytesAt rings.avail).ringIdx = (s.guest.bytesAt rings.avail).ringIdx ∧
      s'.nextDesc i rings = s.nextDesc i rings ∧
      s'.findBuffer rings (s.nextDesc i rings) = s.findBuffer rings (s.nextDesc i rings) ∧
      ∀ buf, s.findBuffer rings (s.nextDesc i rings) = some buf →
        (g'.bytesAt buf).command = (s.guest.bytesAt buf).command
  writes (x y : ℕ) : (∀ t ∈ s.ringTouches i rings, ¬ Vhost.backend.Covers s.guest t x y) →
    (∀ idx, (s.usedWritten rings.used (s.vrings i).usedSlot (s.nextDesc i rings) idx).mem x y =
      s.guest.mem x y) ∧
    ∀ buf data, s.findBuffer rings (s.nextDesc i rings) = some buf →
      (s.guest.write (buf.1, buf.2 + commandSize) completionSize data).mem x y = s.guest.mem x y

variable {s i rings}

theorem servesListed (h : s.findRings (s.vrings i) = some rings) : s.ServesListed i rings := by
  obtain ⟨desc, hdesc, h⟩ := Option.bind_eq_some_iff.1 h
  obtain ⟨avail, havail, h⟩ := Option.bind_eq_some_iff.1 h
  obtain ⟨used, hused, hrings⟩ := Option.map_eq_some_iff.1 h
  have hmem : ∀ t ∈ (s.vrings i).touches (s.nextDesc i rings) _, t ∈ s.ringTouches i rings :=
    fun _ ht => ht
  simp only [Vring.touches, List.forall_mem_cons] at hmem
  obtain ⟨hidxMem, hentryMem, hdescMem, hbufMem, husedMem, husedIdxMem, _⟩ := hmem
  subst hrings
  constructor
  · intro g' hsame
    refine ⟨?_, ?_, ?_, fun buf hbuf => ?_⟩
    · exact Buffer.le16_congr fun k hk =>
        hsame.bytesAt hidxMem havail (Nat.le_add_right _ _) (Nat.add_lt_add_left hk _)
    · exact Buffer.le16_congr fun k hk =>
        hsame.bytesAt hentryMem havail (Nat.le_add_right _ _) (Nat.add_lt_add_left hk _)
    · have hdescs := Buffer.le64_congr fun k hk =>
        hsame.bytesAt hdescMem hdesc (Nat.le_add_right _ k) (Nat.add_lt_add_left hk _)
      change Vhost.gpaToHva g' ((g'.bytesAt desc).le64 _) = Vhost.gpaToHva s.guest _
      rw [hdescs]
      exact congrFun (Vhost.regular.regions _ _ hsame.regions) _
    · exact Buffer.command_congr fun k hk =>
        hsame.bytesAt hbufMem hbuf (Nat.zero_le k) (by dsimp only; omega)
  · intro x y hout
    refine ⟨fun idx => ?_, fun buf data hbuf => ?_⟩
    · rw [usedWritten,
        Backend.write_frame 2 (hout _ husedIdxMem) hused (Nat.le_refl _) (Nat.le_refl _),
        Backend.write_frame _ (hout _ husedMem) hused (by dsimp only; omega) (by dsimp only; omega),
        Backend.write_frame _ (hout _ husedMem) hused (by dsimp only; omega) (by dsimp only; omega)]
    · exact Backend.write_frame _ (hout _ hbufMem) hbuf (Nat.zero_le _) (by dsimp only; omega)

end VringHost

end Nvme

end FtlFirmware
