import FtlFirmware.Nvme.Transfer

/-!
# Guest memory

The memory of a guest that a back end has mapped (`Guest`), and the transfers between it and a
buffer of the back end. The memory is a list of regions; the bytes of each are those of its mapping.

The pages of a transfer are given by two entries (PRP) of the command. The first one is the first
page, which need not be used from its start on; the second one is the second page, or a list of the
pages after the first one. The two back ends differ in the addresses that they accept (`gpaToHva`)
and in how they find the next page (`prpNext`).
-/

namespace FtlFirmware

namespace Nvme

/-! ## Regions -/

/-- A region of the memory of the guest, at a guest address. -/
structure Region where
  base : UInt64
  size : UInt64
  deriving DecidableEq, Repr

/-- An address of the back end: the number of a mapping, and an offset into it. -/
abbrev Hva := ℕ × ℕ

/-- The memory of the guest: its regions, and the bytes of their mappings. -/
structure Guest where
  regions : List Region
  mem : ℕ → Buffer

namespace Guest

variable (g : Guest)

/-- Looks up a guest address in the regions. -/
def locate (gpa : UInt64) : Option Hva :=
  match g.regions.findIdx? fun r => decide (r.base ≤ gpa ∧ gpa < r.base + r.size) with
  | none => none
  | some i => some (i, (gpa - (g.regions.getD i ⟨0, 0⟩).base).toNat)

/-- A guest address that is translated is the base of its region and the offset. -/
theorem locate_eq {g : Guest} {addr : UInt64} {h : Hva} (hloc : g.locate addr = some h) :
    addr = (g.regions.getD h.1 ⟨0, 0⟩).base + UInt64.ofNat h.2 ∧ h.2 < 2 ^ 64 := by
  rw [locate] at hloc
  split at hloc
  · cases hloc
  · cases hloc
    dsimp only
    rw [UInt64.ofNat_toNat]
    exact ⟨by grind, UInt64.toNat_lt _⟩

/-- The bytes from an address on. -/
def bytesAt (h : Hva) : Buffer := fun k => g.mem h.1 (h.2 + k)

/-- Writes bytes to an address. -/
def write (h : Hva) (len : ℕ) (data : Buffer) : Guest :=
  { g with mem := Function.update g.mem h.1 ((g.mem h.1).store h.2 len data) }

/-- The bytes of the guest after a write. -/
theorem write_mem {g : Guest} {h : Hva} {chunk : ℕ} {data : Buffer} (x y : ℕ) :
    (g.write h chunk data).mem x y =
      if x = h.1 ∧ h.2 ≤ y ∧ y < h.2 + chunk then data (y - h.2) else g.mem x y := by
  rw [write]
  dsimp only
  by_cases hx : x = h.1
  · subst hx
    rw [Function.update_self, Buffer.store]
    simp only [true_and]
  · rw [Function.update_of_ne hx, if_neg fun hc => hx hc.1]

end Guest

/-! ## Transfers -/

/-- Where the next page of a transfer is found: in the list, at the second entry, or nowhere. -/
inductive PrpNext
  | list (i : ℕ)
  | second
  | stop
  deriving DecidableEq, Repr

/-- A back end, as far as transfers are concerned: how it translates a guest address, and how it
    finds the next page of a transfer of a length, after a number of bytes and of pages. -/
structure Backend where
  gpaToHva : Guest → UInt64 → Option Hva
  prpNext : (prp1 prp2 : UInt64) → (len offset pages : ℕ) → PrpNext

/-- The offset of an address in its page. -/
def pageOffset (addr : UInt64) : ℕ := (addr &&& 0xFFF).toNat

/-- The start of the page of an address. -/
def pageBase (addr : UInt64) : UInt64 := addr &&& ~~~0xFFF

namespace Backend

variable (b : Backend) {σ : Type} (guest : σ → Guest) (copy : Hva → (offset chunk : ℕ) → σ → σ)
  (prp1 prp2 : UInt64) (len : ℕ)

/-- Goes through the pages of a transfer, from the page at `addr` on, and copies a chunk of each.
    Answers whether all of the pages have been found. Every page takes a byte at least, so that
    there are no more pages than bytes. -/
def prpPages : ℕ → UInt64 → ℕ → ℕ → σ → Bool × σ
  | 0, _, _, _, s => (true, s)
  | n + 1, addr, offset, pages, s =>
    if len ≤ offset then (true, s)
    else
      -- Only the first page has an offset. The address is that of the page, without it.
      let chunk := min (pageSize - pageOffset addr) (len - offset)
      match b.gpaToHva (guest s) (pageBase addr) with
      | none => (false, s)
      | some h =>
        let s := copy (h.1, h.2 + pageOffset addr) offset chunk s
        let offset := offset + chunk
        let pages := pages + 1
        if len ≤ offset then (true, s)
        else
          match b.prpNext prp1 prp2 len offset pages with
          | .stop => (true, s)
          | .second => prpPages n prp2 offset pages s
          -- The list is read again for each of its entries.
          | .list i =>
            match b.gpaToHva (guest s) prp2 with
            | none => (false, s)
            | some l => prpPages n (((guest s).bytesAt l).le64 (8 * i)) offset pages s

/-- Copies data of the guest to a buffer (`prp_read_data`). -/
def prpReadData (g : Guest) (buf : Buffer) : Bool × Buffer :=
  b.prpPages (fun _ => g) (fun h offset chunk buf => buf.store offset chunk (g.bytesAt h))
    prp1 prp2 len len prp1 0 0 buf

/-- Copies data of a buffer to the guest (`prp_write_data`). -/
def prpWriteData (buf : Buffer) (g : Guest) : Bool × Guest :=
  b.prpPages id (fun h offset chunk g => g.write h chunk fun k => buf (offset + k))
    prp1 prp2 len len prp1 0 0 g

end Backend

/-- The largest transfer of the back ends (`VFIO_USER_NVME_MAX_IO_SIZE` and
    `VHOST_USER_NVME_MAX_IO_SIZE`). -/
abbrev maxIoSize : ℕ := 1024 * 1024

/-! ## The back ends -/

namespace Vfio

/-- The back end rejects addresses that look like ones that have not been set, and those beyond
    4 GiB. -/
def gpaToHva (g : Guest) (gpa : UInt64) : Option Hva :=
  if gpa = 0 ∨ gpa = 0xCCCCCCCCCCCCCCCC ∨ gpa > 0xFFFFFFFF then none else g.locate gpa

theorem locate_of_gpaToHva {g : Guest} {gpa : UInt64} {h : Hva} (hgpa : gpaToHva g gpa = some h) :
    g.locate gpa = some h := by
  rw [gpaToHva] at hgpa
  split at hgpa
  · cases hgpa
  · exact hgpa

/-- The second entry is a list if and only if it cannot be the last page. -/
def prpNext (prp1 _prp2 : UInt64) (len _offset pages : ℕ) : PrpNext :=
  if len > pageSize - pageOffset prp1 + pageSize then .list (pages - 1)
  else if pages = 1 then .second
  else .stop

/-- The transfers of vfio-user. -/
def backend : Backend := ⟨gpaToHva, prpNext⟩

end Vfio

namespace Vhost

/-- The back end translates all addresses in the regions. -/
def gpaToHva (g : Guest) (gpa : UInt64) : Option Hva := g.locate gpa

/-- The second entry is the second page in any case. After it, it is a list if it is at the start of
    a page. -/
def prpNext (prp1 prp2 : UInt64) (_len offset _pages : ℕ) : PrpNext :=
  let first := pageSize - pageOffset prp1
  if pageOffset prp2 = 0 ∧ offset > first then .list ((offset - first) / pageSize)
  else if offset = first then .second
  else .stop

/-- The transfers of vhost-user. -/
def backend : Backend := ⟨gpaToHva, prpNext⟩

end Vhost

end Nvme

end FtlFirmware
