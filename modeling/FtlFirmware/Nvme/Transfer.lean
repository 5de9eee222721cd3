import FtlFirmware.Ftl.Host
import FtlFirmware.Nvme.Basic

/-!
# Blocks, pages and ranges

What the front ends make of the fields of an I/O command, and the FTL calls that they make for it:
the writes of a Write or a Write Zeroes (`writePages`), the reads of a Read (`readPages`), and the
trims of a Dataset Management (`trimRanges`).
-/

namespace FtlFirmware

namespace Nvme

/-- A buffer of bytes. -/
abbrev Buffer := ℕ → UInt8

namespace Buffer

/-- Copies `len` bytes of `data` to the offset `offset`. -/
def store (buf : Buffer) (offset len : ℕ) (data : Buffer) : Buffer := fun k =>
  if offset ≤ k ∧ k < offset + len then data (k - offset) else buf k

/-- The first `len` bytes. -/
def bytes (buf : Buffer) (len : ℕ) : List UInt8 := (List.range len).map buf

variable {buf data data' : Buffer} {offset len k : ℕ}

/-- Only the bytes that are copied matter. -/
theorem store_congr (h : ∀ k < len, data k = data' k) :
    buf.store offset len data = buf.store offset len data' := by
  funext k
  rw [store, store]
  by_cases hk : offset ≤ k ∧ k < offset + len
  · rw [if_pos hk, if_pos hk]
    exact h _ (by omega)
  · rw [if_neg hk, if_neg hk]

/-- The other bytes are left alone. -/
theorem store_of_not (h : ¬ (offset ≤ k ∧ k < offset + len)) :
    buf.store offset len data k = buf k := if_neg h

end Buffer

/-- The bytes of a list, followed by zeros. -/
def bufferOf (bytes : List UInt8) : Buffer := fun k => bytes.getD k 0

/-- The page `i` of a buffer. -/
def Buffer.page (buf : Buffer) (i : ℕ) : PageData := Vector.ofFn fun j => buf (i * pageSize + j)

/-- Copies a page to the place of the page `i`. -/
def Buffer.setPage (buf : Buffer) (i : ℕ) (page : PageData) : Buffer :=
  buf.store (i * pageSize) pageSize fun k => page.toArray.getD k 0

section

variable {buf : Buffer} {i j : ℕ} {page : PageData}

theorem setPage_page : (buf.setPage i page).page i = page := by
  refine Vector.ext fun k hk => ?_
  rw [Buffer.page, Vector.getElem_ofFn, Buffer.setPage, Buffer.store, if_pos (by omega)]
  rw [Nat.add_sub_cancel_left, Array.getD_eq_getD_getElem?, Vector.getElem?_toArray,
    Vector.getElem?_eq_getElem hk, Option.getD_some]

theorem setPage_page_of_ne (h : j ≠ i) : (buf.setPage i page).page j = buf.page j := by
  refine Vector.ext fun k hk => ?_
  rw [Buffer.page, Buffer.page, Vector.getElem_ofFn, Vector.getElem_ofFn, Buffer.setPage,
    Buffer.store, if_neg]
  dsimp only
  rcases Nat.lt_or_gt_of_ne h with hlt | hlt
  · have := Nat.mul_le_mul_right pageSize (Nat.succ_le_of_lt hlt)
    rw [Nat.succ_mul] at this
    omega
  · have := Nat.mul_le_mul_right pageSize (Nat.succ_le_of_lt hlt)
    rw [Nat.succ_mul] at this
    omega

end

/-- The 16-bit number at an offset, the lowest byte first. -/
def Buffer.le16 (buf : Buffer) (k : ℕ) : UInt16 :=
  (buf k).toUInt16 ||| (buf (k + 1)).toUInt16 <<< 8

/-- The 32-bit number at an offset, the lowest byte first. -/
def Buffer.le32 (buf : Buffer) (k : ℕ) : UInt32 :=
  (buf k).toUInt32 ||| (buf (k + 1)).toUInt32 <<< 8 ||| (buf (k + 2)).toUInt32 <<< 16 |||
    (buf (k + 3)).toUInt32 <<< 24

/-- The 64-bit number at an offset, the lowest byte first. -/
def Buffer.le64 (buf : Buffer) (k : ℕ) : UInt64 :=
  (buf.le32 (k + 4)).toUInt64 <<< 32 ||| (buf.le32 k).toUInt64

namespace Buffer

variable {buf buf' : Buffer} {k j : ℕ}

/-- A number depends on its bytes. -/
theorem le16_congr (h : ∀ i < 2, buf (k + i) = buf' (j + i)) : buf.le16 k = buf'.le16 j := by
  have h0 := h 0 (by omega)
  rw [Nat.add_zero, Nat.add_zero] at h0
  rw [le16, le16, h0, h 1 (by omega)]

theorem le32_congr (h : ∀ i < 4, buf (k + i) = buf' (j + i)) : buf.le32 k = buf'.le32 j := by
  have h0 := h 0 (by omega)
  rw [Nat.add_zero, Nat.add_zero] at h0
  rw [le32, le32, h0, h 1 (by omega), h 2 (by omega), h 3 (by omega)]

theorem le64_congr (h : ∀ i < 8, buf (k + i) = buf' (j + i)) : buf.le64 k = buf'.le64 j := by
  rw [le64, le64, le32_congr fun i hi => h i (by omega),
    le32_congr (k := k + 4) (j := j + 4) fun i hi => ?_]
  rw [Nat.add_assoc, Nat.add_assoc]
  exact h (4 + i) (by omega)

end Buffer

/-- The bytes of a value, the lowest one first. -/
def valueBytes (value : UInt32) : Buffer := fun k => (value >>> UInt32.ofNat (8 * k)).toUInt8

namespace Command

/-- The number of blocks of an I/O command: a 16-bit number, to which one has been added. -/
def nlb (cmd : Command) : ℕ := ((cmd.cdw12 &&& 0xFFFF).toNat + 1) % 2 ^ 16

/-- The number of ranges of a Dataset Management: an 8-bit number, to which one has been added. -/
def nr (cmd : Command) : ℕ := ((cmd.cdw10 &&& 0xFF).toNat + 1) % 2 ^ 8

end Command

/-- The `i`-th logical page from the block `slba` on: the address of the block, which is a 64-bit
    number, cut to 32 bits. -/
def lpnAt (slba : UInt64) (i : ℕ) : ℕ := (slba.toNat + i) % 2 ^ 64 % 2 ^ 32

/-- Writes pages in turn, until a write fails. The page `i` goes to the logical page `lpn i`.
    Answers whether all of them have been written. -/
def writePages (fuel : ℕ) (lpn : ℕ → ℕ) (data : ℕ → PageData) :
    List ℕ → Ftl → Option (Bool × Ftl)
  | [], ftl => some (true, ftl)
  | i :: is, ftl =>
    match ftl.write fuel (lpn i) (data i) with
    | none => none
    | some (.ok, ftl) => writePages fuel lpn data is ftl
    | some (_, ftl) => some (false, ftl)

/-- Reads pages in turn. A page that cannot be read is filled with zeros. -/
def readPages (lpn : ℕ → ℕ) : List ℕ → Buffer → Ftl → Buffer × Ftl
  | [], buf, ftl => (buf, ftl)
  | i :: is, buf, ftl =>
    match ftl.read (lpn i) (buf.page i) with
    | (.ok, page, ftl) => readPages lpn is (buf.setPage i page) ftl
    | (_, _, ftl) => readPages lpn is (buf.setPage i blankPage) ftl

/-- A range of a Dataset Management: its first block, cut to 32 bits, and its length. -/
structure TrimRange where
  lpn : UInt32
  count : UInt32
  deriving DecidableEq, Repr

/-- The range `r` in a buffer. One is added to its length. -/
def Buffer.range (buf : Buffer) (r : ℕ) : TrimRange where
  lpn := (buf.le64 (r * 16 + 8)).toUInt32
  count := buf.le32 (r * 16 + 4) + 1

/-- Trims ranges in turn. Answers whether all of them have been trimmed. -/
def trimRanges (range : ℕ → TrimRange) : List ℕ → Bool → Ftl → Option (Bool × Ftl)
  | [], ok, ftl => some (ok, ftl)
  | r :: rs, ok, ftl =>
    match ftl.trim (range r).lpn (range r).count with
    | none => none
    | some (.ok, ftl) => trimRanges range rs ok ftl
    | some (_, ftl) => trimRanges range rs false ftl

end Nvme

end FtlFirmware
