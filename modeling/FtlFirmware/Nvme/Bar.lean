import FtlFirmware.Lib.Span
import FtlFirmware.Nvme.Vfio
import Mathlib.Tactic.SplitIfs

/-!
# The regions of vfio-user

Through vfio-user, the guest reads and writes two regions of the device (`VfioDevice`): the
configuration space of PCI, and BAR 0, in which are the registers of the controller, the doorbells,
and the table and the pending bits of MSI-X. The device keeps the bytes of all of these but the
doorbells. Those of the registers are a mirror: what the controller goes by are its own registers.

What is accessed is recorded as spans of the areas involved (`RegionArea`).
-/

namespace FtlFirmware

namespace Nvme

/-- The size of BAR 0 (`VFIO_BAR0_SIZE`). -/
abbrev vfioBar0Size : ℕ := 65536

/-- The size of the configuration space of PCI (`VFIO_PCI_CONFIG_SIZE`). -/
abbrev vfioPciConfigSize : ℕ := 256

/-- What is accessed for a message about a region. -/
inductive RegionArea
  | pciConfig
  | nvmeRegs
  | msixTable
  | msixPba
  | reply
  | payload
  deriving DecidableEq

/-- A message about a region (`vfu_region_rw_t`): its payload, and the number of bytes of it that
    have been received. -/
structure RegionMsg where
  payload : Buffer
  len : ℕ

namespace RegionMsg

variable (msg : RegionMsg)

def offset : UInt64 := msg.payload.le64 0

def region : UInt32 := msg.payload.le32 8

def count : UInt32 := msg.payload.le32 12

/-- The data, after the fields. -/
def data : Buffer := fun k => msg.payload (16 + k)

end RegionMsg

/-- The sizes of the areas. The reply has room for the fields and for all of BAR 0. -/
def RegionArea.size (msg : RegionMsg) : RegionArea → ℕ
  | pciConfig => vfioPciConfigSize
  | nvmeRegs => 4096
  | msixTable => 16
  | msixPba => 8
  | reply => 24 + vfioBar0Size
  | payload => msg.len

/-- The reply to a message that reads. What is sent are its first `size` bytes. -/
structure RegionReply where
  offset : UInt64
  region : UInt32
  count : UInt32
  data : Buffer
  size : UInt32

/-- The back end, and the bytes of the regions. -/
structure VfioDevice where
  vfio : Vfio
  pciConfig : Buffer
  nvmeRegs : Buffer
  msixTable : Buffer
  msixPba : Buffer
  msixEnabled : Bool

/-- The registers at first (`init_nvme_regs`). -/
def initNvmeRegs : Buffer :=
  ((bufferOf []).store 0 4 (valueBytes 0x02F003FF)).store 8 4 (valueBytes 0x00010400)

/-- The device at first. -/
def VfioDevice.init (vfio : Vfio) (pciConfig : Buffer) : VfioDevice where
  vfio := vfio
  pciConfig := pciConfig
  nvmeRegs := initNvmeRegs
  msixTable := bufferOf []
  msixPba := bufferOf []
  msixEnabled := false

/-- The bytes that are written from an offset on, as a number. -/
def Buffer.valueAt (data : Buffer) (i size : ℕ) : UInt32 :=
  Buffer.le32 (fun k => if k < size then data (i + k) else 0) 0

/-- The pieces of a write to the registers: words, and what is left. -/
def regPieces (count : ℕ) : List (ℕ × ℕ) :=
  (List.range (count / 4)).map (fun j => (4 * j, 4)) ++
    if count % 4 = 0 then [] else [(4 * (count / 4), count % 4)]

theorem mem_regPieces {count i size : ℕ} :
    (i, size) ∈ regPieces count ↔ i % 4 = 0 ∧ i < count ∧ size = min 4 (count - i) := by
  rw [regPieces, List.mem_append]
  constructor
  · rintro (h | h)
    · obtain ⟨j, hj, heq⟩ := List.mem_map.1 h
      obtain ⟨rfl, rfl⟩ := Prod.mk.inj heq
      rw [List.mem_range] at hj
      omega
    · split_ifs at h with hmod
      · exact absurd h List.not_mem_nil
      · obtain ⟨rfl, rfl⟩ := Prod.mk.inj (List.mem_singleton.1 h)
        omega
  · rintro ⟨hmod, hlt, rfl⟩
    by_cases hword : i / 4 < count / 4
    · refine Or.inl (List.mem_map.2 ⟨i / 4, List.mem_range.2 hword, ?_⟩)
      exact Prod.ext (by dsimp only; omega) (by dsimp only; omega)
    · rw [if_neg (by omega)]
      exact Or.inr (List.mem_singleton.2 (Prod.ext (by dsimp only; omega) (by dsimp only; omega)))

namespace VfioDevice

variable (d : VfioDevice)

/-! ## BAR 0 -/

/-- The number of bytes to be read, which are those of BAR 0. -/
def bar0Count (offset : UInt64) (count : UInt32) : Option UInt32 :=
  if offset + count.toUInt64 > 0x10000 then
    if offset ≥ 0x10000 then none else some (0x10000 - offset).toUInt32
  else some count

/-- Reads the table or the pending bits of MSI-X, at an offset in their part of BAR 0. -/
def msixRead (area : RegionArea) (size : UInt32) (bytes : Buffer) (offset count : UInt32) :
    List (Span RegionArea) × Buffer :=
  if offset < size then
    let copyLen := if offset + count > size then size - offset else count
    ([⟨area, offset.toNat, copyLen.toNat⟩, ⟨.reply, 16, copyLen.toNat⟩],
      (bufferOf []).store 0 copyLen.toNat fun k => bytes (offset.toNat + k))
  else ([⟨.reply, 16, count.toNat⟩], bufferOf [])

/-- The number of bytes to be read, which are those of the registers. -/
def regsCount (offset : UInt64) (count : UInt32) : UInt32 :=
  if offset + count.toUInt64 > 0x1000 then 0x1000 - offset.toUInt32 else count

/-- Reads BAR 0 (`bar0_read`). The status of the controller is taken over before. -/
def bar0Read (offset : UInt64) (count : UInt32) : List (Span RegionArea) × Buffer × VfioDevice :=
  match bar0Count offset count with
  | none => ([], bufferOf [], d)
  | some count =>
    -- The registers, then the table and the pending bits of MSI-X; anything else reads as zeros.
    if offset < 0x1000 then
      let copyLen := regsCount offset count
      let regs := Function.update d.nvmeRegs 0x1C (d.vfio.ctrl.regs.csts &&& 0xFF).toUInt8
      ([⟨.nvmeRegs, 0x1C, 1⟩, ⟨.nvmeRegs, offset.toNat, copyLen.toNat⟩,
          ⟨.reply, 16, copyLen.toNat⟩],
        (bufferOf []).store 0 copyLen.toNat fun k => regs (offset.toNat + k),
        { d with nvmeRegs := regs })
    else if 0x2000 ≤ offset ∧ offset < 0x3000 then
      let r := msixRead .msixTable 16 d.msixTable (offset - 0x2000).toUInt32 count
      (r.1, r.2, d)
    else if 0x3000 ≤ offset ∧ offset < 0x4000 then
      let r := msixRead .msixPba 8 d.msixPba (offset - 0x3000).toUInt32 count
      (r.1, r.2, d)
    else ([⟨.reply, 16, count.toNat⟩], bufferOf [], d)

/-- Writes a register (`handle_nvme_reg_write`). -/
def handleNvmeRegWrite (offset size value : UInt32) : List (Span RegionArea) × VfioDevice :=
  -- The test is one of 32-bit numbers, which may wrap around.
  let regs := if offset + size ≤ 4096 then
      d.nvmeRegs.store offset.toNat size.toNat (valueBytes value)
    else d.nvmeRegs
  -- The status follows the configuration at once.
  let regs := if offset = 0x14 then
      Function.update regs 0x1C (if value &&& 0x01 ≠ 0 then 0x01 else 0x00)
    else regs
  ((if offset + size ≤ 4096 then [⟨.nvmeRegs, offset.toNat, size.toNat⟩] else []) ++
      if offset = 0x14 then [⟨.nvmeRegs, 0x1C, 1⟩] else [],
    { d with nvmeRegs := regs, vfio := d.vfio.handleNvmeRegWrite offset.toNat value })

/-- Writes the registers, piece by piece. -/
def writePieces (offset : UInt32) (data : Buffer) :
    List (ℕ × ℕ) → VfioDevice → List (Span RegionArea) × VfioDevice
  | [], d => ([], d)
  | (i, size) :: l, d =>
    let r := d.handleNvmeRegWrite (offset + UInt32.ofNat i) (UInt32.ofNat size)
      (data.valueAt i size)
    let r' := writePieces offset data l r.2
    (⟨.payload, 16 + i, size⟩ :: r.1 ++ r'.1, r'.2)

/-- Writes doorbells, of four bytes each. -/
def writeDoorbells (fuel : ℕ) (info : Ctrl → Command → Buffer) (offset : UInt32) (data : Buffer) :
    List ℕ → Vfio → Option Vfio
  | [], v => some v
  | i :: l, v =>
    (v.handleDoorbellWrite fuel info (offset + UInt32.ofNat i).toNat (data.valueAt i 4)).bind
      (writeDoorbells fuel info offset data l)

/-- Writes BAR 0 (`bar0_write`). -/
def bar0Write (fuel : ℕ) (info : Ctrl → Command → Buffer) (offset : UInt64) (count : UInt32)
    (data : Buffer) : List (Span RegionArea) × Option VfioDevice :=
  if offset + count.toUInt64 > 0x10000 then ([], some d)
  else if offset < 0x1000 then
    let r := writePieces offset.toUInt32 data (regPieces count.toNat) d
    (r.1, some r.2)
  else if 0x1000 ≤ offset ∧ offset < 0x2000 then
    let words := (List.range (count.toNat / 4)).map (4 * ·)
    (words.map fun i => ⟨.payload, 16 + i, 4⟩,
      (writeDoorbells fuel info (offset - 0x1000).toUInt32 data words d.vfio).map fun vfio =>
        { d with vfio })
  else if 0x2000 ≤ offset ∧ offset < 0x3000 then
    -- The table has one entry. A write that leaves it is dropped.
    let tblOff := (offset - 0x2000).toUInt32
    if tblOff + count ≤ 16 then
      ([⟨.payload, 16, count.toNat⟩, ⟨.msixTable, tblOff.toNat, count.toNat⟩],
        some { d with msixTable := d.msixTable.store tblOff.toNat count.toNat data })
    else ([], some d)
  else ([], some d)

/-! ## The configuration space of PCI -/

/-- The lower half of the address of BAR 0 when it is written. All ones ask for the size. -/
def barLow (value : UInt32) : UInt32 :=
  if value = 0xFFFFFFFF then 0xFFFF000C else (value &&& ~~~0xFFFF) ||| (0xFFFF000C &&& 0xFFFF)

/-- The upper half. -/
def barHigh (value : UInt32) : UInt32 := if value = 0xFFFFFFFF then 0 else value

/-- Writes the configuration space (`pci_config_write`). Of the control of MSI-X, two bits can be
    written. -/
def pciConfigWrite (offset count : UInt32) (data : Buffer) : List (Span RegionArea) × VfioDevice :=
  let copy : List (Span RegionArea) :=
    [⟨.payload, 16, count.toNat⟩, ⟨.pciConfig, offset.toNat, count.toNat⟩]
  -- The test is one of 32-bit numbers, which may wrap around.
  if offset + count > 256 then ([], d)
  else if offset ≤ 0x42 ∧ offset + count ≥ 0x44 then
    -- All bytes are copied first, and the control of MSI-X is put right afterwards.
    let config := d.pciConfig.store offset.toNat count.toNat data
    let msgCtrl := config.le16 0x42 &&& 0xC000
    (⟨.pciConfig, 0x42, 2⟩ :: copy ++ [⟨.pciConfig, 0x42, 2⟩],
      { d with
        msixEnabled := decide (msgCtrl &&& 0x8000 ≠ 0)
        pciConfig := config.store 0x42 2 (valueBytes msgCtrl.toUInt32) })
  else if offset = 0x10 ∧ count = 4 then
    ([⟨.payload, 16, 4⟩, ⟨.pciConfig, 0x10, 4⟩],
      { d with pciConfig := d.pciConfig.store 0x10 4 (valueBytes (barLow (data.le32 0))) })
  else if offset = 0x14 ∧ count = 4 then
    ([⟨.payload, 16, 4⟩, ⟨.pciConfig, 0x14, 4⟩],
      { d with pciConfig := d.pciConfig.store 0x14 4 (valueBytes (barHigh (data.le32 0))) })
  else (copy, { d with pciConfig := d.pciConfig.store offset.toNat count.toNat data })

/-! ## Messages -/

/-- The number of bytes of the configuration space to be read. -/
def pciCount (offset : UInt64) (count : UInt32) : UInt32 :=
  if offset + count.toUInt64 > 256 then
    if offset ≥ 256 then 0 else 256 - offset.toUInt32
  else count

/-- Reads a region (`handle_region_read`). All others than the two are read as zeros. -/
def handleRegionRead (msg : RegionMsg) : List (Span RegionArea) × RegionReply × VfioDevice :=
  let count := if msg.count > 0x10000 then 0x10000 else msg.count
  let reply (spans : List (Span RegionArea)) (count : UInt32) (data : Buffer) (d : VfioDevice) :=
    (⟨.payload, 0, 16⟩ :: spans ++ [⟨.reply, 0, (16 + count).toNat⟩],
      (⟨msg.offset, msg.region, count, data, 16 + count⟩ : RegionReply), d)
  if msg.region = 7 then
    let count := pciCount msg.offset count
    reply [⟨.pciConfig, msg.offset.toNat, count.toNat⟩, ⟨.reply, 16, count.toNat⟩] count
      ((bufferOf []).store 0 count.toNat fun k => d.pciConfig (msg.offset.toNat + k)) d
  else if msg.region = 0 then
    let r := d.bar0Read msg.offset count
    reply r.1 count r.2.1 r.2.2
  else reply [] count (bufferOf []) d

/-- Writes a region (`handle_region_write`). The offset in the configuration space is narrowed. -/
def handleRegionWrite (fuel : ℕ) (info : Ctrl → Command → Buffer) (msg : RegionMsg) :
    List (Span RegionArea) × Option VfioDevice :=
  let r := if msg.region = 7 then
      let r := d.pciConfigWrite msg.offset.toUInt32 msg.count msg.data
      (r.1, some r.2)
    else if msg.region = 0 then d.bar0Write fuel info msg.offset msg.count msg.data
    else ([], some d)
  (⟨.payload, 0, 16⟩ :: r.1, r.2)

end VfioDevice

end Nvme

end FtlFirmware
