import FtlFirmware.Lib.Run
import FtlFirmware.Nvme.Transfer

/-!
# The UFS target

The target executes SCSI commands (`Ufs.processCmd`). A command is a block of 16 bytes, of which the
first one is the operation code. The sectors of a Read or a Write, of 512 bytes each, are given by
a 32-bit address and a 16-bit number; the FTL stores pages of eight sectors.

* `handleRead10`, `handleWrite10`: pages are read into the data of the command, or written from
  it, in turn (`readLoop`, `writeLoop`), from the page of the first sector on;
* `handleInquiry`, `handleReadCapacity`, …: the other commands, which report, or do nothing;
* `setWriteProtect`, `setPowerMode`: what the commands depend on besides.
-/

namespace FtlFirmware

open Nvme (Buffer)

/-- The number of bytes of a sector. -/
abbrev sectorSize : ℕ := 512

/-- The number of sectors of a page. -/
abbrev sectorsPerPage : ℕ := 8

/-- The status of a response. -/
inductive ScsiStatus
  | good
  | checkCondition
  deriving DecidableEq, Repr

/-- A command (`ufs_cmd_request_t`): its descriptor block. -/
structure UfsRequest where
  cdb : Vector UInt8 16

/-- A response (`ufs_cmd_response_t`). -/
structure UfsResponse where
  scsiStatus : ScsiStatus
  dataSegmentLen : UInt32
  senseData : Vector UInt8 18

/-- The modes of the power management. -/
inductive UfsPowerMode
  | active
  | idle
  | sleep
  | powerDown
  deriving DecidableEq, Repr

/-- The target, with the FTL. -/
structure Ufs where
  isInitialized : Bool
  powerMode : UfsPowerMode
  writeProtected : Bool
  ftl : Ftl

/-- What is left of a command: the return code, the response, and the data. -/
structure UfsReply where
  ret : RetCode
  response : UfsResponse
  data : Buffer

/-! ### Commands and responses -/

namespace UfsRequest

variable (request : UfsRequest)

/-- The operation code. -/
def opcode : UInt8 := request.cdb[0]

/-- The address of the first sector, the highest byte first (`cdb_get_lba_10`). -/
def lba : UInt32 :=
  request.cdb[2].toUInt32 <<< 24 ||| request.cdb[3].toUInt32 <<< 16 |||
    request.cdb[4].toUInt32 <<< 8 ||| request.cdb[5].toUInt32

/-- The number of sectors, the highest byte first (`cdb_get_length_10`). -/
def sectors : UInt16 := request.cdb[7].toUInt16 <<< 8 ||| request.cdb[8].toUInt16

/-- The number of bytes of the sectors, which is a 32-bit number. -/
def byteCount : ℕ := request.sectors.toNat * sectorSize

/-- The page of the first sector. -/
def lpn : UInt32 := request.lba / 8

/-- The number of pages read or written. -/
def lpns : ℕ := (request.byteCount + 4095) / pageSize

/-- The page `i` of the command: a 32-bit number. -/
def lpnAt (i : ℕ) : ℕ := (request.lpn + UInt32.ofNat i).toNat

end UfsRequest

namespace UfsResponse

variable (response : UfsResponse)

/-- A response of success (`set_response_good`). -/
def setGood : UfsResponse :=
  { response with scsiStatus := .good, senseData := Vector.replicate 18 0 }

/-- A response of failure, with what is known of it (`set_response_check_condition`). -/
def setCheckCondition (senseKey asc ascq : UInt8) : UfsResponse :=
  { response with
    scsiStatus := .checkCondition
    senseData := ((((Vector.replicate 18 0).set 0 0x70).set 2 senseKey).set 7 10).set 12 asc
      |>.set 13 ascq }

end UfsResponse

namespace Ufs

/-! ### Pages -/

/-- Reads pages in turn, until a read fails (`handle_read_10`, loop). -/
def readLoop (lpn : ℕ → ℕ) : List ℕ → Buffer → Ftl → RetCode × Buffer × Ftl
  | [], data, ftl => (.ok, data, ftl)
  | i :: is, data, ftl =>
    let r := ftl.read (lpn i) (data.page i)
    if r.1 = .ok then readLoop lpn is (data.setPage i r.2.1) r.2.2
    else (r.1, data.setPage i r.2.1, r.2.2)

/-- Writes pages in turn, until a write fails (`handle_write_10`, loop). -/
def writeLoop (fuel : ℕ) (lpn : ℕ → ℕ) (data : Buffer) : List ℕ → Ftl → Option (RetCode × Ftl)
  | [], ftl => some (.ok, ftl)
  | i :: is, ftl =>
    (ftl.write fuel (lpn i) (data.page i)).bind fun r =>
      if r.1 = .ok then writeLoop fuel lpn data is r.2 else some r

/-! ### Handlers -/

/-- What is known of the device: 36 bytes, of which the vendor is from the byte 8 on, the product
    from 16 on, and the revision from 32 on. -/
def inquiryData : List UInt8 :=
  [0x00, 0x00, 0x06, 0x02, 31, 0, 0, 0] ++
    [0x46, 0x54, 0x4C, 0x46, 0x57, 0x20, 0x20, 0x00] ++
    [0x55, 0x46, 0x53, 0x2D, 0x53, 0x53, 0x44, 0x2D, 0x53, 0x49, 0x4D, 0x20, 0x20, 0x20, 0, 0] ++
    [0x31, 0x2E, 0x30, 0x20]

/-- The number of sectors of the device, as told by the FTL. -/
def totalSectors : ℕ := totalLpns * (pageSize / sectorSize)

/-- The eight bytes of the capacity: the last sector and the size of one, the highest byte first. -/
def capacityData : List UInt8 :=
  let lastLba := UInt32.ofNat (totalSectors - 1)
  [(lastLba >>> 24).toUInt8, (lastLba >>> 16).toUInt8, (lastLba >>> 8).toUInt8, lastLba.toUInt8,
    0, 0, UInt8.ofNat (sectorSize >>> 8), UInt8.ofNat sectorSize]

variable (s : Ufs) (request : UfsRequest) (response : UfsResponse) (data : Buffer)
  (dataLen : UInt32)

/-- Tells whether the target is ready (`handle_test_unit_ready`). -/
def handleTestUnitReady : UfsReply :=
  if s.isInitialized then ⟨.ok, response.setGood, data⟩
  else ⟨.ok, response.setCheckCondition 0x02 0x04 0x01, data⟩

/-- Reports on the device, as far as there is room (`handle_inquiry`). -/
def handleInquiry : UfsReply :=
  let copyLen := min 36 dataLen
  ⟨.ok, { response with dataSegmentLen := copyLen }.setGood,
    data.store 0 copyLen.toNat (Nvme.bufferOf inquiryData)⟩

/-- Reports the capacity, if there is room (`handle_read_capacity`). -/
def handleReadCapacity : UfsReply :=
  if ¬ s.ftl.isInitialized then
    ⟨.errInternal, response.setCheckCondition 0x04 0x00 0x00, data⟩
  else if 8 ≤ dataLen then
    ⟨.ok, { response with dataSegmentLen := 8 }.setGood,
      data.store 0 8 (Nvme.bufferOf capacityData)⟩
  else ⟨.ok, response.setGood, data⟩

/-- Reads the pages of a command into its data (`handle_read_10`). -/
def handleRead10 : UfsReply × Ufs :=
  if dataLen.toNat < request.byteCount then
    (⟨.errParam, response.setCheckCondition 0x05 0x20 0x00, data⟩, s)
  else
    let r := readLoop request.lpnAt (List.range request.lpns) data s.ftl
    let s := { s with ftl := r.2.2 }
    if r.1 = .ok then
      (⟨.ok, { response with dataSegmentLen := UInt32.ofNat request.byteCount }.setGood, r.2.1⟩, s)
    else (⟨r.1, response.setCheckCondition 0x03 0x11 0x00, r.2.1⟩, s)

/-- Writes the pages of a command from its data (`handle_write_10`). -/
def handleWrite10 (fuel : ℕ) : Option (UfsReply × Ufs) :=
  if s.writeProtected then some (⟨.ok, response.setCheckCondition 0x07 0x27 0x00, data⟩, s)
  else if dataLen.toNat < request.byteCount then
    some (⟨.errParam, response.setCheckCondition 0x05 0x20 0x00, data⟩, s)
  else
    (writeLoop fuel request.lpnAt data (List.range request.lpns) s.ftl).map fun r =>
      if r.1 = .ok then (⟨.ok, response.setGood, data⟩, { s with ftl := r.2 })
      else (⟨r.1, response.setCheckCondition 0x03 0x0C 0x00, data⟩, { s with ftl := r.2 })

/-- Does nothing, with success: all data is on the media already
    (`handle_synchronize_cache`). -/
def handleSynchronizeCache : UfsReply := ⟨.ok, response.setGood, data⟩

/-- Does nothing, with success (`handle_unmap`). -/
def handleUnmap : UfsReply := ⟨.ok, response.setGood, data⟩

/-- Executes a command (`ufs_target_process_cmd`). -/
def processCmd (fuel : ℕ) : Option (UfsReply × Ufs) :=
  if request.opcode = 0x00 then some (s.handleTestUnitReady response data, s)
  else if request.opcode = 0x12 then some (handleInquiry response data dataLen, s)
  else if request.opcode = 0x25 then some (s.handleReadCapacity response data dataLen, s)
  else if request.opcode = 0x28 then some (s.handleRead10 request response data dataLen)
  else if request.opcode = 0x2A then s.handleWrite10 request response data dataLen fuel
  else if request.opcode = 0x35 then some (handleSynchronizeCache response data, s)
  else if request.opcode = 0x42 then some (handleUnmap response data, s)
  else some (⟨.errParam, response.setCheckCondition 0x05 0x20 0x00, data⟩, s)

/-! ### The target as a whole -/

/-- The target as it is loaded, in front of an FTL. -/
def load (ftl : Ftl) : Ufs where
  isInitialized := false
  powerMode := .active
  writeProtected := false
  ftl := ftl

/-- Initializes the target (`ufs_target_init`). -/
def init : Ufs := { s with isInitialized := true }

/-- Closes the target (`ufs_target_deinit`). -/
def deinit : Ufs := { s with isInitialized := false }

/-- Sets the mode of the power management (`ufs_target_set_power_mode`). -/
def setPowerMode (mode : UfsPowerMode) : RetCode × Ufs :=
  if ¬ s.isInitialized then (.errNotInit, s)
  else
    match mode with
    | .powerDown => (.ok, { s with powerMode := mode, isInitialized := false })
    | _ => (.ok, { s with powerMode := mode })

/-- Turns the write protection on or off (`ufs_target_set_write_protect`). -/
def setWriteProtect (enable : Bool) : Ufs := { s with writeProtected := enable }

end Ufs

/-- The calls of the target. A command comes with a response to be filled in and with data. -/
inductive UfsCall
  | init
  | deinit
  | setPowerMode (mode : UfsPowerMode)
  | setWriteProtect (enable : Bool)
  | processCmd (request : UfsRequest) (response : UfsResponse) (data : Buffer) (dataLen : UInt32)

/-- The answer to a call: its return code and, for a command, its response and its data. -/
structure UfsAnswer where
  ret : RetCode
  reply : Option (UfsResponse × Buffer)

namespace Ufs

/-- Executes a call, with enough fuel for the garbage collections of its writes. -/
def exec (fuel : ℕ) (s : Ufs) : UfsCall → Option (UfsAnswer × Ufs)
  | .init => some (⟨.ok, none⟩, s.init)
  | .deinit => some (⟨.ok, none⟩, s.deinit)
  | .setPowerMode mode => some (⟨(s.setPowerMode mode).1, none⟩, (s.setPowerMode mode).2)
  | .setWriteProtect enable => some (⟨.ok, none⟩, s.setWriteProtect enable)
  | .processCmd request response data dataLen =>
    (s.processCmd request response data dataLen fuel).map fun r =>
      (⟨r.1.ret, some (r.1.response, r.1.data)⟩, r.2)

/-- The target as a machine. -/
def machine : Machine Ufs UfsCall UfsAnswer where
  step s c a s' := ∃ fuel, s.exec fuel c = some (a, s')

end Ufs

end FtlFirmware
