import FtlFirmware.Common
import FtlFirmware.Nand.Basic

/-!
# Protection information

The protection information of the host interface (`dif_protection_t`): for each logical block of a
buffer a CRC, an application tag and a reference tag. A buffer is cut into blocks of the size of a
page, of which the last one takes what is left over (`lbaData`); a short buffer is one block.

* `Dif.generate`: the information for a buffer;
* `Dif.verify`: the buffer is compared with the information, block by block, up to the first one
  that differs.

The table of the CRC (`crc16T10piTable`) is that of the source. Only its first quarter is that of
the polynomial `0x8BB7` (see `FtlFirmware.HostIf.Bursts`).
-/

namespace FtlFirmware

/-- The types of protection (`dif_type_t`). -/
inductive DifType
  | disabled
  | type1
  | type2
  | type3
  deriving DecidableEq, Repr

/-- The protection information of a block (`dif_protection_t`). -/
structure DifProtection where
  crc : UInt16
  appTag : UInt16
  refTag : UInt32
  deriving DecidableEq

/-- The configuration (`dif_config_t`). -/
structure DifConfig where
  type : DifType
  guardCheckEnable : Bool
  appTagCheckEnable : Bool
  refTagCheckEnable : Bool
  appTag : UInt16
  appTagMask : UInt16

/-- The numbers of errors (`dif_stats_t`). -/
structure DifStats where
  crcErrors : UInt64
  appTagErrors : UInt64
  refTagErrors : UInt64
  totalChecks : UInt64

/-- The state of the module (`g_dif`). -/
structure Dif where
  config : DifConfig
  stats : DifStats
  isInitialized : Bool

/-- The table of the CRC (`crc16_t10pi_table`). -/
def crc16T10piTable : Array UInt16 := #[
  0x0000, 0x8BB7, 0x9CD9, 0x176E, 0xB205, 0x39B2, 0x2EDC, 0xA56B,
  0xEFBD, 0x640A, 0x7364, 0xF8D3, 0x5DB8, 0xD60F, 0xC161, 0x4AD6,
  0x54CD, 0xDF7A, 0xC814, 0x43A3, 0xE6C8, 0x6D7F, 0x7A11, 0xF1A6,
  0xBB70, 0x30C7, 0x27A9, 0xAC1E, 0x0975, 0x82C2, 0x95AC, 0x1E1B,
  0xA99A, 0x222D, 0x3543, 0xBEF4, 0x1B9F, 0x9028, 0x8746, 0x0CF1,
  0x4627, 0xCD90, 0xDAFE, 0x5149, 0xF422, 0x7F95, 0x68FB, 0xE34C,
  0xFD57, 0x76E0, 0x618E, 0xEA39, 0x4F52, 0xC4E5, 0xD38B, 0x583C,
  0x12EA, 0x995D, 0x8E33, 0x0584, 0xA0EF, 0x2B58, 0x3C36, 0xB781,
  0x883D, 0x038A, 0x14E4, 0x9F53, 0x3A38, 0xB18F, 0xA6E1, 0x2D56,
  0x6780, 0xEC37, 0xFB59, 0x70EE, 0xD585, 0x5E32, 0x495C, 0xC2EB,
  0xDCF0, 0x5747, 0x4029, 0xCB9E, 0x6EF5, 0xE542, 0xF22C, 0x799B,
  0x334D, 0xB8FA, 0xAF94, 0x2423, 0x8148, 0x0AFF, 0x1D91, 0x9626,
  0x21A7, 0xAA10, 0xBD7E, 0x36C9, 0x93A2, 0x1815, 0x0F7B, 0x84CC,
  0xCE1A, 0x45AD, 0x52C3, 0xD974, 0x7C1F, 0xF7A8, 0xE0C6, 0x6B71,
  0x756A, 0xFEDD, 0xE9B3, 0x6204, 0xC76F, 0x4CD8, 0x5BB6, 0xD001,
  0x9AD7, 0x1160, 0x060E, 0x8DB9, 0x28D2, 0xA365, 0xB40B, 0x3FBC,
  0x1083, 0x9B34, 0x8C5A, 0x07ED, 0xA286, 0x2931, 0x3E5F, 0xB5E8,
  0xFF3E, 0x7489, 0x63E7, 0xE850, 0x4D3B, 0xC68C, 0xD1E2, 0x5A55,
  0x444E, 0xCFF9, 0xD897, 0x5320, 0xF64B, 0x7DFC, 0x6A92, 0xE125,
  0xABF3, 0x2044, 0x372A, 0xBC9D, 0x19F6, 0x9241, 0x852F, 0x0E98,
  0xB919, 0x32AE, 0x25C0, 0xAE77, 0x0B1C, 0x80AB, 0x97C5, 0x1C72,
  0x56A4, 0xDD13, 0xCA7D, 0x41CA, 0xE4A1, 0x6F16, 0x7878, 0xF3CF,
  0xEDD4, 0x6663, 0x710D, 0xFABA, 0x5FD1, 0xD466, 0xC308, 0x48BF,
  0x0269, 0x89DE, 0x9EB0, 0x1507, 0xB06C, 0x3BDB, 0x2CB5, 0xA702,
  0x98BE, 0x1309, 0x0467, 0x8FD0, 0x2ABB, 0xA10C, 0xB662, 0x3DD5,
  0x7703, 0xFCB4, 0xEBDA, 0x606D, 0xC506, 0x4EB1, 0x59DF, 0xD268,
  0xCC73, 0x47C4, 0x50AA, 0xDB1D, 0x7E76, 0xF5C1, 0xE2AF, 0x6918,
  0x23CE, 0xA879, 0xBF17, 0x34A0, 0x91CB, 0x1A7C, 0x0D12, 0x86A5,
  0x3124, 0xBA93, 0xADFD, 0x264A, 0x8321, 0x0896, 0x1FF8, 0x944F,
  0xDE99, 0x552E, 0x4240, 0xC9F7, 0x6C9C, 0xE72B, 0xF045, 0x7BF2,
  0x65E9, 0xEE5E, 0xF930, 0x7287, 0xD7EC, 0x5C5B, 0x4B35, 0xC082,
  0x8A54, 0x01E3, 0x168D, 0x9D3A, 0x3851, 0xB3E6, 0xA488, 0x2F3F]

/-- The CRC after one more byte. -/
def difCrc16Step (crc : UInt16) (byte : UInt8) : UInt16 :=
  (crc <<< 8) ^^^ crc16T10piTable.getD (((crc >>> 8) ^^^ byte.toUInt16) &&& 0xFF).toNat 0

/-- The CRC of a buffer (`dif_crc16`). -/
def difCrc16 (data : List UInt8) : UInt16 :=
  if data = [] then 0 else data.foldl difCrc16Step 0xFFFF

/-- The number of blocks of a buffer. -/
def lbaCount (data : List UInt8) : ℕ :=
  if data.length / pageSize = 0 then 1 else data.length / pageSize

/-- The block `i` of a buffer. The last one goes to the end. -/
def lbaData (data : List UInt8) (i : ℕ) : List UInt8 :=
  if i = lbaCount data - 1 then data.drop (i * pageSize)
  else (data.drop (i * pageSize)).take pageSize

namespace Dif

variable (s : Dif)

/-- Initializes the module (`dif_init`). -/
def init (config : DifConfig) : RetCode × Dif := (.ok, ⟨config, ⟨0, 0, 0, 0⟩, true⟩)

/-- The reference tag of the block `i`. -/
def refTag (lba : UInt64) (i : ℕ) : UInt32 :=
  match s.config.type with
  | .type1 => (lba + UInt64.ofNat i).toUInt32
  | _ => 0

/-- The protection information of the block `i`. -/
def protect (data : List UInt8) (lba : UInt64) (i : ℕ) : DifProtection :=
  ⟨difCrc16 (lbaData data i), s.config.appTag, s.refTag lba i⟩

/-- Writes the protection information of a buffer to the array `protection` (`dif_generate`). -/
def generate (data : List UInt8) (lba : UInt64) (protection : ℕ → DifProtection) :
    RetCode × (ℕ → DifProtection) :=
  if data = [] then (.errParam, protection)
  else if !s.isInitialized then (.errNotInit, protection)
  else if s.config.type = .disabled then (.errNotSupport, protection)
  else (.ok, fun i => if i < lbaCount data then s.protect data lba i else protection i)

/-- The first check that the block `i` fails, if any (`dif_verify`, one pass of the loop). -/
def failure (data : List UInt8) (lba : UInt64) (protection : ℕ → DifProtection) (i : ℕ) :
    Option RetCode :=
  let config := s.config
  let p := protection i
  if config.guardCheckEnable ∧ difCrc16 (lbaData data i) ≠ p.crc then some .errDifCrc
  else if config.appTagCheckEnable ∧ p.appTag &&& config.appTagMask ≠
      config.appTag &&& config.appTagMask then some .errDifAppTag
  else if config.refTagCheckEnable ∧ config.type = .type1 ∧
      p.refTag ≠ (lba + UInt64.ofNat i).toUInt32 then some .errDifRefTag
  else none

/-- Counts a failed check. -/
def countFailure (ret : RetCode) : Dif :=
  { s with stats := { s.stats with
      crcErrors := s.stats.crcErrors + if ret = .errDifCrc then 1 else 0
      appTagErrors := s.stats.appTagErrors + if ret = .errDifAppTag then 1 else 0
      refTagErrors := s.stats.refTagErrors + if ret = .errDifRefTag then 1 else 0 } }

/-- Checks blocks in turn, up to the first one that fails (`dif_verify`, loop). -/
def verifyBlocks (data : List UInt8) (lba : UInt64) (protection : ℕ → DifProtection) :
    List ℕ → (RetCode × Option UInt64) × Dif
  | [] => ((.ok, none), s)
  | i :: is =>
    match s.failure data lba protection i with
    | some ret => ((ret, some (lba + UInt64.ofNat i)), s.countFailure ret)
    | none => verifyBlocks data lba protection is

/-- Compares a buffer with its protection information (`dif_verify`). The answer is the return code
    and the block with the error, if one is told. -/
def verify (data : List UInt8) (lba : UInt64) (protection : ℕ → DifProtection) :
    (RetCode × Option UInt64) × Dif :=
  if data = [] then ((.errParam, none), s)
  else if !s.isInitialized then ((.errNotInit, none), s)
  else if s.config.type = .disabled then ((.errNotSupport, none), s)
  else
    { s with stats := { s.stats with
        totalChecks := s.stats.totalChecks + UInt64.ofNat (lbaCount data) } }.verifyBlocks data lba
      protection (List.range (lbaCount data))

end Dif

end FtlFirmware
