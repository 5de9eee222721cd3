import FtlFirmware.Ftl.Host
import FtlFirmware.Lib.Lookup

/-!
# Snapshots

A snapshot (`saveSnapshot`) keeps the map, the write cursor and three counters in a file. When it
is loaded (`loadSnapshot`), the map back is rebuilt from the map.
-/

namespace FtlFirmware

/-- The magic number of a snapshot (`FTL_META_MAGIC`). -/
abbrev metaMagic : UInt32 := 0x46544C31

/-- The version of the format of a snapshot (`FTL_META_VERSION`). -/
abbrev metaVersion : UInt32 := 0x00010000

/-- The header of a snapshot (`ftl_meta_header_t`). -/
structure MetaHeader where
  magic : UInt32
  version : UInt32
  checksum : UInt32
  hostWritePages : UInt32
  nandWritePages : UInt32
  gcCount : UInt32
  curWriteBlock : UInt32
  curWritePage : UInt32
  deriving DecidableEq, Repr

namespace MetaHeader

variable (h : MetaHeader)

/-- The size of the header in bytes. -/
abbrev size : ℕ := 32

/-- The words of the header. -/
def words : List UInt32 :=
  [h.magic, h.version, h.checksum, h.hostWritePages, h.nandWritePages, h.gcCount,
    h.curWriteBlock, h.curWritePage]

/-- The bytes of the header. -/
def bytes : List UInt8 := h.words.flatMap wordBytes

/-- The header of the given bytes. -/
def ofBytes (l : List UInt8) : MetaHeader where
  magic := wordAt l 0
  version := wordAt l 1
  checksum := wordAt l 2
  hostWritePages := wordAt l 3
  nandWritePages := wordAt l 4
  gcCount := wordAt l 5
  curWriteBlock := wordAt l 6
  curWritePage := wordAt l 7

/-- The checksum of the header, in which its own word counts as zero. -/
def calculateChecksum : UInt32 := calcChecksum { h with checksum := 0 }.bytes

end MetaHeader

namespace Ftl

variable (s : Ftl)

/-- The header of a snapshot, before its checksum is entered. -/
def metaHeader : MetaHeader where
  magic := metaMagic
  version := metaVersion
  checksum := 0
  hostWritePages := s.hostWritePages
  nandWritePages := s.nandWritePages
  gcCount := s.gcCount
  curWriteBlock := UInt32.ofNat s.curWriteBlock
  curWritePage := UInt32.ofNat s.curWritePage

/-- The contents of a snapshot: the header, then the map. -/
def snapshotBytes : List UInt8 :=
  { s.metaHeader with checksum := s.metaHeader.calculateChecksum }.bytes ++
    (List.range totalLpns).flatMap fun lpn => wordBytes (ppnWord (s.l2pTable lpn))

/-- Saves a snapshot (`ftl_save_snapshot`). -/
def saveSnapshot (path : String) : RetCode × Ftl :=
  if ¬ s.isInitialized then (.errParam, s)
  else (.ok, { s with files := Function.update s.files path (some s.snapshotBytes) })

/-- An entry of the map, once the bytes of a table have been read over it: those that the table does
    not have are as before. -/
def entryAt (table : List UInt8) (lpn : ℕ) (old : Option ℕ) : Option ℕ :=
  if table.length ≤ 4 * lpn then old
  else wordPpn (bytesWord (table.drop (4 * lpn) ++
    (wordBytes (ppnWord old)).drop (table.length - 4 * lpn)))

/-- The map, once a table has been read over it. -/
def loadTable (table : List UInt8) : Ftl :=
  { s with
    l2pTable := fun lpn =>
      if lpn < totalLpns then entryAt table lpn (s.l2pTable lpn) else s.l2pTable lpn }

/-- Loads a snapshot (`ftl_load_snapshot`). When the file ends within the map, the map has been
    loaded up to the end of the file. -/
def loadSnapshot (path : String) : RetCode × Ftl :=
  match s.files path with
  | none => (.errInternal, s)
  | some content =>
    if content.length < MetaHeader.size then (.errInternal, s)
    else
      let header := MetaHeader.ofBytes content
      if header.magic ≠ metaMagic then (.errChecksum, s)
      else if header.checksum ≠ header.calculateChecksum then (.errChecksum, s)
      else
        let table := content.drop MetaHeader.size
        let s := s.loadTable table
        -- The map is in place when the file turns out to be too short.
        if table.length / 4 < totalLpns then (.errInternal, s)
        else
          -- The map back is rebuilt from the map, where this names a page of the device.
          (.ok, { s with
            hostWritePages := header.hostWritePages
            nandWritePages := header.nandWritePages
            gcCount := header.gcCount
            curWriteBlock := header.curWriteBlock.toNat
            curWritePage := header.curWritePage.toNat
            reverseMap := (List.range totalLpns).foldl
              (Lookup.enter fun lpn => (s.l2pTable lpn).filter (· < totalPpns)) fun _ => none
            isInitialized := true })

/-- A power cycle (`nand_deinit`, then `nand_init` on the media left, then `ftl_init`). -/
def powerCycle (rand : ℕ → ℕ) : RetCode × Ftl :=
  { s with nand := Nand.init (some s.nand.deinit.media) rand }.init

end Ftl

end FtlFirmware
