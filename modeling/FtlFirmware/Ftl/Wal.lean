import FtlFirmware.Ftl.Relocate
import FtlFirmware.Lib.Records

/-!
# The write-ahead log

A write or a trim is logged before it is done: an entry (`WalEntry`) is appended to the log file,
if the log is open and enabled (`walLogWrite`, `walLogTrim`). After a power failure the log is
replayed on the maps of the last snapshot (`walReplay`). Entries are records of seven words, each
with a magic number and a checksum, by which the replay recognises them.
-/

namespace FtlFirmware

/-- The magic number of an entry (`FTL_WAL_MAGIC`). -/
abbrev walMagic : UInt32 := 0x57414C31

/-- The operations that are logged (`wal_op_type_t`), as the numbers that stand for them. -/
abbrev walOpWrite : UInt32 := 0

@[inherit_doc walOpWrite]
abbrev walOpErase : UInt32 := 1

@[inherit_doc walOpWrite]
abbrev walOpTrim : UInt32 := 2

/-- The word that stands for an entry of one of the maps in a file. -/
def ppnWord : Option ℕ → UInt32
  | none => 0xFFFFFFFF
  | some ppn => UInt32.ofNat ppn

/-- The entry of a map for which a word of a file stands. -/
def wordPpn (w : UInt32) : Option ℕ := if w = 0xFFFFFFFF then none else some w.toNat

/-- An entry of the log (`wal_entry_t`). -/
structure WalEntry where
  magic : UInt32
  op : UInt32
  lpn : UInt32
  oldPpn : UInt32
  newPpn : UInt32
  sequence : UInt32
  checksum : UInt32
  deriving DecidableEq, Repr

/-- The sum of the bytes, a 32-bit number (`ftl_calc_checksum`). -/
def calcChecksum (data : List UInt8) : UInt32 :=
  data.foldl (fun checksum byte => checksum + byte.toUInt32) 0

namespace WalEntry

variable (e : WalEntry)

/-- The size of an entry in bytes. -/
abbrev size : ℕ := 28

/-- The words of an entry before its checksum. -/
def payload : List UInt32 := [e.magic, e.op, e.lpn, e.oldPpn, e.newPpn, e.sequence]

/-- The bytes of an entry. -/
def bytes : List UInt8 := e.payload.flatMap wordBytes ++ wordBytes e.checksum

/-- The entry of the given bytes. -/
def ofBytes (l : List UInt8) : WalEntry where
  magic := wordAt l 0
  op := wordAt l 1
  lpn := wordAt l 2
  oldPpn := wordAt l 3
  newPpn := wordAt l 4
  sequence := wordAt l 5
  checksum := wordAt l 6

/-- The checksum of an entry (`wal_calculate_checksum`). -/
def calculateChecksum : UInt32 := calcChecksum (e.payload.flatMap wordBytes)

/-- The entry as it goes to the log, with its magic number, its number and its checksum. -/
def sealed (sequence : UInt32) : WalEntry :=
  let e := { e with magic := walMagic, sequence := sequence }
  { e with checksum := e.calculateChecksum }

/-- Whether the replay accepts an entry. -/
def intact : Bool := decide (e.magic = walMagic) && decide (e.calculateChecksum = e.checksum)

end WalEntry

namespace Ftl

variable (s : Ftl)

/-! ## Writing the log -/

/-- Opens a log file, which is created if there is none (`ftl_wal_init`). Entries are appended to
    it. -/
def walInit (path : String) : RetCode × Ftl :=
  let content := (s.files path).getD []
  let count := UInt32.ofNat (content.length / WalEntry.size)
  (.ok, { s with
    files := Function.update s.files path (some content)
    walFile := some path
    walEntryCount := count
    walSequence := count })

/-- Appends an entry to the log file (`ftl_wal_append`). -/
def walAppend (e : WalEntry) : RetCode × Ftl :=
  match s.walFile with
  | none => (.errParam, s)
  | some path =>
    (.ok, { s with
      files := Function.update s.files path
        (some ((s.files path).getD [] ++ (e.sealed s.walSequence).bytes))
      walSequence := s.walSequence + 1
      walEntryCount := s.walEntryCount + 1 })

/-- Closes the log file (`ftl_wal_clear`). Its contents stay. -/
def walClear : RetCode × Ftl :=
  match s.walFile with
  | none => (.ok, s)
  | some _ => (.ok, { s with walFile := none, walSequence := 0, walEntryCount := 0 })

/-- Enables or disables the log (`ftl_wal_enable`). -/
def walEnable (enable : Bool) : Ftl := { s with walEnabled := enable }

/-- Logs an entry, if the log is enabled and open. -/
def walLog (e : WalEntry) : RetCode × Ftl :=
  if ¬ s.walEnabled ∨ s.walFile = none then (.ok, s) else s.walAppend e

/-- Logging succeeds, and changes only the files and the numbers of the log. -/
theorem walLog_ok (e : WalEntry) : ∃ files sequence count, s.walLog e =
    (.ok, { s with files := files, walSequence := sequence, walEntryCount := count }) := by
  rw [walLog]
  split
  · exact ⟨_, _, _, rfl⟩
  · next h =>
    push Not at h
    rw [walAppend]
    cases hw : s.walFile with
    | none => exact absurd hw h.2
    | some path => exact ⟨_, _, _, rfl⟩

/-- The entry of a write, before it is sealed. -/
def writeEntry (lpn : ℕ) (oldPpn : Option ℕ) (newPpn : ℕ) : WalEntry where
  magic := 0
  op := walOpWrite
  lpn := UInt32.ofNat lpn
  oldPpn := ppnWord oldPpn
  newPpn := UInt32.ofNat newPpn
  sequence := 0
  checksum := 0

/-- The entry of a trim, before it is sealed. -/
def trimEntry (lpn : ℕ) (oldPpn : Option ℕ) : WalEntry where
  magic := 0
  op := walOpTrim
  lpn := UInt32.ofNat lpn
  oldPpn := ppnWord oldPpn
  newPpn := ppnWord none
  sequence := 0
  checksum := 0

/-- Logs a write (`wal_log_write`). -/
def walLogWrite (lpn : ℕ) (oldPpn : Option ℕ) (newPpn : ℕ) : RetCode × Ftl :=
  s.walLog (writeEntry lpn oldPpn newPpn)

/-- Logs a trim (`wal_log_trim`). -/
def walLogTrim (lpn : ℕ) : RetCode × Ftl := s.walLog (trimEntry lpn (s.l2pTable lpn))

/-! ## Replaying the log -/

/-- Replays a write: the old page loses its logical page, the new one gets it. -/
def replayWrite (e : WalEntry) : Option Ftl :=
  if e.lpn.toNat < totalLpns then
    match wordPpn e.newPpn with
    | none => some s
    | some newPpn =>
      -- The pages of the record are used as indices without a look at the table's end.
      if (∀ oldPpn, wordPpn e.oldPpn = some oldPpn → oldPpn < totalPpns) ∧ newPpn < totalPpns then
        some { s with
          l2pTable := Function.update s.l2pTable e.lpn.toNat (some newPpn)
          reverseMap := Function.update
            (match wordPpn e.oldPpn with
              | some oldPpn => Function.update s.reverseMap oldPpn none
              | none => s.reverseMap) newPpn (some e.lpn.toNat) }
      else none
  else some s

/-- Replays a trim, of the page that the logical page is mapped to in the replay. -/
def replayTrim (e : WalEntry) : Option Ftl :=
  if e.lpn.toNat < totalLpns then
    match s.l2pTable e.lpn.toNat with
    | none => some s
    | some ppn =>
      if ppn < totalPpns then
        some { s with
          l2pTable := Function.update s.l2pTable e.lpn.toNat none
          reverseMap := Function.update s.reverseMap ppn none }
      else none
  else some s

/-- Replays one entry. One that is not intact is skipped. -/
def replayEntry (e : WalEntry) : Option Ftl :=
  if ¬ e.intact then some s
  else if e.op = walOpWrite then s.replayWrite e
  else if e.op = walOpTrim then s.replayTrim e
  else some s

/-- The entries that the replay reads from a log file. -/
def logEntries (log : List UInt8) : List WalEntry := (records WalEntry.size log).map .ofBytes

/-- Replays a log file, if there is one (`ftl_wal_replay`). -/
def walReplay (path : String) : Option (RetCode × Ftl) :=
  match s.files path with
  | none => some (.ok, s)
  | some log => ((logEntries log).foldlM replayEntry s).map fun s => (.ok, s)

end Ftl

end FtlFirmware
