import FtlFirmware.Ftl.Snapshot
import FtlFirmware.Lib.Assign
import Mathlib.Tactic.Common

/-!
# Replaying the log

The replay of an entry assigns to entries of the two maps (`l2pAssigns`, `revAssigns`), so that the
replay of a log is a list of assignments made one after another (`foldlM_replayEntry`). It leaves
the maps as they are exactly if the log agrees with them (`LogAgrees`): the last entry of each
logical page says what the map says, and the last one that concerns a physical page says what the
map back says (`walReplay_eq_self`).

Entries and snapshots are read back as they have been written (`logEntries_append`,
`loadSnapshot_eq`).
-/

namespace FtlFirmware

/-! ## Records -/

/-- A record after whole records. -/
theorem records_append_singleton {α : Type*} {k : ℕ} {l r : List α} (hk : 0 < k)
    (hl : k ∣ l.length) (hr : r.length = k) : records k (l ++ r) = records k l ++ [r] := by
  obtain ⟨m, hm⟩ := hl
  have hlen : (l ++ r).length / k = m + 1 := by
    rw [List.length_append, hm, hr, Nat.mul_add_div hk, Nat.div_self hk]
  rw [records, records, hlen, hm, Nat.mul_div_cancel_left _ hk, List.range_succ, List.map_append]
  congr 1
  · refine List.map_congr_left fun i hi => ?_
    have hle : k * i + k ≤ l.length := by
      rw [hm, ← Nat.mul_succ]
      exact Nat.mul_le_mul_left k (List.mem_range.1 hi)
    rw [List.drop_append_of_le_length ((Nat.le_add_right _ _).trans hle),
      List.take_append_of_le_length (by rw [List.length_drop]; omega)]
  · rw [List.map_singleton, List.drop_append_of_le_length hm.ge, ← hm, List.drop_length,
      List.nil_append, ← hr, List.take_length]

namespace WalEntry

variable (e : WalEntry)

theorem length_bytes : e.bytes.length = size := rfl

/-- An entry is read back, whatever follows. -/
theorem ofBytes_bytes (rest : List UInt8) : ofBytes (e.bytes ++ rest) = e := by
  simp [bytes, payload, ofBytes]

end WalEntry

/-- A header is read back, whatever follows. -/
theorem MetaHeader.ofBytes_bytes (h : MetaHeader) (rest : List UInt8) :
    MetaHeader.ofBytes (h.bytes ++ rest) = h := by
  simp [MetaHeader.bytes, MetaHeader.words, MetaHeader.ofBytes]

namespace Ftl

variable {s s' : Ftl} {log path : String} {e : WalEntry}

/-- The entries of a log after one has been appended to it. -/
theorem logEntries_append {content : List UInt8} (h : WalEntry.size ∣ content.length) :
    logEntries (content ++ e.bytes) = logEntries content ++ [e] := by
  have hentry := e.ofBytes_bytes []
  rw [List.append_nil] at hentry
  rw [logEntries, logEntries, records_append_singleton (by decide) h e.length_bytes,
    List.map_append, List.map_singleton, hentry]

/-! ## What the replay assigns -/

end Ftl

namespace WalEntry

variable (e : WalEntry)

/-- What the replay of the entry assigns to the map. -/
def l2pAssigns : List (ℕ × Option ℕ) :=
  if ¬ e.intact ∨ totalLpns ≤ e.lpn.toNat then []
  else if e.op = walOpWrite then
    match wordPpn e.newPpn with
    | none => []
    | some newPpn => [(e.lpn.toNat, some newPpn)]
  else if e.op = walOpTrim then [(e.lpn.toNat, none)]
  else []

/-- What the replay of the entry assigns to the map back, if the map is `l2p` then. -/
def revAssigns (l2p : ℕ → Option ℕ) : List (ℕ × Option ℕ) :=
  if ¬ e.intact ∨ totalLpns ≤ e.lpn.toNat then []
  else if e.op = walOpWrite then
    match wordPpn e.newPpn with
    | none => []
    | some newPpn =>
      ((wordPpn e.oldPpn).toList.map fun oldPpn => (oldPpn, none)) ++
        [(newPpn, some e.lpn.toNat)]
  else if e.op = walOpTrim then (l2p e.lpn.toNat).toList.map fun ppn => (ppn, none)
  else []

end WalEntry

namespace Ftl

variable {s s' : Ftl} {log path : String} {e : WalEntry}

/-- What the replay of entries assigns to the map back. -/
def logRevAssigns (l2p : ℕ → Option ℕ) : List WalEntry → List (ℕ × Option ℕ)
  | [] => []
  | e :: es => e.revAssigns l2p ++ logRevAssigns (assign l2p e.l2pAssigns) es

/-- The maps after assignments. -/
def assigned (s : Ftl) (l2p rev : List (ℕ × Option ℕ)) : Ftl :=
  { s with l2pTable := assign s.l2pTable l2p, reverseMap := assign s.reverseMap rev }

/-- The replay of an entry makes its assignments, if they are to pages of the device. -/
theorem replayEntry_eq (s : Ftl) (e : WalEntry) :
    s.replayEntry e =
      if ∀ a ∈ e.revAssigns s.l2pTable, a.1 < totalPpns then
        some (s.assigned e.l2pAssigns (e.revAssigns s.l2pTable))
      else none := by
  by_cases hskip : ¬ e.intact ∨ totalLpns ≤ e.lpn.toNat
  · have hnone : s.replayEntry e = some s := by
      rw [replayEntry]
      split
      · rfl
      · next hintact =>
        have hlt : ¬ e.lpn.toNat < totalLpns := Nat.not_lt.2 (hskip.resolve_left hintact)
        rw [replayWrite, replayTrim, if_neg hlt, if_neg hlt, ite_self, ite_self]
    rw [hnone, WalEntry.l2pAssigns, WalEntry.revAssigns, if_pos hskip, if_pos hskip, if_pos (by simp)]
    rfl
  · rw [WalEntry.l2pAssigns, WalEntry.revAssigns, if_neg hskip, if_neg hskip]
    rw [not_or] at hskip
    have hlt := Nat.lt_of_not_le hskip.2
    rw [replayEntry, if_neg hskip.1]
    by_cases hwrite : e.op = walOpWrite
    · rw [if_pos hwrite, if_pos hwrite, if_pos hwrite, replayWrite, if_pos hlt]
      cases wordPpn e.newPpn with
      | none => simp [assigned, assign]
      | some newPpn => cases wordPpn e.oldPpn <;> simp [assigned, assign]
    · rw [if_neg hwrite, if_neg hwrite, if_neg hwrite]
      by_cases htrim : e.op = walOpTrim
      · rw [if_pos htrim, if_pos htrim, if_pos htrim, replayTrim, if_pos hlt]
        cases hl : s.l2pTable e.lpn.toNat with
        | none =>
          have hsame : Function.update s.l2pTable e.lpn.toNat none = s.l2pTable := by
            rw [← hl, Function.update_eq_self]
          simp [assigned, assign, hsame]
        | some ppn => simp [assigned, assign]
      · rw [if_neg htrim, if_neg htrim, if_neg htrim]
        simp [assigned, assign]

/-- The replay of entries makes their assignments one after another. -/
theorem foldlM_replayEntry (es : List WalEntry) (s : Ftl) : es.foldlM replayEntry s =
    if ∀ a ∈ logRevAssigns s.l2pTable es, a.1 < totalPpns then
      some (s.assigned (es.flatMap WalEntry.l2pAssigns) (logRevAssigns s.l2pTable es))
    else none := by
  induction es generalizing s with
  | nil => simp [logRevAssigns, assigned, assign]
  | cons e es ih =>
    rw [List.foldlM_cons, replayEntry_eq, logRevAssigns]
    by_cases hrange : ∀ a ∈ e.revAssigns s.l2pTable, a.1 < totalPpns
    · rw [if_pos hrange, Option.bind_eq_bind, Option.bind_some, ih]
      refine if_ctx_congr ?_ (fun _ => ?_) fun _ => rfl
      · simp only [List.forall_mem_append, assigned, and_iff_right hrange]
      · simp only [assigned, List.flatMap_cons, assign_append]
    · rw [if_neg hrange, if_neg fun h => hrange fun a ha => h a (List.mem_append_left _ ha)]
      rfl

/-- The log agrees with the maps: the last entry of each logical page says what the map says, and
    the last one that concerns a physical page says what the map back says, where all of them are
    pages of the device. -/
structure LogAgrees (es : List WalEntry) (l2p rev : ℕ → Option ℕ) : Prop where
  l2pTable : ∀ lpn v, lastAssigned (es.flatMap WalEntry.l2pAssigns) lpn = some v → l2p lpn = v
  reverseMap : ∀ ppn v, lastAssigned (logRevAssigns l2p es) ppn = some v → rev ppn = v
  inRange : ∀ a ∈ logRevAssigns l2p es, a.1 < totalPpns

/-- The entries of a log file; a file that does not exist has none. -/
def logOf (s : Ftl) (log : String) : List WalEntry := logEntries ((s.files log).getD [])

/-- The replay changes nothing exactly if the log agrees with the maps. -/
theorem walReplay_eq_self : s.walReplay log = some (.ok, s) ↔
    LogAgrees (s.logOf log) s.l2pTable s.reverseMap := by
  have hreplay : s.walReplay log = ((s.logOf log).foldlM replayEntry s).map fun s => (.ok, s) := by
    rw [walReplay, logOf]
    cases s.files log with
    | none => rfl
    | some content => rfl
  rw [hreplay, foldlM_replayEntry]
  constructor
  · intro h
    split at h
    · next hrange =>
      have hsame := congrArg Prod.snd (Option.some_inj.1 h)
      exact ⟨assign_eq_self.1 (congrArg Ftl.l2pTable hsame),
        assign_eq_self.1 (congrArg Ftl.reverseMap hsame), hrange⟩
    · simp at h
  · rintro ⟨hl2p, hrev, hrange⟩
    rw [if_pos hrange, assigned, assign_eq_self.2 hl2p, assign_eq_self.2 hrev]
    rfl

/-! ## Snapshots -/

/-- The maps as a snapshot of `s` gives them back, in a device that has the files `files`. -/
def restored (s s' : Ftl) : Ftl :=
  let l2pTable := fun lpn => if lpn < totalLpns then wordPpn (ppnWord (s.l2pTable lpn))
    else s'.l2pTable lpn
  { s' with
    l2pTable := l2pTable
    hostWritePages := s.hostWritePages
    nandWritePages := s.nandWritePages
    gcCount := s.gcCount
    curWriteBlock := (UInt32.ofNat s.curWriteBlock).toNat
    curWritePage := (UInt32.ofNat s.curWritePage).toNat
    reverseMap := (List.range totalLpns).foldl
      (Lookup.enter fun lpn => (l2pTable lpn).filter (· < totalPpns)) fun _ => none
    isInitialized := true }

/-- A logical page is mapped to what the snapshot says. -/
theorem restored_l2pTable {lpn : ℕ} (h : lpn < totalLpns) :
    (s.restored s').l2pTable lpn = wordPpn (ppnWord (s.l2pTable lpn)) := by
  rw [restored]
  exact if_pos h

/-- An entry all bytes of which are in the table. -/
theorem entryAt_eq {table : List UInt8} {lpn : ℕ} (h : 4 * lpn + 4 ≤ table.length)
    (old : Option ℕ) : entryAt table lpn old = wordPpn (wordAt table lpn) := by
  have hlen : 4 ≤ (table.drop (4 * lpn)).length := by
    rw [List.length_drop]
    omega
  rw [entryAt, if_neg (by omega), bytesWord_append hlen]
  rfl

/-- A snapshot that has been saved is loaded again. -/
theorem loadSnapshot_eq (h : s'.files path = some s.snapshotBytes) :
    s'.loadSnapshot path = (.ok, s.restored s') := by
  set header : MetaHeader := { s.metaHeader with checksum := s.metaHeader.calculateChecksum }
    with hheader
  set table := (List.range totalLpns).flatMap fun lpn => wordBytes (ppnWord (s.l2pTable lpn))
    with htable
  have hlen : table.length = 4 * totalLpns := by
    rw [htable, length_flatMap_wordBytes, List.length_range]
  have hbytes : s.snapshotBytes = header.bytes ++ table := rfl
  have hsize : header.bytes.length = MetaHeader.size := rfl
  have hword (lpn : ℕ) (hlpn : lpn < totalLpns) :
      wordAt table lpn = ppnWord (s.l2pTable lpn) := by
    have hw := wordAt_flatMap (fun lpn => ppnWord (s.l2pTable lpn)) (List.range totalLpns) []
      (by rwa [List.length_range])
    rwa [List.append_nil, List.getElem_range] at hw
  have hloaded : table.length / 4 = totalLpns := by
    rw [hlen, Nat.mul_div_cancel_left _ (by decide)]
  rw [loadSnapshot, h]
  dsimp only
  rw [hbytes, if_neg (by rw [List.length_append, hsize]; omega), MetaHeader.ofBytes_bytes,
    if_neg (by simp [hheader, metaHeader]), if_neg (by simp [hheader, MetaHeader.calculateChecksum]),
    ← hsize, List.drop_left, hloaded, if_neg (Nat.lt_irrefl _)]
  have hmap (lpn : ℕ) : (if lpn < totalLpns then entryAt table lpn (s'.l2pTable lpn)
      else s'.l2pTable lpn) =
        if lpn < totalLpns then wordPpn (ppnWord (s.l2pTable lpn)) else s'.l2pTable lpn :=
    if_ctx_congr Iff.rfl (fun hlpn => by rw [entryAt_eq (by omega), hword lpn hlpn]) fun _ => rfl
  simp only [loadTable, hmap, restored]
  rfl

end Ftl

end FtlFirmware
