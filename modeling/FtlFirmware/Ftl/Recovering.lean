import FtlFirmware.Ftl.Bounds
import FtlFirmware.Ftl.Calm
import FtlFirmware.Ftl.Replaying

/-!
# Recovering from files of any contents

The files that a recovery reads may have any contents (`withFile`). The replay of a log takes the
physical pages of its entries as they are, and a snapshot gives back pages and a write cursor as
they are, so that the bounds of the tables are kept exactly if the files keep to them: `LogInRange`
for a log, `SnapshotInRange` for a snapshot (`recovery_in_bounds`).

A snapshot is loaded into the live map, before it is known whether the file holds all of it. So a
load that fails leaves the device as it was exactly if the entries loaded up to the end of the file
are those of the map (`loadSnapshot_unchanged_iff`).
-/

namespace FtlFirmware

/-! ## Files -/

namespace WalEntry

/-- The physical pages of an entry that is replayed as a write are on the device. -/
def InRange (e : WalEntry) : Prop :=
  e.intact → e.op = walOpWrite → e.lpn.toNat < totalLpns →
    ∀ newPpn, wordPpn e.newPpn = some newPpn → newPpn < totalPpns ∧
      ∀ oldPpn, wordPpn e.oldPpn = some oldPpn → oldPpn < totalPpns

end WalEntry

/-- The entries of a log that are replayed as writes are in range. -/
def LogInRange (content : List UInt8) : Prop := ∀ e ∈ Ftl.logEntries content, e.InRange

namespace MetaHeader

/-- A file with a header that a load accepts. -/
structure Accepts (content : List UInt8) : Prop where
  length : size ≤ content.length
  magic : (ofBytes content).magic = metaMagic
  checksum : (ofBytes content).checksum = (ofBytes content).calculateChecksum

/-- The map in a snapshot. -/
def tableOf (content : List UInt8) : List UInt8 := content.drop size

end MetaHeader

open MetaHeader (Accepts tableOf)

namespace Ftl

variable {s s' s₀ : Ftl} {path : String} {content : List UInt8} {e : WalEntry} {ret : RetCode}

/-- The device with the file `path` replaced. -/
def withFile (s : Ftl) (path : String) (content : List UInt8) : Ftl :=
  { s with files := Function.update s.files path (some content) }

@[simp] theorem withFile_files : (s.withFile path content).files path = some content :=
  Function.update_self _ _ _

/-- The pages that a load reads from a snapshot are on the device, and so is the block of the write
    cursor, if the load comes as far. -/
def SnapshotInRange (s : Ftl) (content : List UInt8) : Prop :=
  Accepts content →
    (∀ lpn < totalLpns, 4 * lpn < (tableOf content).length →
      ∀ ppn, entryAt (tableOf content) lpn (s.l2pTable lpn) = some ppn → ppn < totalPpns) ∧
      (totalLpns ≤ (tableOf content).length / 4 →
        (MetaHeader.ofBytes content).curWriteBlock.toNat < totalBlocks)

/-- What a load does. -/
theorem loadSnapshot_cases (h : s.files path = some content) :
    (¬ Accepts content ∧ ∃ ret, ret ≠ .ok ∧ s.loadSnapshot path = (ret, s)) ∨
    (Accepts content ∧ (tableOf content).length / 4 < totalLpns ∧
      s.loadSnapshot path = (.errInternal, s.loadTable (tableOf content))) ∨
    (Accepts content ∧ totalLpns ≤ (tableOf content).length / 4 ∧
      ∃ s', s.loadSnapshot path = (.ok, s') ∧
      s'.l2pTable = (s.loadTable (tableOf content)).l2pTable ∧ Ranges (· < totalLpns) s'.reverseMap ∧
      s'.curWriteBlock = (MetaHeader.ofBytes content).curWriteBlock.toNat ∧
      s'.blockMap = s.blockMap) := by
  rw [loadSnapshot, h]
  dsimp only
  split
  · next hlen => exact Or.inl ⟨fun hacc => Nat.not_lt.2 hacc.length hlen, .errInternal, by simp, rfl⟩
  next hlen =>
  split
  · next hmagic => exact Or.inl ⟨fun hacc => hmagic hacc.magic, .errChecksum, by simp, rfl⟩
  next hmagic =>
  split
  · next hsum => exact Or.inl ⟨fun hacc => hsum hacc.checksum, .errChecksum, by simp, rfl⟩
  next hsum =>
  have hacc : Accepts content := ⟨Nat.not_lt.1 hlen, not_not.1 hmagic, not_not.1 hsum⟩
  split
  · next htorn => exact Or.inr (Or.inl ⟨hacc, htorn, rfl⟩)
  · next hfull =>
    refine Or.inr (Or.inr ⟨hacc, Nat.not_lt.1 hfull, _, rfl, rfl, ?_, rfl, rfl⟩)
    have hrange (lpn : ℕ) (hlpn : lpn ∈ List.range totalLpns) : lpn < totalLpns :=
      List.mem_range.1 hlpn
    dsimp only
    exact Ranges.empty.foldl_enter hrange

/-! ## The bounds -/

/-- A recovery is sound that has not left the tables, and has left pages and a write cursor that are
    on the device. -/
def Sound (r : Option (RetCode × Ftl)) : Prop :=
  ∃ ret s', r = some (ret, s') ∧ Ranges (· < totalPpns) s'.l2pTable ∧ s'.curWriteBlock < totalBlocks

theorem Bounded.sound (h : s'.Bounded) : Sound (some (ret, s')) :=
  ⟨ret, s', rfl, h.l2p, h.cursor⟩

/-- The entries of the map after a load. -/
theorem loadTable_ranges_iff (h : s.Bounded) (table : List UInt8) :
    Ranges (· < totalPpns) (s.loadTable table).l2pTable ↔
      ∀ lpn < totalLpns, 4 * lpn < table.length →
        ∀ ppn, entryAt table lpn (s.l2pTable lpn) = some ppn → ppn < totalPpns := by
  constructor
  · intro hrange lpn hlpn _ ppn hl
    refine hrange lpn ppn ?_
    rw [loadTable]
    exact (if_pos hlpn).trans hl
  · intro hentries lpn ppn hl
    dsimp only [loadTable] at hl
    split at hl
    · next hlpn =>
      by_cases hread : 4 * lpn < table.length
      · exact hentries lpn hlpn hread ppn hl
      · rw [entryAt, if_pos (Nat.not_lt.1 hread)] at hl
        exact h.l2p lpn ppn hl
    · exact h.l2p lpn ppn hl

theorem loadSnapshot_bounded (h : s.Bounded) (hrange : s.SnapshotInRange content)
    (hfile : s.files path = some content) : (s.loadSnapshot path).2.Bounded := by
  rcases loadSnapshot_cases hfile with ⟨_, _, _, heq⟩ | ⟨hacc, _, heq⟩ |
    ⟨hacc, hfull, s', heq, hl2p, hrev, hcursor, hblocks⟩ <;> rw [heq]
  · exact h
  · exact ⟨(loadTable_ranges_iff h _).2 (hrange hacc).1, h.rev, h.cursor, h.blockMap⟩
  · exact ⟨hl2p ▸ (loadTable_ranges_iff h _).2 (hrange hacc).1, hrev,
      hcursor ▸ (hrange hacc).2 hfull, hblocks ▸ h.blockMap⟩

theorem loadSnapshot_sound_iff (h : s.Bounded) (hfile : s.files path = some content) :
    Sound (some (s.loadSnapshot path)) ↔ s.SnapshotInRange content := by
  refine ⟨?_, fun hrange => (loadSnapshot_bounded h hrange hfile).sound⟩
  rintro ⟨ret, s₁, heq, hl2p, hcursor⟩ hacc
  rcases loadSnapshot_cases hfile with ⟨hnot, _⟩ | ⟨_, htorn, hload⟩ |
    ⟨_, hfull, s', hload, htable, _, hblock, _⟩
  · exact absurd hacc hnot
  · obtain ⟨_, rfl⟩ := Prod.mk.inj (Option.some_inj.1 (hload ▸ heq))
    exact ⟨(loadTable_ranges_iff h _).1 hl2p, fun hge => absurd htorn (Nat.not_lt.2 hge)⟩
  · obtain ⟨_, rfl⟩ := Prod.mk.inj (Option.some_inj.1 (hload ▸ heq))
    exact ⟨(loadTable_ranges_iff h _).1 (htable ▸ hl2p), fun _ => hblock ▸ hcursor⟩

/-- An entry in range is replayed within the tables. -/
theorem replayEntry_bounded (h : s.Bounded) (he : e.InRange) :
    ∃ s', s.replayEntry e = some s' ∧ s'.Bounded := by
  rw [replayEntry]
  split
  · exact ⟨s, rfl, h⟩
  next hintact =>
  split
  · next hwrite =>
    rw [replayWrite]
    split
    · next hlpn =>
      cases hnew : wordPpn e.newPpn with
      | none => exact ⟨s, rfl, h⟩
      | some newPpn =>
        obtain ⟨hppn, hold⟩ := he (not_not.1 hintact) hwrite hlpn newPpn hnew
        dsimp only
        rw [if_pos ⟨hold, hppn⟩]
        refine ⟨_, rfl, h.l2p.set hppn, ?_, h.cursor, h.blockMap⟩
        refine Ranges.set ?_ hlpn
        cases wordPpn e.oldPpn with
        | none => exact h.rev
        | some oldPpn => exact h.rev.clear
    · exact ⟨s, rfl, h⟩
  split
  · rw [replayTrim]
    split
    · cases hl : s.l2pTable e.lpn.toNat with
      | none => exact ⟨s, rfl, h⟩
      | some ppn =>
        dsimp only
        rw [if_pos (h.l2p _ _ hl)]
        exact ⟨_, rfl, h.l2p.clear, h.rev.clear, h.cursor, h.blockMap⟩
    · exact ⟨s, rfl, h⟩
  · exact ⟨s, rfl, h⟩

/-- An entry that is not in range leaves them. -/
theorem replayEntry_of_not_inRange (he : ¬ e.InRange) : s.replayEntry e = none := by
  simp only [WalEntry.InRange, Classical.not_imp, not_forall] at he
  obtain ⟨hintact, hwrite, hlpn, newPpn, hnew, hout⟩ := he
  rw [replayEntry, if_neg (not_not.2 hintact), if_pos hwrite, replayWrite, if_pos hlpn, hnew]
  exact if_neg fun hin => hout ⟨hin.2, hin.1⟩

/-- An entry that is replayed was in range. -/
theorem inRange_of_replayEntry (h : s.Bounded) (hreplay : s.replayEntry e = some s') :
    e.InRange ∧ s'.Bounded := by
  by_cases he : e.InRange
  · obtain ⟨s₁, hreplay₁, h₁⟩ := replayEntry_bounded h he
    obtain rfl := Option.some_inj.1 (hreplay₁.symm.trans hreplay)
    exact ⟨he, h₁⟩
  · rw [replayEntry_of_not_inRange he] at hreplay
    simp at hreplay

theorem inRange_of_replay {es : List WalEntry} (h : s.Bounded)
    (hreplay : es.foldlM replayEntry s = some s') : (∀ e ∈ es, e.InRange) ∧ s'.Bounded := by
  induction es generalizing s with
  | nil =>
    obtain rfl := Option.some_inj.1 hreplay
    exact ⟨List.forall_mem_nil _, h⟩
  | cons e es ih =>
    rw [List.foldlM_cons] at hreplay
    obtain ⟨s₁, hfirst, hrest⟩ := Option.bind_eq_some_iff.1 hreplay
    obtain ⟨he, h₁⟩ := inRange_of_replayEntry h hfirst
    obtain ⟨hes, h'⟩ := ih h₁ hrest
    exact ⟨List.forall_mem_cons.2 ⟨he, hes⟩, h'⟩

theorem replay_of_inRange {es : List WalEntry} (h : s.Bounded) (hes : ∀ e ∈ es, e.InRange) :
    ∃ s', es.foldlM replayEntry s = some s' := by
  induction es generalizing s with
  | nil => exact ⟨s, rfl⟩
  | cons e es ih =>
    obtain ⟨he, hrest⟩ := List.forall_mem_cons.1 hes
    obtain ⟨s₁, hfirst, h₁⟩ := replayEntry_bounded h he
    rw [List.foldlM_cons, hfirst]
    exact ih h₁ hrest

/-- A replay that comes back keeps the bounds. -/
theorem walReplay_bounded (h : s.Bounded) (hreplay : s.walReplay path = some (ret, s')) :
    s'.Bounded := by
  rw [walReplay] at hreplay
  split at hreplay
  · obtain ⟨_, rfl⟩ := Prod.mk.inj (Option.some_inj.1 hreplay)
    exact h
  · obtain ⟨s₁, hall, heq⟩ := Option.map_eq_some_iff.1 hreplay
    obtain ⟨_, rfl⟩ := Prod.mk.inj heq
    exact (inRange_of_replay h hall).2

theorem walReplay_sound_iff (h : s.Bounded) (hfile : s.files path = some content) :
    Sound (s.walReplay path) ↔ LogInRange content := by
  constructor
  · rintro ⟨ret, s', heq, _⟩
    rw [walReplay, hfile] at heq
    obtain ⟨s₁, hall, _⟩ := Option.map_eq_some_iff.1 heq
    exact (inRange_of_replay h hall).1
  · intro hrange
    obtain ⟨s', hall⟩ := replay_of_inRange h hrange
    have hreplay : s.walReplay path = some (.ok, s') := by
      rw [walReplay, hfile]
      exact Option.map_eq_some_iff.2 ⟨s', hall, rfl⟩
    rw [hreplay]
    exact (walReplay_bounded h hreplay).sound

/-! ## Runs -/

/-- What happens to a device: the calls, power cycles, and recoveries from files that may have been
    replaced before. -/
inductive Event
  | call (c : Call)
  | powerCycle (rand : ℕ → ℕ)
  | loadSnapshot (path : String) (content : List UInt8)
  | walReplay (path : String) (content : List UInt8)

/-- The return code and the state after an event, with fuel for the garbage collections of a
    write. -/
def happen (fuel : ℕ) (s : Ftl) : Event → Option (RetCode × Ftl)
  | .call c => (s.exec fuel c).map fun r => (r.1.ret, r.2)
  | .powerCycle rand => some (s.powerCycle rand)
  | .loadSnapshot path content => some ((s.withFile path content).loadSnapshot path)
  | .walReplay path content => (s.withFile path content).walReplay path

/-- The device with recoveries as a machine. -/
def recovering : Machine Ftl Event RetCode where
  step s event ret s' := ∃ fuel, s.happen fuel event = some (ret, s')

/-- The file of a recovery is in range. -/
def Event.InRange (s : Ftl) : Event → Prop
  | .loadSnapshot _ content => s.SnapshotInRange content
  | .walReplay _ content => LogInRange content
  | _ => True

/-- All calls keep the bounds. -/
theorem exec_bounded {fuel : ℕ} {call : Call} {a : Answer} (h : s.Bounded)
    (hexec : s.exec fuel call = some (a, s')) : s'.Bounded := by
  cases call with
  | read lpn buf =>
    obtain ⟨_, rfl⟩ := Prod.mk.inj (Option.some_inj.1 hexec)
    exact h.read lpn buf
  | write lpn buf =>
    obtain ⟨r, hwrite, heq⟩ := Option.map_eq_some_iff.1 hexec
    obtain ⟨_, rfl⟩ := Prod.mk.inj heq
    exact h.of_write hwrite
  | trim lpn count =>
    obtain ⟨r, htrim, heq⟩ := Option.map_eq_some_iff.1 hexec
    obtain ⟨_, rfl⟩ := Prod.mk.inj heq
    exact h.of_trim htrim
  | setGcAlgo algo =>
    obtain ⟨_, rfl⟩ := Prod.mk.inj (Option.some_inj.1 hexec)
    exact h.congr rfl
  | triggerGc =>
    obtain ⟨_, rfl⟩ := Prod.mk.inj (Option.some_inj.1 hexec)
    rw [triggerGc]
    split
    · exact h
    · exact h.gcDoRecycle
  | setMapMode mode =>
    obtain ⟨_, rfl⟩ := Prod.mk.inj (Option.some_inj.1 hexec)
    rw [setMapMode]
    split
    · exact h
    · exact h.congr rfl
  -- The migration goes through the table of blocks, whose bounds are part of the invariant.
  | hotColdMigration =>
    obtain ⟨r, hmigrate, heq⟩ := Option.map_eq_some_iff.1 hexec
    obtain ⟨_, rfl⟩ := Prod.mk.inj heq
    obtain ⟨r', hmigrate', h'⟩ := h.hotColdMigration
    obtain rfl := Option.some_inj.1 (hmigrate'.symm.trans hmigrate)
    exact h'
  | handleReadDisturb =>
    obtain ⟨_, rfl⟩ := Prod.mk.inj (Option.some_inj.1 hexec)
    exact h.handleReadDisturb
  | replaceBadBlock block =>
    obtain ⟨_, rfl⟩ := Prod.mk.inj (Option.some_inj.1 hexec)
    exact h.replaceBadBlock block
  | saveSnapshot path =>
    obtain ⟨_, rfl⟩ := Prod.mk.inj (Option.some_inj.1 hexec)
    rw [saveSnapshot]
    split
    · exact h
    · exact h.congr rfl
  | walInit path =>
    obtain ⟨_, rfl⟩ := Prod.mk.inj (Option.some_inj.1 hexec)
    exact h.congr rfl
  | walEnable enable =>
    obtain ⟨_, rfl⟩ := Prod.mk.inj (Option.some_inj.1 hexec)
    exact h.congr rfl
  | walClear =>
    obtain ⟨_, rfl⟩ := Prod.mk.inj (Option.some_inj.1 hexec)
    rw [walClear]
    split
    · exact h
    · exact h.congr rfl

/-- Events keep the bounds, if the files of the recoveries are in range. -/
theorem happen_bounded {fuel : ℕ} {event : Event} (h : s.Bounded) (hrange : event.InRange s)
    (hstep : s.happen fuel event = some (ret, s')) : s'.Bounded := by
  cases event with
  | call c =>
    obtain ⟨⟨a, s₁⟩, hexec, heq⟩ := Option.map_eq_some_iff.1 hstep
    obtain ⟨_, rfl⟩ := Prod.mk.inj heq
    exact exec_bounded h hexec
  | powerCycle rand =>
    have hinit := (h.nand (Nand.init (some s.nand.deinit.media) rand)).init
    rw [happen, powerCycle, Option.some_inj] at hstep
    rwa [hstep] at hinit
  | loadSnapshot path content =>
    have hfiles : (s.withFile path content).Bounded := h.congr rfl
    have hloaded := loadSnapshot_bounded hfiles hrange withFile_files
    rw [happen, Option.some_inj] at hstep
    rwa [hstep] at hloaded
  | walReplay path content =>
    have hfiles : (s.withFile path content).Bounded := h.congr rfl
    exact walReplay_bounded hfiles hstep

theorem run_bounded {tr : List (Event × RetCode)} (hfresh : Fresh s₀)
    (hrun : recovering.Run (fun s event => event.InRange s) s₀ tr s) : s.Bounded := by
  refine hrun.invariant (P := Bounded) ?_ ?_
  · obtain ⟨rand, files, hon⟩ := hfresh
    have hinit := (Bounded.zero (Nand.init none rand) files).init
    rw [powerOn] at hon
    rwa [hon] at hinit
  · rintro s event ret s' h hrange ⟨fuel, hstep⟩
    exact happen_bounded h hrange hstep

/-- The tables refer to pages of the device only, neither a write nor a trim leaves them, and a
    recovery does the same exactly if its file is in range. -/
structure Recoverable (s : Ftl) : Prop where
  load : ∀ path content, Sound (some ((s.withFile path content).loadSnapshot path)) ↔
    s.SnapshotInRange content
  replay : ∀ path content, Sound ((s.withFile path content).walReplay path) ↔ LogInRange content
  write : ∀ fuel lpn buf, (gcUntilSpace fuel s).isSome → (s.write fuel lpn buf).isSome
  trim : ∀ lpn count : UInt32, lpn.toNat + count.toNat < 2 ^ 32 → (s.trim lpn count).isSome
  bounded : s.Bounded

theorem Bounded.recoverable (h : s.Bounded) : s.Recoverable where
  load path content := by
    have hfile : (s.withFile path content).Bounded := h.congr rfl
    exact loadSnapshot_sound_iff hfile withFile_files
  replay path content := by
    have hfile : (s.withFile path content).Bounded := h.congr rfl
    exact walReplay_sound_iff hfile withFile_files
  write fuel lpn buf hgc := by
    obtain ⟨r, hwrite, _⟩ := h.write hgc lpn buf
    exact Option.isSome_of_eq_some hwrite
  trim lpn count hwrap := by
    obtain ⟨r, htrim, _⟩ := h.trim hwrap
    exact Option.isSome_of_eq_some htrim
  bounded := h

/-- So it is after all calls, and after recoveries from files that are in range. -/
theorem recovery_in_bounds {tr : List (Event × RetCode)} (hfresh : Fresh s₀)
    (hrun : recovering.Run (fun s event => event.InRange s) s₀ tr s) : s.Recoverable :=
  (run_bounded hfresh hrun).recoverable

/-- A snapshot that has been saved by a device within bounds is in range. -/
theorem Bounded.snapshotInRange (h : s.Bounded) (h' : s'.Bounded) :
    s.SnapshotInRange s'.snapshotBytes := by
  have hfile : (s.withFile "snap" s'.snapshotBytes).Bounded := h.congr rfl
  refine (loadSnapshot_sound_iff hfile withFile_files).1 ?_
  rw [loadSnapshot_eq withFile_files]
  refine ⟨_, _, rfl, fun lpn ppn hl => ?_, ?_⟩
  · by_cases hlpn : lpn < totalLpns
    · rw [restored_l2pTable hlpn] at hl
      cases hold : s'.l2pTable lpn with
      | none =>
        have hnone : wordPpn (ppnWord none) = none := by decide
        rw [hold, hnone] at hl
        cases hl
      | some old =>
        rw [hold, wordPpn] at hl
        split at hl
        · cases hl
        · rw [← Option.some_inj.1 hl, ppnWord, UInt32.toNat_ofNat']
          exact Nat.lt_of_le_of_lt (Nat.mod_le _ _) (h'.l2p lpn old hold)
    · have hkept : s.l2pTable lpn = some ppn := (if_neg hlpn).symm.trans hl
      exact h.l2p lpn ppn hkept
  · change (UInt32.ofNat s'.curWriteBlock).toNat < _
    rw [UInt32.toNat_ofNat']
    exact Nat.lt_of_le_of_lt (Nat.mod_le _ _) h'.cursor

/-- A log of two writes, the first of which is trimmed. -/
def mixedLog : List UInt8 :=
  ((writeEntry 0 none 5).sealed 0).bytes ++ ((writeEntry 1 none 6).sealed 1).bytes ++
    ((trimEntry 0 (some 5)).sealed 2).bytes

theorem logEntries_mixedLog : logEntries mixedLog =
    [(writeEntry 0 none 5).sealed 0, (writeEntry 1 none 6).sealed 1,
      (trimEntry 0 (some 5)).sealed 2] := by
  decide

theorem logInRange_mixedLog : LogInRange mixedLog := by
  intro e he
  rw [logEntries_mixedLog] at he
  simp only [List.mem_cons, List.not_mem_nil, or_false] at he
  rintro - hwrite - newPpn hnew
  rcases he with rfl | rfl | rfl
  · obtain rfl : 5 = newPpn := Option.some_inj.1 hnew
    have hnone : wordPpn ((writeEntry 0 none 5).sealed 0).oldPpn = none := by decide
    refine ⟨by decide, fun oldPpn hold => ?_⟩
    rw [hnone] at hold
    cases hold
  · obtain rfl : 6 = newPpn := Option.some_inj.1 hnew
    have hnone : wordPpn ((writeEntry 1 none 6).sealed 1).oldPpn = none := by decide
    refine ⟨by decide, fun oldPpn hold => ?_⟩
    rw [hnone] at hold
    cases hold
  · exact absurd hwrite (by decide)

/-- After the replay of the log, and a load of the snapshot that is saved then. -/
theorem recovery_in_bounds_mixed : ∃ s₀ s₁ s₂ : Ftl, Fresh s₀ ∧
    recovering.Run (fun s event => event.InRange s) s₀
      [(.walReplay "wal" mixedLog, .ok), (.loadSnapshot "snap" s₁.snapshotBytes, .ok)] s₂ ∧
    s₂.l2pTable 0 = none ∧ s₂.l2pTable 1 = some 6 ∧ s₂.Recoverable := by
  obtain ⟨s₀, hs₀, _⟩ := Calm.powerOn (fun _ => 99) (fun _ => by decide) fun _ => none
  have hempty : recovering.Run (fun s event => event.InRange s) s₀ [] s₀ := .nil
  have h₀ := run_bounded ⟨_, _, hs₀⟩ hempty
  have hpages : (((powerOn (fun _ => 99) fun _ => none).2.withFile "wal" mixedLog).walReplay
      "wal").map (fun r => (r.1, r.2.l2pTable 0, r.2.l2pTable 1)) = some (.ok, none, some 6) := by
    decide +kernel
  rw [hs₀] at hpages
  obtain ⟨⟨ret, s₁⟩, hreplay, hs₁⟩ := Option.map_eq_some_iff.1 hpages
  simp only [Prod.mk.injEq] at hs₁
  obtain ⟨rfl, hzero, hone⟩ := hs₁
  have hfile : (s₀.withFile "wal" mixedLog).Bounded := h₀.congr rfl
  have h₁ := walReplay_bounded hfile hreplay
  have hload : (s₁.withFile "snap" s₁.snapshotBytes).loadSnapshot "snap" =
      (.ok, s₁.restored (s₁.withFile "snap" s₁.snapshotBytes)) := loadSnapshot_eq withFile_files
  have hreplayed : recovering.Run (fun s event => event.InRange s) s₀
      [(.walReplay "wal" mixedLog, .ok)] s₁ :=
    .single logInRange_mixedLog ⟨0, hreplay⟩
  have hrun : recovering.Run (fun s event => event.InRange s) s₀
      [(.walReplay "wal" mixedLog, .ok), (.loadSnapshot "snap" s₁.snapshotBytes, .ok)]
      (s₁.restored (s₁.withFile "snap" s₁.snapshotBytes)) :=
    hreplayed.append (.single (h₁.snapshotInRange h₁) ⟨0, congrArg some hload⟩)
  refine ⟨s₀, s₁, _, ⟨_, _, hs₀⟩, hrun, ?_, ?_, recovery_in_bounds ⟨_, _, hs₀⟩ hrun⟩
  · rw [restored_l2pTable (by decide), hzero]
    rfl
  · rw [restored_l2pTable (by decide), hone]
    rfl

/-- An entry that has been sealed, with a physical page beyond those of the device. -/
def strayEntry : WalEntry := (writeEntry 0 none 40000).sealed 0

/-- It makes the replay leave the tables. -/
theorem not_recovery_in_bounds : ¬ ∀ s, Fresh s → ∀ path content,
    Sound (some ((s.withFile path content).loadSnapshot path)) ∧
      Sound ((s.withFile path content).walReplay path) := by
  intro hsound
  obtain ⟨s₀, hs₀, _⟩ := Calm.powerOn (fun _ => 99) (fun _ => by decide) fun _ => none
  have hrun : recovering.Run (fun s event => event.InRange s) s₀ [] s₀ := .nil
  have hrange := ((run_bounded ⟨_, _, hs₀⟩ hrun).recoverable.replay "wal" strayEntry.bytes).1
    (hsound s₀ ⟨_, _, hs₀⟩ "wal" strayEntry.bytes).2
  have hmem : strayEntry ∈ logEntries strayEntry.bytes := by decide
  exact absurd (hrange strayEntry hmem (by decide) rfl (by decide) 40000 (by decide)).1 (by decide)

/-! ## Loads that fail -/

/-- The map after a load is the one from before exactly if the bytes read over it are its own. -/
theorem loadTable_eq_self_iff (table : List UInt8) : s.loadTable table = s ↔
    ∀ lpn < totalLpns, 4 * lpn < table.length →
      entryAt table lpn (s.l2pTable lpn) = s.l2pTable lpn := by
  constructor
  · intro hsame lpn hlpn _
    have hentry := congrFun (congrArg l2pTable hsame) lpn
    rw [loadTable] at hentry
    exact (if_pos hlpn).symm.trans hentry
  · intro hentries
    have hmap : (s.loadTable table).l2pTable = s.l2pTable := by
      funext lpn
      dsimp only [loadTable]
      split
      · next hlpn =>
        by_cases hread : 4 * lpn < table.length
        · exact hentries lpn hlpn hread
        · rw [entryAt, if_pos (Nat.not_lt.1 hread)]
      · rfl
    calc s.loadTable table = { s with l2pTable := (s.loadTable table).l2pTable } := rfl
      _ = s := by rw [hmap]

/-- A load that fails leaves the device as it was, unless the file has a header that is accepted,
    ends within the map, and has other bytes there. -/
theorem loadSnapshot_unchanged_iff (s : Ftl) (path : String) :
    ((s.loadSnapshot path).1 ≠ .ok → (s.loadSnapshot path).2 = s) ↔
      ∀ content, s.files path = some content → Accepts content →
        (tableOf content).length / 4 < totalLpns → ∀ lpn < totalLpns,
          4 * lpn < (tableOf content).length →
            entryAt (tableOf content) lpn (s.l2pTable lpn) = s.l2pTable lpn := by
  cases hfile : s.files path with
  | none =>
    rw [loadSnapshot, hfile]
    exact iff_of_true (fun _ => rfl) (by simp)
  | some content =>
    rcases loadSnapshot_cases hfile with ⟨hnot, ret, _, heq⟩ | ⟨hacc, htorn, heq⟩ |
      ⟨_, hfull, s', heq, _⟩ <;> rw [heq]
    · refine iff_of_true (fun _ => rfl) fun content' hsome hacc => ?_
      exact absurd (Option.some_inj.1 hsome ▸ hacc) hnot
    · have hiff := s.loadTable_eq_self_iff (tableOf content)
      constructor
      · intro hsame content' hsome _ _
        obtain rfl := Option.some_inj.1 hsome
        exact hiff.1 (hsame (by simp))
      · exact fun hentries _ => hiff.2 (hentries content rfl hacc htorn)
    · refine iff_of_true (fun hret => absurd rfl hret) fun content' hsome _ htorn => ?_
      obtain rfl := Option.some_inj.1 hsome
      exact absurd htorn (Nat.not_lt.2 hfull)

/-- A snapshot that ends after the first entry of the map. -/
def tornSnapshot : List UInt8 :=
  let header : MetaHeader := ⟨metaMagic, metaVersion, 0, 1, 1, 0, 0, 1⟩
  { header with checksum := header.calculateChecksum }.bytes ++ wordBytes 5

/-- It maps a logical page of a fresh device. -/
theorem not_loadSnapshot_unchanged : ¬ ∀ s, Fresh s → ∀ path content,
    ((s.withFile path content).loadSnapshot path).1 ≠ .ok →
      ((s.withFile path content).loadSnapshot path).2 = s.withFile path content := by
  intro hsame
  obtain ⟨s₀, hs₀, hcalm⟩ := Calm.powerOn (fun _ => 99) (fun _ => by decide) fun _ => none
  have hl : s₀.l2pTable 0 = none := by
    cases hl : s₀.l2pTable 0 with
    | none => rfl
    | some ppn =>
      obtain ⟨d, hd, _⟩ := hcalm.inv.mapped 0 ppn hl
      simp at hd
  have hacc : Accepts tornSnapshot := ⟨by decide, by decide, by decide⟩
  have htorn : (tableOf tornSnapshot).length / 4 < totalLpns := by decide
  have hfailed := hsame s₀ ⟨_, _, hs₀⟩ "snap" tornSnapshot
  have hfile : (s₀.withFile "snap" tornSnapshot).files "snap" = some tornSnapshot := withFile_files
  rcases loadSnapshot_cases hfile with ⟨hnot, _⟩ | ⟨_, _, heq⟩ | ⟨_, hfull, _⟩
  · exact hnot hacc
  · rw [heq] at hfailed
    have hentry := (loadTable_eq_self_iff _).1 (hfailed (by simp)) 0 (by decide) (by decide)
    rw [withFile] at hentry
    dsimp only at hentry
    rw [hl] at hentry
    exact absurd hentry (by decide)
  · exact Nat.not_lt.2 hfull htorn

end Ftl

end FtlFirmware
