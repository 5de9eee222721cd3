import FtlFirmware.Ftl.Checkpoint
import FtlFirmware.Ftl.Integrity

/-!
# Torn logs

A power failure cuts the log off anywhere, also within an entry. The replay then applies all entries
before the cut, and ignores what is left of the last one. But the log that is opened again goes on
where it has been cut, and the replay reads entries from the start of the file on. So the entries
that follow are found exactly if the log has been cut between two entries (`wal_torn_iff`).

That no entry is found by chance is due to the magic number: an entry of a write or of a trim does
not repeat itself (`Loggable.aperiodic`).
-/

namespace FtlFirmware

/-! ## Sums of bytes -/

/-- The sum of bytes is one of numbers, which may wrap around. -/
theorem toNat_calcChecksum (l : List UInt8) :
    (calcChecksum l).toNat = (l.map UInt8.toNat).sum % 2 ^ 32 := by
  rw [calcChecksum_eq_sum]
  induction l with
  | nil => rfl
  | cons b l ih =>
    rw [List.map_cons, List.sum_cons, UInt32.toNat_add, ih, List.map_cons, List.sum_cons,
      UInt8.toNat_toUInt32, Nat.add_mod_mod]

/-- The sum of the bytes of a word. -/
def wordSum (w : UInt32) : ℕ := ((wordBytes w).map UInt8.toNat).sum

theorem wordSum_le (w : UInt32) : wordSum w ≤ 1020 := by
  simp only [wordSum, wordBytes, List.map_cons, List.map_nil, List.sum_cons, List.sum_nil,
    UInt8.toNat_ofNat']
  omega

namespace WalEntry

variable {e : WalEntry}

/-! ## Entries that do not repeat themselves -/

/-- The entries that writes and trims log, before they are sealed. -/
inductive Loggable : WalEntry → Prop
  | write {lpn newPpn : ℕ} {oldPpn : Option ℕ} : lpn < totalLpns →
      (∀ ppn, oldPpn = some ppn → ppn < totalPpns) → newPpn < totalPpns →
      Loggable (Ftl.writeEntry lpn oldPpn newPpn)
  | trim {lpn : ℕ} {oldPpn : Option ℕ} : lpn < totalLpns →
      (∀ ppn, oldPpn = some ppn → ppn < totalPpns) → Loggable (Ftl.trimEntry lpn oldPpn)

/-- A word whose last byte is zero, or the one that stands for no page. -/
def Flat (w : UInt32) : Prop := w.toNat < 2 ^ 24 ∨ w = 0xFFFFFFFF

/-- The words of an entry as it is logged, but for its number. -/
structure Plain (e : WalEntry) : Prop where
  op : e.op = walOpWrite ∨ e.op = walOpTrim ∧ e.newPpn = 0xFFFFFFFF
  lpn : Flat e.lpn
  oldPpn : Flat e.oldPpn
  newPpn : Flat e.newPpn

theorem flat_ofNat {n : ℕ} (h : n < totalPpns) : Flat (UInt32.ofNat n) := by
  refine .inl ?_
  rw [UInt32.toNat_ofNat']
  exact (Nat.mod_le _ _).trans_lt (h.trans (by decide))

theorem flat_ppnWord {v : Option ℕ} (h : ∀ ppn, v = some ppn → ppn < totalPpns) :
    Flat (ppnWord v) := by
  cases v with
  | none => exact .inr rfl
  | some ppn => exact flat_ofNat (h ppn rfl)

theorem Loggable.plain (h : e.Loggable) : e.Plain := by
  cases h with
  | write hlpn hold hnew =>
    exact ⟨.inl rfl, flat_ofNat (hlpn.trans (by decide)), flat_ppnWord hold, flat_ofNat hnew⟩
  | trim hlpn hold =>
    exact ⟨.inr ⟨rfl, rfl⟩, flat_ofNat (hlpn.trans (by decide)), flat_ppnWord hold, .inr rfl⟩

/-- The checksum of an entry is the sum of its bytes, which is not large. -/
theorem toNat_calculateChecksum (e : WalEntry) : e.calculateChecksum.toNat =
    wordSum e.magic + wordSum e.op + wordSum e.lpn + wordSum e.oldPpn + wordSum e.newPpn +
      wordSum e.sequence := by
  have hsum : ((e.payload.flatMap wordBytes).map UInt8.toNat).sum =
      wordSum e.magic + wordSum e.op + wordSum e.lpn + wordSum e.oldPpn + wordSum e.newPpn +
        wordSum e.sequence := by
    simp only [payload, wordSum, List.flatMap_cons, List.flatMap_nil, List.map_append,
      List.sum_append, List.map_nil, List.sum_nil]
    omega
  rw [calculateChecksum, toNat_calcChecksum, hsum, Nat.mod_eq_of_lt]
  have h₀ := wordSum_le e.magic
  have h₁ := wordSum_le e.op
  have h₂ := wordSum_le e.lpn
  have h₃ := wordSum_le e.oldPpn
  have h₄ := wordSum_le e.newPpn
  have h₅ := wordSum_le e.sequence
  omega

/-- The checksum of an entry is not small, and not large. -/
theorem checksum_sealed (e : WalEntry) (sequence : UInt32) :
    277 ≤ (e.sealed sequence).checksum.toNat ∧ (e.sealed sequence).checksum.toNat ≤ 6120 ∧
      (e.newPpn = 0xFFFFFFFF → 1297 ≤ (e.sealed sequence).checksum.toNat) := by
  have hsum : (e.sealed sequence).checksum.toNat =
      wordSum walMagic + wordSum e.op + wordSum e.lpn + wordSum e.oldPpn + wordSum e.newPpn +
        wordSum sequence := toNat_calculateChecksum _
  have hmagic : wordSum walMagic = 277 := by decide
  have hnone : wordSum 0xFFFFFFFF = 1020 := by decide
  have h₁ := wordSum_le e.op
  have h₂ := wordSum_le e.lpn
  have h₃ := wordSum_le e.oldPpn
  have h₄ := wordSum_le e.newPpn
  have h₅ := wordSum_le sequence
  refine ⟨by omega, by omega, fun hnew => ?_⟩
  rw [hnew, hnone] at hsum
  omega

/-- The last byte of such a word is not one of the magic number. -/
theorem Flat.byte {w : UInt32} (h : Flat w) :
    UInt8.ofNat (w.toNat / 16777216) ∉ wordBytes walMagic := by
  obtain h | rfl := h
  · rw [show w.toNat / 16777216 = 0 from Nat.div_eq_of_lt h]
    decide
  · decide

/-- Equal bytes are equal numbers. -/
theorem mod_of_ofNat {m n : ℕ} (h : UInt8.ofNat m = UInt8.ofNat n) : m % 256 = n % 256 := by
  rw [← UInt8.toNat_ofNat', ← UInt8.toNat_ofNat', h]

/-- An entry of a write or of a trim does not repeat itself. -/
theorem Plain.aperiodic (h : e.Plain) (sequence : UInt32) {t : ℕ} (ht : 0 < t) (ht' : t < size) :
    ∃ i, i + t < size ∧
      (e.sealed sequence).bytes.getD (i + t) 0 ≠ (e.sealed sequence).bytes.getD i 0 := by
  by_contra hall
  push Not at hall
  obtain ⟨hlow, hhigh, hnew⟩ := checksum_sealed e sequence
  have hop : Flat e.op := by
    obtain hop | ⟨hop, -⟩ := h.op <;> rw [hop] <;> exact .inl (by decide)
  generalize hc : (e.sealed sequence).checksum = c at hlow hhigh hnew
  have hbytes : (e.sealed sequence).bytes =
      [walMagic, e.op, e.lpn, e.oldPpn, e.newPpn, sequence, c].flatMap wordBytes := by
    rw [← hc]
    rfl
  rw [hbytes] at hall
  -- the last byte of a word would be one of the magic number
  have last {w : UInt32} {m : ℕ} (hw : Flat w) (hm : ([walMagic, e.op, e.lpn, e.oldPpn, e.newPpn,
      sequence, c].flatMap wordBytes).getD m 0 = UInt8.ofNat (w.toNat / 16777216))
      (hle : t ≤ m) (hlt : m < t + 4) (hsize : m < size) : False := by
    have heq := hall (m - t) (by omega)
    rw [Nat.sub_add_cancel hle, hm] at heq
    refine hw.byte (heq ▸ ?_)
    have hlt' : m - t < 4 := by omega
    generalize m - t = i at hlt'
    obtain rfl | rfl | rfl | rfl : i = 0 ∨ i = 1 ∨ i = 2 ∨ i = 3 := by omega
    all_goals exact List.mem_of_elem_eq_true rfl
  by_cases h₁ : t < 4
  · obtain rfl | rfl | rfl : t = 1 ∨ t = 2 ∨ t = 3 := by omega
    · exact absurd (hall 0 (by decide)) (show (0x4C : UInt8) ≠ 0x31 by decide)
    · exact absurd (hall 0 (by decide)) (show (0x41 : UInt8) ≠ 0x31 by decide)
    · exact absurd (hall 0 (by decide)) (show (0x57 : UInt8) ≠ 0x31 by decide)
  by_cases h₂ : t < 8
  · exact last (m := 7) hop rfl (by omega) (by omega) (by decide)
  by_cases h₃ : t < 12
  · exact last (m := 11) h.lpn rfl (by omega) (by omega) (by decide)
  by_cases h₄ : t < 16
  · exact last (m := 15) h.oldPpn rfl (by omega) (by omega) (by decide)
  by_cases h₅ : t < 20
  · exact last (m := 19) h.newPpn rfl (by omega) (by omega) (by decide)
  by_cases h₆ : 24 ≤ t
  · exact last (m := 27) (w := c) (.inl (by omega)) rfl (Nat.le_of_lt_succ ht') (by omega)
      (by decide)
  -- only the number of the entry is like the magic number: then the checksum is not right
  have hopNat : e.op.toNat = 0 ∨ e.op.toNat = 2 ∧ e.newPpn = 0xFFFFFFFF :=
    h.op.imp (congrArg UInt32.toNat) (And.imp_left (congrArg UInt32.toNat))
  obtain rfl | rfl | rfl | rfl : t = 20 ∨ t = 21 ∨ t = 22 ∨ t = 23 := by omega
  · have hfirst := mod_of_ofNat (m := c.toNat) (n := e.op.toNat) (hall 4 (by decide))
    have hsecond := mod_of_ofNat (m := c.toNat / 256) (n := e.op.toNat / 256) (hall 5 (by decide))
    omega
  · have hfirst := mod_of_ofNat (m := c.toNat) (n := 0x57) (hall 3 (by decide))
    have hsecond := mod_of_ofNat (m := c.toNat / 256) (n := e.op.toNat) (hall 4 (by decide))
    obtain hop | ⟨hop, hnone⟩ := hopNat
    · omega
    · have := hnew hnone
      omega
  · have hsecond := mod_of_ofNat (m := c.toNat / 256) (n := 0x57) (hall 3 (by decide))
    omega
  · have hthird := mod_of_ofNat (m := c.toNat / 65536) (n := 0x57) (hall 3 (by decide))
    omega

/-- The bytes of an entry that has been read are those read. -/
theorem bytes_ofBytes {r : List UInt8} (h : r.length = size) : (ofBytes r).bytes = r := by
  have word (i : ℕ) (hi : 4 * i + 4 ≤ size) :
      r.drop (4 * i) = wordBytes (wordAt r i) ++ r.drop (4 * (i + 1)) := by
    rw [wordBytes_wordAt (h ▸ hi), Nat.mul_succ, ← List.drop_drop, List.take_append_drop]
  have hend : r.drop (4 * 7) = [] := List.drop_of_length_le h.le
  have hall : r = (ofBytes r).bytes ++ r.drop (4 * 7) := by
    conv_lhs => rw [← List.drop_zero (l := r), ← Nat.mul_zero 4]
    rw [word 0 (by decide), word 1 (by decide), word 2 (by decide), word 3 (by decide),
      word 4 (by decide), word 5 (by decide), word 6 (by decide)]
    rfl
  rw [hend, List.append_nil] at hall
  exact hall.symm

end WalEntry

namespace Ftl

variable {s s' : Ftl} {log : String} {es later : List WalEntry} {n : ℕ}

/-! ## Logs -/

/-- Appends entries one after another. -/
def walAppendAll (s : Ftl) (es : List WalEntry) : Ftl := es.foldl (fun s e => (s.walAppend e).2) s

/-- Entries as they go to the log, with their numbers. -/
def sealedFrom (sequence : UInt32) : List WalEntry → List WalEntry
  | [] => []
  | e :: es => e.sealed sequence :: sealedFrom (sequence + 1) es

/-- The entries of a log that the replay applies. -/
def walApplied (content : List UInt8) : List WalEntry := (logEntries content).filter WalEntry.intact

theorem length_sealedFrom (sequence : UInt32) (es : List WalEntry) :
    (sealedFrom sequence es).length = es.length := by
  induction es generalizing sequence with
  | nil => rfl
  | cons e es ih => rw [sealedFrom, List.length_cons, List.length_cons, ih]

theorem sealedFrom_take (sequence : UInt32) (es : List WalEntry) (k : ℕ) :
    (sealedFrom sequence es).take k = sealedFrom sequence (es.take k) := by
  induction es generalizing sequence k with
  | nil => rw [List.take_nil, sealedFrom, List.take_nil]
  | cons e es ih =>
    cases k with
    | zero => rfl
    | succ k => rw [sealedFrom, List.take_succ_cons, List.take_succ_cons, sealedFrom, ih]

/-- All entries that have been sealed are intact. -/
theorem sealedFrom_intact (sequence : UInt32) (es : List WalEntry) :
    ∀ e ∈ sealedFrom sequence es, e.intact = true := by
  induction es generalizing sequence with
  | nil => exact fun e he => absurd he List.not_mem_nil
  | cons e es ih => exact List.forall_mem_cons.2 ⟨sealed_intact e sequence, ih _⟩

/-- What entries that are appended add to the file. -/
theorem walAppendAll_content (es : List WalEntry) (hfile : s.walFile = some log) :
    ((s.walAppendAll es).files log).getD [] =
      (s.files log).getD [] ++ (sealedFrom s.walSequence es).flatMap WalEntry.bytes := by
  induction es generalizing s with
  | nil => exact (List.append_nil _).symm
  | cons e es ih =>
    have happend : (s.walAppend e).2 = { s with
        files := Function.update s.files log
          (some ((s.files log).getD [] ++ (e.sealed s.walSequence).bytes))
        walSequence := s.walSequence + 1
        walEntryCount := s.walEntryCount + 1 } := by
      rw [walAppend, hfile]
    have hrest := ih (s := (s.walAppend e).2) (by rw [happend]; exact hfile)
    rw [walAppendAll, List.foldl_cons, ← walAppendAll, hrest, happend]
    dsimp only
    rw [Function.update_self, Option.getD_some, List.append_assoc]
    rfl

/-- The entries that have been appended are read back, whatever follows. -/
theorem logEntries_flatMap (es : List WalEntry) (rest : List UInt8) :
    logEntries (es.flatMap WalEntry.bytes ++ rest) = es ++ logEntries rest := by
  have hread : (es.map WalEntry.bytes).map WalEntry.ofBytes = es := by
    rw [List.map_map]
    refine (List.map_congr_left fun e _ => ?_).trans (List.map_id es)
    have hentry := e.ofBytes_bytes []
    rwa [List.append_nil] at hentry
  rw [logEntries, logEntries, List.flatMap_def, records_flatten (by decide)
    (List.forall_mem_map.2 fun e _ => e.length_bytes), List.map_append, hread]

theorem length_flatMap_bytes (es : List WalEntry) :
    (es.flatMap WalEntry.bytes).length = WalEntry.size * es.length := by
  induction es with
  | nil => rfl
  | cons e es ih =>
    rw [List.flatMap_cons, List.length_append, ih, e.length_bytes, List.length_cons, Nat.mul_succ,
      Nat.add_comm]

/-- A log that is cut off: whole entries, and a part of the next one. -/
theorem take_flatMap (es : List WalEntry) (hn : n ≤ WalEntry.size * es.length) :
    ∃ torn, (es.flatMap WalEntry.bytes).take n =
        (es.take (n / WalEntry.size)).flatMap WalEntry.bytes ++ torn ∧
      torn.length = n % WalEntry.size := by
  have hk : n / WalEntry.size ≤ es.length := Nat.div_le_of_le_mul hn
  have hdiv := Nat.div_add_mod n WalEntry.size
  have hlen : ((es.take (n / WalEntry.size)).flatMap WalEntry.bytes).length =
      WalEntry.size * (n / WalEntry.size) := by
    rw [length_flatMap_bytes, List.length_take_of_le hk]
  refine ⟨((es.drop (n / WalEntry.size)).flatMap WalEntry.bytes).take (n % WalEntry.size), ?_, ?_⟩
  · conv_lhs => rw [← List.take_append_drop (n / WalEntry.size) es]
    rw [List.flatMap_append, List.take_append, hlen,
      List.take_of_length_le (by rw [hlen]; omega)]
    congr 2
    omega
  · rw [List.length_take, length_flatMap_bytes, List.length_drop, Nat.mul_sub]
    omega

/-- What is left of an entry is not read. -/
theorem logEntries_torn {torn : List UInt8} (h : torn.length < WalEntry.size) :
    logEntries torn = [] := by
  rw [logEntries, records_of_length_lt h, List.map_nil]

/-- If there is a part of an entry before it, the first entry is not read. -/
theorem logEntries_shifted {torn rest : List UInt8} {e : WalEntry} {sequence : UInt32}
    (h : e.Plain) (hpos : torn ≠ []) (hlt : torn.length < WalEntry.size) :
    ∃ e' es', logEntries (torn ++ ((e.sealed sequence).bytes ++ rest)) = e' :: es' ∧
      e' ≠ e.sealed sequence := by
  set content := torn ++ ((e.sealed sequence).bytes ++ rest) with hcontent
  have hlen : (content.take WalEntry.size).length = WalEntry.size := by
    rw [List.length_take_of_le]
    rw [hcontent, List.length_append, List.length_append, WalEntry.length_bytes]
    omega
  refine ⟨.ofBytes (content.take WalEntry.size), logEntries (content.drop WalEntry.size), ?_, ?_⟩
  · conv_lhs => rw [← List.take_append_drop WalEntry.size content]
    rw [logEntries, records_append_cons (by decide) hlen, List.map_cons]
    rfl
  · intro heq
    have hbytes : content.take WalEntry.size = (e.sealed sequence).bytes := by
      rw [← heq, WalEntry.bytes_ofBytes hlen]
    obtain ⟨i, hi, hne⟩ := h.aperiodic sequence (List.length_pos_iff.2 hpos) hlt
    refine hne ?_
    -- the entry would be what is left of the one before, followed by its own start
    conv_lhs => rw [← hbytes]
    rw [List.getD_eq_getElem?_getD, List.getD_eq_getElem?_getD, List.getElem?_take_of_lt hi,
      hcontent, List.getElem?_append_right (Nat.le_add_left _ _), Nat.add_sub_cancel,
      List.getElem?_append_left (by rw [WalEntry.length_bytes]; omega)]

/-- After a part of an entry, the entries that follow are not read as they have been written. -/
theorem walApplied_torn {torn : List UInt8} {sequence : UInt32} (h : ∀ e ∈ later, e.Loggable)
    (hlt : torn.length < WalEntry.size) :
    walApplied (torn ++ (sealedFrom sequence later).flatMap WalEntry.bytes) =
      sealedFrom sequence later ↔ torn = [] ∨ later = [] := by
  constructor
  · intro heq
    by_contra hne
    push Not at hne
    obtain ⟨e, later, rfl⟩ := List.exists_cons_of_ne_nil hne.2
    obtain ⟨e', es', hread, hne'⟩ := @logEntries_shifted torn
      ((sealedFrom (sequence + 1) later).flatMap WalEntry.bytes) e sequence
      (h e List.mem_cons_self).plain hne.1 hlt
    -- there are as many records as entries, so all of them would have to be intact
    have hcount : (logEntries (torn ++ (sealedFrom sequence (e :: later)).flatMap
        WalEntry.bytes)).length = (e :: later).length := by
      rw [logEntries, List.length_map, records, List.length_map, List.length_range,
        List.length_append, length_flatMap_bytes, length_sealedFrom, Nat.add_mul_div_left _ _
        (by decide), Nat.div_eq_of_lt hlt, Nat.zero_add]
    have hall := List.filter_sublist.eq_of_length
      (((congrArg List.length heq).trans (length_sealedFrom _ _)).trans hcount.symm)
    rw [walApplied, hall, sealedFrom, List.flatMap_cons, hread] at heq
    exact hne' (List.cons.inj heq).1
  · rintro (rfl | rfl)
    · have hread := logEntries_flatMap (sealedFrom sequence later) []
      rw [List.append_nil, @logEntries_torn [] (by decide), List.append_nil] at hread
      rw [List.nil_append, walApplied, hread, List.filter_eq_self.2 (sealedFrom_intact _ _)]
    · rw [sealedFrom, List.flatMap_nil, List.append_nil, walApplied, logEntries_torn hlt,
        List.filter_nil]

/-- The replay skips the entries that are not intact. -/
theorem foldlM_filter_intact (es : List WalEntry) (s : Ftl) :
    es.foldlM replayEntry s = (es.filter WalEntry.intact).foldlM replayEntry s := by
  induction es generalizing s with
  | nil => rfl
  | cons e es ih =>
    by_cases he : e.intact = true
    · rw [List.filter_cons_of_pos he, List.foldlM_cons, List.foldlM_cons]
      exact congrArg _ (funext ih)
    · have hskip : s.replayEntry e = some s := if_pos he
      rw [List.filter_cons_of_neg he, List.foldlM_cons, hskip, ← ih]
      rfl

/-- The entries of a log file that the replay applies. -/
def applied (s : Ftl) (log : String) : List WalEntry := walApplied ((s.files log).getD [])

/-- The replay applies these entries one after another, and no others. -/
theorem walReplay_applied (s : Ftl) (log : String) :
    s.walReplay log = ((s.applied log).foldlM replayEntry s).map fun s => (.ok, s) := by
  rw [walReplay, applied]
  split
  · next hfile =>
    rw [hfile]
    rfl
  · next content hfile =>
    rw [hfile, foldlM_filter_intact, Option.getD_some, walApplied]

/-- The log file after it has been opened and entries have been appended to it. -/
theorem walInit_append (es : List WalEntry) :
    (((s.walInit log).2.walAppendAll es).files log).getD [] = (s.files log).getD [] ++
      (sealedFrom (UInt32.ofNat (((s.files log).getD []).length / WalEntry.size)) es).flatMap
        WalEntry.bytes := by
  have hopen : (s.walInit log).2.files log = some ((s.files log).getD []) :=
    Function.update_self _ _ _
  rw [walAppendAll_content es rfl, hopen, Option.getD_some]
  rfl

/-- A log is written from its start on, and cut off after `n` bytes. Then the replay applies exactly
    the entries before the cut. If the log is opened again, and entries of writes and trims are
    appended, the replay applies the entries before the cut and then all those appended exactly if
    the log has been cut between two entries. -/
theorem wal_torn_iff {s₀ s₁ s₂ : Ftl} (hnew : s₀.files log = none)
    (hn : n ≤ WalEntry.size * es.length)
    (hcut : s₁.files log = some
      (((((s₀.walInit log).2.walAppendAll es).files log).getD []).take n))
    (hlater : ∀ e ∈ later, e.Loggable) (hs₂ : s₂ = (s₁.walInit log).2.walAppendAll later) :
    s₁.walReplay log = ((sealedFrom 0 (es.take (n / WalEntry.size))).foldlM replayEntry s₁).map
        (fun s => (.ok, s)) ∧
      s₂.walReplay log = ((s₂.applied log).foldlM replayEntry s₂).map (fun s => (.ok, s)) ∧
      (s₂.applied log = sealedFrom 0 (es.take (n / WalEntry.size)) ++
        sealedFrom (UInt32.ofNat (n / WalEntry.size)) later ↔ WalEntry.size ∣ n ∨ later = []) := by
  obtain ⟨torn, htake, htorn⟩ := take_flatMap (sealedFrom 0 es)
    (hn.trans_eq (congrArg _ (length_sealedFrom 0 es).symm))
  have hlt : torn.length < WalEntry.size := htorn ▸ Nat.mod_lt _ (by decide)
  have hcontent : (s₁.files log).getD [] =
      (sealedFrom 0 (es.take (n / WalEntry.size))).flatMap WalEntry.bytes ++ torn := by
    rw [hcut, Option.getD_some, walInit_append, hnew, Option.getD_none, List.nil_append,
      ← sealedFrom_take, ← htake]
    rfl
  have hlen : ((s₁.files log).getD []).length / WalEntry.size = n / WalEntry.size := by
    have hdiv := Nat.div_add_mod n WalEntry.size
    rw [hcontent, List.length_append, length_flatMap_bytes, length_sealedFrom,
      List.length_take_of_le (Nat.div_le_of_le_mul hn), htorn, hdiv]
  have happlied : s₂.applied log = sealedFrom 0 (es.take (n / WalEntry.size)) ++
      walApplied (torn ++
        (sealedFrom (UInt32.ofNat (n / WalEntry.size)) later).flatMap WalEntry.bytes) := by
    rw [applied, hs₂, walInit_append, hlen, hcontent, List.append_assoc, walApplied,
      logEntries_flatMap, List.filter_append, List.filter_eq_self.2 (sealedFrom_intact _ _),
      walApplied]
  refine ⟨?_, walReplay_applied s₂ log, ?_⟩
  · rw [walReplay_applied, applied, hcontent, walApplied, logEntries_flatMap, logEntries_torn hlt,
      List.append_nil, List.filter_eq_self.2 (sealedFrom_intact _ _)]
  · rw [happlied, List.append_right_inj, walApplied_torn hlater hlt, Nat.dvd_iff_mod_eq_zero,
      ← htorn, List.length_eq_zero_iff]

/-- A log that is cut off between two entries. -/
theorem wal_torn_iff_whole : ∃ s₂ : Ftl, s₂.applied "log" =
    sealedFrom 0 [writeEntry 0 none 0] ++ sealedFrom 1 [trimEntry 0 (some 0)] := by
  let s₀ := (Ftl.powerOn (fun _ => 0) fun _ => none).2
  let written := (s₀.walInit "log").2.walAppendAll [writeEntry 0 none 0, writeEntry 1 none 1]
  let s₁ : Ftl := { s₀ with files := fun _ => some (((written.files "log").getD []).take 28) }
  refine ⟨(s₁.walInit "log").2.walAppendAll [trimEntry 0 (some 0)],
    (@wal_torn_iff "log" [writeEntry 0 none 0, writeEntry 1 none 1] _ 28 s₀ s₁ _
      rfl (by decide) rfl ?_ rfl).2.2.2 (.inl (by decide))⟩
  refine List.forall_mem_singleton.2 (.trim (by decide) fun ppn hppn => ?_)
  obtain rfl := Option.some.inj hppn
  decide

end Ftl

end FtlFirmware
