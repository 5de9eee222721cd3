import Mathlib.Data.UInt
import FtlFirmware.Ftl.Recovering

/-!
# Altered snapshots

The checksum of a snapshot is the sum of the bytes of its header. It differs for any two headers
that differ in one byte, also in one of the checksum itself (`not_accepts_set`), but it does not
cover the map. So a load notices that one byte of a snapshot has been altered exactly if the byte is
one of the header (`loadSnapshot_altered_iff`).
-/

namespace FtlFirmware

/-! ## The sum of the bytes -/

section Sum

variable {l l' : List UInt8} {i : ℕ} {b v : UInt8}

theorem calcChecksum_eq_sum (l : List UInt8) : calcChecksum l = (l.map UInt8.toUInt32).sum := by
  have hfold : ∀ (l : List UInt8) (c : UInt32),
      l.foldl (fun checksum byte => checksum + byte.toUInt32) c =
        c + (l.map UInt8.toUInt32).sum := by
    intro l
    induction l with
    | nil => intro c; simp
    | cons b l ih =>
      intro c
      rw [List.foldl_cons, ih, List.map_cons, List.sum_cons, UInt32.add_assoc]
  rw [calcChecksum, hfold, UInt32.zero_add]

theorem calcChecksum_append (l l' : List UInt8) :
    calcChecksum (l ++ l') = calcChecksum l + calcChecksum l' := by
  rw [calcChecksum_eq_sum, calcChecksum_eq_sum, calcChecksum_eq_sum, List.map_append,
    List.sum_append]

/-- Another byte gives another sum. -/
theorem calcChecksum_set (hi : l[i]? = some b) (h : calcChecksum (l.set i v) = calcChecksum l) :
    v = b := by
  obtain ⟨hlt, hb⟩ := List.getElem?_eq_some_iff.1 hi
  have hold : l = l.take i ++ b :: l.drop (i + 1) := by
    rw [← hb, List.cons_getElem_drop_succ, List.take_append_drop]
  have hnew : l.set i v = l.take i ++ v :: l.drop (i + 1) := List.set_eq_take_append_cons_drop.trans
    (if_pos hlt)
  rw [hnew] at h
  conv_rhs at h => rw [hold]
  rw [calcChecksum_append, calcChecksum_append, UInt32.add_right_inj, calcChecksum_eq_sum,
    calcChecksum_eq_sum, List.map_cons, List.map_cons, List.sum_cons, List.sum_cons,
    UInt32.add_left_inj] at h
  exact UInt8.toUInt32_inj.1 h

/-- The bytes of a word are read back. -/
theorem wordBytes_bytesWord (h : 4 ≤ l.length) : wordBytes (bytesWord l) = l.take 4 := by
  obtain _ | ⟨a, _ | ⟨b, _ | ⟨c, _ | ⟨d, l⟩⟩⟩⟩ := l
  · simp at h
  · simp at h
  · simp at h
  · simp at h
  · have ha := a.toNat_lt
    have hb := b.toNat_lt
    have hc := c.toNat_lt
    have hd := d.toNat_lt
    have hword : (bytesWord (a :: b :: c :: d :: l)).toNat =
        a.toNat + b.toNat * 256 + c.toNat * 65536 + d.toNat * 16777216 := by
      rw [bytesWord]
      simp only [List.getD_cons_zero, List.getD_cons_succ, UInt32.toNat_ofNat']
      omega
    simp only [wordBytes, hword, List.take_succ_cons, List.take_zero, List.cons.injEq, and_true]
    refine ⟨?_, ?_, ?_, ?_⟩ <;> refine UInt8.toNat_inj.1 ?_ <;> rw [UInt8.toNat_ofNat'] <;> omega

theorem wordBytes_wordAt (h : 4 * i + 4 ≤ l.length) :
    wordBytes (wordAt l i) = (l.drop (4 * i)).take 4 :=
  wordBytes_bytesWord (by rw [List.length_drop]; omega)

theorem wordAt_set_of_lt {k : ℕ} (h : i < 4 * k) : wordAt (l.set i v) k = wordAt l k := by
  rw [wordAt, wordAt, List.drop_set_of_lt h]

theorem wordAt_set_of_le {k : ℕ} (h : 4 * k + 4 ≤ i) : wordAt (l.set i v) k = wordAt l k := by
  have hget (j : ℕ) (hj : j < 4) : ((l.set i v).drop (4 * k)).getD j 0 = (l.drop (4 * k)).getD j 0 := by
    rw [List.getD_eq_getElem?_getD, List.getD_eq_getElem?_getD, List.getElem?_drop,
      List.getElem?_drop, List.getElem?_set_ne (by omega)]
  rw [wordAt, wordAt, bytesWord, bytesWord, hget 0 (by decide), hget 1 (by decide),
    hget 2 (by decide), hget 3 (by decide)]

end Sum

/-! ## Headers -/

namespace MetaHeader

variable {content : List UInt8} {i : ℕ} {b v : UInt8}

/-- The checksum goes over the bytes before and after its own word. -/
theorem calculateChecksum_ofBytes (h : size ≤ content.length) :
    (ofBytes content).calculateChecksum =
      calcChecksum (content.take 8) + calcChecksum ((content.drop 12).take 20) := by
  have hsize : 32 ≤ content.length := h
  have hword (k : ℕ) (hk : k < 8) :
      wordBytes (wordAt content k) = (content.drop (4 * k)).take 4 :=
    wordBytes_wordAt (by omega)
  have hbytes : { ofBytes content with checksum := 0 }.bytes =
      content.take 8 ++ (wordBytes 0 ++ (content.drop 12).take 20) := by
    have hfirst : content.take (4 + 4) = content.take 4 ++ (content.drop 4).take 4 := List.take_add
    have hlast : (content.drop 12).take 20 = (content.drop 12).take 4 ++
        ((content.drop 16).take 4 ++ ((content.drop 20).take 4 ++
          ((content.drop 24).take 4 ++ (content.drop 28).take 4))) := by
      rw [show (20 : ℕ) = 4 + (4 + (4 + (4 + 4))) from rfl]
      simp only [List.take_add, List.drop_drop]
    simp only [bytes, words, ofBytes, List.flatMap_cons, List.flatMap_nil, List.append_nil,
      hword 0 (by decide), hword 1 (by decide), hword 3 (by decide), hword 4 (by decide),
      hword 5 (by decide), hword 6 (by decide), hword 7 (by decide), hfirst, hlast,
      List.append_assoc, Nat.mul_zero, List.drop_zero]
  have hzero : calcChecksum (wordBytes 0) = 0 := by decide
  rw [calculateChecksum, hbytes, calcChecksum_append, calcChecksum_append, hzero, UInt32.zero_add]

/-- A byte after the header does not matter to it. -/
theorem ofBytes_set (hi : size ≤ i) : ofBytes (content.set i v) = ofBytes content := by
  have hsize : 32 ≤ i := hi
  have hword (k : ℕ) (hk : k < 8) : wordAt (content.set i v) k = wordAt content k :=
    wordAt_set_of_le (by omega)
  simp only [ofBytes, hword 0 (by decide), hword 1 (by decide), hword 2 (by decide),
    hword 3 (by decide), hword 4 (by decide), hword 5 (by decide), hword 6 (by decide),
    hword 7 (by decide)]

theorem Accepts.set (h : Accepts content) (hi : size ≤ i) : Accepts (content.set i v) where
  length := by
    rw [List.length_set]
    exact h.length
  magic := by
    rw [ofBytes_set hi]
    exact h.magic
  checksum := by
    rw [ofBytes_set hi]
    exact h.checksum

/-- A header that is accepted is not accepted any more with another byte. -/
theorem not_accepts_set (h : Accepts content) (hi : i < size) (hb : content[i]? = some b)
    (hv : v ≠ b) : ¬ Accepts (content.set i v) := by
  intro h'
  have hlen : 32 ≤ content.length := h.length
  have hlen' : 32 ≤ (content.set i v).length := h'.length
  have hsum := h.checksum
  have hsum' := h'.checksum
  rw [calculateChecksum_ofBytes h.length] at hsum
  rw [calculateChecksum_ofBytes hlen'] at hsum'
  change wordAt content 2 = _ at hsum
  change wordAt (content.set i v) 2 = _ at hsum'
  refine hv ?_
  rcases Nat.lt_or_ge i 8 with hlt | hge
  · -- a byte before the word of the checksum
    rw [wordAt_set_of_lt (by omega), List.drop_set_of_lt (by omega), hsum, UInt32.add_left_inj,
      List.take_set] at hsum'
    exact calcChecksum_set (by rw [List.getElem?_take_of_lt hlt, hb]) hsum'.symm
  rcases Nat.lt_or_ge i 12 with hlt | hge'
  · -- a byte of the checksum
    rw [List.take_set_of_le (by omega), List.drop_set_of_lt (by omega), ← hsum] at hsum'
    have hbytes := congrArg wordBytes hsum'
    rw [wordBytes_wordAt (by omega), wordBytes_wordAt (by omega)] at hbytes
    have hbyte := congrArg (fun l : List UInt8 => l[i - 8]?) hbytes
    rw [List.getElem?_take_of_lt (by omega), List.getElem?_take_of_lt (by omega),
      List.getElem?_drop, List.getElem?_drop, show 4 * 2 + (i - 8) = i by omega,
      List.getElem?_set_self (by omega), hb] at hbyte
    exact Option.some_inj.1 hbyte
  · -- a byte after it
    rw [wordAt_set_of_le (by omega), List.take_set_of_le (by omega), hsum, UInt32.add_right_inj,
      List.drop_set, if_neg (by omega), List.take_set] at hsum'
    refine calcChecksum_set ?_ hsum'.symm
    have hsize : i < 32 := hi
    rw [List.getElem?_take_of_lt (by omega), List.getElem?_drop, show 12 + (i - 12) = i by omega, hb]

end MetaHeader

namespace Ftl

open MetaHeader (Accepts tableOf)

variable {s s₁ s' : Ftl} {path : String} {content : List UInt8} {i : ℕ} {b v : UInt8}

/-- A snapshot has all bytes of the header and of the map. -/
theorem length_snapshotBytes (s : Ftl) :
    s.snapshotBytes.length = MetaHeader.size + 4 * totalLpns := by
  have hheader (h : MetaHeader) : h.bytes.length = MetaHeader.size := rfl
  rw [snapshotBytes, List.length_append, hheader, length_flatMap_wordBytes, List.length_range]

theorem accepts_snapshotBytes (s : Ftl) : Accepts s.snapshotBytes := by
  have hheader : MetaHeader.ofBytes s.snapshotBytes =
      { s.metaHeader with checksum := s.metaHeader.calculateChecksum } := by
    rw [snapshotBytes, MetaHeader.ofBytes_bytes]
  refine ⟨?_, ?_, ?_⟩
  · rw [length_snapshotBytes]
    exact Nat.le_add_right _ _
  · rw [hheader, metaHeader]
  · rw [hheader, MetaHeader.calculateChecksum, MetaHeader.calculateChecksum]

/-- What has been saved. -/
theorem saveSnapshot_file (hsave : s.saveSnapshot path = (.ok, s₁)) :
    s₁.files path = some s.snapshotBytes := by
  rw [saveSnapshot] at hsave
  split at hsave
  · simp at hsave
  · obtain ⟨_, rfl⟩ := Prod.mk.inj hsave
    exact Function.update_self _ _ _

/-- Another byte in the map is not noticed. -/
theorem loadSnapshot_set_map (hi : MetaHeader.size ≤ i) (v : UInt8) :
    ((s'.withFile path (s.snapshotBytes.set i v)).loadSnapshot path).1 = .ok := by
  have hacc := s.accepts_snapshotBytes.set (v := v) hi
  have hfull : totalLpns ≤ (tableOf (s.snapshotBytes.set i v)).length / 4 := by
    rw [tableOf, List.length_drop, List.length_set, length_snapshotBytes, Nat.add_sub_cancel_left,
      Nat.mul_div_cancel_left _ (by decide)]
  have hfile : (s'.withFile path (s.snapshotBytes.set i v)).files path = _ := withFile_files
  rcases loadSnapshot_cases hfile with ⟨hnot, _⟩ | ⟨_, htorn, _⟩ | ⟨_, _, s₂, heq, _⟩
  · exact absurd hacc hnot
  · exact absurd hfull (Nat.not_le.2 htorn)
  · rw [heq]

/-- Another byte in the header is noticed. -/
theorem loadSnapshot_set_header (hi : i < MetaHeader.size) (hb : s.snapshotBytes[i]? = some b)
    (hv : v ≠ b) : ((s'.withFile path (s.snapshotBytes.set i v)).loadSnapshot path).1 ≠ .ok := by
  have hnot := MetaHeader.not_accepts_set s.accepts_snapshotBytes hi hb hv
  have hfile : (s'.withFile path (s.snapshotBytes.set i v)).files path = _ := withFile_files
  rcases loadSnapshot_cases hfile with ⟨_, ret, hret, heq⟩ | ⟨hacc, _⟩ | ⟨hacc, _⟩
  · rwa [heq]
  · exact absurd hacc hnot
  · exact absurd hacc hnot

/-- A load notices an altered byte of a snapshot exactly if it is one of the header. -/
theorem loadSnapshot_altered_iff (hsave : s.saveSnapshot path = (.ok, s₁))
    (hfile : s₁.files path = some content) (hb : content[i]? = some b) (hv : v ≠ b) :
    ((s'.withFile path (content.set i v)).loadSnapshot path).1 ≠ .ok ↔ i < MetaHeader.size := by
  obtain rfl := Option.some_inj.1 ((saveSnapshot_file hsave).symm.trans hfile)
  constructor
  · intro hret
    by_contra hge
    exact hret (loadSnapshot_set_map (Nat.not_lt.1 hge) v)
  · exact fun hi => loadSnapshot_set_header hi hb hv

/-- The first byte, which is one of the magic number, is altered: the load fails. -/
theorem loadSnapshot_altered_iff_magic :
    (((powerOn (fun _ => 99) fun _ => none).2.withFile "snap"
      ((powerOn (fun _ => 99) fun _ => none).2.snapshotBytes.set 0 0)).loadSnapshot "snap").1 ≠
        .ok := by
  obtain ⟨s₀, hs₀, hcalm⟩ := Calm.powerOn (fun _ => 99) (fun _ => by decide) fun _ => none
  rw [hs₀]
  have hsave : s₀.saveSnapshot "snap" =
      (.ok, { s₀ with files := Function.update s₀.files "snap" (some s₀.snapshotBytes) }) := by
    rw [saveSnapshot, if_neg (not_not.2 hcalm.inv.started)]
  have hbyte : s₀.snapshotBytes[0]? = some 0x31 := by
    simp [snapshotBytes, MetaHeader.bytes, MetaHeader.words, wordBytes, metaHeader]
  exact (loadSnapshot_altered_iff hsave (saveSnapshot_file hsave) hbyte (by decide)).2 (by decide)

/-- Another byte in the map of a fresh device is not noticed. -/
theorem not_loadSnapshot_altered : ¬ ∀ s, Fresh s → ∀ path s₁ content i b v,
    s.saveSnapshot path = (.ok, s₁) → s₁.files path = some content → content[i]? = some b → v ≠ b →
      ((s.withFile path (content.set i v)).loadSnapshot path).1 ≠ .ok := by
  intro haltered
  obtain ⟨s₀, hs₀, hcalm⟩ := Calm.powerOn (fun _ => 99) (fun _ => by decide) fun _ => none
  have hlt : MetaHeader.size < s₀.snapshotBytes.length := by
    rw [length_snapshotBytes]
    exact Nat.lt_add_of_pos_right (by decide)
  have hsave : s₀.saveSnapshot "snap" =
      (.ok, { s₀ with files := Function.update s₀.files "snap" (some s₀.snapshotBytes) }) := by
    rw [saveSnapshot, if_neg (not_not.2 hcalm.inv.started)]
  have hne : s₀.snapshotBytes[MetaHeader.size] + 1 ≠ s₀.snapshotBytes[MetaHeader.size] := by
    intro hsame
    exact absurd (UInt8.add_eq_left.1 hsame) (by decide)
  exact haltered s₀ ⟨_, _, hs₀⟩ "snap" _ _ _ _ _ hsave (saveSnapshot_file hsave)
    (List.getElem?_eq_getElem hlt) hne (loadSnapshot_set_map le_rfl _)

end Ftl

end FtlFirmware
