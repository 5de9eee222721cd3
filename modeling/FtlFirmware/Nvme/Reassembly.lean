import FtlFirmware.Lib.Received
import FtlFirmware.Lib.Span
import FtlFirmware.Nvme.Isolation
import FtlFirmware.Nvme.Pdu

/-!
# Reassembling data from the host

How the data of a command are put together from the H2CData PDUs that follow its capsule, which
come in any order and with any offsets and lengths, in their headers and in fact. A PDU is given by
the bytes of the receive buffer from its start on.

The data are *reassembled* (`Target.Reassembles`) if no PDU leads to an access outside the PDU or
the data, and the command is executed only with all data, each byte being the one received last. The
target adds up the lengths of the PDUs instead of keeping track of their offsets, and its checks are
of 32-bit numbers, so that the PDUs have to be careful (`Buffer.Careful`).

* `Buffer.allWithin_iff`: the PDUs that lead to no access outside;
* `Target.Gathers.receive`: what such a PDU preserves;
* `h2cData_reassembles_iff`: the sequences of PDUs from which data are reassembled;
* `Target.Reassembles.handleAll`: what is performed then;
* `reassembles_of_fresh`: PDUs within the data that do not overlap are careful.
-/

namespace FtlFirmware

namespace Nvme

/-! ## Accesses -/

/-- The areas that are accessed: the PDU, and the data of the command. -/
inductive H2cArea
  | pdu
  | data
  deriving DecidableEq, Repr

namespace Buffer

variable (buf : Buffer) (total : ℕ)

/-- The number of bytes that are copied (`copy_len`): the difference is one of 32-bit numbers. -/
def copyLen : ℕ := min buf.h2cData.datal ((total + 2 ^ 32 - buf.h2cData.datao) % 2 ^ 32)

/-- The data are copied: the sum is one of 32-bit numbers. -/
def Copied : Prop :=
  buf.data.isSome ∧ buf.h2cData.datal > 0 ∧
    (buf.h2cData.datao + buf.copyLen total) % 2 ^ 32 ≤ total

instance : Decidable (buf.Copied total) :=
  inferInstanceAs (Decidable (_ ∧ _ ∧ _))

/-- The size of an area. -/
def areaSize : H2cArea → ℕ
  | .pdu => buf.plen
  | .data => total

/-- The accesses of `nvme_tcp_handle_h2cdata`: to the fields of the header, and those of the copy.
    -/
def h2cSpans : List (Span H2cArea) :=
  ⟨.pdu, 8, 12⟩ :: if buf.Copied total then
    [⟨.pdu, buf.pdo, buf.copyLen total⟩, ⟨.data, buf.h2cData.datao, buf.copyLen total⟩] else []

/-! ## Careful PDUs -/

/-- The number of bytes that the header of a PDU announces for offsets of the data. -/
def carried : ℕ :=
  if buf.data.isSome then min buf.h2cData.datal (total - buf.h2cData.datao) else 0

/-- What has been received after a PDU: the bytes that it has, at their offsets. -/
def delivers (got : Received UInt8) : Received UInt8 :=
  match buf.data with
  | none => got
  | some data => got.add buf.h2cData.datao (min buf.h2cData.datal (buf.plen - buf.pdo)) data

/-- A PDU leads to no access outside: it has a whole header, an offset within the data unless its
    data end before the offsets wrap, and the bytes that it announces for the data. -/
structure InBounds : Prop where
  header : 20 ≤ buf.plen
  offset : buf.data.isSome → buf.h2cData.datao ≤ total ∨
    buf.h2cData.datao + buf.h2cData.datal < 2 ^ 32
  whole : buf.data.isSome → min buf.h2cData.datal (total - buf.h2cData.datao) ≤ buf.plen - buf.pdo

/-- A PDU is careful, when `got` has been received and `sum` bytes have been announced: it leads to
    no access outside, and if it is marked as the last and the bytes announced add up to those of
    the data, then all of them have been received. -/
structure Careful (got : Received UInt8) (sum : ℕ) : Prop where
  inBounds : buf.InBounds total
  last : buf.h2cData.last → total ≤ (sum + buf.carried total) % 2 ^ 32 →
    (buf.delivers got).Full total

end Buffer

/-- All PDUs are careful, up to that with which the bytes announced add up to those of the data. -/
def AllCareful (total : ℕ) : Received UInt8 → ℕ → List Buffer → Prop
  | _, _, [] => True
  | got, sum, buf :: bufs =>
    buf.Careful total got sum ∧
      (¬(buf.h2cData.last ∧ total ≤ (sum + buf.carried total) % 2 ^ 32) →
        AllCareful total (buf.delivers got) (sum + buf.carried total) bufs)

namespace Target

/-! ## Reassembly -/

/-- The data of the command that waits on a connection are reassembled, when `got` has been
    received. -/
def Reassembles (i : ℕ) : Target → Received UInt8 → List Buffer → Prop
  | _, _, [] => True
  | t, got, buf :: bufs =>
    let t' := t.receive i buf.h2cData
    let total := (t.conns i).dataTotal
    Span.AllWithin (buf.areaSize total) (buf.h2cSpans total) ∧
      if buf.h2cData.last ∧ (t'.conns i).dataLen ≥ (t'.conns i).dataTotal then
        ∀ k < total, buf.delivers got k = some (t'.writeBuf k)
      else
        Reassembles i t' (buf.delivers got) bufs

end Target

/-! ## Bounds -/

namespace Buffer

variable {buf : Buffer} {total : ℕ}

theorem datao_lt (buf : Buffer) : buf.h2cData.datao < 2 ^ 32 := UInt32.toNat_lt _

theorem datal_lt (buf : Buffer) : buf.h2cData.datal < 2 ^ 32 := UInt32.toNat_lt _

/-- Within the data, the bytes copied are those that the header announces. -/
theorem copyLen_of_le (htotal : total < 2 ^ 32) (h : buf.h2cData.datao ≤ total) :
    buf.copyLen total = min buf.h2cData.datal (total - buf.h2cData.datao) := by
  rw [copyLen]
  omega

/-- Beyond the data, the difference wraps. -/
theorem copyLen_of_lt (h : total < buf.h2cData.datao) :
    buf.copyLen total = min buf.h2cData.datal (total + 2 ^ 32 - buf.h2cData.datao) := by
  have := buf.datao_lt
  rw [copyLen]
  omega

/-- Data that begin within those of the command are copied, unless there are none. -/
theorem copied_of_le (htotal : total < 2 ^ 32) (hdata : buf.data.isSome)
    (h : buf.h2cData.datao ≤ total) : buf.Copied total ↔ 0 < buf.h2cData.datal := by
  have hlen := copyLen_of_le htotal h
  refine ⟨fun hcopied => hcopied.2.1, fun hpos => ⟨hdata, hpos, ?_⟩⟩
  rw [Nat.mod_eq_of_lt] <;> omega

/-- Data that begin beyond those of the command are copied if the offsets after them wrap. -/
theorem copied_of_lt (hdata : buf.data.isSome) (h : total < buf.h2cData.datao) :
    buf.Copied total ↔ 2 ^ 32 ≤ buf.h2cData.datao + buf.h2cData.datal := by
  have hlen := copyLen_of_lt h
  have hdatao := buf.datao_lt
  have hdatal := buf.datal_lt
  constructor
  · rintro ⟨-, hpos, hle⟩
    by_contra hlt
    rw [hlen, min_eq_left (by omega), Nat.mod_eq_of_lt (by omega)] at hle
    omega
  · intro hge
    refine ⟨hdata, by omega, ?_⟩
    rw [hlen]
    omega

theorem not_isSome (hdata : buf.data = none) : ¬buf.data.isSome := by
  rw [hdata]
  exact Bool.false_ne_true

/-- The PDUs that lead to no access outside the PDU and the data. -/
theorem allWithin_iff (htotal : total < 2 ^ 32) :
    Span.AllWithin (buf.areaSize total) (buf.h2cSpans total) ↔ buf.InBounds total := by
  rw [h2cSpans, Span.allWithin_cons, Span.within_iff]
  dsimp only [areaSize]
  have hdatao := buf.datao_lt
  have hdatal := buf.datal_lt
  cases hdata : buf.data with
  | none =>
    have hnone := not_isSome hdata
    rw [if_neg fun h => hnone h.1]
    constructor
    · rintro ⟨hheader, -⟩
      exact ⟨by omega, fun h => absurd h hnone, fun h => absurd h hnone⟩
    · exact fun h => ⟨Or.inr h.header, Span.allWithin_nil⟩
  | some data =>
    have hsome : buf.data.isSome := by rw [hdata]; rfl
    have hplen : buf.pdo < buf.plen := by
      rw [Buffer.data] at hdata
      split_ifs at hdata with h
      exact h.2
    rcases Nat.lt_or_ge total buf.h2cData.datao with hlt | hle
    -- beyond the data, nothing may be copied
    · have hlen := copyLen_of_lt hlt
      constructor
      · rintro ⟨hheader, hspans⟩
        refine ⟨by omega, fun _ => Or.inr (not_le.1 fun hge => ?_), fun _ => by omega⟩
        rw [if_pos ((copied_of_lt hsome hlt).2 hge)] at hspans
        have hwrite := (Span.within_iff.1 (hspans ⟨.data, _, _⟩ (List.mem_cons_of_mem _
          List.mem_cons_self)))
        dsimp only [areaSize] at hwrite
        omega
      · intro h
        have hsum := (h.offset hsome).resolve_left (not_le.2 hlt)
        rw [if_neg fun hcopied => absurd ((copied_of_lt hsome hlt).1 hcopied) (not_le.2 hsum)]
        exact ⟨Or.inr h.header, Span.allWithin_nil⟩
    -- within the data, the PDU has to have the bytes
    · have hlen := copyLen_of_le htotal hle
      constructor
      · rintro ⟨hheader, hspans⟩
        refine ⟨by omega, fun _ => Or.inl hle, fun _ => ?_⟩
        by_cases hpos : 0 < buf.h2cData.datal
        · rw [if_pos ((copied_of_le htotal hsome hle).2 hpos)] at hspans
          have hread := Span.within_iff.1 (hspans ⟨.pdu, _, _⟩ List.mem_cons_self)
          dsimp only [areaSize] at hread
          omega
        · omega
      · intro h
        have hwhole := h.whole hsome
        refine ⟨Or.inr h.header, ?_⟩
        split_ifs
        · rw [Span.allWithin_cons, Span.allWithin_cons, Span.within_iff, Span.within_iff]
          dsimp only [areaSize]
          exact ⟨by omega, by omega, Span.allWithin_nil⟩
        · exact Span.allWithin_nil

/-! ## Steps -/

/-- Of a PDU that leads to no access outside, the bytes announced for the data are copied. -/
theorem InBounds.copied_iff (htotal : total < 2 ^ 32) (h : buf.InBounds total) :
    (buf.Copied total → buf.data.isSome ∧ buf.h2cData.datao ≤ total ∧
      buf.copyLen total = buf.carried total) ∧
    (¬buf.Copied total → buf.carried total = 0) := by
  by_cases hdata : buf.data.isSome
  · rw [carried, if_pos hdata]
    rcases Nat.lt_or_ge total buf.h2cData.datao with hlt | hle
    · have hsum := (h.offset hdata).resolve_left (not_le.2 hlt)
      exact ⟨fun hcopied => absurd ((copied_of_lt hdata hlt).1 hcopied) (not_le.2 hsum),
        fun _ => by omega⟩
    · refine ⟨fun _ => ⟨hdata, hle, copyLen_of_le htotal hle⟩, fun hcopied => ?_⟩
      rw [copied_of_le htotal hdata hle] at hcopied
      omega
  · rw [carried, if_neg hdata]
    exact ⟨fun hcopied => absurd hcopied.1 hdata, fun _ => rfl⟩

/-- A PDU delivers bytes for the offsets that it announces, if it has them. -/
theorem InBounds.delivers_apply {got : Received UInt8} {data : Buffer} {k : ℕ}
    (h : buf.InBounds total) (hdata : buf.data = some data) (hk : k < total) :
    buf.delivers got k =
      if buf.h2cData.datao ≤ k ∧ k < buf.h2cData.datao + buf.carried total then
        some (data (k - buf.h2cData.datao)) else got k := by
  have hsome : buf.data.isSome := by rw [hdata]; rfl
  have hwhole := h.whole hsome
  have hmem : buf.h2cData.datao ≤ k ∧
      k < buf.h2cData.datao + min buf.h2cData.datal (buf.plen - buf.pdo) ↔
      buf.h2cData.datao ≤ k ∧ k < buf.h2cData.datao + buf.carried total := by
    rw [carried, if_pos hsome]
    omega
  rw [delivers, hdata]
  exact if_congr hmem rfl rfl

end Buffer

namespace Target

variable {t : Target} {i total sum : ℕ} {got : Received UInt8} {buf : Buffer} {bufs : List Buffer}

/-- A command with `total` bytes of data waits on a connection, `got` has been received and is in
    the buffer, and `sum` bytes have been announced. -/
structure Gathers (t : Target) (i total : ℕ) (got : Received UInt8) (sum : ℕ) : Prop where
  hasData : (t.conns i).hasData = true
  dataTotal : (t.conns i).dataTotal = total
  dataLen : (t.conns i).dataLen = sum % 2 ^ 32
  buf : ∀ k < total, ∀ b, got k = some b → t.writeBuf k = b

/-- A PDU whose data are copied. -/
theorem receive_of_copied {data : Buffer} (hdata : buf.data = some data)
    (h : buf.Copied (t.conns i).dataTotal) :
    ((t.receive i buf.h2cData).conns i = { t.conns i with
      dataLen := ((t.conns i).dataLen + buf.copyLen (t.conns i).dataTotal) % 2 ^ 32 }) ∧
    (t.receive i buf.h2cData).writeBuf =
      t.writeBuf.store buf.h2cData.datao (buf.copyLen (t.conns i).dataTotal) data := by
  have hsome : buf.h2cData.data = some data := hdata
  have hcopy := h.2
  simp only [Buffer.copyLen] at hcopy ⊢
  rw [receive]
  simp only [hsome]
  rw [if_pos hcopy]
  exact ⟨Function.update_self .., rfl⟩

/-- A PDU whose data are not copied changes nothing. -/
theorem receive_of_not_copied (h : ¬buf.Copied (t.conns i).dataTotal) :
    t.receive i buf.h2cData = t := by
  rw [receive]
  dsimp only
  split
  · rfl
  · next data hdata =>
    have hsome : buf.data.isSome := Option.isSome_iff_exists.2 ⟨data, hdata⟩
    exact if_neg fun hcopy => h ⟨hsome, hcopy⟩

/-- PDUs that lead to no access outside are received at their offsets. -/
theorem Gathers.receive (htotal : total < 2 ^ 32) (h : t.Gathers i total got sum)
    (hbuf : buf.InBounds total) :
    (t.receive i buf.h2cData).Gathers i total (buf.delivers got) (sum + buf.carried total) := by
  obtain ⟨hcopied, hnot⟩ := hbuf.copied_iff htotal
  obtain ⟨hhas, rfl, hlen, hgot⟩ := h
  by_cases hcopy : buf.Copied (t.conns i).dataTotal
  · obtain ⟨hsome, -, hcopyLen⟩ := hcopied hcopy
    obtain ⟨data, hdata⟩ := Option.isSome_iff_exists.1 hsome
    obtain ⟨hconn, hwrite⟩ := t.receive_of_copied hdata hcopy
    refine ⟨?_, ?_, ?_, fun k hk b hb => ?_⟩
    · rw [hconn]
      exact hhas
    · rw [hconn]
    · rw [hconn]
      dsimp only
      rw [hlen, hcopyLen, Nat.mod_add_mod]
    · rw [hbuf.delivers_apply hdata hk, ← hcopyLen] at hb
      rw [hwrite, Buffer.store]
      split_ifs at hb ⊢ with hmem
      · exact Option.some.inj hb
      · exact hgot k hk b hb
  · rw [receive_of_not_copied hcopy, hnot hcopy]
    refine ⟨hhas, rfl, hlen, fun k hk b hb => hgot k hk b ?_⟩
    cases hdata : buf.data with
    | none =>
      rw [Buffer.delivers, hdata] at hb
      exact hb
    | some data =>
      rw [hbuf.delivers_apply hdata hk, hnot hcopy, if_neg (by omega)] at hb
      exact hb

/-- The data of a command are reassembled if, and only if, its PDUs are careful: by induction on
    the PDUs, of which each leads to what the next begins with. -/
theorem reassembles_iff_allCareful (htotal : total < 2 ^ 32) (h : t.Gathers i total got sum) :
    t.Reassembles i got bufs ↔ AllCareful total got sum bufs := by
  induction bufs generalizing t got sum with
  | nil => exact Iff.rfl
  | cons buf bufs ih =>
    rw [Reassembles, AllCareful]
    rw [h.dataTotal, Buffer.allWithin_iff htotal]
    by_cases hbuf : buf.InBounds total
    · have hnext := h.receive htotal hbuf
      rw [hnext.dataLen, hnext.dataTotal, ih hnext]
      by_cases hlast : buf.h2cData.last ∧ total ≤ (sum + buf.carried total) % 2 ^ 32
      · rw [if_pos hlast]
        constructor
        · rintro ⟨-, hall⟩
          refine ⟨⟨hbuf, fun _ _ k hk => ?_⟩, fun hn => absurd hlast hn⟩
          rw [hall k hk]
          rfl
        · rintro ⟨hcareful, -⟩
          refine ⟨hbuf, fun k hk => ?_⟩
          obtain ⟨b, hb⟩ := Option.isSome_iff_exists.1 (hcareful.last hlast.1 hlast.2 k hk)
          rw [hb, hnext.buf k hk b hb]
      · rw [if_neg hlast]
        exact ⟨fun hall => ⟨⟨hbuf, fun h₁ h₂ => absurd ⟨h₁, h₂⟩ hlast⟩, fun _ => hall.2⟩,
          fun hall => ⟨hbuf, hall.2 hlast⟩⟩
    · exact ⟨fun hall => absurd hall.1 hbuf, fun hall => absurd hall.1.inBounds hbuf⟩

/-! ## The handlers -/

variable {t' : Target} {c : Capsule} {fuel : ℕ} {sent : List Sent}

/-- A command that waits for data: those sent along with it have been received. -/
theorem gathers_startTransfer (hmax : total ≤ tcpMaxIoSize) (t : Target) :
    (t.startTransfer i c total).Gathers i total (fun k => (c.inline total)[k]?)
      (c.inline total).length := by
  have hconns : (t.startTransfer i c total).conns i = _ :=
    (congrFun startTransfer_conns i).trans (Function.update_self ..)
  have hlen : (c.inline total).length < 2 ^ 32 := by
    have hle : (c.inline total).length ≤ total := length_inline
    exact (hle.trans hmax).trans_lt (by decide)
  refine ⟨?_, ?_, ?_, fun k _ b hb => ?_⟩
  · rw [hconns]
  · rw [hconns]
  · rw [hconns, Nat.mod_eq_of_lt hlen]
  · have hstart : (t.startTransfer i c total).writeBuf.bytes (c.inline total).length =
        c.inline total := startTransfer_bytes
    have hbytes := congrArg (fun l => l[k]?) hstart
    obtain ⟨hk, -⟩ := List.getElem?_eq_some_iff.1 hb
    rw [hb, Buffer.bytes, List.getElem?_map, List.getElem?_range hk] at hbytes
    exact Option.some.inj hbytes

/-- Receiving a PDU performs nothing, and the command waits for as many bytes as before. -/
theorem receive_waits (t : Target) (d : H2cData) : (t.receive i d).performed = t.performed ∧
    ((t.receive i d).conns i).hasData = (t.conns i).hasData ∧
    ((t.receive i d).conns i).dataTotal = (t.conns i).dataTotal := by
  obtain ⟨len, buf, h⟩ := receive_eq t i d
  have hconn : (t.receive i d).conns i = { t.conns i with dataLen := len } := by
    rw [h]
    exact Function.update_self ..
  rw [hconn]
  exact ⟨by rw [h]; rfl, rfl, rfl⟩

/-- Handles PDUs in turn. -/
def handleAll (i fuel : ℕ) : Target → List Buffer → Option Target
  | t, [] => some t
  | t, buf :: bufs =>
    match t.handleH2cData i fuel buf.h2cData with
    | none => none
    | some (_, t) => handleAll i fuel t bufs

/-- PDUs are ignored when no command waits for data. -/
theorem handleAll_of_not_waits (h : (t.conns i).hasData = false)
    (hexec : handleAll i fuel t bufs = some t') : t' = t := by
  induction bufs with
  | nil => exact (Option.some.inj hexec).symm
  | cons buf bufs ih =>
    rw [handleAll, Target.handleH2cData, if_pos (Or.inl h)] at hexec
    exact ih hexec

/-- What the handler does with PDUs of which the data are reassembled: nothing is performed, or the
    command, once, with all its bytes, as they have been received by then. -/
theorem Reassembles.handleAll (hhas : (t.conns i).hasData = true)
    (hpos : (t.conns i).dataTotal ≠ 0) (h : t.Reassembles i got bufs)
    (hexec : Target.handleAll i fuel t bufs = some t') :
    t'.performed = t.performed ∨ ∃ p bufs₁, bufs₁ <+: bufs ∧ t'.performed = t.performed ++ [p] ∧
      p.bytes.map some = (List.range (t.conns i).dataTotal).map
        (bufs₁.foldl (fun got buf => buf.delivers got) got) := by
  induction bufs generalizing t got with
  | nil => exact Or.inl (congrArg performed (Option.some.inj hexec)).symm
  | cons buf bufs ih =>
    have hwaits : ¬((t.conns i).hasData = false ∨ (t.conns i).dataTotal = 0) := by
      rw [hhas]
      exact fun hn => hn.elim (fun hn => Bool.false_ne_true hn.symm) hpos
    obtain ⟨hperformed, hhas', htotal'⟩ := receive_waits (i := i) t buf.h2cData
    rw [Reassembles] at h
    rw [Target.handleAll, Target.handleH2cData, if_neg hwaits] at hexec
    dsimp only at h hexec
    obtain ⟨-, h⟩ := h
    split_ifs at h hexec with hlast
    -- the command is performed, and no longer waits
    · cases hcomplete : (t.receive i buf.h2cData).complete i fuel with
      | none =>
        rw [hcomplete] at hexec
        exact absurd hexec (by simp)
      | some r =>
        obtain ⟨sent, t₁⟩ := r
        rw [hcomplete] at hexec
        obtain ⟨-, hconns, -, hadded, -⟩ := complete_eq hcomplete
        have hdone : ((t.record i (t.conns i).pendingSqid t₁).conns i).hasData = false := by
          change (t₁.conns i).hasData = false
          rw [hconns, Function.update_self]
        rw [handleAll_of_not_waits hdone hexec]
        refine Or.inr ⟨_, [buf], ⟨bufs, rfl⟩, hadded.trans (by rw [hperformed]), ?_⟩
        have hheld : ((t.receive i buf.h2cData).held i).bytes =
            (t.receive i buf.h2cData).writeBuf.bytes (t.conns i).dataTotal := by
          rw [← htotal']
          rfl
        rw [hheld, Buffer.bytes, List.map_map]
        exact List.map_congr_left fun k hk => (h k (List.mem_range.1 hk)).symm
    · have hrest := ih (hhas'.trans hhas) (by rwa [htotal']) h hexec
      rw [hperformed, htotal'] at hrest
      refine hrest.imp_right fun hlate => ?_
      obtain ⟨p, bufs₁, hprefix, hp⟩ := hlate
      exact ⟨p, buf :: bufs₁, (List.prefix_cons_inj buf).2 hprefix, hp⟩

end Target

/-! ## PDUs that do not overlap -/

/-- The PDUs lead to no access outside, and no byte of the data is announced twice. -/
def AllFresh (total : ℕ) : Received UInt8 → List Buffer → Prop
  | _, [] => True
  | got, buf :: bufs =>
    buf.InBounds total ∧
      (∀ k < total, buf.h2cData.datao ≤ k → k < buf.h2cData.datao + buf.carried total →
        got k = none) ∧
      AllFresh total (buf.delivers got) bufs

section

variable {total : ℕ} {got : Received UInt8} {buf : Buffer} {bufs : List Buffer}

/-- A PDU that does not overlap adds the bytes that it announces. -/
theorem count_delivers (hbuf : buf.InBounds total)
    (hfresh : ∀ k < total, buf.h2cData.datao ≤ k →
      k < buf.h2cData.datao + buf.carried total → got k = none) :
    (buf.delivers got).count total = got.count total + buf.carried total := by
  cases hdata : buf.data with
  | none =>
    have hdelivers : buf.delivers got = got := by rw [Buffer.delivers, hdata]
    rw [hdelivers, Buffer.carried, if_neg (Buffer.not_isSome hdata), Nat.add_zero]
  | some data =>
    have hsame : (buf.delivers got).count total =
        (got.add buf.h2cData.datao (buf.carried total) data).count total :=
      Received.count_congr fun k hk => hbuf.delivers_apply hdata hk
    have hcarried : buf.carried total ≤ total - buf.h2cData.datao := by
      rw [Buffer.carried]
      split_ifs
      · exact min_le_right _ _
      · exact Nat.zero_le _
    rw [hsame]
    rcases Nat.eq_zero_or_pos (buf.carried total) with hzero | hpos
    -- a PDU without bytes may begin anywhere
    · rw [hzero]
      exact Received.count_congr fun k _ => Received.add_of_not_mem (by omega)
    · exact Received.count_add (by omega) fun k hle hlt => hfresh k (by omega) hle hlt

/-- PDUs that do not overlap are careful: as many bytes have been received as announced. -/
theorem allCareful_of_fresh (htotal : total < 2 ^ 32) (h : AllFresh total got bufs) :
    AllCareful total got (got.count total) bufs := by
  induction bufs generalizing got with
  | nil => trivial
  | cons buf bufs ih =>
    obtain ⟨hbuf, hfresh, hrest⟩ := h
    have hcount := count_delivers hbuf hfresh
    refine ⟨⟨hbuf, fun _ hsum => ?_⟩, fun _ => ?_⟩
    · have hle : (buf.delivers got).count total ≤ total := Received.count_le
      rw [← hcount, Nat.mod_eq_of_lt (hle.trans_lt htotal)] at hsum
      exact Received.full_iff.2 (le_antisymm hle hsum)
    · rw [← hcount]
      exact ih hrest

/-- The bytes sent along with a command have been received. -/
theorem count_inline {c : Capsule} :
    Received.count total (fun k => (c.inline total)[k]?) = (c.inline total).length := by
  have hadd : Received.count total (fun k => (c.inline total)[k]?) =
      (Received.add (fun _ => none) 0 (c.inline total).length
        (bufferOf (c.inline total))).count total := by
    refine Received.count_congr fun k _ => ?_
    rw [Received.add, bufferOf]
    split_ifs with hk
    · rw [List.getD_eq_getElem?_getD, Nat.sub_zero, List.getElem?_eq_getElem (by omega)]
      rfl
    · exact List.getElem?_eq_none (by omega)
  have hzero : Received.count total (fun _ => none : Received UInt8) = 0 :=
    Nat.count_iff_forall_not.2 fun _ _ => Bool.false_ne_true
  rw [hadd, Received.count_add (by rw [Nat.zero_add]; exact Target.length_inline)
    fun _ _ _ => rfl, hzero, Nat.zero_add]

/-- The data of a command are reassembled from PDUs within the data that do not overlap. -/
theorem reassembles_of_fresh {c : Capsule} {t : Target} {i : ℕ} (hmax : total ≤ tcpMaxIoSize)
    (h : AllFresh total (fun k => (c.inline total)[k]?) bufs) :
    (t.startTransfer i c total).Reassembles i (fun k => (c.inline total)[k]?) bufs := by
  have htotal : total < 2 ^ 32 := hmax.trans_lt (by decide)
  have hcareful := allCareful_of_fresh htotal h
  rw [count_inline] at hcareful
  exact (Target.reassembles_iff_allCareful htotal (Target.gathers_startTransfer hmax t)).2 hcareful

end

/-! ## All sequences of PDUs -/

/-- The data of a command are reassembled from the PDUs that follow it if, and only if, these are
    careful. -/
theorem h2cData_reassembles_iff (t : Target) (i : ℕ) (c : Capsule) (total : ℕ) (bufs : List Buffer)
    (hmax : total ≤ tcpMaxIoSize) :
    (t.startTransfer i c total).Reassembles i (fun k => (c.inline total)[k]?) bufs ↔
      AllCareful total (fun k => (c.inline total)[k]?) (c.inline total).length bufs :=
  Target.reassembles_iff_allCareful (hmax.trans_lt (by decide))
    (Target.gathers_startTransfer hmax t)

/-- A capsule with a Dataset Management of one range, which is not sent along. -/
def oneRangeCapsule : Capsule := ⟨{ Command.blank with opcode := 0x09 }, none, 0⟩

/-- A PDU with the last 8 bytes of a range. -/
def laterPdu : Buffer :=
  bufferOf ([6, 0, 24, 24, 32, 0, 0, 0, 0, 0, 0, 0, 8, 0, 0, 0, 8, 0, 0, 0, 0, 0, 0, 0] ++
    List.replicate 8 2)

/-- A PDU with its first 12 bytes, which is marked as the last. -/
def earlierPdu : Buffer :=
  bufferOf ([6, 4, 24, 24, 36, 0, 0, 0, 0, 0, 0, 0, 0, 0, 0, 0, 12, 0, 0, 0, 0, 0, 0, 0] ++
    List.replicate 12 1)

/-- Two PDUs bring the range, the last bytes first, and some bytes twice. -/
theorem range_reassembles : ∃ t : Target,
    (t.startTransfer 0 oneRangeCapsule 16).Reassembles 0 (fun k => (oneRangeCapsule.inline 16)[k]?)
      [laterPdu, earlierPdu] ∧
    ∀ k < 16, earlierPdu.delivers
      (laterPdu.delivers fun k => (oneRangeCapsule.inline 16)[k]?) k =
        some (if k < 12 then 1 else 2) := by
  obtain ⟨ftl⟩ : Nonempty Ftl := ⟨(Ftl.powerOn (fun _ => 0) fun _ => none).2⟩
  have hdelivered : ∀ k < 16, earlierPdu.delivers
      (laterPdu.delivers fun k => (oneRangeCapsule.inline 16)[k]?) k =
        some (if k < 12 then 1 else 2) := by decide
  refine ⟨Target.init (fun _ => 0) ftl,
    (h2cData_reassembles_iff _ 0 oneRangeCapsule 16 [laterPdu, earlierPdu] (by decide)).2
      ⟨⟨?_, ?_⟩, fun _ => ⟨⟨?_, ?_⟩, fun _ => trivial⟩⟩, hdelivered⟩
  · exact ⟨by decide, fun _ => Or.inl (by decide), fun _ => by decide⟩
  · exact fun hlast => absurd hlast (by decide)
  · exact ⟨by decide, fun _ => Or.inl (by decide), fun _ => by decide⟩
  · intro _ _ k hk
    rw [hdelivered k hk]
    rfl

/-- A PDU for the offset 17 that announces as many bytes as it can, and has none. -/
def wildPdu : Buffer :=
  bufferOf [6, 4, 24, 24, 32, 0, 0, 0, 0, 0, 0, 0, 17, 0, 0, 0, 255, 255, 255, 255, 0, 0, 0, 0]

/-- The bytes of a PDU are written after the data of the command: the offset after them wraps. -/
theorem h2cData_not_reassembles : ¬ ∀ (t : Target) (i : ℕ) (c : Capsule) (total : ℕ)
    (bufs : List Buffer), total ≤ tcpMaxIoSize →
    (t.startTransfer i c total).Reassembles i (fun k => (c.inline total)[k]?) bufs := by
  intro h
  obtain ⟨ftl⟩ : Nonempty Ftl := ⟨(Ftl.powerOn (fun _ => 0) fun _ => none).2⟩
  have hmax : 16 ≤ tcpMaxIoSize := by decide
  have hwild := h (Target.init (fun _ => 0) ftl) 0 oneRangeCapsule 16 [wildPdu] hmax
  rw [Target.reassembles_iff_allCareful (by decide) (Target.gathers_startTransfer hmax _)] at hwild
  have hoffset := hwild.1.inBounds.offset (by decide)
  exact absurd hoffset (by decide)

end Nvme

end FtlFirmware
