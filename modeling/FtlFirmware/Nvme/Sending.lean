import FtlFirmware.Lib.Span
import FtlFirmware.Lib.Tiling
import FtlFirmware.Nvme.Exchange

/-!
# Sending data over NVMe/TCP

How the NVMe/TCP target sends the data of a command to the host: in C2HData PDUs (`sendC2hData`),
one for each chunk of the data (`c2hChunks`), and which data it sends for which command (`c2hData`):
the data structure of an Identify, a log page, or the blocks of a Read.

* `tiles_c2hChunks`: the chunks tile the data;
* `sendC2hDataChunks_eq`: they are sent if each fits a PDU, whose length is a 32-bit number;
* `Target.executeCapsule_bringsData`: the commands of the target that send data.

The length of a log page is what the host asks for, and the page it is taken from is shorter.
-/

namespace FtlFirmware

namespace Nvme

/-! ## PDUs with data -/

/-- A C2HData PDU (`nvme_tcp_c2hdata_hdr_t`), with the data that follow its header. -/
structure C2hData where
  lastPdu : Bool
  plen : UInt32
  cccid : UInt16
  datao : UInt32
  datal : UInt32
  data : List UInt8

/-- The place of the data of a PDU among the data sent. -/
def C2hData.piece (pdu : C2hData) : Piece := ⟨pdu.datao.toNat, pdu.datal.toNat, pdu.lastPdu⟩

/-- Sends data in one PDU (`nvme_tcp_send_c2hdata`). The PDU is put together in memory that is
    allocated for its length, a 32-bit number; the answer is `none` if that is not enough for it.
    If there is no memory, or the socket fails, the host does not get the PDU, and the sender goes
    on; this is an outcome of its own, which is given where it makes a difference. -/
def sendC2hData (cccid : UInt16) (data : Buffer) (dataLen dataOffset : UInt32) (lastPdu : Bool) :
    Option C2hData :=
  let totalLen := 24 + dataLen
  if totalLen.toNat < 24 + dataLen.toNat then none
  else some {
    lastPdu := lastPdu
    plen := totalLen
    cccid := cccid
    datao := dataOffset
    datal := dataLen
    data := data.bytes dataLen.toNat }

/-- The most data of one PDU: what has been negotiated, or 8 KiB. It is not 0. -/
def chunkSize (maxh2cdata : UInt32) : { n : UInt32 // 0 < n } :=
  if h : 0 < maxh2cdata then ⟨maxh2cdata, h⟩ else ⟨8192, by decide⟩

/-- A chunk of the data: its offset, its length, and whether it is the last. -/
structure C2hChunk where
  offset : UInt32
  thisChunk : UInt32
  last : Bool

/-- The place of a chunk among the data. -/
def C2hChunk.piece (chunk : C2hChunk) : Piece :=
  ⟨chunk.offset.toNat, chunk.thisChunk.toNat, chunk.last⟩

/-- The length of the chunk at an offset. -/
def thisChunk (size dataLen offset : UInt32) : UInt32 :=
  if dataLen - offset < size then dataLen - offset else size

/-- Within the data, a chunk is not empty and does not pass their end, and the offset after it is
    not cut to 32 bits. -/
theorem thisChunk_spec {size dataLen offset : UInt32} (hsize : 0 < size) (h : offset < dataLen) :
    (thisChunk size dataLen offset).toNat = min (dataLen.toNat - offset.toNat) size.toNat ∧
      0 < (thisChunk size dataLen offset).toNat ∧
      (offset + thisChunk size dataLen offset).toNat =
        offset.toNat + (thisChunk size dataLen offset).toNat ∧
      (offset + thisChunk size dataLen offset).toNat ≤ dataLen.toNat := by
  have hlen := dataLen.toNat_lt
  have hrest : (dataLen - offset).toNat = dataLen.toNat - offset.toNat :=
    UInt32.toNat_sub_of_le _ _ (UInt32.le_of_lt h)
  rw [UInt32.lt_iff_toNat_lt] at h hsize
  have hchunk : (thisChunk size dataLen offset).toNat
      = min (dataLen.toNat - offset.toNat) size.toNat := by
    rw [thisChunk]
    split_ifs with hlt
    · rw [UInt32.lt_iff_toNat_lt, hrest] at hlt
      rw [hrest, min_eq_left hlt.le]
    · rw [UInt32.lt_iff_toNat_lt, hrest] at hlt
      rw [min_eq_right (not_lt.1 hlt)]
  have hsum : (offset + thisChunk size dataLen offset).toNat =
      offset.toNat + (thisChunk size dataLen offset).toNat := by
    rw [UInt32.toNat_add, Nat.mod_eq_of_lt (by omega)]
  rw [UInt32.toNat_zero] at hsize
  exact ⟨hchunk, by omega, hsum, by omega⟩

/-- The chunks of the data from an offset on (the loop of `nvme_tcp_send_c2hdata_chunks`). -/
def c2hChunks (size : { n : UInt32 // 0 < n }) (dataLen offset : UInt32) : List C2hChunk :=
  if _h : offset < dataLen then
    let chunk := thisChunk size dataLen offset
    ⟨offset, chunk, offset + chunk ≥ dataLen⟩ :: c2hChunks size dataLen (offset + chunk)
  else
    []
termination_by dataLen.toNat - offset.toNat
decreasing_by
  obtain ⟨-, hpos, hsum, hle⟩ := thisChunk_spec size.2 _h
  have := UInt32.lt_iff_toNat_lt.1 _h
  omega

/-- Sends data in chunks (`nvme_tcp_send_c2hdata_chunks`). -/
def sendC2hDataChunks (maxh2cdata : UInt32) (cid : UInt16) (data : Buffer) (dataLen : UInt32) :
    Option (List C2hData) :=
  (c2hChunks (chunkSize maxh2cdata) dataLen 0).mapM fun chunk =>
    sendC2hData cid (fun k => data (chunk.offset.toNat + k)) chunk.thisChunk chunk.offset chunk.last

/-! ## The data of a command -/

/-- The buffers whose data are sent: that of an Identify (`id_data`), that of a log page
    (`log_data`), and that of a Read (`g_io_read_buf`). -/
inductive C2hBuffer
  | idData
  | logData
  | readData
  deriving DecidableEq, Repr

/-- The size of a buffer. -/
def C2hBuffer.size : C2hBuffer → ℕ
  | .idData => 4096
  | .logData => 4096
  | .readData => tcpMaxIoSize

/-- The length of the log page that a Get Log Page asks for: a 16-bit number of dwords, less
    one. -/
def logLen (cmd : Command) : UInt32 :=
  let numd := cmd.cdw10 >>> 16 &&& 0xFFFF
  (numd + 1) * 4

/-- The length of the blocks that a Read asks for. -/
def readTransferLen (cmd : Command) : UInt32 := UInt32.ofNat (cmd.nlb * 4096)

/-- The data that the target sends for a command of the queue `sqid`: the buffer, and the length
    (the branches of `nvme_tcp_handle_capsule_cmd`). -/
def c2hData (sqid : ℕ) (cmd : Command) : Option (C2hBuffer × UInt32) :=
  if cmd.opcode = 0x01 then none
  else if cmd.opcode = 0x09 ∧ sqid ≠ 0 then none
  else if cmd.opcode = 0x7F then none
  else if cmd.opcode = 0x06 then some (.idData, 4096)
  else if cmd.opcode = 0x02 ∧ sqid = 0 then some (.logData, logLen cmd)
  else if cmd.opcode = 0x02 ∧ (readTransferLen cmd).toNat ≤ tcpMaxIoSize then
    some (.readData, readTransferLen cmd)
  else
    none

/-! ## The chunks tile the data -/

section

variable {size : { n : UInt32 // 0 < n }} {dataLen offset maxh2cdata : UInt32} {cid : UInt16}
  {data : Buffer} {pdus : List C2hData}

/-- The loop sends the rest of the data: by induction on the offset, which each chunk moves on. -/
theorem tiles_c2hChunks (h : offset ≤ dataLen) :
    Tiles dataLen.toNat offset.toNat ((c2hChunks size dataLen offset).map C2hChunk.piece) := by
  fun_induction c2hChunks size dataLen offset with
  | case1 offset hlt chunk ih =>
    obtain ⟨-, hpos, hsum, hle⟩ := thisChunk_spec size.2 hlt
    have htail := ih (UInt32.le_iff_toNat_le.2 hle)
    rw [hsum] at htail
    have hlast : decide (offset + chunk ≥ dataLen) = true ↔
        offset.toNat + chunk.toNat = dataLen.toNat := by
      rw [decide_eq_true_iff, ge_iff_le, UInt32.le_iff_toNat_le, ← hsum]
      exact ⟨fun hge => le_antisymm hle hge, fun heq => heq.ge⟩
    exact Tiles.cons (p := ⟨_, _, _⟩) hpos hlast htail
  | case2 offset hge =>
    have heq : offset = dataLen := UInt32.le_antisymm h (UInt32.not_lt.1 hge)
    rw [heq]
    exact Tiles.nil

/-- The chunks of the data, as the PDUs carry them. -/
def C2hChunk.pdu (cid : UInt16) (data : Buffer) (chunk : C2hChunk) : C2hData where
  lastPdu := chunk.last
  plen := 24 + chunk.thisChunk
  cccid := cid
  datao := chunk.offset
  datal := chunk.thisChunk
  data := Buffer.bytes (fun k => data (chunk.offset.toNat + k)) chunk.thisChunk.toNat

/-- The whole loop sends all data. -/
theorem tiles_c2hChunks_zero :
    Tiles dataLen.toNat 0 ((c2hChunks size dataLen 0).map C2hChunk.piece) :=
  tiles_c2hChunks (UInt32.le_iff_toNat_le.2 (Nat.zero_le _) : (0 : UInt32) ≤ dataLen)

/-- The bytes of a PDU are those of the data at its offsets. -/
theorem data_pdu {chunk : C2hChunk} : (chunk.pdu cid data).data = chunk.piece.offsets.map data := by
  rw [Piece.offsets, List.range'_eq_map_range, List.map_map]
  rfl

/-- No chunk is longer than the first. -/
theorem thisChunk_le {chunk : C2hChunk} (h : chunk ∈ c2hChunks size dataLen offset) :
    chunk.thisChunk.toNat ≤ min dataLen.toNat size.val.toNat := by
  fun_induction c2hChunks size dataLen offset with
  | case1 offset hlt this ih =>
    rcases List.mem_cons.1 h with rfl | h
    · have hlen := (thisChunk_spec size.2 hlt).1
      exact hlen.le.trans (min_le_min_right _ (Nat.sub_le _ _))
    · exact ih h
  | case2 => exact absurd h List.not_mem_nil

/-- A chunk fits a PDU if its length and that of the header are a 32-bit number. -/
theorem sendC2hData_eq_some {chunk : C2hChunk} (h : chunk.thisChunk.toNat + 24 < 2 ^ 32) :
    sendC2hData cid (fun k => data (chunk.offset.toNat + k)) chunk.thisChunk chunk.offset
      chunk.last = some (chunk.pdu cid data) := by
  rw [sendC2hData, if_neg]
  · rfl
  · rw [UInt32.toNat_add, Nat.mod_eq_of_lt (by rw [Nat.add_comm]; exact h)]
    exact lt_irrefl _

/-- If no chunk fails, all of them are sent. -/
theorem mapM_eq_some_map {α β : Type*} {f : α → Option β} {g : α → β} {l : List α}
    (h : ∀ a ∈ l, f a = some (g a)) : l.mapM f = some (l.map g) := by
  induction l with
  | nil => rfl
  | cons a l ih =>
    rw [List.mapM_cons, h a List.mem_cons_self, ih fun b hb => h b (List.mem_cons_of_mem _ hb)]
    rfl

/-- The PDUs sent, if their lengths are 32-bit numbers. -/
theorem sendC2hDataChunks_eq
    (h : min dataLen.toNat (chunkSize maxh2cdata).val.toNat + 24 < 2 ^ 32) :
    sendC2hDataChunks maxh2cdata cid data dataLen =
      some ((c2hChunks (chunkSize maxh2cdata) dataLen 0).map (C2hChunk.pdu cid data)) :=
  mapM_eq_some_map fun _ hchunk =>
    sendC2hData_eq_some ((Nat.add_le_add_right (thisChunk_le hchunk) _).trans_lt h)

/-- Otherwise, the first chunk does not fit its PDU. -/
theorem sendC2hDataChunks_eq_none
    (h : 2 ^ 32 ≤ min dataLen.toNat (chunkSize maxh2cdata).val.toNat + 24) :
    sendC2hDataChunks maxh2cdata cid data dataLen = none := by
  have hpos : (0 : UInt32) < dataLen := by
    rw [UInt32.lt_iff_toNat_lt, UInt32.toNat_zero]
    omega
  have hfirst := (thisChunk_spec (chunkSize maxh2cdata).2 hpos).1
  rw [UInt32.toNat_zero, Nat.sub_zero] at hfirst
  rw [sendC2hDataChunks, c2hChunks, dif_pos hpos, List.mapM_cons, sendC2hData, if_pos]
  · rfl
  · have hlt := (thisChunk (chunkSize maxh2cdata).val dataLen 0).toNat_lt
    rw [UInt32.toNat_add, hfirst]
    rw [hfirst] at hlt
    change (24 + _) % 2 ^ 32 < _
    omega

/-! ## What is sent -/

/-- PDUs carry the data exactly: they cover their offsets in order, each once, and have their
    bytes; only the last of them is marked so; and they are as long as they say. -/
structure CarriesExactly (data : Buffer) (dataLen : UInt32) (pdus : List C2hData) : Prop where
  offsets : (pdus.flatMap fun pdu => pdu.piece.offsets) = List.range dataLen.toNat
  bytes : pdus.flatMap C2hData.data = data.bytes dataLen.toNat
  last : ∀ l₁ pdu l₂, pdus = l₁ ++ pdu :: l₂ → (pdu.lastPdu = true ↔ l₂ = [])
  plen : ∀ pdu ∈ pdus, pdu.data.length = pdu.datal.toNat ∧ pdu.plen.toNat = 24 + pdu.datal.toNat

/-- The PDUs of the chunks carry the data exactly. -/
theorem carriesExactly_chunks
    (h : min dataLen.toNat (chunkSize maxh2cdata).val.toNat + 24 < 2 ^ 32) :
    CarriesExactly data dataLen
      ((c2hChunks (chunkSize maxh2cdata) dataLen 0).map (C2hChunk.pdu cid data)) := by
  have htiles : Tiles dataLen.toNat 0
      ((c2hChunks (chunkSize maxh2cdata) dataLen 0).map C2hChunk.piece) := tiles_c2hChunks_zero
  constructor
  · have hoffsets := htiles.offsets
    rw [Nat.sub_zero, ← List.range_eq_range', List.flatMap_map] at hoffsets
    rw [List.flatMap_map]
    exact hoffsets
  · have hvalues := htiles.values data
    rw [List.flatMap_map] at hvalues
    rw [List.flatMap_map, Buffer.bytes, ← hvalues]
    exact congrArg (fun f => List.flatMap f _) (funext fun _ => data_pdu)
  · intro l₁ pdu l₂ hsplit
    obtain ⟨c₁, c, hchunks, rfl, hc⟩ := List.map_eq_append_iff.1 hsplit
    obtain ⟨chunk, c₂, rfl, rfl, rfl⟩ := List.map_eq_cons_iff.1 hc
    have hpieces : (c2hChunks (chunkSize maxh2cdata) dataLen 0).map C2hChunk.piece =
        c₁.map C2hChunk.piece ++ chunk.piece :: c₂.map C2hChunk.piece := by
      rw [hchunks, List.map_append, List.map_cons]
    have hlast := htiles.last_iff hpieces
    rw [List.map_eq_nil_iff] at hlast ⊢
    exact hlast
  · intro pdu hpdu
    obtain ⟨chunk, hchunk, rfl⟩ := List.mem_map.1 hpdu
    have hfits := (Nat.add_le_add_right (thisChunk_le hchunk) 24).trans_lt h
    constructor
    · rw [data_pdu, List.length_map, Piece.offsets, List.length_range']
      rfl
    · change (24 + chunk.thisChunk).toNat = 24 + chunk.thisChunk.toNat
      rw [UInt32.toNat_add]
      exact Nat.mod_eq_of_lt (by rw [Nat.add_comm]; exact hfits)

/-- Data are sent exactly if, and only if, the first chunk fits a PDU. -/
theorem carriesExactly_iff :
    (∃ pdus, sendC2hDataChunks maxh2cdata cid data dataLen = some pdus ∧
      CarriesExactly data dataLen pdus) ↔
    min dataLen.toNat (chunkSize maxh2cdata).val.toNat + 24 < 2 ^ 32 := by
  constructor
  · rintro ⟨pdus, hpdus, -⟩
    by_contra hge
    rw [sendC2hDataChunks_eq_none (not_lt.1 hge)] at hpdus
    exact absurd hpdus (by simp)
  · exact fun h => ⟨_, sendC2hDataChunks_eq h, carriesExactly_chunks h⟩

end

/-! ## What is sent for a command -/

/-- The places in a buffer that the PDUs of some data are filled from. -/
def c2hSpans (maxh2cdata : UInt32) (r : C2hBuffer × UInt32) : List (Span C2hBuffer) :=
  (c2hChunks (chunkSize maxh2cdata) r.2 0).map fun chunk =>
    ⟨r.1, chunk.offset.toNat, chunk.thisChunk.toNat⟩

/-- The data sent for a command are not longer than their buffer, and are taken from within it,
    whatever has been negotiated. -/
def SendsWithin (sqid : ℕ) (cmd : Command) : Prop :=
  ∀ r ∈ c2hData sqid cmd,
    r.2.toNat ≤ r.1.size ∧ ∀ maxh2cdata, Span.AllWithin C2hBuffer.size (c2hSpans maxh2cdata r)

section

variable {maxh2cdata : UInt32} {r : C2hBuffer × UInt32} {sqid : ℕ} {cmd : Command}

/-- Data that are not longer than their buffer are taken from within it. -/
theorem allWithin_c2hSpans (h : r.2.toNat ≤ r.1.size) :
    Span.AllWithin C2hBuffer.size (c2hSpans maxh2cdata r) := by
  intro s hs
  obtain ⟨chunk, hchunk, rfl⟩ := List.mem_map.1 hs
  have hstop := tiles_c2hChunks_zero.stop_le (List.mem_map_of_mem hchunk)
  exact Span.within_iff.2 (Or.inr (hstop.trans h))

/-- The length of a log page: the numbers do not wrap. -/
theorem toNat_logLen : (logLen cmd).toNat = ((cmd.cdw10 >>> 16).toNat + 1) * 4 := by
  have hlt : (cmd.cdw10 >>> 16).toNat < 2 ^ 16 := by
    rw [UInt32.toNat_shiftRight]
    have := cmd.cdw10.toNat_lt
    change cmd.cdw10.toNat >>> 16 < _
    rw [Nat.shiftRight_eq_div_pow]
    omega
  have hmask : (cmd.cdw10 >>> 16 &&& 0xFFFF).toNat = (cmd.cdw10 >>> 16).toNat := by
    rw [UInt32.toNat_and]
    exact (Nat.and_two_pow_sub_one_eq_mod _ 16).trans (Nat.mod_eq_of_lt hlt)
  rw [logLen, UInt32.toNat_mul, UInt32.toNat_add, hmask]
  change ((cmd.cdw10 >>> 16).toNat + 1) % 2 ^ 32 * 4 % 2 ^ 32 = _
  omega

/-- The data of every command are within their buffer, but for those of a log page, of which there
    are as many as the host asks for. -/
theorem le_size_iff :
    (∀ r ∈ c2hData sqid cmd, r.2.toNat ≤ r.1.size) ↔
      (cmd.opcode = 0x02 → sqid = 0 → (cmd.cdw10 >>> 16).toNat < 1024) := by
  by_cases hlog : cmd.opcode = 0x02 ∧ sqid = 0
  · have hdata : c2hData sqid cmd = some (.logData, logLen cmd) := by
      rw [c2hData, if_pos hlog, hlog.1]
      rfl
    rw [hdata]
    simp only [Option.mem_some_iff, forall_eq', C2hBuffer.size, toNat_logLen]
    constructor
    · intro h _ _
      omega
    · intro h
      have := h hlog.1 hlog.2
      omega
  · refine iff_of_true (fun r hr => ?_) fun hop hqid => absurd ⟨hop, hqid⟩ hlog
    unfold c2hData at hr
    rw [if_neg hlog] at hr
    -- only an Identify and a Read are left that send data
    split_ifs at hr with hwrite htrim hfabrics hidentify hread
    · exact absurd hr (by simp)
    · exact absurd hr (by simp)
    · exact absurd hr (by simp)
    · rw [← Option.mem_some_iff.1 hr]
      exact le_rfl
    · rw [← Option.mem_some_iff.1 hr]
      exact hread.2
    · exact absurd hr (by simp)

end

/-! ## The target sends these data -/

/-- A PDU of the target stands for the data of a command. -/
def Sent.Carries : Sent → C2hBuffer × UInt32 → Prop
  | .c2hInfo _ _, r => r.1 ≠ .readData
  | .c2hPages _ _ pages, r => r.1 = .readData ∧ r.2.toNat = pages.length * pageSize
  | _, _ => False

/-- The PDUs sent for a command that has no data to send, or has the data `r`. -/
def BringsData (sent : List Sent) : Option (C2hBuffer × UInt32) → Prop
  | none => ∀ s ∈ sent, ∀ r, ¬s.Carries r
  | some r => ∃ s ∈ sent, s.Carries r

namespace Target

variable {t t' : Target} {i fuel total : ℕ} {c : Capsule} {cmd : Command} {cpl : Completion}
  {sent : List Sent}

theorem bringsData_sendCapsuleResp : BringsData [sendCapsuleResp i cpl] none := by
  intro s hs r hcarries
  rw [List.mem_singleton.1 hs] at hcarries
  exact hcarries

/-- A command with data from the host sends none. -/
theorem transfer_bringsData (h : t.transfer i fuel c total = some (sent, t')) :
    BringsData sent none := by
  rw [transfer] at h
  dsimp only at h
  split_ifs at h with hmax hrest
  · obtain ⟨rfl, -⟩ := Prod.mk.inj (Option.some.inj h)
    exact bringsData_sendCapsuleResp
  · obtain ⟨rfl, -⟩ := Prod.mk.inj (Option.some.inj h)
    intro s hs r hcarries
    rw [List.mem_singleton.1 hs] at hcarries
    exact hcarries
  · obtain ⟨r, _, heq⟩ := Option.map_eq_some_iff.1 h
    obtain ⟨rfl, -⟩ := Prod.mk.inj heq
    exact bringsData_sendCapsuleResp

/-- Of the commands that are dispatched, only a Read sends data. -/
theorem afterDispatch_bringsData (h : t.afterDispatch i fuel cmd cpl = some (sent, t')) :
    BringsData sent (if cmd.opcode = 0x02 ∧ (readTransferLen cmd).toNat ≤ tcpMaxIoSize then
      some (.readData, readTransferLen cmd) else none) := by
  have hlen : (readTransferLen cmd).toNat = cmd.nlb * pageSize := by
    have hnlb : cmd.nlb < 2 ^ 16 := Nat.mod_lt _ (Nat.two_pow_pos 16)
    rw [readTransferLen, UInt32.toNat_ofNat']
    exact Nat.mod_eq_of_lt (by omega)
  rw [hlen]
  rw [afterDispatch] at h
  dsimp only at h
  split_ifs at h with hzeroes hread hmax
  · obtain ⟨r, _, heq⟩ := Option.map_eq_some_iff.1 h
    obtain ⟨rfl, -⟩ := Prod.mk.inj heq
    have hread : ¬(cmd.opcode = 0x02 ∧ cmd.nlb * pageSize ≤ tcpMaxIoSize) := by
      rw [hzeroes.1]
      exact fun hread => absurd hread.1 (by decide)
    rw [if_neg hread]
    exact bringsData_sendCapsuleResp
  · obtain ⟨rfl, -⟩ := Prod.mk.inj (Option.some.inj h)
    rw [if_pos ⟨hread, hmax⟩]
    refine ⟨_, List.mem_cons_self, rfl, ?_⟩
    rw [hlen, List.length_map, List.length_range]
  · obtain ⟨rfl, -⟩ := Prod.mk.inj (Option.some.inj h)
    have hnone : ¬(cmd.opcode = 0x02 ∧ cmd.nlb * pageSize ≤ tcpMaxIoSize) := fun hr => hmax hr.2
    rw [if_neg hnone]
    exact bringsData_sendCapsuleResp
  · obtain ⟨rfl, -⟩ := Prod.mk.inj (Option.some.inj h)
    have hnone : ¬(cmd.opcode = 0x02 ∧ cmd.nlb * pageSize ≤ tcpMaxIoSize) := fun hr => hread hr.1
    rw [if_neg hnone]
    exact bringsData_sendCapsuleResp

/-- The target sends data for the commands that have data to send, and for no others. -/
theorem executeCapsule_bringsData (h : t.executeCapsule i fuel c = some (sent, t')) :
    BringsData sent (c2hData (t.conns i).qid c.cmd) := by
  rw [executeCapsule] at h
  rw [c2hData]
  dsimp only at h
  split_ifs at h ⊢ with hwrite htrim hfabrics hidentify hlog hread
  · exact transfer_bringsData h
  · exact transfer_bringsData h
  · obtain ⟨rfl, -⟩ := Prod.mk.inj (Option.some.inj h)
    exact bringsData_sendCapsuleResp
  · obtain ⟨rfl, -⟩ := Prod.mk.inj (Option.some.inj h)
    exact ⟨_, List.mem_cons_self, by simp [Sent.Carries]⟩
  · obtain ⟨rfl, -⟩ := Prod.mk.inj (Option.some.inj h)
    exact ⟨_, List.mem_cons_self, by simp [Sent.Carries]⟩
  all_goals
    split at h
    · exact absurd h (by simp)
    · have hbrings := afterDispatch_bringsData h
      first
      | rwa [if_pos hread] at hbrings
      | rwa [if_neg hread] at hbrings

end Target

/-- The PDUs of some data carry them exactly, unless the first does not fit its length; and those
    of a command are taken from within its buffer, unless it asks for a log page longer than the
    buffer of 1024 dwords. -/
theorem c2hData_exact_iff (maxh2cdata : UInt32) (cid : UInt16) (data : Buffer) (dataLen : UInt32)
    (sqid : ℕ) (cmd : Command) :
    ((∃ pdus, sendC2hDataChunks maxh2cdata cid data dataLen = some pdus ∧
        CarriesExactly data dataLen pdus) ↔
      min dataLen.toNat (chunkSize maxh2cdata).val.toNat + 24 < 2 ^ 32) ∧
    (SendsWithin sqid cmd ↔
      (cmd.opcode = 0x02 → sqid = 0 → (cmd.cdw10 >>> 16).toNat < 1024)) :=
  ⟨carriesExactly_iff, Iff.trans
    ⟨fun h r hr => (h r hr).1, fun h r hr => ⟨h r hr, fun _ => allWithin_c2hSpans (h r hr)⟩⟩
    le_size_iff⟩

/-- A host asks for a log page of 4100 bytes, and is sent those after the buffer. -/
theorem c2hData_not_exact :
    ¬ ∀ sqid cmd, SendsWithin sqid cmd := by
  intro h
  have hlong := (h 0 { Command.blank with opcode := 0x02, cdw10 := 0x04000000 }
    (.logData, 4100) rfl).1
  exact absurd hlong (by decide)

end Nvme

end FtlFirmware
