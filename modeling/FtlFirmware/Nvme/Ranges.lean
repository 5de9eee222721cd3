import FtlFirmware.Ftl.ReadYourWrites
import FtlFirmware.Nvme.Calls
import FtlFirmware.Nvme.Exchange
import FtlFirmware.Nvme.Prp
import FtlFirmware.Nvme.Vfio
import FtlFirmware.Nvme.Vhost

/-!
# The blocks that a command names

A Write, a Write Zeroes and a Dataset Management name blocks by fields of 8, 16, 32 and 64 bits
(`Command.Names`), one of them being a count less one. The front ends reckon with them in variables
of 8, 16 and 32 bits.

A command executed with success (`Executes`) has changed the named blocks, and only those, if and
only if its fields stay clear of the ends of these variables, and no range of a Dataset Management
is followed by a block that is not named (`Command.Fits`): the front ends take a range to be one
block longer than it is.
-/

namespace FtlFirmware

namespace Nvme

open Ftl (next)

/-! ## The blocks, exactly -/

namespace Command

variable (cmd : Command)

/-- The first block of an I/O command. -/
def slba : ℕ := cmd.cdw1011.toNat

/-- The number of blocks of an I/O command, less one. -/
def nlbField : ℕ := (cmd.cdw12 &&& 0xFFFF).toNat

/-- The number of ranges of a Dataset Management, less one. -/
def nrField : ℕ := (cmd.cdw10 &&& 0xFF).toNat

end Command

/-- The first block of the range `r` in a buffer. -/
def Buffer.rangeSlba (buf : Buffer) (r : ℕ) : ℕ := (buf.le64 (r * 16 + 8)).toNat

/-- The length of the range `r` in a buffer. -/
def Buffer.rangeLength (buf : Buffer) (r : ℕ) : ℕ := (buf.le32 (r * 16 + 4)).toNat

namespace Command

variable (cmd : Command) (data : Buffer)

/-- The command, with the data of the host, names a block. -/
def Names (i : ℕ) : Prop :=
  if cmd.opcode = 0x09 then
    ∃ r ≤ cmd.nrField, data.rangeSlba r ≤ i ∧ i < data.rangeSlba r + data.rangeLength r
  else cmd.slba ≤ i ∧ i ≤ cmd.slba + cmd.nlbField

/-- What a block that the command names is to hold. -/
def content (i : ℕ) : Option PageData :=
  if cmd.opcode = 0x09 then none
  else if cmd.opcode = 0x08 then some blankPage
  else some (data.page (i - cmd.slba))

/-- The fields fit in the variables of the front ends, and each range is followed by the end of the
    device, or by a named block. -/
def Fits : Prop :=
  if cmd.opcode = 0x09 then
    if cmd.nrField = 255 then ∀ r ≤ 255, data.rangeLength r = 0
    else ∀ r ≤ cmd.nrField,
      (data.rangeLength r = 0 ∨ data.rangeSlba r + data.rangeLength r ≤ totalLpns) ∧
        (data.rangeSlba r % 2 ^ 32 + data.rangeLength r = totalLpns ∨
          cmd.Names data (data.rangeSlba r % 2 ^ 32 + data.rangeLength r))
  else cmd.nlbField ≠ 65535 ∧ cmd.slba < 2 ^ 32

/-- The number of bytes that the front ends transfer from the host. -/
def transferLen : ℕ :=
  if cmd.opcode = 0x01 then cmd.nlb * pageSize
  else if cmd.opcode = 0x09 then cmd.nr * 16
  else 0

end Command

/-! ## Executions -/

/-- A command that a front end has executed, the FTL before and after, the FTL calls that it has
    made, and the data that it has used. -/
structure Execution where
  cmd : Command
  status : UInt16
  before : Ftl
  after : Ftl
  calls : List (Call × Answer)
  buf : Buffer
  /-- The host has given the data in such a way that the front end uses them. -/
  given : Buffer → Prop

namespace Execution

variable (x : Execution) (data : Buffer)

/-- The data used are those of the host. -/
def Received : Prop := ∀ k < x.cmd.transferLen, x.buf k = data k

/-- The blocks named are on the device, they hold what they are to hold, and no other block has
    changed, whatever the device has held before. -/
structure Exact : Prop where
  inRange (i : ℕ) : x.cmd.Names data i → i < totalLpns
  named (c : Store) (i : ℕ) : i < totalLpns → x.cmd.Names data i →
    x.calls.foldl next c i = x.cmd.content data i
  others (c : Store) (i : ℕ) : i < totalLpns → ¬ x.cmd.Names data i → x.calls.foldl next c i = c i

end Execution

namespace BlockIo

variable (io : BlockIo) (b : Backend) (cmd : Command) (fuel : ℕ)

/-- The data that a back end gathers for a command. -/
def gathered : Buffer := (io.prpReadData b cmd cmd.transferLen).2.writeBuf

/-- The FTL calls of a back end for a command. -/
def calls : List (Call × Answer) :=
  if cmd.opcode = 0x09 then trimCalls (io.gathered b cmd).range (List.range cmd.nr) io.ftl
  else writeCalls fuel (lpnAt cmd.cdw1011)
    (if cmd.opcode = 0x08 then fun _ => blankPage else (io.gathered b cmd).page)
    (List.range cmd.nlb) io.ftl

end BlockIo

namespace Target

variable (t : Target) (i fuel : ℕ)

/-- The command is the one that waits for data on a connection. -/
structure Awaits (cmd : Command) : Prop where
  opcode : (t.conns i).pendingOpcode = cmd.opcode
  slba : cmd.opcode = 0x01 → (t.conns i).pendingSlba = cmd.cdw1011
  total : (t.conns i).dataTotal = cmd.transferLen

/-- The data collected for the command that waits on a connection. -/
def collected : Buffer := bufferOf (t.writeBuf.bytes (t.conns i).dataTotal)

/-- The FTL calls of using the data of the command that waits (`perform`). -/
def performCalls : List (Call × Answer) :=
  if (t.conns i).pendingOpcode = 0x09 then
    trimCalls (t.collected i).range (List.range ((t.conns i).dataTotal / 16)) t.ftl
  else writeCalls fuel (lpnAt (t.conns i).pendingSlba) (t.collected i).page
    (List.range ((t.conns i).dataTotal / pageSize)) t.ftl

/-- The FTL calls of a Write Zeroes: the pages are written twice. -/
def zeroCalls (cmd : Command) : List (Call × Answer) :=
  let calls := writeCalls fuel (lpnAt cmd.cdw1011) (fun _ => blankPage) (List.range cmd.nlb)
  match processIoCmd fuel t.ctrl t.ftl cmd with
  | none => []
  | some r => calls t.ftl ++ calls r.2

end Target

/-- The front ends execute a Write, a Write Zeroes or a Dataset Management. On a connection, a
    command with data is executed when all data have come: those sent along with it, or others. -/
inductive Executes (fuel : ℕ) : Execution → Prop
  | vfio (v : Vfio) (cmd : Command) (cpl : Completion) (v' : Vfio)
      (h : v.processIoCommand fuel cmd = some (cpl, v')) :
      Executes fuel ⟨cmd, cpl.status, v.ftl, v'.ftl, v.toBlockIo.calls Vfio.backend cmd fuel,
        v.toBlockIo.gathered Vfio.backend cmd,
        Describes v.guest cmd.dptrPrp1 cmd.dptrPrp2 cmd.transferLen⟩
  | vhost (v : Vhost) (cmd : Command) (qid : ℕ) (cpl : Completion) (v' : Vhost)
      (h : v.processIoCommand fuel cmd qid = some (cpl, v')) :
      Executes fuel ⟨cmd, cpl.status, v.ftl, v'.ftl, v.toBlockIo.calls Vhost.backend cmd fuel,
        v.toBlockIo.gathered Vhost.backend cmd, fun data =>
          Describes v.guest cmd.dptrPrp1 cmd.dptrPrp2 cmd.transferLen data ∧
            cmd.transferLen ≤ firstPage cmd.dptrPrp1 + pageSize⟩
  | zeroes (t : Target) (i : ℕ) (c : Capsule) (sent : List Sent) (t' : Target) (cpl : Completion)
      (hq : (t.conns i).qid ≠ 0) (hop : c.cmd.opcode = 0x08)
      (h : t.handleCapsuleCmd i fuel c = some (sent, t')) (hcpl : .capsuleResp i cpl ∈ sent) :
      Executes fuel ⟨c.cmd, cpl.status, t.ftl, t'.ftl, t.zeroCalls fuel c.cmd, fun _ => 0,
        fun _ => True⟩
  | capsule (t : Target) (i : ℕ) (c : Capsule) (sent : List Sent) (t' : Target) (cpl : Completion)
      (hq : (t.conns i).qid ≠ 0) (hop : c.cmd.opcode = 0x01 ∨ c.cmd.opcode = 0x09)
      (h : t.handleCapsuleCmd i fuel c = some (sent, t')) (hcpl : .capsuleResp i cpl ∈ sent) :
      Executes fuel ⟨c.cmd, cpl.status, t.ftl, t'.ftl,
        (t.startTransfer i c c.cmd.transferLen).performCalls i fuel,
        (t.startTransfer i c c.cmd.transferLen).collected i, fun data =>
          ∀ buf, c.data = some buf → ∀ k < c.cmd.transferLen, buf k = data k⟩
  | h2cData (t : Target) (i : ℕ) (cmd : Command) (d : H2cData) (sent : List Sent) (t' : Target)
      (cpl : Completion) (hop : cmd.opcode = 0x01 ∨ cmd.opcode = 0x09) (hwaits : t.Awaits i cmd)
      (h : t.handleH2cData i fuel d = some (sent, t')) (hcpl : .capsuleResp i cpl ∈ sent) :
      Executes fuel ⟨cmd, cpl.status, t.ftl, t'.ftl, (t.receive i d).performCalls i fuel,
        (t.receive i d).collected i, fun _ => False⟩

/-! ## What has been carried out -/

/-- A command that has been carried out with success, by its FTL calls, with the data that have been
    used. A Write Zeroes may have made other calls before, for the same blocks. -/
inductive Carried (cmd : Command) (buf : Buffer) : List (Call × Answer) → Prop
  | write (hop : cmd.opcode = 0x01) (hlt : ∀ i < cmd.nlb, lpnAt cmd.cdw1011 i < totalLpns) :
      Carried cmd buf ((List.range cmd.nlb).map (writeCall (lpnAt cmd.cdw1011) buf.page .ok))
  | zeroes (hop : cmd.opcode = 0x08) (hlt : ∀ i < cmd.nlb, lpnAt cmd.cdw1011 i < totalLpns)
      (calls : List (Call × Answer)) (hcalls : ∀ x ∈ calls, ∃ i ∈ List.range cmd.nlb, ∃ ret,
        x = writeCall (lpnAt cmd.cdw1011) (fun _ => blankPage) ret i) :
      Carried cmd buf (calls ++
        (List.range cmd.nlb).map (writeCall (lpnAt cmd.cdw1011) (fun _ => blankPage) .ok))
  | datasetMgmt (hop : cmd.opcode = 0x09)
      (hok : ∀ r < cmd.nr, (buf.range r).count ≠ 0 ∧ (buf.range r).lpn.toNat < totalLpns) :
      Carried cmd buf ((List.range cmd.nr).map (trimCall buf.range))

/-! ### Fields -/

namespace Command

variable {cmd : Command}

theorem nlbField_lt (cmd : Command) : cmd.nlbField < 2 ^ 16 := by
  rw [nlbField, UInt32.toNat_and]
  exact Nat.lt_succ_of_le Nat.and_le_right

theorem nrField_lt (cmd : Command) : cmd.nrField < 2 ^ 8 := by
  rw [nrField, UInt32.toNat_and]
  exact Nat.lt_succ_of_le Nat.and_le_right

/-- The variable for the number of blocks is too small for 65536 blocks. -/
theorem nlb_eq (cmd : Command) :
    cmd.nlb = if cmd.nlbField = 65535 then 0 else cmd.nlbField + 1 := by
  have hlt := nlbField_lt cmd
  rw [nlb, ← nlbField]
  split_ifs with h
  · simp [h]
  · exact Nat.mod_eq_of_lt (by omega)

/-- The variable for the number of ranges is too small for 256 ranges. -/
theorem nr_eq (cmd : Command) : cmd.nr = if cmd.nrField = 255 then 0 else cmd.nrField + 1 := by
  have hlt := nrField_lt cmd
  rw [nr, ← nrField]
  split_ifs with h
  · simp [h]
  · exact Nat.mod_eq_of_lt (by omega)

theorem lpnAt_zero (cmd : Command) : lpnAt cmd.cdw1011 0 = cmd.slba % 2 ^ 32 := by
  rw [lpnAt, Nat.add_zero, Nat.mod_mod_of_dvd _ (by decide : 2 ^ 32 ∣ 2 ^ 64), slba]

/-- The blocks of a command whose first block, as cut, is on the device follow each other. -/
theorem lpnAt_eq (h : cmd.slba % 2 ^ 32 < totalLpns) {i : ℕ} (hi : i < 2 ^ 16) :
    lpnAt cmd.cdw1011 i = cmd.slba % 2 ^ 32 + i := by
  rw [lpnAt, Nat.mod_mod_of_dvd _ (by decide : 2 ^ 32 ∣ 2 ^ 64), ← slba]
  have htotal : totalLpns = 22937 := rfl
  omega

end Command

/-! ### Data -/

namespace Buffer

variable {buf data : Buffer} {n : ℕ}

/-- Buffers with the same bytes have the same pages. -/
theorem page_congr (h : ∀ k < n * pageSize, buf k = data k) {i : ℕ} (hi : i < n) :
    buf.page i = data.page i := by
  rw [page, page]
  congr 1
  funext j
  refine h _ ?_
  have := Nat.mul_le_mul_right pageSize (Nat.succ_le_of_lt hi)
  have := j.isLt
  rw [Nat.succ_mul] at *
  omega

/-- Buffers with the same pages have the same bytes. -/
theorem eq_of_pages (h : ∀ i < n, buf.page i = data.page i) {k : ℕ} (hk : k < n * pageSize) :
    buf k = data k := by
  have hi : k / pageSize < n := (Nat.div_lt_iff_lt_mul (by decide)).2 hk
  have hj : k % pageSize < pageSize := Nat.mod_lt _ (by decide)
  have hpage : (buf.page (k / pageSize))[k % pageSize] = (data.page (k / pageSize))[k % pageSize] :=
    by rw [h _ hi]
  rw [page, page, Vector.getElem_ofFn, Vector.getElem_ofFn] at hpage
  dsimp only at hpage
  rwa [Nat.div_add_mod'] at hpage

/-- Buffers with the same bytes have the same ranges. -/
theorem range_congr (h : ∀ k < n * 16, buf k = data k) {r : ℕ} (hr : r < n) :
    buf.range r = data.range r := by
  have h64 : buf.le64 (r * 16 + 8) = data.le64 (r * 16 + 8) :=
    le64_congr fun i hi => h _ (by omega)
  have h32 : buf.le32 (r * 16 + 4) = data.le32 (r * 16 + 4) :=
    le32_congr fun i hi => h _ (by omega)
  rw [range, range, h64, h32]

theorem range_lpn (data : Buffer) (r : ℕ) :
    (data.range r).lpn.toNat = data.rangeSlba r % 2 ^ 32 := by
  rw [range, rangeSlba, UInt64.toNat_toUInt32]

/-- A range that is not refused is taken to be one block longer. -/
theorem range_count {r : ℕ} (h : (data.range r).count ≠ 0) :
    (data.range r).count.toNat = data.rangeLength r + 1 := by
  rw [range] at h ⊢
  dsimp only at h ⊢
  rw [rangeLength]
  have hne : data.le32 (r * 16 + 4) ≠ -1 := fun heq => h (by rw [heq]; rfl)
  have hlt := (data.le32 (r * 16 + 4)).toNat_lt
  have hne' : (data.le32 (r * 16 + 4)).toNat ≠ 2 ^ 32 - 1 := fun heq => hne (UInt32.toNat_inj.1 heq)
  rw [UInt32.toNat_add, UInt32.toNat_one, Nat.mod_eq_of_lt (by omega)]

end Buffer

/-! ### Blocks -/

namespace Execution

variable {x : Execution} {data : Buffer}

/-- Writes of the blocks of a command, of which all have succeeded once. -/
theorem exact_iff_of_writes {pages : ℕ → PageData} {calls : List (Call × Answer)}
    (hop : x.cmd.opcode ≠ 0x09)
    (hx : x.calls = calls ++
      (List.range x.cmd.nlb).map (writeCall (lpnAt x.cmd.cdw1011) pages .ok))
    (hcalls : ∀ y ∈ calls, ∃ i ∈ List.range x.cmd.nlb, ∃ ret,
      y = writeCall (lpnAt x.cmd.cdw1011) pages ret i)
    (hlt : ∀ i < x.cmd.nlb, lpnAt x.cmd.cdw1011 i < totalLpns) :
    x.Exact data ↔ x.cmd.Fits data ∧
      ∀ i ≤ x.cmd.nlbField, x.cmd.content data (x.cmd.slba + i) = some (pages i) := by
  have hall : ∀ y ∈ x.calls, ∃ i ∈ List.range x.cmd.nlb, ∃ ret,
      y = writeCall (lpnAt x.cmd.cdw1011) pages ret i := by
    intro y hy
    rw [hx, List.mem_append] at hy
    rcases hy with hy | hy
    · exact hcalls y hy
    · obtain ⟨i, hi, rfl⟩ := List.mem_map.1 hy
      exact ⟨i, hi, .ok, rfl⟩
  have hnames : ∀ i, x.cmd.Names data i ↔ x.cmd.slba ≤ i ∧ i ≤ x.cmd.slba + x.cmd.nlbField := by
    intro i
    rw [Command.Names, if_neg hop]
  have hfits : x.cmd.Fits data ↔ x.cmd.nlbField ≠ 65535 ∧ x.cmd.slba < 2 ^ 32 := by
    rw [Command.Fits, if_neg hop]
  -- If the fields fit, the FTL calls are for the blocks named.
  have hblocks : x.cmd.nlbField ≠ 65535 → x.cmd.slba < 2 ^ 32 →
      x.cmd.nlb = x.cmd.nlbField + 1 ∧
        ∀ i ≤ x.cmd.nlbField, lpnAt x.cmd.cdw1011 i = x.cmd.slba + i := by
    intro hnlb hslba
    have hnlb' := x.cmd.nlb_eq
    rw [if_neg hnlb] at hnlb'
    refine ⟨hnlb', fun i hi => ?_⟩
    have h0 := hlt 0 (by omega)
    rw [Command.lpnAt_zero] at h0
    have hfield := x.cmd.nlbField_lt
    rw [Command.lpnAt_eq h0 (by omega), Nat.mod_eq_of_lt hslba]
  have hself : x.cmd.nlbField ≠ 65535 → x.cmd.slba < 2 ^ 32 → ∀ i ≤ x.cmd.nlbField, ∀ c : Store,
      x.calls.foldl next c (x.cmd.slba + i) = some (pages i) := by
    intro hnlb hslba i hi c
    obtain ⟨hnlb', hlpn⟩ := hblocks hnlb hslba
    rw [← hlpn i hi]
    refine foldl_writes_self hall (fun j hj hji => ?_) ?_
    · rw [List.mem_range, hnlb'] at hj
      rw [hlpn i hi, hlpn j (by omega)] at hji
      omega
    · rw [hx]
      exact List.mem_append_right _ (List.mem_map_of_mem (List.mem_range.2 (by omega)))
  constructor
  · intro h
    have hlast := h.inRange (x.cmd.slba + x.cmd.nlbField) ((hnames _).2 ⟨by omega, Nat.le_refl _⟩)
    have htotal : totalLpns = 22937 := rfl
    have hnlb : x.cmd.nlbField ≠ 65535 := by omega
    have hslba : x.cmd.slba < 2 ^ 32 := by omega
    refine ⟨hfits.2 ⟨hnlb, hslba⟩, fun i hi => ?_⟩
    rw [← h.named (fun _ => none) (x.cmd.slba + i) (by omega) ((hnames _).2 ⟨by omega, by omega⟩),
      hself hnlb hslba i hi]
  · rintro ⟨hfit, hcontent⟩
    obtain ⟨hnlb, hslba⟩ := hfits.1 hfit
    obtain ⟨hnlb', hlpn⟩ := hblocks hnlb hslba
    refine ⟨fun i hi => ?_, fun c i _ hi => ?_, fun c i _ hi => ?_⟩
    · obtain ⟨hle, hle'⟩ := (hnames i).1 hi
      have hk := hlt (i - x.cmd.slba) (by omega)
      rwa [hlpn _ (by omega), Nat.add_sub_cancel' hle] at hk
    · obtain ⟨hle, hle'⟩ := (hnames i).1 hi
      have hk := hself hnlb hslba (i - x.cmd.slba) (by omega) c
      rw [Nat.add_sub_cancel' hle] at hk
      have hc := hcontent (i - x.cmd.slba) (by omega)
      rw [Nat.add_sub_cancel' hle] at hc
      rw [hk, hc]
    · refine foldl_writes_of_ne hall fun j hj hji => hi ?_
      rw [List.mem_range, hnlb'] at hj
      rw [hlpn j (by omega)] at hji
      exact (hnames i).2 ⟨by omega, by omega⟩

/-- Trims of the ranges of a command, which have all succeeded. -/
theorem exact_iff_of_trims (hop : x.cmd.opcode = 0x09)
    (hx : x.calls = (List.range x.cmd.nr).map (trimCall data.range))
    (hok : ∀ r < x.cmd.nr, (data.range r).count ≠ 0 ∧ (data.range r).lpn.toNat < totalLpns) :
    x.Exact data ↔ x.cmd.Fits data := by
  have hnames : ∀ i, x.cmd.Names data i ↔ ∃ r ≤ x.cmd.nrField,
      data.rangeSlba r ≤ i ∧ i < data.rangeSlba r + data.rangeLength r := by
    intro i
    rw [Command.Names, if_pos hop]
  have hcontent : ∀ i, x.cmd.content data i = none := fun i => by rw [Command.content, if_pos hop]
  -- A block that is named, and on the device, is cleared. It may have held data.
  have hheld : ∀ r ≤ x.cmd.nrField, x.Exact data → 0 < data.rangeLength r →
      data.rangeSlba r + data.rangeLength r ≤ totalLpns ∧
        x.calls.foldl next (fun _ => some blankPage) (data.rangeSlba r) = none := by
    intro r hr h hpos
    have hlast := h.inRange (data.rangeSlba r + data.rangeLength r - 1)
      ((hnames _).2 ⟨r, hr, by omega, by omega⟩)
    refine ⟨by omega, ?_⟩
    rw [h.named _ _ (by omega) ((hnames _).2 ⟨r, hr, Nat.le_refl _, by omega⟩), hcontent]
  have htotal : totalLpns = 22937 := rfl
  have hnr := x.cmd.nr_eq
  rw [Command.Fits, if_pos hop]
  by_cases h255 : x.cmd.nrField = 255
  · -- No range is trimmed.
    rw [if_pos h255] at hnr ⊢
    rw [hnr] at hx
    constructor
    · intro h r hr
      by_contra hne
      obtain ⟨_, hnone⟩ := hheld r (by omega) h (Nat.pos_of_ne_zero hne)
      rw [hx] at hnone
      exact Option.some_ne_none _ hnone
    · intro hzero
      have hun : ∀ i, ¬ x.cmd.Names data i := by
        intro i hi
        obtain ⟨r, hr, _, hlt⟩ := (hnames i).1 hi
        have := hzero r (by omega)
        omega
      exact ⟨fun i hi => absurd hi (hun i), fun _ i _ hi => absurd hi (hun i), fun _ _ _ _ => by
        rw [hx]; rfl⟩
  · rw [if_neg h255] at hnr ⊢
    rw [hnr] at hx hok
    -- Each range is trimmed from its first block, as cut, to the block after it.
    have hrange : ∀ r ≤ x.cmd.nrField, (data.range r).lpn.toNat = data.rangeSlba r % 2 ^ 32 ∧
        (data.range r).count.toNat = data.rangeLength r + 1 ∧
        data.rangeSlba r % 2 ^ 32 < totalLpns := by
      intro r hr
      obtain ⟨hcount, hlt⟩ := hok r (by omega)
      rw [Buffer.range_lpn] at hlt
      exact ⟨data.range_lpn r, Buffer.range_count hcount, hlt⟩
    constructor
    · intro h r hr
      obtain ⟨hlpn, hcount, hlt⟩ := hrange r hr
      have hin : data.rangeLength r = 0 ∨
          data.rangeSlba r + data.rangeLength r ≤ totalLpns := by
        rcases Nat.eq_zero_or_pos (data.rangeLength r) with h0 | hpos
        · exact Or.inl h0
        · exact Or.inr (hheld r hr h hpos).1
      refine ⟨hin, ?_⟩
      by_contra hne
      rw [not_or] at hne
      -- The block after the range is cleared, though it is not named.
      have hend : data.rangeSlba r % 2 ^ 32 + data.rangeLength r < totalLpns := by omega
      have hkept := h.others (fun _ => some blankPage) _ hend hne.2
      rw [hx, foldl_trims_of_mem (List.mem_range.2 (Nat.lt_succ_of_le hr)) (by omega)
        (by omega)] at hkept
      exact Option.some_ne_none _ hkept.symm
    · intro hfit
      refine ⟨fun i hi => ?_, fun c i hi hn => ?_, fun c i hi hn => ?_⟩
      · obtain ⟨r, hr, hle, hlt⟩ := (hnames i).1 hi
        have := (hfit r hr).1
        omega
      · obtain ⟨r, hr, hle, hlt⟩ := (hnames i).1 hn
        obtain ⟨hlpn, hcount, _⟩ := hrange r hr
        rw [hcontent, hx]
        exact foldl_trims_of_mem (List.mem_range.2 (Nat.lt_succ_of_le hr)) (by omega) (by omega)
      · rw [hx]
        refine foldl_trims_of_ne fun r hr hle => ?_
        have hr' := Nat.le_of_lt_succ (List.mem_range.1 hr)
        obtain ⟨hlpn, hcount, hlt⟩ := hrange r hr'
        obtain ⟨hin, hafter⟩ := hfit r hr'
        by_contra hgt
        -- The block is in the range, or it is the one after it.
        by_cases hlast : i = data.rangeSlba r % 2 ^ 32 + data.rangeLength r
        · rw [← hlast] at hafter
          rcases hafter with hend | hnamed
          · omega
          · exact hn hnamed
        · exact hn ((hnames i).2 ⟨r, hr', by omega, by omega⟩)

end Execution

/-! ## The front ends -/

/-- A command that succeeds has been carried out, by a run of the FTL, with the data of the host if
    they have been given in the way of the front end. -/
structure Execution.Succeeds (x : Execution) : Prop where
  carried : Carried x.cmd x.buf x.calls
  run : Ftl.Run Machine.anyCall x.before x.calls x.after
  received (data : Buffer) : x.given data → x.Received data

/-! ### The back ends -/

namespace BlockIo

variable {io io' : BlockIo} {b : Backend} {cmd : Command} {fuel : ℕ} {xferError status : UInt16}

/-- A back end has carried out a command. -/
structure Done (io : BlockIo) (b : Backend) (cmd : Command) (fuel : ℕ) (io' : BlockIo) : Prop where
  carried : Carried cmd (io.gathered b cmd) (io.calls b cmd fuel)
  run : Ftl.Run Machine.anyCall io.ftl (io.calls b cmd fuel) io'.ftl
  fetched : cmd.transferLen = 0 ∨ (io.prpReadData b cmd cmd.transferLen).1 = true

theorem ok_of_status {ok : Bool} (h : (if ok then scSuccess else scInternalError) = 0) :
    ok = true := by
  cases ok
  · exact absurd h (by decide)
  · rfl

theorem write_done (hop : cmd.opcode = 0x01) (he : xferError ≠ 0)
    (h : io.write b cmd xferError fuel = some (status, io')) (hs : status = 0) :
    io.Done b cmd fuel io' := by
  have hlen : cmd.transferLen = cmd.nlb * pageSize := by rw [Command.transferLen, if_pos hop]
  have hcalls : io.calls b cmd fuel = writeCalls fuel (lpnAt cmd.cdw1011) (io.gathered b cmd).page
      (List.range cmd.nlb) io.ftl := by
    rw [calls, hop]
    rfl
  rw [write, ← hlen] at h
  dsimp only at h
  by_cases hmax : cmd.transferLen > maxIoSize
  · rw [if_pos hmax] at h
    rw [← (Prod.mk.inj (Option.some.inj h)).1] at hs
    exact absurd hs (by decide)
  rw [if_neg hmax] at h
  cases hfetch : (io.prpReadData b cmd cmd.transferLen).1 with
  | false =>
    rw [hfetch] at h
    exact absurd ((Prod.mk.inj (Option.some.inj h)).1.trans hs) he
  | true =>
    rw [hfetch] at h
    obtain ⟨⟨ok, ftl'⟩, hw, heq⟩ := Option.map_eq_some_iff.1 h
    obtain ⟨hst, rfl⟩ := Prod.mk.inj heq
    obtain rfl := ok_of_status (hst.trans hs)
    obtain ⟨hlist, hlt⟩ := writePages_ok hw
    refine ⟨?_, hcalls ▸ writePages_run hw, Or.inr hfetch⟩
    rw [hcalls]
    exact hlist ▸ Carried.write hop fun i hi => hlt i (List.mem_range.2 hi)

theorem writeZeroes_done (hop : cmd.opcode = 0x08)
    (h : io.writeZeroes cmd fuel = some (status, io')) (hs : status = 0) :
    io.Done b cmd fuel io' := by
  have hcalls : io.calls b cmd fuel = writeCalls fuel (lpnAt cmd.cdw1011) (fun _ => blankPage)
      (List.range cmd.nlb) io.ftl := by
    rw [calls, hop]
    rfl
  rw [writeZeroes] at h
  obtain ⟨⟨ok, ftl'⟩, hw, heq⟩ := Option.map_eq_some_iff.1 h
  obtain ⟨hst, rfl⟩ := Prod.mk.inj heq
  obtain rfl := ok_of_status (hst.trans hs)
  obtain ⟨hlist, hlt⟩ := writePages_ok hw
  refine ⟨?_, hcalls ▸ writePages_run hw, Or.inl (by rw [Command.transferLen, hop]; rfl)⟩
  rw [hcalls, hlist]
  exact .zeroes hop (fun i hi => hlt i (List.mem_range.2 hi)) [] fun x hx =>
    absurd hx List.not_mem_nil

theorem datasetMgmt_done (hop : cmd.opcode = 0x09) (he : xferError ≠ 0)
    (h : io.datasetMgmt b cmd xferError = some (status, io')) (hs : status = 0) :
    io.Done b cmd fuel io' := by
  have hlen : cmd.transferLen = cmd.nr * 16 := by rw [Command.transferLen, hop]; rfl
  have hcalls : io.calls b cmd fuel = trimCalls (io.gathered b cmd).range (List.range cmd.nr)
      io.ftl := by
    rw [calls, hop]
    rfl
  rw [datasetMgmt, ← hlen] at h
  dsimp only at h
  by_cases hmax : cmd.transferLen > maxIoSize
  · rw [if_pos hmax] at h
    rw [← (Prod.mk.inj (Option.some.inj h)).1] at hs
    exact absurd hs (by decide)
  rw [if_neg hmax] at h
  cases hfetch : (io.prpReadData b cmd cmd.transferLen).1 with
  | false =>
    rw [hfetch] at h
    exact absurd ((Prod.mk.inj (Option.some.inj h)).1.trans hs) he
  | true =>
    rw [hfetch] at h
    obtain ⟨⟨ok, ftl'⟩, ht, heq⟩ := Option.map_eq_some_iff.1 h
    obtain ⟨hst, rfl⟩ := Prod.mk.inj heq
    obtain rfl := ok_of_status (hst.trans hs)
    obtain ⟨hlist, hok⟩ := trimRanges_ok ht
    refine ⟨?_, hcalls ▸ trimRanges_run ht, Or.inr hfetch⟩
    rw [hcalls]
    exact hlist ▸ Carried.datasetMgmt hop fun r hr => hok r (List.mem_range.2 hr)

/-- What the back end has gathered are the data that the entries describe, if it finds the
    pages. -/
theorem Done.received (h : io.Done b cmd fuel io') (hb : b.Sound)
    (hf : b.Follows cmd.dptrPrp1 cmd.dptrPrp2 cmd.transferLen) {data : Buffer}
    (hdata : Describes io.guest cmd.dptrPrp1 cmd.dptrPrp2 cmd.transferLen data) :
    ∀ k < cmd.transferLen, io.gathered b cmd k = data k := by
  intro k hk
  rcases h.fetched with h0 | hfetch
  · omega
  · obtain ⟨loc, hloc, hdata⟩ := hdata
    rw [hdata k hk]
    exact Backend.prpReadData_located hloc hb hf hfetch k hk

end BlockIo

/-- The commands that change blocks. -/
def Command.Changes (cmd : Command) : Prop :=
  cmd.opcode = 0x01 ∨ cmd.opcode = 0x08 ∨ cmd.opcode = 0x09

namespace Executes

variable {fuel : ℕ}

theorem vfio_succeeds {v v' : Vfio} {cmd : Command} {cpl : Completion} (hop : cmd.Changes)
    (h : v.processIoCommand fuel cmd = some (cpl, v')) (hs : cpl.status = 0) :
    v.toBlockIo.Done Vfio.backend cmd fuel v'.toBlockIo := by
  rw [Vfio.processIoCommand] at h
  dsimp only at h
  rcases hop with hop | hop | hop
  all_goals
    rw [hop] at h
    obtain ⟨r, hr, heq⟩ := Option.map_eq_some_iff.1 h
    obtain ⟨rfl, rfl⟩ := Prod.mk.inj heq
  · exact BlockIo.write_done hop (by decide) hr hs
  · exact BlockIo.writeZeroes_done hop hr hs
  · exact BlockIo.datasetMgmt_done hop (by decide) hr hs

theorem vhost_succeeds {v v' : Vhost} {cmd : Command} {qid : ℕ} {cpl : Completion}
    (hop : cmd.Changes) (h : v.processIoCommand fuel cmd qid = some (cpl, v'))
    (hs : cpl.status = 0) : v.toBlockIo.Done Vhost.backend cmd fuel v'.toBlockIo := by
  rw [Vhost.processIoCommand] at h
  dsimp only at h
  rcases hop with hop | hop | hop
  all_goals
    rw [hop] at h
    obtain ⟨r, hr, heq⟩ := Option.map_eq_some_iff.1 h
    obtain ⟨rfl, rfl⟩ := Prod.mk.inj heq
  · exact BlockIo.write_done hop (by decide) hr hs
  · exact BlockIo.writeZeroes_done hop hr hs
  · exact BlockIo.datasetMgmt_done hop (by decide) hr hs

end Executes

/-! ### Connections -/

namespace Target

variable {t t' : Target} {i fuel : ℕ} {cmd : Command} {c : Capsule} {sent : List Sent}
  {cpl : Completion} {status : UInt16}

theorem collected_eq {k : ℕ} (hk : k < (t.conns i).dataTotal) : t.collected i k = t.writeBuf k := by
  rw [collected, bufferOf, List.getD_eq_getElem?_getD, Buffer.bytes, List.getElem?_map,
    List.getElem?_range hk]
  rfl

/-- A completion that is sent with success is one of a command that has succeeded. -/
theorem ok_of_sent {ok : Bool} (h : (if ok then 0x0000 else 0x0006) &&& 0x7FFF = (0 : UInt16)) :
    ok = true := by
  cases ok
  · exact absurd h (by decide)
  · rfl

/-- Using the data of a command, with success. -/
theorem perform_done (hw : t.Awaits i cmd) (hop : cmd.opcode = 0x01 ∨ cmd.opcode = 0x09)
    (h : t.perform i fuel = some (status, t')) (hs : status &&& 0x7FFF = 0) :
    Carried cmd (t.collected i) (t.performCalls i fuel) ∧
      Ftl.Run Machine.anyCall t.ftl (t.performCalls i fuel) t'.ftl := by
  rw [perform] at h
  dsimp only at h
  rw [performCalls, hw.opcode, hw.total]
  rw [hw.opcode, hw.total] at h
  rcases hop with hop | hop
  · have hlen : cmd.transferLen / pageSize = cmd.nlb := by
      rw [Command.transferLen, if_pos hop]
      exact Nat.mul_div_cancel _ (by decide)
    rw [if_pos hop, hlen, hw.slba hop] at h
    rw [if_neg (by rw [hop]; decide), hlen, hw.slba hop]
    obtain ⟨⟨ok, ftl'⟩, hwrite, heq⟩ := Option.map_eq_some_iff.1 h
    obtain ⟨rfl, rfl⟩ := Prod.mk.inj heq
    obtain rfl := ok_of_sent hs
    rw [collected, hw.total]
    obtain ⟨hlist, hlt⟩ := writePages_ok hwrite
    exact ⟨hlist ▸ .write hop fun i hi => hlt i (List.mem_range.2 hi), writePages_run hwrite⟩
  · have hlen : cmd.transferLen / 16 = cmd.nr := by
      rw [Command.transferLen, hop]
      exact Nat.mul_div_cancel _ (by decide)
    rw [if_neg (by rw [hop]; decide), if_pos hop, hlen] at h
    rw [if_pos hop, hlen]
    obtain ⟨⟨ok, ftl'⟩, htrim, heq⟩ := Option.map_eq_some_iff.1 h
    obtain ⟨rfl, rfl⟩ := Prod.mk.inj heq
    obtain rfl := ok_of_sent hs
    rw [collected, hw.total]
    obtain ⟨hlist, hok⟩ := trimRanges_ok htrim
    exact ⟨hlist ▸ .datasetMgmt hop fun r hr => hok r (List.mem_range.2 hr), trimRanges_run htrim⟩

/-- Completing a command, with success. -/
theorem complete_done (hw : t.Awaits i cmd) (hop : cmd.opcode = 0x01 ∨ cmd.opcode = 0x09)
    (h : t.complete i fuel = some (sent, t')) (hcpl : .capsuleResp i cpl ∈ sent)
    (hs : cpl.status = 0) :
    Carried cmd (t.collected i) (t.performCalls i fuel) ∧
      Ftl.Run Machine.anyCall t.ftl (t.performCalls i fuel) t'.ftl := by
  obtain ⟨⟨status, t₁⟩, hperform, heq⟩ := Option.map_eq_some_iff.1 h
  obtain ⟨rfl, rfl⟩ := Prod.mk.inj heq
  have hcpl' := List.mem_singleton.1 hcpl
  injection hcpl' with _ hcpl'
  rw [hcpl'] at hs
  have hs' : status &&& 0x7FFF = 0 := hs
  have hdone := perform_done hw hop hperform hs'
  exact hdone

theorem startTransfer_awaits (t : Target) (i : ℕ) (c : Capsule) :
    (t.startTransfer i c c.cmd.transferLen).Awaits i c.cmd := by
  rw [startTransfer, setConn]
  constructor
  · simp only [Function.update_self]
  · intro hop
    simp only [Function.update_self]
    rw [if_neg (by rw [hop]; decide)]
  · simp only [Function.update_self]

theorem receive_awaits {d : H2cData} (hw : t.Awaits i cmd) : (t.receive i d).Awaits i cmd := by
  obtain ⟨len, buf, heq⟩ := receive_eq t i d
  rw [heq, setConn]
  constructor
  · simp only [Function.update_self]
    exact hw.opcode
  · simp only [Function.update_self]
    exact hw.slba
  · simp only [Function.update_self]
    exact hw.total

/-- A command with data that is completed at once has come with all its data. -/
theorem transfer_done (h : t.transfer i fuel c c.cmd.transferLen = some (sent, t'))
    (hcpl : .capsuleResp i cpl ∈ sent) (hs : cpl.status = 0) :
    (t.startTransfer i c c.cmd.transferLen).complete i fuel = some (sent, t') ∧
      ∀ k < c.cmd.transferLen, ∃ buf, c.data = some buf ∧
        (t.startTransfer i c c.cmd.transferLen).collected i k = buf k := by
  rw [transfer] at h
  by_cases hmax : c.cmd.transferLen > tcpMaxIoSize
  · rw [if_pos hmax] at h
    obtain ⟨rfl, _⟩ := Prod.mk.inj (Option.some.inj h)
    have hcpl' := List.mem_singleton.1 hcpl
    injection hcpl' with _ hcpl'
    rw [hcpl'] at hs
    have hs' : (0x0006 : UInt16) &&& 0x7FFF = 0 := hs
    exact absurd hs' (by decide)
  rw [if_neg hmax] at h
  dsimp only at h
  by_cases hwait : ((t.startTransfer i c c.cmd.transferLen).conns i).dataLen < c.cmd.transferLen
  · rw [if_pos hwait] at h
    obtain ⟨rfl, _⟩ := Prod.mk.inj (Option.some.inj h)
    cases List.mem_singleton.1 hcpl
  rw [if_neg hwait] at h
  refine ⟨h, fun k hk => ?_⟩
  rw [collected_eq (by rw [(startTransfer_awaits t i c).total]; exact hk)]
  rw [startTransfer, setConn] at hwait ⊢
  dsimp only at hwait ⊢
  rw [Function.update_self] at hwait
  cases hdata : c.data with
  | none =>
    rw [hdata] at hwait
    exact absurd (Nat.zero_lt_of_lt hk) hwait
  | some buf =>
    rw [hdata] at hwait
    dsimp only at hwait ⊢
    refine ⟨buf, rfl, ?_⟩
    rw [Buffer.store, if_pos ⟨Nat.zero_le _, by omega⟩, Nat.sub_zero]

/-- A Write Zeroes, with success. The pages have been written by the controller already. -/
theorem zeroes_done (hq : (t.conns i).qid ≠ 0) (hop : c.cmd.opcode = 0x08)
    (h : t.executeCapsule i fuel c = some (sent, t')) (hcpl : .capsuleResp i cpl ∈ sent)
    (hs : cpl.status = 0) (buf : Buffer) :
    Carried c.cmd buf (t.zeroCalls fuel c.cmd) ∧
      Ftl.Run Machine.anyCall t.ftl (t.zeroCalls fuel c.cmd) t'.ftl := by
  rw [executeCapsule] at h
  dsimp only at h
  -- The controller writes the pages, and the front end writes them once more.
  have hne : ∀ op : UInt8, op ≠ 0x08 → c.cmd.opcode ≠ op := fun op hne heq =>
    hne (heq.symm.trans hop)
  rw [if_neg (hne _ (by decide)), if_neg fun hc => hne _ (by decide) hc.1,
    if_neg (hne _ (by decide)), if_neg (hne _ (by decide)), if_neg fun hc => hq hc.2, dispatch,
    if_neg hq] at h
  rw [zeroCalls]
  have hio : ∃ f : Bool → Completion, processIoCmd fuel t.ctrl t.ftl c.cmd =
      (writePages fuel (lpnAt c.cmd.cdw1011) (fun _ => blankPage) (List.range c.cmd.nlb)
        t.ftl).map fun r => (f r.1, r.2) := by
    rw [processIoCmd, if_pos hop]
    exact ⟨fun ok => Completion.setCompletionStatus _ (if ok then scSuccess else scInternalError),
      rfl⟩
  obtain ⟨f, hio⟩ := hio
  rw [hio] at h ⊢
  cases hfirst : writePages fuel (lpnAt c.cmd.cdw1011) (fun _ => blankPage)
      (List.range c.cmd.nlb) t.ftl with
  | none =>
    rw [hfirst] at h
    cases h
  | some r =>
    obtain ⟨first, ftl₁⟩ := r
    rw [hfirst] at h
    dsimp only [Option.map_some] at h ⊢
    rw [afterDispatch, if_pos ⟨hop, hq⟩] at h
    obtain ⟨⟨ok, ftl'⟩, hwrite, heq⟩ := Option.map_eq_some_iff.1 h
    obtain ⟨rfl, rfl⟩ := Prod.mk.inj heq
    have hcpl' := List.mem_singleton.1 hcpl
    injection hcpl' with _ hcpl'
    rw [hcpl'] at hs
    obtain rfl := ok_of_sent hs
    obtain ⟨hlist, hlt⟩ := writePages_ok hwrite
    refine ⟨?_, (writePages_run hfirst).append (writePages_run hwrite)⟩
    rw [hlist]
    exact .zeroes hop (fun i hi => hlt i (List.mem_range.2 hi)) _ fun x hx => mem_writeCalls hx

end Target

namespace Executes

variable {fuel : ℕ} {x : Execution}

/-- A command that a front end has executed with success has been carried out. -/
theorem succeeds (h : Executes fuel x) (hch : x.cmd.Changes) (hs : x.status = 0) : x.Succeeds := by
  cases h with
  | vfio v cmd cpl v' h =>
    have hdone := vfio_succeeds hch h hs
    exact ⟨hdone.carried, hdone.run, fun data hdata =>
      hdone.received Vfio.sound (Vfio.follows _ _ _) hdata⟩
  | vhost v cmd qid cpl v' h =>
    have hdone := vhost_succeeds hch h hs
    exact ⟨hdone.carried, hdone.run, fun data hdata =>
      hdone.received Vhost.sound (Vhost.follows hdata.2) hdata.1⟩
  | zeroes t i c sent t' cpl hq hop h hcpl =>
    obtain ⟨⟨sent', t₁⟩, hexec, heq⟩ := Option.map_eq_some_iff.1 h
    obtain ⟨rfl, rfl⟩ := Prod.mk.inj heq
    obtain ⟨hcarried, hrun⟩ := Target.zeroes_done hq hop hexec hcpl hs fun _ => 0
    refine ⟨hcarried, hrun, fun data _ k hk => ?_⟩
    rw [Command.transferLen, hop] at hk
    exact absurd hk (Nat.not_lt_zero k)
  | capsule t i c sent t' cpl hq hop h hcpl =>
    obtain ⟨⟨sent', t₁⟩, hexec, heq⟩ := Option.map_eq_some_iff.1 h
    obtain ⟨rfl, rfl⟩ := Prod.mk.inj heq
    have htotal : transferTotal (t.conns i).qid c.cmd = some c.cmd.transferLen := by
      rw [transferTotal, Command.transferLen]
      rcases hop with hop | hop
      · rw [if_pos hop, if_pos hop]
      · rw [hop, if_neg (by decide), if_pos ⟨rfl, hq⟩]
        rfl
    rw [Target.executeCapsule_transfer htotal] at hexec
    obtain ⟨hcomplete, hbuf⟩ := Target.transfer_done hexec hcpl hs
    obtain ⟨hcarried, hrun⟩ := Target.complete_done (Target.startTransfer_awaits t i c) hop hcomplete
      hcpl hs
    refine ⟨hcarried, hrun, fun data hdata k hk => ?_⟩
    obtain ⟨buf, hsome, heq⟩ := hbuf k hk
    exact heq.trans (hdata buf hsome k hk)
  | h2cData t i cmd d sent t' cpl hop hwaits h hcpl =>
    rw [Target.handleH2cData] at h
    dsimp only at h
    split_ifs at h
    · obtain ⟨rfl, _⟩ := Prod.mk.inj (Option.some.inj h)
      cases hcpl
    · obtain ⟨⟨sent', t₁⟩, hcomplete, heq⟩ := Option.map_eq_some_iff.1 h
      obtain ⟨rfl, rfl⟩ := Prod.mk.inj heq
      obtain ⟨hcarried, hrun⟩ := Target.complete_done (Target.receive_awaits hwaits) hop hcomplete
        hcpl hs
      rw [Target.receive_ftl] at hrun
      exact ⟨hcarried, hrun, fun data hdata => absurd hdata not_false⟩
    · obtain ⟨rfl, _⟩ := Prod.mk.inj (Option.some.inj h)
      cases hcpl

end Executes

/-! ## The law -/

namespace Execution

variable {x : Execution} {data : Buffer}

/-- With the data of the host, a command has changed just the named blocks if and only if its fields
    fit. -/
theorem Succeeds.exact_iff (h : x.Succeeds) (hdata : x.Received data) :
    x.Exact data ↔ x.cmd.Fits data := by
  have hcarried := h.carried
  generalize hcalls : x.calls = calls at hcarried
  cases hcarried with
  | write hop hlt =>
    have hne : x.cmd.opcode ≠ 0x09 := by rw [hop]; decide
    rw [exact_iff_of_writes hne hcalls (fun y hy => absurd hy List.not_mem_nil) hlt]
    refine ⟨fun hx => hx.1, fun hfits => ⟨hfits, fun i hi => ?_⟩⟩
    have hnlb : x.cmd.nlbField ≠ 65535 := by
      rw [Command.Fits, if_neg hne] at hfits
      exact hfits.1
    have hnlb' := x.cmd.nlb_eq
    rw [if_neg hnlb] at hnlb'
    rw [Received, Command.transferLen, if_pos hop] at hdata
    rw [Command.content, if_neg hne, if_neg (by rw [hop]; decide), Nat.add_sub_cancel_left,
      Buffer.page_congr hdata (by omega)]
  | zeroes hop hlt calls hother =>
    have hne : x.cmd.opcode ≠ 0x09 := by rw [hop]; decide
    rw [exact_iff_of_writes hne hcalls hother hlt]
    refine ⟨fun hx => hx.1, fun hfits => ⟨hfits, fun i _ => ?_⟩⟩
    rw [Command.content, if_neg hne, if_pos hop]
  | datasetMgmt hop hok =>
    rw [Received, Command.transferLen, if_neg (by rw [hop]; decide), if_pos hop] at hdata
    have hrange : ∀ r < x.cmd.nr, x.buf.range r = data.range r := fun r hr =>
      Buffer.range_congr hdata hr
    refine exact_iff_of_trims hop ?_ fun r hr => ?_
    · rw [hcalls]
      refine List.map_congr_left fun r hr => ?_
      rw [trimCall, trimCall, hrange r (List.mem_range.1 hr)]
    · rw [← hrange r hr]
      exact hok r hr

/-- A Write that has changed just the named blocks has used the data of the host. -/
theorem Succeeds.received_of_exact (h : x.Succeeds) (hne : x.cmd.opcode ≠ 0x09)
    (hx : x.Exact data) : x.Received data := by
  have hcarried := h.carried
  generalize hcalls : x.calls = calls at hcarried
  cases hcarried with
  | write hop hlt =>
    rw [exact_iff_of_writes hne hcalls (fun y hy => absurd hy List.not_mem_nil) hlt] at hx
    rw [Received, Command.transferLen, if_pos hop]
    refine fun k hk => Buffer.eq_of_pages (fun i hi => ?_) hk
    have hpage := hx.2 i (by have := x.cmd.nlb_eq; split_ifs at this <;> omega)
    rw [Command.content, if_neg hne, if_neg (by rw [hop]; decide),
      Nat.add_sub_cancel_left] at hpage
    exact (Option.some.inj hpage).symm
  | zeroes hop hlt calls hother =>
    intro k hk
    rw [Command.transferLen, hop] at hk
    exact absurd hk (Nat.not_lt_zero k)
  | datasetMgmt hop hok => exact absurd hop hne

end Execution

variable {fuel : ℕ} {x : Execution}

/-- A Write, a Write Zeroes or a Dataset Management that completes with success has changed just
    the blocks that it names, in the way it says, if and only if its fields fit, given that the data
    used are those of the host. They are if the host has given them in the way of the front end,
    and a Write with other data is not right. The FTL calls, which this is about, are a run of the
    FTL. If they are safe, what they say is what is read back. -/
theorem blocks_exact (h : Executes fuel x) (hch : x.cmd.Changes) (hs : x.status = 0)
    (data : Buffer) :
    (x.given data → x.Received data) ∧ (x.Received data → (x.Exact data ↔ x.cmd.Fits data)) ∧
      (x.cmd.opcode ≠ 0x09 → x.Exact data → x.Received data) ∧
      Ftl.Run Machine.anyCall x.before x.calls x.after ∧
      ∀ c, Ftl.Inv ∅ c x.before → Ftl.Run Ftl.Safe x.before x.calls x.after →
        x.after.ReadsBack (x.calls.foldl next c) := by
  have hx := h.succeeds hch hs
  exact ⟨hx.received data, hx.exact_iff, hx.received_of_exact, hx.run, fun c hc hrun =>
    (Ftl.run_inv hc hrun).readsBack⟩

/-- A target with a connection to an I/O queue. -/
def ioTarget : Target :=
  (Target.init (fun _ => 0) (Ftl.powerOn (fun _ => 99) fun _ => none).2).setConn 0
    { Conn.fresh with qid := 1 }

/-- A Dataset Management with one range, which is sent along. -/
def rangeCapsule (range : List UInt8) : Capsule :=
  ⟨{ Command.blank with opcode := 0x09 }, some (bufferOf range), 16⟩

/-- The range of the last block. -/
def lastRange : List UInt8 := [0, 0, 0, 0, 1, 0, 0, 0, 0x98, 0x59]

/-- The range of the first block. -/
def firstRange : List UInt8 := [0, 0, 0, 0, 1]

/-- A Dataset Management for the last block is right. -/
theorem blocks_exact_last : ∃ x : Execution, Executes 0 x ∧ x.cmd.nr = 1 ∧
    x.Exact (bufferOf lastRange) := by
  have h := @Executes.capsule 0 ioTarget 0 (rangeCapsule lastRange) _ _ _ (by decide) (Or.inr rfl)
    rfl (List.mem_singleton.2 rfl)
  have hlaw := blocks_exact h (Or.inr (Or.inr rfl)) rfl (bufferOf lastRange)
  refine ⟨_, h, rfl, (hlaw.2.1 (hlaw.1 fun buf hbuf k _ => ?_)).2 ?_⟩
  · rw [← Option.some.inj hbuf]
  · show ∀ r ≤ 0, _
    intro r hr
    obtain rfl := Nat.le_zero.1 hr
    exact ⟨Or.inr (by decide), Or.inl (by decide)⟩

/-- A Dataset Management for the first block deallocates the second one too. -/
theorem not_blocks_exact : ¬ ∀ (fuel : ℕ) (x : Execution) (data : Buffer), Executes fuel x →
    x.cmd.Changes → x.status = 0 → x.given data → x.Exact data := by
  intro hlaw
  have h := @Executes.capsule 0 ioTarget 0 (rangeCapsule firstRange) _ _ _ (by decide) (Or.inr rfl)
    rfl (List.mem_singleton.2 rfl)
  have hgiven : ∀ buf, (rangeCapsule firstRange).data = some buf →
      ∀ k < (rangeCapsule firstRange).cmd.transferLen, buf k = bufferOf firstRange k := by
    intro buf hbuf k _
    rw [← Option.some.inj hbuf]
  have hsucceeds := h.succeeds (Or.inr (Or.inr rfl)) rfl
  have hx := hlaw 0 _ (bufferOf firstRange) h (Or.inr (Or.inr rfl)) rfl hgiven
  have hfits := (hsucceeds.exact_iff (hsucceeds.received _ hgiven)).1 hx
  have hrange : ∀ r ≤ 0, _ := hfits
  -- The block after the range is on the device, and it is not named.
  rcases (hrange 0 (Nat.le_refl 0)).2 with hend | ⟨r, hr, _, hlt⟩
  · exact absurd hend (by decide)
  · obtain rfl := Nat.le_zero.1 hr
    exact absurd hlt (by decide)

end Nvme

end FtlFirmware
