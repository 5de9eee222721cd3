import FtlFirmware.Lib.Span
import FtlFirmware.Nvme.Controller
import Mathlib.Tactic.SplitIfs

/-!
# The configuration space of vhost-user

Through vhost-user, the guest reads and writes the registers of the controller as a configuration
space (`getConfig`, `setConfig`). The back end keeps a mirror of the registers, which it copies
bytes from and to. What it copies is recorded as spans of the areas involved (`ConfigArea`): the
mirror, the payload of the message, the variable for the value, and the reply.

Offsets and sizes are 32-bit numbers, and so are their sums and differences.

* `setTold`: the spans of a message that writes are those of the bytes that it changes, and of those
  that these depend on;
* `setFramed_iff`: which messages that write keep to the mirror and to the value;
* `config_within_iff`: when the spans are within their areas, and the bytes read the ones meant.
-/

namespace FtlFirmware

namespace Nvme

/-- The size of the mirror (`VHOST_USER_NVME_REG_SIZE`). -/
abbrev vhostRegSize : ℕ := 4096

/-- What is accessed for a message about the configuration space. -/
inductive ConfigArea
  | regs
  | payload
  | value
  | reply
  deriving DecidableEq

/-- A message about the configuration space (`vhost_user_config_t`): its payload, and the number of
    bytes of it that have been received. -/
structure ConfigMsg where
  payload : Buffer
  len : ℕ

namespace ConfigMsg

variable (msg : ConfigMsg)

def offset : UInt32 := msg.payload.le32 0

def size : UInt32 := msg.payload.le32 4

/-- The data, after the flags. -/
def data : Buffer := fun k => msg.payload (12 + k)

end ConfigMsg

/-- The sizes of the areas. The reply has room for the fields and for all of the mirror. -/
def ConfigArea.size (msg : ConfigMsg) : ConfigArea → ℕ
  | regs => vhostRegSize
  | payload => msg.len
  | value => 4
  | reply => 16 + vhostRegSize

/-- The reply to a message that reads (`vhost_user_config_t`). -/
structure ConfigReply where
  offset : UInt32
  size : UInt32
  data : List UInt8

/-- The bytes of the mirror, and the controller. -/
structure VhostRegs where
  regs : Buffer
  ctrl : Ctrl

namespace VhostRegs

variable (s : VhostRegs) (msg : ConfigMsg)

/-- The size that is read: that of the message, clipped (`handle_get_config`). -/
def getSize : UInt32 :=
  let size := if msg.size > 4096 then 4096 else msg.size
  if msg.offset + size > 4096 then 4096 - msg.offset else size

/-- The accesses of a message that reads: its fields, the copy, and the reply being sent. -/
def getSpans : List (Span ConfigArea) :=
  [⟨.payload, 0, 8⟩, ⟨.regs, msg.offset.toNat, (getSize msg).toNat⟩,
    ⟨.reply, 12, (getSize msg).toNat⟩, ⟨.reply, 0, (16 + getSize msg).toNat⟩]

/-- Reads registers (`handle_get_config`). -/
def getConfig : List (Span ConfigArea) × ConfigReply :=
  (getSpans msg, ⟨msg.offset, getSize msg,
    (List.range (getSize msg).toNat).map fun k => s.regs (msg.offset.toNat + k)⟩)

/-- The registers of the controller after a register has been written (`handle_reg_write`, switch).
    -/
def writeRegs (regs : Regs) (offset size value : UInt32) : Regs :=
  let low : UInt64 := 0xFFFFFFFF
  if offset = 0x14 then
    { regs with
      cc := value
      csts := if value &&& 0x01 ≠ 0 then regs.csts ||| 0x01 else regs.csts &&& ~~~0x01 }
  else if offset = 0x24 then { regs with aqa := value }
  else if offset = 0x28 then
    -- The low halves are taken over for accesses of four bytes only.
    if size = 4 then { regs with asq := (regs.asq &&& ~~~low) ||| value.toUInt64 } else regs
  else if offset = 0x2C then { regs with asq := (regs.asq &&& low) ||| value.toUInt64 <<< 32 }
  else if offset = 0x30 then
    if size = 4 then { regs with acq := (regs.acq &&& ~~~low) ||| value.toUInt64 } else regs
  else if offset = 0x34 then { regs with acq := (regs.acq &&& low) ||| value.toUInt64 <<< 32 }
  else regs

/-- Rings a doorbell, if the offset is one of a doorbell. -/
def ringDoorbell (ctrl : Ctrl) (offset value : UInt32) : Option Ctrl :=
  if 0x1000 ≤ offset then
    let doorbell := (offset - 0x1000).toNat
    if doorbell % 8 = 0 then ctrl.sqDoorbell (doorbell / 8 % 2 ^ 16) value
    else ctrl.cqDoorbell (doorbell / 8 % 2 ^ 16) value
  else some ctrl

/-- Whether a value is copied to the mirror. -/
def Mirrored (offset size : UInt32) : Prop := offset + size ≤ 4096

instance (offset size : UInt32) : Decidable (Mirrored offset size) :=
  inferInstanceAs (Decidable (_ ≤ _))

/-- The accesses of a register write. -/
def regWriteSpans (offset size : UInt32) : List (Span ConfigArea) :=
  (if Mirrored offset size then [⟨.value, 0, size.toNat⟩, ⟨.regs, offset.toNat, size.toNat⟩]
    else []) ++
  if offset = 0x14 then [⟨.regs, 0x1C, 1⟩] else []

/-- The bytes at the address of a value: its own four, and what is beyond it in memory. -/
def valueMemory (value : UInt32) (beyond : Buffer) : Buffer := fun k =>
  if k < 4 then valueBytes value k else beyond k

/-- Writes a register (`handle_reg_write`). What is beyond the value in memory is given. -/
def handleRegWrite (beyond : Buffer) (offset size value : UInt32) :
    List (Span ConfigArea) × Option VhostRegs :=
  let regs := if Mirrored offset size then
      s.regs.store offset.toNat size.toNat (valueMemory value beyond)
    else s.regs
  let regs := if offset = 0x14 then
      Function.update regs 0x1C (if value &&& 0x01 ≠ 0 then 0x01 else 0x00)
    else regs
  let ctrl := { s.ctrl with regs := writeRegs s.ctrl.regs offset size value }
  (regWriteSpans offset size, (ringDoorbell ctrl offset value).map fun ctrl => ⟨regs, ctrl⟩)

/-- The value that a message writes: of a message with more than four bytes, none is taken. -/
def setValue : UInt32 :=
  if msg.size ≤ 4 then (bufferOf (msg.data.bytes msg.size.toNat)).le32 0 else 0

/-- The accesses of a message that writes, to its payload and to the value. -/
def setSpans : List (Span ConfigArea) :=
  ⟨.payload, 0, 8⟩ :: if msg.size ≤ 4 then
    [⟨.payload, 12, msg.size.toNat⟩, ⟨.value, 0, msg.size.toNat⟩]
  else []

/-- Writes registers (`handle_set_config`). What is beyond the value in memory is given. -/
def setConfig (beyond : Buffer) : List (Span ConfigArea) × Option VhostRegs :=
  let r := s.handleRegWrite beyond msg.offset msg.size (setValue msg)
  (setSpans msg ++ r.1, r.2)

end VhostRegs

open FtlFirmware.Span VhostRegs

variable {s : VhostRegs} {msg : ConfigMsg}

/-- In the mirror, the size that is read is the one asked for, or as much of it as the mirror has.
    -/
theorem getSize_toNat (h : msg.offset.toNat ≤ vhostRegSize) :
    (getSize msg).toNat = min msg.size.toNat (vhostRegSize - msg.offset.toNat) := by
  have hsize := msg.size.toNat_lt
  simp only [vhostRegSize] at h ⊢
  simp only [getSize, GT.gt, UInt32.lt_iff_toNat_lt]
  split_ifs <;>
    simp only [UInt32.toNat_add, UInt32.toNat_sub, UInt32.toNat_ofNat] at * <;> omega

/-- Beyond the mirror, what is read reaches out of it: the size is clipped to the distance from the
    offset to the end of the mirror, as a 32-bit number. -/
theorem lt_offset_add_getSize (h : vhostRegSize < msg.offset.toNat) :
    (getSize msg).toNat ≠ 0 ∧ vhostRegSize < msg.offset.toNat + (getSize msg).toNat := by
  have hoffset := msg.offset.toNat_lt
  simp only [vhostRegSize] at h ⊢
  simp only [getSize, GT.gt, UInt32.lt_iff_toNat_lt]
  split_ifs <;>
    simp only [UInt32.toNat_add, UInt32.toNat_sub, UInt32.toNat_ofNat] at * <;> omega

/-- A message that reads stays within the areas if and only if it begins in the mirror. -/
theorem getSpans_within_iff :
    AllWithin (ConfigArea.size msg) (getSpans msg) ↔
      8 ≤ msg.len ∧ msg.offset.toNat ≤ vhostRegSize := by
  simp only [getSpans, allWithin_cons, allWithin_nil, and_true, within_iff, ConfigArea.size]
  constructor
  · rintro ⟨hfields, hregs, _⟩
    refine ⟨by omega, Nat.le_of_not_lt fun hlt => ?_⟩
    obtain ⟨hpos, hout⟩ := lt_offset_add_getSize hlt
    exact hregs.elim hpos (Nat.not_le_of_lt hout)
  · rintro ⟨hfields, hle⟩
    have hsize := getSize_toNat hle
    simp only [UInt32.toNat_add, UInt32.toNat_ofNat]
    omega

/-- A register write stays within the areas if and only if what it copies to the mirror is at most
    the value, and ends in the mirror. -/
theorem regWriteSpans_within_iff {offset size : UInt32} :
    AllWithin (ConfigArea.size msg) (regWriteSpans offset size) ↔
      (Mirrored offset size → size.toNat ≤ 4 ∧ offset.toNat + size.toNat ≤ vhostRegSize) := by
  have hcc : AllWithin (ConfigArea.size msg)
      (if offset = 0x14 then [⟨.regs, 0x1C, 1⟩] else []) := by
    split_ifs <;> simp [within_iff, ConfigArea.size, vhostRegSize]
  rw [regWriteSpans, allWithin_append, and_iff_left hcc]
  by_cases h : Mirrored offset size
  · rw [if_pos h, forall_prop_of_true h]
    simp only [allWithin_cons, allWithin_nil, and_true, within_iff, ConfigArea.size]
    rw [Mirrored, UInt32.le_iff_toNat_le, UInt32.toNat_add] at h
    -- Nothing is copied if the size is zero, and the sum does not wrap then.
    have hoffset := offset.toNat_lt
    simp only [UInt32.toNat_ofNat, vhostRegSize] at h ⊢
    omega
  · simp [h]

theorem setSpans_within_iff :
    AllWithin (ConfigArea.size msg) (setSpans msg) ↔
      8 ≤ msg.len ∧ (msg.size.toNat ≤ 4 → msg.size = 0 ∨ 12 + msg.size.toNat ≤ msg.len) := by
  rw [setSpans, allWithin_cons, ← UInt32.toNat_inj]
  refine and_congr (by simp [within_iff, ConfigArea.size]) ?_
  split_ifs with h <;> rw [UInt32.le_iff_toNat_le] at h
  · simp only [allWithin_cons, allWithin_nil, and_true, within_iff, ConfigArea.size]
    exact ⟨fun hin _ => hin.1, fun hin => ⟨hin h, Or.inr (by simpa using h)⟩⟩
  · exact iff_of_true allWithin_nil fun hle => absurd hle h

/-! ### What the spans tell

The spans of a message that writes are those of all the bytes of the mirror that are changed, and of
all the bytes of the payload and of the value that these depend on. -/

/-- What a message that writes changes, and what it depends on. -/
structure SetTold (s : VhostRegs) (msg : ConfigMsg) (beyond : Buffer) : Prop where
  keeps : ∀ s', (s.setConfig msg beyond).2 = some s' → ∀ k,
    ¬ Covers (s.setConfig msg beyond).1 .regs k → s'.regs k = s.regs k
  payload : ∀ msg' : ConfigMsg,
    (∀ k, Covers (s.setConfig msg beyond).1 .payload k → msg'.payload k = msg.payload k) →
      s.setConfig msg' beyond = s.setConfig msg beyond
  value : ∀ beyond', (∀ k ≥ 4, Covers (s.setConfig msg beyond).1 .value k → beyond' k = beyond k) →
    s.setConfig msg beyond' = s.setConfig msg beyond

/-- Whatever the mirror, a message that writes changes no byte beyond it, and takes no byte beyond
    the value. -/
structure SetFramed (msg : ConfigMsg) : Prop where
  keeps : ∀ (s s' : VhostRegs) beyond, (s.setConfig msg beyond).2 = some s' →
    ∀ k ≥ vhostRegSize, s'.regs k = s.regs k
  value : ∀ (s : VhostRegs) beyond beyond', s.setConfig msg beyond' = s.setConfig msg beyond

section

variable {beyond beyond' : Buffer} {msg' : ConfigMsg} {k : ℕ}

/-- The bytes of the mirror after a message that writes. -/
def setRegs (s : VhostRegs) (msg : ConfigMsg) (beyond : Buffer) : Buffer :=
  let regs := if Mirrored msg.offset msg.size then
      s.regs.store msg.offset.toNat msg.size.toNat (valueMemory (setValue msg) beyond)
    else s.regs
  if msg.offset = 0x14 then
    Function.update regs 0x1C (if setValue msg &&& 0x01 ≠ 0 then 0x01 else 0x00)
  else regs

/-- The controller after a message that writes. -/
def setCtrl (s : VhostRegs) (msg : ConfigMsg) : Option Ctrl :=
  ringDoorbell { s.ctrl with regs := writeRegs s.ctrl.regs msg.offset msg.size (setValue msg) }
    msg.offset (setValue msg)

theorem setConfig_eq : s.setConfig msg beyond =
    (setSpans msg ++ regWriteSpans msg.offset msg.size,
      (setCtrl s msg).map fun ctrl => ⟨setRegs s msg beyond, ctrl⟩) :=
  rfl

/-- The bytes that a message writes to are those of its spans. -/
theorem setRegs_keeps (h : ¬ Covers (s.setConfig msg beyond).1 .regs k) :
    setRegs s msg beyond k = s.regs k := by
  rw [setConfig_eq, covers_append, regWriteSpans, covers_append, not_or, not_or] at h
  obtain ⟨-, hcopy, hcsts⟩ := h
  have hstored : (if Mirrored msg.offset msg.size then
      s.regs.store msg.offset.toNat msg.size.toNat (valueMemory (setValue msg) beyond)
      else s.regs) k = s.regs k := by
    split_ifs at hcopy ⊢
    · exact if_neg fun hk => hcopy (by simp [hk])
    · rfl
  rw [setRegs]
  by_cases hcc : msg.offset = 0x14
  · rw [if_pos hcc] at hcsts ⊢
    have hne : k ≠ 0x1C := fun heq => hcsts (by simp [heq])
    rw [Function.update_of_ne hne, hstored]
  · rw [if_neg hcc, hstored]

/-- A message with the same bytes at the places of the spans writes the same. -/
theorem setConfig_payload
    (h : ∀ k, Covers (s.setConfig msg beyond).1 .payload k → msg'.payload k = msg.payload k) :
    s.setConfig msg' beyond = s.setConfig msg beyond := by
  rw [setConfig_eq] at h
  have hfields (k : ℕ) (hk : k < 8) : msg'.payload k = msg.payload k :=
    h k (by simp [setSpans, hk])
  have hoffset : msg'.offset = msg.offset := Buffer.le32_congr fun i hi => hfields _ (by omega)
  have hsize : msg'.size = msg.size := Buffer.le32_congr fun i hi => hfields _ (by omega)
  have hvalue : setValue msg' = setValue msg := by
    rw [setValue, setValue, hsize]
    by_cases hle : msg.size ≤ 4
    · rw [if_pos hle, if_pos hle]
      have hdata : msg'.data.bytes msg.size.toNat = msg.data.bytes msg.size.toNat := by
        refine List.map_congr_left fun k hk => h _ ?_
        simp [setSpans, hle, List.mem_range.1 hk]
      rw [hdata]
    · rw [if_neg hle, if_neg hle]
  rw [setConfig_eq, setConfig_eq, setSpans, setSpans, setRegs, setRegs, setCtrl, setCtrl, hoffset,
    hsize, hvalue]

/-- What is beyond the value does not matter, but at the places of the spans. -/
theorem setConfig_value
    (h : ∀ k ≥ 4, Covers (s.setConfig msg beyond).1 .value k → beyond' k = beyond k) :
    s.setConfig msg beyond' = s.setConfig msg beyond := by
  have hregs : setRegs s msg beyond' = setRegs s msg beyond := by
    rw [setRegs, setRegs]
    by_cases hmirrored : Mirrored msg.offset msg.size
    · rw [if_pos hmirrored, if_pos hmirrored, Buffer.store_congr fun k hk => ?_]
      rw [valueMemory, valueMemory]
      split_ifs with hlt
      · rfl
      · refine h k (Nat.le_of_not_lt hlt) ?_
        rw [setConfig_eq]
        simp [regWriteSpans, hmirrored, hk]
    · rw [if_neg hmirrored, if_neg hmirrored]
  rw [setConfig_eq, setConfig_eq, hregs]

theorem setTold (s : VhostRegs) (msg : ConfigMsg) (beyond : Buffer) : SetTold s msg beyond where
  keeps s' h k hk := by
    obtain ⟨ctrl, -, rfl⟩ := Option.map_eq_some_iff.1 h
    exact setRegs_keeps hk
  payload _ h := setConfig_payload h
  value _ h := setConfig_value h

/-- A controller whose queues all exist. -/
def queuesCreated : Ctrl :=
  { Ctrl.init fun _ => 0 with ioSq := Sq.create 1 1 1, ioCq := Cq.create 1 1 1 }

/-- With it, a message that writes is executed. -/
theorem exists_setConfig (msg : ConfigMsg) (regs beyond : Buffer) :
    ∃ ctrl, (setConfig ⟨regs, queuesCreated⟩ msg beyond).2 =
      some ⟨setRegs ⟨regs, queuesCreated⟩ msg beyond, ctrl⟩ := by
  obtain ⟨ctrl, hctrl⟩ : ∃ ctrl, setCtrl ⟨regs, queuesCreated⟩ msg = some ctrl := by
    rw [setCtrl, ringDoorbell]
    dsimp only
    split_ifs
    · rw [Ctrl.sqDoorbell]
      split_ifs <;> exact ⟨_, rfl⟩
    · rw [Ctrl.cqDoorbell]
      split_ifs <;> exact ⟨_, rfl⟩
    · exact ⟨_, rfl⟩
  exact ⟨ctrl, by rw [setConfig_eq, hctrl]; rfl⟩

/-- A byte that a message copies is one of the value, or is beyond it. -/
theorem setRegs_copied (hmirrored : Mirrored msg.offset msg.size) (hk : k < msg.size.toNat)
    (hcsts : msg.offset = 0x14 → msg.offset.toNat + k ≠ 0x1C) :
    setRegs s msg beyond (msg.offset.toNat + k) = valueMemory (setValue msg) beyond k := by
  have hstored : s.regs.store msg.offset.toNat msg.size.toNat (valueMemory (setValue msg) beyond)
      (msg.offset.toNat + k) = valueMemory (setValue msg) beyond k := by
    rw [Buffer.store, if_pos (by omega), Nat.add_sub_cancel_left]
  rw [setRegs, if_pos hmirrored]
  by_cases hcc : msg.offset = 0x14
  · rw [if_pos hcc, Function.update_of_ne (hcsts hcc), hstored]
  · rw [if_neg hcc, hstored]

/-- Which messages that write keep to the mirror and to the value. -/
theorem setFramed_iff : SetFramed msg ↔ ((msg.offset + msg.size).toNat ≤ vhostRegSize →
    msg.size.toNat ≤ 4 ∧ msg.offset.toNat + msg.size.toNat ≤ vhostRegSize) := by
  constructor
  · intro h hle
    have hmirrored : Mirrored msg.offset msg.size := hle
    have hsize : msg.size.toNat ≤ 4 := by
      by_contra hlt
      -- the fifth byte is the first one beyond the value
      obtain ⟨ctrl, hset⟩ := exists_setConfig msg (bufferOf []) fun _ => 0
      obtain ⟨ctrl', hset'⟩ := exists_setConfig msg (bufferOf []) fun _ => 1
      have hsame := congrArg Prod.snd (h.value ⟨bufferOf [], queuesCreated⟩ (fun _ => 0) fun _ => 1)
      rw [hset, hset', Option.some.injEq, VhostRegs.mk.injEq] at hsame
      have hcsts : msg.offset = 0x14 → msg.offset.toNat + 4 ≠ 0x1C := fun hcc => by
        rw [hcc]
        decide
      have hbyte := congrFun hsame.1 (msg.offset.toNat + 4)
      rw [setRegs_copied hmirrored (Nat.lt_of_not_le hlt) hcsts,
        setRegs_copied hmirrored (Nat.lt_of_not_le hlt) hcsts] at hbyte
      rw [valueMemory, valueMemory, if_neg (by decide), if_neg (by decide)] at hbyte
      exact absurd hbyte (by decide)
    refine ⟨hsize, ?_⟩
    by_contra hlt
    have hoffset := msg.offset.toNat_lt
    rw [UInt32.toNat_add] at hle
    simp only [vhostRegSize] at hle hlt
    -- the sum wraps around, and the first byte is far beyond the mirror
    have hcsts : msg.offset = 0x14 → msg.offset.toNat + 0 ≠ 0x1C := fun hcc => by
      rw [hcc]
      decide
    have hkept (b : UInt8) : valueMemory (setValue msg) (bufferOf []) 0 = b := by
      obtain ⟨ctrl, hset⟩ := exists_setConfig msg (fun _ => b) (bufferOf [])
      rw [← setRegs_copied (s := ⟨fun _ => b, queuesCreated⟩) hmirrored (by omega) hcsts]
      exact h.keeps _ _ _ hset (msg.offset.toNat + 0) (by simp only [vhostRegSize]; omega)
    exact absurd ((hkept 0).symm.trans (hkept 1)) (by decide)
  · intro h
    have hspans : AllWithin (ConfigArea.size msg) (regWriteSpans msg.offset msg.size) :=
      regWriteSpans_within_iff.2 h
    constructor
    · intro s s' beyond hs' k hk
      refine (setTold s msg beyond).keeps s' hs' k fun hcovers => ?_
      rw [setConfig_eq, covers_append] at hcovers
      refine Nat.not_lt.2 hk (hspans.lt_of_covers (hcovers.resolve_left fun h => ?_))
      rw [setSpans] at h
      split_ifs at h <;> simp at h
    · intro s beyond beyond'
      refine (setTold s msg beyond).value beyond' fun k hk hcovers => ?_
      rw [setConfig_eq, covers_append] at hcovers
      refine absurd hk (Nat.not_le.2 ?_)
      rcases hcovers with h | h
      · rw [setSpans] at h
        split_ifs at h with hle
        · rw [UInt32.le_iff_toNat_le] at hle
          simp only [covers_cons, not_covers_nil, reduceCtorEq, false_and, true_and, false_or,
            or_false, Nat.zero_add] at h
          exact Nat.lt_of_lt_of_le h.2 hle
        · simp at h
      · exact hspans.lt_of_covers h

end

/-- What a message about the configuration space accesses is within the areas, and what is read in
    the mirror are the bytes asked for, if and only if, once the message has all its fields: a
    message that reads begins in the mirror; the data of a message that writes at most four bytes
    are all there, and a write that ends in the mirror, by the 32-bit sum of its offset and its
    size, is of at most four bytes and ends there by the sum itself. The spans of a write tell all
    that is changed, and all that this depends on; and so it is, whatever the mirror, with the bytes
    themselves. -/
theorem config_within_iff (s : VhostRegs) (msg : ConfigMsg) (beyond : Buffer) :
    ((AllWithin (ConfigArea.size msg) (s.getConfig msg).1 ∧
      (msg.offset.toNat + msg.size.toNat ≤ vhostRegSize → (s.getConfig msg).2 =
        ⟨msg.offset, msg.size,
          (List.range msg.size.toNat).map fun k => s.regs (msg.offset.toNat + k)⟩)) ↔
      8 ≤ msg.len ∧ msg.offset.toNat ≤ vhostRegSize) ∧
    SetTold s msg beyond ∧
    (AllWithin (ConfigArea.size msg) (s.setConfig msg beyond).1 ↔
      8 ≤ msg.len ∧
      (msg.size.toNat ≤ 4 → msg.size = 0 ∨ 12 + msg.size.toNat ≤ msg.len) ∧
      ((msg.offset + msg.size).toNat ≤ vhostRegSize →
        msg.size.toNat ≤ 4 ∧ msg.offset.toNat + msg.size.toNat ≤ vhostRegSize)) ∧
    (SetFramed msg ↔ ((msg.offset + msg.size).toNat ≤ vhostRegSize →
      msg.size.toNat ≤ 4 ∧ msg.offset.toNat + msg.size.toNat ≤ vhostRegSize)) := by
  refine ⟨?_, setTold s msg beyond, ?_, setFramed_iff⟩
  · rw [← getSpans_within_iff]
    refine and_iff_left fun hle => ?_
    have hsize : getSize msg = msg.size := by
      rw [← UInt32.toNat_inj, getSize_toNat (by omega)]
      omega
    rw [getConfig, hsize]
  · rw [setConfig_eq, allWithin_append, setSpans_within_iff, regWriteSpans_within_iff, and_assoc]
    rfl

/-- A message with zeros after its offset and its size. -/
def configMsg (offset size : UInt32) : ConfigMsg :=
  ⟨bufferOf (wordBytes offset ++ wordBytes size), 16⟩

/-- A read of no bytes just beyond the mirror, and a write of four bytes up to the end of the 32-bit
    numbers, both reach out of the mirror, and a write of eight bytes reaches out of the value. -/
theorem config_not_within :
    ¬ AllWithin (ConfigArea.size (configMsg 4097 0))
      (getConfig ⟨fun _ => 0, Ctrl.init fun _ => 0⟩ (configMsg 4097 0)).1 ∧
    ¬ AllWithin (ConfigArea.size (configMsg 0xFFFFFFFE 4))
      (setConfig ⟨fun _ => 0, Ctrl.init fun _ => 0⟩ (configMsg 0xFFFFFFFE 4) fun _ => 0).1 ∧
    ¬ SetFramed (configMsg 0xFFFFFFFE 4) ∧ ¬ SetFramed (configMsg 0 8) := by
  refine ⟨?_, ?_, ?_, ?_⟩
  · rw [getConfig, getSpans_within_iff]
    decide
  · rw [setConfig_eq, allWithin_append, regWriteSpans_within_iff]
    exact fun h => absurd (h.2 (by decide)).2 (by decide)
  · exact fun h => absurd (setFramed_iff.1 h (by decide)).2 (by decide)
  · exact fun h => absurd (setFramed_iff.1 h (by decide)).1 (by decide)

end Nvme

end FtlFirmware
