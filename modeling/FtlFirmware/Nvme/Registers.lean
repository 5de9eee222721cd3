import FtlFirmware.Nvme.Bar
import FtlFirmware.Nvme.Prp
import FtlFirmware.Nvme.Routing
import Mathlib.Tactic.IntervalCases

/-!
# The registers of vfio-user

The guest writes BAR 0 in any way it likes (`barMachine`). What it has last written to each byte is
kept as a ghost (`BarWork.written`). The bytes of the device and the registers of the controller are
two copies of this, each of which misses some writes: those of the device have what the guest has
written even where it must not write, and the controller takes a word only from a piece that begins
where the word does.

* `registers_faithful_iff`: the two copies are right (`RegsFaithful`) as long as all writes are
  *careful* (`Careful`), and no longer.
-/

namespace FtlFirmware

namespace Nvme

/-! ## Words and bytes -/

theorem valueBytes_le32 (buf : Buffer) (k : ℕ) {i : ℕ} (h : i < 4) :
    valueBytes (buf.le32 k) i = buf (k + i) := by
  apply UInt8.eq_of_toBitVec_eq
  ext j hj
  interval_cases i <;> simp [valueBytes, Buffer.le32] <;> grind

/-- A word has the bytes that it is made of. -/
theorem le32_inj {buf buf' : Buffer} {k j : ℕ} :
    buf.le32 k = buf'.le32 j ↔ ∀ i < 4, buf (k + i) = buf' (j + i) := by
  refine ⟨fun h i hi => ?_, Buffer.le32_congr⟩
  rw [← valueBytes_le32 buf k hi, h, valueBytes_le32 buf' j hi]

theorem le32_and_one (buf : Buffer) (k : ℕ) : (buf.le32 k &&& 1).toUInt8 = buf k &&& 1 := by
  have h := valueBytes_le32 buf k (Nat.succ_pos 3)
  rw [valueBytes, Nat.mul_zero, show UInt32.ofNat 0 = 0 from rfl, UInt32.shiftRight_zero] at h
  rw [UInt32.toUInt8_and, h]
  rfl

namespace Regs

variable (regs : Regs)

/-- The words that the guest may write: the configuration, the sizes of the admin queues, and the
    two halves of each of their addresses. -/
def wordOffsets : List ℕ := [0x14, 0x24, 0x28, 0x2C, 0x30, 0x34]

/-- The word at an offset. -/
def word (offset : ℕ) : UInt32 :=
  if offset = 0x14 then regs.cc
  else if offset = 0x24 then regs.aqa
  else if offset = 0x28 then regs.asq.toUInt32
  else if offset = 0x2C then (regs.asq >>> 32).toUInt32
  else if offset = 0x30 then regs.acq.toUInt32
  else (regs.acq >>> 32).toUInt32

end Regs

section

variable (x : UInt64) (value : UInt32)

theorem low_setLow : ((x &&& ~~~0xFFFFFFFF) ||| value.toUInt64).toUInt32 = value := by
  apply UInt32.eq_of_toBitVec_eq
  ext j hj
  simp

theorem high_setLow :
    (((x &&& ~~~0xFFFFFFFF) ||| value.toUInt64) >>> 32).toUInt32 = (x >>> 32).toUInt32 := by
  have hmask : ∀ j < 32, (18446744069414584320#64).getLsbD (32 + j) = true := by decide
  apply UInt32.eq_of_toBitVec_eq
  ext j hj
  simp [hmask j hj]

theorem low_setHigh :
    ((x &&& (0xFFFFFFFF : UInt64)) ||| value.toUInt64 <<< 32).toUInt32 = x.toUInt32 := by
  have hmask : ∀ j (h : j < 32), (4294967295#32)[j] = true := by decide
  apply UInt32.eq_of_toBitVec_eq
  ext j hj
  simp [hmask j hj]

theorem high_setHigh :
    (((x &&& (0xFFFFFFFF : UInt64)) ||| value.toUInt64 <<< 32) >>> 32).toUInt32 = value := by
  have hmask : ∀ j < 32, (4294967295#64).getLsbD (32 + j) = false := by decide
  apply UInt32.eq_of_toBitVec_eq
  ext j hj
  simp [hmask j hj]
  grind

theorem low_le64 (buf : Buffer) (k : ℕ) : (buf.le64 k).toUInt32 = buf.le32 k := by
  rw [Buffer.le64]
  apply UInt32.eq_of_toBitVec_eq
  ext j hj
  simp

theorem high_le64 (buf : Buffer) (k : ℕ) : (buf.le64 k >>> 32).toUInt32 = buf.le32 (k + 4) := by
  rw [Buffer.le64]
  apply UInt32.eq_of_toBitVec_eq
  ext j hj
  simp
  grind

/-- A number of 64 bits is the one at an offset if and only if its two halves are the words there.
    -/
theorem eq_le64_iff {x : UInt64} {buf : Buffer} {k : ℕ} :
    x = buf.le64 k ↔ x.toUInt32 = buf.le32 k ∧ (x >>> 32).toUInt32 = buf.le32 (k + 4) := by
  constructor
  · rintro rfl
    exact ⟨low_le64 _ _, high_le64 _ _⟩
  · rintro ⟨hlow, hhigh⟩
    rw [← low_le64] at hlow
    rw [← high_le64] at hhigh
    have hlow' := congrArg UInt32.toNat hlow
    have hhigh' := congrArg UInt32.toNat hhigh
    have hx := x.toNat_lt
    have hy := (buf.le64 k).toNat_lt
    simp only [UInt64.toNat_toUInt32, UInt64.toNat_shiftRight, Nat.shiftRight_eq_div_pow,
      show UInt64.toNat 32 % 64 = 32 from rfl] at hlow' hhigh'
    refine UInt64.toNat_inj.1 ?_
    omega

end

namespace Regs

variable {regs : Regs} {offset : ℕ} {value : UInt32}

theorem wordOffsets_le : ∀ o ∈ wordOffsets, o ≤ 0x34 := by decide

/-- Writing a word changes it, and no other one. -/
theorem word_write {o : ℕ} (ho : o ∈ wordOffsets) :
    (regs.write offset value).word o = if o = offset then value else regs.word o := by
  simp only [wordOffsets, List.mem_cons, List.not_mem_nil, or_false] at ho
  rcases ho with rfl | rfl | rfl | rfl | rfl | rfl
  all_goals
    rw [write]
    split_ifs <;> subst_vars <;>
      simp only [word, low_setLow, high_setLow, low_setHigh, high_setHigh, reduceIte,
        Nat.reduceEqDiff, not_true_eq_false] at *

theorem and_one_cases (x : UInt32) : x &&& 1 = 0 ∨ x &&& 1 = 1 := by
  have hmod : (x &&& 1).toNat = x.toNat % 2 := by
    rw [UInt32.toNat_and]
    exact Nat.and_one_is_mod _
  rcases Nat.mod_two_eq_zero_or_one x.toNat with h | h
  · exact Or.inl (UInt32.toNat_inj.1 (hmod.trans h))
  · exact Or.inr (UInt32.toNat_inj.1 (hmod.trans h))

/-- The status follows the configuration. -/
def Ready (regs : Regs) : Prop := regs.csts = regs.cc &&& 1

theorem Ready.write (h : regs.Ready) : (regs.write offset value).Ready := by
  rw [Ready] at h
  rw [Regs.write]
  split_ifs with hcc hen
  · rw [Ready]
    dsimp only
    rw [(and_one_cases value).resolve_left hen, h]
    rcases and_one_cases regs.cc with hcc | hcc
    all_goals
      rw [hcc]
      rfl
  · rw [Ready]
    dsimp only
    rw [not_not.1 hen, h, UInt32.and_assoc]
    exact UInt32.and_zero
  all_goals exact h

end Regs

/-! ## The pieces of a write -/

/-- A piece of a write: the registers of the controller. -/
theorem Vfio.handleNvmeRegWrite_write (v : Vfio) (offset : ℕ) (value : UInt32) :
    (v.handleNvmeRegWrite offset value).ctrl.regs = v.ctrl.regs.write offset value := by
  rw [handleNvmeRegWrite, Regs.write]
  split_ifs
  all_goals rfl

namespace VfioDevice

variable {d d' : VfioDevice} {offset : UInt32} {data : Buffer}

theorem valueBytes_valueAt {i size k : ℕ} (hk : k < size) (hsize : size ≤ 4) :
    valueBytes (data.valueAt i size) k = data (i + k) := by
  rw [Buffer.valueAt, valueBytes_le32 _ _ (Nat.lt_of_lt_of_le hk hsize), Nat.zero_add]
  exact if_pos hk

/-- A piece of a write: the bytes of the device, but for the status. -/
theorem handleNvmeRegWrite_bytes {i size k : ℕ} (hend : offset.toNat + i + size ≤ vfioBar0Size)
    (hsize : size ≤ 4) (hk : k < 0x20) (hne : k ≠ 0x1C) :
    (d.handleNvmeRegWrite (offset + UInt32.ofNat i) (UInt32.ofNat size)
      (data.valueAt i size)).2.nvmeRegs k =
      if offset.toNat + i ≤ k ∧ k < offset.toNat + i + size then data (k - offset.toNat)
      else d.nvmeRegs k := by
  have hoffset : (offset + UInt32.ofNat i).toNat = offset.toNat + i := by
    simp only [vfioBar0Size, UInt32.toNat_add, UInt32.toNat_ofNat'] at *
    omega
  have hlen : (UInt32.ofNat size).toNat = size :=
    UInt32.toNat_ofNat_of_lt' (Nat.lt_of_le_of_lt hsize (by decide))
  have hmirror : offset + UInt32.ofNat i + UInt32.ofNat size ≤ 4096 ↔
      offset.toNat + i + size ≤ 4096 := by
    rw [UInt32.le_iff_toNat_le, UInt32.toNat_add, hoffset, hlen]
    simp only [vfioBar0Size, UInt32.toNat_ofNat] at *
    omega
  have hstatus (regs : Buffer) (value : UInt8) : (if offset + UInt32.ofNat i = 0x14 then
      Function.update regs 0x1C value else regs) k = regs k := by
    split_ifs
    · exact Function.update_of_ne hne _ _
    · rfl
  rw [handleNvmeRegWrite]
  dsimp only
  rw [hstatus, hoffset, hlen]
  by_cases hin : offset.toNat + i ≤ k ∧ k < offset.toNat + i + size
  · rw [if_pos hin, if_pos (hmirror.2 (by omega)), Buffer.store, if_pos hin,
      valueBytes_valueAt (by omega) hsize]
    congr 1
    omega
  · rw [if_neg hin]
    split_ifs
    · rw [Buffer.store, if_neg hin]
    · rfl

/-- The pieces are those of a write at an offset. -/
def Fit (offset : UInt32) (l : List (ℕ × ℕ)) : Prop :=
  ∀ p ∈ l, offset.toNat + p.1 + p.2 ≤ vfioBar0Size ∧ p.2 ≤ 4

/-- The bytes of the device after a write, but for the status. -/
theorem writePieces_bytes {l : List (ℕ × ℕ)} (hl : Fit offset l) {k : ℕ} (hk : k < 0x20)
    (hne : k ≠ 0x1C) :
    (writePieces offset data l d).2.nvmeRegs k =
      if ∃ p ∈ l, offset.toNat + p.1 ≤ k ∧ k < offset.toNat + p.1 + p.2 then
        data (k - offset.toNat)
      else d.nvmeRegs k := by
  induction l generalizing d with
  | nil => simp [writePieces]
  | cons p l ih =>
    obtain ⟨i, size⟩ := p
    obtain ⟨hend, hsize⟩ := hl _ List.mem_cons_self
    rw [writePieces]
    dsimp only
    rw [ih fun p hp => hl p (List.mem_cons_of_mem _ hp),
      handleNvmeRegWrite_bytes hend hsize hk hne]
    simp only [List.exists_mem_cons_iff]
    by_cases hlast : ∃ p ∈ l, offset.toNat + p.1 ≤ k ∧ k < offset.toNat + p.1 + p.2
    · rw [if_pos hlast, if_pos (Or.inr hlast)]
    · rw [if_neg hlast]
      exact if_congr (or_iff_left hlast).symm rfl rfl

/-- The words of the controller after a write. -/
theorem writePieces_word {l : List (ℕ × ℕ)} (hl : Fit offset l) {o : ℕ} (ho : o ∈ Regs.wordOffsets)
    {size : ℕ} (hsize : ∀ p ∈ l, offset.toNat + p.1 = o → p.2 = size) :
    (writePieces offset data l d).2.vfio.ctrl.regs.word o =
      if ∃ p ∈ l, offset.toNat + p.1 = o then data.valueAt (o - offset.toNat) size
      else d.vfio.ctrl.regs.word o := by
  induction l generalizing d with
  | nil => simp [writePieces]
  | cons p l ih =>
    obtain ⟨i, n⟩ := p
    obtain ⟨hend, hn⟩ := hl _ List.mem_cons_self
    have hoffset : (offset + UInt32.ofNat i).toNat = offset.toNat + i := by
      simp only [vfioBar0Size, UInt32.toNat_add, UInt32.toNat_ofNat'] at *
      omega
    rw [writePieces]
    dsimp only
    rw [ih (fun p hp => hl p (List.mem_cons_of_mem _ hp))
      fun p hp => hsize p (List.mem_cons_of_mem _ hp)]
    simp only [List.exists_mem_cons_iff]
    by_cases hlast : ∃ p ∈ l, offset.toNat + p.1 = o
    · rw [if_pos hlast, if_pos (Or.inr hlast)]
    · rw [if_neg hlast, handleNvmeRegWrite, Vfio.handleNvmeRegWrite_write, Regs.word_write ho,
        hoffset]
      by_cases hfirst : o = offset.toNat + i
      · rw [if_pos hfirst, if_pos (Or.inl hfirst.symm), hfirst, Nat.add_sub_cancel_left,
          ← hsize _ List.mem_cons_self hfirst.symm]
      · exact (if_neg hfirst).trans (if_neg (not_or.2 ⟨Ne.symm hfirst, hlast⟩)).symm

theorem writePieces_ready {l : List (ℕ × ℕ)} (h : d.vfio.ctrl.regs.Ready) :
    (writePieces offset data l d).2.vfio.ctrl.regs.Ready := by
  induction l generalizing d with
  | nil => exact h
  | cons p l ih =>
    refine ih ?_
    rw [handleNvmeRegWrite, Vfio.handleNvmeRegWrite_write]
    exact h.write

/-- A word begins a piece of a write. -/
def Begun (offset count o : ℕ) : Prop := offset ≤ o ∧ (o - offset) % 4 = 0 ∧ o < offset + count

instance (offset count o : ℕ) : Decidable (Begun offset count o) :=
  inferInstanceAs (Decidable (_ ∧ _))

section

variable {addr : UInt64} {count : UInt32} (hin : addr.toNat + count.toNat ≤ vfioBar0Size)
include hin

theorem fit_regPieces : Fit addr.toUInt32 (regPieces count.toNat) := by
  rintro ⟨i, size⟩ hp
  obtain ⟨-, hlt, rfl⟩ := mem_regPieces.1 hp
  simp only [vfioBar0Size, UInt64.toNat_toUInt32] at *
  omega

theorem toNat_toUInt32_of_fit : addr.toUInt32.toNat = addr.toNat := by
  rw [UInt64.toNat_toUInt32]
  exact Nat.mod_eq_of_lt (Nat.lt_of_le_of_lt (Nat.le_trans (Nat.le_add_right _ _) hin) (by decide))

theorem write_bytes {k : ℕ} (hk : k < 0x20) (hne : k ≠ 0x1C) :
    (writePieces addr.toUInt32 data (regPieces count.toNat) d).2.nvmeRegs k =
      if addr.toNat ≤ k ∧ k < addr.toNat + count.toNat then data (k - addr.toNat)
      else d.nvmeRegs k := by
  rw [writePieces_bytes (fit_regPieces hin) hk hne, toNat_toUInt32_of_fit hin]
  refine if_congr ⟨?_, fun h => ?_⟩ rfl rfl
  · rintro ⟨⟨i, size⟩, hp, hle, hlt⟩
    obtain ⟨-, hi, rfl⟩ := mem_regPieces.1 hp
    dsimp only at hle hlt
    omega
  · refine ⟨(4 * ((k - addr.toNat) / 4), _),
      mem_regPieces.2 ⟨Nat.mul_mod_right 4 _, by omega, rfl⟩, ?_⟩
    dsimp only
    omega

theorem write_word {o : ℕ} (ho : o ∈ Regs.wordOffsets) :
    (writePieces addr.toUInt32 data (regPieces count.toNat) d).2.vfio.ctrl.regs.word o =
      if Begun addr.toNat count.toNat o then
        data.valueAt (o - addr.toNat) (min 4 (addr.toNat + count.toNat - o))
      else d.vfio.ctrl.regs.word o := by
  have hsize : ∀ p ∈ regPieces count.toNat, addr.toUInt32.toNat + p.1 = o →
      p.2 = min 4 (addr.toNat + count.toNat - o) := by
    rintro ⟨i, size⟩ hp rfl
    obtain ⟨-, -, rfl⟩ := mem_regPieces.1 hp
    rw [toNat_toUInt32_of_fit hin]
    dsimp only
    omega
  rw [writePieces_word (fit_regPieces hin) ho hsize, toNat_toUInt32_of_fit hin]
  refine if_congr ⟨?_, fun h => ?_⟩ rfl rfl
  · rintro ⟨⟨i, size⟩, hp, rfl⟩
    obtain ⟨hmod, hi, -⟩ := mem_regPieces.1 hp
    dsimp only [Begun]
    omega
  · obtain ⟨hle, hmod, hlt⟩ := h
    refine ⟨(o - addr.toNat, _), mem_regPieces.2 ⟨hmod, by omega, rfl⟩, ?_⟩
    dsimp only
    omega

end

end VfioDevice

/-! ## Doorbells -/

namespace Vfio

variable {v v' : Vfio} {info : Ctrl → Command → Buffer} {fuel : ℕ}

theorem processCommands_regs {qid n : ℕ} (h : processCommands fuel info qid n v = some v') :
    v'.ctrl.regs = v.ctrl.regs := by
  induction n generalizing v with
  | zero =>
    rw [processCommands] at h
    simp at h
  | succ n ih =>
    rw [processCommands] at h
    dsimp only at h
    split at h
    · exact Option.some.inj h ▸ rfl
    · split at h
      · exact Option.some.inj h ▸ rfl
      · split at h
        · simp at h
        · next cpl v₁ hcmd =>
          have hregs := (processNvmeCommand_processed hcmd).regs
          split at h
          · exact Option.some.inj h ▸ hregs
          · exact (ih h).trans hregs

/-- A doorbell leaves the registers alone. -/
theorem handleDoorbellWrite_regs {offset : ℕ} {value : UInt32}
    (h : v.handleDoorbellWrite fuel info offset value = some v') :
    v'.ctrl.regs = v.ctrl.regs := by
  unfold handleDoorbellWrite at h
  dsimp only at h
  split_ifs at h with hqid hsq
  · exact Option.some.inj h ▸ rfl
  · split at h
    · simp at h
    · next ctrl hctrl =>
      rw [← Ctrl.sqDoorbell_regs hctrl]
      rw [processQueueCommands] at h
      dsimp only at h
      split_ifs at h
      · exact Option.some.inj h ▸ rfl
      · exact processCommands_regs h
  · obtain ⟨ctrl, hctrl, rfl⟩ := Option.map_eq_some_iff.1 h
    exact Ctrl.cqDoorbell_regs hctrl

end Vfio

namespace VfioDevice

variable {d d' : VfioDevice} {info : Ctrl → Command → Buffer} {fuel : ℕ} {data : Buffer}

theorem writeDoorbells_regs {offset : UInt32} {l : List ℕ} {v v' : Vfio}
    (h : writeDoorbells fuel info offset data l v = some v') : v'.ctrl.regs = v.ctrl.regs := by
  induction l generalizing v with
  | nil => exact Option.some.inj h ▸ rfl
  | cons i l ih =>
    rw [writeDoorbells] at h
    obtain ⟨v₁, hfirst, hrest⟩ := Option.bind_eq_some_iff.1 h
    exact (ih hrest).trans (Vfio.handleDoorbellWrite_regs hfirst)

/-- A write to BAR 0 is one of the registers, or changes none of what is read there. -/
theorem bar0Write_cases {addr : UInt64} {count : UInt32}
    (h : (d.bar0Write fuel info addr count data).2 = some d') :
    (addr.toNat < 4096 ∧ addr.toNat + count.toNat ≤ vfioBar0Size ∧
      d' = (writePieces addr.toUInt32 data (regPieces count.toNat) d).2) ∨
    ((4096 ≤ addr.toNat ∨ vfioBar0Size < addr.toNat + count.toNat) ∧
      d'.nvmeRegs = d.nvmeRegs ∧ d'.vfio.ctrl.regs = d.vfio.ctrl.regs) := by
  have haddr := addr.toNat_lt
  have hcount := count.toNat_lt
  have hsame {e : VfioDevice} (he : some e = some d') (hregs : e.nvmeRegs = d.nvmeRegs)
      (hctrl : e.vfio.ctrl.regs = d.vfio.ctrl.regs) :
      d'.nvmeRegs = d.nvmeRegs ∧ d'.vfio.ctrl.regs = d.vfio.ctrl.regs :=
    Option.some.inj he ▸ ⟨hregs, hctrl⟩
  rw [bar0Write] at h
  simp only [vfioBar0Size, GT.gt, UInt64.lt_iff_toNat_lt, UInt64.le_iff_toNat_le,
    UInt64.toNat_add, UInt32.toNat_toUInt64, UInt64.toNat_ofNat] at h ⊢
  split_ifs at h with hsum hregs hdoorbell htable hfits
  · exact Or.inr ⟨by omega, hsame h rfl rfl⟩
  · exact Or.inl ⟨hregs, by omega, (Option.some.inj h).symm⟩
  · obtain ⟨v, hv, rfl⟩ := Option.map_eq_some_iff.1 h
    exact Or.inr ⟨by omega, rfl, writeDoorbells_regs hv⟩
  all_goals exact Or.inr ⟨by omega, hsame h rfl rfl⟩

end VfioDevice

/-! ## Accesses to BAR 0 -/

/-- The device, with what the guest has last written to each byte of BAR 0 (ghost). -/
structure BarWork where
  device : VfioDevice
  written : Buffer

/-- An access of the guest to BAR 0. -/
inductive BarCall
  | read (offset : UInt64) (count : UInt32)
  | write (offset : UInt64) (count : UInt32) (data : Buffer)

/-- What the guest has last written, after an access. A write that is not in BAR 0 is none. -/
def BarCall.written (written : Buffer) : BarCall → Buffer
  | .read _ _ => written
  | .write offset count data =>
    if offset.toNat + count.toNat ≤ vfioBar0Size then
      written.store offset.toNat count.toNat data
    else written

/-- The device as a machine. -/
def barMachine (info : Ctrl → Command → Buffer) : Machine BarWork BarCall Buffer where
  step s call data s' := s'.written = call.written s.written ∧
    match call with
    | .read offset count => (s.device.bar0Read offset count).2 = (data, s'.device)
    | .write offset count buf =>
      ∃ fuel, (s.device.bar0Write fuel info offset count buf).2 = some s'.device

/-- The device at first. -/
def BarWork.init (vfio : Vfio) (pciConfig : Buffer) : BarWork where
  device := VfioDevice.init vfio pciConfig
  written := bufferOf []

/-- The bytes of the capabilities, the version and the status. -/
def ReadOnly (k : ℕ) : Prop := k < 12 ∨ 0x1C ≤ k ∧ k < 0x20

/-- What these bytes are: set at first, but for the status, which is that the controller is ready if
    it is enabled. -/
def controllerByte (written : Buffer) (k : ℕ) : UInt8 :=
  if k = 0x1C then written 0x14 &&& 1 else initNvmeRegs k

/-- What is read where only the controller writes is what it has written, and what the controller
    goes by is what the guest has written. -/
structure RegsFaithful (s : BarWork) : Prop where
  readOnly : ∀ offset count i, i < count.toNat → ReadOnly (offset.toNat + i) →
    (s.device.bar0Read offset count).2.1 i = controllerByte s.written (offset.toNat + i)
  cc : s.device.vfio.ctrl.regs.cc = s.written.le32 0x14
  aqa : s.device.vfio.ctrl.regs.aqa = s.written.le32 0x24
  asq : s.device.vfio.ctrl.regs.asq = s.written.le64 0x28
  acq : s.device.vfio.ctrl.regs.acq = s.written.le64 0x30

/-- A write is careful about a word: if the word begins one of its pieces, what it does not write of
    the word is zero; if not, it writes the bytes of the word as they are. -/
def CarefulWord (written : Buffer) (offset count : ℕ) (data : Buffer) (o : ℕ) : Prop :=
  (VfioDevice.Begun offset count o → ∀ i < 4, offset + count ≤ o + i → written (o + i) = 0) ∧
  (¬ VfioDevice.Begun offset count o → ∀ i < 4, offset ≤ o + i → o + i < offset + count →
    data (o + i - offset) = written (o + i))

/-- A write is careful if it is so about all words, and writes the bytes that only the controller
    may write as they are. -/
structure CarefulWrite (written : Buffer) (offset count : ℕ) (data : Buffer) : Prop where
  readOnly : ∀ k, ReadOnly k → k ≠ 0x1C → offset ≤ k → k < offset + count →
    data (k - offset) = initNvmeRegs k
  words : ∀ o ∈ Regs.wordOffsets, CarefulWord written offset count data o

/-- An access is careful. -/
def Careful (s : BarWork) : BarCall → Prop
  | .read _ _ => True
  | .write offset count data => offset.toNat + count.toNat ≤ vfioBar0Size →
    CarefulWrite s.written offset.toNat count.toNat data

namespace BarWork

variable {s s' : BarWork} {info : Ctrl → Command → Buffer}

/-- The two copies are right. -/
structure Right (s : BarWork) : Prop where
  bytes : ∀ k, ReadOnly k → k ≠ 0x1C → s.device.nvmeRegs k = initNvmeRegs k
  words : ∀ o ∈ Regs.wordOffsets, s.device.vfio.ctrl.regs.word o = s.written.le32 o

/-- What is read of the first registers. -/
theorem bar0Read_bytes {d : VfioDevice} {offset : UInt64} {count : UInt32} {i : ℕ}
    (hi : i < count.toNat) (hlt : offset.toNat + i < 0x20) :
    (d.bar0Read offset count).2.1 i =
      Function.update d.nvmeRegs 0x1C (d.vfio.ctrl.regs.csts &&& 0xFF).toUInt8
        (offset.toNat + i) := by
  obtain ⟨c, hc, hic⟩ : ∃ c, VfioDevice.bar0Count offset count = some c ∧ i < c.toNat := by
    rw [VfioDevice.bar0Count]
    simp only [GT.gt, GE.ge, UInt64.lt_iff_toNat_lt, UInt64.le_iff_toNat_le, UInt64.toNat_ofNat]
    split_ifs with hsum hge
    · omega
    · refine ⟨_, rfl, ?_⟩
      simp only [UInt64.toNat_toUInt32, UInt64.toNat_sub, UInt64.toNat_ofNat]
      omega
    · exact ⟨count, rfl, hi⟩
  have hregs : offset < 0x1000 :=
    UInt64.lt_iff_toNat_lt.2 (Nat.lt_trans (Nat.lt_of_le_of_lt (Nat.le_add_right _ i) hlt)
      (by decide))
  have hcopied : i < (VfioDevice.regsCount offset c).toNat := by
    have hclt := c.toNat_lt
    rw [VfioDevice.regsCount]
    split_ifs with hsum
    · simp only [UInt32.toNat_sub, UInt64.toNat_toUInt32, UInt32.toNat_ofNat]
      omega
    · exact hic
  rw [VfioDevice.bar0Read, hc]
  dsimp only
  rw [if_pos hregs]
  dsimp only
  rw [Buffer.store, if_pos ⟨Nat.zero_le _, by rwa [Nat.zero_add]⟩, Nat.sub_zero]

theorem status_eq (h : s.device.vfio.ctrl.regs.Ready)
    (hcc : s.device.vfio.ctrl.regs.cc = s.written.le32 0x14) :
    (s.device.vfio.ctrl.regs.csts &&& 0xFF).toUInt8 = s.written 0x14 &&& 1 := by
  rw [Regs.Ready] at h
  rw [h, hcc, UInt32.and_assoc, ← le32_and_one]
  rfl

theorem regsFaithful_iff (h : s.device.vfio.ctrl.regs.Ready) : RegsFaithful s ↔ s.Right := by
  constructor
  · intro hf
    refine ⟨fun k hk hne => ?_, ?_⟩
    · have hlt : k < 0x20 := hk.elim (fun hk => by omega) And.right
      have hread := hf.readOnly 0 0x20 k hlt (by simpa using hk)
      rw [bar0Read_bytes hlt (by simpa using hlt), Function.update_of_ne (by simpa using hne),
        controllerByte, if_neg (by simpa using hne)] at hread
      simpa using hread
    · obtain ⟨hasq, hasq'⟩ := eq_le64_iff.1 hf.asq
      obtain ⟨hacq, hacq'⟩ := eq_le64_iff.1 hf.acq
      simp only [Regs.wordOffsets, List.forall_mem_cons]
      exact ⟨hf.cc, hf.aqa, hasq, hasq', hacq, hacq', fun _ h => absurd h List.not_mem_nil⟩
  · intro hr
    have hcc : s.device.vfio.ctrl.regs.cc = s.written.le32 0x14 := hr.words 0x14 (by decide)
    refine ⟨fun offset count i hi hk => ?_, hcc, hr.words 0x24 (by decide),
      eq_le64_iff.2 ⟨hr.words 0x28 (by decide), hr.words 0x2C (by decide)⟩,
      eq_le64_iff.2 ⟨hr.words 0x30 (by decide), hr.words 0x34 (by decide)⟩⟩
    rw [bar0Read_bytes hi (hk.elim (fun hk => by omega) And.right), controllerByte]
    by_cases hne : offset.toNat + i = 0x1C
    · rw [if_pos hne, hne, Function.update_self, status_eq h hcc]
    · rw [if_neg hne, Function.update_of_ne hne, hr.bytes _ hk hne]

theorem ready_init (rand : ℕ → ℕ) (ftl : Ftl) (guest : Guest) (pciConfig : Buffer) :
    (init (Vfio.init rand ftl guest) pciConfig).device.vfio.ctrl.regs.Ready :=
  UInt32.zero_and.symm

theorem right_init (rand : ℕ → ℕ) (ftl : Ftl) (guest : Guest) (pciConfig : Buffer) :
    (init (Vfio.init rand ftl guest) pciConfig).Right := by
  refine ⟨fun _ _ _ => rfl, ?_⟩
  have hzero (k : ℕ) : Buffer.le32 (bufferOf []) k = 0 := by simp [Buffer.le32, bufferOf]
  have hregs : (init (Vfio.init rand ftl guest) pciConfig).device.vfio.ctrl.regs =
      ⟨0xF0000103FF, 0x00010400, 0, 0, 0, 0, 0⟩ := rfl
  intro o ho
  rw [hregs, init, hzero]
  revert ho o
  decide

/-- A word after a write to the registers is what the guest has written if and only if the write is
    careful about it. -/
theorem word_right_iff {written data : Buffer} {offset count o : ℕ} :
    (if VfioDevice.Begun offset count o then
        data.valueAt (o - offset) (min 4 (offset + count - o))
      else written.le32 o) = (written.store offset count data).le32 o ↔
    CarefulWord written offset count data o := by
  rw [CarefulWord]
  by_cases hbegun : VfioDevice.Begun offset count o
  · have hle := hbegun.1
    have hlt := hbegun.2.2
    rw [if_pos hbegun, Buffer.valueAt, le32_inj, forall_prop_of_true hbegun,
      and_iff_left fun h => absurd hbegun h]
    refine forall₂_congr fun i hi => ?_
    rw [Nat.zero_add, Buffer.store]
    by_cases hin : o + i < offset + count
    · rw [if_pos (by omega), if_pos (by omega), show o - offset + i = o + i - offset by omega]
      exact iff_of_true rfl fun h => by omega
    · rw [if_neg (by omega), if_neg (by omega), forall_prop_of_true (Nat.le_of_not_lt hin)]
      exact eq_comm
  · rw [if_neg hbegun, le32_inj, forall_prop_of_true hbegun,
      and_iff_right fun h => absurd h hbegun]
    refine forall₂_congr fun i hi => ?_
    rw [Buffer.store]
    by_cases hin : offset ≤ o + i ∧ o + i < offset + count
    · rw [if_pos hin]
      exact ⟨fun h _ _ => h.symm, fun h => (h hin.1 hin.2).symm⟩
    · rw [if_neg hin]
      exact iff_of_true rfl fun h h' => absurd ⟨h, h'⟩ hin

/-- A write to the registers leaves the copies right if and only if it is careful. -/
theorem right_write_iff {offset : UInt64} {count : UInt32} {data : Buffer}
    (hin : offset.toNat + count.toNat ≤ vfioBar0Size) (h : s.Right)
    (hdevice : s'.device =
      (VfioDevice.writePieces offset.toUInt32 data (regPieces count.toNat) s.device).2)
    (hwritten : s'.written = s.written.store offset.toNat count.toNat data) :
    s'.Right ↔ CarefulWrite s.written offset.toNat count.toNat data := by
  have hbytes {k : ℕ} (hk : ReadOnly k) (hne : k ≠ 0x1C) : s'.device.nvmeRegs k =
      if offset.toNat ≤ k ∧ k < offset.toNat + count.toNat then data (k - offset.toNat)
      else initNvmeRegs k := by
    rw [hdevice, VfioDevice.write_bytes hin (hk.elim (fun hk => by omega) And.right) hne,
      h.bytes k hk hne]
  have hwords {o : ℕ} (ho : o ∈ Regs.wordOffsets) :
      s'.device.vfio.ctrl.regs.word o = s'.written.le32 o ↔
        CarefulWord s.written offset.toNat count.toNat data o := by
    rw [hdevice, hwritten, VfioDevice.write_word hin ho, h.words o ho]
    exact word_right_iff
  constructor
  · intro hr
    refine ⟨fun k hk hne hle hlt => ?_, fun o ho => (hwords ho).1 (hr.words o ho)⟩
    rw [← hr.bytes k hk hne, hbytes hk hne, if_pos ⟨hle, hlt⟩]
  · intro hc
    refine ⟨fun k hk hne => ?_, fun o ho => (hwords ho).2 (hc.words o ho)⟩
    rw [hbytes hk hne]
    split_ifs with hcovered
    · exact hc.readOnly k hk hne hcovered.1 hcovered.2
    · rfl

/-- A read takes over the status. -/
theorem bar0Read_device (d : VfioDevice) (offset : UInt64) (count : UInt32) :
    (d.bar0Read offset count).2.2.vfio = d.vfio ∧
      ∀ k ≠ 0x1C, (d.bar0Read offset count).2.2.nvmeRegs k = d.nvmeRegs k := by
  rw [VfioDevice.bar0Read]
  split
  · exact ⟨rfl, fun _ _ => rfl⟩
  · split_ifs
    · exact ⟨rfl, fun k hne => Function.update_of_ne hne _ _⟩
    all_goals exact ⟨rfl, fun _ _ => rfl⟩

/-- What changes none of the bytes of the registers leaves the copies right. -/
theorem Right.congr (h : s.Right)
    (hregs : ∀ k ≠ 0x1C, s'.device.nvmeRegs k = s.device.nvmeRegs k)
    (hctrl : s'.device.vfio.ctrl.regs = s.device.vfio.ctrl.regs)
    (hwritten : ∀ k < 0x38, s'.written k = s.written k) : s'.Right := by
  refine ⟨fun k hk hne => (hregs k hne).trans (h.bytes k hk hne), fun o ho => ?_⟩
  rw [hctrl, h.words o ho]
  refine Buffer.le32_congr fun i hi => (hwritten _ ?_).symm
  have hle := Regs.wordOffsets_le o ho
  omega

/-- A step leaves the copies right if and only if it is careful. -/
theorem right_step_iff {call : BarCall} {data : Buffer} (h : s.Right)
    (hstep : (barMachine info).step s call data s') : s'.Right ↔ Careful s call := by
  obtain ⟨hwritten, hdevice⟩ := hstep
  cases call with
  | read offset count =>
    obtain ⟨hvfio, hregs⟩ := bar0Read_device s.device offset count
    rw [hdevice] at hvfio hregs
    exact iff_of_true (h.congr hregs (by rw [hvfio]) fun k _ => congrFun hwritten k) trivial
  | write offset count buf =>
    obtain ⟨fuel, hdevice⟩ := hdevice
    rw [BarCall.written] at hwritten
    rcases VfioDevice.bar0Write_cases hdevice with ⟨haddr, hin, hd⟩ | ⟨hout, hregs, hctrl⟩
    · rw [if_pos hin] at hwritten
      rw [Careful, forall_prop_of_true hin]
      exact right_write_iff hin h hd hwritten
    · refine iff_of_true (h.congr (fun k _ => congrFun hregs k) hctrl fun k hk => ?_) fun hin => ?_
      · rw [hwritten]
        split_ifs with hin
        · rw [Buffer.store, if_neg (by omega)]
        · rfl
      · -- the registers are all before what is written
        have haddr : 4096 ≤ offset.toNat := hout.resolve_right (Nat.not_lt_of_le hin)
        refine ⟨fun k hk _ hle _ => ?_, fun o ho => ⟨fun hbegun => ?_, fun _ i hi hle _ => ?_⟩⟩
        · exact absurd (hk.elim (fun hk => by omega) And.right : k < 0x20) (by omega)
        all_goals have hle := Regs.wordOffsets_le o ho
        · exact absurd hbegun.1 (by omega)
        · omega

theorem ready_step {call : BarCall} {data : Buffer} (h : s.device.vfio.ctrl.regs.Ready)
    (hstep : (barMachine info).step s call data s') : s'.device.vfio.ctrl.regs.Ready := by
  obtain ⟨-, hdevice⟩ := hstep
  cases call with
  | read offset count =>
    obtain ⟨hvfio, -⟩ := bar0Read_device s.device offset count
    rw [hdevice] at hvfio
    rwa [hvfio]
  | write offset count buf =>
    obtain ⟨fuel, hdevice⟩ := hdevice
    rcases VfioDevice.bar0Write_cases hdevice with ⟨-, -, hd⟩ | ⟨-, -, hctrl⟩
    · rw [hd]
      exact VfioDevice.writePieces_ready h
    · rwa [hctrl]

end BarWork

/-- As long as all accesses are careful, what is read where only the controller writes is what it
    has written, and what the controller goes by is what the guest has written; after one more
    access, they still are if and only if that access is careful, too. -/
theorem registers_faithful_iff {rand : ℕ → ℕ} {ftl : Ftl} {guest : Guest} {pciConfig : Buffer}
    {info : Ctrl → Command → Buffer} {tr : List (BarCall × Buffer)} {s : BarWork}
    (hrun : (barMachine info).Run Careful (BarWork.init (Vfio.init rand ftl guest) pciConfig)
      tr s) :
    RegsFaithful s ∧ ∀ call data s', (barMachine info).step s call data s' →
      (RegsFaithful s' ↔ Careful s call) := by
  have hinv : s.Right ∧ s.device.vfio.ctrl.regs.Ready :=
    hrun.invariant (P := fun s => s.Right ∧ s.device.vfio.ctrl.regs.Ready)
      ⟨BarWork.right_init _ _ _ _, BarWork.ready_init _ _ _ _⟩
      fun s call data s' h hcareful hstep =>
        ⟨(BarWork.right_step_iff h.1 hstep).2 hcareful, BarWork.ready_step h.2 hstep⟩
  refine ⟨(BarWork.regsFaithful_iff hinv.2).2 hinv.1, fun call data s' hstep => ?_⟩
  rw [BarWork.regsFaithful_iff (BarWork.ready_step hinv.2 hstep)]
  exact BarWork.right_step_iff hinv.1 hstep

/-- A device that the guest has connected to. -/
def barOn : BarWork :=
  let ftl := (Ftl.powerOn (fun _ => 0) fun _ => none).2
  BarWork.init (Vfio.init (fun _ => 0) ftl ⟨[], fun _ _ => 0⟩) (bufferOf [])

/-- No data of Identify and of log pages. -/
def noInfo : Ctrl → Command → Buffer := fun _ _ => bufferOf []

/-- The controller is enabled. -/
theorem enabled_faithful : ∃ s, (barMachine noInfo).Run Careful barOn
    [(.write 0x14 4 (bufferOf [1]), bufferOf [])] s ∧ RegsFaithful s := by
  have hcareful : Careful barOn (.write 0x14 4 (bufferOf [1])) := by
    intro _
    change CarefulWrite (bufferOf []) 0x14 4 (bufferOf [1])
    refine ⟨fun k hk _ hle hlt => by unfold ReadOnly at hk; omega, fun o ho => ?_⟩
    simp only [Regs.wordOffsets, List.mem_cons, List.not_mem_nil, or_false] at ho
    refine ⟨fun _ i hi hle => ?_, fun hbegun i hi hle hlt => ?_⟩ <;>
      simp only [VfioDevice.Begun] at * <;> omega
  have hrun : (barMachine noInfo).Run Careful barOn
      [(.write 0x14 4 (bufferOf [1]), bufferOf [])] ⟨_, _⟩ :=
    .single hcareful ⟨rfl, 0, rfl⟩
  exact ⟨_, hrun, (registers_faithful_iff hrun).1⟩

/-- The guest writes zeros to the capabilities, and reads them. -/
theorem registers_not_faithful : ¬ ∀ (rand : ℕ → ℕ) (ftl : Ftl) (guest : Guest) (pciConfig : Buffer)
    (info : Ctrl → Command → Buffer) (tr : List (BarCall × Buffer)) (s : BarWork),
    (barMachine info).Run Machine.anyCall (BarWork.init (Vfio.init rand ftl guest) pciConfig) tr s →
      RegsFaithful s := by
  intro hall
  have hrun : (barMachine noInfo).Run Machine.anyCall barOn
      [(.write 0 4 (bufferOf []), bufferOf [])] ⟨_, _⟩ :=
    .single trivial ⟨rfl, 0, rfl⟩
  have hfaithful := hall _ _ _ _ _ _ _ hrun
  have hread := hfaithful.readOnly 0 4 0 (by decide) (Or.inl (by decide))
  exact absurd hread (by decide)

end Nvme

end FtlFirmware
