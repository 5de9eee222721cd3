import FtlFirmware.Nvme.Bar
import Mathlib.Tactic.SplitIfs

/-!
# Accesses to regions

What a message about a region accesses is within the areas, and nothing of a region is accessed but
for what a message asks for, with two exceptions (`region_within_iff`), both in the configuration
space of PCI: the sum of an offset and a count that wraps around, and an offset that is narrowed to
32 bits.

* `readTold`, `writeTold`: the bytes outside the spans of a message are not changed, and the reply
  does not depend on them;
* `readFramed_iff`, `writeFramed_iff`: which messages keep to the areas, whatever the device, told
  by the bytes alone.
-/

namespace FtlFirmware

namespace Nvme

open FtlFirmware.Span VfioDevice

variable {d : VfioDevice} {msg : RegionMsg}

/-- An area that holds bytes of a region. -/
def RegionArea.Backing (area : RegionArea) : Prop := area ≠ .reply ∧ area ≠ .payload

/-- The size of a region. -/
def regionSize (region : UInt32) : ℕ :=
  if region = 7 then vfioPciConfigSize else if region = 0 then vfioBar0Size else 0

/-- Bytes of a region are accessed. -/
def Accessed (spans : List (Span RegionArea)) : Prop := ∃ s ∈ spans, s.area.Backing ∧ s.len ≠ 0

/-- All accesses but for those to the payload are within their areas. -/
def RegionWithin (msg : RegionMsg) (spans : List (Span RegionArea)) : Prop :=
  ∀ s ∈ spans, s.area ≠ .payload → s.Within (RegionArea.size msg)

section

variable {s : Span RegionArea} {l l' : List (Span RegionArea)}

@[simp] theorem regionWithin_nil : RegionWithin msg [] := fun _ h => absurd h List.not_mem_nil

@[simp] theorem regionWithin_cons : RegionWithin msg (s :: l) ↔
    (s.area ≠ .payload → s.Within (RegionArea.size msg)) ∧ RegionWithin msg l :=
  List.forall_mem_cons

@[simp] theorem regionWithin_append :
    RegionWithin msg (l ++ l') ↔ RegionWithin msg l ∧ RegionWithin msg l' :=
  List.forall_mem_append

@[simp] theorem not_accessed_nil : ¬ Accessed [] := by simp [Accessed]

@[simp] theorem accessed_cons : Accessed (s :: l) ↔ (s.area.Backing ∧ s.len ≠ 0) ∨ Accessed l :=
  List.exists_mem_cons_iff ..

@[simp] theorem accessed_append : Accessed (l ++ l') ↔ Accessed l ∨ Accessed l' := by
  simp only [Accessed, List.mem_append, or_and_right, exists_or]

end

/-! ## Reads -/

/-- The bytes to be read are those of BAR 0, unless the offset is far beyond. -/
theorem bar0Count_spec {offset : UInt64} {count c : UInt32} (hcount : count.toNat ≤ vfioBar0Size)
    (h : bar0Count offset count = some c) : c.toNat ≤ vfioBar0Size := by
  rw [bar0Count] at h
  simp only [vfioBar0Size, GT.gt, GE.ge, UInt64.lt_iff_toNat_lt, UInt64.le_iff_toNat_le] at *
  split_ifs at h with hsum hge
  · obtain rfl := Option.some.inj h
    simp only [UInt64.toNat_toUInt32, UInt64.toNat_sub, UInt64.toNat_ofNat] at *
    omega
  · obtain rfl := Option.some.inj h
    exact hcount

/-- What is read of the registers ends in them. -/
theorem regsCount_le {offset : UInt64} {count : UInt32} (hoffset : offset.toNat < 4096)
    (hcount : count.toNat ≤ vfioBar0Size) :
    (regsCount offset count).toNat ≤ count.toNat ∧
      offset.toNat + (regsCount offset count).toNat ≤ 4096 := by
  rw [regsCount]
  split_ifs with hsum
  all_goals
    simp only [vfioBar0Size, GT.gt, UInt64.lt_iff_toNat_lt, UInt64.toNat_add, UInt32.toNat_toUInt64,
      UInt32.toNat_sub, UInt64.toNat_toUInt32, UInt64.toNat_ofNat, UInt32.toNat_ofNat] at *
    omega

/-- What is read of the table or of the pending bits is within. -/
theorem msixRead_within {area : RegionArea} {size : UInt32} {bytes : Buffer} {offset count : UInt32}
    (hsize : area.size msg = size.toNat) (hbound : size.toNat ≤ vfioBar0Size)
    (hcount : count.toNat ≤ vfioBar0Size) :
    RegionWithin msg (msixRead area size bytes offset count).1 := by
  rw [msixRead]
  split_ifs with hlt hsum
  all_goals
    simp only [regionWithin_cons, regionWithin_nil, and_true, within_iff, RegionArea.size,
      vfioBar0Size, GT.gt, UInt32.lt_iff_toNat_lt, UInt32.toNat_add, UInt32.toNat_sub] at *
    omega

/-- What is read of BAR 0 is within, and only at an offset in it are bytes of it read. -/
theorem bar0Read_within {offset : UInt64} {count : UInt32} (hcount : count.toNat ≤ vfioBar0Size) :
    RegionWithin msg (d.bar0Read offset count).1 ∧
      (Accessed (d.bar0Read offset count).1 → offset.toNat < vfioBar0Size) := by
  rw [bar0Read]
  split
  · simp
  · next c hc =>
    have hbound := bar0Count_spec hcount hc
    simp only [UInt64.lt_iff_toNat_lt, UInt64.le_iff_toNat_le]
    split_ifs with hregs htable hpba
    · obtain ⟨hle, hend⟩ := regsCount_le hregs hbound
      refine ⟨?_, fun _ => Nat.lt_trans hregs (by decide)⟩
      simp only [regionWithin_cons, regionWithin_nil, and_true, within_iff, RegionArea.size,
        vfioBar0Size] at *
      omega
    · exact ⟨msixRead_within rfl (by decide) hbound,
        fun _ => Nat.lt_trans htable.2 (by decide)⟩
    · exact ⟨msixRead_within rfl (by decide) hbound,
        fun _ => Nat.lt_trans hpba.2 (by decide)⟩
    · refine ⟨?_, fun h => ?_⟩
      · simp only [regionWithin_cons, regionWithin_nil, and_true, within_iff, RegionArea.size]
        omega
      · simp [RegionArea.Backing] at h

/-- The bytes of the configuration space to be read are in it, if the sum does not wrap around to a
    number that is not beyond the space. -/
theorem pciCount_spec (offset : UInt64) {count : UInt32} (hcount : count.toNat ≤ vfioBar0Size) :
    (pciCount offset count).toNat ≤ count.toNat ∧
    ((pciCount offset count).toNat = 0 ∨
      offset.toNat + (pciCount offset count).toNat ≤ vfioPciConfigSize ↔
      ¬ (2 ^ 64 ≤ offset.toNat + count.toNat ∧
        offset.toNat + count.toNat ≤ 2 ^ 64 + vfioPciConfigSize)) := by
  have hoffset := offset.toNat_lt
  rw [pciCount]
  split_ifs with hsum hge
  all_goals
    simp only [vfioBar0Size, vfioPciConfigSize, GT.gt, GE.ge, UInt64.lt_iff_toNat_lt,
      UInt64.le_iff_toNat_le, UInt64.toNat_add, UInt32.toNat_toUInt64, UInt32.toNat_sub,
      UInt64.toNat_toUInt32, UInt64.toNat_ofNat, UInt32.toNat_ofNat, true_or, true_iff] at *
    omega

/-- The fields of a message are not of a region, and the reply has room for all that is sent. -/
theorem replied_within {l : List (Span RegionArea)} {count : UInt32}
    (hcount : count.toNat ≤ vfioBar0Size) :
    RegionWithin msg (⟨.payload, 0, 16⟩ :: l ++ [⟨.reply, 0, (16 + count).toNat⟩]) ↔
      RegionWithin msg l := by
  have hroom : Span.Within (RegionArea.size msg) ⟨.reply, 0, (16 + count).toNat⟩ := by
    simp only [within_iff, RegionArea.size, vfioBar0Size, UInt32.toNat_add, UInt32.toNat_ofNat]
      at hcount ⊢
    omega
  rw [regionWithin_append, regionWithin_cons, regionWithin_cons]
  exact ⟨fun h => h.1.2, fun h => ⟨⟨fun hne => absurd rfl hne, h⟩, fun _ => hroom,
    regionWithin_nil⟩⟩

theorem replied_accessed {l : List (Span RegionArea)} {count : UInt32} :
    Accessed (⟨.payload, 0, 16⟩ :: l ++ [⟨.reply, 0, (16 + count).toNat⟩]) ↔ Accessed l := by
  simp [RegionArea.Backing]

/-- The offset and the count of a read of the configuration space wrap around, to a sum that is not
    beyond the space. -/
def ReadWraps (msg : RegionMsg) : Prop :=
  msg.region = 7 ∧ 2 ^ 64 ≤ msg.offset.toNat + min msg.count.toNat vfioBar0Size ∧
    msg.offset.toNat + min msg.count.toNat vfioBar0Size ≤ 2 ^ 64 + vfioPciConfigSize

/-- The count of a read, clipped to the size of BAR 0. -/
theorem exists_clipped (msg : RegionMsg) :
    ∃ c : UInt32, (if msg.count > 0x10000 then 0x10000 else msg.count) = c ∧
      c.toNat = min msg.count.toNat vfioBar0Size := by
  refine ⟨_, rfl, ?_⟩
  split_ifs with h <;> rw [GT.gt, UInt32.lt_iff_toNat_lt] at h
  · exact (Nat.min_eq_right (Nat.le_of_lt h)).symm
  · exact (Nat.min_eq_left (Nat.le_of_not_lt h)).symm

theorem regionRead_within_iff :
    (RegionWithin msg (d.handleRegionRead msg).1 ∧
      (Accessed (d.handleRegionRead msg).1 → msg.offset.toNat < regionSize msg.region)) ↔
      ¬ ReadWraps msg := by
  obtain ⟨c, hc, hmin⟩ := exists_clipped msg
  have hbound : c.toNat ≤ vfioBar0Size := hmin ▸ Nat.min_le_right _ _
  rw [handleRegionRead, ReadWraps, regionSize, ← hmin]
  simp only [hc]
  split_ifs with hpci hbar
  · obtain ⟨hle, hin⟩ := pciCount_spec msg.offset hbound
    rw [replied_within (Nat.le_trans hle hbound), replied_accessed, and_iff_right hpci, ← hin]
    -- what is read has room in the reply, and is of the space if it is within
    simp only [regionWithin_cons, ne_eq, reduceCtorEq, not_false_eq_true, within_iff,
      RegionArea.size, forall_const, regionWithin_nil, and_true, accessed_cons, RegionArea.Backing,
      and_self, true_and, not_true_eq_false, false_and, not_accessed_nil, or_self, or_false]
    simp only [vfioBar0Size, vfioPciConfigSize] at *
    omega
  · rw [replied_within hbound, replied_accessed]
    exact iff_of_true (bar0Read_within hbound) fun h => hpci h.1
  · rw [replied_within hbound, replied_accessed]
    exact iff_of_true ⟨regionWithin_nil, fun h => absurd h not_accessed_nil⟩ fun h => hpci h.1

/-! ## Writes -/

section

variable {offset count : UInt32} {data : Buffer}

theorem pciConfigWrite_beyond (h : offset + count > 256) :
    (d.pciConfigWrite offset count data).1 = [] := by
  rw [pciConfigWrite, if_pos h]

/-- A write that is not beyond the configuration space accesses it, unless it is of no bytes. -/
theorem pciConfigWrite_accessed (h : ¬ offset + count > 256) :
    Accessed (d.pciConfigWrite offset count data).1 ↔ count ≠ 0 := by
  rw [pciConfigWrite, if_neg h]
  split_ifs with hctrl hlow hhigh
  · -- the control of MSI-X is in the bytes written
    refine iff_of_true (by simp [RegionArea.Backing]) fun hzero => ?_
    rw [hzero, UInt32.add_zero] at hctrl
    exact absurd (UInt32.le_trans hctrl.2 hctrl.1) (by decide)
  · exact iff_of_true (by simp [RegionArea.Backing]) (hlow.2 ▸ by decide)
  · exact iff_of_true (by simp [RegionArea.Backing]) (hhigh.2 ▸ by decide)
  · simp [RegionArea.Backing, ← UInt32.toNat_inj]

theorem pciConfigWrite_within (h : offset.toNat + count.toNat ≤ vfioPciConfigSize) :
    RegionWithin msg (d.pciConfigWrite offset count data).1 := by
  rw [vfioPciConfigSize] at h
  rw [pciConfigWrite]
  split_ifs
  all_goals simp [within_iff, RegionArea.size, vfioPciConfigSize, h]

end

/-! ### BAR 0 -/

theorem handleNvmeRegWrite_within {offset size value : UInt32}
    (h : offset.toNat + size.toNat ≤ vfioBar0Size) :
    RegionWithin msg (d.handleNvmeRegWrite offset size value).1 := by
  rw [handleNvmeRegWrite, regionWithin_append]
  simp only [vfioBar0Size, UInt32.le_iff_toNat_le, UInt32.toNat_add, UInt32.toNat_ofNat] at *
  constructor
  · split_ifs
    · simp only [regionWithin_cons, regionWithin_nil, and_true, within_iff, RegionArea.size]
      omega
    · exact regionWithin_nil
  · split_ifs
    · simp [within_iff, RegionArea.size]
    · exact regionWithin_nil

theorem writePieces_within {offset : UInt32} {data : Buffer} {l : List (ℕ × ℕ)} {d : VfioDevice}
    (h : ∀ i size, (i, size) ∈ l → offset.toNat + i + size ≤ vfioBar0Size) :
    RegionWithin msg (writePieces offset data l d).1 := by
  induction l generalizing d with
  | nil => exact regionWithin_nil
  | cons p l ih =>
    obtain ⟨i, size⟩ := p
    have hle := h i size List.mem_cons_self
    rw [writePieces]
    simp only [List.cons_append, regionWithin_cons, regionWithin_append]
    refine ⟨fun hne => absurd rfl hne, handleNvmeRegWrite_within ?_,
      ih fun i size hmem => h i size (List.mem_cons_of_mem _ hmem)⟩
    simp only [vfioBar0Size, UInt32.toNat_add, UInt32.toNat_ofNat'] at *
    omega

/-- What is written of BAR 0 is within, and only in it are bytes of it written. -/
theorem bar0Write_within {fuel : ℕ} {info : Ctrl → Command → Buffer} {offset : UInt64}
    {count : UInt32} {data : Buffer} :
    RegionWithin msg (d.bar0Write fuel info offset count data).1 ∧
      (Accessed (d.bar0Write fuel info offset count data).1 →
        offset.toNat + count.toNat ≤ vfioBar0Size) := by
  have hcount := count.toNat_lt
  rw [bar0Write]
  split_ifs with hsum hregs hdoorbell htable
  · simp
  · -- registers
    simp only [vfioBar0Size, GT.gt, UInt64.lt_iff_toNat_lt, UInt64.toNat_add,
      UInt32.toNat_toUInt64, UInt64.toNat_ofNat] at *
    refine ⟨writePieces_within fun i size h => ?_, fun _ => by omega⟩
    obtain ⟨-, hlt, rfl⟩ := mem_regPieces.1 h
    simp only [vfioBar0Size, UInt64.toNat_toUInt32]
    omega
  · -- doorbells, which have no bytes
    constructor
    · intro s hs hne
      obtain ⟨i, _, rfl⟩ := List.mem_map.1 hs
      exact absurd rfl hne
    · rintro ⟨s, hs, hback, _⟩
      obtain ⟨i, _, rfl⟩ := List.mem_map.1 hs
      exact absurd rfl hback.2
  · -- the table of MSI-X
    simp only [vfioBar0Size, GT.gt, UInt64.lt_iff_toNat_lt, UInt64.le_iff_toNat_le,
      UInt64.toNat_add, UInt32.toNat_toUInt64, UInt64.toNat_ofNat] at hsum htable ⊢
    refine ⟨?_, fun _ => by omega⟩
    split_ifs with hin
    · rw [regionWithin_cons, regionWithin_cons]
      refine ⟨fun hne => absurd rfl hne, fun _ => ?_, regionWithin_nil⟩
      simp only [within_iff, RegionArea.size, UInt32.le_iff_toNat_le, UInt32.toNat_add,
        UInt64.toNat_toUInt32, UInt64.toNat_sub, UInt64.toNat_ofNat, UInt32.toNat_ofNat] at *
      omega
    · exact regionWithin_nil
  · simp

/-- The offset of a write to the configuration space, narrowed to 32 bits, and the count have a sum
    of 32 bits that is not beyond the space, although the write is. -/
def WriteWraps (msg : RegionMsg) : Prop :=
  msg.region = 7 ∧ msg.count ≠ 0 ∧ (msg.offset.toUInt32 + msg.count).toNat ≤ vfioPciConfigSize ∧
    vfioPciConfigSize < msg.offset.toNat + msg.count.toNat

theorem regionWrite_within_iff {fuel : ℕ} {info : Ctrl → Command → Buffer} :
    (RegionWithin msg (d.handleRegionWrite fuel info msg).1 ∧
      (Accessed (d.handleRegionWrite fuel info msg).1 →
        msg.offset.toNat + msg.count.toNat ≤ regionSize msg.region)) ↔ ¬ WriteWraps msg := by
  have hfields {l : List (Span RegionArea)} :
      (RegionWithin msg (⟨.payload, 0, 16⟩ :: l) ↔ RegionWithin msg l) ∧
      (Accessed (⟨.payload, 0, 16⟩ :: l) ↔ Accessed l) := by
    simp [RegionArea.Backing]
  rw [handleRegionWrite, hfields.1, hfields.2, WriteWraps, regionSize]
  split_ifs with hpci hbar
  · rw [and_iff_right hpci]
    by_cases hsum : msg.offset.toUInt32 + msg.count > 256
    · rw [pciConfigWrite_beyond hsum]
      refine iff_of_true ⟨regionWithin_nil, fun h => absurd h not_accessed_nil⟩ fun h => ?_
      exact Nat.not_lt_of_le h.2.1 (UInt32.lt_iff_toNat_lt.1 hsum)
    · rw [pciConfigWrite_accessed hsum]
      rw [GT.gt, UInt32.lt_iff_toNat_lt] at hsum
      constructor
      · rintro ⟨-, hexact⟩ ⟨hne, -, hlt⟩
        exact Nat.not_le_of_lt hlt (hexact hne)
      · intro hwraps
        have hexact (hne : msg.count ≠ 0) :
            msg.offset.toNat + msg.count.toNat ≤ vfioPciConfigSize :=
          Nat.le_of_not_lt fun hlt => hwraps ⟨hne, Nat.le_of_not_lt hsum, hlt⟩
        refine ⟨pciConfigWrite_within ?_, hexact⟩
        -- a write of no bytes has the narrowed offset for a sum
        by_cases hne : msg.count = 0
        · rw [hne, UInt32.add_zero] at hsum
          rw [hne]
          exact Nat.le_of_not_lt hsum
        · exact Nat.le_trans (Nat.add_le_add_right (Nat.mod_le _ _) _) (hexact hne)
  · exact iff_of_true bar0Write_within fun h => hpci h.1
  · exact iff_of_true ⟨regionWithin_nil, fun h => absurd h not_accessed_nil⟩ fun h => hpci h.1

/-! ## What the spans tell

The spans of a message are those of all the bytes that the device is changed in and of all that the
reply depends on. -/

namespace VfioDevice

/-- The bytes of the areas that hold the regions. -/
def bytes (d : VfioDevice) : RegionArea → Buffer
  | .pciConfig => d.pciConfig
  | .nvmeRegs => d.nvmeRegs
  | .msixTable => d.msixTable
  | .msixPba => d.msixPba
  | .reply | .payload => bufferOf []

theorem bytes_of_not_backing {d : VfioDevice} {a : RegionArea} (h : ¬ a.Backing) :
    d.bytes a = bufferOf [] := by
  cases a with
  | reply | payload => rfl
  | _ => exact absurd ⟨RegionArea.noConfusion, RegionArea.noConfusion⟩ h

/-- Two devices have the same bytes at some places, and the rest is the same. -/
structure Agree (places : RegionArea → ℕ → Prop) (d d' : VfioDevice) : Prop where
  vfio : d'.vfio = d.vfio
  msixEnabled : d'.msixEnabled = d.msixEnabled
  bytes : ∀ a k, places a k → d'.bytes a k = d.bytes a k

/-- What a read changes, what its reply depends on, and how far the reply goes. -/
structure ReadTold (d : VfioDevice) (msg : RegionMsg) : Prop where
  keeps : ∀ a k, ¬ Covers (d.handleRegionRead msg).1 a k →
    (d.handleRegionRead msg).2.2.bytes a k = d.bytes a k
  reply : ∀ d', d.Agree (Covers (d.handleRegionRead msg).1) d' →
    (d'.handleRegionRead msg).2.1 = (d.handleRegionRead msg).2.1
  room : ∀ k, ¬ Covers (d.handleRegionRead msg).1 .reply (16 + k) →
    (d.handleRegionRead msg).2.1.data k = 0

/-- What a write changes. Whatever it reads of the regions are bytes that it has written. -/
structure WriteTold (d : VfioDevice) (msg : RegionMsg) (fuel : ℕ)
    (info : Ctrl → Command → Buffer) : Prop where
  keeps : ∀ d₁, (d.handleRegionWrite fuel info msg).2 = some d₁ → ∀ a k,
    ¬ Covers (d.handleRegionWrite fuel info msg).1 a k → d₁.bytes a k = d.bytes a k
  agree : ∀ places d', d.Agree places d' → ∀ d₁, (d.handleRegionWrite fuel info msg).2 = some d₁ →
    ∃ d₁', (d'.handleRegionWrite fuel info msg).2 = some d₁' ∧ d₁.Agree places d₁'

/-! ### Reads -/

section

variable {d' : VfioDevice} {offset : UInt64} {count : UInt32} {a : RegionArea} {k : ℕ}

theorem store_eq_zero {len : ℕ} {data : Buffer} (h : ¬ k < len) :
    (bufferOf []).store 0 len data k = 0 := by
  rw [Buffer.store, if_neg (by omega)]
  rfl

theorem msixRead_congr {area : RegionArea} {size offset : UInt32} {bytes bytes' : Buffer}
    (h : ∀ k, Covers (msixRead area size bytes offset count).1 area k → bytes' k = bytes k) :
    (msixRead area size bytes' offset count).2 = (msixRead area size bytes offset count).2 := by
  rw [msixRead] at h ⊢
  rw [msixRead]
  split_ifs at h ⊢
  · exact Buffer.store_congr fun k hk => h _ (by simp [hk])
  · exact Buffer.store_congr fun k hk => h _ (by simp [hk])
  · rfl

theorem msixRead_room {area : RegionArea} {size offset : UInt32} {bytes : Buffer}
    (h : ¬ Covers (msixRead area size bytes offset count).1 .reply (16 + k)) :
    (msixRead area size bytes offset count).2 k = 0 := by
  rw [msixRead] at h ⊢
  split_ifs at h ⊢
  · dsimp only at h ⊢
    exact store_eq_zero fun hk => h (by simp [hk])
  · dsimp only at h ⊢
    exact store_eq_zero fun hk => h (by simp [hk])
  · rfl

theorem bar0Read_keeps (h : ¬ Covers (d.bar0Read offset count).1 a k) :
    (d.bar0Read offset count).2.2.bytes a k = d.bytes a k := by
  rw [bar0Read] at h ⊢
  split at h
  · rfl
  · split_ifs at h ⊢
    · cases a with
      | nvmeRegs =>
        have hne : k ≠ 0x1C := fun heq => h (by simp [heq])
        exact Function.update_of_ne hne _ _
      | _ => rfl
    all_goals rfl

theorem bar0Read_data (h : d.Agree (Covers (d.bar0Read offset count).1) d') :
    (d'.bar0Read offset count).2.1 = (d.bar0Read offset count).2.1 := by
  obtain ⟨hvfio, -, hbytes⟩ := h
  rw [bar0Read] at hbytes ⊢
  rw [bar0Read]
  split at hbytes
  · rfl
  · split_ifs at hbytes ⊢
    · dsimp only
      refine Buffer.store_congr fun k hk => ?_
      rw [hvfio]
      -- the status is the one of the controller, wherever it is read
      by_cases hcsts : offset.toNat + k = 0x1C
      · rw [hcsts, Function.update_self, Function.update_self]
      · rw [Function.update_of_ne hcsts, Function.update_of_ne hcsts]
        exact hbytes .nvmeRegs _ (by simp [hk])
    · exact msixRead_congr fun k hk => hbytes .msixTable k hk
    · exact msixRead_congr fun k hk => hbytes .msixPba k hk
    · rfl

theorem bar0Read_room (h : ¬ Covers (d.bar0Read offset count).1 .reply (16 + k)) :
    (d.bar0Read offset count).2.1 k = 0 := by
  rw [bar0Read] at h ⊢
  split at h
  · rfl
  · split_ifs at h ⊢
    · dsimp only at h ⊢
      exact store_eq_zero fun hk => h (by simp [hk])
    · exact msixRead_room h
    · exact msixRead_room h
    · rfl

theorem readTold (d : VfioDevice) (msg : RegionMsg) : d.ReadTold msg := by
  obtain ⟨c, hc⟩ : ∃ c : UInt32, (if msg.count > 0x10000 then 0x10000 else msg.count) = c :=
    ⟨_, rfl⟩
  constructor
  · intro a k h
    simp only [handleRegionRead, hc] at h ⊢
    split_ifs at h ⊢
    · rfl
    · refine bar0Read_keeps fun hcovers => h ?_
      simp [hcovers]
    · rfl
  · rintro d' ⟨hvfio, hmsix, hbytes⟩
    simp only [handleRegionRead, hc] at hbytes ⊢
    split_ifs at hbytes ⊢
    · have hdata : (bufferOf []).store 0 (pciCount msg.offset c).toNat
          (fun k => d'.pciConfig (msg.offset.toNat + k)) =
          (bufferOf []).store 0 (pciCount msg.offset c).toNat
            fun k => d.pciConfig (msg.offset.toNat + k) :=
        Buffer.store_congr fun k hk => hbytes .pciConfig _ (by simp [hk])
      dsimp only
      rw [hdata]
    · have hdata : (d'.bar0Read msg.offset c).2.1 = (d.bar0Read msg.offset c).2.1 :=
        bar0Read_data ⟨hvfio, hmsix, fun a k hk => hbytes a k (by simp [hk])⟩
      dsimp only
      rw [hdata]
    · rfl
  · intro k h
    simp only [handleRegionRead, hc] at h ⊢
    split_ifs at h ⊢
    · dsimp only at h ⊢
      exact store_eq_zero fun hk => h (by simp [hk])
    · refine bar0Read_room fun hcovers => h ?_
      simp [hcovers]
    · rfl

end

/-! ### Writes -/

section

variable {d' : VfioDevice} {offset count size value : UInt32} {data : Buffer} {a : RegionArea}
  {k : ℕ} {places : RegionArea → ℕ → Prop}

theorem store_agree {buf buf' : Buffer} {offset len : ℕ} (h : buf' k = buf k) :
    buf'.store offset len data k = buf.store offset len data k := by
  rw [Buffer.store, Buffer.store, h]

theorem update_agree {buf buf' : Buffer} {j : ℕ} {b : UInt8} (h : buf' k = buf k) :
    Function.update buf' j b k = Function.update buf j b k := by
  rw [Function.update_apply, Function.update_apply, h]

theorem handleNvmeRegWrite_keeps (h : ¬ Covers (d.handleNvmeRegWrite offset size value).1 a k) :
    (d.handleNvmeRegWrite offset size value).2.bytes a k = d.bytes a k := by
  cases a with
  | nvmeRegs =>
    rw [handleNvmeRegWrite, covers_append, not_or] at h
    obtain ⟨hcopy, hcsts⟩ := h
    have hstored : (if offset + size ≤ 4096 then
        d.nvmeRegs.store offset.toNat size.toNat (valueBytes value) else d.nvmeRegs) k =
        d.nvmeRegs k := by
      split_ifs at hcopy ⊢
      · exact Buffer.store_of_not fun hk => hcopy (by simp [hk])
      · rfl
    rw [handleNvmeRegWrite]
    dsimp only [bytes]
    by_cases hcc : offset = 0x14
    · rw [if_pos hcc] at hcsts ⊢
      have hne : k ≠ 0x1C := fun heq => hcsts (by simp [heq])
      rw [Function.update_of_ne hne, hstored]
    · rw [if_neg hcc, hstored]
  | _ => rfl

theorem Agree.handleNvmeRegWrite (h : d.Agree places d') :
    (d.handleNvmeRegWrite offset size value).2.Agree places
      (d'.handleNvmeRegWrite offset size value).2 where
  vfio := by
    rw [VfioDevice.handleNvmeRegWrite, VfioDevice.handleNvmeRegWrite, h.vfio]
  msixEnabled := h.msixEnabled
  bytes a k hk := by
    have hbytes := h.bytes a k hk
    cases a with
    | nvmeRegs =>
      have hstored : (if offset + size ≤ 4096 then
          d'.nvmeRegs.store offset.toNat size.toNat (valueBytes value) else d'.nvmeRegs) k =
          (if offset + size ≤ 4096 then
            d.nvmeRegs.store offset.toNat size.toNat (valueBytes value) else d.nvmeRegs) k := by
        split_ifs
        · exact store_agree hbytes
        · exact hbytes
      rw [VfioDevice.handleNvmeRegWrite, VfioDevice.handleNvmeRegWrite]
      dsimp only [VfioDevice.bytes]
      by_cases hcc : offset = 0x14
      · rw [if_pos hcc, if_pos hcc]
        exact update_agree hstored
      · rw [if_neg hcc, if_neg hcc]
        exact hstored
    | _ => exact hbytes

theorem writePieces_keeps {l : List (ℕ × ℕ)} (h : ¬ Covers (writePieces offset data l d).1 a k) :
    (writePieces offset data l d).2.bytes a k = d.bytes a k := by
  induction l generalizing d with
  | nil => rfl
  | cons p l ih =>
    obtain ⟨i, size⟩ := p
    rw [writePieces] at h ⊢
    simp only [List.cons_append, covers_cons, covers_append, not_or] at h
    rw [ih h.2.2, handleNvmeRegWrite_keeps h.2.1]

theorem Agree.writePieces {l : List (ℕ × ℕ)} (h : d.Agree places d') :
    (writePieces offset data l d).2.Agree places (writePieces offset data l d').2 := by
  induction l generalizing d d' with
  | nil => exact h
  | cons p l ih =>
    rw [VfioDevice.writePieces, VfioDevice.writePieces]
    exact ih h.handleNvmeRegWrite

theorem bar0Write_keeps {fuel : ℕ} {info : Ctrl → Command → Buffer} {offset : UInt64}
    {d₁ : VfioDevice} (h : (d.bar0Write fuel info offset count data).2 = some d₁)
    (hk : ¬ Covers (d.bar0Write fuel info offset count data).1 a k) :
    d₁.bytes a k = d.bytes a k := by
  rw [bar0Write] at h hk
  dsimp only at h hk
  split_ifs at h hk
  · cases h
    rfl
  · cases h
    exact writePieces_keeps hk
  · obtain ⟨vfio, -, rfl⟩ := Option.map_eq_some_iff.1 h
    cases a <;> rfl
  · cases h
    cases a with
    | msixTable => exact Buffer.store_of_not fun hin => hk (by simpa using hin)
    | _ => rfl
  · cases h
    rfl
  · cases h
    rfl

theorem Agree.bar0Write {fuel : ℕ} {info : Ctrl → Command → Buffer} {offset : UInt64}
    {d₁ : VfioDevice} (h : d.Agree places d')
    (hd₁ : (d.bar0Write fuel info offset count data).2 = some d₁) :
    ∃ d₁', (d'.bar0Write fuel info offset count data).2 = some d₁' ∧ d₁.Agree places d₁' := by
  rw [VfioDevice.bar0Write] at hd₁ ⊢
  dsimp only at hd₁ ⊢
  split_ifs at hd₁ ⊢
  · cases hd₁
    exact ⟨d', rfl, h⟩
  · cases hd₁
    exact ⟨_, rfl, h.writePieces⟩
  · obtain ⟨vfio, hvfio, rfl⟩ := Option.map_eq_some_iff.1 hd₁
    refine ⟨{ d' with vfio }, Option.map_eq_some_iff.2 ⟨vfio, h.vfio ▸ hvfio, rfl⟩, rfl,
      h.msixEnabled, fun a k hk => ?_⟩
    have hbytes := h.bytes a k hk
    cases a <;> exact hbytes
  · cases hd₁
    refine ⟨_, rfl, h.vfio, h.msixEnabled, fun a k hk => ?_⟩
    have hbytes := h.bytes a k hk
    cases a with
    | msixTable => exact store_agree hbytes
    | _ => exact hbytes
  · cases hd₁
    exact ⟨d', rfl, h⟩
  · cases hd₁
    exact ⟨d', rfl, h⟩

theorem pciConfigWrite_keeps (h : ¬ Covers (d.pciConfigWrite offset count data).1 a k) :
    (d.pciConfigWrite offset count data).2.bytes a k = d.bytes a k := by
  cases a with
  | pciConfig =>
    rw [pciConfigWrite] at h ⊢
    dsimp only at h ⊢
    split_ifs at h ⊢
    · rfl
    · simp only [List.cons_append, List.nil_append, covers_cons, reduceCtorEq, false_and, true_and,
        false_or, not_or] at h
      exact (Buffer.store_of_not h.1).trans (Buffer.store_of_not h.2.1)
    · exact Buffer.store_of_not fun hk => h (by simp [hk])
    · exact Buffer.store_of_not fun hk => h (by simp [hk])
    · exact Buffer.store_of_not fun hk => h (by simp [hk])
  | _ =>
    rw [pciConfigWrite]
    dsimp only
    split_ifs <;> rfl

/-- The control of MSI-X is among the bytes written, if these go beyond it. -/
theorem le16_store_congr (buf buf' : Buffer) {offset len j : ℕ} (hle : offset ≤ j)
    (hlt : j + 2 ≤ offset + len) :
    (buf'.store offset len data).le16 j = (buf.store offset len data).le16 j := by
  have hbyte (i : ℕ) (hi : offset ≤ i ∧ i < offset + len) :
      buf'.store offset len data i = buf.store offset len data i := by
    rw [Buffer.store, Buffer.store, if_pos hi, if_pos hi]
  rw [Buffer.le16, Buffer.le16, hbyte j (by omega), hbyte (j + 1) (by omega)]

/-- The sum being one of 32 bits, the bytes themselves go beyond the control, too. -/
theorem control_lt (h : offset ≤ 0x42 ∧ offset + count ≥ 0x44) :
    offset.toNat ≤ 0x42 ∧ 0x42 + 2 ≤ offset.toNat + count.toNat := by
  obtain ⟨hle, hge⟩ := h
  rw [UInt32.le_iff_toNat_le] at hle
  rw [GE.ge, UInt32.le_iff_toNat_le, UInt32.toNat_add] at hge
  exact ⟨hle, Nat.le_trans hge (Nat.mod_le _ _)⟩

theorem Agree.pciConfigWrite (h : d.Agree places d') :
    (d.pciConfigWrite offset count data).2.Agree places
      (d'.pciConfigWrite offset count data).2 := by
  rw [VfioDevice.pciConfigWrite, VfioDevice.pciConfigWrite]
  dsimp only
  split_ifs with hbeyond hctrl hlow hhigh
  · exact h
  · -- the control is made of bytes of the data
    have hle := control_lt hctrl
    rw [le16_store_congr d.pciConfig d'.pciConfig hle.1 hle.2]
    refine ⟨h.vfio, rfl, fun a k hk => ?_⟩
    have hbytes := h.bytes a k hk
    cases a with
    | pciConfig => exact store_agree (store_agree hbytes)
    | _ => exact hbytes
  all_goals
    refine ⟨h.vfio, h.msixEnabled, fun a k hk => ?_⟩
    have hbytes := h.bytes a k hk
    cases a with
    | pciConfig => exact store_agree hbytes
    | _ => exact hbytes

theorem writeTold (d : VfioDevice) (msg : RegionMsg) (fuel : ℕ) (info : Ctrl → Command → Buffer) :
    d.WriteTold msg fuel info := by
  constructor
  · intro d₁ hd₁ a k hk
    rw [handleRegionWrite] at hd₁ hk
    dsimp only at hd₁ hk
    rw [covers_cons, not_or] at hk
    split_ifs at hd₁ hk
    · cases hd₁
      exact pciConfigWrite_keeps hk.2
    · exact bar0Write_keeps hd₁ hk.2
    · cases hd₁
      rfl
  · intro places d' h d₁ hd₁
    rw [handleRegionWrite] at hd₁ ⊢
    split_ifs at hd₁ ⊢
    · cases hd₁
      exact ⟨_, rfl, h.pciConfigWrite⟩
    · exact h.bar0Write hd₁
    · cases hd₁
      exact ⟨d', rfl, h⟩

end

end VfioDevice

/-! ## All devices -/

/-- The places of the areas that hold the regions. -/
def Inside (msg : RegionMsg) (a : RegionArea) (k : ℕ) : Prop := k < a.size msg

/-- Whatever the device, a read changes no byte that is not of an area, and its reply has room for
    the data, and depends on no byte that is not of an area, and on none at all if what is asked for
    does not begin in the region. -/
structure ReadFramed (msg : RegionMsg) : Prop where
  keeps : ∀ (d : VfioDevice) a k, ¬ Inside msg a k →
    (d.handleRegionRead msg).2.2.bytes a k = d.bytes a k
  reply : ∀ d d' : VfioDevice, d.Agree (Inside msg) d' →
    (d'.handleRegionRead msg).2.1 = (d.handleRegionRead msg).2.1
  room : ∀ (d : VfioDevice) k, ¬ Inside msg .reply (16 + k) →
    (d.handleRegionRead msg).2.1.data k = 0
  asked : regionSize msg.region ≤ msg.offset.toNat → ∀ d d' : VfioDevice,
    d.Agree (fun _ _ => False) d' →
      (d'.handleRegionRead msg).2.1 = (d.handleRegionRead msg).2.1

/-- Whatever the device, a write changes no byte that is not of an area, and depends on none, and it
    changes no byte at all if what it asks for is not in the region. -/
structure WriteFramed (msg : RegionMsg) : Prop where
  keeps : ∀ (d : VfioDevice) fuel info d₁, (d.handleRegionWrite fuel info msg).2 = some d₁ →
    ∀ a k, ¬ Inside msg a k → d₁.bytes a k = d.bytes a k
  agree : ∀ (d d' : VfioDevice) fuel info, d.Agree (Inside msg) d' →
    ∀ d₁, (d.handleRegionWrite fuel info msg).2 = some d₁ →
      ∃ d₁', (d'.handleRegionWrite fuel info msg).2 = some d₁' ∧ d₁.Agree (Inside msg) d₁'
  asked : regionSize msg.region < msg.offset.toNat + msg.count.toNat →
    ∀ (d : VfioDevice) fuel info d₁, (d.handleRegionWrite fuel info msg).2 = some d₁ →
      d₁.bytes = d.bytes

/-- A byte of a region that is accessed is one of its area, if the accesses are within. -/
theorem inside_of_covers {l : List (Span RegionArea)} {a : RegionArea} {k : ℕ}
    (h : RegionWithin msg l) (ha : a ≠ .payload) (hk : Covers l a k) : Inside msg a k := by
  obtain ⟨s, hs, rfl, hle, hlt⟩ := hk
  exact (h s hs ha).lt hle hlt

theorem accessed_of_covers {l : List (Span RegionArea)} {a : RegionArea} {k : ℕ}
    (ha : a.Backing) (hk : Covers l a k) : Accessed l := by
  obtain ⟨s, hs, rfl, hle, hlt⟩ := hk
  exact ⟨s, hs, ha, by omega⟩

/-- A write to the configuration space that is not beyond it sets some byte, whatever there was
    before. -/
theorem pciConfigWrite_sets {offset count : UInt32} (data : Buffer) (hsum : ¬ offset + count > 256)
    (hne : count ≠ 0) :
    ∃ k b, ∀ d : VfioDevice, (d.pciConfigWrite offset count data).2.pciConfig k = b := by
  have hset (offset len : ℕ) (hlen : 0 < len) (data buf : Buffer) :
      buf.store offset len data offset = data 0 := by
    rw [Buffer.store, if_pos (by omega), Nat.sub_self]
  by_cases hctrl : offset ≤ 0x42 ∧ offset + count ≥ 0x44
  · have hle := control_lt hctrl
    refine ⟨0x42, valueBytes (((bufferOf []).store offset.toNat count.toNat data).le16 0x42 &&&
      0xC000).toUInt32 0, fun d => ?_⟩
    rw [pciConfigWrite, if_neg hsum, if_pos hctrl]
    dsimp only
    rw [hset 0x42 2 (by decide), le16_store_congr (bufferOf []) _ hle.1 hle.2]
  · by_cases hlow : offset = 0x10 ∧ count = 4
    · refine ⟨0x10, valueBytes (barLow (data.le32 0)) 0, fun d => ?_⟩
      rw [pciConfigWrite, if_neg hsum, if_neg hctrl, if_pos hlow]
      exact hset 0x10 4 (by decide) (valueBytes (barLow (data.le32 0))) d.pciConfig
    · by_cases hhigh : offset = 0x14 ∧ count = 4
      · refine ⟨0x14, valueBytes (barHigh (data.le32 0)) 0, fun d => ?_⟩
        rw [pciConfigWrite, if_neg hsum, if_neg hctrl, if_neg hlow, if_pos hhigh]
        exact hset 0x14 4 (by decide) (valueBytes (barHigh (data.le32 0))) d.pciConfig
      · refine ⟨offset.toNat, data 0, fun d => ?_⟩
        rw [pciConfigWrite, if_neg hsum, if_neg hctrl, if_neg hlow, if_neg hhigh]
        exact hset _ _ (Nat.pos_of_ne_zero fun hzero => hne (UInt32.toNat_inj.1 hzero)) _ _

/-- There are two devices that differ in one byte of the configuration space. -/
theorem exists_differ (k : ℕ) : ∃ d d' : VfioDevice, d.Agree (fun _ _ => False) d' ∧
    d'.pciConfig k ≠ d.pciConfig k := by
  obtain ⟨ftl⟩ : Nonempty Ftl := ⟨(Ftl.powerOn (fun _ => 0) fun _ => none).2⟩
  have d := VfioDevice.init (Vfio.init (fun _ => 0) ftl ⟨[], fun _ _ => 0⟩) (bufferOf [])
  refine ⟨d, { d with pciConfig := fun _ => d.pciConfig k + 1 },
    ⟨rfl, rfl, fun _ _ h => absurd h not_false⟩, ?_⟩
  simp

theorem readFramed_iff : ReadFramed msg ↔ ¬ ReadWraps msg := by
  constructor
  · rintro h ⟨hpci, hge, hle⟩
    obtain ⟨c, hc, hmin⟩ := exists_clipped msg
    rw [← hmin] at hge hle
    have hoffset : regionSize msg.region ≤ msg.offset.toNat := by
      have hcount : c.toNat ≤ vfioBar0Size := hmin ▸ Nat.min_le_right _ _
      simp only [regionSize, if_pos hpci, vfioPciConfigSize, vfioBar0Size] at hcount ⊢
      omega
    -- the first byte of the reply is one far beyond the space
    have hpos : 0 < (pciCount msg.offset c).toNat := by
      have hspec := (pciCount_spec msg.offset (hmin ▸ Nat.min_le_right _ _)).2
      exact Nat.pos_of_ne_zero fun hzero => hspec.1 (Or.inl hzero) ⟨hge, hle⟩
    have hfirst (d : VfioDevice) :
        (d.handleRegionRead msg).2.1.data 0 = d.pciConfig msg.offset.toNat := by
      simp only [handleRegionRead, hc, if_pos hpci]
      rw [Buffer.store, if_pos (by omega), Nat.sub_zero, Nat.add_zero]
    obtain ⟨d, d', hagree, hne⟩ := exists_differ msg.offset.toNat
    refine hne ?_
    rw [← hfirst, ← hfirst, h.asked hoffset d d' hagree]
  · intro hwraps
    have hin (d : VfioDevice) := (regionRead_within_iff (d := d)).2 hwraps
    constructor
    · intro d a k hk
      by_cases ha : a = .payload
      · rw [ha]
        rfl
      · exact (readTold d msg).keeps a k fun hcovers => hk (inside_of_covers (hin d).1 ha hcovers)
    · intro d d' h
      refine (readTold d msg).reply d' ⟨h.vfio, h.msixEnabled, fun a k hcovers => ?_⟩
      by_cases ha : a = .payload
      · rw [ha]
        rfl
      · exact h.bytes a k (inside_of_covers (hin d).1 ha hcovers)
    · exact fun d k hk => (readTold d msg).room k fun hcovers =>
        hk (inside_of_covers (hin d).1 (by decide) hcovers)
    · intro hbeyond d d' h
      refine (readTold d msg).reply d' ⟨h.vfio, h.msixEnabled, fun a k hcovers => ?_⟩
      by_cases ha : a.Backing
      · exact absurd ((hin d).2 (accessed_of_covers ha hcovers)) (Nat.not_lt.2 hbeyond)
      · rw [bytes_of_not_backing ha, bytes_of_not_backing ha]

theorem writeFramed_iff : WriteFramed msg ↔ ¬ WriteWraps msg := by
  constructor
  · rintro h ⟨hpci, hne, hle, hlt⟩
    have hsum : ¬ msg.offset.toUInt32 + msg.count > 256 := fun hgt =>
      Nat.not_lt_of_le hle (UInt32.lt_iff_toNat_lt.1 hgt)
    obtain ⟨k, b, hset⟩ := pciConfigWrite_sets msg.data hsum hne
    have hkept (d : VfioDevice) : d.pciConfig k = b := by
      have hsame := h.asked (by rwa [regionSize, if_pos hpci]) d 0 (fun _ _ => bufferOf []) _
        (by rw [handleRegionWrite, if_pos hpci])
      rw [← hset d]
      exact (congrFun (congrFun hsame .pciConfig) k).symm
    obtain ⟨d, d', -, hne'⟩ := exists_differ k
    exact hne' ((hkept d').trans (hkept d).symm)
  · intro hwraps
    have hin (d : VfioDevice) fuel info :=
      (@regionWrite_within_iff d msg fuel info).2 hwraps
    constructor
    · intro d fuel info d₁ hd₁ a k hk
      by_cases ha : a = .payload
      · rw [ha]
        rfl
      · exact (writeTold d msg fuel info).keeps d₁ hd₁ a k fun hcovers =>
          hk (inside_of_covers (hin d fuel info).1 ha hcovers)
    · exact fun d d' fuel info h d₁ hd₁ => (writeTold d msg fuel info).agree _ d' h d₁ hd₁
    · intro hbeyond d fuel info d₁ hd₁
      funext a k
      by_cases ha : a.Backing
      · exact (writeTold d msg fuel info).keeps d₁ hd₁ a k fun hcovers =>
          absurd ((hin d fuel info).2 (accessed_of_covers ha hcovers)) (Nat.not_le.2 hbeyond)
      · rw [bytes_of_not_backing ha, bytes_of_not_backing ha]

/-- What the spans of a message about a region tell is all that is accessed. They are within the
    areas that hold the region and within the reply, and there are any of a region only if what the
    message asks for begins in it, or is in it if it writes, unless the offset and the count wrap
    around in the configuration space; and so it is, for all devices, with the bytes themselves. -/
theorem region_within_iff (d : VfioDevice) (msg : RegionMsg) (fuel : ℕ)
    (info : Ctrl → Command → Buffer) :
    (d.ReadTold msg ∧ d.WriteTold msg fuel info) ∧
    ((RegionWithin msg (d.handleRegionRead msg).1 ∧
      (Accessed (d.handleRegionRead msg).1 → msg.offset.toNat < regionSize msg.region)) ↔
      ¬ ReadWraps msg) ∧
    (ReadFramed msg ↔ ¬ ReadWraps msg) ∧
    ((RegionWithin msg (d.handleRegionWrite fuel info msg).1 ∧
      (Accessed (d.handleRegionWrite fuel info msg).1 →
        msg.offset.toNat + msg.count.toNat ≤ regionSize msg.region)) ↔
      ¬ WriteWraps msg) ∧
    (WriteFramed msg ↔ ¬ WriteWraps msg) :=
  ⟨⟨readTold d msg, writeTold d msg fuel info⟩, regionRead_within_iff, readFramed_iff,
    regionWrite_within_iff, writeFramed_iff⟩

/-- A message about the configuration space, with zeros for data. -/
def pciMsg (offset₁ offset₂ count : UInt32) : RegionMsg :=
  ⟨bufferOf (wordBytes offset₁ ++ wordBytes offset₂ ++ wordBytes 7 ++ wordBytes count), 4096⟩

/-- A read of two bytes of the configuration space at `2 ^ 64 - 1` is not within it, and neither is
    a write of four bytes at `2 ^ 32 - 2`: their replies, or what they change, are bytes beyond. -/
theorem region_not_within :
    (¬ ReadFramed (pciMsg 0xFFFFFFFF 0xFFFFFFFF 2) ∧
      ¬ ∀ (d : VfioDevice) (msg : RegionMsg), RegionWithin msg (d.handleRegionRead msg).1) ∧
    ¬ WriteFramed (pciMsg 0xFFFFFFFE 0 4) ∧
      ¬ ∀ (d : VfioDevice) (msg : RegionMsg) (fuel : ℕ) (info : Ctrl → Command → Buffer),
        RegionWithin msg (d.handleRegionWrite fuel info msg).1 := by
  have hread : ReadWraps (pciMsg 0xFFFFFFFF 0xFFFFFFFF 2) := by
    refine ⟨rfl, ?_, ?_⟩ <;> decide
  have hwrite : WriteWraps (pciMsg 0xFFFFFFFE 0 4) := by
    refine ⟨rfl, ?_, ?_, ?_⟩ <;> decide
  refine ⟨⟨fun h => readFramed_iff.1 h hread, ?_⟩, fun h => writeFramed_iff.1 h hwrite, ?_⟩
  · intro h
    obtain ⟨d, -⟩ := exists_differ 0
    have hread : (d.handleRegionRead (pciMsg 0xFFFFFFFF 0xFFFFFFFF 2)).1 =
        [⟨.payload, 0, 16⟩, ⟨.pciConfig, 2 ^ 64 - 1, 2⟩, ⟨.reply, 16, 2⟩, ⟨.reply, 0, 18⟩] := rfl
    have hin := hread ▸ h d (pciMsg 0xFFFFFFFF 0xFFFFFFFF 2)
    simp [within_iff, RegionArea.size, vfioPciConfigSize] at hin
  · intro h
    obtain ⟨d, -⟩ := exists_differ 0
    have hwrite : (d.handleRegionWrite 0 (fun _ _ => bufferOf []) (pciMsg 0xFFFFFFFE 0 4)).1 =
        [⟨.payload, 0, 16⟩, ⟨.payload, 16, 4⟩, ⟨.pciConfig, 2 ^ 32 - 2, 4⟩] := rfl
    have hin := hwrite ▸ h d (pciMsg 0xFFFFFFFE 0 4) 0 fun _ _ => bufferOf []
    simp [within_iff, RegionArea.size, vfioPciConfigSize] at hin

end Nvme

end FtlFirmware
