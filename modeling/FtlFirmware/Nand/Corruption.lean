import FtlFirmware.Nand.Effect
import FtlFirmware.Nand.Hamming

/-!
# Corrupted pages

What a read gives back of a page that holds its data after bits of its data area have been flipped
(`corrupt`). The ECC area is not touched.

A read answers that all is well whatever the decoder says, so what counts is what the decoder leaves
in the buffer:

* no flip, or one: the page as it was only if the flipped bit is one of the first byte;
* the same bit of two bytes: their codes cancel, and nothing is noticed (`decode_flips_same`);
* two different bits: their codes add up to that of no bit, and the buffer is handed over as it is,
  with the damage only logged (`decode_flips_diff`).

* `pageRead_corrupted_iff`: with at most two flipped bits, what is read as well is what has been
  written if and only if no bit has been flipped, or a single one of the first byte.
-/

namespace FtlFirmware

variable {len : ℕ} {data : Vector UInt8 len} {i j b c : ℕ}

/-- A buffer with several bits flipped, one after the other. -/
def flipBits (data : Vector UInt8 len) (flips : List (ℕ × ℕ)) : Vector UInt8 len :=
  flips.foldl (fun data (i, bit) => flipBit data i bit) data

/-- The flip of the same bit in two bytes is not noticed. -/
theorem decode_flips_same (hi : i < len) (hj : j < len) :
    eccHammingDecode (flipBit (flipBit data i b) j b) (hammingEcc data) =
      (.ok, flipBit (flipBit data i b) j b) := by
  have hecc : hammingEcc (flipBit (flipBit data i b) j b) = hammingEcc data := by
    rw [hammingEcc_flipBit hj, hammingEcc_flipBit hi, UInt32.xor_assoc, UInt32.xor_self,
      UInt32.xor_zero]
  rw [← hecc]
  exact eccHammingDecode_self _ (Nat.ne_zero_of_lt hi)

/-- The flips of two different bits are noticed, and not corrected. -/
theorem decode_flips_diff (hi : i < len) (hj : j < len) (hb : b < 8) (hc : c < 8) (hbc : b ≠ c) :
    eccHammingDecode (flipBit (flipBit data i b) j c) (hammingEcc data) =
      (.uncorrectable, flipBit (flipBit data i b) j c) := by
  have hecc : hammingEcc (flipBit (flipBit data i b) j c) =
      hammingEcc data ^^^ (bitCode b ^^^ bitCode c) := by
    rw [hammingEcc_flipBit hj, hammingEcc_flipBit hi, UInt32.xor_assoc]
  refine eccHammingDecode_none (Nat.ne_zero_of_lt hi) ?_ fun d hd => ?_
  · rw [hecc, Ne, xor_eq_self_iff, UInt32.xor_eq_zero_iff, bitCode_inj hb hc]
    exact hbc
  · rw [hecc, Ne, UInt32.xor_right_inj]
    exact bitCode_xor_ne hb hc hbc hd

/-- What the decoder leaves in a buffer after at most two different flips is the buffer as it was if
    and only if there has been none, or one in the first byte. -/
theorem decode_flipBits_iff (data : Vector UInt8 len) {flips : List (ℕ × ℕ)} (hlen : len ≠ 0)
    (hflips : ∀ flip ∈ flips, flip ∈ bitPositions len) (hnodup : flips.Nodup)
    (hcount : flips.length ≤ 2) :
    (eccHammingDecode (flipBits data flips) (hammingEcc data)).2 = data ↔
      flips = [] ∨ ∃ bit, flips = [(0, bit)] := by
  obtain _ | ⟨⟨i, b⟩, _ | ⟨⟨j, c⟩, flips⟩⟩ := flips
  · rw [flipBits, List.foldl_nil, eccHammingDecode_self _ hlen]
    exact iff_of_true rfl (Or.inl rfl)
  · obtain ⟨hi, hb⟩ := mem_bitPositions.1 (hflips _ List.mem_cons_self)
    rw [flipBits, List.foldl_cons, List.foldl_nil, eccHammingDecode_flipBit hi hb,
      flipBit_flipBit_eq_iff hi hb hb]
    simp
  · obtain rfl : flips = [] := by simpa using hcount
    obtain ⟨hi, hb⟩ := mem_bitPositions.1 (hflips _ List.mem_cons_self)
    obtain ⟨hj, hc⟩ := mem_bitPositions.1 (hflips _ (List.mem_cons_of_mem _ List.mem_cons_self))
    have hdiff : ¬ (i = j ∧ b = c) := by simpa using hnodup
    have hne : (eccHammingDecode (flipBit (flipBit data i b) j c) (hammingEcc data)).2 ≠ data := by
      rcases eq_or_ne b c with rfl | hbc
      · rw [decode_flips_same hi hj, Ne, flipBit_flipBit_eq_iff hi hb hb]
        exact hdiff
      · rw [decode_flips_diff hi hj hb hc hbc, Ne, flipBit_flipBit_eq_iff hi hb hc]
        exact hdiff
    exact iff_of_false hne (by simp)

namespace Nand

variable {n n₁ : Nand} {block page : ℕ} {d buf : PageData} {flips : List (ℕ × ℕ)}

/-- The device after bits of the data area of a page have been flipped. -/
def corrupt (n : Nand) (block page : ℕ) (flips : List (ℕ × ℕ)) : Nand :=
  { n with
    media :=
      { data := Function.update n.media.data (block, page)
          (flipBits (n.media.data (block, page)) flips)
        oob := n.media.oob } }

/-- What is read of a corrupted page. -/
theorem Holds.pageRead_corrupt (h : n.Holds block page d) (flips : List (ℕ × ℕ)) (buf : PageData) :
    ∃ n₂, (n.corrupt block page flips).pageRead block page buf =
      (.ok, (eccHammingDecode (flipBits d flips) (hammingEcc d)).2, n₂) := by
  have hacc : (n.corrupt block page flips).Accessible block page :=
    ⟨h.blockValid, h.page_lt, h.good⟩
  have hback : (n.corrupt block page flips).readBack block page =
      eccHammingDecode (flipBits d flips) (hammingEcc d) := by
    have hdata : (n.corrupt block page flips).media.data (block, page) = flipBits d flips := by
      rw [← h.data]
      exact Function.update_self _ _ _
    rw [Nand.readBack, hdata]
    exact (if_pos h.magic).trans (congrArg _ h.ecc)
  rw [pageRead_of_valid hacc h.valid, hback]
  exact ⟨_, rfl⟩

/-- A page that has been written holds its data. -/
theorem holds_pageWrite (hwrite : n.pageWrite block page d = (.ok, n₁)) :
    n₁.Holds block page d := by
  rcases n.pageWrite_cases block page d with ⟨hacc, _, heq⟩ | ⟨ret, hret, heq, _⟩
  · rw [heq] at hwrite
    obtain rfl := (Prod.mk.inj hwrite).2
    exact holds_program hacc
  · rw [heq] at hwrite
    exact absurd (Prod.mk.inj hwrite).1 hret

/-- Flips of the same bit of two bytes: the page is read as well, with other data. -/
theorem Holds.pageRead_pair (h : n.Holds block page d) (hi : i < pageSize) (hj : j < pageSize)
    (hij : i ≠ j) (hb : b < 8) (buf : PageData) :
    ∃ altered n₂, altered ≠ d ∧
      (n.corrupt block page [(i, b), (j, b)]).pageRead block page buf = (.ok, altered, n₂) := by
  obtain ⟨n₂, hread⟩ := h.pageRead_corrupt [(i, b), (j, b)] buf
  refine ⟨_, n₂, ?_, hread⟩
  rw [flipBits, List.foldl_cons, List.foldl_cons, List.foldl_nil, decode_flips_same hi hj, Ne,
    flipBit_flipBit_eq_iff hi hb hb]
  exact fun heq => hij heq.1

/-- A device of new media, the first page of which can be written. -/
def sampleDevice : Nand := Nand.init none fun _ => 99

theorem sampleDevice_write :
    sampleDevice.pageWrite 0 0 blankPage = (.ok, sampleDevice.program 0 0 blankPage) :=
  pageWrite_of_invalid ⟨by decide, by decide, by decide⟩ (by decide)

/-- A page that has been written, and of whose data area at most two bits have been flipped since,
    is not read as well with other data if and only if no bit has been flipped, or a single one of
    the first byte. -/
theorem pageRead_corrupted_iff (hwrite : n.pageWrite block page d = (.ok, n₁))
    (hflips : ∀ flip ∈ flips, flip ∈ bitPositions pageSize) (hnodup : flips.Nodup)
    (hcount : flips.length ≤ 2) (buf : PageData) :
    (((n₁.corrupt block page flips).pageRead block page buf).1 = .ok →
      ((n₁.corrupt block page flips).pageRead block page buf).2.1 = d) ↔
      flips = [] ∨ ∃ bit, flips = [(0, bit)] := by
  obtain ⟨n₂, hread⟩ := (holds_pageWrite hwrite).pageRead_corrupt flips buf
  rw [hread, ← decode_flipBits_iff d (by decide) hflips hnodup hcount]
  exact forall_prop_of_true rfl

/-- A flipped bit of the first byte of a page is corrected when it is read. -/
theorem first_byte_read_intact :
    (((sampleDevice.program 0 0 blankPage).corrupt 0 0 [(0, 5)]).pageRead 0 0 blankPage).1 ≠ .ok ∨
      (((sampleDevice.program 0 0 blankPage).corrupt 0 0 [(0, 5)]).pageRead 0 0 blankPage).2.1 =
        blankPage :=
  not_or_of_imp ((pageRead_corrupted_iff sampleDevice_write (by simp [mem_bitPositions, pageSize])
    (by simp) (by simp) blankPage).2 (Or.inr ⟨5, rfl⟩))

/-- Two flips of the same bit are not noticed. -/
theorem flipped_pair_read_altered :
    ¬ ∀ (n n₁ : Nand) (block page : ℕ) (d buf : PageData) (flips : List (ℕ × ℕ)),
      n.pageWrite block page d = (.ok, n₁) → (∀ flip ∈ flips, flip ∈ bitPositions pageSize) →
        flips.Nodup → flips.length ≤ 2 →
          ((n₁.corrupt block page flips).pageRead block page buf).1 = .ok →
            ((n₁.corrupt block page flips).pageRead block page buf).2.1 = d := by
  intro hall
  have hflips : ∀ flip ∈ [(7, 0), (8, 0)], flip ∈ bitPositions pageSize := by
    simp [mem_bitPositions, pageSize]
  have hnodup : [(7, 0), (8, 0)].Nodup := by simp
  obtain ⟨altered, n₂, hne, hread⟩ := (holds_pageWrite sampleDevice_write).pageRead_pair
    (by decide : 7 < pageSize) (by decide : 8 < pageSize) (by decide) (by decide : 0 < 8) blankPage
  have hsame := hall _ _ 0 0 blankPage blankPage _ sampleDevice_write hflips hnodup le_rfl
  rw [hread] at hsame
  exact hne (hsame rfl)

end Nand

end FtlFirmware
