import FtlFirmware.Nand.Corruption
import FtlFirmware.Utils.Errors

/-!
# Corrupted pages with a checksum

What a read with a CRC makes of a page that has been written with its CRC, after bits of its data
area have been flipped. The page is decoded twice, with the Hamming code first, and each time the
decoder may flip a bit of its own. The CRC is compared after that.

The second decoder leaves in the buffer what the first one has left in it (`eccDecode_decoded`).
That differs from the page as it was in at most two bits (`decoded_flips`), and so the CRC notices
whether it differs at all (`crc32Calculate_flipBits`).

* `pageReadWithCrc_corrupted`: with at most two flipped bits, or one with the BCH code, the read is
  in order if and only if the data are those that have been written.
-/

namespace FtlFirmware

variable {len : ℕ} {data : Vector UInt8 len} {ecc : UInt32} {flips : List (ℕ × ℕ)}

/-- The decoder leaves the buffer as it is, or it flips a bit after which the ECC agrees. -/
theorem eccHammingDecode_cases (hlen : len ≠ 0) (data : Vector UInt8 len) (ecc : UInt32) :
    (eccHammingDecode data ecc).2 = data ∨ ∃ flip ∈ bitPositions len,
      eccHammingDecode data ecc = (.corrected, flipBits data [flip]) ∧
        hammingEcc (flipBits data [flip]) = ecc := by
  rw [eccHammingDecode, if_neg hlen]
  split_ifs with hecc
  · exact Or.inl rfl
  · split
    · rename_i i bit hfind
      have hagree := List.find?_some hfind
      exact Or.inr ⟨(i, bit), List.mem_of_find?_eq_some hfind, rfl, of_decide_eq_true hagree⟩
    · exact Or.inl rfl

/-- Decoding twice is decoding once. -/
theorem eccHammingDecode_twice (hlen : len ≠ 0) (data : Vector UInt8 len) (ecc : UInt32) :
    (eccHammingDecode (eccHammingDecode data ecc).2 ecc).2 = (eccHammingDecode data ecc).2 := by
  rcases eccHammingDecode_cases hlen data ecc with hsame | ⟨flip, _, heq, hecc⟩
  · rw [hsame, hsame]
  · rw [heq]
    dsimp only
    rw [← hecc, eccHammingDecode_self _ hlen]

/-- At most two flipped bits are noticed by the CRC, unless the second one undoes the first one. -/
theorem crc32Calculate_flipBits (hlen : 8 * len < 2 ^ 32)
    (hflips : ∀ flip ∈ flips, flip ∈ bitPositions len) (hcount : flips.length ≤ 2) :
    crc32Calculate (flipBits data flips) = crc32Calculate data ↔ flipBits data flips = data := by
  refine ⟨fun hcrc => ?_, congrArg _⟩
  rw [crc32Calculate_inj] at hcrc
  obtain _ | ⟨⟨i, b⟩, _ | ⟨⟨j, c⟩, flips⟩⟩ := flips
  · rfl
  · obtain ⟨hi, hb⟩ := mem_bitPositions.1 (hflips _ List.mem_cons_self)
    exact absurd hcrc (crc32Register_flipBit_ne hi hb)
  · obtain rfl : flips = [] := by simpa using hcount
    obtain ⟨hi, hb⟩ := mem_bitPositions.1 (hflips _ List.mem_cons_self)
    obtain ⟨hj, hc⟩ := mem_bitPositions.1 (hflips _ (List.mem_cons_of_mem _ List.mem_cons_self))
    have hplace : 8 * i + b = 8 * j + c :=
      ((crc32Register_flipBit_flipBit hi hb hj hc).1 hcrc).eq_of_lt_of_lt (by omega) (by omega)
    exact (flipBit_flipBit_eq_iff hi hb hc).2 (by omega)

namespace Nand

variable {n n₀ n₁ n₂ : Nand} {block page : ℕ} {algo : EccAlgo} {d buf got : PageData}
  {ret : RetCode}

/-- The code of a read with a CRC says whether the CRC agrees with what is handed over. -/
theorem checkCrc_fst (oob : Oob) (decoded : EccResult × PageData) :
    (n.checkCrc oob decoded).1 =
      if crc32Calculate decoded.2 = oob.crc32 then .ok else .errChecksum := by
  rw [checkCrc]
  by_cases heq : crc32Calculate decoded.2 = oob.crc32
  · rw [if_pos heq, if_neg (not_not.2 heq)]
    split_ifs <;> rfl
  · rw [if_neg heq, if_pos heq, if_neg fun hboth => heq hboth.2]

theorem checkCrc_snd (oob : Oob) (decoded : EccResult × PageData) :
    (n.checkCrc oob decoded).2.1 = decoded.2 := by
  rw [checkCrc]
  split_ifs <;> rfl

/-- What the decoders that can be selected leave of a page that has been decoded before is what they
    have been given. -/
theorem eccDecode_decoded (halgo : algo = .hamming ∨ algo = .bch) (d : PageData) (ecc : UInt32) :
    (eccDecode algo (eccHammingDecode d ecc).2 ecc).2 = (eccHammingDecode d ecc).2 := by
  obtain rfl | rfl := halgo
  · exact eccHammingDecode_twice (by decide) d ecc
  · exact thresholdDecode_snd

/-- What is read of a corrupted page that has been written with its CRC. -/
theorem Stores.pageReadWithCrc_corrupt (h : n.Stores block page d)
    (halgo : n.eccAlgo = .hamming ∨ n.eccAlgo = .bch) (flips : List (ℕ × ℕ)) (buf : PageData)
    (hread : (n.corrupt block page flips).pageReadWithCrc block page buf = (ret, got, n₂)) :
    got = (eccHammingDecode (flipBits d flips) (eccEncode n.eccAlgo d)).2 ∧
      ret = if crc32Calculate got = crc32Calculate d then .ok else .errChecksum := by
  have hacc : (n.corrupt block page flips).Accessible block page :=
    ⟨h.blockValid, h.page_lt, h.good⟩
  have hback : (n.corrupt block page flips).readBack block page =
      eccHammingDecode (flipBits d flips) (eccEncode n.eccAlgo d) := by
    have hdata : (n.corrupt block page flips).media.data (block, page) = flipBits d flips := by
      rw [← h.data]
      exact Function.update_self _ _ _
    have hoob : (n.corrupt block page flips).media.oob (block, page) = n.crcOob d := h.oob
    rw [Nand.readBack, hdata, hoob]
    exact if_pos rfl
  rw [Nand.pageReadWithCrc, pageRead_of_valid hacc h.valid, hback] at hread
  dsimp only at hread
  -- the accounts of the first decoder change neither the algorithm nor the OOB area
  generalize hn : (n.corrupt block page flips).countRead block _ = n₃ at hread
  have hoob : n₃.oobRead block page = .ok (n.crcOob d) := by
    have hgood : (n₃.blocks block).state ≠ .bad := by
      rw [← hn, countRead_blocks, Function.update_self]
      exact h.good
    have hvalid : n₃.isBlockValid block := by
      rw [← hn]
      exact h.blockValid
    rw [oobRead, if_neg (not_or.2 ⟨not_not.2 hvalid, Nat.not_le.2 h.page_lt⟩), if_neg hgood, ← hn]
    exact congrArg _ h.oob
  have hkept : n₃.eccAlgo = n.eccAlgo := by rw [← hn]; rfl
  have hmagic : (n.crcOob d).magic = oobMagic := rfl
  rw [hoob] at hread
  dsimp only at hread
  rw [if_neg (not_not.2 hmagic), hkept] at hread
  have hgot : (eccHammingDecode (flipBits d flips) (eccEncode n.eccAlgo d)).2 = got := by
    have hsnd := congrArg (fun read => read.2.1) hread
    rw [checkCrc_snd] at hsnd
    exact (eccDecode_decoded halgo _ _).symm.trans hsnd
  have hret := congrArg Prod.fst hread
  rw [checkCrc_fst] at hret
  refine ⟨hgot.symm, hret.symm.trans ?_⟩
  rw [← hgot]
  exact congrArg (fun data => if crc32Calculate data = crc32Calculate d then _ else _)
    (eccDecode_decoded halgo _ _)

/-- What the first decoder leaves of a page with at most one flipped bit, or two if its ECC is the
    one that it takes it for, differs from the page as it was in at most two bits. -/
theorem decoded_flips (halgo : algo = .hamming ∨ algo = .bch)
    (hflips : ∀ flip ∈ flips, flip ∈ bitPositions pageSize)
    (hcount : flips.length ≤ if algo = .hamming then 2 else 1) (d : PageData) :
    ∃ flips', (∀ flip ∈ flips', flip ∈ bitPositions pageSize) ∧ flips'.length ≤ 2 ∧
      (eccHammingDecode (flipBits d flips) (eccEncode algo d)).2 = flipBits d flips' := by
  rcases eccHammingDecode_cases (by decide) (flipBits d flips) (eccEncode algo d) with
    hsame | ⟨flip, hmem, heq, _⟩
  · exact ⟨flips, hflips, hcount.trans (by split_ifs <;> decide), hsame⟩
  · -- two bits, flipped in a page with its Hamming ECC, are not taken for one
    have hone : flips.length ≤ 1 := by
      by_contra htwo
      have hhamming : algo = .hamming := by
        by_contra hne
        exact htwo (by rwa [if_neg hne] at hcount)
      subst hhamming
      obtain _ | ⟨⟨i, b⟩, _ | ⟨⟨j, c⟩, flips⟩⟩ := flips
      · exact htwo (by simp)
      · exact htwo (by simp)
      · obtain rfl : flips = [] := by simpa using hcount
        obtain ⟨hi, hb⟩ := mem_bitPositions.1 (hflips _ List.mem_cons_self)
        obtain ⟨hj, hc⟩ :=
          mem_bitPositions.1 (hflips _ (List.mem_cons_of_mem _ List.mem_cons_self))
        have hfst := congrArg Prod.fst heq
        rcases eq_or_ne b c with rfl | hbc
        · exact absurd ((congrArg Prod.fst (decode_flips_same hi hj)).symm.trans hfst) (by simp)
        · exact absurd ((congrArg Prod.fst (decode_flips_diff hi hj hb hc hbc)).symm.trans hfst)
            (by simp)
    refine ⟨flips ++ [flip], ?_, ?_, ?_⟩
    · intro other hother
      rcases List.mem_append.1 hother with hother | hother
      · exact hflips other hother
      · obtain rfl := List.mem_singleton.1 hother
        exact hmem
    · rw [List.length_append]
      exact Nat.succ_le_succ hone
    · rw [heq, flipBits, flipBits, flipBits, List.foldl_append]

/-- The algorithm that has been selected. -/
theorem eccAlgo_of_eccSetAlgo (hset : n₀.eccSetAlgo algo = (.ok, n)) :
    n.eccAlgo = algo ∧ (algo = .hamming ∨ algo = .bch) := by
  rw [eccSetAlgo] at hset
  split_ifs at hset with hselect
  · exact absurd (Prod.mk.inj hset).1 (by simp)
  · obtain rfl := (Prod.mk.inj hset).2
    exact ⟨rfl, by tauto⟩

/-- A page that has been written with its CRC with one of the algorithms that can be selected, and
    of whose data area at most two bits have been flipped since, or one if that is the BCH code: the
    read with the CRC is in order if and only if it hands over the data that have been written, and
    else it says that the CRC does not agree. With the Hamming code it is in order if and only if no
    bit has been flipped, or a single one of the first byte. -/
theorem pageReadWithCrc_corrupted (hset : n₀.eccSetAlgo algo = (.ok, n))
    (hwrite : n.pageWriteWithCrc block page d = (.ok, n₁))
    (hflips : ∀ flip ∈ flips, flip ∈ bitPositions pageSize) (hnodup : flips.Nodup)
    (hcount : flips.length ≤ if algo = .hamming then 2 else 1)
    (hread : (n₁.corrupt block page flips).pageReadWithCrc block page buf = (ret, got, n₂)) :
    (ret = .ok ↔ got = d) ∧ (ret = .ok ∨ ret = .errChecksum) ∧
      (algo = .hamming → (ret = .ok ↔ flips = [] ∨ ∃ bit, flips = [(0, bit)])) := by
  obtain ⟨hstores, hkept⟩ := stores_pageWriteWithCrc hwrite
  obtain ⟨halgo, hselect⟩ := eccAlgo_of_eccSetAlgo hset
  rw [halgo] at hkept
  obtain ⟨hgot, hret⟩ := hstores.pageReadWithCrc_corrupt (hkept ▸ hselect) flips buf hread
  rw [hkept] at hgot
  obtain ⟨flips', hflips', hcount', hleft⟩ := decoded_flips hselect hflips hcount d
  have hcrc : crc32Calculate got = crc32Calculate d ↔ got = d := by
    rw [hgot, hleft]
    exact crc32Calculate_flipBits (by decide) hflips' hcount'
  have hok : ret = .ok ↔ got = d := by
    rw [hret, ← hcrc]
    exact ite_eq_left_iff.trans (by simp)
  refine ⟨hok, ?_, fun hhamming => ?_⟩
  · rw [hret]
    split_ifs
    · exact Or.inl rfl
    · exact Or.inr rfl
  · subst hhamming
    rw [hok, hgot]
    exact decode_flipBits_iff d (by decide) hflips hnodup hcount

/-- The device of new media, with the Hamming code. -/
def hammingDevice : Nand := { sampleDevice with eccAlgo := .hamming }

/-- Two flips of the same bit are not noticed by the Hamming code, but by the CRC. -/
theorem flipped_pair_read_with_crc :
    ∃ n₁ got n₂, hammingDevice.pageWriteWithCrc 0 0 blankPage = (.ok, n₁) ∧
      (n₁.corrupt 0 0 [(7, 0), (8, 0)]).pageReadWithCrc 0 0 blankPage = (.errChecksum, got, n₂) ∧
        got ≠ blankPage := by
  obtain ⟨n₁, hwrite⟩ : ∃ n₁, hammingDevice.pageWriteWithCrc 0 0 blankPage = (.ok, n₁) :=
    pageWriteWithCrc_of_invalid ⟨by decide, by decide, by decide⟩ (by decide) blankPage
  have hset : sampleDevice.eccSetAlgo .hamming = (.ok, hammingDevice) := rfl
  generalize hread : (n₁.corrupt 0 0 [(7, 0), (8, 0)]).pageReadWithCrc 0 0 blankPage = read
  obtain ⟨ret, got, n₂⟩ := read
  obtain ⟨hok, hret, hhamming⟩ := pageReadWithCrc_corrupted hset hwrite
    (by simp [mem_bitPositions, pageSize]) (by simp) (by simp) hread
  have hne : ret ≠ .ok := by
    rw [Ne, hhamming rfl]
    simp
  obtain rfl := hret.resolve_left hne
  exact ⟨n₁, got, n₂, hwrite, hread, fun heq => hne (hok.2 heq)⟩

end Nand

end FtlFirmware
