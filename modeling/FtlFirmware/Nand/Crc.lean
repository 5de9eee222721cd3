import FtlFirmware.Nand.Codes
import FtlFirmware.Nand.Effect

/-!
# Pages with a checksum

The page accesses that keep a CRC and the value of a selectable ECC in the OOB area
(`pageWriteWithCrc`, `pageReadWithCrc`). The write first writes the page in the plain way and then
replaces its OOB area. The read first reads the page in the plain way, which takes the ECC of the
OOB area for a Hamming ECC, whatever has been selected, and only then decodes with the selected
code.

With the Hamming code the two agree. With the BCH code, the plain read finds an error in a page that
has none, unless the two codes of the page happen to be the same.

* `pageReadWithCrc_written_iff`: a page that has been written is read as well, as it is and without
  an error being counted, if and only if the Hamming code is selected or the two codes of the page
  are the same.
-/

namespace FtlFirmware

/-- The table of the CRC (`crc32_table`). -/
def crc32Table : Array UInt32 := #[
  0x00000000, 0x77073096, 0xEE0E612C, 0x990951BA, 0x076DC419, 0x706AF48F, 0xE963A535, 0x9E6495A3,
  0x0EDB8832, 0x79DCB8A4, 0xE0D5E91E, 0x97D2D988, 0x09B64C2B, 0x7EB17CBD, 0xE7B82D07, 0x90BF1D91,
  0x1DB71064, 0x6AB020F2, 0xF3B97148, 0x84BE41DE, 0x1ADAD47D, 0x6DDDE4EB, 0xF4D4B551, 0x83D385C7,
  0x136C9856, 0x646BA8C0, 0xFD62F97A, 0x8A65C9EC, 0x14015C4F, 0x63066CD9, 0xFA0F3D63, 0x8D080DF5,
  0x3B6E20C8, 0x4C69105E, 0xD56041E4, 0xA2677172, 0x3C03E4D1, 0x4B04D447, 0xD20D85FD, 0xA50AB56B,
  0x35B5A8FA, 0x42B2986C, 0xDBBBC9D6, 0xACBCF940, 0x32D86CE3, 0x45DF5C75, 0xDCD60DCF, 0xABD13D59,
  0x26D930AC, 0x51DE003A, 0xC8D75180, 0xBFD06116, 0x21B4F4B5, 0x56B3C423, 0xCFBA9599, 0xB8BDA50F,
  0x2802B89E, 0x5F058808, 0xC60CD9B2, 0xB10BE924, 0x2F6F7C87, 0x58684C11, 0xC1611DAB, 0xB6662D3D,
  0x76DC4190, 0x01DB7106, 0x98D220BC, 0xEFD5102A, 0x71B18589, 0x06B6B51F, 0x9FBFE4A5, 0xE8B8D433,
  0x7807C9A2, 0x0F00F934, 0x9609A88E, 0xE10E9818, 0x7F6A0DBB, 0x086D3D2D, 0x91646C97, 0xE6635C01,
  0x6B6B51F4, 0x1C6C6162, 0x856530D8, 0xF262004E, 0x6C0695ED, 0x1B01A57B, 0x8208F4C1, 0xF50FC457,
  0x65B0D9C6, 0x12B7E950, 0x8BBEB8EA, 0xFCB9887C, 0x62DD1DDF, 0x15DA2D49, 0x8CD37CF3, 0xFBD44C65,
  0x4DB26158, 0x3AB551CE, 0xA3BC0074, 0xD4BB30E2, 0x4ADFA541, 0x3DD895D7, 0xA4D1C46D, 0xD3D6F4FB,
  0x4369E96A, 0x346ED9FC, 0xAD678846, 0xDA60B8D0, 0x44042D73, 0x33031DE5, 0xAA0A4C5F, 0xDD0D7CC9,
  0x5005713C, 0x270241AA, 0xBE0B1010, 0xC90C2086, 0x5768B525, 0x206F85B3, 0xB966D409, 0xCE61E49F,
  0x5EDEF90E, 0x29D9C998, 0xB0D09822, 0xC7D7A8B4, 0x59B33D17, 0x2EB40D81, 0xB7BD5C3B, 0xC0BA6CAD,
  0xEDB88320, 0x9ABFB3B6, 0x03B6E20C, 0x74B1D29A, 0xEAD54739, 0x9DD277AF, 0x04DB2615, 0x73DC1683,
  0xE3630B12, 0x94643B84, 0x0D6D6A3E, 0x7A6A5AA8, 0xE40ECF0B, 0x9309FF9D, 0x0A00AE27, 0x7D079EB1,
  0xF00F9344, 0x8708A3D2, 0x1E01F268, 0x6906C2FE, 0xF762575D, 0x806567CB, 0x196C3671, 0x6E6B06E7,
  0xFED41B76, 0x89D32BE0, 0x10DA7A5A, 0x67DD4ACC, 0xF9B9DF6F, 0x8EBEEFF9, 0x17B7BE43, 0x60B08ED5,
  0xD6D6A3E8, 0xA1D1937E, 0x38D8C2C4, 0x4FDFF252, 0xD1BB67F1, 0xA6BC5767, 0x3FB506DD, 0x48B2364B,
  0xD80D2BDA, 0xAF0A1B4C, 0x36034AF6, 0x41047A60, 0xDF60EFC3, 0xA867DF55, 0x316E8EEF, 0x4669BE79,
  0xCB61B38C, 0xBC66831A, 0x256FD2A0, 0x5268E236, 0xCC0C7795, 0xBB0B4703, 0x220216B9, 0x5505262F,
  0xC5BA3BBE, 0xB2BD0B28, 0x2BB45A92, 0x5CB36A04, 0xC2D7FFA7, 0xB5D0CF31, 0x2CD99E8B, 0x5BDEAE1D,
  0x9B64C2B0, 0xEC63F226, 0x756AA39C, 0x026D930A, 0x9C0906A9, 0xEB0E363F, 0x72076785, 0x05005713,
  0x95BF4A82, 0xE2B87A14, 0x7BB12BAE, 0x0CB61B38, 0x92D28E9B, 0xE5D5BE0D, 0x7CDCEFB7, 0x0BDBDF21,
  0x86D3D2D4, 0xF1D4E242, 0x68DDB3F8, 0x1FDA836E, 0x81BE16CD, 0xF6B9265B, 0x6FB077E1, 0x18B74777,
  0x88085AE6, 0xFF0F6A70, 0x66063BCA, 0x11010B5C, 0x8F659EFF, 0xF862AE69, 0x616BFFD3, 0x166CCF45,
  0xA00AE278, 0xD70DD2EE, 0x4E048354, 0x3903B3C2, 0xA7672661, 0xD06016F7, 0x4969474D, 0x3E6E77DB,
  0xAED16A4A, 0xD9D65ADC, 0x40DF0B66, 0x37D83BF0, 0xA9BCAE53, 0xDEBB9EC5, 0x47B2CF7F, 0x30B5FFE9,
  0xBDBDF21C, 0xCABAC28A, 0x53B39330, 0x24B4A3A6, 0xBAD03605, 0xCDD70693, 0x54DE5729, 0x23D967BF,
  0xB3667A2E, 0xC4614AB8, 0x5D681B02, 0x2A6F2B94, 0xB40BBE37, 0xC30C8EA1, 0x5A05DF1B, 0x2D02EF8D]

/-- The CRC after one more byte. -/
def crc32Step (crc : UInt32) (byte : UInt8) : UInt32 :=
  (crc >>> 8) ^^^ crc32Table.getD (crc ^^^ byte.toUInt32).toUInt8.toNat 0

variable {len : ℕ}

/-- The CRC of a buffer (`nand_crc32_calculate`). -/
def crc32Calculate (data : Vector UInt8 len) : UInt32 :=
  if len = 0 then 0
  else
    data.toList.foldl crc32Step 0xFFFFFFFF ^^^ 0xFFFFFFFF

/-- The ECC of a buffer with the algorithm `algo`, zero if there is none. -/
def eccEncode (algo : EccAlgo) (data : Vector UInt8 len) : UInt32 :=
  match algo with
  | .none => 0
  | .hamming => hammingEcc data
  | .bch => bchEcc data
  | .ldpc => ldpcEcc data

/-- Decodes a buffer with the algorithm `algo`. -/
def eccDecode (algo : EccAlgo) (data : Vector UInt8 len) (ecc : UInt32) :
    EccResult × Vector UInt8 len :=
  match algo with
  | .none => (.ok, data)
  | .hamming => eccHammingDecode data ecc
  | .bch => eccBchDecode data ecc
  | .ldpc => eccLdpcDecode data ecc

/-- A buffer with its own ECC is in order. -/
theorem eccDecode_self (algo : EccAlgo) (d : PageData) :
    eccDecode algo d (eccEncode algo d) = (.ok, d) := by
  cases algo with
  | none => rfl
  | hamming => exact eccHammingDecode_self d (by decide)
  | bch => exact thresholdDecode_self d (by decide)
  | ldpc => exact thresholdDecode_self d (by decide)

namespace Nand

variable (n : Nand)

/-- Selects the ECC algorithm (`nand_ecc_set_algo`). Only two can be selected. -/
def eccSetAlgo (algo : EccAlgo) : RetCode × Nand :=
  if algo ≠ .hamming ∧ algo ≠ .bch then (.errParam, n) else (.ok, { n with eccAlgo := algo })

/-- Reads the OOB area of a page (`nand_oob_read`). -/
def oobRead (block page : ℕ) : Except RetCode Oob :=
  if ¬ n.isBlockValid block ∨ pagesPerBlock ≤ page then .error .errParam
  else if (n.blocks block).state = .bad then .error .errBadBlock
  else .ok (n.media.oob (block, page))

/-- Writes the OOB area of a page (`nand_oob_write`). -/
def oobWrite (block page : ℕ) (oob : Oob) : RetCode × Nand :=
  if ¬ n.isBlockValid block ∨ pagesPerBlock ≤ page then (.errParam, n)
  else if (n.blocks block).state = .bad then (.errBadBlock, n)
  else
    (.ok, { n with
      media := { n.media with oob := Function.update n.media.oob (block, page) oob } })

/-- The accounts of the outcome of a decoder. -/
def countEcc (result : EccResult) : Nand :=
  { n with
    eccCorrectedCount := n.eccCorrectedCount + if result = .corrected then 1 else 0
    eccUncorrectableCount := n.eccUncorrectableCount + if result = .uncorrectable then 1 else 0 }

/-- The OOB area written with the data of a page, the CRC and the selected ECC. -/
def crcOob (buf : PageData) : Oob where
  magic := oobMagic
  crc32 := crc32Calculate buf
  ecc := eccEncode n.eccAlgo buf
  badBlockMark := 0xFF

/-- Writes a page with its CRC (`nand_page_write_with_crc`). -/
def pageWriteWithCrc (block page : ℕ) (buf : PageData) : RetCode × Nand :=
  match n.pageWrite block page buf with
  | (.ok, n) => n.oobWrite block page (n.crcOob buf)
  | (ret, n) => (ret, n)

/-- The end of a read: the outcome of the decoder is counted, and the CRC is compared. After a
    correction, it is compared twice. -/
def checkCrc (oob : Oob) (decoded : EccResult × PageData) : RetCode × PageData × Nand :=
  if decoded.1 = .corrected ∧ crc32Calculate decoded.2 = oob.crc32 then
    (.ok, decoded.2, n.countEcc decoded.1)
  else if crc32Calculate decoded.2 ≠ oob.crc32 then
    (.errChecksum, decoded.2,
      { n.countEcc decoded.1 with crcErrorCount := n.crcErrorCount + 1 })
  else (.ok, decoded.2, n.countEcc decoded.1)

/-- Reads a page and compares its CRC (`nand_page_read_with_crc`). -/
def pageReadWithCrc (block page : ℕ) (buf : PageData) : RetCode × PageData × Nand :=
  match n.pageRead block page buf with
  | (.ok, buf, n) =>
    match n.oobRead block page with
    | .error ret => (ret, buf, n)
    | .ok oob =>
      if oob.magic ≠ oobMagic then (.ok, buf, n)
      else n.checkCrc oob (eccDecode n.eccAlgo buf oob.ecc)
  | (ret, buf, n) => (ret, buf, n)

/-! ## Reading back -/

variable {n} {n₀ n₁ n₂ : Nand} {block page : ℕ} {algo : EccAlgo} {d buf : PageData}

/-- The numbers of errors of the two devices are the same. -/
structure SameErrors (n n' : Nand) : Prop where
  crc : n'.crcErrorCount = n.crcErrorCount
  corrected : n'.eccCorrectedCount = n.eccCorrectedCount
  uncorrectable : n'.eccUncorrectableCount = n.eccUncorrectableCount

/-- What a write with a CRC leaves behind: the page is accessible and valid, with its data and the
    selected ECC. -/
structure Stores (n : Nand) (block page : ℕ) (d : PageData) : Prop
    extends n.Accessible block page where
  valid : (n.blocks block).pageValid page
  data : n.media.data (block, page) = d
  oob : n.media.oob (block, page) = n.crcOob d

/-- A write with a CRC keeps the algorithm, and stores the page. -/
theorem stores_pageWriteWithCrc (hwrite : n.pageWriteWithCrc block page d = (.ok, n₁)) :
    n₁.Stores block page d ∧ n₁.eccAlgo = n.eccAlgo := by
  rw [pageWriteWithCrc] at hwrite
  rcases n.pageWrite_cases block page d with ⟨hacc, _, heq⟩ | ⟨ret, hret, heq, _⟩
  · have hholds := holds_program (d := d) hacc
    rw [heq] at hwrite
    dsimp only at hwrite
    rw [oobWrite, if_neg (by simp [hholds.blockValid, hholds.page_lt]), if_neg hholds.good]
      at hwrite
    obtain rfl := (Prod.mk.inj hwrite).2
    refine ⟨⟨⟨hholds.blockValid, hholds.page_lt, hholds.good⟩, hholds.valid, hholds.data, ?_⟩, rfl⟩
    exact Function.update_self _ _ _
  · rw [heq] at hwrite
    cases ret with
    | ok => exact absurd rfl hret
    | _ => simp at hwrite

/-- A page stored with its CRC is first decoded with the Hamming code, whatever has been
    selected. -/
theorem Stores.pageReadWithCrc (h : n.Stores block page d) (buf : PageData) :
    n.pageReadWithCrc block page buf =
      (n.countRead block (eccHammingDecode d (eccEncode n.eccAlgo d)).1).checkCrc (n.crcOob d)
        (eccDecode n.eccAlgo (eccHammingDecode d (eccEncode n.eccAlgo d)).2
          (eccEncode n.eccAlgo d)) := by
  have hback : n.readBack block page = eccHammingDecode d (eccEncode n.eccAlgo d) := by
    rw [readBack, h.oob, h.data]
    exact if_pos rfl
  have hoob : (n.countRead block (n.readBack block page).1).oobRead block page =
      .ok (n.crcOob d) := by
    have hgood : ((n.countRead block (n.readBack block page).1).blocks block).state ≠ .bad := by
      rw [countRead_blocks, Function.update_self]
      exact h.good
    rw [oobRead, if_neg (by simp [h.page_lt, isBlockValid_iff.1 h.blockValid, isBlockValid_iff]),
      if_neg hgood, countRead_media, h.oob]
  rw [Nand.pageReadWithCrc, pageRead_of_valid h.toAccessible h.valid]
  dsimp only
  rw [hoob]
  dsimp only
  have hmagic : (n.crcOob d).magic = oobMagic := rfl
  rw [if_neg (not_not.2 hmagic), hback]
  rfl

/-- Whatever the CRC says, the outcome of the decoder is counted. -/
theorem checkCrc_counts (oob : Oob) (decoded : EccResult × PageData) :
    (n.checkCrc oob decoded).2.2.eccCorrectedCount =
        (n.countEcc decoded.1).eccCorrectedCount ∧
      (n.checkCrc oob decoded).2.2.eccUncorrectableCount =
        (n.countEcc decoded.1).eccUncorrectableCount := by
  rw [checkCrc]
  split_ifs <;> exact ⟨rfl, rfl⟩

/-- Counters that count an error at most twice. -/
theorem not_of_count_eq {p q : Prop} [Decidable p] [Decidable q] {c : UInt32}
    (heq : c + (if p then 1 else 0) + (if q then 1 else 0) = c) : ¬ p := by
  intro hp
  rw [if_pos hp, UInt32.add_assoc, UInt32.add_eq_left] at heq
  split at heq <;> exact absurd heq (by decide)

theorem add_ite_false {p : Prop} [Decidable p] (hp : ¬ p) {c : UInt32} :
    c + (if p then 1 else 0) = c := by
  rw [if_neg hp, UInt32.add_zero]

/-- A page that is in order and agrees with its CRC is read as well. -/
theorem checkCrc_ok (n : Nand) (algoDevice : Nand) :
    n.checkCrc (algoDevice.crcOob d) (.ok, d) = (.ok, d, n.countEcc .ok) := by
  rw [checkCrc, if_neg (fun h => absurd h.1 (by simp))]
  exact if_neg (not_not.2 rfl)

/-- If no error is counted, the page has been found in order by both decoders. -/
theorem eq_ok_of_sameErrors {first : EccResult} {oob : Oob} {decoded : EccResult × PageData}
    (hsame : n.SameErrors ((n.countRead block first).checkCrc oob decoded).2.2) : first = .ok := by
  obtain ⟨hcorrected, huncorrectable⟩ := (n.countRead block first).checkCrc_counts oob decoded
  cases hfirst : first with
  | ok => rfl
  | corrected => exact absurd hfirst (not_of_count_eq (hcorrected.symm.trans hsame.corrected))
  | uncorrectable =>
    exact absurd hfirst (not_of_count_eq (huncorrectable.symm.trans hsame.uncorrectable))

/-- A page stored with its CRC is read as well, as it is and without an error being counted, if and
    only if its ECC is that of the Hamming code. -/
theorem Stores.pageReadWithCrc_iff (h : n.Stores block page d) (buf : PageData) :
    (∃ n₂, n.pageReadWithCrc block page buf = (.ok, d, n₂) ∧ n.SameErrors n₂) ↔
      hammingEcc d = eccEncode n.eccAlgo d := by
  have hread := h.pageReadWithCrc buf
  have hfst : (eccHammingDecode d (eccEncode n.eccAlgo d)).1 = .ok ↔
      hammingEcc d = eccEncode n.eccAlgo d := eccHammingDecode_fst_eq_ok (by decide)
  rw [← hfst]
  constructor
  · rintro ⟨n₂, heq, hsame⟩
    rw [hread] at heq
    obtain rfl : _ = n₂ := congrArg (·.2.2) heq
    exact eq_ok_of_sameErrors hsame
  · intro hok
    have hecc := hfst.1 hok
    rw [← hecc, eccHammingDecode_self d (by decide), hecc, eccDecode_self] at hread
    refine ⟨_, hread.trans (checkCrc_ok _ _), ?_, ?_, ?_⟩
    · rfl
    · exact (add_ite_false (by simp)).trans (add_ite_false (by simp))
    · exact (add_ite_false (by simp)).trans (add_ite_false (by simp))

/-- An accessible page that is not valid can be written with its CRC. -/
theorem pageWriteWithCrc_of_invalid (h : n.Accessible block page)
    (hv : (n.blocks block).pageValid page = false) (d : PageData) :
    ∃ n₁, n.pageWriteWithCrc block page d = (.ok, n₁) := by
  have hholds := holds_program (d := d) h
  rw [pageWriteWithCrc, pageWrite_of_invalid h hv]
  dsimp only
  rw [oobWrite, if_neg (by simp [hholds.blockValid, hholds.page_lt]), if_neg hholds.good]
  exact ⟨_, rfl⟩

/-- The first page of new media, with the default algorithm. -/
theorem write_newMedia (d : PageData) :
    ∃ n₁, (Nand.init none fun _ => 99).pageWriteWithCrc 0 0 d = (.ok, n₁) :=
  pageWriteWithCrc_of_invalid ⟨by decide, by decide, by decide⟩ (by decide) d

/-- The two codes of a blank page are zero. -/
theorem bchEcc_blankPage : bchEcc blankPage = hammingEcc blankPage := by
  have hlist : blankPage.toList = List.replicate pageSize 0 := Vector.toList_replicate
  have hbch : bchEcc blankPage = 0 := by
    rw [bchEcc, rotatingEcc, hlist]
    exact checksum_replicate (· ^^^ ·) rotate bchByte (by decide) _
  have hhamming : hammingEcc blankPage = 0 := by
    rw [hammingEcc_eq_checksum, hlist]
    exact checksum_replicate (· ^^^ ·) id hammingByte (by decide) _
  rw [hbch, hhamming]

/-- With one of the algorithms that can be selected, a page that has been written with its CRC is
    read as well, as it is and without an error being counted, if and only if this is the Hamming
    code, or the page has the same value in both codes. -/
theorem pageReadWithCrc_written_iff (hset : n₀.eccSetAlgo algo = (.ok, n))
    (hwrite : n.pageWriteWithCrc block page d = (.ok, n₁)) (buf : PageData) :
    (∃ n₂, n₁.pageReadWithCrc block page buf = (.ok, d, n₂) ∧ n₁.SameErrors n₂) ↔
      algo = .hamming ∨ bchEcc d = hammingEcc d := by
  obtain ⟨hstores, halgo⟩ := stores_pageWriteWithCrc hwrite
  rw [hstores.pageReadWithCrc_iff, halgo]
  rw [eccSetAlgo] at hset
  split at hset
  · simp at hset
  · next hselect =>
    obtain rfl := (Prod.mk.inj hset).2
    cases algo with
    | hamming => exact iff_of_true rfl (Or.inl rfl)
    | bch => exact ⟨fun heq => Or.inr heq.symm, fun h => (h.resolve_left (by simp)).symm⟩
    | none => exact absurd ⟨by simp, by simp⟩ hselect
    | ldpc => exact absurd ⟨by simp, by simp⟩ hselect

/-- A blank page, with the BCH code. -/
theorem blankPage_read_with_bch :
    ∃ n₁ n₂, (Nand.init none fun _ => 99).pageWriteWithCrc 0 0 blankPage = (.ok, n₁) ∧
      n₁.pageReadWithCrc 0 0 blankPage = (.ok, blankPage, n₂) ∧ n₁.SameErrors n₂ := by
  obtain ⟨n₁, hwrite⟩ := write_newMedia blankPage
  have hset : (Nand.init none fun _ => 99).eccSetAlgo .bch = (.ok, Nand.init none fun _ => 99) := rfl
  obtain ⟨n₂, hread, hsame⟩ :=
    (pageReadWithCrc_written_iff hset hwrite blankPage).2 (Or.inr bchEcc_blankPage)
  exact ⟨n₁, n₂, hwrite, hread, hsame⟩

/-- A page of zeros but for the highest bit of its first byte, with the BCH code: an error is
    found. -/
theorem highest_bit_miscounted :
    ¬ ∀ (n₀ n n₁ : Nand) (algo : EccAlgo) (block page : ℕ) (d buf : PageData),
      n₀.eccSetAlgo algo = (.ok, n) → n.pageWriteWithCrc block page d = (.ok, n₁) →
        ∃ n₂, n₁.pageReadWithCrc block page buf = (.ok, d, n₂) ∧ n₁.SameErrors n₂ := by
  intro hall
  obtain ⟨n₁, hwrite⟩ := write_newMedia (flipBit blankPage 0 7)
  obtain ⟨hstores, halgo⟩ := stores_pageWriteWithCrc hwrite
  have hecc := (hstores.pageReadWithCrc_iff blankPage).1
    (hall (Nand.init none fun _ => 99) _ _ .bch 0 0 _ blankPage rfl hwrite)
  rw [halgo] at hecc
  have hbch : hammingEcc (flipBit blankPage 0 7) = hammingEcc blankPage :=
    calc hammingEcc (flipBit blankPage 0 7)
      _ = bchEcc (flipBit blankPage 0 7) := hecc
      _ = bchEcc blankPage := bchEcc_flipBit_highest (by decide)
      _ = hammingEcc blankPage := bchEcc_blankPage
  rw [hammingEcc_flipBit (by decide), xor_eq_self_iff] at hbch
  exact bitCode_ne_zero (by decide) hbch

end Nand

end FtlFirmware
