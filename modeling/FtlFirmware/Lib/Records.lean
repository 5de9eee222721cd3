import Mathlib.Data.List.Basic

/-!
# Words and records in byte files

Files of fixed-size records, as C programs write them: 32-bit words with the least significant
byte first (`wordBytes`, `bytesWord`), and records of `k` bytes, read from the start of a file as
long as a whole one is left (`records`).

* `bytesWord_wordBytes`, `wordAt_flatMap`: words round trip, alone and in a table;
* `records_flatten`: a file written record by record is read record by record.
-/

namespace FtlFirmware

/-! ## Words -/

/-- The four bytes of a word, the least significant one first. -/
def wordBytes (w : UInt32) : List UInt8 :=
  [UInt8.ofNat w.toNat, UInt8.ofNat (w.toNat / 256), UInt8.ofNat (w.toNat / 65536),
    UInt8.ofNat (w.toNat / 16777216)]

/-- The word of the first four bytes; missing bytes are zero. -/
def bytesWord (l : List UInt8) : UInt32 :=
  UInt32.ofNat ((l.getD 0 0).toNat + (l.getD 1 0).toNat * 256 + (l.getD 2 0).toNat * 65536 +
    (l.getD 3 0).toNat * 16777216)

/-- The word number `i` of a file of words. -/
def wordAt (l : List UInt8) (i : ℕ) : UInt32 := bytesWord (l.drop (4 * i))

/-- A word has four bytes. -/
@[simp] theorem length_wordBytes (w : UInt32) : (wordBytes w).length = 4 := rfl

/-- A word is read back from its bytes, whatever follows. -/
@[simp] theorem bytesWord_wordBytes (w : UInt32) (l : List UInt8) :
    bytesWord (wordBytes w ++ l) = w := by
  apply UInt32.toNat_inj.1
  have hw := w.toNat_lt
  simp only [bytesWord, wordBytes, List.cons_append, List.getD_cons_zero, List.getD_cons_succ,
    UInt32.toNat_ofNat', UInt8.toNat_ofNat']
  omega

/-- A word does not depend on what follows its bytes. -/
theorem bytesWord_append {l : List UInt8} (hl : 4 ≤ l.length) (l' : List UInt8) :
    bytesWord (l ++ l') = bytesWord l := by
  have hget (i : ℕ) (hi : i < 4) : (l ++ l').getD i 0 = l.getD i 0 := by
    rw [List.getD_eq_getElem?_getD, List.getD_eq_getElem?_getD,
      List.getElem?_append_left (Nat.lt_of_lt_of_le hi hl)]
  rw [bytesWord, bytesWord, hget 0 (by decide), hget 1 (by decide), hget 2 (by decide),
    hget 3 (by decide)]

/-- A word of a file does not depend on what follows it. -/
theorem wordAt_append {l : List UInt8} {i : ℕ} (h : 4 * i + 4 ≤ l.length) (l' : List UInt8) :
    wordAt (l ++ l') i = wordAt l i := by
  rw [wordAt, wordAt, List.drop_append_of_le_length (by omega)]
  exact bytesWord_append (by rw [List.length_drop]; omega) l'

variable {ι : Type*}

/-- A table of words has four bytes for each. -/
theorem length_flatMap_wordBytes (f : ι → UInt32) (l : List ι) :
    (l.flatMap fun i => wordBytes (f i)).length = 4 * l.length := by
  induction l with
  | nil => rfl
  | cons x l ih =>
    rw [List.flatMap_cons, List.length_append, ih, length_wordBytes, List.length_cons]
    omega

/-- The first word of a file. -/
@[simp] theorem wordAt_cons_zero (w : UInt32) (l : List UInt8) : wordAt (wordBytes w ++ l) 0 = w :=
  bytesWord_wordBytes w l

/-- The words of a file after the first one. -/
@[simp] theorem wordAt_cons_succ (w : UInt32) (l : List UInt8) (i : ℕ) :
    wordAt (wordBytes w ++ l) (i + 1) = wordAt l i := by
  rw [wordAt, wordAt, Nat.mul_succ, Nat.add_comm, ← List.drop_drop]
  rfl

/-- The words of a table are read back, whatever follows. -/
theorem wordAt_flatMap (f : ι → UInt32) (l : List ι) (rest : List UInt8) {i : ℕ}
    (hi : i < l.length) : wordAt ((l.flatMap fun i => wordBytes (f i)) ++ rest) i = f l[i] := by
  induction l generalizing i with
  | nil => exact absurd hi (Nat.not_lt_zero i)
  | cons x l ih =>
    rw [List.flatMap_cons, List.append_assoc]
    cases i with
    | zero => exact wordAt_cons_zero _ _
    | succ i =>
      rw [wordAt_cons_succ, List.getElem_cons_succ]
      exact ih (Nat.lt_of_succ_lt_succ hi)

/-! ## Records -/

variable {α : Type*} {k : ℕ}

/-- The whole records of `k` entries of a file, from its start on. -/
def records (k : ℕ) (l : List α) : List (List α) :=
  (List.range (l.length / k)).map fun i => (l.drop (k * i)).take k

/-- No whole record. -/
theorem records_of_length_lt {l : List α} (h : l.length < k) : records k l = [] := by
  rw [records, Nat.div_eq_of_lt h, List.range_zero, List.map_nil]

/-- The first record, and those after it. -/
theorem records_append_cons {r : List α} (hk : 0 < k) (hr : r.length = k) (l : List α) :
    records k (r ++ l) = r :: records k l := by
  rw [records, List.length_append, hr, Nat.add_div_left _ hk, List.range_succ_eq_map,
    List.map_cons, List.map_map]
  congr 1
  · rw [Nat.mul_zero, List.drop_zero, List.take_append_of_le_length (Nat.le_of_eq hr.symm), ← hr,
      List.take_length]
  · refine List.map_congr_left fun i _ => ?_
    rw [Function.comp_apply, Nat.mul_succ, Nat.add_comm, ← List.drop_drop, ← hr, List.drop_left]

/-- A file written record by record, with a part of a record at its end. -/
theorem records_flatten (hk : 0 < k) {rs : List (List α)} (hrs : ∀ r ∈ rs, r.length = k)
    (l : List α) : records k (rs.flatten ++ l) = rs ++ records k l := by
  induction rs with
  | nil => rfl
  | cons r rs ih =>
    rw [List.flatten_cons, List.append_assoc,
      records_append_cons hk (hrs r List.mem_cons_self),
      ih fun r hr => hrs r (List.mem_cons_of_mem _ hr), List.cons_append]

end FtlFirmware
