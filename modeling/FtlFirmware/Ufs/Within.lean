import FtlFirmware.HostIf.Addressing
import FtlFirmware.Ufs.Sectors

/-!
# The data of a command of the UFS target

A Read or a Write works on one page after the other, each of which is a call of the FTL. It is made
only if the sectors of the command fit in its data, of which whole pages are accessed
(`Ufs.ReadTouches`, `Ufs.WriteTouches`).

* `data_within_iff`: a Read and a Write stay within their data in all states if and only if they are
  refused, or the data have room for the pages that exist.
-/

namespace FtlFirmware

open Nvme (Buffer)
open HostIf (Fills Takes read_of_not_fills write_of_not_takes)

variable {request : UfsRequest} {data : Buffer} {dataLen : UInt32} {fuel i k : ℕ}

/-- The byte `k` is one of the page `i` of the data. -/
def InPage (i k : ℕ) : Prop := i * pageSize ≤ k ∧ k < (i + 1) * pageSize

instance : Decidable (InPage i k) := inferInstanceAs (Decidable (_ ∧ _))

namespace UfsRequest

variable (request)

/-- The number of pages of a command that exist, as far as they go on from the first one. -/
def existing : ℕ := min request.lpns (totalLpns - request.lba.toNat / 8)

/-- The command is refused, or its data have room for the pages that exist. -/
def Room (dataLen : UInt32) : Prop :=
  dataLen.toNat < request.byteCount ∨ request.existing * pageSize ≤ dataLen.toNat

instance : Decidable (request.Room dataLen) := inferInstanceAs (Decidable (_ ∨ _))

variable {request}

/-- A page of the command that exists is one of the first ones. -/
theorem lt_existing (hi : i < request.lpns) (hlpn : request.lpnAt i < totalLpns) :
    i < request.existing := by
  rw [Ufs.lpnAt_eq hi] at hlpn
  exact Nat.lt_min.2 ⟨hi, by omega⟩

theorem lpnAt_lt (hi : i < request.existing) : request.lpnAt i < totalLpns := by
  obtain ⟨hlpns, hlt⟩ := Nat.lt_min.1 hi
  rw [Ufs.lpnAt_eq hlpns]
  omega

end UfsRequest

namespace Ufs

/-! ### The passes of the loops -/

/-- One pass of the loop of a Read. -/
def readPass (request : UfsRequest) (i : ℕ) (x : Buffer × Ftl) : Option (Bool × (Buffer × Ftl)) :=
  let r := x.2.read (request.lpnAt i) (x.1.page i)
  some (decide (r.1 = .ok), x.1.setPage i r.2.1, r.2.2)

/-- One pass of the loop of a Write. -/
def writePass (fuel : ℕ) (request : UfsRequest) (data : Buffer) (i : ℕ) (ftl : Ftl) :
    Option (Bool × Ftl) :=
  (ftl.write fuel (request.lpnAt i) (data.page i)).map fun r => (decide (r.1 = .ok), r.2)

theorem run_readPass (is : List ℕ) (data : Buffer) (ftl : Ftl) :
    Passes.run (readPass request) is (data, ftl) =
      some (decide ((readLoop request.lpnAt is data ftl).1 = .ok),
        (readLoop request.lpnAt is data ftl).2) := by
  induction is generalizing data ftl with
  | nil => rfl
  | cons i is ih =>
    rw [Passes.run, readPass, readLoop]
    by_cases hok : (ftl.read (request.lpnAt i) (data.page i)).1 = .ok
    · simp only [hok, decide_true, if_true, Option.bind_some]
      exact ih _ _
    · simp only [hok, decide_false, Bool.false_eq_true, if_false, Option.bind_some]

theorem run_writePass (is : List ℕ) (ftl : Ftl) :
    Passes.run (writePass fuel request data) is ftl =
      (writeLoop fuel request.lpnAt data is ftl).map fun r => (decide (r.1 = .ok), r.2) := by
  induction is generalizing ftl with
  | nil => rfl
  | cons i is ih =>
    rw [Passes.run, writePass, writeLoop]
    cases ftl.write fuel (request.lpnAt i) (data.page i) with
    | none => rfl
    | some r =>
      by_cases hok : r.1 = .ok
      · simp only [hok, decide_true, if_true, Option.bind_some, Option.map_some]
        exact ih _
      · simp only [hok, decide_false, Bool.false_eq_true, if_false, Option.bind_some,
          Option.map_some]

/-! ### Accesses -/

variable (s : Ufs)

/-- The calls of the FTL that a Read makes, each with what there is before it. -/
def readBegun (request : UfsRequest) (data : Buffer) : List (ℕ × (Buffer × Ftl)) :=
  Passes.begun (readPass request) (List.range request.lpns) (data, s.ftl)

/-- The calls of the FTL that a Write makes. -/
def writeBegun (fuel : ℕ) (request : UfsRequest) (data : Buffer) : List (ℕ × Ftl) :=
  Passes.begun (writePass fuel request data) (List.range request.lpns) s.ftl

/-- A Read writes the byte `k` of its data: it is not refused, and the FTL fills the page. -/
def ReadTouches (request : UfsRequest) (data : Buffer) (dataLen : UInt32) (k : ℕ) : Prop :=
  request.byteCount ≤ dataLen.toNat ∧
    ∃ x ∈ s.readBegun request data, Fills x.2.2 (request.lpnAt x.1) ∧ InPage x.1 k

/-- A Write reads the byte `k` of its data: it is not refused, and the FTL takes the page. -/
def WriteTouches (fuel : ℕ) (request : UfsRequest) (data : Buffer) (dataLen : UInt32) (k : ℕ) :
    Prop :=
  s.writeProtected = false ∧ request.byteCount ≤ dataLen.toNat ∧
    ∃ x ∈ s.writeBegun fuel request data, Takes x.2 (request.lpnAt x.1) ∧ InPage x.1 k

variable {s}

/-- What a page that exists takes is within the data that have room. -/
theorem lt_of_inPage (hroom : request.existing * pageSize ≤ dataLen.toNat)
    (hi : i < request.existing) (hk : InPage i k) : k < dataLen.toNat :=
  Nat.lt_of_lt_of_le hk.2 (Nat.le_trans (Nat.mul_le_mul_right _ hi) hroom)

theorem ReadTouches.lt (hroom : request.Room dataLen)
    (h : s.ReadTouches request data dataLen k) : k < dataLen.toNat := by
  obtain ⟨hle, x, hx, hfills, hk⟩ := h
  exact lt_of_inPage (hroom.resolve_left (Nat.not_lt.2 hle))
    (UfsRequest.lt_existing (Passes.lt_of_mem_begun hx) hfills.2.1) hk

theorem WriteTouches.lt (hroom : request.Room dataLen)
    (h : s.WriteTouches fuel request data dataLen k) : k < dataLen.toNat := by
  obtain ⟨-, hle, x, hx, htakes, hk⟩ := h
  exact lt_of_inPage (hroom.resolve_left (Nat.not_lt.2 hle))
    (UfsRequest.lt_existing (Passes.lt_of_mem_begun hx) htakes.2) hk

/-! ### What the handlers access -/

variable {data' : Buffer} {lpn : ℕ → ℕ} {is js : List ℕ} {ftl : Ftl}

theorem setPage_of_not_inPage {page : PageData} (h : ¬ InPage i k) :
    data.setPage i page k = data k := by
  rw [Buffer.setPage, Buffer.store, if_neg]
  rwa [InPage, Nat.succ_mul] at h

theorem setPage_self (data : Buffer) (i : ℕ) : data.setPage i (data.page i) = data := by
  funext k
  rw [Buffer.setPage, Buffer.store]
  split_ifs with h
  · have hlt : k - i * pageSize < pageSize := by omega
    rw [Array.getD_eq_getD_getElem?, Vector.getElem?_toArray, Vector.getElem?_eq_getElem hlt,
      Option.getD_some, Buffer.page, Vector.getElem_ofFn, Nat.add_sub_cancel' h.1]
  · rfl

/-- A loop of reads leaves a byte as it is, unless the FTL fills its page. -/
theorem readLoop_of_forall
    (h : ∀ x ∈ Passes.begun (readPass request) is (data, ftl),
      Fills x.2.2 (request.lpnAt x.1) → ¬ InPage x.1 k) :
    (readLoop request.lpnAt is data ftl).2.1 k = data k := by
  induction is generalizing data ftl with
  | nil => rfl
  | cons i is ih =>
    rw [Passes.begun] at h
    obtain ⟨hfirst, hrest⟩ := List.forall_mem_cons.1 h
    rw [readLoop]
    by_cases hfills : Fills ftl (request.lpnAt i)
    · have hsame : (data.setPage i (ftl.read (request.lpnAt i) (data.page i)).2.1) k = data k :=
        setPage_of_not_inPage (hfirst hfills)
      by_cases hok : (ftl.read (request.lpnAt i) (data.page i)).1 = .ok
      · simp only [readPass, hok, decide_true] at hrest
        rw [if_pos hok, ih hrest, hsame]
      · rw [if_neg hok]
        exact hsame
    · -- the page is put back as it was
      obtain ⟨ret, hret, hread⟩ := read_of_not_fills hfills (data.page i)
      rw [hread, if_neg hret]
      exact congrFun (setPage_self data i) k

/-- A byte that a Read changes is one that it writes. -/
theorem readTouches_of_ne {response : UfsResponse}
    (h : (s.handleRead10 request response data dataLen).1.data k ≠ data k) :
    s.ReadTouches request data dataLen k := by
  by_contra hnot
  refine h ?_
  rw [handleRead10]
  by_cases hlt : dataLen.toNat < request.byteCount
  · rw [if_pos hlt]
  · rw [if_neg hlt]
    have hloop : (readLoop request.lpnAt (List.range request.lpns) data s.ftl).2.1 k = data k :=
      readLoop_of_forall fun x hx hfills hk => hnot ⟨Nat.le_of_not_lt hlt, x, hx, hfills, hk⟩
    dsimp only
    split_ifs <;> exact hloop

theorem byte_of_page (h : data.page i = data'.page i) (hk : InPage i k) : data k = data' k := by
  obtain ⟨hle, hlt⟩ := hk
  have hj : k - i * pageSize < pageSize := by
    rw [Nat.succ_mul] at hlt
    omega
  have hbyte := congrArg (fun page : PageData => page[k - i * pageSize]) h
  simpa only [Buffer.page, Vector.getElem_ofFn, Nat.add_sub_cancel' hle] using hbyte

theorem page_congr (h : ∀ k, InPage i k → data k = data' k) : data.page i = data'.page i := by
  refine Vector.ext fun j hj => ?_
  rw [Buffer.page, Buffer.page, Vector.getElem_ofFn, Vector.getElem_ofFn]
  have hin : InPage i (i * pageSize + j) := by
    rw [InPage, Nat.succ_mul]
    omega
  exact h (i * pageSize + j) hin

/-- A loop of writes depends on the pages alone that the FTL takes. -/
theorem writeLoop_congr
    (h : ∀ x ∈ Passes.begun (writePass fuel request data) is ftl,
      Takes x.2 (request.lpnAt x.1) → ∀ k, InPage x.1 k → data k = data' k) :
    writeLoop fuel request.lpnAt data is ftl = writeLoop fuel request.lpnAt data' is ftl := by
  induction is generalizing ftl with
  | nil => rfl
  | cons i is ih =>
    rw [Passes.begun] at h
    obtain ⟨hfirst, hrest⟩ := List.forall_mem_cons.1 h
    rw [writeLoop, writeLoop]
    by_cases htakes : Takes ftl (request.lpnAt i)
    · rw [← page_congr (hfirst htakes)]
      refine Option.bind_congr fun r hr => ?_
      by_cases hok : r.1 = .ok
      · simp only [writePass, hr, Option.map_some, hok, decide_true] at hrest
        rw [if_pos hok, if_pos hok, ih hrest]
      · rw [if_neg hok, if_neg hok]
    · rw [write_of_not_takes htakes, write_of_not_takes htakes, Option.bind_some, Option.bind_some,
        if_neg RetCode.noConfusion, if_neg RetCode.noConfusion]

/-- What is known of a Write when it is done: the return code, the response, and the target. -/
def writeOutcome (s : Ufs) (request : UfsRequest) (response : UfsResponse) (data : Buffer)
    (dataLen : UInt32) (fuel : ℕ) : Option (RetCode × UfsResponse × Ufs) :=
  (s.handleWrite10 request response data dataLen fuel).map fun r => (r.1.ret, r.1.response, r.2)

/-- What is known of a Write depends on the bytes alone that it reads. -/
theorem writeOutcome_congr {response : UfsResponse}
    (h : ∀ k, s.WriteTouches fuel request data dataLen k → data k = data' k) :
    s.writeOutcome request response data dataLen fuel =
      s.writeOutcome request response data' dataLen fuel := by
  rw [writeOutcome, writeOutcome, handleWrite10, handleWrite10]
  by_cases hprotected : s.writeProtected = true
  · rw [if_pos hprotected, if_pos hprotected]
    rfl
  · rw [if_neg hprotected, if_neg hprotected]
    by_cases hlt : dataLen.toNat < request.byteCount
    · rw [if_pos hlt, if_pos hlt]
      rfl
    · rw [if_neg hlt, if_neg hlt]
      have hloop : writeLoop fuel request.lpnAt data (List.range request.lpns) s.ftl =
          writeLoop fuel request.lpnAt data' (List.range request.lpns) s.ftl :=
        writeLoop_congr fun x hx htakes k hk =>
          h k ⟨Bool.not_eq_true _ ▸ hprotected, Nat.le_of_not_lt hlt, x, hx, htakes, hk⟩
      rw [← hloop, Option.map_map, Option.map_map]
      congr 1
      funext r
      simp only [Function.comp_apply]
      split_ifs <;> rfl

/-! ### States in which all pages are accessed -/

theorem readLoop_append (h : (readLoop lpn is data ftl).1 = .ok) :
    readLoop lpn (is ++ js) data ftl =
      readLoop lpn js (readLoop lpn is data ftl).2.1 (readLoop lpn is data ftl).2.2 := by
  induction is generalizing data ftl with
  | nil => rfl
  | cons i is ih =>
    rw [readLoop] at h
    rw [List.cons_append, readLoop, readLoop]
    by_cases hok : (ftl.read (lpn i) (data.page i)).1 = .ok
    · simp only [if_pos hok] at h ⊢
      exact ih h
    · simp only [if_neg hok] at h
      exact absurd h hok

theorem readLoop_page_of_not_mem (h : i ∉ is) :
    (readLoop lpn is data ftl).2.1.page i = data.page i := by
  induction is generalizing data ftl with
  | nil => rfl
  | cons j is ih =>
    obtain ⟨hne, his⟩ := List.ne_and_not_mem_of_not_mem_cons h
    rw [readLoop]
    split_ifs
    · rw [ih his, Nvme.setPage_page_of_ne hne]
    · exact Nvme.setPage_page_of_ne hne

theorem writeLoop_append : writeLoop fuel lpn data (is ++ js) ftl =
    (writeLoop fuel lpn data is ftl).bind fun r =>
      if r.1 = .ok then writeLoop fuel lpn data js r.2 else some r := by
  induction is generalizing ftl with
  | nil => rfl
  | cons i is ih =>
    rw [List.cons_append, writeLoop, writeLoop, Option.bind_assoc]
    refine Option.bind_congr fun r _ => ?_
    by_cases hok : r.1 = .ok
    · rw [if_pos hok, if_pos hok, ih]
    · rw [if_neg hok, if_neg hok, Option.bind_some, if_neg hok]

/-- The pages of a command: those that exist, and the others. -/
theorem range_lpns : List.range request.lpns =
    List.range request.existing ++
      List.range' request.existing (request.lpns - request.existing) := by
  have hle : request.existing ≤ request.lpns := Nat.min_le_left _ _
  have happend := (List.range'_append_1 (s := 0) (m := request.existing)
    (n := request.lpns - request.existing)).symm
  rwa [Nat.zero_add, Nat.add_sub_cancel' hle, ← List.range_eq_range',
    ← List.range_eq_range'] at happend

/-- On a device whose logical pages can all be read, a Read delivers the last page that exists. -/
theorem readLoop_full {c : Store} {L : Ftl.Layout} (data : Buffer) (h : Ftl.Calm c L ftl)
    (hmapped : ∀ lpn < totalLpns, L.table lpn ≠ none) {n : ℕ} (hn : n ≤ request.existing) :
    ∃ data' ftl' L', readLoop request.lpnAt (List.range n) data ftl = (.ok, data', ftl') ∧
      Ftl.Calm c L' ftl' ∧ L'.table = L.table ∧
      ∀ i, n = i + 1 → c (request.lpnAt i) = some (data'.page i) := by
  induction n with
  | zero => exact ⟨_, _, _, rfl, h, rfl, fun _ h => absurd h (Nat.succ_ne_zero _).symm⟩
  | succ n ih =>
    obtain ⟨data₁, ftl₁, L₁, hloop, h₁, htable, -⟩ := ih (Nat.le_of_succ_le hn)
    have hlpn := UfsRequest.lpnAt_lt hn
    obtain ⟨ppn, hl⟩ := Option.ne_none_iff_exists'.1 (htable ▸ hmapped _ hlpn)
    obtain ⟨d, hd, hread, h₂⟩ := h₁.read hlpn hl (data₁.page n)
    have hok : (readLoop request.lpnAt (List.range n) data ftl).1 = .ok := by rw [hloop]
    refine ⟨data₁.setPage n d, _, _, ?_, h₂, htable, fun i hi => ?_⟩
    · rw [List.range_succ, readLoop_append hok, hloop, readLoop, hread]
      rfl
    · rw [← Nat.succ_inj.1 hi, hd, Nvme.setPage_page]

/-- A Read that is not refused changes a byte of the last page that exists in some state, for some
    data. -/
theorem exists_read_ne (hle : request.byteCount ≤ dataLen.toNat) (hi : request.existing = i + 1)
    (hk : InPage i k) (response : UfsResponse) :
    ∃ (s : Ufs) (data : Buffer),
      (s.handleRead10 request response data dataLen).1.data k ≠ data k := by
  obtain ⟨c, L, ftl, hcalm, hmapped⟩ := Ftl.exists_full
  obtain ⟨data₀, ftl₀, L₀, -, -, -, hd₀⟩ :=
    readLoop_full (fun _ => 0) hcalm hmapped (Nat.le_refl request.existing)
  refine ⟨load ftl, fun _ => data₀ k + 1, fun heq => ?_⟩
  obtain ⟨data', ftl', L', hloop, -, -, hd⟩ :=
    readLoop_full (fun _ => data₀ k + 1) hcalm hmapped (Nat.le_refl request.existing)
  have hok : (readLoop request.lpnAt (List.range request.existing) (fun _ => data₀ k + 1) ftl).1 =
      .ok := by rw [hloop]
  have hpage : data'.page i = data₀.page i :=
    Option.some.inj ((hd i hi).symm.trans (hd₀ i hi))
  have hlast : ((readLoop request.lpnAt (List.range request.lpns) (fun _ => data₀ k + 1)
      ftl).2.1).page i = data₀.page i := by
    rw [range_lpns, readLoop_append hok, hloop, readLoop_page_of_not_mem, hpage]
    rw [List.mem_range'_1]
    omega
  have hbyte : (readLoop request.lpnAt (List.range request.lpns) (fun _ => data₀ k + 1)
      ftl).2.1 k = data₀ k := byte_of_page hlast hk
  have hsame : (readLoop request.lpnAt (List.range request.lpns) (fun _ => data₀ k + 1)
      ftl).2.1 k = data₀ k + 1 := by
    rw [handleRead10, if_neg (Nat.not_lt.2 hle)] at heq
    revert heq
    dsimp only [load]
    split_ifs <;> exact id
  rw [hbyte] at hsame
  exact absurd hsame (by simp)

/-- A Write writes the pages that exist to a fresh device. -/
theorem writeLoop_ahead {c : Store} {L : Ftl.Layout} (data : Buffer) (h : Ftl.Calm c L ftl)
    (hL : L.Ahead 0) {n : ℕ} (hn : n ≤ request.existing) :
    ∃ ftl' c' L', writeLoop 0 request.lpnAt data (List.range n) ftl = some (.ok, ftl') ∧
      Ftl.Calm c' L' ftl' ∧ L'.Ahead n ∧
      ∀ i, n = i + 1 → c' (request.lpnAt i) = some (data.page i) := by
  induction n with
  | zero => exact ⟨_, _, _, rfl, h, hL, fun _ h => absurd h (Nat.succ_ne_zero _).symm⟩
  | succ n ih =>
    obtain ⟨ftl₁, c₁, L₁, hloop, h₁, hL₁, -⟩ := ih (Nat.le_of_succ_le hn)
    have hlpn := UfsRequest.lpnAt_lt hn
    have hlt : n < totalLpns := Nat.lt_of_lt_of_le hn
      (Nat.le_trans (Nat.min_le_right _ _) (Nat.sub_le _ _))
    obtain ⟨L₂, ftl₂, hwrite, h₂, hL₂, -⟩ :=
      h₁.write_ahead hL₁ (Nat.lt_trans hlt (by decide)) hlpn (data.page n)
    refine ⟨ftl₂, _, L₂, ?_, h₂, hL₂, fun i hi => ?_⟩
    · rw [List.range_succ, writeLoop_append, hloop, Option.bind_some, if_pos rfl, writeLoop, hwrite]
      rfl
    · rw [← Nat.succ_inj.1 hi, Function.update_self]

/-- The pages that do not exist change nothing. -/
theorem writeLoop_beyond (data : Buffer) (ftl : Ftl) (m : ℕ)
    (hm : m = request.lpns - request.existing) : ∃ ret,
    writeLoop fuel request.lpnAt data (List.range' request.existing m) ftl =
      some (ret, ftl) := by
  cases m with
  | zero => exact ⟨_, rfl⟩
  | succ m =>
    have hlt : request.existing < request.lpns := by omega
    have hbeyond : ¬ request.lpnAt request.existing < totalLpns := fun hlpn =>
      Nat.lt_irrefl _ (UfsRequest.lt_existing hlt hlpn)
    refine ⟨.errParam, ?_⟩
    rw [List.range'_succ, writeLoop, write_of_not_takes fun h => hbeyond h.2]
    rfl

/-- What is known of a Write that is not refused depends on a byte of the last page that exists in
    some state. -/
theorem exists_write_ne (hle : request.byteCount ≤ dataLen.toNat) (hi : request.existing = i + 1)
    (hk : InPage i k) (response : UfsResponse) :
    ∃ s : Ufs, s.writeOutcome request response (fun _ => 0) dataLen 0 ≠
      s.writeOutcome request response (Function.update (fun _ => 0) k 1) dataLen 0 := by
  obtain ⟨ftl, -, hcalm⟩ := Ftl.Calm.powerOn (fun _ => 99) (fun _ => by decide) fun _ => none
  have hwritten (data : Buffer) : ∃ ret ftl' c L, Ftl.Calm c L ftl' ∧
      c (request.lpnAt i) = some (data.page i) ∧
      writeLoop 0 request.lpnAt data (List.range request.lpns) ftl = some (ret, ftl') := by
    obtain ⟨ftl', c, L, hloop, h, -, hd⟩ :=
      writeLoop_ahead data hcalm Ftl.Layout.ahead_fresh (Nat.le_refl request.existing)
    obtain ⟨ret, hrest⟩ : ∃ ret, writeLoop 0 request.lpnAt data (List.range' request.existing
        (request.lpns - request.existing)) ftl' = some (ret, ftl') :=
      writeLoop_beyond data ftl' _ rfl
    refine ⟨ret, ftl', c, L, h, hd i hi, ?_⟩
    rw [range_lpns, writeLoop_append, hloop, Option.bind_some, if_pos rfl, hrest]
  obtain ⟨ret₁, ftl₁, c₁, L₁, h₁, hd₁, hloop₁⟩ := hwritten fun _ => 0
  obtain ⟨ret₂, ftl₂, c₂, L₂, h₂, hd₂, hloop₂⟩ := hwritten (Function.update (fun _ => 0) k 1)
  refine ⟨load ftl, fun heq => ?_⟩
  have hsame : ftl₁ = ftl₂ := by
    simp only [writeOutcome, handleWrite10, load, Bool.false_eq_true, if_false,
      if_neg (Nat.not_lt.2 hle), hloop₁, hloop₂, Option.map_some] at heq
    have hs := congrArg (fun r : RetCode × UfsResponse × Ufs => r.2.2.ftl) (Option.some.inj heq)
    revert hs
    dsimp only
    split_ifs <;> exact id
  subst hsame
  have hpage := Option.some.inj (hd₁.symm.trans ((congrFun (h₁.contents_eq h₂) _).trans hd₂))
  have hbyte := byte_of_page hpage hk
  rw [Function.update_self] at hbyte
  exact absurd hbyte (by decide)

/-- All logical pages can be read. -/
def AllFilled (ftl : Ftl) : Prop :=
  ∃ c L, Ftl.Calm c L ftl ∧ ∀ lpn < totalLpns, L.table lpn ≠ none

theorem AllFilled.readPass {x : Buffer × Ftl} (h : AllFilled x.2)
    (hlpn : request.lpnAt i < totalLpns) :
    ∃ x', readPass request i x = some (true, x') ∧ AllFilled x'.2 := by
  obtain ⟨c, L, hcalm, hmapped⟩ := h
  obtain ⟨ppn, hl⟩ := Option.ne_none_iff_exists'.1 (hmapped _ hlpn)
  obtain ⟨d, -, hread, hcalm'⟩ := hcalm.read hlpn hl (x.1.page i)
  rw [Ufs.readPass, hread]
  exact ⟨_, rfl, c, _, hcalm', hmapped⟩

/-- A Read that is not refused accesses all of its pages that exist. -/
theorem exists_readTouches (hle : request.byteCount ≤ dataLen.toNat) (hi : i < request.existing) :
    ∃ s, ∀ k, InPage i k → ReadTouches s request data dataLen k := by
  obtain ⟨c, L, ftl, hcalm, hmapped⟩ := Ftl.exists_full
  have hpass : ∀ j < i, ∀ x : Buffer × Ftl, AllFilled x.2 →
      ∃ x', readPass request j x = some (true, x') ∧ AllFilled x'.2 := fun j hj x hx =>
    hx.readPass (UfsRequest.lpnAt_lt (Nat.lt_trans hj hi))
  obtain ⟨x, ⟨c', L', hcalm', hmapped'⟩, hmem⟩ := Passes.exists_begun
    (P := fun _ (x : Buffer × Ftl) => AllFilled x.2) (Nat.zero_le i)
    ((Nat.lt_min.1 hi).1.trans_eq (Nat.zero_add _).symm) hpass
    (show AllFilled (data, ftl).2 from ⟨c, L, hcalm, hmapped⟩)
  refine ⟨load ftl, fun k hk => ⟨hle, (i, x), ?_, ?_, hk⟩⟩
  · rw [readBegun, List.range_eq_range']
    exact hmem
  · have hlpn := UfsRequest.lpnAt_lt hi
    exact ⟨hcalm'.inv.started, hlpn, hcalm'.table ▸ hmapped' _ hlpn⟩

/-- The first pages of the device have been written. -/
def Begun (n : ℕ) (ftl : Ftl) : Prop := ∃ c L, Ftl.Calm c L ftl ∧ L.Ahead n

theorem Begun.writePass {n : ℕ} {ftl : Ftl} (h : Begun n ftl) (hn : n < totalLpns)
    (hlpn : request.lpnAt i < totalLpns) :
    ∃ ftl', writePass 0 request data i ftl = some (true, ftl') ∧ Begun (n + 1) ftl' := by
  obtain ⟨c, L, hcalm, hL⟩ := h
  obtain ⟨L', ftl', hwrite, hcalm', hL', -⟩ :=
    hcalm.write_ahead hL (Nat.lt_trans hn (by decide)) hlpn (data.page i)
  rw [Ufs.writePass, hwrite]
  exact ⟨_, rfl, _, L', hcalm', hL'⟩

/-- A Write that is not refused accesses all of its pages that exist. -/
theorem exists_writeTouches (hle : request.byteCount ≤ dataLen.toNat)
    (hi : i < request.existing) :
    ∃ s, ∀ k, InPage i k → WriteTouches s 0 request data dataLen k := by
  obtain ⟨ftl, -, hcalm⟩ := Ftl.Calm.powerOn (fun _ => 99) (fun _ => by decide) fun _ => none
  have hlt : i < totalLpns := Nat.lt_of_lt_of_le hi (Nat.le_trans (Nat.min_le_right _ _)
    (Nat.sub_le _ _))
  have hpass : ∀ j < i, ∀ ftl, Begun j ftl →
      ∃ ftl', writePass 0 request data j ftl = some (true, ftl') ∧ Begun (j + 1) ftl' :=
    fun j hj ftl h => h.writePass (Nat.lt_trans hj hlt)
      (UfsRequest.lpnAt_lt (Nat.lt_trans hj hi))
  obtain ⟨ftl', ⟨c', L', hcalm', -⟩, hmem⟩ := Passes.exists_begun (P := Begun) (Nat.zero_le i)
    ((Nat.lt_min.1 hi).1.trans_eq (Nat.zero_add _).symm) hpass
    ⟨_, _, hcalm, Ftl.Layout.ahead_fresh⟩
  refine ⟨load ftl, fun k hk => ⟨rfl, hle, (i, ftl'), ?_, ?_, hk⟩⟩
  · rw [writeBegun, List.range_eq_range']
    exact hmem
  · exact ⟨hcalm'.inv.started, UfsRequest.lpnAt_lt hi⟩

/-- If the bytes of the last page that exists are within the data, the data have room. -/
theorem room_of_last (h : request.byteCount ≤ dataLen.toNat → ∀ i, request.existing = i + 1 →
    ∀ k, InPage i k → k < dataLen.toNat) : request.Room dataLen := by
  refine or_iff_not_imp_left.2 fun hle => ?_
  rw [Nat.not_lt] at hle
  rcases hexisting : request.existing with _ | i
  · rw [Nat.zero_mul]
    exact Nat.zero_le _
  · have hlast := h hle i hexisting ((i + 1) * pageSize - 1)
    simp only [InPage, pageSize] at hlast ⊢
    have hlt := hlast (by omega)
    omega

/-- A Read leaves all beyond its data as it is, in all states. -/
def ReadFramed (request : UfsRequest) (dataLen : UInt32) : Prop :=
  ∀ (s : Ufs) (response : UfsResponse) (data : Buffer) (k : ℕ), dataLen.toNat ≤ k →
    (s.handleRead10 request response data dataLen).1.data k = data k

/-- What is known of a Write does not depend on what is beyond its data, in all states. -/
def WriteFramed (request : UfsRequest) (dataLen : UInt32) : Prop :=
  ∀ (s : Ufs) (response : UfsResponse) (fuel : ℕ) (data data' : Buffer),
    (∀ k < dataLen.toNat, data k = data' k) →
      s.writeOutcome request response data dataLen fuel =
        s.writeOutcome request response data' dataLen fuel

theorem readFramed_iff : ReadFramed request dataLen ↔ request.Room dataLen := by
  constructor
  · intro h
    refine room_of_last fun hle i hi k hk => ?_
    by_contra hlt
    obtain ⟨s, data, hne⟩ := exists_read_ne hle hi hk ⟨.good, 0, Vector.replicate 18 0⟩
    exact hne (h s _ data k (Nat.le_of_not_lt hlt))
  · intro hroom s response data k hk
    by_contra hne
    exact Nat.not_lt_of_le hk ((readTouches_of_ne hne).lt hroom)

theorem writeFramed_iff : WriteFramed request dataLen ↔ request.Room dataLen := by
  constructor
  · intro h
    refine room_of_last fun hle i hi k hk => ?_
    by_contra hlt
    obtain ⟨s, hne⟩ := exists_write_ne hle hi hk ⟨.good, 0, Vector.replicate 18 0⟩
    refine hne (h s _ 0 _ _ fun j hj => ?_)
    have hjk : j ≠ k := fun heq => hlt (heq.symm ▸ hj)
    rw [Function.update_of_ne hjk]
  · exact fun hroom s response fuel data data' h =>
      writeOutcome_congr fun k hk => h k (hk.lt hroom)

/-- A Read and a Write access only their data in all states, and a Read changes nothing else, and a
    Write depends on nothing else, if and only if they are refused, or the data have room for the
    whole pages that exist. -/
theorem data_within_iff (request : UfsRequest) (data : Buffer) (dataLen : UInt32) :
    ((∀ (s : Ufs) (k : ℕ), s.ReadTouches request data dataLen k → k < dataLen.toNat) ↔
      request.Room dataLen) ∧
    (ReadFramed request dataLen ↔ request.Room dataLen) ∧
    ((∀ (s : Ufs) (fuel k : ℕ), s.WriteTouches fuel request data dataLen k →
      k < dataLen.toNat) ↔ request.Room dataLen) ∧
    (WriteFramed request dataLen ↔ request.Room dataLen) := by
  refine ⟨⟨fun h => ?_, fun hroom s k h => h.lt hroom⟩, readFramed_iff,
    ⟨fun h => ?_, fun hroom s fuel k h => h.lt hroom⟩, writeFramed_iff⟩
  · refine room_of_last fun hle i hi k hk => ?_
    obtain ⟨s, hs⟩ : ∃ s, ∀ k, InPage i k → ReadTouches s request data dataLen k :=
      exists_readTouches hle (hi ▸ Nat.lt_succ_self i)
    exact h s k (hs k hk)
  · refine room_of_last fun hle i hi k hk => ?_
    obtain ⟨s, hs⟩ : ∃ s, ∀ k, InPage i k → WriteTouches s 0 request data dataLen k :=
      exists_writeTouches hle (hi ▸ Nat.lt_succ_self i)
    exact h s 0 k (hs k hk)

/-- A Read of one sector with data of 512 bytes changes the byte 4095 in some state, and a Write of
    one depends on it. -/
theorem not_data_within : ¬ ReadFramed (sectorCmd 0x28 0 1) 512 ∧
    ¬ WriteFramed (sectorCmd 0x2A 0 1) 512 := by
  refine ⟨fun h => ?_, fun h => ?_⟩
  · exact absurd (readFramed_iff.1 h) (by decide)
  · exact absurd (writeFramed_iff.1 h) (by decide)

end Ufs

end FtlFirmware
