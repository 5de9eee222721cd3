import FtlFirmware.Ftl.Contents
import FtlFirmware.Nvme.Transfer

/-!
# The FTL calls of a command

The calls of the FTL that the front ends make for a command, with their answers, as lists
(`writeCalls`, `trimCalls`, `readCalls`): each list is a run of the FTL that ends where the command
leaves it. If all pages have been written, or all ranges trimmed, the calls are one for each page
or range, and have all been answered with success.

The second part is about what a list of calls does to the contents of one logical page.
-/

namespace FtlFirmware

namespace Nvme

open Ftl (next)

/-! ## The calls -/

/-- The FTL calls of writing pages (`writePages`). -/
def writeCalls (fuel : ℕ) (lpn : ℕ → ℕ) (data : ℕ → PageData) :
    List ℕ → Ftl → List (Call × Answer)
  | [], _ => []
  | i :: is, ftl =>
    match ftl.write fuel (lpn i) (data i) with
    | none => []
    | some (.ok, ftl) =>
      (.write (lpn i) (data i), ⟨.ok, none⟩) :: writeCalls fuel lpn data is ftl
    | some (ret, _) => [(.write (lpn i) (data i), ⟨ret, none⟩)]

/-- The FTL calls of trimming ranges (`trimRanges`). -/
def trimCalls (range : ℕ → TrimRange) : List ℕ → Ftl → List (Call × Answer)
  | [], _ => []
  | r :: rs, ftl =>
    match ftl.trim (range r).lpn (range r).count with
    | none => []
    | some (ret, ftl) =>
      (.trim (range r).lpn (range r).count, ⟨ret, none⟩) :: trimCalls range rs ftl

/-- The FTL calls of reading pages (`readPages`). -/
def readCalls (lpn : ℕ → ℕ) : List ℕ → Buffer → Ftl → List (Call × Answer)
  | [], _, _ => []
  | i :: is, buf, ftl =>
    let r := ftl.read (lpn i) (buf.page i)
    (.read (lpn i) (buf.page i), ⟨r.1, some r.2.1⟩) ::
      readCalls lpn is (buf.setPage i (if r.1 = .ok then r.2.1 else blankPage)) r.2.2

/-- The call of writing the page `i`, answered with `ret`. -/
def writeCall (lpn : ℕ → ℕ) (data : ℕ → PageData) (ret : RetCode) (i : ℕ) : Call × Answer :=
  (.write (lpn i) (data i), ⟨ret, none⟩)

/-- The call of trimming the range `r`, answered with success. -/
def trimCall (range : ℕ → TrimRange) (r : ℕ) : Call × Answer :=
  (.trim (range r).lpn (range r).count, ⟨.ok, none⟩)

variable {fuel : ℕ} {lpn : ℕ → ℕ} {data : ℕ → PageData} {range : ℕ → TrimRange} {is : List ℕ}
  {ftl ftl' : Ftl} {ok ok' : Bool}

/-- A step of the FTL, followed by a run. -/
theorem run_cons {call : Call} {a : Answer} {s s' s'' : Ftl} {tr : List (Call × Answer)}
    (h : s.exec fuel call = some (a, s')) (htr : Ftl.Run Machine.anyCall s' tr s'') :
    Ftl.Run Machine.anyCall s ((call, a) :: tr) s'' :=
  (Machine.Run.single (m := Ftl.machine) trivial ⟨fuel, h⟩).append htr

/-! ## Writes -/

/-- Only a logical page that the device has can be written. -/
theorem write_ok_lt {l : ℕ} {buf : PageData} (h : ftl.write fuel l buf = some (.ok, ftl')) :
    l < totalLpns := by
  by_contra hle
  rw [Ftl.write, if_pos (Nat.le_of_not_lt hle)] at h
  split_ifs at h <;> cases h

/-- The calls lead to the FTL that is left. -/
theorem writePages_run (h : writePages fuel lpn data is ftl = some (ok, ftl')) :
    Ftl.Run Machine.anyCall ftl (writeCalls fuel lpn data is ftl) ftl' := by
  induction is generalizing ftl with
  | nil =>
    obtain ⟨_, rfl⟩ := Prod.mk.inj (Option.some.inj h)
    exact .nil
  | cons i is ih =>
    rw [writePages] at h
    rw [writeCalls]
    cases hw : ftl.write fuel (lpn i) (data i) with
    | none =>
      rw [hw] at h
      cases h
    | some r =>
      obtain ⟨ret, ftl₁⟩ := r
      rw [hw] at h
      have hexec : ftl.exec fuel (.write (lpn i) (data i)) = some (⟨ret, none⟩, ftl₁) := by
        rw [Ftl.exec, hw]
        rfl
      cases ret with
      | ok => exact run_cons hexec (ih h)
      | _ =>
        obtain ⟨_, rfl⟩ := Prod.mk.inj (Option.some.inj h)
        exact run_cons hexec .nil

/-- Each call writes one of the pages. -/
theorem mem_writeCalls {x : Call × Answer} (h : x ∈ writeCalls fuel lpn data is ftl) :
    ∃ i ∈ is, ∃ ret, x = writeCall lpn data ret i := by
  induction is generalizing ftl with
  | nil => cases h
  | cons i is ih =>
    rw [writeCalls] at h
    cases hw : ftl.write fuel (lpn i) (data i) with
    | none =>
      rw [hw] at h
      cases h
    | some r =>
      obtain ⟨ret, ftl₁⟩ := r
      rw [hw] at h
      cases ret with
      | ok =>
        rcases List.mem_cons.1 h with rfl | h
        · exact ⟨i, List.mem_cons_self, .ok, rfl⟩
        · obtain ⟨j, hj, ret, rfl⟩ := ih h
          exact ⟨j, List.mem_cons_of_mem _ hj, ret, rfl⟩
      | _ =>
        rw [List.mem_singleton] at h
        exact ⟨i, List.mem_cons_self, _, h⟩

/-- If all pages have been written, each has been written once. -/
theorem writePages_ok (h : writePages fuel lpn data is ftl = some (true, ftl')) :
    writeCalls fuel lpn data is ftl = is.map (writeCall lpn data .ok) ∧
      ∀ i ∈ is, lpn i < totalLpns := by
  induction is generalizing ftl with
  | nil => exact ⟨rfl, fun i hi => absurd hi List.not_mem_nil⟩
  | cons i is ih =>
    rw [writePages] at h
    rw [writeCalls]
    cases hw : ftl.write fuel (lpn i) (data i) with
    | none =>
      rw [hw] at h
      cases h
    | some r =>
      obtain ⟨ret, ftl₁⟩ := r
      rw [hw] at h
      cases ret with
      | ok =>
        obtain ⟨hcalls, hlt⟩ := ih h
        refine ⟨congrArg _ hcalls, fun j hj => ?_⟩
        rcases List.mem_cons.1 hj with rfl | hj
        · exact write_ok_lt hw
        · exact hlt j hj
      | _ => cases h

/-! ## Trims -/

/-- Only ranges that are not empty, and begin with a logical page that the device has, can be
    trimmed. -/
theorem trim_ok {l count : UInt32} (h : ftl.trim l count = some (.ok, ftl')) :
    count ≠ 0 ∧ l.toNat < totalLpns := by
  rw [Ftl.trim] at h
  refine ⟨fun hcount => ?_, ?_⟩
  · rw [if_pos hcount] at h
    split_ifs at h <;> cases h
  · by_contra hle
    rw [if_pos (Nat.le_of_not_lt hle)] at h
    split_ifs at h <;> cases h

/-- The calls lead to the FTL that is left. -/
theorem trimRanges_run (h : trimRanges range is ok ftl = some (ok', ftl')) :
    Ftl.Run Machine.anyCall ftl (trimCalls range is ftl) ftl' := by
  induction is generalizing ftl ok with
  | nil =>
    obtain ⟨_, rfl⟩ := Prod.mk.inj (Option.some.inj h)
    exact .nil
  | cons r rs ih =>
    rw [trimRanges] at h
    rw [trimCalls]
    cases ht : ftl.trim (range r).lpn (range r).count with
    | none =>
      rw [ht] at h
      cases h
    | some a =>
      obtain ⟨ret, ftl₁⟩ := a
      rw [ht] at h
      have hexec : ftl.exec 0 (.trim (range r).lpn (range r).count) =
          some (⟨ret, none⟩, ftl₁) := by
        rw [Ftl.exec, ht]
        rfl
      cases ret <;> exact run_cons hexec (ih h)

/-- A failure is not forgotten. -/
theorem trimRanges_false : trimRanges range is false ftl ≠ some (true, ftl') := by
  induction is generalizing ftl with
  | nil => simp [trimRanges]
  | cons r rs ih =>
    rw [trimRanges]
    cases ftl.trim (range r).lpn (range r).count with
    | none => exact fun h => absurd h (by simp)
    | some a =>
      obtain ⟨ret, ftl₁⟩ := a
      cases ret <;> exact ih

/-- If all ranges have been trimmed, each has been trimmed once. -/
theorem trimRanges_ok (h : trimRanges range is true ftl = some (true, ftl')) :
    trimCalls range is ftl = is.map (trimCall range) ∧
      ∀ r ∈ is, (range r).count ≠ 0 ∧ (range r).lpn.toNat < totalLpns := by
  induction is generalizing ftl with
  | nil => exact ⟨rfl, fun i hi => absurd hi List.not_mem_nil⟩
  | cons r rs ih =>
    rw [trimRanges] at h
    rw [trimCalls]
    cases ht : ftl.trim (range r).lpn (range r).count with
    | none =>
      rw [ht] at h
      cases h
    | some a =>
      obtain ⟨ret, ftl₁⟩ := a
      rw [ht] at h
      cases ret with
      | ok =>
        obtain ⟨hcalls, hlt⟩ := ih h
        refine ⟨congrArg _ hcalls, fun q hq => ?_⟩
        rcases List.mem_cons.1 hq with rfl | hq
        · exact trim_ok ht
        · exact hlt q hq
      | _ => exact absurd h trimRanges_false

/-! ## Reads -/

/-- The calls lead to the FTL that is left. -/
theorem readPages_run {buf : Buffer} :
    Ftl.Run Machine.anyCall ftl (readCalls lpn is buf ftl) (readPages lpn is buf ftl).2 := by
  induction is generalizing ftl buf with
  | nil => exact .nil
  | cons i is ih =>
    rw [readCalls, readPages]
    generalize hr : ftl.read (lpn i) (buf.page i) = r
    obtain ⟨ret, page, ftl₁⟩ := r
    have hexec : ftl.exec 0 (.read (lpn i) (buf.page i)) = some (⟨ret, some page⟩, ftl₁) := by
      rw [Ftl.exec, hr]
    cases ret <;> exact run_cons hexec ih

/-! ## What calls do to a logical page -/

variable {calls : List (Call × Answer)} {c : Store} {i : ℕ} {v : Option PageData}

/-- Calls that, if anything, give a logical page the contents that it has. -/
theorem foldl_next_of_eq (hcalls : ∀ x ∈ calls, ∀ c : Store, next c x i = v ∨ next c x i = c i)
    (hc : c i = v) : calls.foldl next c i = v := by
  induction calls generalizing c with
  | nil => exact hc
  | cons x calls ih =>
    refine ih (fun y hy => hcalls y (List.mem_cons_of_mem _ hy)) ?_
    rcases hcalls x List.mem_cons_self c with h | h
    · exact h
    · exact h.trans hc

/-- Calls that all give a logical page the same contents, if any, and one of which does. -/
theorem foldl_next_of_mem (hcalls : ∀ x ∈ calls, ∀ c : Store, next c x i = v ∨ next c x i = c i)
    (hex : ∃ x ∈ calls, ∀ c : Store, next c x i = v) : calls.foldl next c i = v := by
  induction calls generalizing c with
  | nil =>
    obtain ⟨x, hx, _⟩ := hex
    cases hx
  | cons x calls ih =>
    have hrest : ∀ y ∈ calls, ∀ c : Store, next c y i = v ∨ next c y i = c i := fun y hy =>
      hcalls y (List.mem_cons_of_mem _ hy)
    obtain ⟨y, hy, hset⟩ := hex
    cases hy with
    | head =>
      rw [List.foldl_cons]
      exact foldl_next_of_eq hrest (hset c)
    | tail _ hy => exact ih hrest ⟨y, hy, hset⟩

/-- Calls that leave a logical page alone. -/
theorem foldl_next_of_ne (hcalls : ∀ x ∈ calls, ∀ c : Store, next c x i = c i) :
    calls.foldl next c i = c i :=
  foldl_next_of_eq (fun x hx c => Or.inr (hcalls x hx c)) rfl

/-- A write that has succeeded gives its page the data. -/
theorem next_writeCall_self (k : ℕ) :
    next c (writeCall lpn data .ok k) (lpn k) = some (data k) := by
  rw [writeCall, next, if_pos rfl, Function.update_self]

/-- A write leaves other pages alone. -/
theorem next_writeCall_of_ne {k : ℕ} (h : lpn k ≠ i) (ret : RetCode) :
    next c (writeCall lpn data ret k) i = c i := by
  rw [writeCall, next]
  split_ifs
  · exact Function.update_of_ne (Ne.symm h) _ _
  · rfl

/-- A write gives its page the data, or leaves it alone. -/
theorem next_writeCall_or (k : ℕ) (ret : RetCode) :
    next c (writeCall lpn data ret k) (lpn k) = some (data k) ∨
      next c (writeCall lpn data ret k) (lpn k) = c (lpn k) := by
  rw [writeCall, next]
  split_ifs
  · exact Or.inl (Function.update_self _ _ _)
  · exact Or.inr rfl

/-- A trim clears the pages of its range, and leaves others alone. -/
theorem next_trimCall (r : ℕ) : next c (trimCall range r) i =
    if (range r).lpn.toNat ≤ i ∧ i < (range r).lpn.toNat + (range r).count.toNat then none
    else c i := by
  rw [trimCall, next, if_pos rfl]

/-- Writes of different pages: a page that has been written with success holds its data. -/
theorem foldl_writes_self {k : ℕ}
    (hcalls : ∀ x ∈ calls, ∃ j ∈ is, ∃ ret, x = writeCall lpn data ret j)
    (hinj : ∀ j ∈ is, lpn j = lpn k → j = k) (hmem : writeCall lpn data .ok k ∈ calls) :
    calls.foldl next c (lpn k) = some (data k) := by
  refine foldl_next_of_mem (fun x hx c => ?_) ⟨_, hmem, fun c => next_writeCall_self k⟩
  obtain ⟨j, hj, ret, rfl⟩ := hcalls x hx
  by_cases hjk : lpn j = lpn k
  · rw [hinj j hj hjk]
    exact next_writeCall_or k ret
  · exact Or.inr (next_writeCall_of_ne hjk ret)

/-- Writes leave other pages than theirs alone. -/
theorem foldl_writes_of_ne (hcalls : ∀ x ∈ calls, ∃ j ∈ is, ∃ ret, x = writeCall lpn data ret j)
    (hne : ∀ j ∈ is, lpn j ≠ i) : calls.foldl next c i = c i := by
  refine foldl_next_of_ne fun x hx c => ?_
  obtain ⟨j, hj, ret, rfl⟩ := hcalls x hx
  exact next_writeCall_of_ne (hne j hj) ret

/-- Trims clear the pages of their ranges. -/
theorem foldl_trims_of_mem {r : ℕ} (hr : r ∈ is) (hle : (range r).lpn.toNat ≤ i)
    (hlt : i < (range r).lpn.toNat + (range r).count.toNat) :
    (is.map (trimCall range)).foldl next c i = none := by
  refine foldl_next_of_mem (fun x hx c => ?_)
    ⟨_, List.mem_map_of_mem hr, fun c => by rw [next_trimCall, if_pos ⟨hle, hlt⟩]⟩
  obtain ⟨q, _, rfl⟩ := List.mem_map.1 hx
  rw [next_trimCall]
  split_ifs
  · exact Or.inl rfl
  · exact Or.inr rfl

/-- Trims leave other pages than those of their ranges alone. -/
theorem foldl_trims_of_ne (hne : ∀ r ∈ is, (range r).lpn.toNat ≤ i →
    (range r).lpn.toNat + (range r).count.toNat ≤ i) :
    (is.map (trimCall range)).foldl next c i = c i := by
  refine foldl_next_of_ne fun x hx c => ?_
  obtain ⟨r, hr, rfl⟩ := List.mem_map.1 hx
  rw [next_trimCall, if_neg]
  rintro ⟨hle, hlt⟩
  exact absurd hlt (Nat.not_lt_of_le (hne r hr hle))

end Nvme

end FtlFirmware
