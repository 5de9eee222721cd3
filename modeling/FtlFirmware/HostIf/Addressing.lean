import FtlFirmware.Ftl.Calls
import FtlFirmware.Ftl.Filling
import FtlFirmware.HostIf.Basic
import FtlFirmware.Lib.Passes

/-!
# The addresses of the host interface

The I/O commands work on one logical page after the other, each of which is a call of the FTL
(`HostIf.calls`). The logical page and the place of its data are numbers of 32 bits that are made
from those of the command.

A command is *safe* if the calls for which the FTL accesses data do so within the data of the
command (`Buffered`), so that a read changes no other bytes of the memory, and a write depends on no
other ones (`ReadSafe.framed`, `WriteSafe.framed`); if it succeeds only after a call for each of its
logical pages, which exist (`Complete`); and if it changes no other ones (`Confined`,
`TrimSafe.framed`).

* `host_safe_iff`: which commands are safe in all states.
-/

namespace FtlFirmware

open Nvme (Buffer)

namespace HostIf

/-- One pass of the loop of a read: whether it succeeds. -/
def readStep (cmd : HostCmd) (i : ℕ) (s : HostIf) : Option (Bool × HostIf) :=
  let r := s.ftl.read (lpnOf cmd i) (pageAt s.mem (addressOf cmd i))
  some (decide (r.1 = .ok),
    { s with mem := setPageAt s.mem (addressOf cmd i) r.2.1, ftl := r.2.2 })

/-- One pass of the loop of a write. -/
def writeStep (fuel : ℕ) (cmd : HostCmd) (data : Buffer → ℕ → PageData) (i : ℕ) (s : HostIf) :
    Option (Bool × HostIf) :=
  (s.ftl.write fuel (lpnOf cmd i) (data s.mem i)).map fun r =>
    (decide (r.1 = .ok), { s with ftl := r.2 })

/-- A loop that stops when a pass fails. -/
def passes (step : ℕ → HostIf → Option (Bool × HostIf)) : List ℕ → HostIf → Option (Bool × HostIf)
  | [], s => some (true, s)
  | i :: is, s => (step i s).bind fun r => if r.1 then passes step is r.2 else some r

/-- The calls of the FTL that a loop makes, each with the FTL before it. -/
def calls (step : ℕ → HostIf → Option (Bool × HostIf)) : List ℕ → HostIf → List (ℕ × Ftl)
  | [], _ => []
  | i :: is, s =>
    (i, s.ftl) :: match step i s with
      | some (true, s) => calls step is s
      | _ => []

variable {cmd : HostCmd} {s s' : HostIf} {fuel : ℕ} {data : Buffer → ℕ → PageData}

/-- The status of a command whose loop has ended. -/
def statusOf (ok : Bool) : HostStatus := if ok then .success else .internalError

theorem readPages_eq_passes (cmd : HostCmd) (is : List ℕ) (s : HostIf) :
    some (readPages cmd is s) = (passes (readStep cmd) is s).map fun r => (statusOf r.1, r.2) := by
  induction is generalizing s with
  | nil => rfl
  | cons i is ih =>
    rw [readPages, passes, readStep]
    by_cases hok : (s.ftl.read (lpnOf cmd i) (pageAt s.mem (addressOf cmd i))).1 = .ok
    · simp only [hok, decide_true, if_true, Option.bind_some]
      exact ih _
    · simp only [hok, decide_false, Bool.false_eq_true, if_false, Option.bind_some]
      rfl

theorem writePages_eq_passes (is : List ℕ) :
    writePages fuel cmd data is s =
      (passes (writeStep fuel cmd data) is s).map fun r => (statusOf r.1, r.2) := by
  induction is generalizing s with
  | nil => rfl
  | cons i is ih =>
    rw [writePages, passes, writeStep]
    cases s.ftl.write fuel (lpnOf cmd i) (data s.mem i) with
    | none => rfl
    | some r =>
      by_cases hok : r.1 = .ok
      · simp only [hok, decide_true, if_true, Option.bind_some, Option.map_some]
        exact ih
      · simp only [hok, decide_false, Bool.false_eq_true, if_false, Option.bind_some,
          Option.map_some]
        rfl

/-! ### Safety -/

/-- The FTL writes the data of a read to memory. -/
def Fills (ftl : Ftl) (lpn : ℕ) : Prop :=
  ftl.isInitialized = true ∧ lpn < totalLpns ∧ ftl.l2pTable lpn ≠ none

/-- The FTL accepts a write. -/
def Takes (ftl : Ftl) (lpn : ℕ) : Prop := ftl.isInitialized = true ∧ lpn < totalLpns

/-- A read that the FTL refuses leaves all as it is. -/
theorem read_of_not_fills {ftl : Ftl} {lpn : ℕ} (h : ¬ Fills ftl lpn) (buf : PageData) :
    ∃ ret, ret ≠ .ok ∧ ftl.read lpn buf = (ret, buf, ftl) := by
  rw [Ftl.read]
  by_cases hinit : ftl.isInitialized = true
  · rw [if_neg (not_not.2 hinit)]
    by_cases hlpn : lpn < totalLpns
    · rw [if_neg (Nat.not_le.2 hlpn)]
      cases hl : ftl.l2pTable lpn with
      | none => exact ⟨.errNotMapped, by simp, rfl⟩
      | some ppn => exact absurd ⟨hinit, hlpn, hl ▸ Option.some_ne_none _⟩ h
    · rw [if_pos (Nat.le_of_not_lt hlpn)]
      exact ⟨.errParam, by simp, rfl⟩
  · rw [if_pos hinit]
    exact ⟨.errParam, by simp, rfl⟩

/-- And so does a write. -/
theorem write_of_not_takes {ftl : Ftl} {lpn : ℕ} (h : ¬ Takes ftl lpn) (buf : PageData) :
    ftl.write fuel lpn buf = some (.errParam, ftl) := by
  rw [Ftl.write]
  by_cases hinit : ftl.isInitialized = true
  · rw [if_neg (not_not.2 hinit), if_pos (Nat.le_of_not_lt fun hlpn => h ⟨hinit, hlpn⟩)]
  · rw [if_pos hinit]

/-- The `i`-th page of the data of a command is within them. -/
def InData (cmd : HostCmd) (i : ℕ) : Prop :=
  addressOf cmd i + pageSize ≤ cmd.dataBuf + cmd.dataLen.toNat

/-- The logical page is one of those that a command names. -/
def Named (cmd : HostCmd) (lpn : ℕ) : Prop := ∃ k ≤ cmd.nlb.toNat, lpn = cmd.slba.toNat + k

/-- The calls for which the FTL accesses data access those of the command. -/
def Buffered (accesses : Ftl → ℕ → Prop) (cmd : HostCmd) (l : List (ℕ × Ftl)) : Prop :=
  ∀ x ∈ l, accesses x.2 (lpnOf cmd x.1) → InData cmd x.1

/-- The calls are one for each logical page of the command, all of which exist. -/
def Complete (cmd : HostCmd) (l : List (ℕ × Ftl)) : Prop :=
  (∀ k ≤ cmd.nlb.toNat, cmd.slba.toNat + k < totalLpns) ∧
    l.map (fun x => lpnOf cmd x.1) =
      (List.range (cmd.nlb.toNat + 1)).map fun k => cmd.slba.toNat + k

/-- The logical pages that are written are those of the command. -/
def Confined (cmd : HostCmd) (l : List (ℕ × Ftl)) : Prop :=
  ∀ x ∈ l, Takes x.2 (lpnOf cmd x.1) → Named cmd (lpnOf cmd x.1)

/-- The calls of a read. -/
def readCalls (cmd : HostCmd) (s : HostIf) : List (ℕ × Ftl) :=
  calls (readStep cmd) (List.range (pageCount cmd)) s

/-- The calls of a write. -/
def writeCalls (fuel : ℕ) (cmd : HostCmd) (data : Buffer → ℕ → PageData) (s : HostIf) :
    List (ℕ × Ftl) :=
  calls (writeStep fuel cmd data) (List.range (pageCount cmd)) s

/-- The data of a write. -/
def dataOf (cmd : HostCmd) : Buffer → ℕ → PageData := fun mem i => pageAt mem (addressOf cmd i)

/-- The byte `k` of the memory is one of the data of a command. -/
def OfData (cmd : HostCmd) (k : ℕ) : Prop :=
  cmd.dataBuf ≤ k ∧ k < cmd.dataBuf + cmd.dataLen.toNat

/-- A read is safe. -/
structure ReadSafe (cmd : HostCmd) (s : HostIf) : Prop where
  buffered : Buffered Fills cmd (readCalls cmd s)
  framed : ∀ k, ¬ OfData cmd k → (s.processReadCmd cmd).2.mem k = s.mem k
  complete : (s.processReadCmd cmd).1 = .success → Complete cmd (readCalls cmd s)

/-- A write is safe. -/
structure WriteSafe (cmd : HostCmd) (fuel : ℕ) (s : HostIf) : Prop where
  buffered : Buffered Takes cmd (writeCalls fuel cmd (dataOf cmd) s)
  framed : ∀ mem : Buffer, (∀ k, OfData cmd k → mem k = s.mem k) →
    processWriteCmd { s with mem := mem } fuel cmd =
      (s.processWriteCmd fuel cmd).map fun r => (r.1, { r.2 with mem := mem })
  complete : ∀ s', s.processWriteCmd fuel cmd = some (.success, s') →
    Complete cmd (writeCalls fuel cmd (dataOf cmd) s)
  confined : Confined cmd (writeCalls fuel cmd (dataOf cmd) s)

/-- A write of zeros is safe. It takes no data from the host. -/
structure ZeroesSafe (cmd : HostCmd) (fuel : ℕ) (s : HostIf) : Prop where
  complete : ∀ s', s.processWriteZeroesCmd fuel true cmd = some (.success, s') →
    Complete cmd (writeCalls fuel cmd (fun _ _ => blankPage) s)
  confined : Confined cmd (writeCalls fuel cmd (fun _ _ => blankPage) s)

/-- The first logical page of a command: a 32-bit number. -/
abbrev base (cmd : HostCmd) : ℕ := cmd.slba.toUInt32.toNat

/-- The logical pages that a trim goes through. -/
def trimmed (cmd : HostCmd) (s : HostIf) : List ℕ :=
  if s.ftl.isInitialized = true ∧ cmd.nlb + 1 ≠ 0 ∧ base cmd < totalLpns then
    List.range' (base cmd) (Ftl.trimLength cmd.slba.toUInt32 (cmd.nlb + 1))
  else []

/-- A trim is safe. -/
structure TrimSafe (cmd : HostCmd) (s : HostIf) : Prop where
  named : ∀ lpn ∈ trimmed cmd s, lpn < totalLpns ∧ Named cmd lpn
  framed : ∀ status s', s.processTrimCmd cmd = some (status, s') → ∀ lpn, ¬ Named cmd lpn →
    s'.ftl.l2pTable lpn = s.ftl.l2pTable lpn

/-- A trim trims these logical pages, or none. -/
theorem trim_trimmed {ret : RetCode} {ftl : Ftl}
    (h : s.ftl.trim cmd.slba.toUInt32 (cmd.nlb + 1) = some (ret, ftl)) :
    ∃ ftl', (trimmed cmd s).foldlM Ftl.trimPage s.ftl = some ftl' ∧
      (ftl = ftl' ∨ ftl = { ftl' with trimCount := ftl'.trimCount + 1 }) := by
  rw [Ftl.trim] at h
  rw [trimmed]
  split_ifs at h with hinit hcount hlpn
  · rw [if_neg fun h => h.2.1 hcount]
    exact ⟨_, rfl, Or.inl (Prod.mk.inj (Option.some.inj h)).2.symm⟩
  · rw [if_neg fun h => Nat.not_le_of_lt h.2.2 hlpn]
    exact ⟨_, rfl, Or.inl (Prod.mk.inj (Option.some.inj h)).2.symm⟩
  · rw [if_pos ⟨hinit, hcount, Nat.lt_of_not_le hlpn⟩]
    obtain ⟨ftl', hpages, heq⟩ := Option.map_eq_some_iff.1 h
    exact ⟨ftl', hpages, Or.inr (Prod.mk.inj heq).2.symm⟩
  · rw [if_neg fun h => hinit h.1]
    exact ⟨_, rfl, Or.inl (Prod.mk.inj (Option.some.inj h)).2.symm⟩

/-- A trim of named pages alone leaves the other ones where they are. -/
theorem TrimSafe.of_named (h : ∀ lpn ∈ trimmed cmd s, lpn < totalLpns ∧ Named cmd lpn) :
    TrimSafe cmd s := by
  refine ⟨h, fun status s' htrim lpn hlpn => ?_⟩
  rw [processTrimCmd] at htrim
  obtain ⟨⟨ret, ftl⟩, hftl, heq⟩ := Option.map_eq_some_iff.1 htrim
  obtain ⟨ftl', hpages, hor⟩ := trim_trimmed hftl
  have hs' : s'.ftl = ftl := congrArg (fun r : HostStatus × HostIf => r.2.ftl) heq.symm
  have hsame := (Ftl.foldlM_trimPage_l2pTable hpages lpn).trans
    (if_neg fun hmem => hlpn (h lpn hmem).2)
  rcases hor with rfl | rfl
  · rw [hs', hsame]
  · rw [hs', ← hsame]

/-! ### What the handlers access -/

theorem setPageAt_pageAt (mem : Buffer) (address : ℕ) :
    setPageAt mem address (pageAt mem address) = mem := by
  funext k
  rw [setPageAt, Buffer.store]
  split_ifs with h
  · have hlt : k - address < pageSize := by omega
    rw [Array.getD_eq_getD_getElem?, Vector.getElem?_toArray, Vector.getElem?_eq_getElem hlt,
      Option.getD_some, pageAt, Vector.getElem_ofFn, Nat.add_sub_cancel' h.1]
  · rfl

theorem ofData_of_inData {i k : ℕ} (h : InData cmd i) (hle : addressOf cmd i ≤ k)
    (hlt : k < addressOf cmd i + pageSize) : OfData cmd k :=
  ⟨Nat.le_trans (Nat.le_add_right _ _) hle, Nat.lt_of_lt_of_le hlt h⟩

/-- A loop of reads whose calls fill the data of the command alone leaves all others. -/
theorem readPages_framed {is : List ℕ} {k : ℕ}
    (h : Buffered Fills cmd (calls (readStep cmd) is s)) (hk : ¬ OfData cmd k) :
    (readPages cmd is s).2.mem k = s.mem k := by
  induction is generalizing s with
  | nil => rfl
  | cons i is ih =>
    obtain ⟨hfirst, hrest⟩ := List.forall_mem_cons.1 h
    rw [readPages]
    by_cases hfills : Fills s.ftl (lpnOf cmd i)
    · have hsame (page : PageData) : setPageAt s.mem (addressOf cmd i) page k = s.mem k := by
        rw [setPageAt, Buffer.store, if_neg]
        exact fun h => hk (ofData_of_inData (hfirst hfills) h.1 h.2)
      by_cases hok : (s.ftl.read (lpnOf cmd i) (pageAt s.mem (addressOf cmd i))).1 = .ok
      · simp only [readStep, hok, decide_true] at hrest
        rw [if_pos hok, ih hrest]
        exact hsame _
      · rw [if_neg hok]
        exact hsame _
    · -- the page is put back as it was
      obtain ⟨ret, hret, hread⟩ := read_of_not_fills hfills (pageAt s.mem (addressOf cmd i))
      rw [hread, if_neg hret]
      exact congrFun (setPageAt_pageAt s.mem _) k

/-- A loop of writes whose calls take the data of the command alone depends on no others, and leaves
    the memory as it is. -/
theorem writePages_framed {is : List ℕ} {mem : Buffer}
    (h : Buffered Takes cmd (calls (writeStep fuel cmd (dataOf cmd)) is s))
    (hmem : ∀ k, OfData cmd k → mem k = s.mem k) :
    writePages fuel cmd (dataOf cmd) is { s with mem := mem } =
      (writePages fuel cmd (dataOf cmd) is s).map fun r => (r.1, { r.2 with mem := mem }) := by
  induction is generalizing s with
  | nil => rfl
  | cons i is ih =>
    obtain ⟨hfirst, hrest⟩ := List.forall_mem_cons.1 h
    rw [writePages, writePages, Option.map_bind]
    by_cases htakes : Takes s.ftl (lpnOf cmd i)
    · have hpage : dataOf cmd mem i = dataOf cmd s.mem i := by
        refine Vector.ext fun j hj => ?_
        rw [dataOf, dataOf, pageAt, pageAt, Vector.getElem_ofFn, Vector.getElem_ofFn]
        exact hmem _ (ofData_of_inData (hfirst htakes) (Nat.le_add_right _ _)
          (Nat.add_lt_add_left hj _))
      dsimp only
      rw [hpage]
      refine Option.bind_congr fun r hr => ?_
      rw [Function.comp_apply]
      by_cases hok : r.1 = .ok
      · simp only [writeStep, hr, Option.map_some, hok, decide_true] at hrest
        rw [if_pos hok, if_pos hok]
        exact ih hrest hmem
      · rw [if_neg hok, if_neg hok, Option.map_some]
    · rw [write_of_not_takes htakes, write_of_not_takes htakes, Option.bind_some, Option.bind_some,
        Function.comp_apply, if_neg RetCode.noConfusion, if_neg RetCode.noConfusion,
        Option.map_some]

/-! ### The passes of a loop -/

theorem lpnOf_eq {i : ℕ} (h : base cmd + i < 2 ^ 32) : lpnOf cmd i = base cmd + i := by
  rw [lpnOf, UInt32.toNat_add, UInt32.toNat_ofNat', Nat.add_mod_mod]
  exact Nat.mod_eq_of_lt h

theorem lpnOf_lt {i : ℕ} (h : base cmd + i < totalLpns) : lpnOf cmd i < totalLpns := by
  rwa [lpnOf_eq (Nat.lt_trans h (by decide))]

/-- The logical pages go on one by one as long as they exist. -/
theorem base_add_lt {i : ℕ} (h : ∀ j ≤ i, lpnOf cmd j < totalLpns) : base cmd + i < totalLpns := by
  induction i with
  | zero =>
    have hzero := h 0 (Nat.le_refl 0)
    rwa [lpnOf_eq cmd.slba.toUInt32.toNat_lt] at hzero
  | succ i ih =>
    have hlt := ih fun j hj => h j (Nat.le_succ_of_le hj)
    have hlast := h (i + 1) (Nat.le_refl _)
    rwa [lpnOf_eq (Nat.lt_of_le_of_lt (Nat.succ_le_of_lt hlt) (by decide))] at hlast

section

variable {step : ℕ → HostIf → Option (Bool × HostIf)}

theorem passes_eq_run (is : List ℕ) : passes step is s = Passes.run step is s := by
  induction is generalizing s with
  | nil => rfl
  | cons i is ih =>
    rw [passes, Passes.run]
    exact Option.bind_congr fun r _ => by rw [ih]

theorem calls_eq_begun (is : List ℕ) :
    calls step is s = (Passes.begun step is s).map fun x => (x.1, x.2.ftl) := by
  induction is generalizing s with
  | nil => rfl
  | cons i is ih =>
    obtain hnone | ⟨⟨ok, s₁⟩, hsome⟩ := (step i s).eq_none_or_eq_some
    · simp [calls, Passes.begun, hnone]
    · cases ok with
      | false => simp [calls, Passes.begun, hsome]
      | true => simp [calls, Passes.begun, hsome, ih]

/-- Before a call, all passes have succeeded. -/
theorem mem_calls {valid : ℕ → Prop} (hvalid : ∀ i s s', step i s = some (true, s') → valid i)
    {k m : ℕ} {x : ℕ × Ftl} (hx : x ∈ calls step (List.range' k m) s) :
    k ≤ x.1 ∧ x.1 < k + m ∧ ∀ j, k ≤ j → j < x.1 → valid j := by
  rw [calls_eq_begun] at hx
  obtain ⟨y, hy, rfl⟩ := List.mem_map.1 hx
  exact Passes.mem_begun hvalid hy

/-- If a loop succeeds, all its passes have been made, and have succeeded. -/
theorem passes_true {valid : ℕ → Prop} (hvalid : ∀ i s s', step i s = some (true, s') → valid i)
    {k m : ℕ} (h : passes step (List.range' k m) s = some (true, s')) :
    (calls step (List.range' k m) s).map Prod.fst = List.range' k m ∧
      ∀ j, k ≤ j → j < k + m → valid j := by
  rw [passes_eq_run] at h
  rw [calls_eq_begun, List.map_map]
  exact Passes.run_true hvalid h

/-- As long as the passes succeed, there is a next call. -/
theorem exists_call {P : ℕ → HostIf → Prop} {k m i : ℕ} (hki : k ≤ i) (him : i < k + m)
    (hstep : ∀ j < i, ∀ s, P j s → ∃ s', step j s = some (true, s') ∧ P (j + 1) s') (h : P k s) :
    ∃ s', P i s' ∧ (i, s'.ftl) ∈ calls step (List.range' k m) s := by
  obtain ⟨s', hi, hmem⟩ := Passes.exists_begun hki him hstep h
  rw [calls_eq_begun]
  exact ⟨s', hi, List.mem_map_of_mem hmem⟩

/-- A loop whose passes all succeed does so, too. -/
theorem exists_passes {P : ℕ → HostIf → Prop} {k m : ℕ}
    (hstep : ∀ j < k + m, ∀ s, P j s → ∃ s', step j s = some (true, s') ∧ P (j + 1) s')
    (h : P k s) : ∃ s', passes step (List.range' k m) s = some (true, s') := by
  rw [passes_eq_run]
  exact Passes.exists_run hstep h

end

/-! ### Which commands are safe -/

/-- The data of a command have room for its logical pages, as far as these exist. -/
def Fits (cmd : HostCmd) : Prop :=
  ∀ i ≤ cmd.nlb.toNat, base cmd + i < totalLpns → (i + 1) * pageSize ≤ cmd.dataLen.toNat

/-- The number of logical pages is a 32-bit number. -/
def Counted (cmd : HostCmd) : Prop := cmd.nlb.toNat + 1 < 2 ^ 32

/-- The first logical page is a 32-bit number. -/
def Addressed (cmd : HostCmd) : Prop := cmd.slba.toNat < 2 ^ 32

instance : Decidable (Counted cmd) := inferInstanceAs (Decidable (_ < _))

instance : Decidable (Addressed cmd) := inferInstanceAs (Decidable (_ < _))

theorem base_eq (h : Addressed cmd) : base cmd = cmd.slba.toNat := by
  rw [base, UInt64.toNat_toUInt32]
  exact Nat.mod_eq_of_lt h

theorem pageCount_eq : pageCount cmd = (cmd.nlb.toNat + 1) % 2 ^ 32 := by
  rw [pageCount, UInt32.toNat_add]
  rfl

theorem Counted.pageCount_eq (h : Counted cmd) : pageCount cmd = cmd.nlb.toNat + 1 :=
  HostIf.pageCount_eq.trans (Nat.mod_eq_of_lt h)

theorem pageCount_le (cmd : HostCmd) : pageCount cmd ≤ cmd.nlb.toNat + 1 :=
  pageCount_eq ▸ Nat.mod_le _ _

/-- The place of a page that exists. -/
theorem addressOf_eq {i : ℕ} (h : base cmd + i < totalLpns) :
    addressOf cmd i = cmd.dataBuf + i * pageSize := by
  have hlt : i * pageSize < 2 ^ 32 := by
    simp only [totalLpns, totalPpns, totalBlocks, pagesPerBlock, pageSize] at h ⊢
    omega
  rw [addressOf, Nat.mod_eq_of_lt hlt]

section

variable {step : ℕ → HostIf → Option (Bool × HostIf)} {accesses : Ftl → ℕ → Prop}

/-- The calls of a loop. -/
abbrev callsOf (step : ℕ → HostIf → Option (Bool × HostIf)) (cmd : HostCmd) (s : HostIf) :
    List (ℕ × Ftl) :=
  calls step (List.range (pageCount cmd)) s

/-- A call on a logical page that exists is on one that goes on from the first one. -/
theorem lpnOf_of_mem
    (hvalid : ∀ i s s', step i s = some (true, s') → lpnOf cmd i < totalLpns) {x : ℕ × Ftl}
    (hx : x ∈ callsOf step cmd s) (hlpn : lpnOf cmd x.1 < totalLpns) :
    x.1 ≤ cmd.nlb.toNat ∧ base cmd + x.1 < totalLpns ∧ lpnOf cmd x.1 = base cmd + x.1 := by
  rw [callsOf, List.range_eq_range'] at hx
  obtain ⟨-, hlt, hbefore⟩ := mem_calls hvalid hx
  have hsum : base cmd + x.1 < totalLpns := by
    refine base_add_lt fun j hj => ?_
    rcases Nat.eq_or_lt_of_le hj with rfl | hj
    · exact hlpn
    · exact hbefore j (Nat.zero_le j) hj
  have hle := pageCount_le cmd
  exact ⟨by omega, hsum, lpnOf_eq (Nat.lt_trans hsum (by decide))⟩

theorem buffered_of_fits
    (hvalid : ∀ i s s', step i s = some (true, s') → lpnOf cmd i < totalLpns)
    (hlt : ∀ ftl lpn, accesses ftl lpn → lpn < totalLpns) (hfits : Fits cmd) :
    Buffered accesses cmd (callsOf step cmd s) := by
  intro x hx haccess
  obtain ⟨hle, hsum, -⟩ := lpnOf_of_mem hvalid hx (hlt _ _ haccess)
  have hroom := hfits x.1 hle hsum
  rw [InData, addressOf_eq hsum]
  rw [Nat.succ_mul] at hroom
  omega

theorem confined_of_addressed
    (hvalid : ∀ i s s', step i s = some (true, s') → lpnOf cmd i < totalLpns)
    (h : Addressed cmd ∨ totalLpns ≤ base cmd) : Confined cmd (callsOf step cmd s) := by
  intro x hx htakes
  obtain ⟨hle, hsum, heq⟩ := lpnOf_of_mem hvalid hx htakes.2
  rcases h with haddr | hbeyond
  · exact ⟨x.1, hle, heq.trans (by rw [base_eq haddr])⟩
  · omega

theorem complete_of_addressed
    (hvalid : ∀ i s s', step i s = some (true, s') → lpnOf cmd i < totalLpns)
    (hcounted : Counted cmd) (h : Addressed cmd ∨ totalLpns ≤ base cmd + cmd.nlb.toNat)
    (hpasses : passes step (List.range (pageCount cmd)) s = some (true, s')) :
    Complete cmd (callsOf step cmd s) := by
  have hcount := hcounted.pageCount_eq
  rw [callsOf]
  rw [List.range_eq_range'] at hpasses ⊢
  obtain ⟨hcalls, hall⟩ := passes_true hvalid hpasses
  have hlast : base cmd + cmd.nlb.toNat < totalLpns :=
    base_add_lt fun j hj => hall j (Nat.zero_le j) (by omega)
  have haddr : Addressed cmd := h.resolve_right (Nat.not_le_of_lt hlast)
  have hbase := base_eq haddr
  refine ⟨fun k hk => by omega, ?_⟩
  have hmap : (calls step (List.range' 0 (pageCount cmd)) s).map (fun x => lpnOf cmd x.1) =
      (List.range' 0 (pageCount cmd)).map (lpnOf cmd) :=
    (List.map_map (f := Prod.fst) (g := lpnOf cmd)).symm.trans
      (congrArg (List.map (lpnOf cmd)) hcalls)
  rw [hmap, hcount, List.range_eq_range']
  refine List.map_congr_left fun i hi => ?_
  have hle := (List.mem_range'_1.1 hi).2
  rw [lpnOf_eq (Nat.lt_trans (by omega : base cmd + i < totalLpns) (by decide)), hbase]

end

/-- A command whose number of logical pages wraps around to zero succeeds without any call. -/
theorem counted_of_complete (hzero : pageCount cmd = 0 → ∃ l, Complete cmd l) : Counted cmd := by
  by_contra hwraps
  have hnlb := cmd.nlb.toNat_lt
  rw [Counted] at hwraps
  obtain ⟨l, hpages, -⟩ := hzero (by rw [pageCount_eq]; omega)
  have hlast := hpages cmd.nlb.toNat (Nat.le_refl _)
  simp only [totalLpns, totalPpns, totalBlocks, pagesPerBlock] at hlast
  omega

/-- A command whose calls are on all its logical pages has an address of 32 bits. -/
theorem addressed_of_complete {l : List (ℕ × Ftl)} (h : Complete cmd l) : Addressed cmd :=
  Nat.lt_trans (Nat.lt_of_le_of_lt (Nat.le_add_right _ 0) (h.1 0 (Nat.zero_le _))) (by decide)

/-- An interface with a FTL. -/
def hostOn (ftl : Ftl) : HostIf where
  isInitialized := true
  queueSize := 1
  heap _ := none
  sqHead := none
  sqTail := none
  sqCount := 0
  cq := ⟨fun _ => ⟨0, 0, 0, .success, false⟩, 0, 0, 0⟩
  phaseTag := true
  features := defaultFeatures
  cidCounter := 0
  mem _ := 0
  ftl := ftl

theorem readStep_valid (i : ℕ) (s s' : HostIf) (h : readStep cmd i s = some (true, s')) :
    lpnOf cmd i < totalLpns := by
  by_contra hlpn
  have hfills : ¬Fills s.ftl (lpnOf cmd i) := fun h => hlpn h.2.1
  obtain ⟨ret, hret, hread⟩ := read_of_not_fills hfills (pageAt s.mem (addressOf cmd i))
  rw [readStep, hread] at h
  exact hret (of_decide_eq_true (Prod.mk.inj (Option.some.inj h)).1)

theorem writeStep_valid (i : ℕ) (s s' : HostIf)
    (h : writeStep fuel cmd data i s = some (true, s')) : lpnOf cmd i < totalLpns := by
  by_contra hlpn
  rw [writeStep, write_of_not_takes fun h => hlpn h.2] at h
  simp at h

/-- All logical pages can be read. -/
def AllFilled (s : HostIf) : Prop :=
  ∃ c L, Ftl.Calm c L s.ftl ∧ ∀ lpn < totalLpns, L.table lpn ≠ none

theorem AllFilled.fills (h : AllFilled s) {lpn : ℕ} (hlpn : lpn < totalLpns) : Fills s.ftl lpn := by
  obtain ⟨c, L, hcalm, hmapped⟩ := h
  exact ⟨hcalm.inv.started, hlpn, hcalm.table ▸ hmapped lpn hlpn⟩

theorem AllFilled.readStep (h : AllFilled s) {i : ℕ} (hlpn : lpnOf cmd i < totalLpns) :
    ∃ s', readStep cmd i s = some (true, s') ∧ AllFilled s' := by
  obtain ⟨c, L, hcalm, hmapped⟩ := h
  obtain ⟨ppn, hl⟩ := Option.ne_none_iff_exists'.1 (hmapped _ hlpn)
  obtain ⟨d, -, hread, hcalm'⟩ := hcalm.read hlpn hl (pageAt s.mem (addressOf cmd i))
  rw [HostIf.readStep, hread]
  exact ⟨_, rfl, c, _, hcalm', hmapped⟩

/-- The first pages of the device have been written. -/
def Begun (n : ℕ) (s : HostIf) : Prop := ∃ c L, Ftl.Calm c L s.ftl ∧ L.Ahead n

theorem Begun.takes {n : ℕ} (h : Begun n s) {lpn : ℕ} (hlpn : lpn < totalLpns) :
    Takes s.ftl lpn := by
  obtain ⟨c, L, hcalm, -⟩ := h
  exact ⟨hcalm.inv.started, hlpn⟩

theorem Begun.writeStep {n : ℕ} (h : Begun n s) (hn : n < totalLpns) {i : ℕ}
    (hlpn : lpnOf cmd i < totalLpns) :
    ∃ s', writeStep 0 cmd data i s = some (true, s') ∧ Begun (n + 1) s' := by
  obtain ⟨c, L, hcalm, hL⟩ := h
  obtain ⟨L', ftl, hwrite, hcalm', hL', -⟩ :=
    hcalm.write_ahead hL (Nat.lt_trans hn (by decide)) hlpn (data s.mem i)
  rw [HostIf.writeStep, hwrite]
  exact ⟨_, rfl, _, L', hcalm', hL'⟩

theorem exists_allFilled : ∃ s, AllFilled s := by
  obtain ⟨c, L, ftl, h, hmapped⟩ := Ftl.exists_full
  exact ⟨hostOn ftl, c, L, h, hmapped⟩

theorem exists_begun : ∃ s, Begun 0 s := by
  obtain ⟨ftl, -, h⟩ := Ftl.Calm.powerOn (fun _ => 99) (fun _ => by decide) fun _ => none
  exact ⟨hostOn ftl, _, _, h, Ftl.Layout.ahead_fresh⟩

/-- A page whose call accesses data is within them. -/
theorem fits_of_inData {i : ℕ} (hlpn : base cmd + i < totalLpns) (h : InData cmd i) :
    (i + 1) * pageSize ≤ cmd.dataLen.toNat := by
  rw [InData, addressOf_eq hlpn] at h
  rw [Nat.succ_mul]
  omega

theorem eq_true_of_statusOf {ok : Bool} (h : statusOf ok = .success) : ok = true := by
  cases ok with
  | false => exact absurd h (by decide)
  | true => rfl

theorem processReadCmd_success (h : (s.processReadCmd cmd).1 = .success) :
    ∃ s', passes (readStep cmd) (List.range (pageCount cmd)) s = some (true, s') := by
  obtain ⟨⟨ok, s'⟩, hpasses, heq⟩ := Option.map_eq_some_iff.1
    (readPages_eq_passes cmd (List.range (pageCount cmd)) s).symm
  rw [processReadCmd, ← heq] at h
  exact ⟨s', eq_true_of_statusOf h ▸ hpasses⟩

/-- A read is safe in all states if and only if the number of its pages is one of 32 bits, its data
    have room for those that exist, and its address is one of 32 bits or not all of its pages would
    exist if it were. -/
theorem readSafe_iff : (∀ s, ReadSafe cmd s) ↔ Counted cmd ∧ Fits cmd ∧
    (Addressed cmd ∨ totalLpns ≤ base cmd + cmd.nlb.toNat) := by
  constructor
  · intro hsafe
    obtain ⟨s, hfull⟩ := exists_allFilled
    have hcounted : Counted cmd := by
      refine counted_of_complete fun hzero => ⟨_, (hsafe s).complete ?_⟩
      rw [processReadCmd, hzero]
      rfl
    have hcount := hcounted.pageCount_eq
    have hpass {n : ℕ} (hn : base cmd + n ≤ totalLpns) :
        ∀ j < n, ∀ s, AllFilled s → ∃ s', readStep cmd j s = some (true, s') ∧ AllFilled s' :=
      fun j hj s h => h.readStep (lpnOf_lt (by omega))
    refine ⟨hcounted, fun i hi hlt => ?_, ?_⟩
    · obtain ⟨s', hfull', hmem⟩ := exists_call (P := fun _ => AllFilled) (Nat.zero_le i)
        (by omega : i < 0 + pageCount cmd) (hpass (Nat.le_of_lt hlt)) hfull
      rw [← List.range_eq_range'] at hmem
      have hin := (hsafe s).buffered _ hmem (hfull'.fills (lpnOf_lt hlt))
      exact fits_of_inData hlt hin
    · by_contra hboth
      obtain ⟨haddr, hlast⟩ := not_or.1 hboth
      obtain ⟨s', hpasses⟩ := exists_passes (P := fun _ => AllFilled) (k := 0)
        (hpass (by omega : base cmd + (0 + pageCount cmd) ≤ totalLpns)) hfull
      refine haddr (addressed_of_complete ((hsafe s).complete ?_))
      have heq := readPages_eq_passes cmd (List.range (pageCount cmd)) s
      rw [List.range_eq_range', hpasses] at heq
      rw [processReadCmd, List.range_eq_range', Option.some.inj heq]
      rfl
  · rintro ⟨hcounted, hfits, haddr⟩ s
    have hbuffered : Buffered Fills cmd (readCalls cmd s) :=
      buffered_of_fits readStep_valid (fun _ _ h => h.2.1) hfits
    refine ⟨hbuffered, fun k hk => readPages_framed hbuffered hk, fun h => ?_⟩
    obtain ⟨s', hpasses⟩ := processReadCmd_success h
    exact complete_of_addressed readStep_valid hcounted haddr hpasses

theorem writePages_success
    (h : writePages fuel cmd data (List.range (pageCount cmd)) s = some (.success, s')) :
    passes (writeStep fuel cmd data) (List.range (pageCount cmd)) s = some (true, s') := by
  rw [writePages_eq_passes] at h
  obtain ⟨⟨ok, s₁⟩, hpasses, heq⟩ := Option.map_eq_some_iff.1 h
  obtain ⟨hstatus, hlast⟩ := Prod.mk.inj heq
  have hok : ok = true := eq_true_of_statusOf hstatus
  have hs' : s₁ = s' := hlast
  rw [hpasses, hok, hs']

/-- The first call is on the first page of the command only if its address is one of 32 bits, or the
    page does not exist. -/
theorem addressed_of_confined {step : ℕ → HostIf → Option (Bool × HostIf)}
    (h : Confined cmd (callsOf step cmd s)) (hpos : 0 < pageCount cmd)
    (hinit : s.ftl.isInitialized = true) : Addressed cmd ∨ totalLpns ≤ base cmd := by
  refine or_iff_not_imp_right.2 fun hlt => ?_
  have hlpn : lpnOf cmd 0 < totalLpns := lpnOf_lt (Nat.lt_of_not_le hlt)
  have hnone : ∀ j < 0, ∀ s', s' = s → ∃ s'', step j s' = some (true, s'') ∧ s'' = s :=
    fun j hj => absurd hj (Nat.not_lt_zero j)
  obtain ⟨s', rfl, hmem⟩ := exists_call (P := fun _ s' => s' = s) (Nat.le_refl 0)
    (by omega : 0 < 0 + pageCount cmd) hnone rfl
  rw [← List.range_eq_range'] at hmem
  obtain ⟨k, -, hk⟩ := h _ hmem ⟨hinit, hlpn⟩
  refine Nat.lt_of_le_of_lt (Nat.le_add_right _ k) (hk ▸ Nat.lt_trans hlpn (by decide))

/-- A write is safe in all states if and only if the number of its pages is one of 32 bits, its data
    have room for those that exist, and its address is one of 32 bits or no page would exist if it
    were. -/
theorem writeSafe_iff : (∀ fuel s, WriteSafe cmd fuel s) ↔ Counted cmd ∧ Fits cmd ∧
    (Addressed cmd ∨ totalLpns ≤ base cmd) := by
  constructor
  · intro hsafe
    obtain ⟨s, hbegun⟩ := exists_begun
    have hcounted : Counted cmd := by
      refine counted_of_complete fun hzero => ⟨_, (hsafe 0 s).complete s ?_⟩
      rw [processWriteCmd, hzero]
      rfl
    have hcount := hcounted.pageCount_eq
    refine ⟨hcounted, fun i hi hlt => ?_, ?_⟩
    · have hpass : ∀ j < i, ∀ s, Begun j s →
          ∃ s', writeStep 0 cmd (dataOf cmd) j s = some (true, s') ∧ Begun (j + 1) s' :=
        fun j hj s h => h.writeStep (by omega) (lpnOf_lt (by omega))
      obtain ⟨s', hbegun', hmem⟩ := exists_call (P := Begun) (Nat.zero_le i)
        (by omega : i < 0 + pageCount cmd) hpass hbegun
      rw [← List.range_eq_range'] at hmem
      have hin := (hsafe 0 s).buffered _ hmem (hbegun'.takes (lpnOf_lt hlt))
      exact fits_of_inData hlt hin
    · exact addressed_of_confined (hsafe 0 s).confined (by omega)
        (hbegun.takes (show 0 < totalLpns by decide)).1
  · rintro ⟨hcounted, hfits, haddr⟩ fuel s
    have hbuffered : Buffered Takes cmd (writeCalls fuel cmd (dataOf cmd) s) :=
      buffered_of_fits writeStep_valid (fun _ _ h => h.2) hfits
    refine ⟨hbuffered, fun mem hmem => writePages_framed hbuffered hmem, fun s' h => ?_,
      confined_of_addressed writeStep_valid haddr⟩
    exact complete_of_addressed writeStep_valid hcounted
      (haddr.imp_right fun h => Nat.le_add_right_of_le h) (writePages_success h)

/-- A write of zeros has no data that must have room. -/
theorem zeroesSafe_iff : (∀ fuel s, ZeroesSafe cmd fuel s) ↔
    Counted cmd ∧ (Addressed cmd ∨ totalLpns ≤ base cmd) := by
  constructor
  · intro hsafe
    obtain ⟨s, hbegun⟩ := exists_begun
    have hcounted : Counted cmd := by
      refine counted_of_complete fun hzero => ⟨_, (hsafe 0 s).complete s ?_⟩
      rw [processWriteZeroesCmd, hzero]
      rfl
    have hcount := hcounted.pageCount_eq
    exact ⟨hcounted, addressed_of_confined (hsafe 0 s).confined (by omega)
      (hbegun.takes (show 0 < totalLpns by decide)).1⟩
  · rintro ⟨hcounted, haddr⟩ fuel s
    refine ⟨fun s' h => ?_, confined_of_addressed writeStep_valid haddr⟩
    exact complete_of_addressed writeStep_valid hcounted
      (haddr.imp_right fun h => Nat.le_add_right_of_le h) (writePages_success h)

/-- The number of logical pages that a trim goes through. -/
theorem trimLength_eq (h : Counted cmd) : Ftl.trimLength cmd.slba.toUInt32 (cmd.nlb + 1) =
    if totalLpns < (base cmd + (cmd.nlb.toNat + 1)) % 2 ^ 32 then totalLpns - base cmd
    else cmd.nlb.toNat + 1 := by
  have hcount : (cmd.nlb + 1).toNat = cmd.nlb.toNat + 1 := by
    rw [UInt32.toNat_add]
    exact Nat.mod_eq_of_lt h
  rw [Ftl.trimLength, UInt32.toNat_add, hcount]

/-- A trim is safe in all states if and only if it is refused, as it is of no pages or of none that
    exist, or its address is one of 32 bits, and the sum with the number of its pages is, too. -/
theorem trimSafe_iff : (∀ s, TrimSafe cmd s) ↔ ¬ Counted cmd ∨ totalLpns ≤ base cmd ∨
    Addressed cmd ∧ base cmd + cmd.nlb.toNat + 1 < 2 ^ 32 := by
  have hnlb := cmd.nlb.toNat_lt
  have hcount : cmd.nlb + 1 ≠ 0 ↔ Counted cmd := by
    rw [Counted, ne_eq, ← UInt32.toNat_inj, UInt32.toNat_add]
    simp only [UInt32.toNat_one, UInt32.toNat_zero]
    omega
  have hlast : totalLpns < 2 ^ 32 - 1 := by decide
  constructor
  · intro hsafe
    refine or_iff_not_imp_left.2 fun hcounted => or_iff_not_imp_left.2 fun hlt => ?_
    rw [not_not] at hcounted
    obtain ⟨s, hbegun⟩ := exists_begun
    have hs := (hsafe s).named
    rw [trimmed, if_pos ⟨(hbegun.takes (show 0 < totalLpns by decide)).1,
      hcount.2 hcounted, Nat.lt_of_not_le hlt⟩, trimLength_eq hcounted] at hs
    rw [Nat.not_le] at hlt
    refine ⟨?_, Nat.lt_of_not_le fun hwraps => ?_⟩
    · -- the first page
      have hfirst := hs (base cmd) (List.mem_range'_1.2 ⟨Nat.le_refl _, by split_ifs <;> omega⟩)
      obtain ⟨-, k, -, hk⟩ := hfirst
      exact Nat.lt_of_le_of_lt (Nat.le_add_right _ k) (hk ▸ Nat.lt_trans hlt (by decide))
    · -- the last page, as the sum that wraps around is not beyond the pages that exist
      have hmod : (base cmd + (cmd.nlb.toNat + 1)) % 2 ^ 32 ≤ totalLpns := by omega
      rw [if_neg (Nat.not_lt.2 hmod)] at hs
      have hend := (hs (base cmd + cmd.nlb.toNat) (List.mem_range'_1.2
        ⟨Nat.le_add_right _ _, Nat.lt_succ_self _⟩)).1
      omega
  · refine fun h s => .of_named fun lpn hmem => ?_
    rw [trimmed] at hmem
    split_ifs at hmem with hgoes
    · obtain ⟨-, hne, hlt⟩ := hgoes
      have hcounted := hcount.1 hne
      obtain ⟨haddr, hsum⟩ := (h.resolve_left (not_not.2 hcounted)).resolve_left
        (Nat.not_le_of_lt hlt)
      rw [trimLength_eq hcounted, ← Nat.add_assoc, Nat.mod_eq_of_lt hsum, List.mem_range'_1] at hmem
      refine ⟨?_, lpn - base cmd, ?_, ?_⟩
      · split_ifs at hmem <;> omega
      · split_ifs at hmem <;> omega
      · rw [← base_eq haddr]
        exact (Nat.add_sub_cancel' hmem.1).symm
    · exact absurd hmem List.not_mem_nil

end HostIf

end FtlFirmware
