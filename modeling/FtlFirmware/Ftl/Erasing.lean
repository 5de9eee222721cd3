import FtlFirmware.Ftl.Filling
import FtlFirmware.Ftl.Mapping
import FtlFirmware.Ftl.Relocating
import FtlFirmware.Ftl.SecureErase

/-!
# The range of trim and secure erase

A trim and a secure erase are to look up only the logical pages of their range, cut off at the end
of the map, and to leave all others as they are (`TrimFramed`, `EraseFramed`). A trim does so
exactly if the end of its range is a 32-bit number. A secure erase does so in any case, as long as
its writes are safe once the garbage collection has made room for them (`Safely`): they check their
logical page themselves.
-/

namespace FtlFirmware

/-- Invalidating a page leaves the other ones alone. -/
theorem Nand.markPageInvalid_other {n : Nand} {b b' p p' : ℕ} (hne : (b', p') ≠ (b, p)) :
    (n.markPageInvalid b p).2.isPageValid b' p' = n.isPageValid b' p' ∧
      (n.markPageInvalid b p).2.readBack b' p' = n.readBack b' p' := by
  rcases n.markPageInvalid_cases b p with ⟨_, _, heq⟩ | heq <;> rw [heq]
  · refine ⟨Nand.isPageValid_congr rfl ?_, rfl⟩
    rw [Nand.setBlock_blocks, Function.update_apply]
    split
    · next hb =>
      have hp : p' ≠ p := fun hp => hne (by rw [hb, hp])
      rw [PhyBlock.invalidate_pageValid, Function.update_of_ne hp, hb]
    · rfl
  · exact ⟨rfl, rfl⟩

namespace Ftl

variable {c : Store} {s s' : Ftl} {lpn count passes : UInt32} {fuel i j : ℕ} {d : PageData}
  {calls calls' : List Call} {call : Call}

/-! ## What is to hold -/

/-- The logical page is in the range, as computed with exact numbers. -/
def InRange (lpn count : UInt32) (i : ℕ) : Prop :=
  lpn.toNat ≤ i ∧ i < lpn.toNat + count.toNat ∧ i < totalLpns

/-- The logical pages out of the range are mapped as before, and live with the same data. -/
def FramedOutside (s : Ftl) (lpn count : UInt32) (s' : Ftl) : Prop :=
  ∀ i < totalLpns, ¬ InRange lpn count i →
    ((s'.l2pTable i).isSome ↔ (s.l2pTable i).isSome) ∧ ∀ d, s'.Live i d ↔ s.Live i d

/-- The logical pages that a call of a secure erase looks up in the map: a trim goes through its
    range, and a write checks its logical page before. -/
def lookedUp : Call → List ℕ
  | .write lpn _ => if lpn < totalLpns then [lpn] else []
  | .trim lpn count => List.range' lpn.toNat (trimLength lpn count)
  | _ => []

/-- The logical pages that are looked up by calls executed up to the first one that fails. -/
def lookedUpAll (fuel : ℕ) : List Call → Ftl → List ℕ
  | [], _ => []
  | call :: calls, s =>
    lookedUp call ++
      match s.exec fuel call with
      | some (⟨.ok, _⟩, s) => lookedUpAll fuel calls s
      | _ => []

/-- A trim keeps to its range. -/
structure TrimFramed (s : Ftl) (lpn count : UInt32) : Prop where
  inRange : ∀ i ∈ lookedUp (.trim lpn count), InRange lpn count i
  framed : ∀ ret s', s.trim lpn count = some (ret, s') → s.FramedOutside lpn count s'

/-- A secure erase keeps to its range. -/
structure EraseFramed (s : Ftl) (fuel : ℕ) (lpn count passes : UInt32) : Prop where
  inRange : ∀ i ∈ lookedUpAll fuel (eraseCalls lpn count passes) s, InRange lpn count i
  framed : ∀ ret s', s.secureErase fuel lpn count passes = some (ret, s') →
    s.FramedOutside lpn count s'

/-- A write is safe once the garbage collection has made room for it. -/
def SafeCollected (s : Ftl) (fuel : ℕ) : Call → Prop
  | .write lpn _ => ∀ s', gcUntilSpace fuel s = some (.ok, s') → s'.OverwriteSafe lpn
  | _ => True

/-- Each of the writes is safe when it is executed, after the calls before it have succeeded. -/
def Safely (fuel : ℕ) : List Call → Ftl → Prop
  | [], _ => True
  | call :: calls, s => s.SafeCollected fuel call ∧
      ∀ buf s', s.exec fuel call = some (⟨.ok, buf⟩, s') → Safely fuel calls s'

/-- The writes of a secure erase. -/
def overwriteCalls (lpn count passes : UInt32) : List Call :=
  (List.range passes.toNat).flatMap
    (passCalls (List.range' lpn.toNat (eraseLength lpn count).toNat))

/-! ## Trim -/

/-- The range of a trim is exact if its end is a 32-bit number. -/
theorem mem_trimRange_iff (hle : lpn.toNat + count.toNat < 2 ^ 32) :
    i ∈ List.range' lpn.toNat (trimLength lpn count) ↔ InRange lpn count i := by
  rw [mem_trimRange hle, InRange, and_assoc]

/-- A trim with another range goes beyond the map. -/
theorem totalLpns_mem_trimRange (hlpn : lpn.toNat < totalLpns)
    (hgt : 2 ^ 32 ≤ lpn.toNat + count.toNat) :
    totalLpns ∈ List.range' lpn.toNat (trimLength lpn count) := by
  have htotal : totalLpns = 22937 := rfl
  have hcount := count.toNat_lt
  have hadd : (lpn + count).toNat = lpn.toNat + count.toNat - 2 ^ 32 := by
    rw [UInt32.toNat_add]
    omega
  rw [List.mem_range'_1, trimLength, hadd]
  split <;> omega

/-- Trimming a logical page keeps the maps consistent and the other logical pages as they are. -/
theorem trimPage_frame (h : s.MappingConsistent) (htrim : s.trimPage i = some s') :
    s'.MappingConsistent ∧ ∀ j, j ≠ i → s'.l2pTable j = s.l2pTable j ∧
      ∀ d, s'.Live j d ↔ s.Live j d := by
  rw [trimPage] at htrim
  split at htrim
  · simp at htrim
  · cases hl : s.l2pTable i with
    | none =>
      rw [hl] at htrim
      obtain rfl := Option.some_inj.1 htrim
      exact ⟨h, fun j _ => ⟨rfl, fun d => Iff.rfl⟩⟩
    | some ppn =>
      obtain ⟨files, sequence, count, hlog⟩ := s.walLog_ok (trimEntry i (s.l2pTable i))
      rw [hl] at htrim
      dsimp only at htrim
      split at htrim
      · simp at htrim
      · rw [walLogTrim, hlog] at htrim
        obtain rfl := (Option.some_inj.1 htrim).symm
        -- The pages of the other logical pages are other ones.
        have hother (j ppn' : ℕ) (hj : j ≠ i) (hl' : s.l2pTable j = some ppn') :
            (ppnToBlock ppn', ppnToPage ppn') ≠ (ppnToBlock ppn, ppnToPage ppn) := fun heq => hj (by
          have hppn := blockPageToPpn_self (h.mapped _ _ hl').1
          rw [(Prod.mk.inj heq).1, (Prod.mk.inj heq).2, blockPageToPpn_self (h.mapped _ _ hl).1]
            at hppn
          exact h.inj _ _ _ hl' (hppn ▸ hl))
        have hmap (j : ℕ) (hj : j ≠ i) :
            Function.update s.l2pTable i none j = s.l2pTable j := Function.update_of_ne hj _ _
        refine ⟨.of_lookup (h.lookup.remove hl) fun j ppn' hl' => ?_,
          fun j hj => ⟨hmap j hj, fun d => exists_congr fun ppn' => ?_⟩⟩
        · dsimp only at hl'
          rw [Function.update_apply] at hl'
          split at hl'
          · simp at hl'
          · next hj =>
            rw [(Nand.markPageInvalid_other (hother j ppn' hj hl')).1]
            exact (h.mapped _ _ hl').2.2
        · dsimp only
          rw [hmap j hj]
          refine and_congr_right fun hl' => ?_
          rw [(Nand.markPageInvalid_other (hother j ppn' hj hl')).1,
            (Nand.markPageInvalid_other (hother j ppn' hj hl')).2]

/-- Trimming logical pages keeps the other ones as they are. -/
theorem foldlM_trimPage_frame {pages : List ℕ} (h : s.MappingConsistent)
    (htrim : pages.foldlM trimPage s = some s') :
    ∀ j, j ∉ pages → s'.l2pTable j = s.l2pTable j ∧ ∀ d, s'.Live j d ↔ s.Live j d := by
  induction pages generalizing s with
  | nil =>
    obtain rfl := Option.some_inj.1 htrim
    exact fun _ _ => ⟨rfl, fun _ => Iff.rfl⟩
  | cons i pages ih =>
    rw [List.foldlM_cons] at htrim
    obtain ⟨s₁, hfirst, hrest⟩ := Option.bind_eq_some_iff.1 htrim
    obtain ⟨h₁, hframe⟩ := trimPage_frame h hfirst
    intro j hj
    obtain ⟨hji, hj⟩ := not_or.1 (List.mem_cons.not.1 hj)
    obtain ⟨hmap₁, hlive₁⟩ := hframe j hji
    obtain ⟨hmap, hlive⟩ := ih h₁ hrest j hj
    exact ⟨hmap.trans hmap₁, fun d => (hlive d).trans (hlive₁ d)⟩

/-- On a device with consistent maps, a trim keeps to its range exactly if the end of the range is
    a 32-bit number. -/
theorem trimFramed_iff (h : s.MappingConsistent) (hlpn : lpn.toNat < totalLpns) :
    s.TrimFramed lpn count ↔ lpn.toNat + count.toNat < 2 ^ 32 := by
  constructor
  · intro hframed
    by_contra hgt
    have hrange := hframed.inRange _ (totalLpns_mem_trimRange hlpn (Nat.le_of_not_lt hgt))
    exact Nat.lt_irrefl _ hrange.2.2
  · intro hle
    refine ⟨fun i hi => (mem_trimRange_iff hle).1 hi, fun ret s' htrim i _ hi => ?_⟩
    rw [trim] at htrim
    split at htrim
    · obtain rfl := (Prod.mk.inj (Option.some_inj.1 htrim)).2
      exact ⟨Iff.rfl, fun d => Iff.rfl⟩
    · split at htrim
      · obtain rfl := (Prod.mk.inj (Option.some_inj.1 htrim)).2
        exact ⟨Iff.rfl, fun d => Iff.rfl⟩
      · split at htrim
        · obtain rfl := (Prod.mk.inj (Option.some_inj.1 htrim)).2
          exact ⟨Iff.rfl, fun d => Iff.rfl⟩
        · obtain ⟨s₁, hfold, heq⟩ := Option.map_eq_some_iff.1 htrim
          obtain rfl := (Prod.mk.inj heq).2
          obtain ⟨hmap, hlive⟩ :=
            foldlM_trimPage_frame h hfold i ((mem_trimRange_iff hle).not.2 hi)
          exact ⟨by rw [← hmap], hlive⟩

/-! ## Secure erase -/

/-- What is looked up is looked up by one of the calls. -/
theorem exists_lookedUp (hi : i ∈ lookedUpAll fuel calls s) :
    ∃ call ∈ calls, i ∈ lookedUp call := by
  induction calls generalizing s with
  | nil => exact absurd hi List.not_mem_nil
  | cons call calls ih =>
    rw [lookedUpAll] at hi
    rcases List.mem_append.1 hi with hi | hi
    · exact ⟨call, List.mem_cons_self, hi⟩
    · split at hi
      · obtain ⟨call', hcall, hi⟩ := ih hi
        exact ⟨call', List.mem_cons_of_mem _ hcall, hi⟩
      · exact absurd hi List.not_mem_nil

/-- Nothing is looked up after a call that does not succeed. -/
theorem lookedUpAll_append
    (hfail : ∀ (s s' : Ftl) (buf : Option PageData), s.exec fuel call ≠ some (⟨.ok, buf⟩, s')) :
    lookedUpAll fuel (calls ++ call :: calls') s = lookedUpAll fuel (calls ++ [call]) s := by
  induction calls generalizing s with
  | nil =>
    rw [List.nil_append, List.nil_append, lookedUpAll, lookedUpAll]
    congr 1
    split
    · next heq => exact absurd heq (hfail _ _ _)
    · rfl
  | cons call' calls ih =>
    rw [List.cons_append, List.cons_append, lookedUpAll, lookedUpAll]
    congr 1
    split
    · exact ih
    · rfl

/-- Writes of pages that are safe change the contents of these pages only. -/
theorem Safely.inv (pages : Set ℕ) {ret : RetCode} (h : Inv ∅ c s)
    (hsafe : Safely fuel (calls ++ calls') s)
    (hcalls : ∀ call ∈ calls, ∃ i buf, call = .write i buf ∧ i ∈ pages)
    (hexec : execUntilError fuel calls s = some (ret, s')) :
    ∃ c', Inv ∅ c' s' ∧ ∀ i, i ∉ pages → c' i = c i := by
  induction calls generalizing c s with
  | nil =>
    obtain rfl := (Prod.mk.inj (Option.some_inj.1 hexec)).2
    exact ⟨c, h, fun _ _ => rfl⟩
  | cons call calls ih =>
    obtain ⟨hsafe₁, hrest⟩ := hsafe
    obtain ⟨i, buf, rfl, hi⟩ := hcalls call List.mem_cons_self
    rw [execUntilError, exec] at hexec
    rcases write_inv_of_space h hsafe₁ buf with ⟨_, hnone⟩ | ⟨ret₁, s₁, hwrite, h₁⟩
    · rw [hnone] at hexec
      cases hexec
    · rw [hwrite] at hexec
      have hsame : ∀ j, j ∉ pages →
          (if ret₁ = .ok then Function.update c i (some buf) else c) j = c j := by
        intro j hj
        split
        · exact Function.update_of_ne (ne_of_mem_of_not_mem hi hj).symm _ _
        · rfl
      cases ret₁ with
      | ok =>
        have hstep : s.exec fuel (.write i buf) = some (⟨.ok, none⟩, s₁) := by
          rw [exec, hwrite]
          rfl
        obtain ⟨c', h', hframe⟩ := ih h₁ (hrest none s₁ hstep)
          (fun call' hcall' => hcalls call' (List.mem_cons_of_mem _ hcall')) hexec
        exact ⟨c', h', fun j hj => (hframe j hj).trans (hsame j hj)⟩
      | _ =>
        obtain rfl := (Prod.mk.inj (Option.some_inj.1 hexec)).2
        exact ⟨_, h₁, hsame⟩

/-- A logical page of a device that has contents is live with them. -/
theorem Inv.live_iff (h : Inv ∅ c s) : s.Live i d ↔ c i = some d := by
  constructor
  · rintro ⟨ppn, hl, _, hd⟩
    obtain ⟨d', hd', hold⟩ := h.mapped i ppn hl
    rw [Nand.Holds.readBack hold] at hd
    rw [hd', ← hd]
  · intro hd
    cases hl : s.l2pTable i with
    | none =>
      rw [h.unmapped i hl] at hd
      simp at hd
    | some ppn =>
      obtain ⟨d', hd', hold⟩ := h.mapped i ppn hl
      obtain rfl := Option.some_inj.1 (hd'.symm.trans hd)
      refine ⟨ppn, hl, Nand.isPageValid_iff.2 ⟨hold.blockValid, hold.page_lt, hold.valid⟩, ?_⟩
      rw [Nand.Holds.readBack hold]

/-- The logical pages with contents are mapped. -/
theorem Inv.isSome_iff (h : Inv ∅ c s) : (s.l2pTable i).isSome ↔ (c i).isSome := by
  cases hl : s.l2pTable i with
  | none =>
    rw [h.unmapped i hl]
    exact Iff.rfl
  | some ppn =>
    obtain ⟨d, hd, _⟩ := h.mapped i ppn hl
    rw [hd]
    exact iff_of_true rfl rfl

/-- The logical pages erased are no more than asked for. -/
theorem eraseLength_le (count : UInt32) (hlpn : lpn.toNat < totalLpns) :
    (eraseLength lpn count).toNat ≤ count.toNat := by
  have htotal : totalLpns = 22937 := rfl
  rw [eraseLength]
  split
  · next hgt =>
    rw [UInt32.toNat_add] at hgt
    have hsub : (totalLpns.toUInt32 - lpn).toNat = totalLpns - lpn.toNat := by
      rw [UInt32.toNat_sub]
      have hconst : totalLpns.toUInt32.toNat = totalLpns := rfl
      omega
    omega
  · exact le_rfl

theorem mem_overwriteCalls : call ∈ overwriteCalls lpn count passes ↔
    ∃ pass < passes.toNat, ∃ i ∈ List.range' lpn.toNat (eraseLength lpn count).toNat,
      call = .write i (erasePage pass.toUInt32) := by
  simp [overwriteCalls, passCalls, eq_comm]

theorem overwriteCalls_write :
    ∀ call ∈ overwriteCalls lpn count passes, ∃ i buf, call = .write i buf := fun call hcall => by
  obtain ⟨pass, _, i, _, rfl⟩ := mem_overwriteCalls.1 hcall
  exact ⟨i, _, rfl⟩

/-- The calls of a secure erase are its writes, and a trim. -/
theorem eraseCalls_eq (hpasses : passes ≠ 0) : eraseCalls lpn count passes =
    overwriteCalls lpn count passes ++ [.trim lpn (eraseLength lpn count)] := by
  rw [eraseCalls, if_neg hpasses]
  rfl

/-- The writes are within the range, cut off or not. -/
theorem overwriteCalls_range (hcall : call ∈ overwriteCalls lpn count passes) :
    ∃ i buf, call = .write i buf ∧ lpn.toNat ≤ i ∧
      i < lpn.toNat + (eraseLength lpn count).toNat := by
  obtain ⟨pass, _, i, hi, rfl⟩ := mem_overwriteCalls.1 hcall
  exact ⟨i, _, rfl, List.mem_range'_1.1 hi⟩

/-- A write beyond the last logical page fails. -/
theorem exec_write_ne_ok (hi : totalLpns ≤ i) (buf : PageData) (s s' : Ftl)
    (buf' : Option PageData) : s.exec fuel (.write i buf) ≠ some (⟨.ok, buf'⟩, s') := by
  rw [exec, write, if_pos hi]
  split
  · exact fun heq => absurd heq (by simp [answer])
  · exact fun heq => absurd heq (by simp [answer])

/-- What the writes of a secure erase look up is in the map. -/
theorem lookedUp_write {buf : PageData} (hj : j ∈ lookedUp (.write i buf)) :
    j = i ∧ i < totalLpns := by
  rw [lookedUp] at hj
  split at hj
  · next hlt => exact ⟨List.mem_singleton.1 hj, hlt⟩
  · exact absurd hj List.not_mem_nil

/-- If the end of the range is not a 32-bit number, the secure erase gets to the end of the map with
    a write. -/
theorem overwriteCalls_of_le (hlpn : lpn.toNat < totalLpns) (hpasses : passes ≠ 0)
    (hgt : 2 ^ 32 ≤ lpn.toNat + count.toNat) :
    ∃ pre post buf, overwriteCalls lpn count passes = pre ++ .write totalLpns buf :: post ∧
      ∀ call ∈ pre, ∃ i buf, call = .write i buf ∧ lpn.toNat ≤ i := by
  have htotal : totalLpns = 22937 := rfl
  have hcount := count.toNat_lt
  have hlen : eraseLength lpn count = count := by
    rw [eraseLength, if_neg]
    rw [UInt32.toNat_add]
    omega
  have hzero : 0 < passes.toNat := Nat.pos_of_ne_zero fun hzero =>
    hpasses (UInt32.toNat_inj.1 hzero)
  have hmem : Call.write totalLpns (erasePage (0 : ℕ).toUInt32) ∈
      overwriteCalls lpn count passes := by
    refine mem_overwriteCalls.2 ⟨0, hzero, totalLpns, ?_, rfl⟩
    rw [hlen, List.mem_range'_1]
    omega
  obtain ⟨pre, post, heq⟩ := List.append_of_mem hmem
  refine ⟨pre, post, _, heq, fun call hcall => ?_⟩
  obtain ⟨i, buf, hwrite, hge, _⟩ := overwriteCalls_range (heq ▸ List.mem_append_left _ hcall)
  exact ⟨i, buf, hwrite, hge⟩

/-- Such a secure erase fails before its trim. -/
theorem overwriteCalls_ne_ok (hlpn : lpn.toNat < totalLpns) (hpasses : passes ≠ 0)
    (hgt : 2 ^ 32 ≤ lpn.toNat + count.toNat) :
    execUntilError fuel (overwriteCalls lpn count passes) s ≠ some (.ok, s') := by
  obtain ⟨pre, post, buf, hcalls, _⟩ := overwriteCalls_of_le hlpn hpasses hgt
  rw [hcalls, execUntilError_append]
  intro hok
  split at hok
  · cases hok
  · next s₁ _ =>
    rw [execUntilError] at hok
    split at hok
    · cases hok
    · next buf' s₂ hexec => exact exec_write_ne_ok le_rfl buf s₁ s₂ buf' hexec
    · next ret buf' s₂ hne _ =>
      exact hne (Prod.mk.inj (Option.some_inj.1 hok)).1
  · next ret s₁ hne _ =>
    exact hne (Prod.mk.inj (Option.some_inj.1 hok)).1

/-- What a secure erase looks up is in its range. -/
theorem lookedUpAll_inRange (hlpn : lpn.toNat < totalLpns)
    (hi : i ∈ lookedUpAll fuel (eraseCalls lpn count passes) s) : InRange lpn count i := by
  have hle := eraseLength_le count hlpn
  by_cases hpasses : passes = 0
  · rw [eraseCalls, if_pos hpasses] at hi
    exact absurd hi List.not_mem_nil
  rw [eraseCalls_eq hpasses] at hi
  by_cases hwrap : lpn.toNat + count.toNat < 2 ^ 32
  · obtain ⟨call, hcall, hi⟩ := exists_lookedUp hi
    rcases List.mem_append.1 hcall with hcall | hcall
    · obtain ⟨j, buf, rfl, hge, hlt⟩ := overwriteCalls_range hcall
      obtain ⟨rfl, htotal⟩ := lookedUp_write hi
      exact ⟨hge, by omega, htotal⟩
    · rw [List.mem_singleton.1 hcall] at hi
      obtain ⟨⟨hge, hlt⟩, htotal⟩ := (mem_trimRange (by omega)).1 hi
      exact ⟨hge, by omega, htotal⟩
  · obtain ⟨pre, post, buf, hcalls, hpre⟩ :=
      overwriteCalls_of_le hlpn hpasses (Nat.le_of_not_lt hwrap)
    rw [hcalls, List.append_assoc, List.cons_append,
      lookedUpAll_append fun s s' buf' => exec_write_ne_ok le_rfl buf s s' buf'] at hi
    obtain ⟨call, hcall, hi⟩ := exists_lookedUp hi
    rcases List.mem_append.1 hcall with hcall | hcall
    · obtain ⟨j, buf, rfl, hge⟩ := hpre call hcall
      obtain ⟨rfl, hlt⟩ := lookedUp_write hi
      have htotal : totalLpns = 22937 := rfl
      exact ⟨hge, by omega, hlt⟩
    · rw [List.mem_singleton.1 hcall] at hi
      exact absurd (lookedUp_write hi).2 (Nat.lt_irrefl _)

/-- Devices whose contents differ in the range only. -/
theorem FramedOutside.of_inv {c' : Store} (h : Inv ∅ c s) (h' : Inv ∅ c' s')
    (hsame : ∀ i < totalLpns, ¬ InRange lpn count i → c' i = c i) :
    s.FramedOutside lpn count s' := by
  intro i hi hout
  refine ⟨?_, fun d => ?_⟩
  · rw [h'.isSome_iff, h.isSome_iff, hsame i hi hout]
  · rw [h'.live_iff, h.live_iff, hsame i hi hout]

/-- A secure erase of safe writes keeps to its range. -/
theorem eraseFramed (h : Inv ∅ c s) (hlpn : lpn.toNat < totalLpns) (hcount : count ≠ 0)
    (hsafe : Safely fuel (eraseCalls lpn count passes) s) :
    s.EraseFramed fuel lpn count passes := by
  refine ⟨fun i hi => lookedUpAll_inRange hlpn hi, fun ret s' herase => ?_⟩
  have hle := eraseLength_le count hlpn
  by_cases hpasses : passes = 0
  · rw [secureErase, if_neg (not_not.2 h.started), if_neg hcount, if_pos hpasses] at herase
    obtain rfl := (Prod.mk.inj (Option.some_inj.1 herase)).2
    exact .of_inv h h fun _ _ _ => rfl
  rw [secureErase_eq h.started hcount hpasses hlpn, eraseCalls_eq hpasses,
    execUntilError_append] at herase
  rw [eraseCalls_eq hpasses] at hsafe
  cases hwrites : execUntilError fuel (overwriteCalls lpn count passes) s with
  | none =>
    rw [hwrites] at herase
    cases herase
  | some r =>
    obtain ⟨ret₁, s₁⟩ := r
    obtain ⟨c', h₁, hsame⟩ :=
      hsafe.inv {i | lpn.toNat ≤ i ∧ i < lpn.toNat + (eraseLength lpn count).toNat} h
        (fun call hcall => overwriteCalls_range hcall) hwrites
    have hframed : s.FramedOutside lpn count s₁ := .of_inv h h₁ fun i hi hout =>
      hsame i fun hin => hout ⟨hin.1, Nat.lt_of_lt_of_le hin.2 (Nat.add_le_add_left hle _), hi⟩
    rw [hwrites] at herase
    cases ret₁ with
    | ok =>
      -- The writes have come to the end of the range, so the trim does not wrap around.
      have hwrap : lpn.toNat + count.toNat < 2 ^ 32 := Nat.lt_of_not_le fun hgt =>
        overwriteCalls_ne_ok hlpn hpasses hgt hwrites
      have htrim : s₁.trim lpn (eraseLength lpn count) = some (ret, s') :=
        (execUntilError_trim _ _).symm.trans herase
      have htrimmed := ((trimFramed_iff h₁.mappingConsistent hlpn).2 (by omega)).framed ret s' htrim
      intro i hi hout
      obtain ⟨hmap, hlive⟩ := htrimmed i hi fun hin =>
        hout ⟨hin.1, Nat.lt_of_lt_of_le hin.2.1 (Nat.add_le_add_left hle _), hi⟩
      exact ⟨hmap.trans (hframed i hi hout).1, fun d => (hlive d).trans ((hframed i hi hout).2 d)⟩
    | _ =>
      obtain rfl := (Prod.mk.inj (Option.some_inj.1 herase)).2
      exact hframed

/-- A trim keeps to its range exactly if the end of the range is a 32-bit number, on any device with
    consistent maps. A secure erase keeps to its range on any device that has contents, if each of
    its writes is safe once the garbage collection has made room for it. -/
theorem ranges_framed (lpn count : UInt32) (hlpn : lpn.toNat < totalLpns) (hcount : count ≠ 0) :
    (∀ s : Ftl, s.MappingConsistent →
      (s.TrimFramed lpn count ↔ lpn.toNat + count.toNat < 2 ^ 32)) ∧
    ∀ c s fuel passes, Inv ∅ c s → Safely fuel (eraseCalls lpn count passes) s →
      s.EraseFramed fuel lpn count passes :=
  ⟨fun _ h => trimFramed_iff h hlpn, fun _ _ _ _ h hsafe => eraseFramed h hlpn hcount hsafe⟩

/-- A trim and a secure erase of the first logical page of a device on which all logical pages have
    been written. -/
theorem ranges_framed_full : ∃ (c : Store) (L : Layout) (s s' : Ftl),
    Reached (fun _ => True) c L s ∧ (∀ i < totalLpns, (s.l2pTable i).isSome) ∧
      s.secureErase 0 0 1 1 = some (.ok, s') ∧ s.TrimFramed 0 1 ∧ s.EraseFramed 0 0 1 1 := by
  obtain ⟨c, L, s, hreached, hL, hmapped⟩ := exists_written_ahead (Nat.le_refl totalLpns)
  have h := hreached.calm
  have hroom : ∀ b, 100 ≤ b → L.Empty b := hL.room (by decide)
  have hinv : Inv ∅ c s := h.unpark (hL.block_lt (by decide)) hL.page fun p hle hlt lpn hl => by
    have hge : L.cursor ≤ blockPageToPpn L.block p := by
      rw [blockPageToPpn_eq (hL.block_lt (by decide)) hlt]
      exact Nat.add_le_add_left hle _
    exact absurd (hL.behind lpn _ hl) (Nat.not_lt.2 hge)
  obtain ⟨L₁, s₁, hwrite, h₁, -⟩ :=
    h.write_ahead hL (by decide) (by decide : 0 < totalLpns) (erasePage (0 : ℕ).toUInt32)
  obtain ⟨s₂, hpage, -⟩ := h₁.trimPage (by decide : 0 < totalLpns)
  have htrim : s₁.trim 0 1 = some (.ok, { s₂ with trimCount := s₂.trimCount + 1 }) := by
    rw [trim, if_neg (not_not.2 (show s₁.isInitialized from h₁.inv.started)), if_neg (by decide),
      if_neg (by decide)]
    have hfold :
        (List.range' (0 : UInt32).toNat (trimLength 0 1)).foldlM trimPage s₁ = some s₂ := by
      change List.foldlM trimPage s₁ [0] = some s₂
      rw [List.foldlM_cons, hpage]
      rfl
    rw [hfold]
    rfl
  have hcalls : eraseCalls 0 1 1 = [.write 0 (erasePage (0 : ℕ).toUInt32), .trim 0 1] := rfl
  have herase : s.secureErase 0 0 1 1 = some (.ok, { s₂ with trimCount := s₂.trimCount + 1 }) := by
    rw [secureErase_eq hinv.started (by decide) (by decide) (by decide), hcalls, execUntilError,
      exec, hwrite]
    exact (execUntilError_trim 0 1).trans htrim
  have hsafe : Safely 0 (eraseCalls 0 1 1) s := by
    refine ⟨fun s' hgc ppn hl => ?_, fun _ _ _ => ⟨True.intro, fun _ _ _ => True.intro⟩⟩
    rw [gcUntilSpace, if_neg (h.enough_free hroom)] at hgc
    obtain ⟨-, rfl⟩ := Prod.mk.inj (Option.some_inj.1 hgc)
    exact Or.inl (Or.inl (h.exact (ppnToBlock_lt_iff.2 (hinv.ppn_lt hl))).count)
  exact ⟨c, L, s, _, hreached, fun i hi => by
    rw [h.table]; exact Option.isSome_iff_ne_none.2 (hmapped i hi), herase,
    ((ranges_framed 0 1 (by decide) (by decide)).1 s hinv.mappingConsistent).2 (by decide),
    (ranges_framed 0 1 (by decide) (by decide)).2 c s 0 1 hinv hsafe⟩

/-- The end of the range of a trim wraps around to 0: the trim goes beyond the map. -/
theorem not_ranges_framed : totalLpns ∈ lookedUp (.trim 1 0xFFFFFFFF) ∧
    ∃ s : Ftl, Fresh s ∧ ¬ s.TrimFramed 1 0xFFFFFFFF := by
  obtain ⟨s, hon, _⟩ := Calm.powerOn (fun _ => 99) (fun _ => by decide) fun _ => none
  have hfresh : Fresh s := ⟨_, _, hon⟩
  refine ⟨totalLpns_mem_trimRange (by decide) (by decide), s, hfresh, fun h => ?_⟩
  have hle := (trimFramed_iff hfresh.inv.mappingConsistent (by decide)).1 h
  exact absurd hle (by decide)

end Ftl

end FtlFirmware
