import FtlFirmware.Nvme.Prp

/-!
# The parts of a transfer

A transfer consists of *parts*, one in each of its pages, as the two entries of the command have
them (`Guest.part`): the part `i` begins at the entry `i`. What a back end really accesses is
recorded in a log (`Backend.logged`). The transfer is *exact* (`Exact`) if it accesses these parts
one after the other, and all of them if it succeeds.

* `logged_exact`: a transfer is exact if and only if each part that the back end takes
  (`Backend.part`) is the one that the entries have, as far as it gets;
* `prpReadData_eq`, `prpWriteData_eq`: the log does not change the transfer.
-/

namespace FtlFirmware

namespace Nvme

/-- A part of a transfer: where it is, and the number of its bytes. -/
abbrev Part := Hva × ℕ

/-- The number of bytes of a transfer before the page `i`. -/
def partStart (prp1 : UInt64) : ℕ → ℕ
  | 0 => 0
  | i + 1 => firstPage prp1 + i * pageSize

/-- The number of bytes of a transfer in the page `i`. -/
def partLen (prp1 : UInt64) (len i : ℕ) : ℕ :=
  min (partStart prp1 (i + 1) - partStart prp1 i) (len - partStart prp1 i)

section

variable (g : Guest) (prp1 prp2 : UInt64) (len : ℕ)

/-- The part of a transfer in the page `i`: it begins at the entry of the page. -/
def Guest.part (i : ℕ) : Option Part :=
  if len ≤ partStart prp1 i then none
  else (g.prpEntry prp1 prp2 len i).bind fun addr =>
    (g.locate (pageBase addr)).map fun h => ((h.1, h.2 + pageOffset addr), partLen prp1 len i)

/-- The accesses of a transfer are to its parts in turn; if it succeeds, all bytes are
    transferred. -/
structure Exact (ok : Bool) (log : List Part) : Prop where
  parts : log.map some = (List.range log.length).map (g.part prp1 prp2 len)
  all : ok = true → (log.map Prod.snd).sum = len

end

namespace Backend

section

variable (b : Backend) {σ : Type} (guest : σ → Guest) (copy : Hva → (offset chunk : ℕ) → σ → σ)
  (prp1 prp2 : UInt64) (len : ℕ) (g : Guest)

/-- Copies a chunk, and records it. -/
def record (h : Hva) (offset chunk : ℕ) (s : σ × List Part) : σ × List Part :=
  (copy h offset chunk s.1, s.2 ++ [(h, chunk)])

/-- A transfer that records what it accesses. -/
def logged (s : σ) : Bool × σ × List Part :=
  b.prpPages (fun s => guest s.1) (record copy) prp1 prp2 len len prp1 0 0 (s, [])

/-- A transfer from the guest, with its accesses. -/
def readLogged (buf : Buffer) : Bool × Buffer × List Part :=
  b.logged (fun _ => g) (fun h offset chunk buf => buf.store offset chunk (g.bytesAt h)) prp1 prp2
    len buf

/-- A transfer to the guest, with its accesses. -/
def writeLogged (buf : Buffer) : Bool × Guest × List Part :=
  b.logged id (fun h offset chunk g => g.write h chunk fun k => buf (offset + k)) prp1 prp2 len g

/-- The entry that the back end takes for the page `i`, if it has got all of the pages before. -/
def taken : ℕ → Option UInt64
  | 0 => some prp1
  | i + 1 =>
    match b.prpNext prp1 prp2 len (partStart prp1 (i + 1)) (i + 1) with
    | .stop => none
    | .second => some prp2
    | .list j => (b.gpaToHva g prp2).map fun l => (g.bytesAt l).le64 (8 * j)

/-- The part that the back end takes from the page `i`. -/
def part (i : ℕ) : Option Part :=
  (b.taken prp1 prp2 len g i).bind fun addr => (b.gpaToHva g (pageBase addr)).map fun h =>
    ((h.1, h.2 + pageOffset addr), min (pageSize - pageOffset addr) (len - partStart prp1 i))

/-- The back end does not stop before the page `i`, and takes the right part, if any. -/
def Takes (i : ℕ) : Prop :=
  (i ≠ 0 → b.prpNext prp1 prp2 len (partStart prp1 i) i ≠ .stop) ∧
    ∀ x, b.part prp1 prp2 len g i = some x → g.part prp1 prp2 len i = some x

/-- The back end takes the right parts, as far as it gets. -/
def TakesAll : Prop := ∀ i, partStart prp1 i < len →
  (∀ j < i, (b.part prp1 prp2 len g j).isSome) → b.Takes prp1 prp2 len g i

/-- The back end finds all pages. -/
def FindsAll : Prop := ∀ i, partStart prp1 i < len → (b.part prp1 prp2 len g i).isSome

end

/-- What the back ends have in common: the translation depends on the regions, and the list is only
    used for the pages after the first one if there are more than two. -/
structure Regular (b : Backend) : Prop where
  sound : b.Sound
  regions (g g' : Guest) : g'.regions = g.regions → b.gpaToHva g' = b.gpaToHva g
  list (prp1 prp2 : UInt64) (len i j : ℕ) : partStart prp1 (i + 1) < len →
    b.prpNext prp1 prp2 len (partStart prp1 (i + 1)) (i + 1) = .list j →
      j = i ∧ firstPage prp1 + pageSize < len

end Backend

/-! ## Lengths -/

variable {b : Backend} {σ τ : Type} {guest : σ → Guest} {copy : Hva → (offset chunk : ℕ) → σ → σ}
  {prp1 prp2 : UInt64} {len : ℕ} {g g' : Guest} {i j : ℕ} {log : List Part} {x : Part} {ok : Bool}

theorem partStart_le (h : i ≤ j) : partStart prp1 i ≤ partStart prp1 j := by
  cases i with
  | zero => exact Nat.zero_le _
  | succ i =>
    cases j with
    | zero => exact absurd h (Nat.not_succ_le_zero i)
    | succ j =>
      exact Nat.add_le_add_left (Nat.mul_le_mul_right _ (Nat.le_of_succ_le_succ h)) _

theorem partStart_lt_succ : partStart prp1 i < partStart prp1 (i + 1) := by
  cases i with
  | zero =>
    rw [partStart, partStart, Nat.zero_mul, Nat.add_zero]
    exact firstPage_pos prp1
  | succ i =>
    show firstPage prp1 + i * 4096 < firstPage prp1 + (i + 1) * 4096
    omega

/-- A part ends where the next one begins, or with the transfer. -/
theorem partStart_add_partLen (h : partStart prp1 i < len) :
    partStart prp1 i + partLen prp1 len i = min len (partStart prp1 (i + 1)) := by
  have := @partStart_lt_succ prp1 i
  rw [partLen]
  omega

theorem Guest.part_lt (h : g.part prp1 prp2 len i = some x) : partStart prp1 i < len := by
  by_contra hle
  rw [Guest.part, if_pos (Nat.le_of_not_lt hle)] at h
  cases h

theorem Guest.part_len (h : g.part prp1 prp2 len i = some x) : x.2 = partLen prp1 len i := by
  have hlt := Guest.part_lt h
  rw [Guest.part, if_neg (Nat.not_le.2 hlt)] at h
  obtain ⟨addr, _, hx⟩ := Option.bind_eq_some_iff.1 h
  obtain ⟨hva, _, rfl⟩ := Option.map_eq_some_iff.1 hx
  rfl

/-! ## Logs -/

section

variable {p : ℕ → Option Part}

theorem parts_snoc : (log ++ [x]).map some = (List.range (log ++ [x]).length).map p ↔
    log.map some = (List.range log.length).map p ∧ p log.length = some x := by
  rw [List.length_append, List.length_singleton, List.range_succ, List.map_append,
    List.map_append]
  constructor
  · intro h
    obtain ⟨hlog, hx⟩ := List.append_inj h (by rw [List.length_map, List.length_map,
      List.length_range])
    exact ⟨hlog, (List.singleton_inj.1 hx).symm⟩
  · rintro ⟨hlog, hx⟩
    rw [hlog, List.map_singleton, List.map_singleton, hx]

/-- What a log begins with is right, if the whole log is. -/
theorem parts_append {rest : List Part}
    (h : (log ++ rest).map some = (List.range (log ++ rest).length).map p) :
    log.map some = (List.range log.length).map p := by
  induction rest using List.reverseRecOn with
  | nil => rwa [List.append_nil] at h
  | append_singleton rest x ih =>
    rw [← List.append_assoc] at h
    exact ih (parts_snoc.1 h).1

end

/-- The parts accessed add up. -/
theorem sum_parts (h : log.map some = (List.range log.length).map (g.part prp1 prp2 len)) :
    (log.map Prod.snd).sum = min len (partStart prp1 log.length) := by
  induction log using List.reverseRecOn with
  | nil => exact (Nat.min_zero len).symm
  | append_singleton log x ih =>
    obtain ⟨hlog, hx⟩ := parts_snoc.1 h
    have hlt := Guest.part_lt hx
    rw [List.map_append, List.sum_append, ih hlog, List.map_singleton, List.sum_singleton,
      Guest.part_len hx, Nat.min_eq_right (Nat.le_of_lt hlt), partStart_add_partLen hlt,
      List.length_append, List.length_singleton]

/-- A transfer is exact if its accesses are right, and it goes to the end if it succeeds. -/
theorem exact_iff : Exact g prp1 prp2 len ok log ↔
    log.map some = (List.range log.length).map (g.part prp1 prp2 len) ∧
      (ok = true → len ≤ partStart prp1 log.length) := by
  constructor
  · rintro ⟨hparts, hall⟩
    refine ⟨hparts, fun hok => ?_⟩
    have hsum := hall hok
    rw [sum_parts hparts] at hsum
    exact hsum ▸ Nat.min_le_right _ _
  · rintro ⟨hparts, hend⟩
    refine ⟨hparts, fun hok => ?_⟩
    rw [sum_parts hparts, Nat.min_eq_left (hend hok)]

/-! ## Recording -/

namespace Backend

/-- A transfer does not depend on what is kept besides. -/
theorem prpPages_map {guest' : τ → Guest} {copy' : Hva → (offset chunk : ℕ) → τ → τ} (f : σ → τ)
    (hguest : ∀ s, guest' (f s) = guest s)
    (hcopy : ∀ h offset chunk s, f (copy h offset chunk s) = copy' h offset chunk (f s)) {n : ℕ}
    {addr : UInt64} {offset pages : ℕ} {s : σ} :
    b.prpPages guest' copy' prp1 prp2 len n addr offset pages (f s) =
      Prod.map id f (b.prpPages guest copy prp1 prp2 len n addr offset pages s) := by
  induction n generalizing addr offset pages s with
  | zero => rfl
  | succ n ih =>
    rw [prpPages, prpPages, hguest]
    by_cases hend : len ≤ offset
    · rw [if_pos hend, if_pos hend]
      rfl
    rw [if_neg hend, if_neg hend]
    dsimp only
    cases b.gpaToHva (guest s) (pageBase addr) with
    | none => rfl
    | some h =>
      dsimp only
      rw [← hcopy, hguest]
      split_ifs
      · rfl
      cases b.prpNext prp1 prp2 len _ (pages + 1) with
      | stop => rfl
      | second => exact ih
      | list i =>
        dsimp only
        split
        · rfl
        · exact ih

/-- The accesses recorded do not change a transfer. -/
theorem logged_eq {s : σ} : b.prpPages guest copy prp1 prp2 len len prp1 0 0 s =
    ((b.logged guest copy prp1 prp2 len s).1, (b.logged guest copy prp1 prp2 len s).2.1) := by
  have h : b.prpPages guest copy prp1 prp2 len len prp1 0 0 (s, ([] : List Part)).1 =
      Prod.map id Prod.fst (b.logged guest copy prp1 prp2 len s) :=
    prpPages_map Prod.fst (fun _ => rfl) fun _ _ _ _ => rfl
  exact h

theorem prpReadData_eq {buf : Buffer} : b.prpReadData prp1 prp2 len g buf =
    ((b.readLogged prp1 prp2 len g buf).1, (b.readLogged prp1 prp2 len g buf).2.1) :=
  logged_eq

theorem prpWriteData_eq {buf : Buffer} : b.prpWriteData prp1 prp2 len buf g =
    ((b.writeLogged prp1 prp2 len g buf).1, (b.writeLogged prp1 prp2 len g buf).2.1) :=
  logged_eq

/-- What has been recorded stays. -/
theorem prpPages_log {n : ℕ} {addr : UInt64} {offset pages : ℕ} {s : σ} : ∃ rest,
    (b.prpPages (fun s => guest s.1) (record copy) prp1 prp2 len n addr offset pages (s, log)).2.2 =
      log ++ rest := by
  induction n generalizing addr offset pages s log with
  | zero => exact ⟨[], (List.append_nil log).symm⟩
  | succ n ih =>
    rw [prpPages]
    split_ifs
    · exact ⟨[], (List.append_nil log).symm⟩
    dsimp only
    cases b.gpaToHva (guest s) (pageBase addr) with
    | none => exact ⟨[], (List.append_nil log).symm⟩
    | some h =>
      dsimp only
      rw [record]
      dsimp only
      split_ifs
      · exact ⟨_, rfl⟩
      cases b.prpNext prp1 prp2 len _ (pages + 1) with
      | stop => exact ⟨_, rfl⟩
      | second =>
        dsimp only
        obtain ⟨rest, hrest⟩ := ih
        exact ⟨_, hrest.trans (List.append_assoc _ _ _)⟩
      | list i =>
        dsimp only
        split
        · exact ⟨_, rfl⟩
        · obtain ⟨rest, hrest⟩ := ih
          exact ⟨_, hrest.trans (List.append_assoc _ _ _)⟩

/-! ## Going through the parts -/

/-- The states before each page of a transfer that goes right: each part is copied in turn, and
    neither the regions change nor the entry of the list for the page. -/
structure Stages (g : Guest) (prp1 prp2 : UInt64) (len : ℕ) (guest : σ → Guest)
    (copy : Hva → (offset chunk : ℕ) → σ → σ) (S : ℕ → σ) : Prop where
  next (i : ℕ) (h : Hva) (chunk : ℕ) : g.part prp1 prp2 len i = some (h, chunk) →
    S (i + 1) = copy h (partStart prp1 i) chunk (S i)
  regions (i : ℕ) : (guest (S i)).regions = g.regions
  list (i : ℕ) : firstPage prp1 + pageSize < len → firstPage prp1 + i * pageSize < len →
    ∀ l, g.locate prp2 = some l →
      ((guest (S (i + 1))).bytesAt l).le64 (8 * i) = (g.bytesAt l).le64 (8 * i)

/-- What is known of a transfer from the page `i` on: it is exact if and only if the back end takes
    the right parts, as far as it gets; and then it succeeds if and only if it finds them all. -/
structure Outcome (b : Backend) (prp1 prp2 : UInt64) (len : ℕ) (g : Guest) (S : ℕ → σ) (i : ℕ)
    (r : Bool × σ × List Part) : Prop where
  iff : Exact g prp1 prp2 len r.1 r.2.2 ↔ ∀ j ≥ i, partStart prp1 j < len →
    (∀ k, i ≤ k → k < j → (b.part prp1 prp2 len g k).isSome) → b.Takes prp1 prp2 len g j
  state : Exact g prp1 prp2 len r.1 r.2.2 → r.2.1 = S r.2.2.length
  ok : Exact g prp1 prp2 len r.1 r.2.2 →
    (r.1 = true ↔ ∀ j ≥ i, partStart prp1 j < len → (b.part prp1 prp2 len g j).isSome)

namespace Outcome

variable {S : ℕ → σ} {r : Bool × σ × List Part}

/-- At the end of the transfer. -/
theorem done (hlog : log.map some = (List.range log.length).map (g.part prp1 prp2 len))
    (hend : len ≤ partStart prp1 log.length) :
    Outcome b prp1 prp2 len g S log.length (true, S log.length, log) := by
  have hnone : ∀ j ≥ log.length, ¬ partStart prp1 j < len := fun j hj =>
    Nat.not_lt.2 (hend.trans (partStart_le hj))
  exact ⟨⟨fun _ j hj hlt => absurd hlt (hnone j hj), fun _ => exact_iff.2 ⟨hlog, fun _ => hend⟩⟩,
    fun _ => rfl, fun _ => ⟨fun _ j hj hlt => absurd hlt (hnone j hj), fun _ => rfl⟩⟩

/-- The back end does not find the page. -/
theorem failed (hlog : log.map some = (List.range log.length).map (g.part prp1 prp2 len))
    (hlt : partStart prp1 log.length < len) (hpart : b.part prp1 prp2 len g log.length = none)
    (hstop : log.length ≠ 0 →
      b.prpNext prp1 prp2 len (partStart prp1 log.length) log.length ≠ .stop) :
    Outcome b prp1 prp2 len g S log.length (false, S log.length, log) := by
  refine ⟨⟨fun _ j hj _ hfound => ?_, fun _ => exact_iff.2 ⟨hlog, fun h => absurd h (by simp)⟩⟩,
    fun _ => rfl, fun _ => ⟨fun h => absurd h (by simp), fun hall => ?_⟩⟩
  · rcases Nat.eq_or_lt_of_le hj with rfl | hj
    · exact ⟨hstop, fun x hx => absurd (hpart.symm.trans hx) (by simp)⟩
    · have hsome := hfound _ le_rfl hj
      rw [hpart] at hsome
      cases hsome
  · have hsome := hall _ le_rfl hlt
    rw [hpart] at hsome
    cases hsome

/-- The back end stops before the end of the transfer, but with success. -/
theorem stopped (hlt : partStart prp1 log.length < len) (hne : log.length ≠ 0)
    (hstop : b.prpNext prp1 prp2 len (partStart prp1 log.length) log.length = .stop) :
    Outcome b prp1 prp2 len g S log.length (true, S log.length, log) := by
  have hnot : ¬ Exact g prp1 prp2 len true log := fun h =>
    absurd hlt (Nat.not_lt.2 ((exact_iff.1 h).2 rfl))
  refine ⟨⟨fun h => absurd h hnot, fun htakes => ?_⟩, fun h => absurd h hnot,
    fun h => absurd h hnot⟩
  have htake := htakes _ le_rfl hlt fun k hk hk' => absurd hk (Nat.not_le.2 hk')
  exact absurd hstop (htake.1 hne)

/-- The back end accesses something else than the part. -/
theorem missed (hlt : partStart prp1 log.length < len)
    (hpart : b.part prp1 prp2 len g log.length = some x)
    (hne : g.part prp1 prp2 len log.length ≠ some x) (hrest : ∃ rest, r.2.2 = log ++ [x] ++ rest) :
    Outcome b prp1 prp2 len g S log.length r := by
  have hnot : ¬ Exact g prp1 prp2 len r.1 r.2.2 := by
    intro h
    obtain ⟨rest, hrest⟩ := hrest
    have hparts := h.parts
    rw [hrest] at hparts
    exact hne (parts_snoc.1 (parts_append hparts)).2
  refine ⟨⟨fun h => absurd h hnot, fun htakes => ?_⟩, fun h => absurd h hnot,
    fun h => absurd h hnot⟩
  have htake := htakes _ le_rfl hlt fun k hk hk' => absurd hk (Nat.not_le.2 hk')
  exact absurd (htake.2 x hpart) hne

/-- The back end accesses the part, and goes on. -/
theorem next (h : Outcome b prp1 prp2 len g S (i + 1) r)
    (hpart : b.part prp1 prp2 len g i = some x) (hg : g.part prp1 prp2 len i = some x)
    (hstop : i ≠ 0 → b.prpNext prp1 prp2 len (partStart prp1 i) i ≠ .stop) :
    Outcome b prp1 prp2 len g S i r := by
  have hsome : (b.part prp1 prp2 len g i).isSome := by rw [hpart]; rfl
  have htake : b.Takes prp1 prp2 len g i := by
    refine ⟨hstop, fun y hy => ?_⟩
    rw [hpart] at hy
    exact hy ▸ hg
  refine ⟨h.iff.trans ⟨fun hall j hj hlt hfound => ?_, fun hall j hj hlt hfound => ?_⟩, h.state,
    fun hexact => (h.ok hexact).trans ⟨fun hall j hj hlt => ?_, fun hall j hj hlt =>
      hall j (Nat.le_of_succ_le hj) hlt⟩⟩
  · rcases Nat.eq_or_lt_of_le hj with rfl | hj
    · exact htake
    · exact hall j hj hlt fun k hk hkj => hfound k (Nat.le_of_succ_le hk) hkj
  · refine hall j (Nat.le_of_succ_le hj) hlt fun k hk hkj => ?_
    rcases Nat.eq_or_lt_of_le hk with rfl | hk
    · exact hsome
    · exact hfound k hk hkj
  · rcases Nat.eq_or_lt_of_le hj with rfl | hj
    · exact hsome
    · exact hall j hj hlt

end Outcome

/-- A transfer that has been right so far, from the next page on. -/
theorem prpPages_outcome {S : ℕ → σ} (hb : b.Regular)
    (hS : Stages g prp1 prp2 len guest copy S) {n : ℕ} {addr : UInt64}
    (hat : b.taken prp1 prp2 len g log.length = some addr)
    (hlog : log.map some = (List.range log.length).map (g.part prp1 prp2 len))
    (hn : len ≤ partStart prp1 log.length + n) :
    Outcome b prp1 prp2 len g S log.length (b.prpPages (fun s => guest s.1) (record copy) prp1 prp2
      len n addr (partStart prp1 log.length) log.length (S log.length, log)) := by
  -- Page by page: `log` is what has been taken, and `addr` where the next page is.
  induction n generalizing addr log with
  | zero => exact .done hlog hn
  | succ n ih =>
    rw [prpPages]
    by_cases hend : len ≤ partStart prp1 log.length
    · rw [if_pos hend]
      exact .done hlog hend
    rw [if_neg hend]
    have hlt := Nat.lt_of_not_le hend
    have hstop : log.length ≠ 0 →
        b.prpNext prp1 prp2 len (partStart prp1 log.length) log.length ≠ .stop := by
      intro hne hs
      obtain ⟨i, hi⟩ := Nat.exists_eq_succ_of_ne_zero hne
      rw [hi, taken, ← Nat.succ_eq_add_one, ← hi, hs] at hat
      cases hat
    dsimp only
    rw [hb.regions g _ (hS.regions _)]
    cases hbase : b.gpaToHva g (pageBase addr) with
    | none =>
      refine .failed hlog hlt ?_ hstop
      rw [part, hat, Option.bind_some, hbase]
      rfl
    | some h =>
      dsimp only
      generalize hchunk : min (pageSize - pageOffset addr) (len - partStart prp1 log.length) = chunk
      have hpart : b.part prp1 prp2 len g log.length = some ((h.1, h.2 + pageOffset addr), chunk) := by
        rw [part, hat, Option.bind_some, hbase, hchunk]
        rfl
      rw [record]
      dsimp only
      by_cases hg : g.part prp1 prp2 len log.length = some ((h.1, h.2 + pageOffset addr), chunk)
      · rw [← hS.next _ _ _ hg]
        have hlog' := parts_snoc.2 ⟨hlog, hg⟩
        have hlen : (log ++ [((h.1, h.2 + pageOffset addr), chunk)]).length = log.length + 1 :=
          List.length_append
        have hend' := partStart_add_partLen hlt
        rw [← Guest.part_len hg] at hend'
        dsimp only at hend'
        refine Outcome.next ?_ hpart hg hstop
        generalize log ++ [((h.1, h.2 + pageOffset addr), chunk)] = log' at hlog' hlen ⊢
        rw [← hlen] at hend' ⊢
        by_cases hlast : len ≤ partStart prp1 log'.length
        · rw [hend', if_pos (Nat.le_min.2 ⟨le_rfl, hlast⟩)]
          exact .done hlog' hlast
        have hlt' := Nat.lt_of_not_le hlast
        rw [hend', Nat.min_eq_right (Nat.le_of_lt hlt'), if_neg hlast]
        have hn' : len ≤ partStart prp1 log'.length + n := by
          have := @partStart_lt_succ prp1 log.length
          rw [hlen]
          omega
        -- Where the next page is: nowhere, at the second entry, or in the list that it names.
        cases hnext : b.prpNext prp1 prp2 len (partStart prp1 log'.length) log'.length with
        | stop => exact .stopped hlt' (by omega) hnext
        | second =>
          refine ih ?_ hlog' hn'
          rw [hlen] at hnext ⊢
          rw [taken, hnext]
        | list j =>
          rw [hlen] at hnext hlt'
          obtain ⟨rfl, hlong⟩ := hb.list _ _ _ _ _ hlt' hnext
          dsimp only
          rw [hb.regions g _ (hS.regions _)]
          cases hl : b.gpaToHva g prp2 with
          | none =>
            have htaken : b.taken prp1 prp2 len g (log.length + 1) = none := by
              rw [taken, hnext]
              dsimp only
              rw [hl, Option.map_none]
            rw [← hlen] at hnext htaken hlt'
            refine .failed hlog' hlt' ?_ fun _ => ?_
            · rw [part, htaken, Option.bind_none]
            · rw [hnext]
              exact PrpNext.noConfusion
          | some l =>
            refine ih ?_ hlog' hn'
            rw [hlen, hS.list _ hlong hlt' l (hb.sound _ _ _ hl), taken, hnext]
            dsimp only
            rw [hl, Option.map_some]
      · -- Whatever follows, the wrong part has been recorded.
        refine .missed hlt hpart hg ?_
        split_ifs
        · exact ⟨[], (List.append_nil _).symm⟩
        cases b.prpNext prp1 prp2 len _ (log.length + 1) with
        | stop => exact ⟨[], (List.append_nil _).symm⟩
        | second => exact prpPages_log
        | list j =>
          dsimp only
          split
          · exact ⟨[], (List.append_nil _).symm⟩
          · exact prpPages_log

/-- A transfer is exact if and only if the back end takes the right parts, as far as it gets. It
    then leaves what copying these parts does, and succeeds if and only if it finds them all. -/
theorem logged_outcome {S : ℕ → σ} (hb : b.Regular)
    (hS : Stages g prp1 prp2 len guest copy S) :
    Outcome b prp1 prp2 len g S 0 (b.logged guest copy prp1 prp2 len (S 0)) := by
  have h : Outcome b prp1 prp2 len g S ([] : List Part).length
      (b.logged guest copy prp1 prp2 len (S 0)) :=
    prpPages_outcome hb hS rfl rfl (Nat.le_add_left len _)
  exact h

end Backend

/-! ## What is copied -/

/-- Each byte of a transfer is in one of its pages. -/
theorem exists_part (prp1 : UInt64) {k : ℕ} (hk : k < len) :
    ∃ i x, k = partStart prp1 i + x ∧ x < partLen prp1 len i := by
  induction k using Nat.strong_induction_on with
  | _ k ih =>
    by_cases hfirst : k < firstPage prp1
    · refine ⟨0, k, (Nat.zero_add k).symm, ?_⟩
      rw [partLen, partStart, partStart, Nat.zero_mul]
      omega
    · have hdiv := Nat.div_add_mod (k - firstPage prp1) 4096
      have hmod := Nat.mod_lt (k - firstPage prp1) (by decide : 0 < 4096)
      refine ⟨(k - firstPage prp1) / 4096 + 1, (k - firstPage prp1) % 4096, ?_, ?_⟩
      · show k = firstPage prp1 + (k - firstPage prp1) / 4096 * 4096 + _
        omega
      · show _ < min (firstPage prp1 + ((k - firstPage prp1) / 4096 + 1) * 4096 -
          (firstPage prp1 + (k - firstPage prp1) / 4096 * 4096))
            (len - (firstPage prp1 + (k - firstPage prp1) / 4096 * 4096))
        omega

/-- The states of a transfer that copies the parts in turn. -/
def states (g : Guest) (prp1 prp2 : UInt64) (len : ℕ)
    (copy : Hva → (offset chunk : ℕ) → σ → σ) (s : σ) : ℕ → σ
  | 0 => s
  | i + 1 =>
    match g.part prp1 prp2 len i with
    | some (h, chunk) => copy h (partStart prp1 i) chunk (states g prp1 prp2 len copy s i)
    | none => states g prp1 prp2 len copy s i

theorem states_succ {s : σ} {h : Hva} {chunk : ℕ} (hpart : g.part prp1 prp2 len i = some (h, chunk)) :
    states g prp1 prp2 len copy s (i + 1) =
      copy h (partStart prp1 i) chunk (states g prp1 prp2 len copy s i) := by
  rw [states, hpart]

/-- Copying from the guest. -/
def readCopy (g : Guest) (h : Hva) (offset chunk : ℕ) (buf : Buffer) : Buffer :=
  buf.store offset chunk (g.bytesAt h)

/-- Copying to the guest. -/
def writeCopy (data : Buffer) (h : Hva) (offset chunk : ℕ) (g : Guest) : Guest :=
  g.write h chunk fun k => data (offset + k)

/-- Copying from the guest does not change it. -/
theorem readStages (buf : Buffer) : Backend.Stages g prp1 prp2 len (fun _ => g) (readCopy g)
    (states g prp1 prp2 len (readCopy g) buf) :=
  ⟨fun _ _ _ hpart => states_succ hpart, fun _ => rfl, fun _ _ _ _ _ => rfl⟩

/-- The buffer has the bytes of the parts copied. -/
theorem read_states {buf : Buffer} {n : ℕ} {h : Hva} {chunk k : ℕ} (hi : i < n)
    (hpart : g.part prp1 prp2 len i = some (h, chunk)) (hk : k < chunk) :
    states g prp1 prp2 len (readCopy g) buf n (partStart prp1 i + k) = g.mem h.1 (h.2 + k) := by
  have hchunk := Guest.part_len hpart
  have hend := partStart_add_partLen (Guest.part_lt hpart)
  dsimp only at hchunk
  induction n with
  | zero => exact absurd hi (Nat.not_lt_zero i)
  | succ n ih =>
    rcases Nat.eq_or_lt_of_le (Nat.le_of_lt_succ hi) with rfl | hlt
    · rw [states_succ hpart, readCopy, Buffer.store, if_pos ⟨Nat.le_add_right _ _, by omega⟩,
        Nat.add_sub_cancel_left, Guest.bytesAt]
    · -- The parts that follow begin behind this one.
      have hle : partStart prp1 (i + 1) ≤ partStart prp1 n := partStart_le hlt
      cases hn : g.part prp1 prp2 len n with
      | none =>
        rw [states, hn]
        exact ih hlt
      | some x =>
        rw [states_succ hn, readCopy, Buffer.store, if_neg (by omega)]
        exact ih hlt

/-- The part `i` of a transfer does not overlap the entry `j` of the list. -/
def EntryApart (g : Guest) (prp1 prp2 : UInt64) (len i j : ℕ) : Prop :=
  ∀ h chunk, g.part prp1 prp2 len i = some (h, chunk) → ∀ l, g.locate prp2 = some l →
    ∀ x < chunk, ∀ y < 8, (h.1, h.2 + x) ≠ (l.1, l.2 + (8 * j + y))

/-- The parts of a transfer do not overlap the entries of the list that are still to be read. -/
def ListApart (g : Guest) (prp1 prp2 : UInt64) (len : ℕ) : Prop :=
  firstPage prp1 + pageSize < len → ∀ j, firstPage prp1 + j * pageSize < len →
    ∀ i ≤ j, EntryApart g prp1 prp2 len i j

/-- The parts of a transfer do not overlap each other, nor the list of its pages. -/
structure Apart (g : Guest) (prp1 prp2 : UInt64) (len : ℕ) : Prop where
  entries : firstPage prp1 + pageSize < len → ∀ j, firstPage prp1 + j * pageSize < len →
    ∀ i, EntryApart g prp1 prp2 len i j
  parts (i j : ℕ) (h h' : Hva) (chunk chunk' : ℕ) : g.part prp1 prp2 len i = some (h, chunk) →
    g.part prp1 prp2 len j = some (h', chunk') → i ≠ j → ∀ x < chunk, ∀ y < chunk',
      (h.1, h.2 + x) ≠ (h'.1, h'.2 + y)

theorem Apart.list (h : Apart g prp1 prp2 len) : ListApart g prp1 prp2 len :=
  fun hlong j hj i _ => h.entries hlong j hj i

section

variable {data : Buffer} {n : ℕ}

theorem write_states_regions :
    (states g prp1 prp2 len (writeCopy data) g n).regions = g.regions := by
  induction n with
  | zero => rfl
  | succ n ih =>
    rw [states]
    split
    · exact ih
    · exact ih

/-- An entry of the list is left alone by parts that do not overlap it. -/
theorem write_states_entry (hapart : ∀ i < n, EntryApart g prp1 prp2 len i j) {l : Hva}
    (hl : g.locate prp2 = some l) :
    ((states g prp1 prp2 len (writeCopy data) g n).bytesAt l).le64 (8 * j) =
      (g.bytesAt l).le64 (8 * j) := by
  refine Buffer.le64_congr fun y hy => ?_
  show (states g prp1 prp2 len (writeCopy data) g n).mem l.1 (l.2 + (8 * j + y)) =
    g.mem l.1 (l.2 + (8 * j + y))
  induction n with
  | zero => rfl
  | succ n ih =>
    have ih := ih fun i hi => hapart i (Nat.lt_succ_of_lt hi)
    cases hn : g.part prp1 prp2 len n with
    | none =>
      rw [states, hn]
      exact ih
    | some x =>
      rw [states_succ hn, writeCopy, Guest.write_mem, if_neg, ih]
      rintro ⟨hm, hle, hlt⟩
      refine hapart n (Nat.lt_succ_self n) _ _ hn l hl (l.2 + (8 * j + y) - x.1.2) (by omega) y
        hy ?_
      rw [← hm, Nat.add_sub_cancel' hle]

/-- Copying to the guest does not change the regions, nor the entries before they are read. -/
theorem writeStages (hapart : ListApart g prp1 prp2 len) :
    Backend.Stages g prp1 prp2 len id (writeCopy data)
      (states g prp1 prp2 len (writeCopy data) g) :=
  ⟨fun _ _ _ hpart => states_succ hpart, fun _ => write_states_regions, fun j hlong hj _ hl =>
    write_states_entry (fun i hi => hapart hlong j hj i (Nat.le_of_lt_succ hi)) hl⟩

/-- The guest has the bytes of the parts copied. -/
theorem write_states (hapart : Apart g prp1 prp2 len) {h : Hva} {chunk k : ℕ} (hi : i < n)
    (hpart : g.part prp1 prp2 len i = some (h, chunk)) (hk : k < chunk) :
    (states g prp1 prp2 len (writeCopy data) g n).mem h.1 (h.2 + k) =
      data (partStart prp1 i + k) := by
  induction n with
  | zero => exact absurd hi (Nat.not_lt_zero i)
  | succ n ih =>
    rcases Nat.eq_or_lt_of_le (Nat.le_of_lt_succ hi) with rfl | hlt
    · rw [states_succ hpart, writeCopy, Guest.write_mem,
        if_pos ⟨rfl, Nat.le_add_right _ _, Nat.add_lt_add_left hk _⟩, Nat.add_sub_cancel_left]
    · cases hn : g.part prp1 prp2 len n with
      | none =>
        rw [states, hn]
        exact ih hlt
      | some x =>
        rw [states_succ hn, writeCopy, Guest.write_mem, if_neg, ih hlt]
        rintro ⟨hm, hle, hlt'⟩
        refine hapart.parts i n _ _ _ _ hpart hn (Nat.ne_of_lt hlt) k hk (h.2 + k - x.1.2)
          (by omega) ?_
        rw [hm, Nat.add_sub_cancel' hle]

end

/-! ## Guests with the same entries -/

/-- Two guests have the same regions, and the same list of pages. -/
def SameEntries (g g' : Guest) (prp1 prp2 : UInt64) (len : ℕ) : Prop :=
  g'.regions = g.regions ∧ (firstPage prp1 + pageSize < len → ∀ l, g.locate prp2 = some l → ∀ j,
    firstPage prp1 + j * pageSize < len → (g'.bytesAt l).le64 (8 * j) = (g.bytesAt l).le64 (8 * j))

theorem write_states_same (hapart : Apart g prp1 prp2 len) (data : Buffer) (n : ℕ) :
    SameEntries g (states g prp1 prp2 len (writeCopy data) g n) prp1 prp2 len :=
  ⟨write_states_regions, fun hlong _ hl j hj =>
    write_states_entry (fun i _ => hapart.entries hlong j hj i) hl⟩

/-- The parts are the same. -/
theorem SameEntries.part (h : SameEntries g g' prp1 prp2 len) (i : ℕ) :
    g'.part prp1 prp2 len i = g.part prp1 prp2 len i := by
  have hlocate : ∀ addr, g'.locate addr = g.locate addr := Backend.locate_congr h.1
  rw [Guest.part, Guest.part]
  split_ifs with hend
  · rfl
  have hentry : g'.prpEntry prp1 prp2 len i = g.prpEntry prp1 prp2 len i := by
    cases i with
    | zero => rfl
    | succ i =>
      rw [Guest.prpEntry, Guest.prpEntry]
      split_ifs with htwo
      · rfl
      · rw [hlocate]
        cases hl : g.locate prp2 with
        | none => rw [Option.map_none, Option.map_none]
        | some l =>
          have hle64 := h.2 (Nat.lt_of_not_le htwo) l hl i (Nat.lt_of_not_le hend)
          rw [Option.map_some, Option.map_some, hle64]
  rw [hentry]
  simp only [hlocate]

/-- A back end takes the same parts. -/
theorem SameEntries.part_backend (h : SameEntries g g' prp1 prp2 len) (hb : b.Regular)
    (hlt : partStart prp1 i < len) : b.part prp1 prp2 len g' i = b.part prp1 prp2 len g i := by
  have hgpa := hb.regions g g' h.1
  have htaken : b.taken prp1 prp2 len g' i = b.taken prp1 prp2 len g i := by
    cases i with
    | zero => rfl
    | succ i =>
      rw [Backend.taken, Backend.taken]
      cases hnext : b.prpNext prp1 prp2 len (partStart prp1 (i + 1)) (i + 1) with
      | stop => rfl
      | second => rfl
      | list j =>
        obtain ⟨rfl, hlong⟩ := hb.list _ _ _ _ _ hlt hnext
        dsimp only
        rw [hgpa]
        cases hl : b.gpaToHva g prp2 with
        | none => rw [Option.map_none, Option.map_none]
        | some l =>
          have hle64 := h.2 hlong l (hb.sound _ _ _ hl) _ hlt
          rw [Option.map_some, Option.map_some, hle64]
  rw [Backend.part, Backend.part, htaken, hgpa]

/-- The parts of a transfer that has gone right to the end. -/
theorem Exact.end (h : Exact g prp1 prp2 len true log) :
    (∀ i < log.length, (g.part prp1 prp2 len i).isSome) ∧ len ≤ partStart prp1 log.length := by
  obtain ⟨hparts, hend⟩ := exact_iff.1 h
  refine ⟨fun i hi => ?_, hend rfl⟩
  have hget : (log.map some)[i]? = ((List.range log.length).map (g.part prp1 prp2 len))[i]? := by
    rw [hparts]
  rw [List.getElem?_map, List.getElem?_map, List.getElem?_range hi, List.getElem?_eq_getElem hi,
    Option.map_some, Option.map_some, Option.some_inj] at hget
  rw [← hget]
  rfl

/-! ## Transfers as a whole -/

namespace Backend

variable {b' : Backend} {data buf : Buffer}

/-- What is known of a whole transfer. -/
theorem Outcome.whole {S : ℕ → σ} {r : Bool × σ × List Part}
    (h : Outcome b prp1 prp2 len g S 0 r) :
    (Exact g prp1 prp2 len r.1 r.2.2 ↔ b.TakesAll prp1 prp2 len g) ∧
      (b.TakesAll prp1 prp2 len g → (r.1 = true ↔ b.FindsAll prp1 prp2 len g)) := by
  have hiff : Exact g prp1 prp2 len r.1 r.2.2 ↔ b.TakesAll prp1 prp2 len g :=
    h.iff.trans ⟨fun hall i hlt hfound => hall i (Nat.zero_le i) hlt fun j _ => hfound j,
      fun hall i _ hlt hfound => hall i hlt fun j => hfound j (Nat.zero_le j)⟩
  exact ⟨hiff, fun htakes => (h.ok (hiff.2 htakes)).trans
    ⟨fun hall i => hall i (Nat.zero_le i), fun hall i _ => hall i⟩⟩

theorem read_outcome (hb : b.Regular) (buf : Buffer) : Outcome b prp1 prp2 len g
    (states g prp1 prp2 len (readCopy g) buf) 0 (b.readLogged prp1 prp2 len g buf) :=
  logged_outcome hb (readStages buf)

theorem write_outcome (hb : b.Regular) (hapart : ListApart g prp1 prp2 len) (data : Buffer) :
    Outcome b prp1 prp2 len g (states g prp1 prp2 len (writeCopy data) g) 0
      (b.writeLogged prp1 prp2 len g data) :=
  logged_outcome hb (writeStages hapart)

/-- If the right parts are taken, and all found, they are all there. -/
theorem TakesAll.part_isSome (htakes : b.TakesAll prp1 prp2 len g)
    (hfinds : b.FindsAll prp1 prp2 len g) (hlt : partStart prp1 i < len) :
    (g.part prp1 prp2 len i).isSome := by
  obtain ⟨x, hx⟩ := Option.isSome_iff_exists.1 (hfinds i hlt)
  have htake := htakes i hlt fun j hj =>
    hfinds j (Nat.lt_of_le_of_lt (partStart_le (Nat.le_of_lt hj)) hlt)
  rw [htake.2 x hx]
  rfl

/-- A transfer that finds all the right parts leaves what copying them does. -/
theorem Outcome.final {S : ℕ → σ} {r : Bool × σ × List Part}
    (h : Outcome b prp1 prp2 len g S 0 r) (htakes : b.TakesAll prp1 prp2 len g)
    (hfinds : b.FindsAll prp1 prp2 len g) : r.2.1 = S r.2.2.length ∧
      ∀ i, (g.part prp1 prp2 len i).isSome ↔ i < r.2.2.length := by
  have hexact := h.whole.1.2 htakes
  have hend := hexact
  rw [(h.whole.2 htakes).2 hfinds] at hend
  refine ⟨h.state hexact, fun i => ⟨fun hi => ?_, hend.end.1 i⟩⟩
  obtain ⟨x, hx⟩ := Option.isSome_iff_exists.1 hi
  by_contra hle
  exact absurd (Guest.part_lt hx) (Nat.not_lt.2 (hend.end.2.trans
    (partStart_le (Nat.le_of_not_lt hle))))

/-- The buffer gets the bytes of the parts. -/
theorem read_part (hb : b.Regular) (htakes : b.TakesAll prp1 prp2 len g)
    (hfinds : b.FindsAll prp1 prp2 len g) {h : Hva} {chunk k : ℕ}
    (hpart : g.part prp1 prp2 len i = some (h, chunk)) (hk : k < chunk) :
    (b.prpReadData prp1 prp2 len g buf).2 (partStart prp1 i + k) = g.mem h.1 (h.2 + k) := by
  obtain ⟨hstate, hcount⟩ := (read_outcome hb buf).final htakes hfinds
  rw [prpReadData_eq]
  dsimp only
  rw [hstate]
  exact read_states ((hcount i).1 (by rw [hpart]; rfl)) hpart hk

/-- The guest gets the bytes of the buffer, and keeps the entries. -/
theorem write_part (hb : b.Regular) (hapart : Apart g prp1 prp2 len)
    (htakes : b.TakesAll prp1 prp2 len g) (hfinds : b.FindsAll prp1 prp2 len g) (data : Buffer) :
    SameEntries g (b.prpWriteData prp1 prp2 len data g).2 prp1 prp2 len ∧
      ∀ i h chunk k, g.part prp1 prp2 len i = some (h, chunk) → k < chunk →
        (b.prpWriteData prp1 prp2 len data g).2.mem h.1 (h.2 + k) =
          data (partStart prp1 i + k) := by
  obtain ⟨hstate, hcount⟩ := (write_outcome hb hapart.list data).final htakes hfinds
  rw [prpWriteData_eq]
  dsimp only
  rw [hstate]
  exact ⟨write_states_same hapart data _, fun i h chunk k hpart hk =>
    write_states hapart ((hcount i).1 (by rw [hpart]; rfl)) hpart hk⟩

/-- Back ends that both find all the right parts transfer the same. -/
theorem read_agree (hb : b.Regular) (hb' : b'.Regular) (htakes : b.TakesAll prp1 prp2 len g)
    (htakes' : b'.TakesAll prp1 prp2 len g) (hfinds : b.FindsAll prp1 prp2 len g)
    (hfinds' : b'.FindsAll prp1 prp2 len g) :
    (b.prpReadData prp1 prp2 len g buf).2 = (b'.prpReadData prp1 prp2 len g buf).2 := by
  obtain ⟨hstate, hcount⟩ := (read_outcome hb buf).final htakes hfinds
  obtain ⟨hstate', hcount'⟩ := (read_outcome hb' buf).final htakes' hfinds'
  rw [prpReadData_eq, prpReadData_eq]
  dsimp only
  rw [hstate, hstate', eq_of_forall_lt_iff fun i => (hcount i).symm.trans (hcount' i)]

theorem write_agree (hb : b.Regular) (hb' : b'.Regular) (hapart : ListApart g prp1 prp2 len)
    (htakes : b.TakesAll prp1 prp2 len g) (htakes' : b'.TakesAll prp1 prp2 len g)
    (hfinds : b.FindsAll prp1 prp2 len g) (hfinds' : b'.FindsAll prp1 prp2 len g) :
    (b.prpWriteData prp1 prp2 len data g).2 = (b'.prpWriteData prp1 prp2 len data g).2 := by
  obtain ⟨hstate, hcount⟩ := (write_outcome hb hapart data).final htakes hfinds
  obtain ⟨hstate', hcount'⟩ := (write_outcome hb' hapart data).final htakes' hfinds'
  rw [prpWriteData_eq, prpWriteData_eq]
  dsimp only
  rw [hstate, hstate', eq_of_forall_lt_iff fun i => (hcount i).symm.trans (hcount' i)]

theorem TakesAll.same (htakes : b.TakesAll prp1 prp2 len g) (hb : b.Regular)
    (h : SameEntries g g' prp1 prp2 len) : b.TakesAll prp1 prp2 len g' := by
  intro i hlt hfound
  have htake := htakes i hlt fun j hj => by
    rw [← h.part_backend hb (Nat.lt_of_le_of_lt (partStart_le (Nat.le_of_lt hj)) hlt)]
    exact hfound j hj
  refine ⟨htake.1, fun x hx => ?_⟩
  rw [h.part_backend hb hlt] at hx
  rw [h.part]
  exact htake.2 x hx

theorem FindsAll.same (hfinds : b.FindsAll prp1 prp2 len g) (hb : b.Regular)
    (h : SameEntries g g' prp1 prp2 len) : b.FindsAll prp1 prp2 len g' := by
  intro i hlt
  rw [h.part_backend hb hlt]
  exact hfinds i hlt

/-- Data that one back end has written to parts that do not overlap is read back by the other. -/
theorem read_written (hb : b.Regular) (hb' : b'.Regular) (hapart : Apart g prp1 prp2 len)
    (htakes : b.TakesAll prp1 prp2 len g) (htakes' : b'.TakesAll prp1 prp2 len g)
    (hfinds : b.FindsAll prp1 prp2 len g) (hfinds' : b'.FindsAll prp1 prp2 len g) {k : ℕ}
    (hk : k < len) :
    (b'.prpReadData prp1 prp2 len (b.prpWriteData prp1 prp2 len data g).2 buf).2 k = data k := by
  obtain ⟨hsame, hmem⟩ := write_part hb hapart htakes hfinds data
  obtain ⟨i, x, rfl, hx⟩ := exists_part prp1 hk
  have hlt : partStart prp1 i < len := Nat.lt_of_le_of_lt (Nat.le_add_right _ _) hk
  obtain ⟨⟨h, chunk⟩, hpart⟩ := Option.isSome_iff_exists.1 (htakes.part_isSome hfinds hlt)
  have hchunk := Guest.part_len hpart
  dsimp only at hchunk
  rw [read_part hb' (htakes'.same hb' hsame) (hfinds'.same hb' hsame)
    ((hsame.part i).trans hpart) (hchunk ▸ hx)]
  exact hmem i h chunk x hpart (hchunk ▸ hx)

end Backend

end Nvme

end FtlFirmware
