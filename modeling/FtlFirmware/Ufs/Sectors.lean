import FtlFirmware.Ftl.ReadYourWrites
import FtlFirmware.Nvme.Calls
import FtlFirmware.Ufs.Basic

/-!
# Reading back sectors

A host that writes sectors gets them back (`sectors_read_back`), as long as its writes are of whole
pages (`Whole`), and the FTL keeps the pages. What it gets for a Read is what the sectors from the
beginning of the first page on hold: this is right if the Read begins with a page, or by
coincidence.

The target writes pages from the data of a command, without looking at what they hold. A Write that
does not begin with a page is shifted to its beginning, and a Write that ends within a page takes
the rest of this page from behind its data (`not_sectors_read_back`).
-/

namespace FtlFirmware

open Nvme (Buffer setPage_page setPage_page_of_ne)

/-- The bytes of a sector. -/
abbrev SectorData := Vector UInt8 sectorSize

/-- What has been written to the sectors. -/
abbrev Sectors := ℕ → Option SectorData

/-- The sector `k` of a buffer. -/
def sectorIn (data : Buffer) (k : ℕ) : SectorData := Vector.ofFn fun j => data (k * sectorSize + j)

/-- The sector `j` of a page. -/
def sectorOf (page : PageData) (j : ℕ) : SectorData :=
  Vector.ofFn fun k => page.toArray.getD (j * sectorSize + k) 0

/-- The sectors that the pages hold. -/
def unpack (c : Store) : Sectors := fun k =>
  (c (k / sectorsPerPage)).map fun page => sectorOf page (k % sectorsPerPage)

/-- Writes `n` sectors of `data`, from the sector `lba` on. -/
def Sectors.write (σ : Sectors) (lba n : ℕ) (data : Buffer) : Sectors := fun k =>
  if lba ≤ k ∧ k < lba + n then some (sectorIn data (k - lba)) else σ k

/-- The status answered. -/
def UfsAnswer.status? (a : UfsAnswer) : Option ScsiStatus := a.reply.map fun r => r.1.scsiStatus

/-- The call is a Write. -/
def UfsCall.IsWrite : UfsCall → Prop
  | .processCmd request _ _ _ => request.opcode = 0x2A
  | _ => False

/-- What a call does to the sectors, with its answer: a Write that has succeeded changes those that
    it names. -/
def Sectors.next (σ : Sectors) : UfsCall × UfsAnswer → Sectors
  | (.processCmd request _ data _, a) =>
    if request.opcode = 0x2A ∧ a.status? = some .good then
      σ.write request.lba.toNat request.sectors.toNat data
    else σ
  | _ => σ

/-- What has been written to the sectors, as the calls and their answers tell. -/
def sectors (tr : List (UfsCall × UfsAnswer)) : Sectors := tr.foldl Sectors.next fun _ => none

/-- The sectors of a command are those of whole pages. -/
def UfsRequest.Whole (request : UfsRequest) : Prop :=
  request.sectors.toNat = 0 ∨
    (sectorsPerPage ∣ request.lba.toNat ∧ sectorsPerPage ∣ request.sectors.toNat)

/-- All sectors of a command have been written. -/
def UfsRequest.Written (request : UfsRequest) (σ : Sectors) : Prop :=
  ∀ k < request.sectors.toNat, (σ (request.lba.toNat + k)).isSome

namespace Ufs

/-- The writes of pages in turn are safe, each in the state in which it is made. -/
def WritesSafe (lpn : ℕ → ℕ) (data : Buffer) : List ℕ → Ftl → Prop
  | [], _ => True
  | i :: is, ftl => ftl.OverwriteSafe (lpn i) ∧ ∀ fuel ftl',
      ftl.write fuel (lpn i) (data.page i) = some (.ok, ftl') → WritesSafe lpn data is ftl'

/-- A Write is one of whole pages, and safe for the FTL. -/
def Conforms (s : Ufs) : UfsCall → Prop
  | .processCmd request _ data _ => request.opcode = 0x2A →
      request.Whole ∧ WritesSafe request.lpnAt data (List.range request.lpns) s.ftl
  | _ => True

/-- The sectors of a Read are delivered, with success. -/
def Serves (s : Ufs) (σ : Sectors) (request : UfsRequest) : Prop :=
  ∀ fuel response data (dataLen : UInt32), request.byteCount ≤ dataLen.toNat →
    ∃ reply s', s.processCmd request response data dataLen fuel = some (reply, s') ∧
      reply.ret = .ok ∧ reply.response.scsiStatus = .good ∧
      ∀ k < request.sectors.toNat,
        σ (request.lba.toNat + k) = some (sectorIn reply.data k)

/-! ### Sectors and pages -/

variable {request : UfsRequest} {data data' : Buffer} {c c' : Store} {σ : Sectors} {i j k : ℕ}

/-- The sectors of a page of a buffer are sectors of the buffer. -/
theorem sectorOf_page (hj : j < sectorsPerPage) :
    sectorOf (data.page i) j = sectorIn data (i * sectorsPerPage + j) := by
  refine Vector.ext fun k hk => ?_
  have hlt : j * sectorSize + k < pageSize := by
    have hk' : k < 512 := hk
    have hj' : j < 8 := hj
    show j * 512 + k < 4096
    omega
  rw [sectorOf, sectorIn, Vector.getElem_ofFn, Vector.getElem_ofFn, Array.getD_eq_getD_getElem?,
    Vector.getElem?_toArray, Vector.getElem?_eq_getElem hlt, Option.getD_some, Buffer.page,
    Vector.getElem_ofFn]
  refine congrArg data ?_
  show i * 4096 + (j * 512 + k) = (i * 8 + j) * 512 + k
  omega

/-- The number of pages of a command: enough for its sectors. -/
theorem lpns_eq : request.lpns = (request.sectors.toNat + 7) / 8 := by
  show (request.sectors.toNat * 512 + 4095) / 4096 = _
  omega

/-- The pages of a command are those from the page of its first sector on. -/
theorem lpnAt_eq (hi : i < request.lpns) : request.lpnAt i = request.lba.toNat / 8 + i := by
  rw [lpns_eq] at hi
  have hlba := request.lba.toNat_lt
  have hsectors := request.sectors.toNat_lt
  rw [UfsRequest.lpnAt, UfsRequest.lpn, UInt32.toNat_add, UInt32.toNat_div, UInt32.toNat_ofNat']
  show (request.lba.toNat / 8 + i % 2 ^ 32) % 2 ^ 32 = _
  omega

/-- Contents with pages of a command written from its data. -/
def overlay (c : Store) (first n : ℕ) (data : Buffer) : Store := fun lpn =>
  if first ≤ lpn ∧ lpn < first + n then some (data.page (lpn - first)) else c lpn

/-- Pages written are sectors written. -/
theorem unpack_overlay {first n : ℕ} : unpack (overlay c first n data) =
    (unpack c).write (first * sectorsPerPage) (n * sectorsPerPage) data := by
  funext k
  have hdiv := Nat.div_add_mod k 8
  have hmod := Nat.mod_lt k (by decide : 0 < 8)
  rw [unpack, overlay, Sectors.write]
  by_cases hk : first ≤ k / sectorsPerPage ∧ k / sectorsPerPage < first + n
  · have hk' : first ≤ k / 8 ∧ k / 8 < first + n := hk
    rw [if_pos hk, if_pos (by show first * 8 ≤ k ∧ k < first * 8 + n * 8; omega), Option.map_some,
      sectorOf_page hmod]
    congr 2
    show (k / 8 - first) * 8 + k % 8 = k - first * 8
    omega
  · have hk' : ¬ (first ≤ k / 8 ∧ k / 8 < first + n) := hk
    rw [if_neg hk, if_neg (by show ¬ (first * 8 ≤ k ∧ k < first * 8 + n * 8); omega), unpack]

/-- Whole pages are written sector by sector. -/
theorem unpack_overlay_whole (h : request.Whole) :
    unpack (overlay c (request.lba.toNat / 8) request.lpns data) =
      (unpack c).write request.lba.toNat request.sectors.toNat data := by
  rw [unpack_overlay, lpns_eq]
  rcases h with hzero | ⟨⟨a, ha⟩, ⟨b, hb⟩⟩
  · -- Nothing is written, wherever it would be.
    rw [hzero]
    funext k
    rw [Sectors.write, Sectors.write, if_neg (by omega), if_neg (by omega)]
  · rw [ha, hb]
    show (unpack c).write (8 * a / 8 * 8) ((8 * b + 7) / 8 * 8) data = _
    rw [Nat.mul_div_cancel_left a (by decide), Nat.mul_comm a 8, show (8 * b + 7) / 8 * 8 = 8 * b by
      omega]

/-! ### Loops -/

variable {lpn : ℕ → ℕ} {is : List ℕ} {ftl ftl' : Ftl} {fuel : ℕ}

/-- Safe writes that all succeed give their pages the data, in turn. -/
theorem writeLoop_inv (h : Ftl.Inv ∅ c ftl) (hsafe : WritesSafe lpn data is ftl)
    (hw : writeLoop fuel lpn data is ftl = some (.ok, ftl')) :
    Ftl.Inv ∅ (is.foldl (fun c i => Function.update c (lpn i) (some (data.page i))) c) ftl' := by
  induction is generalizing c ftl with
  | nil =>
    cases hw
    exact h
  | cons i is ih =>
    rw [writeLoop] at hw
    obtain ⟨r, hr, hw⟩ := Option.bind_eq_some_iff.1 hw
    obtain ⟨ret, ftl₁⟩ := r
    by_cases hret : ret = .ok
    · subst hret
      rw [if_pos rfl] at hw
      rcases Ftl.write_inv h hsafe.1 fuel (data.page i) with ⟨_, hnone⟩ | ⟨ret, ftl₂, hsome, h₂⟩
      · rw [hr] at hnone
        cases hnone
      · rw [hr] at hsome
        cases hsome
        exact ih h₂ (hsafe.2 fuel ftl₁ hr) hw
    · rw [if_neg hret] at hw
      cases hw
      exact absurd rfl hret

/-- Writing pages in turn, the pages being next to each other. -/
theorem foldl_update_eq {first n : ℕ} (hlpn : ∀ i < n, lpn i = first + i) :
    (List.range n).foldl (fun c i => Function.update c (lpn i) (some (data.page i))) c =
      overlay c first n data := by
  induction n with
  | zero =>
    funext k
    rw [overlay, if_neg (by omega)]
    rfl
  | succ n ih =>
    rw [List.range_succ, List.foldl_append, ih fun i hi => hlpn i (Nat.lt_succ_of_lt hi)]
    funext k
    rw [List.foldl_cons, List.foldl_nil, hlpn n n.lt_succ_self]
    rcases eq_or_ne k (first + n) with rfl | hne
    · rw [Function.update_self, overlay, if_pos ⟨Nat.le_add_right _ _, Nat.lt_succ_self _⟩,
        Nat.add_sub_cancel_left]
    · have hiff : (first ≤ k ∧ k < first + n) ↔ first ≤ k ∧ k < first + (n + 1) := by omega
      rw [Function.update_of_ne hne, overlay, overlay]
      simp only [hiff]

/-- A read keeps the contents, also if there is no such page. -/
theorem read_keeps (h : Ftl.Inv ∅ c ftl) (l : ℕ) (buf : PageData) :
    Ftl.Inv ∅ c (ftl.read l buf).2.2 := by
  rcases @Ftl.exec_inv _ _ h (.read l buf) trivial 0 with ⟨_, hnone⟩ | ⟨a, s', hsome, h'⟩
  · cases hnone
  · cases hsome
    exact h'

theorem readLoop_keeps (h : Ftl.Inv ∅ c ftl) : Ftl.Inv ∅ c (readLoop lpn is data ftl).2.2 := by
  induction is generalizing data ftl with
  | nil => exact h
  | cons i is ih =>
    have hread := read_keeps h (lpn i) (data.page i)
    rw [readLoop]
    split_ifs
    · exact ih hread
    · exact hread

/-- Only pages of the device have contents. -/
theorem lt_of_isSome (h : Ftl.Inv ∅ c ftl) {l : ℕ} (hl : (c l).isSome) : l < totalLpns := by
  cases hppn : ftl.l2pTable l with
  | none =>
    rw [h.unmapped l hppn] at hl
    cases hl
  | some ppn => exact h.lpn_lt l ppn hppn

/-- Reads of pages with contents succeed, and deliver them. -/
theorem readLoop_ok (h : Ftl.Inv ∅ c ftl) (hsome : ∀ i ∈ is, (c (lpn i)).isSome) (hnd : is.Nodup)
    (data : Buffer) :
    (readLoop lpn is data ftl).1 = .ok ∧
      (∀ i ∈ is, c (lpn i) = some ((readLoop lpn is data ftl).2.1.page i)) ∧
      ∀ i ∉ is, (readLoop lpn is data ftl).2.1.page i = data.page i := by
  induction is generalizing data ftl with
  | nil => exact ⟨rfl, fun i hi => absurd hi List.not_mem_nil, fun _ _ => rfl⟩
  | cons i is ih =>
    obtain ⟨hi, hnd⟩ := List.nodup_cons.1 hnd
    have hc := hsome i List.mem_cons_self
    obtain ⟨hret, hbuf, h'⟩ := Ftl.read_inv h (lt_of_isSome h hc) (data.page i)
    rw [if_pos hc] at hret
    rw [readLoop]
    rw [if_pos hret]
    obtain ⟨hok, hpages, hrest⟩ := ih h' (fun j hj => hsome j (List.mem_cons_of_mem _ hj)) hnd
      (data.setPage i (ftl.read (lpn i) (data.page i)).2.1)
    refine ⟨hok, fun j hj => ?_, fun j hj => ?_⟩
    · rcases List.mem_cons.1 hj with rfl | hj
      · -- The page read first is left alone by the reads that follow.
        rw [hrest j hi, setPage_page, hbuf]
        obtain ⟨page, hpage⟩ := Option.isSome_iff_exists.1 hc
        rw [hpage, Option.getD_some]
      · exact hpages j hj
    · rw [hrest j fun hmem => hj (List.mem_cons_of_mem _ hmem),
        setPage_page_of_ne (List.ne_of_not_mem_cons hj)]

/-! ### Commands -/

variable {s s' : Ufs} {response : UfsResponse} {dataLen : UInt32} {reply : UfsReply}
  {call : UfsCall} {a : UfsAnswer} {tr : List (UfsCall × UfsAnswer)}

theorem processCmd_read (hop : request.opcode = 0x28) :
    s.processCmd request response data dataLen fuel =
      some (s.handleRead10 request response data dataLen) := by
  rw [processCmd, if_neg (by rw [hop]; decide), if_neg (by rw [hop]; decide),
    if_neg (by rw [hop]; decide), if_pos hop]

theorem processCmd_write (hop : request.opcode = 0x2A) :
    s.processCmd request response data dataLen fuel =
      s.handleWrite10 request response data dataLen fuel := by
  rw [processCmd, if_neg (by rw [hop]; decide), if_neg (by rw [hop]; decide),
    if_neg (by rw [hop]; decide), if_neg (by rw [hop]; decide), if_pos hop]

/-- A Write that has succeeded has written all its pages. -/
theorem handleWrite10_good (hgood : reply.response.scsiStatus = .good)
    (hw : s.handleWrite10 request response data dataLen fuel = some (reply, s')) :
    ∃ ftl', writeLoop fuel request.lpnAt data (List.range request.lpns) s.ftl = some (.ok, ftl') ∧
      s' = { s with ftl := ftl' } := by
  rw [handleWrite10] at hw
  split_ifs at hw
  · cases hw
    cases hgood
  · cases hw
    cases hgood
  · obtain ⟨⟨ret, ftl'⟩, hloop, hr⟩ := Option.map_eq_some_iff.1 hw
    by_cases hret : ret = .ok
    · subst hret
      rw [if_pos rfl] at hr
      cases hr
      exact ⟨ftl', hloop, rfl⟩
    · rw [if_neg hret] at hr
      cases hr
      cases hgood

/-- Other commands keep the contents. -/
theorem processCmd_keeps (h : Ftl.Inv ∅ c s.ftl) (hop : request.opcode ≠ 0x2A)
    (hp : s.processCmd request response data dataLen fuel = some (reply, s')) :
    Ftl.Inv ∅ c s'.ftl := by
  have hread : Ftl.Inv ∅ c (s.handleRead10 request response data dataLen).2.ftl := by
    rw [handleRead10]
    dsimp only
    split_ifs
    · exact h
    · exact readLoop_keeps h
    · exact readLoop_keeps h
  have hs' : s' = s ∨ s' = (s.handleRead10 request response data dataLen).2 := by
    rw [processCmd, if_neg hop] at hp
    split_ifs at hp
    all_goals first
      | exact Or.inr (congrArg Prod.snd (Option.some.inj hp)).symm
      | exact Or.inl (congrArg Prod.snd (Option.some.inj hp)).symm
  rcases hs' with rfl | rfl
  · exact h
  · exact hread

theorem setPowerMode_ftl {mode : UfsPowerMode} : (s.setPowerMode mode).2.ftl = s.ftl := by
  unfold setPowerMode
  split_ifs <;> cases mode <;> rfl

/-- The device holds the sectors `σ`. -/
def Holds (s : Ufs) (σ : Sectors) : Prop := ∃ c, Ftl.Inv ∅ c s.ftl ∧ unpack c = σ

/-- Sectors that are held are written, if whole pages are. -/
theorem Holds.write (h : s.Holds σ) (hwhole : request.Whole)
    (hsafe : WritesSafe request.lpnAt data (List.range request.lpns) s.ftl)
    (hgood : reply.response.scsiStatus = .good)
    (hw : s.handleWrite10 request response data dataLen fuel = some (reply, s')) :
    s'.Holds (σ.write request.lba.toNat request.sectors.toNat data) := by
  obtain ⟨c, hc, rfl⟩ := h
  obtain ⟨ftl', hloop, rfl⟩ := handleWrite10_good hgood hw
  have hinv := writeLoop_inv hc hsafe hloop
  rw [foldl_update_eq fun i hi => lpnAt_eq hi] at hinv
  exact ⟨_, hinv, unpack_overlay_whole hwhole⟩

/-- A call changes the sectors as it should. -/
theorem Holds.step (h : s.Holds σ) (hconforms : s.Conforms call)
    (hexec : s.exec fuel call = some (a, s'))
    (hgood : call.IsWrite → a.status? = some .good) : s'.Holds (σ.next (call, a)) := by
  cases call with
  | processCmd request response data dataLen =>
    obtain ⟨⟨reply, s₁⟩, hp, hr⟩ := Option.map_eq_some_iff.1 hexec
    cases hr
    by_cases hop : request.opcode = 0x2A
    · have hstatus := hgood hop
      rw [Sectors.next, if_pos ⟨hop, hstatus⟩]
      obtain ⟨hwhole, hsafe⟩ := hconforms hop
      rw [processCmd_write hop] at hp
      exact h.write hwhole hsafe (Option.some.inj hstatus) hp
    · rw [Sectors.next, if_neg fun hand => hop hand.1]
      obtain ⟨c, hc, rfl⟩ := h
      exact ⟨c, processCmd_keeps hc hop hp, rfl⟩
  | init =>
    cases hexec
    exact h
  | deinit =>
    cases hexec
    exact h
  | setPowerMode mode =>
    cases hexec
    obtain ⟨c, hc, rfl⟩ := h
    exact ⟨c, setPowerMode_ftl.symm ▸ hc, rfl⟩
  | setWriteProtect enable =>
    cases hexec
    exact h

/-- A run leads to the sectors that its calls and answers tell. -/
theorem run_holds (h : s.Holds fun _ => none) (hrun : machine.Run Conforms s tr s')
    (hgood : ∀ x ∈ tr, x.1.IsWrite → x.2.status? = some .good) : s'.Holds (sectors tr) := by
  induction hrun with
  | nil => exact h
  | snoc _ hconforms hstep ih =>
    obtain ⟨fuel, hexec⟩ := hstep
    rw [sectors, List.foldl_append]
    exact (ih fun x hx => hgood x (List.mem_append_left _ hx)).step hconforms hexec
      (hgood _ (List.mem_append_right _ (List.mem_singleton_self _)))

/-- A Read of sectors that have been written succeeds; it delivers the sectors from the beginning of
    the first page on. -/
theorem Holds.read (h : s.Holds σ) (hop : request.opcode = 0x28) (hwritten : request.Written σ)
    (hlen : request.byteCount ≤ dataLen.toNat) (data : Buffer) :
    ∃ reply s', s.processCmd request response data dataLen fuel = some (reply, s') ∧
      reply.ret = .ok ∧ reply.response.scsiStatus = .good ∧ ∀ k < request.sectors.toNat,
        σ (request.lba.toNat / 8 * 8 + k) = some (sectorIn reply.data k) := by
  obtain ⟨c, hc, rfl⟩ := h
  have hsome : ∀ i ∈ List.range request.lpns, (c (request.lpnAt i)).isSome := by
    intro i hi
    have hi := List.mem_range.1 hi
    rw [lpnAt_eq hi]
    rw [lpns_eq] at hi
    -- A sector of the page is one of those read: the first one, or the one the page begins with.
    by_cases hzero : i = 0
    · have hk := hwritten 0 (by omega)
      rw [unpack, Option.isSome_map] at hk
      rw [hzero]
      exact hk
    · have hk := hwritten ((request.lba.toNat / 8 + i) * 8 - request.lba.toNat) (by omega)
      rw [unpack, Option.isSome_map] at hk
      have hpage : (request.lba.toNat + ((request.lba.toNat / 8 + i) * 8 - request.lba.toNat)) / 8 =
          request.lba.toNat / 8 + i := by omega
      rwa [← hpage]
  obtain ⟨hok, hpages, _⟩ := readLoop_ok hc hsome List.nodup_range data
  rw [processCmd_read hop, handleRead10, if_neg (Nat.not_lt.2 hlen)]
  dsimp only
  rw [if_pos hok]
  refine ⟨_, _, rfl, rfl, rfl, fun k hk => ?_⟩
  have hi : k / 8 < request.lpns := by
    rw [lpns_eq]
    omega
  have hpage := hpages (k / 8) (List.mem_range.2 hi)
  rw [lpnAt_eq hi] at hpage
  have hdiv : (request.lba.toNat / 8 * 8 + k) / 8 = request.lba.toNat / 8 + k / 8 := by omega
  have hmod : (request.lba.toNat / 8 * 8 + k) % 8 = k % 8 := by omega
  rw [unpack]
  show (c ((request.lba.toNat / 8 * 8 + k) / 8)).map _ = _
  rw [hdiv, hpage, Option.map_some]
  show some (sectorOf _ ((request.lba.toNat / 8 * 8 + k) % 8)) = _
  rw [hmod, sectorOf_page (Nat.mod_lt k (by decide : 0 < 8))]
  show some (sectorIn _ (k / 8 * 8 + k % 8)) = _
  rw [Nat.div_add_mod']

/-! ### The law -/

/-- After a run of Writes of whole pages, safe for the FTL, that have all succeeded, a Read of
    sectors that have been written delivers them if and only if they are the same as the sectors
    from the beginning of the first page on; so it does whenever it begins with a page. The page of
    a sector that has not been written cannot be read. -/
theorem sectors_read_back {ftl : Ftl} (hfresh : Ftl.Fresh ftl)
    (hrun : machine.Run Conforms (load ftl) tr s)
    (hgood : ∀ x ∈ tr, x.1.IsWrite → x.2.status? = some .good) :
    (∀ request : UfsRequest, request.opcode = 0x28 → request.Written (sectors tr) →
      (s.Serves (sectors tr) request ↔ ∀ k < request.sectors.toNat,
        sectors tr (request.lba.toNat / 8 * 8 + k) = sectors tr (request.lba.toNat + k))) ∧
    ∀ k buf, sectors tr k = none → (s.ftl.read (k / 8) buf).1 ≠ .ok := by
  have hholds := run_holds ⟨_, hfresh.inv, rfl⟩ hrun hgood
  refine ⟨fun request hop hwritten => ⟨fun hserves k hk => ?_, fun heq => ?_⟩, fun k buf hk => ?_⟩
  · -- Some Read with enough room for the sectors tells what is delivered.
    have hlen : request.byteCount ≤ (UInt32.ofNat request.byteCount).toNat := by
      have := request.sectors.toNat_lt
      rw [UInt32.toNat_ofNat']
      show request.sectors.toNat * 512 ≤ request.sectors.toNat * 512 % 2 ^ 32
      omega
    let response : UfsResponse := ⟨.good, 0, Vector.replicate 18 0⟩
    obtain ⟨reply, s', hp, _, _, hdata⟩ := hserves 0 response (fun _ => 0) _ hlen
    obtain ⟨reply', s'', hp', _, _, hdata'⟩ := hholds.read hop hwritten hlen fun _ => 0
    rw [hp] at hp'
    cases hp'
    rw [hdata k hk, hdata' k hk]
  · intro fuel response data dataLen hlen
    obtain ⟨reply, s', hp, hret, hstatus, hdata⟩ := hholds.read hop hwritten hlen data
    exact ⟨reply, s', hp, hret, hstatus, fun k hk => (heq k hk).symm.trans (hdata k hk)⟩
  · obtain ⟨c, hc, hunpack⟩ := hholds
    rw [← hunpack, unpack, Option.map_eq_none_iff] at hk
    rcases Nat.lt_or_ge (k / 8) totalLpns with hlt | hge
    · rw [(Ftl.read_inv hc hlt buf).1, show c (k / 8) = none from hk]
      exact RetCode.noConfusion
    · rw [Ftl.read, if_neg (not_not.2 hc.started), if_pos hge]
      exact RetCode.noConfusion

/-- A command whose sectors are numbered by the low bytes. -/
def sectorCmd (opcode lba sectors : UInt8) : UfsRequest :=
  ⟨#v[opcode, 0, 0, 0, 0, lba, 0, 0, sectors, 0, 0, 0, 0, 0, 0, 0]⟩

/-- A response to be filled in. -/
def blankResponse : UfsResponse := ⟨.good, 0, Vector.replicate 18 0⟩

/-- The call of a Write of eight sectors. -/
def writeEight (lba : UInt8) : UfsCall :=
  .processCmd (sectorCmd 0x2A lba 8) blankResponse (fun _ => 1) 4096

/-- The answer to it. -/
def writtenEight : UfsAnswer := ⟨.ok, some (blankResponse.setGood, fun _ => 1)⟩

/-- A target is reached by a Write of eight sectors: the page of the first one is written. -/
theorem exists_written_eight (lba : UInt8)
    (hlpn : (sectorCmd 0x2A lba 8).lpnAt 0 < totalLpns) :
    ∃ ftl s, Ftl.Fresh ftl ∧ (load ftl).exec 0 (writeEight lba) = some (writtenEight, s) ∧
      WritesSafe (sectorCmd 0x2A lba 8).lpnAt (fun _ => 1) [0] ftl ∧
      ∃ c, Ftl.Inv ∅ c s.ftl ∧ ∀ l ≠ (sectorCmd 0x2A lba 8).lpnAt 0, c l = none := by
  obtain ⟨ftl, ftl', hfresh, hexec, hsafe⟩ := Ftl.exists_written _ hlpn (Buffer.page (fun _ => 1) 0)
  obtain ⟨⟨ret, ftl₁⟩, hw, hr⟩ := Option.map_eq_some_iff.1 hexec
  cases hr
  refine ⟨ftl, { load ftl with ftl := ftl₁ }, hfresh, ?_, ⟨hsafe, fun _ _ _ => trivial⟩, ?_⟩
  · have hloop : writeLoop 0 (sectorCmd 0x2A lba 8).lpnAt (fun _ => 1) [0] ftl =
        some (.ok, ftl₁) := by
      rw [writeLoop, hw]
      rfl
    have hprotected : ¬ (load ftl).writeProtected = true := Bool.false_ne_true
    have hsectors : (sectorCmd 0x2A lba 8).sectors = 8 := by
      show (0 : UInt8).toUInt16 <<< 8 ||| (8 : UInt8).toUInt16 = 8
      rfl
    have hlen : ¬ (4096 : UInt32).toNat < (sectorCmd 0x2A lba 8).byteCount := by
      rw [UfsRequest.byteCount, hsectors]
      decide
    have hpages : List.range (sectorCmd 0x2A lba 8).lpns = [0] := by
      rw [lpns_eq, hsectors]
      rfl
    rw [writeEight, exec, processCmd_write rfl, handleWrite10, if_neg hprotected, if_neg hlen,
      hpages]
    show ((writeLoop 0 (sectorCmd 0x2A lba 8).lpnAt (fun _ => 1) [0] ftl).map _).map _ = _
    rw [hloop]
    rfl
  · rcases Ftl.write_inv hfresh.inv hsafe 0 (Buffer.page (fun _ => 1) 0) with
      ⟨_, hnone⟩ | ⟨ret, ftl₂, hsome, hinv⟩
    · rw [hw] at hnone
      cases hnone
    · rw [hw] at hsome
      cases hsome
      rw [if_pos rfl] at hinv
      exact ⟨_, hinv, fun l hl => Function.update_of_ne hl _ _⟩

/-- The eight sectors of a page are read back. -/
theorem sectors_read_back_page : ∃ s : Ufs,
    s.Serves (sectors [(writeEight 40, writtenEight)]) (sectorCmd 0x28 40 8) := by
  obtain ⟨ftl, s, hfresh, hexec, hsafe, _⟩ := exists_written_eight 40 (by decide)
  have hrun : machine.Run Conforms (load ftl) [(writeEight 40, writtenEight)] s :=
    .single (fun _ => ⟨Or.inr ⟨⟨5, rfl⟩, ⟨1, rfl⟩⟩, hsafe⟩) ⟨0, hexec⟩
  have hgood : ∀ x ∈ [(writeEight 40, writtenEight)], x.1.IsWrite → x.2.status? = some .good := by
    intro x hx _
    obtain rfl := List.mem_singleton.1 hx
    rfl
  have hwritten : (sectorCmd 0x28 40 8).Written (sectors [(writeEight 40, writtenEight)]) := by
    intro k hk
    show (if 40 ≤ 40 + k ∧ 40 + k < 40 + 8 then some _ else none : Option SectorData).isSome
    rw [if_pos ⟨Nat.le_add_right _ _, Nat.add_lt_add_left hk 40⟩]
    rfl
  exact ⟨s, ((sectors_read_back hfresh hrun hgood).1 _ rfl hwritten).2 fun _ _ => rfl⟩

/-- The last one of eight sectors that do not begin with a page is not read back: its page has not
    been written. -/
theorem not_sectors_read_back : ¬ ∀ (ftl : Ftl) (tr : List (UfsCall × UfsAnswer)) (s : Ufs),
    Ftl.Fresh ftl → machine.Run Machine.anyCall (load ftl) tr s →
    (∀ x ∈ tr, x.1.IsWrite → x.2.status? = some .good) →
    ∀ request : UfsRequest, request.opcode = 0x28 → request.Written (sectors tr) →
      s.Serves (sectors tr) request := by
  intro hback
  obtain ⟨ftl, s, hfresh, hexec, _, c, hinv, hc⟩ := exists_written_eight 1 (by decide)
  have hgood : ∀ x ∈ [(writeEight 1, writtenEight)], x.1.IsWrite → x.2.status? = some .good := by
    intro x hx _
    obtain rfl := List.mem_singleton.1 hx
    rfl
  have hwritten : (sectorCmd 0x28 8 1).Written (sectors [(writeEight 1, writtenEight)]) := by
    intro k hk
    obtain rfl : k = 0 := Nat.lt_one_iff.1 hk
    rfl
  have hrun : machine.Run Machine.anyCall (load ftl) [(writeEight 1, writtenEight)] s :=
    .single trivial ⟨0, hexec⟩
  obtain ⟨reply, s', hp, hret, _⟩ := hback ftl _ s hfresh hrun hgood _ rfl hwritten 0
    blankResponse (fun _ => 1) 512 (by decide)
  -- The Read is one of the page 1, while the Write has been one of the page 0.
  have hread := (Ftl.read_inv hinv (by decide : 1 < totalLpns) (Buffer.page (fun _ => 1) 0)).1
  rw [hc 1 (by decide), if_neg (by decide)] at hread
  have hloop : (readLoop (sectorCmd 0x28 8 1).lpnAt [0] (fun _ => 1) s.ftl).1 = .errNotMapped := by
    rw [readLoop, show (sectorCmd 0x28 8 1).lpnAt 0 = 1 from rfl, if_neg]
    · exact hread
    · rw [hread]
      exact RetCode.noConfusion
  have hnot : (s.handleRead10 (sectorCmd 0x28 8 1) blankResponse (fun _ => 1) 512).1.ret =
      .errNotMapped := by
    rw [handleRead10, if_neg (by decide)]
    dsimp only
    rw [show List.range (sectorCmd 0x28 8 1).lpns = [0] from rfl, hloop,
      if_neg RetCode.noConfusion]
  have hreply : (s.handleRead10 (sectorCmd 0x28 8 1) blankResponse (fun _ => 1) 512).1 = reply :=
    congrArg Prod.fst (Option.some.inj ((processCmd_read rfl).symm.trans hp))
  rw [hreply, hret] at hnot
  exact RetCode.noConfusion hnot

end Ufs

end FtlFirmware
