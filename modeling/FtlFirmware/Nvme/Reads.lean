import FtlFirmware.Ftl.Filling
import FtlFirmware.Nvme.Ranges
import FtlFirmware.Nvme.Sending

/-!
# What a Read delivers

A Read that has completed with success has delivered the blocks that it names (`Faithful`): each of
them is on the device, and the host has got the data that the FTL gives for it, or zeros if it is
not mapped.

The front ends do not look at the answers of the FTL: they fill a page with zeros whenever it
cannot be read, so that an error goes by without notice. What they deliver is right if and only if
the FTL can give all the blocks named (`Readable`).
-/

namespace FtlFirmware

/-! ## The blocks, as the FTL gives them -/

namespace Ftl

variable (s : Ftl) (lpn : ℕ)

/-- The logical page can be given to the host: it is not mapped, or its page can be read and
    corrected. -/
def CanRead : Prop :=
  match s.l2pTable lpn with
  | none => True
  | some ppn => (s.read lpn blankPage).1 = .ok ∧
      (s.nand.readBack (ppnToBlock ppn) (ppnToPage ppn)).1 ≠ .uncorrectable

/-- What is to be given to the host for the logical page: zeros if it is not mapped. -/
def given : PageData :=
  match s.l2pTable lpn with
  | none => blankPage
  | some _ => (s.read lpn blankPage).2.1

variable (buf buf' : PageData)

/-- The buffer handed over makes no difference for a page that can be read. -/
theorem pageRead_buf (n : Nand) (b p : ℕ) : (n.pageRead b p buf).1 = (n.pageRead b p buf').1 ∧
    (n.pageRead b p buf).2.2 = (n.pageRead b p buf').2.2 ∧
      ((n.pageRead b p buf).1 = .ok → (n.pageRead b p buf).2.1 = (n.pageRead b p buf').2.1) := by
  rw [Nand.pageRead, Nand.pageRead]
  by_cases hvalid : ¬ n.isBlockValid b ∨ pagesPerBlock ≤ p
  · rw [if_pos hvalid, if_pos hvalid]
    exact ⟨rfl, rfl, fun h => RetCode.noConfusion h⟩
  rw [if_neg hvalid, if_neg hvalid]
  by_cases hbad : (n.blocks b).state = .bad
  · rw [if_pos hbad, if_pos hbad]
    exact ⟨rfl, rfl, fun h => RetCode.noConfusion h⟩
  rw [if_neg hbad, if_neg hbad]
  by_cases hpage : ¬ (n.blocks b).pageValid p
  · rw [if_pos hpage, if_pos hpage]
    exact ⟨rfl, rfl, fun h => RetCode.noConfusion h⟩
  · rw [if_neg hpage, if_neg hpage]
    exact ⟨rfl, rfl, fun _ => rfl⟩

theorem read_buf : (s.read lpn buf).1 = (s.read lpn buf').1 ∧
    (s.read lpn buf).2.2 = (s.read lpn buf').2.2 ∧
      ((s.read lpn buf).1 = .ok → (s.read lpn buf).2.1 = (s.read lpn buf').2.1) := by
  rw [read, read]
  by_cases hinit : ¬ s.isInitialized
  · rw [if_pos hinit, if_pos hinit]
    exact ⟨rfl, rfl, fun h => RetCode.noConfusion h⟩
  rw [if_neg hinit, if_neg hinit]
  by_cases hlpn : totalLpns ≤ lpn
  · rw [if_pos hlpn, if_pos hlpn]
    exact ⟨rfl, rfl, fun h => RetCode.noConfusion h⟩
  rw [if_neg hlpn, if_neg hlpn]
  cases hl : s.l2pTable lpn with
  | none => exact ⟨rfl, rfl, fun h => RetCode.noConfusion h⟩
  | some ppn =>
    obtain ⟨hret, hnand, hbuf⟩ := pageRead_buf buf buf' s.nand (ppnToBlock ppn) (ppnToPage ppn)
    dsimp only
    rw [← hret, ← hnand]
    by_cases hbad : (s.nand.pageRead (ppnToBlock ppn) (ppnToPage ppn) buf).1 = .errBadBlock
    · rw [if_pos hbad, if_pos hbad]
      exact ⟨rfl, rfl, fun h => RetCode.noConfusion h⟩
    rw [if_neg hbad, if_neg hbad]
    split_ifs
    · exact ⟨rfl, rfl, hbuf⟩
    · exact ⟨rfl, rfl, hbuf⟩

/-- A logical page that is not mapped is not read. -/
theorem read_of_none {s : Ftl} {lpn : ℕ} (h : s.l2pTable lpn = none) :
    (s.read lpn buf).1 ≠ .ok := by
  rw [read, h]
  split_ifs <;> exact RetCode.noConfusion

end Ftl

namespace Nvme

/-- All logical pages in turn are on the device, and the FTL can give them. -/
def Readable (lpn : ℕ → ℕ) : List ℕ → Ftl → Prop
  | [], _ => True
  | i :: is, s => lpn i < totalLpns ∧ s.CanRead (lpn i) ∧
      Readable lpn is (s.read (lpn i) blankPage).2.2

/-- The pages of the data are what the FTL gives for the logical pages, in turn. -/
def Shows (data : Buffer) (lpn : ℕ → ℕ) : List ℕ → Ftl → Prop
  | [], _ => True
  | i :: is, s => data.page i = s.given (lpn i) ∧
      Shows data lpn is (s.read (lpn i) blankPage).2.2

/-! ## Executions -/

/-- The bytes named by a Read. -/
def Command.namedLen (cmd : Command) : ℕ := (cmd.nlbField + 1) * pageSize

/-- The guest has got the data, where the entries of the command have them. -/
def Receives (g g' : Guest) (cmd : Command) (data : Buffer) : Prop :=
  ∃ loc, Located g cmd.dptrPrp1 cmd.dptrPrp2 cmd.namedLen loc ∧
    ∀ k < cmd.namedLen, data k = g'.mem (loc k).1 (loc k).2

/-- The entries of a command locate pages that do not overlap. -/
def Locates (g : Guest) (cmd : Command) : Prop :=
  ∃ loc, Located g cmd.dptrPrp1 cmd.dptrPrp2 cmd.namedLen loc ∧
    Disjoint g cmd.dptrPrp1 cmd.dptrPrp2 cmd.namedLen loc

/-- All PDUs with the data of a Read have been sent, given for each one whether it could be put
    together and sent. The target does not look at the answer. -/
def AllSent (maxh2cdata : UInt32) (cmd : Command) (sendable : ℕ → Bool) : Prop :=
  ∀ k < (c2hChunks (chunkSize maxh2cdata) (readTransferLen cmd) 0).length, sendable k

/-- A Read that a front end has executed, with the FTL before. -/
structure ReadExecution where
  cmd : Command
  status : UInt16
  before : Ftl
  /-- The host has received the data. -/
  receives : Buffer → Prop
  /-- The host has given its memory in such a way that the front end gets at it. -/
  given : Prop

namespace ReadExecution

variable (x : ReadExecution)

/-- The FTL can give the blocks named. -/
def Fits : Prop := Readable (fun i => x.cmd.slba + i) (List.range (x.cmd.nlbField + 1)) x.before

/-- The FTL can give the blocks named, and the host has received them. -/
def Faithful : Prop :=
  x.Fits ∧ ∃ data, x.receives data ∧
    Shows data (fun i => x.cmd.slba + i) (List.range (x.cmd.nlbField + 1)) x.before

end ReadExecution

/-- The front ends execute a Read. -/
inductive ExecutesRead (fuel : ℕ) : ReadExecution → Prop
  | vfio (v : Vfio) (cmd : Command) (cpl : Completion) (v' : Vfio) (hop : cmd.opcode = 0x02)
      (h : v.processIoCommand fuel cmd = some (cpl, v')) :
      ExecutesRead fuel ⟨cmd, cpl.status, v.ftl, Receives v.guest v'.guest cmd,
        Locates v.guest cmd⟩
  | vhost (v : Vhost) (cmd : Command) (qid : ℕ) (cpl : Completion) (v' : Vhost)
      (hop : cmd.opcode = 0x02) (h : v.processIoCommand fuel cmd qid = some (cpl, v')) :
      ExecutesRead fuel ⟨cmd, cpl.status, v.ftl, Receives v.guest v'.guest cmd,
        Locates v.guest cmd ∧ cmd.namedLen ≤ firstPage cmd.dptrPrp1 + pageSize⟩
  | capsule (t : Target) (i : ℕ) (c : Capsule) (sent : List Sent) (t' : Target) (cpl : Completion)
      (maxh2cdata : UInt32) (sendable : ℕ → Bool)
      (hq : (t.conns i).qid ≠ 0) (hop : c.cmd.opcode = 0x02)
      (h : t.handleCapsuleCmd i fuel c = some (sent, t')) (hcpl : .capsuleResp i cpl ∈ sent) :
      ExecutesRead fuel ⟨c.cmd, cpl.status, t.ftl, fun data =>
        .c2hPages i c.cmd.cid ((List.range (c.cmd.nlbField + 1)).map data.page) ∈ sent ∧
          AllSent maxh2cdata c.cmd sendable, AllSent maxh2cdata c.cmd sendable⟩

/-! ## Reading pages -/

variable {lpn lpn' : ℕ → ℕ} {is : List ℕ} {i : ℕ} {s : Ftl} {buf data data' : Buffer}

/-- Reading pages: the next page is set to what can be read, or to zeros. -/
theorem readPages_cons : readPages lpn (i :: is) buf s =
    readPages lpn is (buf.setPage i (if (s.read (lpn i) blankPage).1 = .ok then
      (s.read (lpn i) blankPage).2.1 else blankPage)) (s.read (lpn i) blankPage).2.2 := by
  obtain ⟨hret, hs, hbuf⟩ := s.read_buf (lpn i) (buf.page i) blankPage
  rw [readPages, ← hret, ← hs]
  generalize hr : s.read (lpn i) (buf.page i) = r at *
  obtain ⟨ret, page, s'⟩ := r
  cases ret with
  | ok => rw [if_pos rfl, ← hbuf rfl]
  | _ => rfl

/-- Pages that are not read are left alone. -/
theorem readPages_page (h : i ∉ is) : (readPages lpn is buf s).1.page i = buf.page i := by
  induction is generalizing buf s with
  | nil => rfl
  | cons j is ih =>
    rw [readPages_cons, ih fun hi => h (List.mem_cons_of_mem _ hi),
      setPage_page_of_ne (List.ne_of_not_mem_cons h)]

/-- The pages that have been read are what the FTL gives. -/
theorem readPages_shows (hnodup : is.Nodup) (h : Readable lpn is s) :
    Shows (readPages lpn is buf s).1 lpn is s := by
  induction is generalizing buf s with
  | nil => trivial
  | cons i is ih =>
    obtain ⟨hi, hnodup⟩ := List.nodup_cons.1 hnodup
    obtain ⟨_, hcan, hrest⟩ := h
    rw [readPages_cons]
    refine ⟨?_, ih hnodup hrest⟩
    rw [readPages_page hi, setPage_page]
    rw [Ftl.CanRead] at hcan
    rw [Ftl.given]
    cases hl : s.l2pTable (lpn i) with
    | none => rw [if_neg (Ftl.read_of_none _ hl)]
    | some ppn =>
      rw [hl] at hcan
      rw [if_pos hcan.1]

/-- The logical pages determine what is read. -/
theorem readPages_congr (h : ∀ i ∈ is, lpn i = lpn' i) :
    readPages lpn is buf s = readPages lpn' is buf s := by
  induction is generalizing buf s with
  | nil => rfl
  | cons i is ih =>
    rw [readPages_cons, readPages_cons, h i List.mem_cons_self]
    exact ih fun j hj => h j (List.mem_cons_of_mem _ hj)

/-- Logical pages that can all be given are on the device. -/
theorem Readable.lt (h : Readable lpn is s) (hi : i ∈ is) : lpn i < totalLpns := by
  induction is generalizing s with
  | nil => cases hi
  | cons j is ih =>
    rcases List.mem_cons.1 hi with rfl | hi
    · exact h.1
    · exact ih h.2.2 hi

/-- If the FTL can give the blocks named, the front ends read them. -/
theorem readPages_fits {cmd : Command} (buf : Buffer)
    (h : Readable (fun i => cmd.slba + i) (List.range (cmd.nlbField + 1)) s) :
    cmd.nlb = cmd.nlbField + 1 ∧
      Shows (readPages (lpnAt cmd.cdw1011) (List.range cmd.nlb) buf s).1 (fun i => cmd.slba + i)
        (List.range (cmd.nlbField + 1)) s := by
  have hlast := h.lt (List.mem_range.2 (Nat.lt_succ_self cmd.nlbField))
  have htotal : totalLpns = 22937 := rfl
  have hnlb := cmd.nlb_eq
  rw [if_neg (by omega)] at hnlb
  have hlpn : ∀ i ∈ List.range cmd.nlb, lpnAt cmd.cdw1011 i = cmd.slba + i := by
    intro i hi
    have hi' := List.mem_range.1 hi
    have hslba : cmd.slba % 2 ^ 32 = cmd.slba := Nat.mod_eq_of_lt (by omega)
    rw [Command.lpnAt_eq (by omega) (by omega), hslba]
  refine ⟨hnlb, ?_⟩
  rw [readPages_congr hlpn, hnlb]
  exact readPages_shows List.nodup_range h

/-! ## The front ends -/

/-- The bytes of the Read are those that the front ends transfer, if they count the blocks right. -/
theorem namedLen_eq {cmd : Command} (h : cmd.nlb = cmd.nlbField + 1) :
    cmd.namedLen = cmd.nlb * pageSize := by
  rw [Command.namedLen, h]

/-- The data that a back end reads for a Read. -/
def BlockIo.readData (io : BlockIo) (cmd : Command) : Buffer :=
  (io.readPages cmd).readBuf

/-- A transfer that is answered with success has not failed. -/
theorem ok_of_xfer {ok : Bool} (h : (if ok then scSuccess else scDataXferError) = 0) :
    ok = true := by
  cases ok
  · exact absurd h (by decide)
  · rfl

/-- A Read of vfio-user that has succeeded has transferred the data. -/
theorem Vfio.read_ok {io : BlockIo} {cmd : Command} (h : (Vfio.read io cmd).1 = 0) :
    (backend.prpWriteData cmd.dptrPrp1 cmd.dptrPrp2 (cmd.nlb * pageSize) (io.readData cmd)
      io.guest).1 = true ∧
      (Vfio.read io cmd).2.guest = (backend.prpWriteData cmd.dptrPrp1 cmd.dptrPrp2
        (cmd.nlb * pageSize) (io.readData cmd) io.guest).2 := by
  rw [Vfio.read] at h ⊢
  dsimp only at h ⊢
  by_cases hmax : cmd.nlb * pageSize > maxIoSize
  · rw [if_pos hmax] at h
    exact absurd h (by show ¬ scInternalError = 0; decide)
  rw [if_neg hmax] at h ⊢
  by_cases hprp2 : cmd.nlb * pageSize > pageSize ∧ gpaToHva io.guest cmd.dptrPrp2 = none
  · rw [if_pos hprp2] at h
    exact absurd h (by show ¬ scDataXferError = 0; decide)
  rw [if_neg hprp2] at h ⊢
  have hok : ((io.readPages cmd).prpWriteData backend cmd (cmd.nlb * pageSize)
      (io.readPages cmd).readBuf).1 = true := ok_of_xfer h
  exact ⟨hok, rfl⟩

/-- So has one of vhost-user, as far as it could. -/
theorem Vhost.read_ok {io : BlockIo} {cmd : Command} (h : (Vhost.read io cmd).1 = 0) :
    (Vhost.read io cmd).2.guest = (backend.prpWriteData cmd.dptrPrp1 cmd.dptrPrp2
      (cmd.nlb * pageSize) (io.readData cmd) io.guest).2 := by
  rw [Vhost.read] at h ⊢
  dsimp only at h ⊢
  by_cases hmax : cmd.nlb * pageSize > maxIoSize
  · rw [if_pos hmax] at h
    exact absurd h (by show ¬ (0x0006 : UInt16) = 0; decide)
  · rw [if_neg hmax]
    rfl

/-- A Read on a connection that has succeeded has sent the data. -/
theorem Target.read_sent {t t' : Target} {i fuel : ℕ} {c : Capsule} {sent : List Sent}
    {cpl : Completion} (hq : (t.conns i).qid ≠ 0) (hop : c.cmd.opcode = 0x02)
    (h : t.handleCapsuleCmd i fuel c = some (sent, t')) (hcpl : .capsuleResp i cpl ∈ sent)
    (hs : cpl.status = 0) :
    .c2hPages i c.cmd.cid ((List.range c.cmd.nlb).map (readPages (lpnAt c.cmd.cdw1011)
      (List.range c.cmd.nlb) (fun _ => 0) t.ftl).1.page) ∈ sent := by
  obtain ⟨⟨sent', t₁⟩, hexec, heq⟩ := Option.map_eq_some_iff.1 h
  obtain ⟨rfl, rfl⟩ := Prod.mk.inj heq
  have hne : ∀ op : UInt8, op ≠ 0x02 → c.cmd.opcode ≠ op := fun op hne heq =>
    hne (heq.symm.trans hop)
  rw [executeCapsule] at hexec
  dsimp only at hexec
  rw [if_neg (hne _ (by decide)), if_neg fun hc => hne _ (by decide) hc.1,
    if_neg (hne _ (by decide)), if_neg (hne _ (by decide)), if_neg fun hc => hq hc.2, dispatch,
    if_neg hq, processIoCmd, if_neg (hne _ (by decide)), if_pos (by rw [hop]; decide)] at hexec
  dsimp only [Option.map_some] at hexec
  rw [afterDispatch, if_neg fun hc => hne _ (by decide) hc.1, if_pos hop] at hexec
  by_cases hmax : c.cmd.nlb * pageSize ≤ tcpMaxIoSize
  · rw [if_pos hmax] at hexec
    obtain ⟨rfl, _⟩ := Prod.mk.inj (Option.some.inj hexec)
    exact List.mem_cons_self
  · rw [if_neg hmax] at hexec
    obtain ⟨rfl, _⟩ := Prod.mk.inj (Option.some.inj hexec)
    have hcpl' := List.mem_singleton.1 hcpl
    injection hcpl' with _ hcpl'
    rw [hcpl'] at hs
    have hs' : (0x0006 : UInt16) &&& 0x7FFF = 0 := hs
    exact absurd hs' (by decide)

namespace ExecutesRead

variable {fuel : ℕ} {x : ReadExecution}

/-- A Read that has succeeded has delivered the blocks named, if the FTL can give them and the host
    has given its memory in the way of the front end. -/
theorem faithful (h : ExecutesRead fuel x) (hs : x.status = 0) (hfits : x.Fits) (hgiven : x.given) :
    x.Faithful := by
  refine ⟨hfits, ?_⟩
  cases h with
  | vfio v cmd cpl v' hop h =>
    obtain ⟨loc, hloc, hdisjoint⟩ := hgiven
    obtain ⟨hnlb, hshows⟩ := readPages_fits v.readBuf hfits
    rw [Vfio.processIoCommand, if_pos hop] at h
    obtain ⟨rfl, rfl⟩ := Prod.mk.inj (Option.some.inj h)
    obtain ⟨hok, hguest⟩ := Vfio.read_ok hs
    rw [← namedLen_eq hnlb] at hok hguest
    refine ⟨v.toBlockIo.readData cmd, ⟨loc, hloc, fun k hk => ?_⟩, hshows⟩
    rw [hguest]
    exact (Backend.prpWriteData_located hloc Vfio.sound (Vfio.follows _ _ _) hdisjoint (Or.inl hok)
      k hk).symm
  | vhost v cmd qid cpl v' hop h =>
    obtain ⟨⟨loc, hloc, hdisjoint⟩, htwo⟩ := hgiven
    obtain ⟨hnlb, hshows⟩ := readPages_fits v.readBuf hfits
    rw [Vhost.processIoCommand, if_pos hop] at h
    obtain ⟨rfl, rfl⟩ := Prod.mk.inj (Option.some.inj h)
    have hguest := Vhost.read_ok hs
    rw [← namedLen_eq hnlb] at hguest
    refine ⟨v.toBlockIo.readData cmd, ⟨loc, hloc, fun k hk => ?_⟩, hshows⟩
    rw [hguest]
    exact (Backend.prpWriteData_located hloc Vhost.sound (Vhost.follows htwo) hdisjoint
      (Or.inr Vhost.total) k hk).symm
  | capsule t i c sent t' cpl maxh2cdata sendable hq hop h hcpl =>
    obtain ⟨hnlb, hshows⟩ := readPages_fits (fun _ => 0) hfits
    have hsent := Target.read_sent hq hop h hcpl hs
    rw [hnlb] at hsent hshows
    exact ⟨_, ⟨hsent, hgiven⟩, hshows⟩

end ExecutesRead

/-! ## The blocks of a device with contents -/

section

open Ftl

variable {c : Store}

/-- A device with contents can give all its logical pages, and gives the contents. -/
theorem Inv.canRead (h : Inv ∅ c s) {l : ℕ} (hl : l < totalLpns) :
    s.CanRead l ∧ s.given l = (c l).getD blankPage := by
  obtain ⟨hret, hbuf, _⟩ := read_inv h hl blankPage
  rw [CanRead, given]
  cases hmap : s.l2pTable l with
  | none =>
    rw [h.unmapped l hmap]
    exact ⟨trivial, rfl⟩
  | some ppn =>
    obtain ⟨d, hd, hold⟩ := h.mapped l ppn hmap
    rw [hd] at hret hbuf ⊢
    have hback := Nand.Holds.readBack hold
    refine ⟨⟨hret, ?_⟩, hbuf⟩
    rw [hback]
    exact EccResult.noConfusion

theorem Inv.readable (h : Inv ∅ c s) (hlt : ∀ i ∈ is, lpn i < totalLpns) : Readable lpn is s := by
  induction is generalizing s with
  | nil => trivial
  | cons i is ih =>
    have hi := hlt i List.mem_cons_self
    refine ⟨hi, (Inv.canRead h hi).1, ih (read_inv h hi blankPage).2.2 fun j hj => ?_⟩
    exact hlt j (List.mem_cons_of_mem _ hj)

/-- What is shown of a device with contents are the contents. -/
theorem Shows.contents (h : Inv ∅ c s) (hlt : ∀ i ∈ is, lpn i < totalLpns)
    (hshows : Shows data lpn is s) : ∀ i ∈ is, data.page i = (c (lpn i)).getD blankPage := by
  induction is generalizing s with
  | nil => exact fun i hi => absurd hi List.not_mem_nil
  | cons j is ih =>
    have hj := hlt j List.mem_cons_self
    intro i hi
    rcases List.mem_cons.1 hi with rfl | hi
    · rw [hshows.1, (Inv.canRead h hj).2]
    · exact ih (read_inv h hj blankPage).2.2 (fun k hk => hlt k (List.mem_cons_of_mem _ hk))
        hshows.2 i hi

end

/-! ## The law -/

variable {fuel : ℕ} {x : ReadExecution}

/-- A Read that completes with success has delivered the blocks that it names if and only if the FTL
    can give them: they are on the device, and each of them is either not mapped, or can be read
    and corrected. This is so as long as the host has given its memory in the way of the front end.
    On a device with contents, it is so of all blocks on the device, and the host gets the
    contents. -/
theorem read_faithful (h : ExecutesRead fuel x) (hs : x.status = 0) :
    (x.given → (x.Faithful ↔ x.Fits)) ∧ (x.Faithful → x.Fits) ∧
      ∀ c, Ftl.Inv ∅ c x.before → x.cmd.slba + x.cmd.nlbField < totalLpns → x.Fits ∧
        (x.given → ∃ data, x.receives data ∧ ∀ i ≤ x.cmd.nlbField,
          data.page i = (c (x.cmd.slba + i)).getD blankPage) := by
  refine ⟨fun hgiven => ⟨fun hx => hx.1, fun hfits => h.faithful hs hfits hgiven⟩, fun hx => hx.1,
    fun c hc hlast => ?_⟩
  have hlt : ∀ i ∈ List.range (x.cmd.nlbField + 1), x.cmd.slba + i < totalLpns := by
    intro i hi
    have hi' := List.mem_range.1 hi
    omega
  have hfits : x.Fits := Inv.readable hc hlt
  refine ⟨hfits, fun hgiven => ?_⟩
  obtain ⟨_, data, hreceives, hshows⟩ := h.faithful hs hfits hgiven
  refine ⟨data, hreceives, fun i hi => ?_⟩
  exact Shows.contents hc hlt hshows i (List.mem_range.2 (Nat.lt_succ_of_le hi))

/-- A Read of one block, whose number is given by the low bytes. -/
def readCapsule (cdw10 : UInt32) : Capsule :=
  ⟨{ Command.blank with opcode := 0x02, cdw10 := cdw10 }, none, 0⟩

/-- A Read of two blocks into two pages of a guest. -/
def guestRead : Command :=
  { Command.blank with
    opcode := 0x02, dptrPrp1 := 0x1000, dptrPrp2 := 0x2000, cdw10 := 5, cdw12 := 1 }

/-- A guest with room for them. -/
def roomyGuest : Guest := ⟨[⟨0, 0x10000⟩], fun _ _ => 0⟩

theorem guestRead_located : Located roomyGuest 0x1000 0x2000 8192 fun k => (0, 0x1000 + k) where
  first := ⟨(0, 0x1000), rfl, fun _ _ _ => rfl⟩
  page j hj := by
    obtain rfl : j = 0 := by
      change 4096 + j * 4096 < 8192 at hj
      omega
    have hfirst : firstPage 0x1000 = 0x1000 := rfl
    have hentry : roomyGuest.prpEntry 0x1000 0x2000 8192 (0 + 1) = some 0x2000 := by
      rw [Guest.prpEntry, if_pos (by rw [hfirst, pageSize])]
    refine ⟨0x2000, (0, 0x2000), hentry, rfl, rfl, fun k _ _ => ?_⟩
    rw [hfirst]
    exact Prod.ext rfl (by dsimp only; omega)
  list _ hlong _ := absurd hlong (by decide)

theorem guestRead_locates : Locates roomyGuest guestRead :=
  ⟨_, guestRead_located,
    { inj := fun _ _ h => Nat.add_left_cancel (congrArg Prod.snd h)
      list := fun _ hlong => absurd hlong (by decide) }⟩

/-- The block 5 has been written, and the block 6 has not: a Read of the two delivers the data and
    zeros to the guest. -/
theorem read_faithful_mapped : ∃ x : ReadExecution, ExecutesRead 0 x ∧ x.cmd.slba = 5 ∧
    x.cmd.nlbField = 1 ∧ (x.before.l2pTable 5).isSome ∧ x.Faithful ∧ ∃ data, x.receives data ∧
      data.page 0 = Vector.replicate pageSize 7 ∧ data.page 1 = blankPage := by
  obtain ⟨ftl₀, hon, h⟩ := Ftl.Calm.powerOn (fun _ => 99) (fun _ => by decide) fun _ => none
  obtain ⟨L, ftl, hwrite, h', _, htable⟩ :=
    h.write_ahead Ftl.Layout.ahead_fresh (by decide) (by decide : 5 < totalLpns)
      (Vector.replicate pageSize 7)
  have hsafe : ftl₀.OverwriteSafe 5 := fun _ hl =>
    absurd (hl.symm.trans (congrFun h.table 5)) (Option.some_ne_none _)
  have hinv := (Ftl.write_inv (Ftl.Fresh.inv ⟨_, _, hon⟩) hsafe 0 _).resolve_left fun hnone =>
    absurd (hwrite.symm.trans hnone.2) (Option.some_ne_none _)
  obtain ⟨ret, _, hwrite', hinv⟩ := hinv
  obtain ⟨rfl, rfl⟩ := Prod.mk.inj (Option.some.inj (hwrite.symm.trans hwrite'))
  rw [if_pos rfl] at hinv
  have hread := @ExecutesRead.vfio 0 (Vfio.init (fun _ => 99) ftl roomyGuest) guestRead _ _ rfl rfl
  obtain ⟨hiff, _, hcontents⟩ := read_faithful hread rfl
  have hslba : guestRead.slba = 5 := by decide
  have hnlb : guestRead.nlbField = 1 := by decide
  have hlast : guestRead.slba + guestRead.nlbField < totalLpns := by decide
  obtain ⟨hfits, hdata⟩ := hcontents _ hinv hlast
  obtain ⟨data, hreceives, hpages⟩ := hdata guestRead_locates
  have hmap : ftl.l2pTable 5 = some 0 := by
    rw [h'.table, htable, Function.update_self]
  have hpages : ∀ i ≤ guestRead.nlbField, data.page i = ((Function.update (fun _ => none) 5
      (some (Vector.replicate pageSize 7)) : Store) (guestRead.slba + i)).getD blankPage := hpages
  rw [hslba, hnlb] at hpages
  have hpage₀ : data.page 0 = Vector.replicate pageSize 7 := by
    rw [hpages 0 (by decide), Function.update_self]
    rfl
  have hpage₁ : data.page 1 = blankPage := by
    rw [hpages 1 (by decide), Function.update_of_ne (by decide)]
    rfl
  exact ⟨_, hread, hslba, hnlb, Option.isSome_iff_exists.2 ⟨_, hmap⟩,
    (hiff guestRead_locates).2 hfits, data, hreceives, hpage₀, hpage₁⟩

/-- A Read beyond the end of the device is answered with zeros and with success. -/
theorem not_read_faithful : ¬ ∀ (fuel : ℕ) (x : ReadExecution), ExecutesRead fuel x →
    x.status = 0 → x.given → x.Faithful := by
  intro hlaw
  have h := @ExecutesRead.capsule 0 ioTarget 0 (readCapsule 22937) _ _ _ 0 (fun _ => true)
    (by decide) rfl rfl (List.mem_cons_of_mem _ (List.mem_singleton.2 rfl))
  have hfits := (hlaw 0 _ h rfl fun _ _ => rfl).1
  exact absurd (hfits.lt (List.mem_range.2 (Nat.lt_succ_self _))) (by decide)

end Nvme

end FtlFirmware
