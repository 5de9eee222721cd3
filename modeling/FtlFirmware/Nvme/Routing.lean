import FtlFirmware.Nvme.Queues

/-!
# The routing of completions

The books of a guest (`Books`) say which queues exist, and how many commands have been taken from a
submission queue, and completions written to a completion queue, since it was created. They follow
from what the guest has asked for (`Books.next`).

Every command that the back end executes has been taken from the next entry of a submission queue
that exists, and is completed in the next entry of the completion queue that was named when the
submission queue was created (`queues_routed`), as long as

* that completion queue is the one of the same number: the back end has one row for both;
* the address of the completion is translated;
* the controller is not enabled again while it is enabled, which resets the admin queue.

A submission queue that names another completion queue has its commands completed in the wrong one
(`not_queues_routed`).
-/

namespace FtlFirmware

namespace Nvme

/-! ## What a command leaves alone -/

/-- What holds of every copy holds of a transfer. -/
theorem Backend.prpPages_preserves {σ : Type} {P : σ → Prop} {b : Backend} {guest : σ → Guest}
    {copy : Hva → ℕ → ℕ → σ → σ} {prp1 prp2 : UInt64} {len n : ℕ} {addr : UInt64}
    {offset pages : ℕ} {s : σ} (hcopy : ∀ h offset chunk s, P s → P (copy h offset chunk s))
    (h : P s) : P (b.prpPages guest copy prp1 prp2 len n addr offset pages s).2 := by
  induction n generalizing addr offset pages s with
  | zero => exact h
  | succ n ih =>
    rw [prpPages]
    split
    · exact h
    · dsimp only
      split
      · exact h
      · split
        · exact hcopy _ _ _ _ h
        · split
          · exact hcopy _ _ _ _ h
          · exact ih (hcopy _ _ _ _ h)
          · split
            · exact hcopy _ _ _ _ h
            · exact ih (hcopy _ _ _ _ h)

theorem Backend.prpWriteData_regions (b : Backend) (prp1 prp2 : UInt64) (len : ℕ) (buf : Buffer)
    (g : Guest) : (b.prpWriteData prp1 prp2 len buf g).2.regions = g.regions :=
  prpPages_preserves (P := fun g' : Guest => g'.regions = g.regions) (fun _ _ _ _ h => h) rfl

theorem Guest.write_bytesAt (g : Guest) (h : Hva) {len k : ℕ} (data : Buffer) (hk : k < len) :
    (g.write h len data).bytesAt h k = data k := by
  rw [bytesAt, write]
  dsimp only
  rw [Function.update_self, Buffer.store, if_pos ⟨Nat.le_add_right _ _, Nat.add_lt_add_left hk _⟩,
    Nat.add_sub_cancel_left]

/-- The translation depends on the regions. -/
theorem Vfio.gpaToHva_congr {g g' : Guest} (h : g'.regions = g.regions) (gpa : UInt64) :
    gpaToHva g' gpa = gpaToHva g gpa := by
  rw [gpaToHva, gpaToHva, Guest.locate, Guest.locate, h]

/-- The phase of a completion is that of its queue. -/
theorem VfioQueue.completion_phase (q : VfioQueue) (cpl : Completion) :
    (q.completion cpl).status &&& 1 = 1 ↔ q.cqPhase = true := by
  have hset : (cpl.status ||| 1) &&& 1 = 1 := by
    apply UInt16.eq_of_toBitVec_eq
    ext i hi
    simp
    grind
  have hclear : (cpl.status &&& ~~~1) &&& 1 = 0 := by
    rw [UInt16.and_assoc]
    simp
  rw [completion]
  cases q.cqPhase with
  | false =>
    simp only [Bool.false_eq_true, if_false, hclear, iff_false]
    simp
  | true => simp only [if_true, hset]

namespace Ctrl

/-- An admin command leaves the registers alone. -/
theorem processAdminCmd_regs (c : Ctrl) (cmd : Command) :
    (c.processAdminCmd cmd).2.regs = c.regs := by
  have heffect := c.processAdminCmd_effect cmd
  generalize (c.processAdminCmd cmd).2 = c' at heffect ⊢
  cases heffect <;> rfl

theorem frontAdminCmd_cid (c : Ctrl) (cmd : Command) : (c.frontAdminCmd cmd).1.cid = cmd.cid := by
  have hhandled := c.processAdminCmd_handled cmd
  rw [frontAdminCmd]
  generalize c.processAdminCmd cmd = r at hhandled
  cases hhandled with
  | suspended _ _ hcid => exact hcid
  | answered _ hcpl => exact hcpl.cid

theorem sqDoorbell_regs {c c' : Ctrl} {qid : ℕ} {value : UInt32}
    (h : c.sqDoorbell qid value = some c') : c'.regs = c.regs := by
  rw [sqDoorbell] at h
  split at h
  all_goals
    obtain ⟨_, _, rfl⟩ := Option.map_eq_some_iff.1 h
    rfl

theorem cqDoorbell_regs {c c' : Ctrl} {qid : ℕ} {value : UInt32}
    (h : c.cqDoorbell qid value = some c') : c'.regs = c.regs := by
  rw [cqDoorbell] at h
  split at h
  all_goals
    obtain ⟨_, _, rfl⟩ := Option.map_eq_some_iff.1 h
    rfl

end Ctrl

namespace Vfio

variable {v v' : Vfio} {info : Ctrl → Command → Buffer} {fuel qid : ℕ} {cmd : Command}
  {cpl : Completion}

/-- What a command leaves alone: all queues but for those that an admin command creates or deletes,
    the registers, and the regions. Its completion has its identifier. -/
structure Processed (v : Vfio) (qid : ℕ) (cmd : Command) (cpl : Completion) (v' : Vfio) : Prop where
  queues : v'.queues = if qid = 0 then (v.updateQueue cmd).queues else v.queues
  regs : v'.ctrl.regs = v.ctrl.regs
  regions : v'.guest.regions = v.guest.regions
  cid : cpl.cid = cmd.cid

theorem processAdminCommand_processed (v : Vfio) (info : Ctrl → Command → Buffer) (cmd : Command) :
    Processed v 0 cmd (v.processAdminCommand info cmd).1 (v.processAdminCommand info cmd).2 := by
  have hsame (h : cmd.opcode = 0x06 ∨ cmd.opcode = 0x02) :
      (v.updateQueue cmd).queues = v.queues := by
    rw [updateQueue]
    rcases h with h | h <;> simp [h]
  unfold processAdminCommand
  split_ifs with hid hlog
  · exact ⟨(hsame (.inl hid)).symm, rfl, Backend.prpWriteData_regions _ _ _ _ _ _, rfl⟩
  · exact ⟨(hsame (.inr hlog)).symm, rfl, Backend.prpWriteData_regions _ _ _ _ _ _, rfl⟩
  · have hctrl : (v.updateQueue cmd).ctrl = v.ctrl ∧ (v.updateQueue cmd).guest = v.guest := by
      rw [updateQueue]
      split_ifs
      all_goals exact ⟨rfl, rfl⟩
    refine ⟨rfl, ?_, congrArg _ hctrl.2, Ctrl.frontAdminCmd_cid _ _⟩
    exact (Ctrl.processAdminCmd_regs _ _).trans (congrArg _ hctrl.1)

/-- An I/O command leaves the regions alone. -/
theorem processIoCommand_processed (h : v.processIoCommand fuel cmd = some (cpl, v'))
    (hqid : qid ≠ 0) : Processed v qid cmd cpl v' := by
  -- The commands of the FTL, whose fuel may not be enough.
  have hmap {α : Type} {r : Option α} {f : α → Completion × Vfio}
      (hf : ∀ a, r = some a → Processed v qid cmd (f a).1 (f a).2)
      (hr : r.map f = some (cpl, v')) : Processed v qid cmd cpl v' := by
    obtain ⟨a, ha, heq⟩ := Option.map_eq_some_iff.1 hr
    have := hf a ha
    rwa [heq] at this
  have hanswer {r : UInt16 × BlockIo} (hregions : r.2.guest.regions = v.guest.regions) :
      Processed v qid cmd { Completion.blank with cid := cmd.cid, status := r.1 }
        { v with toBlockIo := r.2 } :=
    ⟨(if_neg hqid).symm, rfl, hregions, rfl⟩
  rw [processIoCommand] at h
  split_ifs at h
  · obtain ⟨rfl, rfl⟩ := Prod.mk.inj (Option.some.inj h)
    refine hanswer ?_
    rw [read]
    dsimp only
    split_ifs
    all_goals first | rfl | exact Backend.prpWriteData_regions _ _ _ _ _ _
  · refine hmap (fun r hr => hanswer ?_) h
    rw [BlockIo.write] at hr
    dsimp only at hr
    split_ifs at hr
    · exact (Option.some.inj hr) ▸ rfl
    · exact (Option.some.inj hr) ▸ rfl
    · obtain ⟨w, _, rfl⟩ := Option.map_eq_some_iff.1 hr
      rfl
  · refine hmap (fun r hr => hanswer ?_) h
    obtain ⟨w, _, rfl⟩ := Option.map_eq_some_iff.1 hr
    rfl
  · refine hmap (fun r hr => hanswer ?_) h
    rw [BlockIo.datasetMgmt] at hr
    dsimp only at hr
    split_ifs at hr
    · exact (Option.some.inj hr) ▸ rfl
    · exact (Option.some.inj hr) ▸ rfl
    · obtain ⟨w, _, rfl⟩ := Option.map_eq_some_iff.1 hr
      rfl
  · exact hmap (fun r hr => ⟨(if_neg hqid).symm, rfl, rfl, (Ctrl.processIoCmd_answers hr).cid⟩) h

theorem processNvmeCommand_processed
    (h : v.processNvmeCommand fuel info cmd qid = some (cpl, v')) : Processed v qid cmd cpl v' := by
  rw [processNvmeCommand] at h
  split_ifs at h with hqid
  · have hadmin := processAdminCommand_processed v info cmd
    rwa [Option.some.inj h, ← hqid] at hadmin
  · exact processIoCommand_processed h hqid

end Vfio

/-! ## The books -/

/-- A submission queue: where its entries are, the completion queue named when it was created, and
    the number of commands taken from it. -/
structure SqBook where
  base : UInt64
  size : ℕ
  cqid : ℕ
  fetched : ℕ

/-- A completion queue: where its entries are, and the number of completions written to it. -/
structure CqBook where
  base : UInt64
  size : ℕ
  posted : ℕ

/-- The registers that the guest has written, and the queues that exist. -/
structure Books where
  regs : Regs
  sqs : ℕ → Option SqBook
  cqs : ℕ → Option CqBook

/-- The number of entries of the queue that a command creates. -/
def Command.entries (cmd : Command) : ℕ := (cmd.cdw10 >>> 16 &&& 0xFFFF).toNat + 1

/-- The registers after the guest has written one of them. -/
def Regs.write (regs : Regs) (offset : ℕ) (value : UInt32) : Regs :=
  let low : UInt64 := 0xFFFFFFFF
  if offset = 0x14 then
    if value &&& 0x01 ≠ 0 then { regs with cc := value, csts := regs.csts ||| 0x01 }
    else { regs with cc := value, csts := regs.csts &&& ~~~0x01 }
  else if offset = 0x24 then { regs with aqa := value }
  else if offset = 0x28 then { regs with asq := (regs.asq &&& ~~~low) ||| value.toUInt64 }
  else if offset = 0x2C then { regs with asq := (regs.asq &&& low) ||| value.toUInt64 <<< 32 }
  else if offset = 0x30 then { regs with acq := (regs.acq &&& ~~~low) ||| value.toUInt64 }
  else if offset = 0x34 then { regs with acq := (regs.acq &&& low) ||| value.toUInt64 <<< 32 }
  else regs

namespace Books

/-- There are no queues at first. -/
def init : Books := ⟨(Ctrl.init fun _ => 0).regs, fun _ => none, fun _ => none⟩

variable (b : Books) (cqid : Command → ℕ)

/-- The admin queue, as the registers have it. -/
def adminSq (regs : Regs) (fetched : ℕ) : SqBook :=
  ⟨regs.asq &&& ~~~0xFFF, (regs.aqa &&& 0xFFFF).toNat + 1, 0, fetched⟩

/-- The completion queue of the admin queue, as the registers have it. -/
def adminCq (regs : Regs) (posted : ℕ) : CqBook :=
  ⟨regs.acq &&& ~~~0xFFF, (regs.aqa >>> 16 &&& 0xFFFF).toNat + 1, posted⟩

/-- The admin queue is created. -/
def configure (regs : Regs) : Books where
  regs := regs
  sqs := Function.update b.sqs 0 (some (adminSq regs 0))
  cqs := Function.update b.cqs 0 (some (adminCq regs 0))

/-- The admin queue starts again. -/
def restart (regs : Regs) : Books where
  regs := regs
  sqs := Function.update b.sqs 0 ((b.sqs 0).map fun sq => { sq with fetched := 0 })
  cqs := Function.update b.cqs 0 ((b.cqs 0).map fun cq => { cq with posted := 0 })

/-- The guest writes a register. The admin queue is created when the controller is enabled, or one
    of its registers is written. -/
def regWrite (offset : ℕ) (value : UInt32) : Books :=
  let regs := b.regs.write offset value
  if offset = 0x14 then
    if value &&& 0x01 ≠ 0 then
      if b.regs.cc &&& 0x01 ≠ 0 then { b with regs } else b.configure regs
    else b.restart regs
  else if offset = 0x24 ∨ offset = 0x28 ∨ offset = 0x2C ∨ offset = 0x30 ∨ offset = 0x34 then
    b.configure regs
  else b

/-- An admin command creates or deletes a queue, if it is one for I/O. -/
def admin (cmd : Command) : Books :=
  let qid := cmd.queueId
  let base := cmd.dptrPrp1 &&& ~~~0xFFF
  if 0 < qid ∧ qid < vfioMaxQueues then
    if cmd.opcode = 0x01 then
      { b with sqs := Function.update b.sqs qid (some ⟨base, cmd.entries, cqid cmd, 0⟩) }
    else if cmd.opcode = 0x05 then
      { b with cqs := Function.update b.cqs qid (some ⟨base, cmd.entries, 0⟩) }
    else if cmd.opcode = 0x00 then { b with sqs := Function.update b.sqs qid none }
    else if cmd.opcode = 0x04 then { b with cqs := Function.update b.cqs qid none }
    else b
  else b

/-- A command of a submission queue has been completed in the completion queue named for it. -/
def count (qid : ℕ) : Books :=
  match b.sqs qid with
  | none => b
  | some sq =>
    { b with
      sqs := Function.update b.sqs qid (some { sq with fetched := sq.fetched + 1 })
      cqs := Function.update b.cqs sq.cqid
        ((b.cqs sq.cqid).map fun cq => { cq with posted := cq.posted + 1 }) }

/-- The books after a step. -/
def next (b : Books) : QueueStep × Option QueueEvent → Books
  | (.regWrite offset value, _) => b.regWrite offset value
  | (_, some e) => (if e.qid = 0 then b.admin cqid e.cmd else b).count e.qid
  | _ => b

end Books

/-- A command that has been executed is the next one of a submission queue that exists. It is
    completed in the completion queue named for it, which also exists: with its identifier and the
    next head of the submission queue, in the next entry, and with the phase of the pass. -/
structure QueueEvent.Routed (e : QueueEvent) (v v' : Vfio) (b : Books) (sq : SqBook) (cq : CqBook) :
    Prop where
  submission : b.sqs e.qid = some sq
  completion : b.cqs sq.cqid = some cq
  slot : e.slot = sq.fetched % sq.size
  fetched : ∃ h, Vfio.gpaToHva v.guest (sq.base + UInt64.ofNat (e.slot * commandSize)) = some h ∧
    e.cmd = (v.guest.bytesAt h).command
  posted : ∃ h cpl,
    let addr := cq.base + UInt64.ofNat (cq.posted % cq.size * completionSize)
    e.posted = some (addr, cpl) ∧ Vfio.gpaToHva v'.guest addr = some h ∧
      (∀ k < completionSize, v'.guest.bytesAt h k = cpl.buffer k) ∧
      cpl.cid = e.cmd.cid ∧ cpl.sqhd = (sq.fetched + 1) % sq.size ∧
      (cpl.status &&& 1 = 1 ↔ cq.posted / cq.size % 2 = 0)

/-! ## The rows follow the books -/

/-- A row has the submission queue of the books. The size is 16 bits wide. -/
structure SqBook.Follows (sq : SqBook) (q : VfioQueue) (cqid : ℕ) : Prop where
  base : q.sqBase = sq.base
  size : q.sqSize = sq.size % 2 ^ 16
  pos : 0 < sq.size
  le : sq.size ≤ 2 ^ 16
  cqid : cqid = sq.cqid
  head : q.sqHead = sq.fetched % sq.size

/-- A row has the completion queue of the books. -/
structure CqBook.Follows (cq : CqBook) (q : VfioQueue) : Prop where
  base : q.cqBase = cq.base
  size : q.cqSize = cq.size % 2 ^ 16
  pos : 0 < cq.size
  le : cq.size ≤ 2 ^ 16
  tail : q.cqTail = cq.posted % cq.size
  phase : q.cqPhase = decide (cq.posted / cq.size % 2 = 0)

namespace VfioQueue

/-- The submission queue of a row. -/
def SqTracked (q : VfioQueue) (cqid : ℕ) : Option SqBook → Prop
  | none => q.sqSize = 0
  | some sq => sq.Follows q cqid

/-- The completion queue of a row. -/
def CqTracked (q : VfioQueue) : Option CqBook → Prop
  | none => q.cqSize = 0
  | some cq => cq.Follows q

variable {q q' : VfioQueue} {cqid : ℕ} {sq : Option SqBook} {cq : Option CqBook}

theorem SqTracked.congr (h : q.SqTracked cqid sq) (hbase : q'.sqBase = q.sqBase)
    (hsize : q'.sqSize = q.sqSize) (hhead : q'.sqHead = q.sqHead) : q'.SqTracked cqid sq := by
  cases sq with
  | none => exact hsize.trans h
  | some sq =>
    exact ⟨hbase.trans h.base, hsize.trans h.size, h.pos, h.le, h.cqid, hhead.trans h.head⟩

theorem CqTracked.congr (h : q.CqTracked cq) (hbase : q'.cqBase = q.cqBase)
    (hsize : q'.cqSize = q.cqSize) (htail : q'.cqTail = q.cqTail)
    (hphase : q'.cqPhase = q.cqPhase) : q'.CqTracked cq := by
  cases cq with
  | none => exact hsize.trans h
  | some cq =>
    exact ⟨hbase.trans h.base, hsize.trans h.size, h.pos, h.le, htail.trans h.tail,
      hphase.trans h.phase⟩

/-- A row of the table, with its submission queue and its completion queue. -/
structure Row (q : VfioQueue) (cqid : ℕ) (sq : Option SqBook) (cq : Option CqBook) : Prop where
  sq : q.SqTracked cqid sq
  cq : q.CqTracked cq

/-- A size that is not zero in 16 bits is the size. -/
theorem size_eq {n m : ℕ} (h : m = n % 2 ^ 16) (hle : n ≤ 2 ^ 16) (hne : m ≠ 0) : m = n := by
  omega

/-- Completing a command. -/
theorem completed_row {sq : SqBook} {cq : CqBook} (hsq : sq.Follows q cqid) (hcq : cq.Follows q)
    (hsqSize : q.sqSize ≠ 0) (hcqSize : q.cqSize ≠ 0) :
    q.completed.Row cqid (some { sq with fetched := sq.fetched + 1 })
      (some { cq with posted := cq.posted + 1 }) := by
  have hsqEq := size_eq hsq.size hsq.le hsqSize
  have hcqEq := size_eq hcq.size hcq.le hcqSize
  have hhead := Nat.mod_lt sq.fetched hsq.pos
  have htail := Nat.mod_lt cq.posted hcq.pos
  refine ⟨⟨hsq.base, hsq.size, hsq.pos, hsq.le, hsq.cqid, ?_⟩,
    ⟨hcq.base, hcq.size, hcq.pos, hcq.le, ?_, ?_⟩⟩
  · show (if q.sqHead + 1 ≥ q.sqSize then 0 else q.sqHead + 1) = (sq.fetched + 1) % sq.size
    rw [hsqEq, hsq.head, next_index hhead, Nat.mod_add_mod]
  · show (if q.cqTail + 1 ≥ q.cqSize then 0 else q.cqTail + 1) = (cq.posted + 1) % cq.size
    rw [hcqEq, hcq.tail, next_index htail, Nat.mod_add_mod]
  · show (if q.cqTail + 1 ≥ q.cqSize then !q.cqPhase else q.cqPhase) =
      decide ((cq.posted + 1) / cq.size % 2 = 0)
    rw [hcqEq, hcq.tail, hcq.phase, Nat.succ_div]
    -- the phase changes when the tail comes back to the first entry
    by_cases hlast : cq.posted % cq.size + 1 ≥ cq.size
    · have hdvd : cq.size ∣ cq.posted + 1 := by
        rw [Nat.dvd_iff_mod_eq_zero, ← Nat.mod_add_mod, show cq.posted % cq.size + 1 = cq.size by omega,
          Nat.mod_self]
      rw [if_pos hlast, if_pos hdvd, ← decide_not, decide_eq_decide]
      omega
    · have hndvd : ¬ cq.size ∣ cq.posted + 1 := by
        rw [Nat.dvd_iff_mod_eq_zero, ← Nat.mod_add_mod, Nat.mod_eq_of_lt (Nat.lt_of_not_le hlast)]
        exact Nat.succ_ne_zero _
      rw [if_neg hlast, if_neg hndvd, Nat.add_zero]

end VfioQueue

/-- The rows of the table follow the books. -/
def Books.Rows (b : Books) (queues : ℕ → VfioQueue) (cqids : ℕ → ℕ) : Prop :=
  ∀ i, (queues i).Row (cqids i) (b.sqs i) (b.cqs i)

namespace Books

variable {b : Books} {queues : ℕ → VfioQueue} {cqids : ℕ → ℕ} {cqid : Command → ℕ}

/-- Changing a row, and the books for it. -/
theorem Rows.update (qid : ℕ) (regs : Regs) {q : VfioQueue} {c : ℕ} {sq : Option SqBook}
    {cq : Option CqBook} (h : b.Rows queues cqids) (hrow : q.Row c sq cq) :
    (Books.mk regs (Function.update b.sqs qid sq) (Function.update b.cqs qid cq)).Rows
      (Function.update queues qid q) (Function.update cqids qid c) := by
  intro i
  dsimp only
  rcases eq_or_ne i qid with rfl | hne
  · rw [Function.update_self, Function.update_self, Function.update_self, Function.update_self]
    exact hrow
  · rw [Function.update_of_ne hne, Function.update_of_ne hne, Function.update_of_ne hne,
      Function.update_of_ne hne]
    exact h i

/-- Changing the submission queue of a row, or the row alone. -/
theorem Rows.updateSq (qid : ℕ) (regs : Regs) {q : VfioQueue} {c : ℕ} {sq : Option SqBook}
    (h : b.Rows queues cqids) (hrow : q.Row c sq (b.cqs qid)) :
    (Books.mk regs (Function.update b.sqs qid sq) b.cqs).Rows
      (Function.update queues qid q) (Function.update cqids qid c) := by
  have hrows := h.update qid regs hrow
  rwa [Function.update_eq_self] at hrows

/-- Changing the completion queue of a row. -/
theorem Rows.updateCq (qid : ℕ) (regs : Regs) {q : VfioQueue} {cq : Option CqBook}
    (h : b.Rows queues cqids) (hrow : q.Row (cqids qid) (b.sqs qid) cq) :
    (Books.mk regs b.sqs (Function.update b.cqs qid cq)).Rows
      (Function.update queues qid q) cqids := by
  have hrows := h.update qid regs hrow
  rwa [Function.update_eq_self, Function.update_eq_self] at hrows

/-- Changing a row, but not what the books have of it. -/
theorem Rows.updateRow (qid : ℕ) {q : VfioQueue} (h : b.Rows queues cqids)
    (hrow : q.Row (cqids qid) (b.sqs qid) (b.cqs qid)) :
    b.Rows (Function.update queues qid q) cqids := by
  have hrows := h.updateSq qid b.regs hrow
  rwa [Function.update_eq_self, Function.update_eq_self] at hrows

theorem entries_pos (cmd : Command) : 0 < cmd.entries := Nat.succ_pos _

theorem entries_le (cmd : Command) : cmd.entries ≤ 2 ^ 16 := by
  have h : (cmd.cdw10 >>> 16 &&& 0xFFFF).toNat ≤ 0xFFFF := by
    rw [UInt32.toNat_and]
    exact Nat.and_le_right
  rw [Command.entries]
  omega

/-- An admin command changes the rows as it changes the books. -/
theorem Rows.admin {v : Vfio} (cmd : Command) (h : b.Rows v.queues cqids) :
    (b.admin cqid cmd).Rows (v.updateQueue cmd).queues
      (if cmd.CreatesSq then Function.update cqids cmd.queueId (cqid cmd) else cqids) := by
  have hrow := h cmd.queueId
  rw [Books.admin, Vfio.updateQueue]
  by_cases hqid : 0 < cmd.queueId ∧ cmd.queueId < vfioMaxQueues
  · rw [if_pos hqid, if_pos hqid]
    by_cases hop : cmd.opcode = 0x01
    · rw [if_pos hop, if_pos hop, if_pos ⟨hop, hqid⟩]
      refine h.updateSq _ _ ⟨⟨rfl, rfl, entries_pos cmd, entries_le cmd, rfl, ?_⟩, ?_⟩
      · exact (Nat.zero_mod _).symm
      · exact hrow.cq.congr rfl rfl rfl rfl
    · have hcreates : ¬ cmd.CreatesSq := fun hcreates => hop hcreates.1
      rw [if_neg hop, if_neg hop, if_neg hcreates]
      split_ifs
      · refine h.updateCq _ _ ⟨hrow.sq.congr rfl rfl rfl,
          ⟨rfl, rfl, entries_pos cmd, entries_le cmd, ?_, ?_⟩⟩
        · exact (Nat.zero_mod _).symm
        · rw [Nat.zero_div]
          rfl
      · have hnone : VfioQueue.SqTracked { v.queues cmd.queueId with sqSize := 0, valid := false }
          (cqids cmd.queueId) none := rfl
        have hrows := h.updateSq cmd.queueId b.regs
          ⟨hnone, hrow.cq.congr rfl rfl rfl rfl⟩
        rwa [Function.update_eq_self] at hrows
      · exact h.updateCq _ _ ⟨hrow.sq.congr rfl rfl rfl, rfl⟩
      · exact h
  · have hcreates : ¬ cmd.CreatesSq := fun hcreates => hqid hcreates.2
    rwa [if_neg hqid, if_neg hqid, if_neg hcreates]

/-- The books after a command of a queue whose number is that of its completion queue. -/
theorem count_eq {qid : ℕ} {sq : SqBook} {cq : CqBook} (hsq : b.sqs qid = some sq)
    (hcq : b.cqs qid = some cq) (hcqid : sq.cqid = qid) :
    b.count qid = ⟨b.regs, Function.update b.sqs qid (some { sq with fetched := sq.fetched + 1 }),
      Function.update b.cqs qid (some { cq with posted := cq.posted + 1 })⟩ := by
  rw [count, hsq]
  dsimp only
  rw [hcqid, hcq, Option.map_some]

/-- A command of a queue whose number is that of its completion queue is completed. -/
theorem Rows.count {qid : ℕ} {sq : SqBook} {cq : CqBook} (h : b.Rows queues cqids)
    (hsq : b.sqs qid = some sq) (hcq : b.cqs qid = some cq) (hcqid : sq.cqid = qid)
    (hsqSize : (queues qid).sqSize ≠ 0) (hcqSize : (queues qid).cqSize ≠ 0) :
    (b.count qid).Rows (Function.update queues qid (queues qid).completed) cqids := by
  have hrow := h qid
  rw [hsq, hcq] at hrow
  have hrows := h.update qid b.regs
    (VfioQueue.completed_row hrow.sq hrow.cq hsqSize hcqSize)
  rw [Function.update_eq_self] at hrows
  rwa [count_eq hsq hcq hcqid]

/-- The admin queue is created as the registers have it. -/
theorem Rows.configure {v : Vfio} (h : b.Rows v.queues cqids) (hzero : cqids 0 = 0) :
    (b.configure v.ctrl.regs).Rows v.updateAdminQueueFromRegs.queues cqids := by
  have hle (value : UInt32) : (value &&& 0xFFFF).toNat + 1 ≤ 2 ^ 16 := by
    have hvalue : (value &&& 0xFFFF).toNat ≤ 0xFFFF := by
      rw [UInt32.toNat_and]
      exact Nat.and_le_right
    omega
  have hsq : (adminSq v.ctrl.regs 0).Follows (v.updateAdminQueueFromRegs.queues 0) (cqids 0) :=
    ⟨rfl, rfl, Nat.succ_pos _, hle _, hzero, (Nat.zero_mod _).symm⟩
  have hphase : true =
      decide ((adminCq v.ctrl.regs 0).posted / (adminCq v.ctrl.regs 0).size % 2 = 0) := by
    rw [adminCq, Nat.zero_div]
    rfl
  have hcq : (adminCq v.ctrl.regs 0).Follows (v.updateAdminQueueFromRegs.queues 0) :=
    ⟨rfl, rfl, Nat.succ_pos _, hle _, (Nat.zero_mod _).symm, hphase⟩
  have hrow : (v.updateAdminQueueFromRegs.queues 0).Row (cqids 0) (some (adminSq v.ctrl.regs 0))
      (some (adminCq v.ctrl.regs 0)) := ⟨hsq, hcq⟩
  have hrows := h.update 0 v.ctrl.regs hrow
  rw [Function.update_eq_self] at hrows
  exact hrows

/-- The admin queue starts again. -/
theorem Rows.restart (h : b.Rows queues cqids) (regs : Regs) :
    (b.restart regs).Rows (Function.update queues 0 (queues 0).rewind) cqids := by
  have hrow := h 0
  have hrow' : (queues 0).rewind.Row (cqids 0) ((b.sqs 0).map fun sq => { sq with fetched := 0 })
      ((b.cqs 0).map fun cq => { cq with posted := 0 }) := by
    refine ⟨?_, ?_⟩
    · cases hsq : b.sqs 0 with
      | none => exact (hsq ▸ hrow.sq : (queues 0).SqTracked (cqids 0) none)
      | some sq =>
        have hfollows : sq.Follows (queues 0) (cqids 0) := by
          have hsq' := hrow.sq
          rwa [hsq] at hsq'
        exact ⟨hfollows.base, hfollows.size, hfollows.pos, hfollows.le, hfollows.cqid,
          (Nat.zero_mod _).symm⟩
    · cases hcq : b.cqs 0 with
      | none => exact (hcq ▸ hrow.cq : (queues 0).CqTracked none)
      | some cq =>
        have hfollows : cq.Follows (queues 0) := by
          have hcq' := hrow.cq
          rwa [hcq] at hcq'
        refine ⟨hfollows.base, hfollows.size, hfollows.pos, hfollows.le, (Nat.zero_mod _).symm, ?_⟩
        rw [Nat.zero_div]
        rfl
  have hrows := h.update 0 regs hrow'
  rwa [Function.update_eq_self] at hrows

/-- An admin command leaves the admin queue alone. -/
theorem admin_zero (b : Books) (cqid : Command → ℕ) (cmd : Command) :
    (b.admin cqid cmd).sqs 0 = b.sqs 0 ∧ (b.admin cqid cmd).cqs 0 = b.cqs 0 ∧
      (b.admin cqid cmd).regs = b.regs := by
  rw [admin]
  split_ifs with hqid
  · exact ⟨Function.update_of_ne hqid.1.ne _ _, rfl, rfl⟩
  · exact ⟨rfl, Function.update_of_ne hqid.1.ne _ _, rfl⟩
  · exact ⟨Function.update_of_ne hqid.1.ne _ _, rfl, rfl⟩
  · exact ⟨rfl, Function.update_of_ne hqid.1.ne _ _, rfl⟩
  · exact ⟨rfl, rfl, rfl⟩
  · exact ⟨rfl, rfl, rfl⟩

end Books

namespace Vfio

/-- The guest writes a register: the admin queue is created, or starts again, or is left alone. -/
inductive RegWritten (v : Vfio) (b : Books) (offset : ℕ) (value : UInt32) : Vfio → Books → Prop
  | configured : RegWritten v b offset value
      (v.setRegs (v.ctrl.regs.write offset value)).updateAdminQueueFromRegs
      (b.configure (b.regs.write offset value))
  | again : offset = 0x14 → value &&& 0x01 ≠ 0 → b.regs.cc &&& 0x01 ≠ 0 → RegWritten v b offset value
      (v.setRegs { v.ctrl.regs with cc := value, csts := v.ctrl.regs.csts ||| 0x01
        }).updateAdminQueueFromRegs
      { b with regs := { b.regs with cc := value, csts := b.regs.csts ||| 0x01 } }
  | disabled : value &&& 0x01 = 0 → RegWritten v b offset value
      ((v.setRegs { v.ctrl.regs with cc := value, csts := v.ctrl.regs.csts &&& ~~~0x01 }).setQueue 0
        (v.queues 0).rewind)
      (b.restart { b.regs with cc := value, csts := b.regs.csts &&& ~~~0x01 })
  | other : RegWritten v b offset value v b

theorem regWritten (v : Vfio) (b : Books) (offset : ℕ) (value : UInt32) :
    RegWritten v b offset value (v.handleNvmeRegWrite offset value) (b.regWrite offset value) := by
  by_cases hcc : offset = 0x14
  · subst hcc
    by_cases hen : value &&& 0x01 ≠ 0
    · rw [handleNvmeRegWrite, Books.regWrite, if_pos rfl, if_pos rfl, if_pos hen, if_pos hen]
      by_cases hon : b.regs.cc &&& 0x01 ≠ 0
      · rw [if_pos hon]
        have hagain := RegWritten.again (v := v) rfl hen hon
        rwa [Regs.write, if_pos rfl, if_pos hen]
      · rw [if_neg hon]
        have hnew : RegWritten v b 0x14 value _ _ := .configured
        rwa [Regs.write, if_pos rfl, if_pos hen] at hnew
    · rw [handleNvmeRegWrite, Books.regWrite, if_pos rfl, if_pos rfl, if_neg hen, if_neg hen,
        Regs.write, if_pos rfl, if_neg hen]
      exact .disabled (not_not.1 hen)
  · by_cases hadmin : offset = 0x24 ∨ offset = 0x28 ∨ offset = 0x2C ∨ offset = 0x30 ∨ offset = 0x34
    · -- one of the registers of the admin queue
      rcases hadmin with rfl | rfl | rfl | rfl | rfl
      all_goals exact .configured
    · obtain ⟨h₁, h₂, h₃, h₄, h₅⟩ : offset ≠ 0x24 ∧ offset ≠ 0x28 ∧ offset ≠ 0x2C ∧
          offset ≠ 0x30 ∧ offset ≠ 0x34 := by
        rwa [not_or, not_or, not_or, not_or] at hadmin
      rw [handleNvmeRegWrite, Books.regWrite, if_neg hcc, if_neg hcc, if_neg hadmin, if_neg h₁,
        if_neg h₂, if_neg h₃, if_neg h₄, if_neg h₅]
      exact .other

end Vfio

/-! ## Runs -/

/-- The admin queue is at its start, as far as its commands and its completions are concerned. -/
def VfioQueue.AtStart (q : VfioQueue) : Prop := q.sqHead = 0 ∧ q.cqTail = 0 ∧ q.cqPhase = true

instance (q : VfioQueue) : Decidable q.AtStart := inferInstanceAs (Decidable (_ ∧ _))

namespace VfioWork

/-- A command is executed when the completion queue named for its queue has the same number, and the
    address of the completion is translated. The controller is not enabled again, unless the admin
    queue is at its start. -/
def Conforms (s : VfioWork) : QueueStep → Prop
  | .regWrite offset value => offset = 0x14 → value &&& 0x01 ≠ 0 →
      s.vfio.ctrl.regs.cc &&& 0x01 ≠ 0 → (s.vfio.queues 0).AtStart
  | .execute => ∀ qid ∈ s.busy, s.cqids qid = qid ∧
      (Vfio.gpaToHva s.vfio.guest (s.vfio.queues qid).cqEntry).isSome
  | _ => True

/-- The back end follows the books. -/
structure Tracks (s : VfioWork) (b : Books) : Prop where
  regs : b.regs = s.vfio.ctrl.regs
  rows : b.Rows s.vfio.queues s.cqids
  admin : b.regs.cc &&& 0x01 ≠ 0 → ∃ fetched posted,
    b.sqs 0 = some (Books.adminSq b.regs fetched) ∧ b.cqs 0 = some (Books.adminCq b.regs posted)
  zero : s.cqids 0 = 0
  busy : ∀ qid ∈ s.busy, (s.vfio.queues qid).sqSize ≠ 0 ∧ (s.vfio.queues qid).cqSize ≠ 0

variable {s s' : VfioWork} {b : Books} {cqid : Command → ℕ} {info : Ctrl → Command → Buffer}
  {fuel : ℕ} {c : QueueStep} {a : Option QueueEvent}

theorem init_tracks (rand : ℕ → ℕ) (ftl : Ftl) (guest : Guest) :
    (init rand ftl guest).Tracks Books.init where
  regs := rfl
  rows _ := ⟨rfl, rfl⟩
  admin h := absurd rfl h
  zero := rfl
  busy _ h := absurd h (by simp [init])

/-- The guest writes a register. -/
theorem Tracks.regWrite (h : s.Tracks b) (hidle : s.busy = none) {offset : ℕ} {value : UInt32}
    (hconf : s.Conforms (.regWrite offset value)) :
    ({ s with vfio := s.vfio.handleNvmeRegWrite offset value } : VfioWork).Tracks
      (b.regWrite offset value) := by
  have hbusy (v : Vfio) : ∀ qid ∈ s.busy, (v.queues qid).sqSize ≠ 0 ∧ (v.queues qid).cqSize ≠ 0 := by
    rw [hidle]
    exact fun _ hmem => absurd hmem (by simp)
  have hwritten := s.vfio.regWritten b offset value
  generalize s.vfio.handleNvmeRegWrite offset value = v at hwritten
  generalize b.regWrite offset value = b' at hwritten
  cases hwritten with
  | configured =>
    have hrows : b.Rows (s.vfio.setRegs (s.vfio.ctrl.regs.write offset value)).queues s.cqids := h.rows
    refine ⟨?_, ?_, fun _ => ⟨0, 0, ?_, ?_⟩, h.zero, hbusy _⟩
    · rw [h.regs]
      rfl
    · rw [h.regs]
      exact hrows.configure h.zero
    · exact Function.update_self (0 : ℕ) (some (Books.adminSq (b.regs.write offset value) 0)) b.sqs
    · exact Function.update_self (0 : ℕ) (some (Books.adminCq (b.regs.write offset value) 0)) b.cqs
  | again hoffset hen hon =>
    -- the admin queue is at its start, so that it does not change
    obtain ⟨hhead, htail, hphase⟩ := hconf hoffset hen (h.regs ▸ hon)
    obtain ⟨fetched, posted, hsq, hcq⟩ := h.admin hon
    have hrow := h.rows 0
    rw [hsq, hcq] at hrow
    have hsqRow : (Books.adminSq b.regs fetched).Follows (s.vfio.queues 0) (s.cqids 0) := hrow.sq
    have hcqRow : (Books.adminCq b.regs posted).Follows (s.vfio.queues 0) := hrow.cq
    refine ⟨?_, ?_, fun _ => ⟨fetched, posted, hsq, hcq⟩, h.zero, hbusy _⟩
    · rw [h.regs]
      rfl
    · refine h.rows.updateRow 0 ?_
      rw [hsq, hcq]
      refine ⟨⟨?_, ?_, hsqRow.pos, hsqRow.le, hsqRow.cqid, ?_⟩,
        ⟨?_, ?_, hcqRow.pos, hcqRow.le, ?_, ?_⟩⟩
      · rw [h.regs]
        rfl
      · rw [h.regs]
        rfl
      · exact hhead.symm.trans hsqRow.head
      · rw [h.regs]
        rfl
      · rw [h.regs]
        rfl
      · exact htail.symm.trans hcqRow.tail
      · exact hphase.symm.trans hcqRow.phase
  | disabled hen =>
    refine ⟨?_, h.rows.restart _, fun hon => absurd hen hon, h.zero, hbusy _⟩
    rw [h.regs]
    rfl
  | other => exact ⟨h.regs, h.rows, h.admin, h.zero, hbusy _⟩

theorem named_zero (s : VfioWork) (cqid : Command → ℕ) (qid : ℕ) (cmd : Command) :
    s.named cqid qid cmd 0 = s.cqids 0 := by
  rw [named]
  split_ifs with hcreates
  · exact Function.update_of_ne hcreates.2.2.1.ne _ _
  · rfl

/-- The books of the commands after an event, before it is counted. -/
theorem Tracks.processed (cqid : Command → ℕ) {qid : ℕ} {cmd : Command} {cpl : Completion}
    {v : Vfio} (h : s.Tracks b) (hproc : Vfio.Processed s.vfio qid cmd cpl v) :
    (if qid = 0 then b.admin cqid cmd else b).Rows v.queues (s.named cqid qid cmd) := by
  rw [hproc.queues, named]
  by_cases hqid : qid = 0
  · rw [if_pos hqid, if_pos hqid]
    simp only [hqid, true_and]
    exact h.rows.admin cmd
  · rw [if_neg hqid, if_neg hqid, if_neg fun hcreates => hqid hcreates.1]
    exact h.rows

/-- The books follow a command whose completion is written. -/
theorem Tracks.counted {qid : ℕ} {cmd : Command} {cpl : Completion} {v : Vfio} {sq : SqBook}
    {cq : CqBook} (h : s.Tracks b) (hbusy : s.busy = some qid)
    (hproc : Vfio.Processed s.vfio qid cmd cpl v) (hqueue : v.queues qid = s.vfio.queues qid)
    (hsq : b.sqs qid = some sq) (hcq : b.cqs qid = some cq) (hsqid : sq.cqid = qid) (haddr : Hva) :
    (VfioWork.mk (v.postCompletion qid haddr cpl) s.busy (s.named cqid qid cmd)).Tracks
      ((if qid = 0 then b.admin cqid cmd else b).count qid) := by
  obtain ⟨hsqs, hcqs, hregs⟩ := b.admin_zero cqid cmd
  obtain ⟨hsqSize, hcqSize⟩ := h.busy qid hbusy
  have hrows := h.processed cqid hproc
  -- An admin command may add a row to the books, but leaves the one of its own queue.
  have hsq' : (if qid = 0 then b.admin cqid cmd else b).sqs qid = some sq := by
    split_ifs with hqid
    · rw [← hsq, hqid, hsqs]
    · exact hsq
  have hcq' : (if qid = 0 then b.admin cqid cmd else b).cqs qid = some cq := by
    split_ifs with hqid
    · rw [← hcq, hqid, hcqs]
    · exact hcq
  have hregs' : (if qid = 0 then b.admin cqid cmd else b).regs = b.regs := by
    split_ifs
    · exact hregs
    · rfl
  have hcount := Books.count_eq hsq' hcq' hsqid
  refine ⟨?_, ?_, fun hon => ?_, (s.named_zero cqid qid cmd).trans h.zero, fun i hi => ?_⟩
  · rw [hcount]
    exact hregs'.trans (h.regs.trans hproc.regs.symm)
  · exact hrows.count hsq' hcq' hsqid (by rwa [hqueue]) (by rwa [hqueue])
  · -- the admin queue is still the one of the registers
    rw [hcount] at hon ⊢
    dsimp only at hon ⊢
    rw [hregs'] at hon ⊢
    obtain ⟨fetched, posted, hadminSq, hadminCq⟩ := h.admin hon
    by_cases hqid : qid = 0
    · subst hqid
      obtain rfl := Option.some.inj (hsq.symm.trans hadminSq)
      obtain rfl := Option.some.inj (hcq.symm.trans hadminCq)
      exact ⟨fetched + 1, posted + 1, Function.update_self _ _ _, Function.update_self _ _ _⟩
    · rw [if_neg hqid, Function.update_of_ne (Ne.symm hqid), Function.update_of_ne (Ne.symm hqid)]
      exact ⟨fetched, posted, hadminSq, hadminCq⟩
  · obtain rfl := Option.some.inj (hbusy.symm.trans hi)
    have hself : (v.postCompletion qid haddr cpl).queues qid = (v.queues qid).completed :=
      Function.update_self _ _ _
    dsimp only
    rw [hself, hqueue]
    exact ⟨hsqSize, hcqSize⟩

/-- A command is executed: it is the next one, and completed where the books have it. -/
theorem Tracks.execute {qid : ℕ} {e : QueueEvent} (h : s.Tracks b) (hbusy : s.busy = some qid)
    (hconf : s.Conforms .execute) (hs' : s.execute cqid fuel info qid = some (e, s')) :
    s'.Tracks (b.next cqid (.execute, some e)) ∧ ∃ sq cq, e.Routed s.vfio s'.vfio b sq cq := by
  obtain ⟨haddr, cpl, v, ht⟩ := taken_of_execute hs'
  have hproc := Vfio.processNvmeCommand_processed ht.executed
  obtain ⟨hcqid, hsome⟩ := hconf qid hbusy
  obtain ⟨hsqSize, hcqSize⟩ := h.busy qid hbusy
  -- the row of the queue is the same after the command
  have hqueue : v.queues qid = s.vfio.queues qid := by
    rw [hproc.queues]
    split_ifs with hqid
    · rw [hqid]
      exact (Vfio.updateQueue_queues _ _).1
    · rfl
  obtain ⟨h', hcqEntry⟩ := Option.isSome_iff_exists.1 hsome
  rw [← Vfio.gpaToHva_congr hproc.regions, ← hqueue] at hcqEntry
  rw [ht.posted hcqEntry] at hs'
  obtain ⟨rfl, rfl⟩ := Prod.mk.inj (Option.some.inj hs')
  -- the queue exists in the books
  have hrow := h.rows qid
  cases hsq : b.sqs qid with
  | none =>
    rw [hsq] at hrow
    exact absurd hrow.sq hsqSize
  | some sq =>
    cases hcq : b.cqs qid with
    | none =>
      rw [hcq] at hrow
      exact absurd hrow.cq hcqSize
    | some cq =>
      rw [hsq, hcq] at hrow
      have hsqRow : sq.Follows (s.vfio.queues qid) (s.cqids qid) := hrow.sq
      have hcqRow : cq.Follows (s.vfio.queues qid) := hrow.cq
      have hsqid : sq.cqid = qid := hsqRow.cqid.symm.trans hcqid
      have hsize := VfioQueue.size_eq hsqRow.size hsqRow.le hsqSize
      have hfetched : (s.vfio.queues qid).sqEntry =
          sq.base + UInt64.ofNat (sq.fetched % sq.size * commandSize) := by
        rw [VfioQueue.sqEntry, hsqRow.base, hsqRow.head]
      have hposted : (v.queues qid).cqEntry =
          cq.base + UInt64.ofNat (cq.posted % cq.size * completionSize) := by
        rw [hqueue, VfioQueue.cqEntry, hcqRow.base, hcqRow.tail]
      refine ⟨h.counted hbusy hproc hqueue hsq hcq hsqid h', sq, cq, hsq, ?_, hsqRow.head, ?_, ?_⟩
      · rwa [hsqid]
      · refine ⟨haddr, ?_, rfl⟩
        dsimp only
        rw [hsqRow.head, ← hfetched]
        exact ht.entry
      · refine ⟨h', (v.queues qid).completion cpl, ?_, ?_, fun k hk => ?_, hproc.cid, ?_, ?_⟩
        · rw [hposted]
        · rw [← hposted]
          exact hcqEntry
        · exact Guest.write_bytesAt _ _ _ hk
        · show ((v.queues qid).sqHead + 1) % (v.queues qid).sqSize = (sq.fetched + 1) % sq.size
          rw [hqueue, hsize, hsqRow.head, Nat.mod_add_mod]
        · rw [VfioQueue.completion_phase, hqueue, hcqRow.phase, decide_eq_true_iff]

/-- The guest writes the doorbell of a submission queue. -/
theorem Tracks.ring {qid : ℕ} {value : UInt32} (h : s.Tracks b)
    (hs' : s.ring qid value = some s') : s'.Tracks b := by
  obtain ⟨ctrl, hctrl, rfl⟩ := Option.map_eq_some_iff.1 hs'
  have hrow := h.rows qid
  refine ⟨h.regs.trans (Ctrl.sqDoorbell_regs hctrl).symm, ?_, h.admin, h.zero, fun i hi => ?_⟩
  · exact h.rows.updateRow qid ⟨hrow.sq.congr rfl rfl rfl, hrow.cq.congr rfl rfl rfl rfl⟩
  · -- the back end executes the commands of a queue only if there is one
    dsimp only at hi
    split_ifs at hi with hworking
    · obtain rfl := Option.some.inj hi
      have hself : (s.vfio.setQueue qid { s.vfio.queues qid with sqTail := (value &&& 0xFFFF).toNat }
        ).queues qid = { s.vfio.queues qid with sqTail := (value &&& 0xFFFF).toNat } :=
          Function.update_self _ _ _
      dsimp only
      rw [hself]
      rw [VfioQueue.Working, not_or, not_or] at hworking
      exact hworking.2
    · cases hi

/-- The guest writes another doorbell. -/
theorem Tracks.doorbell {v : Vfio} {offset : ℕ} {value : UInt32} (h : s.Tracks b)
    (hidle : s.busy = none) (hsq : ¬ (offset % 8 = 0 ∧ offset / 8 % 2 ^ 16 < vfioMaxQueues))
    (hv : s.vfio.handleDoorbellWrite fuel info offset value = some v) :
    ({ s with vfio := v } : VfioWork).Tracks b := by
  have hbusy : ∀ qid ∈ s.busy, (v.queues qid).sqSize ≠ 0 ∧ (v.queues qid).cqSize ≠ 0 := by
    rw [hidle]
    exact fun _ hmem => absurd hmem (by simp)
  rw [Vfio.handleDoorbellWrite] at hv
  dsimp only at hv
  split_ifs at hv with hmax hkind
  · obtain rfl := Option.some.inj hv
    exact ⟨h.regs, h.rows, h.admin, h.zero, hbusy⟩
  · exact absurd ⟨hkind, Nat.lt_of_not_le hmax⟩ hsq
  · obtain ⟨ctrl, hctrl, rfl⟩ := Option.map_eq_some_iff.1 hv
    have hrow := h.rows (offset / 8 % 2 ^ 16)
    refine ⟨h.regs.trans (Ctrl.cqDoorbell_regs hctrl).symm, ?_, h.admin, h.zero, hbusy⟩
    exact h.rows.updateRow _ ⟨hrow.sq.congr rfl rfl rfl, hrow.cq.congr rfl rfl rfl rfl⟩

/-- Every step that conforms keeps the back end on the books, and routes the command that it
    executes. -/
theorem Tracks.exec (h : s.Tracks b) (hconf : s.Conforms c)
    (hs' : s.exec cqid fuel info c = some (a, s')) :
    s'.Tracks (b.next cqid (c, a)) ∧
      ∀ e ∈ a, ∃ sq cq, e.Routed s.vfio s'.vfio b sq cq := by
  cases c with
  | store mem =>
    obtain ⟨rfl, rfl⟩ := Prod.mk.inj (Option.some.inj hs')
    exact ⟨⟨h.regs, h.rows, h.admin, h.zero, h.busy⟩, fun _ hmem => absurd hmem (by simp)⟩
  | regWrite offset value =>
    rw [VfioWork.exec] at hs'
    split_ifs at hs' with hidle
    obtain ⟨rfl, rfl⟩ := Prod.mk.inj (Option.some.inj hs')
    exact ⟨h.regWrite hidle hconf, fun _ hmem => absurd hmem (by simp)⟩
  | doorbell offset value =>
    rw [VfioWork.exec] at hs'
    split_ifs at hs' with hidle hsq
    · obtain ⟨s₁, hs₁, heq⟩ := Option.map_eq_some_iff.1 hs'
      obtain ⟨rfl, rfl⟩ := Prod.mk.inj heq
      exact ⟨h.ring hs₁, fun _ hmem => absurd hmem (by simp)⟩
    · obtain ⟨v, hv, heq⟩ := Option.map_eq_some_iff.1 hs'
      obtain ⟨rfl, rfl⟩ := Prod.mk.inj heq
      exact ⟨h.doorbell (not_not.1 hidle) hsq hv, fun _ hmem => absurd hmem (by simp)⟩
  | execute =>
    obtain ⟨qid, hbusy, hmap⟩ := Option.bind_eq_some_iff.1 hs'
    obtain ⟨⟨e, s₁⟩, hexec, heq⟩ := Option.map_eq_some_iff.1 hmap
    obtain ⟨rfl, rfl⟩ := Prod.mk.inj heq
    obtain ⟨htracks, hrouted⟩ := h.execute hbusy hconf hexec
    exact ⟨htracks, fun _ hmem => Option.some.inj hmem ▸ hrouted⟩
  | leave =>
    obtain ⟨qid, hbusy, hexec⟩ := Option.bind_eq_some_iff.1 hs'
    dsimp only at hexec
    split_ifs at hexec
    obtain ⟨rfl, rfl⟩ := Prod.mk.inj (Option.some.inj hexec)
    exact ⟨⟨h.regs, h.rows, h.admin, h.zero, fun _ hmem => absurd hmem (by simp)⟩,
      fun _ hmem => absurd hmem (by simp)⟩

end VfioWork

/-- In every run, each command that is executed is the next one of its submission queue, and is
    completed in the next entry of the completion queue that was named when the submission queue was
    created. Queues that do not exist have no commands executed. -/
theorem queues_routed {cqid : Command → ℕ} {info : Ctrl → Command → Buffer} {rand : ℕ → ℕ} {ftl : Ftl}
    {guest : Guest} {tr : List (QueueStep × Option QueueEvent)} {s s' : VfioWork} {c : QueueStep}
    {e : QueueEvent}
    (hrun : (queueMachine cqid info).Run VfioWork.Conforms (VfioWork.init rand ftl guest) tr s)
    (hconf : s.Conforms c) (hstep : (queueMachine cqid info).step s c (some e) s') :
    ∃ sq cq, e.Routed s.vfio s'.vfio (tr.foldl (Books.next cqid) Books.init) sq cq := by
  have htracks : s.Tracks (tr.foldl (Books.next cqid) Books.init) :=
    hrun.simulation (VfioWork.init_tracks rand ftl guest)
      fun _ _ _ _ _ h hconf hstep => hstep.elim fun _ hexec => (h.exec hconf hexec).1
  obtain ⟨fuel, hexec⟩ := hstep
  exact (htracks.exec hconf hexec).2 e rfl

/-! ## A queue that names another completion queue -/

namespace VfioWork

/-- Takes steps one after another, as long as they are allowed. -/
def play (allowed : VfioWork → QueueStep → Prop) [∀ s c, Decidable (allowed s c)]
    (cqid : Command → ℕ) (info : Ctrl → Command → Buffer) (fuel : ℕ) :
    List QueueStep → VfioWork → Option (List (QueueStep × Option QueueEvent) × VfioWork)
  | [], s => some ([], s)
  | c :: cs, s =>
    if allowed s c then
      (s.exec cqid fuel info c).bind fun r =>
        (play allowed cqid info fuel cs r.2).map fun p => ((c, r.1) :: p.1, p.2)
    else none

theorem play_run {allowed : VfioWork → QueueStep → Prop} [∀ s c, Decidable (allowed s c)]
    {cqid : Command → ℕ} {info : Ctrl → Command → Buffer} {fuel : ℕ} {cs : List QueueStep}
    {s s' : VfioWork} {tr : List (QueueStep × Option QueueEvent)}
    (h : play allowed cqid info fuel cs s = some (tr, s')) :
    (queueMachine cqid info).Run allowed s tr s' := by
  induction cs generalizing s tr with
  | nil =>
    obtain ⟨rfl, rfl⟩ := Prod.mk.inj (Option.some.inj h)
    exact .nil
  | cons c cs ih =>
    rw [play] at h
    split_ifs at h with hallowed
    obtain ⟨r, hr, hmap⟩ := Option.bind_eq_some_iff.1 h
    obtain ⟨p, hp, heq⟩ := Option.map_eq_some_iff.1 hmap
    obtain ⟨rfl, rfl⟩ := Prod.mk.inj heq
    exact (Machine.Run.single (m := queueMachine cqid info) hallowed ⟨fuel, hr⟩).append (ih hp)

instance (s : VfioWork) : (c : QueueStep) → Decidable (s.Conforms c)
  | .regWrite _ _ => inferInstanceAs (Decidable (_ → _ → _ → _))
  | .execute => inferInstanceAs (Decidable (∀ qid ∈ s.busy, _))
  | .store _ | .doorbell _ _ | .leave => isTrue trivial

instance (s : VfioWork) (c : QueueStep) : Decidable (Machine.anyCall s c) := isTrue trivial

end VfioWork

/-- The CQID of a command that creates a submission queue: the upper half of the double word 11. -/
def Command.cqidHigh (cmd : Command) : ℕ := (cmd.cdw11 >>> 16).toNat

/-- The completion queue that the controller takes from the same command (`admin_create_iosq`). -/
def Command.cqidLow (cmd : Command) : ℕ := (cmd.cdw11 &&& 0xFFFF).toNat

/-- A guest whose admin queue has three commands. They create the completion queues 1 and 2 at
    0x3000 and 0x4000, and the submission queue 1 at 0x5000, for which the completion queue `cqid`
    is named. -/
private def creating (cqid : UInt8) : Guest where
  regions := [⟨0x1000, 0x8000⟩]
  mem _ k :=
    bufferOf ([0x05] ++ .replicate 24 0 ++ [0x30] ++ .replicate 14 0 ++ [1, 0, 3] ++ .replicate 21 0 ++
      [0x05] ++ .replicate 24 0 ++ [0x40] ++ .replicate 14 0 ++ [2, 0, 3] ++ .replicate 21 0 ++
      [0x01] ++ .replicate 24 0 ++ [0x50] ++ .replicate 14 0 ++ [1, 0, 3, 0, cqid, 0, cqid]) k

/-- The guest gives the admin queues, has its commands executed, and moves the tail of the
    submission queue 1. -/
private def creatingSteps : List QueueStep :=
  [.regWrite 0x24 0x00030003, .regWrite 0x28 0x1000, .regWrite 0x30 0x2000, .regWrite 0x14 1,
    .doorbell 0 3, .execute, .execute, .execute, .leave, .doorbell 8 1]

/-- The back end when the guest connects. -/
private def creatingStart (cqid : UInt8) : VfioWork :=
  VfioWork.init (fun _ => 0) (Ftl.powerOn (fun _ => 0) fun _ => none).2 (creating cqid)

/-- A command of the submission queue 1, for which the completion queue 1 is named. -/
theorem queues_routed_one : ∃ tr s s' e,
    (queueMachine Command.cqidHigh fun _ _ _ => 0).Run VfioWork.Conforms (creatingStart 1) tr s ∧
      (queueMachine Command.cqidHigh fun _ _ _ => 0).step s .execute (some e) s' ∧
      e.qid = 1 ∧ e.posted.map Prod.fst = some 0x3000 ∧
      ∃ sq cq, e.Routed s.vfio s'.vfio (tr.foldl (Books.next Command.cqidHigh) Books.init) sq cq := by
  have heq : ((VfioWork.play VfioWork.Conforms Command.cqidHigh (fun _ _ _ => 0) 5 creatingSteps
      (creatingStart 1)).bind fun r =>
        if r.2.Conforms .execute then
          (r.2.exec Command.cqidHigh 5 (fun _ _ _ => 0) .execute).map fun p =>
            (p.1.map fun e => (e.qid, e.posted.map Prod.fst))
        else none) = some (some (1, some 0x3000)) := rfl
  obtain ⟨⟨tr, s⟩, hplay, hnext⟩ := Option.bind_eq_some_iff.1 heq
  split_ifs at hnext with hconf
  obtain ⟨⟨a, s'⟩, hexec, hmap⟩ := Option.map_eq_some_iff.1 hnext
  obtain ⟨e, rfl, he⟩ := Option.map_eq_some_iff.1 hmap
  obtain ⟨hqid, hposted⟩ := Prod.mk.inj he
  have hrun := VfioWork.play_run hplay
  exact ⟨tr, s, s', e, hrun, ⟨5, hexec⟩, hqid, hposted, queues_routed hrun hconf ⟨5, hexec⟩⟩

/-- A command of the submission queue 1, for which the completion queue 2 is named, is completed in
    the completion queue 1. -/
private theorem misrouted {cqid : Command → ℕ} (heq : ((VfioWork.play Machine.anyCall cqid
    (fun _ _ _ => 0) 5 creatingSteps (creatingStart 2)).bind fun r =>
      (r.2.exec cqid 5 (fun _ _ _ => 0) .execute).map fun p => (p.1.map fun e =>
        (e.posted.map Prod.fst, (((r.1.foldl (Books.next cqid) Books.init).sqs e.qid).bind fun sq =>
          (r.1.foldl (Books.next cqid) Books.init).cqs sq.cqid).map fun cq => (cq.base, cq.posted)))) =
      some (some (some 0x3000, some (0x4000, 0)))) :
    ¬ ∀ info rand ftl guest tr s s' c e,
      (queueMachine cqid info).Run Machine.anyCall (VfioWork.init rand ftl guest) tr s →
        (queueMachine cqid info).step s c (some e) s' →
          ∃ sq cq, e.Routed s.vfio s'.vfio (tr.foldl (Books.next cqid) Books.init) sq cq := by
  intro h
  obtain ⟨⟨tr, s⟩, hplay, hnext⟩ := Option.bind_eq_some_iff.1 heq
  obtain ⟨⟨a, s'⟩, hexec, hmap⟩ := Option.map_eq_some_iff.1 hnext
  obtain ⟨e, rfl, he⟩ := Option.map_eq_some_iff.1 hmap
  obtain ⟨hposted, hbooks⟩ := Prod.mk.inj he
  obtain ⟨sq, cq, hrouted⟩ := h _ _ _ _ tr s s' _ e (VfioWork.play_run hplay) ⟨5, hexec⟩
  obtain ⟨_, cpl, hpost, -⟩ := hrouted.posted
  dsimp only at hbooks
  rw [hrouted.submission, Option.bind_some, hrouted.completion, Option.map_some] at hbooks
  obtain ⟨hbase, hzero⟩ := Prod.mk.inj (Option.some.inj hbooks)
  rw [hpost, hbase, hzero, Nat.zero_mod] at hposted
  have haddr : (0x4000 + UInt64.ofNat (0 * completionSize) : UInt64) = 0x3000 :=
    Option.some.inj hposted
  exact absurd haddr (by decide)

/-- A submission queue that names another completion queue, however the number is read, has its
    commands completed in its own row. -/
theorem not_queues_routed :
    (¬ ∀ info rand ftl guest tr s s' c e,
      (queueMachine Command.cqidHigh info).Run Machine.anyCall (VfioWork.init rand ftl guest) tr s →
        (queueMachine Command.cqidHigh info).step s c (some e) s' → ∃ sq cq,
          e.Routed s.vfio s'.vfio (tr.foldl (Books.next Command.cqidHigh) Books.init) sq cq) ∧
    ¬ ∀ info rand ftl guest tr s s' c e,
      (queueMachine Command.cqidLow info).Run Machine.anyCall (VfioWork.init rand ftl guest) tr s →
        (queueMachine Command.cqidLow info).step s c (some e) s' → ∃ sq cq,
          e.Routed s.vfio s'.vfio (tr.foldl (Books.next Command.cqidLow) Books.init) sq cq :=
  ⟨misrouted rfl, misrouted rfl⟩

end Nvme

end FtlFirmware
