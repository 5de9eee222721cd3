import FtlFirmware.Lib.Ring
import FtlFirmware.Lib.Run
import FtlFirmware.Nvme.Transfer
import Mathlib.Data.Nat.Find

/-!
# Queues of the operating system

The queues that the operating system gives to the firmware (`OsQueue`, on Linux): a ring of items of
a fixed size in one buffer of bytes. The offset of an item in the buffer is the product of two
numbers of 32 bits, and a number of 32 bits itself, whereas the buffer is as long as it has to be.

A call that does not wait either answers at once or times out (`OsQueue.machine`). What the queue is
meant to be is a list of at most as many items as it is long (`fifoMachine`).

* `osQueue_fifo_iff`: all accesses are in the buffer, and the queue answers as the list does in
  every run if and only if the offset of the last item is one of 32 bits.
-/

namespace FtlFirmware

open Nvme (Buffer)

/-- A queue (`linux_queue_t`). -/
structure OsQueue where
  buffer : Buffer
  head : UInt32
  tail : UInt32
  count : UInt32
  length : UInt32
  itemSize : UInt32

/-- The calls. The item to be sent is at an address, of which its size many bytes are read. -/
inductive OsQueueCall
  | send (item : Buffer)
  | receive

/-- The `len` bytes from an offset on. -/
def bytesAt (buf : Buffer) (offset len : ℕ) : List UInt8 :=
  (List.range len).map fun k => buf (offset + k)

namespace OsQueue

/-- Creates a queue (`os_queue_create`), if its buffer can be allocated. The buffer is cleared. -/
def create (queueLength itemSize : UInt32) (allocated : Bool) : Option OsQueue :=
  if queueLength = 0 ∨ itemSize = 0 then none
  else if !allocated then none
  else some ⟨fun _ => 0, 0, 0, 0, queueLength, itemSize⟩

variable (q : OsQueue)

/-- The offset of the next item to be sent. -/
def tailOffset : ℕ := (q.tail * q.itemSize).toNat

/-- The offset of the next item to be received. -/
def headOffset : ℕ := (q.head * q.itemSize).toNat

/-- Sends an item (`os_queue_send`), without waiting. -/
def send (item : Buffer) : RetCode × OsQueue :=
  if q.length ≤ q.count then (.errTimeout, q)
  else
    (.ok, { q with
      buffer := q.buffer.store q.tailOffset q.itemSize.toNat item
      tail := (q.tail + 1) % q.length
      count := q.count + 1 })

/-- Receives an item (`os_queue_receive`), without waiting. -/
def receive : (RetCode × Option (List UInt8)) × OsQueue :=
  if q.count = 0 then ((.errTimeout, none), q)
  else
    ((.ok, some (bytesAt q.buffer q.headOffset q.itemSize.toNat)), { q with
      head := (q.head + 1) % q.length
      count := q.count - 1 })

/-- Executes a call. -/
def exec : OsQueueCall → (RetCode × Option (List UInt8)) × OsQueue
  | .send item => (((q.send item).1, none), (q.send item).2)
  | .receive => q.receive

/-- The queue as a machine. -/
def machine : Machine OsQueue OsQueueCall (RetCode × Option (List UInt8)) where
  step q c a q' := q.exec c = (a, q')

end OsQueue

/-! ## Lists of items -/

/-- What a call does to a list of at most `n` items, of `size` bytes each. -/
def fifoExec (n size : ℕ) (l : List (List UInt8)) :
    OsQueueCall → (RetCode × Option (List UInt8)) × List (List UInt8)
  | .send item =>
    if n ≤ l.length then ((.errTimeout, none), l) else ((.ok, none), l ++ [bytesAt item 0 size])
  | .receive =>
    match l with
    | [] => ((.errTimeout, none), [])
    | item :: l => ((.ok, some item), l)

/-- The list as a machine. -/
def fifoMachine (n size : ℕ) :
    Machine (List (List UInt8)) OsQueueCall (RetCode × Option (List UInt8)) where
  step l c a l' := fifoExec n size l c = (a, l')

/-! ## Accesses -/

namespace OsQueue

variable {q q' : OsQueue} {n size : UInt32} {item : Buffer}

/-- The ring that the queue is. The item `i` of the buffer is where it belongs. -/
def ring (q : OsQueue) (size : ℕ) : Ring (List UInt8) where
  slots i := bytesAt q.buffer (i * size) size
  head := q.head.toNat
  tail := q.tail.toNat
  count := q.count.toNat

/-- What holds of a queue of `n` items of `size` bytes at any time. -/
structure Sound (n size : UInt32) (q : OsQueue) : Prop where
  length : q.length = n
  itemSize : q.itemSize = size
  ring : (q.ring size.toNat).Valid n.toNat

/-- An index moves on. -/
theorem toNat_succ_mod {i : UInt32} (hi : i.toNat < n.toNat) :
    ((i + 1) % n).toNat = (i.toNat + 1) % n.toNat := by
  have hlt : i.toNat + 1 < 2 ^ 32 := Nat.lt_of_le_of_lt hi n.toNat_lt
  rw [UInt32.toNat_mod, UInt32.toNat_add]
  exact congrArg (· % n.toNat) (Nat.mod_eq_of_lt hlt)

theorem toNat_succ {i : UInt32} (hi : i.toNat < n.toNat) : (i + 1).toNat = i.toNat + 1 := by
  rw [UInt32.toNat_add]
  exact Nat.mod_eq_of_lt (Nat.lt_of_le_of_lt hi n.toNat_lt)

theorem Sound.tail_lt (h : q.Sound n size) : q.tail.toNat < n.toNat := h.ring.tail_lt

theorem Sound.head_lt (h : q.Sound n size) : q.head.toNat < n.toNat := h.ring.head_lt

/-- The queue after an item has been sent. -/
def sent (q : OsQueue) (item : Buffer) : OsQueue :=
  { q with
    buffer := q.buffer.store q.tailOffset q.itemSize.toNat item
    tail := (q.tail + 1) % q.length
    count := q.count + 1 }

/-- The queue after an item has been received. -/
def received (q : OsQueue) : OsQueue :=
  { q with head := (q.head + 1) % q.length, count := q.count - 1 }

theorem send_full (h : q.Sound n size) (hfull : n.toNat ≤ q.count.toNat) :
    q.send item = (.errTimeout, q) :=
  if_pos (UInt32.le_iff_toNat_le.2 (h.length ▸ hfull))

theorem send_ok (h : q.Sound n size) (hroom : q.count.toNat < n.toNat) :
    q.send item = (.ok, q.sent item) :=
  if_neg fun hle => Nat.not_le.2 hroom (h.length ▸ UInt32.le_iff_toNat_le.1 hle)

theorem receive_empty (hempty : q.count.toNat = 0) : q.receive = ((.errTimeout, none), q) :=
  if_pos (UInt32.toNat_inj.1 hempty)

theorem receive_ok (hpos : 0 < q.count.toNat) :
    q.receive = ((.ok, some (bytesAt q.buffer q.headOffset q.itemSize.toNat)), q.received) :=
  if_neg fun hzero => Nat.ne_of_gt hpos (congrArg UInt32.toNat hzero)

theorem Sound.sent (h : q.Sound n size) (hroom : q.count.toNat < n.toNat) (item : Buffer) :
    (q.sent item).Sound n size := by
  have hpush := h.ring.push hroom (bytesAt item 0 size.toNat)
  refine ⟨h.length, h.itemSize, hpush.head_lt, ?_, ?_⟩
  · exact (toNat_succ hroom).trans_le hpush.count_le
  · show ((q.tail + 1) % q.length).toNat = (q.head.toNat + (q.count + 1).toNat) % n.toNat
    rw [h.length, toNat_succ_mod h.tail_lt, toNat_succ hroom]
    exact hpush.tail_eq

theorem toNat_pred {i : UInt32} (hi : 0 < i.toNat) : (i - 1).toNat = i.toNat - 1 :=
  UInt32.toNat_sub_of_le _ _ (UInt32.le_iff_toNat_le.2 hi)

theorem Sound.received (h : q.Sound n size) (hpos : 0 < q.count.toNat) :
    q.received.Sound n size := by
  have hpop := h.ring.pop hpos
  refine ⟨h.length, h.itemSize, ?_, ?_, ?_⟩
  · show ((q.head + 1) % q.length).toNat < n.toNat
    rw [h.length, toNat_succ_mod h.head_lt]
    exact hpop.head_lt
  · exact (toNat_pred hpos).trans_le hpop.count_le
  · show q.tail.toNat = (((q.head + 1) % q.length).toNat + (q.count - 1).toNat) % n.toNat
    rw [h.length, toNat_succ_mod h.head_lt, toNat_pred hpos]
    exact hpop.tail_eq

/-- A queue is sound in every run. -/
theorem Sound.exec (h : q.Sound n size) (c : OsQueueCall) : (q.exec c).2.Sound n size := by
  cases c with
  | send item =>
    rcases Nat.lt_or_ge q.count.toNat n.toNat with hroom | hfull
    · rw [OsQueue.exec, send_ok h hroom]
      exact h.sent hroom item
    · rw [OsQueue.exec, send_full h hfull]
      exact h
  | receive =>
    rcases Nat.eq_zero_or_pos q.count.toNat with hempty | hpos
    · rw [OsQueue.exec, receive_empty hempty]
      exact h
    · rw [OsQueue.exec, receive_ok hpos]
      exact h.received hpos

theorem Sound.run (h : q.Sound n size) {tr : List (OsQueueCall × (RetCode × Option (List UInt8)))}
    (hrun : machine.Run Machine.anyCall q tr q') : q'.Sound n size := by
  refine hrun.invariant (P := Sound n size) h fun s c a s' hs _ hstep => ?_
  have := hs.exec c
  rwa [hstep] at this

/-- A created queue is sound, and holds no item. -/
theorem sound_create (hcreate : create n size true = some q) :
    q.Sound n size ∧ q = ⟨fun _ => 0, 0, 0, 0, n, size⟩ := by
  rw [create] at hcreate
  split at hcreate
  · simp at hcreate
  · next hne =>
    obtain rfl := Option.some.inj hcreate
    have hpos : 0 < n.toNat := Nat.pos_of_ne_zero fun hzero =>
      hne (Or.inl (UInt32.toNat_inj.1 hzero))
    exact ⟨⟨rfl, rfl, hpos, Nat.zero_le _, (Nat.zero_mod _).symm⟩, rfl⟩

/-- The item at an index is in the buffer. -/
theorem offset_le (i size : UInt32) {n : ℕ} (hi : i.toNat < n) :
    (i * size).toNat + size.toNat ≤ n * size.toNat := by
  have hmul : (i * size).toNat ≤ i.toNat * size.toNat := by
    rw [UInt32.toNat_mul]
    exact Nat.mod_le _ _
  calc (i * size).toNat + size.toNat
      ≤ i.toNat * size.toNat + size.toNat := Nat.add_le_add_right hmul _
    _ = (i.toNat + 1) * size.toNat := (Nat.succ_mul _ _).symm
    _ ≤ n * size.toNat := Nat.mul_le_mul_right _ hi

/-! ## Queues whose offsets have 32 bits -/

theorem getElem?_bytesAt {buf : Buffer} {offset len k : ℕ} (hk : k < len) :
    (bytesAt buf offset len)[k]? = some (buf (offset + k)) := by
  rw [bytesAt, List.getElem?_map, List.getElem?_range hk, Option.map_some]

theorem bytesAt_store_self (buf : Buffer) (offset len : ℕ) :
    bytesAt (buf.store offset len item) offset len = bytesAt item 0 len := by
  refine List.map_congr_left fun k hk => ?_
  rw [Buffer.store, if_pos ⟨Nat.le_add_right _ _, Nat.add_lt_add_left (List.mem_range.1 hk) _⟩,
    Nat.add_sub_cancel_left, Nat.zero_add]

theorem bytesAt_store_of_ne (buf : Buffer) (len : ℕ) {i j : ℕ} (hij : i ≠ j) :
    bytesAt (buf.store (j * len) len item) (i * len) len = bytesAt buf (i * len) len := by
  refine List.map_congr_left fun k hk => ?_
  have hlt := List.mem_range.1 hk
  rw [Buffer.store, if_neg]
  rintro ⟨hge, hle⟩
  rcases Nat.lt_or_gt_of_ne hij with hij | hij
  · have := Nat.mul_le_mul_right len hij
    rw [Nat.succ_mul] at this
    omega
  · have := Nat.mul_le_mul_right len hij
    rw [Nat.succ_mul] at this
    omega

/-- The offset of an item is where it belongs, if that of the last one has 32 bits. -/
theorem offset_eq {i : UInt32} (hi : i.toNat < n.toNat)
    (hfit : (n.toNat - 1) * size.toNat < 2 ^ 32) : (i * size).toNat = i.toNat * size.toNat := by
  rw [UInt32.toNat_mul]
  refine Nat.mod_eq_of_lt (Nat.lt_of_le_of_lt (Nat.mul_le_mul_right _ ?_) hfit)
  omega

section

variable (h : q.Sound n size) (hfit : (n.toNat - 1) * size.toNat < 2 ^ 32)
include h hfit

theorem ring_sent (hroom : q.count.toNat < n.toNat) (item : Buffer) :
    (q.sent item).ring size.toNat =
      (q.ring size.toNat).push n.toNat (bytesAt item 0 size.toNat) := by
  have hslots : ((q.sent item).ring size.toNat).slots =
      Function.update (q.ring size.toNat).slots q.tail.toNat (bytesAt item 0 size.toNat) := by
    funext i
    have hbuffer : ((q.sent item).ring size.toNat).slots i =
        bytesAt (q.buffer.store (q.tail.toNat * size.toNat) size.toNat item) (i * size.toNat)
          size.toNat := by
      rw [← offset_eq h.tail_lt hfit, ← h.itemSize]
      rfl
    rw [hbuffer]
    by_cases hi : i = q.tail.toNat
    · rw [hi, Function.update_self, bytesAt_store_self]
    · rw [Function.update_of_ne hi, bytesAt_store_of_ne _ _ hi]
      rfl
  have htail : (q.sent item).tail.toNat = (q.tail.toNat + 1) % n.toNat := by
    rw [← toNat_succ_mod h.tail_lt, ← h.length]
    rfl
  show Ring.mk ((q.sent item).ring size.toNat).slots q.head.toNat (q.sent item).tail.toNat
    (q.count + 1).toNat = _
  rw [hslots, htail, toNat_succ hroom]
  rfl

omit hfit in
theorem ring_received (hpos : 0 < q.count.toNat) :
    q.received.ring size.toNat = (q.ring size.toNat).pop n.toNat := by
  have hhead : q.received.head.toNat = (q.head.toNat + 1) % n.toNat := by
    rw [← toNat_succ_mod h.head_lt, ← h.length]
    rfl
  show Ring.mk (q.ring size.toNat).slots q.received.head.toNat q.tail.toNat
    (q.count - 1).toNat = _
  rw [hhead, toNat_pred hpos]
  rfl

/-- A call does to the items of the queue what it does to the list of them. -/
theorem fifoExec_contents (c : OsQueueCall) :
    fifoExec n.toNat size.toNat ((q.ring size.toNat).contents n.toNat) c =
      ((q.exec c).1, ((q.exec c).2.ring size.toNat).contents n.toNat) := by
  cases c with
  | send item =>
    rw [fifoExec, Ring.length_contents, OsQueue.exec]
    rcases Nat.lt_or_ge q.count.toNat n.toNat with hroom | hfull
    · rw [send_ok h hroom, ring_sent h hfit hroom, Ring.contents_push h.ring hroom]
      exact if_neg (Nat.not_le.2 hroom)
    · rw [send_full h hfull]
      exact if_pos hfull
  | receive =>
    rw [OsQueue.exec]
    rcases Nat.eq_zero_or_pos q.count.toNat with hempty | hpos
    · have hnil : (q.ring size.toNat).contents n.toNat = [] :=
        List.length_eq_zero_iff.1 (Ring.length_contents.trans hempty)
      rw [receive_empty hempty, hnil, fifoExec]
    · rw [receive_ok hpos, ring_received h hpos, Ring.contents_pop h.ring hpos, fifoExec,
        headOffset, h.itemSize, offset_eq h.head_lt hfit]
      rfl

end

/-- In every run, the queue answers as the list of its items does. -/
theorem fifo_run (h : q.Sound n size) (hfit : (n.toNat - 1) * size.toNat < 2 ^ 32)
    {tr : List (OsQueueCall × (RetCode × Option (List UInt8)))}
    (hrun : machine.Run Machine.anyCall q tr q') :
    (fifoMachine n.toNat size.toNat).Run Machine.anyCall ((q.ring size.toNat).contents n.toNat) tr
      ((q'.ring size.toNat).contents n.toNat) := by
  induction hrun with
  | nil => exact .nil
  | @snoc tr s c a s' hrun _ hstep ih =>
    refine .snoc ih trivial ?_
    have hexec := fifoExec_contents (h.run hrun) hfit c
    have hanswer : s.exec c = (a, s') := hstep
    rwa [hanswer] at hexec

/-! ## Queues whose offsets do not -/

/-- The first item whose offset has more than 32 bits is put over the first item. -/
theorem exists_wrapped (hsize : 0 < size.toNat) (hbig : 2 ^ 32 ≤ (n.toNat - 1) * size.toNat) :
    ∃ k, 0 < k ∧ k < n.toNat ∧ k * size.toNat % 2 ^ 32 < size.toNat := by
  have hex : ∃ k, 2 ^ 32 ≤ k * size.toNat := ⟨_, hbig⟩
  have hk := Nat.find_spec hex
  have hle : Nat.find hex ≤ n.toNat - 1 := Nat.find_le hbig
  have hpos : 0 < Nat.find hex := by
    refine Nat.pos_of_ne_zero fun hzero => ?_
    rw [hzero, Nat.zero_mul] at hk
    exact absurd hk (by decide)
  -- the item before has an offset of 32 bits
  have hbefore : (Nat.find hex - 1) * size.toNat < 2 ^ 32 :=
    Nat.not_le.1 (Nat.find_min hex (Nat.sub_lt hpos Nat.one_pos))
  have hlt : Nat.find hex * size.toNat < 2 ^ 32 + size.toNat := by
    have hsplit : Nat.find hex * size.toNat = (Nat.find hex - 1) * size.toNat + size.toNat := by
      rw [← Nat.succ_mul, Nat.succ_eq_add_one, Nat.sub_add_cancel hpos]
    omega
  have hsize32 := size.toNat_lt
  refine ⟨Nat.find hex, hpos, by omega, ?_⟩
  rw [Nat.mod_eq_sub_mod hk, Nat.mod_eq_of_lt (by omega)]
  omega

/-- An empty queue whose next item has the index `k`, of cleared memory. -/
def zeros (n size : UInt32) (k : ℕ) : OsQueue :=
  ⟨fun _ => 0, 0, UInt32.ofNat k, UInt32.ofNat k, n, size⟩

/-- Items of zeros leave cleared memory. -/
theorem send_zeros (h : (zeros n size 0).Sound n size) {k : ℕ} (hk : k < n.toNat) :
    machine.Run Machine.anyCall (zeros n size 0)
      (List.replicate k (.send fun _ => 0, (.ok, none))) (zeros n size k) := by
  induction k with
  | zero => exact .nil
  | succ k ih =>
    have hrun := ih (Nat.lt_of_succ_lt hk)
    have hlt : k + 1 < 2 ^ 32 := Nat.lt_trans hk n.toNat_lt
    have hcount : (UInt32.ofNat k).toNat = k :=
      UInt32.toNat_ofNat_of_lt' (Nat.lt_of_succ_lt hlt)
    have hsucc : UInt32.ofNat k + 1 = UInt32.ofNat (k + 1) := (UInt32.ofNat_add k 1).symm
    have hmod : UInt32.ofNat (k + 1) % n = UInt32.ofNat (k + 1) := by
      refine UInt32.toNat_inj.1 ?_
      rw [UInt32.toNat_mod, UInt32.toNat_ofNat_of_lt' hlt, Nat.mod_eq_of_lt hk]
    have hbuffer : Buffer.store (fun _ => 0) (zeros n size k).tailOffset size.toNat (fun _ => 0) =
        fun _ => 0 := by
      funext j
      rw [Buffer.store, ite_self]
    have hsent : (zeros n size k).sent (fun _ => 0) = zeros n size (k + 1) := by
      show OsQueue.mk (Buffer.store (fun _ => 0) (zeros n size k).tailOffset size.toNat fun _ => 0)
        0 ((UInt32.ofNat k + 1) % n) (UInt32.ofNat k + 1) n size = _
      rw [hbuffer, hsucc, hmod]
      rfl
    rw [List.replicate_succ']
    refine .snoc hrun trivial ?_
    show exec _ _ = _
    rw [exec, send_ok (h.run hrun) (hcount.trans_lt (Nat.lt_of_succ_lt hk)), hsent]

/-- A run of the list tells the list. -/
theorem fifo_run_eq {n size : ℕ} {l l' : List (List UInt8)}
    {tr : List (OsQueueCall × (RetCode × Option (List UInt8)))}
    (hrun : (fifoMachine n size).Run Machine.anyCall l tr l') :
    l' = tr.foldl (fun l e => (fifoExec n size l e.1).2) l := by
  refine hrun.simulation (R := Eq) rfl fun s t c a s' hst _ hstep => ?_
  rw [← hst, show fifoExec n size s c = (a, s') from hstep]

/-- The list after `k` items of zeros. -/
theorem foldl_zeros {n size k : ℕ} (hk : k ≤ n) :
    (List.replicate k (OsQueueCall.send fun _ => 0,
        (RetCode.ok, (none : Option (List UInt8))))).foldl
      (fun l e => (fifoExec n size l e.1).2) [] =
        List.replicate k (bytesAt (fun _ => 0) 0 size) := by
  induction k with
  | zero => rfl
  | succ k ih =>
    rw [List.replicate_succ', List.foldl_append, ih (Nat.le_of_succ_le hk), List.replicate_succ',
      List.foldl_cons, List.foldl_nil, fifoExec, List.length_replicate,
      if_neg (Nat.not_le.2 hk)]

/-- The first item to be received, after one of ones has been put over it. -/
theorem getElem?_wrapped {k : ℕ} (hk : k < n.toNat) (hsize : 0 < size.toNat)
    (hwrap : k * size.toNat % 2 ^ 32 < size.toNat) :
    (bytesAt ((zeros n size k).sent fun _ => 1).buffer ((zeros n size k).sent fun _ => 1).headOffset
      size.toNat)[k * size.toNat % 2 ^ 32]? = some 1 := by
  have hhead : ((zeros n size k).sent fun _ => 1).headOffset = 0 := by
    show (0 * size).toNat = 0
    rw [UInt32.zero_mul]
    rfl
  have htail : (zeros n size k).tailOffset = k * size.toNat % 2 ^ 32 := by
    show (UInt32.ofNat k * size).toNat = _
    rw [UInt32.toNat_mul, UInt32.toNat_ofNat_of_lt' (Nat.lt_trans hk n.toNat_lt)]
  rw [getElem?_bytesAt hwrap, hhead, Nat.zero_add, ← htail]
  exact congrArg some (if_pos ⟨Nat.le_refl _, Nat.lt_add_of_pos_right hsize⟩)

/-- A queue whose offsets have more than 32 bits gives back an item with bytes of another one. -/
theorem not_fifo (h : (zeros n size 0).Sound n size) (hsize : 0 < size.toNat)
    (hbig : 2 ^ 32 ≤ (n.toNat - 1) * size.toNat) :
    ∃ tr q', machine.Run Machine.anyCall (zeros n size 0) tr q' ∧
      ∀ l, ¬ (fifoMachine n.toNat size.toNat).Run Machine.anyCall [] tr l := by
  obtain ⟨k, hpos, hk, hwrap⟩ := exists_wrapped hsize hbig
  have hrun := send_zeros h hk
  have hcount : (UInt32.ofNat k).toNat = k :=
    UInt32.toNat_ofNat_of_lt' (Nat.lt_trans hk n.toNat_lt)
  have hsend : (zeros n size k).exec (.send fun _ => 1) =
      ((.ok, none), (zeros n size k).sent fun _ => 1) := by
    rw [exec, send_ok (h.run hrun) (hcount.trans_lt hk)]
  have hrun := Machine.Run.snoc hrun trivial (show machine.step _ _ _ _ from hsend)
  have hroom : 0 < ((zeros n size k).sent fun _ => 1).count.toNat :=
    (toNat_succ (hcount.trans_lt hk)).symm ▸ Nat.succ_pos _
  have hrun := hrun.snoc trivial (show machine.step _ .receive _ _ from receive_ok hroom)
  refine ⟨_, _, hrun, fun l hl => ?_⟩
  obtain ⟨l', hbefore, -, hlast⟩ := hl.last
  -- the list gives back zeros
  obtain ⟨j, hj⟩ := Nat.exists_eq_add_of_le' hpos
  have hlist : l' = bytesAt (fun _ => 0) 0 size.toNat ::
      (List.replicate j (bytesAt (fun _ => 0) 0 size.toNat) ++
        [bytesAt (fun _ => 1) 0 size.toNat]) := by
    rw [fifo_run_eq hbefore, List.foldl_append, foldl_zeros (Nat.le_of_lt hk), List.foldl_cons,
      List.foldl_nil, fifoExec, List.length_replicate, if_neg (Nat.not_le.2 hk), hj]
    rfl
  have hanswer : fifoExec n.toNat size.toNat l' .receive = _ := hlast
  rw [hlist, fifoExec] at hanswer
  have hbytes : bytesAt (fun _ => 0) 0 size.toNat =
      bytesAt ((zeros n size k).sent fun _ => 1).buffer
        ((zeros n size k).sent fun _ => 1).headOffset size.toNat :=
    Option.some.inj (congrArg (fun r => r.1.2) hanswer)
  -- the queue gives back a one where the last item has begun
  have hone := getElem?_wrapped hk hsize hwrap
  rw [← hbytes, getElem?_bytesAt hwrap] at hone
  exact absurd hone (by decide)

/-- All accesses of a queue are in its buffer. It answers as the list of its items does in every run
    if and only if the offset of its last item has 32 bits. -/
theorem osQueue_fifo_iff (hcreate : create n size true = some q) :
    (∀ tr q', machine.Run Machine.anyCall q tr q' →
      q'.tailOffset + q'.itemSize.toNat ≤ n.toNat * size.toNat ∧
        q'.headOffset + q'.itemSize.toNat ≤ n.toNat * size.toNat) ∧
      ((∀ tr q', machine.Run Machine.anyCall q tr q' →
          ∃ l, (fifoMachine n.toNat size.toNat).Run Machine.anyCall [] tr l) ↔
        (n.toNat - 1) * size.toNat < 2 ^ 32) := by
  obtain ⟨hsound, rfl⟩ := sound_create hcreate
  refine ⟨fun tr q' hrun => ?_, fun hall => ?_, fun hfit tr q' hrun => ?_⟩
  · have h := hsound.run hrun
    rw [tailOffset, headOffset, h.itemSize]
    exact ⟨offset_le _ _ h.tail_lt, offset_le _ _ h.head_lt⟩
  · by_contra hbig
    have hsize : 0 < size.toNat := by
      refine Nat.pos_of_ne_zero fun hzero => hbig ?_
      rw [hzero, Nat.mul_zero]
      decide
    obtain ⟨tr, q', hrun, hnot⟩ := not_fifo hsound hsize (Nat.not_lt.1 hbig)
    obtain ⟨l, hl⟩ := hall tr q' hrun
    exact hnot l hl
  · exact ⟨_, fifo_run hsound hfit hrun⟩

/-- A queue of four items of eight bytes: an item is sent and received. -/
theorem osQueue_fifo_four :
    ∃ l, (fifoMachine 4 8).Run Machine.anyCall []
      ([(.send fun k => UInt8.ofNat k, (.ok, none))] ++
        [(.receive, (.ok, some [0, 1, 2, 3, 4, 5, 6, 7]))]) l := by
  have hcreate : create 4 8 true = some (zeros 4 8 0) := rfl
  have hsend : machine.Run Machine.anyCall (zeros 4 8 0)
      [(.send fun k => UInt8.ofNat k, (.ok, none))] _ :=
    .single trivial rfl
  have hrun := hsend.snoc trivial
    (show machine.step _ .receive (.ok, some [0, 1, 2, 3, 4, 5, 6, 7]) _ from rfl)
  exact ((osQueue_fifo_iff hcreate).2.2 (by decide)) _ _ hrun

/-- A queue of 65537 items of 65536 bytes: the last item is put over the first one. -/
theorem osQueue_not_fifo : ¬ ∀ (n size : UInt32) (q : OsQueue), create n size true = some q →
    ∀ tr q', machine.Run Machine.anyCall q tr q' →
      ∃ l, (fifoMachine n.toNat size.toNat).Run Machine.anyCall [] tr l := by
  intro hall
  have hcreate : create 65537 65536 true = some (zeros 65537 65536 0) := rfl
  obtain ⟨tr, q', hrun, hnot⟩ := not_fifo (sound_create hcreate).1 (by decide) (by decide)
  obtain ⟨l, hl⟩ := hall _ _ _ hcreate tr q' hrun
  exact hnot l hl

end OsQueue

end FtlFirmware
