import FtlFirmware.Nvme.Prp
import FtlFirmware.Nvme.Returning
import FtlFirmware.Nvme.Vring

/-!
# The entries of the rings

The books of a guest (`VringBook`): the size of each ring, the entry that is next in it, the entries
taken and the used entries written, as the messages of the guest and the steps of the back end tell.

* `Tracks` holds throughout a run: the back end goes on with the entry that is next;
* `Tracks.right_iff`: what the back end does is right if and only if the size of the ring is not
  zero, the guest has made available one of its descriptors, with a buffer in the memory of the
  guest, and the used ring is as the back end has left it;
* `VringBook.Served` holds throughout a run whose steps are all so: the entries are taken one after
  the other, each once, and each but the one in progress has produced one used entry;
* `step_iff`: on a lively device, what the back end does next in the loop comes back if and only if
  the command of the entry that is next does not leave the tables of the FTL (`Overruns`);
* `vrings_served_iff` puts the three together.

An entry whose buffer is not found is never used (`not_vrings_served_iff`). The base that the back
end answers is the one that the guest has set, not the index of the entry that is next.
-/

namespace FtlFirmware

namespace Nvme

/-- The books of the guest. -/
structure VringBook where
  next : ℕ → UInt16
  num : ℕ → UInt32
  /-- The ring that is processed. -/
  ring : ℕ
  /-- The descriptor taken last. -/
  taken : UInt16
  /-- The entry that was next when the base of the ring was set. -/
  start : ℕ → UInt16
  /-- The entries of the ring that have been taken since, with their descriptors. -/
  takes : ℕ → List (UInt16 × UInt16)
  /-- The descriptors in the used entries that have been written since. -/
  puts : ℕ → List UInt16

namespace VringBook

/-- The books when nothing has been announced. -/
def blank : VringBook where
  next _ := 0
  num _ := 0
  ring := 0
  taken := 0
  start _ := 0
  takes _ := []
  puts _ := []

variable (b : VringBook)

/-- An entry of the ring that is processed has been consumed. -/
def consume : VringBook :=
  { b with next := Function.update b.next b.ring (b.next b.ring + 1) }

/-- The base of a ring has been set. -/
def restart (i : ℕ) (base : UInt16) : VringBook :=
  { b with
    next := Function.update b.next i base
    start := Function.update b.start i base
    takes := Function.update b.takes i []
    puts := Function.update b.puts i [] }

/-- An entry of the ring that is processed has been taken. -/
def take (descIdx : UInt16) : VringBook :=
  { b with
    taken := descIdx
    takes := Function.update b.takes b.ring (b.takes b.ring ++ [(b.next b.ring, descIdx)]) }

/-- A used entry has been written for the descriptor taken last. -/
def put : VringBook :=
  { b.consume with puts := Function.update b.puts b.ring (b.puts b.ring ++ [b.taken]) }

/-- The slot of the entry that is next. -/
def slot : ℕ := (b.next b.ring).toNat % (b.num b.ring).toNat

/-- The books after a call and its answer. -/
def after : VringCall × VringAnswer → VringBook
  | (.setVringNum index num, _) =>
    if index.toNat < vhostMaxQueues then { b with num := Function.update b.num index.toNat num }
    else b
  | (.setVringBase index base, _) =>
    if index.toNat < vhostMaxQueues then b.restart index.toNat base.toUInt16 else b
  | (.closeConnection, _) =>
    { b with next := fun _ => 0, start := fun _ => 0, takes := fun _ => [], puts := fun _ => [] }
  | (.processVring i _, .started _) => { b with ring := i }
  | (.proceed, .taken _ descIdx) => b.take descIdx
  | (.proceed, .skipped _ _) => b.consume
  | (.proceed, .put _) => b.put
  | _ => b

end VringBook

/-- The entries of a ring are taken in order from the start on, each once, and each has produced one
    used entry with its descriptor, but for those that are pending; the entry that is next is the
    first one that has not produced any. -/
structure ServedRing (start next : UInt16) (takes : List (UInt16 × UInt16))
    (puts pending : List UInt16) : Prop where
  order : takes.map Prod.fst = (List.range takes.length).map fun k => start + UInt16.ofNat k
  used : takes.map Prod.snd = puts ++ pending
  next_eq : next = start + UInt16.ofNat puts.length

/-- The entries of every ring are served, but for those that are pending. -/
def VringBook.Served (b : VringBook) (pending : ℕ → List UInt16) : Prop :=
  ∀ i, ServedRing (b.start i) (b.next i) (b.takes i) (b.puts i) (pending i)

/-- The books that a run leaves behind. -/
def vringBook (tr : List (VringCall × VringAnswer)) : VringBook :=
  tr.foldl VringBook.after VringBook.blank

/-- A number of a ring is below its size. -/
def VringBook.InRing (b : VringBook) (n : ℕ) : Prop := n < (b.num b.ring).toNat

namespace VringHost

/-- The back end takes the entry that is next, and a descriptor of the ring with it; or there is
    none left, of those available. -/
def Takes (s : VringHost) (b : VringBook) (rings : Rings) (availIdx : UInt16) (a : VringAnswer) :
    Prop :=
  (b.next b.ring = availIdx ∧ a = .finished) ∨
    (b.next b.ring ≠ availIdx ∧ b.InRing b.slot ∧ b.InRing (s.entry rings b.slot).toNat ∧
      a = .taken b.slot (s.entry rings b.slot))

/-- The used ring grows by one entry, which is the descriptor taken. -/
def Puts (s : VringHost) (b : VringBook) (rings : Rings) (a : VringAnswer) (s' : VringHost) :
    Prop :=
  let used := s.guest.bytesAt rings.used
  let used' := s'.guest.bytesAt rings.used
  ∃ slot, a = .put slot ∧ b.InRing slot ∧
    slot = used.ringIdx.toNat % (b.num b.ring).toNat ∧
    used'.usedId slot = b.taken.toUInt32 ∧ used'.ringIdx = used.ringIdx + 1

/-- A ring can be processed: the guest has enabled it and notified the back end, and its parts are
    in the memory of the guest. -/
def RingReady (s : VringHost) (i : ℕ) (kicked : Bool) : Prop :=
  let q := s.vrings i
  q.enabled = true ∧ 0 ≤ q.kickFd ∧ kicked = true ∧ (s.findRings q).isSome

/-- A ring is processed if and only if it can be, up to the index that the guest has written. -/
def Starts (s : VringHost) (i : ℕ) (kicked : Bool) (a : VringAnswer) : Prop :=
  (s.RingReady i kicked ↔ ∃ availIdx, a = .started availIdx) ∧
    ∀ availIdx, a = .started availIdx →
      ∃ avail, Vhost.gpaToHva s.guest (s.vrings i).availAddr = some avail ∧
        availIdx = (s.guest.bytesAt avail).ringIdx

/-- What the back end does for a call is right: it serves the entries of a ring that can be
    processed, up to the index that the guest has written, and answers the index of the entry that
    is next. -/
def Right (s : VringHost) (b : VringBook) (a : VringAnswer) (s' : VringHost) : VringCall → Prop
  | .getVringBase index => index.toNat < vhostMaxQueues →
      ∃ num, a = .base num ∧ num.toNat = (b.next index.toNat).toNat
  | .processVring i kicked => s.Starts i kicked a
  | .proceed => match s.phase with
    | .taking _ rings availIdx => s.Takes b rings availIdx a
    | .putting _ rings _ _ => s.Puts b rings a s'
    | _ => True
  | _ => True

/-- The guest uses a ring as the back end expects it: an entry that is available is one of a ring
    that has a size, its descriptor is one of the ring, and has a buffer in the memory of the guest;
    the used ring holds the index that the back end has written last; and the guest asks for the
    base of a ring only where it is the index of the entry that is next. -/
def Conforms (s : VringHost) : VringCall → Prop
  | .getVringBase index => index.toNat < vhostMaxQueues →
      (s.vrings index.toNat).base.toNat = (s.vrings index.toNat).lastAvailIdx.toNat
  | .proceed => match s.phase with
    | .taking i rings availIdx =>
      let q := s.vrings i
      q.lastAvailIdx ≠ availIdx → q.num ≠ 0 ∧
        (s.entry rings q.availSlot).toNat < q.num.toNat ∧
        (s.findBuffer rings (s.entry rings q.availSlot)).isSome
    | .putting i rings _ _ => (s.guest.bytesAt rings.used).ringIdx = (s.vrings i).usedIdx
    | _ => True
  | _ => True

/-- The entry that is next has a command that leaves the tables of the FTL. -/
def Overruns (s : VringHost) : Prop :=
  ∃ i rings availIdx, s.phase = .taking i rings availIdx ∧
    let q := s.vrings i
    q.lastAvailIdx ≠ availIdx ∧ q.num ≠ 0 ∧
      ∃ buf, s.findBuffer rings (s.entry rings q.availSlot) = some buf ∧
        s.toVhost.Overruns i (s.guest.bytesAt buf).command

/-- The descriptor taken whose used entry is still to be written. -/
def pending (s : VringHost) (i : ℕ) : List UInt16 :=
  match s.phase with
  | .putting j _ _ descIdx => if j = i then [descIdx] else []
  | _ => []

/-! ### Following the books -/

/-- The books tell where the back end is in the loop. -/
def Along (b : VringBook) : VringPhase → Prop
  | .taking i _ _ => b.ring = i
  | .putting i _ _ descIdx => b.ring = i ∧ b.taken = descIdx ∧ b.num i ≠ 0
  | _ => True

/-- The back end follows the books. -/
structure Tracks (s : VringHost) (b : VringBook) : Prop where
  next : Vring.lastAvailIdx ∘ s.vrings = b.next
  num : Vring.num ∘ s.vrings = b.num
  along : Along b s.phase

variable {s s' : VringHost} {b : VringBook} {c : VringCall} {a : VringAnswer} {fuel i : ℕ}
  {rings : Rings} {availIdx descIdx : UInt16} {index : UInt32} {info : Ctrl → Command → Buffer}

theorem init_tracks (v : Vhost) : (init v).Tracks VringBook.blank where
  next := rfl
  num := rfl
  along := trivial

theorem Tracks.lastAvailIdx (h : s.Tracks b) (i : ℕ) : (s.vrings i).lastAvailIdx = b.next i :=
  congrFun h.next i

theorem Tracks.size (h : s.Tracks b) (i : ℕ) : (s.vrings i).num = b.num i := congrFun h.num i

/-- The books tell the slot that is next. -/
theorem Tracks.availSlot (h : s.Tracks b) : (s.vrings b.ring).availSlot = b.slot := by
  rw [Vring.availSlot, VringBook.slot, h.lastAvailIdx, h.size]

/-- A message about a ring that exists changes the books like the ring. -/
theorem Tracks.setVring (h : s.Tracks b) (f : Vring → Vring) {b' : VringBook}
    (hin : index.toNat < vhostMaxQueues →
      Function.update b.next index.toNat (f (s.vrings index.toNat)).lastAvailIdx = b'.next ∧
      Function.update b.num index.toNat (f (s.vrings index.toNat)).num = b'.num)
    (hout : ¬ index.toNat < vhostMaxQueues → b = b') (hphase : s.phase = .idle) :
    (s.setVring index f).Tracks b' := by
  rw [VringHost.setVring]
  by_cases hindex : index.toNat < vhostMaxQueues
  · rw [if_pos hindex]
    obtain ⟨hnext, hnum⟩ := hin hindex
    refine ⟨?_, ?_, ?_⟩
    · rw [Function.comp_update, h.next, hnext]
    · rw [Function.comp_update, h.num, hnum]
    · rw [hphase]
      trivial
  · rw [if_neg hindex, ← hout hindex]
    exact h

/-- A message that changes neither the size of a ring nor the entry that is next in it. -/
theorem Tracks.setOther (h : s.Tracks b) (f : Vring → Vring)
    (hnext : ∀ q, (f q).lastAvailIdx = q.lastAvailIdx) (hnum : ∀ q, (f q).num = q.num)
    (hphase : s.phase = .idle) : (s.setVring index f).Tracks b := by
  refine h.setVring f (fun _ => ⟨?_, ?_⟩) (fun _ => rfl) hphase
  · rw [hnext, h.lastAvailIdx, Function.update_eq_self]
  · rw [hnum, h.size, Function.update_eq_self]

/-- An entry of the ring that is processed is done with. -/
theorem Tracks.update (h : s.Tracks b) {b' : VringBook} {q : Vring} {v : Vhost} {phase : VringPhase}
    (hbook : b'.next = b.consume.next ∧ b'.num = b.num)
    (hnext : q.lastAvailIdx = (s.vrings b.ring).lastAvailIdx + 1)
    (hnum : q.num = (s.vrings b.ring).num) (hphase : Along b' phase) :
    Tracks { s with toVhost := v, vrings := Function.update s.vrings b.ring q, phase := phase }
      b' where
  next := by
    rw [Function.comp_update, h.next, hnext, h.lastAvailIdx, hbook.1]
    rfl
  num := by
    rw [Function.comp_update, h.num, hnum, h.size, Function.update_eq_self, hbook.2]
  along := hphase

/-! ### The steps -/

/-- What is handled outside of the loop. -/
theorem Tracks.handle (h : s.Tracks b) (hphase : s.phase = .idle) (hc : s.handle c = some (a, s')) :
    s'.Tracks (b.after (c, a)) := by
  cases c with
  | setVringNum index num =>
    cases hc
    refine h.setVring _ (fun hindex => ?_) (fun hindex => ?_) hphase
    · rw [VringBook.after, if_pos hindex, h.lastAvailIdx, Function.update_eq_self]
      exact ⟨rfl, rfl⟩
    · rw [VringBook.after, if_neg hindex]
  | setVringBase index base =>
    cases hc
    refine h.setVring _ (fun hindex => ?_) (fun hindex => ?_) hphase
    · rw [VringBook.after, if_pos hindex, h.size, Function.update_eq_self]
      exact ⟨rfl, rfl⟩
    · rw [VringBook.after, if_neg hindex]
  | setVringAddr index desc avail used =>
    cases hc
    exact h.setOther _ (fun _ => rfl) (fun _ => rfl) hphase
  | setVringKick index fd =>
    cases hc
    exact h.setOther _ (fun _ => rfl) (fun _ => rfl) hphase
  | setVringEnable index num =>
    cases hc
    exact h.setOther _ (fun _ => rfl) (fun _ => rfl) hphase
  | getVringBase index =>
    cases hc
    exact h
  | setMemTable guest =>
    cases hc
    exact ⟨h.next, h.num, h.along⟩
  -- A doorbell changes the controller, and none of the rings.
  | setConfig offset value =>
    obtain ⟨s₁, hs₁, heq⟩ := Option.map_eq_some_iff.1 hc
    cases heq
    rw [VringHost.setConfig] at hs₁
    split_ifs at hs₁
    · cases hs₁
      exact h
    all_goals
      obtain ⟨ctrl, _, rfl⟩ := Option.map_eq_some_iff.1 hs₁
      exact ⟨h.next, h.num, h.along⟩
  | closeConnection =>
    cases hc
    exact ⟨rfl, h.num, h.along⟩
  | processVring i kicked =>
    rw [VringHost.handle, Option.some.injEq, VringHost.processVring] at hc
    dsimp only at hc
    split_ifs at hc
    · cases hc
      exact h
    · split at hc
      · cases hc
        exact h
      · cases hc
        exact ⟨h.next, h.num, rfl⟩
  | guestStores mem => cases hc
  | proceed => cases hc

/-- Executing a command changes no ring. -/
theorem execute_eq {buf : Hva} (he : s.execute fuel info i buf = some s') :
    ∃ v, s' = { s with toVhost := v } := by
  obtain ⟨r, _, rfl⟩ := Option.map_eq_some_iff.1 he
  exact ⟨_, rfl⟩

/-- What the back end does when it takes an entry. -/
theorem takeEntry_cases (hc : s.takeEntry fuel info i rings availIdx = some (a, s')) :
    let q := s.vrings i
    let descIdx := s.entry rings q.availSlot
    (q.lastAvailIdx = availIdx ∧ a = .finished ∧ s' = { s with phase := .idle }) ∨
    (q.lastAvailIdx ≠ availIdx ∧
      ((q.num = 0 ∧ a = .crashed ∧ s' = { s with phase := .crashed }) ∨
      (q.num ≠ 0 ∧ s.findBuffer rings descIdx = none ∧ a = .skipped q.availSlot descIdx ∧
        s' = s.consumed i) ∨
      (q.num ≠ 0 ∧ (s.findBuffer rings descIdx).isSome ∧ a = .taken q.availSlot descIdx ∧
        ∃ v, s' = { s with toVhost := v, phase := .putting i rings availIdx descIdx }))) := by
  intro q descIdx
  rw [takeEntry] at hc
  dsimp only at hc
  by_cases hlast : q.lastAvailIdx = availIdx
  · rw [if_pos hlast] at hc
    cases hc
    exact .inl ⟨hlast, rfl, rfl⟩
  refine .inr ⟨hlast, ?_⟩
  rw [if_neg hlast] at hc
  by_cases hnum : q.num = 0
  · rw [if_pos hnum] at hc
    cases hc
    exact .inl ⟨hnum, rfl, rfl⟩
  rw [if_neg hnum] at hc
  cases hbuf : s.findBuffer rings descIdx with
  | none =>
    rw [show s.findBuffer rings (s.entry rings (s.vrings i).availSlot) = none from hbuf] at hc
    cases hc
    exact .inr (.inl ⟨hnum, rfl, rfl, rfl⟩)
  | some buf =>
    rw [show s.findBuffer rings (s.entry rings (s.vrings i).availSlot) = some buf from hbuf] at hc
    obtain ⟨s₁, hs₁, heq⟩ := Option.map_eq_some_iff.1 hc
    obtain ⟨v, rfl⟩ := execute_eq hs₁
    cases heq
    exact .inr (.inr ⟨hnum, rfl, rfl, v, rfl⟩)

/-- Taking an entry. -/
theorem Tracks.takeEntry (h : s.Tracks b) (hphase : s.phase = .taking i rings availIdx)
    (hc : s.takeEntry fuel info i rings availIdx = some (a, s')) :
    s'.Tracks (b.after (.proceed, a)) := by
  have hring : b.ring = i := by
    have halong := h.along
    rwa [hphase] at halong
  obtain ⟨_, rfl, rfl⟩ | ⟨_, ⟨_, rfl, rfl⟩ | ⟨_, _, rfl, rfl⟩ | ⟨hnum, _, rfl, v, rfl⟩⟩ :=
    takeEntry_cases hc
  · exact ⟨h.next, h.num, trivial⟩
  · exact ⟨h.next, h.num, trivial⟩
  · subst hring
    exact h.update ⟨rfl, rfl⟩ rfl rfl (by rw [hphase]; rfl)
  · refine ⟨h.next, h.num, hring, rfl, ?_⟩
    rwa [h.size] at hnum

/-- Taking an entry is right if and only if the entry is one that the back end expects. -/
theorem Tracks.takes_iff (h : s.Tracks b) (hphase : s.phase = .taking i rings availIdx)
    (hc : s.takeEntry fuel info i rings availIdx = some (a, s')) :
    s.Takes b rings availIdx a ↔ s.Conforms .proceed := by
  have hring : b.ring = i := by
    have halong := h.along
    rwa [hphase] at halong
  subst hring
  have hnext := h.lastAvailIdx b.ring
  have hslot := h.availSlot
  have hsize := h.size b.ring
  rw [Conforms, hphase, Takes]
  dsimp only
  have hcases := takeEntry_cases hc
  dsimp only at hcases
  rw [hslot, hnext, hsize] at hcases
  rw [hslot, hnext, hsize]
  obtain ⟨hlast, rfl, _⟩ | ⟨hlast, ⟨hnum, rfl, _⟩ | ⟨_, hbuf, rfl, _⟩ | ⟨hnum, hbuf, rfl, _⟩⟩ :=
    hcases
  · -- nothing is left
    exact ⟨fun _ hne => absurd hlast hne, fun _ => .inl ⟨hlast, rfl⟩⟩
  · -- the ring has no size
    refine ⟨fun htakes => ?_, fun hconf => absurd hnum (hconf hlast).1⟩
    obtain ⟨heq, _⟩ | ⟨_, _, _, heq⟩ := htakes
    · exact absurd heq hlast
    · cases heq
  · -- the descriptor has no buffer
    refine ⟨fun htakes => ?_, fun hconf => ?_⟩
    · obtain ⟨heq, _⟩ | ⟨_, _, _, heq⟩ := htakes
      · exact absurd heq hlast
      · cases heq
    · have hsome := (hconf hlast).2.2
      rw [hbuf] at hsome
      cases hsome
  · refine ⟨fun htakes _ => ?_, fun hconf => ?_⟩
    · obtain ⟨heq, _⟩ | ⟨_, _, hlt, _⟩ := htakes
      · exact absurd heq hlast
      · exact ⟨hnum, hlt, hbuf⟩
    · refine .inr ⟨hlast, ?_, (hconf hlast).2.1, rfl⟩
      exact Nat.mod_lt _ (Nat.pos_of_ne_zero fun hzero => hnum (UInt32.toNat_inj.1 hzero))

end VringHost

/-! ### Numbers in memory -/

/-- The low byte and the next one make a number below 2^16. -/
theorem or_shiftLeft_eq {n : ℕ} (h : n < 2 ^ 16) : n % 256 ||| (n / 256 % 256) <<< 8 = n := by
  have hlt : n % 256 < 2 ^ 8 := Nat.mod_lt _ (by decide)
  rw [Nat.or_comm, ← Nat.shiftLeft_add_eq_or_of_lt hlt, Nat.shiftLeft_eq]
  omega

/-- A number is written as its bytes. -/
theorem Buffer.le16_eq {buf : Buffer} {k : ℕ} {n : UInt16}
    (h : ∀ j < 2, buf (k + j) = byteOf n.toNat j) : buf.le16 k = n := by
  have h₀ := h 0 (by decide)
  rw [Nat.add_zero] at h₀
  rw [Buffer.le16, h₀, h 1 (by decide), ← UInt16.toNat_inj]
  have hn := n.toNat_lt
  rw [UInt16.toNat_or, UInt16.toNat_shiftLeft]
  simp only [byteOf, UInt8.toNat_toUInt16, UInt8.toNat_ofNat']
  conv_rhs => rw [← or_shiftLeft_eq hn]
  rw [Nat.pow_zero, Nat.div_one, Nat.pow_one]
  congr 1
  show (n.toNat / 256 % 256) <<< 8 % 2 ^ 16 = _
  rw [Nat.shiftLeft_eq]
  omega

theorem Buffer.le32_eq {buf : Buffer} {k : ℕ} {n : UInt16}
    (h : ∀ j < 4, buf (k + j) = byteOf n.toNat j) : buf.le32 k = n.toUInt32 := by
  have h₀ := h 0 (by decide)
  rw [Nat.add_zero] at h₀
  rw [Buffer.le32, h₀, h 1 (by decide), h 2 (by decide), h 3 (by decide), ← UInt32.toNat_inj]
  have hn := n.toNat_lt
  rw [UInt32.toNat_or, UInt32.toNat_or, UInt32.toNat_or, UInt32.toNat_shiftLeft,
    UInt32.toNat_shiftLeft, UInt32.toNat_shiftLeft]
  simp only [byteOf, UInt8.toNat_toUInt32, UInt8.toNat_ofNat', UInt16.toNat_toUInt32]
  have h₂ : n.toNat / 256 ^ 2 = 0 := Nat.div_eq_of_lt hn
  have h₃ : n.toNat / 256 ^ 3 = 0 := Nat.div_eq_of_lt (by omega)
  rw [h₂, h₃, Nat.zero_mod, Nat.zero_shiftLeft, Nat.zero_shiftLeft, Nat.zero_mod, Nat.or_zero,
    Nat.or_zero]
  conv_rhs => rw [← or_shiftLeft_eq hn]
  rw [Nat.pow_zero, Nat.div_one, Nat.pow_one]
  congr 1
  show (n.toNat / 256 % 256) <<< 8 % 2 ^ 32 = _
  rw [Nat.shiftLeft_eq]
  omega
namespace VringHost

variable {s s' : VringHost} {b : VringBook} {c : VringCall} {a : VringAnswer} {fuel i : ℕ}
  {rings : Rings} {availIdx descIdx idx : UInt16} {info : Ctrl → Command → Buffer} {used : Hva}
  {slot : ℕ}

/-- The entry written. -/
theorem usedId_usedWritten :
    ((s.usedWritten used slot descIdx idx).bytesAt used).usedId slot = descIdx.toUInt32 := by
  refine Buffer.le32_eq fun j hj => ?_
  rw [Guest.bytesAt, usedWritten, Guest.write_mem, Guest.write_mem, Guest.write_mem,
    if_neg (by omega), if_neg (by omega), if_pos (by omega)]
  congr 1
  omega

/-- The index written. -/
theorem ringIdx_usedWritten :
    ((s.usedWritten used slot descIdx idx).bytesAt used).ringIdx = idx := by
  refine Buffer.le16_eq fun j hj => ?_
  rw [Guest.bytesAt, usedWritten, Guest.write_mem, if_pos (by omega)]
  congr 1
  omega

/-- Writing an entry of the used ring. -/
theorem Tracks.putUsed (h : s.Tracks b) (hphase : s.phase = .putting i rings availIdx descIdx)
    (hc : s.putUsed i rings availIdx descIdx = (a, s')) : s'.Tracks (b.after (.proceed, a)) := by
  have halong := h.along
  rw [hphase] at halong
  obtain ⟨rfl, _, hnum⟩ := halong
  rw [VringHost.putUsed] at hc
  rw [if_neg (by rwa [h.size])] at hc
  cases hc
  exact h.update ⟨rfl, rfl⟩ rfl rfl rfl

/-- Writing an entry is right if and only if the used ring is as the back end has left it. -/
theorem Tracks.puts_iff (h : s.Tracks b) (hphase : s.phase = .putting i rings availIdx descIdx)
    (hc : s.putUsed i rings availIdx descIdx = (a, s')) :
    s.Puts b rings a s' ↔ s.Conforms .proceed := by
  have halong := h.along
  rw [hphase] at halong
  obtain ⟨rfl, htaken, hnum⟩ := halong
  rw [VringHost.putUsed] at hc
  rw [if_neg (by rwa [h.size])] at hc
  cases hc
  rw [Conforms, hphase, Puts]
  dsimp only
  rw [ringIdx_usedWritten]
  refine ⟨?_, fun hidx => ?_⟩
  · rintro ⟨_, _, _, _, _, hidx⟩
    exact ((UInt16.add_left_inj 1).1 hidx).symm
  · refine ⟨_, rfl, ?_, ?_, ?_, ?_⟩
    · rw [VringBook.InRing, Vring.usedSlot, h.size]
      exact Nat.mod_lt _ (Nat.pos_of_ne_zero fun hzero => hnum (UInt32.toNat_inj.1 hzero))
    · rw [Vring.usedSlot, h.size, hidx]
    · rw [usedId_usedWritten, htaken]
    · rw [hidx]

/-! ### The entries taken and the entries used -/

end VringHost

namespace ServedRing

variable {start next : UInt16} {takes : List (UInt16 × UInt16)} {puts : List UInt16}

/-- A ring that begins. -/
theorem begins (start : UInt16) : ServedRing start start [] [] [] where
  order := rfl
  used := rfl
  next_eq := (UInt16.add_zero start).symm

/-- The entry that is next is taken. -/
theorem take (h : ServedRing start next takes puts []) (descIdx : UInt16) :
    ServedRing start next (takes ++ [(next, descIdx)]) puts [descIdx] where
  order := by
    -- no entry is in progress, so that as many have been taken as used
    have hlength := congrArg List.length h.used
    rw [List.append_nil, List.length_map] at hlength
    rw [List.map_append, h.order, List.length_append, List.length_singleton, List.range_succ,
      List.map_append, List.map_singleton, List.map_singleton, hlength, h.next_eq]
  used := by
    rw [List.map_append, h.used, List.append_nil]
    rfl
  next_eq := h.next_eq

/-- The entry in progress has produced its used entry. -/
theorem put {descIdx : UInt16} (h : ServedRing start next takes puts [descIdx]) :
    ServedRing start (next + 1) takes (puts ++ [descIdx]) [] where
  order := h.order
  used := by
    rw [List.append_nil]
    exact h.used
  next_eq := by
    rw [List.length_append, List.length_singleton, UInt16.ofNat_add, ← UInt16.add_assoc,
      ← h.next_eq]
    rfl

end ServedRing

namespace VringBook.Served

variable {b : VringBook} {pending : ℕ → List UInt16}

theorem blank_served : blank.Served fun _ => [] := fun _ => .begins 0

/-- A ring begins again. -/
theorem restart (h : b.Served fun _ => []) (i : ℕ) (base : UInt16) :
    (b.restart i base).Served fun _ => [] := by
  intro j
  rw [VringBook.restart]
  dsimp only
  by_cases hj : j = i
  · subst hj
    rw [Function.update_self, Function.update_self, Function.update_self, Function.update_self]
    exact .begins base
  · rw [Function.update_of_ne hj, Function.update_of_ne hj, Function.update_of_ne hj,
      Function.update_of_ne hj]
    exact h j

/-- An entry of the ring that is processed is taken. -/
theorem take (h : b.Served fun _ => []) (descIdx : UInt16) :
    (b.take descIdx).Served (Function.update (fun _ => []) b.ring [descIdx]) := by
  intro j
  rw [VringBook.take]
  dsimp only
  by_cases hj : j = b.ring
  · subst hj
    rw [Function.update_self, Function.update_self]
    exact (h b.ring).take descIdx
  · rw [Function.update_of_ne hj, Function.update_of_ne hj]
    exact h j

/-- The used entry of the one in progress is written. -/
theorem put (h : b.Served (Function.update (fun _ => []) b.ring [b.taken])) :
    b.put.Served fun _ => [] := by
  intro j
  have hring := h j
  rw [VringBook.put, consume]
  dsimp only
  by_cases hj : j = b.ring
  · subst hj
    rw [Function.update_self] at hring
    rw [Function.update_self, Function.update_self]
    exact hring.put
  · rw [Function.update_of_ne hj] at hring
    rw [Function.update_of_ne hj, Function.update_of_ne hj]
    exact hring

end VringBook.Served

namespace VringHost

variable {s s' : VringHost} {b : VringBook} {c : VringCall} {a : VringAnswer} {fuel i : ℕ}
  {rings : Rings} {availIdx descIdx : UInt16} {info : Ctrl → Command → Buffer}

/-- Outside of an entry, none is in progress. -/
theorem pending_idle (h : s.phase = .idle) : s.pending = fun _ => [] := by
  funext j
  rw [pending, h]

theorem pending_taking (h : s.phase = .taking i rings availIdx) : s.pending = fun _ => [] := by
  funext j
  rw [pending, h]

theorem pending_putting (h : s.phase = .putting i rings availIdx descIdx) :
    s.pending = Function.update (fun _ => []) i [descIdx] := by
  funext j
  rw [pending, h]
  dsimp only
  by_cases hj : i = j
  · subst hj
    rw [if_pos rfl, Function.update_self]
  · rw [if_neg hj, Function.update_of_ne (Ne.symm hj)]

theorem setVring_phase {index : UInt32} {f : Vring → Vring} :
    (s.setVring index f).phase = s.phase := by
  rw [VringHost.setVring]
  split_ifs <;> rfl

/-- A call that is handled outside of the loop leaves no entry in progress. -/
theorem pending_handle (hphase : s.phase = .idle) (hc : s.handle c = some (a, s')) :
    s'.pending = fun _ => [] := by
  cases c with
  | setConfig offset value =>
    obtain ⟨s₁, hs₁, heq⟩ := Option.map_eq_some_iff.1 hc
    cases heq
    rw [VringHost.setConfig] at hs₁
    split_ifs at hs₁
    · cases hs₁
      exact pending_idle hphase
    all_goals
      obtain ⟨ctrl, _, rfl⟩ := Option.map_eq_some_iff.1 hs₁
      exact pending_idle hphase
  | processVring i kicked =>
    rw [VringHost.handle, Option.some.injEq, VringHost.processVring] at hc
    dsimp only at hc
    split_ifs at hc
    · cases hc
      exact pending_idle hphase
    · split at hc
      · cases hc
        exact pending_idle hphase
      · cases hc
        exact pending_taking rfl
  | guestStores mem => cases hc
  | proceed => cases hc
  | getVringBase index =>
    cases hc
    exact pending_idle hphase
  | setMemTable guest =>
    cases hc
    exact pending_idle hphase
  | closeConnection =>
    cases hc
    exact pending_idle hphase
  | _ =>
    cases hc
    exact pending_idle (setVring_phase.trans hphase)

end VringHost

namespace VringBook.Served

variable {s s' : VringHost} {b : VringBook} {c : VringCall} {a : VringAnswer} {fuel i : ℕ}
  {rings : Rings} {availIdx descIdx : UInt16} {info : Ctrl → Command → Buffer}

/-- What is handled outside of the loop takes no entry; it may begin a ring again. -/
theorem handle (h : b.Served fun _ => []) (hc : s.handle c = some (a, s')) :
    (b.after (c, a)).Served fun _ => [] := by
  cases c with
  | setVringNum index num =>
    rw [after]
    split_ifs
    · exact h
    · exact h
  | setVringBase index base =>
    rw [after]
    split_ifs
    · exact h.restart _ _
    · exact h
  | closeConnection => exact fun _ => .begins 0
  | processVring i kicked =>
    cases a <;> exact h
  | proceed => cases hc
  | _ => exact h

/-- An entry that the back end expects is taken, or none is left. -/
theorem takeEntry (h : b.Served s.pending) (htracks : s.Tracks b) (hconf : s.Conforms .proceed)
    (hphase : s.phase = .taking i rings availIdx)
    (hc : s.takeEntry fuel info i rings availIdx = some (a, s')) :
    (b.after (.proceed, a)).Served s'.pending := by
  rw [VringHost.pending_taking hphase] at h
  have hring : b.ring = i := by
    have halong := htracks.along
    rwa [hphase] at halong
  subst hring
  rw [VringHost.Conforms, hphase] at hconf
  obtain ⟨_, rfl, rfl⟩ | ⟨hlast, ⟨hnum, _⟩ | ⟨_, hbuf, _⟩ | ⟨_, _, rfl, v, rfl⟩⟩ :=
    VringHost.takeEntry_cases hc
  · exact h
  · exact absurd hnum (hconf hlast).1
  · -- the entry would be skipped
    have hsome := (hconf hlast).2.2
    rw [hbuf] at hsome
    cases hsome
  · rw [VringHost.pending_putting rfl]
    exact h.take _

/-- A used entry is written for the entry in progress. -/
theorem putUsed (h : b.Served s.pending) (htracks : s.Tracks b)
    (hphase : s.phase = .putting i rings availIdx descIdx)
    (hc : s.putUsed i rings availIdx descIdx = (a, s')) :
    (b.after (.proceed, a)).Served s'.pending := by
  have halong := htracks.along
  rw [hphase] at halong
  obtain ⟨rfl, htaken, hnum⟩ := halong
  rw [VringHost.putUsed, if_neg (by rwa [htracks.size])] at hc
  cases hc
  rw [VringHost.pending_putting hphase, ← htaken] at h
  rw [VringHost.pending_taking rfl]
  exact h.put

/-- A call made as the back end expects it. -/
theorem exec (h : b.Served s.pending) (htracks : s.Tracks b) (hconf : s.Conforms c)
    (hc : s.exec info fuel c = some (a, s')) : (b.after (c, a)).Served s'.pending := by
  rw [VringHost.exec.eq_def] at hc
  split at hc
  · cases hc
    exact h
  · rw [VringHost.proceed] at hc
    split at hc
    · rename_i hphase
      exact h.takeEntry htracks hconf hphase hc
    · rename_i hphase
      exact h.putUsed htracks hphase (Option.some.inj hc)
    · cases hc
  · split at hc
    · rename_i hphase
      rw [VringHost.pending_idle hphase] at h
      rw [VringHost.pending_handle hphase hc]
      exact h.handle hc
    · cases hc

end VringBook.Served

namespace VringHost

variable {s s' : VringHost} {b : VringBook} {c : VringCall} {a : VringAnswer} {fuel : ℕ}
  {info : Ctrl → Command → Buffer}

/-! ### Runs -/

/-- The back end follows the books in every step. -/
theorem Tracks.exec (h : s.Tracks b) (hc : s.exec info fuel c = some (a, s')) :
    s'.Tracks (b.after (c, a)) := by
  rw [VringHost.exec.eq_def] at hc
  split at hc
  · cases hc
    exact ⟨h.next, h.num, h.along⟩
  · rw [VringHost.proceed] at hc
    split at hc
    · rename_i hphase
      exact h.takeEntry hphase hc
    · rename_i hphase
      exact h.putUsed hphase (Option.some.inj hc)
    · cases hc
  · split at hc
    · rename_i hphase
      exact h.handle hphase hc
    · cases hc

theorem run_tracks {v : Vhost} {allowed : VringHost → VringCall → Prop}
    {tr : List (VringCall × VringAnswer)} (h : (machine info).Run allowed (init v) tr s) :
    s.Tracks (vringBook tr) :=
  h.simulation (init_tracks v) fun _ _ _ _ _ htracks _ hstep =>
    hstep.elim fun _ hexec => htracks.exec hexec

/-- A ring that is not processed cannot be. -/
theorem starts_done {i : ℕ} {kicked : Bool} (hready : ¬ s.RingReady i kicked) :
    s.Starts i kicked .done := by
  refine ⟨iff_of_false hready ?_, fun _ heq => by cases heq⟩
  rintro ⟨_, heq⟩
  cases heq

theorem processVring_starts {i : ℕ} {kicked : Bool} (hc : s.processVring i kicked = (a, s')) :
    s.Starts i kicked a := by
  rw [processVring] at hc
  dsimp only at hc
  split_ifs at hc with hoff
  · cases hc
    refine starts_done ?_
    rintro ⟨henabled, hfd, hkicked, _⟩
    rw [henabled, hkicked] at hoff
    obtain heq | hlt | heq := hoff
    · cases heq
    · exact absurd hlt (not_lt.2 hfd)
    · cases heq
  · split at hc
    · rename_i hrings
      cases hc
      refine starts_done ?_
      rintro ⟨_, _, _, hsome⟩
      rw [hrings] at hsome
      cases hsome
    · rename_i rings hrings
      obtain ⟨desc, _, hrest⟩ := Option.bind_eq_some_iff.1 hrings
      obtain ⟨avail, havail, hrest⟩ := Option.bind_eq_some_iff.1 hrest
      obtain ⟨used, _, rfl⟩ := Option.map_eq_some_iff.1 hrest
      cases hc
      refine ⟨iff_of_true ?_ ⟨_, rfl⟩, fun _ heq => ⟨avail, havail, by cases heq; rfl⟩⟩
      obtain ⟨henabled, hrest⟩ := not_or.1 hoff
      obtain ⟨hfd, hkicked⟩ := not_or.1 hrest
      exact ⟨by simpa using henabled, not_lt.1 hfd, by simpa using hkicked,
        by rw [hrings, Option.isSome_some]⟩

/-- A step is right if and only if the guest uses the ring as the back end expects it. -/
theorem Tracks.right_iff (h : s.Tracks b) (hc : s.exec info fuel c = some (a, s')) :
    s.Right b a s' c ↔ s.Conforms c := by
  cases c with
  | proceed =>
    have hproceed : s.proceed fuel info = some (a, s') := hc
    rw [VringHost.proceed] at hproceed
    -- The two phases of an entry: it is taken, or its used entry is written.
    split at hproceed
    · rename_i i rings availIdx hphase
      rw [← h.takes_iff hphase hproceed, Right, hphase]
    · rename_i i rings availIdx descIdx hphase
      rw [← h.puts_iff hphase (Option.some.inj hproceed), Right, hphase]
    · cases hproceed
  | getVringBase index =>
    have hanswer : a = .base (if index.toNat < vhostMaxQueues then (s.vrings index.toNat).base
        else 0) := by
      rw [VringHost.exec.eq_def] at hc
      dsimp only at hc
      split at hc
      · cases hc
        rfl
      · cases hc
    refine forall_congr' fun hindex => ?_
    rw [hanswer, if_pos hindex, h.lastAvailIdx]
    refine ⟨?_, fun hbase => ⟨_, rfl, hbase⟩⟩
    rintro ⟨num, heq, hnum⟩
    cases heq
    exact hnum
  | processVring i kicked =>
    rw [VringHost.exec.eq_def] at hc
    dsimp only at hc
    split at hc
    · exact iff_of_true (processVring_starts (Option.some.inj hc)) trivial
    · cases hc
  | _ => exact Iff.rfl

/-- In every run that the back end expects, the entries are served. -/
theorem run_served {v : Vhost} {tr : List (VringCall × VringAnswer)}
    (h : (machine info).Run Conforms (init v) tr s) : (vringBook tr).Served s.pending := by
  have hboth := h.simulation (R := fun s b => s.Tracks b ∧ b.Served s.pending)
    (And.intro (init_tracks v) VringBook.Served.blank_served)
    fun s b c a s' hb hconf hs => hs.elim fun fuel hexec =>
      And.intro (hb.1.exec hexec) (hb.2.exec hb.1 hconf hexec)
  exact hboth.2

/-- An entry that is in progress can always be ended, by a used entry. -/
theorem Tracks.ends (h : s.Tracks b) {i : ℕ} {rings : Rings} {availIdx descIdx : UInt16}
    (hphase : s.phase = .putting i rings availIdx descIdx) :
    ∃ slot s', (machine info).step s .proceed (.put slot) s' := by
  have halong := h.along
  rw [hphase] at halong
  obtain ⟨rfl, _, hnum⟩ := halong
  refine ⟨(s.vrings b.ring).usedSlot, (s.putUsed b.ring rings availIdx descIdx).2, 0, ?_⟩
  rw [VringHost.exec, VringHost.proceed, hphase]
  dsimp only
  rw [VringHost.putUsed, if_neg (by rwa [h.size])]

/-! ### The entries come back -/

/-- A message, or the beginning of a ring, makes no FTL call. -/
theorem handle_ftl (hc : s.handle c = some (a, s')) : s'.ftl = s.ftl := by
  cases c with
  | setConfig offset value =>
    obtain ⟨s₁, hs₁, heq⟩ := Option.map_eq_some_iff.1 hc
    cases heq
    rw [setConfig] at hs₁
    split_ifs at hs₁
    · cases hs₁
      rfl
    all_goals
      obtain ⟨ctrl, _, rfl⟩ := Option.map_eq_some_iff.1 hs₁
      rfl
  | processVring i kicked =>
    rw [handle, Option.some.injEq, processVring] at hc
    dsimp only at hc
    split_ifs at hc
    · cases hc
      rfl
    · split at hc
      all_goals
        cases hc
        rfl
  | guestStores mem => cases hc
  | proceed => cases hc
  | getVringBase index =>
    cases hc
    rfl
  | setMemTable guest =>
    cases hc
    rfl
  | closeConnection =>
    cases hc
    rfl
  | _ =>
    cases hc
    rw [setVring]
    split_ifs
    all_goals rfl

/-- Executing a command keeps the device lively. -/
theorem execute_lively {buf : Hva} {i : ℕ} (h : s.ftl.Lively)
    (he : s.execute fuel info i buf = some s') : s'.ftl.Lively := by
  obtain ⟨r, hr, rfl⟩ := Option.map_eq_some_iff.1 he
  have hr' : r.2.ftl.Lively := Vhost.processNvmeCommand_lively h hr
  exact hr'

/-- Taking an entry keeps the device lively. -/
theorem takeEntry_lively {i : ℕ} {rings : Rings} {availIdx : UInt16} (h : s.ftl.Lively)
    (hc : s.takeEntry fuel info i rings availIdx = some (a, s')) : s'.ftl.Lively := by
  rw [takeEntry] at hc
  dsimp only at hc
  split_ifs at hc
  · cases hc
    exact h
  · cases hc
    exact h
  · split at hc
    · cases hc
      exact h
    · obtain ⟨s₁, hs₁, heq⟩ := Option.map_eq_some_iff.1 hc
      cases heq
      have h₁ : s₁.ftl.Lively := execute_lively h hs₁
      exact h₁

/-- The calls keep the device lively. -/
theorem exec_lively (h : s.ftl.Lively) (hc : s.exec info fuel c = some (a, s')) :
    s'.ftl.Lively := by
  rw [exec.eq_def] at hc
  split at hc
  · cases hc
    exact h
  · rw [proceed] at hc
    split at hc
    · exact takeEntry_lively h hc
    · rw [Option.some.injEq, putUsed] at hc
      split_ifs at hc
      all_goals
        cases hc
        exact h
    · cases hc
  · split at hc
    · rw [handle_ftl hc]
      exact h
    · cases hc

theorem lively_of_run {v : Vhost} {allowed : VringHost → VringCall → Prop}
    {tr : List (VringCall × VringAnswer)} (hrun : (machine info).Run allowed (init v) tr s)
    (h : v.ftl.Lively) : s.ftl.Lively :=
  hrun.invariant (P := fun s => s.ftl.Lively) h fun _ _ _ _ hs _ hstep =>
    hstep.elim fun _ hexec => exec_lively hs hexec

/-- Taking an entry comes back unless its command leaves the tables. -/
theorem takeEntry_iff {i : ℕ} {rings : Rings} {availIdx : UInt16} (h : s.ftl.Lively)
    (hphase : s.phase = .taking i rings availIdx) :
    (∃ fuel r, s.takeEntry fuel info i rings availIdx = some r) ↔ ¬ s.Overruns := by
  have hover : s.Overruns ↔ (s.vrings i).lastAvailIdx ≠ availIdx ∧ (s.vrings i).num ≠ 0 ∧
      ∃ buf, s.findBuffer rings (s.entry rings (s.vrings i).availSlot) = some buf ∧
        s.toVhost.Overruns i (s.guest.bytesAt buf).command := by
    refine ⟨?_, fun hrest => ⟨i, rings, availIdx, hphase, hrest⟩⟩
    rintro ⟨i', rings', availIdx', hphase', hrest⟩
    obtain ⟨rfl, rfl, rfl⟩ := VringPhase.taking.inj (hphase.symm.trans hphase')
    exact hrest
  rw [hover]
  by_cases hlast : (s.vrings i).lastAvailIdx = availIdx
  · simp only [takeEntry, if_pos hlast]
    exact iff_of_true ⟨0, _, rfl⟩ fun hrest => hrest.1 hlast
  by_cases hnum : (s.vrings i).num = 0
  · simp only [takeEntry, if_neg hlast, if_pos hnum]
    exact iff_of_true ⟨0, _, rfl⟩ fun hrest => hrest.2.1 hnum
  rw [and_iff_right hlast, and_iff_right hnum]
  simp only [takeEntry, if_neg hlast, if_neg hnum]
  cases hbuf : s.findBuffer rings (s.entry rings (s.vrings i).availSlot) with
  | none =>
    refine iff_of_true ⟨0, _, rfl⟩ ?_
    rintro ⟨buf, heq, _⟩
    cases heq
  | some buf =>
    -- the command of the entry is executed
    have hexists : (∃ buf', some buf = some buf' ∧
        s.toVhost.Overruns i (s.guest.bytesAt buf').command) ↔
        s.toVhost.Overruns i (s.guest.bytesAt buf).command := by simp
    have hreturns : (∃ fuel r, s.processNvmeCommand fuel info (s.guest.bytesAt buf).command i =
        some r) ↔ ¬ s.toVhost.Overruns i (s.guest.bytesAt buf).command :=
      Vhost.processNvmeCommand_iff h
    rw [hexists, ← hreturns]
    constructor
    · rintro ⟨fuel, r, hr⟩
      obtain ⟨s₁, hs₁, _⟩ := Option.map_eq_some_iff.1 hr
      obtain ⟨r₁, hr₁, _⟩ := Option.map_eq_some_iff.1 hs₁
      exact ⟨fuel, r₁, hr₁⟩
    · intro hcmd
      exact exists_map _ (exists_map _ hcmd)

/-- In the loop, what the back end does next comes back unless the command of the entry that is next
    leaves the tables. -/
theorem step_iff (h : s.ftl.Lively) :
    (∃ a s', (machine info).step s .proceed a s') ↔
      s.phase ≠ .idle ∧ s.phase ≠ .crashed ∧ ¬ s.Overruns := by
  have hswap : (∃ a s', (machine info).step s .proceed a s') ↔
      ∃ fuel r, s.proceed fuel info = some r := by
    constructor
    · rintro ⟨a, s', fuel, hexec⟩
      exact ⟨fuel, _, hexec⟩
    · rintro ⟨fuel, ⟨a, s'⟩, hexec⟩
      exact ⟨a, s', fuel, hexec⟩
  rw [hswap]
  simp only [proceed]
  cases hphase : s.phase with
  | idle => simp
  | crashed => simp
  | taking i rings availIdx => simpa using takeEntry_iff h hphase
  | putting i rings availIdx descIdx =>
    have hnone : ¬ s.Overruns := by
      rintro ⟨_, _, _, heq, _⟩
      rw [hphase] at heq
      cases heq
    simpa using hnone

/-- In every run, what the back end does is right if and only if the guest uses the ring as the back
    end expects it. In a run where the guest always does so, each entry that is available is taken
    once, in order, and produces one used entry. In the loop there is always a next step if the
    device is lively, but for an entry whose command leaves the tables of the FTL. -/
theorem vrings_served_iff {v : Vhost} :
    (∀ tr s c a s', (machine info).Run Machine.anyCall (init v) tr s →
      (machine info).step s c a s' → (s.Right (vringBook tr) a s' c ↔ s.Conforms c)) ∧
    (∀ tr s, (machine info).Run Conforms (init v) tr s → (vringBook tr).Served s.pending ∧
      ∀ i rings availIdx descIdx, s.phase = .putting i rings availIdx descIdx →
        ∃ slot s', (machine info).step s .proceed (.put slot) s') ∧
    ∀ tr s, (machine info).Run Machine.anyCall (init v) tr s → v.ftl.Lively →
      ((∃ a s', (machine info).step s .proceed a s') ↔
        s.phase ≠ .idle ∧ s.phase ≠ .crashed ∧ ¬ s.Overruns) := by
  refine ⟨fun tr s c a s' hrun hs => ?_, fun tr s hrun => ⟨run_served hrun, ?_⟩,
    fun tr s hrun hlively => step_iff (lively_of_run hrun hlively)⟩
  · obtain ⟨fuel, hexec⟩ := hs
    exact (run_tracks hrun).right_iff hexec
  · intro i rings availIdx descIdx hphase
    exact (run_tracks hrun).ends hphase

/-- A guest with the parts of a ring in its memory: one entry is available, with descriptor 1, and
    the third byte of the address of its buffer is `x`. -/
private def ringGuest (x : UInt8) : Guest where
  regions := [⟨0, 0x10000⟩]
  mem _ k := if k = 2 ∨ k = 4 then 1 else if k = 0x1011 then 0x30 else if k = 0x1012 then x else 0

private def ringVhost (x : UInt8) : Vhost where
  ftl := (Ftl.powerOn Ftl.fourRand fun _ => none).2
  guest := ringGuest x
  readBuf _ := 0
  writeBuf _ := 0
  ctrl := Ctrl.init fun _ => 0

/-- The guest has announced the ring, with four entries. -/
private def withRing (x : UInt8) : VringHost :=
  ((((init (ringVhost x)).setVring 0 fun q => { q with num := 4 }).setVring 0 fun q =>
    { q with descAddr := 0x1000, availAddr := 0, usedAddr := 0x2000 }).setVring 0 fun q =>
    { q with kickFd := 0 }).setVring 0 fun q => { q with enabled := true }

/-- Where the back end finds the parts of the ring. -/
private def ringParts : Rings := ⟨(0, 0x1000), (0, 0), (0, 0x2000)⟩

/-- The back end has begun to process the ring. -/
private def inLoop (x : UInt8) : VringHost := { withRing x with phase := .taking 0 ringParts 1 }

/-- The calls up to there, with their answers. -/
private def begun : List (VringCall × VringAnswer) :=
  [(.setVringNum 0 4, .done), (.setVringAddr 0 0x1000 0 0x2000, .done), (.setVringKick 0 0, .done),
    (.setVringEnable 0 1, .done), (.processVring 0 true, .started 1)]

/-- A run goes on by any call that is allowed and returns. -/
theorem vring_snoc {allowed : VringHost → VringCall → Prop} {v : Vhost}
    {tr : List (VringCall × VringAnswer)} (fuel : ℕ)
    (hrun : (machine info).Run allowed (init v) tr s) (hallowed : allowed s c)
    (hexec : s.exec info fuel c = some (a, s')) :
    (machine info).Run allowed (init v) (tr ++ [(c, a)]) s' :=
  hrun.snoc hallowed ⟨fuel, hexec⟩

theorem inLoop_run (info : Ctrl → Command → Buffer) (x : UInt8)
    (hrings : (withRing x).findRings ((withRing x).vrings 0) = some ringParts)
    (hidx : ((withRing x).guest.bytesAt (0, 0)).ringIdx = 1) :
    (machine info).Run Conforms (init (ringVhost x)) begun (inLoop x) := by
  have hring : (machine info).Run Conforms (init (ringVhost x)) (begun.take 4) (withRing x) :=
    vring_snoc 0 (vring_snoc 0 (vring_snoc 0 (vring_snoc 0 .nil trivial rfl) trivial rfl) trivial
      rfl) trivial rfl
  have hstart : (withRing x).processVring 0 true = (.started 1, inLoop x) := by
    have hready : ¬((!((withRing x).vrings 0).enabled) = true ∨
        ((withRing x).vrings 0).kickFd < 0 ∨ (!true) = true) :=
      show ¬((!true) = true ∨ (0 : ℤ) < 0 ∨ (!true) = true) by decide
    rw [processVring, if_neg hready, hrings]
    dsimp only
    rw [show ringParts.avail = (0, 0) from rfl, hidx]
    rfl
  exact vring_snoc 0 hring trivial (congrArg some hstart)

/-- The entry is taken, and its used entry is written. -/
theorem vrings_served_iff_one : ∃ s s' : VringHost,
    let tr := begun ++ [(.proceed, .taken 0 1), (.proceed, .put 0)]
    (machine fun _ _ _ => 0).Run Conforms (init (ringVhost 0)) tr s ∧
      (vringBook tr).Served s.pending ∧ (vringBook tr).takes 0 = [(0, 1)] ∧
      (vringBook tr).puts 0 = [1] ∧ (s.guest.bytesAt ringParts.used).usedId 0 = 1 ∧
      (s.guest.bytesAt ringParts.used).ringIdx = 1 ∧
      (machine fun _ _ _ => 0).step s .proceed .finished s' ∧
      s.Right (vringBook tr) .finished s' .proceed ∧ ¬ s.Overruns := by
  have hbegun := inLoop_run (fun _ _ _ => 0) 0 rfl rfl
  obtain ⟨s₁, hexec₁, hphase₁, hvrings₁, hused₁⟩ : ∃ s₁ : VringHost,
      (inLoop 0).exec (fun _ _ _ => 0) 0 .proceed = some (.taken 0 1, s₁) ∧
      s₁.phase = .putting 0 ringParts 1 1 ∧ s₁.vrings = (withRing 0).vrings ∧
      (s₁.guest.bytesAt ringParts.used).ringIdx = 0 :=
    ⟨_, rfl, rfl, rfl, by decide⟩
  have htake : (inLoop 0).Conforms .proceed := fun _ => ⟨by decide, by decide, by decide⟩
  have hput : s₁.Conforms .proceed := by
    rw [Conforms, hphase₁]
    dsimp only
    rw [hused₁, hvrings₁]
    rfl
  obtain ⟨s₂, hexec₂, hphase₂, hvrings₂, hid₂, hidx₂⟩ : ∃ s₂ : VringHost,
      s₁.exec (fun _ _ _ => 0) 0 .proceed = some (.put 0, s₂) ∧ s₂.phase = .taking 0 ringParts 1 ∧
      (s₂.vrings 0).lastAvailIdx = 1 ∧ (s₂.guest.bytesAt ringParts.used).usedId 0 = 1 ∧
      (s₂.guest.bytesAt ringParts.used).ringIdx = 1 := by
    rw [exec, proceed, hphase₁]
    dsimp only
    rw [putUsed, hvrings₁]
    exact ⟨_, rfl, rfl, rfl, usedId_usedWritten, ringIdx_usedWritten⟩
  have hexec₃ : s₂.exec (fun _ _ _ => 0) 0 .proceed =
      some (.finished, { s₂ with phase := .idle }) := by
    rw [exec, proceed, hphase₂]
    dsimp only
    rw [takeEntry, hvrings₂]
    rfl
  have hrun := vring_snoc 0 (vring_snoc 0 hbegun htake hexec₁) hput hexec₂
  have hany : (machine fun _ _ _ => 0).Run Machine.anyCall (init (ringVhost 0)) _ s₂ :=
    hrun.mono fun _ _ _ => trivial
  obtain ⟨ftl₀, hon, _⟩ := Ftl.Calm.powerOn Ftl.fourRand
    (fun _ => (by decide : getInitBadRatio .tlc ≤ 4 % 100)) fun _ => none
  have hlively : (ringVhost 0).ftl.Lively := by
    have hftl : (ringVhost 0).ftl = ftl₀ := congrArg Prod.snd hon
    rw [hftl]
    exact .of_run Ftl.fourRand_recurs hon .nil
  obtain ⟨hright, hserved, hreturns⟩ := vrings_served_iff (v := ringVhost 0)
  refine ⟨s₂, _, hrun, (hserved _ _ hrun).1, rfl, rfl, hid₂, hidx₂, ⟨0, hexec₃⟩,
    (hright _ _ _ _ _ hany ⟨0, hexec₃⟩).2 ?_, ?_⟩
  · rw [Conforms, hphase₂]
    exact fun hne => absurd hvrings₂ hne
  · exact ((hreturns _ _ hany hlively).1 ⟨_, _, 0, hexec₃⟩).2.2

/-- An entry whose buffer is not in the memory of the guest is skipped. -/
theorem not_vrings_served_iff : ¬ ∀ info v tr s c a s',
    (machine info).Run Machine.anyCall (init v) tr s → (machine info).step s c a s' →
      s.Right (vringBook tr) a s' c := by
  intro hall
  have hrun := (inLoop_run (fun _ _ _ => 0) 1 rfl rfl).mono fun _ _ _ => trivial
  obtain ⟨s', hs'⟩ : ∃ s', (machine fun _ _ _ => 0).step (inLoop 1) .proceed (.skipped 0 1) s' :=
    ⟨_, 0, rfl⟩
  obtain ⟨_, heq⟩ | ⟨_, _, _, heq⟩ := hall _ _ _ _ _ _ _ hrun hs'
  · cases heq
  · cases heq

end VringHost

end Nvme

end FtlFirmware
