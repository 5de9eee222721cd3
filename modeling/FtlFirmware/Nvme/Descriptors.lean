import FtlFirmware.Nvme.Replies

/-!
# The file descriptors of vfio-user

With its messages, a guest gives file descriptors to the back end. Those that the back end takes, it
holds until it closes them, and it has closed all of them when the guest is gone. The others are
lost: they stay open, and nothing ever closes them (`vfu_descriptors`).

The back end takes the first descriptor of a message that maps a region or sets the interrupts, and
no other. If a message is not whole, its descriptors are closed, but for the case that not even its
header is: then they are lost.
-/

namespace FtlFirmware

namespace Nvme

/-! ## Entries that are replaced -/

section

variable {α β ι : Type*} [DecidableEq ι] {l : List ι} {i : ι}

/-- An entry is replaced: what the new one gives comes in the place of what the old one gave. -/
theorem flatMap_update_perm (hl : l.Nodup) (hi : i ∈ l) (f : β → List α) (g : ι → β) (x : β) :
    (f (g i) ++ l.flatMap fun j => f (Function.update g i x j)).Perm
      (f x ++ l.flatMap fun j => f (g j)) := by
  induction l with
  | nil => exact absurd hi List.not_mem_nil
  | cons j l ih =>
    obtain ⟨hj, hl⟩ := List.nodup_cons.1 hl
    rw [List.flatMap_cons, List.flatMap_cons]
    by_cases hij : i = j
    · subst hij
      have hrest : (l.flatMap fun j => f (Function.update g i x j)) = l.flatMap fun j => f (g j) :=
        List.flatMap_congr fun k hk => by rw [Function.update_of_ne (ne_of_mem_of_not_mem hk hj)]
      rw [Function.update_self, hrest]
      exact List.perm_append_comm_assoc _ _ _
    · have hil : i ∈ l := (List.mem_cons.1 hi).resolve_left hij
      rw [Function.update_of_ne fun h => hij h.symm]
      exact (List.perm_append_comm_assoc _ _ _).trans
        (((ih hl hil).append_left _).trans (List.perm_append_comm_assoc _ _ _))

/-- An entry is removed, and the last one put in its place. -/
theorem flatMap_remove_perm {n k : ℕ} (hk : k < n) (g : ℕ → Option α) :
    ((g k).toList ++ (List.range (n - 1)).flatMap fun j => ((if k < n - 1 then
      Function.update g k (g (n - 1)) else Function.update g k none) j).toList).Perm
      ((List.range n).flatMap fun j => (g j).toList) := by
  obtain ⟨n, rfl⟩ := Nat.exists_eq_succ_of_ne_zero (Nat.ne_zero_of_lt hk)
  rw [Nat.succ_sub_one, List.range_succ, List.flatMap_append, List.flatMap_singleton]
  split_ifs with hlast
  · exact (flatMap_update_perm List.nodup_range (List.mem_range.2 hlast) _ g (g n)).trans
      List.perm_append_comm
  · obtain rfl : k = n := by omega
    have hrest : ((List.range k).flatMap fun j => (Function.update g k none j).toList) =
        (List.range k).flatMap fun j => (g j).toList :=
      List.flatMap_congr fun j hj => by rw [Function.update_of_ne (List.mem_range.1 hj).ne]
    rw [hrest]
    exact List.perm_append_comm

end

/-! ## What is held -/

/-- The file descriptors of the regions. -/
def VfuServer.mapped (s : VfuServer) : List ℕ :=
  (List.range s.table.count).flatMap fun i => (s.dmaFds i).toList

/-- The file descriptors that the back end holds. -/
def VfuServer.held (s : VfuServer) : List ℕ := s.mapped ++ s.msixEvtfd.toList

/-- The file descriptors that have come and are accounted for. -/
def VfuServer.kept (s : VfuServer) : List ℕ := s.closed ++ s.held

/-- Whether a message is one of those that a file descriptor is taken from. -/
def VfuMsg.TakesFd (msg : VfuMsg) : Prop := vfuCommand msg.bytes = 2 ∨ vfuCommand msg.bytes = 8

instance : DecidablePred VfuMsg.TakesFd := fun _ => inferInstanceAs (Decidable (_ ∨ _))

/-- The file descriptors that are taken from a message. -/
def VfuMsg.taken (msg : VfuMsg) : List ℕ := if msg.TakesFd then msg.fd.toList else []

/-- The file descriptors of a message that are lost. -/
def VfuMsg.lost (msg : VfuMsg) : List ℕ := if msg.TakesFd then msg.fds.tail else msg.fds

theorem taken_append_lost (msg : VfuMsg) : msg.taken ++ msg.lost = msg.fds := by
  rw [VfuMsg.taken, VfuMsg.lost, VfuMsg.fd]
  split_ifs
  · cases msg.fds <;> rfl
  · rfl

variable {s s' : VfuServer} {msg : VfuMsg} {reply : VfuReply} {fuel : ℕ}
  {info : Ctrl → Command → Buffer}

/-- A file descriptor is accounted for as often as it has been closed, or is held. -/
theorem count_kept (a : ℕ) : s.kept.count a =
    s.closed.count a + s.mapped.count a + s.msixEvtfd.toList.count a := by
  rw [VfuServer.kept, VfuServer.held, List.count_append, List.count_append, Nat.add_assoc]

/-- File descriptors are closed that have not been held. -/
theorem closed_kept {fds : List ℕ} :
    ({ s with closed := s.closed ++ fds } : VfuServer).kept.Perm (s.kept ++ fds) := by
  have hkept : ({ s with closed := s.closed ++ fds } : VfuServer).kept =
      s.closed ++ (fds ++ s.held) := List.append_assoc _ _ _
  rw [hkept, VfuServer.kept, List.append_assoc]
  exact List.Perm.append_left _ List.perm_append_comm

theorem close_kept {fd : Option ℕ} : (s.close fd).kept.Perm (s.kept ++ fd.toList) := closed_kept

theorem closeEvtfd_kept : s.closeEvtfd.kept.Perm s.kept := by
  refine List.perm_iff_count.2 fun a => ?_
  have hclosed : s.closeEvtfd.closed.count a = s.closed.count a + s.msixEvtfd.toList.count a :=
    List.count_append
  have hmapped : s.closeEvtfd.mapped = s.mapped := rfl
  have hevtfd : s.closeEvtfd.msixEvtfd.toList.count a = 0 := rfl
  rw [count_kept, count_kept, hclosed, hmapped, hevtfd]
  omega

theorem handleSetReset_kept : s.handleSetReset.2.kept.Perm s.kept := closeEvtfd_kept

/-- What is taken is held where the next region is put, or it is closed. -/
theorem handleDmaMap_kept : (s.handleDmaMap msg).2.kept.Perm (s.kept ++ msg.fd.toList) := by
  rw [VfuServer.handleDmaMap]
  split_ifs with hfull
  · exact close_kept
  · split
    · exact close_kept
    · refine List.perm_iff_count.2 fun a => ?_
      have hcount (r : Region) : (Vfio.dmaMap s.table r true).2.count = s.table.count + 1 := by
        rw [Vfio.dmaMap, if_neg hfull]
        rfl
      have hold : ((List.range s.table.count).flatMap fun i =>
          (Function.update s.dmaFds s.table.count msg.fd i).toList) = s.mapped :=
        List.flatMap_congr fun i hi => by
          rw [Function.update_of_ne (List.mem_range.1 hi).ne]
      simp only [List.count_append, count_kept, VfuServer.mapped, hcount, List.range_succ,
        List.flatMap_append, hold, List.flatMap_singleton, Function.update_self]
      omega

/-- What is taken from the entry that is removed is closed. -/
theorem handleDmaUnmap_kept : (s.handleDmaUnmap msg).2.kept.Perm s.kept := by
  rw [VfuServer.handleDmaUnmap]
  dsimp only
  split
  · exact List.Perm.refl _
  · rename_i i hfind
    refine List.perm_iff_count.2 fun a => ?_
    have hi : i < s.table.count := List.mem_range.1 (List.mem_of_find?_eq_some hfind)
    have hcount : (Vfio.dmaUnmap s.table ⟨msg.payload.le64 8, msg.payload.le64 16⟩).count =
        s.table.count - 1 := by
      rw [Vfio.dmaUnmap, hfind]
      dsimp only
      split_ifs <;> rfl
    have hperm := (flatMap_remove_perm hi s.dmaFds).count_eq a
    simp only [List.count_append, count_kept, VfuServer.mapped, VfuServer.close, hcount] at hperm ⊢
    omega

/-- What is taken takes the place of the old one, which is closed, or it is closed itself. -/
theorem handleDeviceSetIrqs_kept :
    (s.handleDeviceSetIrqs msg).2.kept.Perm (s.kept ++ msg.fd.toList) := by
  rw [VfuServer.handleDeviceSetIrqs]
  dsimp only
  split_ifs
  · exact close_kept
  · exact close_kept
  · refine List.perm_iff_count.2 fun a => ?_
    have hold := (closeEvtfd_kept (s := s)).count_eq a
    have hnone : s.closeEvtfd.msixEvtfd.toList.count a = 0 := rfl
    rw [count_kept, hnone] at hold
    rw [count_kept, List.count_append, ← hold]
    rfl
  · exact close_kept.trans (closeEvtfd_kept.append_right _)

/-- When the guest is gone, nothing is held. -/
theorem closeConnection_held : s.closeConnection.held = [] := rfl

theorem closeConnection_kept : s.closeConnection.kept.Perm s.kept := by
  refine List.perm_iff_count.2 fun a => ?_
  have hclosed : s.closeConnection.closed.count a =
      s.closed.count a + s.mapped.count a + s.msixEvtfd.toList.count a := by
    rw [← List.count_append, ← List.count_append]
    rfl
  rw [VfuServer.kept, closeConnection_held, List.append_nil, hclosed, count_kept]

/-- The back end goes on accounting for all that it has, and for what it takes from a message. -/
theorem dispatch_kept (h : s.dispatch msg fuel info = some (reply, s')) :
    s'.kept.Perm (s.kept ++ msg.taken) := by
  have taken (h : msg.TakesFd) : msg.taken = msg.fd.toList := if_pos h
  have untaken (h : ¬ msg.TakesFd) : s.kept ++ msg.taken = s.kept := by
    rw [VfuMsg.taken, if_neg h, List.append_nil]
  obtain ⟨hne, ⟨d, rfl⟩, -⟩ | ⟨hn, h⟩ | ⟨hn, h⟩ | ⟨hn, h⟩ | ⟨hn, h⟩ := dispatch_cases h
  · rw [untaken (not_or.2 hne)]
    exact List.Perm.refl _
  · rw [untaken (by rw [VfuMsg.TakesFd, hn]; decide), (Prod.mk.inj h).2]
    exact handleSetReset_kept
  · rw [taken (.inl hn), (Prod.mk.inj h).2]
    exact handleDmaMap_kept
  · rw [untaken (by rw [VfuMsg.TakesFd, hn]; decide), (Prod.mk.inj h).2]
    exact handleDmaUnmap_kept
  · rw [taken (.inr hn), (Prod.mk.inj h).2]
    exact handleDeviceSetIrqs_kept

/-! ## Runs -/

/-- The file descriptors that are lost when the back end looks at what has arrived: those of a
    message that are not taken, and all of them if not even the header has arrived. -/
def VfuConn.drops (c : VfuConn) (input : VfuInput) : List ℕ :=
  match vfuSize vfuMaxPayloadSize c.pending with
  | .frame n => (⟨input, c.pending.take n⟩ : VfuMsg).lost
  | _ => if c.pending.length < vfuHdrSize then input.fds else []

/-- The file descriptors that are lost when a call is made. -/
def VfuConn.loses (c : VfuConn) : VfuCall → List ℕ
  | .connect | .arrive _ | .hangUp => []
  | .process input => if c.connected = true ∧ c.pending ≠ [] then c.drops input else []

/-- The connection, with the file descriptors that have been lost. -/
structure VfuBooks where
  conn : VfuConn
  lost : List ℕ

/-- The back end as a machine, with what it loses. -/
def VfuBooks.machine (info : Ctrl → Command → Buffer) : Machine VfuBooks VfuCall Unit where
  step b call x b' :=
    (VfuConn.machine info).step b.conn call x b'.conn ∧ b'.lost = b.lost ++ b.conn.loses call

/-- All descriptors that have come are accounted for, or lost, and the back end holds none of them
    unless it is connected. -/
structure VfuBooks.Balanced (b : VfuBooks) : Prop where
  perm : b.conn.given.Perm (b.conn.server.kept ++ b.lost)
  released : b.conn.connected = false → b.conn.server.held = []

variable {b b' : VfuBooks}

theorem VfuBooks.Balanced.receive {input : VfuInput} (h : b.Balanced) {c' : VfuConn}
    (hconnected : b.conn.connected = true) (hc' : b.conn.receive fuel info input = some c') :
    VfuBooks.Balanced ⟨c', b.lost ++ b.conn.drops input⟩ := by
  rw [VfuConn.receive] at hc'
  split at hc'
  · rename_i n hsize
    rw [VfuConn.drops, hsize]
    obtain ⟨⟨reply, s⟩, hdispatch, rfl⟩ := Option.map_eq_some_iff.1 hc'
    refine ⟨List.perm_iff_count.2 fun a => ?_,
      fun hgone => absurd (hconnected.symm.trans hgone) (by decide)⟩
    have hgiven := h.perm.count_eq a
    have hkept := (dispatch_kept hdispatch).count_eq a
    have hfds := congrArg (List.count a) (taken_append_lost ⟨input, b.conn.pending.take n⟩)
    simp only [VfuConn.answer, List.count_append] at hgiven hkept hfds ⊢
    omega
  · rename_i hnone
    obtain rfl := Option.some.inj hc'
    refine ⟨List.perm_iff_count.2 fun a => ?_, fun _ => closeConnection_held⟩
    have hgiven := h.perm.count_eq a
    have hdrops : b.conn.drops input =
        if b.conn.pending.length < vfuHdrSize then input.fds else [] := by
      rw [VfuConn.drops]
      split
      · rename_i n hsize
        exact (hnone n hsize).elim
      · rfl
    rw [hdrops, List.count_append, List.count_append, closeConnection_kept.count_eq a]
    rw [List.count_append] at hgiven
    split_ifs
    · rw [List.count_append]
      omega
    · rw [closed_kept.count_eq a, List.count_append]
      simp only [List.append_nil]
      omega

theorem VfuBooks.Balanced.exec {call : VfuCall} (h : b.Balanced) {c' : VfuConn}
    (hc' : b.conn.exec fuel info call = some c') :
    VfuBooks.Balanced ⟨c', b.lost ++ b.conn.loses call⟩ := by
  cases call with
  | connect =>
    obtain rfl := Option.some.inj hc'
    rw [VfuConn.loses, List.append_nil]
    split_ifs with hconnected
    · exact h
    · exact ⟨h.perm, fun _ => h.released (Bool.eq_false_iff.2 hconnected)⟩
  | arrive bytes =>
    obtain rfl := Option.some.inj hc'
    rw [VfuConn.loses, List.append_nil]
    split_ifs <;> exact ⟨h.perm, h.released⟩
  | process input =>
    obtain ⟨hproc, hc'⟩ | ⟨hproc, hc'⟩ := ite_eq_iff.1 hc'
    · rw [VfuConn.loses, if_pos hproc]
      exact h.receive hproc.1 hc'
    · obtain rfl := Option.some.inj hc'
      rw [VfuConn.loses, if_neg hproc, List.append_nil]
      exact h
  | hangUp =>
    obtain rfl := Option.some.inj hc'
    rw [VfuConn.loses, List.append_nil]
    split_ifs
    · exact ⟨h.perm.trans (closeConnection_kept.symm.append_right _), fun _ => closeConnection_held⟩
    · exact h

/-- Each file descriptor that has come with a message is closed, held or lost, and it is that only
    once. When the guest is gone, none is held: those that are still open are the lost ones. -/
theorem vfu_descriptors {device : VfioDevice} {tr : List (VfuCall × Unit)}
    (h : (VfuBooks.machine info).Run Machine.anyCall ⟨VfuConn.init device, []⟩ tr b) :
    b.conn.given.Perm (b.conn.server.closed ++ b.conn.server.held ++ b.lost) ∧
      (b.conn.connected = false → b.conn.server.held = []) := by
  have hbalanced : b.Balanced := h.invariant ⟨List.Perm.refl _, fun _ => rfl⟩
    fun b call _ b' hb _ hstep => by
      obtain ⟨⟨fuel, hexec⟩, hlost⟩ := hstep
      have hb' := hb.exec hexec
      rwa [← hlost] at hb'
  exact ⟨hbalanced.perm, hbalanced.released⟩

/-- A file descriptor that comes with a message of the first command is lost. -/
theorem vfu_descriptors_lost : ∃ (device : VfioDevice) (tr : List (VfuCall × Unit)) (b : VfuBooks),
    (VfuBooks.machine fun _ _ => bufferOf []).Run Machine.anyCall ⟨VfuConn.init device, []⟩ tr b ∧
      b.lost = [5] ∧ b.conn.given.Perm (b.conn.server.closed ++ b.conn.server.held ++ b.lost) := by
  obtain ⟨ftl⟩ : Nonempty Ftl := ⟨(Ftl.powerOn (fun _ => 0) fun _ => none).2⟩
  let device := VfioDevice.init (Vfio.init (fun _ => 0) ftl ⟨[], fun _ _ => 0⟩) initPciConfig
  let input : VfuInput := ⟨[5], none, fun _ => bufferOf [], bufferOf []⟩
  let info : Ctrl → Command → Buffer := fun _ _ => bufferOf []
  let bytes := [0x10007, 16, 0, 0].flatMap wordBytes
  let c₀ : VfuConn := { VfuConn.init device with connected := true }
  let c₁ : VfuConn := { c₀ with pending := bytes, stream := bytes }
  obtain ⟨c₂, hexec, -⟩ : ∃ c', c₁.exec 0 info (.process input) = some c' ∧ _ :=
    exec_version (r := bytes) (n := 16) rfl rfl (by decide) (by decide)
  have hloses : c₁.loses (.process input) = [5] := by
    have hsize : vfuSize vfuMaxPayloadSize c₁.pending = .frame 16 :=
      show vfuSize vfuMaxPayloadSize bytes = .frame 16 by decide
    rw [VfuConn.loses, if_pos ⟨rfl, List.cons_ne_nil _ _⟩, VfuConn.drops, hsize]
    exact if_neg (show ¬ (vfuCommand bytes = 2 ∨ vfuCommand bytes = 8) by decide)
  have next {b : VfuBooks} (call : VfuCall) (b' : VfuBooks)
      (h : ∃ tr, (VfuBooks.machine info).Run Machine.anyCall ⟨VfuConn.init device, []⟩ tr b)
      (hexec : b.conn.exec 0 info call = some b'.conn)
      (hlost : b'.lost = b.lost ++ b.conn.loses call) :
      ∃ tr, (VfuBooks.machine info).Run Machine.anyCall ⟨VfuConn.init device, []⟩ tr b' :=
    h.elim fun tr h => ⟨tr ++ [(call, ())], h.snoc trivial ⟨⟨0, hexec⟩, hlost⟩⟩
  have hconnect := next .connect ⟨c₀, []⟩ ⟨[], .nil⟩ rfl rfl
  have harrive := next (.arrive bytes) ⟨c₁, []⟩ hconnect rfl rfl
  obtain ⟨tr, hrun⟩ := next (.process input) ⟨c₂, [5]⟩ harrive hexec
    ((List.nil_append _).trans hloses).symm
  exact ⟨device, tr, _, hrun, rfl, (vfu_descriptors hrun).1⟩

end Nvme

end FtlFirmware
