import FtlFirmware.Nvme.Exchange
import FtlFirmware.Nvme.Messages
import FtlFirmware.Nvme.Regions

/-!
# The answers of vfio-user

However the messages of a guest arrive, the back end handles them one after another, each as a
whole, and none twice. It answers each of them that is to be answered, in the same order and with
its number, and the guest can take the answers apart again (`vfu_replies`).
-/

namespace FtlFirmware

namespace Nvme

open Framing

/-! ## Messages as frames -/

variable {maxPayload n : ℕ} {r : List UInt8}

theorem vfuSize_eq_frame : vfuSize maxPayload r = .frame n ↔
    n = (wordAt r 1).toNat ∧ vfuHdrSize ≤ n ∧ n ≤ vfuHdrSize + maxPayload ∧ n ≤ r.length := by
  rw [vfuSize]
  dsimp only
  split_ifs <;> simp only [FrameSize.frame.injEq, false_iff] <;> omega

theorem vfuSize_eq_bad : vfuSize maxPayload r = .bad ↔
    vfuHdrSize ≤ r.length ∧
      ((wordAt r 1).toNat < vfuHdrSize ∨ vfuHdrSize + maxPayload < (wordAt r 1).toNat) := by
  rw [vfuSize]
  dsimp only
  split_ifs <;> simp only [true_iff, false_iff] <;> omega

/-- What is received tells the same when more has been. -/
theorem stable_vfuSize (maxPayload : ℕ) : Stable (vfuSize maxPayload) where
  pos r n h := Nat.lt_of_lt_of_le (by decide) (vfuSize_eq_frame.1 h).2.1
  le r n h := (vfuSize_eq_frame.1 h).2.2.2
  bad r s h := by
    obtain ⟨hhdr, hsize⟩ := vfuSize_eq_bad.1 h
    have hword : wordAt (r ++ s) 1 = wordAt r 1 :=
      wordAt_append (Nat.le_trans (by decide : 8 ≤ vfuHdrSize) hhdr) s
    rw [vfuSize_eq_bad, hword, List.length_append]
    exact ⟨Nat.le_add_right_of_le hhdr, hsize⟩
  frame r s n h := by
    obtain ⟨hn, hhdr, hmax, hle⟩ := vfuSize_eq_frame.1 h
    have hword : wordAt (r ++ s) 1 = wordAt r 1 :=
      wordAt_append (Nat.le_trans (by decide : 8 ≤ vfuHdrSize) (hhdr.trans hle)) s
    rw [vfuSize_eq_frame, hword, List.length_append]
    exact ⟨hn, hhdr, hmax, Nat.le_add_right_of_le hle⟩

/-- A frame is one also without what follows it. -/
theorem vfuSize_take (h : vfuSize maxPayload r = .frame n) :
    vfuSize maxPayload (r.take n) = .frame (r.take n).length := by
  obtain ⟨hn, hhdr, hmax, hle⟩ := vfuSize_eq_frame.1 h
  have hlen : (r.take n).length = n := List.length_take_of_le hle
  have hword : wordAt (r.take n) 1 = wordAt r 1 := by
    conv_rhs => rw [← List.take_append_drop n r]
    exact (wordAt_append (Nat.le_trans (by decide : 8 ≤ vfuHdrSize)
      (hhdr.trans_eq hlen.symm)) _).symm
  rw [hlen, vfuSize_eq_frame, hword, hlen]
  exact ⟨hn, hhdr, hmax, Nat.le_refl n⟩

/-! ## Answers as messages -/

/-- The size of the payload of an answer at most. -/
abbrev vfuMaxReply : ℕ := 16 + vfioBar0Size

section

variable {msg : VfuMsg} {reply : VfuReply}

theorem reply_length : (reply.bytes msg).length = vfuHdrSize + reply.payload.length := by
  simp only [VfuReply.bytes, List.length_append, length_wordBytes]

/-- An answer has the number and the command of the message, and is marked as an answer. -/
theorem reply_id : vfuId (reply.bytes msg) = vfuId msg.bytes ∧ vfuFlags (reply.bytes msg) = 1 := by
  rw [vfuFlags, VfuReply.bytes]
  constructor
  · simp only [List.append_assoc]
    exact wordAt_cons_zero _ _
  · simp only [List.append_assoc, wordAt_cons_succ, wordAt_cons_zero]

/-- The header of an answer says how long it is. -/
theorem reply_frame (h : reply.payload.length ≤ vfuMaxReply) :
    vfuSize vfuMaxReply (reply.bytes msg) = .frame (reply.bytes msg).length := by
  have hword : wordAt (reply.bytes msg) 1 = UInt32.ofNat (vfuHdrSize + reply.payload.length) := by
    rw [VfuReply.bytes]
    simp only [List.append_assoc, wordAt_cons_succ, wordAt_cons_zero]
  rw [vfuSize_eq_frame, hword, reply_length, UInt32.toNat_ofNat_of_lt' (Nat.lt_of_le_of_lt
    (Nat.add_le_add_left h vfuHdrSize) (by decide))]
  omega

end

/-- The payload of an answer about a region has room for the fields and for all of BAR 0. -/
theorem regionRead_length (d : VfioDevice) (msg : RegionMsg) :
    (d.handleRegionRead msg).2.1.payload.length ≤ vfuMaxReply := by
  have hle : (d.handleRegionRead msg).2.1.size.toNat ≤ vfuMaxReply := by
    obtain ⟨c, hc, hbound⟩ : ∃ c : UInt32,
        (if msg.count > 0x10000 then 0x10000 else msg.count) = c ∧ c.toNat ≤ vfioBar0Size := by
      refine ⟨_, rfl, ?_⟩
      split_ifs with h
      · exact Nat.le_refl _
      · rwa [GT.gt, UInt32.lt_iff_toNat_lt, Nat.not_lt] at h
    have hroom (c : UInt32) (h : c.toNat ≤ vfioBar0Size) : (16 + c).toNat ≤ vfuMaxReply := by
      rw [UInt32.toNat_add]
      exact Nat.le_trans (Nat.mod_le _ _) (Nat.add_le_add_left h 16)
    rw [VfioDevice.handleRegionRead]
    simp only [hc]
    split_ifs
    · exact hroom _ (Nat.le_trans (pciCount_spec msg.offset hbound).1 hbound)
    · exact hroom c hbound
    · exact hroom c hbound
  have hmin : 16 ≤ vfuMaxReply := by decide
  simp only [RegionReply.payload, longBytes, List.length_append, length_wordBytes,
    Buffer.length_bytes]
  omega

/-- The back end when it handles a message, with the memory of the guest as it is then. -/
def VfuServer.facing (s : VfuServer) (msg : VfuMsg) : VfuServer :=
  { s with device.vfio.guest := s.table.guest msg.mem }

variable {s s' : VfuServer} {msg : VfuMsg} {reply : VfuReply} {fuel : ℕ}
  {info : Ctrl → Command → Buffer}

/-- What a message can do: but for four commands, only the device changes. -/
theorem dispatch_cases (h : s.dispatch msg fuel info = some (reply, s')) :
    ((vfuCommand msg.bytes ≠ 2 ∧ vfuCommand msg.bytes ≠ 8) ∧ (∃ d, s' = { s with device := d }) ∧
      reply.payload.length ≤ vfuMaxReply) ∨
    (vfuCommand msg.bytes = 13 ∧ (reply, s') = (s.facing msg).handleSetReset) ∨
    (vfuCommand msg.bytes = 2 ∧ (reply, s') = (s.facing msg).handleDmaMap msg) ∨
    (vfuCommand msg.bytes = 3 ∧ (reply, s') = (s.facing msg).handleDmaUnmap msg) ∨
    (vfuCommand msg.bytes = 8 ∧ (reply, s') = (s.facing msg).handleDeviceSetIrqs msg) := by
  have only {r : VfuReply} {d : VfioDevice}
      (hne : vfuCommand msg.bytes ≠ 2 ∧ vfuCommand msg.bytes ≠ 8)
      (hr : r.payload.length ≤ vfuMaxReply)
      (h : some (r, { s with device := d }) = some (reply, s')) :
      (vfuCommand msg.bytes ≠ 2 ∧ vfuCommand msg.bytes ≠ 8) ∧ (∃ d, s' = { s with device := d }) ∧
        reply.payload.length ≤ vfuMaxReply := by
    obtain ⟨rfl, rfl⟩ := Prod.mk.inj (Option.some.inj h)
    exact ⟨hne, ⟨d, rfl⟩, hr⟩
  rw [VfuServer.dispatch] at h
  -- One command after the other, in the order of the handler.
  change (if _ then _ else _) = _ at h
  obtain ⟨hn, h⟩ | ⟨-, h⟩ := ite_eq_iff.1 h
  · exact .inl (only (by rw [hn]; decide) (by decide) h)
  obtain ⟨hn, h⟩ | ⟨-, h⟩ := ite_eq_iff.1 h
  · exact .inr (.inl ⟨hn, (Option.some.inj h).symm⟩)
  obtain ⟨hn, h⟩ | ⟨h₂, h⟩ := ite_eq_iff.1 h
  · exact .inr (.inr (.inl ⟨hn, (Option.some.inj h).symm⟩))
  obtain ⟨hn, h⟩ | ⟨-, h⟩ := ite_eq_iff.1 h
  · exact .inr (.inr (.inr (.inl ⟨hn, (Option.some.inj h).symm⟩)))
  obtain ⟨hn, h⟩ | ⟨-, h⟩ := ite_eq_iff.1 h
  · exact .inl (only (by rw [hn]; decide) (by decide) h)
  obtain ⟨hn, h⟩ | ⟨-, h⟩ := ite_eq_iff.1 h
  · exact .inl (only (by rw [hn]; decide) (Nat.le_of_ble_eq_true rfl) h)
  obtain ⟨hn, h⟩ | ⟨-, h⟩ := ite_eq_iff.1 h
  · exact .inl (only (by rw [hn]; decide) (by decide) h)
  obtain ⟨hn, h⟩ | ⟨-, h⟩ := ite_eq_iff.1 h
  · exact .inl (only (by rw [hn]; decide) (Nat.le_of_ble_eq_true rfl) h)
  obtain ⟨hn, h⟩ | ⟨h₈, h⟩ := ite_eq_iff.1 h
  · exact .inr (.inr (.inr (.inr ⟨hn, (Option.some.inj h).symm⟩)))
  obtain ⟨hn, h⟩ | ⟨-, h⟩ := ite_eq_iff.1 h
  · exact .inl (only (by rw [hn]; decide) (regionRead_length _ _) h)
  obtain ⟨hn, h⟩ | ⟨-, h⟩ := ite_eq_iff.1 h
  · obtain ⟨d, -, h⟩ := Option.map_eq_some_iff.1 h
    exact .inl (only (by rw [hn]; decide) (by decide) (congrArg some h))
  obtain ⟨-, h⟩ | ⟨-, h⟩ := ite_eq_iff.1 h
  · exact .inl (only ⟨h₂, h₈⟩ (by decide) h)
  · exact .inl (only ⟨h₂, h₈⟩ (by decide) h)

/-- The answers to these four have no payload. -/
theorem dispatch_length (h : s.dispatch msg fuel info = some (reply, s')) :
    reply.payload.length ≤ vfuMaxReply := by
  have empty {r : VfuReply × VfuServer} (hr : r.1.payload = []) (h : (reply, s') = r) :
      reply.payload.length ≤ vfuMaxReply := by
    subst h
    exact (congrArg List.length hr).trans_le (Nat.zero_le _)
  obtain ⟨-, -, h⟩ | ⟨-, h⟩ | ⟨-, h⟩ | ⟨-, h⟩ | ⟨-, h⟩ := dispatch_cases h
  · exact h
  · exact empty rfl h
  · refine empty ?_ h
    rw [VfuServer.handleDmaMap]
    split_ifs
    · rfl
    · split <;> rfl
  · refine empty ?_ h
    rw [VfuServer.handleDmaUnmap]
    split <;> rfl
  · refine empty ?_ h
    rw [VfuServer.handleDeviceSetIrqs]
    dsimp only
    split_ifs <;> rfl

/-! ## Runs -/

/-- What has arrived are the messages that have been handled, and what is pending; the answers are
    those to the messages. -/
structure Answered (c : VfuConn) : Prop where
  stream : c.stream = (c.handled.map VfuMsg.bytes).flatten ++ c.pending
  whole : ∀ msg ∈ c.handled, vfuSize vfuMaxPayloadSize msg.bytes = .frame msg.bytes.length
  ids : c.sent.map vfuId = (c.handled.filter VfuMsg.expectsReply).map fun msg => vfuId msg.bytes
  answers : ∀ a ∈ c.sent, vfuFlags a = 1 ∧ vfuSize vfuMaxReply a = .frame a.length

theorem answered_nil {c : VfuConn} (hstream : c.stream = c.pending) (hhandled : c.handled = [])
    (hsent : c.sent = []) : Answered c where
  stream := by rw [hstream, hhandled]; rfl
  whole msg h := absurd h (by rw [hhandled]; exact List.not_mem_nil)
  ids := by rw [hsent, hhandled]; rfl
  answers a h := absurd h (by rw [hsent]; exact List.not_mem_nil)

variable {c c' : VfuConn}

/-- A message that is handled is the first of those pending. -/
theorem Answered.receive {input : VfuInput} (h : Answered c)
    (hc' : c.receive fuel info input = some c') : Answered c' := by
  rw [VfuConn.receive] at hc'
  split at hc'
  · rename_i n hsize
    obtain ⟨⟨reply, s⟩, hdispatch, rfl⟩ := Option.map_eq_some_iff.1 hc'
    have hreply : vfuSize vfuMaxReply (reply.bytes ⟨input, c.pending.take n⟩) = .frame _ :=
      reply_frame (dispatch_length hdispatch)
    constructor
    · simp [VfuConn.answer, h.stream, List.append_assoc]
    · simp only [VfuConn.answer, List.mem_append, List.mem_singleton]
      rintro m (hm | rfl)
      · exact h.whole m hm
      · exact vfuSize_take hsize
    · -- the answer, if there is one, has the number of the message
      have hid : vfuId (reply.bytes ⟨input, c.pending.take n⟩) = _ ∧ _ := reply_id
      simp only [VfuConn.answer, List.map_append, List.filter_append, h.ids]
      congr 1
      split_ifs with hexpects <;> simp [hexpects, hid.1]
    · simp only [VfuConn.answer, List.mem_append]
      rintro a (ha | ha)
      · exact h.answers a ha
      · split_ifs at ha
        · obtain rfl := List.mem_singleton.1 ha
          exact ⟨reply_id.2, hreply⟩
        · exact absurd ha List.not_mem_nil
  · obtain rfl := Option.some.inj hc'
    exact ⟨h.stream, h.whole, h.ids, h.answers⟩

theorem Answered.exec {call : VfuCall} (h : Answered c) (hc' : c.exec fuel info call = some c') :
    Answered c' := by
  cases call with
  | connect =>
    obtain rfl := Option.some.inj hc'
    split_ifs
    · exact h
    · exact answered_nil rfl rfl rfl
  | arrive bytes =>
    obtain rfl := Option.some.inj hc'
    split_ifs
    · refine ⟨?_, h.whole, h.ids, h.answers⟩
      rw [← List.append_assoc, ← h.stream]
    · exact h
  | process input =>
    obtain ⟨-, hc'⟩ | ⟨-, hc'⟩ := ite_eq_iff.1 hc'
    · exact h.receive hc'
    · exact Option.some.inj hc' ▸ h
  | hangUp =>
    obtain rfl := Option.some.inj hc'
    split_ifs
    · exact ⟨h.stream, h.whole, h.ids, h.answers⟩
    · exact h

/-- What has been handled are the first messages of all that has arrived on the connection, and
    what has been sent are the answers to those that are to be answered, which the guest can take
    apart. -/
theorem vfu_replies {device : VfioDevice} {tr : List (VfuCall × Unit)}
    (h : (VfuConn.machine info).Run Machine.anyCall (VfuConn.init device) tr c) :
    frames (vfuSize vfuMaxPayloadSize) c.stream =
        (c.handled.map VfuMsg.bytes ++ (frames (vfuSize vfuMaxPayloadSize) c.pending).1,
          (frames (vfuSize vfuMaxPayloadSize) c.pending).2) ∧
      c.sent.map vfuId = (c.handled.filter VfuMsg.expectsReply).map (fun msg => vfuId msg.bytes) ∧
      (∀ a ∈ c.sent, vfuFlags a = 1) ∧
      frames (vfuSize vfuMaxReply) c.sent.flatten = (c.sent, some []) := by
  have hanswered : Answered c := h.invariant (answered_nil rfl rfl rfl)
    fun c call _ c' hc _ hstep => hstep.elim fun fuel hstep => hc.exec hstep
  refine ⟨?_, hanswered.ids, fun a ha => (hanswered.answers a ha).1, ?_⟩
  · rw [hanswered.stream, frames_flatten (stable_vfuSize _)]
    exact List.forall_mem_map.2 hanswered.whole
  · have hsent := frames_flatten (stable_vfuSize vfuMaxReply)
      (fun a ha => (hanswered.answers a ha).2) []
    rwa [List.append_nil, frames_more (r := []) rfl, List.append_nil] at hsent

/-- A message of the first command, which asks for the version, is handled. -/
theorem exec_version {input : VfuInput} (hconnected : c.connected = true) (hpending : c.pending = r)
    (hsize : vfuSize vfuMaxPayloadSize r = .frame n) (hcommand : vfuCommand (r.take n) = 1) :
    ∃ c', c.exec fuel info (.process input) = some c' ∧ c'.connected = true ∧
      c'.pending = r.drop n ∧ c'.handled.length = c.handled.length + 1 ∧
      c'.sent.length = c.sent.length + if vfuFlags (r.take n) &&& 0x10 = 0 then 1 else 0 := by
  subst hpending
  have hne : c.pending ≠ [] := by
    intro h
    rw [h] at hsize
    cases hsize
  have hdispatch : c.server.dispatch ⟨input, c.pending.take n⟩ fuel info =
      some (.ok (wordBytes 0), c.server.facing ⟨input, c.pending.take n⟩) := if_pos hcommand
  have hexec : c.exec fuel info (.process input) = c.receive fuel info input :=
    if_pos ⟨hconnected, hne⟩
  rw [hexec, VfuConn.receive, hsize]
  dsimp only
  rw [hdispatch]
  refine ⟨_, rfl, hconnected, rfl, List.length_append, ?_⟩
  simp only [VfuConn.answer, List.length_append, VfuMsg.expectsReply, decide_eq_true_eq]
  split_ifs <;> rfl

/-- Two messages, the first of which is to be answered, that arrive in other parts. -/
theorem vfu_replies_two : ∃ (device : VfioDevice) (tr : List (VfuCall × Unit)) (c : VfuConn),
    (VfuConn.machine fun _ _ => bufferOf []).Run Machine.anyCall (VfuConn.init device) tr c ∧
      c.handled.length = 2 ∧ c.sent.length = 1 ∧
      frames (vfuSize vfuMaxReply) c.sent.flatten = (c.sent, some []) := by
  obtain ⟨ftl⟩ : Nonempty Ftl := ⟨(Ftl.powerOn (fun _ => 0) fun _ => none).2⟩
  let device := VfioDevice.init (Vfio.init (fun _ => 0) ftl ⟨[], fun _ _ => 0⟩) initPciConfig
  let input : VfuInput := ⟨[], none, fun _ => bufferOf [], bufferOf []⟩
  let info : Ctrl → Command → Buffer := fun _ _ => bufferOf []
  have next {c : VfuConn} (call : VfuCall) (c' : VfuConn)
      (h : ∃ tr, (VfuConn.machine info).Run Machine.anyCall (VfuConn.init device) tr c)
      (hexec : c.exec 0 info call = some c') :
      ∃ tr, (VfuConn.machine info).Run Machine.anyCall (VfuConn.init device) tr c' :=
    h.elim fun tr h => ⟨tr ++ [(call, ())], h.snoc trivial ⟨0, hexec⟩⟩
  let first := [0x10007, 16, 0, 0, 0x10008].flatMap wordBytes
  let rest := [16, 0x10, 0].flatMap wordBytes
  let c₀ : VfuConn := { VfuConn.init device with connected := true }
  have hconnect := next .connect c₀ ⟨[], .nil⟩ rfl
  let c₁ : VfuConn := { c₀ with pending := first, stream := first }
  have harrive := next (.arrive first) c₁ hconnect rfl
  obtain ⟨c₂, hexec, hconnected, hpending, hhandled, hsent⟩ :
      ∃ c', c₁.exec 0 info (.process input) = some c' ∧ c'.connected = true ∧
        c'.pending = first.drop 16 ∧ _ :=
    exec_version (r := first) (n := 16) rfl rfl (by decide) (by decide)
  let c₃ : VfuConn := { c₂ with pending := c₂.pending ++ rest, stream := c₂.stream ++ rest }
  have harrive' := next (.arrive rest) c₃ (next (.process input) c₂ harrive hexec)
    (congrArg some (if_pos hconnected))
  obtain ⟨c₄, hexec', -, -, hhandled', hsent'⟩ :
      ∃ c', c₃.exec 0 info (.process input) = some c' ∧ c'.connected = true ∧
        c'.pending = (first.drop 16 ++ rest).drop 16 ∧ _ :=
    exec_version (r := first.drop 16 ++ rest) (n := 16) hconnected (congrArg (· ++ rest) hpending)
      (by decide) (by decide)
  obtain ⟨tr, hrun⟩ := next (.process input) c₄ harrive' hexec'
  have hlen : c₄.sent.length = 1 := by
    rw [hsent', show c₃.sent.length = _ from hsent, if_pos (by decide), if_neg (by decide)]
    rfl
  exact ⟨device, tr, c₄, hrun, hhandled'.trans (congrArg (· + 1) hhandled), hlen,
    (vfu_replies hrun).2.2.2⟩

end Nvme

end FtlFirmware
