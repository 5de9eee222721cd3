import FtlFirmware.Nvme.Pdu

/-!
# Segmentation

The PDUs of a stream of bytes, cut as their headers announce (`pdus`), and what handling them in
turn leads to (`serve`). A connection handles these PDUs, each with its announced bytes, if and
only if every one of them has as many bytes as its handler looks at, and no initialization
request has more than its structure (`WellSized`). Then it does not matter in which parts the
stream is received (`pdu_segments`).
-/

namespace FtlFirmware

namespace Nvme

/-! ## Bytes that agree -/

namespace Buffer

variable {b b' : Buffer} {n k : ℕ}

/-- The first `n` bytes are the same. -/
def Agree (n : ℕ) (b b' : Buffer) : Prop := ∀ k < n, b k = b' k

theorem Agree.mono (h : Agree n b b') (hk : k ≤ n) : Agree k b b' :=
  fun j hj => h j (Nat.lt_of_lt_of_le hj hk)

theorem Agree.le32 (h : Agree n b b') (hk : k + 4 ≤ n) : b.le32 k = b'.le32 k := by
  rw [Buffer.le32, Buffer.le32, h k (by omega), h (k + 1) (by omega), h (k + 2) (by omega),
    h (k + 3) (by omega)]

/-- The bytes of a buffer, as a buffer. -/
theorem agree_bufferOf_bytes (b : Buffer) (n : ℕ) : Agree n (bufferOf (b.bytes n)) b := by
  intro k hk
  rw [bufferOf, List.getD_eq_getElem?_getD, Buffer.bytes, List.getElem?_map,
    List.getElem?_range hk]
  rfl

@[simp]
theorem bytes_bufferOf (l : List UInt8) : (bufferOf l).bytes l.length = l := by
  refine List.ext_getElem (Buffer.length_bytes _ _) fun j h₁ h₂ => ?_
  rw [List.getElem_of_eq (show (bufferOf l).bytes l.length = (List.range l.length).map (bufferOf l)
    from rfl) h₁, List.getElem_map, List.getElem_range, bufferOf, List.getD_eq_getElem?_getD,
    List.getElem?_eq_getElem h₂, Option.getD_some]

/-- More bytes follow. -/
theorem agree_bufferOf_append (r s : List UInt8) :
    Agree r.length (bufferOf r) (bufferOf (r ++ s)) :=
  fun k hk => by
    rw [bufferOf, bufferOf, List.getD_eq_getElem?_getD, List.getD_eq_getElem?_getD,
      List.getElem?_append_left hk]

theorem bytes_take (b : Buffer) (h : k ≤ n) : (b.bytes n).take k = b.bytes k := by
  rw [Buffer.bytes, ← List.map_take, List.take_range, Nat.min_eq_left h]
  rfl

end Buffer

/-! ## The PDUs of a stream -/

/-- What the bytes received tell about the first PDU: its announced length, which is neither zero
    nor beyond the size of the buffer. -/
def pduSize (r : List UInt8) : FrameSize :=
  if r.length < pduHdrSize then .more
  else if (bufferOf r).plen = 0 ∨ (bufferOf r).plen > tcpBufferSize then .bad
  else if r.length < (bufferOf r).plen then .more
  else .frame (bufferOf r).plen

theorem plen_append {r : List UInt8} (s : List UInt8) (h : pduHdrSize ≤ r.length) :
    (bufferOf (r ++ s)).plen = (bufferOf r).plen := by
  rw [Buffer.plen, Buffer.plen, ((Buffer.agree_bufferOf_append r s).mono h).le32 (by decide)]

/-- The length of a PDU that has been received. -/
theorem pduSize_frame {r : List UInt8} {n : ℕ} : pduSize r = .frame n ↔
    pduHdrSize ≤ r.length ∧ (bufferOf r).plen = n ∧ 0 < n ∧ n ≤ tcpBufferSize ∧
      n ≤ r.length := by
  rw [pduSize]
  by_cases h₁ : r.length < pduHdrSize
  · rw [if_pos h₁]
    exact ⟨fun h => absurd h (by simp), fun h => absurd h.1 (Nat.not_le_of_lt h₁)⟩
  rw [if_neg h₁]
  by_cases h₂ : (bufferOf r).plen = 0 ∨ (bufferOf r).plen > tcpBufferSize
  · rw [if_pos h₂]
    refine ⟨fun h => absurd h (by simp), fun hframe => ?_⟩
    omega
  rw [if_neg h₂]
  by_cases h₃ : r.length < (bufferOf r).plen
  · rw [if_pos h₃]
    refine ⟨fun h => absurd h (by simp), fun hframe => ?_⟩
    omega
  rw [if_neg h₃, FrameSize.frame.injEq]
  constructor <;> omega

theorem pduSize_bad {r : List UInt8} : pduSize r = .bad ↔
    pduHdrSize ≤ r.length ∧ ((bufferOf r).plen = 0 ∨ (bufferOf r).plen > tcpBufferSize) := by
  rw [pduSize]
  by_cases h₁ : r.length < pduHdrSize
  · rw [if_pos h₁]
    exact ⟨fun h => absurd h (by simp), fun h => absurd h.1 (Nat.not_le_of_lt h₁)⟩
  rw [if_neg h₁]
  by_cases h₂ : (bufferOf r).plen = 0 ∨ (bufferOf r).plen > tcpBufferSize
  · rw [if_pos h₂]
    exact ⟨fun _ => ⟨Nat.le_of_not_lt h₁, h₂⟩, fun _ => rfl⟩
  rw [if_neg h₂]
  refine ⟨fun h => ?_, fun h => absurd h.2 h₂⟩
  split at h <;> cases h

theorem pduSize_stable : Framing.Stable pduSize where
  pos _ _ h := (pduSize_frame.1 h).2.2.1
  le _ _ h := (pduSize_frame.1 h).2.2.2.2
  bad r s h := by
    obtain ⟨hlen, hbad⟩ := pduSize_bad.1 h
    rw [pduSize_bad, plen_append s hlen, List.length_append]
    exact ⟨Nat.le_add_right_of_le hlen, hbad⟩
  frame r s n h := by
    obtain ⟨hlen, hplen, hpos, hle, hall⟩ := pduSize_frame.1 h
    rw [pduSize_frame, plen_append s hlen, List.length_append]
    exact ⟨Nat.le_add_right_of_le hlen, hplen, hpos, hle, Nat.le_add_right_of_le hall⟩

/-! ## Handling the PDUs of a stream -/

namespace Target

variable (t : Target) (fuel i : ℕ) (sends : ℕ → Bool)

/-- Handles a PDU, given by its bytes. -/
def servePdu (sent : Bool) (pdu : List UInt8) : Option Target :=
  match (bufferOf pdu).call i sent with
  | none => some t
  | some call => (tcpExec fuel t call).map Prod.snd

/-- Handles PDUs in turn, after `n` PDUs have been handled. -/
def serve : ℕ → Target → List (List UInt8) → Option Target
  | _, t, [] => some t
  | n, t, pdu :: pdus =>
    match t.servePdu fuel i (sends n) pdu with
    | none => none
    | some t => serve (n + 1) t pdus

/-- A PDU has as many bytes as its handler looks at. An initialization request has no more than its
    structure. -/
def Fits (pdu : List UInt8) : Prop :=
  t.reach i (bufferOf pdu) ≤ pdu.length ∧
    ((bufferOf pdu).pduType = 0x00 → pdu.length ≤ icreqSize)

/-- Every PDU fits, in the state in which it is handled. -/
def WellSized : ℕ → Target → List (List UInt8) → Prop
  | _, _, [] => True
  | n, t, pdu :: pdus => t.Fits i pdu ∧
      ∀ t', t.servePdu fuel i (sends n) pdu = some t' → WellSized (n + 1) t' pdus

variable {t fuel i sends} {n : ℕ} {fs gs : List (List UInt8)}

theorem serve_append : serve fuel i sends n t (fs ++ gs) =
    (serve fuel i sends n t fs).bind fun t' => serve fuel i sends (n + fs.length) t' gs := by
  induction fs generalizing n t with
  | nil => rfl
  | cons f fs ih =>
    rw [List.cons_append, serve, serve]
    cases t.servePdu fuel i (sends n) f with
    | none => rfl
    | some t' =>
      dsimp only
      rw [ih, List.length_cons, Nat.add_right_comm, Nat.add_assoc]

theorem wellSized_append : WellSized fuel i sends n t (fs ++ gs) ↔
    WellSized fuel i sends n t fs ∧ ∀ t', serve fuel i sends n t fs = some t' →
      WellSized fuel i sends (n + fs.length) t' gs := by
  induction fs generalizing n t with
  | nil => exact ⟨fun h => ⟨trivial, fun t' ht => Option.some.inj ht ▸ h⟩, fun h => h.2 t rfl⟩
  | cons f fs ih =>
    rw [List.cons_append, WellSized, WellSized, and_assoc, List.length_cons,
      Nat.add_comm fs.length 1, ← Nat.add_assoc]
    refine and_congr_right fun _ => ?_
    rw [serve]
    cases t.servePdu fuel i (sends n) f with
    | none => simp only [reduceCtorEq, false_implies, implies_true, and_self]
    | some t₁ =>
      simp only [Option.some.injEq, forall_eq']
      exact ih

/-- A handler looks at the header at least. -/
theorem pduHdrSize_le_reach (t : Target) (i : ℕ) (b : Buffer) : pduHdrSize ≤ t.reach i b := by
  unfold reach
  dsimp only
  split_ifs
  all_goals simp only [pduHdrSize]
  all_goals omega

/-- What a handler looks at depends on nothing else. -/
theorem reach_eq {b b' : Buffer} {k : ℕ} (h : Buffer.Agree k b b') (hk : t.reach i b ≤ k) :
    t.reach i b' = t.reach i b := by
  have h8 : pduHdrSize ≤ k := (pduHdrSize_le_reach t i b).trans hk
  simp only [pduHdrSize] at h8
  have htype : b'.pduType = b.pduType := (h 0 (by omega)).symm
  have hpdo : b'.pdo = b.pdo := congrArg UInt8.toNat (h 3 (by omega)).symm
  have hplen : b'.plen = b.plen := congrArg UInt32.toNat (h.le32 (k := 4) (by omega)).symm
  by_cases h6 : b.pduType = 0x06
  · -- the fields of a data PDU come next
    have h20 : 20 ≤ k := by
      refine Nat.le_trans ?_ hk
      unfold reach
      rw [h6]
      dsimp only
      split_ifs
      all_goals simp_all
    have hdatao : b'.h2cData.datao = b.h2cData.datao :=
      congrArg UInt32.toNat (h.le32 (k := 12) (by omega)).symm
    have hdatal : b'.h2cData.datal = b.h2cData.datal :=
      congrArg UInt32.toNat (h.le32 (k := 16) (by omega)).symm
    have hsome : b'.h2cData.data.isSome = b.h2cData.data.isSome := by
      rw [Buffer.h2cData, Buffer.h2cData, Buffer.data, Buffer.data, hpdo, hplen]
      dsimp only
      split <;> rfl
    unfold reach
    dsimp only
    rw [htype, hdatao, hdatal, hsome, hpdo]
  · unfold reach
    dsimp only
    rw [htype, if_neg h6, if_neg h6]

end Target

/-! ## One PDU -/

/-- A PDU has been handled with its announced bytes, which have been taken out. -/
def Dispatch.Exact (d : Dispatch) : Prop := d.removed = d.plen ∧ d.bytes.length = d.plen

/-- The PDU with its bytes. -/
def Dispatch.whole (pdu : List UInt8) : Dispatch := ⟨pdu.length, pdu.length, pdu⟩

namespace Wire

variable {fuel i : ℕ} {sends : ℕ → Bool} {w w' : Wire} {n : ℕ}

/-- The bytes that have been received and not been taken out. -/
def received (w : Wire) : List UInt8 := w.buf.bytes w.len

@[simp]
theorem length_received (w : Wire) : w.received.length = w.len := Buffer.length_bytes _ _

/-- Taking out the first bytes moves the others to the start. -/
theorem bytes_moved (b : Buffer) (len n : ℕ) :
    Buffer.bytes (fun k => if k < len - n then b (k + n) else b k) (len - n) =
      (b.bytes len).drop n := by
  refine List.ext_getElem ?_ fun j h₁ h₂ => ?_
  · rw [Buffer.length_bytes, List.length_drop, Buffer.length_bytes]
  · have hj : j < len - n := by
      rw [Buffer.length_bytes] at h₁
      exact h₁
    simp only [Buffer.bytes, List.getElem_drop, List.getElem_map, List.getElem_range, if_pos hj]
    rw [Nat.add_comm]

/-- A PDU is handled with its announced bytes if and only if it fits. Then the rest is left. -/
theorem dispatch_spec (hplen : w.buf.plen = n) (hpos : 0 < n)
    (h : w.dispatch fuel i sends = some w') :
    ∃ d, w'.log = w.log ++ [d] ∧ w'.closed = w.closed ∧
      (d.Exact ↔ w.target.Fits i (w.buf.bytes n)) ∧
      (d.Exact → d = .whole (w.buf.bytes n) ∧
        w.target.servePdu fuel i (sends w.log.length) (w.buf.bytes n) = some w'.target ∧
        w'.len = w.len - n ∧ w'.received = w.received.drop n) := by
  have hagree := Buffer.agree_bufferOf_bytes w.buf n
  have htype : (bufferOf (w.buf.bytes n)).pduType = w.buf.pduType := hagree 0 hpos
  obtain ⟨t, ht, rfl⟩ := Option.map_eq_some_iff.1 h
  refine ⟨_, rfl, rfl, ?_, fun hexact => ?_⟩
  · rw [Target.Fits, htype, Buffer.length_bytes, Dispatch.Exact, Buffer.length_bytes, hplen,
      and_comm, Buffer.removed, hplen]
    dsimp only
    refine and_congr ⟨fun hmax => ?_, fun hreach => ?_⟩ ?_
    · -- the bytes looked at are among the announced ones
      have hle : w.target.reach i w.buf ≤ n := hmax ▸ Nat.le_max_right _ _
      rwa [Target.reach_eq (fun k hk => (hagree k hk).symm) hle]
    · rw [← Target.reach_eq hagree hreach] at hreach
      exact Nat.max_eq_left hreach
    · by_cases hicreq : w.buf.pduType = 0x00 ∧ n > icreqSize
      · rw [if_pos hicreq]
        exact ⟨fun h => absurd h (Nat.ne_of_lt hicreq.2),
          fun h => absurd (h hicreq.1) (Nat.not_le_of_lt hicreq.2)⟩
      · rw [if_neg hicreq]
        exact ⟨fun _ h0 => Nat.le_of_not_lt fun hlt => hicreq ⟨h0, hlt⟩, fun _ => rfl⟩
  · obtain ⟨hremoved, hlen⟩ := hexact
    dsimp only at hremoved hlen
    rw [Buffer.length_bytes] at hlen
    rw [hlen, hplen] at ht
    refine ⟨?_, ht, ?_, ?_⟩
    · rw [Dispatch.whole, Buffer.length_bytes, hremoved, hlen, hplen]
    · dsimp only
      rw [hremoved, hplen]
    · rw [received, hremoved, hplen]
      exact bytes_moved w.buf w.len n

theorem plen_received (w : Wire) (h : pduHdrSize ≤ w.len) :
    (bufferOf w.received).plen = w.buf.plen := by
  have hagree := (Buffer.agree_bufferOf_bytes w.buf w.len).mono h
  exact congrArg UInt32.toNat (hagree.le32 (k := 4) (by decide))

/-- The connection cuts what it has received as `pduSize` tells. -/
theorem dispatchAll_succ : dispatchAll fuel i sends (n + 1) w =
    match pduSize w.received with
    | .more => some w
    | .bad => some { w with closed := true }
    | .frame _ => (w.dispatch fuel i sends).bind (dispatchAll fuel i sends n) := by
  rw [dispatchAll, pduSize, length_received]
  by_cases h₁ : w.len < pduHdrSize
  · rw [if_pos h₁, if_pos h₁]
  rw [if_neg h₁, if_neg h₁, plen_received w (Nat.le_of_not_lt h₁)]
  by_cases h₂ : w.buf.plen = 0 ∨ w.buf.plen > tcpBufferSize
  · rw [if_pos h₂, if_pos h₂]
  rw [if_neg h₂, if_neg h₂]
  by_cases h₃ : w.len < w.buf.plen
  · rw [if_pos h₃, if_pos h₃]
  rw [if_neg h₃, if_neg h₃]
  cases w.dispatch fuel i sends with
  | none => rfl
  | some w' => rfl

theorem plen_of_frame {k : ℕ} (h : pduSize w.received = .frame k) : w.buf.plen = k := by
  obtain ⟨hlen, hplen, -⟩ := pduSize_frame.1 h
  rw [length_received] at hlen
  rw [← plen_received w hlen, hplen]

/-- Handling the PDUs in the buffer adds to the PDUs handled. -/
theorem dispatchAll_log (h : dispatchAll fuel i sends n w = some w') : w.log <+: w'.log := by
  induction n generalizing w with
  | zero => exact Option.some.inj h ▸ List.prefix_refl _
  | succ n ih =>
    rw [dispatchAll_succ] at h
    cases hsize : pduSize w.received with
    | more =>
      rw [hsize] at h
      exact Option.some.inj h ▸ List.prefix_refl _
    | bad =>
      rw [hsize] at h
      exact Option.some.inj h ▸ List.prefix_refl _
    | frame k =>
      rw [hsize] at h
      obtain ⟨w₁, hdisp, hrest⟩ := Option.bind_eq_some_iff.1 h
      have hpos := (pduSize_frame.1 hsize).2.2.1
      obtain ⟨d, hlog, -⟩ := dispatch_spec (plen_of_frame hsize) hpos hdisp
      exact List.IsPrefix.trans ⟨[d], hlog.symm⟩ (ih hrest)

/-- What handling the PDUs `pdus`, with `rest` left, leads to: they are handled in turn, and the
    rest is in the buffer, or the connection is closed. -/
structure Handles (fuel i : ℕ) (sends : ℕ → Bool) (w w' : Wire) (pdus : List (List UInt8))
    (rest : Option (List UInt8)) : Prop where
  log : w'.log = w.log ++ pdus.map .whole
  serve : Target.serve fuel i sends w.log.length w.target pdus = some w'.target
  rest : rest = if w'.closed then none else some w'.received

/-- The PDUs in the buffer are handled with their announced bytes if and only if all of them fit.
    Then they are the PDUs of the bytes received. -/
theorem dispatchAll_spec (hopen : w.closed = false) (hn : w.len < n)
    (h : dispatchAll fuel i sends n w = some w') :
    ∃ ds, w'.log = w.log ++ ds ∧
      ((∀ d ∈ ds, d.Exact) ↔
        Target.WellSized fuel i sends w.log.length w.target
          (Framing.frames pduSize w.received).1) ∧
      ((∀ d ∈ ds, d.Exact) → Handles fuel i sends w w' (Framing.frames pduSize w.received).1
        (Framing.frames pduSize w.received).2) := by
  -- PDU by PDU, as long as a whole one has been received.
  induction n generalizing w with
  | zero => exact absurd hn (Nat.not_lt_zero _)
  | succ n ih =>
    rw [dispatchAll_succ] at h
    cases hsize : pduSize w.received with
    | more =>
      rw [hsize] at h
      obtain rfl := Option.some.inj h
      rw [Framing.frames_more hsize]
      refine ⟨[], (List.append_nil _).symm, ⟨fun _ => trivial, fun _ => by simp⟩, fun _ => ?_⟩
      exact ⟨(List.append_nil _).symm, rfl, by rw [hopen]; rfl⟩
    | bad =>
      rw [hsize] at h
      obtain rfl := Option.some.inj h
      rw [Framing.frames_bad hsize]
      refine ⟨[], (List.append_nil _).symm, ⟨fun _ => trivial, fun _ => by simp⟩, fun _ => ?_⟩
      exact ⟨(List.append_nil _).symm, rfl, rfl⟩
    | frame k =>
      rw [hsize] at h
      obtain ⟨w₁, hdisp, hrest⟩ := Option.bind_eq_some_iff.1 h
      obtain ⟨-, -, hpos, -, hle⟩ := pduSize_frame.1 hsize
      rw [length_received] at hle
      obtain ⟨d, hlog, hclosed, hfits, hexact⟩ := dispatch_spec (plen_of_frame hsize) hpos hdisp
      have htake : w.received.take k = w.buf.bytes k := Buffer.bytes_take w.buf hle
      rw [Framing.frames_frame pduSize_stable hsize, htake]
      by_cases hd : d.Exact
      · -- the rest of the bytes is what is left
        obtain ⟨rfl, hserve, hlen, hreceived⟩ := hexact hd
        obtain ⟨ds, hlog', hiff, hhandles⟩ := ih (hclosed.trans hopen) (by omega) hrest
        rw [hreceived, hlog, List.length_append, List.length_singleton] at hiff
        rw [hreceived] at hhandles
        refine ⟨.whole (w.buf.bytes k) :: ds, ?_, ?_, fun hall => ?_⟩
        · rw [hlog', hlog, List.append_assoc, List.singleton_append]
        · rw [List.forall_mem_cons, Target.WellSized, hiff]
          refine and_congr hfits ⟨fun h t ht => ?_, fun h => h _ hserve⟩
          rw [hserve] at ht
          exact Option.some.inj ht ▸ h
        · obtain ⟨hl, hs, hr⟩ := hhandles (List.forall_mem_cons.1 hall).2
          refine ⟨?_, ?_, hr⟩
          · rw [hl, hlog, List.append_assoc, List.singleton_append, List.map_cons]
          · rw [Target.serve, hserve]
            dsimp only
            rw [hlog, List.length_append, List.length_singleton] at hs
            exact hs
      · -- the first PDU does not fit, whatever follows
        obtain ⟨ds, hlog'⟩ := dispatchAll_log hrest
        refine ⟨d :: ds, ?_, ⟨fun hall => ?_, fun hwell => ?_⟩, fun hall => ?_⟩
        · rw [← hlog', hlog, List.append_assoc, List.singleton_append]
        · exact absurd (List.forall_mem_cons.1 hall).1 hd
        · exact absurd (hfits.2 hwell.1) hd
        · exact absurd (List.forall_mem_cons.1 hall).1 hd

/-- What has been received from a stream whose first part is `s`, if every PDU handled was handled
    with its announced bytes: the PDUs of this part have been handled. -/
structure Cuts (fuel i : ℕ) (sends : ℕ → Bool) (t : Target) (s : List UInt8) (w : Wire) : Prop where
  exact_iff : (∀ d ∈ w.log, d.Exact) ↔
    Target.WellSized fuel i sends 0 t (Framing.frames pduSize s).1
  handles : (∀ d ∈ w.log, d.Exact) → Handles fuel i sends (fresh w.buf t) w
    (Framing.frames pduSize s).1 (Framing.frames pduSize s).2

/-- Receiving bytes cuts the longer stream. -/
theorem Cuts.receive {t : Target} {s chunk : List UInt8} (h : Cuts fuel i sends t s w)
    (hopen : w.closed = false) (hstep : w.processPdu fuel i sends chunk = some w') :
    Cuts fuel i sends t (s ++ chunk) w' := by
  have happend := Framing.frames_append pduSize_stable s chunk
  rw [processPdu] at hstep
  have hlog := dispatchAll_log hstep
  by_cases hall : ∀ d ∈ w.log, d.Exact
  · obtain ⟨hl, hs, hr⟩ := h.handles hall
    rw [hopen, if_neg Bool.false_ne_true] at hr
    rw [hr] at happend
    dsimp only at happend
    rw [fresh, List.nil_append] at hl
    obtain ⟨ds, hlog', hiff, hhandles⟩ :=
      dispatchAll_spec (by exact hopen) (by exact Nat.lt_succ_self _) hstep
    -- the new bytes come after those that have been left
    have hreceived : (received { w with
        buf := w.buf.store w.len chunk.length (bufferOf chunk)
        len := w.len + chunk.length }) = w.received ++ chunk := by
      rw [received, Buffer.bytes_store, Buffer.bytes_bufferOf]
      rfl
    dsimp only at hlog' hiff hhandles
    rw [hreceived] at hiff hhandles
    have hcount : w.log.length = 0 + (Framing.frames pduSize s).1.length := by
      rw [hl, Nat.zero_add]
      exact List.length_map _
    constructor
    · rw [happend, hlog', List.forall_mem_append, hiff, Target.wellSized_append, ← h.exact_iff,
        ← hcount]
      refine and_congr_right fun _ => ⟨fun hrest t' ht => ?_, fun hrest => hrest _ hs⟩
      exact Option.some.inj (hs.symm.trans ht) ▸ hrest
    · intro hall'
      rw [hlog', List.forall_mem_append] at hall'
      obtain ⟨hl', hs', hr'⟩ := hhandles hall'.2
      rw [happend]
      refine ⟨?_, ?_, hr'⟩
      · rw [hl', hl, List.map_append]
        rfl
      · rw [Target.serve_append]
        exact Option.bind_eq_some_iff.2 ⟨w.target, hs, hcount ▸ hs'⟩
  · -- a PDU of the first part does not fit
    have hall' : ¬ ∀ d ∈ w'.log, d.Exact := fun hall' => hall fun d hd => hall' d (hlog.subset hd)
    have hwell : ¬ Target.WellSized fuel i sends 0 t (Framing.frames pduSize (s ++ chunk)).1 := by
      intro hwell
      apply hall
      rw [h.exact_iff]
      cases hrest : (Framing.frames pduSize s).2 with
      | none =>
        rw [happend, hrest] at hwell
        exact hwell
      | some r =>
        rw [happend, hrest] at hwell
        exact (Target.wellSized_append.1 hwell).1
    exact ⟨⟨fun h => absurd h hall', fun h => absurd h hwell⟩, fun h => absurd h hall'⟩

end Wire

/-! ## Streams in parts -/

section Segments

variable {fuel i : ℕ} {sends : ℕ → Bool} {t : Target} {b : Buffer} {w : Wire}
  {tr : List (List UInt8 × Unit)} {s : List UInt8}

/-- The parts received are those of the stream `s`, all of it if the connection is not closed. -/
def Delivers (s : List UInt8) (tr : List (List UInt8 × Unit)) (w : Wire) : Prop :=
  (tr.map Prod.fst).flatten <+: s ∧ (w.closed = false → (tr.map Prod.fst).flatten = s)

/-- A connection cuts the stream that it has received. -/
theorem wire_cuts (hrun : (wireMachine fuel i sends).Run Machine.anyCall (.fresh b t) tr w) :
    w.Cuts fuel i sends t (tr.map Prod.fst).flatten := by
  induction hrun with
  | nil =>
    have hmore : pduSize [] = .more := rfl
    rw [List.map_nil, List.flatten_nil]
    constructor
    · rw [Framing.frames_more hmore]
      exact ⟨fun _ => trivial, fun _ _ hd => absurd hd List.not_mem_nil⟩
    · rw [Framing.frames_more hmore]
      exact fun _ => ⟨rfl, rfl, rfl⟩
  | snoc _ _ hstep ih =>
    obtain ⟨hopen, -, -, hstep⟩ := hstep
    rw [List.map_append, List.flatten_append, List.map_singleton, List.flatten_singleton]
    exact ih.receive hopen hstep

/-- What a connection leads to depends on the stream alone, if the PDUs of the stream fit. -/
theorem wire_cuts_stream
    (hrun : (wireMachine fuel i sends).Run Machine.anyCall (.fresh b t) tr w)
    (hs : Delivers s tr w) :
    ((∀ d ∈ w.log, d.Exact) ↔ Target.WellSized fuel i sends 0 t (Framing.frames pduSize s).1) ∧
      ((∀ d ∈ w.log, d.Exact) → w.log = (Framing.frames pduSize s).1.map .whole ∧
        Target.serve fuel i sends 0 t (Framing.frames pduSize s).1 = some w.target) := by
  obtain ⟨hiff, hhandles⟩ := wire_cuts hrun
  obtain ⟨⟨r, hr⟩, hopen⟩ := hs
  have happend := Framing.frames_append pduSize_stable (tr.map Prod.fst).flatten r
  rw [hr] at happend
  by_cases hall : ∀ d ∈ w.log, d.Exact
  · obtain ⟨hl, hserve, hrest⟩ := hhandles hall
    -- a closed connection has met a length that breaks the stream
    have hframes : Framing.frames pduSize s = Framing.frames pduSize (tr.map Prod.fst).flatten := by
      cases hclosed : w.closed with
      | false => rw [hopen hclosed]
      | true =>
        rw [hclosed] at hrest
        rw [happend, hrest]
        rfl
    rw [hframes]
    exact ⟨hiff, fun _ => ⟨hl, hserve⟩⟩
  · refine ⟨⟨fun h => absurd h hall, fun hwell => ?_⟩, fun h => absurd h hall⟩
    rw [hiff]
    cases hrest : (Framing.frames pduSize (tr.map Prod.fst).flatten).2 with
    | none =>
      rw [happend, hrest] at hwell
      exact hwell
    | some rest =>
      rw [happend, hrest] at hwell
      exact (Target.wellSized_append.1 hwell).1

variable {b₁ b₂ : Buffer} {w₁ w₂ : Wire} {tr₁ tr₂ : List (List UInt8 × Unit)}

/-- Two connections that receive the same stream, in whatever parts, handle the same PDUs, each with
    the bytes that it announces, and come to the same state, if and only if all PDUs of the stream
    fit. -/
theorem pdu_segments
    (h₁ : (wireMachine fuel i sends).Run Machine.anyCall (.fresh b₁ t) tr₁ w₁)
    (h₂ : (wireMachine fuel i sends).Run Machine.anyCall (.fresh b₂ t) tr₂ w₂)
    (hs₁ : Delivers s tr₁ w₁) (hs₂ : Delivers s tr₂ w₂) :
    ((∀ d ∈ w₁.log, d.Exact) ∧ w₁.log = w₂.log ∧ w₁.target = w₂.target) ↔
      Target.WellSized fuel i sends 0 t (Framing.frames pduSize s).1 := by
  obtain ⟨hiff₁, hcuts₁⟩ := wire_cuts_stream h₁ hs₁
  obtain ⟨hiff₂, hcuts₂⟩ := wire_cuts_stream h₂ hs₂
  refine ⟨fun h => hiff₁.1 h.1, fun hwell => ?_⟩
  obtain ⟨hlog₁, hserve₁⟩ := hcuts₁ (hiff₁.2 hwell)
  obtain ⟨hlog₂, hserve₂⟩ := hcuts₂ (hiff₂.2 hwell)
  exact ⟨hiff₁.2 hwell, hlog₁.trans hlog₂.symm, Option.some.inj (hserve₁.symm.trans hserve₂)⟩

/-- A run that receives bytes in one part. -/
theorem wire_receive (b : Buffer) (t : Target) {chunk : List UInt8} (hpos : 0 < chunk.length)
    (hle : chunk.length ≤ tcpBufferSize)
    (h : Wire.processPdu fuel i sends chunk (.fresh b t) = some w) :
    (wireMachine fuel i sends).Run Machine.anyCall (.fresh b t) [(chunk, ())] w :=
  Machine.Run.single trivial ⟨rfl, hpos, by rwa [Wire.fresh, Nat.zero_add], h⟩

/-- A target to which nothing has been sent. -/
private def idleTarget : Target :=
  .init (fun _ => 0) (Ftl.powerOn (fun _ => 0) fun _ => none).2

/-- A termination request. -/
private def termReqPdu : List UInt8 := [2, 0, 10, 0, 10, 0, 0, 0, 0, 0]

theorem pdu_segments_termReq : ∃ w₁ w₂ : Wire,
    (wireMachine 0 0 fun _ => true).Run Machine.anyCall (.fresh (fun _ => 0) idleTarget)
      [(termReqPdu, ())] w₁ ∧
    (wireMachine 0 0 fun _ => true).Run Machine.anyCall (.fresh (fun _ => 7) idleTarget)
      ([(termReqPdu.take 4, ())] ++ [(termReqPdu.drop 4, ())]) w₂ ∧
    (∀ d ∈ w₁.log, d.Exact) ∧ w₁.log = w₂.log ∧ w₁.target = w₂.target := by
  obtain ⟨w₁, h₁, -⟩ := Option.map_eq_some_iff.1 (rfl : (Wire.processPdu 0 0 (fun _ => true)
    termReqPdu (.fresh (fun _ => 0) idleTarget)).map Wire.len = some 0)
  have hpart : (Wire.processPdu 0 0 (fun _ => true) (termReqPdu.take 4)
    (.fresh (fun _ => 7) idleTarget)).map (fun w => (w.closed, w.len)) = some (false, 4) := rfl
  obtain ⟨w₃, h₃, -⟩ := Option.map_eq_some_iff.1 (rfl : ((Wire.processPdu 0 0 (fun _ => true)
    (termReqPdu.take 4) (.fresh (fun _ => 7) idleTarget)).bind
      (Wire.processPdu 0 0 (fun _ => true) (termReqPdu.drop 4))).map Wire.len = some 0)
  obtain ⟨w₂, h₂, h₃⟩ := Option.bind_eq_some_iff.1 h₃
  rw [h₂] at hpart
  obtain ⟨hopen, hlen⟩ := Prod.mk.inj (Option.some.inj hpart)
  have hrun₁ := wire_receive _ _ (by decide) (by decide) h₁
  have hrun₂ := wire_receive _ _ (by decide) (by decide) h₂
  have hrun₃ := Machine.Run.snoc hrun₂ trivial
    (show (wireMachine 0 0 fun _ => true).step w₂ (termReqPdu.drop 4) () w₃ from
      ⟨hopen, by decide, by rw [hlen]; decide, h₃⟩)
  refine ⟨w₁, w₃, hrun₁, hrun₃, (pdu_segments (s := termReqPdu) hrun₁ hrun₃
    ⟨List.prefix_refl _, fun _ => rfl⟩ ⟨List.prefix_refl _, fun _ => rfl⟩).2 ?_⟩
  exact ⟨⟨by decide, by decide⟩, fun _ _ => trivial⟩

/-- A command capsule without its command. -/
private def shortCapsule : List UInt8 := [4, 0, 8, 0, 8, 0, 0, 0]

/-- Data from the host without a field. -/
private def shortData : List UInt8 := [6, 0, 8, 0, 8, 0, 0, 0]

/-- A command capsule without its command executes what comes next in the buffer: an Identify if the
    two PDUs are received at once, a deletion of a queue if not. -/
theorem not_pdu_segments : ¬ ∀ fuel i sends t b s tr₁ tr₂ w₁ w₂,
    (wireMachine fuel i sends).Run Machine.anyCall (.fresh b t) tr₁ w₁ →
    (wireMachine fuel i sends).Run Machine.anyCall (.fresh b t) tr₂ w₂ →
    Delivers s tr₁ w₁ → Delivers s tr₂ w₂ →
    (∀ d ∈ w₁.log, d.Exact) ∧ w₁.log = w₂.log ∧ w₁.target = w₂.target := by
  intro h
  -- the opcode that the first handler finds
  obtain ⟨w₁, h₁, hw₁⟩ := Option.map_eq_some_iff.1 (rfl : (Wire.processPdu 0 0 (fun _ => true)
    (shortCapsule ++ shortData) (.fresh (fun _ => 0) idleTarget)).map
      (fun w => w.log.map fun d => d.bytes.getD 8 0) = some [6, 6])
  have hpart : (Wire.processPdu 0 0 (fun _ => true) shortCapsule
    (.fresh (fun _ => 0) idleTarget)).map (fun w => (w.closed, w.len)) = some (false, 0) := rfl
  obtain ⟨w₃, h₃, hw₃⟩ := Option.map_eq_some_iff.1 (rfl : ((Wire.processPdu 0 0 (fun _ => true)
    shortCapsule (.fresh (fun _ => 0) idleTarget)).bind
      (Wire.processPdu 0 0 (fun _ => true) shortData)).map
        (fun w => w.log.map fun d => d.bytes.getD 8 0) = some [0, 0])
  obtain ⟨w₂, h₂, h₃⟩ := Option.bind_eq_some_iff.1 h₃
  rw [h₂] at hpart
  obtain ⟨hopen, hlen⟩ := Prod.mk.inj (Option.some.inj hpart)
  have hrun₁ := wire_receive _ _ (by decide) (by decide) h₁
  have hrun₂ := wire_receive _ _ (by decide) (by decide) h₂
  have hrun₃ := Machine.Run.snoc hrun₂ trivial
    (show (wireMachine 0 0 fun _ => true).step w₂ shortData () w₃ from
      ⟨hopen, by decide, by rw [hlen]; decide, h₃⟩)
  obtain ⟨-, hlog, -⟩ := h 0 0 _ _ _ (shortCapsule ++ shortData) _ _ w₁ w₃ hrun₁ hrun₃
    ⟨List.prefix_refl _, fun _ => rfl⟩ ⟨List.prefix_refl _, fun _ => rfl⟩
  rw [hlog, hw₃] at hw₁
  exact absurd hw₁ (by decide)

end Segments

end Nvme

end FtlFirmware
