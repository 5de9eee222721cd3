import FtlFirmware.Nvme.Routing

/-!
# Completions that the host has not released

As long as there is room whenever commands are executed, the completions that the host has not
released stay where they are (`completions_kept`): those of the controller are in their entries
(`Cq.Keeps`), and the back end writes a completion to an entry that is not held, and leaves the rest
of the memory of the guest alone (`Vfio.Keeps`).

A submission queue that is larger than its completion queue is enough for a completion to be
overwritten (`not_completions_kept`).
-/

namespace FtlFirmware

namespace Nvme

/-! ## The controller -/

/-- The completions that the host has not released are in their entries, each in one of its own. -/
structure Cq.Keeps (cq : Cq) : Prop where
  slots : cq.unreleased.map Post.slot = cq.ledger.held
  nodup : cq.ledger.held.Nodup
  stored : ∀ p ∈ cq.unreleased, cq.entry p.slot = some p.cpl

/-- A completion stays in its entry for one pass, and no more of them are held than there are
    entries. -/
theorem Cq.Tracked.keeps {cq : Cq} (h : cq.Tracked) (hpaced : cq.Paced) : cq.Keeps where
  slots := h.slots
  nodup := by
    by_cases hsize : cq.size = 0
    · have hle := h.le
      rw [hsize] at hle
      rw [List.eq_nil_of_length_eq_zero (Nat.le_zero.1 hle)]
      exact List.nodup_nil
    · exact (h.tracks hsize).nodup
  stored p hp := by
    obtain ⟨i, hi⟩ := List.mem_iff_getElem?.1 hp
    rw [unreleased, List.rtake, List.getElem?_drop] at hi
    have hle := h.le
    exact hpaced.stored _ p hi (by omega)

/-! ## The entries in the memory of the guest -/

/-- The entries of a completion queue are apart. -/
theorem Guest.entries_apart {g : Guest} {base : UInt64} {i j : ℕ} {a b : Hva} (hi : i < 2 ^ 16)
    (hj : j < 2 ^ 16) (hne : i ≠ j)
    (ha : g.locate (base + UInt64.ofNat (i * completionSize)) = some a)
    (hb : g.locate (base + UInt64.ofNat (j * completionSize)) = some b) :
    a.1 ≠ b.1 ∨ a.2 + completionSize ≤ b.2 ∨ b.2 + completionSize ≤ a.2 := by
  by_cases hregion : a.1 = b.1
  · obtain ⟨ha, hlta⟩ := locate_eq ha
    obtain ⟨hb, hltb⟩ := locate_eq hb
    rw [hregion] at ha
    generalize (g.regions.getD b.1 ⟨0, 0⟩).base = r at ha hb
    have ha := congrArg UInt64.toNat ha
    have hb := congrArg UInt64.toNat hb
    rw [UInt64.toNat_add, UInt64.toNat_add, UInt64.toNat_ofNat', UInt64.toNat_ofNat'] at ha hb
    right
    simp only [completionSize] at ha hb ⊢
    omega
  · exact .inl hregion

/-! ## The back end -/

/-- A completion is written at `h`, `v` being the back end before that and `v'` after it: to the
    next entry, which is not held, and from then on is. The rest of the memory is left alone, and
    with it the entries that are held. -/
structure Vfio.Keeps (qid : ℕ) (h : Hva) (v v' : Vfio) : Prop where
  free : (v.queues qid).cqTail ∉ (v.queues qid).ledger.held
  addr : gpaToHva v.guest (v.queues qid).cqEntry = some h
  rest : ∀ i k, i ≠ h.1 ∨ k < h.2 ∨ h.2 + completionSize ≤ k → v'.guest.mem i k = v.guest.mem i k
  kept : ∀ slot ∈ (v.queues qid).ledger.held, ∀ a,
    gpaToHva v.guest ((v.queues qid).cqBase + UInt64.ofNat (slot * completionSize)) = some a →
      ∀ k < completionSize, v'.guest.bytesAt a k = v.guest.bytesAt a k
  held : (v'.queues qid).ledger.held = (v.queues qid).ledger.held ++ [(v.queues qid).cqTail]

/-- A queue whose commands are executed, with room for their completions. -/
structure VfioQueue.Roomy (q : VfioQueue) : Prop where
  sqSize : q.sqSize ≠ 0
  cqSize : q.cqSize ≠ 0
  sqTail : q.sqTail < q.sqSize
  room : q.ledger.held.length + q.pending ≤ q.cqSize

namespace Vfio

variable {v : Vfio} {qid : ℕ} {h : Hva}

/-- There is an entry that is not held. -/
theorem keeps_post (hq : (v.queues qid).Sound) (hcq : (v.queues qid).cqSize ≠ 0)
    (hroom : (v.queues qid).ledger.held.length < (v.queues qid).cqSize)
    (haddr : gpaToHva v.guest (v.queues qid).cqEntry = some h) (cpl : Completion) :
    Keeps qid h v (v.postCompletion qid h cpl) := by
  have htracks := hq.tracks hcq
  have hrest : ∀ i k, i ≠ h.1 ∨ k < h.2 ∨ h.2 + completionSize ≤ k →
      (v.postCompletion qid h cpl).guest.mem i k = v.guest.mem i k := fun i k hk =>
    (Guest.write_mem i k).trans (if_neg (by omega))
  have hqueue : (v.postCompletion qid h cpl).queues qid = (v.queues qid).completed :=
    Function.update_self _ _ _
  refine ⟨htracks.tail_notMem hroom, haddr, hrest, fun slot hslot a ha k hk => ?_, ?_⟩
  · have hlt := (htracks.lt_of_mem hslot).trans hq.small
    have htail := htracks.tail_lt.trans hq.small
    have hne : slot ≠ (v.queues qid).cqTail := fun heq =>
      htracks.tail_notMem hroom (heq ▸ hslot)
    have hapart := Guest.entries_apart hlt htail hne (locate_of_gpaToHva ha)
      (locate_of_gpaToHva haddr)
    rw [Guest.bytesAt, Guest.bytesAt]
    refine hrest a.1 (a.2 + k) (hapart.imp_right fun hor => ?_)
    omega
  · rw [hqueue]
    rfl

end Vfio

namespace VfioWork

variable {cqid : Command → ℕ} {info : Ctrl → Command → Buffer} {fuel qid : ℕ} {s s' : VfioWork}
  {c : QueueStep} {a : Option QueueEvent} {e : QueueEvent} {h h' : Hva} {cpl : Completion}
  {v : Vfio}

/-- The queues are sound, and the one whose commands are executed has room. -/
structure Sound (s : VfioWork) : Prop where
  queues : ∀ i, (s.vfio.queues i).Sound
  roomy : ∀ qid ∈ s.busy, (s.vfio.queues qid).Roomy

theorem init_sound (rand : ℕ → ℕ) (ftl : Ftl) (guest : Guest) : (init rand ftl guest).Sound where
  queues _ := VfioQueue.absent_sound
  roomy _ hmem := absurd hmem (by simp [init])

namespace Sound

/-- The completion of a command that has been taken is written to an entry that is not held. -/
theorem keeps (hs : s.Sound) (hbusy : s.busy = some qid)
    (ht : Taken cqid info fuel qid s h cpl v)
    (hcq : Vfio.gpaToHva v.guest (v.queues qid).cqEntry = some h') (cqids : ℕ → ℕ) :
    Vfio.Keeps qid h' v (v.postCompletion qid h' cpl) ∧
      VfioWork.Sound ⟨v.postCompletion qid h' cpl, s.busy, cqids⟩ := by
  obtain ⟨hsq, hcqSize, htail, hroom⟩ := hs.roomy qid hbusy
  obtain ⟨hq, hsound⟩ := Vfio.processNvmeCommand_queues ht.executed
  have hself : (v.queues qid).Sound := hsound qid (hs.queues qid)
  -- The command that has been taken was waiting.
  have hpos : 0 < (s.vfio.queues qid).pending := by
    rw [VfioQueue.pending, Ring.dist_succ ((hs.queues qid).head hsq) htail ht.waiting]
    exact Nat.succ_pos _
  obtain ⟨hdone, hheld, hpending⟩ :=
    (hs.queues qid).completed hsq hcqSize htail ht.waiting (by omega)
  have hqueue : (v.postCompletion qid h' cpl).queues qid = (s.vfio.queues qid).completed := by
    rw [Vfio.postCompletion, Vfio.setQueue]
    dsimp only
    rw [Function.update_self, hq]
  refine ⟨Vfio.keeps_post hself (hq ▸ hcqSize) (by rw [hq]; omega) hcq cpl, fun i => ?_,
    fun i hi => ?_⟩
  · rcases eq_or_ne i qid with rfl | hi
    · exact hqueue ▸ hdone
    · dsimp only
      rw [Vfio.postCompletion, Vfio.setQueue]
      dsimp only
      rw [Function.update_of_ne hi]
      exact hsound i (hs.queues i)
  · obtain rfl : qid = i := Option.some.inj (hbusy.symm.trans hi)
    dsimp only
    rw [hqueue]
    refine ⟨hsq, hcqSize, htail, ?_⟩
    rw [hheld, show (s.vfio.queues qid).completed.cqSize = (s.vfio.queues qid).cqSize from rfl]
    omega

/-- The tail of a submission queue is moved, with room for the completions. -/
theorem ring {offset : ℕ} {value : UInt32} (hs : s.Sound) (hsq : offset % 8 = 0)
    (hfollows : VfioFollows s.vfio (.doorbell offset value))
    (hroomy : VfioRoomy s.vfio (.doorbell offset value))
    (hs' : s.ring (offset / 8 % 2 ^ 16) value = some s') : s'.Sound := by
  obtain ⟨ctrl, _, rfl⟩ := Option.map_eq_some_iff.1 hs'
  have hfollows : if offset % 8 = 0 then (value &&& 0xFFFF).toNat <
    (s.vfio.queues (offset / 8 % 2 ^ 16)).sqSize else _ := hfollows
  have hroomy : offset % 8 = 0 → (s.vfio.queues (offset / 8 % 2 ^ 16)).cqSize ≠ 0 → _ := hroomy
  rw [if_pos hsq] at hfollows
  generalize offset / 8 % 2 ^ 16 = qid at hfollows hroomy
  have hqid := hs.queues qid
  refine ⟨Vfio.forall_setQueue qid hs.queues ⟨hqid.head, hqid.small, hqid.clean, hqid.tracks⟩,
    fun i hi => ?_⟩
  dsimp only at hi
  split_ifs at hi with hworking
  · obtain rfl := Option.some.inj hi
    rw [VfioQueue.Working, not_or, not_or] at hworking
    have hself : (s.vfio.setQueue qid { s.vfio.queues qid with sqTail := (value &&& 0xFFFF).toNat }
      ).queues qid = { s.vfio.queues qid with sqTail := (value &&& 0xFFFF).toNat } :=
        Function.update_self _ _ _
    dsimp only
    rw [hself]
    exact ⟨hworking.2.1, hworking.2.2, hfollows, hroomy hsq hworking.2.2⟩
  · cases hi

/-- The head of a completion queue is moved. -/
theorem release {offset : ℕ} {value : UInt32} (hs : s.Sound) (hidle : s.busy = none)
    (hsq : ¬ (offset % 8 = 0 ∧ offset / 8 % 2 ^ 16 < vfioMaxQueues))
    (hfollows : VfioFollows s.vfio (.doorbell offset value))
    (hv : s.vfio.handleDoorbellWrite fuel info offset value = some v) :
    ({ s with vfio := v } : VfioWork).Sound := by
  have hbusy : ∀ qid ∈ s.busy, (v.queues qid).Roomy := by
    rw [hidle]
    exact fun _ hmem => absurd hmem (by simp)
  rw [Vfio.handleDoorbellWrite] at hv
  rw [VfioFollows] at hfollows
  dsimp only at hv hfollows
  by_cases hmax : offset / 8 % 2 ^ 16 ≥ vfioMaxQueues
  · rw [if_pos hmax] at hv
    obtain rfl := Option.some.inj hv
    exact ⟨hs.queues, hbusy⟩
  · have hkind : ¬ offset % 8 = 0 := fun hkind => hsq ⟨hkind, Nat.lt_of_not_le hmax⟩
    rw [if_neg hmax, if_neg hkind] at hv
    rw [if_neg hkind] at hfollows
    obtain ⟨ctrl, _, rfl⟩ := Option.map_eq_some_iff.1 hv
    have hqid := hs.queues (offset / 8 % 2 ^ 16)
    exact ⟨Vfio.forall_setQueue _ hs.queues ⟨hqid.head, hqid.small, hqid.clean, fun hsize =>
      (hqid.tracks hsize).advance hfollows.1 hfollows.2⟩, hbusy⟩

/-- Every step of a guest that follows the queue protocol keeps the queues sound, if there is
    room. -/
theorem exec (hs : s.Sound)
    (hobeys : s.Obeys (fun v call => VfioFollows v call ∧ VfioRoomy v call) c)
    (hs' : s.exec cqid fuel info c = some (a, s')) : s'.Sound := by
  cases c with
  | store mem =>
    obtain ⟨-, rfl⟩ := Prod.mk.inj (Option.some.inj hs')
    exact ⟨hs.queues, hs.roomy⟩
  | regWrite offset value =>
    rw [VfioWork.exec] at hs'
    split_ifs at hs' with hidle
    obtain ⟨-, rfl⟩ := Prod.mk.inj (Option.some.inj hs')
    refine ⟨Vfio.handleNvmeRegWrite_sound hs.queues offset value, ?_⟩
    rw [hidle]
    exact fun _ hmem => absurd hmem (by simp)
  | doorbell offset value =>
    rw [VfioWork.exec] at hs'
    split_ifs at hs' with hidle hsq
    · obtain ⟨s₁, hs₁, heq⟩ := Option.map_eq_some_iff.1 hs'
      obtain ⟨-, rfl⟩ := Prod.mk.inj heq
      exact hs.ring hsq.1 hobeys.1 hobeys.2 hs₁
    · obtain ⟨v, hv, heq⟩ := Option.map_eq_some_iff.1 hs'
      obtain ⟨-, rfl⟩ := Prod.mk.inj heq
      exact hs.release (not_not.1 hidle) hsq hobeys.1 hv
  | execute =>
    obtain ⟨qid, hbusy, hmap⟩ := Option.bind_eq_some_iff.1 hs'
    obtain ⟨⟨e, s₁⟩, hexec, heq⟩ := Option.map_eq_some_iff.1 hmap
    obtain ⟨-, rfl⟩ := Prod.mk.inj heq
    -- With an entry for the completion it is posted; without one the loop is left.
    obtain ⟨h, cpl, v, ht⟩ := taken_of_execute hexec
    cases hcq : Vfio.gpaToHva v.guest (v.queues qid).cqEntry with
    | none =>
      obtain ⟨-, rfl⟩ := Prod.mk.inj (Option.some.inj (hexec.symm.trans (ht.lost hcq)))
      exact ⟨fun i => (Vfio.processNvmeCommand_queues ht.executed).2 i (hs.queues i),
        fun _ hmem => absurd hmem (by simp)⟩
    | some h' =>
      obtain ⟨-, rfl⟩ := Prod.mk.inj (Option.some.inj (hexec.symm.trans (ht.posted hcq)))
      exact (hs.keeps hbusy ht hcq _).2
  | leave =>
    obtain ⟨qid, _, hexec⟩ := Option.bind_eq_some_iff.1 hs'
    dsimp only at hexec
    split_ifs at hexec
    obtain ⟨-, rfl⟩ := Prod.mk.inj (Option.some.inj hexec)
    exact ⟨hs.queues, fun _ hmem => absurd hmem (by simp)⟩

end Sound

/-- A command is executed, and its completion, which is written, keeps those that are held. -/
def KeepsHeld (info : Ctrl → Command → Buffer) (s : VfioWork) (e : QueueEvent) (s' : VfioWork) :
    Prop :=
  ∃ fuel cpl v h, s.vfio.processNvmeCommand fuel info e.cmd e.qid = some (cpl, v) ∧
    s'.vfio = v.postCompletion e.qid h cpl ∧ Vfio.Keeps e.qid h v s'.vfio

theorem Sound.keepsHeld (hs : s.Sound) (hs' : s.exec cqid fuel info c = some (some e, s'))
    (hposted : e.posted.isSome) : s.KeepsHeld info e s' := by
  cases c with
  | store mem =>
    obtain ⟨hnone, -⟩ := Prod.mk.inj (Option.some.inj hs')
    cases hnone
  | regWrite offset value =>
    rw [VfioWork.exec] at hs'
    split_ifs at hs' with hidle
    obtain ⟨hnone, -⟩ := Prod.mk.inj (Option.some.inj hs')
    cases hnone
  | doorbell offset value =>
    rw [VfioWork.exec] at hs'
    split_ifs at hs' with hidle hsq
    all_goals
      obtain ⟨_, _, heq⟩ := Option.map_eq_some_iff.1 hs'
      obtain ⟨hnone, -⟩ := Prod.mk.inj heq
      cases hnone
  | execute =>
    obtain ⟨qid, hbusy, hmap⟩ := Option.bind_eq_some_iff.1 hs'
    obtain ⟨⟨e₁, s₁⟩, hexec, heq⟩ := Option.map_eq_some_iff.1 hmap
    obtain ⟨he, rfl⟩ := Prod.mk.inj heq
    obtain rfl := Option.some.inj he
    obtain ⟨h, cpl, v, ht⟩ := taken_of_execute hexec
    cases hcq : Vfio.gpaToHva v.guest (v.queues qid).cqEntry with
    | none =>
      obtain ⟨rfl, -⟩ := Prod.mk.inj (Option.some.inj (hexec.symm.trans (ht.lost hcq)))
      cases hposted
    | some h' =>
      obtain ⟨rfl, rfl⟩ := Prod.mk.inj (Option.some.inj (hexec.symm.trans (ht.posted hcq)))
      exact ⟨fuel, cpl, v, h', ht.executed, rfl, (hs.keeps hbusy ht hcq s.cqids).1⟩
  | leave =>
    obtain ⟨qid, _, hexec⟩ := Option.bind_eq_some_iff.1 hs'
    dsimp only at hexec
    split_ifs at hexec
    obtain ⟨hnone, -⟩ := Prod.mk.inj (Option.some.inj hexec)
    cases hnone

end VfioWork

/-- In a run of a host that follows the queue protocol, if there is room whenever commands are
    executed, the completions of the controller that the host has not released are in their entries,
    and the back end, whichever command it executes next, writes the completion to an entry that is
    not held, and nowhere else. -/
theorem completions_kept {rand rand' : ℕ → ℕ} {ftl ftl' : Ftl} {guest : Guest}
    {cqid : Command → ℕ} {info : Ctrl → Command → Buffer} {tr : List (CtrlCall × Unit)}
    {s : Ctrl × Ftl} {tr' : List (QueueStep × Option QueueEvent)} {w : VfioWork}
    (hctrl : ctrlMachine.Run (fun s call => CtrlFollows s call ∧ CtrlRoomy s call)
      (Ctrl.init rand, ftl) tr s)
    (hwork : (queueMachine cqid info).Run
      (VfioWork.Obeys fun v call => VfioFollows v call ∧ VfioRoomy v call)
      (VfioWork.init rand' ftl' guest) tr' w) :
    s.1.adminCq.Keeps ∧ s.1.ioCq.Keeps ∧
      ∀ c e w', (queueMachine cqid info).step w c (some e) w' → e.posted.isSome →
        w.KeepsHeld info e w' := by
  obtain ⟨hready, htracked⟩ := ctrl_tracked hctrl
  have hsound : w.Sound := hwork.invariant (VfioWork.init_sound rand' ftl' guest)
    fun _ _ _ _ hs hobeys hstep => hstep.elim fun _ hexec => hs.exec hobeys hexec
  exact ⟨htracked.adminCq.keeps hready.adminPaced, htracked.ioCq.keeps hready.ioPaced,
    fun _ _ _ hstep hposted => hstep.elim fun _ hexec => hsound.keepsHeld hexec hposted⟩

/-! ## A submission queue larger than its completion queue -/

instance (v : Vfio) : (call : VfioCall) → Decidable (VfioFollows v call)
  | .doorbell offset _ => inferInstanceAs (Decidable (if offset % 8 = 0 then _ else _ ∧ _))
  | .store _ | .regWrite _ _ => isTrue trivial

instance (v : Vfio) : (call : VfioCall) → Decidable (VfioRoomy v call)
  | .doorbell offset _ => inferInstanceAs (Decidable (offset % 8 = 0 → _ → _))
  | .store _ | .regWrite _ _ => isTrue trivial

instance {allowed : Vfio → VfioCall → Prop} [∀ v call, Decidable (allowed v call)] (s : VfioWork) :
    (c : QueueStep) → Decidable (s.Obeys allowed c)
  | .store mem => inferInstanceAs (Decidable (allowed s.vfio (.store mem)))
  | .regWrite offset value => inferInstanceAs (Decidable (allowed s.vfio (.regWrite offset value)))
  | .doorbell offset value => inferInstanceAs (Decidable (allowed s.vfio (.doorbell offset value)))
  | .execute | .leave => isTrue trivial

/-- A guest whose admin queue has three keep alive commands, of the identifiers 1, 2 and 3. -/
private def aliveGuest : Guest where
  regions := [⟨0x1000, 0x8000⟩]
  mem _ k := bufferOf ([0x18, 0, 1] ++ .replicate 61 0 ++ [0x18, 0, 2] ++ .replicate 61 0 ++
    [0x18, 0, 3]) k

/-- The guest gives the admin queues, of the sizes in `aqa`, and has two of the commands
    executed. -/
private def aliveSteps (aqa : UInt32) : List QueueStep :=
  [.regWrite 0x24 aqa, .regWrite 0x28 0x1000, .regWrite 0x30 0x2000, .doorbell 0 3, .execute,
    .execute]

/-- The back end when the guest connects. -/
private def aliveStart : VfioWork :=
  VfioWork.init (fun _ => 0) (Ftl.powerOn (fun _ => 0) fun _ => none).2 aliveGuest

/-- The bytes of the guest at the identifiers of the first three completions. -/
private def aliveCids (w : VfioWork) : List UInt8 :=
  [0x100C, 0x101C, 0x102C].map (w.vfio.guest.mem 0)

/-- The controller after a command has been executed, in a run with room. -/
private theorem alive_run (ftl : Ftl) : ∃ tr s,
    ctrlMachine.Run (fun s call => CtrlFollows s call ∧ CtrlRoomy s call)
      (Ctrl.init fun _ => 0, ftl) tr s ∧
    tr = queueCalls keepAlive ++ [(.process, ())] ∧
    s.1.adminCq.entry 0 = some { Completion.blank with cid := 7 } ∧
    s.1.adminCq.ledger.held = [0] := by
  have hroomy : (queuedCtrl keepAlive).Roomy := by
    refine ⟨?_, Nat.le_refl 0, fun cmd hmem hop => ?_⟩
    · rw [Ctrl.adminLoad, Sq.commands, queuedCtrl_waiting]
      exact show 0 + 1 + 0 ≤ 256 by decide
    · rw [Sq.commands, queuedCtrl_waiting, List.map_singleton, List.mem_singleton] at hmem
      rw [hmem] at hop
      exact absurd hop (by decide)
  obtain ⟨s, hs, heq⟩ := Option.map_eq_some_iff.1 (rfl : (ctrlExec 2
    (queuedCtrl keepAlive, ftl) .process).map (fun s =>
      (s.1.adminCq.entry 0, s.1.adminCq.ledger.held)) =
        some (some { Completion.blank with cid := 7 }, [0]))
  obtain ⟨hentry, hheld⟩ := Prod.mk.inj heq
  have hrun := @queuedCtrl_run (fun s call => CtrlFollows s call ∧ CtrlRoomy s call) keepAlive ftl
    fun s call hmem => by
      rw [queueCalls, List.mem_cons, List.mem_cons, List.mem_singleton] at hmem
      rcases hmem with rfl | rfl | rfl
      all_goals exact ⟨trivial, trivial⟩
  have hprocess : CtrlFollows (queuedCtrl keepAlive, ftl) .process ∧
      CtrlRoomy (queuedCtrl keepAlive, ftl) .process := ⟨trivial, hroomy⟩
  exact ⟨_, s, ctrl_snoc 2 hrun hprocess hs, rfl, hentry, hheld⟩

/-- The steps of the guest, in queues of four entries: the third completion leaves the first two
    alone. A command of the controller is executed beside them. -/
theorem completions_kept_three : ∃ tr s tr' w e w',
    ctrlMachine.Run (fun s call => CtrlFollows s call ∧ CtrlRoomy s call)
      (Ctrl.init fun _ => 0, aliveStart.vfio.ftl) tr s ∧
    tr = queueCalls keepAlive ++ [(.process, ())] ∧
    s.1.adminCq.ledger.held = [0] ∧
    s.1.adminCq.entry 0 = some { Completion.blank with cid := 7 } ∧
    s.1.adminCq.Keeps ∧
    (queueMachine Command.cqidHigh fun _ _ _ => 0).Run
      (VfioWork.Obeys fun v call => VfioFollows v call ∧ VfioRoomy v call) aliveStart tr' w ∧
    (queueMachine Command.cqidHigh fun _ _ _ => 0).step w .execute (some e) w' ∧
    (w.vfio.queues 0).ledger.held = [0, 1] ∧ aliveCids w = [1, 2, 0] ∧ aliveCids w' = [1, 2, 3] ∧
    w.KeepsHeld (fun _ _ _ => 0) e w' := by
  obtain ⟨tr, s, hctrl, htr, hentry, hheld⟩ := alive_run aliveStart.vfio.ftl
  have heq : ((VfioWork.play (VfioWork.Obeys fun v call => VfioFollows v call ∧ VfioRoomy v call)
      Command.cqidHigh (fun _ _ _ => 0) 5 (aliveSteps 0x00030003) aliveStart).bind fun r =>
        (r.2.exec Command.cqidHigh 5 (fun _ _ _ => 0) .execute).map fun p =>
          ((r.2.vfio.queues 0).ledger.held, aliveCids r.2, aliveCids p.2,
            p.1.map fun e => e.posted.isSome)) =
      some ([0, 1], [1, 2, 0], [1, 2, 3], some true) := rfl
  obtain ⟨⟨tr', w⟩, hplay, hnext⟩ := Option.bind_eq_some_iff.1 heq
  obtain ⟨⟨a, w'⟩, hexec, hmap⟩ := Option.map_eq_some_iff.1 hnext
  simp only [Prod.mk.injEq] at hmap
  obtain ⟨hheld', hcids, hcids', hposted⟩ := hmap
  obtain ⟨e, rfl, hsome⟩ := Option.map_eq_some_iff.1 hposted
  have hwork := VfioWork.play_run hplay
  have hkept := completions_kept hctrl hwork
  exact ⟨tr, s, tr', w, e, w', hctrl, htr, hheld, hentry, hkept.1, hwork, ⟨5, hexec⟩, hheld', hcids,
    hcids', hkept.2.2 _ e w' ⟨5, hexec⟩ hsome⟩

/-- Three commands are completed in a completion queue of two entries: the last completion
    overwrites the first one, which the guest has not released. -/
theorem not_completions_kept : ¬ ∀ cqid info rand ftl guest tr w c e w',
    (queueMachine cqid info).Run (VfioWork.Obeys VfioFollows) (VfioWork.init rand ftl guest) tr w →
      (queueMachine cqid info).step w c (some e) w' → e.posted.isSome → w.KeepsHeld info e w' := by
  intro h
  have heq : ((VfioWork.play (VfioWork.Obeys VfioFollows) Command.cqidHigh (fun _ _ _ => 0) 5
      (aliveSteps 0x00010003) aliveStart).bind fun r =>
        (r.2.exec Command.cqidHigh 5 (fun _ _ _ => 0) .execute).map fun p =>
          ((r.2.vfio.queues 0).ledger.held, (r.2.vfio.queues 0).cqTail,
            p.1.map fun e => (e.qid, e.posted.isSome))) =
      some ([0, 1], 0, some (0, true)) := rfl
  obtain ⟨⟨tr, w⟩, hplay, hnext⟩ := Option.bind_eq_some_iff.1 heq
  obtain ⟨⟨a, w'⟩, hexec, hmap⟩ := Option.map_eq_some_iff.1 hnext
  simp only [Prod.mk.injEq] at hmap
  obtain ⟨hheld, htail, hposted⟩ := hmap
  obtain ⟨e, rfl, heq⟩ := Option.map_eq_some_iff.1 hposted
  obtain ⟨hqid, hsome⟩ := Prod.mk.inj heq
  obtain ⟨_, _, v, _, hcmd, _, hkeeps⟩ :=
    h _ _ _ _ _ _ w _ e w' (VfioWork.play_run hplay) ⟨5, hexec⟩ hsome
  -- The command leaves its queue alone, in which the entry 0 is held.
  have hfree := hkeeps.free
  rw [(Vfio.processNvmeCommand_queues hcmd).1, hqid, hheld, htail] at hfree
  exact hfree List.mem_cons_self

end Nvme

end FtlFirmware
