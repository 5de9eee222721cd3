import FtlFirmware.Ftl.Filling
import FtlFirmware.Nvme.Handling

/-!
# Connections

Runs of the target, with the book of what the hosts send.

* `tcp_isolated`: the data used for each command, by its FTL calls, are those that have been sent
  for it, if data are never stored over those received for a command of another connection;
* `tcp_completes`: each command of a connection gets exactly one completion, if no two commands wait
  for data at a time, and no range of a Dataset Management wraps around.
-/

namespace FtlFirmware

namespace Nvme

section Runs

variable {rand : ℕ → ℕ} {ftl : Ftl} {s : Target × Book} {tr : List (TcpCall × List Sent)}
  {i : ℕ}

/-- A run goes on by any call that returns. -/
theorem book_snoc {allowed : Target × Book → TcpCall → Prop} {s₀ : Target × Book} {call : TcpCall}
    {sent : List Sent} {t' : Target} {fuel : ℕ} (hrun : bookMachine.Run allowed s₀ tr s)
    (hallowed : allowed s call) (hexec : tcpExec fuel s.1 call = some (sent, t')) :
    bookMachine.Run allowed s₀ (tr ++ [(call, sent)]) (t', s.2.next call) :=
  hrun.snoc hallowed ⟨⟨fuel, hexec⟩, rfl⟩

/-- A new target follows the empty book. -/
theorem follows_init (rand : ℕ → ℕ) (ftl : Ftl) : Follows (Target.init rand ftl) Book.init :=
  ⟨fun _ => rfl, fun _ => .idle rfl, rfl⟩

/-- The hosts follow the protocol, with at most one command that waits for data on each
    connection. -/
def Proper (s : Target × Book) (call : TcpCall) : Prop := s.2.Obeys call ∧ s.2.Sole call

/-- Moreover, no data are stored over those received for a command of another connection. -/
def Separate (s : Target × Book) (call : TcpCall) : Prop := Proper s call ∧ s.2.Apart call

/-- The target follows the book throughout a run. -/
theorem follows_run (hrun : bookMachine.Run Separate (Target.init rand ftl, Book.init) tr s) :
    Follows s.1 s.2 := by
  refine hrun.invariant (P := fun s => Follows s.1 s.2) (follows_init rand ftl) ?_
  rintro ⟨t, b⟩ call sent ⟨t', b'⟩ h ⟨⟨hobeys, hsole⟩, hapart⟩ ⟨⟨fuel, hexec⟩, hnext⟩
  dsimp only at hnext ⊢
  rw [hnext]
  exact (h.step hobeys hsole hapart hexec).1

end Runs

section Openings

variable {P : TcpCall → Prop} {ftl : Ftl} {calls : List TcpCall} {call : TcpCall} {t : Target}
  {i : ℕ} {d : H2cData}

/-- The calls, which have the property `P`, can be made, with no change to the FTL. -/
def Leads (P : TcpCall → Prop) (ftl : Ftl) (calls : List TcpCall) : Prop :=
  ∃ tr t, bookMachine.Run (fun s call => P call ∧ Separate s call)
    (Target.init (fun _ => 0) ftl, Book.init) tr (t, calls.foldl Book.next Book.init) ∧
      t.ftl = ftl ∧ tr.map Prod.fst = calls

theorem Leads.snoc (h : Leads P ftl calls) (hP : P call)
    (hallowed : ∀ t, Separate (t, calls.foldl Book.next Book.init) call)
    (hexec : ∀ t, Follows t (calls.foldl Book.next Book.init) →
      ∃ sent t', tcpExec 0 t call = some (sent, t') ∧ t'.ftl = t.ftl) :
    Leads P ftl (calls ++ [call]) := by
  obtain ⟨tr, t, hrun, rfl, htr⟩ := h
  obtain ⟨sent, t', hcall, hftl⟩ := hexec t (follows_run (hrun.mono fun _ _ hs => hs.2))
  refine ⟨tr ++ [(call, sent)], t', ?_, hftl, by rw [List.map_append, htr]; rfl⟩
  rw [List.foldl_append]
  exact book_snoc hrun ⟨hP, hallowed t⟩ hcall

/-- A Dataset Management with one range, the data of which are asked for. -/
def trimCapsule (cid : UInt16) : Capsule :=
  ⟨{ Command.blank with opcode := 0x09, cid := cid }, none, 0⟩

/-- A Connect to the queue 1. -/
def connectCapsule : Capsule where
  cmd := { Command.blank with opcode := 0x7F, nsid := 1 }
  data := some fun k => if k = 16 then 1 else 0
  dataLen := 18

/-- One half of the data of a Dataset Management. -/
def halfRange (offset : ℕ) (last : Bool) (byte : UInt8) : H2cData :=
  ⟨0, offset, 8, last, some fun _ => byte⟩

/-- Data that are not the last ones do not change the FTL. -/
theorem handleH2cData_of_not_last (hlast : d.last = false) :
    ∃ sent t', t.handleH2cData i 0 d = some (sent, t') ∧ t'.ftl = t.ftl := by
  rw [Target.handleH2cData, hlast]
  by_cases hwait : (t.conns i).hasData = false ∨ (t.conns i).dataTotal = 0
  · rw [if_pos hwait]
    exact ⟨_, _, rfl, rfl⟩
  · rw [if_neg hwait]
    dsimp only
    rw [if_neg fun hn => Bool.noConfusion hn.1]
    exact ⟨_, _, rfl, Target.receive_ftl⟩

theorem transferTotal_connect {qid : ℕ} : transferTotal qid connectCapsule.cmd = none :=
  rfl

theorem transferTotal_trim {qid : ℕ} {cid : UInt16} (hqid : qid ≠ 0) :
    transferTotal qid (trimCapsule cid).cmd = some 16 := by
  have hopcode : (trimCapsule cid).cmd.opcode = 0x09 := rfl
  have hnr : (trimCapsule cid).cmd.nr = 1 := show (((0 : UInt32) &&& 0xFF).toNat + 1) % 2 ^ 8 = 1 by
    decide
  rw [transferTotal, hopcode, if_neg (by decide), if_pos ⟨rfl, hqid⟩, hnr]

/-- A Dataset Management the data of which are asked for. -/
theorem handleCapsuleCmd_trim (cid : UInt16) (hqid : (t.conns i).qid ≠ 0) :
    t.handleCapsuleCmd i 0 (trimCapsule cid) = some ([.r2t i cid 0 16],
      t.record i (t.conns i).qid (t.startTransfer i (trimCapsule cid) 16)) := by
  have hlen : ((t.startTransfer i (trimCapsule cid) 16).conns i).dataLen = 0 := by
    rw [Target.startTransfer_conns, Function.update_self]
    rfl
  rw [Target.handleCapsuleCmd, Target.executeCapsule_transfer (transferTotal_trim hqid),
    Target.transfer, if_neg (by decide)]
  dsimp only
  rw [hlen, if_pos (by decide)]
  rfl

/-- A connection is initialized and connected to an I/O queue, and a Dataset Management is sent on
    it. -/
def opening (i : ℕ) : List TcpCall :=
  [.icreq i true, .capsule i connectCapsule, .capsule i (trimCapsule 0)]

/-- The Dataset Management that waits after the opening of a connection. -/
def trimPending : Pending := (trimCapsule 0).pending 16

/-- A Connect changes the queue of the connection. -/
theorem next_connect (b : Book) (i : ℕ) : b.next (.capsule i connectCapsule) =
    { b with qid := Function.update b.qid i 1 } := by
  have hqid : Target.connectQid connectCapsule = 1 := by decide
  rw [Book.next, transferTotal_connect]
  dsimp only
  rw [if_pos ⟨rfl, by decide⟩, hqid]

/-- A Dataset Management waits for its data. -/
theorem next_trim (b : Book) (hqid : b.qid i ≠ 0) (cid : UInt16) :
    b.next (.capsule i (trimCapsule cid)) = { b with
      outstanding := Function.update b.outstanding i
        ((trimCapsule cid).pending 16 :: b.outstanding i) } := by
  rw [Book.next, transferTotal_trim hqid]
  rfl

/-- The book after the opening of a connection. -/
theorem opening_next (b : Book) (i : ℕ) : (opening i).foldl Book.next b =
    { b with
      qid := Function.update b.qid i 1
      outstanding := Function.update b.outstanding i (trimPending :: b.outstanding i) } := by
  rw [opening, List.foldl_cons, List.foldl_cons, List.foldl_cons, List.foldl_nil, next_connect,
    next_trim]
  · rfl
  · dsimp only
    rw [Function.update_self]
    exact Nat.one_ne_zero

/-- The opening of a connection, no data having come for the commands that wait. -/
theorem Leads.opening (h : Leads P ftl calls) (hP : ∀ call ∈ opening i, P call)
    (hnone : (calls.foldl Book.next Book.init).outstanding i = [])
    (hempty : ∀ j, ∀ q ∈ (calls.foldl Book.next Book.init).outstanding j, q.bytes = []) :
    Leads P ftl (calls ++ opening i) := by
  have hother : ∀ {qid total : ℕ}, ¬transferTotal qid connectCapsule.cmd = some total := by
    intro qid total h
    rw [transferTotal_connect] at h
    cases h
  -- Step by step: the handshake, the Connect, and the command that waits for its range.
  have h₁ := h.snoc (hP (.icreq i true) List.mem_cons_self)
    (fun _ => ⟨⟨trivial, trivial⟩, trivial⟩) fun _ _ => ⟨_, _, rfl, rfl⟩
  have hbook₁ : (calls ++ [TcpCall.icreq i true]).foldl Book.next Book.init =
      calls.foldl Book.next Book.init := by
    rw [List.foldl_append]
    rfl
  have h₂ := h₁.snoc (hP (.capsule i connectCapsule) (List.mem_cons_of_mem _ List.mem_cons_self))
    (fun _ => ⟨⟨fun q hq => by rw [hbook₁, hnone] at hq; exact absurd hq List.not_mem_nil,
      fun _ h => absurd h hother⟩, fun _ h => absurd h hother⟩)
    fun _ _ => ⟨_, _, rfl, rfl⟩
  have hbook₂ : (calls ++ [TcpCall.icreq i true] ++ [TcpCall.capsule i connectCapsule]).foldl Book.next
      Book.init = { calls.foldl Book.next Book.init with
        qid := Function.update (calls.foldl Book.next Book.init).qid i 1 } := by
    rw [List.foldl_append, hbook₁]
    exact next_connect _ i
  have h₃ := @Leads.snoc _ _ _ (.capsule i (trimCapsule 0)) h₂
    (hP _ (List.mem_cons_of_mem _ (List.mem_cons_of_mem _ List.mem_cons_self))) ?_ ?_
  · rw [List.append_assoc, List.append_assoc] at h₃
    exact h₃
  · intro t
    dsimp only [Separate, Proper]
    rw [hbook₂]
    refine ⟨⟨fun q hq => ?_, fun _ _ _ => hnone⟩, fun _ _ _ => .inr fun j _ => hempty j⟩
    rw [hnone] at hq
    exact absurd hq List.not_mem_nil
  · intro t ht
    refine ⟨_, _, handleCapsuleCmd_trim 0 ?_, rfl⟩
    rw [ht.qid i, hbook₂]
    dsimp only
    rw [Function.update_self]
    exact Nat.one_ne_zero

/-- A Dataset Management with one range that does not wrap around. -/
theorem not_wraps {x : Performed} {ftl : Ftl} (hlen : x.bytes.length = 16)
    (hle : ((bufferOf x.bytes).range 0).lpn.toNat + ((bufferOf x.bytes).range 0).count.toNat <
      2 ^ 32) : ¬ x.Wraps ftl := by
  rintro ⟨_, r, hr, _, _, hend⟩
  rw [hlen] at hr
  obtain rfl := Nat.lt_one_iff.1 hr
  exact absurd hle (Nat.not_lt.2 hend)

/-- The last data of a command, no range of which wraps around. -/
theorem exists_handleH2cData {p : Pending} (h : Target.Waits (t.conns i) t.writeBuf p)
    (hlast : d.last) (hdata : d.data.isSome) (hdatao : d.datao = p.bytes.length)
    (hdatal : 0 < d.datal) (htotal : p.bytes.length + d.datal = p.total) (hftl : t.ftl.Lively)
    (hwraps : ¬ ((p.receive d).performed i).Wraps t.ftl) :
    ∃ fuel sent t', t.handleH2cData i fuel d =
        some (sent, t.record i (t.conns i).pendingSqid t') ∧
      Target.Done fuel (t.receive i d) t' i (p.receive d) sent := by
  have hreceive : (t.receive i d).ftl.Lively := Target.receive_ftl.symm ▸ hftl
  obtain ⟨_, hlen, _⟩ := h.receive hdatao hdatal (Nat.le_of_eq htotal) hdata
  have hheld := h.held_receive hdatao hdatal htotal hdata
  have hcomplete := (Target.complete_iff (i := i) hreceive).2
  rw [hheld, Target.receive_ftl] at hcomplete
  obtain ⟨fuel, ⟨sent, t'⟩, hexec⟩ := hcomplete hwraps
  refine ⟨fuel, sent, t', ?_, Target.done_of_complete hexec hheld⟩
  rw [h.handleH2cData hdatao hdatal (Nat.le_of_eq htotal) hdata, if_pos ⟨hlast, hlen.trans htotal⟩,
    hexec, Option.map_some]

/-- A device on which the logical page 1 has been written. -/
theorem exists_mapped : ∃ ftl₀ calls ftl, Ftl.powerOn Ftl.fourRand (fun _ => none) = (.ok, ftl₀) ∧
    Ftl.Run (fun _ _ => True) ftl₀ calls ftl ∧ ftl.isInitialized ∧ (ftl.l2pTable 1).isSome := by
  obtain ⟨ftl₀, hon, h⟩ := Ftl.Calm.powerOn Ftl.fourRand
    (fun _ => (by decide : getInitBadRatio .tlc ≤ 4 % 100)) fun _ => none
  obtain ⟨L, ftl, hwrite, h', _, htable⟩ :=
    h.write_ahead Ftl.Layout.ahead_fresh (by decide) (by decide : 1 < totalLpns) blankPage
  have hexec : ftl₀.exec 0 (.write 1 blankPage) = some (⟨.ok, none⟩, ftl) := by
    rw [Ftl.exec, hwrite]
    rfl
  refine ⟨ftl₀, _, ftl, hon, .single True.intro ⟨0, hexec⟩, h'.inv.started, ?_⟩
  rw [h'.table, htable, Function.update_self]
  rfl

end Openings

/-! ## Isolation -/

section Isolation

variable {rand : ℕ → ℕ} {ftl : Ftl} {s : Target × Book} {tr : List (TcpCall × List Sent)}

/-- If the hosts follow the protocol, with at most one command that waits for data on each
    connection, and no data are stored over those received for a command of another connection,
    then the data used for each command are those that have been sent for it: they are what the next
    PDU of the run stores, by its FTL calls. -/
theorem tcp_isolated (hrun : bookMachine.Run Separate (Target.init rand ftl, Book.init) tr s) :
    s.1.performed = s.2.performed ∧ ∀ call fuel sent t', Separate s call →
      tcpExec fuel s.1 call = some (sent, t') → Stores fuel s.1 s.2 call t' :=
  ⟨(follows_run hrun).performed, fun _ _ _ _ hsep hexec =>
    (follows_run hrun).stores hsep.1.1 hexec⟩

/-- The connections 0 and 1 are opened, and half of the data comes for the command of the first
    one. -/
def openings : List TcpCall := opening 0 ++ opening 1 ++ [.h2cData 0 (halfRange 0 false 0)]

/-- The Dataset Management of the connection 0, after half of its data. -/
def halfPending : Pending := trimPending.receive (halfRange 0 false 0)

/-- The book when two connections have been opened. -/
theorem outstanding_opened : ((opening 0 ++ opening 1).foldl Book.next Book.init).outstanding =
    Function.update (Function.update (fun _ => []) 0 [trimPending]) 1 [trimPending] := by
  rw [List.foldl_append, opening_next, opening_next]
  rfl

/-- No data have come for the commands that wait. -/
theorem bytes_opened (j : ℕ) :
    ∀ q ∈ ((opening 0 ++ opening 1).foldl Book.next Book.init).outstanding j, q.bytes = [] := by
  intro q hq
  rw [outstanding_opened] at hq
  by_cases hj : j = 0 ∨ j = 1
  · obtain rfl : q = trimPending := by
      rcases hj with rfl | rfl
      · exact List.mem_singleton.1 hq
      · exact List.mem_singleton.1 hq
    rfl
  · rw [Function.update_of_ne fun h => hj (.inr h), Function.update_of_ne fun h => hj (.inl h)]
      at hq
    exact absurd hq List.not_mem_nil

/-- The book after the openings. -/
theorem openings_next : openings.foldl Book.next Book.init =
    { (opening 0 ++ opening 1).foldl Book.next Book.init with
      outstanding := Function.update ((opening 0 ++ opening 1).foldl Book.next Book.init).outstanding
        0 [halfPending] } := by
  have hnext := @next_h2cData ((opening 0 ++ opening 1).foldl Book.next Book.init) 0
    (halfRange 0 false 0) trimPending (by rw [outstanding_opened]; rfl) rfl
  rw [if_neg (by decide)] at hnext
  rw [openings, List.foldl_append, List.foldl_cons, hnext]
  rfl

/-- The commands that wait after the openings. -/
theorem outstanding_openings : (openings.foldl Book.next Book.init).outstanding =
    Function.update ((opening 0 ++ opening 1).foldl Book.next Book.init).outstanding 0
      [halfPending] := by
  rw [openings_next]

theorem openings_leads (ftl : Ftl) : Leads (fun _ => True) ftl openings := by
  have h₀ : Leads (fun _ => True) ftl [] := ⟨[], _, .nil, rfl, rfl⟩
  have h₁ := h₀.opening (i := 0) (fun _ _ => trivial) rfl fun _ q hq => absurd hq List.not_mem_nil
  have h₂ := h₁.opening (i := 1) (fun _ _ => trivial)
    (by rw [List.nil_append, opening_next]; rfl) fun j q hq => by
      rw [List.nil_append, opening_next] at hq
      dsimp only at hq
      by_cases hj : j = 0
      · subst hj
        obtain rfl : q = trimPending := List.mem_singleton.1 hq
        rfl
      · rw [Function.update_of_ne hj] at hq
        exact absurd hq List.not_mem_nil
  refine h₂.snoc trivial (fun t => ⟨⟨⟨trimPending, ?_, rfl, rfl, by decide, by decide, by decide,
    rfl⟩, trivial⟩, fun j _ q hq => ?_⟩) fun _ _ => handleH2cData_of_not_last rfl
  · rw [List.nil_append, outstanding_opened]
    exact List.mem_cons_self
  · rw [bytes_opened j q hq]
    exact Nat.zero_le _

/-- The last data for the connection 0 are stored over none of the connection 1. -/
theorem separate_last (t : Target) :
    Separate (t, openings.foldl Book.next Book.init) (.h2cData 0 (halfRange 8 true 0)) := by
  refine ⟨⟨⟨halfPending, ?_, rfl, rfl, by decide, by decide, by decide, rfl⟩, trivial⟩,
    fun j hj q hq => ?_⟩
  · rw [outstanding_openings, Function.update_self]
    exact List.mem_cons_self
  · rw [outstanding_openings, Function.update_of_ne hj] at hq
    rw [bytes_opened j q hq]
    exact Nat.zero_le _

/-- The last data for the connection 0 are those with which its command is complete. -/
theorem uses_last : (openings.foldl Book.next Book.init).uses (.h2cData 0 (halfRange 8 true 0)) =
    some ⟨0, 0, 0x09, 0, List.replicate 16 0⟩ := by
  rw [uses_h2cData (p := halfPending) (by rw [outstanding_openings, Function.update_self]) rfl,
    if_pos (by decide)]
  rfl

/-- The data of a Dataset Management in two parts: the logical page 0 is trimmed. -/
theorem tcp_isolated_halves : ∃ ftl tr t fuel sent t' ret,
    bookMachine.Run Separate (Target.init (fun _ => 0) ftl, Book.init) tr
      (t, openings.foldl Book.next Book.init) ∧
    tr.map Prod.fst = openings ∧
    tcpExec fuel t (.h2cData 0 (halfRange 8 true 0)) = some (sent, t') ∧
    Ftl.Run Machine.anyCall t.ftl [(.trim 0 1, ⟨ret, none⟩)] t'.ftl := by
  obtain ⟨ftl₀, calls, ftl, hon, hcalls, _⟩ := exists_mapped
  obtain ⟨tr, t, hrun, rfl, htr⟩ := openings_leads ftl
  have hsep : bookMachine.Run Separate _ tr _ := hrun.mono fun _ _ hs => hs.2
  have hholds := (follows_run hsep).holds 0
  rw [outstanding_openings, Function.update_self] at hholds
  obtain ⟨fuel, sent, t', hexec, _⟩ := exists_handleH2cData (p := halfPending)
    (d := halfRange 8 true 0) hholds.get rfl rfl rfl (by decide) rfl
    (.of_run Ftl.fourRand_recurs hon hcalls)
    (not_wraps (x := (halfPending.receive (halfRange 8 true 0)).performed 0) rfl (by decide))
  have hcall : tcpExec fuel t (.h2cData 0 (halfRange 8 true 0)) = _ := hexec
  have hstores := (tcp_isolated hsep).2 _ fuel sent _ (separate_last t) hcall
  obtain ⟨⟨ok, hstore⟩, hftl⟩ := hstores.used _ uses_last
  -- The only call is that for the range of zeros.
  have hstore' : trimRanges (bufferOf (List.replicate 16 0)).range [0] true t.ftl =
      some (ok, _) := hstore
  have hrange : (bufferOf (List.replicate 16 0)).range 0 = ⟨0, 1⟩ := by decide
  rw [trimRanges, hrange] at hstore'
  dsimp only at hstore'
  cases htrim : t.ftl.trim 0 1 with
  | none =>
    rw [htrim] at hstore'
    cases hstore'
  | some r =>
    obtain ⟨ret, ftl'⟩ := r
    have hlist : Performed.calls ⟨0, 0, 0x09, 0, List.replicate 16 0⟩ fuel t.ftl =
        [(.trim 0 1, ⟨ret, none⟩)] := by
      change trimCalls (bufferOf (List.replicate 16 0)).range [0] t.ftl = _
      rw [trimCalls, hrange]
      dsimp only
      rw [htrim]
      rfl
    rw [hlist] at hftl
    exact ⟨t.ftl, tr, t, fuel, sent, _, ret, hsep, htr, hcall, hftl⟩

/-- The command of the connection 0, with data for the one of the connection 1. -/
def mixedPending : Pending := { halfPending with bytes := List.replicate 8 1 }

/-- A trim that goes to the end of the device takes the logical page 1 out of the map, and a trim of
    the logical page 0 does not. -/
theorem trim_l2pTable_one {ftl ftl' : Ftl} {count : UInt32} {ret : RetCode}
    (hinit : ftl.isInitialized) (hcount : count ≠ 0)
    (htrim : ftl.trim 0 count = some (ret, ftl')) :
    ftl'.l2pTable 1 = if 1 < Ftl.trimLength 0 count then none else ftl.l2pTable 1 := by
  rw [Ftl.trim, if_neg (not_not.2 hinit), if_neg hcount, if_neg (by decide)] at htrim
  obtain ⟨ftl₁, hpages, heq⟩ := Option.map_eq_some_iff.1 htrim
  obtain ⟨_, rfl⟩ := Prod.mk.inj heq
  have hpage := Ftl.foldlM_trimPage_l2pTable hpages 1
  have hmem : 1 ∈ List.range' (0 : UInt32).toNat (Ftl.trimLength 0 count) ↔
      1 < Ftl.trimLength 0 count := by
    rw [List.mem_range'_1, UInt32.toNat_zero, Nat.zero_add]
    exact and_iff_right (Nat.zero_le _)
  rw [if_congr hmem rfl rfl] at hpage
  exact hpage

/-- The one range of a Dataset Management is trimmed. -/
theorem store_one {x : Performed} {ftl : Ftl} {r : Bool × Ftl} {fuel : ℕ} (hop : x.opcode = 0x09)
    (hlen : x.bytes.length = 16) (hstore : x.store fuel ftl = some r) :
    ∃ ret, ftl.trim ((bufferOf x.bytes).range 0).lpn ((bufferOf x.bytes).range 0).count =
      some (ret, r.2) := by
  rw [Performed.store, hop, if_neg (by decide), if_pos rfl, hlen] at hstore
  have hstore' : trimRanges (bufferOf x.bytes).range [0] true ftl = some r := hstore
  rw [trimRanges] at hstore'
  split at hstore'
  · cases hstore'
  · next ftl' htrim =>
    obtain rfl := Option.some.inj hstore'
    exact ⟨_, htrim⟩
  · next ret ftl' _ htrim =>
    obtain rfl := Option.some.inj hstore'
    exact ⟨_, htrim⟩

/-- Without the condition on the data of other connections, the data used for a command may be
    those of a command of another connection: the logical page 1 is trimmed, too. -/
theorem not_tcp_isolated : ¬ ∀ rand ftl tr s,
    bookMachine.Run Proper (Target.init rand ftl, Book.init) tr s →
      ∀ call fuel sent t', Proper s call → tcpExec fuel s.1 call = some (sent, t') →
        Stores fuel s.1 s.2 call t' := by
  intro h
  obtain ⟨ftl₀, calls, ftl, hon, hcalls, hinit, hmapped⟩ := exists_mapped
  have hlively := Ftl.Lively.of_run Ftl.fourRand_recurs hon hcalls
  obtain ⟨tr, t, hrun, rfl, _⟩ := openings_leads ftl
  have hfollows := follows_run (hrun.mono fun _ _ hs => hs.2)
  have hproper : bookMachine.Run Proper _ tr _ := hrun.mono fun _ _ hs => hs.2.1
  -- The first half of the data for the connection 1 is stored over that for the connection 0.
  have hlist₁ : (openings.foldl Book.next Book.init).outstanding 1 = [trimPending] := by
    rw [outstanding_openings, Function.update_of_ne (by decide), outstanding_opened,
      Function.update_self]
  have hwaits₁ : Target.Waits (t.conns 1) t.writeBuf trimPending := by
    have hholds := hfollows.holds 1
    rw [hlist₁] at hholds
    exact hholds.get
  obtain ⟨hconns, _, hbytes, _⟩ :=
    hwaits₁.receive (d := halfRange 0 false 1) rfl (by decide) (by decide) rfl
  have hexec₁ := @Target.Waits.handleH2cData t 1 0 (halfRange 0 false 1) _ hwaits₁ rfl (by decide)
    (by decide) rfl
  rw [if_neg (by decide)] at hexec₁
  have hrun₁ := @book_snoc _ _ _ _ (.h2cData 1 (halfRange 0 false 1)) _ _ 0 hproper
    ⟨⟨trimPending, by rw [hlist₁]; exact List.mem_cons_self, rfl, rfl, by decide, by decide,
      by decide, rfl⟩, trivial⟩ hexec₁
  have hnext₁ := @next_h2cData (openings.foldl Book.next Book.init) 1 (halfRange 0 false 1)
    trimPending hlist₁ rfl
  rw [if_neg (by decide)] at hnext₁
  -- The command of the connection 0 is completed with it.
  have hholds₀ := hfollows.holds 0
  rw [outstanding_openings, Function.update_self] at hholds₀
  have hwaits₀ := hholds₀.get
  have hmixed : Target.Waits ((t.receive 1 (halfRange 0 false 1)).conns 0)
      (t.receive 1 (halfRange 0 false 1)).writeBuf mixedPending := by
    rw [hconns, Function.update_of_ne (by decide)]
    exact ⟨hwaits₀.1, hwaits₀.2, hwaits₀.3, hwaits₀.4, hwaits₀.5, hwaits₀.6, by decide, hwaits₀.8,
      hbytes⟩
  have hftl₁ : (t.receive 1 (halfRange 0 false 1)).ftl = t.ftl := Target.receive_ftl
  generalize t.receive 1 (halfRange 0 false 1) = t₁ at hrun₁ hmixed hftl₁
  obtain ⟨fuel, sent, t', hexec, hdone⟩ := exists_handleH2cData (d := halfRange 8 true 0) hmixed rfl
    rfl rfl (by decide) rfl (hftl₁ ▸ hlively)
    (not_wraps (x := (mixedPending.receive (halfRange 8 true 0)).performed 0) rfl (by decide))
  have hcall : tcpExec fuel t₁ (.h2cData 0 (halfRange 8 true 0)) = _ := hexec
  have hlist₀ : ((openings.foldl Book.next Book.init).next
      (.h2cData 1 (halfRange 0 false 1))).outstanding 0 = [halfPending] := by
    rw [hnext₁]
    dsimp only
    rw [Function.update_of_ne (by decide), outstanding_openings, Function.update_self]
  have hstores := h _ _ _ _ hrun₁ (.h2cData 0 (halfRange 8 true 0)) fuel sent _ ⟨⟨halfPending, by
    rw [hlist₀]; exact List.mem_cons_self, rfl, rfl, by decide, by decide, by decide, rfl⟩,
    trivial⟩ hcall
  -- The range sent is the logical page 0, the one used has other bytes in its length.
  obtain ⟨⟨ok, hsent⟩, _⟩ := hstores.used ⟨0, 0, 0x09, 0, List.replicate 16 0⟩
    (by rw [uses_h2cData hlist₀ rfl, if_pos (by decide)]; rfl)
  obtain ⟨ok', hused⟩ := hdone.store
  obtain ⟨ret, htrim⟩ := store_one rfl rfl hsent
  obtain ⟨ret', htrim'⟩ := store_one rfl rfl hused
  have hinit₁ : t₁.ftl.isInitialized := hftl₁ ▸ hinit
  have hfirst := trim_l2pTable_one hinit₁ (by decide) htrim
  have hrange : (bufferOf ((mixedPending.receive (halfRange 8 true 0)).performed 0).bytes).range 0 =
      ⟨0, 0x01010102⟩ := by
    decide
  rw [Target.receive_ftl, hrange] at htrim'
  have hsecond := trim_l2pTable_one hinit₁ (by decide) htrim'
  rw [if_neg (by decide), hftl₁] at hfirst
  rw [if_pos (by decide)] at hsecond
  rw [← hfirst] at hmapped
  exact Option.ne_none_iff_isSome.2 hmapped hsecond

end Isolation

/-! ## Exactly one completion -/

section Completions

variable {rand : ℕ → ℕ} {ftl : Ftl} {s : Target × Book} {tr : List (TcpCall × List Sent)} {i : ℕ}

/-- The connection on which a PDU is received. -/
def TcpCall.conn : TcpCall → ℕ
  | .icreq i _ => i
  | .capsule i _ => i
  | .h2cData i _ => i
  | .termReq i => i

/-- The host of the connection `i` follows the protocol. -/
def Obeying (i : ℕ) (s : Target × Book) (call : TcpCall) : Prop := call.conn = i ∧ s.2.Obeys call

/-- Moreover, no two commands wait for data at a time. -/
def Single (i : ℕ) (s : Target × Book) (call : TcpCall) : Prop := Obeying i s call ∧ s.2.Sole call

/-- A PDU is of no concern to the commands that wait on other connections. -/
theorem Book.next_outstanding (b : Book) (call : TcpCall) {j : ℕ} (hj : j ≠ call.conn) :
    (b.next call).outstanding j = b.outstanding j := by
  cases call with
  | icreq i sent => rfl
  | termReq i => rfl
  | capsule i c =>
    rw [Book.next]
    cases transferTotal (b.qid i) c.cmd with
    | none =>
      dsimp only
      split <;> rfl
    | some total =>
      dsimp only
      split_ifs
      · rfl
      · exact Function.update_of_ne hj _ _
      · rfl
  | h2cData i d =>
    rw [Book.next]
    cases (b.outstanding i).find? fun p => p.cid == d.cccid with
    | none => rfl
    | some p =>
      dsimp only
      split_ifs
      · exact Function.update_of_ne hj _ _
      · exact Function.update_of_ne hj _ _

/-- On one connection, no data are stored over those received for a command of another one. -/
theorem Book.apart_of_alone {b : Book} {call : TcpCall}
    (h : ∀ j ≠ call.conn, b.outstanding j = []) : b.Apart call := by
  cases call with
  | icreq i sent => trivial
  | termReq i => trivial
  | capsule i c =>
    refine fun _ _ _ => .inr fun j hj p hp => ?_
    rw [h j hj] at hp
    exact absurd hp List.not_mem_nil
  | h2cData i d =>
    intro j hj p hp
    rw [h j hj] at hp
    exact absurd hp List.not_mem_nil

/-- The identifiers of the commands sent on the connection `i`. -/
def submitted (i : ℕ) (tr : List (TcpCall × List Sent)) : List UInt16 :=
  tr.flatMap fun e => e.1.submitted i

/-- The identifiers in the completions sent on the connection `i`. -/
def completed (i : ℕ) (tr : List (TcpCall × List Sent)) : List UInt16 :=
  tr.flatMap fun e => responses i e.2

theorem submitted_append (i : ℕ) (tr : List (TcpCall × List Sent)) (call : TcpCall)
    (sent : List Sent) :
    submitted i (tr ++ [(call, sent)]) = submitted i tr ++ call.submitted i := by
  rw [submitted, List.flatMap_append, List.flatMap_singleton]
  rfl

theorem completed_append (i : ℕ) (tr : List (TcpCall × List Sent)) (call : TcpCall)
    (sent : List Sent) :
    completed i (tr ++ [(call, sent)]) = completed i tr ++ responses i sent := by
  rw [completed, List.flatMap_append, List.flatMap_singleton]
  rfl

/-- The commands are those of the calls. -/
theorem submitted_eq (i : ℕ) (tr : List (TcpCall × List Sent)) :
    submitted i tr = (tr.map Prod.fst).flatMap (TcpCall.submitted i) := by
  rw [submitted, List.flatMap_map]

/-- Throughout a run with a single connection, the target follows the book, and the commands sent
    have been completed, or wait for data. -/
theorem single_run
    (hrun : bookMachine.Run (Single i) (Target.init rand ftl, Book.init) tr s) :
    Follows s.1 s.2 ∧ (∀ j ≠ i, s.2.outstanding j = []) ∧
      (submitted i tr).Perm (completed i tr ++ s.2.waiting i) := by
  induction hrun with
  | nil => exact ⟨follows_init rand ftl, fun _ _ => rfl, .refl _⟩
  | @snoc tr s call sent s' _ hallowed hstep ih =>
    obtain ⟨hfollows, halone, hperm⟩ := ih
    obtain ⟨⟨rfl, hobeys⟩, hsole⟩ := hallowed
    obtain ⟨⟨fuel, hexec⟩, hnext⟩ := hstep
    obtain ⟨hfollows', hbalanced⟩ :=
      hfollows.step hobeys hsole (Book.apart_of_alone halone) hexec
    rw [hnext]
    refine ⟨hfollows', fun j hj => ?_, ?_⟩
    · rw [Book.next_outstanding _ _ hj, halone j hj]
    · -- What waited before this step has been answered by it, or waits after it.
      rw [submitted_append, completed_append, List.append_assoc]
      refine (hperm.append_right _).trans ?_
      rw [List.append_assoc]
      exact (List.perm_append_comm.trans (hbalanced _)).append_left _

/-- The device stays lively. -/
theorem book_lively {allowed : Target × Book → TcpCall → Prop} (hftl : ftl.Lively)
    (hrun : bookMachine.Run allowed (Target.init rand ftl, Book.init) tr s) : s.1.ftl.Lively :=
  hrun.invariant (P := fun s => s.1.ftl.Lively) hftl fun _ _ _ _ h _ hstep =>
    hstep.1.elim fun _ hexec => tcpExec_lively h hexec

/-- If the host of a connection follows the protocol, with at most one command that waits for data
    at a time, then the completions carry the identifiers of the commands sent, each as often as it
    has been sent, up to those of the commands that still wait for data. The data used for each
    command are those sent for it, and the next PDU of the run is handled, which uses them by its
    FTL calls, unless it completes a Dataset Management with a range that wraps around. -/
theorem tcp_completes {rand' : ℕ → ℕ} {files : String → Option (List UInt8)} {ftl₀ : Ftl}
    {calls : List (Call × Answer)} (hrand : Recurs Nand.WearsOut rand')
    (hon : Ftl.powerOn rand' files = (.ok, ftl₀))
    (hcalls : Ftl.Run (fun _ _ => True) ftl₀ calls ftl)
    (hrun : bookMachine.Run (Single i) (Target.init rand ftl, Book.init) tr s) :
    (submitted i tr).Perm (completed i tr ++ s.2.waiting i) ∧ s.1.performed = s.2.performed ∧
      ∀ call, Single i s call →
        ((∃ fuel r, tcpExec fuel s.1 call = some r) ↔
          ∀ x, s.2.uses call = some x → ¬ x.Wraps s.1.ftl) ∧
        ∀ fuel sent t', tcpExec fuel s.1 call = some (sent, t') →
          Stores fuel s.1 s.2 call t' := by
  obtain ⟨hfollows, _, hperm⟩ := single_run hrun
  have hlively := book_lively (.of_run hrand hon hcalls) hrun
  exact ⟨hperm, hfollows.performed, fun call hsingle =>
    ⟨tcpExec_iff hfollows hlively hsingle.1.2, fun _ _ _ hexec =>
      hfollows.stores hsingle.1.2 hexec⟩⟩

/-- All the data of a Dataset Management. -/
def wholeRange : H2cData := ⟨0, 0, 16, true, some fun _ => 0⟩

theorem opening_leads (ftl : Ftl) : Leads (fun call => call.conn = 0) ftl (opening 0) := by
  have h₀ : Leads (fun call => call.conn = 0) ftl [] := ⟨[], _, .nil, rfl, rfl⟩
  refine h₀.opening (i := 0) (fun call hcall => ?_) rfl fun _ q hq => absurd hq List.not_mem_nil
  have hcall : call = .icreq 0 true ∨ call = .capsule 0 connectCapsule ∨
      call = .capsule 0 (trimCapsule 0) := by
    simpa only [opening, List.mem_cons, List.not_mem_nil, or_false] using hcall
  rcases hcall with rfl | rfl | rfl <;> rfl

theorem outstanding_opening : ((opening 0).foldl Book.next Book.init).outstanding 0 =
    [trimPending] := by
  rw [opening_next]
  rfl

/-- All its data have been sent for the Dataset Management. -/
theorem uses_wholeRange : ((opening 0).foldl Book.next Book.init).uses (.h2cData 0 wholeRange) =
    some ((trimPending.receive wholeRange).performed 0) := by
  rw [uses_h2cData outstanding_opening rfl, if_pos (by decide)]

/-- The data of the Dataset Management may be sent. -/
theorem single_wholeRange (t : Target) :
    Single 0 (t, (opening 0).foldl Book.next Book.init) (.h2cData 0 wholeRange) := by
  refine ⟨⟨rfl, trimPending, ?_, rfl, rfl, by decide, by decide, by decide, rfl⟩, trivial⟩
  rw [outstanding_opening]
  exact List.mem_cons_self

/-- A Dataset Management that gets its data is completed. -/
theorem tcp_completes_whole : ∃ ftl tr s,
    bookMachine.Run (Single 0) (Target.init (fun _ => 0) ftl, Book.init) tr s ∧
      tr.map Prod.fst = opening 0 ++ [.h2cData 0 wholeRange] ∧
      (submitted 0 tr).Perm (completed 0 tr) ∧ submitted 0 tr = [0, 0] := by
  obtain ⟨ftl₀, calls, ftl, hon, hcalls, _⟩ := exists_mapped
  obtain ⟨tr, t, hrun, rfl, htr⟩ := opening_leads ftl
  have hsingle : bookMachine.Run (Single 0) _ tr _ :=
    hrun.mono fun _ _ hs => ⟨⟨hs.1, hs.2.1.1⟩, hs.2.1.2⟩
  obtain ⟨_, _, hnextStep⟩ := tcp_completes Ftl.fourRand_recurs hon hcalls hsingle
  obtain ⟨fuel, ⟨sent, t'⟩, hexec⟩ := (hnextStep _ (single_wholeRange t)).1.2 fun x hx => by
    rw [uses_wholeRange] at hx
    obtain rfl := Option.some.inj hx
    exact not_wraps rfl (by decide)
  have hrun' := book_snoc hsingle (single_wholeRange t) hexec
  have hperm := (tcp_completes Ftl.fourRand_recurs hon hcalls hrun').1
  have hnext := @next_h2cData ((opening 0).foldl Book.next Book.init) 0 wholeRange trimPending
    outstanding_opening rfl
  rw [if_pos (by decide)] at hnext
  dsimp only at hperm
  rw [hnext, Book.waiting] at hperm
  dsimp only at hperm
  rw [Function.update_self, List.map_nil, List.append_nil] at hperm
  refine ⟨t.ftl, _, _, hrun', ?_, hperm, ?_⟩
  · rw [List.map_append, htr]
    rfl
  · rw [submitted_append, submitted_eq, htr]
    rfl

/-- The data of the first one of two commands that wait. -/
theorem waiting_wholeRange {b : Book}
    (hlist : b.outstanding 0 = [(trimCapsule 1).pending 16, trimPending]) :
    (b.next (.h2cData 0 wholeRange)).waiting 0 = [1] := by
  have hfind : [(trimCapsule 1).pending 16, trimPending].find?
      (fun p => p.cid == wholeRange.cccid) = some trimPending := rfl
  rw [Book.next, hlist, hfind]
  dsimp only
  rw [if_pos (by decide), Book.waiting]
  dsimp only
  rw [Function.update_self]
  rfl

/-- Without the condition that no two commands wait for data, a command may get no completion,
    and its data may complete another one. -/
theorem not_tcp_completes : ¬ ∀ i rand ftl tr s,
    bookMachine.Run (Obeying i) (Target.init rand ftl, Book.init) tr s →
      (submitted i tr).Perm (completed i tr ++ s.2.waiting i) := by
  intro h
  obtain ⟨ftl₀, calls, ftl, hon, hcalls, _⟩ := exists_mapped
  obtain ⟨tr, t, hrun, rfl, htr⟩ := opening_leads ftl
  have hsingle : bookMachine.Run (Single 0) _ tr _ :=
    hrun.mono fun _ _ hs => ⟨⟨hs.1, hs.2.1.1⟩, hs.2.1.2⟩
  obtain ⟨hfollows, _, hperm⟩ := single_run hsingle
  -- A second Dataset Management takes the place of the first one, which waits.
  have hqid : (t.conns 0).qid ≠ 0 := by
    rw [hfollows.qid 0, opening_next]
    exact Nat.one_ne_zero
  have hcall₁ : tcpExec 0 t (.capsule 0 (trimCapsule 1)) = _ := handleCapsuleCmd_trim 1 hqid
  have hobeying : bookMachine.Run (Obeying 0) _ tr _ := hsingle.mono fun _ _ hs => hs.1
  have hrun₁ := @book_snoc _ _ _ _ (.capsule 0 (trimCapsule 1)) _ _ 0 hobeying
    ⟨rfl, fun p hp => by
      rw [outstanding_opening, List.mem_singleton] at hp
      rw [hp]
      exact (by decide : (0 : UInt16) ≠ 1)⟩ hcall₁
  have hlist : (((opening 0).foldl Book.next Book.init).next
      (.capsule 0 (trimCapsule 1))).outstanding 0 = [(trimCapsule 1).pending 16, trimPending] := by
    rw [next_trim _ (by rw [opening_next]; exact Nat.one_ne_zero)]
    dsimp only
    rw [Function.update_self, outstanding_opening]
  -- The data of the first one complete the second one.
  have hwaits : Target.Waits ((t.startTransfer 0 (trimCapsule 1) 16).conns 0)
      (t.startTransfer 0 (trimCapsule 1) 16).writeBuf ((trimCapsule 1).pending 16) :=
    Target.waits_startTransfer (by decide) (by decide)
  obtain ⟨fuel, sent, t', hexec, hdone⟩ := @exists_handleH2cData
    (t.record 0 (t.conns 0).qid (t.startTransfer 0 (trimCapsule 1) 16)) 0 wholeRange _ hwaits rfl
    rfl rfl (by decide) rfl (.of_run Ftl.fourRand_recurs hon hcalls)
    (not_wraps (x := (((trimCapsule 1).pending 16).receive wholeRange).performed 0) rfl (by decide))
  have hresponds := hdone.responds
  have hrun₂ := @book_snoc _ _ _ _ (.h2cData 0 wholeRange) _ _ fuel hrun₁ ⟨rfl, trimPending,
    by rw [hlist]; exact List.mem_cons_of_mem _ List.mem_cons_self, rfl, rfl, by decide, by decide,
    by decide, rfl⟩ hexec
  -- The identifier 0 has been submitted once more than it has been completed.
  rw [submitted_eq, htr, Book.waiting, outstanding_opening] at hperm
  have hcount := hperm.count_eq 0
  have hcounts := (h _ _ _ _ _ hrun₂).count_eq 0
  dsimp only at hcounts
  rw [submitted_append, submitted_append, submitted_eq, htr, completed_append, completed_append,
    hresponds 0, if_pos rfl, waiting_wholeRange hlist] at hcounts
  simp only [List.count_append] at hcount hcounts
  have hopened : ((opening 0).flatMap (TcpCall.submitted 0)).count 0 = 2 := by decide
  have hcid : ([trimPending].map Pending.cid).count 0 = 1 := by decide
  have hzero : (TcpCall.submitted 0 (.capsule 0 (trimCapsule 1))).count 0 = 0 := by decide
  have hnone : (TcpCall.submitted 0 (.h2cData 0 wholeRange)).count 0 = 0 := rfl
  have hr2t : (responses 0 [.r2t 0 1 0 16]).count 0 = 0 := rfl
  have hone : [(((trimCapsule 1).pending 16).receive wholeRange).cid].count 0 = 0 := by decide
  have hlast : [(1 : UInt16)].count 0 = 0 := by decide
  rw [hopened, hcid] at hcount
  rw [hopened, hzero, hnone, hr2t, hone, hlast] at hcounts
  omega

end Completions

end Nvme

end FtlFirmware
