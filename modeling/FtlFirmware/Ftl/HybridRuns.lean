import FtlFirmware.Ftl.Migrating

/-!
# Runs in hybrid mode

As long as its migrations are quiet (`Keeps`), a device on which the hybrid mode is switched on and
off does what the device in page mapping mode does, but for the hybrid map, and gives back what has
been written (`hybrid_runs`).
-/

namespace FtlFirmware

/-- The call, for a device in page mapping mode. -/
def Call.plain : Call → Call
  | .setMapMode _ => .setMapMode .page
  | call => call

namespace Ftl

variable {c : Store} {s s' : Ftl} {fuel : ℕ} {call : Call} {a : Answer}

/-- The migrations of a call are quiet: one on request, and one that is due at the end of a
    write. -/
def Keeps (s : Ftl) : Call → Prop
  | .hotColdMigration => s.Quiet s.blockMap
  | .write lpn buf => s.mapMode = .hybrid → hotColdCheckInterval ≤ s.hotColdCheckCount + 1 →
      ∀ fuel t, (s.under .off).write fuel lpn buf = some (.ok, t) →
        t.Quiet (s.hybridUpdateAccessCount lpn).blockMap
  | _ => True

/-- The accesses are counted in the hybrid map. -/
theorem hybridUpdateAccessCount_blockMap (s t : Ftl) (lpn : ℕ) :
    ((t.under s.hybridMap).hybridUpdateAccessCount lpn).blockMap =
      (s.hybridUpdateAccessCount lpn).blockMap := by
  simp only [hybridUpdateAccessCount, apply_ite blockMap]
  rfl

theorem Bounded.under_off (h : s.Bounded) : (s.under .off).Bounded :=
  ⟨h.l2p, h.rev, h.cursor, fun _ hvalid => absurd hvalid Bool.false_ne_true⟩

/-- In page mapping mode, a write leaves the hybrid map as it is. -/
theorem write_off {lpn : ℕ} {buf : PageData} {r : RetCode × Ftl}
    (h : (s.under .off).write fuel lpn buf = some r) : r.2.under .off = r.2 := by
  obtain ⟨ppn, heq⟩ := (s.under .off).write_under fuel lpn buf
  have hoff : ¬ (r.1 = .ok ∧ (s.under .off).mapMode = .hybrid) := fun hand =>
    MapMode.noConfusion hand.2
  rw [under_under, h, Option.bind_some, if_neg hoff, Option.some_inj] at heq
  exact (congrArg Prod.snd heq).symm

/-- A write does what it does in page mapping mode. -/
theorem write_plain {lpn : ℕ} {buf : PageData} {ret : RetCode} (hinv : Inv ∅ c (s.under .off))
    (hbounded : s.Bounded) (hsafe : (s.under .off).OverwriteSafe lpn)
    (hkeeps : s.Keeps (.write lpn buf)) (h : s.write fuel lpn buf = some (ret, s')) :
    (s.under .off).write fuel lpn buf = some (ret, s'.under .off) := by
  obtain ⟨ppn, heq⟩ := s.write_under fuel lpn buf
  rw [heq] at h
  obtain ⟨⟨ret', t⟩, hplain, h⟩ := Option.bind_eq_some_iff.1 h
  have ht : t.under .off = t := write_off hplain
  rw [hplain]
  dsimp only at h
  split_ifs at h with haccounts
  · obtain ⟨s₁, hwrite, heq⟩ := Option.map_eq_some_iff.1 h
    obtain ⟨rfl, rfl⟩ := Prod.mk.inj heq
    obtain ⟨rfl, hmode⟩ := haccounts
    obtain ⟨c', hinv'⟩ : ∃ c', Inv ∅ c' t := by
      rcases write_inv hinv hsafe fuel buf with ⟨_, hnone⟩ | ⟨ret, t', hwrite', hinv'⟩
      · rw [hplain] at hnone
        simp at hnone
      · obtain ⟨_, rfl⟩ := Prod.mk.inj (Option.some_inj.1 (hplain.symm.trans hwrite'))
        exact ⟨_, hinv'⟩
    have hbounded' : t.Bounded := hbounded.under_off.of_write hplain
    have hquiet (hdue : hotColdCheckInterval ≤ s.hotColdCheckCount + 1) :
        (t.under s.hybridMap).Quiet ((t.under s.hybridMap).hybridUpdateAccessCount lpn).blockMap :=
      fun lb hlb => (hkeeps hmode hdue fuel t hplain lb hlb).congr rfl
        (congrFun (hybridUpdateAccessCount_blockMap s t lpn) lb)
    have hsame := hybridWrite_quiet (s := t.under s.hybridMap) (ht.symm ▸ hinv')
      ⟨hbounded'.l2p, hbounded'.rev, hbounded'.cursor, hbounded.blockMap⟩ hquiet hwrite
    rw [hsame, under_under, ht]
  · obtain ⟨rfl, rfl⟩ := Prod.mk.inj (Option.some_inj.1 h)
    rw [under_under, ht]

/-- A call does what it does in page mapping mode. -/
theorem exec_plain (hinv : Inv ∅ c (s.under .off)) (hbounded : s.Bounded)
    (hsafe : (s.under .off).Safe call.plain) (hkeeps : s.Keeps call)
    (h : s.exec fuel call = some (a, s')) :
    (s.under .off).exec fuel call.plain = some (a, s'.under .off) := by
  cases call with
  | read lpn buf =>
    obtain ⟨rfl, rfl⟩ := Prod.mk.inj (Option.some_inj.1 h)
    show (s.under .off).exec fuel (.read lpn buf) = _
    rw [exec, read_under_off]
    rfl
  | write lpn buf =>
    obtain ⟨⟨ret, t⟩, hwrite, heq⟩ := Option.map_eq_some_iff.1 h
    obtain ⟨rfl, rfl⟩ := Prod.mk.inj heq
    show (s.under .off).exec fuel (.write lpn buf) = _
    rw [exec, write_plain hinv hbounded hsafe hkeeps hwrite]
    rfl
  | trim lpn count =>
    obtain ⟨r, htrim, heq⟩ := Option.map_eq_some_iff.1 h
    obtain ⟨rfl, rfl⟩ := Prod.mk.inj heq
    show (s.under .off).exec fuel (.trim lpn count) = _
    rw [exec, trim_under, htrim]
    rfl
  -- The call that sets the mode has its counterpart in one that sets page mapping.
  | setMapMode mode =>
    obtain ⟨rfl, rfl⟩ := Prod.mk.inj (Option.some_inj.1 h)
    show (s.under .off).exec fuel (.setMapMode .page) = _
    have hstarted : s.isInitialized := hinv.started
    rw [exec, setMapMode, if_neg (not_not.2 hinv.started), setMapMode, if_neg (not_not.2 hstarted)]
    rfl
  -- The migration has one that does nothing.
  | hotColdMigration =>
    obtain ⟨⟨ret, t⟩, hmigrate, heq⟩ := Option.map_eq_some_iff.1 h
    obtain ⟨rfl, rfl⟩ := Prod.mk.inj heq
    obtain ⟨hunder, rfl⟩ := hotColdMigration_quiet hinv
      (fun lb hheats => hbounded.blockMap lb hheats.1) hkeeps hmigrate
    show (s.under .off).exec fuel .hotColdMigration = _
    rw [exec, hotColdMigration_eq hinv, hunder]
    rfl
  | triggerGc =>
    obtain ⟨rfl, rfl⟩ := Prod.mk.inj (Option.some_inj.1 h)
    show (s.under .off).exec fuel .triggerGc = _
    have hstarted : s.isInitialized := hinv.started
    rw [exec, triggerGc, if_neg (not_not.2 hinv.started), triggerGc, if_neg (not_not.2 hstarted),
      gcDoRecycle_under]
    rfl
  | handleReadDisturb =>
    obtain ⟨rfl, rfl⟩ := Prod.mk.inj (Option.some_inj.1 h)
    show (s.under .off).exec fuel .handleReadDisturb = _
    rw [exec, handleReadDisturb_under]
    rfl
  | replaceBadBlock block =>
    obtain ⟨rfl, rfl⟩ := Prod.mk.inj (Option.some_inj.1 h)
    show (s.under .off).exec fuel (.replaceBadBlock block) = _
    rw [exec, replaceBadBlock_under]
    rfl
  | saveSnapshot path =>
    obtain ⟨rfl, rfl⟩ := Prod.mk.inj (Option.some_inj.1 h)
    show (s.under .off).exec fuel (.saveSnapshot path) = _
    rw [exec, saveSnapshot_under]
    rfl
  | walClear =>
    obtain ⟨rfl, rfl⟩ := Prod.mk.inj (Option.some_inj.1 h)
    show (s.under .off).exec fuel .walClear = _
    rw [exec, walClear_under]
    rfl
  | _ =>
    obtain ⟨rfl, rfl⟩ := Prod.mk.inj (Option.some_inj.1 h)
    rfl

/-! ## Runs -/

/-- The contents after a call do not depend on the mapping mode. -/
theorem next_plain (c : Store) (call : Call) (a : Answer) :
    next c (call.plain, a) = next c (call, a) := by
  cases call <;> rfl

/-- A fresh device is in page mapping mode. -/
theorem Fresh.under_off (hfresh : Fresh s) : s.under .off = s := by
  obtain ⟨rand, files, hinit⟩ := hfresh
  rw [powerOn, init] at hinit
  split at hinit
  · exact absurd (congrArg Prod.fst hinit) RetCode.noConfusion
  · obtain rfl := (congrArg Prod.snd hinit).symm
    rfl

/-- A device reads the same in page mapping mode. -/
theorem ReadsBack.of_under_off (h : (s.under .off).ReadsBack c) : s.ReadsBack c := by
  intro lpn hlpn buf
  have hback := h lpn hlpn buf
  rwa [read_under_off] at hback

/-- A run in which the calls are safe and the migrations are quiet is one in page mapping mode, but
    for the hybrid map. So the device gives back what has been written. -/
theorem hybrid_runs {tr : List (Call × Answer)} (hfresh : Fresh s)
    (hrun : Run (fun s call => (s.under .off).Safe call.plain ∧ s.Keeps call) s tr s') :
    Run Safe s (tr.map (Prod.map Call.plain id)) (s'.under .off) ∧ s'.ReadsBack (contents tr) := by
  have himage : Run Safe (s.under .off) (tr.map (Prod.map Call.plain id)) (s'.under .off) := by
    refine hrun.image (P := fun s => (∃ c, Inv ∅ c (s.under .off)) ∧ s.Bounded)
      ⟨⟨_, hfresh.under_off.symm ▸ hfresh.inv⟩, hfresh.bounded⟩ ?_
    rintro s call a s' ⟨⟨c, hinv⟩, hbounded⟩ ⟨hsafe, hkeeps⟩ ⟨fuel, hexec⟩
    have hplain := exec_plain hinv hbounded hsafe hkeeps hexec
    refine ⟨⟨?_, exec_bounded hbounded hexec⟩, hsafe, fuel, hplain⟩
    rcases exec_inv hinv hsafe fuel with ⟨_, hnone⟩ | ⟨a', s'', hexec', hinv'⟩
    · rw [hplain] at hnone
      simp at hnone
    · obtain ⟨rfl, rfl⟩ := Prod.mk.inj (Option.some_inj.1 (hplain.symm.trans hexec'))
      exact ⟨_, hinv'⟩
  rw [hfresh.under_off] at himage
  have hcontents : contents (tr.map (Prod.map Call.plain id)) = contents tr := by
    rw [contents, contents, List.foldl_map]
    congr 1
    funext c e
    exact next_plain c e.1 e.2
  refine ⟨himage, .of_under_off ?_⟩
  rw [← hcontents]
  exact (run_inv hfresh.inv himage).readsBack

/-- A page written in hybrid mode. -/
theorem hybrid_runs_written : ∃ s' : Ftl, s'.mapMode = .hybrid ∧ s'.ReadsBack
    (contents [(.setMapMode .hybrid, ⟨.ok, none⟩), (.write 5 blankPage, ⟨.ok, none⟩)]) := by
  obtain ⟨s, t, hfresh, hexec, hsafe⟩ := exists_written 5 (by decide) blankPage
  have hstarted : s.isInitialized := hfresh.inv.started
  have hcount : s.hotColdCheckCount = 0 := congrArg hotColdCheckCount hfresh.under_off.symm
  set s₁ : Ftl := { s with mapMode := .hybrid } with hs₁
  have hunder : s₁.under .off = s := hfresh.under_off
  have hmode : s.exec 0 (.setMapMode .hybrid) = some (⟨.ok, none⟩, s₁) := by
    rw [exec, setMapMode, if_neg (not_not.2 hstarted)]
    rfl
  -- it is the first one whose access is counted, so there is no migration
  have hearly : ¬ hotColdCheckInterval ≤ s₁.hotColdCheckCount + 1 := by
    rw [hs₁]
    dsimp only
    rw [hcount]
    decide
  obtain ⟨s', hwrite, hmode'⟩ : ∃ s', s₁.write 0 5 blankPage = some (.ok, s') ∧
      s'.mapMode = .hybrid := by
    obtain ⟨⟨ret, t'⟩, hplain, heq⟩ := Option.map_eq_some_iff.1 hexec
    obtain ⟨hret, rfl⟩ := Prod.mk.inj heq
    obtain rfl : ret = .ok := congrArg Answer.ret hret
    obtain ⟨ppn, haccounts⟩ := s₁.write_under 0 5 blankPage
    obtain ⟨s', hs'⟩ : ∃ s', (t'.under s₁.hybridMap).hybridWrite 5 ppn = some s' :=
      ⟨_, (hybridWrite_eq _ 5 ppn).trans (if_neg hearly)⟩
    rw [hunder, hplain, Option.bind_some, if_pos ⟨rfl, rfl⟩, hs'] at haccounts
    have hfree : HybridFree Ftl.mapMode := fun _ _ _ _ _ _ => rfl
    exact ⟨s', haccounts, hfree.hybridWrite hs'⟩
  have hrun : Run (fun s call => (s.under .off).Safe call.plain ∧ s.Keeps call) s
      ([(.setMapMode .hybrid, ⟨.ok, none⟩)] ++ [(.write 5 blankPage, ⟨.ok, none⟩)]) s' := by
    have hexec' : s₁.exec 0 (.write 5 blankPage) = some (⟨.ok, none⟩, s') := by
      rw [exec, hwrite]
      rfl
    refine .append (.single ⟨rfl, True.intro⟩ ⟨0, hmode⟩) (.single ⟨?_, ?_⟩ ⟨0, hexec'⟩)
    · rw [hunder]
      exact hsafe
    · exact fun _ hdue => absurd hdue hearly
  exact ⟨s', hmode', (hybrid_runs hfresh hrun).2⟩

end Ftl

end FtlFirmware
