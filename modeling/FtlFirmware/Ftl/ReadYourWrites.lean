import FtlFirmware.Ftl.Reached

/-!
# Reads give back what was written

A host that reads, writes and trims, and lets the device reclaim blocks (`HostCall`), gets back what
it has written (`read_your_writes`), as long as its calls are safe.

A call that is not safe may lose a page (`not_read_your_writes`): the handling of read disturb
moves a page into the block of the write cursor, ahead of the cursor. The next garbage collection
finds the page in its victim, moves it back to the cursor, in the victim as well, and erases the
victim.
-/

namespace FtlFirmware

namespace Ftl

/-- The calls of a host that leaves the mapping mode, the log and the bad blocks alone. -/
inductive HostCall : Call → Prop
  | read (lpn : ℕ) (buf : PageData) : HostCall (.read lpn buf)
  | write (lpn : ℕ) (buf : PageData) : HostCall (.write lpn buf)
  | trim (lpn count : UInt32) : HostCall (.trim lpn count)
  | setGcAlgo (algo : GcAlgo) : HostCall (.setGcAlgo algo)
  | triggerGc : HostCall .triggerGc
  | handleReadDisturb : HostCall .handleReadDisturb

/-- Every read answers with the contents `c` of the logical page, and that the logical page is not
    mapped if it has none. -/
def ReadsBack (s : Ftl) (c : Store) : Prop :=
  ∀ lpn < totalLpns, ∀ buf : PageData, match c lpn with
    | some d => (s.read lpn buf).1 = .ok ∧ (s.read lpn buf).2.1 = d
    | none => (s.read lpn buf).1 = .errNotMapped

variable {c : Store} {s s' : Ftl} {tr : List (Call × Answer)}

/-- A device reads back the contents that it has. -/
theorem Inv.readsBack (h : Inv ∅ c s) : s.ReadsBack c := by
  intro lpn hlpn buf
  obtain ⟨hret, hbuf, _⟩ := read_inv h hlpn buf
  cases hc : c lpn with
  | none =>
    rw [hc] at hret
    exact hret
  | some d =>
    rw [hc] at hret hbuf
    exact ⟨hret, hbuf⟩

/-- After a run of safe calls of the host, the device reads back the contents that the calls and
    their answers say: the data last written, unless it has been trimmed since. -/
theorem read_your_writes (hfresh : Fresh s)
    (hrun : Run (fun s call => HostCall call ∧ s.Safe call) s tr s') :
    s'.ReadsBack (contents tr) :=
  (run_inv hfresh.inv (hrun.mono fun _ _ h => h.2)).readsBack

/-- A device is reached by writing a logical page. -/
theorem exists_written (lpn : ℕ) (hlpn : lpn < totalLpns) (buf : PageData) :
    ∃ s s', Fresh s ∧ s.exec 0 (.write lpn buf) = some (⟨.ok, none⟩, s') ∧
      s.OverwriteSafe lpn := by
  obtain ⟨s, hon, h⟩ := Calm.powerOn (fun _ => 99) (fun _ => by decide) fun _ => none
  have hun : ∀ lpn ppn, ¬ Layout.fresh.table lpn = some ppn := fun _ _ hl =>
    Option.some_ne_none _ hl.symm
  have ha := h.takeCursor (Nat.zero_le _) (by decide) fun lpn ppn hl => absurd hl (hun lpn ppn)
  obtain ⟨s', hw, _⟩ := h.write hlpn (fun _ _ lpn ppn hl => absurd hl (hun lpn ppn)) (by decide)
    (by decide) (fun lpn hl => hun lpn _ hl) ha (by decide) (fun _ _ => rfl) buf
  refine ⟨s, s', ⟨_, _, hon⟩, ?_, fun ppn hl => absurd (h.table ▸ hl) (hun lpn ppn)⟩
  rw [exec, hw]
  rfl

/-- The data of one write is read back. -/
theorem read_your_writes_single : ∃ s s' : Ftl, Fresh s ∧
    s.exec 0 (.write 5 blankPage) = some (⟨.ok, none⟩, s') ∧
    s'.ReadsBack (contents [(.write 5 blankPage, ⟨.ok, none⟩)]) := by
  obtain ⟨s, s', hfresh, hexec, hsafe⟩ := exists_written 5 (by decide) blankPage
  refine ⟨s, s', hfresh, hexec, read_your_writes hfresh (.single ?_ ⟨0, hexec⟩)⟩
  exact ⟨.write 5 blankPage, hsafe⟩

/-- Without the condition that the calls are safe, the data of the logical page 0 may be lost. -/
theorem not_read_your_writes : ¬ ∀ (s s' : Ftl) (tr : List (Call × Answer)), Fresh s →
    Run (fun _ call => HostCall call) s tr s' → s'.ReadsBack (contents tr) := by
  intro hreads
  obtain ⟨c, L, s, hreached, hL⟩ := exists_stranded (m := 1) HostCall.read HostCall.write
    (fun lpn => HostCall.trim lpn 1) HostCall.handleReadDisturb (by decide) (by decide)
  obtain ⟨d, s', hd, htrigger, hstarted, _, hl, hacc, hv, _⟩ := hreached.calm.triggerGc_loses
    hL.sole (by decide) (by decide) hL.block (by rw [hL.page]; decide)
    (by rw [hL.erases 1 (by decide)]; decide)
  obtain ⟨s₀, tr, hfresh, hrun, rfl, _⟩ := hreached
  have hstep : s.exec 0 .triggerGc = some (⟨.ok, none⟩, s') := by rw [exec, htrigger]; rfl
  -- The collection does not change what is to be read, but the page that it has moved is erased.
  have hback := hreads s₀ s' _ hfresh (hrun.snoc .triggerGc ⟨0, hstep⟩) 0 (by decide) blankPage
  have hc : contents (tr ++ [(.triggerGc, ⟨.ok, none⟩)]) 0 = some d := by
    rw [contents, List.foldl_append]
    exact hd
  rw [hc, read_of_invalid hstarted (by decide) hl hacc hv] at hback
  exact RetCode.noConfusion hback.1

end Ftl

end FtlFirmware
