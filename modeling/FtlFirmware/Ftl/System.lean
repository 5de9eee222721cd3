import FtlFirmware.Ftl.Snapshot
import FtlFirmware.Lib.Run

/-!
# The FTL as a machine

The calls that the host makes (`Call`), and how the device answers them (`exec`): a machine in
the sense of `Machine`. A call that does not come back, or that leaves the arrays of the device,
is not a step. A list of calls can be executed (`execAll`), which makes a run.
-/

namespace FtlFirmware

/-- The calls of the host. A read hands over a buffer. -/
inductive Call
  | read (lpn : ℕ) (buf : PageData)
  | write (lpn : ℕ) (buf : PageData)
  | trim (lpn count : UInt32)
  | setGcAlgo (algo : GcAlgo)
  | triggerGc
  | setMapMode (mode : MapMode)
  | hotColdMigration
  | handleReadDisturb
  | replaceBadBlock (block : ℕ)
  | saveSnapshot (path : String)
  | walInit (path : String)
  | walEnable (enable : Bool)
  | walClear

/-- The answer to a call: its return code and, for a read, the buffer. -/
structure Answer where
  ret : RetCode
  buf : Option PageData

namespace Ftl

/-- The answer of a call other than a read. -/
def answer (r : RetCode × Ftl) : Answer × Ftl := (⟨r.1, none⟩, r.2)

/-- Executes a call, with enough fuel for the garbage collections of a write. -/
def exec (fuel : ℕ) (s : Ftl) : Call → Option (Answer × Ftl)
  | .read lpn buf => let r := s.read lpn buf; some (⟨r.1, some r.2.1⟩, r.2.2)
  | .write lpn buf => (s.write fuel lpn buf).map answer
  | .trim lpn count => (s.trim lpn count).map answer
  | .setGcAlgo algo => some (answer (.ok, s.setGcAlgo algo))
  | .triggerGc => some (answer s.triggerGc)
  | .setMapMode mode => some (answer (s.setMapMode mode))
  | .hotColdMigration => s.hotColdMigration.map answer
  | .handleReadDisturb => some (answer s.handleReadDisturb)
  | .replaceBadBlock block => some (answer (s.replaceBadBlock block))
  | .saveSnapshot path => some (answer (s.saveSnapshot path))
  | .walInit path => some (answer (s.walInit path))
  | .walEnable enable => some (answer (.ok, s.walEnable enable))
  | .walClear => some (answer s.walClear)

/-- The device as a machine. -/
def machine : Machine Ftl Call Answer where
  step s c a s' := ∃ fuel, s.exec fuel c = some (a, s')

/-- A run of the device, in which every call meets the condition `allowed`. -/
abbrev Run (allowed : Ftl → Call → Prop) : Ftl → List (Call × Answer) → Ftl → Prop :=
  machine.Run allowed

/-- Executes calls one after another. -/
def execAll (fuel : ℕ) : List Call → Ftl → Option (List (Call × Answer) × Ftl)
  | [], s => some ([], s)
  | call :: calls, s =>
    match s.exec fuel call with
    | none => none
    | some (a, s) => (execAll fuel calls s).map fun r => ((call, a) :: r.1, r.2)

/-- Calls that are all answered make a run. -/
theorem execAll_run {allowed : Call → Prop} {fuel : ℕ} {calls : List Call} {s s' : Ftl}
    {tr : List (Call × Answer)} (hcalls : ∀ call ∈ calls, allowed call)
    (h : execAll fuel calls s = some (tr, s')) : Run (fun _ call => allowed call) s tr s' := by
  induction calls generalizing s tr with
  | nil =>
    obtain ⟨rfl, rfl⟩ := Prod.mk.inj (Option.some_inj.1 h)
    exact .nil
  | cons call calls ih =>
    rw [execAll] at h
    split at h
    · exact absurd h.symm (Option.some_ne_none _)
    · next a s₁ hexec =>
      obtain ⟨⟨tr', s₂⟩, hrest, heq⟩ := Option.map_eq_some_iff.1 h
      obtain ⟨rfl, rfl⟩ := Prod.mk.inj heq
      have hfirst : Run (fun _ call => allowed call) s [(call, a)] s₁ :=
        .single (hcalls call List.mem_cons_self) ⟨fuel, hexec⟩
      exact hfirst.append (ih (fun c hc => hcalls c (List.mem_cons_of_mem _ hc)) hrest)

/-- The device is fresh: powered on with new media. -/
def Fresh (s : Ftl) : Prop := ∃ rand files, powerOn rand files = (.ok, s)

end Ftl

end FtlFirmware
