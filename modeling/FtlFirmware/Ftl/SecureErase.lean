import FtlFirmware.Ftl.System

/-!
# Secure erase

A secure erase (`secureErase`) overwrites a range of logical pages a number of times, each time
with another pattern, and then trims it. It is a list of calls of the host (`eraseCalls`), executed
up to the first one that fails (`execUntilError`).
-/

namespace FtlFirmware

namespace Ftl

/-! ## The function -/

/-- The byte with which the pass `pass` overwrites a page (`generate_erase_pattern`). -/
def erasePattern (pass : UInt32) : UInt8 :=
  if pass % 4 = 0 then 0x00
  else if pass % 4 = 1 then 0xFF
  else if pass % 4 = 2 then 0xAA
  else if pass % 4 = 3 then 0x55
  else (pass * 37).toUInt8

/-- The data with which the pass `pass` overwrites a page. -/
def erasePage (pass : UInt32) : PageData := Vector.replicate pageSize (erasePattern pass)

/-- The number of logical pages that are erased: those up to the last one. The test is one of
    32-bit numbers. -/
def eraseLength (lpn count : UInt32) : UInt32 :=
  if totalLpns < (lpn + count).toNat then totalLpns.toUInt32 - lpn else count

/-- Overwrites the logical pages `lpns` with the data `buf`, up to the first write that fails. -/
def overwritePages (fuel : ℕ) (buf : PageData) : List ℕ → Ftl → Option (RetCode × Ftl)
  | [], s => some (.ok, s)
  | lpn :: lpns, s =>
    match s.write fuel lpn buf with
    | none => none
    | some (.ok, s) => overwritePages fuel buf lpns s
    | some (ret, s) => some (ret, s)

/-- The passes `passes` over the logical pages `lpns`. -/
def overwritePasses (fuel : ℕ) (lpns : List ℕ) : List ℕ → Ftl → Option (RetCode × Ftl)
  | [], s => some (.ok, s)
  | pass :: passes, s =>
    match overwritePages fuel (erasePage pass.toUInt32) lpns s with
    | none => none
    | some (.ok, s) => overwritePasses fuel lpns passes s
    | some (ret, s) => some (ret, s)

/-- Erases the logical pages from `lpn` on (`ftl_secure_erase`), with enough fuel for the garbage
    collections of the writes. The writes do not get beyond the last logical page. -/
def secureErase (s : Ftl) (fuel : ℕ) (lpn count passes : UInt32) : Option (RetCode × Ftl) :=
  if ¬ s.isInitialized then some (.errNotInit, s)
  else if count = 0 then some (.errParam, s)
  else if passes = 0 then some (.errParam, s)
  else if totalLpns ≤ lpn.toNat then some (.errParam, s)
  else
    let count := eraseLength lpn count
    match overwritePasses fuel (List.range' lpn.toNat count.toNat) (List.range passes.toNat) s with
    | none => none
    | some (.ok, s) => s.trim lpn count
    | some (ret, s) => some (ret, s)

/-! ## The calls it makes -/

/-- Executes calls one after another, up to the first one that fails. -/
def execUntilError (fuel : ℕ) : List Call → Ftl → Option (RetCode × Ftl)
  | [], s => some (.ok, s)
  | call :: calls, s =>
    match s.exec fuel call with
    | none => none
    | some (⟨.ok, _⟩, s) => execUntilError fuel calls s
    | some (⟨ret, _⟩, s) => some (ret, s)

/-- The writes of one pass. -/
def passCalls (lpns : List ℕ) (pass : ℕ) : List Call :=
  lpns.map fun lpn => .write lpn (erasePage pass.toUInt32)

/-- The calls that a secure erase makes, if it makes any. -/
def eraseCalls (lpn count passes : UInt32) : List Call :=
  if passes = 0 then []
  else
    ((List.range passes.toNat).flatMap
      (passCalls (List.range' lpn.toNat (eraseLength lpn count).toNat))) ++
      [.trim lpn (eraseLength lpn count)]

variable {fuel : ℕ} {calls calls' : List Call} {s s' : Ftl} {ret : RetCode}

/-- Calls in front of other ones. -/
theorem execUntilError_append : execUntilError fuel (calls ++ calls') s =
    match execUntilError fuel calls s with
    | none => none
    | some (.ok, s) => execUntilError fuel calls' s
    | some (ret, s) => some (ret, s) := by
  induction calls generalizing s with
  | nil => rfl
  | cons call calls ih =>
    rw [List.cons_append, execUntilError, execUntilError]
    cases s.exec fuel call with
    | none => rfl
    | some r =>
      obtain ⟨⟨ret, buf⟩, s⟩ := r
      cases ret with
      | ok => exact ih
      | _ => rfl

/-- A trim by itself. -/
theorem execUntilError_trim (lpn count : UInt32) :
    execUntilError fuel [.trim lpn count] s = s.trim lpn count := by
  rw [execUntilError, exec]
  cases s.trim lpn count with
  | none => rfl
  | some r =>
    obtain ⟨ret, s⟩ := r
    cases ret <;> rfl

/-- The writes of one pass are calls. -/
theorem overwritePages_eq (lpns : List ℕ) (pass : ℕ) (s : Ftl) :
    overwritePages fuel (erasePage pass.toUInt32) lpns s =
      execUntilError fuel (passCalls lpns pass) s := by
  induction lpns generalizing s with
  | nil => rfl
  | cons lpn lpns ih =>
    rw [overwritePages, passCalls, List.map_cons, execUntilError, exec]
    cases s.write fuel lpn (erasePage pass.toUInt32) with
    | none => rfl
    | some r =>
      obtain ⟨ret, s⟩ := r
      cases ret with
      | ok => exact ih s
      | _ => rfl

/-- The passes are calls. -/
theorem overwritePasses_eq (lpns passes : List ℕ) (s : Ftl) :
    overwritePasses fuel lpns passes s =
      execUntilError fuel (passes.flatMap (passCalls lpns)) s := by
  induction passes generalizing s with
  | nil => rfl
  | cons pass passes ih =>
    rw [overwritePasses, List.flatMap_cons, execUntilError_append, overwritePages_eq]
    cases execUntilError fuel (passCalls lpns pass) s with
    | none => rfl
    | some r =>
      obtain ⟨ret, s⟩ := r
      cases ret with
      | ok => exact ih s
      | _ => rfl

/-- A secure erase with valid arguments makes its calls up to the first one that fails. -/
theorem secureErase_eq {lpn count passes : UInt32} (hon : s.isInitialized) (hcount : count ≠ 0)
    (hpasses : passes ≠ 0) (hlpn : lpn.toNat < totalLpns) :
    s.secureErase fuel lpn count passes = execUntilError fuel (eraseCalls lpn count passes) s := by
  rw [secureErase, if_neg (not_not.2 hon), if_neg hcount, if_neg hpasses,
    if_neg (Nat.not_le.2 hlpn), eraseCalls, if_neg hpasses, execUntilError_append, ← overwritePasses_eq]
  dsimp only
  cases overwritePasses fuel (List.range' lpn.toNat (eraseLength lpn count).toNat)
    (List.range passes.toNat) s with
  | none => rfl
  | some r =>
    obtain ⟨ret, s⟩ := r
    cases ret with
    | ok => exact (execUntilError_trim _ _).symm
    | _ => rfl

end Ftl

end FtlFirmware
