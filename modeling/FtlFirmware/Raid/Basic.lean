import Mathlib.Logic.Function.Basic
import FtlFirmware.Lib.Run
import FtlFirmware.Lib.Striping
import FtlFirmware.Nand.Basic

/-!
# The RAID module

An array of up to `raidMaxMembers` members, each a buffer of pages: striped (`RaidLevel.level0`)
or mirrored (`RaidLevel.level1`). A division by zero and an access through a null buffer have no
outcome (`none`).

* `Raid.init`: the configurations that are accepted;
* `Raid.addMember`, `Raid.removeMember`: the members come and go, and the capacity with them;
* `Raid.read`, `Raid.write`: a page of the array;
* `Raid.Sound`: what holds of the array throughout a run.
-/

namespace FtlFirmware

/-- The most members of an array (`RAID_MAX_MEMBERS`). -/
abbrev raidMaxMembers : ℕ := 8

/-- The pages of a member. -/
abbrev memberLpns : ℕ := 1024

/-- The capacity that stands for no member (`UINT64_MAX`). -/
abbrev noCapacity : ℕ := 2 ^ 64 - 1

/-- The levels (`raid_level_t`). -/
inductive RaidLevel
  | level0
  | level1
  | max
  deriving DecidableEq, Repr

/-- The configuration of an array (`raid_config_t`). -/
structure RaidConfig where
  level : RaidLevel
  memberCount : ℕ
  stripeSize : ℕ

/-- A member (`raid_member_priv_t`). Its buffer is a null pointer or an array of pages. -/
structure RaidMember where
  isValid : Bool
  isOnline : Bool
  dataBuffer : Option (ℕ → PageData)
  totalLpns : ℕ

/-- The state of the module (`raid_controller_t`). -/
structure Raid where
  isInitialized : Bool
  config : RaidConfig
  members : ℕ → RaidMember
  logicalCapacity : ℕ

namespace Raid

/-- A member of zeroed memory. -/
def noMember : RaidMember where
  isValid := false
  isOnline := false
  dataBuffer := none
  totalLpns := 0

/-- The module before `raid_init`: zeroed memory. -/
def zeroed : Raid where
  isInitialized := false
  config := ⟨.level0, 0, 0⟩
  members _ := noMember
  logicalCapacity := 0

variable (r : Raid)

/-- The member `i` is valid and online. -/
def present (i : ℕ) : Bool := (r.members i).isValid && (r.members i).isOnline

/-- The smallest capacity of the members present (`calculate_logical_capacity`, first part). -/
def minCapacity : ℕ :=
  (List.range raidMaxMembers).foldl (fun least i =>
    if r.present i && decide ((r.members i).totalLpns < least) then (r.members i).totalLpns
    else least) noCapacity

/-- The logical capacity in pages (`calculate_logical_capacity`). -/
def calculateLogicalCapacity : ℕ :=
  if r.minCapacity = noCapacity then 0
  else match r.config.level with
    | .level0 => r.minCapacity * r.config.memberCount
    | .level1 => r.minCapacity
    | .max => 0

/-- The member and the page of a logical page (`raid0_map`). -/
def raid0Map (lpn : ℕ) : Option (ℕ × ℕ) :=
  if r.config.stripeSize = 0 ∨ r.config.memberCount = 0 then none
  else
    let stripe := lpn / r.config.stripeSize
    let offset := lpn % r.config.stripeSize
    some (stripe % r.config.memberCount,
      stripe / r.config.memberCount * r.config.stripeSize + offset)

/-- Reads a page of a member into the buffer (`member_read`). -/
def memberRead (i lpn : ℕ) (buf : PageData) : Option (RetCode × PageData) :=
  if raidMaxMembers ≤ i then some (.errParam, buf)
  else if !r.present i then some (.errInternal, buf)
  else if (r.members i).totalLpns ≤ lpn then some (.errParam, buf)
  else (r.members i).dataBuffer.map fun pages => (.ok, pages lpn)

/-- The array with the page of a member set. -/
def setPage (i lpn : ℕ) (buf : PageData) : Raid :=
  let member := { r.members i with
    dataBuffer := (r.members i).dataBuffer.map fun pages => Function.update pages lpn buf }
  { r with members := Function.update r.members i member }

/-- Writes a page of a member (`member_write`). -/
def memberWrite (i lpn : ℕ) (buf : PageData) : Option (RetCode × Raid) :=
  if raidMaxMembers ≤ i then some (.errParam, r)
  else if !r.present i then some (.errInternal, r)
  else if (r.members i).totalLpns ≤ lpn then some (.errParam, r)
  else (r.members i).dataBuffer.map fun _ => (.ok, r.setPage i lpn buf)

/-- Initializes the module (`raid_init`). -/
def init (config : RaidConfig) : RetCode × Raid :=
  if config.level = .max then (.errParam, r)
  else if config.memberCount = 0 ∨ raidMaxMembers < config.memberCount then (.errParam, r)
  else if config.level = .level1 ∧ config.memberCount % 2 ≠ 0 then (.errParam, r)
  else if r.isInitialized then (.ok, r)
  else (.ok, { zeroed with config := config, isInitialized := true })

/-- Frees the members (`raid_deinit`). They stay marked as valid. -/
def deinit : RetCode × Raid :=
  if !r.isInitialized then (.ok, r)
  else
    let freed := fun i => { r.members i with dataBuffer := none }
    (.ok, { r with members := fun i => if i < raidMaxMembers then freed i else r.members i,
                   isInitialized := false })

/-- The array with a member in place of the one at `i`, its capacity not yet adapted. -/
def setMember (i : ℕ) (member : RaidMember) : Raid :=
  { r with members := Function.update r.members i member }

/-- The array with its capacity adapted to its members. -/
def recalculate : Raid := { r with logicalCapacity := r.calculateLogicalCapacity }

/-- Adds a member (`raid_add_member`), whose pages are blank. Whether its memory could be
    allocated is given. -/
def addMember (i : ℕ) (allocated : Bool) : RetCode × Raid :=
  if !r.isInitialized then (.errNotInit, r)
  else if raidMaxMembers ≤ i then (.errParam, r)
  else if (r.members i).isValid then (.errInternal, r)
  else if !allocated then
    (.errNoSpace, r.setMember i { r.members i with totalLpns := memberLpns, dataBuffer := none })
  else
    (.ok, (r.setMember i ⟨true, true, some fun _ => blankPage, memberLpns⟩).recalculate)

/-- Removes a member (`raid_remove_member`). -/
def removeMember (i : ℕ) : RetCode × Raid :=
  if !r.isInitialized then (.errNotInit, r)
  else if raidMaxMembers ≤ i then (.errParam, r)
  else if !(r.members i).isValid then (.ok, r)
  else
    (.ok, (r.setMember i
      { r.members i with dataBuffer := none, isValid := false, isOnline := false }).recalculate)

/-- Reads the first of the mirrors present that can be read (`raid_read`, level 1). -/
def mirrorRead (lpn : ℕ) : List ℕ → PageData → Option (RetCode × PageData)
  | [], buf => some (.errInternal, buf)
  | i :: is, buf =>
    if r.present i then
      (r.memberRead i lpn buf).bind fun a =>
        if a.1 = .ok then some a else mirrorRead lpn is a.2
    else mirrorRead lpn is buf

/-- Reads a page of the array into the buffer (`raid_read`). -/
def read (lpn : ℕ) (buf : PageData) : Option (RetCode × PageData) :=
  if !r.isInitialized then some (.errNotInit, buf)
  else if r.logicalCapacity ≤ lpn then some (.errParam, buf)
  else match r.config.level with
    | .level0 => (r.raid0Map lpn).bind fun p => r.memberRead p.1 p.2 buf
    | .level1 => r.mirrorRead lpn (List.range r.config.memberCount) buf
    | .max => some (.errNotSupport, buf)

/-- Writes all mirrors present, up to the first that fails (`raid_write`, level 1). -/
def mirrorWrite (lpn : ℕ) (buf : PageData) : List ℕ → RetCode → Raid → Option (RetCode × Raid)
  | [], ret, r => some (ret, r)
  | i :: is, ret, r =>
    if r.present i then
      (r.memberWrite i lpn buf).bind fun a =>
        if a.1 = .ok then mirrorWrite lpn buf is a.1 a.2 else some a
    else mirrorWrite lpn buf is ret r

/-- Writes a page of the array (`raid_write`). -/
def write (lpn : ℕ) (buf : PageData) : Option (RetCode × Raid) :=
  if !r.isInitialized then some (.errNotInit, r)
  else if r.logicalCapacity ≤ lpn then some (.errParam, r)
  else match r.config.level with
    | .level0 => (r.raid0Map lpn).bind fun p => r.memberWrite p.1 p.2 buf
    | .level1 => mirrorWrite lpn buf (List.range r.config.memberCount) .ok r
    | .max => some (.errNotSupport, r)

end Raid

end FtlFirmware
