import FtlFirmware.Lib.Run
import FtlFirmware.Nvme.Event

/-!
# Firmware slots

The slots for firmware images, the download of an image in chunks (`adminFwDownload`) and its
commit to a slot (`adminFwActivate`).
-/

namespace FtlFirmware

namespace Nvme

/-- The number of firmware slots (`NVME_FW_SLOT_COUNT`). -/
abbrev fwSlotCount : ℕ := 7

/-- The size of the largest firmware image (`NVME_FW_MAX_IMAGE_SIZE`). -/
abbrev fwMaxImageSize : ℕ := 0x1000000

/-- The size of every chunk that is downloaded. -/
abbrev fwChunkSize : ℕ := 4096

/-- The states of a firmware slot (`nvme_fw_slot_state_t`). -/
inductive FwSlotState
  | empty
  | valid
  | running
  deriving DecidableEq, Repr

/-- A firmware slot (`nvme_fw_slot_t`). -/
structure FwSlot where
  state : FwSlotState
  version : String
  imageSize : ℕ
  deriving DecidableEq, Repr

/-- The download of an image (`nvme_fw_download_ctx_t`). -/
structure FwDownload where
  active : Bool
  downloadedSize : ℕ
  deriving DecidableEq, Repr

/-- What the controller keeps of its firmware. The slots are numbered from one on, and the
    slot `i` is the entry `i - 1` of the array. -/
structure Firmware where
  slots : ℕ → FwSlot
  download : FwDownload
  runningSlot : ℕ
  nextBootSlot : ℕ
  currentVersion : String

namespace Firmware

/-- The firmware at power on (`nvme_ctrl_fw_init`): the first slot is running, the others are
    empty. -/
def init : Firmware where
  slots i := if i = 0 then ⟨.running, "v2.2.0", 0⟩ else ⟨.empty, "", 0⟩
  download := ⟨false, 0⟩
  runningSlot := 1
  nextBootSlot := 1
  currentVersion := "v2.2.0"

/-- Downloads a chunk of an image (`admin_fw_download`). Its offset is given in double words, and
    the offset in bytes is a 64-bit number. The offset 0 starts a new image. -/
def adminFwDownload (fw : Firmware) (cmd : Command) (cpl : Completion) : Completion × Firmware :=
  let offsetBytes := (cmd.cdw1011 * 4).toNat
  let download := if offsetBytes = 0 then ⟨true, 0⟩ else fw.download
  if !download.active then
    (cpl.setCompletionStatus scInvalidField, { fw with download := download })
  else if offsetBytes ≠ download.downloadedSize then
    (cpl.setCompletionStatus scInvalidField, { fw with download := download })
  else if offsetBytes + fwChunkSize > fwMaxImageSize then
    (cpl.setCompletionStatus scInvalidField, { fw with download := download })
  else
    ({ cpl with dw0 := 0 }.setCompletionStatus scSuccess,
      { fw with download :=
        { download with downloadedSize := download.downloadedSize + fwChunkSize } })

/-- The slot that a commit names: bits 0 to 2 of the double word 10. -/
def commitSlot (cmd : Command) : ℕ := (cmd.cdw10 &&& 0x07).toNat

/-- The action of a commit: bits 8 to 10 of the double word 10. -/
def commitAction (cmd : Command) : ℕ := (cmd.cdw10 >>> 8 &&& 0x07).toNat

/-- Changes the state of a slot. -/
def setState (fw : Firmware) (slot : ℕ) (state : FwSlotState) : Firmware :=
  { fw with slots :=
    Function.update fw.slots (slot - 1) { fw.slots (slot - 1) with state := state } }

/-- Commits the image downloaded to a slot. The download is over. -/
def commitImage (fw : Firmware) (slot : ℕ) : Firmware :=
  { fw with
    slots := Function.update fw.slots (slot - 1)
      ⟨.valid, "v2.3.0", fw.download.downloadedSize % 2 ^ 32⟩
    download := ⟨false, 0⟩ }

/-- Runs the image of a slot from now on. -/
def activate (fw : Firmware) (slot : ℕ) : Firmware :=
  let fw := if 1 ≤ fw.runningSlot ∧ fw.runningSlot ≤ fwSlotCount then
    fw.setState fw.runningSlot .valid else fw
  let fw := fw.setState slot .running
  { fw with
    runningSlot := slot
    nextBootSlot := slot
    currentVersion := (fw.slots (slot - 1)).version }

/-- Commits an image, or chooses the slot of the next start (`admin_fw_activate`). The actions
    above 3 are reserved, and only warned about. -/
def adminFwActivate (fw : Firmware) (aer : Aer) (cmd : Command) (cpl : Completion) :
    Completion × Firmware × Aer :=
  let slot := commitSlot cmd
  let action := commitAction cmd
  let success := { cpl with dw0 := 0 }.setCompletionStatus scSuccess
  if slot < 1 ∨ slot > fwSlotCount then
    (cpl.setCompletionStatus scInvalidFwSlot, fw, aer)
  else if action = 3 then
    -- An image that is in the slot already, for the next start.
    if (fw.slots (slot - 1)).state = .empty then
      (cpl.setCompletionStatus scInvalidFwImage, fw, aer)
    else
      (success, { fw with nextBootSlot := slot }, aer)
  -- The other actions need an image that has been downloaded.
  else if !fw.download.active ∨ fw.download.downloadedSize = 0 then
    (cpl.setCompletionStatus scInvalidFwImage, fw, aer)
  -- The slot of the image that runs is not overwritten without activating it.
  else if action = 0 ∧ slot = fw.runningSlot then
    (cpl.setCompletionStatus scInvalidFwSlot, fw, aer)
  else
    let fw := fw.commitImage slot
    if action = 1 then
      (success, { fw with nextBootSlot := slot }, aer)
    else if action = 2 then
      (success, fw.activate slot, (aer.postAerEvent ⟨aerTypeNotice, 0, 0x00⟩).2)
    else
      (success, fw, aer)

end Firmware

end Nvme

end FtlFirmware
