import FtlFirmware.Nvme.Firmware

/-!
# Runs of firmware commands

Over a run of downloads and commits, exactly one slot runs, the slot of the next start has an
image, and an image is a sequence of chunks without a gap (`firmware_slots`), if no image is
committed to the running slot without running it, and the offsets of the chunks fit in 64 bits.

An image that is committed to the running slot for the next reset leaves no slot running
(`not_firmware_slots`).
-/

namespace FtlFirmware

namespace Nvme

/-- The firmware commands. -/
inductive FwCall
  | download (cmd : Command)
  | commit (cmd : Command)

/-- The completion that the dispatcher hands to a command. -/
def FwCall.completion (cmd : Command) : Completion := { Completion.blank with cid := cmd.cid }

/-- Executes a firmware command. -/
def fwExec (s : Firmware × Aer) : FwCall → Completion × Firmware × Aer
  | .download cmd =>
    let (cpl, fw) := s.1.adminFwDownload cmd (FwCall.completion cmd)
    (cpl, fw, s.2)
  | .commit cmd => s.1.adminFwActivate s.2 cmd (FwCall.completion cmd)

/-- The firmware commands as a machine. -/
def fwMachine : Machine (Firmware × Aer) FwCall Completion where
  step s call cpl s' := fwExec s call = (cpl, s')

/-- The firmware at power on. -/
def fwInit : Firmware × Aer := (Firmware.init, Aer.init)

/-! ## Images as sequences of chunks -/

/-- A chunk of an image. -/
structure Chunk where
  offset : ℕ
  length : ℕ

/-- The chunks follow each other without a gap, the first one at `start`. -/
def GapFree (start : ℕ) : List Chunk → Prop
  | [] => True
  | c :: cs => c.offset = start ∧ GapFree (start + c.length) cs

/-- The size of the chunks together. -/
def totalLength (cs : List Chunk) : ℕ := (cs.map Chunk.length).sum

@[simp] theorem totalLength_append (cs cs' : List Chunk) :
    totalLength (cs ++ cs') = totalLength cs + totalLength cs' := by
  rw [totalLength, List.map_append, List.sum_append]
  rfl

@[simp] theorem totalLength_singleton (c : Chunk) : totalLength [c] = c.length := Nat.add_zero _

/-- A chunk may be added where the chunks before it end. -/
theorem GapFree.snoc {start : ℕ} {cs : List Chunk} {c : Chunk} (h : GapFree start cs)
    (hc : c.offset = start + totalLength cs) : GapFree start (cs ++ [c]) := by
  induction cs generalizing start with
  | nil => exact ⟨hc, trivial⟩
  | cons c' cs ih =>
    refine ⟨h.1, ih h.2 ?_⟩
    rw [hc, totalLength, List.map_cons, List.sum_cons, Nat.add_assoc]
    rfl

/-- The chunks downloaded since the last start of an image, and the chunks committed to each
    slot, as the commands and their completions tell. -/
structure Images where
  download : List Chunk
  slots : ℕ → List Chunk

namespace Images

/-- No chunks. -/
def none : Images := ⟨[], fun _ => []⟩

/-- The exact offset of a chunk in bytes. -/
def chunkOffset (cmd : Command) : ℕ := cmd.cdw1011.toNat * 4

/-- The chunk that a download carries. -/
def chunk (cmd : Command) : Chunk := ⟨chunkOffset cmd, fwChunkSize⟩

/-- What a command adds, given its completion. -/
def next (im : Images) : FwCall × Completion → Images
  | (.download cmd, cpl) =>
    if cpl.Succeeds then
      { im with download :=
        if chunkOffset cmd = 0 then [chunk cmd] else im.download ++ [chunk cmd] }
    else
      im
  | (.commit cmd, cpl) =>
    if cpl.Succeeds ∧ Firmware.commitAction cmd ≠ 3 then
      { download := []
        slots := Function.update im.slots (Firmware.commitSlot cmd - 1) im.download }
    else
      im

end Images

/-- The images that a run tells of. -/
def images (tr : List (FwCall × Completion)) : Images := tr.foldl Images.next Images.none

/-! ## The law of the slots -/

/-- Exactly one slot runs, the slot of the next start has an image, and the image of each slot is
    a sequence of chunks without a gap. -/
structure Firmware.Sound (im : Images) (fw : Firmware) : Prop where
  running_slot : 1 ≤ fw.runningSlot ∧ fw.runningSlot ≤ fwSlotCount
  running_iff : ∀ i < fwSlotCount, (fw.slots i).state = .running ↔ i + 1 = fw.runningSlot
  boot_slot : 1 ≤ fw.nextBootSlot ∧ fw.nextBootSlot ≤ fwSlotCount
  boot_image : (fw.slots (fw.nextBootSlot - 1)).state ≠ .empty
  gapFree : ∀ i < fwSlotCount, GapFree 0 (im.slots i)
  size_eq : ∀ i < fwSlotCount, (fw.slots i).imageSize = totalLength (im.slots i)
  size_le : ∀ i < fwSlotCount, (fw.slots i).imageSize ≤ fwMaxImageSize

/-- A command is answered as it should be: a chunk is accepted if its exact offset is the size
    downloaded so far, or zero, and a command that fails changes nothing. -/
structure FwAnswered (s : Firmware × Aer) (call : FwCall) (cpl : Completion)
    (s' : Firmware × Aer) : Prop where
  accepted : ∀ cmd, call = .download cmd → (cpl.Succeeds ↔
    Images.chunkOffset cmd = s.1.download.downloadedSize ∨ Images.chunkOffset cmd = 0)
  failed : ¬ cpl.Succeeds → s' = s

/-- The command does not leave the running slot with an image that is not running, nor wraps the
    offset of a chunk to one that is accepted, nor adds to an image of the largest size. -/
def FwSafe (s : Firmware × Aer) : FwCall → Prop
  | .download cmd =>
    (Images.chunkOffset cmd % 2 ^ 64 = 0 ∨
      Images.chunkOffset cmd % 2 ^ 64 = s.1.download.downloadedSize →
        Images.chunkOffset cmd < 2 ^ 64) ∧
    ¬(s.1.download.downloadedSize = fwMaxImageSize ∧ Images.chunkOffset cmd = fwMaxImageSize)
  | .commit cmd => Firmware.commitSlot cmd = s.1.runningSlot → s.1.download.active →
    Firmware.commitAction cmd ∈ [0, 2, 3]

namespace Firmware

variable {im : Images} {fw : Firmware} {aer : Aer} {cmd : Command} {cpl : Completion}

/-- What the slots and the download keep over a run. -/
structure Inv (im : Images) (fw : Firmware) : Prop extends fw.Sound im where
  download_gapFree : GapFree 0 im.download
  downloaded : fw.download.downloadedSize = totalLength im.download
  downloaded_le : fw.download.downloadedSize ≤ fwMaxImageSize
  downloaded_dvd : fwChunkSize ∣ fw.download.downloadedSize
  active : fw.download.downloadedSize ≠ 0 → fw.download.active

theorem init_inv : init.Inv Images.none where
  running_slot := by decide
  running_iff i hi := by
    by_cases h0 : i = 0
    · subst h0
      exact iff_of_true rfl rfl
    · refine iff_of_false ?_ fun h => h0 (Nat.succ.inj h)
      rw [init]
      dsimp only
      rw [if_neg h0]
      exact FwSlotState.noConfusion
  boot_slot := by decide
  boot_image := FwSlotState.noConfusion
  gapFree _ _ := trivial
  size_eq i _ := by
    rw [init]
    dsimp only
    split <;> rfl
  size_le i _ := by
    rw [init]
    dsimp only
    split <;> exact Nat.zero_le _
  download_gapFree := trivial
  downloaded := rfl
  downloaded_le := Nat.zero_le _
  downloaded_dvd := Nat.dvd_zero _
  active h := absurd rfl h

theorem success_succeeds (cpl : Completion) : (cpl.setCompletionStatus scSuccess).Succeeds := by
  show (0 : UInt16) <<< 1 >>> 1 = 0
  decide

theorem failure_not_succeeds {code : UInt16} (h : code <<< 1 >>> 1 ≠ 0) (cpl : Completion) :
    ¬ (cpl.setCompletionStatus code).Succeeds := h

/-! ### Downloads -/

/-- The offset of a chunk in bytes, as the controller computes it. -/
theorem offsetBytes_eq (cmd : Command) :
    (cmd.cdw1011 * 4).toNat = Images.chunkOffset cmd % 2 ^ 64 := by
  rw [UInt64.toNat_mul]
  rfl

/-- What a download does: it starts an image, or adds to one, or fails and changes nothing. -/
theorem adminFwDownload_cases {w : ℕ} (hw : Images.chunkOffset cmd % 2 ^ 64 = w) (fw : Firmware)
    (cpl : Completion) :
    (w = 0 ∧ (fw.adminFwDownload cmd cpl).1.Succeeds ∧
      (fw.adminFwDownload cmd cpl).2 = { fw with download := ⟨true, fwChunkSize⟩ }) ∨
    (w ≠ 0 ∧ w = fw.download.downloadedSize ∧ fw.download.active ∧
      w + fwChunkSize ≤ fwMaxImageSize ∧ (fw.adminFwDownload cmd cpl).1.Succeeds ∧
      (fw.adminFwDownload cmd cpl).2 = { fw with download :=
        { fw.download with downloadedSize := fw.download.downloadedSize + fwChunkSize } }) ∨
    (w ≠ 0 ∧ (fw.download.active → w = fw.download.downloadedSize →
        fwMaxImageSize < w + fwChunkSize) ∧
      ¬ (fw.adminFwDownload cmd cpl).1.Succeeds ∧ (fw.adminFwDownload cmd cpl).2 = fw) := by
  rw [adminFwDownload]
  dsimp only
  rw [offsetBytes_eq, hw]
  by_cases h0 : w = 0
  · rw [if_pos h0, h0]
    exact .inl ⟨rfl, success_succeeds _, rfl⟩
  · rw [if_neg h0]
    have hinvalid := @failure_not_succeeds scInvalidField (by decide) cpl
    split_ifs with hactive hoffset hmax
    · refine .inr (.inr ⟨h0, fun ha => ?_, hinvalid, rfl⟩)
      rw [ha] at hactive
      exact absurd hactive Bool.false_ne_true
    · exact .inr (.inr ⟨h0, fun _ heq => absurd heq hoffset, hinvalid, rfl⟩)
    · exact .inr (.inr ⟨h0, fun _ _ => hmax, hinvalid, rfl⟩)
    · have ha : fw.download.active = true := by
        cases ha : fw.download.active with
        | true => rfl
        | false => exact absurd (by rw [ha]; rfl) hactive
      exact .inr (.inl ⟨h0, not_not.1 hoffset, ha, Nat.le_of_not_lt hmax, success_succeeds _, rfl⟩)

/-- A download whose offset does not wrap keeps the slots sound. -/
theorem Inv.download (h : fw.Inv im) (hsafe : FwSafe (fw, aer) (.download cmd)) (cpl : Completion) :
    (fw.adminFwDownload cmd cpl).2.Inv
      (im.next (.download cmd, (fw.adminFwDownload cmd cpl).1)) := by
  obtain ⟨hwrap, hfull⟩ := hsafe
  rcases adminFwDownload_cases rfl fw cpl with
    ⟨h0, hok, heq⟩ | ⟨h0, hsize, hactive, hmax, hok, heq⟩ | ⟨_, _, hfail, heq⟩ <;> rw [heq]
  · have hlt := hwrap (.inl h0)
    rw [Nat.mod_eq_of_lt hlt] at h0
    rw [Images.next, if_pos hok, if_pos h0]
    refine { h with
      download_gapFree := ⟨h0, trivial⟩
      downloaded := (totalLength_singleton (Images.chunk cmd)).symm
      downloaded_le := show fwChunkSize ≤ fwMaxImageSize by decide
      downloaded_dvd := Nat.dvd_refl _
      active := fun _ => rfl }
  · have hlt := hwrap (.inr hsize)
    rw [Nat.mod_eq_of_lt hlt] at h0 hsize hmax
    rw [Images.next, if_pos hok, if_neg h0]
    refine { h with
      download_gapFree := h.download_gapFree.snoc ?_
      downloaded := ?_
      downloaded_le := ?_
      downloaded_dvd := Nat.dvd_add h.downloaded_dvd (Nat.dvd_refl _)
      active := fun _ => hactive }
    · rw [Nat.zero_add, ← h.downloaded]
      exact hsize
    · rw [totalLength_append, totalLength_singleton, ← h.downloaded]
      rfl
    · rw [hsize] at hmax
      exact hmax
  · rw [Images.next, if_neg hfail]
    exact h

/-- A download is answered as it should be. -/
theorem Inv.download_answered (h : fw.Inv im) (hsafe : FwSafe (fw, aer) (.download cmd))
    (cpl : Completion) :
    ((fw.adminFwDownload cmd cpl).1.Succeeds ↔
      Images.chunkOffset cmd = fw.download.downloadedSize ∨ Images.chunkOffset cmd = 0) ∧
    (¬ (fw.adminFwDownload cmd cpl).1.Succeeds → (fw.adminFwDownload cmd cpl).2 = fw) := by
  obtain ⟨hwrap, hfull⟩ := hsafe
  rcases adminFwDownload_cases rfl fw cpl with
    ⟨h0, hok, _⟩ | ⟨h0, hsize, hactive, hmax, hok, _⟩ | ⟨h0, hreject, hfail, heq⟩
  · rw [Nat.mod_eq_of_lt (hwrap (.inl h0))] at h0
    exact ⟨iff_of_true hok (.inr h0), fun hn => absurd hok hn⟩
  · rw [Nat.mod_eq_of_lt (hwrap (.inr hsize))] at hsize
    exact ⟨iff_of_true hok (.inl hsize), fun hn => absurd hok hn⟩
  · refine ⟨iff_of_false hfail ?_, fun _ => heq⟩
    rintro (hsize | hzero)
    · -- The chunk follows the others, so that only the size of the image can be in its way.
      have hle := h.downloaded_le
      have hlt : Images.chunkOffset cmd < 2 ^ 64 := by
        rw [hsize]
        exact Nat.lt_of_le_of_lt hle (by decide)
      rw [Nat.mod_eq_of_lt hlt] at h0 hreject
      have hmax := hreject (h.active (hsize ▸ h0)) hsize
      obtain ⟨k, hk⟩ := h.downloaded_dvd
      simp only [fwMaxImageSize, fwChunkSize] at *
      exact hfull ⟨by omega, by omega⟩
    · rw [hzero] at h0
      exact h0 rfl

/-! ### Commits -/

@[simp] theorem setState_state (fw : Firmware) (slot : ℕ) (state : FwSlotState) (i : ℕ) :
    ((fw.setState slot state).slots i).state =
      if i = slot - 1 then state else (fw.slots i).state := by
  rw [setState]
  dsimp only
  rw [Function.update_apply]
  split <;> rfl

@[simp] theorem setState_imageSize (fw : Firmware) (slot : ℕ) (state : FwSlotState) (i : ℕ) :
    ((fw.setState slot state).slots i).imageSize = (fw.slots i).imageSize := by
  rw [setState]
  dsimp only
  rw [Function.update_apply]
  split
  · next hi => rw [hi]
  · rfl

@[simp] theorem commitImage_state (fw : Firmware) (slot i : ℕ) :
    ((fw.commitImage slot).slots i).state =
      if i = slot - 1 then .valid else (fw.slots i).state := by
  rw [commitImage]
  dsimp only
  rw [Function.update_apply]
  split <;> rfl

@[simp] theorem commitImage_imageSize (fw : Firmware) (slot i : ℕ) :
    ((fw.commitImage slot).slots i).imageSize =
      if i = slot - 1 then fw.download.downloadedSize % 2 ^ 32 else (fw.slots i).imageSize := by
  rw [commitImage]
  dsimp only
  rw [Function.update_apply]
  split <;> rfl

/-- The firmware after an image has been committed with an action. -/
def commit (fw : Firmware) (slot action : ℕ) : Firmware :=
  if action = 1 then { fw.commitImage slot with nextBootSlot := slot }
  else if action = 2 then (fw.commitImage slot).activate slot
  else fw.commitImage slot

/-- What a commit does: it chooses the slot of the next start, or commits an image, or fails and
    changes nothing. -/
theorem adminFwActivate_cases (fw : Firmware) (aer : Aer) (cmd : Command) (cpl : Completion) :
    (1 ≤ commitSlot cmd ∧ commitSlot cmd ≤ fwSlotCount ∧ commitAction cmd = 3 ∧
      (fw.slots (commitSlot cmd - 1)).state ≠ .empty ∧
      (fw.adminFwActivate aer cmd cpl).1.Succeeds ∧
      (fw.adminFwActivate aer cmd cpl).2.1 = { fw with nextBootSlot := commitSlot cmd }) ∨
    (1 ≤ commitSlot cmd ∧ commitSlot cmd ≤ fwSlotCount ∧ commitAction cmd ≠ 3 ∧
      fw.download.active ∧ ¬(commitAction cmd = 0 ∧ commitSlot cmd = fw.runningSlot) ∧
      (fw.adminFwActivate aer cmd cpl).1.Succeeds ∧
      (fw.adminFwActivate aer cmd cpl).2.1 = fw.commit (commitSlot cmd) (commitAction cmd)) ∨
    (¬ (fw.adminFwActivate aer cmd cpl).1.Succeeds ∧
      (fw.adminFwActivate aer cmd cpl).2 = (fw, aer)) := by
  have hslot := @failure_not_succeeds scInvalidFwSlot (by decide) cpl
  have himage := @failure_not_succeeds scInvalidFwImage (by decide) cpl
  rw [adminFwActivate]
  dsimp only
  split_ifs with hrange hboot hempty hdown hrun hreset hnow
  · exact .inr (.inr ⟨hslot, rfl⟩)
  · exact .inr (.inr ⟨himage, rfl⟩)
  · exact .inl ⟨by omega, by omega, hboot, hempty, success_succeeds _, rfl⟩
  · exact .inr (.inr ⟨himage, rfl⟩)
  · exact .inr (.inr ⟨hslot, rfl⟩)
  all_goals
    have ha : fw.download.active = true := by
      cases ha : fw.download.active with
      | true => rfl
      | false => exact absurd (.inl (by rw [ha]; rfl)) hdown
    refine .inr (.inl ⟨by omega, by omega, hboot, ha, hrun, success_succeeds _, ?_⟩)
    rw [commit]
  · rw [if_pos hreset]
  · rw [if_neg hreset, if_pos hnow]
  · rw [if_neg hreset, if_neg hnow]

@[simp] theorem activate_imageSize (fw : Firmware) (slot i : ℕ) :
    ((fw.activate slot).slots i).imageSize = (fw.slots i).imageSize := by
  rw [activate]
  dsimp only
  split_ifs
  · rw [setState_imageSize, setState_imageSize]
  · rw [setState_imageSize]

@[simp] theorem activate_download (fw : Firmware) (slot : ℕ) :
    (fw.activate slot).download = fw.download := by
  rw [activate]
  dsimp only
  split_ifs <;> rfl

/-- A slot that runs from now on is the only one running. -/
theorem activate_state (fw : Firmware) (hrun : 1 ≤ fw.runningSlot ∧ fw.runningSlot ≤ fwSlotCount)
    (slot i : ℕ) : ((fw.activate slot).slots i).state =
      if i = slot - 1 then .running
      else if i = fw.runningSlot - 1 then .valid else (fw.slots i).state := by
  rw [activate]
  dsimp only
  rw [if_pos hrun, setState_state, setState_state]

/-- What every commit of an image does to the images. -/
structure Committed (fw : Firmware) (slot : ℕ) (fw' : Firmware) : Prop where
  download : fw'.download = ⟨false, 0⟩
  imageSize : ∀ i, (fw'.slots i).imageSize =
    if i = slot - 1 then fw.download.downloadedSize % 2 ^ 32 else (fw.slots i).imageSize

theorem commit_committed (fw : Firmware) (slot action : ℕ) :
    fw.Committed slot (fw.commit slot action) := by
  rw [commit]
  split_ifs
  · exact ⟨rfl, fw.commitImage_imageSize slot⟩
  · refine ⟨?_, fun i => ?_⟩
    · rw [activate_download]
      rfl
    · rw [activate_imageSize, commitImage_imageSize]
  · exact ⟨rfl, fw.commitImage_imageSize slot⟩

/-- A commit of an image keeps the slots sound: to another slot than the running one, or to be run
    at once. -/
theorem Inv.commit {slot action : ℕ} (h : fw.Inv im) (hslot : 1 ≤ slot ∧ slot ≤ fwSlotCount)
    (hsafe : slot = fw.runningSlot → action = 2) :
    (fw.commit slot action).Inv
      { download := [], slots := Function.update im.slots (slot - 1) im.download } := by
  have hcommitted := fw.commit_committed slot action
  have hsize32 : fw.download.downloadedSize % 2 ^ 32 = fw.download.downloadedSize :=
    Nat.mod_eq_of_lt (Nat.lt_of_le_of_lt h.downloaded_le (by decide))
  have hsound : (fw.commit slot action).Sound
      { download := [], slots := Function.update im.slots (slot - 1) im.download } := by
    have himages : ∀ i < fwSlotCount,
        GapFree 0 (Function.update im.slots (slot - 1) im.download i) ∧
        ((fw.commit slot action).slots i).imageSize =
          totalLength (Function.update im.slots (slot - 1) im.download i) ∧
        ((fw.commit slot action).slots i).imageSize ≤ fwMaxImageSize := by
      intro i hi
      rw [hcommitted.imageSize, hsize32, Function.update_apply]
      split_ifs
      · exact ⟨h.download_gapFree, h.downloaded, h.downloaded_le⟩
      · exact ⟨h.gapFree i hi, h.size_eq i hi, h.size_le i hi⟩
    -- Without a start at once, the image that runs stays where it is.
    have hcommit : slot ≠ fw.runningSlot → ∀ i < fwSlotCount,
        ((fw.commitImage slot).slots i).state = .running ↔ i + 1 = fw.runningSlot := by
      intro hne i hi
      rw [commitImage_state]
      split_ifs
      · exact iff_of_false (by simp) (by omega)
      · exact h.running_iff i hi
    refine ⟨?_, ?_, ?_, ?_, fun i hi => (himages i hi).1, fun i hi => (himages i hi).2.1,
      fun i hi => (himages i hi).2.2⟩
    · rw [Firmware.commit]
      split_ifs
      · exact h.running_slot
      · exact hslot
      · exact h.running_slot
    · intro i hi
      have hother := h.running_iff i hi
      rw [Firmware.commit]
      split_ifs with hreset hnow
      · exact hcommit (fun hrun => absurd (hsafe hrun) (by omega)) i hi
      · rw [(fw.commitImage slot).activate_state h.running_slot, commitImage_state]
        show _ ↔ i + 1 = slot
        have hrun := h.running_slot
        split_ifs with hi' hi''
        · exact iff_of_true rfl (by omega)
        · exact iff_of_false (by simp) (by omega)
        · rw [hother]
          change i ≠ fw.runningSlot - 1 at hi''
          exact iff_of_false (by omega) (by omega)
      · exact hcommit (fun hrun => absurd (hsafe hrun) hnow) i hi
    · rw [Firmware.commit]
      split_ifs
      · exact hslot
      · exact hslot
      · exact h.boot_slot
    · rw [Firmware.commit]
      split_ifs
      · rw [commitImage_state, if_pos rfl]
        exact FwSlotState.noConfusion
      · rw [(fw.commitImage slot).activate_state h.running_slot]
        show (if slot - 1 = slot - 1 then _ else _) ≠ _
        rw [if_pos rfl]
        exact FwSlotState.noConfusion
      · show ((fw.commitImage slot).slots (fw.nextBootSlot - 1)).state ≠ .empty
        rw [commitImage_state]
        split_ifs
        · exact FwSlotState.noConfusion
        · exact h.boot_image
  exact { hsound with
    download_gapFree := trivial
    downloaded := by
      rw [hcommitted.download]
      rfl
    downloaded_le := by
      rw [hcommitted.download]
      exact Nat.zero_le _
    downloaded_dvd := by
      rw [hcommitted.download]
      exact Nat.dvd_zero _
    active := by
      rw [hcommitted.download]
      exact fun hne => absurd rfl hne }

/-- A commit that is safe keeps the slots sound. -/
theorem Inv.adminFwActivate (h : fw.Inv im) (hsafe : FwSafe (fw, aer) (.commit cmd))
    (cpl : Completion) : (fw.adminFwActivate aer cmd cpl).2.1.Inv
      (im.next (.commit cmd, (fw.adminFwActivate aer cmd cpl).1)) := by
  rcases adminFwActivate_cases fw aer cmd cpl with
    ⟨hpos, hle, hboot, himage, hok, heq⟩ | ⟨hpos, hle, hboot, hactive, hrun, hok, heq⟩ |
    ⟨hfail, heq⟩
  · rw [heq, Images.next, if_neg fun hn => hn.2 hboot]
    exact { h with
      boot_slot := ⟨hpos, hle⟩
      boot_image := himage }
  · rw [heq, Images.next, if_pos ⟨hok, hboot⟩]
    refine h.commit ⟨hpos, hle⟩ fun hslot => ?_
    have haction := hsafe hslot hactive
    simp only [List.mem_cons, List.not_mem_nil, or_false] at haction
    rcases haction with h0 | h2 | h3
    · exact absurd ⟨h0, hslot⟩ hrun
    · exact h2
    · exact absurd h3 hboot
  · rw [heq, Images.next, if_neg fun hn => hfail hn.1]
    exact h

end Firmware

/-! ## Runs -/

variable {s s' : Firmware × Aer} {tr : List (FwCall × Completion)} {im : Images} {call : FwCall}
  {cpl : Completion}

/-- A safe command keeps the slots sound. -/
theorem Firmware.Inv.step (h : s.1.Inv im) (hsafe : FwSafe s call)
    (hstep : fwMachine.step s call cpl s') : s'.1.Inv (im.next (call, cpl)) := by
  obtain ⟨rfl, rfl⟩ := Prod.mk.inj (show _ = (cpl, s') from hstep)
  cases call with
  | download cmd => exact h.download hsafe _
  | commit cmd => exact h.adminFwActivate hsafe _

/-- A safe command is answered as it should be. -/
theorem Firmware.Inv.answered (h : s.1.Inv im) (hsafe : FwSafe s call)
    (hstep : fwMachine.step s call cpl s') : FwAnswered s call cpl s' := by
  obtain ⟨rfl, rfl⟩ := Prod.mk.inj (show _ = (cpl, s') from hstep)
  cases call with
  | download cmd =>
    obtain ⟨hiff, hfail⟩ := h.download_answered hsafe (FwCall.completion cmd)
    refine ⟨fun cmd' heq => ?_, fun hn => Prod.ext (hfail hn) rfl⟩
    rw [← FwCall.download.inj heq]
    exact hiff
  | commit cmd =>
    refine ⟨fun _ heq => FwCall.noConfusion heq, fun hn => ?_⟩
    rcases s.1.adminFwActivate_cases s.2 cmd (FwCall.completion cmd) with
      ⟨_, _, _, _, hok, _⟩ | ⟨_, _, _, _, _, hok, _⟩ | ⟨_, heq⟩
    · exact absurd hok hn
    · exact absurd hok hn
    · exact heq

/-- The slots stay sound over a run of safe commands. -/
theorem fw_inv (hrun : fwMachine.Run FwSafe fwInit tr s) : s.1.Inv (images tr) :=
  hrun.simulation (R := fun s im => s.1.Inv im) Firmware.init_inv
    fun _ _ _ _ _ h hsafe hstep => h.step hsafe hstep

/-- Over a run of safe firmware commands, exactly one slot runs, the slot of the next start has an
    image, and every image is a sequence of chunks without a gap; and the next safe command is
    answered as it should be. -/
theorem firmware_slots (hrun : fwMachine.Run FwSafe fwInit tr s) :
    s.1.Sound (images tr) ∧ ∀ call cpl s', FwSafe s call → fwMachine.step s call cpl s' →
      FwAnswered s call cpl s' :=
  ⟨(fw_inv hrun).toSound, fun _ _ _ hsafe hstep => (fw_inv hrun).answered hsafe hstep⟩

/-- Every firmware command is a step. -/
theorem fwMachine_step (s : Firmware × Aer) (call : FwCall) :
    fwMachine.step s call (fwExec s call).1 (fwExec s call).2 := rfl

/-- The commit to the second slot, to be run at once. -/
def commitActivate : Command := { Command.blank with opcode := 0x10, cdw10 := 0x202 }

/-- The first chunk of an image is downloaded and committed: it runs from the second slot, and the
    first one has been left with its image. -/
theorem firmware_slots_commit : ∃ tr s, fwMachine.Run FwSafe fwInit tr s ∧
    s.1.Sound (images tr) ∧ s.1.runningSlot = 2 ∧ (s.1.slots 1).imageSize = fwChunkSize ∧
      (s.1.slots 0).state = .valid := by
  have hdown : FwSafe fwInit (.download Command.blank) :=
    ⟨fun _ => by decide, fun h => absurd h.1 (by decide)⟩
  have hcommit : FwSafe (fwExec fwInit (.download Command.blank)).2 (.commit commitActivate) :=
    fun hslot => absurd hslot (by decide)
  have hrun := (Machine.Run.single hdown (fwMachine_step _ _)).snoc hcommit (fwMachine_step _ _)
  exact ⟨_, _, hrun, (firmware_slots hrun).1, by decide, by decide, by decide⟩

/-- The commit to the first slot, to be run from the next reset on. -/
def commitReset : Command := { Command.blank with opcode := 0x10, cdw10 := 0x101 }

/-- An image committed to the running slot for the next reset leaves no slot running. -/
theorem not_firmware_slots :
    ¬ ∀ tr s, fwMachine.Run Machine.anyCall fwInit tr s →
      s.1.Sound (images tr) ∧ ∀ call cpl s', fwMachine.step s call cpl s' →
        FwAnswered s call cpl s' := by
  intro h
  have hdown : fwMachine.Run Machine.anyCall fwInit _ _ :=
    .single trivial (fwMachine_step fwInit (.download Command.blank))
  have hcommit := hdown.snoc trivial (fwMachine_step _ (.commit commitReset))
  have hsound := (h _ _ hcommit).1.running_iff 0 (by decide)
  -- The slot has been marked as valid, although it is still the running one.
  have hstate : ((fwExec (fwExec fwInit (.download Command.blank)).2
      (.commit commitReset)).2.1.slots 0).state = .valid := by decide
  rw [hstate] at hsound
  exact FwSlotState.noConfusion (hsound.2 (by decide))

end Nvme

end FtlFirmware
