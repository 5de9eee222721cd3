import FtlFirmware.Nvme.Guest

/-!
# Block I/O with a guest

What the back ends execute the I/O commands of a guest with (`BlockIo`): the FTL, the memory of the
guest, and a buffer for reads and one for writes. The two back ends execute a Write, a Write Zeroes
and a Dataset Management in the same way, except for the status of a transfer that fails.
-/

namespace FtlFirmware

namespace Nvme

/-- The FTL, the memory of the guest, and the buffers. The buffers keep the data of earlier
    commands. -/
structure BlockIo where
  ftl : Ftl
  guest : Guest
  readBuf : Buffer
  writeBuf : Buffer

namespace BlockIo

variable (io : BlockIo) (b : Backend) (cmd : Command)

/-- Transfers data to the guest. -/
def prpWriteData (len : ℕ) (buf : Buffer) : Bool × BlockIo :=
  let r := b.prpWriteData cmd.dptrPrp1 cmd.dptrPrp2 len buf io.guest
  (r.1, { io with guest := r.2 })

/-- Transfers data of the guest to the buffer for writes. -/
def prpReadData (len : ℕ) : Bool × BlockIo :=
  let r := b.prpReadData cmd.dptrPrp1 cmd.dptrPrp2 len io.guest io.writeBuf
  (r.1, { io with writeBuf := r.2 })

/-- Reads the pages of a Read into the buffer for reads. A page that cannot be read is read as
    zeros. -/
def readPages : BlockIo :=
  let r := Nvme.readPages (lpnAt cmd.cdw1011) (List.range cmd.nlb) io.readBuf io.ftl
  { io with readBuf := r.1, ftl := r.2 }

/-- Executes a Write. The status `xferError` is that of a transfer that fails. -/
def write (xferError : UInt16) (fuel : ℕ) : Option (UInt16 × BlockIo) :=
  let transferLen := cmd.nlb * pageSize
  if transferLen > maxIoSize then some (scInternalError, io)
  else
    let r := io.prpReadData b cmd transferLen
    if !r.1 then some (xferError, r.2)
    else
      (writePages fuel (lpnAt cmd.cdw1011) r.2.writeBuf.page (List.range cmd.nlb) r.2.ftl).map
        fun w => (if w.1 then scSuccess else scInternalError, { r.2 with ftl := w.2 })

/-- Executes a Write Zeroes. -/
def writeZeroes (fuel : ℕ) : Option (UInt16 × BlockIo) :=
  (writePages fuel (lpnAt cmd.cdw1011) (fun _ => blankPage) (List.range cmd.nlb) io.ftl).map
    fun w => (if w.1 then scSuccess else scInternalError, { io with ftl := w.2 })

/-- Executes a Dataset Management. -/
def datasetMgmt (xferError : UInt16) : Option (UInt16 × BlockIo) :=
  let transferLen := cmd.nr * 16
  if transferLen > maxIoSize then some (scInternalError, io)
  else
    let r := io.prpReadData b cmd transferLen
    if !r.1 then some (xferError, r.2)
    else
      (trimRanges r.2.writeBuf.range (List.range cmd.nr) true r.2.ftl).map
        fun w => (if w.1 then scSuccess else scInternalError, { r.2 with ftl := w.2 })

end BlockIo

end Nvme

end FtlFirmware
