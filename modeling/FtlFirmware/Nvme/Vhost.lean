import FtlFirmware.Nvme.BlockIo
import FtlFirmware.Nvme.Controller

/-!
# The vhost-user back end

How the back end through which a guest uses the controller by way of vhost-user executes a command
(`Vhost.processNvmeCommand`). The guest makes commands available in rings, which are not part of
this model.

As for vfio-user, the data of an Identify and of a log page are a parameter (`info`).
-/

namespace FtlFirmware

namespace Nvme

/-- The back end, with the controller. -/
structure Vhost extends BlockIo where
  ctrl : Ctrl

namespace Vhost

variable (v : Vhost)

/-- Transfers data to the guest. -/
def prpWriteData (cmd : Command) (len : ℕ) (buf : Buffer) : Vhost :=
  { v with toBlockIo := (v.toBlockIo.prpWriteData backend cmd len buf).2 }

/-- The length of the log page that a command asks for. -/
def logLen (cmd : Command) : ℕ := min (((cmd.cdw10 >>> 16 &&& 0xFFFF).toNat + 1) * 4) 4096

/-- Executes an admin command. Whether the data of an Identify or of a log page could be
    transferred makes no difference. -/
def processAdminCommand (info : Ctrl → Command → Buffer) (cmd : Command) : Completion × Vhost :=
  let cpl := { Completion.blank with cid := cmd.cid }
  if cmd.opcode = 0x06 then (cpl, v.prpWriteData cmd 4096 (info v.ctrl cmd))
  else if cmd.opcode = 0x02 then (cpl, v.prpWriteData cmd (logLen cmd) (info v.ctrl cmd))
  else
    let r := v.ctrl.frontAdminCmd cmd
    (r.1, { v with ctrl := r.2 })

/-- Executes a Read. Whether the data could be transferred makes no difference. -/
def read (io : BlockIo) (cmd : Command) : UInt16 × BlockIo :=
  let transferLen := cmd.nlb * pageSize
  if transferLen > maxIoSize then (0x0006, io)
  else
    let io := io.readPages cmd
    (0x0000, (io.prpWriteData backend cmd transferLen io.readBuf).2)

/-- Executes an I/O command of the queue `qid`. -/
def processIoCommand (fuel : ℕ) (cmd : Command) (qid : ℕ) : Option (Completion × Vhost) :=
  let answer (r : UInt16 × BlockIo) : Completion × Vhost :=
    ({ Completion.blank with cid := cmd.cid, sqid := qid, status := r.1 },
      { v with toBlockIo := r.2 })
  if cmd.opcode = 0x02 then some (answer (read v.toBlockIo cmd))
  else if cmd.opcode = 0x01 then (v.toBlockIo.write backend cmd 0x0006 fuel).map answer
  else if cmd.opcode = 0x08 then (v.toBlockIo.writeZeroes cmd fuel).map answer
  else if cmd.opcode = 0x09 then (v.toBlockIo.datasetMgmt backend cmd 0x0006).map answer
  else (processIoCmd fuel v.ctrl v.ftl cmd).map fun r => (r.1, { v with ftl := r.2 })

/-- Executes a command of a queue (`process_nvme_command`). -/
def processNvmeCommand (fuel : ℕ) (info : Ctrl → Command → Buffer) (cmd : Command) (qid : ℕ) :
    Option (Completion × Vhost) :=
  if qid = 0 then some (v.processAdminCommand info cmd) else v.processIoCommand fuel cmd qid

end Vhost

end Nvme

end FtlFirmware
