import FtlFirmware.Ftl.ReadYourWrites
import FtlFirmware.Ftl.Walk
import FtlFirmware.Ftl.Worn
import FtlFirmware.Ftl.Cold
import FtlFirmware.Ftl.PowerCycle
import FtlFirmware.Lib.Ring
import FtlFirmware.Nvme.Basic
import FtlFirmware.Nvme.Event
import FtlFirmware.Nvme.Firmware
import FtlFirmware.Nvme.Slots
import FtlFirmware.Nvme.Controller
import FtlFirmware.Nvme.Completing
import FtlFirmware.Nvme.Tcp
import FtlFirmware.Nvme.Exchange
import FtlFirmware.Nvme.Isolation
import FtlFirmware.Nvme.Connections
import FtlFirmware.Nvme.Session
import FtlFirmware.Nvme.Reporting
import FtlFirmware.Lib.Framing
import FtlFirmware.Nvme.Pdu
import FtlFirmware.Nvme.Segments
import FtlFirmware.Nvme.Guest
import FtlFirmware.Nvme.Vfio
import FtlFirmware.Nvme.Overwriting
import FtlFirmware.Nvme.Vhost
import FtlFirmware.Nvme.Calls
import FtlFirmware.Nvme.Prp
import FtlFirmware.Nvme.Ranges
import FtlFirmware.Nvme.Reads
import FtlFirmware.Lib.Striping
import FtlFirmware.Raid.Basic
import FtlFirmware.Raid.Array
import FtlFirmware.Raid.Striping
import FtlFirmware.Raid.Mirroring
import FtlFirmware.Ipc.MsgQueue
import FtlFirmware.Lib.PriorityQueue
import FtlFirmware.Ipc.Linked
import FtlFirmware.Ipc.Mailbox
import FtlFirmware.HostIf.Basic
import FtlFirmware.HostIf.Completions
import FtlFirmware.HostIf.Bursts
import FtlFirmware.Utils.Crc
import FtlFirmware.Hal.Queue
import FtlFirmware.Hal.EventGroup
import FtlFirmware.Hal.Blocking
import FtlFirmware.Ufs.Basic
import FtlFirmware.Ufs.Sectors
import FtlFirmware.Nvme.Accesses
import FtlFirmware.Nvme.Conforming
import FtlFirmware.Nvme.Serving
import FtlFirmware.Nvme.Table
import FtlFirmware.Nvme.Touches
import FtlFirmware.Nvme.Translating
import FtlFirmware.Dma.Basic
import FtlFirmware.Dma.Transfer
import FtlFirmware.Nvme.Queues
import FtlFirmware.Nvme.Routing
import FtlFirmware.Nvme.Releasing
import FtlFirmware.Ftl.Levelling
import FtlFirmware.Ftl.Selecting
import FtlFirmware.Ftl.Relocating
import FtlFirmware.Ftl.Replacing
import FtlFirmware.Ftl.Erasing
import FtlFirmware.Lib.Assign
import FtlFirmware.Ftl.Checkpoint
import FtlFirmware.Dma.Returning
import FtlFirmware.Ftl.Remanence
import FtlFirmware.Ftl.ReservedPool
import FtlFirmware.Lib.Loop
import FtlFirmware.Ftl.Terminating
import FtlFirmware.Ftl.Bounds
import FtlFirmware.Ftl.Recovering
import FtlFirmware.Ftl.Integrity
import FtlFirmware.Lib.Checksum
import FtlFirmware.Nand.Hamming
import FtlFirmware.Nand.Corruption
import FtlFirmware.Nand.Retry
import FtlFirmware.Nand.Codes
import FtlFirmware.Nand.Crc
import FtlFirmware.Ftl.Accounting
import FtlFirmware.Ftl.Answering
import FtlFirmware.Nvme.Returning
import FtlFirmware.Nvme.Doorbells
import FtlFirmware.Nvme.Config
import FtlFirmware.Nvme.Regions
import FtlFirmware.Nvme.Registers
import FtlFirmware.HostIf.Addressing
import FtlFirmware.Nvme.Sending
import FtlFirmware.Nvme.Reassembly
import FtlFirmware.Nvme.Statuses
import FtlFirmware.Ftl.Tearing
import FtlFirmware.Ftl.HybridRuns
import FtlFirmware.Nand.Integrity
import FtlFirmware.Nvme.Descriptors
import FtlFirmware.Ufs.Within
import FtlFirmware.Ufs.Retrying
import FtlFirmware.Nvme.Swallowing
import FtlFirmware.Manager.Supervision
import FtlFirmware.Manager.Governing
import FtlFirmware.Dma.Truthful
import FtlFirmware.Thread.Undisturbed
import FtlFirmware.Lib.Passes
