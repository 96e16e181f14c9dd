import Vcass.Lib.Run
import Vcass.Lib.Prog
import Vcass.Lib.Interference
import Vcass.Lib.RingCounter
import Vcass.Lib.RingBuffer
import Vcass.Lib.Overlay
import Vcass.Lib.Tiling
import Vcass.Lib.Records
import Vcass.Lib.LastWrite
import Vcass.Lib.Script
import Vcass.Lib.Crc
import Vcass.Lib.Bits
import Vcass.BlockIo.Common
import Vcass.BlockIo.Pool
import Vcass.BlockIo.PoolThreads
import Vcass.BlockIo.Bcknd.Code
import Vcass.BlockIo.Bcknd.System
import Vcass.BlockIo.Bcknd.Pipeline
import Vcass.BlockIo.Bcknd.Program
import Vcass.BlockIo.Bcknd.Refine
import Vcass.BlockIo.Bcknd.Trace
import Vcass.BlockIo.Bcknd.Order
import Vcass.BlockIo.Bcknd.Shape
import Vcass.BlockIo.Bcknd.Answers
import Vcass.BlockIo.Bcknd.Buffers
import Vcass.BlockIo.Bcknd.Writes
import Vcass.BlockIo.Bcknd.Errors
import Vcass.BlockIo.Bcknd.Truthful
import Vcass.BlockIo.Bcknd.Syncs
import Vcass.BlockIo.Bcknd.Windows
import Vcass.BlockIo.Bcknd.Completion
import Vcass.BlockIo.Disk.Code
import Vcass.BlockIo.Disk.System
import Vcass.BlockIo.Disk.Invariant
import Vcass.BlockIo.Disk.Operations
import Vcass.BlockIo.Disk.Thread
import Vcass.BlockIo.Disk.Handler
import Vcass.BlockIo.Disk.Fetcher
import Vcass.BlockIo.Disk.Runs
import Vcass.BlockIo.Disk.Agreement
import Vcass.BlockIo.Disk.Ends
import Vcass.BlockIo.Disk.Contexts
import Vcass.BlockIo.Disk.Successes
import Vcass.BlockIo.CompletionRing
import Vcass.BlockIo.Status
import Vcass.BlockIo.Joint
import Vcass.BlockIo.Mailbox.System
import Vcass.BlockIo.Mailbox.Handshake
import Vcass.BlockIo.Durable
import Vcass.BlockIo.Media
import Vcass.BlockIo.Bcknd.Create
import Vcass.BlockIo.Bcknd.MediaRuns
import Vcass.Plx.Alm
import Vcass.Plx.Table
import Vcass.Plx.Manager
import Vcass.Plx.Hw
import Vcass.Plx.Translation
import Vcass.Plx.Complete
import Vcass.Plx.Access
import Vcass.Plx.Eeprom.Image
import Vcass.Plx.Eeprom.Update
import Vcass.Vop.Kvec
import Vcass.Vop.UsedRing
import Vcass.Vop.AvailRing
import Vcass.Vop.Transfer.System
import Vcass.Vop.Transfer.Invariant
import Vcass.Vop.Transfer.Steps
import Vcass.Vop.Transfer.Completion
import Vcass.Vop.Transfer.Pipeline
import Vcass.Vop.Transfer.Delivery
import Vcass.Vop.SizeClass
import Vcass.Vop.DevicePage
import Vcass.Vop.AddDevice
import Vcass.Vop.CheckCancel
import Vcass.PlxDma.System
import Vcass.PlxDma.Invariant
import Vcass.PlxDma.Steps
import Vcass.PlxDma.Callbacks
import Vcass.PlxDma.Descriptors
import Vcass.Csa.Agent
import Vcass.Lbp.Code
import Vcass.Lbp.Success
import Vcass.Config.Ptree
import Vcass.Config.Parser
import Vcass.Config.RoundTrip
import Vcass.Config.Default
import Vcass.Config.Frame
import Vcass.Config.AddBlkDev
import Vcass.Upgrade.Tables
import Vcass.Upgrade.Merge
import Vcass.Upgrade.Script
import Vcass.Vcactl.BlkDevs
import Vcass.Vcactl.Exclusive
import Vcass.Vcactl.BiosRecovery
import Vcass.Lib.Shell
import Vcass.Vcactl.PowerButton
import Vcass.Vcactl.Epoch
import Vcass.Vcactl.BiosCfg
import Vcass.Vcactl.BiosCfg.ReadBack
import Vcass.Vcactl.BiosCfg.Store
import Vcass.Vcactl.BiosCfg.Aperture
import Vcass.Ioctl.Data
import Vcass.Virtio.MapSg
import Vcass.Virtio.Net
import Vcass.Virtio.Refill
import Vcass.Vop.Alignment
import Vcass.Vop.Packets
import Vcass.Plx.Intr
import Vcass.Plx.ConfigFile
import Vcass.Plx.ReadConfig
import Vcass.Lbp.States
import Vcass.Upgrade.Decision
import Vcass.Lib.Assoc
import Vcass.Upgrade.Combine
import Vcass.Upgrade.Positions
import Vcass.Vcactl.BootRetries
import Vcass.Lib.Lines
import Vcass.Vcactl.FifoLines
import Vcass.Vcactl.EepromUpdate
import Vcass.Lib.ShellScript
import Vcass.Vcactl.NetConfig
import Vcass.Lib.Strtol
import Vcass.Vcactl.ConfigChange
import Vcass.Vcactl.Ids
import Vcass.Lib.Walk
import Vcass.Elog.Parse
import Vcass.Elog.Reads
import Vcass.Elog.Termination
import Vcass.Elog.Report
import Vcass.Elog.Decoding
import Vcass.Lib.ShellQuotes
import Vcass.Vcactl.LogArgs
import Vcass.Lib.Fields
import Vcass.Vcactl.ParentCmds
import Vcass.PlxDma.Position
import Vcass.Lib.Segment
import Vcass.Virtio.Backlog
import Vcass.Virtio.Receive
