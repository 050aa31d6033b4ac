import HviVmm.ByteCodec
import HviVmm.ByteStore
import HviVmm.GuestRam
import HviVmm.Queue
import HviVmm.Mmio
import HviVmm.GatewayFrames
import HviVmm.ConsoleFilter
import HviVmm.ConsoleTokens
import HviVmm.ConsoleLanguage
import HviVmm.Segments
import HviVmm.Chains
import HviVmm.Rings
import HviVmm.Blk
import HviVmm.BlkContainment
import HviVmm.Disk
import HviVmm.BlkRequest
import HviVmm.BlkLoop
import HviVmm.BlkRefinement
import HviVmm.LabelledSteps
import HviVmm.CreditWindow
import HviVmm.VsockPacket
import HviVmm.VsockConn
import HviVmm.Vsock
import HviVmm.VsockSteps
import HviVmm.VsockCalls
import HviVmm.VsockHistory
import HviVmm.VsockLedger
import HviVmm.VsockSettled
import HviVmm.VsockFill
import HviVmm.VsockClose
import HviVmm.VsockPorts
import HviVmm.VsockStream
import HviVmm.VsockIsolation
import HviVmm.VsockWindow
import HviVmm.VsockAccount
import HviVmm.VsockCredit
import HviVmm.VsockHonest
import HviVmm.VsockLog
import HviVmm.VsockPeer
import HviVmm.VsockProper
import HviVmm.VsockDiscipline
import HviVmm.VsockGates
import HviVmm.CallPrograms
import HviVmm.HashTables
import HviVmm.FsWire
import HviVmm.FsHost
import HviVmm.FsWalk
import HviVmm.FsState
import HviVmm.FsNodes
import HviVmm.FsNames
import HviVmm.FsFiles
import HviVmm.FsListing
import HviVmm.FsServe
import HviVmm.FsRules
import HviVmm.FsInside
import HviVmm.FsNodesKeep
import HviVmm.FsNamesKeep
import HviVmm.FsFilesKeep
import HviVmm.FsListingKeep
import HviVmm.FsServeKeep
import HviVmm.FsReadahead
import HviVmm.FsGather
import HviVmm.FsRequests
import HviVmm.FsReadaheadKeep
import HviVmm.FsSystem
import HviVmm.FsPlay
import HviVmm.FsContainment
import HviVmm.FsFreshness
import HviVmm.FsDurability
import HviVmm.Quiesce
import HviVmm.PauseMoves
import HviVmm.PauseSound
import HviVmm.KvmKicks
import HviVmm.EventLedger
import HviVmm.LedgerAdds
import HviVmm.LedgerSound
import HviVmm.FsChanges
import HviVmm.SliceReads
import HviVmm.TlsSni
import HviVmm.VsockRefusal
import HviVmm.VsockDelivery
import HviVmm.OnesComplement
import HviVmm.NetStack
import HviVmm.ChainIo
import HviVmm.Net
import HviVmm.NetInject
import HviVmm.NetTransmit
import HviVmm.LedgerDrops
import HviVmm.BlkOffered
import HviVmm.CallEquations
import HviVmm.FsLockRanges
import HviVmm.FsReadOnly
import HviVmm.FsRuns
import HviVmm.FsHandles
import HviVmm.FsRegular
import HviVmm.PsciCpuOn
import HviVmm.Irq
import HviVmm.Uart16550
import HviVmm.QuotedTokens
import HviVmm.KernelArgs
import HviVmm.Spans
import HviVmm.AlignedWords
import HviVmm.X86Boot
import HviVmm.Fdt
import HviVmm.ResultChain
import HviVmm.Arm64Boot
import HviVmm.Calendar
import HviVmm.RtcCmos
import HviVmm.StampedQueues
import HviVmm.FsLru
import HviVmm.SForms
import HviVmm.Seatbelt
import HviVmm.FsOption
import HviVmm.Pl011
