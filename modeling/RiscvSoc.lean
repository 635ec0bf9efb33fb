import RiscvSoc.Rocket.MulDivMul
import RiscvSoc.Rocket.MulDivDiv
import RiscvSoc.Rocket.DecodeTable
import RiscvSoc.Rocket.StoreQueue
import RiscvSoc.Rocket.TLB
import RiscvSoc.Rocket.StoreToLoad
import RiscvSoc.Rocket.ECC
import RiscvSoc.Rocket.SimpleHellaCacheIF
import RiscvSoc.Lib.Machine
import RiscvSoc.Uncore.SingleWriter
import RiscvSoc.Uncore.ProbeCount
import RiscvSoc.Uncore.L2Alloc
import RiscvSoc.Uncore.HTIFServe
import RiscvSoc.Uncore.UncachedWrite
import RiscvSoc.Uncore.WriteBackOrder
import RiscvSoc.Uncore.LLCVersions
import RiscvSoc.Uncore.LLCNull
import RiscvSoc.Uncore.MemLink
import RiscvSoc.Uncore.LLCWrite
import RiscvSoc.Uncore.LLCRefill
import RiscvSoc.Boom.LSUForward
import RiscvSoc.Boom.LSUForwardData
import RiscvSoc.Boom.RenameBundle
import RiscvSoc.Boom.CoreCommit
import RiscvSoc.Boom.CoreFreeList
import RiscvSoc.Boom.DecodeStage
import RiscvSoc.Boom.IssueWindow
import RiscvSoc.Boom.Wakeup
import RiscvSoc.Boom.DCacheInflight
import RiscvSoc.Hardfloat.ConvertExact
import RiscvSoc.Hardfloat.RoundTrip
import RiscvSoc.Hardfloat.FloatToInt
import RiscvSoc.Rocket.FPUWriteback
import RiscvSoc.Fpga.Slave
import RiscvSoc.Top.Routing
import RiscvSoc.Hwacha.Deck
import RiscvSoc.Hwacha.VMUControl
import RiscvSoc.Hwacha.StripMining
import RiscvSoc.Rocket.CSRMailbox
import RiscvSoc.Hwacha.Dispatch
import RiscvSoc.Hwacha.VMUMemOnce
import RiscvSoc.Hwacha.IssueOnce
import RiscvSoc.Rocket.BTBTable
import RiscvSoc.Uncore.SlowIO
import RiscvSoc.Uncore.TileLinkArbiter
import RiscvSoc.Rocket.HellaCacheECC
import RiscvSoc.Rocket.ErrorRecycle
import RiscvSoc.Hwacha.EvacRoundTrip
import RiscvSoc.Boom.PredictedPath
import RiscvSoc.Rocket.ALU
import RiscvSoc.Boom.AddrCalc
import RiscvSoc.Boom.PcBanks
import RiscvSoc.Rocket.Serializer
import RiscvSoc.Uncore.Writeback
import RiscvSoc.Boom.BoomBTB
import RiscvSoc.Boom.StoreAge
import RiscvSoc.Rocket.DecodeWide
import RiscvSoc.Boom.BackendRuns
import RiscvSoc.Rocket.RAS
import RiscvSoc.Rocket.Random
import RiscvSoc.Hwacha.OrderTable
import RiscvSoc.Hwacha.AIW
import RiscvSoc.Dram.BankErrors
import RiscvSoc.Hwacha.RegisterAlloc
import RiscvSoc.Hwacha.VRU
import RiscvSoc.Hwacha.LaneFMA
import RiscvSoc.Hwacha.VLULive
import RiscvSoc.Rocket.PseudoLRU
import RiscvSoc.Rocket.HellaCacheArbiter
import RiscvSoc.Hwacha.XCPT
import RiscvSoc.Hwacha.LaneMul
import RiscvSoc.Uncore.MemIOConverter
import RiscvSoc.Hwacha.BankALU
import RiscvSoc.Dram.TimingModel
