import NineNMpc.Lib.Machine
import NineNMpc.Lib.Slices
import NineNMpc.Lib.Fallible
import NineNMpc.Lib.Streams
import NineNMpc.Lib.Words
import NineNMpc.Lib.Dict
import NineNMpc.Psi.Crypto
import NineNMpc.Psi.Flow
import NineNMpc.Psi.FlowInvariant
import NineNMpc.Psi.FlowSteps
import NineNMpc.Psi.FlowCorrect
import NineNMpc.Psi.FlowRaised
import NineNMpc.Lib.Search
import NineNMpc.DataJoin.Store
import NineNMpc.DataJoin.Manager
import NineNMpc.DataJoin.Replication
import NineNMpc.DataJoin.ReplicationInvariant
import NineNMpc.DataJoin.ReplicationCorrect
import NineNMpc.DataJoin.SaverRaises
import NineNMpc.DataJoin.Joiner
import NineNMpc.DataJoin.System
import NineNMpc.DataJoin.Places
import NineNMpc.DataJoin.FinishPartition
import NineNMpc.DataJoin.JoinerFinished
import NineNMpc.DataJoin.Notify
import NineNMpc.DataJoin.AtMostOnce
import NineNMpc.DataJoin.JoinerInvariant
import NineNMpc.DataJoin.JoinerEnds
import NineNMpc.DataJoin.JoinerRaises
import NineNMpc.DataJoin.JoinerRaisesInvariant
import NineNMpc.DataJoin.JoinerRaisesCorrect
import NineNMpc.DataJoin.Alignment
import NineNMpc.DataJoin.BlockForm
import NineNMpc.DataJoin.BlockFormCorrect
import NineNMpc.DataJoin.ExampleIndex
import NineNMpc.DataJoin.RawData
import NineNMpc.DataJoin.Restarts
import NineNMpc.DataJoin.RawToBlocks
import NineNMpc.DataJoin.DataManagers
import NineNMpc.Trainer.Transmit
import NineNMpc.Trainer.TransmitInvariant
import NineNMpc.Trainer.TransmitCorrect
import NineNMpc.Trainer.RecvCache
import NineNMpc.Trainer.ReadyFiles
import NineNMpc.Trainer.LoadDataBlock
import NineNMpc.Trainer.PeerInfo
import NineNMpc.Trainer.Service
import NineNMpc.Trainer.ServiceCorrect
import NineNMpc.Trainer.Bridge
import NineNMpc.Coordinator.AppInfo
import NineNMpc.Coordinator.Uuid
import NineNMpc.Coordinator.Register
import NineNMpc.Coordinator.Entries
import NineNMpc.Coordinator.LockAttempts
import NineNMpc.Coordinator.CheckAppStatus
import NineNMpc.Coordinator.HiRedis
import NineNMpc.Coordinator.DeleteApp
import NineNMpc.Coordinator.Pairing
import NineNMpc.Psi.Handshake
import NineNMpc.Psi.HandshakeRefused
import NineNMpc.Psi.Session
import NineNMpc.Psi.RunApp
import NineNMpc.Psi.RunAppInvariant
import NineNMpc.Psi.RunAppCorrect
import NineNMpc.Psi.Totals
import NineNMpc.Lib.Buckets
import NineNMpc.Psi.Repartition
import NineNMpc.Psi.CsvHash
import NineNMpc.Psi.Launch
import NineNMpc.Psi.BlockTable
import NineNMpc.Psi.OutputFile
import NineNMpc.Psi.DataPaths
import NineNMpc.Psi.Decoding
import NineNMpc.Psi.BlockRows
import NineNMpc.Psi.EndToEnd
import NineNMpc.Psi.DirectoryRun
import NineNMpc.Psi.Report
import NineNMpc.Lib.Decimal
import NineNMpc.Coordinator.TaskId
import NineNMpc.Coordinator.StartApplication
import NineNMpc.Coordinator.StartApplicationCorrect
import NineNMpc.Trainer.WorkerConfig
import NineNMpc.Coordinator.WorkerStartup
import NineNMpc.Coordinator.WorkerStartupCorrect
import NineNMpc.Psi.FlowEnds
import NineNMpc.Psi.SessionEnds
