import CpuMinerSv2.Interference
import CpuMinerSv2.Primitives
import CpuMinerSv2.MinerMethods
import CpuMinerSv2.TaskSteps
import CpuMinerSv2.MinerRuns
import CpuMinerSv2.LiveTask
import CpuMinerSv2.SampleDeps
import CpuMinerSv2.SingleSubmit
import CpuMinerSv2.SequenceNumbers
import CpuMinerSv2.Groups
import CpuMinerSv2.Manager
import CpuMinerSv2.ManagerFrames
import CpuMinerSv2.Deliveries
import CpuMinerSv2.Registry
import CpuMinerSv2.HandlerRuns
import CpuMinerSv2.GroupRefinement
import CpuMinerSv2.GroupConsistency
import CpuMinerSv2.Reopening
import CpuMinerSv2.Openings
import CpuMinerSv2.LeftOut
import CpuMinerSv2.ExtranonceSizes
import CpuMinerSv2.RemovedMiners
import CpuMinerSv2.Expectations
import CpuMinerSv2.BinaryRounding
import CpuMinerSv2.SinglePrecision
import CpuMinerSv2.Config
import CpuMinerSv2.HandlerErrors
import CpuMinerSv2.Client
import CpuMinerSv2.ConnectionEnd
import CpuMinerSv2.Closing
import CpuMinerSv2.Regrouping
import CpuMinerSv2.Serving
import CpuMinerSv2.FanOut
import CpuMinerSv2.ShareAccounting
import CpuMinerSv2.PoisonedLocks
import CpuMinerSv2.StandardJobsOnly
import CpuMinerSv2.Handshake
import CpuMinerSv2.Moments
import CpuMinerSv2.Ntime
import CpuMinerSv2.ShareTargets
import CpuMinerSv2.ServerAddr
import CpuMinerSv2.ConfigBounds
import CpuMinerSv2.Hashrate
import CpuMinerSv2.ValidatedRuns
import CpuMinerSv2.DistinctHeaders
import CpuMinerSv2.Accounts
import CpuMinerSv2.ShareFlow
import CpuMinerSv2.Stopping
import CpuMinerSv2.Interleavings
import CpuMinerSv2.Isolation
import CpuMinerSv2.Quiescence
import CpuMinerSv2.HashCount
import CpuMinerSv2.Pacing
import CpuMinerSv2.TaskLogs
import CpuMinerSv2.DutyCycle
import CpuMinerSv2.Histories
import CpuMinerSv2.Conversation
import CpuMinerSv2.Outcomes
import CpuMinerSv2.Binary
import CpuMinerSv2.Addressing
import CpuMinerSv2.RegistryBooks
import CpuMinerSv2.WorkOrigins
import CpuMinerSv2.SearchTurns
import CpuMinerSv2.NumberText
