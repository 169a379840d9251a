import Webycash.Asset.Assets
import Webycash.Asset.Htlc
import Webycash.Asset.Predicate
import Webycash.Asset.Records
import Webycash.Compute.Backends
import Webycash.Compute.Buffers
import Webycash.Compute.Cuda
import Webycash.Compute.Kernel
import Webycash.Compute.Threads
import Webycash.Compute.Wgpu
import Webycash.Core.Amount
import Webycash.Core.AmountText
import Webycash.Core.Asset
import Webycash.Core.SignedText
import Webycash.Legacy.Batcher
import Webycash.Legacy.Effects
import Webycash.Legacy.Faults
import Webycash.Legacy.Miner
import Webycash.Legacy.Mint
import Webycash.Legacy.RedisReplace
import Webycash.Legacy.Replace
import Webycash.Legacy.Schedule
import Webycash.Legacy.Token
import Webycash.Lib.Batch
import Webycash.Lib.Census
import Webycash.Lib.Checks
import Webycash.Lib.Effect
import Webycash.Lib.Evidence
import Webycash.Lib.FMap
import Webycash.Lib.Grammar
import Webycash.Lib.HashChain
import Webycash.Lib.HexText
import Webycash.Lib.I64
import Webycash.Lib.Json
import Webycash.Lib.JsonText
import Webycash.Lib.KeyRange
import Webycash.Lib.Machine
import Webycash.Lib.Newest
import Webycash.Lib.Pipeline
import Webycash.Lib.Represent
import Webycash.Lib.Retry
import Webycash.Lib.Run
import Webycash.Lib.Scatter
import Webycash.Lib.Seal
import Webycash.Lib.Sha256
import Webycash.Lib.Sha256Laws
import Webycash.Lib.Simulation
import Webycash.Lib.SortedMap
import Webycash.Lib.Spend
import Webycash.Lib.Stride
import Webycash.Lib.Task
import Webycash.Lib.Trail
import Webycash.Lib.Transfer
import Webycash.Referee.Absorbing
import Webycash.Referee.Agreement
import Webycash.Referee.AuditTip
import Webycash.Referee.Backends
import Webycash.Referee.Cancel
import Webycash.Referee.Chain
import Webycash.Referee.Conduct
import Webycash.Referee.DynamoAudit
import Webycash.Referee.DynamoStore
import Webycash.Referee.Evidence
import Webycash.Referee.Exclusion
import Webycash.Referee.FdbAudit
import Webycash.Referee.FdbStore
import Webycash.Referee.Idempotence
import Webycash.Referee.InMemoryStore
import Webycash.Referee.Inputs
import Webycash.Referee.Keyspace
import Webycash.Referee.Orchestrator
import Webycash.Referee.Protocol
import Webycash.Referee.Recovery
import Webycash.Referee.RedisHistory
import Webycash.Referee.RedisStore
import Webycash.Referee.Refund
import Webycash.Referee.Rows
import Webycash.Referee.Serial
import Webycash.Referee.Signers
import Webycash.Referee.State
import Webycash.Referee.Termination
import Webycash.Referee.Terms
import Webycash.Referee.World
import Webycash.Server.AuditTrail
import Webycash.Server.Circulation
import Webycash.Server.Conservation
import Webycash.Server.Counters
import Webycash.Server.Gate
import Webycash.Server.Handlers
import Webycash.Server.HealthAnswer
import Webycash.Server.HealthCheck
import Webycash.Server.Htlc
import Webycash.Server.Issuance
import Webycash.Server.LeadingZeros
import Webycash.Server.Locks
import Webycash.Server.Mint
import Webycash.Server.Nonces
import Webycash.Server.Plans
import Webycash.Server.Positive
import Webycash.Server.Provenance
import Webycash.Server.Refinement
import Webycash.Server.Route
import Webycash.Server.Scope
import Webycash.Server.Stamping
import Webycash.Server.Supply
import Webycash.Server.WireText
import Webycash.Storage.Accept
import Webycash.Storage.Amounts
import Webycash.Storage.Audit
import Webycash.Storage.Backend
import Webycash.Storage.Burn
import Webycash.Storage.Cache
import Webycash.Storage.Dynamo
import Webycash.Storage.DynamoItems
import Webycash.Storage.DynamoTrx
import Webycash.Storage.Fdb
import Webycash.Storage.FdbRetry
import Webycash.Storage.FdbTrx
import Webycash.Storage.Frame
import Webycash.Storage.Insert
import Webycash.Storage.Keys
import Webycash.Storage.Ledger
import Webycash.Storage.LedgerRuns
import Webycash.Storage.Marks
import Webycash.Storage.Redis
import Webycash.Storage.RedisAmounts
import Webycash.Storage.RedisConcurrent
import Webycash.Storage.RedisFdb
import Webycash.Storage.RedisInsert
import Webycash.Storage.RedisReplace
import Webycash.Storage.RedisScripts
import Webycash.Storage.Refinement
import Webycash.Storage.RoundTrip
import Webycash.Storage.Spend
import Webycash.Storage.Types
import Webycash.Storage.Worth
import Webycash.Wire.Formats
import Webycash.Wire.Grammar
import Webycash.Wire.Identifiers
import Webycash.Wire.Token
