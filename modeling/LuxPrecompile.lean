import LuxPrecompile.Dead.Ledger
import LuxPrecompile.Fill.Cache
import LuxPrecompile.Anchor.AppendOnly
import LuxPrecompile.Support.BinaryLog
import LuxPrecompile.Evm.Word
import LuxPrecompile.Dex.FullMath
import LuxPrecompile.Dex.TickMath
import LuxPrecompile.Dex.TickMathBounds
import LuxPrecompile.Dex.TickInverse
import LuxPrecompile.Dex.SqrtPriceMath
import LuxPrecompile.Dex.SwapMath
import LuxPrecompile.Dex.LiquidityAmounts
import LuxPrecompile.Dex.TickBitmap
import LuxPrecompile.V3.State
import LuxPrecompile.V3.Vault
import LuxPrecompile.V3.Contract
import LuxPrecompile.Support.Runs
import LuxPrecompile.V3.Pool
import LuxPrecompile.V3.Run
import LuxPrecompile.V3.SwapStep
import LuxPrecompile.Support.Ranges
import LuxPrecompile.V3.Effects
import LuxPrecompile.V3.PoolRun
import LuxPrecompile.V3.PriceTick
import LuxPrecompile.V3.Bookkeeping
import LuxPrecompile.Evm.Bank
import LuxPrecompile.Htlc.State
import LuxPrecompile.Htlc.Contract
import LuxPrecompile.Htlc.Run
import LuxPrecompile.Support.Sums
import LuxPrecompile.Htlc.Reserve
import LuxPrecompile.Htlc.Lifecycle
import LuxPrecompile.Htlc.NativeLock
import LuxPrecompile.Ai.Mining
import LuxPrecompile.Ai.Replay
import LuxPrecompile.Ai.Interference
import LuxPrecompile.Settle.State
import LuxPrecompile.Settle.Codec
import LuxPrecompile.Settle.Contract
import LuxPrecompile.Settle.Records
import LuxPrecompile.Settle.Run
import LuxPrecompile.Settle.Effects
import LuxPrecompile.Settle.Market
import LuxPrecompile.Settle.Halt
import LuxPrecompile.Settle.Delivery
import LuxPrecompile.Settle.Position
import LuxPrecompile.Settle.CoreStore
import LuxPrecompile.Bridge.Table
import LuxPrecompile.Bridge.SingleUse
import LuxPrecompile.Zk.Binding
import LuxPrecompile.Zk.History
import LuxPrecompile.Dex.SwapContract
import LuxPrecompile.Compute.Lifecycle
import LuxPrecompile.Teleport.Custody
import LuxPrecompile.Loans.Health
import LuxPrecompile.Vaults.Shares
import LuxPrecompile.Transmutation.Conversion
import LuxPrecompile.Lending.HealthFactor
import LuxPrecompile.Lending.Rates
import LuxPrecompile.Lending.Solvency
import LuxPrecompile.Fhe.Handles
import LuxPrecompile.Fhe.Confinement
import LuxPrecompile.Settle.Overflow
import LuxPrecompile.Settle.PositionManager
import LuxPrecompile.V3.SwapProgress
import LuxPrecompile.V3.Principal
import LuxPrecompile.V3.RoundTrip
import LuxPrecompile.StableSwap.Safety
import LuxPrecompile.StableSwap.Swap
import LuxPrecompile.Settle.Quoter
import LuxPrecompile.Settle.Router
import LuxPrecompile.Settle.QuoteWords
import LuxPrecompile.Settle.RouterWords
import LuxPrecompile.Settle.PoolKeyCodec
import LuxPrecompile.Support.Maps
import LuxPrecompile.Settle.MakerStore
import LuxPrecompile.StableSwap.Words
import LuxPrecompile.Zk.StarkQueries
import LuxPrecompile.Perps.OpenInterest
import LuxPrecompile.Persistence.Records
import LuxPrecompile.Lending.Debt
import LuxPrecompile.Zk.Goldilocks
import LuxPrecompile.Modules.Registerer
import LuxPrecompile.Dead.Split
import LuxPrecompile.Math.FixedPoint
import LuxPrecompile.Support.HashTrees
import LuxPrecompile.Evm.WordTrees
import LuxPrecompile.Blake3.Merkle
import LuxPrecompile.AivmBridge.Receipt
import LuxPrecompile.AivmBridge.Merkle
import LuxPrecompile.Zk.Poseidon
import LuxPrecompile.Zk.Contract
import LuxPrecompile.Support.Buffers
import LuxPrecompile.Inference.Luts
import LuxPrecompile.Inference.Kernels
import LuxPrecompile.Support.Causal
import LuxPrecompile.Inference.Rows
import LuxPrecompile.Inference.Model
import LuxPrecompile.Inference.Transformer
import LuxPrecompile.Inference.Safety
import LuxPrecompile.Inference.Contract
import LuxPrecompile.Support.Decimal
import LuxPrecompile.Support.Sorting
import LuxPrecompile.Dex.Snapshot
import LuxPrecompile.Dex.SnapshotFaithful
import LuxPrecompile.Settle.MakerBook
import LuxPrecompile.P3q.Contract
import LuxPrecompile.Blake3.Contract
import LuxPrecompile.Fhe.Scalars
import LuxPrecompile.Fhe.Checked
import LuxPrecompile.Fhe.Panics
import LuxPrecompile.Margin.Engine
import LuxPrecompile.Margin.Robustness
import LuxPrecompile.Perps.Conservation
import LuxPrecompile.Ring.Contract
import LuxPrecompile.Support.HashChains
import LuxPrecompile.Ring.Chain
import LuxPrecompile.Ring.Encoding
import LuxPrecompile.Ring.Binding
import LuxPrecompile.Support.DigitRoots
import LuxPrecompile.Inference.SquareRoot
import LuxPrecompile.Support.Framing
import LuxPrecompile.Zk.KeyIdentity
import LuxPrecompile.Support.Slices
import LuxPrecompile.Settle.AbiBytes
import LuxPrecompile.Evm.Cursor
import LuxPrecompile.Evm.CursorRuns
import LuxPrecompile.Evm.CursorSound
import LuxPrecompile.Dex.RouterPath
import LuxPrecompile.Dex.RouterParams
import LuxPrecompile.Support.Primality
import LuxPrecompile.Support.Counters
import LuxPrecompile.V3.FeeGrowth
import LuxPrecompile.V3.FeeAccounts
import LuxPrecompile.V3.Reserves
import LuxPrecompile.V3.Solvency
import LuxPrecompile.V3.Underflow
import LuxPrecompile.Settle.Books
import LuxPrecompile.Settle.Declarations
import LuxPrecompile.Settle.Ledgers
import LuxPrecompile.Settle.MakerReserve
import LuxPrecompile.AivmBridge.Answers
import LuxPrecompile.AivmBridge.Protocol
