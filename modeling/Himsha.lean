import Himsha.Lib.UInt
import Himsha.Lib.Run
import Himsha.Lib.Reach
import Himsha.Lib.Comp
import Himsha.Lib.Table
import Himsha.Lib.Borsh
import Himsha.Lib.Sha256
import Himsha.Lib.MerkleTree
import Himsha.Lib.Radix
import Himsha.Lib.Retry
import Himsha.Runtime.Pubkey
import Himsha.Runtime.Account
import Himsha.Runtime.Cpi
import Himsha.Runtime.Transaction
import Himsha.Runtime.Merkle
import Himsha.Programs.System
import Himsha.Programs.Token
import Himsha.Programs.Ata
import Himsha.Programs.Swap
import Himsha.Programs.NftMetadata
import Himsha.Programs.Runes
import Himsha.Programs.Oracle
import Himsha.Programs.Lending
import Himsha.Programs.MoneyMarket
import Himsha.Programs.Vault
import Himsha.Vm.Dispatch
import Himsha.Vm.Executor
import Himsha.Node.State
import Himsha.Node.Store
import Himsha.Node.Execution
import Himsha.Node.Follower
import Himsha.Node.Rpc
import Himsha.Node.Queries
import Himsha.Node.Faucet
import Himsha.Node.Election
import Himsha.Node.Electorate
import Himsha.Node.Cluster
import Himsha.Node.Sequencer
import Himsha.Node.Network
import Himsha.Node.Indexer
import Himsha.Threshold.Committee
import Himsha.Proof.Votes
import Himsha.Proof.Leaders
import Himsha.Proof.PreVote
import Himsha.Proof.Signers
import Himsha.Proof.OwnerGate
import Himsha.Proof.Frames
import Himsha.Proof.Overlay
import Himsha.Proof.Lamports
import Himsha.Proof.TokenSlots
import Himsha.Proof.Records
import Himsha.Proof.ProgramRuns
import Himsha.Proof.CpiGate
import Himsha.Proof.Bodies
import Himsha.Proof.TokenSupply
import Himsha.Proof.Sequencing
import Himsha.Proof.Deposed
import Himsha.Proof.Replay
import Himsha.Proof.Replication
import Himsha.Proof.Resync
import Himsha.Proof.Crash
import Himsha.Proof.Settling
import Himsha.Proof.Unsettled
import Himsha.Proof.Repayments
import Himsha.Proof.ReadOnly
import Himsha.Proof.TokenDebits
import Himsha.Proof.StateRoot
import Himsha.Proof.StoreIndex
import Himsha.Proof.StoreRecords
import Himsha.Proof.BlockTime
import Himsha.Proof.Mentions
import Himsha.Proof.FaucetLedger
import Himsha.Proof.Preflight
import Himsha.Proof.Calm
import Himsha.Proof.CalmCalls
import Himsha.Proof.MarketMath
import Himsha.Proof.Panics
import Himsha.Proof.RuneSlots
import Himsha.Proof.RuneSpending
import Himsha.Proof.RuneSupply
import Himsha.Proof.TokenAuthority
import Himsha.Proof.TokenCalls
import Himsha.Proof.SwapBinding
import Himsha.Proof.VaultPricing
import Himsha.Proof.MarketCalls
import Himsha.Proof.MarketSlots
import Himsha.Proof.MarketSums
import Himsha.Proof.MarketDebts
import Himsha.Lib.Encodes
import Himsha.Proof.LendingMoves
import Himsha.Proof.BidChoice
import Himsha.Proof.LendingRuns
import Himsha.Proof.Pledges
import Himsha.Proof.LoanLife
import Himsha.Proof.MetadataAuthority
import Himsha.Lib.Rank
import Himsha.Proof.RecordCalls
import Himsha.Proof.FeedSteering
import Himsha.Proof.SdkMessages
import Himsha.Proof.PythonBuilders
import Himsha.Proof.TypeScriptBuilders
import Himsha.Proof.RustBuilders
import Himsha.Proof.LenderRate
import Himsha.Proof.Inclusion
import Himsha.Proof.CpiAtomic
import Himsha.Proof.CpiBounds
import Himsha.Proof.DepositRuns
import Himsha.Proof.Accrual
import Himsha.Proof.Liquidations
import Himsha.Proof.LoanDue
import Himsha.Proof.TxidOrder
import Himsha.Proof.AtaCreation
import Himsha.Proof.FeedRules
import Himsha.Proof.Solvency
import Himsha.Proof.VaultShares
import Himsha.Proof.LiquidityCalls
import Himsha.Proof.VaultCache
import Himsha.Proof.VaultPositions
import Himsha.Proof.IntegerSqrt
import Himsha.Proof.PoolShares
import Himsha.Proof.RobustSigning
import Himsha.Proof.MempoolEvents
import Himsha.Proof.Base58
import Himsha.Proof.Restart
import Himsha.Proof.Replicas
import Himsha.Proof.Isolation
import Himsha.Proof.Vetting
import Himsha.Proof.Custody
import Himsha.Node.Anchoring
import Himsha.Proof.Anchors
import Himsha.Vm.Guest
import Himsha.Proof.ZkBuild
import Himsha.Proof.Provenance
import Himsha.Proof.MarketPrices
import Himsha.Lib.Preimages
import Himsha.Proof.LightClient
