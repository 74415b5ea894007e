import NilStore.Lib.KVStore
import NilStore.Lib.Tx
import NilStore.Lib.Bytes
import NilStore.Lib.GoString
import NilStore.Lib.PromotedMerkle
import NilStore.Lib.DuplicatedMerkle
import NilStore.Lib.Runs
import NilStore.Lib.SharedLedger
import NilStore.Lib.Nonces
import NilStore.Lib.SpendWindow
import NilStore.Lib.Chunks
import NilStore.Lib.Blocks
import NilStore.Lib.Loops
import NilStore.Lib.LinearCode
import NilStore.Lib.Binary64
import NilStore.Lib.Fft
import NilStore.Lib.Horner
import NilStore.Lib.Grouping
import NilStore.Lib.Tiling
import NilStore.Lib.Layout
import NilStore.Lib.Extents
import NilStore.Core.Kzg
import NilStore.Core.Ffi
import NilStore.Core.ScalarField
import NilStore.Core.Manifest
import NilStore.Core.Coding
import NilStore.Core.Expand
import NilStore.Core.Prover
import NilStore.Core.Payload
import NilStore.Core.Mdu0
import NilStore.Core.FileTable
import NilStore.Core.Mdu0Header
import NilStore.Core.Msm
import NilStore.Core.Transform
import NilStore.Core.PointSetup
import NilStore.Website.RangeChunker
import NilStore.Website.UseFetch
import NilStore.Gateway.CryptoFfi
import NilStore.Gateway.Witness
import NilStore.Gateway.PlanSession
import NilStore.Chain.Types
import NilStore.Chain.Msgs
import NilStore.Chain.Keeper
import NilStore.Chain.Stripe
import NilStore.Chain.Eip712
import NilStore.Chain.ChainedProof
import NilStore.Chain.Providers
import NilStore.Chain.Deals
import NilStore.Chain.EvmBridge
import NilStore.Chain.SlotRepair
import NilStore.Chain.Liveness
import NilStore.Chain.Retrieval
import NilStore.Chain.Slashing
import NilStore.Chain.Precompile
import NilStore.Chain.Run
import NilStore.Chain.Genesis
import NilStore.Chain.Ledger
import NilStore.Proofs.DealSteps
import NilStore.Proofs.PrecompileSteps
import NilStore.Proofs.Frames
import NilStore.Proofs.SessionFailures
import NilStore.Proofs.SlashSchedule
import NilStore.Proofs.SlotMap
import NilStore.Proofs.SlashFairness
import NilStore.Proofs.SessionSteps
import NilStore.Proofs.Fees
import NilStore.Proofs.Solvency
import NilStore.Proofs.SessionLifecycle
import NilStore.Proofs.ReceiptNonces
import NilStore.Proofs.SessionIndex
import NilStore.Proofs.Saturation
import NilStore.Proofs.SpendCap
import NilStore.Proofs.Replication
import NilStore.Proofs.SessionRange
import NilStore.Proofs.PlanCoverage
import NilStore.Proofs.LivenessRewards
import NilStore.Proofs.BatchRule
import NilStore.Proofs.ManifestCells
import NilStore.Proofs.ErasureRoundTrip
import NilStore.Proofs.Openings
import NilStore.Proofs.WitnessCapacity
import NilStore.Proofs.WitnessReader
import NilStore.Proofs.HonestProof
import NilStore.Proofs.NoAbort
import NilStore.Proofs.Binding
import NilStore.Proofs.GenesisExport
import NilStore.Proofs.FeeRecovery
import NilStore.Proofs.SessionLedger
import NilStore.Proofs.SessionOrder
import NilStore.Proofs.BridgeAgreement
import NilStore.Gateway.SessionMerkle
import NilStore.Gateway.ProofHelper
import NilStore.Gateway.DownloadSession
import NilStore.Gateway.RetrievalRequest
import NilStore.Gateway.DealProviders
import NilStore.Gateway.SessionProofs
import NilStore.Gateway.Fetch
import NilStore.Proofs.SessionReceipts
import NilStore.Proofs.DownloadSessions
import NilStore.Proofs.RequestReplay
import NilStore.Proofs.SlotProviders
import NilStore.Proofs.SessionProofs
import NilStore.Proofs.FetchRange
import NilStore.Proofs.Downloads
import NilStore.Proofs.BrowserSessions
import NilStore.Proofs.ServiceHints
import NilStore.Proofs.RewardSchedule
import NilStore.Proofs.BandwidthPayment
import NilStore.Proofs.TermDeposit
import NilStore.Proofs.ProviderSample
import NilStore.Proofs.FileReader
import NilStore.Proofs.ReceiptEncodings
import NilStore.Proofs.FileTables
import NilStore.Proofs.LostAppends
import NilStore.Proofs.Reconstructed
import NilStore.Proofs.RangeChunks
import NilStore.Proofs.InPlaceTransform
import NilStore.Proofs.PayloadExpansion
import NilStore.Proofs.Mdu0Store
import NilStore.Proofs.FreeSlots
import NilStore.Proofs.Commitments
import NilStore.Proofs.BridgeReplay
import NilStore.Proofs.CallAtomicity
import NilStore.Proofs.MerklePaths
import NilStore.Proofs.PayloadPackers
import NilStore.Proofs.SampleCoords
import NilStore.Proofs.TypedDataDigests
import NilStore.Proofs.BrowserHints
import NilStore.Proofs.ReceiptSessions
import NilStore.Proofs.UploadsStored
import NilStore.Proofs.FinalizedSlabs
import NilStore.Lib.Driven
import NilStore.Lib.Logs
import NilStore.Lib.Statements
import NilStore.Proofs.Footprints
import NilStore.Proofs.ProofLog
import NilStore.Proofs.RewardLedger
import NilStore.Proofs.OwnerOrders
import NilStore.Bridge.NilBridge
import NilStore.Bridge.Relayer
import NilStore.Chain.Query
import NilStore.Lib.Filling
import NilStore.Lib.SortedMerkle
import NilStore.Proofs.Checkpoints
import NilStore.Proofs.LocalReads
import NilStore.Proofs.QueryAnswers
import NilStore.Proofs.StateProofs
import NilStore.Proofs.ContentBound
import NilStore.Lib.TtlCache
import NilStore.Gateway.Multiaddr
import NilStore.Gateway.RouterProxy
import NilStore.Proofs.ProviderUrls
import NilStore.Proofs.RouterRuns
import NilStore.Gateway.ShardTransfer
import NilStore.Proofs.SlabRecovery
