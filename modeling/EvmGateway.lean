import EvmGateway.Backend.FeeFetchers
import EvmGateway.Backend.FeeRows
import EvmGateway.Backend.FeeWindow
import EvmGateway.Backend.GasPrice
import EvmGateway.Backend.HashHistories
import EvmGateway.Backend.HeaderAgreement
import EvmGateway.Backend.StorageRange
import EvmGateway.Backend.TraceIdentity
import EvmGateway.Backend.TraceTransaction
import EvmGateway.Blocksync.FetchBlock
import EvmGateway.Blocksync.Shutdown
import EvmGateway.Filters.BlockHash
import EvmGateway.Indexer.Announced
import EvmGateway.Indexer.Cancellation
import EvmGateway.Indexer.CumulativeGas
import EvmGateway.Indexer.Frame
import EvmGateway.Indexer.KeyLayout
import EvmGateway.Indexer.ResyncTargets
import EvmGateway.Indexer.VirtualLayout
import EvmGateway.Streaming.InOrder
import EvmGateway.Streaming.Polling
import EvmGateway.Virtual.Identity
