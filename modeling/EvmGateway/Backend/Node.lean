import EvmGateway.Indexer.IndexBlock

/-!
# The backend and what it reads

A JSON-RPC answer is put together from three places: the indexer's store, the CometBFT
node and the gRPC query service of the chain.  The two remote parties are records of
functions, one per request the gateway makes, so that a backend is any combination of
them; a request may fail, and the node may have no block where it is asked for one.

The store is read as it is while a request is served.  The counters of cache hits and
the log lines are left out.
-/

namespace EvmGateway

open Lib

/-! ## The remote parties -/

/-- A transaction found by the node's search. -/
structure ResultTx where
  height : ℕ
  index : ℕ
  tx : Bytes
  txResult : ExecTxResult

/-- The requests to a CometBFT node. -/
structure Node where
  block : ℤ → Except Err (Option Block)
  blockByHash : Hash → Except Err (Option Block)
  blockResults : ℕ → Except Err (Option BlockResults)
  /-- the transactions that match a query -/
  txSearch : String → Except Err (List ResultTx)
  /-- the raw transactions of the mempool -/
  unconfirmedTxs : Except Err (List Bytes)
  /-- the block gas limit of the consensus parameters, -1 for none -/
  consensusMaxGas : ℕ → Except Err ℤ
  /-- the value of a store query at a height -/
  abciQuery : String → Bytes → ℤ → Except Err Bytes := fun _ _ _ => .error (.plain "no store")

structure TraceBlockRequest where
  txs : List MsgEthereumTx
  traceConfig : TraceConfig
  blockNumber : ℕ
  blockTime : ℤ
  blockHash : String
  proposerAddress : Bytes
  chainId : ℤ

structure TraceTxRequest where
  msg : MsgEthereumTx
  predecessors : List MsgEthereumTx
  traceConfig : Option TraceConfig
  blockNumber : ℕ
  blockTime : ℤ
  blockHash : String
  proposerAddress : Bytes
  chainId : ℤ
  deriving DecidableEq

/-- A number with eighteen decimals, by the integer it is stored as. -/
structure LegacyDec where
  bigInt : ℤ
  deriving DecidableEq

/-- The parameters of the fee module that are read. -/
structure TxFeesParams where
  minGasPrice : LegacyDec := ⟨0⟩
  maxBlockChangeRate : LegacyDec
  targetBlockSpacePercentRate : LegacyDec

/-- The requests to the gRPC query service. -/
structure QueryClient where
  /-- the height a query without one is answered at -/
  blockHeight : Except Err ℕ
  /-- the base fee at a height, rounded to an integer -/
  eipBaseFee : ℕ → Except Err (Option ℤ)
  /-- the account of the validator with the given consensus address -/
  validatorAccount : ℕ → Bytes → Except Err String
  /-- the traces of a block, replayed on the state of a height -/
  traceBlock : ℕ → TraceBlockRequest → Except Err Bytes
  /-- the trace of a message, replayed on the state of a height -/
  traceTx : ℕ → TraceTxRequest → Except Err Bytes := fun _ _ => .error (.plain "no traces")
  txFeesParams : Except Err TxFeesParams := .error (.plain "no fee parameters")
  /-- the denomination gas is paid in -/
  evmDenom : Except Err String := .error (.plain "no parameters")

/-! ## The backend -/

/-- A backend: its settings, and the parties it is connected to. -/
structure Backend where
  offlineRPCOnly : Bool := false
  virtualizeCosmosEvents : Bool := false
  chainID : ℤ
  indexer : Option DB
  client : Option Node
  queryClient : QueryClient
  /-- in nanoseconds; not positive for the default -/
  traceTimeoutCap : ℤ := 0
  /-- a signed 32-bit number -/
  feeHistoryCap : ℤ := 100
  /-- the configured minimum gas price in a denomination -/
  minGasPrices : String → LegacyDec := fun _ => ⟨0⟩

/-- The height a block number stands for: 0 for the latest block, 1 for the earliest. -/
def blockNumberInt64 (bn : ℤ) : ℤ := if bn < 0 then 0 else if bn = 0 then 1 else bn

theorem blockNumberInt64_of_pos {bn : ℤ} (h : 0 < bn) : blockNumberInt64 bn = bn := by
  rw [blockNumberInt64, if_neg (by omega), if_neg (by omega)]

namespace Backend

/-- The latest block height available to callers. -/
def blockNumber (b : Backend) : Except Err ℕ :=
  match b.indexer with
  | some db => .ok (loadLastBlock db).toNat
  | none => b.queryClient.blockHeight

/-- The height asked for at the node: the latest one for a dynamic block number. -/
def tendermintHeight (b : Backend) (blockNum : ℤ) : Except Err ℤ :=
  if blockNumberInt64 blockNum ≤ 0 then Int.ofNat <$> b.blockNumber
  else .ok (blockNumberInt64 blockNum)

def tendermintBlockByNumber (b : Backend) (blockNum : ℤ) : Except Err (Option Block) := do
  let height ← b.tendermintHeight blockNum
  match b.client with
  | none => throw (.plain "rpc client is nil")
  | some client => client.block height

/-- The node's results of a height. -/
def tendermintBlockResultByNumber (b : Backend) (height : ℕ) : Except Err (Option BlockResults) :=
  match b.client with
  | none => .error (.plain "invalid rpc client")
  | some client => client.blockResults height

def tendermintBlockByHash (b : Backend) (blockHash : Hash) : Except Err (Option Block) :=
  match b.client with
  | none => .error (.plain "invalid rpc client")
  | some client => client.blockByHash blockHash

/-- The base fee of a block: from its events, or else from the chain. -/
def baseFee (E : Env) (b : Backend) (blockRes : BlockResults) : Except Err (Option ℤ) :=
  match baseFeeFromEvents E blockRes.finalizeBlockEvents with
  | some fee => .ok (some fee)
  | none => b.queryClient.eipBaseFee blockRes.height

/-- The base fee, with a failure to read it taken as having none. -/
def baseFeeOrNil (E : Env) (b : Backend) (blockRes : BlockResults) : Option ℤ :=
  match b.baseFee E blockRes with
  | .ok fee => fee
  | .error _ => none

/-! ## Cached blocks -/

/-- Whether a cached block was indexed in the mode of the backend. -/
def cachedMetaMatchesVirtualization (b : Backend) (m : CachedBlockMeta) : Bool :=
  m.virtualizedCosmosEvents == b.virtualizeCosmosEvents

/-- The height under which a block number is looked up in the store. -/
def indexedBlockHeight (b : Backend) (blockNum : ℤ) : ℤ :=
  match b.indexer with
  | none => -1
  | some db => if blockNum < 0 then loadLastBlock db else blockNumberInt64 blockNum

/-- The cached meta of a block number; `none` without an indexer or without a height. -/
def cachedBlockMetaByNumber (b : Backend) (blockNum : ℤ) : Except Err (Option CachedBlockMeta) :=
  match b.indexer with
  | none => .ok none
  | some db =>
    if b.indexedBlockHeight blockNum < 1 then .ok none
    else some <$> getBlockMetaByHeight db (b.indexedBlockHeight blockNum).toNat

/-- The cached meta of a block hash; `none` without an indexer. -/
def cachedBlockMetaByHash (b : Backend) (hash : Hash) : Except Err (Option CachedBlockMeta) :=
  match b.indexer with
  | none => .ok none
  | some db => some <$> getBlockMetaByHash db hash

/-- Whether a block number is only ever answered from the store. -/
def cacheOnlyDynamicBlockNumber (b : Backend) (blockNum : ℤ) : Bool :=
  b.indexer.isSome && blockNum < 0

/-- An error of a lookup that found nothing. -/
def isIndexerCacheMiss (e : Err) : Bool := e.kind == .cacheMiss

/-- The error of an offline backend asked for a block of the other mode. -/
def virtualizationModeMismatch (m : CachedBlockMeta) : Err :=
  .plain s!"cached block virtualization mode mismatch at height {m.height}"

end Backend

/-! ## A small backend -/

/-- A query service that knows nothing. -/
def QueryClient.silent : QueryClient where
  blockHeight := .error (.plain "no height")
  eipBaseFee := fun _ => .ok none
  validatorAccount := fun _ _ => .error (.plain "no validator")
  traceBlock := fun _ _ => .error (.plain "no traces")

def Node.serving (block : Block) (results : BlockResults) : Node where
  block := fun height => .ok (if height = block.height then some block else none)
  blockByHash := fun hash => .ok (if hash = block.ethHash then some block else none)
  blockResults := fun height => .ok (if height = block.height then some results else none)
  txSearch := fun _ => .ok []
  unconfirmedTxs := .ok []
  consensusMaxGas := fun _ => .ok (-1)

def Backend.sample (indexer : Option DB) (client : Option Node) : Backend where
  virtualizeCosmosEvents := true
  chainID := 1
  indexer := indexer
  client := client
  queryClient := .silent

end EvmGateway
