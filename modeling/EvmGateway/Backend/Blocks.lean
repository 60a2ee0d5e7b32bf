import EvmGateway.Backend.Filters
import EvmGateway.Backend.TxSearch

/-!
# Blocks

A block is answered from the store if it was indexed in the mode of the backend and its
records are sound, and formatted from the node's block and results otherwise.  The two
constructions share nothing but the shape of the answer.

The fields of a JSON block that are the same for every block (the nonce, the uncles, the
difficulty and the like) are left out.

## Main definitions

* `rpcBlockFromCachedMeta` — a block from the store.
* `rpcBlockFromTendermintBlock` — a block from the node's data.
* `getBlockByNumber`, `getBlockByHash` — the requests.
-/

namespace EvmGateway

open Lib

/-- A transaction in a block: in full, or by its hash. -/
inductive BlockTx where
  | full (tx : RPCTransaction)
  | hash (x : Hash)
  deriving DecidableEq

def BlockTx.txHash : BlockTx → Hash
  | full tx => tx.hash
  | hash x => x

/-- A block as JSON-RPC returns it. -/
structure RPCBlock where
  number : ℕ
  hash : Bytes
  parentHash : Hash
  logsBloom : Bytes
  stateRoot : Bytes
  miner : Address
  size : ℕ
  gasLimit : UInt64
  gasUsed : UInt64
  timestamp : ℤ
  transactionsRoot : Hash
  transactions : List BlockTx
  baseFeePerGas : Option ℤ
  deriving DecidableEq

/-! ## Blocks of the store -/

/-- A check with the message of its failure. -/
def ensure (ok : Bool) (message : String) : Except Err Unit :=
  if ok then .ok () else .error (.plain message)

theorem ensure_bind_eq_ok {α : Type} {ok : Bool} {message : String} {f : Unit → Except Err α}
    {a : α} : (ensure ok message >>= f) = .ok a ↔ ok = true ∧ f () = .ok a := by
  cases ok <;> simp [ensure]

/-- Whether a text is a hash of full length. -/
def isHexHashString (value : String) : Bool :=
  match hexutilDecode value with
  | .ok bz => bz.length == 32
  | .error _ => false

/-- An optional field is empty or passes its check. -/
def emptyOr (check : String → Bool) (value : String) : Bool := value == "" || check value

/-- Check the fields of a cached meta. -/
def validateCachedBlockMeta (m : CachedBlockMeta) : Except Err Unit := do
  ensure (1 ≤ m.height) s!"cached block meta has invalid height: {m.height}"
  ensure (0 ≤ m.ethTxCount)
    s!"cached block meta has invalid eth tx count for height {m.height}: {m.ethTxCount}"
  ensure (0 ≤ m.txCount)
    s!"cached block meta has invalid tx count for height {m.height}: {m.txCount}"
  ensure (isHexHashString m.hash)
    s!"cached block meta has invalid hash for height {m.height}: \"{m.hash}\""
  ensure (emptyOr isHexHashString m.parentHash)
    s!"cached block meta has invalid parent hash for height {m.height}: \"{m.parentHash}\""
  ensure (emptyOr isHexHashString m.stateRoot)
    s!"cached block meta has invalid state root for height {m.height}: \"{m.stateRoot}\""
  ensure (emptyOr isHexAddress m.miner)
    s!"cached block meta has invalid miner for height {m.height}: \"{m.miner}\""
  ensure (emptyOr isHexHashString m.transactionsRoot)
    (s!"cached block meta has invalid transactions root for height {m.height}: " ++
      s!"\"{m.transactionsRoot}\"")
  let bloomBytes := (hexutilDecode m.bloom).toOption.getD []
  ensure (m.bloom == "" || bloomBytes.length == 256)
    s!"cached block meta has invalid bloom length for height {m.height}: {bloomBytes.length}"
  match decodeQuantity m.baseFee with
  | .ok _ => return
  | .error e =>
    ensure (m.baseFee == "")
      s!"cached block meta has invalid base fee for height {m.height}: {e}"

def cachedStateRoot (m : CachedBlockMeta) : Bytes :=
  if m.stateRoot = "" then Hash.bytes 0 else fromHex m.stateRoot

def cachedTransactionsRoot (E : Env) (m : CachedBlockMeta) (hasTransactions : Bool) : Hash :=
  if m.transactionsRoot ≠ "" then hexToHash m.transactionsRoot
  else if hasTransactions then 0
  else E.emptyRootHash

def cachedMiner (m : CachedBlockMeta) : Address :=
  if m.miner = "" then 0 else hexToAddress m.miner

/-- One transaction of a cached block, checked against the block and its position. -/
def cachedBlockTransaction (db : DB) (m : CachedBlockMeta) (fullTx : Bool) (idx : ℕ)
    (hash : Hash) : Except Err BlockTx := do
  ensure (hash ≠ 0) s!"cached block tx hash missing for height {m.height}"
  if fullTx then
    let rpcTx ← getRPCTransactionByHash db hash
    ensure (rpcTx.blockHash = some (hexToHash m.hash))
      s!"cached block tx has invalid block hash for height {m.height} hash {hash.hex}"
    ensure (rpcTx.blockNumber = some m.height)
      s!"cached block tx has invalid block number for height {m.height} hash {hash.hex}"
    let some transactionIndex := rpcTx.transactionIndex
      | throw (.plain
          s!"cached block tx has nil transaction index for height {m.height} hash {hash.hex}")
    ensure (transactionIndex = idx)
      (s!"cached block tx has unexpected transaction index for height {m.height} " ++
        s!"hash {hash.hex}: expected {idx} got {transactionIndex}")
    return .full rpcTx
  else return .hash hash

def cachedBlockTransactions (db : DB) (m : CachedBlockMeta) (fullTx : Bool) :
    Except Err (List BlockTx) :=
  if m.ethTxCount < 0 then
    .error (.plain
      s!"cached block meta has invalid eth tx count for height {m.height}: {m.ethTxCount}")
  else if m.ethTxCount = 0 then .ok []
  else
    let hashes := getRPCTransactionHashesByBlockHeight db m.height
    if (hashes.length : ℤ) ≠ m.ethTxCount then
      .error (.plain (s!"cached block tx count mismatch at height {m.height}: " ++
        s!"expected {m.ethTxCount} got {hashes.length}"))
    else hashes.zipIdx.mapM fun (hash, idx) => cachedBlockTransaction db m fullTx idx hash

def cachedBaseFee (m : CachedBlockMeta) : Except Err (Option ℤ) :=
  if m.baseFee = "" then .ok none
  else
    match decodeQuantity m.baseFee with
    | .ok fee => .ok (some fee)
    | .error e =>
      .error (.plain s!"cached block meta has invalid base fee for height {m.height}: {e}")

def rpcBlockFromCachedMeta (E : Env) (db : DB) (m : CachedBlockMeta) (fullTx : Bool) :
    Except Err RPCBlock := do
  validateCachedBlockMeta m
  let transactions ← cachedBlockTransactions db m fullTx
  let baseFee ← cachedBaseFee m
  return {
    number := m.height
    hash := (hexToHash m.hash).bytes
    parentHash := hexToHash m.parentHash
    logsBloom := bytesToBloom (fromHex m.bloom)
    stateRoot := cachedStateRoot m
    miner := cachedMiner m
    size := m.size
    gasLimit := m.gasLimit
    gasUsed := m.gasUsed
    timestamp := m.timestamp
    transactionsRoot := cachedTransactionsRoot E m (!transactions.isEmpty)
    transactions := transactions
    baseFeePerGas := baseFee }

/-! ## Blocks of the node -/

def bloomFromEvents (E : Env) (events : List Event) : Option Bytes :=
  events.findSome? fun event =>
    if event.type ≠ E.eventTypeBlockBloom then none
    else (event.attributes.find? (·.key == E.attributeKeyEthereumBloom)).bind fun attr =>
      -- a value of another length is passed over
      if (E.attributeBytes attr.value).length = 256 then some (E.attributeBytes attr.value)
      else none

def groupsBloom (E : Env) (groups : List (List RPCLog)) : Bytes :=
  bytesToBloom (virtualLogsBloom E groups.flatten)

namespace Backend

def liveViewBloom (E : Env) (b : Backend) (blockRes : BlockResults) : Except Err (Option Bytes) := do
  let some (some block) ← attempt (b.tendermintBlockByNumber blockRes.height) | return none
  let view ← attempt (liveVirtualBlockView E b (some block) (some blockRes))
  return view.map fun view => groupsBloom E view.logs

def nativeBloom (E : Env) (blockRes : BlockResults) : Except Err Bytes := do
  match bloomFromEvents E blockRes.finalizeBlockEvents with
  | some bloom => return bytesToBloom bloom
  | none =>
    let some groups ← attempt (getLogsFromBlockResults E (some blockRes))
      | throw (.plain "block bloom event is not found")
    return groupsBloom E groups

def cachedBloom (b : Backend) (height : ℕ) : Option Bytes :=
  match b.indexer.map (getBlockMetaByHeight · height) with
  | some (.ok m) =>
    if b.cachedMetaMatchesVirtualization m then some (bytesToBloom (fromHex m.bloom)) else none
  | _ => none

/-- The bloom of a block: from the store, from the live view, or from the native logs. -/
def blockBloom (E : Env) (b : Backend) (blockRes : BlockResults) : Except Err Bytes :=
  match b.cachedBloom blockRes.height with
  | some bloom => .ok bloom
  | none =>
    if b.virtualizeCosmosEvents then do
      match ← b.liveViewBloom E blockRes with
      | some bloom => return bloom
      | none => nativeBloom E blockRes
    else nativeBloom E blockRes

def getBlockBloomByHeight (E : Env) (b : Backend) (height : ℕ) : Except Err Bytes :=
  match b.cachedBloom height with
  | some bloom => .ok bloom
  | none => do
    let some blockRes ← b.tendermintBlockResultByNumber height
      | throw (.plain s!"block result not found for height {height}")
    b.blockBloom E blockRes

/-- The Ethereum messages of a block as transactions, or as hashes.  A message that cannot
be converted is left out. -/
def nativeBlockTxs (E : Env) (b : Backend) (block : Block) (baseFee : Option ℤ) (fullTx : Bool) :
    Except Err (List BlockTx) :=
  let msgs := ethMsgsFromTendermintBlock E block
  if fullTx then do
    let txs ← msgs.zipIdx.mapM fun (msg, txIndex) => attempt
      (newRPCTransaction E msg block.ethHash block.height txIndex baseFee (some b.chainID))
    return txs.reduceOption.map .full
  else .ok (msgs.map fun msg => .hash msg.hash)

/-- The visible transactions of the node's block. -/
def liveBlockTxs (E : Env) (b : Backend) (block : Block) (blockRes : BlockResults)
    (fullTx : Bool) : Except Err (List BlockTx) :=
  if b.virtualizeCosmosEvents then do
    let view ← liveVirtualBlockView E b (some block) (some blockRes)
    return view.transactions.map fun tx => if fullTx then .full tx else .hash tx.hash
  else b.nativeBlockTxs E block (b.baseFeeOrNil E blockRes) fullTx

/-- The account of the proposer, zero if the chain does not tell. -/
def validatorAddr (E : Env) (b : Backend) (block : Block) : Except Err Address :=
  match b.queryClient.validatorAccount block.height block.proposerAddress with
  | .error _ => .ok 0
  | .ok account => bytesToAddress <$> E.accAddressFromBech32 account

/-- The block gas limit; the largest 32-bit number stands for none. -/
def blockMaxGasFromConsensusParams (b : Backend) (height : ℕ) : Except Err UInt64 :=
  match b.client with
  | none => .error (.panic "incorrect tm rpc client")
  | some client =>
    match client.consensusMaxGas height with
    | .error _ => .ok 4294967295
    | .ok maxGas => .ok (if maxGas = -1 then 4294967295 else Int64.toUInt64 (Int64.ofInt maxGas))

def blockGasUsed (blockRes : BlockResults) : UInt64 :=
  (blockRes.txResults.map fun r => (r.map (·.gasUsed.toUInt64)).getD 0).sum

/-- Format the node's block. -/
def rpcBlockFromTendermintBlock (E : Env) (b : Backend) (block : Block)
    (blockRes : Option BlockResults) (fullTx : Bool) : Except Err RPCBlock := do
  let some blockRes := blockRes | throw (.plain "tendermint block result is nil")
  let transactions ← b.liveBlockTxs E block blockRes fullTx
  let bloom ← attempt (b.blockBloom E blockRes)
  let miner ← b.validatorAddr E block
  let gasLimit ← b.blockMaxGasFromConsensusParams block.height
  return {
    number := block.height
    hash := block.hash
    parentHash := bytesToHash block.lastBlockHash
    logsBloom := bloom.getD (bytesToBloom [])
    stateRoot := block.appHash
    miner := miner
    size := block.size
    gasLimit := gasLimit
    gasUsed := blockGasUsed blockRes
    timestamp := block.time
    transactionsRoot :=
      if transactions.isEmpty then E.emptyRootHash else bytesToHash block.dataHash
    transactions := transactions
    baseFeePerGas := b.baseFeeOrNil E blockRes }

/-! ## The requests -/

/-- Format the node's block with its results; nothing if there are none. -/
def formatLiveBlock (E : Env) (b : Backend) (fullTx : Bool) :
    Option Block → Except Err (Option RPCBlock)
  | none => .ok none
  | some block =>
    match b.tendermintBlockResultByNumber block.height with
    | .error _ => .ok none
    | .ok blockRes => some <$> b.rpcBlockFromTendermintBlock E block blockRes fullTx

/-- The answer from a cached meta, or else the live one.  `cacheOnly` says that the store
is the only source. -/
def cachedBlockOr (E : Env) (b : Backend) (cached : Except Err (Option CachedBlockMeta))
    (cacheOnly fullTx : Bool) (live : Except Err (Option RPCBlock)) :
    Except Err (Option RPCBlock) :=
  match cached, b.indexer with
  | .ok (some m), some db =>
    if b.cachedMetaMatchesVirtualization m then
      match rpcBlockFromCachedMeta E db m fullTx with
      | .ok block => .ok (some block)
      | .error e => if cacheOnly then .error e else live
    else if cacheOnly then .error (virtualizationModeMismatch m)
    else live
  | .error e, _ =>
    if cacheOnly then if isIndexerCacheMiss e then .ok none else .error e
    else live
  | _, _ => if cacheOnly then .ok none else live

def liveBlockByNumber (E : Env) (b : Backend) (blockNum : ℤ) (fullTx : Bool) :
    Except Err (Option RPCBlock) :=
  match b.tendermintBlockByNumber blockNum with
  | .error _ => .ok none
  | .ok block => b.formatLiveBlock E fullTx block

def getBlockByNumber (E : Env) (b : Backend) (blockNum : ℤ) (fullTx : Bool) :
    Except Err (Option RPCBlock) :=
  b.cachedBlockOr E (b.cachedBlockMetaByNumber blockNum)
    (b.offlineRPCOnly || b.cacheOnlyDynamicBlockNumber blockNum) fullTx
    (b.liveBlockByNumber E blockNum fullTx)

def getBlockByHash (E : Env) (b : Backend) (hash : Hash) (fullTx : Bool) :
    Except Err (Option RPCBlock) :=
  b.cachedBlockOr E (b.cachedBlockMetaByHash hash) b.offlineRPCOnly fullTx do
    b.formatLiveBlock E fullTx (← b.tendermintBlockByHash hash)

/-! ## Blocks that the store is passed over for -/

variable {E : Env} {b : Backend}

/-- A meta that is missing or of the other mode is passed over. -/
theorem cachedBlockOr_of_mismatch {cached : Except Err (Option CachedBlockMeta)}
    (hmode : ∀ m, cached = .ok (some m) → b.cachedMetaMatchesVirtualization m = false)
    (fullTx : Bool) (live : Except Err (Option RPCBlock)) :
    b.cachedBlockOr E cached false fullTx live = live := by
  rcases cached with e | _ | m
  · rfl
  · rfl
  · have hm := hmode m rfl
    cases hdb : b.indexer <;> simp [cachedBlockOr, hdb, hm]

theorem getBlockByNumber_of_mismatch (honline : b.offlineRPCOnly = false) {height : ℕ}
    (hmode : ∀ m, b.cachedBlockMetaByNumber height = .ok (some m) →
      b.cachedMetaMatchesVirtualization m = false) (fullTx : Bool) :
    b.getBlockByNumber E height fullTx = b.liveBlockByNumber E height fullTx := by
  have hdynamic : (b.offlineRPCOnly || b.cacheOnlyDynamicBlockNumber height) = false := by
    simp [cacheOnlyDynamicBlockNumber, honline]
  rw [getBlockByNumber, hdynamic, cachedBlockOr_of_mismatch hmode]

theorem liveBlockTxs_of_formatLiveBlock {block : Block} {fullTx : Bool} {rb : RPCBlock}
    (h : b.formatLiveBlock E fullTx (some block) = .ok (some rb)) :
    ∃ results, b.tendermintBlockResultByNumber block.height = .ok (some results) ∧
      b.liveBlockTxs E block results fullTx = .ok rb.transactions := by
  unfold formatLiveBlock at h
  cases hresults : b.tendermintBlockResultByNumber block.height with
  | error e => simp [hresults] at h
  | ok found =>
    simp only [hresults] at h
    obtain ⟨rb', hrb, heq⟩ := map_eq_ok.mp h
    obtain rfl := Option.some.inj heq
    cases found with
    | none => simp [rpcBlockFromTendermintBlock] at hrb
    | some results =>
      obtain ⟨transactions, htxs, hrb⟩ := bind_eq_ok.mp hrb
      obtain ⟨bloom, -, hrb⟩ := bind_eq_ok.mp hrb
      obtain ⟨miner, -, hrb⟩ := bind_eq_ok.mp hrb
      obtain ⟨gasLimit, -, hrb⟩ := bind_eq_ok.mp hrb
      obtain rfl := Except.ok.inj hrb
      exact ⟨results, rfl, htxs⟩

end Backend

end EvmGateway
