import EvmGateway.Backend.TxSearch
import EvmGateway.Lib.Int64

/-!
# Traces

The traces of a block come from the node, one per Ethereum message.  They are labelled
with the hashes of the messages, brought into the order of the visible transactions of
the indexed block, with an empty trace for each synthetic one, and cached in that form.
The trace of a single transaction can then be cut out of the cached trace of its block.

## Main definitions

* `alignTraceBlockResults` — the order of the visible transactions.
* `traceBlock` — the traces of a block, cached or replayed.
* `traceTransactionFromCachedBlock` — one transaction from the cached trace of its block.
-/

namespace EvmGateway

open Lib

/-- The traces of a block; a missing one is `none`. -/
abbrev BlockTrace := List (Option TxTraceResult)

/-! ## Labels and order -/

/-- Whether every trace is there and labelled. -/
def allTracesPresent (results : BlockTrace) : Bool :=
  results.all fun r =>
    match r with
    | some t => t.txHash ≠ 0
    | none => false

/-- Label the traces with the hashes of the messages, one to one. -/
def attachTraceBlockTransactionHashes (results : BlockTrace) (hashes : List Hash) :
    Except Err BlockTrace :=
  if results.length ≠ hashes.length then
    .error (.plain (s!"trace result count {results.length} does not match " ++
      s!"Ethereum transaction count {hashes.length}"))
  else .ok (List.zipWith (fun r hash => some { r.getD {} with txHash := hash }) results hashes)

/-- The trace with a label; the last one counts. -/
def traceByHash (results : BlockTrace) (hash : Hash) : Option TxTraceResult :=
  results.reduceOption.reverse.find? (·.txHash == hash)

def emptyTrace (hash : Hash) : TxTraceResult where
  txHash := hash
  result := some ⟨"\x7b\"type\":0\x7d"⟩

/-- Bring traces into the order of the visible transactions.  If they are not labelled, or
one of them is not visible, they are left as they are. -/
def alignTraceBlockResults (results : BlockTrace) (visibleHashes : List Hash) : BlockTrace :=
  if visibleHashes.isEmpty || !allTracesPresent results then results
  else if visibleHashes.countP (fun hash => (traceByHash results hash).isSome) ≠ results.length then
    results
  else visibleHashes.map fun hash => some ((traceByHash results hash).getD (emptyTrace hash))

namespace Backend

/-- Bring traces into the order of the visible transactions of an indexed height. -/
def alignTraceBlockResultsWithVisibleTransactions (b : Backend) (results : BlockTrace)
    (height : ℕ) : BlockTrace :=
  match b.indexer with
  | none => results
  | some db => alignTraceBlockResults results (getRPCTransactionHashesByBlockHeight db height)

/-- The node's block, for a trace whose labels are missing. -/
def blockForTraceHashes (b : Backend) (height : ℕ) (block : Option Block) : Except Err Block :=
  match block with
  | some block => .ok block
  | none => do
    let some block ← wrapErr (b.tendermintBlockByNumber height)
        "block not found while populating trace transaction hashes"
      | throw (.plain "block not found while populating trace transaction hashes")
    return block

/-- Label traces that were cached without. -/
def populateTraceBlockTransactionHashes (E : Env) (b : Backend) (results : BlockTrace)
    (height : ℕ) (block : Option Block) : Except Err BlockTrace :=
  if results.isEmpty || allTracesPresent results then .ok results
  else do
    let block ← b.blockForTraceHashes height block
    attachTraceBlockTransactionHashes results ((ethMsgsFromTendermintBlock E block).map (·.hash))

/-- The labelled and ordered traces in a cached value. -/
def readTraceBlock (E : Env) (b : Backend) (raw : Bytes) (height : ℕ) (block : Option Block) :
    Except Err BlockTrace := do
  let decoded ← E.unmarshalTraces raw
  let labelled ← b.populateTraceBlockTransactionHashes E decoded height block
  return b.alignTraceBlockResultsWithVisibleTransactions labelled height

/-! ## Tracing a block -/

/-- The height under which the traces of a block are cached, if it is known in advance. -/
def traceCacheHeight (b : Backend) (height : ℤ) (block : Option Block) : Option ℕ :=
  match block with
  | some block => some block.height
  | none =>
    if height > 0 then some height.toNat
    else if b.offlineRPCOnly ∧ 1 ≤ b.indexedBlockHeight height then
      some (b.indexedBlockHeight height).toNat
    else none

/-- The chain id of the first message that has one, cut to an `int64`. -/
def traceChainID (fallback : ℤ) (msgs : List MsgEthereumTx) : ℤ :=
  wrap64 ((msgs.findSome? fun msg => msg.asTransaction.bind fun tx =>
    if 0 < tx.chainID then some tx.chainID else none).getD fallback)

/-- The height whose state a block is replayed on: the one before it. -/
def traceBlockContextHeight (height : ℤ) (block : Block) : ℕ :=
  let traceHeight : ℤ := if block.height > 0 then block.height else height
  if traceHeight - 1 < 1 then 1 else (traceHeight - 1).toNat

def traceBlockRequest (b : Backend) (config : Option TraceConfig) (block : Block)
    (msgs : List MsgEthereumTx) : TraceBlockRequest where
  txs := msgs
  traceConfig := config.getD {}
  blockNumber := block.height
  blockTime := block.time
  blockHash := String.ofList (hexEncode block.hash)
  proposerAddress := block.proposerAddress
  chainId := traceChainID b.chainID msgs

/-- The traces of the Ethereum messages of a block, replayed and labelled. -/
def replayBlock (E : Env) (b : Backend) (height : ℤ) (config : Option TraceConfig) (block : Block) :
    Except Err BlockTrace :=
  let msgs := ethMsgsFromTendermintBlock E block
  if msgs.isEmpty then .ok []
  else do
    let data ← b.queryClient.traceBlock (traceBlockContextHeight height block)
      (b.traceBlockRequest config block msgs)
    let results ← E.unmarshalTraces data
    attachTraceBlockTransactionHashes results (msgs.map (·.hash))

def storeTraceBlock (E : Env) (b : Backend) (height : ℕ) (config : Option TraceConfig)
    (results : BlockTrace) : Except Err (Option DB) :=
  match b.indexer with
  | none => .ok none
  | some db => do
    let raw ← E.marshalTraces results
    return some (setTraceBlockByHeight E db height config raw)

/-- Replay a block and cache its traces.  The result is paired with the store. -/
def liveTraceBlock (E : Env) (b : Backend) (height : ℤ) (config : Option TraceConfig)
    (block : Block) : Except Err (BlockTrace × Option DB) := do
  let results ← b.replayBlock E height config block
  let results := b.alignTraceBlockResultsWithVisibleTransactions results block.height
  let db ← b.storeTraceBlock E block.height config results
  return (results, db)

/-- The node's block to be traced. -/
def blockToTrace (b : Backend) (height : ℤ) (block : Option Block) : Except Err Block :=
  match block with
  | some block => .ok block
  | none => do
    let some block ← wrapErr (b.tendermintBlockByNumber height) "block not found"
      | throw (.plain "block not found")
    return block

def cachedTraceBlock (E : Env) (b : Backend) (height : ℤ) (config : Option TraceConfig)
    (block : Option Block) : Option (ℕ × Bytes) :=
  match b.indexer, b.traceCacheHeight height block with
  | some db, some h => (getTraceBlockByHeight E db h config).toOption.map fun raw => (h, raw)
  | _, _ => none

/-- The traces of a block, with the store afterwards. -/
def traceBlock (E : Env) (b : Backend) (height : ℤ) (config : Option TraceConfig)
    (block : Option Block) : Except Err (BlockTrace × Option DB) :=
  match b.cachedTraceBlock E height config block with
  | some (h, raw) => do
    let results ← b.readTraceBlock E raw h block
    return (results, b.indexer)
  | none =>
    if b.offlineRPCOnly then .error (.plain "block trace not available in offline rpc-only mode")
    else do
      let block ← b.blockToTrace height block
      b.liveTraceBlock E height config block

/-! ## Tracing a transaction -/

/-- The position of a transaction in the traces of its block. -/
def traceIndex (db : DB) (tx : TxResult) (hash : Hash) : Option ℕ :=
  if tx.ethTxIndex < 0 then
    (getRPCTransactionHashesByBlockHeight db tx.height).findIdx? (· == hash)
  else some tx.ethTxIndex.toNat

def traceValue : Option TxTraceResult → Except Err (Option Json)
  | none => .error (.plain "transaction trace entry missing from cached block trace")
  | some t => if t.error ≠ "" then .error (.plain t.error) else .ok t.result

def traceTransactionFromCachedBlock (E : Env) (b : Backend) (hash : Hash)
    (config : Option TraceConfig) : Except Err (Option Json) := do
  let some db := b.indexer | throw (.plain "trace cache unavailable")
  let tx ← b.getTxByEthHash E hash
  let raw ← getTraceBlockByHeight E db tx.height config
  let blockTrace ← b.readTraceBlock E raw tx.height none
  match (traceIndex db tx hash).bind (blockTrace[·]?) with
  | some entry => traceValue entry
  | none => throw (.plain "transaction trace not found in cached block trace")

end Backend

/-! ## A small tracing backend -/

/-- The sample environment with a codec for the given traces: the encoding of a trace is
its position. -/
def Env.tracing (known : List BlockTrace) : Env :=
  { Env.sample with
    marshalTraces := fun trace =>
      match known.findIdx? (· == trace) with
      | some i => .ok [UInt8.ofNat i]
      | none => .error (.plain "unknown trace")
    unmarshalTraces := fun raw =>
      match raw with
      | [n] => .ok ((known[n.toNat]?).getD [])
      | _ => .error (.plain "unknown encoding") }

/-- The sample backend over a store, with a node that answers every trace request with the
first known trace. -/
def Backend.tracing (db : DB) : Backend :=
  { Backend.sample (some db) none with
    queryClient := { QueryClient.silent with traceBlock := fun _ _ => .ok [0] } }

end EvmGateway
