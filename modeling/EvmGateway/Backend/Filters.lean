import EvmGateway.Backend.LiveView
import EvmGateway.Lib.Lru

/-!
# Block logs

The logs of a block are read from the store if the block was indexed in the mode of the
backend, and rebuilt from the node's data otherwise.  Filtered queries go through one
more layer: the complete logs of recently queried blocks are kept in memory, and a query
that is taken to ask for all logs is answered from there.

## Main definitions

* `getLogsByHeight`, `getLogs` — the log groups of a block.
* `getFilteredLogsByHeight`, `getFilteredLogs` — the logs that pass a filter, with the
  in-memory cache threaded through.
-/

namespace EvmGateway

open Lib

/-! ## The in-memory cache -/

/-- How many receipts are kept in memory. -/
def materializedReceiptCacheSize : ℕ := 8192

/-- Of how many blocks the logs are kept in memory. -/
def materializedBlockLogsCacheSize : ℕ := 512

/-- The decoded values a backend keeps in memory. -/
structure MaterializedCache where
  receipts : Lru Hash ReceiptMap materializedReceiptCacheSize
  blockLogs : Lru ℕ (List RPCLog) materializedBlockLogsCacheSize

def newMaterializedCache : MaterializedCache where
  receipts := .empty _ _ _
  blockLogs := .empty _ _ _

namespace MaterializedCache

def getReceipt (c : MaterializedCache) (hash : Hash) : Option ReceiptMap × MaterializedCache :=
  ((c.receipts.get hash).1, { c with receipts := (c.receipts.get hash).2 })

def addReceipt (c : MaterializedCache) (hash : Hash) (receipt : ReceiptMap) : MaterializedCache :=
  { c with receipts := c.receipts.add hash receipt }

def getBlockLogs (c : MaterializedCache) (height : ℕ) : Option (List RPCLog) × MaterializedCache :=
  ((c.blockLogs.get height).1, { c with blockLogs := (c.blockLogs.get height).2 })

def addBlockLogs (c : MaterializedCache) (height : ℕ) (logs : List RPCLog) : MaterializedCache :=
  { c with blockLogs := c.blockLogs.add height logs }

end MaterializedCache

/-! ## Log groups -/

def logsFromTxResult (E : Env) (height : ℕ) : Option ExecTxResult → Except Err (List RPCLog)
  | none => .error (.panic "invalid memory address or nil pointer dereference")
  | some txResult => do
    let logs ← E.decodeTxLogs txResult.data height
    return wrapLogs logs false none

def getLogsFromBlockResults (E : Env) (blockRes : Option BlockResults) :
    Except Err (List (List RPCLog)) := do
  let some blockRes := blockRes
    | throw (.panic "invalid memory address or nil pointer dereference")
  let txResults ← normalizeTxResponseIndexes E blockRes.txResults
  txResults.mapM (logsFromTxResult E blockRes.height)

namespace Backend

/-- What the store has for a block: a value to serve, nothing to serve, or the refusal of
an offline backend to serve a block of the other mode. -/
def cachedBlockLogs {α : Type} (b : Backend) (m : Except Err CachedBlockMeta)
    (lookup : Except Err α) : Except Err (Option α) :=
  match m with
  | .error _ => .ok none
  | .ok m =>
    if b.cachedMetaMatchesVirtualization m then
      match lookup with
      | .ok logs => .ok (some logs)
      | .error _ => .ok none
    else if b.offlineRPCOnly then .error (virtualizationModeMismatch m)
    else .ok none

/-- The log groups of a height from the node's data. -/
def liveLogsByHeight (E : Env) (b : Backend) (height : ℕ) : Except Err (List (List RPCLog)) := do
  let blockRes ← b.tendermintBlockResultByNumber height
  if b.virtualizeCosmosEvents then
    let some block ← b.tendermintBlockByNumber height
      | throw (.plain s!"block not found for height {height}")
    let view ← liveVirtualBlockView E b (some block) blockRes
    return view.logs
  else getLogsFromBlockResults E blockRes

def getLogsByHeight (E : Env) (b : Backend) (height : ℕ) : Except Err (List (List RPCLog)) :=
  match b.indexer with
  | none => b.liveLogsByHeight E height
  | some db => do
    match ← b.cachedBlockLogs (getBlockMetaByHeight db height) (getLogsByBlockHeight db height) with
    | some logs => return logs
    | none => b.liveLogsByHeight E height

/-- The log groups of a block hash from the node's data. -/
def liveLogs (E : Env) (b : Backend) (hash : Hash) : Except Err (List (List RPCLog)) := do
  let some block ← b.tendermintBlockByHash hash
    | throw (.plain s!"block not found for hash {hash.hex}")
  b.getLogsByHeight E block.height

def getLogs (E : Env) (b : Backend) (hash : Hash) : Except Err (List (List RPCLog)) :=
  match b.indexer with
  | none => b.liveLogs E hash
  | some db => do
    match ← b.cachedBlockLogs (getBlockMetaByHash db hash) (getLogsByBlockHash db hash) with
    | some logs => return logs
    | none => b.liveLogs E hash

end Backend

/-! ## Filtered logs -/

/-- Whether a filter is taken to ask for all logs. -/
def broadLogFilter (addresses : List Address) (topics : List (List Hash)) : Bool :=
  addresses.isEmpty && topics.all (·.isEmpty)

def filterGroupedLogs (logsList : List (List RPCLog)) (addresses : List Address)
    (topics : List (List Hash)) : List RPCLog :=
  logsList.flatten.filter fun log => logMatches log addresses topics

namespace Backend

/-- A filtered lookup in the store behind the in-memory cache.  `key` is the height the
logs of the block are kept under, `broad` whether the filter asks for all of them. -/
def cachedFilteredLogs (b : Backend) (cache : MaterializedCache) (m : Except Err CachedBlockMeta)
    (key : CachedBlockMeta → ℕ) (broad : Bool) (lookup : Except Err (List RPCLog)) :
    Except Err (Option (List RPCLog)) × MaterializedCache :=
  match m with
  | .error _ => (.ok none, cache)
  | .ok m =>
    if b.cachedMetaMatchesVirtualization m then
      match (if broad then cache.getBlockLogs (key m) else (none, cache)) with
      | (some logs, cache) => (.ok (some logs), cache)
      | (none, cache) =>
        match lookup with
        | .ok logs => (.ok (some logs), if broad then cache.addBlockLogs (key m) logs else cache)
        | .error _ => (.ok none, cache)
    else if b.offlineRPCOnly then (.error (virtualizationModeMismatch m), cache)
    else (.ok none, cache)

/-- The answer of a filtered query: the one from the store, or else the filtered groups. -/
def filteredLogsOr (cached : Except Err (Option (List RPCLog)))
    (groups : Except Err (List (List RPCLog))) (addresses : List Address)
    (topics : List (List Hash)) : Except Err (List RPCLog) := do
  match ← cached with
  | some logs => return logs
  | none =>
    let logsList ← groups
    return filterGroupedLogs logsList addresses topics

def getFilteredLogsByHeight (E : Env) (b : Backend) (cache : MaterializedCache) (height : ℕ)
    (addresses : List Address) (topics : List (List Hash)) :
    Except Err (List RPCLog) × MaterializedCache :=
  match b.indexer with
  | none => (filteredLogsOr (.ok none) (b.getLogsByHeight E height) addresses topics, cache)
  | some db =>
    let (cached, cache) := b.cachedFilteredLogs cache (getBlockMetaByHeight db height)
      (fun _ => height) (broadLogFilter addresses topics)
      (getFilteredLogsByBlockHeight db height addresses topics)
    (filteredLogsOr cached (b.getLogsByHeight E height) addresses topics, cache)

def getFilteredLogs (E : Env) (b : Backend) (cache : MaterializedCache) (hash : Hash)
    (addresses : List Address) (topics : List (List Hash)) :
    Except Err (List RPCLog) × MaterializedCache :=
  match b.indexer with
  | none => (filteredLogsOr (.ok none) (b.getLogs E hash) addresses topics, cache)
  | some db =>
    let (cached, cache) := b.cachedFilteredLogs cache (getBlockMetaByHash db hash)
      CachedBlockMeta.height (broadLogFilter addresses topics)
      (getFilteredLogsByBlockHash db hash addresses topics)
    (filteredLogsOr cached (b.getLogs E hash) addresses topics, cache)

end Backend

end EvmGateway
