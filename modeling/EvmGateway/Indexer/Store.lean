import EvmGateway.Virtual.Response
import EvmGateway.Lib.Batch

/-!
# The indexer's key-value store

The store holds eleven collections under one ordered key space.  A key is its
collection together with its arguments, and the type of a value is determined by its
key, so one map with a dependent value type is the whole store.  Keys are ordered by
collection, then height (or hash), then position, which is the order of their byte
encodings.

Values are kept decoded: a payload that was written is read back as it was.  Errors
of the underlying database are outside the model; a lookup fails exactly when the key
is absent.

## Main definitions

* `Key`, `Key.Val`, `DB` — the collections.
* `DB.txIndexEntries`, `DB.rpcTxIndexEntries` — the ordered scans over one height.
* `getReceiptByTxHash`, `getBlockMetaByHeight`, … — the lookups of the indexer.
-/

namespace EvmGateway

open Lib Std

variable {db : DB} {height : ℕ} {k : Key} {hash : Hash} {i : ℤ}

/-! ## Payloads -/

structure TxResult where
  height : ℕ
  txIndex : ℕ
  msgIndex : ℕ
  ethTxIndex : ℤ
  failed : Bool
  gasUsed : UInt64
  cumulativeGasUsed : UInt64
  deriving DecidableEq

/-- The cached header data of a block. -/
structure CachedBlockMeta where
  height : ℕ
  hash : String
  parentHash : String
  stateRoot : String
  miner : String
  timestamp : ℤ
  size : ℕ
  gasLimit : UInt64
  gasUsed : UInt64
  ethTxCount : ℤ
  txCount : ℤ
  bloom : String
  transactionsRoot : String
  baseFee : String
  virtualizedCosmosEvents : Bool
  deriving DecidableEq

structure CachedReceipt where
  status : ℕ
  cumulativeGasUsed : UInt64
  gasUsed : UInt64
  reason : Option String
  vmError : Option String
  logsBloom : String
  logs : List RPCLog
  transactionHash : String
  contractAddress : Option String
  blockHash : String
  blockNumber : ℕ
  transactionIndex : ℕ
  effectiveGasPrice : String
  sender : String
  toAddr : Option String
  type : ℕ
  deriving DecidableEq

def CachedReceipt.toMap (r : CachedReceipt) : ReceiptMap where
  status := r.status
  cumulativeGasUsed := r.cumulativeGasUsed
  logsBloom := bytesToBloom (fromHex r.logsBloom)
  logs := r.logs
  transactionHash := hexToHash r.transactionHash
  contractAddress := r.contractAddress.map hexToAddress
  gasUsed := r.gasUsed
  blockHash := r.blockHash
  blockNumber := r.blockNumber
  transactionIndex := r.transactionIndex
  effectiveGasPrice :=
    match decodeQuantity r.effectiveGasPrice with
    | .ok p => some p
    | .error _ => none
  sender := hexToAddress r.sender
  toAddr := r.toAddr.map hexToAddress
  type := r.type
  reason := r.reason
  vmError := r.vmError

/-! ## Keys -/

/-- A key of the store. -/
inductive Key where
  /-- transaction hash to indexed result -/
  | txHash (hash : Hash)
  /-- Ethereum position to transaction hash -/
  | txIndex (height : ℕ) (index : ℤ)
  /-- transaction hash to RPC transaction -/
  | rpcTxHash (hash : Hash)
  /-- visible position to transaction hash -/
  | rpcTxIndex (height : ℕ) (index : ℤ)
  | receipt (hash : Hash)
  | blockLogs (height : ℕ)
  | blockMeta (height : ℕ)
  /-- block hash to height -/
  | blockHash (hash : Hash)
  | traceTx (hash : Hash) (config : Hash)
  | traceBlock (height : ℕ) (config : Hash)
  /-- marks a synthesised transaction -/
  | virtualRPCtx (hash : Hash)
  deriving DecidableEq

namespace Key

/-- The number of a key's collection: the first byte of its encoding. -/
def collection : Key → ℕ
  | txHash _ => 1
  | txIndex _ _ => 2
  | rpcTxHash _ => 3
  | rpcTxIndex _ _ => 4
  | receipt _ => 5
  | blockLogs _ => 6
  | blockMeta _ => 7
  | blockHash _ => 8
  | traceTx _ _ => 9
  | traceBlock _ _ => 10
  | virtualRPCtx _ => 11

def subject : Key → ℕ
  | txHash h | rpcTxHash h | receipt h | blockHash h | traceTx h _ | virtualRPCtx h => h.toNat
  | txIndex n _ | rpcTxIndex n _ | blockLogs n | blockMeta n | traceBlock n _ => n

/-- The position or config digest of a key. -/
def position : Key → ℤ
  | txIndex _ i | rpcTxIndex _ i => i
  | traceTx _ c | traceBlock _ c => c.toNat
  | _ => 0

def cmp : Key → Key → Ordering :=
  compareLex (compareOn collection) (compareLex (compareOn subject) (compareOn position))

instance : TransCmp cmp := by
  unfold cmp
  infer_instance

private theorem eq_of_parts {a b : Key} (hc : a.collection = b.collection)
    (hs : a.subject = b.subject) (hp : a.position = b.position) : a = b := by
  cases a <;> cases b <;>
    simp_all [collection, subject, position, BitVec.toNat_inj]

instance : LawfulEqCmp cmp where
  eq_of_compare {a b} h := by
    simp only [cmp, compareLex_eq_eq, compareOn, Std.compare_eq_iff_eq] at h
    exact eq_of_parts h.1 h.2.1 h.2.2

abbrev Val : Key → Type
  | txHash _ => TxResult
  | txIndex _ _ => Hash
  | rpcTxHash _ => RPCTransaction
  | rpcTxIndex _ _ => Hash
  | receipt _ => CachedReceipt
  | blockLogs _ => List (List RPCLog)
  | blockMeta _ => CachedBlockMeta
  | blockHash _ => ℕ
  | traceTx _ _ => Bytes
  | traceBlock _ _ => Bytes
  | virtualRPCtx _ => Unit

/-- Whether a key belongs to one of the two trace collections. -/
def isTrace : Key → Bool
  | traceTx _ _ | traceBlock _ _ => true
  | _ => false

theorem cmp_rpcTxIndex_lt {h : ℕ} {j : ℤ} (hij : i < j) :
    cmp (rpcTxIndex h i) (rpcTxIndex h j) = .lt := by
  simp [cmp, compareLex, compareOn, collection, subject, position, compare_lt_iff_lt.mpr hij]

end Key

/-- The store. -/
abbrev DB := ExtDTreeMap Key Key.Val Key.cmp

/-- A batch of writes to the store. -/
abbrev DBBatch := Batch Key Key.Val

/-! ## Scans -/

namespace DB

def txIndexEntries (db : DB) (height : ℕ) : List (ℤ × Hash) :=
  collect db fun k v =>
    match k, v with
    | .txIndex h i, hash => if h = height then some (i, hash) else none
    | _, _ => none

def rpcTxIndexEntries (db : DB) (height : ℕ) : List (ℤ × Hash) :=
  collect db fun k v =>
    match k, v with
    | .rpcTxIndex h i, hash => if h = height then some (i, hash) else none
    | _, _ => none

/-- The config digests under which a transaction's trace is cached. -/
def traceTxConfigs (db : DB) (hash : Hash) : List Hash :=
  collect db fun k _ =>
    match k with
    | .traceTx h c => if h = hash then some c else none
    | _ => none

/-- The config digests under which a block's trace is cached. -/
def traceBlockConfigs (db : DB) (height : ℕ) : List Hash :=
  collect db fun k _ =>
    match k with
    | .traceBlock h c => if h = height then some c else none
    | _ => none

def metaHeights (db : DB) : List ℕ :=
  collect db fun k _ =>
    match k with
    | .blockMeta h => some h
    | _ => none

/-- The heights of all Ethereum index entries, ascending. -/
def txIndexHeights (db : DB) : List ℕ :=
  collect db fun k _ =>
    match k with
    | .txIndex h _ => some h
    | _ => none

theorem mem_txIndexEntries :
    (i, hash) ∈ db.txIndexEntries height ↔ db.get? (.txIndex height i) = some hash := by
  rw [txIndexEntries, mem_collect]
  constructor
  · rintro ⟨k, v, hv, hp⟩
    cases k with
    | txIndex h j =>
      obtain ⟨rfl, rfl, rfl⟩ : h = height ∧ j = i ∧ v = hash := by simpa using hp
      exact hv
    | _ => simp at hp
  · intro h
    exact ⟨_, _, h, by simp⟩

theorem mem_rpcTxIndexEntries :
    (i, hash) ∈ db.rpcTxIndexEntries height ↔ db.get? (.rpcTxIndex height i) = some hash := by
  rw [rpcTxIndexEntries, mem_collect]
  constructor
  · rintro ⟨k, v, hv, hp⟩
    cases k with
    | rpcTxIndex h j =>
      obtain ⟨rfl, rfl, rfl⟩ : h = height ∧ j = i ∧ v = hash := by simpa using hp
      exact hv
    | _ => simp at hp
  · intro h
    exact ⟨_, _, h, by simp⟩

theorem mem_traceTxConfigs {c : Hash} :
    c ∈ db.traceTxConfigs hash ↔ (db.get? (.traceTx hash c)).isSome := by
  rw [traceTxConfigs, mem_collect, Option.isSome_iff_exists]
  constructor
  · rintro ⟨k, v, hv, hp⟩
    cases k with
    | traceTx h d =>
      obtain ⟨rfl, rfl⟩ : h = hash ∧ d = c := by simpa using hp
      exact ⟨v, hv⟩
    | _ => simp at hp
  · rintro ⟨v, hv⟩
    exact ⟨_, v, hv, by simp⟩

theorem mem_traceBlockConfigs {c : Hash} :
    c ∈ db.traceBlockConfigs height ↔ (db.get? (.traceBlock height c)).isSome := by
  rw [traceBlockConfigs, mem_collect, Option.isSome_iff_exists]
  constructor
  · rintro ⟨k, v, hv, hp⟩
    cases k with
    | traceBlock h d =>
      obtain ⟨rfl, rfl⟩ : h = height ∧ d = c := by simpa using hp
      exact ⟨v, hv⟩
    | _ => simp at hp
  · rintro ⟨v, hv⟩
    exact ⟨_, v, hv, by simp⟩

/-- The scan of the visible index only depends on its entries at the height. -/
theorem rpcTxIndexEntries_congr {db' : DB}
    (h : ∀ i, db'.get? (.rpcTxIndex height i) = db.get? (.rpcTxIndex height i)) :
    db'.rpcTxIndexEntries height = db.rpcTxIndexEntries height := by
  refine collect_congr ?_
  intro k v b hb
  cases k with
  | rpcTxIndex n i =>
    obtain ⟨rfl, -⟩ : n = height ∧ (i, v) = b := by simpa using hb
    rw [h i]
  | _ => simp at hb

/-- A height whose visible index holds exactly the list `l` scans as `l`. -/
theorem rpcTxIndexEntries_eq {db : DB} {height : ℕ} {l : List Hash}
    (h : ∀ (i : ℤ) (hash : Hash), db.get? (.rpcTxIndex height i) = some hash ↔
      0 ≤ i ∧ l[i.toNat]? = some hash) :
    db.rpcTxIndexEntries height = l.zipIdx.map fun e => ((e.2 : ℤ), e.1) := by
  refine collect_eq_of_get? (fun n => .rpcTxIndex height (n : ℤ))
    (fun i j hij => Key.cmp_rpcTxIndex_lt (by exact_mod_cast hij)) ?_ ?_
  · intro k v b hv hp
    cases k with
    | rpcTxIndex n i =>
      obtain ⟨rfl, rfl⟩ : n = height ∧ (i, v) = b := by simpa using hp
      obtain ⟨h0, hl⟩ := (h i v).mp hv
      have hi : ((i.toNat : ℕ) : ℤ) = i := Int.toNat_of_nonneg h0
      exact ⟨i.toNat, by rw [hi], by simp [hl, hi]⟩
    | _ => simp at hp
  · intro i b hb
    obtain ⟨hash, hl, rfl⟩ : ∃ hash, l[i]? = some hash ∧ ((i : ℤ), hash) = b := by
      simpa using hb
    exact ⟨hash, (h i hash).mpr ⟨by omega, by simpa using hl⟩, by simp⟩

end DB

/-! ## Lookups -/

/-- The error of a lookup that found nothing. -/
def newCacheMiss (message : String) : Err := ⟨.cacheMiss, s!"cache miss: {message}"⟩

def DB.getOr (db : DB) (k : Key) (e : Err) : Except Err k.Val :=
  match db.get? k with
  | some v => .ok v
  | none => .error e

@[simp] theorem DB.getOr_eq_ok {e : Err} {v : k.Val} :
    db.getOr k e = .ok v ↔ db.get? k = some v := by
  unfold DB.getOr
  cases db.get? k <;> simp

theorem DB.getOr_of_get? {v : k.Val} (h : db.get? k = some v) (e : Err) :
    db.getOr k e = .ok v := DB.getOr_eq_ok.mpr h

theorem DB.getOr_of_none (h : db.get? k = none) (e : Err) :
    db.getOr k e = .error e := by
  simp [DB.getOr, h]

def getByTxHash (db : DB) (hash : Hash) : Except Err TxResult :=
  db.getOr (.txHash hash) (.plain s!"tx not found, hash: {hash.hex}")

/-- The indexed result at an Ethereum position. -/
def getByBlockAndIndex (db : DB) (height : ℕ) (txIndex : ℤ) : Except Err TxResult := do
  let hash ← db.getOr (.txIndex height txIndex)
    (.plain s!"tx not found, block: {height}, eth-index: {txIndex}")
  getByTxHash db hash

def getRPCTransactionByHash (db : DB) (hash : Hash) : Except Err RPCTransaction :=
  db.getOr (.rpcTxHash hash) (newCacheMiss s!"rpc tx not found, hash: {hash.hex}")

/-- The cached RPC transaction at a visible position. -/
def getRPCTransactionByBlockAndIndex (db : DB) (height : ℕ) (txIndex : ℤ) :
    Except Err RPCTransaction := do
  let hash ← db.getOr (.rpcTxIndex height txIndex)
    (newCacheMiss s!"rpc tx not found, block: {height}, eth-index: {txIndex}")
  getRPCTransactionByHash db hash

def getRPCTransactionHashesByBlockHeight (db : DB) (height : ℕ) : List Hash :=
  (db.rpcTxIndexEntries height).map Prod.snd

def getReceiptByTxHash (db : DB) (hash : Hash) : Except Err ReceiptMap := do
  let receipt ← db.getOr (.receipt hash) (newCacheMiss s!"receipt not found, hash: {hash.hex}")
  return receipt.toMap

/-- Whether a cached transaction was synthesised. -/
def isVirtualRPCTransaction (db : DB) (hash : Hash) : Bool :=
  (db.get? (.virtualRPCtx hash)).isSome

def getBlockMetaByHeight (db : DB) (height : ℕ) : Except Err CachedBlockMeta :=
  db.getOr (.blockMeta height) (newCacheMiss s!"block meta not found, height: {height}")

def getHeightByBlockHash (db : DB) (hash : Hash) : Except Err ℕ :=
  db.getOr (.blockHash hash) (newCacheMiss s!"block hash not indexed: {hash.hex}")

def getBlockMetaByHash (db : DB) (hash : Hash) : Except Err CachedBlockMeta := do
  let height ← getHeightByBlockHash db hash
  getBlockMetaByHeight db height

/-- The cached log groups of a height. -/
def getLogsByBlockHeight (db : DB) (height : ℕ) : Except Err (List (List RPCLog)) :=
  db.getOr (.blockLogs height) (newCacheMiss s!"block logs not found, height: {height}")

def getFilteredLogsByBlockHeight (db : DB) (height : ℕ) (addresses : List Address)
    (topics : List (List Hash)) : Except Err (List RPCLog) := do
  let groups ← getLogsByBlockHeight db height
  return groups.flatten.filter fun log => logMatches log addresses topics

def getLogsByBlockHash (db : DB) (hash : Hash) : Except Err (List (List RPCLog)) := do
  let height ← getHeightByBlockHash db hash
  getLogsByBlockHeight db height

def getFilteredLogsByBlockHash (db : DB) (hash : Hash) (addresses : List Address)
    (topics : List (List Hash)) : Except Err (List RPCLog) := do
  let height ← getHeightByBlockHash db hash
  getFilteredLogsByBlockHeight db height addresses topics

/-- The greatest indexed height, or -1 for an empty store. -/
def loadLastBlock (db : DB) : ℤ :=
  match db.metaHeights.getLast? with
  | some h => h
  | none =>
    match db.txIndexHeights.getLast? with
    | some h => h
    | none => -1

/-! ## Trace cache -/

/-- The digest a trace config is filed under. -/
def traceConfigKey (E : Env) (config : Option TraceConfig) : Hash :=
  match E.marshalTraceConfig config with
  | some bz => E.sha256 bz
  | none => E.sha256 (asciiBytes "marshal-error:*types.TraceConfig")

def setTraceTransaction (E : Env) (db : DB) (hash : Hash) (config : Option TraceConfig)
    (raw : Bytes) : DB :=
  db.insert (.traceTx hash (traceConfigKey E config)) (if raw = [] then asciiBytes "null" else raw)

def getTraceTransaction (E : Env) (db : DB) (hash : Hash) (config : Option TraceConfig) :
    Except Err Bytes :=
  db.getOr (.traceTx hash (traceConfigKey E config))
    (newCacheMiss s!"trace tx not found, hash: {hash.hex}")

def setTraceBlockByHeight (E : Env) (db : DB) (height : ℕ) (config : Option TraceConfig)
    (raw : Bytes) : DB :=
  db.insert (.traceBlock height (traceConfigKey E config)) (if raw = [] then asciiBytes "[]" else raw)

def getTraceBlockByHeight (E : Env) (db : DB) (height : ℕ) (config : Option TraceConfig) :
    Except Err Bytes :=
  db.getOr (.traceBlock height (traceConfigKey E config))
    (newCacheMiss s!"trace block not found, height: {height}")

end EvmGateway
