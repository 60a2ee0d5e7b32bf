import EvmGateway.Virtual.Ibc
import EvmGateway.Rpc.Transaction

/-!
# RPC logs, receipts and synthetic identities

The log and receipt shapes of the gateway, the log filter, and the hashes synthetic
transactions are known under.
-/

namespace EvmGateway

open Lib

/-! ## Logs -/

/-- A log as JSON-RPC returns it, with the marks of a synthesised one. -/
structure RPCLog where
  address : Address
  topics : List Hash
  data : Bytes
  blockNumber : ℕ
  txHash : Hash
  txIndex : ℕ
  blockHash : Hash
  index : ℕ
  removed : Bool
  isVirtual : Bool
  cosmosHash : Option Hash := none
  cosmosMsgIndex : Option ℕ := none
  deriving DecidableEq

/-- The identity assigned to a group of logs. -/
structure LogContext where
  blockHash : Hash
  blockNumber : ℕ
  txHash : Hash
  txIndex : ℕ
  firstLogIndex : ℕ
  cosmosHash : Option Hash := none
  deriving DecidableEq

/-- Wrap an Ethereum log. -/
def newRPCLog (log : EthLog) (isVirtual : Bool) (cosmosHash : Option Hash) : RPCLog where
  address := log.address
  topics := log.topics
  data := log.data
  blockNumber := log.blockNumber
  txHash := log.txHash
  txIndex := log.txIndex
  blockHash := log.blockHash
  index := log.index
  removed := log.removed
  isVirtual := isVirtual
  cosmosHash := cosmosHash

def wrapLogs (logs : List EthLog) (isVirtual : Bool) (cosmosHash : Option Hash) : List RPCLog :=
  logs.map fun log => newRPCLog log isVirtual cosmosHash

/-- The Ethereum part of a log. -/
def ethLog (log : RPCLog) : EthLog where
  address := log.address
  topics := log.topics
  data := log.data
  blockNumber := log.blockNumber
  txHash := log.txHash
  txIndex := log.txIndex
  blockHash := log.blockHash
  index := log.index
  removed := log.removed

/-- The Ethereum parts of a list of logs. -/
def ethLogs (logs : List RPCLog) : List EthLog := logs.map ethLog

def virtualLogsBloom (E : Env) (logs : List RPCLog) : Bytes := E.logsBloom (ethLogs logs)

/-- The log at position `i` of a segment, with its identity assigned. -/
def RPCLog.withMetadata (ctx : LogContext) (i : ℕ) (log : RPCLog) : RPCLog :=
  { log with
    blockNumber := ctx.blockNumber
    txHash := ctx.txHash
    txIndex := ctx.txIndex
    blockHash := ctx.blockHash
    index := ctx.firstLogIndex + i
    cosmosHash := if log.isVirtual then ctx.cosmosHash else log.cosmosHash }

/-- Assign one contiguous segment of the block-wide log stream. -/
def setLogMetadata (logs : List RPCLog) (ctx : LogContext) : List RPCLog :=
  logs.mapIdx fun i log => log.withMetadata ctx i

@[simp] theorem length_setLogMetadata (logs : List RPCLog) (ctx : LogContext) :
    (setLogMetadata logs ctx).length = logs.length := by
  simp [setLogMetadata]

theorem of_mem_setLogMetadata {logs : List RPCLog} {ctx : LogContext} {log : RPCLog}
    (h : log ∈ setLogMetadata logs ctx) : log.txHash = ctx.txHash ∧ log.txIndex = ctx.txIndex := by
  obtain ⟨i, hi, rfl⟩ := List.mem_mapIdx.mp h
  exact ⟨rfl, rfl⟩

/-- Whether a log passes a filter: its address is listed if any is, and at each topic
position of the filter the log has a topic, which is listed if any is. -/
def logMatches (log : RPCLog) (addresses : List Address) (topics : List (List Hash)) : Bool :=
  (addresses.isEmpty || addresses.contains log.address) &&
  topics.length ≤ log.topics.length &&
  (topics.zip log.topics).all fun (sub, topic) => sub.isEmpty || sub.contains topic

/-! ## Receipts -/

/-- A bloom filter as a 256-byte string. -/
def bytesToBloom (bs : Bytes) : Bytes := List.replicate (256 - bs.length) 0 ++ bs

/-- The receipt shape exposed by JSON-RPC; an absent key is `none`. -/
structure ReceiptMap where
  status : ℕ
  cumulativeGasUsed : UInt64
  logsBloom : Bytes
  logs : List RPCLog
  transactionHash : Hash
  contractAddress : Option Address
  gasUsed : UInt64
  blockHash : String
  blockNumber : ℕ
  transactionIndex : ℕ
  effectiveGasPrice : Option ℤ
  sender : Address
  toAddr : Option Address
  type : ℕ
  reason : Option String
  vmError : Option String
  deriving DecidableEq

/-- An optional text field: absent when empty. -/
def optionalText (s : String) : Option String := if s = "" then none else some s

/-- The receipt of a synthesised transaction. -/
structure VirtualReceipt where
  status : ℕ
  cumulativeGasUsed : UInt64
  gasUsed : UInt64 := 0
  reason : String := ""
  vmError : String := ""
  logs : List RPCLog
  transactionHash : Hash
  blockHash : Hash
  blockNumber : ℕ
  transactionIndex : ℕ
  effectiveGasPrice : ℤ := 0
  sender : Address
  toAddr : Option Address
  type : ℕ
  deriving DecidableEq

/-- The receipt shape of a synthesised transaction. -/
def VirtualReceipt.toMap (E : Env) (r : VirtualReceipt) : ReceiptMap where
  status := r.status
  cumulativeGasUsed := r.cumulativeGasUsed
  logsBloom := bytesToBloom (virtualLogsBloom E r.logs)
  logs := r.logs
  transactionHash := r.transactionHash
  contractAddress := none
  gasUsed := r.gasUsed
  blockHash := r.blockHash.hex
  blockNumber := r.blockNumber
  transactionIndex := r.transactionIndex
  effectiveGasPrice := some r.effectiveGasPrice
  sender := r.sender
  toAddr := r.toAddr
  type := r.type
  reason := optionalText r.reason
  vmError := optionalText r.vmError

structure VirtualTx where
  transaction : RPCTransaction
  receipt : VirtualReceipt
  deriving DecidableEq

/-! ## Identities -/

def originalCosmosTxHash (E : Env) (tx : Bytes) : Hash := bytesToHash (E.txHash tx)

/-- The identity of the bank events of a Cosmos transaction. -/
def cosmosTxHash (E : Env) (tx : Bytes) : Hash := E.keccak256 (originalCosmosTxHash E tx).bytes

def asciiBytes (s : String) : Bytes := s.toList.map fun c => UInt8.ofNat c.toNat

def ibcHookTxHash (E : Env) (tx : Bytes) (msgIndex : ℕ) : Hash :=
  E.keccak256 ((originalCosmosTxHash E tx).bytes ++ asciiBytes "@" ++ asciiBytes (toString msgIndex))

def nestedIBCHookTxHash (E : Env) (tx : Bytes) (msgIndex position : ℕ) : Hash :=
  E.keccak256 ((originalCosmosTxHash E tx).bytes ++ asciiBytes "@" ++ asciiBytes (toString msgIndex)
    ++ asciiBytes "#" ++ asciiBytes (toString position))

/-- The identity of the events of a block phase. -/
def blockPhaseHash (E : Env) (phase : String) (height : ℕ) : Hash :=
  E.keccak256 (asciiBytes phase ++ toBE 8 height)

/-- The identity of the events before the transactions of a block. -/
def beginBlockHash (E : Env) (height : ℕ) : Hash := blockPhaseHash E "begin_block" height

/-- The identity of the events after the transactions of a block. -/
def endBlockHash (E : Env) (height : ℕ) : Hash := blockPhaseHash E "end_block" height

/-- The RPC form of a synthesised transaction. -/
def newVirtualRPCTransaction (hash blockHash : Hash) (blockNumber index : ℕ) (chainID : Option ℤ)
    (cosmosHash : Option Hash) (sender toAddr : Address) (input : Bytes) (gasUsed : UInt64) :
    RPCTransaction where
  blockHash := some blockHash
  blockNumber := some blockNumber
  sender := sender
  gas := gasUsed
  gasPrice := 0
  hash := hash
  input := input
  nonce := 0
  toAddr := some toAddr
  transactionIndex := some index
  value := 0
  type := legacyTxType
  chainID := chainID
  v := 0
  r := 0
  s := 0
  isVirtual := true
  cosmosHash := cosmosHash

end EvmGateway
