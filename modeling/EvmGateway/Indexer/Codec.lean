import EvmGateway.Indexer.IndexBlock
import EvmGateway.Lib.Wire

/-!
# Payloads of the store

The values of the store are Cap'n Proto messages behind an eight-byte tag; a payload
without the tag is read in the older JSON or protobuf form.  Elsewhere in this
development values are kept decoded; here is the code that encodes and decodes them.

A Cap'n Proto record is a structure with one field per entry of the schema: words and
flags by value, everything else behind a pointer that is `none` when it was not set.
Setting a byte string stores a null pointer for a nil slice, and setting a text stores
one for the empty text.  How the runtime lays a record out in bytes is not modelled: a
`KVCodec` supplies an encoder with its decoder per record, and `KVCodec.Laws` says what
is assumed of them.

## Main definitions

* `CapnpLog`, `CapnpReceipt`, `CapnpRPCTransaction`, … — the records of the schema.
* `KVCodec` — the libraries the payload code is linked against.
* `KVCodec.mustMarshalReceipt`, `KVCodec.unmarshalReceiptPayload`, … — the payload code.
* `capnpLogMatches`, `KVCodec.unmarshalFilteredBlockLogsPayload` — filtering on records.
-/

namespace EvmGateway

open Lib

/-! ## Records -/

/-- The record of a block's header data. -/
structure CapnpBlockMeta where
  height : ℕ
  hash : Option String
  parentHash : Option String
  stateRoot : Option String
  miner : Option String
  timestamp : ℤ
  size : ℕ
  gasLimit : UInt64
  gasUsed : UInt64
  ethTxCount : ℤ
  txCount : ℤ
  bloom : Option String
  transactionsRoot : Option String
  baseFee : Option String
  virtualizedCosmosEvents : Bool
  deriving DecidableEq

/-- The record of a log. -/
structure CapnpLog where
  address : Option Bytes
  topics : Option (List (Option Bytes))
  data : Option Bytes
  blockNumber : ℕ
  txHash : Option Bytes
  txIndex : ℕ
  blockHash : Option Bytes
  index : ℕ
  removed : Bool
  isVirtual : Bool
  cosmosHash : Option Bytes
  cosmosMsgIndex : ℕ
  cosmosMsgIndexPresent : Bool
  deriving DecidableEq

/-- The record of the logs of one transaction. -/
structure CapnpLogGroup where
  logs : Option (List CapnpLog)
  deriving DecidableEq

structure CapnpBlockLogs where
  groups : Option (List CapnpLogGroup)
  deriving DecidableEq

/-- The record of a receipt. -/
structure CapnpReceipt where
  status : ℕ
  cumulativeGasUsed : UInt64
  gasUsed : UInt64
  reason : Option String
  vmError : Option String
  logsBloom : Option Bytes
  logs : Option (List CapnpLog)
  transactionHash : Option Bytes
  contractAddress : Option Bytes
  blockHash : Option Bytes
  blockNumber : ℕ
  transactionIndex : ℕ
  effectiveGasPrice : Option Bytes
  sender : Option Bytes
  toAddr : Option Bytes
  type : ℕ
  reasonPresent : Bool
  vmErrorPresent : Bool
  effectiveGasPricePresent : Bool
  deriving DecidableEq

/-- The record of an entry of an access list. -/
structure CapnpAccessTuple where
  address : Option Bytes
  storageKeys : Option (List (Option Bytes))
  deriving DecidableEq

/-- The record of a transaction. -/
structure CapnpRPCTransaction where
  blockHash : Option Bytes
  blockNumber : Option Bytes
  sender : Option Bytes
  gas : UInt64
  gasPrice : Option Bytes
  gasFeeCap : Option Bytes
  gasTipCap : Option Bytes
  hash : Option Bytes
  input : Option Bytes
  nonce : UInt64
  toAddr : Option Bytes
  transactionIndex : ℕ
  value : Option Bytes
  type : ℕ
  accesses : Option (List CapnpAccessTuple)
  chainId : Option Bytes
  v : Option Bytes
  r : Option Bytes
  s : Option Bytes
  isVirtual : Bool
  cosmosHash : Option Bytes
  transactionIndexPresent : Bool
  blockNumberPresent : Bool
  gasPricePresent : Bool
  gasFeeCapPresent : Bool
  gasTipCapPresent : Bool
  valuePresent : Bool
  accessesPresent : Bool
  chainIdPresent : Bool
  vPresent : Bool
  rPresent : Bool
  sPresent : Bool
  cosmosMsgIndex : ℕ
  cosmosMsgIndexPresent : Bool
  deriving DecidableEq

/-- The record of a trace. -/
structure CapnpTracePayload where
  raw : Option Bytes
  deriving DecidableEq

structure CapnpTxResult where
  height : ℕ
  txIndex : ℕ
  msgIndex : ℕ
  ethTxIndex : ℤ
  failed : Bool
  gasUsed : UInt64
  cumulativeGasUsed : UInt64
  deriving DecidableEq

/-! ## Transactions with every pointer of the Go struct -/

/-- A transaction with every pointer of the Go struct optional.  `RPCTransaction` is
the part of it the gateway itself builds, where prices, values and signatures are
always there. -/
structure PointerTransaction where
  blockHash : Option Hash
  blockNumber : Option ℤ
  sender : Address
  gas : UInt64
  gasPrice : Option ℤ
  gasFeeCap : Option ℤ
  gasTipCap : Option ℤ
  hash : Hash
  input : Bytes
  nonce : UInt64
  toAddr : Option Address
  transactionIndex : Option ℕ
  value : Option ℤ
  type : ℕ
  accesses : Option AccessList
  chainID : Option ℤ
  v : Option ℤ
  r : Option ℤ
  s : Option ℤ
  isVirtual : Bool
  cosmosHash : Option Hash
  cosmosMsgIndex : Option ℕ
  deriving DecidableEq

/-! ## Libraries -/

/-- What the payload code is linked against. -/
structure KVCodec where
  /-- the Go slice a byte string is held in; an empty one may be nil -/
  slice : Bytes → Option Bytes
  capnpBlockMeta : Wire Err CapnpBlockMeta
  capnpBlockLogs : Wire Err CapnpBlockLogs
  capnpReceipt : Wire Err CapnpReceipt
  capnpRPCTransaction : Wire Err CapnpRPCTransaction
  capnpTxResult : Wire Err CapnpTxResult
  capnpTracePayload : Wire Err CapnpTracePayload
  /-- the JSON form of older payloads -/
  jsonBlockMeta : Wire Err CachedBlockMeta
  jsonBlockLogs : Wire Err (List (List RPCLog))
  jsonReceipt : Wire Err CachedReceipt
  jsonRPCTransaction : Wire Err PointerTransaction
  /-- the protobuf form of older results -/
  protoTxResult : Wire Err TxResult

/-- What is assumed of the libraries. -/
structure KVCodec.Laws (K : KVCodec) : Prop where
  /-- a slice holds its byte string, and nil stands for the empty one -/
  slice : ∀ bs, (K.slice bs).getD [] = bs
  /-- Cap'n Proto getters return what the setters stored -/
  capnpBlockMeta : K.capnpBlockMeta.RoundTrips
  capnpBlockLogs : K.capnpBlockLogs.RoundTrips
  capnpReceipt : K.capnpReceipt.RoundTrips
  capnpRPCTransaction : K.capnpRPCTransaction.RoundTrips
  capnpTxResult : K.capnpTxResult.RoundTrips
  capnpTracePayload : K.capnpTracePayload.RoundTrips

/-- What is assumed of the JSON form of a block's logs: decoding inverts encoding, and
the encoding is a text that starts with an ASCII character. -/
structure KVCodec.JsonLaws (K : KVCodec) : Prop where
  blockLogs : K.jsonBlockLogs.RoundTrips
  ascii : ∀ groups, ∀ b ∈ (K.jsonBlockLogs.marshal groups).head?, b < 0x80

/-- The first bytes of a Cap'n Proto payload. -/
def kvCapnpMagic : Bytes := [0x89, 0x65, 0x67, 0x63, 0x70, 0x31, 0x0d, 0x0a]

/-- Read a payload: behind the tag as a record, otherwise in its older form. -/
def readPayload {ρ α : Type} (capnp : Wire Err ρ) (ofRecord : ρ → α)
    (legacy : Bytes → Except Err α) (bz : Bytes) : Except Err α :=
  match untag kvCapnpMagic bz with
  | some msg => (capnp.unmarshal msg).map ofRecord
  | none => legacy bz

/-! ## Field setters and getters -/

/-- Setting a text. -/
def setText (s : String) : Option String := if s = "" then none else some s

def hexutilBigBytes (v : Option ℤ) : Option Bytes := v.map fun n => bigBytes n.natAbs

def setHashes (hs : List Hash) : Option (List (Option Bytes)) := some (hs.map fun h => some h.bytes)

def hashes (p : Option (List (Option Bytes))) : List Hash :=
  (p.getD []).map fun bz => bytesToHash (bz.getD [])

def hashOrZero (p : Option Bytes) : Hash := (p.map bytesToHash).getD 0

def addressOrZero (p : Option Bytes) : Address := (p.map bytesToAddress).getD 0

/-! ## Logs -/

/-- The record of a log. -/
def KVCodec.setCapnpLog (K : KVCodec) (log : RPCLog) : CapnpLog where
  address := some log.address.bytes
  topics := setHashes log.topics
  data := K.slice log.data
  blockNumber := log.blockNumber
  txHash := some log.txHash.bytes
  txIndex := log.txIndex
  blockHash := some log.blockHash.bytes
  index := log.index
  removed := log.removed
  isVirtual := log.isVirtual
  cosmosHash := log.cosmosHash.map Hash.bytes
  cosmosMsgIndex := log.cosmosMsgIndex.getD 0
  cosmosMsgIndexPresent := log.cosmosMsgIndex.isSome

/-- The log of a record. -/
def capnpLogToRPC (src : CapnpLog) : RPCLog where
  address := addressOrZero src.address
  topics := hashes src.topics
  data := src.data.getD []
  blockNumber := src.blockNumber
  txHash := hashOrZero src.txHash
  txIndex := src.txIndex
  blockHash := hashOrZero src.blockHash
  index := src.index
  removed := src.removed
  isVirtual := src.isVirtual
  cosmosHash := src.cosmosHash.map bytesToHash
  cosmosMsgIndex := flagged src.cosmosMsgIndexPresent src.cosmosMsgIndex

/-- Whether the record of a log passes a filter. -/
def capnpLogMatches (src : CapnpLog) (addresses : List Address) (topics : List (List Hash)) :
    Bool :=
  let addressMatches :=
    if addresses.isEmpty then true
    else
      match src.address with
      | none => false
      | some bz => addresses.any fun candidate => bytesToAddress bz == candidate
  let topicsMatch :=
    if topics.isEmpty then true
    else
      match src.topics with
      | none => false
      | some ctopics =>
        if topics.length > ctopics.length then false
        else (topics.zip ctopics).all fun (sub, bz) =>
          if sub.isEmpty then true
          else sub.any fun candidate => bytesToHash (bz.getD []) == candidate
  addressMatches && topicsMatch

def KVCodec.mustMarshalBlockLogs (K : KVCodec) (groups : List (List RPCLog)) : Bytes :=
  K.capnpBlockLogs.tagged kvCapnpMagic
    { groups := some (groups.map fun logs => { logs := some (logs.map K.setCapnpLog) }) }

def capnpBlockLogsToRPC (root : CapnpBlockLogs) : List (List RPCLog) :=
  match root.groups with
  | none => []
  | some cgroups => cgroups.map fun group =>
    match group.logs with
    | none => []
    | some clogs => clogs.map capnpLogToRPC

def KVCodec.unmarshalBlockLogsPayload (K : KVCodec) : Bytes → Except Err (List (List RPCLog)) :=
  readPayload K.capnpBlockLogs capnpBlockLogsToRPC K.jsonBlockLogs.unmarshal

/-- The logs of a record that pass a filter, in order. -/
def capnpFilteredLogs (addresses : List Address) (topics : List (List Hash))
    (root : CapnpBlockLogs) : List RPCLog :=
  match root.groups with
  | none => []
  | some cgroups => cgroups.flatMap fun group =>
    match group.logs with
    | none => []
    | some clogs => clogs.filterMap fun src =>
      if capnpLogMatches src addresses topics then some (capnpLogToRPC src) else none

/-- Decode only the logs of a block that pass a filter.  Records are filtered before
they are decoded, older payloads after. -/
def KVCodec.unmarshalFilteredBlockLogsPayload (K : KVCodec) (addresses : List Address)
    (topics : List (List Hash)) : Bytes → Except Err (List RPCLog) :=
  readPayload K.capnpBlockLogs (capnpFilteredLogs addresses topics) fun bz =>
    (K.jsonBlockLogs.unmarshal bz).map fun groups =>
      groups.flatMap fun group => group.filter fun log => logMatches log addresses topics

/-! ## Header data -/

/-- Encode the header data of a block. -/
def KVCodec.mustMarshalBlockMeta (K : KVCodec) (m : CachedBlockMeta) : Bytes :=
  K.capnpBlockMeta.tagged kvCapnpMagic
    { height := m.height
      hash := setText m.hash
      parentHash := setText m.parentHash
      stateRoot := setText m.stateRoot
      miner := setText m.miner
      timestamp := m.timestamp
      size := m.size
      gasLimit := m.gasLimit
      gasUsed := m.gasUsed
      ethTxCount := m.ethTxCount
      txCount := m.txCount
      bloom := setText m.bloom
      transactionsRoot := setText m.transactionsRoot
      baseFee := setText m.baseFee
      virtualizedCosmosEvents := m.virtualizedCosmosEvents }

/-- The header data of a record. -/
def capnpBlockMetaToCached (root : CapnpBlockMeta) : CachedBlockMeta where
  height := root.height
  hash := root.hash.getD ""
  parentHash := root.parentHash.getD ""
  stateRoot := root.stateRoot.getD ""
  miner := root.miner.getD ""
  timestamp := root.timestamp
  size := root.size
  gasLimit := root.gasLimit
  gasUsed := root.gasUsed
  ethTxCount := root.ethTxCount
  txCount := root.txCount
  bloom := root.bloom.getD ""
  transactionsRoot := root.transactionsRoot.getD ""
  baseFee := root.baseFee.getD ""
  virtualizedCosmosEvents := root.virtualizedCosmosEvents

/-- Decode the header data of a block. -/
def KVCodec.unmarshalBlockMetaPayload (K : KVCodec) : Bytes → Except Err CachedBlockMeta :=
  readPayload K.capnpBlockMeta capnpBlockMetaToCached K.jsonBlockMeta.unmarshal

/-! ## Receipts -/

/-- The bytes of a quantity given as text.  The text is read as a number of at most
256 bits. -/
def setHexBigData (raw : String) : Except Err Bytes :=
  match decodeQuantity raw with
  | .ok n => .ok (bigBytes n)
  | .error e => .error (.panic s!"decode hex big \"{raw}\": {e}")

def setEffectiveGasPrice (raw : String) : Except Err (Option Bytes) :=
  if raw = "" then .ok none else (setHexBigData raw).map some

def KVCodec.receiptRecord (K : KVCodec) (receipt : CachedReceipt)
    (effectiveGasPrice : Option Bytes) : CapnpReceipt where
  status := receipt.status
  cumulativeGasUsed := receipt.cumulativeGasUsed
  gasUsed := receipt.gasUsed
  reason := receipt.reason.bind setText
  reasonPresent := receipt.reason.isSome
  vmError := receipt.vmError.bind setText
  vmErrorPresent := receipt.vmError.isSome
  logsBloom := some (fromHex receipt.logsBloom)
  logs := some (receipt.logs.map K.setCapnpLog)
  transactionHash := some (hexToHash receipt.transactionHash).bytes
  contractAddress := receipt.contractAddress.map fun a => (hexToAddress a).bytes
  blockHash := some (hexToHash receipt.blockHash).bytes
  blockNumber := receipt.blockNumber
  transactionIndex := receipt.transactionIndex
  effectiveGasPrice := effectiveGasPrice
  effectiveGasPricePresent := receipt.effectiveGasPrice ≠ ""
  sender := some (hexToAddress receipt.sender).bytes
  toAddr := receipt.toAddr.map fun a => (hexToAddress a).bytes
  type := receipt.type

/-- Encode a receipt. -/
def KVCodec.mustMarshalReceipt (K : KVCodec) (receipt : CachedReceipt) : Except Err Bytes := do
  let effectiveGasPrice ← setEffectiveGasPrice receipt.effectiveGasPrice
  return K.capnpReceipt.tagged kvCapnpMagic (K.receiptRecord receipt effectiveGasPrice)

/-- The receipt of a record; a text that was not set is empty. -/
def capnpReceiptToCached (E : Env) (root : CapnpReceipt) : CachedReceipt where
  status := root.status
  cumulativeGasUsed := root.cumulativeGasUsed
  gasUsed := root.gasUsed
  reason := flagged root.reasonPresent (root.reason.getD "")
  vmError := flagged root.vmErrorPresent (root.vmError.getD "")
  logsBloom := (root.logsBloom.map hexutilEncode).getD ""
  logs := (root.logs.map fun clogs => clogs.map capnpLogToRPC).getD []
  transactionHash := (root.transactionHash.map fun bz => (bytesToHash bz).hex).getD ""
  contractAddress := root.contractAddress.map fun bz => E.addressHex (bytesToAddress bz)
  blockHash := (root.blockHash.map fun bz => (bytesToHash bz).hex).getD ""
  blockNumber := root.blockNumber
  transactionIndex := root.transactionIndex
  effectiveGasPrice :=
    ((bigField root.effectiveGasPricePresent root.effectiveGasPrice).map encodeQuantity).getD ""
  sender := (root.sender.map fun bz => E.addressHex (bytesToAddress bz)).getD ""
  toAddr := root.toAddr.map fun bz => E.addressHex (bytesToAddress bz)
  type := root.type

/-- Decode a receipt. -/
def KVCodec.unmarshalReceiptPayload (E : Env) (K : KVCodec) : Bytes → Except Err CachedReceipt :=
  readPayload K.capnpReceipt (capnpReceiptToCached E) K.jsonReceipt.unmarshal

/-! ## Transactions -/

/-- Encode a transaction. -/
def KVCodec.mustMarshalRPCTransaction (K : KVCodec) (tx : PointerTransaction) : Bytes :=
  K.capnpRPCTransaction.tagged kvCapnpMagic
    { blockHash := tx.blockHash.map Hash.bytes
      blockNumber := hexutilBigBytes tx.blockNumber
      blockNumberPresent := tx.blockNumber.isSome
      sender := some tx.sender.bytes
      gas := tx.gas
      gasPrice := hexutilBigBytes tx.gasPrice
      gasPricePresent := tx.gasPrice.isSome
      gasFeeCap := hexutilBigBytes tx.gasFeeCap
      gasFeeCapPresent := tx.gasFeeCap.isSome
      gasTipCap := hexutilBigBytes tx.gasTipCap
      gasTipCapPresent := tx.gasTipCap.isSome
      hash := some tx.hash.bytes
      input := K.slice tx.input
      nonce := tx.nonce
      toAddr := tx.toAddr.map Address.bytes
      transactionIndex := tx.transactionIndex.getD 0
      transactionIndexPresent := tx.transactionIndex.isSome
      value := hexutilBigBytes tx.value
      valuePresent := tx.value.isSome
      type := tx.type
      accesses := tx.accesses.map fun accesses => accesses.map fun (address, storageKeys) =>
        { address := some address.bytes, storageKeys := setHashes storageKeys }
      accessesPresent := tx.accesses.isSome
      chainId := hexutilBigBytes tx.chainID
      chainIdPresent := tx.chainID.isSome
      v := hexutilBigBytes tx.v
      vPresent := tx.v.isSome
      r := hexutilBigBytes tx.r
      rPresent := tx.r.isSome
      s := hexutilBigBytes tx.s
      sPresent := tx.s.isSome
      isVirtual := tx.isVirtual
      cosmosHash := tx.cosmosHash.map Hash.bytes
      cosmosMsgIndex := tx.cosmosMsgIndex.getD 0
      cosmosMsgIndexPresent := tx.cosmosMsgIndex.isSome }

def capnpAccesses (present : Bool) (p : Option (List CapnpAccessTuple)) : Option AccessList :=
  if present || p.isSome then
    some ((p.getD []).map fun src => (addressOrZero src.address, hashes src.storageKeys))
  else none

/-- The transaction of a record. -/
def capnpTransactionToRPC (root : CapnpRPCTransaction) : PointerTransaction where
  blockHash := root.blockHash.map bytesToHash
  blockNumber := bigField root.blockNumberPresent root.blockNumber
  sender := addressOrZero root.sender
  gas := root.gas
  gasPrice := bigField root.gasPricePresent root.gasPrice
  gasFeeCap := bigField root.gasFeeCapPresent root.gasFeeCap
  gasTipCap := bigField root.gasTipCapPresent root.gasTipCap
  hash := hashOrZero root.hash
  input := root.input.getD []
  nonce := root.nonce
  toAddr := root.toAddr.map bytesToAddress
  transactionIndex := flagged root.transactionIndexPresent root.transactionIndex
  value := bigField root.valuePresent root.value
  type := root.type
  accesses := capnpAccesses root.accessesPresent root.accesses
  chainID := bigField root.chainIdPresent root.chainId
  v := bigField root.vPresent root.v
  r := bigField root.rPresent root.r
  s := bigField root.sPresent root.s
  isVirtual := root.isVirtual
  cosmosHash := root.cosmosHash.map bytesToHash
  cosmosMsgIndex := flagged root.cosmosMsgIndexPresent root.cosmosMsgIndex

/-- Decode a transaction. -/
def KVCodec.unmarshalRPCTransactionPayload (K : KVCodec) : Bytes → Except Err PointerTransaction :=
  readPayload K.capnpRPCTransaction capnpTransactionToRPC K.jsonRPCTransaction.unmarshal

/-! ## Indexed results -/

def KVCodec.mustMarshalTxResult (K : KVCodec) (tx : TxResult) : Bytes :=
  K.capnpTxResult.tagged kvCapnpMagic
    { height := tx.height
      txIndex := tx.txIndex
      msgIndex := tx.msgIndex
      ethTxIndex := tx.ethTxIndex
      failed := tx.failed
      gasUsed := tx.gasUsed
      cumulativeGasUsed := tx.cumulativeGasUsed }

def capnpTxResultToResult (root : CapnpTxResult) : TxResult where
  height := root.height
  txIndex := root.txIndex
  msgIndex := root.msgIndex
  ethTxIndex := root.ethTxIndex
  failed := root.failed
  gasUsed := root.gasUsed
  cumulativeGasUsed := root.cumulativeGasUsed

/-- Decode an indexed result. -/
def KVCodec.unmarshalTxResultPayload (K : KVCodec) : Bytes → Except Err TxResult :=
  readPayload K.capnpTxResult capnpTxResultToResult K.protoTxResult.unmarshal

/-! ## Traces -/

/-- Encode a trace. -/
def KVCodec.mustMarshalTracePayload (K : KVCodec) (raw : Bytes) : Bytes :=
  K.capnpTracePayload.tagged kvCapnpMagic { raw := K.slice raw }

/-- Decode a trace; an older payload is the trace itself. -/
def KVCodec.unmarshalTracePayload (K : KVCodec) : Bytes → Except Err Bytes :=
  readPayload K.capnpTracePayload (fun root => root.raw.getD []) .ok

end EvmGateway
