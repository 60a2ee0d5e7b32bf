import EvmGateway.Indexer.Store
import EvmGateway.Rpc.Normalize

/-!
# Indexing a block

`indexBlockWithStats` turns one block and its results into a batch of writes and
commits it together with the deletes of whatever the height held before.  The loop
over the transactions threads the two positions (Ethereum and visible), the log
index and the gas sums; the batch is committed only at the end, so a failure leaves
the store alone.

A panic anywhere in the loop is recovered into an error by the source, which is why
panics are ordinary errors here.

## Main definitions

* `resetBlock` — the deletes of a height.
* `indexEthMsg`, `indexTx`, `buildBlock` — the loop, from the inside out.
* `indexBlockWithStats`, `deleteBlock` — the two entry points.
-/

namespace EvmGateway

open Lib

/-- The settings of an indexer. -/
structure KVIndexer where
  cachedGasLimit : UInt64 := 0
  virtualizationEnabled : Bool := false
  virtualChainID : Option ℤ := none
  deriving DecidableEq

def newBlockParseError (cause : Option Err) (message : String) : Err :=
  match cause with
  | none => ⟨.blockParse, message⟩
  | some e => ⟨.blockParse, s!"{message}: {e.message}"⟩

/-- Report the error of a computation as a block parse error.  A panic is not one: it is recovered
where the block is indexed, and returned as it is. -/
def orBlockParseError {α : Type} (x : Except Err α) (message : String) : Except Err α :=
  x.mapError fun e => if e.kind = .panic then e else newBlockParseError (some e) message

/-! ## Deleting a height -/

/-- The keys deleted with a transaction hash of the Ethereum index. -/
def ethHashKeys (hash : Hash) : List Key :=
  [.txHash hash, .receipt hash, .rpcTxHash hash, .virtualRPCtx hash]

/-- The keys deleted with a transaction hash of the visible index. -/
def rpcHashKeys (hash : Hash) : List Key :=
  [.receipt hash, .rpcTxHash hash, .virtualRPCtx hash]

/-- The keys of the cached traces of a block and of its Ethereum transactions. -/
def traceKeysForBlock (db : DB) (height : ℕ) (txHashes : List Hash) : List Key :=
  (txHashes.flatMap fun hash => (db.traceTxConfigs hash).map (.traceTx hash)) ++
    (db.traceBlockConfigs height).map (.traceBlock height)

def resetKeys (db : DB) (height : ℕ) : List Key :=
  ((db.get? (.blockMeta height)).toList.map fun m => Key.blockHash (hexToHash m.hash)) ++
    ((db.txIndexEntries height).flatMap fun e => .txIndex height e.1 :: ethHashKeys e.2) ++
    traceKeysForBlock db height ((db.txIndexEntries height).map Prod.snd) ++
    ((db.rpcTxIndexEntries height).flatMap fun e => rpcHashKeys e.2 ++ [.rpcTxIndex height e.1]) ++
    [.blockLogs height, .blockMeta height]

def resetBlock (db : DB) (height : ℕ) : DBBatch := (resetKeys db height).map Write.delete

/-! ## Records of one transaction -/

def buildCachedReceipt (E : Env) (status : ℕ) (cumulativeGasUsed gasUsed : UInt64)
    (reason vmError : String) (logs : List RPCLog) (txHash : Hash)
    (contractAddress : Option Address) (blockHash : Hash) (blockNumber transactionIndex : ℕ)
    (effectiveGasPrice : ℤ) (sender : Address) (toAddr : Option Address) (txType : ℕ) :
    CachedReceipt where
  status := status
  cumulativeGasUsed := cumulativeGasUsed
  gasUsed := gasUsed
  reason := optionalText reason
  vmError := optionalText vmError
  logsBloom := hexutilEncode (virtualLogsBloom E logs)
  logs := logs
  transactionHash := txHash.hex
  contractAddress := contractAddress.map E.addressHex
  blockHash := blockHash.hex
  blockNumber := blockNumber
  transactionIndex := transactionIndex
  effectiveGasPrice := encodeQuantity effectiveGasPrice
  sender := E.addressHex sender
  toAddr := toAddr.map E.addressHex
  type := txType

def receiptEffectiveGasPrice (E : Env) (tx : EthTransaction) (baseFee : Option ℤ) : ℤ :=
  match baseFee with
  | none => tx.gasPrice
  | some fee =>
    if tx.type ≠ dynamicFeeTxType then tx.gasPrice
    else E.effectiveGasPrice fee tx.gasFeeCap tx.gasTipCap

/-- Encoding a receipt panics when its gas price does not read back as a number. -/
def mustMarshalReceipt (receipt : CachedReceipt) : Except Err CachedReceipt :=
  match decodeQuantity receipt.effectiveGasPrice with
  | .ok _ => .ok receipt
  | .error e => .error (.panic s!"decode hex big \"{receipt.effectiveGasPrice}\": {e}")

def cachedVirtualReceipt (E : Env) (receipt : VirtualReceipt) : CachedReceipt :=
  buildCachedReceipt E receipt.status receipt.cumulativeGasUsed receipt.gasUsed receipt.reason
    receipt.vmError receipt.logs receipt.transactionHash none receipt.blockHash receipt.blockNumber
    receipt.transactionIndex 0 receipt.sender receipt.toAddr receipt.type

/-- The writes of a synthesised transaction. -/
def saveVirtualTx (E : Env) (height : ℕ) (tx : VirtualTx) : DBBatch :=
  let txHash := tx.transaction.hash
  [.set (.receipt txHash) (cachedVirtualReceipt E tx.receipt),
   .set (.rpcTxHash txHash) tx.transaction,
   .set (.virtualRPCtx txHash) (),
   .set (.rpcTxIndex height tx.receipt.transactionIndex) txHash]

def saveTxResult (txHash : Hash) (txResult : TxResult) : DBBatch :=
  [.set (.txHash txHash) txResult, .set (.txIndex txResult.height txResult.ethTxIndex) txHash]

/-- Whether a transaction is an Ethereum one: it has the one extension option. -/
def isEthTx (tx : SdkTx) : Bool :=
  tx.extensionOptions == some ["/injective.evm.v1.ExtensionOptionsEthereumTx"]

/-! ## The loop -/

/-- The local variables of the indexing loop. -/
structure IndexState where
  batch : DBBatch := []
  flatLogs : List RPCLog := []
  blockLogs : List (List RPCLog) := []
  logIndex : ℕ := 0
  blockGasUsed : UInt64 := 0
  blockResultGasUsedBeforeTx : UInt64 := 0
  ethTxIndex : ℕ := 0
  rpcTxIndex : ℕ := 0
  visibleRPCTxHashes : List Hash := []
  indexedEthTxs : ℕ := 0

/-- The identity of the next logs of a transaction. -/
def IndexState.virtualLogContext (st : IndexState) (block : Block) (txHash : Hash) (txIndex : ℕ) :
    LogContext where
  blockHash := block.ethHash
  blockNumber := block.height
  txHash := txHash
  txIndex := txIndex
  firstLogIndex := st.logIndex

/-- Store a synthesised transaction at the next visible position. -/
def IndexState.storeVirtualTx (E : Env) (kv : KVIndexer) (block : Block) (st : IndexState)
    (tx : VirtualTx) : IndexState :=
  { st with
    logIndex := st.logIndex + tx.receipt.logs.length
    batch := st.batch ++ saveVirtualTx E block.height tx
    visibleRPCTxHashes :=
      if kv.virtualizationEnabled then st.visibleRPCTxHashes ++ [tx.transaction.hash]
      else st.visibleRPCTxHashes
    blockLogs := st.blockLogs ++ [tx.receipt.logs]
    flatLogs := st.flatLogs ++ tx.receipt.logs
    rpcTxIndex := st.rpcTxIndex + 1 }

/-- What is known about one Ethereum message from its result. -/
structure EthOutcome where
  txHash : Hash
  gasUsed : UInt64
  failed : Bool
  reason : String
  vmError : String
  deriving DecidableEq

/-- The outcome of a message.  A failure outside the EVM is charged the gas limit; in
all other cases the parsed result of the message decides. -/
def ethMsgOutcome (E : Env) (block : Block) (result : ExecTxResult) (txs : ParsedTxs)
    (txIndex msgIndex ethTxIndex : ℕ) (ethMsg : MsgEthereumTx) : Except Err EthOutcome :=
  if result.code ≠ codeTypeOK ∧ result.codespace ≠ E.moduleName then
    .ok { txHash := ethMsg.hash, gasUsed := ethMsg.gas, failed := true, reason := "", vmError := "" }
  else
    match txs.getTxByMsgIndex msgIndex with
    | none =>
      .error (newBlockParseError none
        (s!"block {block.height} txIndex {txIndex} msgIndex {msgIndex}: " ++
          "msg index not found in results"))
    | some parsedTx =>
      if parsedTx.ethTxIndex ≥ 0 ∧ parsedTx.ethTxIndex ≠ ethTxIndex then
        .error (newBlockParseError none
          (s!"block {block.height} txIndex {txIndex} msgIndex {msgIndex}: " ++
            s!"eth tx index mismatch (expected={ethTxIndex} found={parsedTx.ethTxIndex})"))
      else
        .ok { txHash := parsedTx.hash, gasUsed := parsedTx.gasUsed, failed := parsedTx.failed
              reason := parsedTx.reason, vmError := parsedTx.vmError }

/-- The logs a message emitted itself. -/
def ethMsgLogs (E : Env) (block : Block) (result : ExecTxResult) (txIndex msgIndex : ℕ)
    (failed : Bool) : Except Err (List RPCLog) :=
  if result.data ≠ [] then do
    let evmLogs ← orBlockParseError (E.decodeMsgLogs result.data msgIndex block.height)
      s!"block {block.height} txIndex {txIndex} msgIndex {msgIndex}: failed to decode msg logs"
    return wrapLogs evmLogs false none
  else if !failed then
    .error (newBlockParseError none
      s!"block {block.height} txIndex {txIndex} msgIndex {msgIndex}: missing tx response data")
  else .ok []

def receiptStatus (failed : Bool) : ℕ :=
  if failed then receiptStatusFailed else receiptStatusSuccessful

/-- The visible position of the next transaction, which is also the number of visible
transactions so far. -/
def IndexState.visibleTxCount (st : IndexState) (kv : KVIndexer) : ℕ :=
  if kv.virtualizationEnabled then st.rpcTxIndex else st.ethTxIndex

/-- The logs of an Ethereum message: its own, and with virtualisation the virtual logs
of its events after them, all with their final identity. -/
def IndexState.messageLogs (st : IndexState) (kv : KVIndexer) (block : Block)
    (response : Option Response) (txHash : Hash) (msgIndex totalMessages : ℕ)
    (own : List RPCLog) : List RPCLog :=
  match response with
  | none => own
  | some response =>
    let logs := setLogMetadata own (st.virtualLogContext block txHash (st.visibleTxCount kv))
    let ctx := { st with logIndex := st.logIndex + logs.length }.virtualLogContext block txHash
      (st.visibleTxCount kv)
    logs ++ response.logsForMessage msgIndex totalMessages ctx

def createdContract (E : Env) (tx : EthTransaction) (sender : Address) : Option Address :=
  match tx.toAddr with
  | none => some (E.createAddress sender tx.nonce)
  | some _ => none

/-- The receipt of an Ethereum message.  `ethGasUsed` is the gas of the Ethereum
messages of the transaction up to and including this one. -/
def IndexState.ethReceipt (E : Env) (kv : KVIndexer) (block : Block) (baseFee : Option ℤ)
    (st : IndexState) (out : EthOutcome) (txData : EthTransaction) (sender : Address)
    (logs : List RPCLog) (ethGasUsed : UInt64) : CachedReceipt :=
  buildCachedReceipt E (receiptStatus out.failed) (st.blockResultGasUsedBeforeTx + ethGasUsed)
    out.gasUsed out.reason out.vmError logs out.txHash (createdContract E txData sender)
    block.ethHash block.height (st.visibleTxCount kv) (receiptEffectiveGasPrice E txData baseFee)
    sender txData.toAddr txData.type

/-- Index one Ethereum message.  The state is paired with the gas used by the
Ethereum messages of the transaction so far. -/
def indexEthMsg (E : Env) (kv : KVIndexer) (block : Block) (baseFee : Option ℤ)
    (result : ExecTxResult) (txs : ParsedTxs) (response : Option Response)
    (txIndex totalMessages msgIndex : ℕ) (ethMsg : MsgEthereumTx) (st : IndexState)
    (ethGasUsed : UInt64) : Except Err (IndexState × UInt64) := do
  let out ← ethMsgOutcome E block result txs txIndex msgIndex st.ethTxIndex ethMsg
  let ethGasUsed := ethGasUsed + out.gasUsed
  let txResult : TxResult :=
    { height := block.height
      txIndex := txIndex
      msgIndex := msgIndex
      ethTxIndex := st.ethTxIndex
      failed := out.failed
      gasUsed := out.gasUsed
      cumulativeGasUsed := ethGasUsed }
  let some txData := ethMsg.asTransaction
    | throw (newBlockParseError none
        (s!"block {block.height} txIndex {txIndex} msgIndex {msgIndex}: " ++
          "failed to unpack eth tx data"))
  let own ← ethMsgLogs E block result txIndex msgIndex out.failed
  let logs := st.messageLogs kv block response out.txHash msgIndex totalMessages own
  let sender ← orBlockParseError (E.getSenderLegacy ethMsg txData.signer)
    (s!"block {block.height} txIndex {txIndex} msgIndex {msgIndex} txHash {out.txHash.hex}: " ++
      "failed to derive tx sender")
  let receipt ← mustMarshalReceipt (st.ethReceipt E kv block baseFee out txData sender logs
    ethGasUsed)
  let rpcTx ← orBlockParseError (newRPCTransaction E ethMsg block.ethHash block.height
      (st.visibleTxCount kv) baseFee (some txData.chainID))
    (s!"block {block.height} txIndex {txIndex} msgIndex {msgIndex} txHash {out.txHash.hex}: " ++
      "failed to build rpc tx")
  let rpcTx := { rpcTx with hash := out.txHash }
  return ({ st with
    batch := st.batch ++ (saveTxResult out.txHash txResult ++
      [.set (.receipt out.txHash) receipt,
       .set (.rpcTxHash out.txHash) rpcTx,
       .set (.rpcTxIndex block.height (st.visibleTxCount kv)) out.txHash])
    logIndex := if kv.virtualizationEnabled then st.logIndex + logs.length else st.logIndex
    visibleRPCTxHashes :=
      if kv.virtualizationEnabled then st.visibleRPCTxHashes ++ [out.txHash]
      else st.visibleRPCTxHashes
    blockLogs := st.blockLogs ++ [logs]
    flatLogs := st.flatLogs ++ logs
    indexedEthTxs := st.indexedEthTxs + 1
    ethTxIndex := st.ethTxIndex + 1
    rpcTxIndex := st.rpcTxIndex + 1 }, ethGasUsed)

/-- Index the messages of an Ethereum transaction; other messages are skipped. -/
def indexMsgs (E : Env) (kv : KVIndexer) (block : Block) (baseFee : Option ℤ)
    (result : ExecTxResult) (txs : ParsedTxs) (response : Option Response) (txIndex : ℕ)
    (msgs : List Msg) (st : IndexState) : Except Err (IndexState × UInt64) :=
  forIdx (fun msgIndex msg (s : IndexState × UInt64) =>
    match msg.ethereum? with
    | none => .ok s
    | some ethMsg =>
      indexEthMsg E kv block baseFee result txs response txIndex msgs.length msgIndex ethMsg s.1 s.2)
    0 msgs (st, 0)

/-- The positions of the Ethereum messages of a transaction. -/
def ethMsgIndexes (msgs : List Msg) : List ℕ :=
  msgs.zipIdx.filterMap fun (msg, i) => msg.ethereum?.map fun _ => i

def IndexState.txContext (st : IndexState) (kv : KVIndexer) (block : Block) (rawTx : Bytes)
    (msgs : List Msg) (ethereumGasUsed : UInt64) : TxContext where
  tx := rawTx
  ethereumMessageIndexes := ethMsgIndexes msgs
  ethereumGasUsed := ethereumGasUsed
  totalMessages := msgs.length
  blockHash := block.ethHash
  blockNumber := block.height
  txIndex := st.rpcTxIndex
  firstLogIndex := st.logIndex
  cumulativeGasUsedBefore := st.blockResultGasUsedBeforeTx
  chainID := kv.virtualChainID

def indexSyntheticTxs (E : Env) (kv : KVIndexer) (block : Block) (response : Option Response)
    (txIndex : ℕ) (rawTx : Bytes) (msgs : List Msg) (ethereumGasUsed : UInt64) (st : IndexState) :
    Except Err IndexState :=
  match response with
  | none => .ok st
  | some response => do
    let virtualTxs ← orBlockParseError
      (response.syntheticTxs E (st.txContext kv block rawTx msgs ethereumGasUsed))
      s!"block {block.height} txIndex {txIndex}: failed to build virtual transaction"
    return virtualTxs.foldl (IndexState.storeVirtualTx E kv block) st

def IndexState.addGas (st : IndexState) (gasUsed : UInt64) : IndexState :=
  { st with
    blockGasUsed := st.blockGasUsed + gasUsed
    blockResultGasUsedBeforeTx := st.blockResultGasUsedBeforeTx + gasUsed }

def virtualResponse (E : Env) (kv : KVIndexer) (block : Block) (txIndex : ℕ)
    (result : ExecTxResult) : Except Err (Option Response) :=
  if kv.virtualizationEnabled then
    some <$> orBlockParseError (parseResponse E result)
      s!"block {block.height} txIndex {txIndex}: failed to parse virtual events"
  else .ok none

def indexTx (E : Env) (kv : KVIndexer) (block : Block) (baseFee : Option ℤ)
    (txResults : List (Option ExecTxResult)) (txIndex : ℕ) (rawTx : Bytes) (st : IndexState) :
    Except Err IndexState :=
  match txResults[txIndex]? with
  | none =>
    .error (newBlockParseError none
      (s!"block {block.height} txIndex {txIndex}: tx results shorter than block tx list " ++
        s!"(txCount={block.txs.length} txResultCount={txResults.length})"))
  | some none =>
    .error (newBlockParseError none s!"block {block.height} txIndex {txIndex}: missing tx result")
  | some (some result) => do
    let tx ← orBlockParseError (E.txDecoder rawTx)
      s!"block {block.height} txIndex {txIndex}: failed to decode tx"
    let response ← virtualResponse E kv block txIndex result
    if isEthTx tx then
      let txs ← orBlockParseError (parseTxResult E result (some tx))
        s!"block {block.height} txIndex {txIndex}: failed to parse tx result"
      let (st, ethGasUsed) ← indexMsgs E kv block baseFee result txs response txIndex tx.msgs st
      let st ← indexSyntheticTxs E kv block response txIndex rawTx tx.msgs ethGasUsed st
      return st.addGas result.gasUsed.toUInt64
    else
      let st ← indexSyntheticTxs E kv block response txIndex rawTx tx.msgs 0 st
      return st.addGas result.gasUsed.toUInt64

/-! ## The whole block -/

def blockBaseFeeFromResults (E : Env) (results : Option BlockResults) : Option ℤ :=
  results.bind fun r => baseFeeFromEvents E r.finalizeBlockEvents

def blockTxResults (results : Option BlockResults) : List (Option ExecTxResult) :=
  (results.map (·.txResults)).getD []

/-- A base fee as text, empty when there is none. -/
def encodeOptionalBig (v : Option ℤ) : String := (v.map encodeQuantity).getD ""

def visibleRPCTxsRoot (E : Env) (txHashes : List Hash) : Hash :=
  if txHashes.isEmpty then E.emptyRootHash else bytesToHash (E.merkleRoot (txHashes.map Hash.bytes))

/-- The logs of the block phases; none without virtualisation. -/
def blockPhaseLogs (E : Env) (kv : KVIndexer) (block : Block) (results : Option BlockResults) :
    Except Err (List EthLog × List EthLog) :=
  match results with
  | some r =>
    if kv.virtualizationEnabled then
      orBlockParseError (splitBlockEvents E r.finalizeBlockEvents)
        s!"block {block.height}: failed to parse finalize virtual events"
    else .ok ([], [])
  | none => .ok ([], [])

def IndexState.storeBlockPhase (E : Env) (kv : KVIndexer) (block : Block) (hash : Hash)
    (logs : List EthLog) (cumulativeGasUsed : UInt64) (st : IndexState) : IndexState :=
  if logs.isEmpty then st
  else st.storeVirtualTx E kv block (newBlockTx hash logs
    (st.virtualLogContext block hash st.rpcTxIndex) kv.virtualChainID cumulativeGasUsed)

def IndexState.transactionsRoot (E : Env) (kv : KVIndexer) (block : Block) (st : IndexState) :
    Except Err String :=
  if st.visibleTxCount kv > 0 then
    if kv.virtualizationEnabled then
      if st.visibleRPCTxHashes.length ≠ st.visibleTxCount kv then
        .error (newBlockParseError none
          (s!"block {block.height}: visible rpc tx root count mismatch " ++
            s!"(expected={st.visibleTxCount kv} found={st.visibleRPCTxHashes.length})"))
      else .ok (visibleRPCTxsRoot E st.visibleRPCTxHashes).hex
    else .ok (bytesToHash block.dataHash).hex
  else .ok E.emptyRootHash.hex

def IndexState.blockMeta (E : Env) (kv : KVIndexer) (block : Block) (baseFee : Option ℤ)
    (transactionsRoot : String) (st : IndexState) : CachedBlockMeta where
  height := block.height
  hash := block.ethHash.hex
  parentHash := (bytesToHash block.lastBlockHash).hex
  stateRoot := hexutilEncode block.appHash
  miner := E.addressHex (bytesToAddress block.proposerAddress)
  timestamp := block.time
  size := block.size
  gasLimit := kv.cachedGasLimit
  gasUsed := st.blockGasUsed
  ethTxCount := st.visibleTxCount kv
  txCount := block.txs.length
  bloom := hexutilEncode (virtualLogsBloom E st.flatLogs)
  transactionsRoot := transactionsRoot
  baseFee := encodeOptionalBig baseFee
  virtualizedCosmosEvents := kv.virtualizationEnabled

def IndexState.closeBlock (block : Block) (m : CachedBlockMeta) (st : IndexState) : DBBatch :=
  [.set (.blockMeta block.height) m,
   .set (.blockHash block.ethHash) block.height,
   .set (.blockLogs block.height) st.blockLogs]

def buildBlock (E : Env) (kv : KVIndexer) (block : Block) (results : Option BlockResults) :
    Except Err IndexState := do
  let txResults ← orBlockParseError (normalizeTxResponseIndexes E (blockTxResults results))
    s!"block {block.height}: failed to normalize tx response indexes"
  let (beginLogs, endLogs) ← blockPhaseLogs E kv block results
  let st := IndexState.storeBlockPhase E kv block (beginBlockHash E block.height) beginLogs 0 {}
  let st ← forIdx (indexTx E kv block (blockBaseFeeFromResults E results) txResults) 0 block.txs st
  return st.storeBlockPhase E kv block (endBlockHash E block.height) endLogs
    st.blockResultGasUsedBeforeTx

def blockWrites (E : Env) (kv : KVIndexer) (block : Block) (results : Option BlockResults) :
    Except Err (DBBatch × ℕ) := do
  let st ← buildBlock E kv block results
  let root ← st.transactionsRoot E kv block
  let m := st.blockMeta E kv block (blockBaseFeeFromResults E results) root
  return (st.batch ++ st.closeBlock block m, st.indexedEthTxs)

/-- Index a block: replace whatever its height held by the records of the block. -/
def indexBlockWithStats (E : Env) (kv : KVIndexer) (db : DB) (block : Block)
    (results : Option BlockResults) : Except Err (DB × ℕ) := do
  let (writes, indexedEthTxs) ← blockWrites E kv block results
  return (applyBatch (resetBlock db block.height ++ writes) db, indexedEthTxs)

def indexBlock (E : Env) (kv : KVIndexer) (db : DB) (block : Block)
    (results : Option BlockResults) : Except Err DB :=
  Prod.fst <$> indexBlockWithStats E kv db block results

/-- Remove all indexed data of a height. -/
def deleteBlock (db : DB) (height : ℕ) : DB := applyBatch (resetBlock db height) db

/-! ## A small block -/

def sampleBlock (height : ℕ) (rawTx : Bytes) : Block where
  height := height
  hash := [UInt8.ofNat height]
  txs := [rawTx]

def sampleAnteFailed (height : ℕ) : BlockResults where
  height := height
  txResults := [some { code := 5, codespace := "sdk" }]

/-- The results of a block whose Ethereum transaction `0x01` was executed and emitted
one log without topics. -/
def sampleIncluded (height : ℕ) : BlockResults where
  height := height
  txResults := [some {
    data := [3]
    events := [⟨"ethereum_tx", [⟨"ethereumTxHash", "0x01", false⟩]⟩] }]

/-- A block with the Ethereum transactions `0x01` and `0x02`. -/
def sampleTwoTxs : Block where
  height := 1
  hash := [1]
  txs := [[1], [2]]

def sampleBankEvent : Event :=
  ⟨"coin_received", [⟨"receiver", "0x05", false⟩, ⟨"amount", "inj", false⟩]⟩

/-- A block with the Ethereum transaction `0x01` and a Cosmos transaction. -/
def sampleMixedBlock : Block where
  height := 1
  hash := [1]
  txs := [[1], [0]]

/-- Results of the mixed block: both transactions succeed and move coins. -/
def sampleMixedResults : BlockResults where
  height := 1
  txResults := [
    some {
      data := [3]
      events := [⟨"ethereum_tx", [⟨"ethereumTxHash", "0x01", false⟩]⟩, sampleBankEvent] },
    some { events := [sampleBankEvent] }]

end EvmGateway
