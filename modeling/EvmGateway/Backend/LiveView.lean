import EvmGateway.Backend.Node

/-!
# The live view of a block

With virtualisation, a block that is not in the store is rebuilt on the fly from the
node's block and results.  The loop is a second implementation of the indexing loop: it
walks the same transactions, messages and events, but it does not decode what the store
needs, it logs and goes on where the indexer gives up, and it takes the base fee from
the chain when the block does not announce one.

## Main definitions

* `liveEthMsg`, `liveTx` — the loop, from the inside out.
* `liveVirtualBlockView` — the whole block.
-/

namespace EvmGateway

open Lib

/-- The visible content of a block. -/
structure LiveView where
  transactions : List RPCTransaction := []
  receipts : List ReceiptMap := []
  logs : List (List RPCLog) := []

/-- The receipt of an Ethereum message in a live view. -/
def liveReceiptMap (E : Env) (status : ℕ) (cumulativeGasUsed gasUsed : UInt64) (logs : List RPCLog)
    (txHash : Hash) (contractAddress : Option Address) (blockHash : String)
    (blockNumber transactionIndex : ℕ) (effectiveGasPrice : ℤ) (sender : Address)
    (toAddr : Option Address) (txType : ℕ) : ReceiptMap where
  status := status
  cumulativeGasUsed := cumulativeGasUsed
  logsBloom := bytesToBloom (virtualLogsBloom E logs)
  logs := logs
  transactionHash := txHash
  contractAddress := contractAddress
  gasUsed := gasUsed
  blockHash := blockHash
  blockNumber := blockNumber
  transactionIndex := transactionIndex
  effectiveGasPrice := some effectiveGasPrice
  sender := sender
  toAddr := toAddr
  type := txType
  reason := none
  vmError := none

def effectiveGasPrice (E : Env) (tx : EthTransaction) (baseFee : Option ℤ) : ℤ :=
  if tx.type ≠ dynamicFeeTxType then tx.gasPrice
  else
    match baseFee with
    | none => tx.gasPrice
    | some fee => E.effectiveGasPrice fee tx.gasFeeCap tx.gasTipCap

/-! ## The loop -/

/-- The local variables of the loop. -/
structure LiveState where
  view : LiveView := {}
  logIndex : ℕ := 0
  rpcTxIndex : ℕ := 0
  blockResultGasUsedBeforeTx : UInt64 := 0

/-- The identity of the next logs of a transaction. -/
def LiveState.virtualLogContext (st : LiveState) (block : Block) (txHash : Hash) (txIndex : ℕ) :
    LogContext where
  blockHash := block.ethHash
  blockNumber := block.height
  txHash := txHash
  txIndex := txIndex
  firstLogIndex := st.logIndex

def LiveState.append (st : LiveState) (tx : RPCTransaction) (receipt : ReceiptMap) : LiveState :=
  { st with
    view := {
      transactions := st.view.transactions ++ [tx]
      receipts := st.view.receipts ++ [receipt]
      logs := st.view.logs ++ [receipt.logs] }
    logIndex := st.logIndex + receipt.logs.length
    rpcTxIndex := st.rpcTxIndex + 1 }

def LiveState.appendVirtualTx (E : Env) (st : LiveState) (tx : VirtualTx) : LiveState :=
  st.append tx.transaction (tx.receipt.toMap E)

def LiveState.appendBlockPhase (E : Env) (b : Backend) (block : Block) (hash : Hash)
    (logs : List EthLog) (cumulativeGasUsed : UInt64) (st : LiveState) : LiveState :=
  if logs.isEmpty then st
  else st.appendVirtualTx E (newBlockTx hash logs
    (st.virtualLogContext block hash st.rpcTxIndex) (some b.chainID) cumulativeGasUsed)

def LiveState.addGas (st : LiveState) (gasUsed : UInt64) : LiveState :=
  { st with blockResultGasUsedBeforeTx := st.blockResultGasUsedBeforeTx + gasUsed }

/-- What a live view says about the execution of a message. -/
structure LiveOutcome where
  txHash : Hash
  gasUsed : UInt64
  failed : Bool
  deriving DecidableEq

def liveMsgOutcome (E : Env) (result : ExecTxResult) (parsedTxs : Option ParsedTxs) (msgIndex : ℕ)
    (ethMsg : MsgEthereumTx) : LiveOutcome :=
  if result.code ≠ codeTypeOK ∧ result.codespace ≠ E.moduleName then
    { txHash := ethMsg.hash, gasUsed := ethMsg.gas, failed := true }
  else
    match parsedTxs with
    | none => { txHash := ethMsg.hash, gasUsed := ethMsg.gas, failed := false }
    | some txs =>
      match txs.getTxByMsgIndex msgIndex with
      | none =>
        { txHash := ethMsg.hash, gasUsed := ethMsg.gas, failed := result.code ≠ codeTypeOK }
      | some parsedTx =>
        { txHash := parsedTx.hash, gasUsed := parsedTx.gasUsed, failed := parsedTx.failed }

/-- The logs a message emitted itself; none when they cannot be decoded. -/
def liveMsgLogs (E : Env) (data : Bytes) (msgIndex height : ℕ) : List RPCLog :=
  match E.decodeMsgLogs data msgIndex height with
  | .ok evmLogs => wrapLogs evmLogs false none
  | .error _ => []

/-- The logs of an Ethereum message: its own, then the virtual logs of its events. -/
def LiveState.messageLogs (st : LiveState) (block : Block) (response : Response) (txHash : Hash)
    (msgIndex totalMessages : ℕ) (own : List RPCLog) : List RPCLog :=
  let logs := setLogMetadata own (st.virtualLogContext block txHash st.rpcTxIndex)
  let ctx := { st with logIndex := st.logIndex + logs.length }.virtualLogContext block txHash
    st.rpcTxIndex
  logs ++ response.logsForMessage msgIndex totalMessages ctx

/-- Add one Ethereum message to the view.  The state is paired with the gas used by the
Ethereum messages of the transaction so far. -/
def liveEthMsg (E : Env) (b : Backend) (block : Block) (baseFee : Option ℤ) (result : ExecTxResult)
    (parsedTxs : Option ParsedTxs) (response : Response) (totalMessages msgIndex : ℕ)
    (ethMsg : MsgEthereumTx) (st : LiveState) (ethGasUsed : UInt64) :
    Except Err (LiveState × UInt64) := do
  let some txData := ethMsg.asTransaction | throw (.plain "failed to unpack tx data")
  let out := liveMsgOutcome E result parsedTxs msgIndex ethMsg
  let ethGasUsed := ethGasUsed + out.gasUsed
  let logs := st.messageLogs block response out.txHash msgIndex totalMessages
    (liveMsgLogs E result.data msgIndex block.height)
  let sender ← E.getSenderLegacy ethMsg txData.signer
  let rpcTx ← newRPCTransaction E ethMsg block.ethHash block.height st.rpcTxIndex baseFee
    (some b.chainID)
  let receipt := liveReceiptMap E (receiptStatus out.failed)
    (st.blockResultGasUsedBeforeTx + ethGasUsed) out.gasUsed logs out.txHash
    (createdContract E txData sender) block.ethHash.hex block.height st.rpcTxIndex
    (effectiveGasPrice E txData baseFee) sender txData.toAddr txData.type
  return (st.append { rpcTx with hash := out.txHash } receipt, ethGasUsed)

def liveMsg (E : Env) (b : Backend) (block : Block) (baseFee : Option ℤ) (result : ExecTxResult)
    (parsedTxs : Option ParsedTxs) (response : Response) (totalMessages msgIndex : ℕ) (msg : Msg)
    (s : LiveState × UInt64) : Except Err (LiveState × UInt64) :=
  match msg.ethereum? with
  | none => .ok s
  | some ethMsg =>
    liveEthMsg E b block baseFee result parsedTxs response totalMessages msgIndex ethMsg s.1 s.2

/-- Add the Ethereum messages of a transaction. -/
def liveMsgs (E : Env) (b : Backend) (block : Block) (baseFee : Option ℤ) (result : ExecTxResult)
    (parsedTxs : Option ParsedTxs) (response : Response) (msgs : List Msg) (st : LiveState) :
    Except Err (LiveState × UInt64) :=
  forIdx (liveMsg E b block baseFee result parsedTxs response msgs.length) 0 msgs (st, 0)

/-- The parsed result of a transaction.  An error is logged and leaves nothing; a panic
is not recovered. -/
def liveParsedTxs (E : Env) (result : ExecTxResult) (tx : SdkTx) : Except Err (Option ParsedTxs) :=
  match parseTxResult E result (some tx) with
  | .ok txs => .ok (some txs)
  | .error e => if e.kind = .panic then .error e else .ok none

def LiveState.txContext (st : LiveState) (b : Backend) (block : Block) (rawTx : Bytes)
    (msgs : List Msg) (ethereumGasUsed : UInt64) : TxContext where
  tx := rawTx
  ethereumMessageIndexes := ethMsgIndexes msgs
  ethereumGasUsed := ethereumGasUsed
  totalMessages := msgs.length
  blockHash := block.ethHash
  blockNumber := block.height
  txIndex := st.rpcTxIndex
  firstLogIndex := st.logIndex
  cumulativeGasUsedBefore := st.blockResultGasUsedBeforeTx
  chainID := some b.chainID

/-- Add one transaction of the block to the view.  A transaction that cannot be decoded
only counts its gas. -/
def liveTx (E : Env) (b : Backend) (block : Block) (baseFee : Option ℤ)
    (txResults : List (Option ExecTxResult)) (txIndex : ℕ) (rawTx : Bytes) (st : LiveState) :
    Except Err LiveState :=
  match txResults[txIndex]? with
  | none => .error (.plain s!"block results shorter than tx list at height {block.height}")
  | some none => .error (.plain s!"missing tx result at height {block.height} index {txIndex}")
  | some (some result) =>
    match E.txDecoder rawTx with
    | .error _ => .ok (st.addGas result.gasUsed.toUInt64)
    | .ok tx => do
      let response ← parseResponse E result
      let parsedTxs ← liveParsedTxs E result tx
      let (st, ethGasUsed) ← liveMsgs E b block baseFee result parsedTxs response tx.msgs st
      let virtualTxs ← response.syntheticTxs E (st.txContext b block rawTx tx.msgs ethGasUsed)
      return (virtualTxs.foldl (LiveState.appendVirtualTx E) st).addGas result.gasUsed.toUInt64

/-- Rebuild the visible content of a block from the node's data. -/
def liveVirtualBlockView (E : Env) (b : Backend) (block : Option Block)
    (blockRes : Option BlockResults) : Except Err LiveView := do
  let some block := block | throw (.plain "tendermint block is nil")
  let some blockRes := blockRes | throw (.plain "tendermint block result is nil")
  let txResults ← normalizeTxResponseIndexes E blockRes.txResults
  let (beginLogs, endLogs) ← splitBlockEvents E blockRes.finalizeBlockEvents
  let st := LiveState.appendBlockPhase E b block (beginBlockHash E block.height) beginLogs 0 {}
  let st ← forIdx (liveTx E b block (b.baseFeeOrNil E blockRes) txResults) 0 block.txs st
  return (st.appendBlockPhase E b block (endBlockHash E block.height) endLogs
    st.blockResultGasUsedBeforeTx).view

end EvmGateway
