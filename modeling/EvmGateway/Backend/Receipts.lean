import EvmGateway.Backend.TxInfo

/-!
# Receipts

Receipts are served one by one and block by block.  Both ways read the store through the
in-memory cache of decoded receipts and fall back to the node's data: to the live view
with virtualisation, and to a loop over the Ethereum messages of the block without.

## Main definitions

* `getTransactionReceipt` — the receipt of a hash.
* `liveBlockReceipts` — the receipts of the node's block.
* `getBlockReceipts` — the receipts of a block.
-/

namespace EvmGateway

open Lib

/-! ## The store -/

/-- The receipt of a hash from memory, or else from the store. -/
def materializedReceiptByHash (db : DB) (cache : MaterializedCache) (hash : Hash) :
    Except Err ReceiptMap × MaterializedCache :=
  match cache.getReceipt hash with
  | (some receipt, cache) => (.ok receipt, cache)
  | (none, cache) =>
    match getReceiptByTxHash db hash with
    | .ok receipt => (.ok receipt, cache.addReceipt hash receipt)
    | .error e => (.error e, cache)

def materializedReceipts (db : DB) (height : ℕ) :
    List Hash → MaterializedCache → Except Err (List ReceiptMap) × MaterializedCache
  | [], cache => (.ok [], cache)
  | hash :: hashes, cache =>
    if hash = 0 then (.error (.plain s!"cached block tx hash missing for height {height}"), cache)
    else
      match materializedReceiptByHash db cache hash with
      | (.error e, cache) => (.error e, cache)
      | (.ok receipt, cache) =>
        match materializedReceipts db height hashes cache with
        | (.error e, cache) => (.error e, cache)
        | (.ok receipts, cache) => (.ok (receipt :: receipts), cache)

/-! ## Receipts without virtualisation -/

def sumGasUsed (txResults : List (Option ExecTxResult)) : Except Err UInt64 :=
  txResults.foldlM (fun sum r =>
    match r with
    | some result => .ok (sum + result.gasUsed.toUInt64)
    | none => .error (.panic "invalid memory address or nil pointer dereference")) 0

def normalizedOrPlain (E : Env) (txResults : List (Option ExecTxResult)) :
    Except Err (List (Option ExecTxResult)) := do
  let normalized ← attempt (normalizeTxResponseIndexes E txResults)
  return normalized.getD txResults

namespace Backend

def nativeReceipt (E : Env) (b : Backend) (block : Block) (blockRes : Option BlockResults)
    (res : TxResult) (ethMsg : MsgEthereumTx) (txData : EthTransaction) (hash : Hash) :
    Except Err ReceiptMap := do
  let some blockRes := blockRes
    | throw (.panic "invalid memory address or nil pointer dereference")
  let normalized ← normalizedOrPlain E blockRes.txResults
  if blockRes.txResults.length < res.txIndex then throw (.panic "slice bounds out of range")
  let gasBefore ← sumGasUsed (blockRes.txResults.take res.txIndex)
  let sender ← E.getSenderLegacy ethMsg (.latestForChainID b.chainID)
  let some (some txResult) := normalized[res.txIndex]?
    | throw (.panic "index out of range or nil pointer dereference")
  let ethTxIndex ← resolveEthTxIndex E block res hash
  return liveReceiptMap E (receiptStatus res.failed) (gasBefore + res.cumulativeGasUsed)
    res.gasUsed (liveMsgLogs E txResult.data res.msgIndex blockRes.height) hash
    (createdContract E txData sender) block.ethHash.hex res.height ethTxIndex
    (effectiveGasPrice E txData (b.baseFeeOrNil E blockRes)) sender txData.toAddr txData.type

/-- The receipt of a hash from the node's block it stands in. -/
def liveReceiptAt (E : Env) (b : Backend) (hash : Hash) (res : TxResult) :
    Except Err (Option ReceiptMap) := do
  let some block ← b.tendermintBlockByNumber res.height | return none
  let rawTx ← block.txAt res.txIndex
  let tx ← wrapErr (E.txDecoder rawTx) "failed to decode tx"
  let msg ← tx.msgAt res.msgIndex
  let some ethMsg := msg.ethereum? | throw (.panic "interface conversion")
  let some txData := ethMsg.asTransaction | return none
  match b.tendermintBlockResultByNumber res.height with
  | .error _ => return none
  | .ok blockRes =>
    if b.virtualizeCosmosEvents then
      let view ← liveVirtualBlockView E b (some block) blockRes
      return view.receipts.find? (·.transactionHash == hash)
    else some <$> b.nativeReceipt E block blockRes res ethMsg txData hash

def liveReceiptByHash (E : Env) (b : Backend) (hash : Hash) : Except Err (Option ReceiptMap) := do
  match ← attempt (b.getTxByEthHash E hash) with
  | some res => b.liveReceiptAt E hash res
  | none => return none

def cachedReceipt (b : Backend) (cache : MaterializedCache) (hash : Hash) :
    Cached ReceiptMap × MaterializedCache :=
  match b.indexer with
  | none => (.live, cache)
  | some db =>
    let (found, cache) := materializedReceiptByHash db cache hash
    (b.cachedByHash db hash found (b.cachedReceiptMatchesVirtualization db), cache)

def getTransactionReceipt (E : Env) (b : Backend) (cache : MaterializedCache) (hash : Hash) :
    Except Err (Option ReceiptMap) × MaterializedCache :=
  match b.cachedReceipt cache hash with
  | (.serve receipt, cache) => (.ok (some receipt), cache)
  | (.hidden, cache) => (.ok none, cache)
  | (.live, cache) => (b.liveReceiptByHash E hash, cache)

end Backend

/-! ## The receipts of the node's block -/

/-- What a block receipt says about the execution of a message. -/
structure ReceiptOutcome where
  txHash : Hash
  gasUsed : UInt64
  failed : Bool
  position : ℕ
  deriving DecidableEq

/-- The outcome of a message.  `position` is the number of receipts so far, which the
result of the message can overrule. -/
def nativeMsgOutcome (E : Env) (result : ExecTxResult) (parsedTxs : Option ParsedTxs)
    (msgIndex position : ℕ) (ethMsg : MsgEthereumTx) : ReceiptOutcome :=
  if result.code ≠ codeTypeOK ∧ result.codespace ≠ E.moduleName then
    { txHash := ethMsg.hash, gasUsed := ethMsg.gas, failed := true, position := position }
  else
    match parsedTxs.bind (·.getTxByMsgIndex msgIndex) with
    | none =>
      { txHash := ethMsg.hash, gasUsed := ethMsg.gas, failed := result.code ≠ codeTypeOK
        position := position }
    | some parsedTx =>
      { txHash := parsedTx.hash, gasUsed := parsedTx.gasUsed, failed := parsedTx.failed
        position := if parsedTx.ethTxIndex ≥ 0 then parsedTx.ethTxIndex.toNat else position }

/-- The local variables of the loop. -/
structure ReceiptState where
  receipts : List ReceiptMap := []
  cumulativeBlockGasUsed : UInt64 := 0

namespace Backend

/-- Add the receipt of a message if it is an Ethereum one.  The state is paired with the
gas used by the Ethereum messages of the transaction so far. -/
def nativeMsgReceipt (E : Env) (b : Backend) (block : Block) (blockRes : BlockResults)
    (result : ExecTxResult) (parsedTxs : Option ParsedTxs) (msgIndex : ℕ) (msg : Msg)
    (s : ReceiptState × UInt64) : Except Err (ReceiptState × UInt64) :=
  match msg.ethereum? with
  | none => .ok s
  | some ethMsg => do
    let some txData := ethMsg.asTransaction | throw (.plain "failed to unpack tx data")
    let out := nativeMsgOutcome E result parsedTxs msgIndex s.1.receipts.length ethMsg
    let ethGasUsed := s.2 + out.gasUsed
    let sender ← E.getSenderLegacy ethMsg (.latestForChainID b.chainID)
    let receipt := liveReceiptMap E (receiptStatus out.failed)
      (s.1.cumulativeBlockGasUsed + ethGasUsed) out.gasUsed
      (liveMsgLogs E result.data msgIndex blockRes.height) out.txHash
      (createdContract E txData sender) block.ethHash.hex block.height out.position
      (effectiveGasPrice E txData (b.baseFeeOrNil E blockRes)) sender txData.toAddr txData.type
    return ({ s.1 with receipts := s.1.receipts ++ [receipt] }, ethGasUsed)

/-- Add the receipts of a transaction.  One without a result adds nothing, one that cannot
be decoded only its gas. -/
def nativeTxReceipts (E : Env) (b : Backend) (block : Block) (blockRes : BlockResults)
    (txResults : List (Option ExecTxResult)) (txIndex : ℕ) (rawTx : Bytes) (st : ReceiptState) :
    Except Err ReceiptState :=
  match txResults[txIndex]? with
  | none | some none => .ok st
  | some (some result) =>
    let addGas (st : ReceiptState) : ReceiptState :=
      { st with cumulativeBlockGasUsed := st.cumulativeBlockGasUsed + result.gasUsed.toUInt64 }
    match E.txDecoder rawTx with
    | .error _ => .ok (addGas st)
    | .ok tx => do
      let parsedTxs ← liveParsedTxs E result tx
      let (st, _) ← forIdx (b.nativeMsgReceipt E block blockRes result parsedTxs) 0 tx.msgs (st, 0)
      return addGas st

/-- The receipts of the node's block. -/
def liveBlockReceipts (E : Env) (b : Backend) (block : Block) :
    Except Err (Option (List ReceiptMap)) :=
  match b.tendermintBlockResultByNumber block.height with
  | .error _ | .ok none => .ok none
  | .ok (some blockRes) =>
    if b.virtualizeCosmosEvents then do
      let view ← liveVirtualBlockView E b (some block) (some blockRes)
      return some view.receipts
    else do
      let txResults ← normalizedOrPlain E blockRes.txResults
      let st ← forIdx (b.nativeTxReceipts E block blockRes txResults) 0 block.txs {}
      return some st.receipts

end Backend

/-! ## The request -/

/-- The error of a lookup in a block of the other mode. -/
def errCacheMiss : Err := ⟨.cacheMiss, "cache miss"⟩

/-- The error of a block that is given in no way. -/
def noBlockGiven : Err := .plain "types BlockHash and BlockNumber cannot be both nil"

namespace Backend

def cachedBlockMeta (b : Backend) (block : BlockNumberOrHash) :
    Except Err (Option CachedBlockMeta) :=
  match block.blockHash, block.blockNumber with
  | some hash, _ => b.cachedBlockMetaByHash hash
  | none, some blockNum => b.cachedBlockMetaByNumber blockNum
  | none, none => .error noBlockGiven

def receiptsFromCachedMeta (b : Backend) (db : DB) (cache : MaterializedCache)
    (m : CachedBlockMeta) : Except Err (List ReceiptMap) × MaterializedCache :=
  if b.cachedMetaMatchesVirtualization m then
    match validateCachedBlockMeta m with
    | .error e => (.error e, cache)
    | .ok () =>
      if m.ethTxCount = 0 then (.ok [], cache)
      else
        let hashes := getRPCTransactionHashesByBlockHeight db m.height
        if (hashes.length : ℤ) ≠ m.ethTxCount then
          (.error (.plain (s!"cached block receipt count mismatch at height {m.height}: " ++
            s!"expected {m.ethTxCount} got {hashes.length}")), cache)
        else materializedReceipts db m.height hashes cache
  else (.error errCacheMiss, cache)

/-- The receipts of a block from the store; `none` if there is no meta to start from. -/
def cachedBlockReceipts (b : Backend) (db : DB) (cache : MaterializedCache)
    (block : BlockNumberOrHash) : Except Err (Option (List ReceiptMap)) × MaterializedCache :=
  match b.cachedBlockMeta block with
  | .error e => (.error e, cache)
  | .ok none => (.ok none, cache)
  | .ok (some m) =>
    let (receipts, cache) := b.receiptsFromCachedMeta db cache m
    (some <$> receipts, cache)

/-- The node's block. -/
def liveReceiptsBlock (b : Backend) (block : BlockNumberOrHash) : Except Err (Option Block) :=
  match block.blockHash, block.blockNumber with
  | some hash, _ => b.tendermintBlockByHash hash
  | none, some blockNum => b.tendermintBlockByNumber blockNum
  | none, none => .error noBlockGiven

/-- The receipts of a block from the node; an offline backend has none. -/
def liveReceipts (E : Env) (b : Backend) (block : BlockNumberOrHash) :
    Except Err (Option (List ReceiptMap)) :=
  if b.offlineRPCOnly then .ok none
  else do
    let some resBlock ← b.liveReceiptsBlock block | return none
    b.liveBlockReceipts E resBlock

def getBlockReceipts (E : Env) (b : Backend) (cache : MaterializedCache)
    (block : BlockNumberOrHash) : Except Err (Option (List ReceiptMap)) × MaterializedCache :=
  if block.blockHash.isSome && block.blockNumber.isSome then
    (.error (.plain "types BlockHash and BlockNumber cannot be both set"), cache)
  else if block.blockHash.isNone && block.blockNumber.isNone then (.error noBlockGiven, cache)
  else
    match b.indexer with
    | none => (b.liveReceipts E block, cache)
    | some db =>
      match b.cachedBlockReceipts db cache block with
      | (.ok (some receipts), cache) => (.ok (some receipts), cache)
      | (.ok none, cache) => (b.liveReceipts E block, cache)
      | (.error e, cache) =>
        if b.offlineRPCOnly && !isIndexerCacheMiss e then (.error e, cache)
        else (b.liveReceipts E block, cache)

/-- A meta that is missing or of the other mode is passed over by an online backend. -/
theorem getBlockReceipts_of_mismatch {E : Env} {b : Backend} (honline : b.offlineRPCOnly = false)
    (key : BlockNumberOrHash) (hkey : key.blockHash.isSome = !key.blockNumber.isSome)
    (hmode : ∀ m, b.cachedBlockMeta key = .ok (some m) → b.cachedMetaMatchesVirtualization m = false)
    (cache : MaterializedCache) :
    (b.getBlockReceipts E cache key).1 = b.liveReceipts E key := by
  have hone : (key.blockHash.isSome && key.blockNumber.isSome) = false ∧
      (key.blockHash.isNone && key.blockNumber.isNone) = false := by
    rw [← Option.not_isSome, ← Option.not_isSome, hkey]
    cases key.blockNumber.isSome <;> decide
  simp only [getBlockReceipts, hone, Bool.false_eq_true, if_false]
  cases b.indexer with
  | none => rfl
  | some db =>
    rcases hmeta : b.cachedBlockMeta key with e | _ | m
    · simp [cachedBlockReceipts, hmeta, honline]
    · simp [cachedBlockReceipts, hmeta]
    · simp [cachedBlockReceipts, hmeta, receiptsFromCachedMeta, hmode m hmeta, honline]

end Backend

end EvmGateway
