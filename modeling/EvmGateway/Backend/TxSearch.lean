import EvmGateway.Backend.LiveView

/-!
# Finding Ethereum transactions

Where an Ethereum transaction stands (its block, its Cosmos transaction and its message)
is looked up in the store first.  If the store does not know it, the node's search is
asked, by an event attribute, and the result it finds is parsed like the indexer does.
Synthetic transactions have no such event, so neither place knows them.

A position asked for over JSON-RPC is an unsigned word.  The store and the parsed result
take a narrower or a signed integer, and the conversions of the source wrap.
-/

namespace EvmGateway

open Lib

/-! ## Conversions -/

/-- `int32(i)` -/
def int32 (i : UInt64) : ℤ := Int.bmod i.toNat 0x100000000

/-- `int(i)` on a 64-bit machine -/
def int64 (i : UInt64) : ℤ := Int.bmod i.toNat 0x10000000000000000

theorem bmod_of_lt {n w : ℕ} (h : 2 * n < w) : Int.bmod n w = n :=
  Int.bmod_eq_of_le_mul_two (by omega) (by omega)

theorem bmod_of_le {n w : ℕ} (h : w ≤ 2 * n) (hlt : n < w) : Int.bmod n w = n - w := by
  rw [Int.bmod_def, Int.emod_eq_of_lt (by omega) (by omega), if_neg (by omega)]

theorem int32_of_lt {i : UInt64} (h : i.toNat < 2 ^ 31) : int32 i = i.toNat :=
  bmod_of_lt (by omega)

theorem int64_of_lt {i : UInt64} (h : i.toNat < 2 ^ 63) : int64 i = i.toNat :=
  bmod_of_lt (by omega)

theorem int64_neg_of_le {i : UInt64} (h : 2 ^ 63 ≤ i.toNat) : int64 i < 0 := by
  have hlt : i.toNat < 2 ^ 64 := i.toNat_lt
  have heq : int64 i = i.toNat - (0x10000000000000000 : ℕ) := bmod_of_le (by omega) (by omega)
  omega

/-! ## The messages of a block -/

/-- The Ethereum messages of a raw transaction; none if it cannot be decoded. -/
def ethMsgsOfTx (E : Env) (rawTx : Bytes) : List MsgEthereumTx :=
  match E.txDecoder rawTx with
  | .error _ => []
  | .ok tx => tx.msgs.filterMap Msg.ethereum?

def ethMsgsFromTendermintBlock (E : Env) (block : Block) : List MsgEthereumTx :=
  block.txs.flatMap (ethMsgsOfTx E)

def Block.txAt (block : Block) (i : ℕ) : Except Err Bytes :=
  match block.txs[i]? with
  | some rawTx => .ok rawTx
  | none => .error (.panic "index out of range")

def SdkTx.msgAt (tx : SdkTx) (i : ℕ) : Except Err Msg :=
  match tx.msgs[i]? with
  | some msg => .ok msg
  | none => .error (.panic "index out of range")

/-! ## The node's search -/

/-- The log of a transaction that did not fit in the block any more. -/
def exceedBlockGasLimitError : String := "out of gas in location: block gas meter; gasWanted:"

def txExceedBlockGasLimit (res : ExecTxResult) : Bool :=
  (findFirst (afterLiteral exceedBlockGasLimitError.toList) res.log.toList).isSome

def txSuccessOrExceedsBlockGasLimit (res : ExecTxResult) : Bool :=
  res.code == codeTypeOK || txExceedBlockGasLimit res

/-- Bring a result of the node's search into the form of an indexed one. -/
def parseTxIndexerResult (E : Env) (txResult : ResultTx) (tx : Option SdkTx)
    (getter : ParsedTxs → Except Err (Option ParsedTx)) : Except Err TxResult := do
  let txs ← wrapErr (parseTxResult E txResult.txResult tx)
    s!"failed to parse tx events: block {txResult.height}, index {txResult.index}"
  let some parsedTx ← getter txs
    | throw (.plain
        s!"ethereum tx not found in msgs: block {txResult.height}, index {txResult.index}")
  let cumulativeGasUsed ← txs.accumulativeGasUsed parsedTx.msgIndex
  return {
    height := txResult.height
    txIndex := txResult.index
    msgIndex := parsedTx.msgIndex.toNat
    ethTxIndex := parsedTx.ethTxIndex
    failed := parsedTx.failed
    gasUsed := parsedTx.gasUsed
    cumulativeGasUsed := cumulativeGasUsed }

/-- The decoded transaction of a search result.  It is only needed, and only decoded, if
the transaction exceeded the block gas limit. -/
def searchedTx (E : Env) (txResult : ResultTx) : Except Err (Option SdkTx) :=
  if txSuccessOrExceedsBlockGasLimit txResult.txResult ∧ txResult.txResult.code ≠ codeTypeOK ∧
      txResult.txResult.codespace ≠ E.moduleName then
    match E.txDecoder txResult.tx with
    | .ok tx => .ok (some tx)
    | .error _ => .error (.plain "invalid ethereum tx")
  else .ok none

namespace Backend

/-- Ask the node's search; the first result counts. -/
def queryTendermintTxIndexer (E : Env) (b : Backend) (query : String)
    (txGetter : ParsedTxs → Except Err (Option ParsedTx)) : Except Err TxResult := do
  let some client := b.client
    | throw (.plain "tendermint tx indexer unavailable without rpc client")
  match ← client.txSearch query with
  | [] => throw (.plain "ethereum tx not found")
  | txResult :: _ =>
    let tx ← searchedTx E txResult
    parseTxIndexerResult E txResult tx txGetter

def ethHashQuery (E : Env) (hash : Hash) : String :=
  s!"{E.typeMsgEthereumTx}.{E.attributeKeyEthereumTxHash}='{hash.hex}'"

def txIndexQuery (E : Env) (height : ℕ) (index : UInt64) : String :=
  s!"tx.height={height} AND {E.typeMsgEthereumTx}.{E.attributeKeyTxIndex}={index}"

/-- The value of the store, or else of the node's search.  An offline backend does not
search. -/
def indexedOrSearched (b : Backend) (indexed : DB → Except Err TxResult)
    (searched : Except Err TxResult) : Except Err TxResult :=
  match (b.indexer.map indexed) with
  | some (.ok res) => .ok res
  | _ =>
    if b.offlineRPCOnly then .error (.plain "ethereum tx not found in offline cache")
    else searched

/-- Where the Ethereum transaction of a hash stands. -/
def getTxByEthHash (E : Env) (b : Backend) (hash : Hash) : Except Err TxResult :=
  b.indexedOrSearched (getByTxHash · hash)
    (wrapErr (b.queryTendermintTxIndexer E (ethHashQuery E hash) (·.getTxByHash hash))
      s!"GetTxByEthHash {hash.hex}")

/-- Where the Ethereum transaction of a position stands. -/
def getTxByTxIndex (E : Env) (b : Backend) (height : ℕ) (index : UInt64) : Except Err TxResult :=
  b.indexedOrSearched (getByBlockAndIndex · height (int32 index))
    (wrapErr (b.queryTendermintTxIndexer E (txIndexQuery E height index)
      fun txs => .ok (txs.getTxByTxIndex (int64 index)))
      s!"GetTxByTxIndex {height} {index}")

end Backend

end EvmGateway
