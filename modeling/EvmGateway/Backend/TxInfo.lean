import EvmGateway.Backend.Blocks

/-!
# Transactions

A transaction is asked for by its hash, or by a block and a position in it.  Each request
tries the store first and then the node, and each has its own idea of when a record of
the store may be served: the requests by position compare the mode of the block before
they read the record, and read the record once more, without the comparison, on their
common way to the node.

## Main definitions

* `getTransactionByHash` — by hash, down to the mempool.
* `getTransactionByBlockAndIndex` — the common part of the requests by position.
* `getTransactionByBlockNumberAndIndex`, `getTransactionByBlockHashAndIndex`.
-/

namespace EvmGateway

open Lib

/-! ## Records of the store -/

/-- The answer of the store to a request by hash. -/
inductive Cached (α : Type) where
  /-- there is nothing to serve, ask the node -/
  | live
  /-- there is a record that is not to be shown -/
  | hidden
  | serve (a : α)

namespace Backend

/-- Whether the store may show a transaction: a synthetic one only with virtualisation. -/
def cachedTransactionVisible (b : Backend) (db : DB) (hash : Hash) : Bool :=
  b.virtualizeCosmosEvents || !isVirtualRPCTransaction db hash

/-- Whether the block a record names was indexed in the mode of the backend.  A record
without a block, or of a block without a meta, passes. -/
def cachedHeightMatchesVirtualization (b : Backend) (db : DB) (height : Option ℕ) : Bool :=
  match height.map (getBlockMetaByHeight db) with
  | some (.ok m) => b.cachedMetaMatchesVirtualization m
  | _ => true

def cachedRPCTransactionMatchesVirtualization (b : Backend) (db : DB) (tx : RPCTransaction) :
    Bool := b.cachedHeightMatchesVirtualization db tx.blockNumber

def cachedReceiptMatchesVirtualization (b : Backend) (db : DB) (receipt : ReceiptMap) : Bool :=
  b.cachedHeightMatchesVirtualization db (some receipt.blockNumber)

def cachedByHash {α : Type} (b : Backend) (db : DB) (hash : Hash) (found : Except Err α)
    (matchesMode : α → Bool) : Cached α :=
  match found with
  | .error _ => .live
  | .ok a =>
    if b.cachedTransactionVisible db hash then
      if matchesMode a then .serve a
      else if b.offlineRPCOnly then .hidden
      else .live
    else .hidden

/-! ## By hash -/

/-- The transactions of the mempool. -/
def pendingTransactions (E : Env) (b : Backend) : Except Err (List SdkTx) := do
  let some client := b.client | throw (.plain "invalid rpc client")
  let txs ← client.unconfirmedTxs
  txs.mapM E.txDecoder

def pendingMsg (E : Env) (txHash : Hash) (tx : SdkTx) : Option MsgEthereumTx :=
  match E.unwrapEthereumMsg tx txHash with
  | .ok msg => if msg.hash = txHash then some msg else none
  | .error _ => none

def getTransactionByHashPending (E : Env) (b : Backend) (txHash : Hash) :
    Except Err (Option RPCTransaction) :=
  match b.pendingTransactions E with
  | .error _ => .ok none
  | .ok txs =>
    match txs.findSome? (pendingMsg E txHash) with
    | none => .ok none
    | some msg => some <$> newRPCTransaction E msg 0 0 0 none (some b.chainID)

/-- The Ethereum position of a result; if the result has none, the position of its message
among those of the block. -/
def resolveEthTxIndex (E : Env) (block : Block) (res : TxResult) (hash : Hash) : Except Err ℕ :=
  if res.ethTxIndex = -1 then
    match (ethMsgsFromTendermintBlock E block).findIdx? (·.hash == hash) with
    | some i => .ok i
    | none => .error (.plain "can't find index of ethereum tx")
  else .ok res.ethTxIndex.toNat

/-- The transaction of a message without virtualisation. -/
def nativeTransaction (E : Env) (b : Backend) (block : Block) (blockRes : Option BlockResults)
    (res : TxResult) (msg : MsgEthereumTx) (txHash : Hash) : Except Err (Option RPCTransaction) := do
  let ethTxIndex ← resolveEthTxIndex E block res txHash
  let some blockRes := blockRes
    | throw (.panic "invalid memory address or nil pointer dereference")
  some <$> newRPCTransaction E msg block.ethHash res.height ethTxIndex (b.baseFeeOrNil E blockRes)
    (some b.chainID)

/-- The transaction of a hash from the node's block it stands in. -/
def liveTransactionAt (E : Env) (b : Backend) (txHash : Hash) (res : TxResult) :
    Except Err (Option RPCTransaction) := do
  let some block ← b.tendermintBlockByNumber res.height | return none
  let rawTx ← block.txAt res.txIndex
  let tx ← E.txDecoder rawTx
  let msg ← tx.msgAt res.msgIndex
  let some ethMsg := msg.ethereum? | throw (.plain "invalid ethereum tx")
  match b.tendermintBlockResultByNumber block.height with
  | .error _ => return none
  | .ok blockRes =>
    if b.virtualizeCosmosEvents then
      let view ← liveVirtualBlockView E b (some block) blockRes
      return view.transactions.find? (·.hash == txHash)
    else b.nativeTransaction E block blockRes res ethMsg txHash

/-- The transaction of a hash from the node: of a block, or of the mempool. -/
def liveTransactionByHash (E : Env) (b : Backend) (txHash : Hash) :
    Except Err (Option RPCTransaction) := do
  match ← attempt (b.getTxByEthHash E txHash) with
  | some res => b.liveTransactionAt E txHash res
  | none => if b.offlineRPCOnly then return none else b.getTransactionByHashPending E txHash

/-- The record the store has under a hash. -/
def cachedTransaction (b : Backend) (hash : Hash) : Cached RPCTransaction :=
  match b.indexer with
  | none => .live
  | some db => b.cachedByHash db hash (getRPCTransactionByHash db hash)
      (b.cachedRPCTransactionMatchesVirtualization db)

def getTransactionByHash (E : Env) (b : Backend) (txHash : Hash) :
    Except Err (Option RPCTransaction) :=
  match b.cachedTransaction txHash with
  | .serve rpcTx => .ok (some rpcTx)
  | .hidden => .ok none
  | .live => b.liveTransactionByHash E txHash

/-! ## By position -/

/-- The Ethereum message at a position of a block: where the store or the node's search
says, or else by counting. -/
def ethMsgByIndex (E : Env) (b : Backend) (block : Block) (idx : UInt64) :
    Except Err (Option MsgEthereumTx) := do
  match ← attempt (b.getTxByTxIndex E block.height idx) with
  | some res =>
    let rawTx ← block.txAt res.txIndex
    match E.txDecoder rawTx with
    | .error _ => return none
    | .ok tx => Msg.ethereum? <$> tx.msgAt res.msgIndex
  | none =>
    -- a position that does not fit in a signed word counts as the first
    return (ethMsgsFromTendermintBlock E block)[(int64 idx).toNat]?

/-- The transaction at a position of the node's block. -/
def liveTransactionByBlockAndIndex (E : Env) (b : Backend) (block : Block) (idx : UInt64) :
    Except Err (Option RPCTransaction) :=
  match b.tendermintBlockResultByNumber block.height with
  | .error _ => .ok none
  | .ok blockRes =>
    if b.virtualizeCosmosEvents then do
      let view ← liveVirtualBlockView E b (some block) blockRes
      return if int64 idx < 0 then none else view.transactions[(int64 idx).toNat]?
    else do
      let some msg ← b.ethMsgByIndex E block idx | return none
      let some blockRes := blockRes
        | throw (.panic "invalid memory address or nil pointer dereference")
      some <$> newRPCTransaction E msg block.ethHash block.height idx.toNat
        (b.baseFeeOrNil E blockRes) (some b.chainID)

/-- The transaction at a position of a block: a record of the store, of whatever mode, or
else from the node's data. -/
def getTransactionByBlockAndIndex (E : Env) (b : Backend) (block : Block) (idx : UInt64) :
    Except Err (Option RPCTransaction) :=
  match b.indexer.map (getRPCTransactionByBlockAndIndex · block.height (int32 idx)) with
  | some (.ok rpcTx) => .ok (some rpcTx)
  | _ => b.liveTransactionByBlockAndIndex E block idx

/-- What an offline backend makes of a failed lookup. -/
def offlineMiss (e : Err) : Except Err (Option RPCTransaction) :=
  if isIndexerCacheMiss e then .ok none else .error e

/-- The record at a position of an indexed height, or else the live answer. -/
def indexedTransactionOr (b : Backend) (db : DB) (height : ℕ) (idx : UInt64)
    (live : Except Err (Option RPCTransaction)) : Except Err (Option RPCTransaction) :=
  match getRPCTransactionByBlockAndIndex db height (int32 idx) with
  | .ok rpcTx => .ok (some rpcTx)
  | .error e => if b.offlineRPCOnly then offlineMiss e else live

/-- The answer about a cached block of the other mode. -/
def mismatchOr (b : Backend) (m : CachedBlockMeta) (live : Except Err (Option RPCTransaction)) :
    Except Err (Option RPCTransaction) :=
  if b.offlineRPCOnly then .error (virtualizationModeMismatch m) else live

/-- The transaction at a position of the node's block of a hash. -/
def liveByBlockHashAndIndex (E : Env) (b : Backend) (hash : Hash) (idx : UInt64) :
    Except Err (Option RPCTransaction) :=
  match b.client with
  | none => .error (.plain "invalid rpc client")
  | some client =>
    match client.blockByHash hash with
    | .ok (some block) => b.getTransactionByBlockAndIndex E block idx
    | _ => .ok none

def getTransactionByBlockHashAndIndex (E : Env) (b : Backend) (hash : Hash) (idx : UInt64) :
    Except Err (Option RPCTransaction) :=
  match b.indexer with
  | none => b.liveByBlockHashAndIndex E hash idx
  | some db =>
    match getBlockMetaByHash db hash with
    | .ok m =>
      if b.cachedMetaMatchesVirtualization m then
        b.indexedTransactionOr db m.height idx (b.liveByBlockHashAndIndex E hash idx)
      else b.mismatchOr m (b.liveByBlockHashAndIndex E hash idx)
    | .error e => if b.offlineRPCOnly then offlineMiss e else b.liveByBlockHashAndIndex E hash idx

/-- The transaction at a position of the node's block of a number. -/
def liveByBlockNumberAndIndex (E : Env) (b : Backend) (blockNum : ℤ) (idx : UInt64) :
    Except Err (Option RPCTransaction) := do
  let some block ← b.tendermintBlockByNumber blockNum | return none
  b.getTransactionByBlockAndIndex E block idx

def getTransactionByBlockNumberAndIndex (E : Env) (b : Backend) (blockNum : ℤ) (idx : UInt64) :
    Except Err (Option RPCTransaction) :=
  match b.indexer with
  | none => b.liveByBlockNumberAndIndex E blockNum idx
  | some db =>
    let height := b.indexedBlockHeight blockNum
    if height < 1 then
      if b.offlineRPCOnly then .ok none else b.liveByBlockNumberAndIndex E blockNum idx
    else
      -- a height without a meta is read as well
      match getBlockMetaByHeight db height.toNat with
      | .ok m =>
        if b.cachedMetaMatchesVirtualization m then
          b.indexedTransactionOr db height.toNat idx (b.liveByBlockNumberAndIndex E blockNum idx)
        else b.mismatchOr m (b.liveByBlockNumberAndIndex E blockNum idx)
      | .error _ =>
        b.indexedTransactionOr db height.toNat idx (b.liveByBlockNumberAndIndex E blockNum idx)

end Backend

end EvmGateway
