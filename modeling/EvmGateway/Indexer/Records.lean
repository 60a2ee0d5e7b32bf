import EvmGateway.Indexer.BlockHashes

/-!
# The records of a block

The indexing loop keeps ten local variables, but all of them are determined by one
list: the visible transactions of the block so far, each with its RPC transaction,
its receipt and, for an Ethereum transaction, its indexed result.  This module makes
that list explicit.

`IndexState.push` appends one such entry to all the variables at once; every step of
the loop that stores a transaction is a push (`storeVirtualTx_eq_push`,
`indexEthMsg_ok`).  `Tracks` says that a state is the result of pushing a given list,
that each entry knows its own position, and that the Ethereum positions count the
Ethereum entries.  `buildBlock_tracks` carries it through the whole loop and identifies
the hashes of the entries with those the block shows.
-/

namespace EvmGateway

open Lib

variable {txIndex msgIndex : ℕ} {baseFee : Option ℤ} {result : ExecTxResult}
  {response : Option Response} {gas : UInt64} {E : Env} {block : Block} {txs : ParsedTxs}
  {ethMsg : MsgEthereumTx} {r : Response} {α : Type}

@[simp] theorem mapError_eq_ok {ε ε' : Type} {x : Except ε α} {f : ε → ε'} {a : α} :
    x.mapError f = .ok a ↔ x = .ok a := by
  rcases x with e | b <;> simp [Except.mapError]

@[simp] theorem orBlockParseError_eq_ok {x : Except Err α} {m : String} {a : α} :
    orBlockParseError x m = .ok a ↔ x = .ok a := mapError_eq_ok

@[simp] theorem wrapErr_eq_ok {x : Except Err α} {m : String} {a : α} :
    wrapErr x m = .ok a ↔ x = .ok a := mapError_eq_ok

/-! ## Entries -/

/-- One visible transaction with its records. -/
structure Entry where
  tx : RPCTransaction
  receipt : CachedReceipt
  /-- present for Ethereum transactions, absent for synthetic ones -/
  result : Option TxResult

namespace Entry

def hash (e : Entry) : Hash := e.tx.hash

/-- Whether an entry is an Ethereum transaction. -/
def isEth (e : Entry) : Bool := e.result.isSome

def writes (height : ℕ) (e : Entry) : DBBatch :=
  match e.result with
  | some r =>
    saveTxResult e.hash r ++
      [.set (.receipt e.hash) e.receipt,
       .set (.rpcTxHash e.hash) e.tx,
       .set (.rpcTxIndex height e.receipt.transactionIndex) e.hash]
  | none =>
    [.set (.receipt e.hash) e.receipt,
     .set (.rpcTxHash e.hash) e.tx,
     .set (.virtualRPCtx e.hash) (),
     .set (.rpcTxIndex height e.receipt.transactionIndex) e.hash]

/-- The entry sits at visible position `i` and, if it is an Ethereum transaction, at
Ethereum position `j` of the block. -/
structure At (block : Block) (i j : ℕ) (e : Entry) : Prop where
  receipt_index : e.receipt.transactionIndex = i
  receipt_hash : e.receipt.transactionHash = e.hash.hex
  receipt_blockHash : e.receipt.blockHash = block.ethHash.hex
  receipt_blockNumber : e.receipt.blockNumber = block.height
  tx_position : block.ethHash ≠ 0 → e.tx.blockHash = some block.ethHash ∧
    e.tx.blockNumber = some block.height ∧ e.tx.transactionIndex = some i
  result_position : ∀ r, e.result = some r → r.height = block.height ∧ r.ethTxIndex = j

end Entry

def virtualEntry (E : Env) (tx : VirtualTx) : Entry where
  tx := tx.transaction
  receipt := cachedVirtualReceipt E tx.receipt
  result := none

def ethEntry (E : Env) (kv : KVIndexer) (block : Block) (baseFee : Option ℤ) (st : IndexState)
    (out : EthOutcome) (txData : EthTransaction) (sender : Address) (rpcTx : RPCTransaction)
    (logs : List RPCLog) (txIndex msgIndex : ℕ) (ethGasUsed : UInt64) : Entry where
  tx := { rpcTx with hash := out.txHash }
  receipt := st.ethReceipt E kv block baseFee out txData sender logs ethGasUsed
  result := some {
    height := block.height
    txIndex := txIndex
    msgIndex := msgIndex
    ethTxIndex := st.ethTxIndex
    failed := out.failed
    gasUsed := out.gasUsed
    cumulativeGasUsed := ethGasUsed }

/-! ## Pushing an entry -/

/-- Append one entry to the loop state. -/
def IndexState.push (kv : KVIndexer) (height : ℕ) (st : IndexState) (e : Entry) : IndexState :=
  { st with
    batch := st.batch ++ e.writes height
    logIndex :=
      if kv.virtualizationEnabled then st.logIndex + e.receipt.logs.length else st.logIndex
    visibleRPCTxHashes :=
      if kv.virtualizationEnabled then st.visibleRPCTxHashes ++ [e.hash]
      else st.visibleRPCTxHashes
    blockLogs := st.blockLogs ++ [e.receipt.logs]
    flatLogs := st.flatLogs ++ e.receipt.logs
    indexedEthTxs := st.indexedEthTxs + if e.isEth then 1 else 0
    ethTxIndex := st.ethTxIndex + if e.isEth then 1 else 0
    rpcTxIndex := st.rpcTxIndex + 1 }

theorem storeVirtualTx_eq_push (E : Env) {kv : KVIndexer} (hkv : kv.virtualizationEnabled = true)
    (block : Block) (st : IndexState) (tx : VirtualTx) :
    st.storeVirtualTx E kv block tx = st.push kv block.height (virtualEntry E tx) := by
  simp [IndexState.storeVirtualTx, IndexState.push, virtualEntry, Entry.writes, Entry.isEth,
    Entry.hash, saveVirtualTx, cachedVirtualReceipt, buildCachedReceipt, hkv]

/-- **What indexing an Ethereum message does.**  If it succeeds, every part was
available, the gas of the message was added, and the state was pushed by the entry
built from the parts. -/
theorem indexEthMsg_ok {kv : KVIndexer} {totalMessages : ℕ} {st st' : IndexState} {gas' : UInt64}
    (h : indexEthMsg E kv block baseFee result txs response txIndex totalMessages msgIndex ethMsg
      st gas = .ok (st', gas')) :
    ∃ out txData own sender rpcTx price,
      ethMsgOutcome E block result txs txIndex msgIndex st.ethTxIndex ethMsg = .ok out ∧
      ethMsg.asTransaction = some txData ∧
      ethMsgLogs E block result txIndex msgIndex out.failed = .ok own ∧
      E.getSenderLegacy ethMsg txData.signer = .ok sender ∧
      newRPCTransaction E ethMsg block.ethHash block.height (st.visibleTxCount kv) baseFee
        (some txData.chainID) = .ok rpcTx ∧
      decodeQuantity (encodeQuantity (receiptEffectiveGasPrice E txData baseFee)) = .ok price ∧
      gas' = gas + out.gasUsed ∧
      st' = st.push kv block.height (ethEntry E kv block baseFee st out txData sender rpcTx
        (st.messageLogs kv block response out.txHash msgIndex totalMessages own) txIndex msgIndex
        gas') := by
  unfold indexEthMsg at h
  obtain ⟨out, hout, h⟩ := bind_eq_ok.mp h
  cases hdata : ethMsg.asTransaction with
  | none => simp [hdata] at h
  | some txData =>
    simp only [hdata] at h
    obtain ⟨own, hown, h⟩ := bind_eq_ok.mp h
    obtain ⟨sender, hsender, h⟩ := bind_eq_ok.mp h
    obtain ⟨receipt, hreceipt, h⟩ := bind_eq_ok.mp h
    obtain ⟨rpcTx, hrpc, h⟩ := bind_eq_ok.mp h
    rw [orBlockParseError_eq_ok] at hsender hrpc
    unfold mustMarshalReceipt at hreceipt
    split at hreceipt
    · rename_i price hprice
      obtain rfl := Except.ok.inj hreceipt
      simp only [pure_eq_ok, Except.ok.injEq, Prod.mk.injEq] at h
      obtain ⟨rfl, rfl⟩ := h
      refine ⟨out, txData, own, sender, rpcTx, price, hout, rfl, hown, hsender, hrpc, hprice, rfl, ?_⟩
      simp [IndexState.push, ethEntry, Entry.writes, Entry.hash, Entry.isEth, IndexState.ethReceipt,
        buildCachedReceipt]
    · cases hreceipt

/-! ## Positions of synthetic transactions -/

/-- A synthetic transaction sits at visible position `i` of the block. -/
structure VirtualTx.At (block : Block) (i : ℕ) (tx : VirtualTx) : Prop where
  receipt_index : tx.receipt.transactionIndex = i
  receipt_hash : tx.receipt.transactionHash = tx.transaction.hash
  receipt_blockHash : tx.receipt.blockHash = block.ethHash
  receipt_blockNumber : tx.receipt.blockNumber = block.height
  tx_blockHash : tx.transaction.blockHash = some block.ethHash
  tx_blockNumber : tx.transaction.blockNumber = some block.height
  tx_index : tx.transaction.transactionIndex = some i
  /-- synthetic transactions are free -/
  price : tx.receipt.effectiveGasPrice = 0

theorem VirtualTx.At.entry {i : ℕ} {tx : VirtualTx} (h : tx.At block i) (j : ℕ) :
    (virtualEntry E tx).At block i j where
  receipt_index := h.receipt_index
  receipt_hash := congrArg Hash.hex h.receipt_hash
  receipt_blockHash := congrArg Hash.hex h.receipt_blockHash
  receipt_blockNumber := h.receipt_blockNumber
  tx_position := fun _ => ⟨h.tx_blockHash, h.tx_blockNumber, h.tx_index⟩
  result_position := fun _ hr => nomatch hr

def TxContext.In (block : Block) (ctx : TxContext) : Prop :=
  ctx.blockHash = block.ethHash ∧ ctx.blockNumber = block.height

theorem syntheticTx_at {ctx : TxContext} (hctx : ctx.In block) (events : List ResponseEntry)
    (hook : Option Ibc.HookCall) (hash : Hash) (gas : UInt64) :
    (r.syntheticTx E ctx events hook hash gas).At block ctx.txIndex := by
  obtain ⟨hhash, hheight⟩ := hctx
  cases hook <;>
    exact ⟨rfl, rfl, hhash, hheight, congrArg some hhash, congrArg some hheight, rfl, rfl⟩

/-- The transactions take the positions `i`, `i + 1`, … of the block. -/
def ConsecutiveFrom (block : Block) (i : ℕ) (txs : List VirtualTx) : Prop :=
  ∀ (k : ℕ) (tx : VirtualTx), txs[k]? = some tx → tx.At block (i + k)

theorem consecutiveFrom_nil (block : Block) (i : ℕ) : ConsecutiveFrom block i [] := by
  intro k tx h
  simp at h

theorem ConsecutiveFrom.cons {block : Block} {i : ℕ} {tx : VirtualTx} {txs : List VirtualTx}
    (htx : tx.At block i) (htxs : ConsecutiveFrom block (i + 1) txs) :
    ConsecutiveFrom block i (tx :: txs) := by
  intro k tx' h
  cases k with
  | zero =>
    obtain rfl := Option.some.inj h
    exact htx
  | succ k =>
    rw [show i + (k + 1) = i + 1 + k by omega]
    exact htxs k tx' h

/-- The synthetic transactions of hooks take consecutive positions. -/
theorem hookTxs_consecutive {perMessage : ℕ → ℕ} (hooks : List HookEntry) :
    ∀ (ctx : TxContext) (previous : Option ℕ) (ordinal : ℕ),
      ctx.In block → ConsecutiveFrom block ctx.txIndex
        (r.hookTxs E perMessage ctx previous ordinal hooks) := by
  induction hooks with
  | nil =>
    intro ctx previous ordinal _
    exact consecutiveFrom_nil block ctx.txIndex
  | cons hook hooks ih =>
    intro ctx previous ordinal hctx
    exact .cons (syntheticTx_at hctx ..) (ih _ _ _ hctx)

theorem syntheticTxs_consecutive {ctx : TxContext} {txs : List VirtualTx} (hctx : ctx.In block)
    (h : r.syntheticTxs E ctx = .ok txs) :
    ConsecutiveFrom block ctx.txIndex txs := by
  unfold Response.syntheticTxs at h
  simp only at h
  split_ifs at h
  · obtain rfl := Except.ok.inj h
    exact consecutiveFrom_nil block ctx.txIndex
  · obtain rfl := Except.ok.inj h
    exact .cons (syntheticTx_at hctx ..) (consecutiveFrom_nil block _)
  · obtain ⟨hooks, -, h⟩ := bind_eq_ok.mp h
    obtain rfl := Except.ok.inj h
    exact hookTxs_consecutive _ _ _ _ hctx
  · obtain ⟨hooks, -, h⟩ := bind_eq_ok.mp h
    obtain rfl := Except.ok.inj h
    have hctx' : TxContext.In block { ctx with
      cumulativeGasUsedBefore := ctx.cumulativeGasUsedBefore + ctx.ethereumGasUsed } := hctx
    exact .cons (syntheticTx_at hctx' ..) (hookTxs_consecutive _ _ _ _ hctx)

theorem newBlockTx_at (block : Block) (st : IndexState) (i : ℕ) (hash : Hash) (logs : List EthLog)
    (chainID : Option ℤ) (gas : UInt64) :
    (newBlockTx hash logs (st.virtualLogContext block hash i) chainID gas).At block i :=
  ⟨rfl, rfl, rfl, rfl, rfl, rfl, rfl, rfl⟩

/-! ## The loop invariant -/

/-- The state is the result of pushing the entries, and each entry knows its place. -/
structure Tracks (kv : KVIndexer) (block : Block) (st : IndexState) (es : List Entry) : Prop where
  batch : st.batch = es.flatMap (Entry.writes block.height)
  blockLogs : st.blockLogs = es.map (·.receipt.logs)
  flatLogs : st.flatLogs = st.blockLogs.flatten
  rpcTxIndex : st.rpcTxIndex = es.length
  ethTxIndex : st.ethTxIndex = es.countP Entry.isEth
  visible : kv.virtualizationEnabled = true → st.visibleRPCTxHashes = es.map Entry.hash
  eth_of_plain : kv.virtualizationEnabled = false → ∀ e ∈ es, e.isEth = true
  entry_at : ∀ (i : ℕ) (e : Entry), es[i]? = some e → e.At block i ((es.take i).countP Entry.isEth)

namespace Tracks

variable {kv : KVIndexer} {block : Block} {st : IndexState} {es : List Entry}

theorem init (kv : KVIndexer) (block : Block) : Tracks kv block {} [] where
  batch := rfl
  blockLogs := rfl
  flatLogs := rfl
  rpcTxIndex := rfl
  ethTxIndex := rfl
  visible := fun _ => rfl
  eth_of_plain := by simp
  entry_at := by simp

theorem visibleTxCount (h : Tracks kv block st es) : st.visibleTxCount kv = es.length := by
  unfold IndexState.visibleTxCount
  cases hkv : kv.virtualizationEnabled with
  | true => simpa using h.rpcTxIndex
  | false =>
    have hall : es.countP Entry.isEth = es.length := List.countP_eq_length.mpr (h.eth_of_plain hkv)
    simpa [hall] using h.ethTxIndex

/-- Pushing an entry that knows the next place keeps the invariant. -/
theorem push (h : Tracks kv block st es) {e : Entry}
    (hat : e.At block es.length (es.countP Entry.isEth))
    (hplain : kv.virtualizationEnabled = false → e.isEth = true) :
    Tracks kv block (st.push kv block.height e) (es ++ [e]) where
  batch := by simp [IndexState.push, h.batch]
  blockLogs := by simp [IndexState.push, h.blockLogs]
  flatLogs := by simp [IndexState.push, h.flatLogs]
  rpcTxIndex := by simp [IndexState.push, h.rpcTxIndex]
  ethTxIndex := by simp [IndexState.push, h.ethTxIndex, List.countP_append, List.countP_cons]
  visible := by
    intro hkv
    simp [IndexState.push, hkv, h.visible hkv]
  eth_of_plain := by
    intro hkv e' he'
    rcases List.mem_append.mp he' with he' | he'
    · exact h.eth_of_plain hkv e' he'
    · obtain rfl := List.mem_singleton.mp he'
      exact hplain hkv
  entry_at := by
    intro i e' hi
    by_cases hlt : i < es.length
    · rw [List.getElem?_append_left hlt] at hi
      rw [List.take_append_of_le_length hlt.le]
      exact h.entry_at i e' hi
    · rw [List.getElem?_append_right (by omega)] at hi
      obtain rfl : i = es.length := by
        by_contra hne
        rw [List.getElem?_eq_none (by simp; omega)] at hi
        cases hi
      obtain rfl : e = e' := by simpa using hi
      simpa using hat

theorem addGas (h : Tracks kv block st es) (gas : UInt64) : Tracks kv block (st.addGas gas) es :=
  { h with }

/-- Storing consecutive synthetic transactions keeps the invariant. -/
theorem storeVirtualTxs (h : Tracks kv block st es) (E : Env)
    (hkv : kv.virtualizationEnabled = true) {txs : List VirtualTx}
    (htxs : ConsecutiveFrom block es.length txs) :
    Tracks kv block (txs.foldl (IndexState.storeVirtualTx E kv block) st)
      (es ++ txs.map (virtualEntry E)) := by
  induction txs generalizing st es with
  | nil => simpa using h
  | cons tx txs ih =>
    have hpush : Tracks kv block (st.storeVirtualTx E kv block tx) (es ++ [virtualEntry E tx]) := by
      rw [storeVirtualTx_eq_push E hkv]
      refine h.push ((htxs 0 tx rfl).entry _) fun hkv' => ?_
      rw [hkv] at hkv'
      cases hkv'
    have htail : ConsecutiveFrom block (es ++ [virtualEntry E tx]).length txs := by
      intro k tx' hk
      have := htxs (k + 1) tx' hk
      rwa [List.length_append, List.length_singleton, show es.length + 1 + k = es.length +
        (k + 1) by omega]
    have := ih hpush htail
    rwa [List.append_assoc, List.singleton_append, ← List.map_cons] at this

end Tracks

/-! ## The invariant through the loop -/

section Loop

variable {E : Env} {kv : KVIndexer} {block : Block} {st st' : IndexState} {es : List Entry}

/-- The entry of an Ethereum message knows its place. -/
theorem ethEntry_at {out : EthOutcome} {txData : EthTransaction} {sender : Address}
    {rpcTx : RPCTransaction} {logs : List RPCLog} (ht : Tracks kv block st es)
    (hrpc : newRPCTransaction E ethMsg block.ethHash block.height (st.visibleTxCount kv) baseFee
      (some txData.chainID) = .ok rpcTx) :
    (ethEntry E kv block baseFee st out txData sender rpcTx logs txIndex msgIndex gas).At block
      es.length (es.countP Entry.isEth) where
  receipt_index := ht.visibleTxCount
  receipt_hash := rfl
  receipt_blockHash := rfl
  receipt_blockNumber := rfl
  tx_position := by
    intro hne
    have hpos := newRPCTransaction_position hrpc hne
    rw [ht.visibleTxCount] at hpos
    exact hpos
  result_position := by
    intro r hr
    obtain rfl := Option.some.inj hr
    exact ⟨rfl, congrArg _ ht.ethTxIndex⟩

theorem ethMsgOutcome_txHash {ethTxIndex : ℕ} {out : EthOutcome}
    (h : ethMsgOutcome E block result txs txIndex msgIndex ethTxIndex ethMsg = .ok out) :
    ethMsgHash E result txs msgIndex ethMsg = some out.txHash := by
  unfold ethMsgOutcome at h
  unfold ethMsgHash
  split_ifs at h ⊢ with hcode
  · obtain rfl := Except.ok.inj h
    rfl
  · cases hp : txs.getTxByMsgIndex msgIndex with
    | none => simp [hp] at h
    | some parsedTx =>
      simp only [hp] at h
      split_ifs at h
      obtain rfl := Except.ok.inj h
      rfl

theorem indexEthMsg_tracks {totalMessages : ℕ} {gas' : UInt64}
    (h : indexEthMsg E kv block baseFee result txs response txIndex totalMessages msgIndex ethMsg
      st gas = .ok (st', gas')) (ht : Tracks kv block st es) :
    ∃ e, ethMsgHash E result txs msgIndex ethMsg = some e.hash ∧ Tracks kv block st' (es ++ [e]) := by
  obtain ⟨out, txData, own, sender, rpcTx, price, hout, -, -, -, hrpc, -, -, rfl⟩ := indexEthMsg_ok h
  refine ⟨_, ?_, ht.push (ethEntry_at ht hrpc) fun _ => rfl⟩
  exact ethMsgOutcome_txHash hout

theorem indexMsgs_tracks {msgs : List Msg}
    (h : indexMsgs E kv block baseFee result txs response txIndex msgs st = .ok (st', gas))
    (ht : Tracks kv block st es) :
    ∃ es', es'.map Entry.hash = es.map Entry.hash ++ ethMsgHashes E result txs msgs ∧
      Tracks kv block st' es' := by
  refine forIdx_output (fun hashes (s : IndexState × UInt64) =>
    ∃ es', es'.map Entry.hash = hashes ∧ Tracks kv block s.1 es')
    (fun i (msg : Msg) => (msg.ethereum?.bind (ethMsgHash E result txs i)).toList)
    msgs 0 (st, 0) (st', gas) _ ⟨es, rfl, ht⟩ ?_ h
  intro j msg s s' hashes _ hP hstep
  obtain ⟨es', rfl, ht'⟩ := hP
  cases hmsg : msg.ethereum? with
  | none =>
    rw [hmsg] at hstep
    obtain rfl := Except.ok.inj hstep
    exact ⟨es', by simp, ht'⟩
  | some ethMsg =>
    rw [hmsg] at hstep
    obtain ⟨e, he, ht''⟩ := indexEthMsg_tracks hstep ht'
    rw [Option.bind_some, he]
    exact ⟨es' ++ [e], by simp, ht''⟩

/-- Storing the synthetic transactions of a response appends their entries. -/
theorem indexSyntheticTxs_tracks {rawTx : Bytes} {msgs : List Msg}
    (hkv : response.isSome = true → kv.virtualizationEnabled = true)
    (h : indexSyntheticTxs E kv block response txIndex rawTx msgs gas st = .ok st')
    (ht : Tracks kv block st es) :
    ∃ es', es'.map Entry.hash = es.map Entry.hash ++
        (response.map (·.syntheticHashes E rawTx msgs)).getD [] ∧ Tracks kv block st' es' := by
  cases response with
  | none =>
    obtain rfl := Except.ok.inj h
    exact ⟨es, by simp, ht⟩
  | some response =>
    obtain ⟨txs, htxs, h⟩ := bind_eq_ok.mp h
    obtain rfl := Except.ok.inj h
    rw [orBlockParseError_eq_ok] at htxs
    have hcons : ConsecutiveFrom block st.rpcTxIndex txs :=
      syntheticTxs_consecutive ⟨rfl, rfl⟩ htxs
    rw [ht.rpcTxIndex] at hcons
    have hsame : (st.txContext kv block rawTx msgs gas).Same (hashContext rawTx msgs) :=
      ⟨rfl, rfl, rfl⟩
    have hhash := syntheticHashes_eq hsame htxs
    refine ⟨_, ?_, ht.storeVirtualTxs E (hkv rfl) hcons⟩
    simp [hhash, Entry.hash, virtualEntry]

/-- Virtual events are read exactly with virtualisation. -/
theorem virtualResponse_ok (h : virtualResponse E kv block txIndex result = .ok response) :
    (kv.virtualizationEnabled = true ∧ ∃ r, parseResponse E result = .ok r ∧ response = some r) ∨
      (kv.virtualizationEnabled = false ∧ response = none) := by
  unfold virtualResponse at h
  cases hkv : kv.virtualizationEnabled with
  | false =>
    simp only [hkv, Bool.false_eq_true, if_false] at h
    exact .inr ⟨rfl, (Except.ok.inj h).symm⟩
  | true =>
    simp only [hkv, if_true] at h
    cases hr : parseResponse E result with
    | error e =>
      simp [hr, orBlockParseError, Except.mapError, Functor.map, Except.map] at h
    | ok r =>
      simp only [hr, orBlockParseError, Except.mapError, Functor.map, Except.map,
        Except.ok.injEq] at h
      exact .inl ⟨rfl, r, rfl, h.symm⟩

/-- What an indexed transaction has gone through: its messages when it is an Ethereum one,
and its events in either case. -/
theorem indexTx_ok {txResults : List (Option ExecTxResult)} {rawTx : Bytes}
    (h : indexTx E kv block baseFee txResults txIndex rawTx st = .ok st') :
    ∃ result tx response st₁ gas st₂, txResults[txIndex]? = some (some result) ∧
      E.txDecoder rawTx = .ok tx ∧ virtualResponse E kv block txIndex result = .ok response ∧
      (isEthTx tx = true ∧ (∃ txs, parseTxResult E result (some tx) = .ok txs ∧
          indexMsgs E kv block baseFee result txs response txIndex tx.msgs st = .ok (st₁, gas)) ∨
        isEthTx tx = false ∧ st₁ = st ∧ gas = 0) ∧
      indexSyntheticTxs E kv block response txIndex rawTx tx.msgs gas st₁ = .ok st₂ ∧
      st' = st₂.addGas result.gasUsed.toUInt64 := by
  unfold indexTx at h
  split at h
  · cases h
  · cases h
  · rename_i result hresult
    obtain ⟨tx, htx, h⟩ := bind_eq_ok.mp h
    obtain ⟨response, hresponse, h⟩ := bind_eq_ok.mp h
    rw [orBlockParseError_eq_ok] at htx
    split_ifs at h with heth
    · obtain ⟨txs, htxs, h⟩ := bind_eq_ok.mp h
      obtain ⟨⟨st₁, gas⟩, hmsgs, h⟩ := bind_eq_ok.mp h
      obtain ⟨st₂, hsyn, h⟩ := bind_eq_ok.mp h
      rw [orBlockParseError_eq_ok] at htxs
      exact ⟨result, tx, response, st₁, gas, st₂, hresult, htx, hresponse,
        .inl ⟨heth, txs, htxs, hmsgs⟩, hsyn, (Except.ok.inj h).symm⟩
    · obtain ⟨st₂, hsyn, h⟩ := bind_eq_ok.mp h
      exact ⟨result, tx, response, st, 0, st₂, hresult, htx, hresponse,
        .inr ⟨by simpa using heth, rfl, rfl⟩, hsyn, (Except.ok.inj h).symm⟩

theorem indexTx_tracks {txResults : List (Option ExecTxResult)} {rawTx : Bytes}
    (h : indexTx E kv block baseFee txResults txIndex rawTx st = .ok st')
    (ht : Tracks kv block st es) :
    ∃ result es', txResults[txIndex]? = some (some result) ∧
      es'.map Entry.hash =
        es.map Entry.hash ++ shownByTx E kv.virtualizationEnabled rawTx result ∧
      Tracks kv block st' es' := by
  obtain ⟨result, tx, response, st₁, gas, st₂, hresult, htx, hresp, hmsgs, hst₂, rfl⟩ :=
    indexTx_ok h
  have hvirt := virtualResponse_ok hresp
  have hkv : response.isSome = true → kv.virtualizationEnabled = true := by
    rcases hvirt with ⟨hkv, -⟩ | ⟨-, rfl⟩
    · exact fun _ => hkv
    · simp
  have hsyn : (response.map (·.syntheticHashes E rawTx tx.msgs)).getD [] =
      shownByEvents E kv.virtualizationEnabled rawTx tx result := by
    rcases hvirt with ⟨hon, r, hr, rfl⟩ | ⟨hoff, rfl⟩
    · simp [shownByEvents, hon, hr]
    · simp [shownByEvents, hoff]
  refine ⟨result, ?_⟩
  simp only [shownByTx, htx, ← hsyn]
  rcases hmsgs with ⟨heth, txs, htxs, hmsgs⟩ | ⟨heth, rfl, rfl⟩
  · obtain ⟨es₁, hes₁, ht₁⟩ := indexMsgs_tracks hmsgs ht
    obtain ⟨es₂, hes₂, ht₂⟩ := indexSyntheticTxs_tracks hkv hst₂ ht₁
    refine ⟨es₂, hresult, ?_, ht₂.addGas _⟩
    rw [hes₂, hes₁, shownByMsgs, if_pos heth, htxs, List.append_assoc]
  · obtain ⟨es₂, hes₂, ht₂⟩ := indexSyntheticTxs_tracks hkv hst₂ ht
    exact ⟨es₂, hresult, by simpa [shownByMsgs, heth] using hes₂, ht₂.addGas _⟩

theorem storeBlockPhase_tracks (E : Env) (hash : Hash) (logs : List EthLog) (gas : UInt64)
    (hkv : logs ≠ [] → kv.virtualizationEnabled = true) (ht : Tracks kv block st es) :
    ∃ es', es'.map Entry.hash = es.map Entry.hash ++ shownByPhase hash logs ∧
      Tracks kv block (st.storeBlockPhase E kv block hash logs gas) es' := by
  unfold IndexState.storeBlockPhase shownByPhase
  split
  · exact ⟨es, by simp, ht⟩
  · rename_i hne
    have hat : VirtualTx.At block es.length (newBlockTx hash logs
        (st.virtualLogContext block hash st.rpcTxIndex) kv.virtualChainID gas) := by
      rw [← ht.rpcTxIndex]
      exact newBlockTx_at ..
    refine ⟨_, ?_, ht.storeVirtualTxs E (hkv (by simpa using hne))
      (.cons hat (consecutiveFrom_nil block _))⟩
    simp [Entry.hash, virtualEntry, newBlockTx, newVirtualRPCTransaction]

/-- The phases of an indexed block have the logs the block shows. -/
theorem blockPhaseLogs_ok {results : Option BlockResults} {logs : List EthLog × List EthLog}
    (h : blockPhaseLogs E kv block results = .ok logs) :
    phaseLogs E kv.virtualizationEnabled results = logs ∧
      (kv.virtualizationEnabled = false → logs = ([], [])) := by
  unfold blockPhaseLogs at h
  unfold phaseLogs
  cases results with
  | none =>
    obtain rfl := Except.ok.inj h
    simp
  | some r =>
    cases hkv : kv.virtualizationEnabled with
    | false =>
      simp only [hkv, Bool.false_eq_true, if_false] at h
      obtain rfl := Except.ok.inj h
      simp
    | true =>
      simp only [hkv, if_true, orBlockParseError_eq_ok] at h
      simp [h]

/-- A phase has logs with virtualisation only. -/
theorem virtual_of_blockPhaseLogs {results : Option BlockResults} {beginLogs endLogs : List EthLog}
    (h : blockPhaseLogs E kv block results = .ok (beginLogs, endLogs)) :
    ∀ logs ∈ [beginLogs, endLogs], logs ≠ [] → kv.virtualizationEnabled = true := by
  intro logs hmem hne
  by_contra hoff
  obtain ⟨rfl, rfl⟩ := Prod.mk.inj ((blockPhaseLogs_ok h).2 (by simpa using hoff))
  simp_all

/-- What a built block has gone through. -/
theorem buildBlock_ok {results : Option BlockResults} (h : buildBlock E kv block results = .ok st) :
    ∃ txResults beginLogs endLogs st₁,
      normalizeTxResponseIndexes E (blockTxResults results) = .ok txResults ∧
      blockPhaseLogs E kv block results = .ok (beginLogs, endLogs) ∧
      forIdx (indexTx E kv block (blockBaseFeeFromResults E results) txResults) 0 block.txs
        (IndexState.storeBlockPhase E kv block (beginBlockHash E block.height) beginLogs 0 {}) =
          .ok st₁ ∧
      st = st₁.storeBlockPhase E kv block (endBlockHash E block.height) endLogs
        st₁.blockResultGasUsedBeforeTx := by
  unfold buildBlock at h
  obtain ⟨txResults, hnorm, h⟩ := bind_eq_ok.mp h
  obtain ⟨⟨beginLogs, endLogs⟩, hphase, h⟩ := bind_eq_ok.mp h
  obtain ⟨st₁, hloop, h⟩ := bind_eq_ok.mp h
  rw [orBlockParseError_eq_ok] at hnorm
  exact ⟨txResults, beginLogs, endLogs, st₁, hnorm, hphase, hloop, (Except.ok.inj h).symm⟩

/-- **The loop invariant at the end of a block**: one entry for each hash the block
shows. -/
theorem buildBlock_tracks {results : Option BlockResults}
    (h : buildBlock E kv block results = .ok st) :
    ∃ es, es.map Entry.hash = shownByBlock E kv.virtualizationEnabled block results ∧
      Tracks kv block st es := by
  obtain ⟨txResults, beginLogs, endLogs, st₁, hnorm, hphase, hloop, rfl⟩ := buildBlock_ok h
  have hlogs := (blockPhaseLogs_ok hphase).1
  have hvirtual := virtual_of_blockPhaseLogs hphase
  obtain ⟨es₀, hes₀, ht₀⟩ := storeBlockPhase_tracks E (beginBlockHash E block.height) beginLogs 0
    (hvirtual beginLogs (by simp)) (Tracks.init kv block)
  obtain ⟨es₁, hes₁, ht₁⟩ := forIdx_output
    (fun hashes s => ∃ es, es.map Entry.hash = hashes ∧ Tracks kv block s es)
    (shownAt E kv.virtualizationEnabled results) block.txs 0 _ st₁ _ ⟨es₀, rfl, ht₀⟩ (by
    intro j rawTx s s' hashes _ hP hstep
    obtain ⟨es, rfl, ht⟩ := hP
    obtain ⟨result, es', hresult, hes', ht'⟩ := indexTx_tracks hstep ht
    refine ⟨es', ?_, ht'⟩
    obtain ⟨res, hres, heq⟩ := normalizeResults_getElem? hnorm hresult
    have hsame : shownByTx E kv.virtualizationEnabled rawTx result =
        shownByTx E kv.virtualizationEnabled rawTx res := by
      rw [heq]
      rfl
    simp only [shownAt, hres, hes', hsame]) hloop
  obtain ⟨es₂, hes₂, ht₂⟩ := storeBlockPhase_tracks E (endBlockHash E block.height) endLogs
    st₁.blockResultGasUsedBeforeTx (hvirtual endLogs (by simp)) ht₁
  refine ⟨es₂, ?_, ht₂⟩
  rw [hes₂, hes₁, hes₀, shownByBlock, hlogs]
  simp

end Loop

end EvmGateway
