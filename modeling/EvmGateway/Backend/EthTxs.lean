import EvmGateway.Backend.LiveView
import EvmGateway.Indexer.Lookup

/-!
# Where Ethereum transactions stand

An Ethereum transaction is a message of a transaction of a block, and its hash is the one
its result gives it.  `EthTxAt` says this in terms of the node's data alone.

The store remembers the place under the hash.  Whatever it holds was written by a block of
its history (`exists_source_of_get?`), so the records of a hash carry that hash
(`hash_of_rpcTxHash`, `hash_of_receipt`), and a result is filed under the hash of the
Ethereum message it names (`ethTxAt_of_txHash`).  Synthetic transactions have no result.

## Main definitions

* `EthTxAt` — the place of an Ethereum transaction.
* `IndexState.Located` — the invariant of the indexing loop.
-/

namespace EvmGateway

open Lib

variable {x : Hash} {E : Env} {i : ℕ} {rawTx : Bytes}

/-- Message `j` of transaction `i` of the block is an Ethereum transaction with hash `x`. -/
def EthTxAt (E : Env) (block : Block) (txResults : List (Option ExecTxResult)) (x : Hash)
    (i j : ℕ) : Prop :=
  ∃ normalized rawTx result tx parsedTxs msg ethMsg txData,
    normalizeTxResponseIndexes E txResults = .ok normalized ∧
    block.txs[i]? = some rawTx ∧ normalized[i]? = some (some result) ∧
    E.txDecoder rawTx = .ok tx ∧ liveParsedTxs E result tx = .ok parsedTxs ∧
    tx.msgs[j]? = some msg ∧ msg.ethereum? = some ethMsg ∧ ethMsg.asTransaction = some txData ∧
    (liveMsgOutcome E result parsedTxs j ethMsg).txHash = x

/-! ## The indexing loop -/

/-- The invariant of the indexing loop: every result in the batch is filed under the hash of
the message it names. -/
def IndexState.Located (E : Env) (block : Block) (txResults : List (Option ExecTxResult))
    (st : IndexState) : Prop :=
  ∀ (x : Hash) (r : TxResult), lastWrite st.batch (.txHash x) = some (some r) →
    EthTxAt E block txResults x r.txIndex r.msgIndex

/-- A message that is indexed shows the hash that a live view gives it. -/
theorem liveMsgOutcome_of_ethMsgHash {result : ExecTxResult} {txs : ParsedTxs} {j : ℕ}
    {ethMsg : MsgEthereumTx} (h : ethMsgHash E result txs j ethMsg = some x) :
    (liveMsgOutcome E result (some txs) j ethMsg).txHash = x := by
  unfold ethMsgHash at h
  unfold liveMsgOutcome
  split_ifs at h ⊢ with hcode
  · exact Option.some.inj h
  · obtain ⟨parsedTx, hparsed, rfl⟩ := Option.map_eq_some_iff.mp h
    simp only [hparsed]

namespace IndexState.Located

variable {E : Env} {kv : KVIndexer} {block : Block} {st st' : IndexState}
  {txResults : List (Option ExecTxResult)}

theorem init : IndexState.Located E block txResults {} := by
  intro x r h
  cases h

variable (h : st.Located E block txResults)

include h

theorem append {e : Entry} (hbatch : st'.batch = st.batch ++ e.writes block.height)
    (he : ∀ r, e.result = some r → EthTxAt E block txResults e.hash r.txIndex r.msgIndex) :
    st'.Located E block txResults := by
  intro x r hr
  rw [hbatch, lastWrite_append, Entry.lastWrite_writes, Option.or_eq_some_iff] at hr
  rcases hr with hr | ⟨-, hr⟩
  · obtain ⟨v, hv, hvr⟩ := Option.map_eq_some_iff.mp hr
    obtain rfl := Option.some.inj hvr
    rw [Entry.get, Option.ite_none_right_eq_some] at hv
    obtain ⟨rfl, hv⟩ := hv
    exact he v hv
  · exact h x r hr

theorem storeVirtualTx (tx : VirtualTx) :
    (st.storeVirtualTx E kv block tx).Located E block txResults :=
  h.append (e := virtualEntry E tx) rfl fun _ hr => nomatch hr

theorem storeVirtualTxs (txs : List VirtualTx) :
    (txs.foldl (IndexState.storeVirtualTx E kv block) st).Located E block txResults := by
  induction txs generalizing st with
  | nil => exact h
  | cons tx txs ih => exact ih (h.storeVirtualTx tx)

theorem storeBlockPhase (hash : Hash) (logs : List EthLog) (gas : UInt64) :
    (st.storeBlockPhase E kv block hash logs gas).Located E block txResults := by
  unfold IndexState.storeBlockPhase
  split_ifs
  · exact h
  · exact h.storeVirtualTx _

theorem indexSyntheticTxs {response : Option Response} {msgs : List Msg} {gas : UInt64}
    (hsyn : EvmGateway.indexSyntheticTxs E kv block response i rawTx msgs gas st = .ok st') :
    st'.Located E block txResults := by
  cases response with
  | none =>
    obtain rfl := Except.ok.inj hsyn
    exact h
  | some response =>
    obtain ⟨txs, -, hsyn⟩ := bind_eq_ok.mp hsyn
    obtain rfl := Except.ok.inj hsyn
    exact h.storeVirtualTxs txs

/-- The messages of an Ethereum transaction are filed under their hashes. -/
theorem indexMsgs {baseFee : Option ℤ} {normalized : List (Option ExecTxResult)}
    {result : ExecTxResult} {txs : ParsedTxs} {response : Option Response} {tx : SdkTx}
    {gas : UInt64} (hnorm : normalizeTxResponseIndexes E txResults = .ok normalized)
    (hraw : block.txs[i]? = some rawTx) (hresult : normalized[i]? = some (some result))
    (htx : E.txDecoder rawTx = .ok tx) (htxs : parseTxResult E result (some tx) = .ok txs)
    (hmsgs : EvmGateway.indexMsgs E kv block baseFee result txs response i tx.msgs st =
      .ok (st', gas)) : st'.Located E block txResults := by
  refine forIdx_induction (fun _ (s : IndexState × UInt64) => s.1.Located E block txResults)
    tx.msgs 0 (st, 0) (st', gas) h ?_ hmsgs
  intro j msg s s' hmsg hs hstep
  rw [Nat.zero_add] at hstep
  cases heth : msg.ethereum? with
  | none =>
    simp only [heth] at hstep
    obtain rfl := Except.ok.inj hstep
    exact hs
  | some ethMsg =>
    simp only [heth] at hstep
    obtain ⟨out, txData, own, sender, rpcTx, price, hout, hdata, -, -, -, -, -, hpush⟩ :=
      indexEthMsg_ok hstep
    rw [hpush]
    refine hs.append rfl fun r hr => ?_
    obtain rfl := Option.some.inj hr
    have hparsed : liveParsedTxs E result tx = .ok (some txs) := by rw [liveParsedTxs, htxs]
    exact ⟨normalized, rawTx, result, tx, some txs, msg, ethMsg, txData, hnorm, hraw, hresult, htx,
      hparsed, hmsg, heth, hdata, liveMsgOutcome_of_ethMsgHash (ethMsgOutcome_txHash hout)⟩

theorem indexTx {baseFee : Option ℤ} {normalized : List (Option ExecTxResult)}
    (hnorm : normalizeTxResponseIndexes E txResults = .ok normalized)
    (hraw : block.txs[i]? = some rawTx)
    (htx : EvmGateway.indexTx E kv block baseFee normalized i rawTx st = .ok st') :
    st'.Located E block txResults := by
  obtain ⟨result, tx, response, st₁, gas, st₂, hresult, hdec, -, hmsgs, hsyn, rfl⟩ := indexTx_ok htx
  have hst₁ : st₁.Located E block txResults := by
    rcases hmsgs with ⟨-, txs, htxs, hmsgs⟩ | ⟨-, rfl, -⟩
    · exact h.indexMsgs hnorm hraw hresult hdec htxs hmsgs
    · exact h
  have hst₂ := hst₁.indexSyntheticTxs hsyn
  exact hst₂

end IndexState.Located

/-- The loop files every result under the hash of the message it names. -/
theorem located_of_buildBlock {kv : KVIndexer} {block : Block} {results : Option BlockResults}
    {st : IndexState} (h : buildBlock E kv block results = .ok st) :
    st.Located E block (blockTxResults results) := by
  obtain ⟨normalized, beginLogs, endLogs, st₁, hnorm, -, hloop, rfl⟩ := buildBlock_ok h
  have hst₁ : st₁.Located E block (blockTxResults results) := by
    refine forIdx_induction (fun _ s => s.Located E block (blockTxResults results)) block.txs 0 _
      st₁ (IndexState.Located.init.storeBlockPhase _ beginLogs 0) ?_ hloop
    intro i rawTx s s' hraw hs hstep
    rw [Nat.zero_add] at hstep
    exact hs.indexTx hnorm hraw hstep
  exact hst₁.storeBlockPhase _ endLogs _

/-- A result a block stores is filed under the hash of the message it names. -/
theorem Source.Yields.ethTxAt {src : Source} {R : BlockRecords} (h : src.Yields E R)
    {r : TxResult} (hr : R.get (.txHash x) = some r) :
    r.height = src.block.height ∧
      EthTxAt E src.block (blockTxResults src.results) x r.txIndex r.msgIndex := by
  constructor
  · rcases BlockRecords.exists_of_get hr with hb | ⟨e, he, hv⟩
    · cases hb
    · rw [Entry.get, Option.ite_none_right_eq_some] at hv
      obtain ⟨p, hp⟩ := List.mem_iff_getElem?.mp he
      rw [← h.block]
      exact ((R.entry_at p e hp).result_position r hv.2).1
  · obtain ⟨n, hn⟩ := h.writes
    obtain ⟨st, root, hst, hws⟩ := exists_buildBlock hn
    have hlast : lastWrite R.writes (.txHash x) = some (some r) := by
      rw [R.lastWrite_writes, hr]
      rfl
    rw [hws, lastWrite_append, Option.or_eq_some_iff] at hlast
    rcases hlast with hclose | ⟨-, hbatch⟩
    · simp [IndexState.closeBlock, Write.at_set_of_ne] at hclose
    · exact located_of_buildBlock hst x r hbatch

/-! ## Histories -/

section Histories

variable {E : Env} {calls : List Call} {db : DB}

theorem hash_of_rpcTxHash (hrun : run (Call.exec E) ∅ calls = .ok db) {tx : RPCTransaction}
    (h : db.get? (.rpcTxHash x) = some tx) : tx.hash = x := by
  obtain ⟨src, R, -, -, hget⟩ := exists_source_of_get? hrun rfl h
  rcases BlockRecords.exists_of_get hget with hb | ⟨e, -, hv⟩
  · cases hb
  · rw [Entry.get, Option.ite_none_right_eq_some] at hv
    obtain ⟨hx, htx⟩ := hv
    obtain rfl := Option.some.inj htx
    exact hx

theorem hash_of_receipt (hrun : run (Call.exec E) ∅ calls = .ok db) {receipt : CachedReceipt}
    (h : db.get? (.receipt x) = some receipt) :
    receipt.toMap.transactionHash = x := by
  obtain ⟨src, R, -, -, hget⟩ := exists_source_of_get? hrun rfl h
  rcases BlockRecords.exists_of_get hget with hb | ⟨e, he, hv⟩
  · cases hb
  · rw [Entry.get, Option.ite_none_right_eq_some] at hv
    obtain ⟨rfl, hreceipt⟩ := hv
    obtain rfl := Option.some.inj hreceipt
    obtain ⟨p, hp⟩ := List.mem_iff_getElem?.mp he
    change hexToHash e.receipt.transactionHash = e.hash
    rw [(R.entry_at p e hp).receipt_hash, hexToHash_hex]

/-- **A stored result** names an Ethereum message of a block of the history, with the hash it
is stored under. -/
theorem ethTxAt_of_txHash (hrun : run (Call.exec E) ∅ calls = .ok db) {r : TxResult}
    (h : db.get? (.txHash x) = some r) :
    ∃ kv block results, Call.index kv block results ∈ calls ∧ r.height = block.height ∧
      EthTxAt E block (blockTxResults results) x r.txIndex r.msgIndex := by
  obtain ⟨src, R, hmem, hR, hget⟩ := exists_source_of_get? hrun rfl h
  obtain ⟨hheight, hat⟩ := hR.ethTxAt hget
  exact ⟨src.kv, src.block, src.results, hmem, hheight, hat⟩

end Histories

end EvmGateway
