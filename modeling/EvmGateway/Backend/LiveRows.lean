import EvmGateway.Backend.LiveView
import EvmGateway.Indexer.Records
import EvmGateway.Virtual.Synthetic

/-!
# The rows of a live view

The three lists of a live view belong together: the transaction, the receipt and the log
group at a position are about one hash, the position is the one they carry, and the logs
name both.  This holds for every view the loop returns, whatever the node's data
(`rows_of_view`); the loop appends one row at a time, at the position it counts.

The hashes of the rows can be read off the block and its results (`hashes_of_view`).
-/

namespace EvmGateway

open Lib

variable {baseFee : Option ℤ} {view : LiveView} {txResults : List (Option ExecTxResult)}
  {txIndex : ℕ} {rawTx : Bytes} {result : ExecTxResult} {parsedTxs : Option ParsedTxs}
  {response : Response} {gas : UInt64}

/-! ## The loop, from its results -/

section Inversion

variable {E : Env} {b : Backend} {block : Block} {st st' : LiveState}

/-- A message appends a row with the hash of its outcome, if it is an Ethereum one. -/
theorem liveMsg_ok {totalMessages msgIndex : ℕ} {msg : Msg} {gas' : UInt64}
    (h : liveMsg E b block baseFee result parsedTxs response totalMessages msgIndex msg (st, gas) =
      .ok (st', gas')) :
    (msg.ethereum? = none ∧ st' = st) ∨ ∃ ethMsg rpcTx receipt, msg.ethereum? = some ethMsg ∧
      newRPCTransaction E ethMsg block.ethHash block.height st.rpcTxIndex baseFee
        (some b.chainID) = .ok rpcTx ∧
      receipt.transactionHash = (liveMsgOutcome E result parsedTxs msgIndex ethMsg).txHash ∧
      receipt.transactionIndex = st.rpcTxIndex ∧ receipt.blockNumber = block.height ∧
      receipt.logs = st.messageLogs block response receipt.transactionHash msgIndex totalMessages
        (liveMsgLogs E result.data msgIndex block.height) ∧
      st' = st.append { rpcTx with hash := (liveMsgOutcome E result parsedTxs msgIndex
        ethMsg).txHash } receipt := by
  unfold liveMsg at h
  cases heth : msg.ethereum? with
  | none =>
    simp only [heth] at h
    exact .inl ⟨rfl, (Prod.mk.inj (Except.ok.inj h)).1.symm⟩
  | some ethMsg =>
    simp only [heth, liveEthMsg] at h
    cases hdata : ethMsg.asTransaction with
    | none => simp [hdata] at h
    | some txData =>
      simp only [hdata] at h
      obtain ⟨sender, -, h⟩ := bind_eq_ok.mp h
      obtain ⟨rpcTx, hrpc, h⟩ := bind_eq_ok.mp h
      refine .inr ⟨ethMsg, rpcTx, _, rfl, hrpc, ?_, ?_, ?_, ?_,
        (Prod.mk.inj (Except.ok.inj h)).1.symm⟩ <;> rfl

/-- A transaction that decodes appends the rows of its messages, then its synthetic ones. -/
theorem liveTx_ok (h : liveTx E b block baseFee txResults txIndex rawTx st = .ok st') :
    ∃ result, txResults[txIndex]? = some (some result) ∧
      ((∃ e, E.txDecoder rawTx = .error e ∧ st' = st.addGas result.gasUsed.toUInt64) ∨
        ∃ tx response parsedTxs st₁ gas virtualTxs, E.txDecoder rawTx = .ok tx ∧
          parseResponse E result = .ok response ∧ liveParsedTxs E result tx = .ok parsedTxs ∧
          liveMsgs E b block baseFee result parsedTxs response tx.msgs st = .ok (st₁, gas) ∧
          response.syntheticTxs E (st₁.txContext b block rawTx tx.msgs gas) = .ok virtualTxs ∧
          st' = (virtualTxs.foldl (LiveState.appendVirtualTx E) st₁).addGas
            result.gasUsed.toUInt64) := by
  unfold liveTx at h
  rcases hres : txResults[txIndex]? with _ | _ | result
  · simp [hres] at h
  · simp [hres] at h
  · refine ⟨result, rfl, ?_⟩
    cases hdec : E.txDecoder rawTx with
    | error e =>
      simp only [hres, hdec] at h
      exact .inl ⟨e, rfl, (Except.ok.inj h).symm⟩
    | ok tx =>
      simp only [hres, hdec] at h
      obtain ⟨response, hresponse, h⟩ := bind_eq_ok.mp h
      obtain ⟨parsedTxs, hparsed, h⟩ := bind_eq_ok.mp h
      obtain ⟨⟨st₁, gas⟩, hmsgs, h⟩ := bind_eq_ok.mp h
      obtain ⟨virtualTxs, hvirtual, h⟩ := bind_eq_ok.mp h
      exact .inr ⟨tx, response, parsedTxs, st₁, gas, virtualTxs, rfl, hresponse, hparsed, hmsgs,
        hvirtual, (Except.ok.inj h).symm⟩

/-- The view of a block comes from one pass over its transactions, between its two phases. -/
theorem liveVirtualBlockView_ok {blockRes : Option BlockResults}
    (h : liveVirtualBlockView E b (some block) blockRes = .ok view) :
    ∃ results txResults logs st, blockRes = some results ∧
      normalizeTxResponseIndexes E results.txResults = .ok txResults ∧
      splitBlockEvents E results.finalizeBlockEvents = .ok logs ∧
      forIdx (liveTx E b block (b.baseFeeOrNil E results) txResults) 0 block.txs
        (LiveState.appendBlockPhase E b block (beginBlockHash E block.height) logs.1 0 {}) = .ok st ∧
      view = (st.appendBlockPhase E b block (endBlockHash E block.height) logs.2
        st.blockResultGasUsedBeforeTx).view := by
  cases blockRes with
  | none => simp [liveVirtualBlockView] at h
  | some results =>
    obtain ⟨txResults, hnorm, h⟩ := bind_eq_ok.mp h
    obtain ⟨logs, hlogs, h⟩ := bind_eq_ok.mp h
    obtain ⟨st, hst, h⟩ := bind_eq_ok.mp h
    exact ⟨results, txResults, logs, st, rfl, hnorm, hlogs, hst, (Except.ok.inj h).symm⟩

end Inversion

/-! ## Rows -/

/-- A transaction and a receipt of a block at a visible position; the logs name both. -/
structure LiveRow (block : Block) (i : ℕ) (tx : RPCTransaction) (receipt : ReceiptMap) : Prop where
  hash : receipt.transactionHash = tx.hash
  index : receipt.transactionIndex = i
  blockNumber : receipt.blockNumber = block.height
  logs : ∀ log ∈ receipt.logs, log.txHash = receipt.transactionHash ∧ log.txIndex = i
  tx_position : block.ethHash ≠ 0 →
    tx.blockNumber = some block.height ∧ tx.transactionIndex = some i

/-- The lists of the view run in parallel. -/
structure LiveView.Rows (block : Block) (view : LiveView) : Prop where
  length : view.receipts.length = view.transactions.length
  logs : view.logs = view.receipts.map (·.logs)
  row : ∀ i tx receipt, view.transactions[i]? = some tx → view.receipts[i]? = some receipt →
    LiveRow block i tx receipt

/-- The invariant of the loop: the lists run in parallel, and the next position is their
length. -/
structure LiveState.Rows (block : Block) (st : LiveState) : Prop where
  view : st.view.Rows block
  rpcTxIndex : st.rpcTxIndex = st.view.transactions.length

namespace LiveState.Rows

variable {E : Env} {b : Backend} {block : Block} {st st' : LiveState}

theorem init (block : Block) : LiveState.Rows block {} where
  view := ⟨rfl, rfl, fun i tx receipt h => by simp at h⟩
  rpcTxIndex := rfl

theorem addGas (h : st.Rows block) (gas : UInt64) : (st.addGas gas).Rows block :=
    ⟨h.view, h.rpcTxIndex⟩

/-- Appending a row at the next position. -/
theorem append (h : st.Rows block) {tx : RPCTransaction} {receipt : ReceiptMap}
    (hrow : LiveRow block st.rpcTxIndex tx receipt) : (st.append tx receipt).Rows block where
  view := {
    length := by simp [LiveState.append, h.view.length]
    logs := by simp [LiveState.append, h.view.logs]
    row := by
      intro i tx' receipt' htx hreceipt
      simp only [LiveState.append, List.getElem?_append, h.view.length] at htx hreceipt
      split_ifs at htx hreceipt with hi
      · exact h.view.row i tx' receipt' htx hreceipt
      · simp only [List.getElem?_singleton, Option.ite_none_right_eq_some,
          Option.some.injEq] at htx hreceipt
        obtain ⟨hzero, rfl⟩ := htx
        obtain ⟨-, rfl⟩ := hreceipt
        rw [h.rpcTxIndex] at hrow
        rwa [show i = st.view.transactions.length by omega] }
  rpcTxIndex := by simp [LiveState.append, h.rpcTxIndex]

theorem appendVirtualTx (h : st.Rows block) {tx : VirtualTx} (hat : tx.At block st.rpcTxIndex)
    (hown : tx.OwnLogs) : (st.appendVirtualTx E tx).Rows block := by
  refine h.append ⟨hat.receipt_hash, hat.receipt_index, hat.receipt_blockNumber, fun log hlog => ?_,
    fun _ => ⟨hat.tx_blockNumber, hat.tx_index⟩⟩
  rw [← hat.receipt_index]
  exact hown log hlog

theorem appendVirtualTxs (h : st.Rows block) {txs : List VirtualTx}
    (htxs : ConsecutiveFrom block st.rpcTxIndex txs) (hown : ∀ tx ∈ txs, tx.OwnLogs) :
    (txs.foldl (LiveState.appendVirtualTx E) st).Rows block := by
  induction txs generalizing st with
  | nil => exact h
  | cons tx txs ih =>
    obtain ⟨htx, hown⟩ := List.forall_mem_cons.mp hown
    refine ih (h.appendVirtualTx (htxs 0 tx rfl) htx) (fun k tx' hk => ?_) hown
    have := htxs (k + 1) tx' hk
    rwa [show st.rpcTxIndex + (k + 1) = st.rpcTxIndex + 1 + k by omega] at this

theorem appendBlockPhase (h : st.Rows block) (hash : Hash) (logs : List EthLog) (gas : UInt64) :
    (st.appendBlockPhase E b block hash logs gas).Rows block := by
  unfold LiveState.appendBlockPhase
  split_ifs
  · exact h
  · exact h.appendVirtualTx ⟨rfl, rfl, rfl, rfl, rfl, rfl, rfl, rfl⟩
      fun log hlog => of_mem_setLogMetadata hlog

theorem liveMsgs (h : st.Rows block) {msgs : List Msg}
    (hmsgs : EvmGateway.liveMsgs E b block baseFee result parsedTxs response msgs st =
      .ok (st', gas)) : st'.Rows block := by
  refine forIdx_induction (fun _ s => s.1.Rows block) msgs 0 (st, 0) (st', gas) h ?_ hmsgs
  intro _ _ s _ _ hs hstep
  rcases liveMsg_ok hstep with ⟨-, heq⟩ | ⟨ethMsg, rpcTx, receipt, -, hrpc, hhash, hindex, hnumber,
    hlogs, heq⟩
  · rw [heq]
    exact hs
  · rw [heq]
    refine hs.append ⟨hhash, hindex, hnumber, fun log hlog => ?_,
      fun hne => (newRPCTransaction_position hrpc hne).2⟩
    -- own and virtual logs get the identity of the message
    rw [hlogs] at hlog
    rcases List.mem_append.mp hlog with hlog | hlog
    · exact of_mem_setLogMetadata hlog
    · exact of_mem_setLogMetadata hlog

theorem liveTx (h : st.Rows block)
    (htx : EvmGateway.liveTx E b block baseFee txResults txIndex rawTx st = .ok st') :
    st'.Rows block := by
  obtain ⟨result, -, ⟨e, -, rfl⟩ | ⟨tx, response, parsedTxs, st₁, gas, virtualTxs, -, -, -, hmsgs,
    hvirtual, rfl⟩⟩ := liveTx_ok htx
  · exact h.addGas _
  · have hcons : ConsecutiveFrom block st₁.rpcTxIndex virtualTxs :=
      syntheticTxs_consecutive ⟨rfl, rfl⟩ hvirtual
    exact ((h.liveMsgs hmsgs).appendVirtualTxs hcons (syntheticTxs_ownLogs hvirtual)).addGas _

end LiveState.Rows

/-- **The lists of a live view run in parallel.** -/
theorem rows_of_view {E : Env} {b : Backend} {block : Block} {blockRes : Option BlockResults}
    (h : liveVirtualBlockView E b (some block) blockRes = .ok view) :
    view.Rows block := by
  obtain ⟨results, txResults, logs, st, -, -, -, hst, rfl⟩ := liveVirtualBlockView_ok h
  have hbegin := (LiveState.Rows.init block).appendBlockPhase (E := E) (b := b)
    (beginBlockHash E block.height) logs.1 0
  have hloop : st.Rows block := forIdx_induction (fun _ s => s.Rows block) block.txs 0 _ st hbegin
    (fun _ _ _ _ _ hs hstep => hs.liveTx hstep) hst
  exact (hloop.appendBlockPhase _ logs.2 _).view

namespace LiveView.Rows

variable {block : Block} {view : LiveView}

theorem exists_row (h : view.Rows block) {i : ℕ} (hi : i < view.transactions.length) :
    ∃ tx receipt, view.transactions[i]? = some tx ∧ view.receipts[i]? = some receipt ∧
      LiveRow block i tx receipt := by
  have htx := List.getElem?_eq_getElem hi
  have hreceipt := List.getElem?_eq_getElem (h.length ▸ hi)
  exact ⟨_, _, htx, hreceipt, h.row i _ _ htx hreceipt⟩

theorem hashes (h : view.Rows block) :
    view.receipts.map (·.transactionHash) = view.transactions.map (·.hash) := by
  refine List.ext_getElem? fun i => ?_
  rw [List.getElem?_map, List.getElem?_map]
  by_cases hi : i < view.transactions.length
  · obtain ⟨tx, receipt, htx, hreceipt, hrow⟩ := h.exists_row hi
    rw [htx, hreceipt, Option.map_some, Option.map_some, hrow.hash]
  · have hnone := List.getElem?_eq_none (not_lt.mp hi)
    rw [hnone, List.getElem?_eq_none (h.length.trans_le (not_lt.mp hi))]
    rfl

theorem getElem?_of_mem_logs (h : view.Rows block) {group : List RPCLog} {log : RPCLog}
    (hgroup : group ∈ view.logs) (hlog : log ∈ group) :
    (view.transactions.map (·.hash))[log.txIndex]? = some log.txHash := by
  rw [h.logs] at hgroup
  obtain ⟨receipt, hmem, rfl⟩ := List.mem_map.mp hgroup
  obtain ⟨i, hi⟩ := List.mem_iff_getElem?.mp hmem
  obtain ⟨hlt, -⟩ := List.getElem?_eq_some_iff.mp hi
  obtain ⟨tx, receipt', -, hreceipt', hrow⟩ := h.exists_row (h.length ▸ hlt)
  obtain rfl := Option.some.inj (hi.symm.trans hreceipt')
  obtain ⟨hx, hindex⟩ := hrow.logs log hlog
  rw [hx, hindex, ← h.hashes, List.getElem?_map, hi]
  rfl

end LiveView.Rows

/-! ## The hashes of a view -/

def liveMsgHashes (E : Env) (result : ExecTxResult) (parsedTxs : Option ParsedTxs)
    (msgs : List Msg) : List Hash :=
  msgs.zipIdx.flatMap fun e =>
    (e.1.ethereum?.map fun ethMsg => (liveMsgOutcome E result parsedTxs e.2 ethMsg).txHash).toList

/-- The hashes the transaction at a position of the node's block shows. -/
def liveTxHashes (E : Env) (txResults : List (Option ExecTxResult)) (txIndex : ℕ) (rawTx : Bytes) :
    List Hash :=
  match txResults[txIndex]?, E.txDecoder rawTx with
  | some (some result), .ok tx =>
    liveMsgHashes E result (parseTxResult E result (some tx)).toOption tx.msgs ++
      shownByEvents E true rawTx tx result
  | _, _ => []

/-- The hashes the node's block shows, in order. -/
def liveHashes (E : Env) (block : Block) (results : BlockResults) : List Hash :=
  match normalizeTxResponseIndexes E results.txResults with
  | .error _ => []
  | .ok txResults =>
    shownByPhase (beginBlockHash E block.height) (phaseLogs E true (some results)).1 ++
    (block.txs.zipIdx.flatMap fun e => liveTxHashes E txResults e.2 e.1) ++
    shownByPhase (endBlockHash E block.height) (phaseLogs E true (some results)).2

/-- The hashes of the rows so far. -/
def LiveState.hashes (st : LiveState) : List Hash := st.view.transactions.map (·.hash)

section Hashes

variable {E : Env} {b : Backend} {block : Block} {st st' : LiveState}

theorem hashes_append (tx : RPCTransaction) (receipt : ReceiptMap) :
    (st.append tx receipt).hashes = st.hashes ++ [tx.hash] := by
  simp [LiveState.hashes, LiveState.append]

theorem hashes_appendVirtualTxs (txs : List VirtualTx) :
    (txs.foldl (LiveState.appendVirtualTx E) st).hashes =
      st.hashes ++ txs.map (·.transaction.hash) := by
  induction txs generalizing st with
  | nil => simp
  | cons tx txs ih =>
    rw [List.foldl_cons, ih, LiveState.appendVirtualTx, hashes_append]
    simp

theorem hashes_appendBlockPhase (hash : Hash) (logs : List EthLog) (gas : UInt64) :
    (st.appendBlockPhase E b block hash logs gas).hashes = st.hashes ++ shownByPhase hash logs := by
  unfold LiveState.appendBlockPhase shownByPhase
  split_ifs
  · simp
  · rw [LiveState.appendVirtualTx, hashes_append]
    rfl

theorem hashes_liveMsgs {msgs : List Msg}
    (h : liveMsgs E b block baseFee result parsedTxs response msgs st = .ok (st', gas)) :
    st'.hashes = st.hashes ++ liveMsgHashes E result parsedTxs msgs := by
  refine forIdx_output (fun l (s : LiveState × UInt64) => s.1.hashes = l) (fun i msg =>
    (msg.ethereum?.map fun ethMsg => (liveMsgOutcome E result parsedTxs i ethMsg).txHash).toList)
    msgs 0 (st, 0) (st', gas) st.hashes rfl ?_ h
  rintro i msg ⟨s, g⟩ ⟨s', g'⟩ l _ rfl hstep
  rcases liveMsg_ok hstep with ⟨hnone, rfl⟩ | ⟨ethMsg, rpcTx, receipt, heth, -, -, -, -, -, rfl⟩
  · simp [hnone]
  · simp [heth, hashes_append]

theorem hashes_liveTx (h : liveTx E b block baseFee txResults txIndex rawTx st = .ok st') :
    st'.hashes = st.hashes ++ liveTxHashes E txResults txIndex rawTx := by
  obtain ⟨result, hresult, ⟨e, hdec, rfl⟩ | ⟨tx, response, parsedTxs, st₁, gas, virtualTxs, hdec,
    hresponse, hparsed, hmsgs, hvirtual, rfl⟩⟩ := liveTx_ok h
  · simp [liveTxHashes, hresult, hdec, LiveState.hashes, LiveState.addGas]
  · have hparse : parsedTxs = (parseTxResult E result (some tx)).toOption := by
      unfold liveParsedTxs at hparsed
      cases hparse : parseTxResult E result (some tx) with
      | ok txs =>
        rw [hparse] at hparsed
        exact (Except.ok.inj hparsed).symm
      | error e =>
        simp only [hparse] at hparsed
        split_ifs at hparsed
        exact (Except.ok.inj hparsed).symm
    have hevents : shownByEvents E true rawTx tx result = virtualTxs.map (·.transaction.hash) := by
      have hsame : (st₁.txContext b block rawTx tx.msgs gas).Same (hashContext rawTx tx.msgs) :=
        ⟨rfl, rfl, rfl⟩
      rw [shownByEvents, if_pos rfl, hresponse]
      exact syntheticHashes_eq hsame hvirtual
    simp only [liveTxHashes, hresult, hdec, hevents]
    change (virtualTxs.foldl (LiveState.appendVirtualTx E) st₁).hashes = _
    rw [hashes_appendVirtualTxs, hashes_liveMsgs hmsgs, hparse, List.append_assoc]

/-- **The hashes of a live view** are those of the block. -/
theorem hashes_of_view {results : BlockResults}
    (h : liveVirtualBlockView E b (some block) (some results) = .ok view) :
    view.transactions.map (·.hash) = liveHashes E block results := by
  obtain ⟨results', txResults, logs, st, heq, hnorm, hlogs, hst, rfl⟩ := liveVirtualBlockView_ok h
  obtain rfl := Option.some.inj heq
  have hphases : phaseLogs E true (some results) = logs := by simp [phaseLogs, hlogs]
  have hloop := forIdx_output (fun l (s : LiveState) => s.hashes = l) (fun i rawTx =>
    liveTxHashes E txResults i rawTx) block.txs 0 _ st _ rfl (by
      rintro i rawTx s s' l _ rfl hstep
      exact hashes_liveTx hstep) hst
  simp only [liveHashes, hnorm, hphases]
  change (st.appendBlockPhase E b block _ logs.2 st.blockResultGasUsedBeforeTx).hashes = _
  rw [hashes_appendBlockPhase, hloop, hashes_appendBlockPhase]
  rfl

end Hashes

end EvmGateway
