import EvmGateway.Backend.LiveView
import EvmGateway.Rpc.Lookups
import EvmGateway.Indexer.Lookup

/-!
# The live view agrees with the store

The live loop simulates the indexing loop with virtualisation: whenever the indexer
accepts a block, the live loop gets through it too, and after every step both have seen
the same visible transactions (`LiveAgrees`).  The two loops differ in what they do with
failures, so the simulation has a direction; where the live loop reads more than the
indexer does, the block has to be one a chain can produce (`WellFormedBlock`).

`live_matches_store` is the result for a whole block and the store it was indexed into.
-/

namespace EvmGateway

open Lib

variable {txIndex msgIndex : ℕ} {result : ExecTxResult} {fee liveFee : Option ℤ} {rawTx : Bytes}
  {r : Response} {gas : UInt64} {st' : IndexState} {txs : ParsedTxs}

/-! ## Parsing without a panic -/

theorem foldlM_events_eq {E : Env} {events : List Event}
    (h : ∀ event ∈ events, event.type ≠ E.eventTypeEthereumTx) (p : ParsedTxs) :
    events.foldlM (fun p event =>
      if event.type ≠ E.eventTypeEthereumTx then pure p
      else parseTxFromEvent E p event.attributes) p = (.ok p : Except Err ParsedTxs) := by
  induction events with
  | nil => rfl
  | cons event events ih =>
    rw [List.foldlM_cons, if_pos (h event (by simp))]
    exact ih fun e he => h e (by simp [he])

/-- **Parsing panics only on a failed result with an Ethereum event.** -/
theorem parseTxResult_noPanic {E : Env} {tx : SdkTx}
    (h : result.code ≠ codeTypeOK → ∀ event ∈ result.events, event.type ≠ E.eventTypeEthereumTx) :
    NoPanic (parseTxResult E result (some tx)) := by
  unfold parseTxResult
  have hevents : NoPanic (result.events.foldlM (fun p event =>
      if event.type ≠ E.eventTypeEthereumTx then pure p
      else parseTxFromEvent E p event.attributes) ({} : ParsedTxs)) := by
    refine NoPanic.foldlM (fun event _ p => ?_) _
    split_ifs
    · exact .ok p
    · exact parseTxFromEvent_noPanic E p event.attributes
  refine hevents.bind fun p hp => ?_
  split_ifs with hevm hfail
  · exact parseFromLog_noPanic E _ result _
  · rw [foldlM_events_eq (h hfail.1)] at hp
    obtain rfl := Except.ok.inj hp
    exact .ok _
  · exact .ok p

/-! ## Agreement -/

/-- A live receipt says what the stored one says.  The price is compared only when the
block announces its base fee. -/
structure ReceiptAgrees (priced : Prop) (live stored : ReceiptMap) : Prop where
  status : live.status = stored.status
  cumulativeGasUsed : live.cumulativeGasUsed = stored.cumulativeGasUsed
  gasUsed : live.gasUsed = stored.gasUsed
  logs : live.logs = stored.logs
  transactionHash : live.transactionHash = stored.transactionHash
  contractAddress : live.contractAddress = stored.contractAddress
  blockHash : live.blockHash = stored.blockHash
  blockNumber : live.blockNumber = stored.blockNumber
  transactionIndex : live.transactionIndex = stored.transactionIndex
  sender : live.sender = stored.sender
  toAddr : live.toAddr = stored.toAddr
  type : live.type = stored.type
  effectiveGasPrice : priced → live.effectiveGasPrice = stored.effectiveGasPrice

/-- The live loop has seen the entries of the indexing loop. -/
structure LiveAgrees (kv : KVIndexer) (block : Block) (priced : Prop) (st : IndexState)
    (es : List Entry) (lv : LiveState) : Prop where
  tracks : Tracks kv block st es
  logIndex : lv.logIndex = st.logIndex
  rpcTxIndex : lv.rpcTxIndex = st.rpcTxIndex
  gasBeforeTx : lv.blockResultGasUsedBeforeTx = st.blockResultGasUsedBeforeTx
  transactions : lv.view.transactions.map (·.hash) = es.map Entry.hash
  logs : lv.view.logs = es.map (·.receipt.logs)
  receipts : List.Forall₂ (ReceiptAgrees priced) lv.view.receipts (es.map (·.receipt.toMap))

theorem cachedVirtualReceipt_agrees (E : Env) (priced : Prop) {r : VirtualReceipt}
    (hprice : r.effectiveGasPrice = 0) :
    ReceiptAgrees priced (r.toMap E) (cachedVirtualReceipt E r).toMap := by
  have hzero : decodeQuantity (encodeQuantity 0) = .ok 0 := by decide
  constructor <;>
    simp [VirtualReceipt.toMap, CachedReceipt.toMap, cachedVirtualReceipt, buildCachedReceipt,
      hprice, hzero]

namespace LiveAgrees

variable {E : Env} {kv : KVIndexer} {block : Block} {priced : Prop} {st : IndexState}
  {es : List Entry} {lv : LiveState}

/-- Appending the same transaction on both sides keeps the agreement. -/
theorem push (h : LiveAgrees kv block priced st es lv) (hkv : kv.virtualizationEnabled = true)
    {e : Entry} {tx : RPCTransaction} {receipt : ReceiptMap}
    (hat : e.At block es.length (es.countP Entry.isEth)) (htx : tx.hash = e.hash)
    (hreceipt : ReceiptAgrees priced receipt e.receipt.toMap) :
    LiveAgrees kv block priced (st.push kv block.height e) (es ++ [e]) (lv.append tx receipt) where
  tracks := by
    refine h.tracks.push hat fun hoff => ?_
    rw [hkv] at hoff
    cases hoff
  logIndex := by
    have hlogs : receipt.logs = e.receipt.logs := hreceipt.logs
    simp [LiveState.append, IndexState.push, hkv, h.logIndex, hlogs]
  rpcTxIndex := by simp [LiveState.append, IndexState.push, h.rpcTxIndex]
  gasBeforeTx := h.gasBeforeTx
  transactions := by simp [LiveState.append, h.transactions, htx]
  logs := by
    have hlogs : receipt.logs = e.receipt.logs := hreceipt.logs
    simp [LiveState.append, h.logs, hlogs]
  receipts := by
    rw [List.map_append]
    exact List.rel_append h.receipts (.cons hreceipt .nil)

theorem addGas (h : LiveAgrees kv block priced st es lv) (gas : UInt64) :
    LiveAgrees kv block priced (st.addGas gas) es (lv.addGas gas) where
  tracks := h.tracks.addGas gas
  logIndex := h.logIndex
  rpcTxIndex := h.rpcTxIndex
  gasBeforeTx := congrArg (· + gas) h.gasBeforeTx
  transactions := h.transactions
  logs := h.logs
  receipts := h.receipts

/-- Appending the same synthetic transactions on both sides keeps the agreement. -/
theorem storeVirtualTxs (h : LiveAgrees kv block priced st es lv)
    (hkv : kv.virtualizationEnabled = true) {txs : List VirtualTx}
    (htxs : ConsecutiveFrom block es.length txs) :
    ∃ es', LiveAgrees kv block priced (txs.foldl (IndexState.storeVirtualTx E kv block) st) es'
      (txs.foldl (LiveState.appendVirtualTx E) lv) := by
  induction txs generalizing st es lv with
  | nil => exact ⟨es, h⟩
  | cons tx txs ih =>
    have hat : tx.At block es.length := htxs 0 tx rfl
    have hstep := h.push hkv (hat.entry (E := E) _) rfl
      (cachedVirtualReceipt_agrees E priced hat.price)
    rw [← storeVirtualTx_eq_push E hkv] at hstep
    refine ih hstep fun k tx' hk => ?_
    have := htxs (k + 1) tx' hk
    rwa [List.length_append, List.length_singleton,
      show es.length + 1 + k = es.length + (k + 1) by omega]

/-! ### Ethereum messages -/

theorem liveMsgOutcome_eq {ethTxIndex : ℕ} {ethMsg : MsgEthereumTx} {out : EthOutcome}
    (h : ethMsgOutcome E block result txs txIndex msgIndex ethTxIndex ethMsg = .ok out) :
    liveMsgOutcome E result (some txs) msgIndex ethMsg = ⟨out.txHash, out.gasUsed, out.failed⟩ := by
  unfold ethMsgOutcome at h
  unfold liveMsgOutcome
  split_ifs at h ⊢ with hcode
  · obtain rfl := Except.ok.inj h
    rfl
  · cases hp : txs.getTxByMsgIndex msgIndex with
    | none => simp [hp] at h
    | some parsedTx =>
      simp only [hp] at h
      split_ifs at h
      obtain rfl := Except.ok.inj h
      simp [hp]

theorem liveMsgLogs_eq {failed : Bool} {own : List RPCLog}
    (hempty : ∀ i height logs, E.decodeMsgLogs [] i height = .ok logs → logs = [])
    (h : ethMsgLogs E block result txIndex msgIndex failed = .ok own) :
    liveMsgLogs E result.data msgIndex block.height = own := by
  unfold ethMsgLogs at h
  unfold liveMsgLogs
  by_cases hdata : result.data = []
  · have hown : own = [] := by
      simp only [hdata, ne_eq, not_true_eq_false, if_false] at h
      split_ifs at h
      exact (Except.ok.inj h).symm
    rw [hdata, hown]
    cases hdec : E.decodeMsgLogs [] msgIndex block.height with
    | error e => rfl
    | ok logs =>
      rw [hempty _ _ _ hdec]
      rfl
  · rw [if_pos hdata] at h
    obtain ⟨logs, hlogs, h⟩ := bind_eq_ok.mp h
    rw [orBlockParseError_eq_ok] at hlogs
    rw [hlogs]
    exact Except.ok.inj h

theorem exists_newRPCTransaction {ethMsg : MsgEthereumTx} {i j : ℕ}
    {baseFee baseFee' chainID chainID' : Option ℤ} {tx : RPCTransaction}
    (h : newRPCTransaction E ethMsg block.ethHash block.height i baseFee chainID = .ok tx) :
    ∃ tx', newRPCTransaction E ethMsg block.ethHash block.height j baseFee' chainID' = .ok tx' := by
  unfold newRPCTransaction at h ⊢
  cases hdata : ethMsg.asTransaction with
  | none => simp [hdata] at h
  | some data =>
    simp only [hdata] at h ⊢
    obtain ⟨sender, hsender, -⟩ := bind_eq_ok.mp h
    rw [hsender]
    simp only [ok_bind]
    split_ifs <;> exact ⟨_, rfl⟩

theorem effectiveGasPrice_eq (E : Env) (tx : EthTransaction) (baseFee : Option ℤ) :
    effectiveGasPrice E tx baseFee = receiptEffectiveGasPrice E tx baseFee := by
  unfold effectiveGasPrice receiptEffectiveGasPrice
  cases baseFee <;> simp

theorem messageLogs_eq (h : LiveAgrees kv block priced st es lv)
    (hkv : kv.virtualizationEnabled = true) (r : Response) (txHash : Hash)
    (msgIndex totalMessages : ℕ) (own : List RPCLog) :
    lv.messageLogs block r txHash msgIndex totalMessages own =
      st.messageLogs kv block (some r) txHash msgIndex totalMessages own := by
  simp [LiveState.messageLogs, IndexState.messageLogs, IndexState.visibleTxCount, hkv,
    LiveState.virtualLogContext, IndexState.virtualLogContext, h.logIndex, h.rpcTxIndex]

/-- The receipts the two loops build for a message agree. -/
theorem ethReceipt_agrees (h : LiveAgrees kv block priced st es lv)
    (hkv : kv.virtualizationEnabled = true) (hfee : priced → liveFee = fee) {out : EthOutcome}
    {txData : EthTransaction} {price : ℕ}
    (hprice : decodeQuantity (encodeQuantity (receiptEffectiveGasPrice E txData fee)) = .ok price)
    (sender : Address) (logs : List RPCLog) (gas : UInt64) :
    ReceiptAgrees priced
      (liveReceiptMap E (receiptStatus out.failed) (lv.blockResultGasUsedBeforeTx + gas) out.gasUsed
        logs out.txHash (createdContract E txData sender) block.ethHash.hex block.height
        lv.rpcTxIndex (effectiveGasPrice E txData liveFee) sender txData.toAddr txData.type)
      (st.ethReceipt E kv block fee out txData sender logs gas).toMap where
  status := rfl
  cumulativeGasUsed := congrArg (· + gas) h.gasBeforeTx
  gasUsed := rfl
  logs := rfl
  transactionHash := (hexToHash_hex out.txHash).symm
  contractAddress := by
    simp [liveReceiptMap, CachedReceipt.toMap, IndexState.ethReceipt, buildCachedReceipt]
  blockHash := rfl
  blockNumber := rfl
  transactionIndex := by
    simp [liveReceiptMap, CachedReceipt.toMap, IndexState.ethReceipt, buildCachedReceipt,
      IndexState.visibleTxCount, hkv, h.rpcTxIndex]
  sender := (hexToAddress_addressHex E sender).symm
  toAddr := by
    simp [liveReceiptMap, CachedReceipt.toMap, IndexState.ethReceipt, buildCachedReceipt]
  type := rfl
  effectiveGasPrice := by
    intro hpriced
    have heq : (price : ℤ) = receiptEffectiveGasPrice E txData fee := eq_of_decodeQuantity hprice
    simp only [liveReceiptMap, CachedReceipt.toMap, IndexState.ethReceipt, buildCachedReceipt,
      effectiveGasPrice_eq, hfee hpriced, hprice, heq]

/-- A message the indexer accepts is accepted by the live loop. -/
theorem ethMsg (h : LiveAgrees kv block priced st es lv) (b : Backend)
    (hkv : kv.virtualizationEnabled = true)
    (hempty : ∀ i height logs, E.decodeMsgLogs [] i height = .ok logs → logs = [])
    (hfee : priced → liveFee = fee) {totalMessages : ℕ} {ethMsg : MsgEthereumTx} {gas' : UInt64}
    (hidx : indexEthMsg E kv block fee result txs (some r) txIndex totalMessages msgIndex ethMsg
      st gas = .ok (st', gas')) :
    ∃ e lv', liveEthMsg E b block liveFee result (some txs) r totalMessages msgIndex ethMsg lv gas =
      .ok (lv', gas') ∧ LiveAgrees kv block priced st' (es ++ [e]) lv' := by
  obtain ⟨out, txData, own, sender, rpcTx, price, hout, hdata, hown, hsender, hrpc, hprice, rfl,
    rfl⟩ :=
    indexEthMsg_ok hidx
  obtain ⟨rpcTx', hrpc'⟩ : ∃ tx, newRPCTransaction E ethMsg block.ethHash block.height lv.rpcTxIndex
      liveFee (some b.chainID) = .ok tx := exists_newRPCTransaction hrpc
  have hhash : ({ rpcTx' with hash := out.txHash } : RPCTransaction).hash = out.txHash := rfl
  refine ⟨_, _, ?_, h.push hkv (ethEntry_at h.tracks hrpc) hhash
    (h.ethReceipt_agrees hkv hfee hprice _ _ _)⟩
  unfold liveEthMsg
  simp only [hdata, liveMsgOutcome_eq hout, liveMsgLogs_eq hempty hown, h.messageLogs_eq hkv, hsender,
    hrpc', ok_bind, pure_eq_ok]

/-- The messages the indexer accepts are accepted by the live loop. -/
theorem msgs (h : LiveAgrees kv block priced st es lv) (b : Backend)
    (hkv : kv.virtualizationEnabled = true)
    (hempty : ∀ i height logs, E.decodeMsgLogs [] i height = .ok logs → logs = [])
    (hfee : priced → liveFee = fee) {msgs : List Msg}
    (hidx : indexMsgs E kv block fee result txs (some r) txIndex msgs st = .ok (st', gas)) :
    ∃ es' lv', liveMsgs E b block liveFee result (some txs) r msgs lv = .ok (lv', gas) ∧
      LiveAgrees kv block priced st' es' lv' := by
  obtain ⟨t, ht, hgas, es', h'⟩ := forIdx_simulation
    (g := liveMsg E b block liveFee result (some txs) r msgs.length)
    (fun _ (s : IndexState × UInt64) (t : LiveState × UInt64) =>
      s.2 = t.2 ∧ ∃ es', LiveAgrees kv block priced s.1 es' t.1)
    msgs 0 (st, 0) (st', gas) (lv, 0) ⟨rfl, es, h⟩ (by
    intro j msg s s' t _ hR hstep
    obtain ⟨hgas, es', h'⟩ := hR
    cases hmsg : msg.ethereum? with
    | none =>
      rw [hmsg] at hstep
      obtain rfl := Except.ok.inj hstep
      exact ⟨t, by rw [liveMsg, hmsg], hgas, es', h'⟩
    | some ethMsg =>
      rw [hmsg] at hstep
      obtain ⟨e, lv', hlive, h''⟩ := h'.ethMsg b hkv hempty hfee hstep
      rw [hgas] at hlive
      exact ⟨(lv', s'.2), by rw [liveMsg, hmsg]; exact hlive, rfl, _, h''⟩) hidx
  obtain ⟨lv', gas'⟩ := t
  obtain rfl : gas = gas' := hgas
  exact ⟨es', lv', ht, h'⟩

/-! ### Transactions and blocks -/

/-- The synthetic transactions of a response are the same on both sides. -/
theorem syntheticTxs (h : LiveAgrees kv block priced st es lv) {b : Backend}
    (hkv : kv.virtualizationEnabled = true) (hchain : kv.virtualChainID = some b.chainID)
    {msgs : List Msg}
    (hidx : indexSyntheticTxs E kv block (some r) txIndex rawTx msgs gas st = .ok st') :
    ∃ txs es', r.syntheticTxs E (lv.txContext b block rawTx msgs gas) = .ok txs ∧
      LiveAgrees kv block priced st' es' (txs.foldl (LiveState.appendVirtualTx E) lv) := by
  obtain ⟨txs, htxs, hidx⟩ := bind_eq_ok.mp hidx
  obtain rfl := Except.ok.inj hidx
  rw [orBlockParseError_eq_ok] at htxs
  have hctx : lv.txContext b block rawTx msgs gas = st.txContext kv block rawTx msgs gas := by
    simp [LiveState.txContext, IndexState.txContext, h.rpcTxIndex, h.logIndex, h.gasBeforeTx, hchain]
  have hcons : ConsecutiveFrom block st.rpcTxIndex txs := syntheticTxs_consecutive ⟨rfl, rfl⟩ htxs
  rw [h.tracks.rpcTxIndex] at hcons
  obtain ⟨es', h'⟩ := h.storeVirtualTxs (E := E) hkv hcons
  exact ⟨txs, es', by rw [hctx, htxs], h'⟩

theorem liveMsgs_eq (b : Backend) (liveFee : Option ℤ) (result : ExecTxResult)
    (parsedTxs : Option ParsedTxs) (r : Response) {msgs : List Msg}
    (hnone : ∀ msg ∈ msgs, msg.ethereum? = none) (lv : LiveState) :
    liveMsgs E b block liveFee result parsedTxs r msgs lv = .ok (lv, 0) := by
  have hloop : ∀ (l : List Msg) (i : ℕ), (∀ msg ∈ l, msg.ethereum? = none) →
      forIdx (liveMsg E b block liveFee result parsedTxs r msgs.length) i l (lv, 0) =
        .ok (lv, 0) := by
    intro l
    induction l with
    | nil => exact fun _ _ => rfl
    | cons msg l ih =>
      intro i hl
      rw [forIdx_cons, liveMsg, hl msg (by simp), ok_bind]
      exact ih (i + 1) fun m hm => hl m (by simp [hm])
  exact hloop msgs 0 hnone

end LiveAgrees

/-- What a chain promises about the block: an Ethereum message comes with the extension
option, and a failed result has an Ethereum event only when its transaction consists of
Ethereum messages. -/
structure WellFormedBlock (E : Env) (block : Block) (results : BlockResults) : Prop where
  extension : ∀ rawTx ∈ block.txs, ∀ tx, E.txDecoder rawTx = .ok tx →
    (∃ msg ∈ tx.msgs, msg.ethereum?.isSome = true) → isEthTx tx = true
  failed_event : ∀ (i : ℕ) rawTx tx result, block.txs[i]? = some rawTx → E.txDecoder rawTx = .ok tx →
    results.txResults[i]? = some (some result) → result.code ≠ codeTypeOK →
    (∃ event ∈ result.events, event.type = E.eventTypeEthereumTx) →
    tx.msgs ≠ [] ∧ ∀ msg ∈ tx.msgs, msg.ethereum?.isSome = true

namespace WellFormedBlock

variable {E : Env} {block : Block} {results : BlockResults}

theorem ethereum?_eq_none (hwf : WellFormedBlock E block results) {tx : SdkTx}
    (hraw : rawTx ∈ block.txs) (htx : E.txDecoder rawTx = .ok tx) (heth : isEthTx tx = false) :
    ∀ msg ∈ tx.msgs, msg.ethereum? = none := by
  intro msg hmsg
  by_contra hsome
  have := hwf.extension rawTx hraw tx htx ⟨msg, hmsg, Option.isSome_iff_ne_none.mpr hsome⟩
  rw [heth] at this
  cases this

/-- The result of a transaction without the extension option parses without a panic. -/
theorem liveParsedTxs_ok (hwf : WellFormedBlock E block results) {i : ℕ} {tx : SdkTx}
    {res : ExecTxResult} (hraw : block.txs[i]? = some rawTx) (htx : E.txDecoder rawTx = .ok tx)
    (hres : results.txResults[i]? = some (some res))
    (heq : result = { res with data := result.data }) (heth : isEthTx tx = false) :
    ∃ txs, liveParsedTxs E result tx = .ok txs := by
  have hnone := hwf.ethereum?_eq_none (List.mem_of_getElem? hraw) htx heth
  have hpanic : NoPanic (parseTxResult E result (some tx)) := by
    refine parseTxResult_noPanic fun hcode event hevent htype => ?_
    rw [heq] at hcode hevent
    obtain ⟨hne, hall⟩ := hwf.failed_event i rawTx tx res hraw htx hres hcode ⟨event, hevent, htype⟩
    obtain ⟨msg, hmsg⟩ := List.exists_mem_of_ne_nil _ hne
    have := hall msg hmsg
    rw [hnone msg hmsg] at this
    cases this
  unfold liveParsedTxs
  cases hparse : parseTxResult E result (some tx) with
  | ok txs => exact ⟨_, rfl⟩
  | error e =>
    simp only [if_neg (hpanic e hparse)]
    exact ⟨_, rfl⟩

end WellFormedBlock

/-! ## The simulation -/

/-- Gateway and indexer are set up for the same chain, with virtualisation, and empty
response data decodes to no logs. -/
structure LiveSetup (E : Env) (kv : KVIndexer) (b : Backend) : Prop where
  virtual : kv.virtualizationEnabled = true
  chainID : kv.virtualChainID = some b.chainID
  no_logs : ∀ i height logs, E.decodeMsgLogs [] i height = .ok logs → logs = []

section Simulation

variable {E : Env} {kv : KVIndexer} {b : Backend} {block : Block} {results : BlockResults}
  {priced : Prop} {st st' : IndexState} {es : List Entry} {lv : LiveState}

/-- A transaction the indexer accepts is accepted by the live loop. -/
theorem LiveAgrees.tx (h : LiveAgrees kv block priced st es lv) (hsetup : LiveSetup E kv b)
    (hwf : WellFormedBlock E block results) (hfee : priced → liveFee = fee)
    {txResults : List (Option ExecTxResult)}
    (hnorm : normalizeTxResponseIndexes E results.txResults = .ok txResults)
    (hraw : block.txs[txIndex]? = some rawTx)
    (hidx : indexTx E kv block fee txResults txIndex rawTx st = .ok st') :
    ∃ es' lv', liveTx E b block liveFee txResults txIndex rawTx lv = .ok lv' ∧
      LiveAgrees kv block priced st' es' lv' := by
  obtain ⟨result, tx, response, st₁, gas, st₂, hresult, htx, hresp, hmsgs, hsyn, rfl⟩ :=
    indexTx_ok hidx
  obtain ⟨r, hr, rfl⟩ : ∃ r, parseResponse E result = .ok r ∧ response = some r := by
    rcases virtualResponse_ok hresp with ⟨-, h⟩ | ⟨hoff, -⟩
    · exact h
    · rw [hsetup.virtual] at hoff
      cases hoff
  simp only [liveTx, hresult, htx, hr, ok_bind]
  rcases hmsgs with ⟨-, txs, htxs, hmsgs⟩ | ⟨hoff, rfl, rfl⟩
  · obtain ⟨es₁, lv₁, hlive, h₁⟩ := h.msgs b hsetup.virtual hsetup.no_logs hfee hmsgs
    obtain ⟨vtxs, es₂, hvtxs, h₂⟩ := h₁.syntheticTxs hsetup.virtual hsetup.chainID hsyn
    have hparsed : liveParsedTxs E result tx = .ok (some txs) := by rw [liveParsedTxs, htxs]
    refine ⟨es₂, _, ?_, h₂.addGas _⟩
    simp only [hparsed, hlive, hvtxs, ok_bind, pure_eq_ok]
  · obtain ⟨res, hres, heq⟩ := normalizeResults_getElem? hnorm hresult
    obtain ⟨parsedTxs, hparsed⟩ := hwf.liveParsedTxs_ok hraw htx hres heq hoff
    have hnone := hwf.ethereum?_eq_none (List.mem_of_getElem? hraw) htx hoff
    obtain ⟨vtxs, es₂, hvtxs, h₂⟩ := h.syntheticTxs hsetup.virtual hsetup.chainID hsyn
    refine ⟨es₂, _, ?_, h₂.addGas _⟩
    simp only [hparsed, LiveAgrees.liveMsgs_eq b liveFee result parsedTxs r hnone, hvtxs, ok_bind,
      pure_eq_ok]

/-- The phases of a block are the same on both sides. -/
theorem LiveAgrees.blockPhase (h : LiveAgrees kv block priced st es lv)
    (hsetup : LiveSetup E kv b) (hash : Hash) (logs : List EthLog) (gas : UInt64) :
    ∃ es', LiveAgrees kv block priced (st.storeBlockPhase E kv block hash logs gas) es'
      (lv.appendBlockPhase E b block hash logs gas) := by
  unfold IndexState.storeBlockPhase LiveState.appendBlockPhase
  split
  · exact ⟨es, h⟩
  · have htx : newBlockTx hash logs (lv.virtualLogContext block hash lv.rpcTxIndex) (some b.chainID)
        gas = newBlockTx hash logs (st.virtualLogContext block hash st.rpcTxIndex) kv.virtualChainID
        gas := by
      simp [LiveState.virtualLogContext, IndexState.virtualLogContext, h.logIndex, h.rpcTxIndex,
        hsetup.chainID]
    have hat : VirtualTx.At block es.length (newBlockTx hash logs
        (st.virtualLogContext block hash st.rpcTxIndex) kv.virtualChainID gas) := by
      rw [← h.tracks.rpcTxIndex]
      exact newBlockTx_at ..
    rw [htx]
    exact h.storeVirtualTxs hsetup.virtual (.cons hat (consecutiveFrom_nil block _))

/-- **The live loop gets through every block the indexer accepts**, and agrees. -/
theorem liveVirtualBlockView_agrees (hsetup : LiveSetup E kv b)
    (hwf : WellFormedBlock E block results)
    (hidx : buildBlock E kv block (some results) = .ok st) :
    ∃ es lv, liveVirtualBlockView E b (some block) (some results) = .ok lv.view ∧
      LiveAgrees kv block (baseFeeFromEvents E results.finalizeBlockEvents ≠ none) st es lv := by
  obtain ⟨txResults, beginLogs, endLogs, st₁, hnorm, hphase, hloop, rfl⟩ := buildBlock_ok hidx
  have hsplit : splitBlockEvents E results.finalizeBlockEvents = .ok (beginLogs, endLogs) := by
    simpa [blockPhaseLogs, hsetup.virtual] using hphase
  have hfee : baseFeeFromEvents E results.finalizeBlockEvents ≠ none →
      b.baseFeeOrNil E results = blockBaseFeeFromResults E (some results) := by
    intro hsome
    obtain ⟨fee, hfee⟩ := Option.ne_none_iff_exists'.mp hsome
    simp [Backend.baseFeeOrNil, Backend.baseFee, blockBaseFeeFromResults, hfee]
  have hinit : LiveAgrees kv block (baseFeeFromEvents E results.finalizeBlockEvents ≠ none) {} []
    {} :=
    ⟨Tracks.init kv block, rfl, rfl, rfl, rfl, rfl, .nil⟩
  obtain ⟨es₀, h₀⟩ := hinit.blockPhase hsetup (beginBlockHash E block.height) beginLogs 0
  obtain ⟨lv₁, hlive, es₁, h₁⟩ := forIdx_simulation
    (g := liveTx E b block (b.baseFeeOrNil E results) txResults)
    (fun _ s t => ∃ es, LiveAgrees kv block _ s es t) block.txs 0 _ st₁ _ ⟨es₀, h₀⟩ (by
    intro j rawTx s s' t hj hR hstep
    obtain ⟨es, h⟩ := hR
    rw [Nat.zero_add] at hstep ⊢
    obtain ⟨es', lv', hlive, h'⟩ := h.tx hsetup hwf hfee hnorm hj hstep
    exact ⟨lv', hlive, es', h'⟩) hloop
  obtain ⟨es₂, h₂⟩ := h₁.blockPhase hsetup (endBlockHash E block.height) endLogs
    st₁.blockResultGasUsedBeforeTx
  refine ⟨es₂, _, ?_, h₂⟩
  unfold liveVirtualBlockView
  simp only [blockTxResults, Option.map_some, Option.getD_some] at hnorm
  simp only [hnorm, hsplit, hlive, h₁.gasBeforeTx, ok_bind, pure_eq_ok]

end Simulation

/-! ## The view and the store -/

/-- The view lists the visible transactions of the store at their positions, with the
stored log groups and receipts that agree. -/
structure MatchesStore (priced : Prop) (view : LiveView) (db : DB) (height : ℕ) : Prop where
  hashes : view.transactions.map (·.hash) = getRPCTransactionHashesByBlockHeight db height
  logs : getLogsByBlockHeight db height = .ok view.logs
  length : view.receipts.length = view.transactions.length
  receipts : ∀ (i : ℕ) (x : Hash), (getRPCTransactionHashesByBlockHeight db height)[i]? = some x →
    ∃ live stored, view.receipts[i]? = some live ∧ getReceiptByTxHash db x = .ok stored ∧
      ReceiptAgrees priced live stored

/-- Agreement at the end of a block is agreement with the store. -/
theorem LiveAgrees.matchesStore {kv : KVIndexer} {priced : Prop} {db : DB} {R : BlockRecords}
    {st : IndexState} {lv : LiveState} (h : LiveAgrees kv R.block priced st R.entries lv)
    (hholds : Holds db R) (hnd : (getRPCTransactionHashesByBlockHeight db R.block.height).Nodup) :
    MatchesStore priced lv.view db R.block.height where
  hashes := by rw [hholds.getRPCTransactionHashesByBlockHeight, h.transactions, BlockRecords.hashes]
  logs := by rw [hholds.getLogsByBlockHeight, h.logs, BlockRecords.logs]
  length := by
    rw [← List.length_map (f := fun tx : RPCTransaction => tx.hash), h.transactions,
      h.receipts.length_eq, List.length_map, List.length_map]
  receipts := by
    intro i x hx
    rw [hholds.getRPCTransactionHashesByBlockHeight] at hnd hx
    rw [BlockRecords.getElem?_hashes, Option.map_eq_some_iff] at hx
    obtain ⟨e, he, rfl⟩ := hx
    obtain ⟨live, hlive, hagrees⟩ := forall₂_getElem?_right h.receipts
      (show (R.entries.map (·.receipt.toMap))[i]? = some e.receipt.toMap by simp [he])
    exact ⟨live, _, hlive, hholds.getReceiptByTxHash hnd (List.mem_of_getElem? he), hagrees⟩

/-- **Cache and live data agree.**  Whenever a block is indexed with virtualisation, the
live view of the same data exists and matches what was stored. -/
theorem live_matches_store {E : Env} {kv : KVIndexer} {b : Backend} {db db' : DB} {block : Block}
    {results : BlockResults} (hsetup : LiveSetup E kv b) (hwf : WellFormedBlock E block results)
    (hidx : indexBlock E kv db block (some results) = .ok db')
    (hnd : (getRPCTransactionHashesByBlockHeight db' block.height).Nodup) :
    ∃ view, liveVirtualBlockView E b (some block) (some results) = .ok view ∧
      MatchesStore (baseFeeFromEvents E results.finalizeBlockEvents ≠ none) view db'
        block.height := by
  obtain ⟨ws, n, hws, -⟩ := exists_blockWrites hidx
  obtain ⟨st, root, hst, rfl⟩ := exists_buildBlock hws
  obtain ⟨es, lv, hview, h⟩ := liveVirtualBlockView_agrees hsetup hwf hst
  rw [← h.tracks.writes_records] at hws
  refine ⟨lv.view, hview, ?_⟩
  exact LiveAgrees.matchesStore (R := h.tracks.records E _ root) h (holds_of_indexBlock hidx hws) hnd

theorem sampleMixed_wellFormed : WellFormedBlock .sample sampleMixedBlock sampleMixedResults where
  extension := by
    intro rawTx hraw tx htx hmsg
    obtain rfl | rfl : rawTx = [1] ∨ rawTx = [0] := by simpa [sampleMixedBlock] using hraw
    · obtain rfl := Except.ok.inj htx
      rfl
    · obtain rfl := Except.ok.inj htx
      simp [Msg.ethereum?] at hmsg
  failed_event := by
    intro i rawTx tx result hraw _ hresult hcode
    have hlt : i < 2 := (List.getElem?_eq_some_iff.mp hraw).1
    interval_cases i <;>
    · obtain rfl := Option.some.inj (Option.some.inj hresult)
      exact absurd rfl hcode

/-- The mixed block, with a backend of the same chain and no node behind it: the view
has both transactions. -/
theorem live_matches_store_mixed :
    ∃ db view, indexBlock .sample { virtualizationEnabled := true, virtualChainID := some 1 } ∅
        sampleMixedBlock (some sampleMixedResults) = .ok db ∧
      liveVirtualBlockView .sample (Backend.sample none none) (some sampleMixedBlock)
        (some sampleMixedResults) = .ok view ∧
      view.transactions.length = 2 ∧
      MatchesStore (baseFeeFromEvents .sample [] ≠ none) view db 1 := by
  have hsetup : LiveSetup .sample { virtualizationEnabled := true, virtualChainID := some 1 }
      (Backend.sample none none) := by
    refine ⟨rfl, rfl, fun i height logs h => ?_⟩
    exact (Except.ok.inj h).symm
  obtain ⟨view, hview, hmatch⟩ := @live_matches_store .sample _ (Backend.sample none none) ∅ _
    sampleMixedBlock sampleMixedResults hsetup sampleMixed_wellFormed rfl (by decide +kernel)
  refine ⟨_, view, rfl, hview, ?_, hmatch⟩
  rw [← List.length_map (f := fun tx : RPCTransaction => tx.hash), hmatch.hashes]
  decide +kernel

end EvmGateway
