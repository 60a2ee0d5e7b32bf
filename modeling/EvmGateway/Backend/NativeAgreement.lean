import EvmGateway.Backend.ModeMismatch
import EvmGateway.Indexer.LogIdentity

/-!
# Receipts without virtualisation agree

Without virtualisation a receipt is put together in three places: by the indexing loop,
by the loop over the node's block, and from a stored result and the node's block.  Each
counts gas, positions and logs on its own.

* `NativeAgrees` relates the states of the two loops; `liveBlockReceipts_agrees` carries
  it through a block.
* `Rebuilt` says what an entry of the indexing loop has in common with the message it was
  made from, which is all that the third way reads; `nativeReceipt_agrees` uses it.
* `getLogsFromBlockResults_agrees` compares the logs.

`native_receipts_agree` is the result for a block and the store it was indexed into.
-/

namespace EvmGateway

open Lib

variable {result : ExecTxResult} {i txIndex : ℕ} {rawTx : Bytes} {gas gas' : UInt64}
  {txs : ParsedTxs} {fee : Option ℤ} {E : Env} {block : Block}

/-- A live receipt says what the stored one says.  The price is compared only when the
block announces its base fee. -/
structure NativeReceiptAgrees (priced : Prop) (live stored : ReceiptMap) : Prop where
  status : live.status = stored.status
  gasUsed : live.gasUsed = stored.gasUsed
  cumulativeGasUsed : live.cumulativeGasUsed = stored.cumulativeGasUsed
  transactionIndex : live.transactionIndex = stored.transactionIndex
  transactionHash : live.transactionHash = stored.transactionHash
  toAddr : live.toAddr = stored.toAddr
  type : live.type = stored.type
  logs : live.logs = stored.logs
  effectiveGasPrice : priced → live.effectiveGasPrice = stored.effectiveGasPrice

/-- The Ethereum messages of the transaction at a position. -/
def ethMsgsAt (E : Env) (block : Block) (i : ℕ) : List ℕ :=
  match block.txs[i]?.map E.txDecoder with
  | some (.ok tx) => ethMsgIndexes tx.msgs
  | _ => []

/-- What the chain promises about a block: a transaction with an Ethereum message has the
extension option and only such messages, the logs of a transaction are those of its
messages, and no data hold no logs. -/
structure NativeChain (E : Env) (block : Block) (results : BlockResults) : Prop where
  height : results.height = block.height
  ethereum : ∀ rawTx ∈ block.txs, ∀ tx, E.txDecoder rawTx = .ok tx →
    (∃ msg ∈ tx.msgs, msg.ethereum?.isSome = true) →
      isEthTx tx = true ∧ ∀ msg ∈ tx.msgs, msg.ethereum?.isSome = true
  txLogs : ∀ txResults, normalizeTxResponseIndexes E results.txResults = .ok txResults →
    ∀ (i : ℕ) (result : ExecTxResult), i < block.txs.length → txResults[i]? = some (some result) →
      ∀ logs, E.decodeTxLogs result.data results.height = .ok logs →
        logs = (ethMsgsAt E block i).flatMap fun m =>
          (E.decodeMsgLogs result.data m results.height).toOption.getD []
  no_logs : ∀ m height logs, E.decodeMsgLogs [] m height = .ok logs → logs = []

/-! ## The loop over the node's block -/

/-- The loop over the node's block has seen the entries of the indexing loop. -/
structure NativeAgrees (kv : KVIndexer) (block : Block) (priced : Prop) (st : IndexState)
    (es : List Entry) (rst : ReceiptState) : Prop where
  tracks : Tracks kv block st es
  gas : rst.cumulativeBlockGasUsed = st.blockResultGasUsedBeforeTx
  receipts : List.Forall₂ (NativeReceiptAgrees priced) rst.receipts (es.map (·.receipt.toMap))

/-- The receipt of an entry, and one that is built from the same outcome. -/
theorem ethReceipt_native {kv : KVIndexer} {priced : Prop} {st : IndexState} {liveFee : Option ℤ}
    (hfee : priced → liveFee = fee) {out : EthOutcome} {txData : EthTransaction} {price : ℕ}
    (hprice : decodeQuantity (encodeQuantity (receiptEffectiveGasPrice E txData fee)) = .ok price)
    {position : ℕ} (hposition : position = st.visibleTxCount kv) (sender sender' : Address)
    (logs : List RPCLog) (gas : UInt64) (blockHash : String) (blockNumber : ℕ) :
    NativeReceiptAgrees priced
      (liveReceiptMap E (receiptStatus out.failed) (st.blockResultGasUsedBeforeTx + gas) out.gasUsed
        logs out.txHash (createdContract E txData sender') blockHash blockNumber position
        (effectiveGasPrice E txData liveFee) sender' txData.toAddr txData.type)
      (st.ethReceipt E kv block fee out txData sender logs gas).toMap where
  status := rfl
  gasUsed := rfl
  cumulativeGasUsed := rfl
  transactionIndex := hposition
  transactionHash := (hexToHash_hex out.txHash).symm
  toAddr := by
    simp [liveReceiptMap, CachedReceipt.toMap, IndexState.ethReceipt, buildCachedReceipt]
  type := rfl
  logs := rfl
  effectiveGasPrice := by
    intro hpriced
    have heq : (price : ℤ) = receiptEffectiveGasPrice E txData fee := eq_of_decodeQuantity hprice
    simp only [liveReceiptMap, CachedReceipt.toMap, IndexState.ethReceipt, buildCachedReceipt,
      LiveAgrees.effectiveGasPrice_eq, hfee hpriced, hprice, heq]

/-- The outcome the indexer accepts is the outcome of the live receipt. -/
theorem nativeMsgOutcome_eq {msgIndex ethTxIndex : ℕ} {ethMsg : MsgEthereumTx} {out : EthOutcome}
    (h : ethMsgOutcome E block result txs txIndex msgIndex ethTxIndex ethMsg = .ok out) :
    nativeMsgOutcome E result (some txs) msgIndex ethTxIndex ethMsg =
      ⟨out.txHash, out.gasUsed, out.failed, ethTxIndex⟩ := by
  unfold ethMsgOutcome at h
  unfold nativeMsgOutcome
  by_cases hcode : result.code ≠ codeTypeOK ∧ result.codespace ≠ E.moduleName
  · rw [if_pos hcode] at h ⊢
    obtain rfl := Except.ok.inj h
    rfl
  · rw [if_neg hcode] at h ⊢
    rw [Option.bind_some]
    cases hp : txs.getTxByMsgIndex msgIndex with
    | none => simp [hp] at h
    | some parsedTx =>
      simp only [hp] at h
      split_ifs at h with hindex
      obtain rfl := Except.ok.inj h
      simp only [ReceiptOutcome.mk.injEq, true_and]
      split_ifs
      · omega
      · rfl

namespace NativeAgrees

variable {E : Env} {kv : KVIndexer} {b : Backend} {block : Block} {results : BlockResults}
  {priced : Prop} {st st' : IndexState} {es : List Entry} {rst rst' : ReceiptState}

theorem init : NativeAgrees kv block priced {} [] {} := ⟨.init kv block, rfl, .nil⟩

theorem length_receipts (h : NativeAgrees kv block priced st es rst) :
    rst.receipts.length = st.visibleTxCount kv := by
  rw [h.receipts.length_eq, List.length_map, h.tracks.visibleTxCount]

/-- One message in both loops. -/
theorem ethMsg (h : NativeAgrees kv block priced st es rst)
    (hkv : kv.virtualizationEnabled = false) (hchain : NativeChain E block results)
    (hfee : priced → b.baseFeeOrNil E results = fee) {totalMessages msgIndex : ℕ} {msg : Msg}
    {ethMsg : MsgEthereumTx} (hmsg : msg.ethereum? = some ethMsg) {gas'' : UInt64}
    (hidx : indexEthMsg E kv block fee result txs none txIndex totalMessages msgIndex ethMsg
      st gas = .ok (st', gas'))
    (hlive : b.nativeMsgReceipt E block results result (some txs) msgIndex msg (rst, gas) =
      .ok (rst', gas'')) :
    gas'' = gas' ∧ ∃ e, NativeAgrees kv block priced st' (es ++ [e]) rst' := by
  obtain ⟨out, txData, own, sender, rpcTx, price, hout, hdata, hown, -, hrpc, hprice, rfl, rfl⟩ :=
    indexEthMsg_ok hidx
  have hposition : rst.receipts.length = st.ethTxIndex := by
    rw [h.length_receipts, IndexState.visibleTxCount, hkv]
    rfl
  simp only [Backend.nativeMsgReceipt, hmsg, hdata] at hlive
  obtain ⟨sender', -, hlive⟩ := bind_eq_ok.mp hlive
  obtain ⟨rfl, rfl⟩ := Prod.mk.inj (Except.ok.inj hlive)
  rw [hposition, nativeMsgOutcome_eq hout, hchain.height,
    LiveAgrees.liveMsgLogs_eq hchain.no_logs hown, h.gas]
  refine ⟨rfl, _, h.tracks.push (ethEntry_at h.tracks hrpc) fun _ => rfl, rfl, ?_⟩
  rw [List.map_append]
  refine List.rel_append h.receipts (.cons ?_ .nil)
  refine ethReceipt_native hfee hprice ?_ ..
  rw [← hposition, h.length_receipts]

/-- The messages of a transaction in both loops. -/
theorem msgs (h : NativeAgrees kv block priced st es rst) (hkv : kv.virtualizationEnabled = false)
    (hchain : NativeChain E block results) (hfee : priced → b.baseFeeOrNil E results = fee)
    {msgs : List Msg}
    (hidx : indexMsgs E kv block fee result txs none txIndex msgs st = .ok (st', gas))
    (hlive : forIdx (b.nativeMsgReceipt E block results result (some txs)) 0 msgs (rst, 0) =
      .ok (rst', gas')) :
    ∃ es', NativeAgrees kv block priced st' es' rst' := by
  refine (forIdx_relation (fun _ (s : IndexState × UInt64) (t : ReceiptState × UInt64) =>
    t.2 = s.2 ∧ ∃ es', NativeAgrees kv block priced s.1 es' t.1) msgs 0 (st, 0) (st', gas) (rst, 0)
    (rst', gas') ⟨rfl, es, h⟩ ?_ hidx hlive).2
  rintro j msg ⟨s, g⟩ ⟨s', g'⟩ ⟨t, g₁⟩ ⟨t', g₁'⟩ - ⟨hgas, es', h'⟩ hstep hreceipt
  obtain rfl : g₁ = g := hgas
  cases hmsg : msg.ethereum? with
  | none =>
    rw [hmsg] at hstep
    rw [Backend.nativeMsgReceipt, hmsg] at hreceipt
    obtain ⟨rfl, rfl⟩ := Prod.mk.inj (Except.ok.inj hstep)
    obtain ⟨rfl, rfl⟩ := Prod.mk.inj (Except.ok.inj hreceipt)
    exact ⟨rfl, es', h'⟩
  | some ethMsg =>
    rw [hmsg] at hstep
    obtain ⟨hgas', e, h''⟩ := h'.ethMsg hkv hchain hfee hmsg hstep hreceipt
    exact ⟨hgas', es' ++ [e], h''⟩

theorem addGas (h : NativeAgrees kv block priced st es rst) (gas : UInt64) :
    NativeAgrees kv block priced (st.addGas gas) es
      { rst with cumulativeBlockGasUsed := rst.cumulativeBlockGasUsed + gas } where
  tracks := h.tracks.addGas gas
  gas := congrArg (· + gas) h.gas
  receipts := h.receipts

theorem forIdx_nativeMsgReceipt_of_none {parsedTxs : Option ParsedTxs} {msgs : List Msg}
    (hnone : ∀ msg ∈ msgs, msg.ethereum? = none) (i : ℕ) (s : ReceiptState × UInt64) :
    forIdx (b.nativeMsgReceipt E block results result parsedTxs) i msgs s = .ok s := by
  induction msgs generalizing i with
  | nil => rfl
  | cons msg msgs ih =>
    rw [forIdx, Backend.nativeMsgReceipt, hnone msg List.mem_cons_self, ok_bind]
    exact ih (fun msg hmsg => hnone msg (List.mem_cons_of_mem _ hmsg)) (i + 1)

/-- One transaction in both loops. -/
theorem tx (h : NativeAgrees kv block priced st es rst) (hkv : kv.virtualizationEnabled = false)
    (hchain : NativeChain E block results) (hfee : priced → b.baseFeeOrNil E results = fee)
    {txResults : List (Option ExecTxResult)} (hraw : block.txs[i]? = some rawTx)
    (hidx : indexTx E kv block fee txResults i rawTx st = .ok st')
    (hlive : b.nativeTxReceipts E block results txResults i rawTx rst = .ok rst') :
    ∃ es', NativeAgrees kv block priced st' es' rst' := by
  obtain ⟨result, tx, response, st₁, gas, st₂, hresult, htx, hresponse, hmsgs, hsyn, rfl⟩ :=
    indexTx_ok hidx
  rw [virtualResponse, hkv] at hresponse
  obtain rfl : none = response := Except.ok.inj hresponse
  obtain rfl : st₁ = st₂ := Except.ok.inj hsyn
  simp only [Backend.nativeTxReceipts, hresult, htx] at hlive
  obtain ⟨parsedTxs, hparsed, hlive⟩ := bind_eq_ok.mp hlive
  obtain ⟨⟨rst₁, gas₁⟩, hreceipts, hlive⟩ := bind_eq_ok.mp hlive
  obtain rfl := Except.ok.inj hlive
  rcases hmsgs with ⟨-, txs, htxs, hmsgs⟩ | ⟨heth, rfl, -⟩
  · rw [liveParsedTxs, htxs] at hparsed
    obtain rfl : some txs = parsedTxs := Except.ok.inj hparsed
    obtain ⟨es', h'⟩ := h.msgs hkv hchain hfee hmsgs hreceipts
    exact ⟨es', h'.addGas _⟩
  · have hnone : ∀ msg ∈ tx.msgs, msg.ethereum? = none := by
      intro msg hmsg
      by_contra hsome
      have hsent := hchain.ethereum rawTx (List.mem_of_getElem? hraw) tx htx
        ⟨msg, hmsg, Option.isSome_iff_ne_none.mpr hsome⟩
      simp [heth] at hsent
    rw [forIdx_nativeMsgReceipt_of_none hnone] at hreceipts
    obtain ⟨rfl, -⟩ := Prod.mk.inj (Except.ok.inj hreceipts)
    exact ⟨es, h.addGas _⟩

end NativeAgrees

/-- What the node has for a block. -/
structure Serves (b : Backend) (block : Block) (results : BlockResults) : Prop where
  blockAt : b.tendermintBlockByNumber block.height = .ok (some block)
  resultsAt : b.tendermintBlockResultByNumber block.height = .ok (some results)

section Block

variable {E : Env} {kv : KVIndexer} {b : Backend} {block : Block} {results : BlockResults}
  {txResults : List (Option ExecTxResult)} {st : IndexState}

/-- Without virtualisation a built block is its loop over the transactions. -/
theorem buildBlock_plain (hkv : kv.virtualizationEnabled = false)
    (h : buildBlock E kv block (some results) = .ok st)
    (hnorm : normalizeTxResponseIndexes E results.txResults = .ok txResults) :
    forIdx (indexTx E kv block (baseFeeFromEvents E results.finalizeBlockEvents) txResults) 0
      block.txs {} = .ok st := by
  obtain ⟨txResults', beginLogs, endLogs, st₁, hnorm', hlogs, hloop, rfl⟩ := buildBlock_ok h
  obtain rfl : txResults = txResults' := Except.ok.inj (hnorm.symm.trans hnorm')
  obtain ⟨rfl, rfl⟩ := Prod.mk.inj ((blockPhaseLogs_ok hlogs).2 hkv)
  exact hloop

theorem baseFeeOrNil_eq (h : baseFeeFromEvents E results.finalizeBlockEvents ≠ none) :
    b.baseFeeOrNil E results = baseFeeFromEvents E results.finalizeBlockEvents := by
  obtain ⟨fee, hfee⟩ := Option.ne_none_iff_exists'.mp h
  simp [Backend.baseFeeOrNil, Backend.baseFee, hfee]

/-- **The receipts of the node's block** agree with the entries of the indexing loop. -/
theorem liveBlockReceipts_agrees (hkv : kv.virtualizationEnabled = false)
    (hb : b.virtualizeCosmosEvents = false) (hchain : NativeChain E block results)
    (hserves : Serves b block results) (h : buildBlock E kv block (some results) = .ok st)
    (hnorm : normalizeTxResponseIndexes E results.txResults = .ok txResults)
    {live : List ReceiptMap} (hlive : b.liveBlockReceipts E block = .ok (some live)) :
    ∃ es, Tracks kv block st es ∧ List.Forall₂
      (NativeReceiptAgrees (baseFeeFromEvents E results.finalizeBlockEvents ≠ none)) live
      (es.map (·.receipt.toMap)) := by
  simp only [Backend.liveBlockReceipts, hserves.resultsAt, hb, normalizedOrPlain, hnorm,
    attempt_ok, ok_bind, Bool.false_eq_true, if_false, pure_eq_ok, Option.getD_some] at hlive
  obtain ⟨rst, hreceipts, hlive⟩ := bind_eq_ok.mp hlive
  obtain rfl : rst.receipts = live := Option.some.inj (Except.ok.inj hlive)
  have hend := forIdx_relation (fun _ (s : IndexState) (t : ReceiptState) =>
    ∃ es, NativeAgrees kv block (baseFeeFromEvents E results.finalizeBlockEvents ≠ none) s es t)
    block.txs 0 {} st {} rst ⟨[], .init⟩ ?_ (buildBlock_plain hkv h hnorm) hreceipts
  · obtain ⟨es, hes⟩ := hend
    exact ⟨es, hes.tracks, hes.receipts⟩
  · intro j rawTx s s' t t' hraw hR hidx htx
    obtain ⟨es, hes⟩ := hR
    rw [Nat.zero_add] at hidx htx
    exact hes.tx hkv hchain baseFeeOrNil_eq hraw hidx htx

end Block

/-! ## Receipts rebuilt from stored results -/

/-- The receipt of the entry is the one that is rebuilt from its result, the message the
result points to and the normalised results of the block. -/
structure RebuiltFrom (E : Env) (block : Block) (fee : Option ℤ)
    (txResults : List (Option ExecTxResult)) (e : Entry) (res : TxResult) (result : ExecTxResult)
    (ethMsg : MsgEthereumTx) (txData : EthTransaction) : Prop where
  stored : e.result = some res
  height : res.height = block.height
  position : res.ethTxIndex ≠ -1
  message : ∃ rawTx tx msg, block.txs[res.txIndex]? = some rawTx ∧ E.txDecoder rawTx = .ok tx ∧
    tx.msgs[res.msgIndex]? = some msg ∧ msg.ethereum? = some ethMsg
  unpacks : ethMsg.asTransaction = some txData
  resultAt : txResults[res.txIndex]? = some (some result)
  receipt : ∀ (priced : Prop) (liveFee : Option ℤ) (sender : Address) (blockHash : String)
    (blockNumber : ℕ), (priced → liveFee = fee) → NativeReceiptAgrees priced
      (liveReceiptMap E (receiptStatus res.failed)
        (UInt64.ofNat (gasBefore txResults res.txIndex) + res.cumulativeGasUsed) res.gasUsed
        (liveMsgLogs E result.data res.msgIndex block.height) e.hash
        (createdContract E txData sender) blockHash blockNumber res.ethTxIndex.toNat
        (effectiveGasPrice E txData liveFee) sender txData.toAddr txData.type) e.receipt.toMap

def Rebuilt (E : Env) (block : Block) (fee : Option ℤ) (txResults : List (Option ExecTxResult))
    (e : Entry) : Prop :=
  ∃ res result ethMsg txData, RebuiltFrom E block fee txResults e res result ethMsg txData

/-- The entries of the indexing loop can be rebuilt. -/
structure RebuiltAll (E : Env) (kv : KVIndexer) (block : Block) (fee : Option ℤ)
    (txResults : List (Option ExecTxResult)) (st : IndexState) (es : List Entry) : Prop where
  tracks : Tracks kv block st es
  all : ∀ e ∈ es, Rebuilt E block fee txResults e

section Rebuilt

variable {E : Env} {kv : KVIndexer} {block : Block} {results : BlockResults} {fee : Option ℤ}
  {txResults : List (Option ExecTxResult)} {st st' : IndexState} {es : List Entry}

/-- Indexing a message adds an entry that can be rebuilt. -/
theorem RebuiltAll.ethMsg (h : RebuiltAll E kv block fee txResults st es)
    (hkv : kv.virtualizationEnabled = false) (hchain : NativeChain E block results) {m : ℕ}
    {tx : SdkTx} {msg : Msg} {ethMsg : MsgEthereumTx} (hraw : block.txs[i]? = some rawTx)
    (htx : E.txDecoder rawTx = .ok tx) (hm : tx.msgs[m]? = some msg)
    (hmsg : msg.ethereum? = some ethMsg) (hresult : txResults[i]? = some (some result))
    (hbefore : st.blockResultGasUsedBeforeTx = UInt64.ofNat (gasBefore txResults i)) {total : ℕ}
    (hidx : indexEthMsg E kv block fee result txs none i total m ethMsg st gas = .ok (st', gas')) :
    st'.blockResultGasUsedBeforeTx = st.blockResultGasUsedBeforeTx ∧
      ∃ e, RebuiltAll E kv block fee txResults st' (es ++ [e]) := by
  obtain ⟨out, txData, own, sender, rpcTx, price, hout, hdata, hown, -, hrpc, hprice, rfl, rfl⟩ :=
    indexEthMsg_ok hidx
  refine ⟨rfl, _, h.tracks.push (ethEntry_at h.tracks hrpc) fun _ => rfl, fun e he => ?_⟩
  rcases List.mem_append.mp he with he | he
  · exact h.all e he
  · obtain rfl := List.mem_singleton.mp he
    refine ⟨_, result, ethMsg, txData, rfl, rfl, ?_, ⟨rawTx, tx, msg, hraw, htx, hm, hmsg⟩, hdata,
      hresult, ?_⟩
    · change (st.ethTxIndex : ℤ) ≠ -1
      omega
    · intro priced liveFee sender' blockHash blockNumber hfee
      rw [LiveAgrees.liveMsgLogs_eq hchain.no_logs hown, ← hbefore]
      refine ethReceipt_native hfee hprice ?_ ..
      rw [IndexState.visibleTxCount, hkv]
      rfl

theorem RebuiltAll.msgs (h : RebuiltAll E kv block fee txResults st es)
    (hkv : kv.virtualizationEnabled = false) (hchain : NativeChain E block results) {tx : SdkTx}
    (hraw : block.txs[i]? = some rawTx) (htx : E.txDecoder rawTx = .ok tx)
    (hresult : txResults[i]? = some (some result))
    (hbefore : st.blockResultGasUsedBeforeTx = UInt64.ofNat (gasBefore txResults i))
    (hidx : indexMsgs E kv block fee result txs none i tx.msgs st = .ok (st', gas)) :
    st'.blockResultGasUsedBeforeTx = st.blockResultGasUsedBeforeTx ∧
      ∃ es', RebuiltAll E kv block fee txResults st' es' := by
  refine forIdx_induction (fun _ (s : IndexState × UInt64) =>
    s.1.blockResultGasUsedBeforeTx = st.blockResultGasUsedBeforeTx ∧
      ∃ es', RebuiltAll E kv block fee txResults s.1 es') tx.msgs 0 (st, 0) (st', gas) ⟨rfl, es, h⟩
    ?_ hidx
  rintro m msg ⟨s, g⟩ ⟨s', g'⟩ hm ⟨hgas, es', h'⟩ hstep
  rw [Nat.zero_add] at hstep
  cases hmsg : msg.ethereum? with
  | none =>
    rw [hmsg] at hstep
    obtain ⟨rfl, rfl⟩ := Prod.mk.inj (Except.ok.inj hstep)
    exact ⟨hgas, es', h'⟩
  | some ethMsg =>
    rw [hmsg] at hstep
    obtain ⟨hgas', e, h''⟩ :=
      h'.ethMsg hkv hchain hraw htx hm hmsg hresult (hgas.trans hbefore) hstep
    exact ⟨hgas'.trans hgas, es' ++ [e], h''⟩

theorem RebuiltAll.tx (h : RebuiltAll E kv block fee txResults st es)
    (hkv : kv.virtualizationEnabled = false) (hchain : NativeChain E block results)
    (hraw : block.txs[i]? = some rawTx)
    (hbefore : st.blockResultGasUsedBeforeTx = UInt64.ofNat (gasBefore txResults i))
    (hidx : indexTx E kv block fee txResults i rawTx st = .ok st') :
    st'.blockResultGasUsedBeforeTx = UInt64.ofNat (gasBefore txResults (i + 1)) ∧
      ∃ es', RebuiltAll E kv block fee txResults st' es' := by
  obtain ⟨result, tx, response, st₁, gas, st₂, hresult, htx, hresponse, hmsgs, hsyn, rfl⟩ :=
    indexTx_ok hidx
  rw [virtualResponse, hkv] at hresponse
  obtain rfl : none = response := Except.ok.inj hresponse
  obtain rfl : st₁ = st₂ := Except.ok.inj hsyn
  rw [ofNat_gasBefore_succ hresult, ← hbefore]
  rcases hmsgs with ⟨-, txs, -, hmsgs⟩ | ⟨-, rfl, -⟩
  · obtain ⟨hgas, es', h'⟩ := h.msgs hkv hchain hraw htx hresult hbefore hmsgs
    exact ⟨congrArg (· + _) hgas, es', h'.tracks.addGas _, h'.all⟩
  · exact ⟨rfl, es, h.tracks.addGas _, h.all⟩

/-- **The entries of a block** indexed without virtualisation can be rebuilt. -/
theorem buildBlock_rebuilt (hkv : kv.virtualizationEnabled = false)
    (hchain : NativeChain E block results) (h : buildBlock E kv block (some results) = .ok st)
    (hnorm : normalizeTxResponseIndexes E results.txResults = .ok txResults) :
    ∃ es, RebuiltAll E kv block (baseFeeFromEvents E results.finalizeBlockEvents) txResults st
      es := by
  refine (forIdx_induction (fun n (s : IndexState) =>
    s.blockResultGasUsedBeforeTx = UInt64.ofNat (gasBefore txResults n) ∧
      ∃ es, RebuiltAll E kv block (baseFeeFromEvents E results.finalizeBlockEvents) txResults s es)
    block.txs 0 {} st ⟨rfl, [], .init kv block, List.forall_mem_nil _⟩ ?_
    (buildBlock_plain hkv h hnorm)).2
  intro i rawTx s s' hraw hP hidx
  rw [Nat.zero_add] at hP hidx ⊢
  obtain ⟨hgas, es, hes⟩ := hP
  exact hes.tx hkv hchain hraw hgas hidx

end Rebuilt

/-- A sum of gas that is not cut off by a missing result. -/
theorem eq_add_of_foldlM {f : UInt64 → Option ExecTxResult → Except Err UInt64}
    (hsome : ∀ sum result, f sum (some result) = .ok (sum + result.gasUsed.toUInt64))
    (hnone : ∀ sum, ∃ e, f sum none = .error e) {l : List (Option ExecTxResult)}
    {before after : UInt64} (h : l.foldlM f before = .ok after) :
    after = before + UInt64.ofNat (l.map fun r => (r.map resultGas).getD 0).sum := by
  induction l generalizing before with
  | nil =>
    obtain rfl := Except.ok.inj h
    simp
  | cons r l ih =>
    obtain ⟨mid, hmid, h⟩ := bind_eq_ok.mp h
    cases r with
    | none =>
      obtain ⟨e, he⟩ := hnone before
      cases he.symm.trans hmid
    | some result =>
      obtain rfl := Except.ok.inj ((hsome before result).symm.trans hmid)
      rw [ih h, List.map_cons, List.sum_cons, UInt64.ofNat_add, ← UInt64.add_assoc]
      simp [resultGas]

theorem sumGasUsed_eq {rs : List (Option ExecTxResult)} {n : ℕ}
    (h : sumGasUsed (rs.take n) = .ok gas) : gas = UInt64.ofNat (gasBefore rs n) := by
  rw [eq_add_of_foldlM (fun _ _ => rfl) (fun _ => ⟨_, rfl⟩) h, UInt64.zero_add]
  rfl

section Live

variable {E : Env} {b : Backend} {block : Block} {results : BlockResults} {fee : Option ℤ}
  {txResults : List (Option ExecTxResult)}

/-- **The receipt rebuilt from the stored result** agrees with the stored receipt. -/
theorem liveReceiptAt_agrees (hb : b.virtualizeCosmosEvents = false)
    (hchain : NativeChain E block results) (hserves : Serves b block results)
    (hnorm : normalizeTxResponseIndexes E results.txResults = .ok txResults) {e : Entry}
    {res : TxResult} {ethMsg : MsgEthereumTx} {txData : EthTransaction}
    (hrebuilt : RebuiltFrom E block (baseFeeFromEvents E results.finalizeBlockEvents) txResults e
      res result ethMsg txData) {r : ReceiptMap} (h : b.liveReceiptAt E e.hash res = .ok (some r)) :
    NativeReceiptAgrees (baseFeeFromEvents E results.finalizeBlockEvents ≠ none) r
      e.receipt.toMap := by
  obtain ⟨rawTx, tx, msg, hraw, htx, hm, hmsg⟩ := hrebuilt.message
  simp only [Backend.liveReceiptAt, hrebuilt.height, hserves.blockAt, hserves.resultsAt, ok_bind,
    Block.txAt, hraw, htx, wrapErr, Except.mapError, SdkTx.msgAt, hm, hmsg, hrebuilt.unpacks, hb,
    Bool.false_eq_true, if_false] at h
  obtain ⟨r', hr', heq⟩ := map_eq_ok.mp h
  obtain rfl := Option.some.inj heq
  have hindex : Backend.resolveEthTxIndex E block res e.hash = .ok res.ethTxIndex.toNat := by
    rw [Backend.resolveEthTxIndex, if_neg hrebuilt.position]
  simp only [Backend.nativeReceipt, normalizedOrPlain, hnorm, attempt_ok, ok_bind, pure_eq_ok,
    Option.getD_some, hrebuilt.resultAt, hindex] at hr'
  split_ifs at hr'
  · obtain ⟨_, hthrow, -⟩ := bind_eq_ok.mp hr'
    cases hthrow
  · obtain ⟨gas, hgas, hr'⟩ := bind_eq_ok.mp hr'
    obtain ⟨sender, -, hr'⟩ := bind_eq_ok.mp hr'
    obtain rfl := Except.ok.inj hr'
    rw [sumGasUsed_eq hgas, ← gasBefore_normalized (normalizeResults_same hnorm), hchain.height]
    exact hrebuilt.receipt _ _ _ _ _ baseFeeOrNil_eq

theorem nativeLogs_eq (hchain : NativeChain E block results) (result : ExecTxResult) (m : ℕ) :
    nativeLogs E block result m =
      wrapLogs ((E.decodeMsgLogs result.data m block.height).toOption.getD []) false none := by
  unfold nativeLogs
  by_cases hdata : result.data = []
  · rw [if_pos hdata, hdata]
    cases hdec : E.decodeMsgLogs [] m block.height with
    | error e => rfl
    | ok logs =>
      rw [hchain.no_logs m block.height logs hdec]
      rfl
  · rw [if_neg hdata]
    cases E.decodeMsgLogs result.data m block.height <;> rfl

theorem listedAt_eq (hchain : NativeChain E block results) (hraw : block.txs[i]? = some rawTx) :
    listedAt E i rawTx = (ethMsgsAt E block i).map (i, ·) := by
  simp only [listedAt, ethMsgsAt, hraw, Option.map_some]
  cases htx : E.txDecoder rawTx with
  | error e => rfl
  | ok tx =>
    by_cases heth : isEthTx tx = true
    · simp only [if_pos heth]
    · have hnone : ethMsgIndexes tx.msgs = [] := by
        refine List.filterMap_eq_nil_iff.mpr fun e he => ?_
        cases hmsg : e.1.ethereum? with
        | none => simp [hmsg]
        | some ethMsg =>
          have hmem := List.mem_of_getElem? (List.mem_zipIdx_iff_getElem?.mp he)
          exact absurd (hchain.ethereum rawTx (List.mem_of_getElem? hraw) tx htx
            ⟨e.1, hmem, by rw [hmsg]; rfl⟩).1 heth
      simp only [if_neg heth, hnone, List.map_nil]

/-- The listed messages, transaction by transaction. -/
theorem listed_eq (hchain : NativeChain E block results) :
    listed E block = (List.range block.txs.length).flatMap fun i =>
      (ethMsgsAt E block i).map (i, ·) := by
  rw [listed, List.flatMap_def, List.flatMap_def]
  congr 1
  refine List.ext_getElem (by simp) fun i hi hi' => ?_
  simp only [List.length_map, List.length_zipIdx] at hi
  simp only [List.getElem_map, List.getElem_zipIdx, List.getElem_range, Nat.zero_add]
  exact listedAt_eq hchain (List.getElem?_eq_getElem hi)

theorem length_getLogsFromBlockResults {groups : List (List RPCLog)}
    (h : getLogsFromBlockResults E (some results) = .ok groups) :
    groups.length = results.txResults.length := by
  obtain ⟨txResults, hnorm, h⟩ := bind_eq_ok.mp h
  rw [← (mapM_ok h).length_eq, (normalizeResults_same hnorm).length_eq]

/-- **The logs of the results** are those of the listed messages, as far as the results belong to a
transaction: each group is read from one result. -/
theorem flatten_groups (hchain : NativeChain E block results)
    (hnorm : normalizeTxResponseIndexes E results.txResults = .ok txResults)
    (hlen : block.txs.length ≤ txResults.length) {groups : List (List RPCLog)}
    (h : getLogsFromBlockResults E (some results) = .ok groups) :
    (groups.take block.txs.length).flatten =
      (listed E block).flatMap (groupAt E block txResults) := by
  simp only [getLogsFromBlockResults, hnorm, ok_bind] at h
  have hgroups := mapM_ok h
  have hat : ∀ (i : ℕ) (g : List RPCLog), i < block.txs.length → groups[i]? = some g →
      g = (ethMsgsAt E block i).flatMap fun m => groupAt E block txResults (i, m) := by
    intro i g hi hg
    obtain ⟨res, hres, hread⟩ := forall₂_getElem?_right hgroups hg
    cases res with
    | none => cases hread
    | some result =>
      obtain ⟨logs, hlogs, hg'⟩ := bind_eq_ok.mp hread
      obtain rfl := Except.ok.inj hg'
      rw [hchain.txLogs txResults hnorm i result hi hres logs hlogs, hchain.height]
      simp only [wrapLogs, groupAt, hres, nativeLogs_eq hchain, List.map_flatMap]
  have heq : groups.take block.txs.length = (List.range block.txs.length).map fun i =>
      (ethMsgsAt E block i).flatMap fun m => groupAt E block txResults (i, m) := by
    have hcount := hgroups.length_eq
    refine List.ext_getElem (by simp; omega) fun i hi hi' => ?_
    rw [List.length_map, List.length_range] at hi'
    rw [List.getElem_map, List.getElem_range, List.getElem_take]
    exact hat i _ hi' (List.getElem?_eq_getElem _)
  rw [listed_eq hchain, heq, List.flatMap_assoc]
  simp [List.flatMap_def, Function.comp_def]

end Live

/-! ## The agreement -/

/-- What a tracked state has collected is in the store. -/
theorem Tracks.holds {kv : KVIndexer} {db db' : DB} {results : Option BlockResults}
    {st : IndexState} {es : List Entry} (ht : Tracks kv block st es)
    (hst : buildBlock E kv block results = .ok st)
    (h : indexBlock E kv db block results = .ok db') :
    ∃ R : BlockRecords, R.block = block ∧ R.entries = es ∧ Holds db' R := by
  obtain ⟨⟨_, _⟩, hstats, rfl⟩ := map_eq_ok.mp h
  obtain ⟨⟨ws, n⟩, hws, -⟩ := bind_eq_ok.mp hstats
  obtain ⟨st', root, hst', rfl⟩ := exists_buildBlock hws
  obtain rfl := Except.ok.inj (hst.symm.trans hst')
  let R : BlockRecords := ht.records E (blockBaseFeeFromResults E results) root
  have hwrites : R.writes = _ := ht.writes_records E (blockBaseFeeFromResults E results) root
  exact ⟨R, rfl, rfl, holds_of_indexBlock (R := R) (n := n) h (hwrites ▸ hws)⟩

/-- **Receipts and logs without virtualisation.**  For a block that was indexed and that the node
still serves, the stored receipt at a position, the receipt of the node's block at this position
and the receipt rebuilt from the stored result agree.  The stored logs are those of the results that
belong to a transaction, and so all of them if there are as many results as transactions. -/
theorem native_receipts_agree {E : Env} {kv : KVIndexer} {b : Backend} {db db' : DB} {block : Block}
    {results : BlockResults} (hkv : kv.virtualizationEnabled = false)
    (hb : b.virtualizeCosmosEvents = false) (hindexer : b.indexer = some db')
    (hserves : Serves b block results) (hchain : NativeChain E block results)
    (h : indexBlock E kv db block (some results) = .ok db')
    (hnd : (getRPCTransactionHashesByBlockHeight db' block.height).Nodup) :
    (∀ live, b.liveBlockReceipts E block = .ok (some live) →
      live.length = (getRPCTransactionHashesByBlockHeight db' block.height).length ∧
      ∀ (i : ℕ) (hash : Hash),
        (getRPCTransactionHashesByBlockHeight db' block.height)[i]? = some hash →
        ∃ receipt stored, live[i]? = some receipt ∧ getReceiptByTxHash db' hash = .ok stored ∧
          NativeReceiptAgrees (baseFeeFromEvents E results.finalizeBlockEvents ≠ none) receipt
            stored) ∧
    (∀ (i : ℕ) (hash : Hash) (receipt : ReceiptMap),
      (getRPCTransactionHashesByBlockHeight db' block.height)[i]? = some hash →
      b.liveReceiptByHash E hash = .ok (some receipt) →
      ∃ stored, getReceiptByTxHash db' hash = .ok stored ∧
        NativeReceiptAgrees (baseFeeFromEvents E results.finalizeBlockEvents ≠ none) receipt
          stored) ∧
    (∀ groups, getLogsFromBlockResults E (some results) = .ok groups →
      ∃ stored, getLogsByBlockHeight db' block.height = .ok stored ∧
        (groups.take block.txs.length).flatten = stored.flatten ∧
        (results.txResults.length = block.txs.length → groups.flatten = stored.flatten)) := by
  obtain ⟨R, st, txResults, rfl, hR, hst, hnorm, hall, -⟩ := indexBlock_stores h
  rw [hR.getRPCTransactionHashesByBlockHeight] at hnd ⊢
  refine ⟨fun live hlive => ?_, fun i hash receipt hi hlive => ?_, fun groups hgroups => ?_⟩
  · obtain ⟨es, ht, hagree⟩ := liveBlockReceipts_agrees hkv hb hchain hserves hst hnorm hlive
    obtain ⟨R', hblock, rfl, hR'⟩ := ht.holds hst h
    have hhashes : R'.hashes = R.hashes := by
      rw [← hR'.getRPCTransactionHashesByBlockHeight, hblock,
        hR.getRPCTransactionHashesByBlockHeight]
    rw [← hhashes] at hnd ⊢
    refine ⟨by simpa [BlockRecords.hashes] using hagree.length_eq, fun i hash hi => ?_⟩
    rw [BlockRecords.getElem?_hashes] at hi
    obtain ⟨e, he, rfl⟩ := Option.map_eq_some_iff.mp hi
    have hstored : (R'.entries.map (·.receipt.toMap))[i]? = some e.receipt.toMap := by
      rw [List.getElem?_map, he, Option.map_some]
    obtain ⟨receipt, hreceipt, hag⟩ := forall₂_getElem?_right hagree hstored
    exact ⟨receipt, _, hreceipt, hR'.getReceiptByTxHash hnd (List.mem_of_getElem? he), hag⟩
  · obtain ⟨es, hes⟩ := buildBlock_rebuilt hkv hchain hst hnorm
    obtain ⟨R', hblock, rfl, hR'⟩ := hes.tracks.holds hst h
    have hhashes : R'.hashes = R.hashes := by
      rw [← hR'.getRPCTransactionHashesByBlockHeight, hblock,
        hR.getRPCTransactionHashesByBlockHeight]
    rw [← hhashes] at hnd hi
    rw [BlockRecords.getElem?_hashes] at hi
    obtain ⟨e, he, rfl⟩ := Option.map_eq_some_iff.mp hi
    have hmem := List.mem_of_getElem? he
    obtain ⟨res, result, ethMsg, txData, hrebuilt⟩ := hes.all e hmem
    have hfound : b.getTxByEthHash E e.hash = .ok res := by
      have hget := (BlockRecords.get_txHash hnd).mpr ⟨e, hmem, rfl, hrebuilt.stored⟩
      have hlookup : getByTxHash db' e.hash = .ok res := DB.getOr_of_get? (hR'.get? _ _ hget) _
      simp [Backend.getTxByEthHash, Backend.indexedOrSearched, hindexer, hlookup]
    rw [Backend.liveReceiptByHash, hfound, attempt_ok, ok_bind] at hlive
    exact ⟨_, hR'.getReceiptByTxHash hnd hmem,
      liveReceiptAt_agrees hb hchain hserves hnorm hrebuilt hlive⟩
  · rw [hkv] at hall
    have hflat : (groups.take R.block.txs.length).flatten = R.logs.flatten := by
      rw [flatten_groups hchain hnorm (length_le_of_buildBlock hst hnorm) hgroups, BlockRecords.logs,
        StoresAll.map_logs_listed hst hnorm hall, List.flatMap_def]
    refine ⟨_, hR.getLogsByBlockHeight, hflat, fun hlen => ?_⟩
    rwa [List.take_of_length_le (by rw [length_getLogsFromBlockResults hgroups, hlen])] at hflat

theorem sampleMixed_chain : NativeChain .sample sampleMixedBlock sampleMixedResults where
  height := rfl
  ethereum := by
    intro rawTx hraw tx htx heth
    rcases List.mem_cons.mp hraw with rfl | hraw
    · obtain rfl := Except.ok.inj htx
      decide
    · obtain rfl := List.mem_singleton.mp hraw
      obtain rfl := Except.ok.inj htx
      exact absurd heth (by decide)
  txLogs := by
    intro txResults hnorm i result _ hresult logs hlogs
    obtain rfl := Except.ok.inj hnorm
    obtain rfl := Except.ok.inj hlogs
    match i with
    | 0 | 1 =>
      obtain rfl := Option.some.inj (Option.some.inj hresult)
      rfl
    | i + 2 => cases hresult
  no_logs := by
    intro m height logs hlogs
    exact (Except.ok.inj hlogs).symm

/-- The mixed block, indexed and asked for without virtualisation: all three receipts of its one
Ethereum transaction exist and agree. -/
theorem native_receipts_agree_mixed :
    ∃ db live rebuilt stored, indexBlock .sample {} ∅ sampleMixedBlock
        (some sampleMixedResults) = .ok db ∧
      (Backend.mixed false (some db)).liveBlockReceipts .sample sampleMixedBlock =
        .ok (some [live]) ∧
      (Backend.mixed false (some db)).liveReceiptByHash .sample 1 = .ok (some rebuilt) ∧
      getReceiptByTxHash db 1 = .ok stored ∧
      NativeReceiptAgrees (baseFeeFromEvents .sample sampleMixedResults.finalizeBlockEvents ≠ none)
        live stored ∧
      NativeReceiptAgrees (baseFeeFromEvents .sample sampleMixedResults.finalizeBlockEvents ≠ none)
        rebuilt stored := by
  refine ⟨_, _, _, _, rfl, rfl, rfl, rfl, ?_⟩
  obtain ⟨hblock, hhash, -⟩ := @native_receipts_agree .sample {} (Backend.mixed false (some _)) ∅ _
    sampleMixedBlock sampleMixedResults rfl rfl rfl ⟨rfl, rfl⟩ sampleMixed_chain rfl
    (by decide +kernel)
  constructor
  · obtain ⟨live, stored, hlive, hstored, hagree⟩ := (hblock _ rfl).2 0 1 rfl
    obtain rfl := Option.some.inj hlive
    obtain rfl := Except.ok.inj hstored
    exact hagree
  · obtain ⟨stored, hstored, hagree⟩ := hhash 0 1 _ rfl rfl
    obtain rfl := Except.ok.inj hstored
    exact hagree

end EvmGateway
