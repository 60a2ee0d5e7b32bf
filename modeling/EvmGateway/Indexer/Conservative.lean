import EvmGateway.Indexer.Lookup

/-!
# Virtualisation is a conservative extension

The same block indexed with and without virtualisation.  The two runs of the loop go
in step: the Ethereum entries of the virtual run are, one by one, the entries of the
plain run, and the gas sums agree (`InStep`).  Synthetic transactions only take visible
positions and log indexes in between, which neither the Ethereum position nor the gas
of a later message reads.

`virtual_conservative` states what that means for the two stores.
-/

namespace EvmGateway

open Lib

variable {baseFee : Option ℤ} {txIndex : ℕ} {r : Response}

/-- The settings with virtualisation. -/
def KVIndexer.virtual (kv : KVIndexer) : KVIndexer := { kv with virtualizationEnabled := true }

/-- The settings without virtualisation. -/
def KVIndexer.plain (kv : KVIndexer) : KVIndexer := { kv with virtualizationEnabled := false }

/-! ## One Ethereum entry in the two modes -/

/-- What a log says, apart from where it is. -/
def RPCLog.content (log : RPCLog) : Address × List Hash × Bytes := (log.address, log.topics, log.data)

/-- The logs start with the contents of `base`, and whatever follows is virtual. -/
def LogsExtend (logs base : List RPCLog) : Prop :=
  ∃ own more, logs = own ++ more ∧ own.map RPCLog.content = base.map RPCLog.content ∧
    ∀ log ∈ more, log.isVirtual = true

/-- An Ethereum entry `ev` of the virtual run is the entry `ep` of the plain run, apart
from its visible position and the logs added to it. -/
structure EthSame (ev ep : Entry) : Prop where
  result : ev.result = ep.result
  tx : ev.tx = { ep.tx with transactionIndex := ev.tx.transactionIndex }
  receipt : ev.receipt = { ep.receipt with
    transactionIndex := ev.receipt.transactionIndex
    logs := ev.receipt.logs
    logsBloom := ev.receipt.logsBloom }
  logs : LogsExtend ev.receipt.logs ep.receipt.logs

theorem EthSame.hash {ev ep : Entry} (h : EthSame ev ep) : ev.hash = ep.hash := by
  rw [Entry.hash, h.tx]
  rfl

/-- The position only enters the position field of an RPC transaction. -/
theorem newRPCTransaction_index {E : Env} {msg : MsgEthereumTx} {blockHash : Hash}
    {blockNumber i j : ℕ} {chainID : Option ℤ} {tx tx' : RPCTransaction}
    (h : newRPCTransaction E msg blockHash blockNumber i baseFee chainID = .ok tx)
    (h' : newRPCTransaction E msg blockHash blockNumber j baseFee chainID = .ok tx') :
    tx = { tx' with transactionIndex := tx.transactionIndex } := by
  unfold newRPCTransaction at h h'
  cases hdata : msg.asTransaction with
  | none => simp [hdata] at h
  | some data =>
    simp only [hdata] at h h'
    obtain ⟨sender, hsender, h⟩ := bind_eq_ok.mp h
    obtain ⟨sender', hsender', h'⟩ := bind_eq_ok.mp h'
    rw [hsender] at hsender'
    obtain rfl := Except.ok.inj hsender'
    split_ifs at h h'
    all_goals
      cases h
      cases h'
      rfl

theorem content_withMetadata (ctx : LogContext) (i : ℕ) (log : RPCLog) :
    (log.withMetadata ctx i).content = log.content := rfl

theorem map_content_setLogMetadata (logs : List RPCLog) (ctx : LogContext) :
    (setLogMetadata logs ctx).map RPCLog.content = logs.map RPCLog.content := by
  refine List.ext_getElem (by simp) fun i hi hi' => ?_
  simp [setLogMetadata, content_withMetadata]

theorem isVirtual_setLogMetadata {logs : List RPCLog} {ctx : LogContext} {b : Bool}
    (h : ∀ log ∈ logs, log.isVirtual = b) : ∀ log ∈ setLogMetadata logs ctx, log.isVirtual = b := by
  intro log hlog
  rw [setLogMetadata, List.mem_mapIdx] at hlog
  obtain ⟨i, hi, rfl⟩ := hlog
  exact h logs[i] (List.getElem_mem hi)

theorem isVirtual_of_mem_rpcLogs {entry : ResponseEntry} {cosmosHash : Option Hash} {log : RPCLog}
    (h : log ∈ entry.rpcLogs cosmosHash) : log.isVirtual = true := by
  unfold ResponseEntry.rpcLogs at h
  cases hhook : entry.hook with
  | none =>
    simp only [hhook, wrapLogs, List.mem_map] at h
    obtain ⟨l, -, rfl⟩ := h
    rfl
  | some hook =>
    simp only [hhook, wrapLogs, List.mem_map] at h
    obtain ⟨l, ⟨l', -, rfl⟩, rfl⟩ := h
    rfl

theorem messageLogs_extend (st : IndexState) (kv : KVIndexer) (block : Block) (r : Response)
    (txHash : Hash) (msgIndex totalMessages : ℕ) (own : List RPCLog) :
    LogsExtend (st.messageLogs kv block (some r) txHash msgIndex totalMessages own) own := by
  refine ⟨_, _, rfl, map_content_setLogMetadata own _, ?_⟩
  refine isVirtual_setLogMetadata fun log hlog => ?_
  obtain ⟨entry, -, hlog⟩ := List.mem_flatMap.mp hlog
  exact isVirtual_of_mem_rpcLogs hlog

/-! ## Two runs in step -/

/-- The virtual run with entries `ev` and the plain run with entries `ep` are in step. -/
structure InStep (kv : KVIndexer) (block : Block) (sv sp : IndexState) (ev ep : List Entry) :
    Prop where
  tracks_virtual : Tracks kv.virtual block sv ev
  tracks_plain : Tracks kv.plain block sp ep
  entries : List.Forall₂ EthSame (ev.filter Entry.isEth) ep
  blockGasUsed : sv.blockGasUsed = sp.blockGasUsed
  gasBeforeTx : sv.blockResultGasUsedBeforeTx = sp.blockResultGasUsedBeforeTx

namespace InStep

variable {E : Env} {kv : KVIndexer} {block : Block} {sv sp sv' sp' : IndexState} {ev ep : List Entry}

variable (h : InStep kv block sv sp ev ep)

include h

theorem ethTxIndex : sv.ethTxIndex = sp.ethTxIndex := by
  have hall : ep.countP Entry.isEth = ep.length :=
    List.countP_eq_length.mpr (h.tracks_plain.eth_of_plain rfl)
  rw [h.tracks_virtual.ethTxIndex, h.tracks_plain.ethTxIndex, hall, ← h.entries.length_eq,
    List.countP_eq_length_filter]

theorem addGas (gas : UInt64) :
    InStep kv block (sv.addGas gas) (sp.addGas gas) ev ep where
  tracks_virtual := h.tracks_virtual.addGas gas
  tracks_plain := h.tracks_plain.addGas gas
  entries := h.entries
  blockGasUsed := congrArg (· + gas) h.blockGasUsed
  gasBeforeTx := congrArg (· + gas) h.gasBeforeTx

/-- Synthetic transactions leave the runs in step. -/
theorem storeVirtualTxs {txs : List VirtualTx} (htxs : ConsecutiveFrom block ev.length txs) :
    InStep kv block (txs.foldl (IndexState.storeVirtualTx E kv.virtual block) sv) sp
      (ev ++ txs.map (virtualEntry E)) ep where
  tracks_virtual := h.tracks_virtual.storeVirtualTxs E rfl htxs
  tracks_plain := h.tracks_plain
  entries := by
    have hnone : (txs.map (virtualEntry E)).filter Entry.isEth = [] := by
      simp [virtualEntry, Entry.isEth]
    rw [List.filter_append, hnone, List.append_nil]
    exact h.entries
  blockGasUsed := by
    rw [← h.blockGasUsed]
    clear htxs h
    induction txs generalizing sv with
    | nil => rfl
    | cons tx txs ih => exact ih
  gasBeforeTx := by
    rw [← h.gasBeforeTx]
    clear htxs h
    induction txs generalizing sv with
    | nil => rfl
    | cons tx txs ih => exact ih

/-- The same Ethereum message indexed in both runs. -/
theorem indexEthMsg {result : ExecTxResult} {txs : ParsedTxs} {totalMessages msgIndex : ℕ}
    {ethMsg : MsgEthereumTx} {gas gasv gasp : UInt64}
    (hv : EvmGateway.indexEthMsg E kv.virtual block baseFee result txs (some r) txIndex
      totalMessages msgIndex ethMsg sv gas = .ok (sv', gasv))
    (hp : EvmGateway.indexEthMsg E kv.plain block baseFee result txs none txIndex totalMessages
      msgIndex ethMsg sp gas = .ok (sp', gasp)) :
    gasv = gasp ∧ ∃ e e', InStep kv block sv' sp' (ev ++ [e]) (ep ++ [e']) := by
  obtain ⟨out, txData, own, sender, rpcTx, price, hout, hdata, hown, hsender, hrpc, -, rfl, rfl⟩ :=
    indexEthMsg_ok hv
  obtain ⟨out', txData', own', sender', rpcTx', price', hout', hdata', hown', hsender', hrpc', -,
    rfl, rfl⟩ := indexEthMsg_ok hp
  rw [← h.ethTxIndex, hout] at hout'
  obtain rfl := Except.ok.inj hout'
  rw [hdata] at hdata'
  obtain rfl := Option.some.inj hdata'
  rw [hown] at hown'
  obtain rfl := Except.ok.inj hown'
  rw [hsender] at hsender'
  obtain rfl := Except.ok.inj hsender'
  refine ⟨rfl, _, _, ⟨h.tracks_virtual.push (ethEntry_at h.tracks_virtual hrpc) fun _ => rfl,
    h.tracks_plain.push (ethEntry_at h.tracks_plain hrpc') fun _ => rfl, ?_, h.blockGasUsed,
    h.gasBeforeTx⟩⟩
  rw [List.filter_append]
  refine List.rel_append h.entries (.cons ⟨?_, ?_, ?_, ?_⟩ .nil)
  · simp [ethEntry, h.ethTxIndex]
  · simp only [ethEntry]
    rw [newRPCTransaction_index hrpc hrpc']
  · simp [ethEntry, IndexState.ethReceipt, buildCachedReceipt, h.gasBeforeTx]
  · exact messageLogs_extend sv kv.virtual block r out.txHash msgIndex totalMessages own

theorem indexMsgs {result : ExecTxResult} {txs : ParsedTxs} {msgs : List Msg} {gasv gasp : UInt64}
    (hv : EvmGateway.indexMsgs E kv.virtual block baseFee result txs (some r) txIndex msgs sv =
      .ok (sv', gasv))
    (hp : EvmGateway.indexMsgs E kv.plain block baseFee result txs none txIndex msgs sp =
      .ok (sp', gasp)) :
    ∃ ev' ep', InStep kv block sv' sp' ev' ep' := by
  have hend := forIdx_relation (fun _ (a b : IndexState × UInt64) =>
    a.2 = b.2 ∧ ∃ ev' ep', InStep kv block a.1 b.1 ev' ep') msgs 0 (sv, 0) (sv', gasv) (sp, 0)
    (sp', gasp) ⟨rfl, ev, ep, h⟩ ?_ hv hp
  · exact hend.2
  intro j msg a a' b b' _ hR ha hb
  obtain ⟨hgas, ev', ep', h'⟩ := hR
  cases hmsg : msg.ethereum? with
  | none =>
    rw [hmsg] at ha hb
    obtain rfl := Except.ok.inj ha
    obtain rfl := Except.ok.inj hb
    exact ⟨hgas, ev', ep', h'⟩
  | some ethMsg =>
    rw [hmsg] at ha hb
    rw [← hgas] at hb
    obtain ⟨hgas', e, e', h''⟩ := h'.indexEthMsg ha hb
    exact ⟨hgas', _, _, h''⟩

/-- The synthetic transactions of the virtual run leave the runs in step. -/
theorem indexSyntheticTxs {rawTx : Bytes} {msgs : List Msg} {gas gas' : UInt64}
    (hv : EvmGateway.indexSyntheticTxs E kv.virtual block (some r) txIndex rawTx msgs gas sv =
      .ok sv')
    (hp : EvmGateway.indexSyntheticTxs E kv.plain block none txIndex rawTx msgs gas' sp = .ok sp') :
    ∃ ev' ep', InStep kv block sv' sp' ev' ep' := by
  obtain rfl := Except.ok.inj hp
  obtain ⟨txs, htxs, hv⟩ := bind_eq_ok.mp hv
  obtain rfl := Except.ok.inj hv
  rw [orBlockParseError_eq_ok] at htxs
  have hcons : ConsecutiveFrom block sv.rpcTxIndex txs := syntheticTxs_consecutive ⟨rfl, rfl⟩ htxs
  rw [h.tracks_virtual.rpcTxIndex] at hcons
  exact ⟨_, _, h.storeVirtualTxs hcons⟩

/-- A transaction indexed in both runs. -/
theorem indexTx {txResults : List (Option ExecTxResult)} {rawTx : Bytes}
    (hv : EvmGateway.indexTx E kv.virtual block baseFee txResults txIndex rawTx sv = .ok sv')
    (hp : EvmGateway.indexTx E kv.plain block baseFee txResults txIndex rawTx sp = .ok sp') :
    ∃ ev' ep', InStep kv block sv' sp' ev' ep' := by
  obtain ⟨result, tx, rv, sv₁, gasv, sv₂, hresult, htx, hrv, hmv, hsv, rfl⟩ := indexTx_ok hv
  obtain ⟨result', tx', rp, sp₁, gasp, sp₂, hresult', htx', hrp, hmp, hsp, rfl⟩ := indexTx_ok hp
  obtain rfl : result = result' := by simpa [hresult] using hresult'
  obtain rfl : tx = tx' := Except.ok.inj (htx.symm.trans htx')
  obtain ⟨r, rfl⟩ : ∃ r, rv = some r := by
    rcases virtualResponse_ok hrv with ⟨-, r, -, hr⟩ | ⟨hoff, -⟩
    · exact ⟨r, hr⟩
    · cases hoff
  obtain rfl : rp = none := by
    rcases virtualResponse_ok hrp with ⟨hon, -⟩ | ⟨-, hr⟩
    · cases hon
    · exact hr
  have hmsgs : ∃ ev₁ ep₁, InStep kv block sv₁ sp₁ ev₁ ep₁ := by
    rcases hmv with ⟨heth, txs, htxs, hmv⟩ | ⟨heth, rfl, -⟩
    · obtain ⟨-, txs', htxs', hmp⟩ := hmp.resolve_right (by simp [heth])
      obtain rfl : txs = txs' := Except.ok.inj (htxs.symm.trans htxs')
      exact h.indexMsgs hmv hmp
    · obtain ⟨-, rfl, -⟩ := hmp.resolve_left (by simp [heth])
      exact ⟨ev, ep, h⟩
  obtain ⟨ev₁, ep₁, h₁⟩ := hmsgs
  obtain ⟨ev₂, ep₂, h₂⟩ := h₁.indexSyntheticTxs hsv hsp
  exact ⟨ev₂, ep₂, h₂.addGas _⟩

/-- A block phase of the virtual run leaves the runs in step. -/
theorem storeBlockPhase (hash : Hash) (logs : List EthLog) (gas gas' : UInt64) :
    ∃ ev' ep', InStep kv block (sv.storeBlockPhase E kv.virtual block hash logs gas)
      (sp.storeBlockPhase E kv.plain block hash [] gas') ev' ep' := by
  by_cases hlogs : logs = []
  · subst hlogs
    exact ⟨ev, ep, h⟩
  · have hat : VirtualTx.At block ev.length (newBlockTx hash logs
        (sv.virtualLogContext block hash sv.rpcTxIndex) kv.virtual.virtualChainID gas) := by
      rw [← h.tracks_virtual.rpcTxIndex]
      exact newBlockTx_at ..
    have hstep := h.storeVirtualTxs (E := E) (.cons hat (consecutiveFrom_nil block _))
    have hne : logs.isEmpty = false := by simpa using hlogs
    simp only [IndexState.storeBlockPhase, hne, Bool.false_eq_true, if_false]
    exact ⟨_, ep, hstep⟩

end InStep

/-- **The two runs over a block end in step.** -/
theorem buildBlock_inStep {E : Env} {kv : KVIndexer} {block : Block} {results : Option BlockResults}
    {sv sp : IndexState} (hv : buildBlock E kv.virtual block results = .ok sv)
    (hp : buildBlock E kv.plain block results = .ok sp) :
    ∃ ev ep, InStep kv block sv sp ev ep := by
  obtain ⟨txResults, beginLogs, endLogs, sv₁, hnorm, hphase, hloopv, rfl⟩ := buildBlock_ok hv
  obtain ⟨txResults', begin', end', sp₁, hnorm', hphase', hloopp, rfl⟩ := buildBlock_ok hp
  obtain rfl : txResults = txResults' := Except.ok.inj (hnorm.symm.trans hnorm')
  obtain ⟨rfl, rfl⟩ := Prod.mk.inj ((blockPhaseLogs_ok hphase').2 rfl)
  have hinit : InStep kv block {} {} [] [] :=
    ⟨Tracks.init _ _, Tracks.init _ _, .nil, rfl, rfl⟩
  obtain ⟨ev₀, ep₀, h₀⟩ := hinit.storeBlockPhase (E := E) (beginBlockHash E block.height) beginLogs
    0 0
  have hend := forIdx_relation (fun _ a b => ∃ ev' ep', InStep kv block a b ev' ep') block.txs 0 _ sv₁
    _ sp₁ ⟨ev₀, ep₀, h₀⟩ ?_ hloopv hloopp
  · obtain ⟨ev₁, ep₁, h₁⟩ := hend
    exact h₁.storeBlockPhase (endBlockHash E block.height) endLogs _ _
  intro j rawTx a a' b b' _ hR ha hb
  obtain ⟨ev', ep', h'⟩ := hR
  exact h'.indexTx ha hb

/-! ## The two stores -/

/-- What the store `dbv` with virtualisation and the store `dbp` without it agree on. -/
structure ConservativelyExtends (dbv dbp : DB) (height : ℕ) : Prop where
  txResult : ∀ x, dbv.get? (.txHash x) = dbp.get? (.txHash x)
  txIndex : ∀ n i, dbv.get? (.txIndex n i) = dbp.get? (.txIndex n i)
  order : (getRPCTransactionHashesByBlockHeight dbp height).Sublist
    (getRPCTransactionHashesByBlockHeight dbv height)
  added : ∀ x ∈ getRPCTransactionHashesByBlockHeight dbv height,
    x ∉ getRPCTransactionHashesByBlockHeight dbp height → isVirtualRPCTransaction dbv x = true
  transaction : ∀ x ∈ getRPCTransactionHashesByBlockHeight dbp height,
    ∃ tv tp, dbv.get? (.rpcTxHash x) = some tv ∧ dbp.get? (.rpcTxHash x) = some tp ∧
      tv = { tp with transactionIndex := tv.transactionIndex }
  receipt : ∀ x ∈ getRPCTransactionHashesByBlockHeight dbp height,
    ∃ rv rp, dbv.get? (.receipt x) = some rv ∧ dbp.get? (.receipt x) = some rp ∧
      rv = { rp with
        transactionIndex := rv.transactionIndex, logs := rv.logs, logsBloom := rv.logsBloom } ∧
      LogsExtend rv.logs rp.logs
  blockMeta : ∃ mv mp, dbv.get? (.blockMeta height) = some mv ∧
    dbp.get? (.blockMeta height) = some mp ∧
      mv = { mp with
        ethTxCount := mv.ethTxCount
        bloom := mv.bloom
        transactionsRoot := mv.transactionsRoot
        virtualizedCosmosEvents := mv.virtualizedCosmosEvents }

namespace InStep

variable {E : Env} {kv : KVIndexer} {block : Block} {sv sp : IndexState} {ev ep : List Entry}

variable (h : InStep kv block sv sp ev ep)

include h

theorem exists_virtual {e : Entry} (he : e ∈ ep) :
    ∃ e' ∈ ev, EthSame e' e := by
  obtain ⟨i, hi⟩ := List.getElem?_of_mem he
  obtain ⟨e', hi', hsame⟩ := forall₂_getElem?_right h.entries hi
  exact ⟨e', (List.mem_filter.mp (List.mem_of_getElem? hi')).1, hsame⟩

theorem exists_plain {e : Entry} (he : e ∈ ev) (heth : e.isEth = true) :
    ∃ e' ∈ ep, EthSame e e' := by
  obtain ⟨i, hi⟩ := List.getElem?_of_mem (List.mem_filter.mpr ⟨he, heth⟩)
  obtain ⟨e', hi', hsame⟩ := forall₂_getElem?_left h.entries hi
  exact ⟨e', List.mem_of_getElem? hi', hsame⟩

theorem ethHashes_eq :
    (ev.filter Entry.isEth).map Entry.hash = ep.map Entry.hash := by
  rw [← List.forall₂_eq_eq_eq, List.forall₂_map_left_iff, List.forall₂_map_right_iff]
  exact h.entries.imp fun _ _ hsame => hsame.hash

end InStep

/-- Two runs in step leave stores one of which extends the other. -/
theorem InStep.conservativelyExtends {E : Env} {kv : KVIndexer} {db dbv dbp : DB}
    {results : Option BlockResults} {Rv Rp : BlockRecords} {sv sp : IndexState} {nv np : ℕ}
    (h : InStep kv Rv.block sv sp Rv.entries Rp.entries) (hblock : Rv.block = Rp.block)
    (hmeta : Rv.blockMeta = { Rp.blockMeta with
      ethTxCount := Rv.blockMeta.ethTxCount
      bloom := Rv.blockMeta.bloom
      transactionsRoot := Rv.blockMeta.transactionsRoot
      virtualizedCosmosEvents := Rv.blockMeta.virtualizedCosmosEvents })
    (hv : indexBlock E kv.virtual db Rv.block results = .ok dbv)
    (hp : indexBlock E kv.plain db Rp.block results = .ok dbp)
    (hwv : blockWrites E kv.virtual Rv.block results = .ok (Rv.writes, nv))
    (hwp : blockWrites E kv.plain Rp.block results = .ok (Rp.writes, np))
    (hnd : (getRPCTransactionHashesByBlockHeight dbv Rv.block.height).Nodup) :
    ConservativelyExtends dbv dbp Rv.block.height := by
  have hholdsv := holds_of_indexBlock hv hwv
  have hholdsp := holds_of_indexBlock hp hwp
  have hlistv := hholdsv.getRPCTransactionHashesByBlockHeight
  have hlistp := hholdsp.getRPCTransactionHashesByBlockHeight
  rw [← hblock] at hlistp
  rw [hlistv] at hnd
  have hsub : Rp.hashes.Sublist Rv.hashes := by
    rw [BlockRecords.hashes, ← h.ethHashes_eq]
    exact List.filter_sublist.map _
  have hndp : Rp.hashes.Nodup := hsub.nodup hnd
  have hallp : ∀ e ∈ Rp.entries, e.isEth = true := h.tracks_plain.eth_of_plain rfl
  have hethp : Rp.ethHashes = Rp.hashes := by
    rw [BlockRecords.ethHashes, List.filter_eq_self.mpr hallp, BlockRecords.hashes]
  -- both runs reset the same height of the same store, so equal records give equal reads
  have hcongr : ∀ k : Key, Rv.get k = Rp.get k → dbv.get? k = dbp.get? k := by
    intro k hk
    rw [get?_of_indexBlock hv hwv, get?_of_indexBlock hp hwp, hk, hblock]
  refine ⟨?_, ?_, ?_, ?_, ?_, ?_, ?_⟩
  · intro x
    refine hcongr _ (Option.ext fun r => ?_)
    rw [BlockRecords.get_txHash hnd, BlockRecords.get_txHash hndp]
    constructor
    · intro hex
      obtain ⟨e, he, rfl, hr⟩ := hex
      obtain ⟨e', he', hsame⟩ := h.exists_plain he (by simp [Entry.isEth, hr])
      exact ⟨e', he', hsame.hash.symm, by rw [← hsame.result, hr]⟩
    · intro hex
      obtain ⟨e, he, rfl, hr⟩ := hex
      obtain ⟨e', he', hsame⟩ := h.exists_virtual he
      exact ⟨e', he', hsame.hash, by rw [hsame.result, hr]⟩
  · intro n i
    refine hcongr _ (Option.ext fun x => ?_)
    rw [BlockRecords.get_txIndex_iff_ethHashes, BlockRecords.get_txIndex_iff_ethHashes, hethp, hblock,
      BlockRecords.ethHashes, h.ethHashes_eq, BlockRecords.hashes]
  · rw [hlistv, hlistp]
    exact hsub
  · intro x hx hnot
    rw [hlistv] at hx
    rw [hlistp] at hnot
    obtain ⟨e, he, rfl⟩ := List.mem_map.mp hx
    have hsyn : e.result = none := by
      by_contra hsome
      obtain ⟨e', he', hsame⟩ := h.exists_plain he (by simpa [Entry.isEth, Option.isSome_iff_ne_none])
      exact hnot (List.mem_map.mpr ⟨e', he', hsame.hash.symm⟩)
    have hmark : Rv.get (.virtualRPCtx e.hash) = some () :=
      BlockRecords.get_of_entry he (by simp [Entry.get, hsyn]) fun _ _ _ _ => rfl
    rw [isVirtualRPCTransaction, hholdsv.get? _ _ hmark]
    rfl
  · intro x hx
    rw [hlistp] at hx
    obtain ⟨e, he, rfl⟩ := List.mem_map.mp hx
    obtain ⟨e', he', hsame⟩ := h.exists_virtual he
    exact ⟨e'.tx, e.tx, hholdsv.get? _ _ ((BlockRecords.get_rpcTxHash hnd).mpr
      ⟨e', he', hsame.hash, rfl⟩), hholdsp.get? _ _ ((BlockRecords.get_rpcTxHash hndp).mpr
      ⟨e, he, rfl, rfl⟩), hsame.tx⟩
  · intro x hx
    rw [hlistp] at hx
    obtain ⟨e, he, rfl⟩ := List.mem_map.mp hx
    obtain ⟨e', he', hsame⟩ := h.exists_virtual he
    exact ⟨e'.receipt, e.receipt, hholdsv.get? _ _ ((BlockRecords.get_receipt hnd).mpr
      ⟨e', he', hsame.hash, rfl⟩), hholdsp.get? _ _ ((BlockRecords.get_receipt hndp).mpr
      ⟨e, he, rfl, rfl⟩), hsame.receipt, hsame.logs⟩
  · refine ⟨Rv.blockMeta, Rp.blockMeta, hholdsv.get? _ _ Rv.get_blockMeta, ?_, hmeta⟩
    rw [hblock]
    exact hholdsp.get? _ _ Rp.get_blockMeta

/-- **Virtualisation is a conservative extension.**  A block that can be indexed in both
modes leaves the same indexed results and the same Ethereum index; the transactions of
the plain store keep their order, and their records differ only in the visible position
and in logs added at the end. -/
theorem virtual_conservative {E : Env} {kv : KVIndexer} {db dbv dbp : DB} {block : Block}
    {results : Option BlockResults}
    (hv : indexBlock E kv.virtual db block results = .ok dbv)
    (hp : indexBlock E kv.plain db block results = .ok dbp)
    (hnd : (getRPCTransactionHashesByBlockHeight dbv block.height).Nodup) :
    ConservativelyExtends dbv dbp block.height := by
  obtain ⟨wsv, nv, hwv, -⟩ := exists_blockWrites hv
  obtain ⟨wsp, np, hwp, -⟩ := exists_blockWrites hp
  obtain ⟨sv, rootv, hbv, rfl⟩ := exists_buildBlock hwv
  obtain ⟨sp, rootp, hbp, rfl⟩ := exists_buildBlock hwp
  obtain ⟨ev, ep, h⟩ := buildBlock_inStep hbv hbp
  rw [← h.tracks_virtual.writes_records] at hwv
  rw [← h.tracks_plain.writes_records] at hwp
  refine @InStep.conservativelyExtends E kv db dbv dbp results (h.tracks_virtual.records E _ rootv)
    (h.tracks_plain.records E _ rootp) sv sp nv np h rfl ?_ hv hp hwv hwp hnd
  simp [Tracks.records, IndexState.blockMeta, h.blockGasUsed, KVIndexer.virtual, KVIndexer.plain]

/-- An Ethereum transaction and a Cosmos transaction, both with a bank event: the virtual
store lists one hash more. -/
theorem virtual_conservative_mixed :
    ∃ dbv dbp, indexBlock .sample (KVIndexer.virtual {}) ∅ sampleMixedBlock
        (some sampleMixedResults) = .ok dbv ∧
      indexBlock .sample (KVIndexer.plain {}) ∅ sampleMixedBlock (some sampleMixedResults) =
        .ok dbp ∧
      (getRPCTransactionHashesByBlockHeight dbv 1).length = 2 ∧
      (getRPCTransactionHashesByBlockHeight dbp 1).length = 1 ∧
      ConservativelyExtends dbv dbp 1 := by
  refine ⟨_, _, rfl, rfl, by decide +kernel, by decide +kernel, ?_⟩
  exact @virtual_conservative .sample {} ∅ _ _ sampleMixedBlock (some sampleMixedResults) rfl rfl
    (by decide +kernel)

end EvmGateway
