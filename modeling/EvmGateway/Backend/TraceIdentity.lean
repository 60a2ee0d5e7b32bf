import EvmGateway.Backend.AnteFailed
import EvmGateway.Backend.TraceAlignment

/-!
# The entries of a block trace

A request for the traces of a block is answered in four passes: the node's traces are
labelled with the hashes of the messages, aligned with the visible transactions, cached,
and errors of transactions that failed in the ante handler are replaced.  Every pass goes
by positions in the same list.

* `TraceCacheSound` is what the first three passes keep: the cached traces are the aligned
  ones (`traceBlock_sound`), along every run of requests (`TraceRun.sound`).
* `fill_entry` says what the last pass can do to an entry: nothing, or replace it and its
  label.
* `block_traces_identified_iff` is the result: the entries are identified exactly if every
  message is visible and no error has to be replaced.
-/

namespace EvmGateway

open Lib

/-! ## Labelled and aligned traces -/

def labelTraces (node : BlockTrace) (hashes : List Hash) : BlockTrace :=
  List.zipWith (fun r hash => some { r.getD {} with txHash := hash }) node hashes

/-- The node's traces in the order of the visible transactions. -/
def alignedTraces (node : BlockTrace) (msgs visible : List Hash) : BlockTrace :=
  alignTraceBlockResults (labelTraces node msgs) visible

section Aligned

variable {node : BlockTrace} {msgs visible : List Hash}

variable (hlen : node.length = msgs.length)

include hlen

theorem attachTraceBlockTransactionHashes_eq :
    attachTraceBlockTransactionHashes node msgs = .ok (labelTraces node msgs) :=
  if_neg (not_not.mpr hlen)

theorem labelled_labelTraces :
    Labelled msgs (labelTraces node msgs) :=
  labelled_attach (attachTraceBlockTransactionHashes_eq hlen)

omit hlen in
theorem getElem?_labelTraces {j : ℕ} {x : Hash} {r : Option TxTraceResult} (hx : msgs[j]? = some x)
    (hr : node[j]? = some r) :
    (labelTraces node msgs)[j]? = some (some { r.getD {} with txHash := x }) := by
  rw [labelTraces, List.getElem?_zipWith, hx, hr]

theorem alignedTraces_of_subset (hmsgs : msgs.Nodup) (hvisible : visible.Nodup) (hzero : 0 ∉ msgs)
    (hsub : msgs ⊆ visible) :
    alignedTraces node msgs visible = visible.map fun x =>
      some ((traceByHash (labelTraces node msgs) x).getD (emptyTrace x)) := by
  have hlabel := labelled_labelTraces hlen
  rw [alignedTraces, alignTraceBlockResults, hlabel.allTracesPresent, hlabel.countP_traceByHash,
    (countP_mem_eq_length_iff hmsgs hvisible).mpr hsub, hlabel.length_eq]
  by_cases hempty : visible = []
  · have hnone : msgs = [] := List.eq_nil_of_subset_nil (hempty ▸ hsub)
    simp [hempty, hnone, labelTraces]
  · simpa [hempty] using fun h => absurd h hzero

theorem labelled_alignedTraces (hmsgs : msgs.Nodup) (hvisible : visible.Nodup) (hzero : 0 ∉ msgs)
    (hsub : msgs ⊆ visible) :
    Labelled visible (alignedTraces node msgs visible) := by
  rw [alignedTraces_of_subset hlen hmsgs hvisible hzero hsub]
  exact labelled_map_traceByHash _ visible

theorem alignedTraces_of_not_subset (hmsgs : msgs.Nodup) (hvisible : visible.Nodup)
    (hsub : ¬ msgs ⊆ visible) :
    alignedTraces node msgs visible = labelTraces node msgs := by
  have hlabel := labelled_labelTraces hlen
  have hcount := mt (countP_mem_eq_length_iff hmsgs hvisible).mp hsub
  rw [alignedTraces, alignTraceBlockResults, hlabel.countP_traceByHash, hlabel.length_eq,
    if_pos hcount, ite_self]

theorem getElem?_alignedTraces (hmsgs : msgs.Nodup) (hvisible : visible.Nodup) (hzero : 0 ∉ msgs)
    (hsub : msgs ⊆ visible) {i j : ℕ} {x : Hash} {r : Option TxTraceResult}
    (hi : visible[i]? = some x) (hj : msgs[j]? = some x) (hr : node[j]? = some r) :
    (alignedTraces node msgs visible)[i]? = some (some { r.getD {} with txHash := x }) := by
  have hmem := List.mem_of_getElem? (getElem?_labelTraces hj hr)
  have hfound := traceByHash_eq (labelled_labelTraces hlen) hmsgs hmem
  rw [alignedTraces_of_subset hlen hmsgs hvisible hzero hsub, List.getElem?_map, hi,
    Option.map_some, hfound, Option.getD_some]

theorem error_of_synthetic (hmsgs : msgs.Nodup) (hvisible : visible.Nodup) (hzero : 0 ∉ msgs)
    (hsub : msgs ⊆ visible) {i : ℕ} {x : Hash} {t : TxTraceResult} (hi : visible[i]? = some x)
    (hx : x ∉ msgs) (ht : (alignedTraces node msgs visible)[i]? = some (some t)) :
    t.error = "" := by
  have hmiss : traceByHash (labelTraces node msgs) x = none := by
    rw [← Option.not_isSome_iff_eq_none, traceByHash_isSome, ← (labelled_labelTraces hlen).mem_iff]
    exact hx
  rw [alignedTraces_of_subset hlen hmsgs hvisible hzero hsub, List.getElem?_map, hi,
    Option.map_some, hmiss] at ht
  obtain rfl := Option.some.inj (Option.some.inj ht)
  rfl

end Aligned

/-! ## The last pass -/

/-- The trace that would be put in the place of an error at a position. -/
def replacement (E : Env) (config : Option TraceConfig) (position : AntePosition) :
    Option AnteFailedTrace :=
  if txAnteFailed E position.res then
    anteFailedTraceResult E position.msg position.res config
  else none

theorem fillAnteFailedTrace_some (E : Env) (config : Option TraceConfig) (t : TxTraceResult)
    (position : AntePosition) :
    fillAnteFailedTrace E config (some t) position =
      some (if t.error = "" then t else ((replacement E config position).map fun trace =>
        { result := some (E.anteFailedJson trace) }).getD t) := by
  unfold fillAnteFailedTrace replacement
  by_cases herror : t.error = ""
  · simp [herror]
  · cases hfailed : txAnteFailed E position.res with
    | false => simp [herror]
    | true =>
      cases anteFailedTraceResult E position.msg position.res config <;> simp [herror]

structure Available (b : Backend) (height : ℤ) (given : Option Block) (block : Block)
    (results : BlockResults) : Prop where
  online : b.offlineRPCOnly = false
  blockAt : b.blockOfFailures height given = some block
  resultsAt : b.tendermintBlockResultByNumber block.height = .ok (some results)

section Fill

variable {E : Env} {b : Backend} {height : ℤ} {given : Option Block} {block : Block}
  {results : BlockResults} {config : Option TraceConfig} {traces : BlockTrace} {i : ℕ}
  {t : TxTraceResult}

theorem map_msg_antePositions (E : Env) (block : Block) (results : BlockResults) :
    (antePositions E block results).map (·.msg) = ethMsgsFromTendermintBlock E block := by
  have hat : ∀ e : Bytes × ℕ,
      (antePositionsAt E results e.2 e.1).map (·.msg) = ethMsgsOfTx E e.1 := by
    intro e
    simp [antePositionsAt, Function.comp_def]
  have htxs : block.txs.zipIdx.map (·.1) = block.txs := List.zipIdx_map_fst 0 block.txs
  rw [antePositions, List.map_flatMap, ethMsgsFromTendermintBlock, ← htxs, List.flatMap_map, htxs]
  simp only [hat]

theorem fill_of_replacement (h : Available b height given block results)
    (hlen : (antePositions E block results).length = traces.length)
    (ht : traces[i]? = some (some t)) (herror : t.error ≠ "") {p : AntePosition}
    (hp : (antePositions E block results)[i]? = some p) {trace : AnteFailedTrace}
    (htrace : replacement E config p = some trace) :
    (b.fillAnteFailedBlockTraces E traces height given config)[i]? =
      some (some { result := some (E.anteFailedJson trace) }) := by
  have herrors : hasTraceErrors traces = true :=
    List.any_eq_true.mpr ⟨some t, List.mem_of_getElem? ht, by simpa using herror⟩
  simp [Backend.fillAnteFailedBlockTraces, h.online, herrors, h.blockAt, h.resultsAt, hlen,
    List.getElem?_zipWith, ht, hp, fillAnteFailedTrace_some, if_neg herror, htrace]

/-- **What the last pass does**: nothing, or the block is at hand and it goes through the traces and
the messages together. -/
theorem fill_cases (E : Env) (traces : BlockTrace) (config : Option TraceConfig)
    (hblock : ∀ block', b.blockOfFailures height given = some block' → block' = block)
    (hresults : ∀ r, b.tendermintBlockResultByNumber block.height = .ok (some r) → r = results) :
    b.fillAnteFailedBlockTraces E traces height given config = traces ∨
      Available b height given block results ∧
      (antePositions E block results).length = traces.length ∧
      b.fillAnteFailedBlockTraces E traces height given config =
        List.zipWith (fillAnteFailedTrace E config) traces (antePositions E block results) := by
  unfold Backend.fillAnteFailedBlockTraces
  split_ifs with hskip
  · exact .inl rfl
  · have honline : b.offlineRPCOnly = false := by
      rw [Bool.or_eq_true, not_or, Bool.not_eq_true] at hskip
      exact hskip.1
    cases hfound : b.blockOfFailures height given with
    | none => exact .inl rfl
    | some block' =>
      obtain rfl := hblock block' hfound
      cases hres : b.tendermintBlockResultByNumber block'.height with
      | error e => simp [hres]
      | ok found =>
        cases found with
        | none => simp [hres]
        | some r =>
          obtain rfl := hresults r hres
          by_cases hlen : (antePositions E block' r).length = traces.length
          · exact .inr ⟨⟨honline, hfound, hres⟩, hlen, by simp [hres, hlen]⟩
          · simp [hres, hlen]

/-- An entry is kept, or it loses its label. -/
theorem fill_entry (E : Env) (config : Option TraceConfig)
    (hblock : ∀ block', b.blockOfFailures height given = some block' → block' = block)
    (hresults : ∀ r, b.tendermintBlockResultByNumber block.height = .ok (some r) → r = results)
    (ht : traces[i]? = some (some t)) :
    (b.fillAnteFailedBlockTraces E traces height given config)[i]? = some (some t) ∨
      ∃ r, (b.fillAnteFailedBlockTraces E traces height given config)[i]? =
        some (some { result := r }) := by
  rcases fill_cases E traces config hblock hresults with hfill | ⟨-, hlen, hfill⟩
  · rw [hfill]
    exact .inl ht
  · have hi : i < (antePositions E block results).length :=
      hlen ▸ (List.getElem?_eq_some_iff.mp ht).1
    rw [hfill, List.getElem?_zipWith, ht, List.getElem?_eq_getElem hi]
    simp only [fillAnteFailedTrace_some]
    by_cases herror : t.error = ""
    · rw [if_pos herror]
      exact .inl rfl
    · rw [if_neg herror]
      cases replacement E config (antePositions E block results)[i] with
      | none => exact .inl rfl
      | some trace => exact .inr ⟨_, rfl⟩

/-- Without errors to be replaced the traces stay as they are. -/
theorem fill_eq_self
    (hblock : ∀ block', b.blockOfFailures height given = some block' → block' = block)
    (hresults : ∀ r, b.tendermintBlockResultByNumber block.height = .ok (some r) → r = results)
    (hclean : Available b height given block results →
      (antePositions E block results).length = traces.length →
      ∀ (i : ℕ) (p : AntePosition) (t : TxTraceResult),
        (antePositions E block results)[i]? = some p →
        traces[i]? = some (some t) → (replacement E config p).isSome = true → t.error = "") :
    b.fillAnteFailedBlockTraces E traces height given config = traces := by
  rcases fill_cases E traces config hblock hresults with hfill | ⟨hat, hlen, hfill⟩
  · exact hfill
  · rw [hfill]
    refine List.ext_getElem (by simp [hlen]) fun i hi hi' => ?_
    have hi₂ : i < (antePositions E block results).length := hlen ▸ hi'
    rw [List.getElem_zipWith]
    cases ht : traces[i] with
    | none => rfl
    | some t =>
      rw [fillAnteFailedTrace_some]
      by_cases herror : t.error = ""
      · rw [if_pos herror]
      · rw [if_neg herror]
        cases hrep : replacement E config (antePositions E block results)[i] with
        | none => rfl
        | some trace =>
          refine absurd (hclean hat hlen i _ t (List.getElem?_eq_getElem hi₂) ?_ ?_) herror
          · rw [List.getElem?_eq_getElem hi', ht]
          · rw [hrep]
            rfl

end Fill

/-! ## Requests -/

def SenderRecoverable (E : Env) (msg : MsgEthereumTx) : Prop :=
  ∃ txData, msg.asTransaction = some txData ∧ (anteFailedSender E msg txData).isSome = true

def TracerReplaces (config : Option TraceConfig) : Prop :=
  (config.map (·.tracer)).getD tracerStructLogger = tracerCall ∨
    (config.map (·.tracer)).getD tracerStructLogger = tracerStructLogger

/-- A request for the traces of a block.  What the node answers about the block is the block,
its results and its traces. -/
structure TraceCall (E : Env) (node : Option TraceConfig → BlockTrace) (block : Block)
    (results : BlockResults) (b : Backend) (height : ℤ) (given : Option Block) : Prop where
  cacheHeight : ∀ h, b.traceCacheHeight height given = some h → h = block.height
  blockOf : ∀ block', b.blockOfFailures height given = some block' → block' = block
  resultsOf : ∀ r, b.tendermintBlockResultByNumber block.height = .ok (some r) → r = results
  answers : ∀ config data,
    b.queryClient.traceBlock (Backend.traceBlockContextHeight height block)
      (b.traceBlockRequest config block (ethMsgsFromTendermintBlock E block)) = .ok data →
    E.unmarshalTraces data = .ok (node config)

/-- The node has a trace for each message, options that are filed together are traced alike, and
traces survive being encoded. -/
structure TraceLaws (E : Env) (node : Option TraceConfig → BlockTrace) (block : Block) : Prop where
  length : ∀ config, (node config).length = (blockMsgHashes E block).length
  keys : ∀ c c', traceConfigKey E c = traceConfigKey E c' → node c = node c'
  codec : ∀ traces raw, none ∉ traces → E.marshalTraces traces = .ok raw →
    raw ≠ [] ∧ E.unmarshalTraces raw = .ok traces

structure TraceCacheSound (E : Env) (node : Option TraceConfig → BlockTrace) (block : Block)
    (visible : List Hash) (db : DB) : Prop where
  visible_eq : getRPCTransactionHashesByBlockHeight db block.height = visible
  cached : ∀ config raw, getTraceBlockByHeight E db block.height config = .ok raw →
    E.unmarshalTraces raw = .ok (alignedTraces (node config) (blockMsgHashes E block) visible)

/-- The stores along a run: requests for the traces of the block are answered, and anything may
happen that leaves its traces and its visible transactions alone. -/
inductive TraceRun (E : Env) (node : Option TraceConfig → BlockTrace) (block : Block)
    (results : BlockResults) (db₀ : DB) : DB → Prop where
  | start : TraceRun E node block results db₀ db₀
  | call {db db' : DB} {b : Backend} {height : ℤ} {given : Option Block}
      {config : Option TraceConfig} {traces : BlockTrace} :
      TraceRun E node block results db₀ db → b.indexer = some db →
      TraceCall E node block results b height given →
      b.traceBlockAnswer E height config given = .ok (traces, some db') →
      TraceRun E node block results db₀ db'
  | other {db db' : DB} : TraceRun E node block results db₀ db →
      getRPCTransactionHashesByBlockHeight db' block.height =
        getRPCTransactionHashesByBlockHeight db block.height →
      (∀ c, db'.get? (.traceBlock block.height c) = db.get? (.traceBlock block.height c)) →
      TraceRun E node block results db₀ db'

section Requests

variable {E : Env} {node : Option TraceConfig → BlockTrace} {block : Block} {results : BlockResults}
  {b : Backend} {height : ℤ} {given : Option Block} {config : Option TraceConfig} {db db' : DB}
  {odb : Option DB} {traces : BlockTrace} {visible : List Hash}

theorem blockOfFailures_of_blockToTrace {block' : Block}
    (h : b.blockToTrace height given = .ok block') :
    b.blockOfFailures height given = some block' := by
  cases given with
  | some block => exact congrArg some (Except.ok.inj h)
  | none =>
    unfold Backend.blockToTrace at h
    unfold Backend.blockOfFailures
    cases hnode : b.tendermintBlockByNumber height with
    | error e => simp [hnode, wrapErr, Except.mapError] at h
    | ok found =>
      cases found with
      | none => simp [hnode, wrapErr, Except.mapError] at h
      | some block =>
        simp only [hnode, wrapErr, Except.mapError, ok_bind, pure_eq_ok] at h
        exact congrArg some (Except.ok.inj h)

theorem TraceCall.replayBlock (hcall : TraceCall E node block results b height given)
    (hlaws : TraceLaws E node block) (h : b.replayBlock E height config block = .ok traces) :
    traces = labelTraces (node config) (blockMsgHashes E block) := by
  unfold Backend.replayBlock at h
  by_cases hempty : (ethMsgsFromTendermintBlock E block).isEmpty = true
  · simp only [hempty, if_true] at h
    obtain rfl := Except.ok.inj h
    simp [labelTraces, blockMsgHashes, List.isEmpty_iff.mp hempty]
  · simp only [hempty] at h
    obtain ⟨data, hdata, h⟩ := bind_eq_ok.mp h
    obtain ⟨found, hfound, h⟩ := bind_eq_ok.mp h
    obtain rfl := Except.ok.inj ((hcall.answers config data hdata).symm.trans hfound)
    have hattach := attachTraceBlockTransactionHashes_eq (hlaws.length config)
    exact (Except.ok.inj (hattach.symm.trans h)).symm

theorem TraceCall.cachedTraceBlock (hcall : TraceCall E node block results b height given)
    (hb : b.indexer = some db) {h : ℕ} {raw : Bytes}
    (hcached : b.cachedTraceBlock E height config given = some (h, raw)) :
    h = block.height ∧ getTraceBlockByHeight E db block.height config = .ok raw := by
  unfold Backend.cachedTraceBlock at hcached
  rw [hb] at hcached
  cases hheight : b.traceCacheHeight height given with
  | none => simp [hheight] at hcached
  | some h' =>
    obtain rfl := hcall.cacheHeight h' hheight
    simp only [hheight, Option.map_eq_some_iff, Prod.mk.injEq] at hcached
    obtain ⟨raw', hraw, rfl, rfl⟩ := hcached
    refine ⟨rfl, ?_⟩
    cases hget : getTraceBlockByHeight E db block.height config with
    | error e => simp [hget, Except.toOption] at hraw
    | ok found => simpa [hget, Except.toOption] using hraw

theorem TraceCacheSound.set (hsound : TraceCacheSound E node block visible db)
    (hlaws : TraceLaws E node block) {raw : Bytes} (hne : raw ≠ [])
    (hraw : E.unmarshalTraces raw =
      .ok (alignedTraces (node config) (blockMsgHashes E block) visible)) :
    TraceCacheSound E node block visible (setTraceBlockByHeight E db block.height config raw) where
  visible_eq := by
    have hscan : DB.rpcTxIndexEntries (setTraceBlockByHeight E db block.height config raw)
        block.height = db.rpcTxIndexEntries block.height :=
      DB.rpcTxIndexEntries_congr fun i => get?_insert_trace db _ rfl rfl
    rw [← hsound.visible_eq, getRPCTransactionHashesByBlockHeight, hscan,
      getRPCTransactionHashesByBlockHeight]
  cached := by
    intro config' raw' hraw'
    by_cases hkey : traceConfigKey E config' = traceConfigKey E config
    · have hself : getTraceBlockByHeight E (setTraceBlockByHeight E db block.height config raw)
          block.height config' = .ok raw := by
        refine DB.getOr_of_get? ?_ _
        rw [setTraceBlockByHeight, if_neg hne, hkey]
        exact Std.ExtDTreeMap.get?_insert_self
      rw [hlaws.keys config' config hkey, ← Except.ok.inj (hself.symm.trans hraw')]
      exact hraw
    · have hne' : Key.traceBlock block.height (traceConfigKey E config) ≠
          .traceBlock block.height (traceConfigKey E config') := by
        simpa [eq_comm] using hkey
      refine hsound.cached config' raw' (DB.getOr_eq_ok.mpr ?_)
      have hget := DB.getOr_eq_ok.mp hraw'
      rw [setTraceBlockByHeight, Std.ExtDTreeMap.get?_insert, dif_neg (by simpa using hne')] at hget
      exact hget

/-- **A request keeps the cache sound**, and its traces are the aligned ones, live or cached. -/
theorem traceBlock_sound (hlaws : TraceLaws E node block) (hmsgs : 0 ∉ blockMsgHashes E block)
    (hvisible : visible.Nodup) (hzero : 0 ∉ visible)
    (hsound : TraceCacheSound E node block visible db)
    (hb : b.indexer = some db) (hcall : TraceCall E node block results b height given)
    (h : b.traceBlock E height config given = .ok (traces, odb)) :
    traces = alignedTraces (node config) (blockMsgHashes E block) visible ∧
      ∃ db', odb = some db' ∧ TraceCacheSound E node block visible db' := by
  have hlabel := (labelled_labelTraces (hlaws.length config)).align visible
  unfold Backend.traceBlock at h
  cases hcached : b.cachedTraceBlock E height config given with
  | some found =>
    obtain ⟨n, raw⟩ := found
    obtain ⟨rfl, hraw⟩ := hcall.cachedTraceBlock hb hcached
    rw [hcached] at h
    obtain ⟨read, hread, h⟩ := bind_eq_ok.mp h
    obtain ⟨rfl, rfl⟩ := Prod.mk.inj (Except.ok.inj h)
    have hread' : b.readTraceBlock E raw block.height given = .ok _ :=
      Backend.readTraceBlock_eq hb (hsound.cached config raw hraw) hlabel
      (by unfold alignedHashes; split_ifs <;> assumption)
      (by rw [hsound.visible_eq]; exact align_align hvisible)
    exact ⟨Except.ok.inj (hread.symm.trans hread'), db, hb, hsound⟩
  | none =>
    rw [hcached] at h
    by_cases hoff : b.offlineRPCOnly = true
    · simp [hoff] at h
    · simp only [hoff] at h
      obtain ⟨block', hblock, h⟩ := bind_eq_ok.mp h
      obtain rfl := hcall.blockOf block' (blockOfFailures_of_blockToTrace hblock)
      obtain ⟨replayed, hreplayed, h⟩ := bind_eq_ok.mp h
      obtain rfl := hcall.replayBlock hlaws hreplayed
      obtain ⟨odb', hstore, h⟩ := bind_eq_ok.mp h
      obtain ⟨rfl, rfl⟩ := Prod.mk.inj (Except.ok.inj h)
      simp only [Backend.alignTraceBlockResultsWithVisibleTransactions, hb,
        hsound.visible_eq] at hstore ⊢
      simp only [Backend.storeTraceBlock, hb] at hstore
      obtain ⟨raw, hraw, hstore⟩ := bind_eq_ok.mp hstore
      obtain rfl := Except.ok.inj hstore
      obtain ⟨hne, hdecode⟩ := hlaws.codec _ raw (fun hmem => hlabel.ne_none hmem rfl) hraw
      exact ⟨rfl, _, rfl, hsound.set hlaws hne hdecode⟩

/-- **Along every run** the cache is sound. -/
theorem TraceRun.sound {db₀ : DB} (hrun : TraceRun E node block results db₀ db)
    (hlaws : TraceLaws E node block) (hmsgs : 0 ∉ blockMsgHashes E block) (hvisible : visible.Nodup)
    (hzero : 0 ∉ visible) (hsound : TraceCacheSound E node block visible db₀) :
    TraceCacheSound E node block visible db := by
  induction hrun with
  | start => exact hsound
  | @call db db' b height given config traces _ hb hcall h ih =>
    obtain ⟨⟨found, odb⟩, hfound, h⟩ := bind_eq_ok.mp h
    obtain ⟨-, rfl⟩ := Prod.mk.inj (Except.ok.inj h)
    obtain ⟨-, db'', hdb, hsound'⟩ := traceBlock_sound hlaws hmsgs hvisible hzero ih hb hcall hfound
    obtain rfl := Option.some.inj hdb
    exact hsound'
  | @other db db' _ hsame htraces ih =>
    refine ⟨hsame.trans ih.visible_eq, fun config raw hraw => ih.cached config raw ?_⟩
    have hget := DB.getOr_eq_ok.mp hraw
    rw [htraces] at hget
    exact DB.getOr_eq_ok.mpr hget

end Requests

/-! ## Identified entries -/

/-- The entries of a block trace are identified: there is one for each visible transaction with its
hash, those of messages carry the node's result, and no error of the ante handler is left. -/
structure TracesIdentified (E : Env) (config : Option TraceConfig) (available : Prop)
    (visible : List Hash) (positions : List AntePosition) (node traces : BlockTrace) : Prop where
  hashes : Labelled visible traces
  carried : ∀ (i j : ℕ) (p : AntePosition) (r : Option TxTraceResult) (t : TxTraceResult),
    positions[j]? = some p → node[j]? = some r → visible[i]? = some p.msg.hash →
    traces[i]? = some (some t) → (txAnteFailed E p.res = true → (r.getD {}).error = "") →
    t.result = (r.getD {}).result ∧ t.error = (r.getD {}).error
  replaced : TracerReplaces config → available →
    ∀ (i j : ℕ) (p : AntePosition) (t : TxTraceResult), positions[j]? = some p →
    visible[i]? = some p.msg.hash → traces[i]? = some (some t) → txAnteFailed E p.res = true →
    SenderRecoverable E p.msg → t.error = ""

/-- **Nothing has to be replaced.**  All messages are visible, and the node's trace of a message
that failed in the ante handler is no error.  Without synthetic transactions no error stands at
the place of such a message either. -/
structure TracesClean (E : Env) (config : Option TraceConfig) (available : Prop)
    (visible : List Hash) (positions : List AntePosition) (node : BlockTrace) : Prop where
  listed : ∀ p ∈ positions, p.msg.hash ∈ visible
  own : TracerReplaces config → available →
    ∀ (j : ℕ) (p : AntePosition) (r : Option TxTraceResult), positions[j]? = some p →
    node[j]? = some r → txAnteFailed E p.res = true → SenderRecoverable E p.msg →
    (r.getD {}).error = ""
  place : available → positions.length = visible.length →
    ∀ (i j : ℕ) (p q : AntePosition) (r : Option TxTraceResult), positions[i]? = some p →
    (replacement E config p).isSome = true → positions[j]? = some q →
    visible[i]? = some q.msg.hash → node[j]? = some r → (r.getD {}).error = ""

section Identified

variable {E : Env} {block : Block} {results : BlockResults} {b : Backend} {height : ℤ}
  {given : Option Block} {config : Option TraceConfig} {visible : List Hash} {node : BlockTrace}

theorem map_hash_antePositions (E : Env) (block : Block) (results : BlockResults) :
    (antePositions E block results).map (·.msg.hash) = blockMsgHashes E block := by
  rw [blockMsgHashes, ← map_msg_antePositions E block results, List.map_map]
  rfl

theorem getElem?_blockMsgHashes {j : ℕ} {p : AntePosition}
    (hp : (antePositions E block results)[j]? = some p) :
    (blockMsgHashes E block)[j]? = some p.msg.hash := by
  rw [← map_hash_antePositions E block results, List.getElem?_map, hp, Option.map_some]

/-- **The last pass leaves identified entries exactly if nothing has to be replaced.** -/
theorem fill_identified_iff
    (hblock : ∀ block', b.blockOfFailures height given = some block' → block' = block)
    (hresults : ∀ r, b.tendermintBlockResultByNumber block.height = .ok (some r) → r = results)
    (hlen : node.length = (blockMsgHashes E block).length) (hmsgs : (blockMsgHashes E block).Nodup)
    (hmsgs0 : 0 ∉ blockMsgHashes E block) (hvisible : visible.Nodup) (hvisible0 : 0 ∉ visible) :
    TracesIdentified E config (Available b height given block results) visible
        (antePositions E block results) node
        (b.fillAnteFailedBlockTraces E (alignedTraces node (blockMsgHashes E block) visible) height
          given config) ↔
      TracesClean E config (Available b height given block results) visible
        (antePositions E block results) node := by
  have hpos : (antePositions E block results).length = (blockMsgHashes E block).length := by
    rw [← map_hash_antePositions E block results, List.length_map]
  constructor
  · intro h
    -- no entry has lost its label
    have hkept : ∀ (i : ℕ) (t : TxTraceResult),
        (alignedTraces node (blockMsgHashes E block) visible)[i]? = some (some t) →
        (b.fillAnteFailedBlockTraces E (alignedTraces node (blockMsgHashes E block) visible) height
          given config)[i]? = some (some t) := by
      intro i t ht
      rcases fill_entry E config hblock hresults ht with hkept | ⟨r, hlost⟩
      · exact hkept
      · exact absurd (List.mem_of_getElem? (h.hashes.getElem?_of_some hlost)) hvisible0
    have hsub : blockMsgHashes E block ⊆ visible := by
      by_contra hnot
      refine hnot fun x hx => ?_
      obtain ⟨j, hj⟩ := List.getElem?_of_mem hx
      obtain ⟨t, ht, rfl⟩ := (labelled_labelTraces hlen).exists_of_getElem? hj
      rw [← alignedTraces_of_not_subset hlen hmsgs hvisible hnot] at ht
      exact List.mem_of_getElem? (h.hashes.getElem?_of_some (hkept j t ht))
    refine ⟨fun p hp => ?_, fun htracer hat j p r hp hr hfailed hsender => ?_,
      fun hat hcount i j p q r hp hrep hq hi hr => ?_⟩
    · refine hsub ?_
      rw [← map_hash_antePositions E block results]
      exact List.mem_map_of_mem hp
    · have hj := getElem?_blockMsgHashes hp
      obtain ⟨i, hi⟩ := List.getElem?_of_mem (hsub (List.mem_of_getElem? hj))
      have ht := getElem?_alignedTraces hlen hmsgs hvisible hmsgs0 hsub hi hj hr
      have herror := h.replaced htracer hat i j p _ hp hi (hkept i _ ht) hfailed hsender
      exact herror
    · have ht := getElem?_alignedTraces hlen hmsgs hvisible hmsgs0 hsub hi
        (getElem?_blockMsgHashes hq) hr
      by_contra herror
      obtain ⟨trace, htrace⟩ := Option.isSome_iff_exists.mp hrep
      have hcount' := hcount.trans
        (labelled_alignedTraces hlen hmsgs hvisible hmsgs0 hsub).length_eq.symm
      have hlost := fill_of_replacement hat hcount' ht herror hp htrace
      -- the label that is lost is visible
      have hhash := h.hashes.getElem?_of_some hlost
      exact hvisible0 (List.mem_of_getElem? hhash)
  · intro h
    have hsub : blockMsgHashes E block ⊆ visible := by
      intro x hx
      rw [← map_hash_antePositions E block results] at hx
      obtain ⟨p, hp, rfl⟩ := List.mem_map.mp hx
      exact h.listed p hp
    have hlabel := labelled_alignedTraces hlen hmsgs hvisible hmsgs0 hsub
    have hsame : b.fillAnteFailedBlockTraces E (alignedTraces node (blockMsgHashes E block) visible)
        height given config = alignedTraces node (blockMsgHashes E block) visible := by
      refine fill_eq_self hblock hresults fun hat hcount i p t hp ht hrep => ?_
      have hi := hlabel.getElem?_of_some ht
      by_cases hmem : t.txHash ∈ blockMsgHashes E block
      · obtain ⟨j, hj⟩ := List.getElem?_of_mem hmem
        have hjlt := (List.getElem?_eq_some_iff.mp hj).1
        have hq := List.getElem?_eq_getElem (hpos ▸ hjlt)
        have hr := List.getElem?_eq_getElem (hlen ▸ hjlt)
        have hhash := Option.some.inj ((getElem?_blockMsgHashes hq).symm.trans hj)
        have hentry := getElem?_alignedTraces hlen hmsgs hvisible hmsgs0 hsub hi hj hr
        rw [Option.some.inj (Option.some.inj (ht.symm.trans hentry))]
        exact h.place hat (hcount.trans hlabel.length_eq) i j p _ _ hp hrep hq (hhash ▸ hi) hr
      · exact error_of_synthetic hlen hmsgs hvisible hmsgs0 hsub hi hmem ht
    rw [hsame]
    refine ⟨hlabel, fun i j p r t hp hr hi ht _ => ?_,
      fun htracer hat i j p t hp hi ht hfailed hs => ?_⟩
    · have hentry := getElem?_alignedTraces hlen hmsgs hvisible hmsgs0 hsub hi
        (getElem?_blockMsgHashes hp) hr
      obtain rfl := Option.some.inj (Option.some.inj (ht.symm.trans hentry))
      exact ⟨rfl, rfl⟩
    · have hj := getElem?_blockMsgHashes hp
      have hr := List.getElem?_eq_getElem (hlen ▸ (List.getElem?_eq_some_iff.mp hj).1)
      have hentry := getElem?_alignedTraces hlen hmsgs hvisible hmsgs0 hsub hi hj hr
      obtain rfl := Option.some.inj (Option.some.inj (ht.symm.trans hentry))
      exact h.own htracer hat j p _ hp hr hfailed hs

/-- **The entries of a block trace.**  A block was indexed, and requests for its traces were
answered since.  The entries of the next answer, live or cached, are identified exactly if nothing
has to be replaced in them. -/
theorem block_traces_identified_iff {kv : KVIndexer} {db db₀ db₁ : DB}
    {node : Option TraceConfig → BlockTrace} {traces : BlockTrace} {odb : Option DB}
    (hindex : indexBlock E kv db block (some results) = .ok db₀)
    (hvisible : (getRPCTransactionHashesByBlockHeight db₀ block.height).Nodup)
    (hvisible0 : 0 ∉ getRPCTransactionHashesByBlockHeight db₀ block.height)
    (hmsgs : (blockMsgHashes E block).Nodup) (hmsgs0 : 0 ∉ blockMsgHashes E block)
    (hlaws : TraceLaws E node block) (hrun : TraceRun E node block results db₀ db₁)
    (hb : b.indexer = some db₁) (hcall : TraceCall E node block results b height given)
    (h : b.traceBlockAnswer E height config given = .ok (traces, odb)) :
    TracesIdentified E (b.normalizeTraceTimeout E config) (Available b height given block results)
        (getRPCTransactionHashesByBlockHeight db₀ block.height) (antePositions E block results)
        (node (b.normalizeTraceTimeout E config)) traces ↔
      TracesClean E (b.normalizeTraceTimeout E config) (Available b height given block results)
        (getRPCTransactionHashesByBlockHeight db₀ block.height) (antePositions E block results)
        (node (b.normalizeTraceTimeout E config)) := by
  have hstart : TraceCacheSound E node block
      (getRPCTransactionHashesByBlockHeight db₀ block.height) db₀ := by
    refine ⟨rfl, fun c raw hraw => ?_⟩
    have hget := DB.getOr_eq_ok.mp hraw
    rw [(indexBlock_forgetsTraces hindex).block] at hget
    cases hget
  have hsound := hrun.sound hlaws hmsgs0 hvisible hvisible0 hstart
  obtain ⟨⟨found, odb'⟩, hfound, h⟩ := bind_eq_ok.mp h
  obtain ⟨rfl, rfl⟩ := Prod.mk.inj (Except.ok.inj h)
  obtain ⟨rfl, -⟩ := traceBlock_sound hlaws hmsgs0 hvisible hvisible0 hsound hb hcall hfound
  exact fill_identified_iff hcall.blockOf hcall.resultsOf (hlaws.length _) hmsgs hmsgs0 hvisible
    hvisible0

end Identified

/-! ## A replaced entry, and one that is not replaced -/

def Backend.tracingOf (db : DB) (block : Block) (results : BlockResults) : Backend :=
  { Backend.tracing db with client := some (.serving block results) }

/-- Known traces are read back. -/
theorem Env.tracing_codec {known : List BlockTrace} (hlen : known.length ≤ 256)
    {traces : BlockTrace} {raw : Bytes} (h : (Env.tracing known).marshalTraces traces = .ok raw) :
    raw ≠ [] ∧ (Env.tracing known).unmarshalTraces raw = .ok traces := by
  simp only [Env.tracing] at h ⊢
  cases hi : known.findIdx? (· == traces) with
  | none => simp [hi] at h
  | some i =>
    simp only [hi] at h
    obtain rfl := Except.ok.inj h
    obtain ⟨hlt, heq, -⟩ := List.findIdx?_eq_some_iff_getElem.mp hi
    refine ⟨by simp, ?_⟩
    have htoNat : (UInt8.ofNat i).toNat = i := UInt8.toNat_ofNat_of_lt' (show i < 256 by omega)
    simp only [htoNat, List.getElem?_eq_getElem hlt, Option.getD_some]
    exact congrArg Except.ok (by simpa using heq)

/-- The mixed block: its Ethereum transaction succeeded, and its traces are identified. -/
theorem block_traces_identified_iff_mixed :
    ∃ db odb, indexBlock (.tracing [sampleNodeTrace, sampleMixedTrace])
        { virtualizationEnabled := true } ∅ sampleMixedBlock (some sampleMixedResults) = .ok db ∧
      (Backend.tracingOf db sampleMixedBlock sampleMixedResults).traceBlockAnswer
        (.tracing [sampleNodeTrace, sampleMixedTrace]) 1 none (some sampleMixedBlock) =
          .ok (sampleMixedTrace, odb) ∧
      TracesIdentified (.tracing [sampleNodeTrace, sampleMixedTrace]) none
        (Available (Backend.tracingOf db sampleMixedBlock sampleMixedResults) 1
          (some sampleMixedBlock) sampleMixedBlock sampleMixedResults)
        (getRPCTransactionHashesByBlockHeight db 1)
        (antePositions (.tracing [sampleNodeTrace, sampleMixedTrace]) sampleMixedBlock
          sampleMixedResults) sampleNodeTrace sampleMixedTrace := by
  have hok : ∀ p ∈ antePositions (.tracing [sampleNodeTrace, sampleMixedTrace]) sampleMixedBlock
      sampleMixedResults,
      txAnteFailed (.tracing [sampleNodeTrace, sampleMixedTrace]) p.res = false := by
    decide +kernel
  refine ⟨_, _, rfl, rfl, ?_⟩
  refine (@block_traces_identified_iff (.tracing [sampleNodeTrace, sampleMixedTrace])
    sampleMixedBlock sampleMixedResults (Backend.tracingOf _ sampleMixedBlock sampleMixedResults) 1
    (some sampleMixedBlock) none { virtualizationEnabled := true } ∅ _ _ (fun _ => sampleNodeTrace)
    sampleMixedTrace _ rfl (by decide +kernel) (by decide +kernel) (by decide +kernel)
    (by decide +kernel)
    ⟨fun _ => rfl, fun _ _ _ => rfl, fun _ _ _ h => Env.tracing_codec (by decide) h⟩
    .start rfl ⟨?_, ?_, ?_, ?_⟩ rfl).mpr ⟨?_, ?_, ?_⟩
  · rintro h hh
    exact (Option.some.inj hh).symm
  · rintro block' hblock
    exact (Option.some.inj hblock).symm
  · rintro r hr
    exact (Option.some.inj (Except.ok.inj hr)).symm
  · rintro config data hdata
    obtain rfl := Except.ok.inj hdata
    rfl
  · decide +kernel
  · rintro - - j p r hp - hfailed
    have hnot := hok p (List.mem_of_getElem? hp)
    exact absurd hfailed (by simp [hnot])
  · rintro - - i j p q r hp hrep
    have hnot := hok p (List.mem_of_getElem? hp)
    simp [replacement, hnot] at hrep

/-- The node's trace of a transaction that failed in the ante handler. -/
def sampleErrorTrace : BlockTrace := [some { error := "insufficient balance for transfer" }]

def sampleLabelledError : BlockTrace :=
  [some { txHash := 1, error := "insufficient balance for transfer" }]

/-- Results of the mixed block: its Ethereum transaction failed in the ante handler. -/
def sampleMixedFailed : BlockResults :=
  { sampleMixedResults with
    txResults := [some { code := 5, codespace := "sdk" }, some { events := [sampleBankEvent] }] }

/-- Its labelled traces. -/
def sampleMixedError : BlockTrace := sampleLabelledError ++ [some (emptyTrace 0x700)]

/-- **A failure in the ante handler.**  Alone in its block it is replaced and loses its hash; next
to a synthetic transaction it keeps the error of the node. -/
theorem ante_failure_not_identified :
    (∃ db odb traces,
      indexBlock (.tracing [sampleErrorTrace, sampleLabelledError]) {} ∅ (sampleBlock 1 [1])
        (some (sampleAnteFailed 1)) = .ok db ∧
      getRPCTransactionHashesByBlockHeight db 1 = [1] ∧
      (Backend.tracingOf db (sampleBlock 1 [1]) (sampleAnteFailed 1)).traceBlockAnswer
        (.tracing [sampleErrorTrace, sampleLabelledError]) 1 none (some (sampleBlock 1 [1])) =
          .ok (traces, odb) ∧
      traces = [some { txHash := 0, result := some ⟨"[]"⟩ }]) ∧
    ∃ db odb, indexBlock (.tracing [sampleErrorTrace, sampleMixedError])
        { virtualizationEnabled := true } ∅ sampleMixedBlock (some sampleMixedFailed) = .ok db ∧
      getRPCTransactionHashesByBlockHeight db 1 = [1, 0x700] ∧
      (Backend.tracingOf db sampleMixedBlock sampleMixedFailed).traceBlockAnswer
        (.tracing [sampleErrorTrace, sampleMixedError]) 1 none (some sampleMixedBlock) =
          .ok (sampleMixedError, odb) ∧
      txAnteFailed (.tracing [sampleErrorTrace, sampleMixedError])
        (some { code := 5, codespace := "sdk" }) = true := by
  refine ⟨⟨_, _, _, rfl, by decide +kernel, rfl, rfl⟩, _, _, rfl, by decide +kernel, rfl, ?_⟩
  decide +kernel

end EvmGateway
