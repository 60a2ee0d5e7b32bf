import EvmGateway.Backend.AnteFailed
import EvmGateway.Lib.Lists

/-!
# Tracing one transaction

A transaction whose trace is not cached is replayed by the node: the gateway looks up where the
transaction stands, reads the block, and sends the message together with the Ethereum messages
before it.  The place comes from a record of the store or of the node's search, and the code
trusts it: the index of the transaction may be one too large, and the index of the message is not
checked at all.

* `traceTxRequestIn` — the request for a record and its block; `blockMessages` lists the messages
  of a block with their places.
* `traceTransaction`, `traceTransactionAnswer` — the requests of a caller.

`trace_request_exact_iff` says for which records the request is the right one.
-/

namespace EvmGateway

open Lib

/-! ## The request -/

def SdkTx.ethMsgsBefore (tx : SdkTx) : ℕ → Except Err (List MsgEthereumTx)
  | 0 => .ok []
  | i + 1 => do
    let before ← tx.ethMsgsBefore i
    let msg ← tx.msgAt i
    return before ++ msg.ethereum?.toList

namespace Backend

/-- The request to replay the message a record points to, in the block of the record. -/
def traceTxRequestIn (E : Env) (b : Backend) (config : Option TraceConfig) (transaction : TxResult)
    (block : Block) : Except Err TraceTxRequest := do
  -- the length is cut to 32 bits, and its own value passes
  if block.txs.length % 2 ^ 32 < transaction.txIndex then
    throw (.plain s!"transaction not included in block {block.height}")
  let earlier := (block.txs.take transaction.txIndex).flatMap (ethMsgsOfTx E)
  let rawTx ← block.txAt transaction.txIndex
  let tx ← E.txDecoder rawTx
  let before ← tx.ethMsgsBefore transaction.msgIndex
  let msg ← tx.msgAt transaction.msgIndex
  match msg.ethereum? with
  | none => throw (.plain s!"invalid transaction type {E.sdkTxType}")
  | some ethMessage => return {
      msg := ethMessage
      predecessors := earlier ++ before
      traceConfig := config
      blockNumber := block.height
      blockTime := block.time
      blockHash := String.ofList (hexEncode block.hash)
      proposerAddress := block.proposerAddress
      chainId := traceChainID b.chainID [ethMessage] }

/-- The request for a transaction hash, and the height whose state it is replayed on: the one
before its block. -/
def traceTxRequest (E : Env) (b : Backend) (hash : Hash) (config : Option TraceConfig) :
    Except Err (ℕ × TraceTxRequest) := do
  let transaction ← b.getTxByEthHash E hash
  if transaction.height = 0 then throw (.plain "genesis is not traceable")
  let some block ← wrapErr (b.tendermintBlockByNumber transaction.height) "block not found"
    | throw (.plain "block not found")
  let request ← b.traceTxRequestIn E config transaction block
  return (max (transaction.height - 1) 1, request)

/-! ## Tracing -/

/-- Replay a transaction and cache its trace.  The result is paired with the store. -/
def liveTraceTransaction (E : Env) (b : Backend) (hash : Hash) (config : Option TraceConfig) :
    Except Err (Option Json × Option DB) := do
  let (contextHeight, request) ← b.traceTxRequest E hash config
  let data ← b.queryClient.traceTx contextHeight request
  let decoded ← E.unmarshalTrace data
  return (some decoded, b.indexer.map fun db => setTraceTransaction E db hash config data)

/-- The trace of a transaction that is not cached on its own: from the cached trace of its block,
or replayed. -/
def uncachedTraceTransaction (E : Env) (b : Backend) (hash : Hash) (config : Option TraceConfig) :
    Except Err (Option Json × Option DB) := do
  if let some derived ← attempt (b.traceTransactionFromCachedBlock E hash config) then
    return (derived, b.indexer)
  if b.offlineRPCOnly then
    throw (.plain "transaction trace not available in offline rpc-only mode")
  b.liveTraceTransaction E hash config

/-- The trace of a transaction, with the store afterwards. -/
def traceTransaction (E : Env) (b : Backend) (hash : Hash) (config : Option TraceConfig) :
    Except Err (Option Json × Option DB) :=
  match b.indexer.map (getTraceTransaction E · hash config) with
  | some (.ok raw) => do
    let decoded ← E.unmarshalTrace raw
    return (some decoded, b.indexer)
  | some (.error e) =>
    if !isIndexerCacheMiss e && b.offlineRPCOnly then .error e
    else b.uncachedTraceTransaction E hash config
  | none => b.uncachedTraceTransaction E hash config

def anteFailedTxTrace (E : Env) (b : Backend) (hash : Hash) (config : Option TraceConfig) :
    Option AnteFailedTrace :=
  if b.offlineRPCOnly then none
  else do
    let tx ← (b.getTxByEthHash E hash).toOption
    guard (0 < tx.height)
    let blockRes ← (b.tendermintBlockResultByNumber tx.height).toOption.join
    let res ← blockRes.txResults[tx.txIndex]?
    guard (txAnteFailed E res)
    let block ← (b.tendermintBlockByNumber tx.height).toOption.join
    let rawTx ← block.txs[tx.txIndex]?
    let decodedTx ← (E.txDecoder rawTx).toOption
    let msg ← decodedTx.msgs[tx.msgIndex]?.bind Msg.ethereum?
    guard (msg.hash = hash)
    anteFailedTraceResult E msg res config

/-- What a request for the trace of a transaction is answered with, and the store afterwards. -/
def traceTransactionAnswer (E : Env) (b : Backend) (hash : Hash) (config : Option TraceConfig) :
    Except Err (Option Json × Option DB) :=
  let config := b.normalizeTraceTimeout E config
  match b.traceTransaction E hash config with
  | .ok answer => .ok answer
  | .error e =>
    if e.kind = .panic then .error e
    else
      match b.anteFailedTxTrace E hash config with
      | some trace => .ok (some (E.anteFailedJson trace), b.indexer)
      | none => .error e

end Backend

/-! ## The messages of a block and their places -/

def messagesAt (E : Env) (i : ℕ) (rawTx : Bytes) : List ((ℕ × ℕ) × MsgEthereumTx) :=
  match E.txDecoder rawTx with
  | .error _ => []
  | .ok tx => tx.msgs.zipIdx.filterMap fun e => e.1.ethereum?.map fun msg => ((i, e.2), msg)

def blockMessages (E : Env) (block : Block) : List ((ℕ × ℕ) × MsgEthereumTx) :=
  block.txs.zipIdx.flatMap fun e => messagesAt E e.2 e.1

section Messages

variable {E : Env} {block : Block}

theorem map_snd_filterMap_zipIdx (msgs : List Msg) (i n : ℕ) :
    ((msgs.zipIdx n).filterMap fun e => e.1.ethereum?.map fun msg => ((i, e.2), msg)).map
      Prod.snd = msgs.filterMap Msg.ethereum? := by
  induction msgs generalizing n with
  | nil => rfl
  | cons msg msgs ih =>
    rw [List.zipIdx_cons, List.filterMap_cons, List.filterMap_cons]
    cases hmsg : msg.ethereum? with
    | none => exact ih (n + 1)
    | some ethMsg => exact congrArg (ethMsg :: ·) (ih (n + 1))

theorem map_snd_messagesAt (i : ℕ) (rawTx : Bytes) :
    (messagesAt E i rawTx).map Prod.snd = ethMsgsOfTx E rawTx := by
  rw [messagesAt, ethMsgsOfTx]
  cases E.txDecoder rawTx with
  | error e => rfl
  | ok tx => exact map_snd_filterMap_zipIdx tx.msgs i 0

theorem map_snd_flatMap_messagesAt (txs : List Bytes) (n : ℕ) :
    ((txs.zipIdx n).flatMap fun e => messagesAt E e.2 e.1).map Prod.snd =
      txs.flatMap (ethMsgsOfTx E) := by
  induction txs generalizing n with
  | nil => rfl
  | cons rawTx txs ih =>
    rw [List.zipIdx_cons, List.flatMap_cons, List.map_append, map_snd_messagesAt, ih,
      List.flatMap_cons]

theorem map_snd_blockMessages :
    (blockMessages E block).map Prod.snd = ethMsgsFromTendermintBlock E block :=
  map_snd_flatMap_messagesAt block.txs 0

/-- **The messages of a block around one of them.** -/
theorem blockMessages_split {i m : ℕ} {rawTx : Bytes} {tx : SdkTx} {ethMsg : MsgEthereumTx}
    (hraw : block.txs[i]? = some rawTx) (htx : E.txDecoder rawTx = .ok tx)
    (hmsg : tx.msgs[m]? = some (.ethereumTx ethMsg)) :
    ∃ before after, blockMessages E block = before ++ ((i, m), ethMsg) :: after ∧
      before.map Prod.snd = (block.txs.take i).flatMap (ethMsgsOfTx E) ++
        (tx.msgs.take m).filterMap Msg.ethereum? := by
  have hzip : block.txs.zipIdx[i]? = some (rawTx, i) := by simp [hraw]
  have hzipMsg : tx.msgs.zipIdx[m]? = some (.ethereumTx ethMsg, m) := by simp [hmsg]
  let place := fun e : Msg × ℕ => e.1.ethereum?.map fun msg => ((i, e.2), msg)
  have hat : messagesAt E i rawTx = (tx.msgs.zipIdx.take m).filterMap place ++
      ((i, m), ethMsg) :: (tx.msgs.zipIdx.drop (m + 1)).filterMap place := by
    rw [messagesAt, htx]
    change tx.msgs.zipIdx.filterMap place = _
    conv_lhs => rw [eq_take_append_cons_drop hzipMsg]
    rw [List.filterMap_append, List.filterMap_cons_some]
    rfl
  refine ⟨(block.txs.zipIdx.take i).flatMap (fun e => messagesAt E e.2 e.1) ++
      (tx.msgs.zipIdx.take m).filterMap place,
    (tx.msgs.zipIdx.drop (m + 1)).filterMap place ++
      (block.txs.zipIdx.drop (i + 1)).flatMap fun e => messagesAt E e.2 e.1, ?_, ?_⟩
  · rw [blockMessages]
    conv_lhs => rw [eq_take_append_cons_drop hzip]
    rw [List.flatMap_append, List.flatMap_cons, hat]
    simp only [List.append_assoc, List.cons_append]
  · rw [List.map_append, take_zipIdx, take_zipIdx, map_snd_flatMap_messagesAt,
      map_snd_filterMap_zipIdx]

end Messages

/-! ## Which records are safe -/

/-- The messages before a position are read exactly if there are that many. -/
theorem SdkTx.ethMsgsBefore_eq (tx : SdkTx) (m : ℕ) :
    tx.ethMsgsBefore m =
      if m ≤ tx.msgs.length then .ok ((tx.msgs.take m).filterMap Msg.ethereum?)
      else .error (.panic "index out of range") := by
  induction m with
  | zero => rfl
  | succ m ih =>
    rw [SdkTx.ethMsgsBefore, ih, SdkTx.msgAt]
    by_cases hlt : m < tx.msgs.length
    · rw [if_pos hlt.le, if_pos (Nat.succ_le_of_lt hlt), List.take_add_one,
        List.getElem?_eq_getElem hlt, List.filterMap_append]
      cases hmsg : tx.msgs[m].ethereum? <;> simp [hmsg]
    · rw [if_neg (by omega : ¬m + 1 ≤ tx.msgs.length), List.getElem?_eq_none (not_lt.mp hlt)]
      split_ifs <;> rfl

structure TraceTxRequest.ExactFor (E : Env) (b : Backend) (config : Option TraceConfig)
    (transaction : TxResult) (block : Block) (request : TraceTxRequest) : Prop where
  place : ∃ k : ℕ,
    (blockMessages E block)[k]? = some ((transaction.txIndex, transaction.msgIndex), request.msg) ∧
    request.predecessors = ((blockMessages E block).take k).map Prod.snd
  beginning : request.predecessors ++ [request.msg] <+:
    (b.traceBlockRequest config block (ethMsgsFromTendermintBlock E block)).txs

/-- The index of the transaction is refused, or both indexes are in range. -/
def TxResult.InBlock (E : Env) (block : Block) (transaction : TxResult) : Prop :=
  block.txs.length % 2 ^ 32 < transaction.txIndex ∨
    ∃ rawTx tx, block.txs[transaction.txIndex]? = some rawTx ∧ E.txDecoder rawTx = .ok tx ∧
      transaction.msgIndex < tx.msgs.length

section Request

variable {E : Env} {b : Backend} {config : Option TraceConfig} {transaction : TxResult}
  {block : Block}

/-- With indexes in range, the request is refused for a reason or exact. -/
theorem traceTxRequestIn_of_inBlock (h : transaction.InBlock E block) :
    (∃ message, b.traceTxRequestIn E config transaction block = .error (.plain message)) ∨
      ∃ request, b.traceTxRequestIn E config transaction block = .ok request ∧
        request.ExactFor E b config transaction block := by
  by_cases hrefused : block.txs.length % 2 ^ 32 < transaction.txIndex
  · left
    rw [Backend.traceTxRequestIn, if_pos hrefused]
    exact ⟨_, rfl⟩
  · obtain ⟨rawTx, tx, hraw, htx, hlt⟩ := h.resolve_left hrefused
    have hmsg := List.getElem?_eq_getElem hlt
    have hbuild : b.traceTxRequestIn E config transaction block =
        match tx.msgs[transaction.msgIndex].ethereum? with
        | none => .error (.plain s!"invalid transaction type {E.sdkTxType}")
        | some ethMessage => .ok {
            msg := ethMessage
            predecessors := (block.txs.take transaction.txIndex).flatMap (ethMsgsOfTx E) ++
              (tx.msgs.take transaction.msgIndex).filterMap Msg.ethereum?
            traceConfig := config
            blockNumber := block.height
            blockTime := block.time
            blockHash := String.ofList (hexEncode block.hash)
            proposerAddress := block.proposerAddress
            chainId := Backend.traceChainID b.chainID [ethMessage] } := by
      simp only [Backend.traceTxRequestIn, if_neg hrefused, Block.txAt, hraw, ok_bind, htx,
        SdkTx.ethMsgsBefore_eq, if_pos hlt.le, SdkTx.msgAt, hmsg]
      rfl
    rw [hbuild]
    cases hkind : tx.msgs[transaction.msgIndex] with
    | other typeURL => exact .inl ⟨_, rfl⟩
    | ethereumTx ethMsg =>
      right
      rw [hkind] at hmsg
      obtain ⟨before, after, hsplit, hbefore⟩ := blockMessages_split hraw htx hmsg
      refine ⟨_, rfl, ⟨before.length, ?_, ?_⟩, ?_⟩
      · rw [hsplit, List.getElem?_append_right le_rfl, Nat.sub_self]
        rfl
      · rw [hsplit, List.take_left, hbefore]
      · rw [Backend.traceBlockRequest, ← map_snd_blockMessages, hsplit, List.map_append,
          List.map_cons, hbefore]
        exact ⟨after.map Prod.snd, by simp⟩

theorem traceTxRequestIn_panics (hdecodes : ∀ rawTx ∈ block.txs, ∃ tx, E.txDecoder rawTx = .ok tx)
    (h : ¬transaction.InBlock E block) :
    b.traceTxRequestIn E config transaction block = .error (.panic "index out of range") := by
  rw [TxResult.InBlock, not_or] at h
  obtain ⟨hpasses, hout⟩ := h
  rw [Backend.traceTxRequestIn, if_neg hpasses]
  cases hraw : block.txs[transaction.txIndex]? with
  | none =>
    rw [Block.txAt, hraw]
    rfl
  | some rawTx =>
    obtain ⟨tx, htx⟩ := hdecodes rawTx (List.mem_of_getElem? hraw)
    have hle : tx.msgs.length ≤ transaction.msgIndex :=
      not_lt.mp fun hlt => hout ⟨rawTx, tx, hraw, htx, hlt⟩
    simp only [Block.txAt, hraw, ok_bind, htx, SdkTx.ethMsgsBefore_eq, SdkTx.msgAt,
      List.getElem?_eq_none hle]
    split_ifs <;> rfl

end Request

/-- **Trace requests replay the right beginning** of a block, without an index out of range,
exactly if the record is refused or has both its indexes in range. -/
theorem trace_request_exact_iff {E : Env} {b : Backend} {hash : Hash} {config : Option TraceConfig}
    {transaction : TxResult} {block : Block} (hfound : b.getTxByEthHash E hash = .ok transaction)
    (hheight : 1 ≤ transaction.height)
    (hblock : b.tendermintBlockByNumber transaction.height = .ok (some block))
    (hdecodes : ∀ rawTx ∈ block.txs, ∃ tx, E.txDecoder rawTx = .ok tx) :
    (NoPanic (b.traceTxRequest E hash config) ∧
      ∀ contextHeight request, b.traceTxRequest E hash config = .ok (contextHeight, request) →
        request.ExactFor E b config transaction block) ↔
      transaction.InBlock E block := by
  have hrequest : b.traceTxRequest E hash config = (do
      let request ← b.traceTxRequestIn E config transaction block
      return (max (transaction.height - 1) 1, request)) := by
    have hzero : ¬transaction.height = 0 := by omega
    simp only [Backend.traceTxRequest, hfound, ok_bind, if_neg hzero, hblock, wrapErr,
      Except.mapError]
  rw [hrequest]
  constructor
  · rintro ⟨hpanic, -⟩
    by_contra hout
    rw [traceTxRequestIn_panics hdecodes hout] at hpanic
    exact hpanic _ rfl rfl
  · intro hin
    rcases @traceTxRequestIn_of_inBlock E b config transaction block hin with
      ⟨message, herror⟩ | ⟨request, hok, hexact⟩
    · rw [herror, error_bind]
      refine ⟨NoPanic.error (e := .plain message) nofun, fun contextHeight request h => ?_⟩
      cases h
    · rw [hok, ok_bind]
      refine ⟨NoPanic.ok _, fun contextHeight request' h => ?_⟩
      obtain ⟨-, rfl⟩ := Prod.mk.inj (Except.ok.inj h)
      exact hexact

/-! ## Records of the mixed block -/

/-- A store with one record, of the Ethereum transaction of the mixed block. -/
def DB.withRecord (txIndex msgIndex : ℕ) : DB :=
  Std.ExtDTreeMap.insert (∅ : DB) (.txHash 1) {
    height := 1
    txIndex := txIndex
    msgIndex := msgIndex
    ethTxIndex := 0
    failed := false
    gasUsed := 0
    cumulativeGasUsed := 0 }

def Backend.recorded (txIndex msgIndex : ℕ) : Backend :=
  Backend.sample (some (.withRecord txIndex msgIndex))
    (some (.serving sampleMixedBlock sampleMixedResults))

def Backend.recordedSecond : Backend :=
  Backend.sample
    (some (Std.ExtDTreeMap.insert (∅ : DB) (.txHash 2) ⟨1, 1, 0, 1, false, 0, 0⟩))
    (some (.serving sampleTwoTxs sampleMixedResults))

/-- The record the indexer writes of the second transaction gives the request that replays the first
one before it. -/
theorem trace_request_exact_iff_second :
    ∃ contextHeight request,
      Backend.recordedSecond.traceTxRequest .sample 2 none = .ok (contextHeight, request) ∧
      request.msg = sampleEthMsg 2 ∧ request.predecessors = [sampleEthMsg 1] ∧
      request.ExactFor .sample .recordedSecond none ⟨1, 1, 0, 1, false, 0, 0⟩ sampleTwoTxs := by
  refine ⟨_, _, rfl, rfl, rfl, ?_⟩
  refine ((@trace_request_exact_iff .sample .recordedSecond 2 none ⟨1, 1, 0, 1, false, 0, 0⟩
    sampleTwoTxs rfl le_rfl rfl ?_).mpr (.inr ⟨_, _, rfl, rfl, by decide⟩)).2 _ _ rfl
  intro rawTx hraw
  obtain rfl | rfl : rawTx = [1] ∨ rawTx = [2] := by simpa [sampleTwoTxs] using hraw
  · exact ⟨_, rfl⟩
  · exact ⟨_, rfl⟩

/-- A record whose transaction index is the number of transactions, and one whose message index is
the number of messages, make the trace panic. -/
theorem trace_request_panics :
    (Backend.recorded 2 0).traceTransaction .sample 1 none = .error (.panic "index out of range") ∧
    (Backend.recorded 0 1).traceTransaction .sample 1 none =
      .error (.panic "index out of range") :=
  ⟨rfl, rfl⟩

end EvmGateway
