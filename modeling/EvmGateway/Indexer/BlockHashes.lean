import EvmGateway.Indexer.IndexBlock
import EvmGateway.Lib.Lists

/-!
# The hashes a block shows

Which transaction hashes a block contributes to the index, read off the block and its
results alone: the begin phase, then for each transaction its Ethereum messages and
its synthetic transactions, then the end phase.  None of this depends on positions,
gas or log indexes, so it can be said without the loop that assigns them.
-/

namespace EvmGateway

open Lib

/-- The hash of an Ethereum message.  A failure outside the EVM leaves only the hash
of the message itself; otherwise the result names it. -/
def ethMsgHash (E : Env) (result : ExecTxResult) (txs : ParsedTxs) (msgIndex : ℕ)
    (ethMsg : MsgEthereumTx) : Option Hash :=
  if result.code ≠ codeTypeOK ∧ result.codespace ≠ E.moduleName then some ethMsg.hash
  else (txs.getTxByMsgIndex msgIndex).map (·.hash)

def ethMsgHashes (E : Env) (result : ExecTxResult) (txs : ParsedTxs) (msgs : List Msg) :
    List Hash :=
  msgs.zipIdx.flatMap fun e => (e.1.ethereum?.bind (ethMsgHash E result txs e.2)).toList

def hashContext (rawTx : Bytes) (msgs : List Msg) : TxContext where
  tx := rawTx
  ethereumMessageIndexes := ethMsgIndexes msgs
  totalMessages := msgs.length
  blockHash := 0
  blockNumber := 0
  txIndex := 0
  firstLogIndex := 0
  cumulativeGasUsedBefore := 0
  chainID := none

def Response.syntheticHashes (E : Env) (r : Response) (rawTx : Bytes) (msgs : List Msg) : List Hash :=
  match r.syntheticTxs E (hashContext rawTx msgs) with
  | .error _ => []
  | .ok txs => txs.map (·.transaction.hash)

def shownByMsgs (E : Env) (tx : SdkTx) (result : ExecTxResult) : List Hash :=
  if isEthTx tx then
    match parseTxResult E result (some tx) with
    | .error _ => []
    | .ok txs => ethMsgHashes E result txs tx.msgs
  else []

def shownByEvents (E : Env) (virtualize : Bool) (rawTx : Bytes) (tx : SdkTx) (result : ExecTxResult) :
    List Hash :=
  if virtualize then
    match parseResponse E result with
    | .error _ => []
    | .ok response => response.syntheticHashes E rawTx tx.msgs
  else []

def shownByTx (E : Env) (virtualize : Bool) (rawTx : Bytes) (result : ExecTxResult) : List Hash :=
  match E.txDecoder rawTx with
  | .error _ => []
  | .ok tx => shownByMsgs E tx result ++ shownByEvents E virtualize rawTx tx result

def shownByPhase (hash : Hash) (logs : List EthLog) : List Hash := if logs.isEmpty then [] else [hash]

/-- The logs of the two phases of a block. -/
def phaseLogs (E : Env) (virtualize : Bool) (results : Option BlockResults) :
    List EthLog × List EthLog :=
  match results with
  | none => ([], [])
  | some r =>
    if virtualize then
      match splitBlockEvents E r.finalizeBlockEvents with
      | .error _ => ([], [])
      | .ok logs => logs
    else ([], [])

def shownAt (E : Env) (virtualize : Bool) (results : Option BlockResults) (txIndex : ℕ)
    (rawTx : Bytes) : List Hash :=
  match (blockTxResults results)[txIndex]? with
  | some (some result) => shownByTx E virtualize rawTx result
  | _ => []

/-- The hashes a block shows, in order. -/
def shownByBlock (E : Env) (virtualize : Bool) (block : Block) (results : Option BlockResults) :
    List Hash :=
  shownByPhase (beginBlockHash E block.height) (phaseLogs E virtualize results).1 ++
  (block.txs.zipIdx.flatMap fun e => shownAt E virtualize results e.2 e.1) ++
  shownByPhase (endBlockHash E block.height) (phaseLogs E virtualize results).2

/-! ## Hashes do not depend on positions -/

structure TxContext.Same (ctx ctx' : TxContext) : Prop where
  tx : ctx.tx = ctx'.tx
  ethereumMessageIndexes : ctx.ethereumMessageIndexes = ctx'.ethereumMessageIndexes
  totalMessages : ctx.totalMessages = ctx'.totalMessages

theorem hookTxs_hashes (E : Env) (r : Response) (perMessage : ℕ → ℕ) (hooks : List HookEntry) :
    ∀ (ctx ctx' : TxContext) (previous : Option ℕ) (ordinal : ℕ), ctx.tx = ctx'.tx →
      (r.hookTxs E perMessage ctx previous ordinal hooks).map (·.transaction.hash) =
        (r.hookTxs E perMessage ctx' previous ordinal hooks).map (·.transaction.hash) := by
  induction hooks with
  | nil => intros; rfl
  | cons hook hooks ih =>
    intro ctx ctx' previous ordinal htx
    simp only [Response.hookTxs, List.map_cons, syntheticTx_hash, htx]
    exact congrArg _ (ih _ _ _ _ (by simpa [TxContext.advance] using htx))

/-- The synthetic transactions of a response exist in every context of its
transaction or in none, with the same hashes. -/
theorem syntheticTxs_hashes {E : Env} {r : Response} {ctx ctx' : TxContext} {txs : List VirtualTx}
    (hsame : ctx.Same ctx') (h : r.syntheticTxs E ctx = .ok txs) :
    ∃ txs', r.syntheticTxs E ctx' = .ok txs' ∧
      txs'.map (·.transaction.hash) = txs.map (·.transaction.hash) := by
  unfold Response.syntheticTxs at h ⊢
  simp only [hsame.ethereumMessageIndexes, hsame.totalMessages, hsame.tx] at h ⊢
  split_ifs at h ⊢
  · obtain rfl := Except.ok.inj h
    exact ⟨_, rfl, rfl⟩
  · obtain rfl := Except.ok.inj h
    exact ⟨_, rfl, by simp [syntheticTx_hash]⟩
  · obtain ⟨hooks, hhooks, h⟩ := bind_eq_ok.mp h
    obtain rfl := Except.ok.inj h
    rw [hhooks]
    exact ⟨_, rfl, hookTxs_hashes _ _ _ _ _ _ _ _ rfl⟩
  · obtain ⟨hooks, hhooks, h⟩ := bind_eq_ok.mp h
    obtain rfl := Except.ok.inj h
    rw [hhooks]
    refine ⟨_, rfl, ?_⟩
    simp only [List.map_cons, syntheticTx_hash]
    exact congrArg _ (hookTxs_hashes _ _ _ _ _ _ _ _ rfl)

theorem syntheticHashes_eq {E : Env} {r : Response} {ctx : TxContext} {rawTx : Bytes}
    {msgs : List Msg} {txs : List VirtualTx} (hsame : ctx.Same (hashContext rawTx msgs))
    (h : r.syntheticTxs E ctx = .ok txs) :
    r.syntheticHashes E rawTx msgs = txs.map (·.transaction.hash) := by
  obtain ⟨txs', htxs', heq⟩ := syntheticTxs_hashes hsame h
  rw [Response.syntheticHashes, htxs']
  exact heq

/-! ## Normalised results show the same hashes -/

/-- The results differ in their data at most, and not at all if the first one failed or has
none. -/
structure SameButData (res res' : ExecTxResult) : Prop where
  fields : res' = { res with data := res'.data }
  unread : res.code ≠ codeTypeOK ∨ res.data = [] → res' = res

theorem normalizeResult_same {E : Env} {pos pos' : NormalizeState} {res res' : ExecTxResult}
    (h : normalizeResult E pos res = .ok (res', pos')) : SameButData res res' := by
  rw [normalizeResult] at h
  by_cases hunread : res.code ≠ codeTypeOK ∨ res.data = []
  · rw [if_pos hunread] at h
    obtain ⟨rfl, -⟩ := Prod.mk.inj (Except.ok.inj h)
    exact ⟨rfl, fun _ => rfl⟩
  · rw [if_neg hunread] at h
    refine ⟨?_, fun hread => absurd hread hunread⟩
    obtain ⟨txMsgData, -, h⟩ := bind_eq_ok.mp h
    obtain ⟨s, -, h⟩ := bind_eq_ok.mp h
    split_ifs at h
    · obtain ⟨data, -, h⟩ := bind_eq_ok.mp h
      obtain ⟨rfl, -⟩ := Prod.mk.inj (Except.ok.inj h)
      rfl
    · obtain ⟨rfl, -⟩ := Prod.mk.inj (Except.ok.inj h)
      rfl

/-- Normalisation keeps the results in place and changes only their data. -/
theorem normalizeResults_same {E : Env} {input output : List (Option ExecTxResult)}
    {pos : NormalizeState} (h : normalizeResults E pos input = .ok output) :
    List.Forall₂ (Option.Rel SameButData) input output := by
  induction input generalizing pos output with
  | nil =>
    obtain rfl := Except.ok.inj h
    exact .nil
  | cons res input ih =>
    cases res with
    | none =>
      obtain ⟨rest, hrest, h⟩ := bind_eq_ok.mp h
      obtain rfl := Except.ok.inj h
      exact .cons .none (ih hrest)
    | some res =>
      obtain ⟨⟨out, pos'⟩, hout, h⟩ := bind_eq_ok.mp h
      obtain ⟨rest, hrest, h⟩ := bind_eq_ok.mp h
      obtain rfl := Except.ok.inj h
      exact .cons (.some (normalizeResult_same hout)) (ih hrest)

theorem normalizeResults_getElem? {E : Env} {input output : List (Option ExecTxResult)}
    {pos : NormalizeState} (h : normalizeResults E pos input = .ok output) {i : ℕ}
    {res' : ExecTxResult} (hi : output[i]? = some (some res')) :
    ∃ res, input[i]? = some (some res) ∧ res' = { res with data := res'.data } := by
  obtain ⟨res, hres, hsame⟩ := forall₂_getElem?_right (normalizeResults_same h) hi
  cases hsame with
  | some hsame => exact ⟨_, hres, hsame.fields⟩

end EvmGateway
