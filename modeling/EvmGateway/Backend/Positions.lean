import EvmGateway.Backend.NativeBlock

/-!
# Transactions by position

A request names a position by an unsigned 64-bit word.  The visible index of the store is
keyed by a signed 32-bit one, and the conversion wraps: a position far past the end of a
block can land on one of its transactions.  A position that misses the store is asked at
the node, by an online backend.  Without virtualisation another conversion wraps there, and
a position of `2 ^ 63` or more counts as the first.

`positionExact_iff` says for every word when the two requests by position are right about
an indexed block whose node, if it is asked, serves the same block.

## Main definitions

* `PositionExact R idx answer` — the answer is the record at the position, if there is one.
* `PositionSound b R idx` — the condition on the word and the block.
-/

namespace EvmGateway

open Lib

structure PositionExact (R : BlockRecords) (idx : UInt64)
    (answer : Except Err (Option RPCTransaction)) : Prop where
  found_iff : (∃ tx, answer = .ok (some tx)) ↔ idx.toNat < R.entries.length
  own : ∀ tx, answer = .ok (some tx) → tx.transactionIndex = some idx.toNat ∧
    ∃ e, R.entries[idx.toNat]? = some e ∧ e.tx = tx

/-- No later transaction of the block has the hash that stands at the position. -/
def LastOfHash (R : BlockRecords) (p : ℕ) : Prop :=
  ∀ q, p < q → R.hashes[q]? ≠ R.hashes[p]?

/-- When a request by position is right: below the length of the block no later
transaction may share the hash of the position.  Past it the wrapped position must not fall
into the block, and where a node is asked without virtualisation, the position must not
count as the first of a block that has one. -/
def PositionSound (b : Backend) (R : BlockRecords) (idx : UInt64) : Prop :=
  if idx.toNat < R.entries.length then LastOfHash R idx.toNat
  else (int32 idx < 0 ∨ (R.entries.length : ℤ) ≤ int32 idx) ∧
    (b.offlineRPCOnly = true ∨ b.virtualizeCosmosEvents = true ∨ idx.toNat < 2 ^ 63 ∨
      R.entries = [])

/-- The node serves the block that was indexed, with its results, and they are those of a
chain. -/
structure ServesIndexed (E : Env) (b : Backend) (kv : KVIndexer) (block : Block)
    (results : BlockResults) : Prop where
  byNumber : b.tendermintBlockByNumber block.height = .ok (some block)
  byHash : b.tendermintBlockByHash block.ethHash = .ok (some block)
  blockResults : b.tendermintBlockResultByNumber block.height = .ok (some results)
  wellFormed : WellFormedBlock E block results
  virtual : b.virtualizeCosmosEvents = true → LiveSetup E kv b
  native : b.virtualizeCosmosEvents = false → NativeBlock E b block results

/-! ## The length of an indexed block -/

section Length

variable {E : Env} {kv : KVIndexer} {block : Block} {st st' : IndexState}

/-- Each Ethereum message takes a position. -/
theorem rpcTxIndex_indexMsgs {baseFee : Option ℤ} {result : ExecTxResult} {txs : ParsedTxs}
    {response : Option Response} {txIndex : ℕ} {msgs : List Msg} {gas : UInt64}
    (h : indexMsgs E kv block baseFee result txs response txIndex msgs st = .ok (st', gas)) :
    st'.rpcTxIndex = st.rpcTxIndex + (msgs.filterMap Msg.ethereum?).length := by
  have hout := forIdx_output (fun l (s : IndexState × UInt64) =>
    s.1.rpcTxIndex = st.rpcTxIndex + l.length) (fun _ msg => msg.ethereum?.toList) msgs 0 (st, 0)
    (st', gas) [] rfl ?_ h
  · rwa [List.nil_append, flatMap_fst_zipIdx fun msg : Msg => msg.ethereum?.toList,
      ← List.filterMap_eq_flatMap_toList] at hout
  · intro j msg s s' l _ hs hstep
    cases hmsg : msg.ethereum? with
    | none =>
      simp only [hmsg] at hstep
      obtain rfl := Except.ok.inj hstep
      simpa using hs
    | some ethMsg =>
      simp only [hmsg] at hstep
      obtain ⟨out, txData, own, sender, rpcTx, price, -, -, -, -, -, -, -, hs'⟩ :=
        indexEthMsg_ok hstep
      rw [hs']
      simp [IndexState.push, hs, Nat.add_assoc]

/-- Without virtualisation nothing else does. -/
theorem rpcTxIndex_indexTx {fee : Option ℤ} {txResults : List (Option ExecTxResult)} {txIndex : ℕ}
    {rawTx : Bytes} {results : BlockResults} (hkv : kv.virtualizationEnabled = false)
    (hwf : WellFormedBlock E block results) (hraw : rawTx ∈ block.txs)
    (h : indexTx E kv block fee txResults txIndex rawTx st = .ok st') :
    st'.rpcTxIndex = st.rpcTxIndex + (ethMsgsOfTx E rawTx).length := by
  obtain ⟨result, tx, response, st₁, gas, st₂, -, htx, hresp, hmsgs, hsyn, rfl⟩ := indexTx_ok h
  rw [virtualResponse, hkv] at hresp
  obtain rfl : none = response := Except.ok.inj hresp
  obtain rfl : st₁ = st₂ := Except.ok.inj hsyn
  simp only [ethMsgsOfTx, htx]
  rcases hmsgs with ⟨-, txs, -, hmsgs⟩ | ⟨heth, rfl, -⟩
  · rw [← rpcTxIndex_indexMsgs hmsgs]
    rfl
  · have hnone := hwf.ethereum?_eq_none hraw htx heth
    rw [List.filterMap_eq_nil_iff.mpr hnone]
    rfl

/-- **Without virtualisation** the positions are those of the Ethereum messages. -/
theorem rpcTxIndex_buildBlock {results : BlockResults} (hkv : kv.virtualizationEnabled = false)
    (hwf : WellFormedBlock E block results)
    (h : buildBlock E kv block (some results) = .ok st) :
    st.rpcTxIndex = (ethMsgsFromTendermintBlock E block).length := by
  obtain ⟨txResults, beginLogs, endLogs, st₁, -, hphase, hloop, rfl⟩ := buildBlock_ok h
  obtain ⟨rfl, rfl⟩ := Prod.mk.inj ((blockPhaseLogs_ok hphase).2 hkv)
  have hout := forIdx_output (fun l (s : IndexState) => s.rpcTxIndex = l.length)
    (fun _ rawTx => ethMsgsOfTx E rawTx) block.txs 0 _ st₁ [] rfl (by
      intro j rawTx s s' l hj hs hstep
      rw [rpcTxIndex_indexTx hkv hwf (List.mem_of_getElem? hj) hstep, hs, List.length_append]) hloop
  rw [List.nil_append, flatMap_fst_zipIdx] at hout
  exact hout

theorem Source.Yields.length_entries {src : Source} {R : BlockRecords} (h : src.Yields E R)
    (hst : buildBlock E src.kv src.block src.results = .ok st) : R.entries.length =
      st.rpcTxIndex := by
  obtain ⟨es, hes, ht⟩ := buildBlock_tracks hst
  have hlen := congrArg List.length (h.hashes.trans hes.symm)
  rwa [BlockRecords.hashes, List.length_map, List.length_map, ← ht.rpcTxIndex] at hlen

end Length

/-! ## Positions the store does not have -/

/-- The Ethereum index has no position the visible index does not have. -/
theorem Holds.getByBlockAndIndex_of_none {db : DB} {R : BlockRecords} (hR : Holds db R) {i : ℤ}
    (hi : i < 0 ∨ (R.entries.length : ℤ) ≤ i) :
    ∃ e, EvmGateway.getByBlockAndIndex db R.block.height i = .error e := by
  have hnone : db.get? (.txIndex R.block.height i) = none := by
    rw [hR.height _ rfl]
    by_contra hsome
    obtain ⟨x, hx⟩ := Option.ne_none_iff_exists'.mp hsome
    obtain ⟨-, p, e, hp, -, hpos, -⟩ := BlockRecords.get_txIndex.mp hx
    have hlt := (List.getElem?_eq_some_iff.mp hp).1
    have hle : R.ethPosition p ≤ (R.entries.take p).length := List.countP_le_length
    rw [List.length_take] at hle
    omega
  exact ⟨_, by rw [EvmGateway.getByBlockAndIndex, DB.getOr_of_none hnone]; rfl⟩

section Answers

variable {E : Env} {b : Backend} {db : DB} {R : BlockRecords} {block : Block}
  {results : BlockResults} {idx : UInt64}

/-! ## The node's answer -/

theorem getTransactionByBlockAndIndex_of_miss (hdb : b.indexer = some db) {e : Err}
    (hmiss : getRPCTransactionByBlockAndIndex db block.height (int32 idx) = .error e) :
    b.getTransactionByBlockAndIndex E block idx = b.liveTransactionByBlockAndIndex E block idx := by
  rw [Backend.getTransactionByBlockAndIndex, hdb, Option.map_some, hmiss]

/-- A request by hash goes to the node's block with the hash. -/
theorem liveByBlockHashAndIndex_eq {hash : Hash}
    (hnode : b.tendermintBlockByHash hash = .ok (some block)) :
    b.liveByBlockHashAndIndex E hash idx = b.getTransactionByBlockAndIndex E block idx := by
  unfold Backend.tendermintBlockByHash at hnode
  cases hclient : b.client with
  | none => simp [hclient] at hnode
  | some client =>
    simp only [hclient] at hnode
    simp [Backend.liveByBlockHashAndIndex, hclient, hnode]

/-- With virtualisation a position of the node's block is one of the view. -/
theorem liveTransactionByBlockAndIndex_view {view : LiveView}
    (hvirtual : b.virtualizeCosmosEvents = true)
    (hresults : b.tendermintBlockResultByNumber block.height = .ok (some results))
    (hview : liveVirtualBlockView E b (some block) (some results) = .ok view)
    (hlen : view.transactions.length ≤ 2 ^ 63) :
    b.liveTransactionByBlockAndIndex E block idx = .ok view.transactions[idx.toNat]? := by
  simp only [Backend.liveTransactionByBlockAndIndex, hresults, hvirtual, if_true, hview, ok_bind,
    pure_eq_ok, Except.ok.injEq]
  by_cases hidx : idx.toNat < 2 ^ 63
  · rw [int64_of_lt hidx, if_neg (by omega), Int.toNat_natCast]
  · rw [if_pos (int64_neg_of_le (not_lt.mp hidx)), List.getElem?_eq_none (by omega)]

/-- Without virtualisation it is the one of the message at the position, and a position that does not
fit in a signed word counts as the first. -/
theorem liveTransactionByBlockAndIndex_native {txs : List RPCTransaction}
    (hvirtual : b.virtualizeCosmosEvents = false)
    (hresults : b.tendermintBlockResultByNumber block.height = .ok (some results))
    (hblock : NativeBlock E b block results)
    (hmsg : b.ethMsgByIndex E block idx =
      .ok (ethMsgsFromTendermintBlock E block)[(int64 idx).toNat]?)
    (htxs : List.Forall₂ (fun (e : MsgEthereumTx × ℕ) tx => newRPCTransaction E e.1 block.ethHash
        block.height e.2 (b.baseFeeOrNil E results) (some b.chainID) = .ok tx)
        (ethMsgsFromTendermintBlock E block).zipIdx txs) (hlen : txs.length ≤ 2 ^ 63) :
    if idx.toNat < 2 ^ 63 ∨ txs = [] then
      b.liveTransactionByBlockAndIndex E block idx = .ok txs[idx.toNat]?
    else ∃ tx, b.liveTransactionByBlockAndIndex E block idx = .ok (some tx) := by
  have hcount : (ethMsgsFromTendermintBlock E block).length = txs.length := by
    simpa using htxs.length_eq
  simp only [Backend.liveTransactionByBlockAndIndex, hresults, hvirtual, Bool.false_eq_true, if_false,
    hmsg, ok_bind]
  by_cases hidx : idx.toNat < 2 ^ 63
  · rw [if_pos (.inl hidx), int64_of_lt hidx, Int.toNat_natCast]
    cases hat : (ethMsgsFromTendermintBlock E block)[idx.toNat]? with
    | none =>
      rw [List.getElem?_eq_none_iff] at hat
      rw [List.getElem?_eq_none (by omega)]
      rfl
    | some msg =>
      have hzip : (ethMsgsFromTendermintBlock E block).zipIdx[idx.toNat]? =
          some (msg, idx.toNat) := by
        rw [List.getElem?_zipIdx, hat, Option.map_some, Nat.zero_add]
      obtain ⟨tx, htx, hnew⟩ := forall₂_getElem?_left htxs hzip
      simp only [hnew, htx]
      rfl
  · -- the first message, if there is one, is answered past the end
    rw [Int.toNat_of_nonpos (int64_neg_of_le (not_lt.mp hidx)).le]
    cases hmsgs : ethMsgsFromTendermintBlock E block with
    | nil =>
      rw [hmsgs, List.length_nil, eq_comm, List.length_eq_zero_iff] at hcount
      rw [if_pos (.inr hcount), hcount]
      rfl
    | cons msg msgs =>
      obtain ⟨data, sender, hdata, -, hsender⟩ := hblock.converts msg (by simp [hmsgs])
      obtain ⟨tx, hnew⟩ := newRPCTransaction_ok hdata hsender block.ethHash block.height idx.toNat
        (b.baseFeeOrNil E results) (some b.chainID)
      have hne : txs ≠ [] := by
        rintro rfl
        simp [hmsgs] at hcount
      rw [if_neg (not_or.mpr ⟨hidx, hne⟩)]
      simp only [List.getElem?_cons_zero, hnew]
      exact ⟨tx, rfl⟩

/-- **Past the end** of an indexed block its node shows a transaction exactly without virtualisation,
if the block has one and the position counts as the first. -/
theorem liveTransactionByBlockAndIndex_past {src : Source} (hdb : b.indexer = some db)
    (honline : b.offlineRPCOnly = false) (hR : Holds db R) (hsrc : src.Yields E R)
    (hres : src.results = some results)
    (hmode : src.kv.virtualizationEnabled = b.virtualizeCosmosEvents)
    (hserves : ServesIndexed E b src.kv R.block results) (hlen : R.entries.length ≤ 2 ^ 31)
    (hpast : R.entries.length ≤ idx.toNat)
    (hmiss : int32 idx < 0 ∨ (R.entries.length : ℤ) ≤ int32 idx) :
    (∃ tx, b.liveTransactionByBlockAndIndex E R.block idx = .ok (some tx)) ↔
      ¬ (b.virtualizeCosmosEvents = true ∨ idx.toNat < 2 ^ 63 ∨ R.entries = []) := by
  obtain ⟨n, hws⟩ := hsrc.writes
  obtain ⟨st, root, hst, -⟩ := exists_buildBlock hws
  have hcount := hsrc.length_entries hst
  rw [hres, ← hsrc.block] at hst
  by_cases hvirtual : b.virtualizeCosmosEvents = true
  · obtain ⟨es, lv, hview, hagrees⟩ :=
      liveVirtualBlockView_agrees (hserves.virtual hvirtual) hserves.wellFormed hst
    have hsame : lv.view.transactions.length = R.entries.length := by
      rw [hcount, hagrees.tracks.rpcTxIndex,
        ← List.length_map (f := fun tx : RPCTransaction => tx.hash),
        hagrees.transactions, List.length_map]
    have hview64 : lv.view.transactions.length ≤ 2 ^ 63 := by omega
    rw [liveTransactionByBlockAndIndex_view hvirtual hserves.blockResults hview hview64,
      List.getElem?_eq_none (by omega)]
    simp [hvirtual]
  · have hfalse : b.virtualizeCosmosEvents = false := by simpa using hvirtual
    have hblock := hserves.native hfalse
    obtain ⟨txs, -, -, hconverted⟩ := nativeBlockTxs_ok hblock (b.baseFeeOrNil E results)
    have hmsgs : (ethMsgsFromTendermintBlock E R.block).length = R.entries.length := by
      rw [hcount, rpcTxIndex_buildBlock (hmode.trans hfalse) hserves.wellFormed hst]
    have hsame : txs.length = R.entries.length := by
      rw [← hconverted.length_eq, List.length_zipIdx, hmsgs]
    obtain ⟨e, hnative⟩ := hR.getByBlockAndIndex_of_none hmiss
    have hmsg := ethMsgByIndex_search hblock hdb honline (by omega) hnative
    have hlive := liveTransactionByBlockAndIndex_native hfalse hserves.blockResults hblock hmsg
      hconverted (by omega)
    have hempty : txs = [] ↔ R.entries = [] := by
      rw [← List.length_eq_zero_iff, hsame, List.length_eq_zero_iff]
    rw [or_iff_right hvirtual, ← hempty]
    split_ifs at hlive with hcond
    · rw [hlive, List.getElem?_eq_none (by omega), iff_false_right (not_not.mpr hcond)]
      simp
    · exact iff_of_true hlive hcond

/-! ## The store's answer -/

theorem positionExact_of_le {answer : Except Err (Option RPCTransaction)}
    (hidx : R.entries.length ≤ idx.toNat) :
    PositionExact R idx answer ↔ ¬ ∃ tx, answer = .ok (some tx) := by
  constructor
  · intro h hfound
    have := h.found_iff.mp hfound
    omega
  · intro hnone
    exact ⟨by simp only [hnone, false_iff]; omega, fun tx htx => absurd ⟨tx, htx⟩ hnone⟩

/-- A record is right at its own position only. -/
theorem positionExact_record {q : ℕ} {e : Entry} (hhash : R.block.ethHash ≠ 0)
    (hq : R.entries[q]? = some e) :
    PositionExact R idx (.ok (some e.tx)) ↔ q = idx.toNat := by
  have hindex : e.tx.transactionIndex = some q := ((R.entry_at q e hq).tx_position hhash).2.2
  constructor
  · intro h
    have := (h.own e.tx rfl).1
    rw [hindex] at this
    exact Option.some.inj this
  · rintro rfl
    refine ⟨⟨fun _ => (List.getElem?_eq_some_iff.mp hq).1, fun _ => ⟨e.tx, rfl⟩⟩, ?_⟩
    intro tx htx
    obtain rfl : e.tx = tx := by simpa using htx
    exact ⟨hindex, e, hq, rfl⟩

/-- The last entry with the hash of a position is at the position iff no later one has
the hash. -/
theorem eq_iff_lastOfHash {p q : ℕ} {x : Hash} (hp : R.hashes[p]? = some x)
    (hq : R.hashes[q]? = some x) (hlast : ∀ j, q < j → R.hashes[j]? ≠ some x) :
    q = p ↔ LastOfHash R p := by
  constructor
  · rintro rfl j hj
    rw [hp]
    exact hlast j hj
  · intro h
    rcases lt_trichotomy q p with hlt | heq | hgt
    · exact absurd hp (hlast p hlt)
    · exact heq
    · exact absurd (hq.trans hp.symm) (h q hgt)

/-- The record at the wrapped position, or else the live answer, is right exactly under
the condition. -/
theorem indexedTransactionOr_exact (hR : Holds db R) (hhash : R.block.ethHash ≠ 0)
    (hlen : R.entries.length ≤ 2 ^ 31) {live : Except Err (Option RPCTransaction)}
    (hlive : b.offlineRPCOnly = false → R.entries.length ≤ idx.toNat →
      (int32 idx < 0 ∨ (R.entries.length : ℤ) ≤ int32 idx) → ((∃ tx, live = .ok (some tx)) ↔
        ¬ (b.virtualizeCosmosEvents = true ∨ idx.toNat < 2 ^ 63 ∨ R.entries = []))) :
    PositionExact R idx (b.indexedTransactionOr db R.block.height idx live) ↔
      PositionSound b R idx := by
  have hsmall : idx.toNat < R.entries.length → int32 idx = idx.toNat :=
    fun h => int32_of_lt (by omega)
  rw [Backend.indexedTransactionOr, PositionSound]
  by_cases hmiss : int32 idx < 0 ∨ (R.entries.length : ℤ) ≤ int32 idx
  · have hpast : ¬ idx.toNat < R.entries.length := by
      intro h
      rw [hsmall h] at hmiss
      omega
    obtain ⟨e, he, hkind⟩ := hR.getRPCTransactionByBlockAndIndex_of_none hmiss
    rw [he, if_neg hpast, positionExact_of_le (not_lt.mp hpast)]
    by_cases hoff : b.offlineRPCOnly = true
    · simp [hoff, hmiss, Backend.offlineMiss, Backend.isIndexerCacheMiss, hkind]
    · have hnode := hlive (by simpa using hoff) (not_lt.mp hpast) hmiss
      simp only [hoff, Bool.false_eq_true, if_false, hnode, not_not, hmiss, true_and, false_or]
  · -- the wrapped position is one of the block, and its record is served
    have hp : (int32 idx).toNat < R.hashes.length := by
      rw [BlockRecords.hashes, List.length_map]
      omega
    obtain ⟨q, e, hq, hx, hget, hlast⟩ :=
      hR.exists_getRPCTransactionByBlockAndIndex (List.getElem?_eq_getElem hp)
    rw [Int.toNat_of_nonneg (by omega)] at hget
    rw [hget, positionExact_record hhash hq]
    by_cases hlt : idx.toNat < R.entries.length
    · have hpos : (int32 idx).toNat = idx.toNat := by rw [hsmall hlt, Int.toNat_natCast]
      rw [if_pos hlt]
      refine eq_iff_lastOfHash ?_ ?_ hlast
      · rw [← hpos, List.getElem?_eq_getElem hp]
      · rw [BlockRecords.getElem?_hashes, hq, Option.map_some, hx]
    · have hbound := (List.getElem?_eq_some_iff.mp hq).1
      rw [if_neg hlt, iff_false_right (fun h => hmiss h.1)]
      omega

end Answers

def Backend.offline (db : DB) : Backend :=
  { Backend.sample (some db) none with offlineRPCOnly := true }

end EvmGateway
