import EvmGateway.Backend.LiveAgreement
import EvmGateway.Backend.Receipts

/-!
# The node's block without virtualisation

Without virtualisation a block is the list of its Ethereum messages.  The block, its receipts and
its logs are read from the node's data by loops of their own: over the messages of the block, over
its transactions with their results, and over the results alone.  They show the same list if the
node's data fit together (`NativeBlock`).

* `nativeBlockTxs_ok` — the transactions are the messages, in order.
* `nativeReceipts_ok` — so are the receipts, and the logs are those of the receipts.
* `ethMsgByIndex_search` — the node's search finds the message at a position.
-/

namespace EvmGateway

open Lib

variable {result : ExecTxResult} {i : ℕ} {rawTx : Bytes}

def nativeMsgsLogs (E : Env) (height : ℕ) (tx : SdkTx) (result : ExecTxResult) : List RPCLog :=
  tx.msgs.zipIdx.flatMap fun e =>
    if e.1.ethereum?.isSome then liveMsgLogs E result.data e.2 height else []

/-- The result of a transaction is about its messages: an event carries the hash of its message, and
the logs are those of the messages. -/
structure NativeTx (E : Env) (height : ℕ) (rawTx : Bytes) (result : ExecTxResult) : Prop where
  undecodable : ∀ e, E.txDecoder rawTx = .error e → logsFromTxResult E height (some result) = .ok []
  parses : ∀ tx, E.txDecoder rawTx = .ok tx → ∃ parsedTxs, liveParsedTxs E result tx = .ok parsedTxs
  hash : ∀ tx parsedTxs, E.txDecoder rawTx = .ok tx → liveParsedTxs E result tx =
    .ok (some parsedTxs) →
    ∀ (j : ℕ) msg parsedTx, tx.msgs[j]?.bind Msg.ethereum? = some msg →
      parsedTxs.getTxByMsgIndex j = some parsedTx → parsedTx.hash = msg.hash
  logs : ∀ tx, E.txDecoder rawTx = .ok tx →
    logsFromTxResult E height (some result) = .ok (nativeMsgsLogs E height tx result)

/-- What a node promises about a block without virtualisation. -/
structure NativeBlock (E : Env) (b : Backend) (block : Block) (results : BlockResults) : Prop where
  /-- an Ethereum message is a signed transaction with its hash -/
  converts : ∀ msg ∈ ethMsgsFromTendermintBlock E block, ∃ tx sender, msg.asTransaction = some tx ∧
    tx.hash = msg.hash ∧ E.getSenderLegacy msg tx.signer = .ok sender
  signed : ∀ msg ∈ ethMsgsFromTendermintBlock E block,
    ∃ sender, E.getSenderLegacy msg (.latestForChainID b.chainID) = .ok sender
  /-- each transaction has its result -/
  results : ∃ txResults, normalizeTxResponseIndexes E results.txResults = .ok txResults ∧
    List.Forall₂ (fun rawTx result => ∃ r, result = some r ∧ NativeTx E results.height rawTx r)
      block.txs txResults
  /-- the search by position finds the message at the position, or nothing -/
  search : ∀ idx res, b.queryTendermintTxIndexer E (Backend.txIndexQuery E block.height idx)
      (fun txs => .ok (txs.getTxByTxIndex (int64 idx))) = .ok res →
    ∃ rawTx tx msg, block.txs[res.txIndex]? = some rawTx ∧ E.txDecoder rawTx = .ok tx ∧
      tx.msgs[res.msgIndex]? = some msg ∧ msg.ethereum?.isSome = true ∧
      (ethMsgsFromTendermintBlock E block)[idx.toNat]? = msg.ethereum?
  search_noPanic : ∀ idx, NoPanic (b.queryTendermintTxIndexer E
    (Backend.txIndexQuery E block.height idx)
    fun txs => .ok (txs.getTxByTxIndex (int64 idx)))

/-! ## The transactions -/

/-- Calls that all succeed, with their errors handled. -/
theorem mapM_attempt_ok {α β : Type} {f : α → Except Err β} {l : List α}
    (h : ∀ a ∈ l, ∃ b, f a = .ok b) :
    ∃ bs, l.mapM (fun a => attempt (f a)) = .ok (bs.map some) ∧
      List.Forall₂ (fun a b => f a = .ok b) l bs := by
  induction l with
  | nil => exact ⟨[], rfl, .nil⟩
  | cons a l ih =>
    obtain ⟨b, hb⟩ := h a List.mem_cons_self
    obtain ⟨bs, hbs, hall⟩ := ih fun a' ha' => h a' (List.mem_cons_of_mem a ha')
    refine ⟨b :: bs, ?_, .cons hb hall⟩
    rw [List.mapM_cons, hb, attempt_ok, ok_bind, hbs, ok_bind]
    rfl

section Native

variable {E : Env} {b : Backend} {block : Block} {results : BlockResults}

/-- **The transactions of the block** are its messages, in order. -/
theorem nativeBlockTxs_ok (hblock : NativeBlock E b block results) (baseFee : Option ℤ) :
    ∃ txs : List RPCTransaction, b.nativeBlockTxs E block baseFee true = .ok (txs.map .full) ∧
      txs.map (·.hash) = (ethMsgsFromTendermintBlock E block).map (·.hash) ∧
      List.Forall₂ (fun (e : MsgEthereumTx × ℕ) tx => newRPCTransaction E e.1 block.ethHash
        block.height e.2 baseFee (some b.chainID) = .ok tx)
        (ethMsgsFromTendermintBlock E block).zipIdx txs := by
  have hconverts : ∀ e ∈ (ethMsgsFromTendermintBlock E block).zipIdx, ∃ tx,
      newRPCTransaction E e.1 block.ethHash block.height e.2 baseFee (some b.chainID) = .ok tx := by
    intro e he
    obtain ⟨data, sender, hdata, -, hsender⟩ := hblock.converts e.1 (List.fst_mem_of_mem_zipIdx he)
    exact newRPCTransaction_ok hdata hsender ..
  obtain ⟨txs, htxs, hall⟩ := mapM_attempt_ok hconverts
  refine ⟨txs, ?_, ?_, hall⟩
  · simp only [Backend.nativeBlockTxs, if_true]
    rw [htxs]
    simp [List.reduceOption]
  · have heq : List.Forall₂ (fun (e : MsgEthereumTx × ℕ) (tx : RPCTransaction) => tx.hash = e.1.hash)
        (ethMsgsFromTendermintBlock E block).zipIdx txs := by
      have hboth := (List.forall₂_and_left _ _).mpr
        ⟨fun e he => hblock.converts e.1 (List.fst_mem_of_mem_zipIdx he), hall⟩
      refine hboth.imp ?_
      rintro e tx ⟨⟨data, -, hdata, hhash, -⟩, htx⟩
      rw [newRPCTransaction_hash hdata htx, hhash]
    have hmaps : (ethMsgsFromTendermintBlock E block).zipIdx.map (fun e => e.1.hash) =
        txs.map (·.hash) := by
      rw [← List.forall₂_eq_eq_eq, List.forall₂_map_left_iff, List.forall₂_map_right_iff]
      exact heq.imp fun _ _ h => h.symm
    rw [← hmaps]
    conv_rhs => rw [← List.zipIdx_map_fst 0 (ethMsgsFromTendermintBlock E block), List.map_map]
    rfl

/-! ## The receipts and the logs -/

def nativeRows (E : Env) (height : ℕ) (result : ExecTxResult) (msgs : List Msg) :
    List (Hash × List RPCLog) :=
  msgs.zipIdx.flatMap fun e =>
    (e.1.ethereum?.map fun msg => (msg.hash, liveMsgLogs E result.data e.2 height)).toList

def receiptRow (receipt : ReceiptMap) : Hash × List RPCLog :=
  (receipt.transactionHash, receipt.logs)

theorem nativeMsgReceipt_rows {parsedTxs : Option ParsedTxs} {j : ℕ} {msg : Msg}
    {s s' : ReceiptState × UInt64} (hhash : ∀ ethMsg parsedTx, msg.ethereum? = some ethMsg →
      parsedTxs.bind (·.getTxByMsgIndex j) = some parsedTx → parsedTx.hash = ethMsg.hash)
    (h : b.nativeMsgReceipt E block results result parsedTxs j msg s = .ok s') :
    s'.1.receipts.map receiptRow = s.1.receipts.map receiptRow ++ (msg.ethereum?.map fun ethMsg =>
      (ethMsg.hash, liveMsgLogs E result.data j results.height)).toList := by
  unfold Backend.nativeMsgReceipt at h
  cases hmsg : msg.ethereum? with
  | none =>
    simp only [hmsg] at h
    obtain rfl := Except.ok.inj h
    simp
  | some ethMsg =>
    simp only [hmsg] at h
    cases hdata : ethMsg.asTransaction with
    | none => simp [hdata] at h
    | some txData =>
      simp only [hdata] at h
      obtain ⟨sender, -, h⟩ := bind_eq_ok.mp h
      obtain rfl := Except.ok.inj h
      have htxHash : (nativeMsgOutcome E result parsedTxs j s.1.receipts.length ethMsg).txHash =
          ethMsg.hash := by
        unfold nativeMsgOutcome
        split_ifs
        · rfl
        · cases hparsed : parsedTxs.bind (·.getTxByMsgIndex j) with
          | none => rfl
          | some parsedTx => exact hhash ethMsg parsedTx hmsg hparsed
      simp [receiptRow, liveReceiptMap, htxHash]

theorem map_fst_nativeRows (height : ℕ) (result : ExecTxResult) (msgs : List Msg) :
    (nativeRows E height result msgs).map Prod.fst =
      (msgs.filterMap Msg.ethereum?).map (·.hash) := by
  have hrows : ∀ n, ((msgs.zipIdx n).flatMap fun e => (e.1.ethereum?.map fun msg =>
      (msg.hash, liveMsgLogs E result.data e.2 height)).toList).map Prod.fst =
        (msgs.filterMap Msg.ethereum?).map (·.hash) := by
    induction msgs with
    | nil => simp
    | cons msg msgs ih =>
      intro n
      rw [List.zipIdx_cons, List.flatMap_cons, List.map_append, ih]
      cases hmsg : msg.ethereum? <;> simp [hmsg]
  exact hrows 0

theorem map_snd_nativeRows (height : ℕ) (result : ExecTxResult) (tx : SdkTx) :
    ((nativeRows E height result tx.msgs).map Prod.snd).flatten =
      nativeMsgsLogs E height tx result := by
  have hrows : ∀ n (msgs : List Msg), (((msgs.zipIdx n).flatMap fun e => (e.1.ethereum?.map fun msg =>
      (msg.hash, liveMsgLogs E result.data e.2 height)).toList).map Prod.snd).flatten =
        (msgs.zipIdx n).flatMap fun e =>
          if e.1.ethereum?.isSome then liveMsgLogs E result.data e.2 height else [] := by
    intro n msgs
    induction msgs generalizing n with
    | nil => simp
    | cons msg msgs ih =>
      rw [List.zipIdx_cons, List.flatMap_cons, List.map_append, List.flatten_append, ih,
        List.flatMap_cons]
      cases msg.ethereum? <;> simp
  exact hrows 0 tx.msgs

/-- The rows of a raw transaction; none if it cannot be decoded. -/
def nativeTxRows (E : Env) (height : ℕ) (rawTx : Bytes) (result : ExecTxResult) :
    List (Hash × List RPCLog) :=
  match E.txDecoder rawTx with
  | .error _ => []
  | .ok tx => nativeRows E height result tx.msgs

/-- **One transaction** adds the rows of its messages. -/
theorem nativeTxReceipts_rows {txResults : List (Option ExecTxResult)} {st st' : ReceiptState}
    (hres : txResults[i]? = some (some result)) (htx : NativeTx E results.height rawTx result)
    (h : b.nativeTxReceipts E block results txResults i rawTx st = .ok st') :
    st'.receipts.map receiptRow =
      st.receipts.map receiptRow ++ nativeTxRows E results.height rawTx result := by
  unfold Backend.nativeTxReceipts at h
  simp only [hres] at h
  cases hdec : E.txDecoder rawTx with
  | error e =>
    simp only [hdec] at h
    obtain rfl := Except.ok.inj h
    simp [nativeTxRows, hdec]
  | ok tx =>
    simp only [hdec] at h
    obtain ⟨parsedTxs, hparsed, h⟩ := bind_eq_ok.mp h
    obtain ⟨⟨st₁, gas⟩, hloop, h⟩ := bind_eq_ok.mp h
    obtain rfl := Except.ok.inj h
    have hrows := forIdx_output (fun rows (s : ReceiptState × UInt64) =>
      s.1.receipts.map receiptRow = rows)
      (fun j msg => (msg.ethereum?.map fun ethMsg =>
        (ethMsg.hash, liveMsgLogs E result.data j results.height)).toList)
      tx.msgs 0 (st, 0) (st₁, gas) (st.receipts.map receiptRow) rfl ?_ hloop
    · rw [nativeTxRows, hdec]
      exact hrows
    · intro j msg s s' rows hj hs hstep
      rw [nativeMsgReceipt_rows ?_ hstep, hs]
      intro ethMsg parsedTx hmsg hbind
      obtain ⟨parsed, rfl, hget⟩ := Option.bind_eq_some_iff.mp hbind
      rw [Nat.zero_add] at hget
      exact htx.hash tx parsed hdec hparsed j ethMsg parsedTx (by rw [hj]; exact hmsg) hget

theorem map_fst_nativeTxRows (height : ℕ) (rawTx : Bytes) (result : ExecTxResult) :
    (nativeTxRows E height rawTx result).map Prod.fst = (ethMsgsOfTx E rawTx).map (·.hash) := by
  cases hdec : E.txDecoder rawTx with
  | error e => simp [nativeTxRows, ethMsgsOfTx, hdec]
  | ok tx => simp [nativeTxRows, ethMsgsOfTx, hdec, map_fst_nativeRows]

theorem map_snd_nativeTxRows {height : ℕ} {logs : List RPCLog}
    (htx : NativeTx E height rawTx result)
    (hlogs : logsFromTxResult E height (some result) = .ok logs) :
    ((nativeTxRows E height rawTx result).map Prod.snd).flatten = logs := by
  cases hdec : E.txDecoder rawTx with
  | error e =>
    rw [htx.undecodable e hdec] at hlogs
    obtain rfl := Except.ok.inj hlogs
    simp [nativeTxRows, hdec]
  | ok tx =>
    rw [htx.logs tx hdec] at hlogs
    obtain rfl := Except.ok.inj hlogs
    simp [nativeTxRows, hdec, map_snd_nativeRows]

/-- **All transactions**: the rows have the hashes of the messages and the logs of the results. -/
theorem forIdx_nativeTxReceipts {all rs : List (Option ExecTxResult)} {txs : List Bytes}
    (hrel : List.Forall₂ (fun rawTx result => ∃ r, result = some r ∧
      NativeTx E results.height rawTx r) txs rs) (hpos : ∀ k, all[i + k]? = rs[k]?)
    {st st' : ReceiptState} {groups : List (List RPCLog)}
    (h : forIdx (b.nativeTxReceipts E block results all) i txs st = .ok st')
    (hgroups : rs.mapM (logsFromTxResult E results.height) = .ok groups) :
    ∃ rows, st'.receipts.map receiptRow = st.receipts.map receiptRow ++ rows ∧
      rows.map Prod.fst = (txs.flatMap (ethMsgsOfTx E)).map (·.hash) ∧
      (rows.map Prod.snd).flatten = groups.flatten := by
  induction hrel generalizing i st groups with
  | nil =>
    obtain rfl : st = st' := by simpa using h
    obtain rfl : [] = groups := by simpa using hgroups
    exact ⟨[], by simp⟩
  | @cons rawTx result txs rs hrow _ ih =>
    obtain ⟨r, rfl, htx⟩ := hrow
    obtain ⟨st₁, hstep, hrest⟩ := bind_eq_ok.mp h
    rw [List.mapM_cons] at hgroups
    obtain ⟨logs, hlogs, hgroups⟩ := bind_eq_ok.mp hgroups
    obtain ⟨groups', hgroups', hgroups⟩ := bind_eq_ok.mp hgroups
    obtain rfl := Except.ok.inj hgroups
    have hnext : ∀ k, all[i + 1 + k]? = rs[k]? := by
      intro k
      rw [Nat.add_assoc, Nat.add_comm 1 k, hpos (k + 1), List.getElem?_cons_succ]
    obtain ⟨rows, hrows, hfst, hsnd⟩ := ih hnext hrest hgroups'
    refine ⟨nativeTxRows E results.height rawTx r ++ rows, ?_, ?_, ?_⟩
    · rw [hrows, nativeTxReceipts_rows (hpos 0) htx hstep, List.append_assoc]
    · rw [List.map_append, hfst, map_fst_nativeTxRows, List.flatMap_cons, List.map_append]
    · rw [List.map_append, List.flatten_append, hsnd, map_snd_nativeTxRows htx hlogs,
        List.flatten_cons]

theorem nativeMsgReceipt_ok {parsedTxs : Option ParsedTxs} {j : ℕ} {msg : Msg}
    (s : ReceiptState × UInt64) (hconverts : ∀ ethMsg, msg.ethereum? = some ethMsg →
      ∃ tx sender, ethMsg.asTransaction = some tx ∧
        E.getSenderLegacy ethMsg (.latestForChainID b.chainID) = .ok sender) :
    ∃ s', b.nativeMsgReceipt E block results result parsedTxs j msg s = .ok s' := by
  unfold Backend.nativeMsgReceipt
  cases hmsg : msg.ethereum? with
  | none => exact ⟨s, rfl⟩
  | some ethMsg =>
    obtain ⟨tx, sender, htx, hsender⟩ := hconverts ethMsg hmsg
    simp only [htx, hsender, ok_bind]
    exact ⟨_, rfl⟩

theorem nativeTxReceipts_ok {txResults : List (Option ExecTxResult)} (st : ReceiptState)
    (hblock : NativeBlock E b block results) (hraw : rawTx ∈ block.txs)
    (hres : txResults[i]? = some (some result)) (htx : NativeTx E results.height rawTx result) :
    ∃ st', b.nativeTxReceipts E block results txResults i rawTx st = .ok st' := by
  unfold Backend.nativeTxReceipts
  simp only [hres]
  cases hdec : E.txDecoder rawTx with
  | error e => exact ⟨_, rfl⟩
  | ok tx =>
    obtain ⟨parsedTxs, hparsed⟩ := htx.parses tx hdec
    obtain ⟨s, hloop⟩ := forIdx_ok (f := b.nativeMsgReceipt E block results result parsedTxs)
      tx.msgs 0 (st, 0) fun j msg s hj => nativeMsgReceipt_ok s fun ethMsg hmsg => by
        have hmem : ethMsg ∈ ethMsgsFromTendermintBlock E block := by
          refine List.mem_flatMap.mpr ⟨rawTx, hraw, ?_⟩
          simp only [ethMsgsOfTx, hdec, List.mem_filterMap]
          exact ⟨msg, List.mem_of_getElem? hj, hmsg⟩
        obtain ⟨data, -, hdata, -⟩ := hblock.converts ethMsg hmem
        obtain ⟨sender, hsender⟩ := hblock.signed ethMsg hmem
        exact ⟨data, sender, hdata, hsender⟩
    simp only [hparsed, hloop, ok_bind]
    exact ⟨_, rfl⟩

theorem mapM_logsFromTxResult_ok {height : ℕ} {txs : List Bytes} {rs : List (Option ExecTxResult)}
    (hrel : List.Forall₂ (fun rawTx result => ∃ r, result = some r ∧ NativeTx E height rawTx r)
      txs rs) : ∃ groups, rs.mapM (logsFromTxResult E height) = .ok groups := by
  induction hrel with
  | nil => exact ⟨[], rfl⟩
  | @cons rawTx result txs rs hrow _ ih =>
    obtain ⟨r, rfl, htx⟩ := hrow
    obtain ⟨groups, hgroups⟩ := ih
    have hlogs : ∃ logs, logsFromTxResult E height (some r) = .ok logs := by
      cases hdec : E.txDecoder rawTx with
      | error e => exact ⟨_, htx.undecodable e hdec⟩
      | ok tx => exact ⟨_, htx.logs tx hdec⟩
    obtain ⟨logs, hlogs⟩ := hlogs
    exact ⟨logs :: groups, by simp [hlogs, hgroups]⟩

/-- **The receipts and the logs** are those of the messages, in order. -/
theorem nativeReceipts_ok (hblock : NativeBlock E b block results)
    (hvirtual : b.virtualizeCosmosEvents = false)
    (hresults : b.tendermintBlockResultByNumber block.height = .ok (some results)) :
    ∃ receipts groups, b.liveBlockReceipts E block = .ok (some receipts) ∧
      getLogsFromBlockResults E (some results) = .ok groups ∧
      receipts.map (·.transactionHash) = (ethMsgsFromTendermintBlock E block).map (·.hash) ∧
      (receipts.map (·.logs)).flatten = groups.flatten := by
  obtain ⟨txResults, hnorm, hrel⟩ := hblock.results
  obtain ⟨groups, hgroups⟩ := mapM_logsFromTxResult_ok hrel
  obtain ⟨st, hloop⟩ := forIdx_ok (f := b.nativeTxReceipts E block results txResults) block.txs 0 {}
    fun i rawTx st hi => by
      obtain ⟨_, hres, r, rfl, htx⟩ := forall₂_getElem?_left hrel hi
      rw [Nat.zero_add]
      exact nativeTxReceipts_ok st hblock (List.mem_of_getElem? hi) hres htx
  obtain ⟨rows, hrows, hfst, hsnd⟩ := forIdx_nativeTxReceipts hrel (fun k => by simp) hloop hgroups
  rw [List.map_nil, List.nil_append] at hrows
  refine ⟨st.receipts, groups, ?_, ?_, ?_, ?_⟩
  · simp only [Backend.liveBlockReceipts, hresults, hvirtual, Bool.false_eq_true, if_false,
      normalizedOrPlain, hnorm, attempt_ok, ok_bind, pure_bind, Option.getD_some, hloop]
    rfl
  · simp only [getLogsFromBlockResults, hnorm, ok_bind, hgroups]
  · rw [ethMsgsFromTendermintBlock, ← hfst, ← hrows, List.map_map]
    rfl
  · rw [← hsnd, ← hrows, List.map_map]
    rfl

/-! ## A message by its position -/

/-- **The message at a position**, when the store does not know it: the one the node's search finds
is the one that is found by counting. -/
theorem ethMsgByIndex_search {db : DB} {idx : UInt64} {e : Err}
    (hblock : NativeBlock E b block results)
    (hdb : b.indexer = some db) (honline : b.offlineRPCOnly = false)
    (hlen : (ethMsgsFromTendermintBlock E block).length ≤ 2 ^ 63)
    (hmiss : getByBlockAndIndex db block.height (int32 idx) = .error e) :
    b.ethMsgByIndex E block idx =
      .ok (ethMsgsFromTendermintBlock E block)[(int64 idx).toNat]? := by
  have hstore : b.getTxByTxIndex E block.height idx =
      wrapErr (b.queryTendermintTxIndexer E (Backend.txIndexQuery E block.height idx)
        fun txs => .ok (txs.getTxByTxIndex (int64 idx)))
        s!"GetTxByTxIndex {block.height} {idx}" := by
    simp [Backend.getTxByTxIndex, Backend.indexedOrSearched, hdb, hmiss, honline]
  rw [Backend.ethMsgByIndex, hstore, ((hblock.search_noPanic idx).wrapErr _).attempt,
    toOption_wrapErr, ok_bind]
  cases hsearch : b.queryTendermintTxIndexer E (Backend.txIndexQuery E block.height idx)
      fun txs => .ok (txs.getTxByTxIndex (int64 idx)) with
  | error err => rfl
  | ok res =>
    obtain ⟨rawTx, tx, msg, hraw, hdec, hmsg, heth, hat⟩ := hblock.search idx res hsearch
    have hlt : idx.toNat < (ethMsgsFromTendermintBlock E block).length := by
      obtain ⟨ethMsg, hsome⟩ := Option.isSome_iff_exists.mp heth
      rw [hsome] at hat
      exact (List.getElem?_eq_some_iff.mp hat).1
    rw [int64_of_lt (by omega), Int.toNat_natCast, hat]
    simp [Except.toOption, Block.txAt, hraw, hdec, SdkTx.msgAt, hmsg]

end Native

end EvmGateway
