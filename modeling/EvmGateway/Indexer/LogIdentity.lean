import EvmGateway.Indexer.LayoutLoop
import EvmGateway.Rpc.Renumbering

/-!
# The identity of stored logs

A log of a block has an index in the block and the position of its transaction.  With
virtualisation the indexing loop numbers the logs itself.  Without it the logs keep the
numbers of the normalised results, which come from counting responses, events and failure
texts, while receipts are numbered by decoded messages.

`logs_identified_iff` says exactly when the two counts agree: for every listed message
with logs the results before it take as many slots as there are messages listed before,
and their responses have as many logs as those messages.

## Main definitions

* `DecodeLaw` — the logs of a message are those of its Ethereum response.
* `listed` — the Ethereum messages of a block, in order.
* `CountsAgree` — the two counts agree.
* `LogsIdentified` — stored logs that are numbered as their receipts are.
-/

namespace EvmGateway

open Lib

/-! ## Logs of response data -/

def dataLogs (E : Env) (data : Bytes) (m : ℕ) : List EvmLog :=
  if data = [] then []
  else
    match E.unmarshalTxMsgData data with
    | .error _ => []
    | .ok d => ((d.msgResponses.filter (AnyMsg.isEthereum E))[m]?.map (ethereumLogs E)).getD []

/-- The logs decoded for a message have the numbers of its Ethereum response. -/
structure DecodeLaw (E : Env) : Prop where
  msgLogs : ∀ (data : Bytes) (m height : ℕ) (logs : List EthLog), data ≠ [] →
    E.decodeMsgLogs data m height = .ok logs →
      logs.map (fun log => (log.txIndex, log.index)) =
        (dataLogs E data m).map fun log => (log.txIndex, log.index)

/-- The position and the index of a stored log. -/
def RPCLog.numbers (log : RPCLog) : ℕ × ℕ := (log.txIndex, log.index)

/-- The numbers of logs in a group: one position, consecutive indexes. -/
def numbersFrom (position index n : ℕ) : List (ℕ × ℕ) := (List.range' index n).map (position, ·)

/-! ## Identified logs -/

/-- The logs of the groups are numbered from zero and carry the position of their receipt. -/
structure LogsIdentified (R : BlockRecords) : Prop where
  consecutive : R.logs.flatten.map (·.index) = List.range R.logs.flatten.length
  position : ∀ e ∈ R.entries, ∀ log ∈ e.receipt.logs,
    log.txIndex = e.receipt.transactionIndex

/-- Numbers of a group, one component at a time. -/
theorem map_numbers_eq_iff {α : Type*} {f g : α → ℕ} {l : List α} {position index : ℕ} :
    l.map (fun a => (f a, g a)) = numbersFrom position index l.length ↔
      (∀ a ∈ l, f a = position) ∧ l.map g = List.range' index l.length := by
  induction l generalizing index with
  | nil => simp [numbersFrom]
  | cons a l ih =>
    have hcons : numbersFrom position index (a :: l).length =
        (position, index) :: numbersFrom position (index + 1) l.length := by
      simp [numbersFrom, List.range'_succ]
    rw [List.map_cons, hcons, List.cons.injEq, ih, Prod.mk.injEq, List.map_cons,
      List.length_cons, List.range'_succ, List.cons.injEq, List.forall_mem_cons]
    tauto

/-- Groups are numbered one by one. -/
theorem logsIdentified_iff (R : BlockRecords) :
    LogsIdentified R ↔ ∀ (k : ℕ) (e : Entry), R.entries[k]? = some e →
      e.receipt.logs.map RPCLog.numbers =
        numbersFrom k (logCount (R.entries.take k)) e.receipt.logs.length := by
  have hflat : R.logs.flatten.map (·.index) =
      (R.entries.map fun e => e.receipt.logs.map (·.index)).flatten := by
    rw [BlockRecords.logs, List.map_flatten, List.map_map]
    rfl
  have hcount : ∀ k, ((R.entries.map fun e => e.receipt.logs.map (·.index)).take k).flatten.length =
      logCount (R.entries.take k) := by
    intro k
    rw [logCount, ← List.map_take, List.flatMap_def, List.length_flatten, List.length_flatten,
      List.map_map, List.map_map]
    simp [Function.comp_def]
  have hconsecutive : R.logs.flatten.map (·.index) = List.range R.logs.flatten.length ↔
      ∀ (k : ℕ) (e : Entry), R.entries[k]? = some e → e.receipt.logs.map (·.index) =
        List.range' (logCount (R.entries.take k)) e.receipt.logs.length := by
    rw [← List.length_map (f := RPCLog.index), hflat, List.range_eq_range', flatten_eq_range'_iff]
    simp only [hcount, Nat.zero_add, List.getElem?_map]
    constructor
    · intro h k e he
      have := h k _ (by rw [he]; rfl)
      rwa [List.length_map] at this
    · intro h k g hg
      obtain ⟨e, he, rfl⟩ := Option.map_eq_some_iff.mp hg
      rw [List.length_map]
      exact h k e he
  constructor
  · intro h k e he
    refine map_numbers_eq_iff.mpr ⟨fun log hlog => ?_, hconsecutive.mp h.consecutive k e he⟩
    rw [h.position e (List.mem_of_getElem? he) log hlog]
    exact (R.entry_at k e he).receipt_index
  · intro h
    refine ⟨hconsecutive.mpr fun k e he => (map_numbers_eq_iff.mp (h k e he)).2, ?_⟩
    intro e he log hlog
    obtain ⟨k, hk⟩ := List.getElem?_of_mem he
    rw [(map_numbers_eq_iff.mp (h k e hk)).1 log hlog]
    exact (R.entry_at k e hk).receipt_index.symm

/-! ## With virtualisation -/

theorem map_numbers_setLogMetadata (logs : List RPCLog) (ctx : LogContext) :
    (setLogMetadata logs ctx).map RPCLog.numbers =
      numbersFrom ctx.txIndex ctx.firstLogIndex logs.length := by
  refine List.ext_getElem (by simp [numbersFrom]) fun i hi hi' => ?_
  simp [setLogMetadata, numbersFrom, RPCLog.numbers, RPCLog.withMetadata]

/-- The loop numbers the logs of a virtual block itself. -/
theorem StoresAll.logsIdentified {E : Env} {block : Block} {ps : List Piece} {R : BlockRecords}
    (h : StoresAll E true block ps R.entries) : LogsIdentified R := by
  refine (logsIdentified_iff R).mpr fun k e he => ?_
  obtain ⟨p, hp⟩ : ∃ p, ps[k]? = some p := by
    have hk := (List.getElem?_eq_some_iff.mp he).1
    exact ⟨_, List.getElem?_eq_getElem (h.length ▸ hk)⟩
  have hlogs := (h.stored k p e hp he).logs
  rw [Piece.logs, if_pos rfl] at hlogs
  rw [hlogs, map_numbers_setLogMetadata, length_setLogMetadata]
  rfl

/-! ## Listed messages -/

def listedAt (E : Env) (i : ℕ) (rawTx : Bytes) : List (ℕ × ℕ) :=
  match E.txDecoder rawTx with
  | .error _ => []
  | .ok tx => if isEthTx tx then (ethMsgIndexes tx.msgs).map (i, ·) else []

/-- The listed Ethereum messages of a block, by transaction and message. -/
def listed (E : Env) (block : Block) : List (ℕ × ℕ) :=
  block.txs.zipIdx.flatMap fun e => listedAt E e.2 e.1

/-- The logs of a message, as the results hold them. -/
def listedLogs (E : Env) (rs : List (Option ExecTxResult)) (q : ℕ × ℕ) : List EvmLog :=
  match rs[q.1]? with
  | some (some res) => dataLogs E res.data q.2
  | _ => []

/-- The number of logs of the messages listed before a position. -/
def listedBefore (E : Env) (rs : List (Option ExecTxResult)) (block : Block) (k : ℕ) : ℕ :=
  (((listed E block).take k).flatMap (listedLogs E rs)).length

/-- The number of logs of the Ethereum responses before one. -/
def responsesBefore (E : Env) (rs : List (Option ExecTxResult)) (i m : ℕ) : ℕ :=
  (blockResponseLogs E (rs.take i)).length + ((responseLogs E rs[i]?.join).take m).flatten.length

def EvmLog.numbers (log : EvmLog) : ℕ × ℕ := (log.txIndex, log.index)

/-- **Messages and responses are counted alike.**  For each listed message with logs: if the
result succeeded, the results before take as many slots as there are messages listed before
and have as many logs.  A failed result with data is not renumbered, so its logs must come
with their numbers. -/
def CountsAgree (E : Env) (block : Block) (rs : List (Option ExecTxResult)) : Prop :=
  ∀ (k i m : ℕ) (res : ExecTxResult), (listed E block)[k]? = some (i, m) →
    rs[i]? = some (some res) → dataLogs E res.data m ≠ [] →
      if res.code = codeTypeOK then
        (firstSlot E rs i + m) % 2 ^ 64 = k ∧ responsesBefore E rs i m = listedBefore E rs block k
      else
        (dataLogs E res.data m).map EvmLog.numbers =
          numbersFrom k (listedBefore E rs block k) (dataLogs E res.data m).length

/-! ## The numbers normalisation gives -/

section Normalized

variable {E : Env} {input output : List (Option ExecTxResult)}

theorem dataLogs_eq_responseLogs {res : ExecTxResult} (hcode : res.code = codeTypeOK) (m : ℕ) :
    dataLogs E res.data m = (responseLogs E (some res))[m]?.getD [] := by
  rw [dataLogs, responseLogs, msgResponses]
  by_cases hdata : res.data = []
  · simp [hdata]
  · rw [if_neg hdata, if_neg (by simp [hcode, hdata])]
    cases E.unmarshalTxMsgData res.data with
    | error e => simp
    | ok d => rw [List.getElem?_map]

theorem length_blockResponseLogs
    (h : List.Forall₂ (fun res res' => (responseLogs E res').map List.length =
      (responseLogs E res).map List.length) input output) :
    (blockResponseLogs E output).length = (blockResponseLogs E input).length := by
  induction h with
  | nil => rfl
  | cons hres _ ih =>
    unfold blockResponseLogs at ih ⊢
    rw [List.flatMap_cons, List.flatMap_cons, List.length_append, List.length_append, ih,
      List.length_flatten, List.length_flatten, hres]

theorem responsesBefore_normalized (hlaws : PayloadLaws E)
    (h : normalizeTxResponseIndexes E input = .ok output) (i m : ℕ) :
    responsesBefore E output i m = responsesBefore E input i m := by
  have hlengths := normalizeResults_lengths hlaws h
  have hat : (responseLogs E output[i]?.join).map List.length =
      (responseLogs E input[i]?.join).map List.length := by
    cases hi : input[i]? with
    | none =>
      have hlen := hlengths.length_eq
      rw [List.getElem?_eq_none (by rw [← hlen]; exact List.getElem?_eq_none_iff.mp hi)]
    | some res =>
      obtain ⟨res', hres', heq⟩ := forall₂_getElem?_left hlengths hi
      rw [hres']
      exact heq
  unfold responsesBefore
  rw [length_blockResponseLogs (List.forall₂_take i hlengths), List.length_flatten,
    List.length_flatten, List.map_take, List.map_take, hat]

theorem blockResponseLogs_split {rs : List (Option ExecTxResult)} {i m : ℕ}
    {res : Option ExecTxResult} {logs : List EvmLog} (hi : rs[i]? = some res)
    (hm : (responseLogs E res)[m]? = some logs) :
    ∃ before after, blockResponseLogs E rs = before ++ (logs ++ after) ∧
      before.length = responsesBefore E rs i m := by
  refine ⟨blockResponseLogs E (rs.take i) ++ ((responseLogs E res).take m).flatten,
    ((responseLogs E res).drop (m + 1)).flatten ++ blockResponseLogs E (rs.drop (i + 1)), ?_, ?_⟩
  · have hgroups : (responseLogs E res).flatten = ((responseLogs E res).take m).flatten ++
        (logs ++ ((responseLogs E res).drop (m + 1)).flatten) := by
      rw [← List.flatten_cons, ← List.flatten_append, ← eq_take_append_cons_drop hm]
    have hresults : blockResponseLogs E rs = blockResponseLogs E (rs.take i) ++
        ((responseLogs E res).flatten ++ blockResponseLogs E (rs.drop (i + 1))) := by
      unfold blockResponseLogs
      conv_lhs => rw [eq_take_append_cons_drop hi]
      rw [List.flatMap_append, List.flatMap_cons]
    rw [hresults, hgroups]
    simp only [List.append_assoc]
  · rw [List.length_append, responsesBefore, hi]
    rfl

theorem numbers_normalized (hlaws : PayloadLaws E)
    (h : normalizeTxResponseIndexes E input = .ok output) {i : ℕ} {res : ExecTxResult}
    (hi : input[i]? = some (some res)) (m : ℕ) :
    (listedLogs E output (i, m)).length = (dataLogs E res.data m).length ∧
    (listedLogs E output (i, m)).map EvmLog.numbers =
      if res.code = codeTypeOK then
        numbersFrom ((firstSlot E input i + m) % 2 ^ 64) (responsesBefore E input i m)
          (dataLogs E res.data m).length
      else (dataLogs E res.data m).map EvmLog.numbers := by
  obtain ⟨res', hi', hsame⟩ := forall₂_getElem?_left (normalizeResults_same h) hi
  cases hsame with
  | @some _ res' hsame =>
    have hlisted : listedLogs E output (i, m) = dataLogs E res'.data m := by
      simp only [listedLogs, hi']
    rw [hlisted]
    by_cases hcode : res.code = codeTypeOK
    · have hcode' : res'.code = codeTypeOK := by rw [hsame.fields, ← hcode]
      rw [if_pos hcode, dataLogs_eq_responseLogs hcode, dataLogs_eq_responseLogs hcode']
      obtain ⟨-, -, hindex, hslot⟩ := normalizeResults_walk hlaws h
      obtain ⟨r, hr, hlengths⟩ := forall₂_getElem?_left (normalizeResults_lengths hlaws h) hi
      obtain rfl := Option.some.inj (hi'.symm.trans hr)
      have hlen : (responseLogs E (some res'))[m]?.map List.length =
          (responseLogs E (some res))[m]?.map List.length := by
        rw [← List.getElem?_map, ← List.getElem?_map, hlengths]
      cases hm : (responseLogs E (some res'))[m]? with
      | none =>
        rw [hm, Option.map_none, eq_comm, Option.map_eq_none_iff] at hlen
        rw [hlen]
        exact ⟨rfl, rfl⟩
      | some logs =>
        rw [hm, Option.map_some, eq_comm, Option.map_eq_some_iff] at hlen
        obtain ⟨logs₀, hm₀, hlen⟩ := hlen
        rw [hm₀, Option.getD_some, Option.getD_some]
        refine ⟨hlen.symm, ?_⟩
        obtain ⟨before, after, hsplit, hbefore⟩ := blockResponseLogs_split hi' hm
        have hgroups : [before, logs, after].flatten = blockResponseLogs E output := by
          simp [hsplit]
        rw [← hgroups, List.map_flatten, ← List.length_map (f := EvmLog.index),
          List.map_flatten, flatten_eq_range'_iff] at hindex
        have hlogs : logs.map (·.index) = List.range' before.length logs.length := by
          simpa using hindex 1 (logs.map (·.index)) rfl
        rw [hlen, ← responsesBefore_normalized hlaws h, ← hbefore]
        refine map_numbers_eq_iff.mpr ⟨fun log hlog => ?_, hlogs⟩
        simpa using hslot i (some res') m logs hi' hm log hlog
    · rw [if_neg hcode, hsame.unread (.inl hcode)]
      exact ⟨rfl, rfl⟩

end Normalized

/-! ## Without virtualisation -/

/-- The stored group of a listed message. -/
def groupAt (E : Env) (block : Block) (txResults : List (Option ExecTxResult)) (q : ℕ × ℕ) :
    List RPCLog :=
  match txResults[q.1]? with
  | some (some result) => nativeLogs E block result q.2
  | _ => []

section Plain

variable {E : Env} {kv : KVIndexer} {block : Block} {results : Option BlockResults}
  {txResults : List (Option ExecTxResult)} {st : IndexState}

theorem map_native_piecesAt {i : ℕ} {rawTx : Bytes} {result : ExecTxResult}
    (hresult : txResults[i]? = some (some result)) :
    (piecesAt E false block txResults i rawTx).map (·.native) =
      (listedAt E i rawTx).map (groupAt E block txResults) := by
  simp only [piecesAt, hresult, txPieces, listedAt, readResponse]
  cases E.txDecoder rawTx with
  | error e => rfl
  | ok tx =>
    simp only [Bool.false_eq_true, if_false, Option.map_none, Option.getD_none, List.append_nil,
      messagePieces]
    split_ifs
    · simp [messagePiece, groupAt, hresult, Function.comp_def]
    · rfl

/-- The pieces of a block without virtualisation are its listed messages. -/
theorem map_native_blockPieces
    (htxs : ∀ (i : ℕ) (rawTx : Bytes), block.txs[i]? = some rawTx →
      ∃ result, txResults[i]? = some (some result)) :
    (blockPieces E false block results txResults).map (·.native) =
      (listed E block).map (groupAt E block txResults) := by
  have hphase : phaseLogs E false results = ([], []) := by
    cases results <;> rfl
  have hat : ∀ e ∈ block.txs.zipIdx, (piecesAt E false block txResults e.2 e.1).map (·.native) =
      (listedAt E e.2 e.1).map (groupAt E block txResults) := by
    intro e he
    obtain ⟨result, hresult⟩ := htxs e.2 e.1 (List.mem_zipIdx_iff_getElem?.mp he)
    exact map_native_piecesAt hresult
  rw [blockPieces, hphase, listed]
  simp only [phasePieces, List.isEmpty_nil, if_true, List.nil_append, List.append_nil]
  rw [List.map_flatMap, List.map_flatMap, List.flatMap_def, List.flatMap_def,
    List.map_congr_left hat]

theorem StoresAll.map_logs {ps : List Piece} {es : List Entry} (h : StoresAll E false block ps es) :
    es.map (·.receipt.logs) = ps.map (·.native) := by
  refine List.ext_getElem (by simp [h.length]) fun k hk hk' => ?_
  rw [List.length_map] at hk hk'
  have hstored := h.stored k _ _ (List.getElem?_eq_getElem hk') (List.getElem?_eq_getElem hk)
  rw [List.getElem_map, List.getElem_map, hstored.logs]
  rfl

theorem StoresAll.map_logs_listed (h : buildBlock E kv block results = .ok st)
    (hnorm : normalizeTxResponseIndexes E (blockTxResults results) = .ok txResults) {es : List Entry}
    (hall : StoresAll E false block (blockPieces E false block results txResults) es) :
    es.map (·.receipt.logs) = (listed E block).map (groupAt E block txResults) :=
  hall.map_logs.trans (map_native_blockPieces (exists_result h hnorm))

theorem exists_decodeMsgLogs (h : buildBlock E kv block results = .ok st)
    (hnorm : normalizeTxResponseIndexes E (blockTxResults results) = .ok txResults) {i m : ℕ}
    (hlisted : (i, m) ∈ listed E block) :
    ∃ result, txResults[i]? = some (some result) ∧
      (result.data ≠ [] → ∃ logs, E.decodeMsgLogs result.data m block.height = .ok logs) := by
  obtain ⟨⟨rawTx, i'⟩, hraw, hmem⟩ := List.mem_flatMap.mp hlisted
  rw [List.mem_zipIdx_iff_getElem?] at hraw
  obtain ⟨t, t', hpass⟩ := exists_indexTx h hnorm hraw
  obtain ⟨result, tx, response, _, _, _, hresult, htx, -, hmsgs, -⟩ := indexTx_ok hpass
  simp only [listedAt, htx] at hmem
  split_ifs at hmem with heth
  · obtain ⟨m', hm, heq⟩ := List.mem_map.mp hmem
    obtain ⟨rfl, rfl⟩ := Prod.mk.inj heq
    refine ⟨result, hresult, fun hdata => ?_⟩
    obtain ⟨-, txs, -, hout⟩ := hmsgs.resolve_right (by simp [heth])
    obtain ⟨⟨msg, m''⟩, hmsg, hindex⟩ := List.mem_filterMap.mp hm
    obtain ⟨ethMsg, hethMsg, rfl⟩ := Option.map_eq_some_iff.mp hindex
    obtain ⟨s, s', hstep⟩ := exists_indexEthMsg hout (List.mem_zipIdx_iff_getElem?.mp hmsg) hethMsg
    obtain ⟨outcome, txData, own, sender, rpcTx, price, -, -, hown, -⟩ := indexEthMsg_ok hstep
    rw [ethMsgLogs, if_pos hdata] at hown
    obtain ⟨logs, hlogs, -⟩ := bind_eq_ok.mp hown
    rw [orBlockParseError_eq_ok] at hlogs
    exact ⟨logs, hlogs⟩
  · cases hmem

theorem map_numbers_groupAt (hdec : DecodeLaw E) (h : buildBlock E kv block results = .ok st)
    (hnorm : normalizeTxResponseIndexes E (blockTxResults results) = .ok txResults) {q : ℕ × ℕ}
    (hlisted : q ∈ listed E block) :
    (groupAt E block txResults q).map RPCLog.numbers =
      (listedLogs E txResults q).map EvmLog.numbers := by
  obtain ⟨i, m⟩ := q
  obtain ⟨result, hresult, hlogs⟩ := exists_decodeMsgLogs h hnorm hlisted
  simp only [groupAt, listedLogs, hresult, nativeLogs]
  by_cases hdata : result.data = []
  · simp [hdata, dataLogs]
  · obtain ⟨logs, hlogs⟩ := hlogs hdata
    have hnumbers := hdec.msgLogs result.data m block.height logs hdata hlogs
    rw [if_neg hdata, hlogs]
    simp only [wrapLogs, List.map_map]
    exact hnumbers

theorem logCount_groups (hlaws : PayloadLaws E) (hdec : DecodeLaw E)
    (h : buildBlock E kv block results = .ok st)
    (hnorm : normalizeTxResponseIndexes E (blockTxResults results) = .ok txResults) {es : List Entry}
    (hes : es.map (·.receipt.logs) = (listed E block).map (groupAt E block txResults)) (k : ℕ) :
    logCount (es.take k) = listedBefore E (blockTxResults results) block k := by
  have hlength : ∀ q ∈ (listed E block).take k, (groupAt E block txResults q).length =
      (listedLogs E (blockTxResults results) q).length := by
    intro q hq
    have hlisted := List.mem_of_mem_take hq
    have hnumbers := congrArg List.length (map_numbers_groupAt hdec h hnorm hlisted)
    rw [List.length_map, List.length_map] at hnumbers
    obtain ⟨result, hresult, -⟩ := exists_decodeMsgLogs h hnorm hlisted
    obtain ⟨res, hres, -⟩ := normalizeResults_getElem? hnorm hresult
    rw [hnumbers, (numbers_normalized hlaws hnorm hres q.2).1]
    simp only [listedLogs, hres]
  have htake : (es.take k).map (·.receipt.logs) =
      ((listed E block).take k).map (groupAt E block txResults) := by
    rw [List.map_take, hes, List.map_take]
  rw [logCount, listedBefore, List.flatMap_def, htake, List.length_flatten, List.map_map,
    List.length_flatMap]
  exact congrArg List.sum (List.map_congr_left hlength)

theorem numbersFrom_eq_iff {position position' index index' n : ℕ} (hn : n ≠ 0) :
    numbersFrom position index n = numbersFrom position' index' n ↔
      position = position' ∧ index = index' := by
  obtain ⟨n, rfl⟩ := Nat.exists_eq_succ_of_ne_zero hn
  constructor
  · intro h
    simp only [numbersFrom, Nat.succ_eq_add_one, List.range'_succ, List.map_cons, List.cons.injEq,
      Prod.mk.injEq] at h
    exact h.1
  · rintro ⟨rfl, rfl⟩
    rfl

/-- Without virtualisation the groups are identified exactly if the counts agree. -/
theorem logsIdentified_iff_countsAgree (hlaws : PayloadLaws E) (hdec : DecodeLaw E)
    (h : buildBlock E kv block results = .ok st)
    (hnorm : normalizeTxResponseIndexes E (blockTxResults results) = .ok txResults)
    {R : BlockRecords}
    (hes : R.entries.map (·.receipt.logs) = (listed E block).map (groupAt E block txResults)) :
    LogsIdentified R ↔ CountsAgree E block (blockTxResults results) := by
  -- one message: the numbers its group is stored with against the numbers it should have
  have hmessage : ∀ (k i m : ℕ) (res : ExecTxResult), (listed E block)[k]? = some (i, m) →
      (blockTxResults results)[i]? = some (some res) →
      (groupAt E block txResults (i, m)).map RPCLog.numbers =
          (if res.code = codeTypeOK then
            numbersFrom ((firstSlot E (blockTxResults results) i + m) % 2 ^ 64)
              (responsesBefore E (blockTxResults results) i m) (dataLogs E res.data m).length
          else (dataLogs E res.data m).map EvmLog.numbers) ∧
        (groupAt E block txResults (i, m)).length = (dataLogs E res.data m).length := by
    intro k i m res hk hres
    have hnumbers := map_numbers_groupAt hdec h hnorm (List.mem_of_getElem? hk)
    have hgiven := numbers_normalized hlaws hnorm hres m
    refine ⟨hnumbers.trans hgiven.2, ?_⟩
    rw [← hgiven.1, ← List.length_map (f := RPCLog.numbers), hnumbers, List.length_map]
  have hresult : ∀ (k i m : ℕ), (listed E block)[k]? = some (i, m) →
      ∃ res, (blockTxResults results)[i]? = some (some res) := by
    intro k i m hk
    obtain ⟨result, hresult, -⟩ := exists_decodeMsgLogs h hnorm (List.mem_of_getElem? hk)
    obtain ⟨res, hres, -⟩ := normalizeResults_getElem? hnorm hresult
    exact ⟨res, hres⟩
  have hentry : ∀ (k : ℕ) (e : Entry), R.entries[k]? = some e → ∃ q, (listed E block)[k]? = some q ∧
      e.receipt.logs = groupAt E block txResults q := by
    intro k e he
    have hk := congrArg (·[k]?) hes
    simp only [List.getElem?_map, he, Option.map_some] at hk
    obtain ⟨q, hq, heq⟩ := Option.map_eq_some_iff.mp hk.symm
    exact ⟨q, hq, heq.symm⟩
  rw [logsIdentified_iff]
  constructor
  · intro hall k i m res hk hres hne
    obtain ⟨e, he⟩ : ∃ e, R.entries[k]? = some e := by
      have hat := congrArg (·[k]?) hes
      simp only [List.getElem?_map, hk, Option.map_some] at hat
      obtain ⟨e, he, -⟩ := Option.map_eq_some_iff.mp hat
      exact ⟨e, he⟩
    obtain ⟨q, hq, hlogs⟩ := hentry k e he
    obtain rfl := Option.some.inj (hk.symm.trans hq)
    obtain ⟨hnumbers, hlength⟩ := hmessage k i m res hk hres
    have hat := hall k e he
    rw [hlogs, logCount_groups hlaws hdec h hnorm hes, hnumbers, hlength] at hat
    by_cases hcode : res.code = codeTypeOK
    · rw [if_pos hcode] at hat ⊢
      exact (numbersFrom_eq_iff (by simpa using hne)).mp hat
    · rw [if_neg hcode] at hat ⊢
      exact hat
  · intro hagree k e he
    obtain ⟨⟨i, m⟩, hk, hlogs⟩ := hentry k e he
    obtain ⟨res, hres⟩ := hresult k i m hk
    obtain ⟨hnumbers, hlength⟩ := hmessage k i m res hk hres
    rw [hlogs, logCount_groups hlaws hdec h hnorm hes, hnumbers, hlength]
    by_cases hne : dataLogs E res.data m = []
    · simp [hne, numbersFrom]
    · have hat := hagree k i m res hk hres hne
      by_cases hcode : res.code = codeTypeOK
      · rw [if_pos hcode] at hat ⊢
        exact (numbersFrom_eq_iff (by simpa using hne)).mpr hat
      · rw [if_neg hcode] at hat ⊢
        exact hat

end Plain

/-- **Block-wide log identity.**  The logs of an indexed block are numbered from zero without
gaps, each with the position of its receipt, exactly if the loop numbers them itself or the
two counts agree. -/
theorem logs_identified_iff {E : Env} {kv : KVIndexer} {db db' : DB} {block : Block}
    {results : Option BlockResults} (hlaws : PayloadLaws E) (hdec : DecodeLaw E)
    (h : indexBlock E kv db block results = .ok db') :
    ∃ R : BlockRecords, R.block = block ∧ Holds db' R ∧
      (LogsIdentified R ↔ kv.virtualizationEnabled = true ∨
        CountsAgree E block (blockTxResults results)) := by
  obtain ⟨R, st, txResults, hblock, hholds, hst, hnorm, hall, -⟩ := indexBlock_stores h
  refine ⟨R, hblock, hholds, ?_⟩
  cases hkv : kv.virtualizationEnabled with
  | true =>
    rw [hkv] at hall
    simp [hall.logsIdentified]
  | false =>
    rw [hkv] at hall
    rw [logsIdentified_iff_countsAgree hlaws hdec hst hnorm
      (StoresAll.map_logs_listed hst hnorm hall)]
    simp

/-! ## A failure that takes no slot -/

/-- An environment in which the data of a result are one Ethereum response with one log, and
logs are decoded from it. -/
def Env.identifying : Env where
  __ := Env.numbering
  decodeMsgLogs := fun data m height => .ok ((dataLogs .numbering data m).map fun log =>
    { address := 0, topics := [], data := [], blockNumber := height, txIndex := log.txIndex,
      index := log.index })

theorem Env.identifying_laws : PayloadLaws Env.identifying :=
  ⟨Env.numbering_laws.txMsgData, Env.numbering_laws.response, Env.numbering_laws.empty⟩

theorem Env.identifying_decodes : DecodeLaw Env.identifying where
  msgLogs := by
    intro data m height logs _ h
    obtain rfl := Except.ok.inj h
    rw [List.map_map]
    rfl

/-- The second transaction is included at position 1 and has a log; the first one has the given
result. -/
def sampleBehind (first : ExecTxResult) : BlockResults where
  height := 1
  txResults := [
    some first,
    some {
      data := [1, 9, 9]
      events := [⟨"ethereum_tx", [⟨"ethereumTxHash", "0x02", false⟩, ⟨"txIndex", "1", false⟩]⟩] }]

/-- A first transaction that failed before execution and left its event. -/
def sampleFailedWithEvent : ExecTxResult where
  code := 5
  codespace := "sdk"
  events := [⟨"ethereum_tx", [⟨"ethereumTxHash", "0x01", false⟩, ⟨"txIndex", "0", false⟩]⟩]

/-- A failed transaction that left its event, and one with a log behind it. -/
theorem logs_identified_iff_event :
    ∃ db, indexBlock .identifying {} ∅ sampleTwoTxs (some (sampleBehind sampleFailedWithEvent)) =
      .ok db ∧
      ∃ R : BlockRecords, R.block = sampleTwoTxs ∧ Holds db R ∧
        (LogsIdentified R ↔ (false = true) ∨
          CountsAgree .identifying sampleTwoTxs (sampleBehind sampleFailedWithEvent).txResults) :=
  ⟨_, rfl, @logs_identified_iff .identifying {} ∅ _ sampleTwoTxs
    (some (sampleBehind sampleFailedWithEvent)) Env.identifying_laws Env.identifying_decodes rfl⟩

/-- **A failure outside the EVM takes a receipt and no slot.**  Behind a transaction that failed
before execution and left no event, the log of the receipt at position 1 has position 0. -/
theorem failure_shifts_log_position :
    ∃ db r log, indexBlock .identifying {} ∅ sampleTwoTxs
        (some (sampleBehind { code := 5, codespace := "sdk" })) = .ok db ∧
      db.get? (.receipt 2) = some r ∧ r.transactionIndex = 1 ∧ r.logs = [log] ∧ log.txIndex = 0 ∧
      log.index = 0 :=
  ⟨_, _, _, rfl, rfl, rfl, rfl, rfl, rfl⟩

end EvmGateway