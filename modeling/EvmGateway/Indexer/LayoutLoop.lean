import EvmGateway.Indexer.Layout
import EvmGateway.Indexer.Lookup
import EvmGateway.Virtual.Synthetic

/-!
# The indexing loop stores the layout

The loop finds the events of a message and the events of no Ethereum message by two
different tests.  They are two readings of one assignment of events to slots
(`belongsToMessage_iff`, `belongsToNonEthereumMessage_iff`), so the loop stores the
pieces of the block one by one (`buildBlock_stores`).
-/

namespace EvmGateway

open Lib

variable {msgs : List Msg} {i k : ℕ} {entry : ResponseEntry} {response : Option Response}
  {results : Option BlockResults} {r : Response} {result : ExecTxResult} {hash : Hash} {E : Env}
  {gas : UInt64} {ctx : TxContext} {hooks : List HookEntry}

/-! ## Two tests, one assignment -/

theorem eventMessage_mem (h : eventMessage msgs entry = some i) : i ∈ ethMsgIndexes msgs := by
  unfold eventMessage at h
  cases hindex : entry.msgIndex with
  | some j =>
    simp only [hindex, Option.ite_none_right_eq_some, Option.some.injEq] at h
    exact h.2 ▸ h.1
  | none =>
    simp only [hindex, Option.ite_none_right_eq_some, Option.some.injEq] at h
    exact h.2 ▸ h.1.2

/-- The test for the events of an Ethereum message. -/
theorem belongsToMessage_iff (hi : i ∈ ethMsgIndexes msgs) :
    belongsToMessage entry.msgIndex i msgs.length = true ↔ eventMessage msgs entry = some i := by
  unfold belongsToMessage eventMessage
  cases entry.msgIndex with
  | some j =>
    by_cases hj : j = i
    · subst hj
      simp [hi]
    · by_cases hmem : j ∈ ethMsgIndexes msgs <;> simp [hj, hmem]
  | none =>
    by_cases hzero : i = 0
    · subst hzero
      simp [hi]
    · have hne : ¬(0 = i) := fun h => hzero h.symm
      by_cases hone : msgs.length = 1 ∧ 0 ∈ ethMsgIndexes msgs <;> simp [hzero, hne, hone]

theorem belongsToNonEthereumMessage_iff :
    belongsToNonEthereumMessage entry.msgIndex (ethMsgIndexes msgs) msgs.length = true ↔
      eventMessage msgs entry = none := by
  unfold belongsToNonEthereumMessage eventMessage
  cases entry.msgIndex with
  | some j => simp
  | none =>
    simp
    tauto

theorem eventSlot_eq_message :
    eventSlot msgs entry k = .message i ↔ eventMessage msgs entry = some i := by
  unfold eventSlot
  cases eventMessage msgs entry with
  | some j => simp
  | none => by_cases hhook : entry.hook.isSome = true <;> simp [hhook]

theorem eventSlot_eq_bank :
    eventSlot msgs entry k = .bank ↔ eventMessage msgs entry = none ∧ entry.hook = none := by
  unfold eventSlot
  cases eventMessage msgs entry with
  | some j => simp
  | none => cases entry.hook <;> simp

theorem eventSlot_eq_hook {j : ℕ} :
    eventSlot msgs entry k = .hook j ↔
      eventMessage msgs entry = none ∧ entry.hook.isSome = true ∧ k = j := by
  unfold eventSlot
  cases eventMessage msgs entry with
  | some j => simp
  | none => cases entry.hook <;> simp

theorem map_fst_filter_entries {p : ResponseEntry × ℕ → Prop} [DecidablePred p]
    {q : ResponseEntry → Bool} (h : ∀ e k, p (e, k) ↔ q e = true) :
    (r.entries.zipIdx.filter fun e => p e).map Prod.fst = r.entries.filter q := by
  rw [← map_fst_filter_zipIdx q r.entries 0]
  congr 2
  funext e
  rw [Bool.eq_iff_iff, decide_eq_true_eq]
  exact h e.1 e.2

theorem filter_belongsToMessage (hi : i ∈ ethMsgIndexes msgs) :
    (r.entries.filter fun entry => belongsToMessage entry.msgIndex i msgs.length) =
      (slotEvents msgs r (.message i)).map Prod.fst :=
  (map_fst_filter_entries fun _ _ => eventSlot_eq_message.trans (belongsToMessage_iff hi).symm).symm

/-- The test the loop chooses the events of synthetic transactions by. -/
def syntheticTest (msgs : List Msg) (event : ResponseEntry) : Bool :=
  !event.logs.isEmpty &&
    belongsToNonEthereumMessage event.msgIndex (ethMsgIndexes msgs) msgs.length

theorem syntheticTest_iff {event : ResponseEntry} :
    syntheticTest msgs event = true ↔ event.logs ≠ [] ∧ eventMessage msgs event = none := by
  rw [syntheticTest, Bool.and_eq_true, belongsToNonEthereumMessage_iff]
  simp

theorem filter_bank (msgs : List Msg) (r : Response) :
    ((r.entries.filter (syntheticTest msgs)).filter (·.hook.isNone)) =
      ((slotEvents msgs r .bank).map Prod.fst).filter fun event => !event.logs.isEmpty := by
  have hslot : (slotEvents msgs r .bank).map Prod.fst = r.entries.filter fun entry =>
      decide (eventMessage msgs entry = none ∧ entry.hook = none) :=
    map_fst_filter_entries fun _ _ => eventSlot_eq_bank.trans (by rw [decide_eq_true_eq])
  rw [hslot, List.filter_filter, List.filter_filter]
  congr 1
  funext entry
  rw [Bool.eq_iff_iff]
  simp only [Bool.and_eq_true, syntheticTest_iff, decide_eq_true_eq, Option.isNone_iff_eq_none,
    Bool.not_eq_true', List.isEmpty_eq_false_iff]
  tauto

/-- What parsing guarantees of an entry: a hook has logs and the message of its event. -/
def ResponseEntry.WellFormed (entry : ResponseEntry) : Prop :=
  ∀ hook, entry.hook = some hook → entry.logs ≠ [] ∧ hook.msgIndex = entry.msgIndex

/-- A hook ends in its summary log. -/
theorem Ibc.ethereumLogs_ne_nil {call : Ibc.HookCall} {logs : List EthLog}
    (h : Ibc.ethereumLogs E call = .ok logs) : logs ≠ [] := by
  unfold Ibc.ethereumLogs at h
  cases hindex : call.msgIndex with
  | none => simp [hindex] at h
  | some i =>
    simp only [hindex] at h
    obtain ⟨data, -, h⟩ := bind_eq_ok.mp h
    obtain rfl := Except.ok.inj h
    simp

theorem parseEntry_wellFormed {event : Event} (h : parseEntry E event i = .ok (some entry)) :
    entry.WellFormed := by
  unfold parseEntry at h
  obtain ⟨bank, -, h⟩ := bind_eq_ok.mp h
  cases bank with
  | some bankEvents =>
    obtain ⟨logs, -, h⟩ := bind_eq_ok.mp h
    obtain rfl := Option.some.inj (Except.ok.inj h)
    exact fun hook hhook => nomatch hhook
  | none =>
    obtain ⟨hook, -, h⟩ := bind_eq_ok.mp h
    cases hook with
    | none => cases Except.ok.inj h
    | some hook =>
      obtain ⟨logs, hlogs, h⟩ := bind_eq_ok.mp h
      obtain rfl := Option.some.inj (Except.ok.inj h)
      intro hook' hhook
      obtain rfl := Option.some.inj hhook
      refine ⟨?_, rfl⟩
      rw [wrapErr_eq_ok] at hlogs
      exact Ibc.ethereumLogs_ne_nil hlogs

/-- The hooks of no Ethereum message are those of the hook slots. -/
theorem filter_hooks (hr : ∀ entry ∈ r.entries, entry.WellFormed) :
    ((r.entries.filter (syntheticTest msgs)).filter fun event => event.hook.isSome) =
      (hookEvents msgs r).map Prod.fst := by
  have hslot : (hookEvents msgs r).map Prod.fst = r.entries.filter fun entry =>
      decide (eventMessage msgs entry = none ∧ entry.hook.isSome = true) :=
    map_fst_filter_entries fun _ _ => by
      rw [eventSlot_eq_hook, decide_eq_true_eq]
      simp
  rw [hslot, List.filter_filter]
  refine List.filter_congr fun entry hentry => ?_
  rw [Bool.eq_iff_iff]
  simp only [Bool.and_eq_true, syntheticTest_iff, decide_eq_true_eq]
  constructor
  · exact fun h => ⟨h.2.2, h.1⟩
  · rintro ⟨hnone, hhook⟩
    obtain ⟨hook, hhook'⟩ := Option.isSome_iff_exists.mp hhook
    exact ⟨hhook, (hr entry hentry hook hhook').1, hnone⟩

theorem parseResponse_wellFormed (h : parseResponse E result = .ok r) :
    ∀ entry ∈ r.entries, entry.WellFormed := by
  unfold parseResponse at h
  obtain ⟨entries, hentries, h⟩ := bind_eq_ok.mp h
  obtain rfl := Except.ok.inj h
  refine forIdx_induction (fun _ out => ∀ entry ∈ out, ResponseEntry.WellFormed entry) _ 0 []
    entries (by simp) ?_ hentries
  intro j event out out' _ hout hstep
  obtain ⟨parsed, hparsed, hstep⟩ := bind_eq_ok.mp hstep
  cases parsed with
  | none =>
    obtain rfl := Except.ok.inj hstep
    exact hout
  | some entry =>
    obtain rfl := Except.ok.inj hstep
    intro e he
    rcases List.mem_append.mp he with he | he
    · exact hout e he
    · obtain rfl := List.mem_singleton.mp he
      exact parseEntry_wellFormed hparsed

theorem bank_isEmpty (msgs : List Msg) (r : Response) :
    ((r.entries.filter (syntheticTest msgs)).filter (·.hook.isNone)).isEmpty =
      !hasBankLogs msgs r := by
  rw [filter_bank, hasBankLogs, Bool.eq_iff_iff, List.isEmpty_iff, List.filter_eq_nil_iff]
  simp

theorem rpcLogs_of_isEmpty (h : entry.logs.isEmpty = true) (cosmosHash : Option Hash) :
    entry.rpcLogs cosmosHash = [] := by
  have hnil : entry.logs = [] := List.isEmpty_iff.mp h
  unfold ResponseEntry.rpcLogs
  cases entry.hook <;> simp [hnil, wrapLogs]

/-- Events without logs add nothing to the bank slot. -/
theorem flatMap_bank (msgs : List Msg) (r : Response) (cosmosHash : Option Hash) :
    ((r.entries.filter (syntheticTest msgs)).filter (·.hook.isNone)).flatMap
        (·.rpcLogs cosmosHash) = eventLogs msgs r .bank cosmosHash := by
  have hfilter : ∀ l : List ResponseEntry,
      (l.filter fun event => !event.logs.isEmpty).flatMap (·.rpcLogs cosmosHash) =
        l.flatMap (·.rpcLogs cosmosHash) := by
    intro l
    induction l with
    | nil => rfl
    | cons event l ih =>
      cases hempty : event.logs.isEmpty with
      | true => simp [hempty, ih, rpcLogs_of_isEmpty hempty]
      | false => simp [hempty, ih]
  rw [filter_bank, hfilter, eventLogs, List.flatMap_map]

/-! ## Sorted hooks -/

theorem sortedHooks_eq (msgs : List Msg) (r : Response) :
    sortedHooks msgs r = (hookEvents msgs r).insertionSort fun a b =>
      a.1.msgIndex.getD 0 ≤ b.1.msgIndex.getD 0 := by
  refine insertionSort_congr ((pairwise_snd_filter_zipIdx _ _ _).imp fun {a b} hab => ?_)
  unfold HookBefore
  omega

/-- The gas taken by the hooks of the loop is that of their events. -/
theorem foldl_accountGas_of {sorted : List (ResponseEntry × ℕ)}
    (h : List.Forall₂ (fun e => HookEntry.Of e.1) sorted hooks) (gas : UInt64) :
    hooks.foldl (fun gas h => accountGas gas h.hook.gasUsed) gas =
      sorted.foldl (fun gas e => accountGas gas (hookGas e)) gas := by
  induction h generalizing gas with
  | nil => rfl
  | cons hof _ ih =>
    rw [List.foldl_cons, List.foldl_cons, ih, hookGas, hof.2.2]
    rfl

/-- The hooks the loop numbers are the sorted ones. -/
theorem indexedHooks_sorted {total : ℕ} (hr : ∀ entry ∈ r.entries, entry.WellFormed)
    (h : indexedHooks total ((r.entries.filter (syntheticTest msgs)).filterMap fun event =>
      event.hook.map (Prod.mk event)) = .ok hooks) :
    List.Forall₂ (fun e => HookEntry.Of e.1) (sortedHooks msgs r)
      (hooks.insertionSort fun a b => a.msgIndex ≤ b.msgIndex) := by
  have hsorted := forall₂_insertionSort_of (indexedHooks_ok h)
  have hmap := List.map_insertionSort
    (fun a b : ResponseEntry × ℕ => a.1.msgIndex.getD 0 ≤ b.1.msgIndex.getD 0)
    (fun a b : ResponseEntry => a.msgIndex.getD 0 ≤ b.msgIndex.getD 0) Prod.fst (hookEvents msgs r)
    fun _ _ _ _ => Iff.rfl
  rw [filter_hooks hr, ← hmap, ← sortedHooks_eq, List.forall₂_map_left_iff] at hsorted
  exact hsorted

/-! ## Synthetic transactions -/

def SyntheticFrom (E : Env) (block : Block) : ℕ → ℕ → List Piece → List VirtualTx → Prop
  | _, _, [], [] => True
  | position, logIndex, p :: ps, tx :: txs =>
    p.Stored E true block position logIndex (virtualEntry E tx) ∧
      SyntheticFrom E block (position + 1) (logIndex + tx.receipt.logs.length) ps txs
  | _, _, _, _ => False

section Synthetic

variable {E : Env} {block : Block} {r : Response}

theorem bankTx_stored (hctx : ctx.In block) (txIndex : ℕ) {events : List ResponseEntry}
    {logs : List RPCLog} {cumulative : ℕ}
    (hlogs : events.flatMap (·.rpcLogs (some (originalCosmosTxHash E ctx.tx))) = logs)
    (hgas : ctx.cumulativeGasUsedBefore + gas = UInt64.ofNat cumulative) :
    Piece.Stored E true block ctx.txIndex ctx.firstLogIndex
      { slot := .tx txIndex .bank
        events := logs
        cosmosHash := some (originalCosmosTxHash E ctx.tx)
        cumulative := cumulative }
      (virtualEntry E (r.syntheticTx E ctx events none hash gas)) where
  names := ⟨rfl, rfl, rfl, rfl⟩
  cumulative := hgas
  logs := by
    subst hlogs
    obtain ⟨hhash, hheight⟩ := hctx
    simp only [Piece.logs, if_true, List.nil_append, Piece.logContext, ← hhash, ← hheight]
    rfl

theorem hookTx_stored (hctx : ctx.In block) (txIndex : ℕ) {e : ResponseEntry × ℕ} {h : HookEntry}
    (hof : HookEntry.Of e.1 h) {cumulative : ℕ}
    (hgas : ctx.cumulativeGasUsedBefore + h.hook.gasUsed = UInt64.ofNat cumulative) :
    Piece.Stored E true block ctx.txIndex ctx.firstLogIndex
      { slot := .tx txIndex (.hook e.2)
        events := e.1.rpcLogs (some (originalCosmosTxHash E ctx.tx))
        cosmosHash := some (originalCosmosTxHash E ctx.tx)
        hook := e.1.hook
        cumulative := cumulative }
      (virtualEntry E (r.syntheticTx E ctx [h.entry] (some h.hook) hash h.hook.gasUsed)) where
  names := by
    obtain ⟨-, -, hhook⟩ := hof
    simp only [Piece.Names, hhook]
    exact ⟨rfl, rfl, rfl, rfl⟩
  cumulative := hgas
  logs := by
    obtain ⟨hentry, -, -⟩ := hof
    obtain ⟨hhash, hheight⟩ := hctx
    simp only [Piece.logs, if_true, List.nil_append, Piece.logContext, ← hhash, ← hheight]
    rw [← hentry]
    simp only [virtualEntry, cachedVirtualReceipt, buildCachedReceipt, Response.syntheticTx,
      List.flatMap_cons, List.flatMap_nil, List.append_nil]
    rfl

theorem hookTxs_stored {perMessage : ℕ → ℕ} (ctx : TxContext) (txIndex : ℕ)
    {sorted : List (ResponseEntry × ℕ)}
    (hhooks : List.Forall₂ (fun e => HookEntry.Of e.1) sorted hooks) (previous : Option ℕ)
    (ordinal before : ℕ) (hctx : ctx.In block)
    (hgas : ctx.cumulativeGasUsedBefore = UInt64.ofNat before) :
    SyntheticFrom E block ctx.txIndex ctx.firstLogIndex (hookPieces E txIndex ctx.tx before sorted)
      (r.hookTxs E perMessage ctx previous ordinal hooks) := by
  induction hhooks generalizing ctx previous ordinal before with
  | nil => trivial
  | @cons e h sorted hooks hof _ ih =>
    have hgas' : ctx.cumulativeGasUsedBefore + h.hook.gasUsed =
        UInt64.ofNat (before + (hookGas e).toNat) := by
      rw [hgas, UInt64.ofNat_add, hookGas, hof.2.2]
      simp
    refine ⟨hookTx_stored hctx txIndex hof hgas', ?_⟩
    exact ih (ctx.advance _) _ _ _ hctx hgas'

/-- **The synthetic transactions of a response hold the synthetic pieces.** -/
theorem syntheticTxs_stored {rawTx : Bytes} (txIndex : ℕ) {before gas : ℕ} {txs : List VirtualTx}
    (hr : ∀ entry ∈ r.entries, entry.WellFormed) (hctx : ctx.In block) (htx : ctx.tx = rawTx)
    (hindexes : ctx.ethereumMessageIndexes = ethMsgIndexes msgs)
    (htotal : ctx.totalMessages = msgs.length) (hgas : ctx.ethereumGasUsed = UInt64.ofNat gas)
    (hbefore : ctx.cumulativeGasUsedBefore = UInt64.ofNat before)
    (h : r.syntheticTxs E ctx = .ok txs) :
    SyntheticFrom E block ctx.txIndex ctx.firstLogIndex
      (syntheticPieces E txIndex rawTx msgs r before gas) txs := by
  subst htx
  have htest : (fun event : ResponseEntry => !event.logs.isEmpty &&
      belongsToNonEthereumMessage event.msgIndex ctx.ethereumMessageIndexes ctx.totalMessages) =
      syntheticTest msgs := by
    funext event
    rw [hindexes, htotal, syntheticTest]
  have hhooks : ((r.entries.filter (syntheticTest msgs)).filterMap fun event =>
      event.hook.map (Prod.mk event)).isEmpty = true ↔ sortedHooks msgs r = [] := by
    rw [List.isEmpty_iff, List.filterMap_eq_nil_iff, ← List.length_eq_zero_iff (l := sortedHooks _ _),
      sortedHooks, List.length_insertionSort, ← List.length_map Prod.fst, ← filter_hooks hr,
      List.length_eq_zero_iff, List.filter_eq_nil_iff]
    simp
  have hbank := bank_isEmpty msgs r
  have hlogs := flatMap_bank msgs r (some (originalCosmosTxHash E ctx.tx))
  unfold Response.syntheticTxs at h
  simp only [htest] at h
  rw [syntheticPieces]
  by_cases hnone : sortedHooks msgs r = []
  · rw [if_pos hnone, bankPieces]
    rw [if_pos (hhooks.mpr hnone)] at h
    cases hhas : hasBankLogs msgs r with
    | false =>
      rw [hhas, Bool.not_false] at hbank
      rw [if_pos hbank] at h
      obtain rfl := Except.ok.inj h
      trivial
    | true =>
      rw [hhas, Bool.not_true] at hbank
      rw [if_neg (by rw [hbank]; exact Bool.false_ne_true)] at h
      obtain rfl := Except.ok.inj h
      refine ⟨bankTx_stored hctx txIndex hlogs ?_, trivial⟩
      rw [hbefore, UInt64.ofNat_add]
      simp
  · rw [if_neg hnone]
    rw [if_neg fun h => hnone (hhooks.mp h)] at h
    obtain ⟨hooks, hok, h⟩ := bind_eq_ok.mp h
    have hsorted := indexedHooks_sorted hr hok
    let start : TxContext :=
      { ctx with cumulativeGasUsedBefore := ctx.cumulativeGasUsedBefore + ctx.ethereumGasUsed }
    have hstart : start.cumulativeGasUsedBefore = UInt64.ofNat (before + gas) := by
      change ctx.cumulativeGasUsedBefore + ctx.ethereumGasUsed = _
      rw [hbefore, hgas, UInt64.ofNat_add]
    cases hhas : hasBankLogs msgs r with
    | false =>
      rw [hhas, Bool.not_false] at hbank
      rw [if_pos hbank] at h
      obtain rfl := Except.ok.inj h
      simp only [bankPieces, hhas, Bool.false_eq_true, if_false, List.nil_append, Nat.add_zero]
      exact hookTxs_stored start txIndex hsorted none 0 (before + gas) hctx hstart
    | true =>
      rw [hhas, Bool.not_true] at hbank
      rw [if_neg (by rw [hbank]; exact Bool.false_ne_true)] at h
      obtain rfl := Except.ok.inj h
      simp only [bankPieces, hhas, if_true, List.singleton_append]
      have hcum : start.cumulativeGasUsedBefore +
          (hooks.insertionSort (·.msgIndex ≤ ·.msgIndex)).foldl
            (fun gas h => accountGas gas h.hook.gasUsed)
            (accountGas r.gasUsed ctx.ethereumGasUsed) =
          UInt64.ofNat (before + gas + bankGas msgs r gas) := by
        rw [hstart, UInt64.ofNat_add (before + gas), foldl_accountGas_of hsorted, hgas, bankGas,
          UInt64.ofNat_toNat]
      refine ⟨bankTx_stored (show start.In block from hctx) txIndex hlogs hcum, ?_⟩
      exact hookTxs_stored (start.advance _) txIndex hsorted none 0 _ hctx hcum

end Synthetic

/-! ## The loop invariant -/

/-- The state keeps the entries, and the entries hold the pieces. -/
structure Stores (E : Env) (kv : KVIndexer) (block : Block) (ps : List Piece) (st : IndexState)
    (es : List Entry) : Prop where
  tracks : Tracks kv block st es
  all : StoresAll E kv.virtualizationEnabled block ps es
  logIndex : kv.virtualizationEnabled = true → st.logIndex = logCount es

theorem logCount_concat (es : List Entry) (e : Entry) :
    logCount (es ++ [e]) = logCount es + e.receipt.logs.length := by
  simp [logCount]

theorem StoresAll.concat {virtualize : Bool} {block : Block} {ps : List Piece} {es : List Entry}
    (h : StoresAll E virtualize block ps es) {p : Piece} {e : Entry}
    (hp : p.Stored E virtualize block es.length (logCount es) e) :
    StoresAll E virtualize block (ps ++ [p]) (es ++ [e]) where
  length := by simp [h.length]
  stored := by
    intro k p' e' hp' he'
    by_cases hlt : k < es.length
    · rw [List.getElem?_append_left (by rw [h.length]; exact hlt)] at hp'
      rw [List.getElem?_append_left hlt] at he'
      rw [List.take_append_of_le_length hlt.le]
      exact h.stored k p' e' hp' he'
    · obtain rfl : k = es.length := by
        have hk := (List.getElem?_eq_some_iff.mp he').1
        simp only [List.length_append, List.length_singleton] at hk
        omega
      rw [List.getElem?_concat_length] at he'
      rw [← h.length, List.getElem?_concat_length] at hp'
      obtain rfl := Option.some.inj he'
      obtain rfl := Option.some.inj hp'
      rw [List.take_left]
      exact hp

namespace Stores

variable {E : Env} {kv : KVIndexer} {block : Block} {ps : List Piece} {st st' : IndexState}
  {es : List Entry}

theorem init (E : Env) (kv : KVIndexer) (block : Block) : Stores E kv block [] {} [] where
  tracks := Tracks.init kv block
  all := ⟨rfl, by simp⟩
  logIndex := fun _ => rfl

theorem push (h : Stores E kv block ps st es) {p : Piece} {e : Entry}
    (hp : p.Stored E kv.virtualizationEnabled block es.length (logCount es) e)
    (hat : e.At block es.length (es.countP Entry.isEth))
    (hplain : kv.virtualizationEnabled = false → e.isEth = true) :
    Stores E kv block (ps ++ [p]) (st.push kv block.height e) (es ++ [e]) where
  tracks := h.tracks.push hat hplain
  all := h.all.concat hp
  logIndex := by
    intro hkv
    rw [logCount_concat, ← h.logIndex hkv]
    simp [IndexState.push, hkv]

theorem addGas (h : Stores E kv block ps st es) (gas : UInt64) :
    Stores E kv block ps (st.addGas gas) es where
  tracks := h.tracks.addGas gas
  all := h.all
  logIndex := h.logIndex

/-- Storing synthetic transactions that hold the next pieces. -/
theorem storeVirtualTxs (h : Stores E kv block ps st es) (hkv : kv.virtualizationEnabled = true)
    {qs : List Piece} {txs : List VirtualTx}
    (hq : SyntheticFrom E block es.length (logCount es) qs txs)
    (hcons : ConsecutiveFrom block es.length txs) :
    Stores E kv block (ps ++ qs) (txs.foldl (IndexState.storeVirtualTx E kv block) st)
      (es ++ txs.map (virtualEntry E)) := by
  induction txs generalizing st es ps qs with
  | nil =>
    cases qs with
    | nil => simpa using h
    | cons q qs => exact hq.elim
  | cons tx txs ih =>
    cases qs with
    | nil => exact hq.elim
    | cons q qs =>
      obtain ⟨hstored, hrest⟩ := hq
      have hpush := h.push (p := q) (e := virtualEntry E tx) (by rw [hkv]; exact hstored)
        ((hcons 0 tx rfl).entry _) fun hoff => by rw [hkv] at hoff; cases hoff
      rw [← storeVirtualTx_eq_push E hkv] at hpush
      have hend := ih hpush (by
          rw [logCount_concat, List.length_append, List.length_singleton]
          exact hrest) (by
          intro k tx' hk
          rw [List.length_append, List.length_singleton,
            show es.length + 1 + k = es.length + (k + 1) by omega]
          exact hcons (k + 1) tx' hk)
      rwa [List.append_assoc, List.singleton_append, List.append_assoc, List.singleton_append] at hend

end Stores

/-! ## Messages -/

theorem setLogMetadata_append (own more : List RPCLog) (ctx : LogContext) :
    setLogMetadata (own ++ more) ctx = setLogMetadata own ctx ++
      setLogMetadata more { ctx with firstLogIndex := ctx.firstLogIndex + own.length } := by
  rw [setLogMetadata, List.mapIdx_append]
  congr 1
  simp only [setLogMetadata, RPCLog.withMetadata, Nat.add_comm, Nat.add_left_comm]

section Messages

variable {E : Env} {kv : KVIndexer} {block : Block} {result : ExecTxResult} {tx : SdkTx}
  {txIndex msgIndex : ℕ} {ethMsg : MsgEthereumTx} {msg : Msg}

theorem ethMsgOutcome_gasUsed {ethTxIndex : ℕ} {out : EthOutcome}
    (hmsg : msg.ethereum? = some ethMsg)
    (h : ethMsgOutcome E block result (parsedTxs E tx result) txIndex msgIndex ethTxIndex ethMsg =
      .ok out) : out.gasUsed = UInt64.ofNat (chargedGas E tx result msgIndex msg) := by
  unfold ethMsgOutcome at h
  simp only [chargedGas, hmsg]
  split_ifs at h ⊢ with hcode
  · obtain rfl := Except.ok.inj h
    simp
  · cases hp : (parsedTxs E tx result).getTxByMsgIndex msgIndex with
    | none => simp [hp] at h
    | some parsedTx =>
      simp only [hp] at h
      split_ifs at h
      obtain rfl := Except.ok.inj h
      simp

theorem chargedBefore_succ (h : tx.msgs[msgIndex]? = some msg) :
    chargedBefore E tx result (msgIndex + 1) =
      chargedBefore E tx result msgIndex + chargedGas E tx result msgIndex msg := by
  simp [chargedBefore, List.take_add_one, h]

theorem ethMsgLogs_eq {failed : Bool} {own : List RPCLog}
    (h : ethMsgLogs E block result txIndex msgIndex failed = .ok own) :
    own = nativeLogs E block result msgIndex := by
  unfold ethMsgLogs at h
  unfold nativeLogs
  by_cases hdata : result.data = []
  · rw [if_pos hdata]
    rw [if_neg (not_not_intro hdata)] at h
    split_ifs at h
    exact (Except.ok.inj h).symm
  · rw [if_neg hdata]
    rw [if_pos hdata] at h
    obtain ⟨logs, hlogs, h⟩ := bind_eq_ok.mp h
    rw [orBlockParseError_eq_ok] at hlogs
    rw [hlogs]
    exact (Except.ok.inj h).symm

/-- The logs stored for a message are those of its piece. -/
theorem messageLogs_eq {st : IndexState} {before logIndex : ℕ}
    (hi : msgIndex ∈ ethMsgIndexes tx.msgs)
    (hresponse : response = readResponse E kv.virtualizationEnabled result)
    (hvirtual : kv.virtualizationEnabled = true → response.isSome = true ∧ st.logIndex = logIndex) :
    st.messageLogs kv block response hash msgIndex tx.msgs.length
        (nativeLogs E block result msgIndex) =
      (messagePiece E block txIndex tx result response before msgIndex).logs
        kv.virtualizationEnabled block hash (st.visibleTxCount kv) logIndex := by
  cases hkv : kv.virtualizationEnabled with
  | false =>
    obtain rfl : response = none := by simpa [readResponse, hkv] using hresponse
    rfl
  | true =>
    obtain ⟨hsome, hlog⟩ := hvirtual hkv
    obtain ⟨r, rfl⟩ := Option.isSome_iff_exists.mp hsome
    have hevents : (r.entries.filter fun entry =>
        belongsToMessage entry.msgIndex msgIndex tx.msgs.length).flatMap (·.rpcLogs none) =
          eventLogs tx.msgs r (.message msgIndex) none := by
      rw [filter_belongsToMessage hi, eventLogs, List.flatMap_map]
    simp only [IndexState.messageLogs, Response.logsForMessage, hevents, length_setLogMetadata,
      Piece.logs, messagePiece, Option.map_some, Option.getD_some, if_true]
    rw [setLogMetadata_append, ← hlog]
    rfl

variable {ps : List Piece} {st st' : IndexState} {es : List Entry} {before : ℕ}
  {baseFee : Option ℤ}

theorem Stores.indexEthMsg {gas' : UInt64} (hs : Stores E kv block ps st es)
    (hmsg : tx.msgs[msgIndex]? = some msg) (hethereum : msg.ethereum? = some ethMsg)
    (hresponse : response = readResponse E kv.virtualizationEnabled result)
    (hsome : kv.virtualizationEnabled = true → response.isSome = true)
    (hbefore : st.blockResultGasUsedBeforeTx = UInt64.ofNat before)
    (hgas : gas = UInt64.ofNat (chargedBefore E tx result msgIndex))
    (h : EvmGateway.indexEthMsg E kv block baseFee result (parsedTxs E tx result) response txIndex
      tx.msgs.length msgIndex ethMsg st gas = .ok (st', gas')) :
    (∃ e, Stores E kv block
      (ps ++ [messagePiece E block txIndex tx result response before msgIndex]) st' (es ++ [e])) ∧
      gas' = UInt64.ofNat (chargedBefore E tx result (msgIndex + 1)) ∧
      st'.blockResultGasUsedBeforeTx = st.blockResultGasUsedBeforeTx ∧
      st'.blockGasUsed = st.blockGasUsed := by
  obtain ⟨out, txData, own, sender, rpcTx, price, hout, -, hown, -, hrpc, -, hgas', rfl⟩ :=
    indexEthMsg_ok h
  have hcharged : gas' = UInt64.ofNat (chargedBefore E tx result (msgIndex + 1)) := by
    rw [hgas', hgas, chargedBefore_succ hmsg, UInt64.ofNat_add, ethMsgOutcome_gasUsed hethereum hout]
  have hi : msgIndex ∈ ethMsgIndexes tx.msgs := by
    refine List.mem_filterMap.mpr ⟨(msg, msgIndex), ?_, by simp [hethereum]⟩
    exact List.mem_zipIdx_iff_getElem?.mpr hmsg
  obtain rfl := ethMsgLogs_eq hown
  refine ⟨⟨_, hs.push ⟨⟨_, rfl, rfl, rfl⟩, ?_, ?_⟩ (ethEntry_at hs.tracks hrpc) fun _ => rfl⟩,
    hcharged, rfl, rfl⟩
  · change st.blockResultGasUsedBeforeTx + gas' = _
    rw [hbefore, hcharged, messagePiece, UInt64.ofNat_add]
  · rw [← hs.tracks.visibleTxCount]
    exact messageLogs_eq hi hresponse fun hkv => ⟨hsome hkv, hs.logIndex hkv⟩

theorem ethMsgIndexes_take_succ (h : msgs[msgIndex]? = some msg) :
    (msgs.zipIdx.take (msgIndex + 1)).filterMap (fun e => e.1.ethereum?.map fun _ => e.2) =
      (msgs.zipIdx.take msgIndex).filterMap (fun e => e.1.ethereum?.map fun _ => e.2) ++
        (msg.ethereum?.map fun _ => msgIndex).toList := by
  have hzip : msgs.zipIdx[msgIndex]? = some (msg, msgIndex) := by simp [h]
  rw [List.take_add_one, hzip, Option.toList_some, List.filterMap_append]
  cases hmsg : msg.ethereum? <;> simp [hmsg]

theorem Stores.indexMsgs (hs : Stores E kv block ps st es)
    (hresponse : response = readResponse E kv.virtualizationEnabled result)
    (hsome : kv.virtualizationEnabled = true → response.isSome = true)
    (hbefore : st.blockResultGasUsedBeforeTx = UInt64.ofNat before)
    (h : EvmGateway.indexMsgs E kv block baseFee result (parsedTxs E tx result) response txIndex
      tx.msgs st = .ok (st', gas)) :
    (∃ es', Stores E kv block (ps ++ (ethMsgIndexes tx.msgs).map
      (messagePiece E block txIndex tx result response before)) st' es') ∧
      gas = UInt64.ofNat (chargedBefore E tx result tx.msgs.length) ∧
      st'.blockResultGasUsedBeforeTx = st.blockResultGasUsedBeforeTx ∧
      st'.blockGasUsed = st.blockGasUsed := by
  have hend := forIdx_induction (fun n (s : IndexState × UInt64) =>
    (∃ es', Stores E kv block (ps ++ ((tx.msgs.zipIdx.take n).filterMap fun e =>
      e.1.ethereum?.map fun _ => e.2).map
        (messagePiece E block txIndex tx result response before)) s.1 es') ∧
      s.2 = UInt64.ofNat (chargedBefore E tx result n) ∧
      s.1.blockResultGasUsedBeforeTx = st.blockResultGasUsedBeforeTx ∧
      s.1.blockGasUsed = st.blockGasUsed)
    tx.msgs 0 (st, 0) (st', gas) ⟨⟨es, by simpa using hs⟩, rfl, rfl, rfl⟩ ?_ h
  · simpa [ethMsgIndexes, List.take_of_length_le] using hend
  intro j msg s s' hmsg hP hstep
  rw [Nat.zero_add] at hP hstep ⊢
  obtain ⟨⟨es', hs'⟩, hgas, hb, hg⟩ := hP
  rw [ethMsgIndexes_take_succ hmsg, List.map_append, ← List.append_assoc]
  cases hethereum : msg.ethereum? with
  | none =>
    rw [hethereum] at hstep
    obtain rfl := Except.ok.inj hstep
    refine ⟨⟨es', by simpa using hs'⟩, ?_, hb, hg⟩
    rw [chargedBefore_succ hmsg, hgas]
    simp [chargedGas, hethereum]
  | some ethMsg =>
    rw [hethereum] at hstep
    obtain ⟨⟨e, he⟩, hgas', hb', hg'⟩ := hs'.indexEthMsg hmsg hethereum hresponse hsome
      (hb.trans hbefore) hgas hstep
    exact ⟨⟨_, he⟩, hgas', hb'.trans hb, hg'.trans hg⟩

end Messages

/-! ## Transactions and blocks -/

section Block

variable {E : Env} {kv : KVIndexer} {block : Block} {ps : List Piece} {st st' : IndexState}
  {es : List Entry} {baseFee : Option ℤ} {txResults : List (Option ExecTxResult)} {txIndex : ℕ}
  {rawTx : Bytes} {before : ℕ}

theorem foldl_storeVirtualTx_gas (txs : List VirtualTx) (st : IndexState) :
    (txs.foldl (IndexState.storeVirtualTx E kv block) st).blockResultGasUsedBeforeTx =
        st.blockResultGasUsedBeforeTx ∧
      (txs.foldl (IndexState.storeVirtualTx E kv block) st).blockGasUsed = st.blockGasUsed := by
  induction txs generalizing st with
  | nil => exact ⟨rfl, rfl⟩
  | cons tx txs ih => exact ih (st.storeVirtualTx E kv block tx)

theorem Stores.indexSyntheticTxs {gas : ℕ} (hs : Stores E kv block ps st es)
    (hresponse : response = readResponse E kv.virtualizationEnabled result)
    (hbefore : st.blockResultGasUsedBeforeTx = UInt64.ofNat before)
    (h : EvmGateway.indexSyntheticTxs E kv block response txIndex rawTx msgs (UInt64.ofNat gas) st =
      .ok st') :
    (∃ es', Stores E kv block (ps ++ (response.map fun r =>
      syntheticPieces E txIndex rawTx msgs r before gas).getD []) st' es') ∧
      st'.blockResultGasUsedBeforeTx = st.blockResultGasUsedBeforeTx ∧
      st'.blockGasUsed = st.blockGasUsed := by
  cases response with
  | none =>
    obtain rfl := Except.ok.inj h
    exact ⟨⟨es, by simpa using hs⟩, rfl, rfl⟩
  | some r =>
    obtain ⟨hkv, hr⟩ : kv.virtualizationEnabled = true ∧ parseResponse E result = .ok r := by
      unfold readResponse at hresponse
      cases hkv : kv.virtualizationEnabled with
      | false => simp [hkv] at hresponse
      | true =>
        refine ⟨rfl, ?_⟩
        cases hp : parseResponse E result with
        | error e => simp [hkv, hp, Except.toOption] at hresponse
        | ok r' =>
          simp only [hkv, hp, if_true, Except.toOption, Option.some.injEq] at hresponse
          rw [hresponse]
    obtain ⟨txs, htxs, h⟩ := bind_eq_ok.mp h
    obtain rfl := Except.ok.inj h
    rw [orBlockParseError_eq_ok] at htxs
    have hcons : ConsecutiveFrom block st.rpcTxIndex txs := syntheticTxs_consecutive ⟨rfl, rfl⟩ htxs
    have hstored : SyntheticFrom E block st.rpcTxIndex st.logIndex
        (syntheticPieces E txIndex rawTx msgs r before gas) txs :=
      syntheticTxs_stored txIndex (parseResponse_wellFormed hr) ⟨rfl, rfl⟩ rfl rfl rfl rfl hbefore
        htxs
    rw [hs.tracks.rpcTxIndex] at hcons hstored
    rw [hs.logIndex hkv] at hstored
    exact ⟨⟨_, hs.storeVirtualTxs hkv hstored hcons⟩, foldl_storeVirtualTx_gas txs st⟩

theorem virtualResponse_eq (h : virtualResponse E kv block txIndex result = .ok response) :
    response = readResponse E kv.virtualizationEnabled result ∧
      (kv.virtualizationEnabled = true → response.isSome = true) := by
  rcases virtualResponse_ok h with ⟨hkv, r, hr, rfl⟩ | ⟨hkv, rfl⟩
  · simp [readResponse, hkv, hr, Except.toOption]
  · simp [readResponse, hkv]

theorem Stores.indexTx (hs : Stores E kv block ps st es)
    (hbefore : st.blockResultGasUsedBeforeTx = UInt64.ofNat (gasBefore txResults txIndex))
    (h : EvmGateway.indexTx E kv block baseFee txResults txIndex rawTx st = .ok st') :
    (∃ es', Stores E kv block
      (ps ++ piecesAt E kv.virtualizationEnabled block txResults txIndex rawTx) st' es') ∧
      st'.blockResultGasUsedBeforeTx = UInt64.ofNat (gasBefore txResults (txIndex + 1)) ∧
      (st.blockGasUsed = st.blockResultGasUsedBeforeTx →
        st'.blockGasUsed = st'.blockResultGasUsedBeforeTx) := by
  obtain ⟨result, tx, response, st₁, gas, st₂, hresult, htx, hresp, hmsgs, hst₂, rfl⟩ :=
    indexTx_ok h
  have hafter := ofNat_gasBefore_succ hresult
  obtain ⟨hresponse, hsome⟩ := virtualResponse_eq hresp
  simp only [piecesAt, hresult, txPieces, htx, ← hresponse, messagePieces, chargedTotal]
  rcases hmsgs with ⟨heth, txs, htxs, hmsgs⟩ | ⟨heth, rfl, rfl⟩
  · obtain rfl : parsedTxs E tx result = txs := by rw [parsedTxs, htxs]
    obtain ⟨⟨es₁, hs₁⟩, rfl, hb₁, hg₁⟩ := hs.indexMsgs hresponse hsome hbefore hmsgs
    obtain ⟨⟨es₂, hs₂⟩, hb₂, hg₂⟩ := hs₁.indexSyntheticTxs hresponse (hb₁.trans hbefore) hst₂
    rw [List.append_assoc] at hs₂
    rw [if_pos heth, if_pos heth]
    refine ⟨⟨es₂, hs₂.addGas _⟩, ?_, ?_⟩
    · rw [hafter, ← hbefore, ← hb₁, ← hb₂]
      rfl
    · intro hg
      change st₂.blockGasUsed + _ = st₂.blockResultGasUsedBeforeTx + _
      rw [hg₂, hg₁, hg, hb₂, hb₁]
  · rw [show (0 : UInt64) = UInt64.ofNat 0 from rfl] at hst₂
    obtain ⟨⟨es₂, hs₂⟩, hb₂, hg₂⟩ := hs.indexSyntheticTxs hresponse hbefore hst₂
    refine ⟨⟨es₂, by simpa [heth] using hs₂.addGas _⟩, ?_, ?_⟩
    · rw [hafter, ← hbefore, ← hb₂]
      rfl
    · intro hg
      change st₂.blockGasUsed + _ = st₂.blockResultGasUsedBeforeTx + _
      rw [hg₂, hg, hb₂]

theorem Stores.storeBlockPhase (hs : Stores E kv block ps st es) {slot : BlockSlot}
    (hslot : slot = .beginBlock ∧ hash = beginBlockHash E block.height ∨
      slot = .endBlock ∧ hash = endBlockHash E block.height) (logs : List EthLog) (cumulative : ℕ)
    (hkv : logs ≠ [] → kv.virtualizationEnabled = true) :
    ∃ es', Stores E kv block (ps ++ phasePieces slot logs cumulative)
      (st.storeBlockPhase E kv block hash logs (UInt64.ofNat cumulative)) es' := by
  unfold IndexState.storeBlockPhase phasePieces
  split
  · exact ⟨es, by simpa using hs⟩
  · rename_i hne
    have hon := hkv (by simpa using hne)
    have hat := newBlockTx_at block st st.rpcTxIndex hash logs kv.virtualChainID
      (UInt64.ofNat cumulative)
    have hstored : Piece.Stored E true block st.rpcTxIndex st.logIndex
        { slot := slot, events := wrapLogs logs true none, cumulative := cumulative }
        (virtualEntry E (newBlockTx hash logs (st.virtualLogContext block hash st.rpcTxIndex)
          kv.virtualChainID (UInt64.ofNat cumulative))) := by
      refine ⟨?_, rfl, rfl⟩
      rcases hslot with ⟨rfl, rfl⟩ | ⟨rfl, rfl⟩
      · exact ⟨rfl, rfl⟩
      · exact ⟨rfl, rfl⟩
    rw [hs.tracks.rpcTxIndex] at hat hstored
    rw [hs.logIndex hon] at hstored
    rw [hs.tracks.rpcTxIndex]
    have hfrom : SyntheticFrom E block es.length (logCount es)
        [{ slot := slot, events := wrapLogs logs true none, cumulative := cumulative }]
        [newBlockTx hash logs (st.virtualLogContext block hash es.length) kv.virtualChainID
          (UInt64.ofNat cumulative)] := ⟨hstored, trivial⟩
    exact ⟨_, hs.storeVirtualTxs hon hfrom (.cons hat (consecutiveFrom_nil block _))⟩

theorem storeBlockPhase_gas (hash : Hash) (logs : List EthLog) (gas : UInt64) (st : IndexState) :
    (st.storeBlockPhase E kv block hash logs gas).blockResultGasUsedBeforeTx =
        st.blockResultGasUsedBeforeTx ∧
      (st.storeBlockPhase E kv block hash logs gas).blockGasUsed = st.blockGasUsed := by
  unfold IndexState.storeBlockPhase
  split
  · exact ⟨rfl, rfl⟩
  · exact ⟨rfl, rfl⟩

/-- **A built block stores its pieces.** -/
theorem buildBlock_stores (h : buildBlock E kv block results = .ok st) :
    ∃ txResults es, normalizeTxResponseIndexes E (blockTxResults results) = .ok txResults ∧
      Stores E kv block (blockPieces E kv.virtualizationEnabled block results txResults) st es ∧
      st.blockGasUsed = UInt64.ofNat (gasBefore txResults block.txs.length) := by
  obtain ⟨txResults, beginLogs, endLogs, st₁, hnorm, hphase, hloop, rfl⟩ := buildBlock_ok h
  have hlogs := (blockPhaseLogs_ok hphase).1
  have hvirtual := virtual_of_blockPhaseLogs hphase
  obtain ⟨es₀, hs₀⟩ := (Stores.init E kv block).storeBlockPhase (.inl ⟨rfl, rfl⟩) beginLogs 0
    (hvirtual beginLogs (by simp))
  have hgas₀ := @storeBlockPhase_gas E kv block (beginBlockHash E block.height) beginLogs 0 {}
  have hend := forIdx_induction (fun n (s : IndexState) =>
    (∃ es, Stores E kv block (phasePieces .beginBlock beginLogs 0 ++
      (block.txs.zipIdx.take n).flatMap fun e =>
        piecesAt E kv.virtualizationEnabled block txResults e.2 e.1) s es) ∧
      s.blockResultGasUsedBeforeTx = UInt64.ofNat (gasBefore txResults n) ∧
      s.blockGasUsed = s.blockResultGasUsedBeforeTx) block.txs 0 _ st₁ ?_ ?_ hloop
  · rw [Nat.zero_add, List.take_of_length_le (by simp)] at hend
    obtain ⟨⟨es₁, hs₁⟩, hb₁, hg₁⟩ := hend
    obtain ⟨es₂, hs₂⟩ := hs₁.storeBlockPhase (.inr ⟨rfl, rfl⟩) endLogs
      (gasBefore txResults block.txs.length) (hvirtual endLogs (by simp))
    refine ⟨txResults, es₂, hnorm, ?_, ?_⟩
    · rw [blockPieces, hlogs, hb₁]
      exact hs₂
    · rw [(storeBlockPhase_gas ..).2, hg₁, hb₁]
  · refine ⟨⟨es₀, by simpa using hs₀⟩, ?_, ?_⟩
    · rw [hgas₀.1]
      rfl
    · rw [hgas₀.1, hgas₀.2]
  · intro j rawTx s s' hraw hP hstep
    rw [Nat.zero_add] at hP hstep ⊢
    obtain ⟨⟨es, hs⟩, hb, hg⟩ := hP
    obtain ⟨hs', hb', hg'⟩ := hs.indexTx hb hstep
    have hzip : block.txs.zipIdx[j]? = some (rawTx, j) := by simp [hraw]
    refine ⟨?_, hb', hg' hg⟩
    rw [List.take_add_one, hzip, Option.toList_some, List.flatMap_append, List.flatMap_singleton,
      ← List.append_assoc]
    exact hs'

/-- Every transaction of a built block passed through the loop body. -/
theorem exists_indexTx {txResults : List (Option ExecTxResult)}
    (h : buildBlock E kv block results = .ok st)
    (hnorm : normalizeTxResponseIndexes E (blockTxResults results) = .ok txResults)
    {rawTx : Bytes} (hraw : block.txs[i]? = some rawTx) :
    ∃ t t', EvmGateway.indexTx E kv block (blockBaseFeeFromResults E results) txResults i rawTx t =
      .ok t' := by
  obtain ⟨txResults', _, _, _, hnorm', -, hloop, -⟩ := buildBlock_ok h
  obtain rfl : txResults = txResults' := Except.ok.inj (hnorm.symm.trans hnorm')
  have hpass := forIdx_passes hloop hraw
  rwa [Nat.zero_add] at hpass

theorem exists_result {txResults : List (Option ExecTxResult)}
    (h : buildBlock E kv block results = .ok st)
    (hnorm : normalizeTxResponseIndexes E (blockTxResults results) = .ok txResults) (i : ℕ)
    (rawTx : Bytes) (hraw : block.txs[i]? = some rawTx) :
    ∃ result, txResults[i]? = some (some result) := by
  obtain ⟨t, t', hpass⟩ := exists_indexTx h hnorm hraw
  obtain ⟨result, _, _, _, _, _, hresult, -⟩ := indexTx_ok hpass
  exact ⟨result, hresult⟩

theorem length_le_of_buildBlock {txResults : List (Option ExecTxResult)}
    (h : buildBlock E kv block results = .ok st)
    (hnorm : normalizeTxResponseIndexes E (blockTxResults results) = .ok txResults) :
    block.txs.length ≤ txResults.length := by
  by_contra hlt
  obtain ⟨result, hresult⟩ := exists_result h hnorm _ _ (List.getElem?_eq_getElem (not_le.mp hlt))
  simp at hresult

/-- Every Ethereum message of an indexed transaction passed through the loop body. -/
theorem exists_indexEthMsg {baseFee : Option ℤ} {txs : ParsedTxs} {out : IndexState × UInt64}
    (h : EvmGateway.indexMsgs E kv block baseFee result txs response i msgs st = .ok out) {m : ℕ}
    {msg : Msg} (hm : msgs[m]? = some msg) {ethMsg : MsgEthereumTx}
    (hmsg : msg.ethereum? = some ethMsg) :
    ∃ (t t' : IndexState × UInt64), EvmGateway.indexEthMsg E kv block baseFee result txs response i
      msgs.length m ethMsg t.1 t.2 = .ok t' := by
  obtain ⟨t, t', hpass⟩ := forIdx_passes h hm
  rw [Nat.zero_add, hmsg] at hpass
  exact ⟨t, t', hpass⟩

/-- **An indexed block has the records of its pieces** in the store. -/
theorem indexBlock_stores {db db' : DB} (h : indexBlock E kv db block results = .ok db') :
    ∃ (R : BlockRecords) (st : IndexState) (txResults : List (Option ExecTxResult)),
      R.block = block ∧ Holds db' R ∧ buildBlock E kv block results = .ok st ∧
      normalizeTxResponseIndexes E (blockTxResults results) = .ok txResults ∧
      StoresAll E kv.virtualizationEnabled block
        (blockPieces E kv.virtualizationEnabled block results txResults) R.entries ∧
      R.blockMeta.gasUsed = UInt64.ofNat (gasBefore txResults block.txs.length) ∧
      ∃ n, blockWrites E kv block results = .ok (R.writes, n) := by
  obtain ⟨⟨_, _⟩, hstats, rfl⟩ := map_eq_ok.mp h
  obtain ⟨⟨ws, n⟩, hws, -⟩ := bind_eq_ok.mp hstats
  obtain ⟨st, root, hst, rfl⟩ := exists_buildBlock hws
  obtain ⟨txResults, es, hnorm, hs, hgas⟩ := buildBlock_stores hst
  let R : BlockRecords := hs.tracks.records E (blockBaseFeeFromResults E results) root
  have hwrites : R.writes = _ := hs.tracks.writes_records E (blockBaseFeeFromResults E results) root
  exact ⟨R, st, txResults, rfl, holds_of_indexBlock (R := R) (n := n) h (hwrites ▸ hws), hst, hnorm,
    hs.all, hgas, n, hwrites ▸ hws⟩

end Block

end EvmGateway
