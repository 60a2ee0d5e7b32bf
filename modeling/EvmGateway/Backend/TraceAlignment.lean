import EvmGateway.Backend.Tracing
import EvmGateway.Indexer.Lookup

/-!
# Which trace a transaction gets

The cached traces of a block carry the hashes of the visible transactions, or those of
the Ethereum messages if they could not be aligned (`alignedHashes`).  The trace of one
transaction is cut out at its Ethereum position, which counts the Ethereum transactions
only: `traceTransactionFromCachedBlock_of_position` says when that is the right place.

The alignment is described on its own first: what it labels (`Labelled.align`), and that
aligning twice is aligning once (`align_align`), which is why a trace read back from the
cache is the trace that was cached.
-/

namespace EvmGateway

open Lib

variable {results : BlockTrace} {x : Hash} {hashes : List Hash} {t : TxTraceResult}

/-! ## Labels -/

def Labelled (hashes : List Hash) (results : BlockTrace) : Prop :=
  results.map (Option.map TxTraceResult.txHash) = hashes.map some

/-- The hashes of the aligned traces of a block with the given messages. -/
def alignedHashes (msgs visible : List Hash) : List Hash :=
  if visible.isEmpty || msgs.contains 0 then msgs
  else if visible.countP (· ∈ msgs) ≠ msgs.length then msgs
  else visible

namespace Labelled

variable {hashes msgs : List Hash} {results : BlockTrace}

variable (h : Labelled hashes results)

include h

theorem length_eq : results.length = hashes.length := by
  simpa using congrArg List.length h

theorem getElem? (i : ℕ) :
    results[i]?.map (Option.map TxTraceResult.txHash) = hashes[i]?.map some := by
  rw [← List.getElem?_map, ← List.getElem?_map]
  exact congrArg (·[i]?) h

theorem exists_of_getElem? {i : ℕ} (hi : hashes[i]? = some x) :
    ∃ t, results[i]? = some (some t) ∧ t.txHash = x := by
  have hmap := h.getElem? i
  rw [hi, Option.map_some, Option.map_eq_some_iff] at hmap
  obtain ⟨r, hr, hx⟩ := hmap
  obtain ⟨t, rfl, ht⟩ := Option.map_eq_some_iff.mp hx
  exact ⟨t, hr, ht⟩

theorem getElem?_of_some {i : ℕ} (hi : results[i]? = some (some t)) :
    hashes[i]? = some t.txHash := by
  have hmap := h.getElem? i
  rw [hi] at hmap
  simpa [eq_comm] using hmap

theorem mem_iff :
    x ∈ hashes ↔ ∃ t, some t ∈ results ∧ t.txHash = x := by
  constructor
  · intro hx
    obtain ⟨i, hi⟩ := List.getElem?_of_mem hx
    obtain ⟨t, ht, rfl⟩ := h.exists_of_getElem? hi
    exact ⟨t, List.mem_of_getElem? ht, rfl⟩
  · rintro ⟨t, ht, rfl⟩
    obtain ⟨i, hi⟩ := List.getElem?_of_mem ht
    exact List.mem_of_getElem? (h.getElem?_of_some hi)

theorem ne_none {r : Option TxTraceResult} (hr : r ∈ results) :
    r ≠ none := by
  rintro rfl
  obtain ⟨i, hi⟩ := List.getElem?_of_mem hr
  have hmap := h.getElem? i
  rw [hi] at hmap
  cases hhash : hashes[i]? <;> simp [hhash] at hmap

theorem allTracesPresent :
    EvmGateway.allTracesPresent results = !hashes.contains 0 := by
  rw [Bool.eq_iff_iff, EvmGateway.allTracesPresent, List.all_eq_true, Bool.not_eq_true',
    ← Bool.not_eq_true, List.contains_iff_mem, h.mem_iff]
  constructor
  · rintro hall ⟨t, ht, hzero⟩
    simpa [hzero] using hall _ ht
  · intro hno r hr
    cases r with
    | none => exact absurd rfl (h.ne_none hr)
    | some t => simpa using fun hzero => hno ⟨t, hr, hzero⟩

end Labelled

/-! ## Alignment -/

theorem of_traceByHash (h : traceByHash results x = some t) : some t ∈ results ∧ t.txHash = x := by
  have hmem := List.mem_of_find?_eq_some h
  have hx := List.find?_some h
  rw [List.mem_reverse, List.reduceOption_mem_iff] at hmem
  exact ⟨hmem, by simpa using hx⟩

theorem traceByHash_isSome :
    (traceByHash results x).isSome ↔ ∃ t, some t ∈ results ∧ t.txHash = x := by
  simp [traceByHash, List.find?_isSome, List.reduceOption_mem_iff]

theorem traceByHash_eq (h : Labelled hashes results) (hnd : hashes.Nodup) (ht : some t ∈ results) :
    traceByHash results t.txHash = some t := by
  obtain ⟨t', ht'⟩ := Option.isSome_iff_exists.mp (traceByHash_isSome.mpr ⟨t, ht, rfl⟩)
  obtain ⟨hmem, hx⟩ := of_traceByHash ht'
  obtain ⟨i, hi⟩ := List.getElem?_of_mem ht
  obtain ⟨j, hj⟩ := List.getElem?_of_mem hmem
  have hhi := h.getElem?_of_some hi
  have hhj := h.getElem?_of_some hj
  rw [hx] at hhj
  have hij : i = j :=
    (List.getElem?_inj (List.getElem?_eq_some_iff.mp hhi).1 hnd).mp (hhi.trans hhj.symm)
  subst hij
  rw [hi] at hj
  rw [ht', ← Option.some.inj hj]

theorem labelled_map_traceByHash (results : BlockTrace) (visible : List Hash) :
    Labelled visible
      (visible.map fun x => some ((traceByHash results x).getD (emptyTrace x))) := by
  rw [Labelled, List.map_map]
  refine List.map_congr_left fun x _ => ?_
  cases ht : traceByHash results x with
  | none => simp [ht, emptyTrace]
  | some t => simp [ht, (of_traceByHash ht).2]

theorem Labelled.countP_traceByHash {msgs : List Hash} (h : Labelled msgs results)
    (visible : List Hash) :
    visible.countP (fun x => (traceByHash results x).isSome) = visible.countP (· ∈ msgs) := by
  refine List.countP_congr fun x _ => ?_
  rw [traceByHash_isSome, ← h.mem_iff, decide_eq_true_iff]

/-- **The labels of aligned traces.** -/
theorem Labelled.align {msgs : List Hash} (h : Labelled msgs results) (visible : List Hash) :
    Labelled (alignedHashes msgs visible) (alignTraceBlockResults results visible) := by
  unfold alignedHashes alignTraceBlockResults
  rw [h.allTracesPresent, h.countP_traceByHash, h.length_eq, Bool.not_not]
  split_ifs with hskip hmatched
  · exact h
  · exact h
  · exact labelled_map_traceByHash results visible

/-- **Aligning twice is aligning once.** -/
theorem align_align {visible : List Hash} (hnd : visible.Nodup) :
    alignTraceBlockResults (alignTraceBlockResults results visible) visible =
      alignTraceBlockResults results visible := by
  by_cases hskip : (visible.isEmpty || !allTracesPresent results) = true
  · have honce : alignTraceBlockResults results visible = results := if_pos hskip
    rw [honce, honce]
  · by_cases hmatched : visible.countP (fun x => (traceByHash results x).isSome) ≠ results.length
    · have honce : alignTraceBlockResults results visible = results := by
        rw [alignTraceBlockResults, if_neg hskip, if_pos hmatched]
      rw [honce, honce]
    · set aligned := visible.map fun x => some ((traceByHash results x).getD (emptyTrace x))
        with haligned
      have honce : alignTraceBlockResults results visible = aligned := by
        rw [alignTraceBlockResults, if_neg hskip, if_neg hmatched]
      have hlabel : Labelled visible aligned := labelled_map_traceByHash results visible
      rw [honce, alignTraceBlockResults]
      split_ifs with hskip' hmatched'
      · rfl
      · rfl
      · -- every trace is found under its own label
        refine List.ext_getElem? fun i => ?_
        rw [List.getElem?_map]
        cases hi : visible[i]? with
        | none =>
          have := hlabel.length_eq
          rw [List.getElem?_eq_none_iff] at hi
          rw [Option.map_none, List.getElem?_eq_none (by omega)]
        | some x =>
          obtain ⟨t, ht, rfl⟩ := hlabel.exists_of_getElem? hi
          rw [Option.map_some, traceByHash_eq hlabel hnd (List.mem_of_getElem? ht), ht]
          rfl

/-- Traces in the order of the visible transactions: each of the given ones at the place of its
hash, and an empty one everywhere else. -/
structure AlignedWith (results : BlockTrace) (visible : List Hash) (aligned : BlockTrace) : Prop where
  hashes : Labelled visible aligned
  kept : ∀ r ∈ results, ∃ (i : ℕ) (t : TxTraceResult), r = some t ∧
    visible[i]? = some t.txHash ∧ aligned[i]? = some (some t)
  others : ∀ (i : ℕ) (x : Hash), visible[i]? = some x → (∀ t, some t ∈ results → t.txHash ≠ x) →
    aligned[i]? = some (some (emptyTrace x))

theorem exists_labelled (h : allTracesPresent results = true) :
    ∃ hashes, Labelled hashes results ∧ 0 ∉ hashes := by
  refine ⟨results.map fun r => (r.map TxTraceResult.txHash).getD 0, ?_, ?_⟩
  · rw [Labelled, List.map_map]
    refine List.map_congr_left fun r hr => ?_
    cases r with
    | none => simpa using List.all_eq_true.mp h _ hr
    | some t => rfl
  · rw [List.mem_map]
    rintro ⟨r, hr, hzero⟩
    have hpresent := List.all_eq_true.mp h _ hr
    cases r with
    | none => simp at hpresent
    | some t => exact absurd hzero (by simpa using hpresent)

/-- Traces with distinct visible labels, put in the order of the visible transactions. -/
theorem Labelled.alignedWith {visible : List Hash} (h : Labelled hashes results)
    (hnd : hashes.Nodup) (hsub : hashes ⊆ visible) :
    AlignedWith results visible
      (visible.map fun x => some ((traceByHash results x).getD (emptyTrace x))) where
  hashes := labelled_map_traceByHash results visible
  kept := by
    intro r hr
    cases r with
    | none => exact absurd rfl (h.ne_none hr)
    | some t =>
      obtain ⟨i, hi⟩ := List.getElem?_of_mem (hsub (h.mem_iff.mpr ⟨t, hr, rfl⟩))
      refine ⟨i, t, rfl, hi, ?_⟩
      rw [List.getElem?_map, hi, Option.map_some, traceByHash_eq h hnd hr, Option.getD_some]
  others := by
    intro i x hi hno
    have hmiss : traceByHash results x = none := by
      rw [← Option.not_isSome_iff_eq_none, traceByHash_isSome]
      rintro ⟨t, ht, hx⟩
      exact hno t ht hx
    rw [List.getElem?_map, hi, Option.map_some, hmiss, Option.getD_none]

/-- **Alignment is all or nothing.**  With distinct visible hashes the traces are returned as they
are, or in the order of the visible transactions with none of them lost or changed; the latter if
they have distinct nonzero hashes that are all visible.  Aligning them again changes nothing. -/
theorem align_all_or_nothing (results : BlockTrace) (visible : List Hash) (hvisible : visible.Nodup) :
    (alignTraceBlockResults results visible = results ∨
      AlignedWith results visible (alignTraceBlockResults results visible)) ∧
    (∀ hashes, Labelled hashes results → hashes.Nodup → 0 ∉ hashes → hashes ⊆ visible →
      visible ≠ [] → AlignedWith results visible (alignTraceBlockResults results visible)) ∧
    alignTraceBlockResults (alignTraceBlockResults results visible) visible =
      alignTraceBlockResults results visible := by
  refine ⟨?_, ?_, align_align hvisible⟩
  · by_cases hskip : (visible.isEmpty || !allTracesPresent results) = true
    · exact .inl (if_pos hskip)
    · by_cases hmatched :
          visible.countP (fun hash => (traceByHash results hash).isSome) ≠ results.length
      · exact .inl (by rw [alignTraceBlockResults, if_neg hskip, if_pos hmatched])
      · -- as many visible hashes as traces: the hashes of the traces are distinct and visible
        right
        have hpresent : allTracesPresent results = true := by
          simp only [Bool.or_eq_true, not_or, Bool.not_eq_true, Bool.not_eq_false'] at hskip
          exact hskip.2
        obtain ⟨hashes, hlabel, -⟩ := exists_labelled hpresent
        rw [not_not, hlabel.countP_traceByHash, hlabel.length_eq] at hmatched
        obtain ⟨hnd, hsub⟩ := nodup_of_countP_mem_eq_length hvisible hmatched
        rw [alignTraceBlockResults, if_neg hskip, hlabel.countP_traceByHash, hlabel.length_eq,
          if_neg (not_not.mpr hmatched)]
        exact hlabel.alignedWith hnd hsub
  · intro hashes hlabel hnd hzero hsub hne
    have hskip : ¬ (visible.isEmpty || !allTracesPresent results) = true := by
      rw [hlabel.allTracesPresent]
      simpa [hne] using hzero
    rw [alignTraceBlockResults, if_neg hskip, hlabel.countP_traceByHash, hlabel.length_eq,
      (countP_mem_eq_length_iff hnd hvisible).mpr hsub, if_neg (not_not.mpr rfl)]
    exact hlabel.alignedWith hnd hsub

/-- Two traces and a synthetic transaction between them. -/
theorem align_all_or_nothing_three :
    alignTraceBlockResults [some { txHash := 2 }, some { txHash := 1 }] [1, 7, 2] =
        [some { txHash := 1 }, some (emptyTrace 7), some { txHash := 2 }] ∧
      AlignedWith [some { txHash := 2 }, some { txHash := 1 }] [1, 7, 2]
        (alignTraceBlockResults [some { txHash := 2 }, some { txHash := 1 }] [1, 7, 2]) :=
  ⟨by decide, (align_all_or_nothing [some { txHash := 2 }, some { txHash := 1 }] [1, 7, 2]
    (by decide)).2.1 [2, 1] rfl (by decide) (by decide) (by decide) (by decide)⟩

/-! ## Caching the traces of a block -/

theorem labelled_attach {labelled : BlockTrace}
    (h : attachTraceBlockTransactionHashes results hashes = .ok labelled) :
    Labelled hashes labelled := by
  unfold attachTraceBlockTransactionHashes at h
  split_ifs at h with hlen
  obtain rfl := Except.ok.inj h
  refine List.ext_getElem? fun i => ?_
  rw [List.getElem?_map, List.getElem?_map, List.getElem?_zipWith]
  cases hi : hashes[i]? with
  | none => cases results[i]? <;> rfl
  | some x =>
    have hlt : i < results.length := by
      have := (List.getElem?_eq_some_iff.mp hi).1
      omega
    rw [List.getElem?_eq_getElem hlt]
    rfl

def blockMsgHashes (E : Env) (block : Block) : List Hash :=
  (ethMsgsFromTendermintBlock E block).map (·.hash)

/-- The block a trace request is about: the given one, or the node's one of its height. -/
def Backend.Traces (b : Backend) (height : ℤ) (given : Option Block) (block : Block) : Prop :=
  given = some block ∨ given = none ∧ height = block.height ∧ 0 < block.height ∧
    b.tendermintBlockByNumber height = .ok (some block)

section TraceBlock

variable {E : Env} {b : Backend} {db : DB} {height : ℤ} {config : Option TraceConfig}
  {given : Option Block} {block : Block} {traces : BlockTrace} {odb : Option DB}

theorem Backend.labelled_replayBlock (h : b.replayBlock E height config block = .ok traces) :
    Labelled (blockMsgHashes E block) traces := by
  unfold Backend.replayBlock at h
  by_cases hempty : (ethMsgsFromTendermintBlock E block).isEmpty = true
  · simp only [hempty, if_true] at h
    obtain rfl := Except.ok.inj h
    simp [Labelled, blockMsgHashes, List.isEmpty_iff.mp hempty]
  · simp only [hempty] at h
    obtain ⟨data, -, h⟩ := bind_eq_ok.mp h
    obtain ⟨results, -, h⟩ := bind_eq_ok.mp h
    exact labelled_attach h

theorem Backend.traceCacheHeight_of_traces (h : b.Traces height given block) :
    b.traceCacheHeight height given = some block.height := by
  rcases h with rfl | ⟨rfl, rfl, hpos, -⟩
  · rfl
  · simp only [Backend.traceCacheHeight]
    rw [if_pos (by omega), Int.toNat_natCast]

theorem Backend.blockToTrace_of_traces (h : b.Traces height given block) :
    b.blockToTrace height given = .ok block := by
  rcases h with rfl | ⟨rfl, rfl, -, hnode⟩
  · rfl
  · simp only [Backend.blockToTrace, hnode]
    rfl

/-- **What tracing a block caches**, if no trace of it is cached: labelled traces, aligned
with the visible transactions. -/
theorem Backend.traceBlock_fresh (hb : b.indexer = some db) (htr : b.Traces height given block)
    (hfresh : db.get? (.traceBlock block.height (traceConfigKey E config)) = none)
    (h : b.traceBlock E height config given = .ok (traces, odb)) :
    ∃ results raw, Labelled (blockMsgHashes E block) results ∧
      traces = alignTraceBlockResults results
        (getRPCTransactionHashesByBlockHeight db block.height) ∧
      E.marshalTraces traces = .ok raw ∧
      odb = some (setTraceBlockByHeight E db block.height config raw) := by
  have hmiss : b.cachedTraceBlock E height config given = none := by
    rw [Backend.cachedTraceBlock, hb, Backend.traceCacheHeight_of_traces htr]
    simp only [getTraceBlockByHeight, DB.getOr_of_none hfresh]
    rfl
  unfold Backend.traceBlock at h
  rw [hmiss, Backend.blockToTrace_of_traces htr] at h
  by_cases hoff : b.offlineRPCOnly = true
  · simp [hoff] at h
  · simp only [hoff] at h
    obtain ⟨_, hblock, h⟩ := bind_eq_ok.mp h
    obtain rfl := Except.ok.inj hblock
    obtain ⟨results, hresults, h⟩ := bind_eq_ok.mp h
    obtain ⟨odb', hstore, h⟩ := bind_eq_ok.mp h
    obtain ⟨rfl, rfl⟩ := Prod.mk.inj (Except.ok.inj h)
    simp only [Backend.alignTraceBlockResultsWithVisibleTransactions, hb] at hstore ⊢
    simp only [Backend.storeTraceBlock, hb] at hstore
    obtain ⟨raw, hraw, hstore⟩ := bind_eq_ok.mp hstore
    exact ⟨results, raw, Backend.labelled_replayBlock hresults, rfl, hraw,
      (Except.ok.inj hstore).symm⟩

theorem Backend.readTraceBlock_eq {raw : Bytes} {n : ℕ} (hb : b.indexer = some db)
    (hdecode : E.unmarshalTraces raw = .ok traces) (hlabel : Labelled hashes traces)
    (hzero : 0 ∉ hashes)
    (halign : alignTraceBlockResults traces (getRPCTransactionHashesByBlockHeight db n) = traces) :
    b.readTraceBlock E raw n given = .ok traces := by
  have hpresent : allTracesPresent traces = true := by
    rw [hlabel.allTracesPresent]
    simpa using hzero
  have hpop : b.populateTraceBlockTransactionHashes E traces n given = .ok traces := by
    rw [Backend.populateTraceBlockTransactionHashes, hpresent, Bool.or_true, if_pos rfl]
  rw [Backend.readTraceBlock, hdecode]
  simp only [Backend.alignTraceBlockResultsWithVisibleTransactions, hb]
  rw [bind_eq_ok]
  exact ⟨traces, rfl, bind_eq_ok.mpr ⟨traces, hpop, congrArg Except.ok halign⟩⟩

end TraceBlock

/-! ## Tracing one transaction -/

def ServesOwnTrace (E : Env) (b : Backend) (x : Hash) (config : Option TraceConfig)
    (traces : BlockTrace) : Prop :=
  ∀ r, b.traceTransactionFromCachedBlock E x config = .ok r →
    ∃ t, some t ∈ traces ∧ t.txHash = x ∧ t.result = r

/-- If there is a hash at the position, it is this one. -/
def InPlace (hashes : List Hash) (i : ℤ) (x : Hash) : Prop :=
  ∀ y, hashes[i.toNat]? = some y → y = x

instance (hashes : List Hash) (i : ℤ) (x : Hash) : Decidable (InPlace hashes i x) :=
  decidable_of_iff ((hashes[i.toNat]?).all (· == x) = true) (by simp [InPlace, Option.all_eq_true])

/-- No trace is an error, and the result for the transaction is told apart from those of
the others. -/
structure Distinguished (traces : BlockTrace) (x : Hash) : Prop where
  no_error : ∀ t, some t ∈ traces → t.error = ""
  result : ∀ t t', some t ∈ traces → some t' ∈ traces → t.txHash = x → t.result = t'.result →
    t'.txHash = x

/-- A transaction is served the trace at its Ethereum position. -/
theorem traceTransactionFromCachedBlock_eq_ok {E : Env} {b : Backend} {db : DB}
    {config : Option TraceConfig} {res : TxResult} {raw : Bytes} {traces : BlockTrace}
    {r : Option Json} (hb : b.indexer = some db) (hres : getByTxHash db x = .ok res)
    (hpos : 0 ≤ res.ethTxIndex) (hraw : getTraceBlockByHeight E db res.height config = .ok raw)
    (hread : b.readTraceBlock E raw res.height none = .ok traces) :
    b.traceTransactionFromCachedBlock E x config = .ok r ↔
      ∃ t, traces[res.ethTxIndex.toNat]? = some (some t) ∧ t.error = "" ∧ t.result = r := by
  have htx : b.getTxByEthHash E x = .ok res := by
    simp only [Backend.getTxByEthHash, Backend.indexedOrSearched, hb, Option.map_some, hres]
  have hindex : Backend.traceIndex db res x = some res.ethTxIndex.toNat := if_neg (by omega)
  simp only [Backend.traceTransactionFromCachedBlock, hb, htx, hraw, hread, hindex, bind,
    Except.bind, Option.bind_some]
  rcases traces[res.ethTxIndex.toNat]? with _ | _ | t
  · simp
  · simp [Backend.traceValue]
  · by_cases herr : t.error = ""
    · simp [Backend.traceValue, herr]
    · simp [Backend.traceValue, herr]

section OwnTrace

variable {E : Env} {R : BlockRecords} {db₁ db₂ db₃ : DB} {b₁ b₂ : Backend} {height : ℤ}
  {config : Option TraceConfig} {given : Option Block} {traces : BlockTrace} {i : ℤ} {x : Hash}

/-- **The trace of a transaction.**  A store with the records of a block caches the traces of the
block, and later has the records and the traces still.  An Ethereum transaction of the block is
then served its own traces if, in the list the traces are aligned with, it stands at its Ethereum
position; and only then, unless traces are errors or alike. -/
theorem own_trace_of_position (hholds₁ : Holds db₁ R)
    (hnd : (getRPCTransactionHashesByBlockHeight db₁ R.block.height).Nodup)
    (hzero : 0 ∉ getRPCTransactionHashesByBlockHeight db₁ R.block.height)
    (hzeroMsg : 0 ∉ blockMsgHashes E R.block)
    (hb₁ : b₁.indexer = some db₁) (htr : b₁.Traces height given R.block)
    (hfresh : db₁.get? (.traceBlock R.block.height (traceConfigKey E config)) = none)
    (htrace : b₁.traceBlock E height config given = .ok (traces, some db₂))
    (hcodec : ∀ raw, E.marshalTraces traces = .ok raw →
      raw ≠ [] ∧ E.unmarshalTraces raw = .ok traces)
    (hholds₃ : Holds db₃ R)
    (hkept : db₃.get? (.traceBlock R.block.height (traceConfigKey E config)) =
      db₂.get? (.traceBlock R.block.height (traceConfigKey E config)))
    (hb₂ : b₂.indexer = some db₃) (hx : db₁.get? (.txIndex R.block.height i) = some x) :
    let served := alignedHashes (blockMsgHashes E R.block)
      (getRPCTransactionHashesByBlockHeight db₁ R.block.height)
    (InPlace served i x → ServesOwnTrace E b₂ x config traces) ∧
      (Distinguished traces x → ServesOwnTrace E b₂ x config traces → InPlace served i x) := by
  intro served
  have hvisible := hholds₁.getRPCTransactionHashesByBlockHeight
  -- the traces as they were cached
  obtain ⟨labelled, raw, hlabel, rfl, hmarshal, hdb⟩ := Backend.traceBlock_fresh hb₁ htr hfresh htrace
  obtain rfl := Option.some.inj hdb
  obtain ⟨hne, hdecode⟩ := hcodec raw hmarshal
  have hserved := hlabel.align (getRPCTransactionHashesByBlockHeight db₁ R.block.height)
  -- the traces as they are read back
  have hraw : getTraceBlockByHeight E db₃ R.block.height config = .ok raw := by
    refine DB.getOr_of_get? ?_ _
    rw [hkept, setTraceBlockByHeight, if_neg hne]
    exact Std.ExtDTreeMap.get?_insert_self
  have hread : b₂.readTraceBlock E raw R.block.height none = .ok _ :=
    Backend.readTraceBlock_eq hb₂ hdecode hserved
      (by unfold alignedHashes; split_ifs <;> assumption)
      (by rw [hholds₃.getRPCTransactionHashesByBlockHeight, ← hvisible]; exact align_align hnd)
  -- the transaction
  rw [hvisible] at hnd
  rw [hholds₁.height _ rfl] at hx
  obtain ⟨res, hres, hheight, hi⟩ :=
    hholds₃.getByTxHash_of_txIndex hnd ((hholds₃.height _ rfl).trans hx)
  have hpos : 0 ≤ i := by
    exact (BlockRecords.get_txIndex_iff_ethHashes.mp hx).2.1
  have hserve : ∀ r, b₂.traceTransactionFromCachedBlock E x config = .ok r ↔ _ := fun r =>
    traceTransactionFromCachedBlock_eq_ok hb₂ hres (by omega) (by rw [hheight]; exact hraw)
      (by rw [hheight]; exact hread)
  rw [hi] at hserve
  constructor
  · intro hplace r hr
    obtain ⟨t, ht, -, rfl⟩ := (hserve r).mp hr
    exact ⟨t, List.mem_of_getElem? ht, hplace _ (hserved.getElem?_of_some ht), rfl⟩
  · intro hdist hown y hy
    obtain ⟨t, ht, rfl⟩ := hserved.exists_of_getElem? hy
    have hmem := List.mem_of_getElem? ht
    obtain ⟨t', hmem', hx', hres'⟩ := hown _ ((hserve _).mpr ⟨t, ht, hdist.no_error t hmem, rfl⟩)
    exact hdist.result t' t hmem' hmem hx' hres'

end OwnTrace

/-- The node's trace of a block with one Ethereum transaction. -/
def sampleNodeTrace : BlockTrace := [some { result := some ⟨"\"call\""⟩ }]

/-- The trace of the mixed block: its Ethereum transaction, then its Cosmos one. -/
def sampleMixedTrace : BlockTrace :=
  [some { txHash := 1, result := some ⟨"\"call\""⟩ }, some (emptyTrace 0x700)]

/-- In the mixed block the Ethereum transaction comes first and is served its own trace, also after
the trace of another transaction was cached. -/
theorem own_trace_of_position_mixed :
    ∃ db₁ db₂, indexBlock (.tracing [sampleNodeTrace, sampleMixedTrace])
        { virtualizationEnabled := true } ∅ sampleMixedBlock (some sampleMixedResults) = .ok db₁ ∧
      (Backend.tracing db₁).traceBlock (.tracing [sampleNodeTrace, sampleMixedTrace]) 1 none
        (some sampleMixedBlock) = .ok (sampleMixedTrace, some db₂) ∧
      ServesOwnTrace (.tracing [sampleNodeTrace, sampleMixedTrace])
        (Backend.tracing (setTraceTransaction (.tracing []) db₂ 7 none [5])) 1 none
        sampleMixedTrace := by
  obtain ⟨db₁, h₁, hx, db₂, htrace⟩ : ∃ db₁, indexBlock (.tracing [sampleNodeTrace, sampleMixedTrace])
      { virtualizationEnabled := true } ∅ sampleMixedBlock (some sampleMixedResults) = .ok db₁ ∧
      db₁.get? (.txIndex 1 0) = some 1 ∧
      ∃ db₂, (Backend.tracing db₁).traceBlock (.tracing [sampleNodeTrace, sampleMixedTrace]) 1 none
        (some sampleMixedBlock) = .ok (sampleMixedTrace, some db₂) :=
    ⟨_, rfl, by decide +kernel, _, rfl⟩
  refine ⟨db₁, db₂, h₁, htrace, ?_⟩
  obtain ⟨R, hblock, -, hshown, hR⟩ := exists_holds_of_indexBlock h₁
  have hvisible : getRPCTransactionHashesByBlockHeight db₁ R.block.height = [1, 0x700] := by
    rw [hR.getRPCTransactionHashesByBlockHeight, hshown]
    decide +kernel
  have hfresh := (indexBlock_forgetsTraces h₁).block
  have hx' : db₁.get? (.txIndex R.block.height 0) = some 1 := by
    rw [hblock]
    exact hx
  rw [← hblock] at hfresh htrace
  obtain ⟨-, raw, -, -, -, hdb⟩ := Backend.traceBlock_fresh rfl (.inl rfl) (hfresh _) htrace
  obtain rfl := Option.some.inj hdb
  have hholds : Holds (setTraceTransaction (.tracing []) (setTraceBlockByHeight
      (.tracing [sampleNodeTrace, sampleMixedTrace]) db₁ R.block.height none raw) 7 none [5]) R :=
    (hR.insert_trace _ rfl).insert_trace _ rfl
  have hown := own_trace_of_position hR (hvisible ▸ by decide) (hvisible ▸ by decide)
    (hblock ▸ by decide +kernel) rfl (.inl rfl) (hfresh _) htrace
    (fun raw hraw => by
      obtain rfl : [1] = raw := Except.ok.inj hraw
      exact ⟨by decide, rfl⟩)
    hholds (by rw [setTraceTransaction, Std.ExtDTreeMap.get?_insert, dif_neg (by simp)])
    (rfl : (Backend.tracing _).indexer = _) hx'
  refine hown.1 ?_
  rw [hvisible, hblock]
  decide +kernel

/-- A block whose Cosmos transaction comes before its Ethereum transaction. -/
def sampleCosmosFirstBlock : Block := { sampleMixedBlock with txs := [[0], [1]] }

/-- Its results: those of the mixed block in the other order. -/
def sampleCosmosFirstResults : BlockResults :=
  { sampleMixedResults with txResults := sampleMixedResults.txResults.reverse }

def sampleCosmosFirstTrace : BlockTrace := sampleMixedTrace.reverse

/-- **A synthetic transaction in front shifts the traces.**  The only Ethereum transaction
of the block has the Ethereum position 0, where the empty trace of the Cosmos transaction
stands, and is served that one. -/
theorem synthetic_tx_shifts_traces :
    ∃ db₁ db₂, indexBlock (.tracing [sampleNodeTrace, sampleCosmosFirstTrace])
        { virtualizationEnabled := true } ∅ sampleCosmosFirstBlock
        (some sampleCosmosFirstResults) = .ok db₁ ∧
      (Backend.tracing db₁).traceBlock (.tracing [sampleNodeTrace, sampleCosmosFirstTrace]) 1 none
        (some sampleCosmosFirstBlock) = .ok (sampleCosmosFirstTrace, some db₂) ∧
      getRPCTransactionHashesByBlockHeight db₁ 1 = [0x700, 1] ∧
      db₁.get? (.txIndex 1 0) = some 1 ∧
      (Backend.tracing db₂).traceTransactionFromCachedBlock
        (.tracing [sampleNodeTrace, sampleCosmosFirstTrace]) 1 none =
          .ok (emptyTrace 0x700).result ∧
      ¬ ∃ t, some t ∈ sampleCosmosFirstTrace ∧ t.txHash = 1 ∧
        t.result = (emptyTrace 0x700).result := by
  refine ⟨_, _, rfl, rfl, by decide +kernel, by decide +kernel, by decide +kernel, ?_⟩
  rintro ⟨t, ht, hx, hr⟩
  simp only [sampleCosmosFirstTrace, sampleMixedTrace, List.mem_reverse, List.mem_cons,
    Option.some.injEq, List.not_mem_nil, or_false] at ht
  rcases ht with rfl | rfl
  · exact absurd hr (by decide)
  · exact absurd hx (by decide)

end EvmGateway
