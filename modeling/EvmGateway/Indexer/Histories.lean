import EvmGateway.Indexer.Refinement

/-!
# Histories of calls

What holds of the store after any history of calls, from the refinement of
`EvmGateway.Indexer.Refinement`.

* `reindexing_deterministic` — only the last call of each height matters.
* `history_integrity` — every index entry resolves, every record is reached through
  an index, and all of them agree on hash, height and position.
-/

namespace EvmGateway

open Lib

variable {h : ℕ} {E : Env} {db : DB} {R : BlockRecords}

/-! ## Deterministic reindexing -/

theorem Call.exec_forgetsTraces {c : Call} {db' : DB} {height : ℕ} (hc : c.resets = some height)
    (h : c.exec E db = .ok db') : ForgetsTraces db db' height := by
  cases c with
  | index kv block results =>
    obtain rfl := Option.some.inj hc
    exact indexBlock_forgetsTraces h
  | delete n =>
    obtain rfl := Option.some.inj hc
    obtain rfl := Except.ok.inj h
    exact deleteBlock_forgetsTraces db n
  | cacheTxTrace | cacheBlockTrace => cases hc

/-- Stores of blocks from the same sources have the same contents. -/
theorem Represents.get?_eq {S : ℕ → Option Source} {db₁ db₂ : DB}
    {A₁ A₂ : ℕ → Option BlockRecords} (h₁ : Represents db₁ A₁) (h₂ : Represents db₂ A₂)
    (hS₁ : Replays E S A₁) (hS₂ : Replays E S A₂) {k : Key} (hk : k.isTrace = false) :
    db₁.get? k = db₂.get? k := by
  -- one direction, for any two such stores
  have himp : ∀ {db₁ db₂ : DB} {A₁ A₂ : ℕ → Option BlockRecords}, Represents db₁ A₁ →
      Represents db₂ A₂ → Replays E S A₁ → Replays E S A₂ →
      ∀ v, db₁.get? k = some v → db₂.get? k = some v := by
    intro db₁ db₂ A₁ A₂ h₁ h₂ hS₁ hS₂ v hv
    obtain ⟨h, R₁, hA₁, hget⟩ := (h₁.get? k hk v).mp hv
    obtain ⟨src, hsrc, hR₁⟩ := hS₁.source hA₁
    obtain ⟨R₂, hA₂, hR₂⟩ := hS₂.records hsrc
    exact h₂.get?_of_get hA₂ (by rw [← hget, hR₂.get_eq hR₁ k])
  ext v
  exact ⟨himp h₁ h₂ hS₁ hS₂ v, himp h₂ h₁ hS₂ hS₁ v⟩

/-- **Deterministic reindexing.**  Two histories that leave each height with the same
last indexed block, or with none, end with the same non-trace contents; and every call
that replaces or removes a height forgets exactly the traces of that height. -/
theorem reindexing_deterministic (E : Env) (calls₁ calls₂ : List Call) (db₁ db₂ : DB)
    (hrun₁ : run (Call.exec E) ∅ calls₁ = .ok db₁) (hrun₂ : run (Call.exec E) ∅ calls₂ = .ok db₂)
    (hapart₁ : Throughout (Call.exec E) ∅ HeightsApart calls₁)
    (hapart₂ : Throughout (Call.exec E) ∅ HeightsApart calls₂)
    (hlast : ∀ h, lastIndexed calls₁ h = lastIndexed calls₂ h) :
    (∀ k : Key, k.isTrace = false → db₁.get? k = db₂.get? k) ∧
      ∀ (c : Call) (height : ℕ) (db db' : DB), c.resets = some height → c.exec E db = .ok db' →
        ForgetsTraces db db' height := by
  obtain ⟨A₁, hrep₁, hS₁⟩ := run_represents hrun₁ hapart₁
  obtain ⟨A₂, hrep₂, hS₂⟩ := run_represents hrun₂ hapart₂
  rw [funext hlast] at hS₁
  refine ⟨fun k hk => hrep₁.get?_eq hrep₂ hS₁ hS₂ hk, ?_⟩
  intro c height db db' hc h
  exact c.exec_forgetsTraces hc h

/-- Indexing a block twice in a row is indexing it once. -/
theorem reindexing_deterministic_twice :
    ∃ db₁ db₂, run (Call.exec .sample) ∅ (List.replicate 2
        (.index {} (sampleBlock 1 [1]) (some (sampleAnteFailed 1)))) = .ok db₁ ∧
      run (Call.exec .sample) ∅ [.index {} (sampleBlock 1 [1]) (some (sampleAnteFailed 1))] =
        .ok db₂ ∧
      ∀ k : Key, k.isTrace = false → db₁.get? k = db₂.get? k := by
  obtain ⟨db₁, h₁⟩ := exists_ok_of_isOk (x := run (Call.exec .sample) ∅ (List.replicate 2
    (.index {} (sampleBlock 1 [1]) (some (sampleAnteFailed 1))))) (by decide +kernel)
  obtain ⟨db₂, h₂⟩ := exists_ok_of_isOk (x := run (Call.exec .sample) ∅
    [.index {} (sampleBlock 1 [1]) (some (sampleAnteFailed 1))]) (by decide +kernel)
  refine ⟨db₁, db₂, h₁, h₂, (reindexing_deterministic .sample _ _ db₁ db₂ h₁ h₂
    (throughout_heightsApart (n := 1) ?_) (throughout_heightsApart (n := 1) ?_) ?_).1⟩
  · simp [Call.resets, sampleBlock]
  · simp [Call.resets, sampleBlock]
  · intro h
    simp [lastIndexed, Call.record, List.replicate]

/-! ## Referential integrity -/

structure DistinctHashes (db : DB) : Prop where
  txHash : ∀ h i h' i' x, db.get? (.rpcTxIndex h i) = some x → db.get? (.rpcTxIndex h' i') = some x →
    h = h' ∧ i = i'
  blockHash : ∀ h h' m m', db.get? (.blockMeta h) = some m → db.get? (.blockMeta h') = some m' →
    m.hash = m'.hash → h = h'

/-- The records of a height with meta `m` resolve and agree. -/
structure HeightIntegrity (db : DB) (h : ℕ) (m : CachedBlockMeta) : Prop where
  /-- the visible positions are `0, …, m.ethTxCount - 1` -/
  rpcTxIndex : ∀ i, (∃ x, db.get? (.rpcTxIndex h i) = some x) ↔ 0 ≤ i ∧ i < m.ethTxCount
  rpcTransaction : ∀ i x, db.get? (.rpcTxIndex h i) = some x →
    ∃ t, db.get? (.rpcTxHash x) = some t ∧ t.hash = x ∧ t.blockHash = some (hexToHash m.hash) ∧
      t.blockNumber = some h ∧ t.transactionIndex = some i.toNat
  receipt : ∀ i x, db.get? (.rpcTxIndex h i) = some x →
    ∃ r, db.get? (.receipt x) = some r ∧ r.transactionHash = x.hex ∧ r.blockHash = m.hash ∧
      r.blockNumber = h ∧ (r.transactionIndex : ℤ) = i
  logs : ∃ groups, db.get? (.blockLogs h) = some groups ∧ (groups.length : ℤ) = m.ethTxCount ∧
    ∀ i x r, db.get? (.rpcTxIndex h i) = some x → db.get? (.receipt x) = some r →
      groups[i.toNat]? = some r.logs
  txResult : ∀ j x, db.get? (.txIndex h j) = some x →
    ∃ r, db.get? (.txHash x) = some r ∧ r.height = h ∧ r.ethTxIndex = j
  blockHash : db.get? (.blockHash (hexToHash m.hash)) = some h

/-- Every record of the store is reached from the meta of its height. -/
structure Integrity (db : DB) : Prop where
  height : ∀ h m, db.get? (.blockMeta h) = some m → HeightIntegrity db h m
  /-- a height without a meta has no index entries and no logs -/
  without_meta : ∀ h, db.get? (.blockMeta h) = none → ∀ k : Key, k.height? = some h → db.get? k = none
  rpcTransaction : ∀ x t, db.get? (.rpcTxHash x) = some t →
    ∃ h m, db.get? (.blockMeta h) = some m ∧ RpcIndexed db h x
  receipt : ∀ x r, db.get? (.receipt x) = some r →
    ∃ h m, db.get? (.blockMeta h) = some m ∧ RpcIndexed db h x
  virtualMarker : ∀ x, db.get? (.virtualRPCtx x) = some () →
    ∃ h m, db.get? (.blockMeta h) = some m ∧ RpcIndexed db h x
  txResult : ∀ x r, db.get? (.txHash x) = some r →
    ∃ h m, db.get? (.blockMeta h) = some m ∧ EthIndexed db h x
  blockHash : ∀ x h, db.get? (.blockHash x) = some h →
    ∃ m, db.get? (.blockMeta h) = some m ∧ hexToHash m.hash = x

theorem DistinctHashes.heightsApart (hdb : DistinctHashes db) : HeightsApart db where
  txHash := fun h h' x ⟨i, hi⟩ ⟨i', hi'⟩ => (hdb.txHash h i h' i' x hi hi').1
  blockHash := hdb.blockHash

namespace Represents

variable {db : DB} {A : ℕ → Option BlockRecords}

theorem blockMeta_eq_some (hrep : Represents db A) {m : CachedBlockMeta} :
    db.get? (.blockMeta h) = some m ↔ ∃ R, A h = some R ∧ R.blockMeta = m := by
  constructor
  · intro hm
    obtain ⟨R, hA, hget⟩ := hrep.exists_of_get? rfl hm
    obtain rfl : R.block.height = h := hrep.height h R hA
    rw [R.get_blockMeta] at hget
    exact ⟨R, hA, Option.some.inj hget⟩
  · intro hex
    obtain ⟨R, hA, rfl⟩ := hex
    obtain rfl : R.block.height = h := hrep.height h R hA
    exact hrep.get?_of_get hA R.get_blockMeta

theorem rpcTxIndex_eq_some (hrep : Represents db A) (hA : A h = some R) {i : ℤ} {x : Hash} :
    db.get? (.rpcTxIndex h i) = some x ↔ 0 ≤ i ∧ R.hashes[i.toNat]? = some x := by
  have hheight : R.block.height = h := hrep.height h R hA
  constructor
  · intro hx
    obtain ⟨R', hA', hget⟩ := hrep.exists_of_get? rfl hx
    rw [hA] at hA'
    obtain rfl := Option.some.inj hA'
    exact (BlockRecords.get_rpcTxIndex.mp hget).2
  · intro hx
    exact hrep.get?_of_get hA (BlockRecords.get_rpcTxIndex.mpr ⟨hheight, hx⟩)

theorem nodup_hashes (hrep : Represents db A) (hdb : DistinctHashes db) (hA : A h = some R) :
    R.hashes.Nodup := by
  rw [List.nodup_iff_getElem?_ne_getElem?]
  intro i j hij hj heq
  have hxj : R.hashes[j]? = some R.hashes[j] := List.getElem?_eq_getElem hj
  have hget : ∀ n : ℕ, R.hashes[n]? = some R.hashes[j] →
      db.get? (.rpcTxIndex h n) = some R.hashes[j] :=
    fun n hn => (hrep.rpcTxIndex_eq_some hA).mpr ⟨by omega, by rwa [Int.toNat_natCast]⟩
  have hpos := (hdb.txHash h i h j _ (hget i (heq.trans hxj)) (hget j hxj)).2
  omega

/-- The records of a represented block resolve and agree. -/
theorem heightIntegrity (hrep : Represents db A) (hdb : DistinctHashes db) (hA : A h = some R)
    (hzero : R.block.ethHash ≠ 0) :
    HeightIntegrity db h R.blockMeta := by
  have hheight : R.block.height = h := hrep.height h R hA
  have hnd : R.hashes.Nodup := hrep.nodup_hashes hdb hA
  -- an index entry is the hash of the entry at its position
  have hentry : ∀ i x, db.get? (.rpcTxIndex h i) = some x →
      ∃ e, R.entries[i.toNat]? = some e ∧ e.hash = x ∧ 0 ≤ i := by
    intro i x hx
    obtain ⟨h0, hx⟩ := (hrep.rpcTxIndex_eq_some hA).mp hx
    rw [R.getElem?_hashes, Option.map_eq_some_iff] at hx
    obtain ⟨e, he, hx⟩ := hx
    exact ⟨e, he, hx, h0⟩
  have hreceipt : ∀ e ∈ R.entries, db.get? (.receipt e.hash) = some e.receipt := fun e he =>
    hrep.get?_of_get hA ((BlockRecords.get_receipt hnd).mpr ⟨e, he, rfl, rfl⟩)
  subst hheight
  refine ⟨?_, ?_, ?_, ?_, ?_, ?_⟩
  · intro i
    rw [R.meta_count]
    constructor
    · intro hex
      obtain ⟨x, hx⟩ := hex
      obtain ⟨e, he, -, h0⟩ := hentry i x hx
      have := (List.getElem?_eq_some_iff.mp he).1
      omega
    · intro hi
      have hlt : i.toNat < R.entries.length := by omega
      exact ⟨R.entries[i.toNat].hash, (hrep.rpcTxIndex_eq_some hA).mpr
        ⟨hi.1, by simp [R.getElem?_hashes, hlt]⟩⟩
  · intro i x hx
    obtain ⟨e, he, rfl, h0⟩ := hentry i x hx
    have hat := (R.entry_at _ e he).tx_position hzero
    refine ⟨e.tx, hrep.get?_of_get hA ((BlockRecords.get_rpcTxHash hnd).mpr
      ⟨e, List.mem_of_getElem? he, rfl, rfl⟩), rfl, ?_, hat.2.1, hat.2.2⟩
    rw [R.meta_hash, hexToHash_hex]
    exact hat.1
  · intro i x hx
    obtain ⟨e, he, rfl, h0⟩ := hentry i x hx
    have hat := R.entry_at _ e he
    refine ⟨e.receipt, hreceipt e (List.mem_of_getElem? he), hat.receipt_hash, ?_,
      hat.receipt_blockNumber, ?_⟩
    · rw [R.meta_hash]
      exact hat.receipt_blockHash
    · rw [hat.receipt_index]
      exact Int.toNat_of_nonneg h0
  · refine ⟨R.logs, hrep.get?_of_get hA R.get_blockLogs, ?_, ?_⟩
    · simp [BlockRecords.logs, R.meta_count]
    · intro i x r hx hr
      obtain ⟨e, he, rfl, -⟩ := hentry i x hx
      rw [hreceipt e (List.mem_of_getElem? he)] at hr
      simp [BlockRecords.logs, he, Option.some.inj hr]
  · intro j x hx
    obtain ⟨R', hA', hget⟩ := hrep.exists_of_get? rfl hx
    rw [hA] at hA'
    obtain rfl := Option.some.inj hA'
    obtain ⟨-, p, e, hp, heth, hj, rfl⟩ := BlockRecords.get_txIndex.mp hget
    obtain ⟨r, hr⟩ := Option.isSome_iff_exists.mp heth
    have hpos := (R.entry_at p e hp).result_position r hr
    refine ⟨r, hrep.get?_of_get hA ((BlockRecords.get_txHash hnd).mpr
      ⟨e, List.mem_of_getElem? hp, rfl, hr⟩), hpos.1, ?_⟩
    rw [hpos.2]
    exact hj
  · rw [R.meta_hash, hexToHash_hex]
    exact hrep.get?_of_get hA R.get_blockHash

theorem integrity (hrep : Represents db A) (hdb : DistinctHashes db)
    (hzero : ∀ h R, A h = some R → R.block.ethHash ≠ 0) : Integrity db := by
  -- a stored record belongs to a block, whose meta is there
  have howner : ∀ (k : Key) (v : k.Val), k.isTrace = false → db.get? k = some v →
      ∃ R, A R.block.height = some R ∧ db.get? (.blockMeta R.block.height) = some R.blockMeta ∧
        R.get k = some v := by
    intro k v hk hv
    obtain ⟨h, R, hA, hget⟩ := (hrep.get? k hk v).mp hv
    obtain rfl : R.block.height = h := hrep.height h R hA
    exact ⟨R, hA, hrep.get?_of_get hA R.get_blockMeta, hget⟩
  have hlisted : ∀ (k : Key) (v : k.Val) (x : Hash), k.isTrace = false → db.get? k = some v →
      (∀ R : BlockRecords, R.Owns k → x ∈ R.hashes) →
      ∃ h m, db.get? (.blockMeta h) = some m ∧ RpcIndexed db h x := by
    intro k v x hk hv hx
    obtain ⟨R, hA, hm, hget⟩ := howner k v hk hv
    obtain ⟨i, hi⟩ := BlockRecords.exists_rpcTxIndex (hx R (BlockRecords.owns_of_get hget))
    exact ⟨_, _, hm, i, hrep.get?_of_get hA hi⟩
  refine ⟨?_, ?_, ?_, ?_, ?_, ?_, ?_⟩
  · intro h m hm
    obtain ⟨R, hA, rfl⟩ := hrep.blockMeta_eq_some.mp hm
    exact hrep.heightIntegrity hdb hA (hzero h R hA)
  · intro h hnone k hk
    by_contra hsome
    obtain ⟨v, hv⟩ := Option.ne_none_iff_exists'.mp hsome
    obtain ⟨R, hA, -⟩ := hrep.exists_of_get? hk hv
    rw [hrep.blockMeta_eq_some.mpr ⟨R, hA, rfl⟩] at hnone
    cases hnone
  · exact fun x t ht => hlisted _ t x rfl ht fun _ h => h
  · exact fun x r hr => hlisted _ r x rfl hr fun _ h => h
  · exact fun x hx => hlisted (.virtualRPCtx x) () x rfl hx fun _ h => h
  · intro x r hr
    obtain ⟨R, hA, hm, hget⟩ := howner _ r rfl hr
    obtain ⟨i, hi⟩ := BlockRecords.exists_txIndex hget
    exact ⟨_, _, hm, i, hrep.get?_of_get hA hi⟩
  · intro x h hx
    obtain ⟨R, hA, hm, hget⟩ := howner _ h rfl hx
    have hown : x = R.block.ethHash := BlockRecords.owns_of_get hget
    subst hown
    rw [R.get_blockHash] at hget
    obtain rfl := Option.some.inj hget
    exact ⟨_, hm, by rw [R.meta_hash, hexToHash_hex]⟩

end Represents

theorem Represents.distinctHashes {A : ℕ → Option BlockRecords} (hrep : Represents db A)
    (hdb : HeightsApart db) (hnd : ∀ h R, A h = some R → R.hashes.Nodup) : DistinctHashes db where
  txHash := by
    intro h i h' i' x hi hi'
    obtain rfl : h = h' := hdb.txHash h h' x ⟨i, hi⟩ ⟨i', hi'⟩
    obtain ⟨R, hA, -⟩ := hrep.exists_of_get? rfl hi
    obtain ⟨h0, hx⟩ := (hrep.rpcTxIndex_eq_some hA).mp hi
    obtain ⟨h0', hx'⟩ := (hrep.rpcTxIndex_eq_some hA).mp hi'
    have hpos : i.toNat = i'.toNat :=
      (List.getElem?_inj (List.getElem?_eq_some_iff.mp hx).1 (hnd h R hA)).mp (hx.trans hx'.symm)
    exact ⟨rfl, by omega⟩
  blockHash := hdb.blockHash

/-- **Referential integrity.**  After any history of successful calls, in any mode per
call, with non-zero block hashes and with hashes that are distinct across the indexed
positions, every record resolves and is reached. -/
theorem history_integrity (E : Env) (calls : List Call) (db : DB)
    (hrun : run (Call.exec E) ∅ calls = .ok db)
    (hdistinct : Throughout (Call.exec E) ∅ DistinctHashes calls)
    (hzero : ∀ kv block results, .index kv block results ∈ calls → block.ethHash ≠ 0) :
    Integrity db := by
  have hapart : Throughout (Call.exec E) ∅ HeightsApart calls :=
    fun pre db' hpre h => (hdistinct pre db' hpre h).heightsApart
  obtain ⟨A, hrep, hS⟩ := run_represents hrun hapart
  refine hrep.integrity (hdistinct.last hrun) ?_
  intro h R hA
  obtain ⟨src, hsrc, hR⟩ := hS.source hA
  rw [hR.block]
  exact hzero _ _ _ (mem_of_lastIndexed hsrc)

theorem SourcesApart.throughout_distinctHashes {calls : List Call} (hapart : SourcesApart E calls)
    (hnd : ∀ src : Source, .index src.kv src.block src.results ∈ calls → (src.shown E).Nodup) :
    Throughout (Call.exec E) ∅ DistinctHashes calls := by
  intro pre db hpre hrun
  have hpreApart : Throughout (Call.exec E) ∅ HeightsApart pre :=
    SourcesApart.throughout fun src src' hmem hmem' =>
      hapart src src' (hpre.subset hmem) (hpre.subset hmem')
  obtain ⟨A, hrep, hS⟩ := run_represents hrun hpreApart
  refine hrep.distinctHashes (hpreApart.last hrun) ?_
  intro h R hA
  obtain ⟨src, hsrc, hR⟩ := hS.source hA
  rw [← hR.shown]
  exact hnd src (hpre.subset (mem_of_lastIndexed hsrc))

def sampleTwoModes : List Call :=
  [.index { virtualizationEnabled := true } sampleMixedBlock (some sampleMixedResults),
    .index {} (sampleBlock 2 [2]) (some (sampleAnteFailed 2))]

theorem sampleTwoModes_sources {src : Source}
    (h : .index src.kv src.block src.results ∈ sampleTwoModes) :
    src = ⟨{ virtualizationEnabled := true }, sampleMixedBlock, some sampleMixedResults⟩ ∨
      src = ⟨{}, sampleBlock 2 [2], some (sampleAnteFailed 2)⟩ := by
  obtain ⟨kv, block, results⟩ := src
  simpa [sampleTwoModes] using h

/-- Three hashes, one of them synthetic, at two heights that were indexed in different modes. -/
theorem history_integrity_sample :
    ∃ db, run (Call.exec .sample) ∅ sampleTwoModes = .ok db ∧ Integrity db := by
  obtain ⟨db, h⟩ := exists_ok_of_isOk (x := run (Call.exec .sample) ∅ sampleTwoModes)
    (by decide +kernel)
  have hapart : SourcesApart .sample sampleTwoModes := by
    intro src src' hmem hmem' hne
    have hshown : Source.shown .sample ⟨{}, sampleBlock 2 [2], some (sampleAnteFailed 2)⟩ = [2] ∧
        2 ∉ Source.shown .sample ⟨{ virtualizationEnabled := true }, sampleMixedBlock,
          some sampleMixedResults⟩ := by
      decide +kernel
    rcases sampleTwoModes_sources hmem with rfl | rfl <;>
      rcases sampleTwoModes_sources hmem' with rfl | rfl
    · exact absurd rfl hne
    · rw [hshown.1, List.disjoint_singleton]
      exact ⟨by decide +kernel, hshown.2⟩
    · rw [hshown.1, List.singleton_disjoint]
      exact ⟨by decide +kernel, hshown.2⟩
    · exact absurd rfl hne
  have hnd : ∀ src : Source, .index src.kv src.block src.results ∈ sampleTwoModes →
      (src.shown .sample).Nodup := by
    intro src hmem
    rcases sampleTwoModes_sources hmem with rfl | rfl <;> decide +kernel
  refine ⟨db, h, history_integrity .sample _ db h (hapart.throughout_distinctHashes hnd) ?_⟩
  intro kv block results hmem
  rcases @sampleTwoModes_sources ⟨kv, block, results⟩ hmem with heq | heq <;>
    obtain ⟨rfl, rfl, rfl⟩ := Source.mk.inj heq <;> decide +kernel

end EvmGateway
