import EvmGateway.Indexer.Reset
import EvmGateway.Lib.Run

/-!
# The store as a map from heights to blocks

What the indexer is for: remember, for each height, the block that was indexed there
last.  The abstract store is `ℕ → Option BlockRecords`, indexing a block is an update at
its height and deleting one is an update with `none`.  `Represents db A` says that the
non-trace collections of `db` hold exactly what the blocks of `A` store.

The concrete store mixes keys of heights with keys of hashes, so a step refines the
abstract one only while no two heights share a hash (`HeightsApart`).
`Represents.indexBlock` and `Represents.deleteBlock` are the two simulation steps,
`run_represents` is the refinement for whole histories of calls.
-/

namespace EvmGateway

open Lib

variable {E : Env} {k : Key} {h n : ℕ} {R R' : BlockRecords} {A : ℕ → Option BlockRecords}
  {db db' : DB} {calls : List Call} {S : ℕ → Option Source} {src : Source}

/-! ## Histories -/

/-- A call that changes the store. -/
inductive Call where
  | index (kv : KVIndexer) (block : Block) (results : Option BlockResults)
  | delete (height : ℕ)
  | cacheTxTrace (hash : Hash) (config : Option TraceConfig) (raw : Bytes)
  | cacheBlockTrace (height : ℕ) (config : Option TraceConfig) (raw : Bytes)

/-- Perform a call. -/
def Call.exec (E : Env) (db : DB) : Call → Except Err DB
  | .index kv block results => indexBlock E kv db block results
  | .delete height => .ok (deleteBlock db height)
  | .cacheTxTrace hash config raw => .ok (setTraceTransaction E db hash config raw)
  | .cacheBlockTrace height config raw => .ok (setTraceBlockByHeight E db height config raw)

structure Source where
  kv : KVIndexer
  block : Block
  results : Option BlockResults

def Call.record (S : ℕ → Option Source) : Call → ℕ → Option Source
  | .index kv block results => Function.update S block.height (some ⟨kv, block, results⟩)
  | .delete height => Function.update S height none
  | .cacheTxTrace _ _ _ | .cacheBlockTrace _ _ _ => S

/-- What each height was last indexed from; nothing if it was deleted since. -/
def lastIndexed (calls : List Call) : ℕ → Option Source :=
  calls.foldl Call.record fun _ => none

theorem lastIndexed_concat (calls : List Call) (c : Call) :
    lastIndexed (calls ++ [c]) = c.record (lastIndexed calls) := by
  simp [lastIndexed]

theorem mem_of_lastIndexed (hsrc : lastIndexed calls h = some src) :
    .index src.kv src.block src.results ∈ calls := by
  induction calls using List.reverseRecOn with
  | nil => cases hsrc
  | append_singleton calls c ih =>
    rw [lastIndexed_concat] at hsrc
    -- either the last call recorded it, or it was there before
    have hcases : c = .index src.kv src.block src.results ∨ lastIndexed calls h = some src := by
      cases c with
      | index kv block results =>
        by_cases hh : h = block.height
        · subst hh
          simp only [Call.record, Function.update_self, Option.some.injEq] at hsrc
          exact .inl (by rw [← hsrc])
        · simp only [Call.record, Function.update_of_ne hh] at hsrc
          exact .inr hsrc
      | delete n =>
        by_cases hh : h = n
        · subst hh
          simp [Call.record] at hsrc
        · simp only [Call.record, Function.update_of_ne hh] at hsrc
          exact .inr hsrc
      | cacheTxTrace | cacheBlockTrace => exact .inr hsrc
    rcases hcases with rfl | hprev
    · exact List.mem_append_right _ (List.mem_singleton.mpr rfl)
    · exact List.mem_append_left _ (ih hprev)

/-- The records are those of the block that was indexed. -/
structure Source.Yields (E : Env) (src : Source) (R : BlockRecords) : Prop where
  block : R.block = src.block
  writes : ∃ n, blockWrites E src.kv src.block src.results = .ok (R.writes, n)
  mode : R.blockMeta.virtualizedCosmosEvents = src.kv.virtualizationEnabled
  hashes : R.hashes = shownByBlock E src.kv.virtualizationEnabled src.block src.results

def Source.shown (E : Env) (src : Source) : List Hash :=
  shownByBlock E src.kv.virtualizationEnabled src.block src.results

theorem Source.Yields.shown (h : src.Yields E R) :
    src.shown E = R.hashes := h.hashes.symm

theorem Source.Yields.get_eq (h : src.Yields E R) (h' : src.Yields E R') (k : Key) :
    R.get k = R'.get k := by
  obtain ⟨n, hn⟩ := h.writes
  obtain ⟨n', hn'⟩ := h'.writes
  rw [hn] at hn'
  have hwrites : R.writes = R'.writes := (Prod.mk.inj (Except.ok.inj hn')).1
  rw [BlockRecords.get, BlockRecords.get, hwrites]

/-! ## Representation -/

def Key.height? : Key → Option ℕ
  | .txIndex n _ | .rpcTxIndex n _ | .blockLogs n | .blockMeta n => some n
  | _ => none

theorem Key.isTrace_of_height? (h : k.height? = some n) : k.isTrace = false := by
  cases k <;> simp_all [Key.height?, Key.isTrace]

theorem BlockRecords.height_of_owns (h : R.Owns k) (hk : k.height? = some n) :
    n = R.block.height := by
  cases k <;> simp_all [Key.height?, BlockRecords.Owns]

/-- The store holds exactly the records of the blocks, traces aside. -/
structure Represents (db : DB) (A : ℕ → Option BlockRecords) : Prop where
  height : ∀ h R, A h = some R → R.block.height = h
  get? : ∀ k : Key, k.isTrace = false → ∀ v : k.Val,
    db.get? k = some v ↔ ∃ h R, A h = some R ∧ R.get k = some v

/-- Blocks at different heights share no transaction and no block hash. -/
def PairwiseApart (A : ℕ → Option BlockRecords) : Prop :=
  ∀ h h' R R', A h = some R → A h' = some R' → h ≠ h' → R.Apart R'

namespace Represents

variable {db : DB} {A : ℕ → Option BlockRecords}

theorem get?_of_get (hrep : Represents db A) (hA : A h = some R) {v : k.Val}
    (hv : R.get k = some v) : db.get? k = some v :=
  (hrep.get? k (BlockRecords.owns_of_get hv).isTrace v).mpr ⟨h, R, hA, hv⟩

theorem exists_of_get? (hrep : Represents db A) (hk : k.height? = some h) {v : k.Val}
    (hv : db.get? k = some v) : ∃ R, A h = some R ∧ R.get k = some v := by
  obtain ⟨h', R, hA, hget⟩ := (hrep.get? k (Key.isTrace_of_height? hk) v).mp hv
  have hheight := BlockRecords.height_of_owns (BlockRecords.owns_of_get hget) hk
  rw [hrep.height h' R hA] at hheight
  exact ⟨R, hheight ▸ hA, hget⟩

theorem mem_hashes_of_indexed (hrep : Represents db A) {x : Hash}
    (hx : EthIndexed db h x ∨ RpcIndexed db h x) : ∃ R, A h = some R ∧ x ∈ R.hashes := by
  rcases hx with ⟨i, hi⟩ | ⟨i, hi⟩
  · obtain ⟨R, hA, hget⟩ := hrep.exists_of_get? rfl hi
    exact ⟨R, hA, BlockRecords.mem_hashes_of_txIndex hget⟩
  · obtain ⟨R, hA, hget⟩ := hrep.exists_of_get? rfl hi
    exact ⟨R, hA, BlockRecords.mem_hashes_of_rpcTxIndex hget⟩

/-- A reset reaches everything the block of the height stores. -/
theorem touched_of_get (hrep : Represents db A) (hA : A h = some R) {v : k.Val}
    (hv : R.get k = some v) : ResetTouches db h k := by
  have hheight : R.block.height = h := hrep.height h R hA
  have howns := BlockRecords.owns_of_get hv
  subst hheight
  cases k with
  | txHash x =>
    obtain ⟨i, hi⟩ := BlockRecords.exists_txIndex hv
    exact ⟨i, hrep.get?_of_get hA hi⟩
  | rpcTxHash x | receipt x | virtualRPCtx x =>
    obtain ⟨i, hi⟩ := BlockRecords.exists_rpcTxIndex howns
    exact .inr ⟨i, hrep.get?_of_get hA hi⟩
  | txIndex n i | rpcTxIndex n i =>
    obtain rfl : n = R.block.height := howns
    refine ⟨rfl, ?_⟩
    rw [hrep.get?_of_get hA hv]
    rfl
  | blockLogs n | blockMeta n => exact howns
  | blockHash x =>
    refine ⟨R.blockMeta, hrep.get?_of_get hA R.get_blockMeta, ?_⟩
    rw [R.meta_hash, hexToHash_hex]
    exact howns.symm
  | traceTx x c | traceBlock n c => exact howns.elim

/-- A reset reaches nothing that a block of another height owns. -/
theorem not_owns_of_touched (hrep : Represents db A) (hapart : PairwiseApart A) {h' : ℕ}
    (hne : h ≠ h') (hA' : A h' = some R') (ht : ResetTouches db h k) : ¬ R'.Owns k := by
  have hheight : R'.block.height = h' := hrep.height h' R' hA'
  cases k with
  | txHash x | rpcTxHash x | receipt x | virtualRPCtx x =>
    obtain ⟨R, hA, hx⟩ := hrep.mem_hashes_of_indexed (h := h) (x := x)
      (by first | exact ht | exact .inl ht)
    exact (hapart h h' R R' hA hA' hne).hashes x hx
  | txIndex n i | rpcTxIndex n i =>
    intro howns
    exact hne (ht.1.symm.trans (howns.trans hheight))
  | blockLogs n | blockMeta n =>
    intro howns
    exact hne (ht.symm.trans (howns.trans hheight))
  | blockHash x =>
    obtain ⟨m, hm, rfl⟩ := ht
    obtain ⟨R, hA, hget⟩ := hrep.exists_of_get? rfl hm
    obtain rfl : R.block.height = h := hrep.height h R hA
    rw [R.get_blockMeta] at hget
    obtain rfl := Option.some.inj hget
    intro howns
    rw [R.meta_hash, hexToHash_hex] at howns
    exact (hapart _ h' R R' hA hA' hne).blockHash howns
  | traceTx x c | traceBlock n c => exact id

/-! ### Simulation -/

theorem update_none_eq_some {h' : ℕ} :
    Function.update A h none h' = some R ↔ h' ≠ h ∧ A h' = some R := by
  by_cases hh : h' = h
  · simp [hh]
  · simp [hh]

theorem deleteBlock (hrep : Represents db A) (hapart : PairwiseApart A) (h : ℕ) :
    Represents (EvmGateway.deleteBlock db h) (Function.update A h none) where
  height := fun h' R hA => hrep.height h' R (update_none_eq_some.mp hA).2
  get? := by
    intro k hk v
    simp only [update_none_eq_some]
    by_cases ht : ResetTouches db h k
    · rw [get?_deleteBlock_of_touched ht]
      constructor
      · intro hv
        cases hv
      · intro hex
        obtain ⟨h', R, ⟨hne, hA⟩, hv⟩ := hex
        exact absurd (BlockRecords.owns_of_get hv) (hrep.not_owns_of_touched hapart hne.symm hA ht)
    · rw [get?_deleteBlock_of_not_touched ht, hrep.get? k hk v]
      constructor
      · intro hex
        obtain ⟨h', R, hA, hv⟩ := hex
        have hne : h' ≠ h := by
          rintro rfl
          exact ht (hrep.touched_of_get hA hv)
        exact ⟨h', R, ⟨hne, hA⟩, hv⟩
      · intro hex
        obtain ⟨h', R, ⟨-, hA⟩, hv⟩ := hex
        exact ⟨h', R, hA, hv⟩

/-- Storing the records of a block at a free height is remembering the block. -/
theorem store {db' : DB} (hrep : Represents db A) {R : BlockRecords} (hfree : A R.block.height = none)
    (hapart : ∀ h' R', A h' = some R' → R.Apart R')
    (hget : ∀ k, db'.get? k = (R.get k).or (db.get? k)) :
    Represents db' (Function.update A R.block.height (some R)) where
  height := by
    intro h' R' hA
    by_cases hh : h' = R.block.height
    · subst hh
      rw [Function.update_self] at hA
      rw [Option.some.inj hA]
    · rw [Function.update_of_ne hh] at hA
      exact hrep.height h' R' hA
  get? := by
    intro k hk v
    rw [hget, Option.or_eq_some_iff]
    constructor
    · intro h
      rcases h with h | ⟨-, h⟩
      · exact ⟨_, R, Function.update_self .., h⟩
      · obtain ⟨h', R', hA, hv⟩ := (hrep.get? k hk v).mp h
        have hne : h' ≠ R.block.height := by
          rintro rfl
          rw [hfree] at hA
          cases hA
        exact ⟨h', R', by rwa [Function.update_of_ne hne], hv⟩
    · intro hex
      obtain ⟨h', R', hA, hv⟩ := hex
      by_cases hh : h' = R.block.height
      · subst hh
        rw [Function.update_self] at hA
        obtain rfl := Option.some.inj hA
        exact .inl hv
      · rw [Function.update_of_ne hh] at hA
        -- the new block does not own a key of another block
        have hnot : ¬ R.Owns k := fun howns =>
          (hapart h' R' hA).not_owns howns (BlockRecords.owns_of_get hv)
        exact .inr ⟨BlockRecords.get_eq_none hnot, hrep.get?_of_get hA hv⟩

end Represents

/-! ## Distinct hashes -/

structure HeightsApart (db : DB) : Prop where
  txHash : ∀ h h' x, RpcIndexed db h x → RpcIndexed db h' x → h = h'
  blockHash : ∀ h h' m m', db.get? (.blockMeta h) = some m → db.get? (.blockMeta h') = some m' →
    m.hash = m'.hash → h = h'

namespace HeightsApart

variable {db : DB}

/-- Blocks whose indexes and metas are in such a store are apart. -/
theorem apart (hdb : HeightsApart db) (hne : R.block.height ≠ R'.block.height)
    (hR : ∀ k v, k.height? = some R.block.height → R.get k = some v → db.get? k = some v)
    (hR' : ∀ k v, k.height? = some R'.block.height → R'.get k = some v → db.get? k = some v) :
    R.Apart R' where
  height := hne
  hashes := by
    intro x hx hx'
    obtain ⟨i, hi⟩ := BlockRecords.exists_rpcTxIndex hx
    obtain ⟨i', hi'⟩ := BlockRecords.exists_rpcTxIndex hx'
    exact hne (hdb.txHash _ _ x ⟨i, hR _ _ rfl hi⟩ ⟨i', hR' _ _ rfl hi'⟩)
  blockHash := by
    intro heq
    refine hne (hdb.blockHash _ _ _ _ (hR _ _ rfl R.get_blockMeta) (hR' _ _ rfl R'.get_blockMeta) ?_)
    rw [R.meta_hash, R'.meta_hash, heq]

theorem pairwiseApart (hdb : HeightsApart db) (hrep : Represents db A) : PairwiseApart A := by
  intro h h' R R' hA hA' hne
  refine hdb.apart ?_ (fun _ _ _ => hrep.get?_of_get hA) (fun _ _ _ => hrep.get?_of_get hA')
  rwa [hrep.height h R hA, hrep.height h' R' hA']

end HeightsApart

/-! ## Refinement -/

/-- The blocks come from the given sources. -/
def Replays (E : Env) (S : ℕ → Option Source) (A : ℕ → Option BlockRecords) : Prop :=
  ∀ h, Option.Rel (Source.Yields E) (S h) (A h)

theorem Replays.source (hrel : Replays E S A) (hA : A h = some R) :
    ∃ src, S h = some src ∧ src.Yields E R := by
  have hh := hrel h
  rw [hA] at hh
  generalize S h = o at hh ⊢
  cases hh with
  | some hR => exact ⟨_, rfl, hR⟩

theorem Replays.records (hrel : Replays E S A) (hS : S h = some src) :
    ∃ R, A h = some R ∧ src.Yields E R := by
  have hh := hrel h
  rw [hS] at hh
  generalize A h = o at hh ⊢
  cases hh with
  | some hR => exact ⟨_, rfl, hR⟩

theorem Replays.update (hrel : Replays E S A) (h : ℕ) {src : Option Source}
    {R : Option BlockRecords} (hsrc : Option.Rel (Source.Yields E) src R) :
    Replays E (Function.update S h src) (Function.update A h R) := by
  intro h'
  by_cases hh : h' = h
  · subst hh
    simpa using hsrc
  · rw [Function.update_of_ne hh, Function.update_of_ne hh]
    exact hrel h'

theorem get?_insert_trace (db : DB) {k' : Key} (v : k.Val) (hk : k.isTrace = true)
    (hk' : k'.isTrace = false) : (db.insert k v).get? k' = db.get? k' := by
  have hne : k ≠ k' := by
    rintro rfl
    rw [hk] at hk'
    cases hk'
  rw [Std.ExtDTreeMap.get?_insert, dif_neg]
  simpa using hne

theorem Represents.cacheTrace (hrep : Represents db A) (v : k.Val) (hk : k.isTrace = true) :
    Represents (db.insert k v) A where
  height := hrep.height
  get? := by
    intro k' hk' v'
    rw [get?_insert_trace db v hk hk']
    exact hrep.get? k' hk' v'

/-- **Indexing a block is an update at its height**, as long as the block shares no
hash with another height before and after. -/
theorem Represents.indexBlock {kv : KVIndexer} {block : Block} {results : Option BlockResults}
    (hrep : Represents db A) (hdb : HeightsApart db) (hdb' : HeightsApart db')
    (h : indexBlock E kv db block results = .ok db') :
    ∃ R : BlockRecords, Source.Yields E ⟨kv, block, results⟩ R ∧
      Represents db' (Function.update A block.height (some R)) := by
  obtain ⟨ws, n, R, hws, hblock, hwrites, hmode, hshown, hget⟩ := indexBlock_ok h
  refine ⟨R, ⟨hblock, ⟨n, by rw [hws, hwrites]⟩, hmode, hshown⟩, ?_⟩
  have hdel := hrep.deleteBlock (hdb.pairwiseApart hrep) block.height
  rw [← hblock] at hget hdel ⊢
  have hstore := @Represents.store _ _ db' hdel R (by simp) ?_ hget
  · rwa [Function.update_idem] at hstore
  · intro h' R' hA'
    have hne : R.block.height ≠ R'.block.height := by
      rw [hdel.height h' R' hA']
      exact (Represents.update_none_eq_some.mp hA').1.symm
    refine hdb'.apart hne ?_ ?_
    · intro k v _ hv
      rw [hget, hv]
      rfl
    · intro k v hk hv
      -- the new block stores nothing at another height
      have hnot : ¬ R.Owns k := fun howns => hne (BlockRecords.height_of_owns howns hk).symm
      rw [hget, BlockRecords.get_eq_none hnot, hdel.get?_of_get hA' hv]
      rfl

/-- Every call refines its effect on the abstract store. -/
theorem Represents.exec {c : Call} (hrep : Represents db A) (hS : Replays E S A)
    (hdb : HeightsApart db) (hdb' : HeightsApart db') (h : c.exec E db = .ok db') :
    ∃ A', Represents db' A' ∧ Replays E (c.record S) A' := by
  cases c with
  | index kv block results =>
    obtain ⟨R, hR, hrep'⟩ := hrep.indexBlock hdb hdb' h
    exact ⟨_, hrep', hS.update block.height (.some hR)⟩
  | delete height =>
    obtain rfl := Except.ok.inj h
    exact ⟨_, hrep.deleteBlock (hdb.pairwiseApart hrep) height, hS.update height .none⟩
  | cacheTxTrace hash config raw | cacheBlockTrace height config raw =>
    obtain rfl := Except.ok.inj h
    exact ⟨A, hrep.cacheTrace _ rfl, hS⟩

/-! ### Histories of blocks that share no hash -/

/-- The height a call replaces or removes. -/
def Call.resets : Call → Option ℕ
  | .index _ block _ => some block.height
  | .delete height => some height
  | .cacheTxTrace _ _ _ | .cacheBlockTrace _ _ _ => none

/-- What a call leaves in the store under a key was there before or is of the block the call
indexed. -/
theorem Call.exists_source_of_exec {c : Call} (h : c.exec E db = .ok db') (hk : k.isTrace = false)
    {v : k.Val} (hv : db'.get? k = some v) :
    db.get? k = some v ∨ ∃ (src : Source) (R : BlockRecords),
      c = .index src.kv src.block src.results ∧ src.Yields E R ∧ R.get k = some v := by
  cases c with
  | index kv block results =>
    obtain ⟨ws, n, R, hws, hblock, rfl, hmode, hshown, hget⟩ := indexBlock_ok h
    rw [hget, Option.or_eq_some_iff] at hv
    rcases hv with hv | ⟨-, hv⟩
    · exact .inr ⟨⟨kv, block, results⟩, R, rfl, ⟨hblock, ⟨n, hws⟩, hmode, hshown⟩, hv⟩
    · exact .inl (get?_of_deleteBlock hv)
  | delete m =>
    obtain rfl := Except.ok.inj h
    exact .inl (get?_of_deleteBlock hv)
  | cacheTxTrace | cacheBlockTrace =>
    obtain rfl := Except.ok.inj h
    exact .inl ((get?_insert_trace db _ rfl hk).symm.trans hv)

/-- **What the store holds** was written by a block of its history. -/
theorem exists_source_of_get? (hrun : run (Call.exec E) ∅ calls = .ok db) (hk : k.isTrace = false)
    {v : k.Val} (hv : db.get? k = some v) :
    ∃ (src : Source) (R : BlockRecords), Call.index src.kv src.block src.results ∈ calls ∧
      src.Yields E R ∧ R.get k = some v := by
  refine run_induction (fun calls db => ∀ v : k.Val, db.get? k = some v →
    ∃ (src : Source) (R : BlockRecords), Call.index src.kv src.block src.results ∈ calls ∧
      src.Yields E R ∧ R.get k = some v) ?_ ?_ hrun v hv
  · intro v hv
    simp at hv
  · intro calls c db₁ db₂ _ ih hstep v hv
    rcases Call.exists_source_of_exec hstep hk hv with hold | ⟨src, R, rfl, hR, hget⟩
    · obtain ⟨src, R, hmem, hR, hget⟩ := ih v hold
      exact ⟨src, R, List.mem_append_left _ hmem, hR, hget⟩
    · exact ⟨src, R, by simp, hR, hget⟩

/-- No two indexed blocks share a hash, except at one height. -/
def SourcesApart (E : Env) (calls : List Call) : Prop :=
  ∀ src src' : Source, .index src.kv src.block src.results ∈ calls →
    .index src'.kv src'.block src'.results ∈ calls → src.block.height ≠ src'.block.height →
    src.block.ethHash ≠ src'.block.ethHash ∧ (src.shown E).Disjoint (src'.shown E)

/-- A history of such blocks keeps heights apart. -/
theorem SourcesApart.throughout (hapart : SourcesApart E calls) :
    Throughout (Call.exec E) ∅ HeightsApart calls := by
  intro pre db hpre hrun
  constructor
  · intro h h' x ⟨i, hi⟩ ⟨i', hi'⟩
    obtain ⟨src, R, hmem, hR, hget⟩ := exists_source_of_get? hrun rfl hi
    obtain ⟨src', R', hmem', hR', hget'⟩ := exists_source_of_get? hrun rfl hi'
    obtain ⟨rfl, -, hx⟩ := BlockRecords.get_rpcTxIndex.mp hget
    obtain ⟨rfl, -, hx'⟩ := BlockRecords.get_rpcTxIndex.mp hget'
    rw [hR.block, hR'.block]
    by_contra hne
    have hdisjoint := (hapart src src' (hpre.subset hmem) (hpre.subset hmem') hne).2
    rw [hR.shown, hR'.shown] at hdisjoint
    exact hdisjoint (List.mem_of_getElem? hx) (List.mem_of_getElem? hx')
  · intro h h' m m' hm hm' hhash
    obtain ⟨src, R, hmem, hR, hget⟩ := exists_source_of_get? hrun rfl hm
    obtain ⟨src', R', hmem', hR', hget'⟩ := exists_source_of_get? hrun rfl hm'
    obtain rfl : h = R.block.height := BlockRecords.height_of_owns (BlockRecords.owns_of_get hget) rfl
    obtain rfl : h' = R'.block.height :=
      BlockRecords.height_of_owns (BlockRecords.owns_of_get hget') rfl
    obtain rfl := Option.some.inj (R.get_blockMeta.symm.trans hget)
    obtain rfl := Option.some.inj (R'.get_blockMeta.symm.trans hget')
    rw [R.meta_hash, R'.meta_hash, hR.block, hR'.block] at hhash
    rw [hR.block, hR'.block]
    by_contra hne
    exact (hapart src src' (hpre.subset hmem) (hpre.subset hmem') hne).1 (Hash.hex_injective hhash)

theorem throughout_heightsApart (hone : ∀ c ∈ calls, ∀ m, c.resets = some m → m = n) :
    Throughout (Call.exec E) ∅ HeightsApart calls :=
  SourcesApart.throughout fun _ _ hmem hmem' hne =>
    absurd ((hone _ hmem _ rfl).trans (hone _ hmem' _ rfl).symm) hne

theorem represents_empty : Represents ∅ fun _ => none where
  height := by simp
  get? := by simp

/-- **Refinement.**  After any history in which no hash is ever indexed at two
heights, the store holds exactly the blocks last indexed. -/
theorem run_represents (hrun : run (Call.exec E) ∅ calls = .ok db)
    (hapart : Throughout (Call.exec E) ∅ HeightsApart calls) :
    ∃ A, Represents db A ∧ Replays E (lastIndexed calls) A := by
  refine run_induction_throughout
    (fun calls db => ∃ A, Represents db A ∧ Replays E (lastIndexed calls) A)
    ⟨_, represents_empty, fun _ => .none⟩ ?_ hapart hrun
  intro calls c db₁ db₂ h₁ h₂ hP hstep
  obtain ⟨A, hrep, hS⟩ := hP
  rw [lastIndexed_concat]
  exact hrep.exec hS h₁ h₂ hstep

end EvmGateway
