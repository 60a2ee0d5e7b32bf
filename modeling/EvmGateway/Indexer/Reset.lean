import EvmGateway.Indexer.BlockRecords

/-!
# What resetting a height deletes

`resetKeys` walks four scans and two lookups; `mem_resetKeys` says collection by
collection which keys that amounts to.  The two entry points of the indexer are then
described key by key: `get?_deleteBlock_of_touched` and `get?_of_indexBlock`.  What they leave of
the trace cache, and which keys of other heights they can reach, follows here for
every store, reachable or not.
-/

namespace EvmGateway

open Lib

variable {db db' : DB} {height : ℕ} {k : Key} {E : Env} {kv : KVIndexer} {block : Block}
  {results : Option BlockResults}

def EthIndexed (db : DB) (height : ℕ) (x : Hash) : Prop :=
  ∃ i, db.get? (.txIndex height i) = some x

/-- The store has records of the height. -/
def DB.HasHeight (db : DB) (height : ℕ) : Prop :=
  (db.get? (.blockMeta height)).isSome ∨ ∃ x, EthIndexed db height x

def RpcIndexed (db : DB) (height : ℕ) (x : Hash) : Prop :=
  ∃ i, db.get? (.rpcTxIndex height i) = some x

def ResetTouches (db : DB) (height : ℕ) : Key → Prop
  | .txHash x => EthIndexed db height x
  | .rpcTxHash x | .receipt x | .virtualRPCtx x => EthIndexed db height x ∨ RpcIndexed db height x
  | .txIndex n i => n = height ∧ (db.get? (.txIndex height i)).isSome
  | .rpcTxIndex n i => n = height ∧ (db.get? (.rpcTxIndex height i)).isSome
  | .blockLogs n | .blockMeta n => n = height
  | .blockHash x => ∃ m, db.get? (.blockMeta height) = some m ∧ hexToHash m.hash = x
  | .traceTx x c => EthIndexed db height x ∧ (db.get? (.traceTx x c)).isSome
  | .traceBlock n c => n = height ∧ (db.get? (.traceBlock height c)).isSome

/-- **The deleted keys**, collection by collection. -/
theorem mem_resetKeys :
    k ∈ resetKeys db height ↔ ResetTouches db height k := by
  cases k with
  | txIndex n i | rpcTxIndex n i =>
    rw [ResetTouches, Option.isSome_iff_exists, and_comm]
    simp [resetKeys, traceKeysForBlock, ethHashKeys, rpcHashKeys, DB.mem_txIndexEntries,
      DB.mem_rpcTxIndexEntries]
  | _ =>
    simp [resetKeys, traceKeysForBlock, ethHashKeys, rpcHashKeys, ResetTouches, EthIndexed,
      RpcIndexed, DB.mem_txIndexEntries, DB.mem_rpcTxIndexEntries, DB.mem_traceTxConfigs,
      DB.mem_traceBlockConfigs, and_comm, @eq_comm ℕ height]

/-! ## The two entry points, key by key -/

theorem lastWrite_resetBlock_of_mem (h : ResetTouches db height k) :
    lastWrite (resetBlock db height) k = some none := by
  rw [resetBlock, lastWrite_map_delete, if_pos (mem_resetKeys.mpr h)]

theorem lastWrite_resetBlock_of_not_mem (h : ¬ ResetTouches db height k) :
    lastWrite (resetBlock db height) k = none := by
  rw [resetBlock, lastWrite_map_delete, if_neg (mt mem_resetKeys.mp h)]

theorem get?_deleteBlock_of_touched (h : ResetTouches db height k) :
    (deleteBlock db height).get? k = none := by
  rw [deleteBlock, get?_applyBatch, lastWrite_resetBlock_of_mem h]
  rfl

theorem get?_deleteBlock_of_not_touched (h : ¬ ResetTouches db height k) :
    (deleteBlock db height).get? k = db.get? k := by
  rw [deleteBlock, get?_applyBatch, lastWrite_resetBlock_of_not_mem h]
  rfl

theorem get?_of_deleteBlock {v : k.Val} (h : (deleteBlock db height).get? k = some v) :
    db.get? k = some v := by
  by_cases ht : ResetTouches db height k
  · rw [get?_deleteBlock_of_touched ht] at h
    cases h
  · rwa [get?_deleteBlock_of_not_touched ht] at h

theorem exists_blockWrites (h : indexBlock E kv db block results = .ok db') :
    ∃ ws n, blockWrites E kv block results = .ok (ws, n) ∧
      db' = applyBatch (resetBlock db block.height ++ ws) db := by
  unfold indexBlock indexBlockWithStats at h
  cases hws : blockWrites E kv block results with
  | error e =>
    rw [hws] at h
    cases h
  | ok r =>
    rw [hws] at h
    exact ⟨r.1, r.2, rfl, (Except.ok.inj h).symm⟩

/-- **Indexing is deleting, then storing the records of the block**, key by key. -/
theorem get?_of_indexBlock (h : indexBlock E kv db block results = .ok db') {R : BlockRecords}
    {n : ℕ} (hR : blockWrites E kv block results = .ok (R.writes, n)) (k : Key) :
    db'.get? k = (R.get k).or ((deleteBlock db block.height).get? k) := by
  obtain ⟨ws, n', hws, rfl⟩ := exists_blockWrites h
  rw [hR] at hws
  obtain ⟨rfl, -⟩ := Prod.mk.inj (Except.ok.inj hws)
  rw [get?_applyBatch, deleteBlock, get?_applyBatch, lastWrite_append, R.lastWrite_writes]
  cases R.get k <;> rfl

theorem indexBlock_ok (h : indexBlock E kv db block results = .ok db') :
    ∃ (ws : DBBatch) (n : ℕ) (R : BlockRecords), blockWrites E kv block results = .ok (ws, n) ∧
      R.block = block ∧ R.writes = ws ∧
      R.blockMeta.virtualizedCosmosEvents = kv.virtualizationEnabled ∧
      R.hashes = shownByBlock E kv.virtualizationEnabled block results ∧
      ∀ k, db'.get? k = (R.get k).or ((deleteBlock db block.height).get? k) := by
  obtain ⟨ws, n, hws, -⟩ := exists_blockWrites h
  obtain ⟨R, hblock, hwrites, hmode, hshown⟩ := blockWrites_ok hws
  exact ⟨ws, n, R, hws, hblock, hwrites, hmode, hshown, get?_of_indexBlock h (hwrites ▸ hws)⟩

theorem exists_indexBlock (db : DB) (h : (blockWrites E kv block results).isOk = true) :
    ∃ db', indexBlock E kv db block results = .ok db' := by
  obtain ⟨ws, hws⟩ := exists_ok_of_isOk h
  refine ⟨applyBatch (resetBlock db block.height ++ ws.1) db, ?_⟩
  rw [indexBlock, indexBlockWithStats, hws]
  rfl

/-! ## Traces -/

/-- The traces of a height are gone: those of the block, and those of the Ethereum
transactions listed there before.  All other traces are as they were. -/
structure ForgetsTraces (db db' : DB) (height : ℕ) : Prop where
  block : ∀ c, db'.get? (.traceBlock height c) = none
  tx : ∀ x c, EthIndexed db height x → db'.get? (.traceTx x c) = none
  other_block : ∀ n c, n ≠ height → db'.get? (.traceBlock n c) = db.get? (.traceBlock n c)
  other_tx : ∀ x c, ¬ EthIndexed db height x → db'.get? (.traceTx x c) = db.get? (.traceTx x c)

theorem deleteBlock_forgetsTraces (db : DB) (height : ℕ) :
    ForgetsTraces db (deleteBlock db height) height where
  block := by
    intro c
    by_cases h : (db.get? (.traceBlock height c)).isSome
    · exact get?_deleteBlock_of_touched ⟨rfl, h⟩
    · have hnt : ¬ ResetTouches db height (.traceBlock height c) := fun ht => h ht.2
      rw [get?_deleteBlock_of_not_touched hnt]
      exact Option.not_isSome_iff_eq_none.mp h
  tx := by
    intro x c hx
    by_cases h : (db.get? (.traceTx x c)).isSome
    · exact get?_deleteBlock_of_touched ⟨hx, h⟩
    · have hnt : ¬ ResetTouches db height (.traceTx x c) := fun ht => h ht.2
      rw [get?_deleteBlock_of_not_touched hnt]
      exact Option.not_isSome_iff_eq_none.mp h
  other_block := fun _ _ hn => get?_deleteBlock_of_not_touched fun ht => hn ht.1
  other_tx := fun _ _ hx => get?_deleteBlock_of_not_touched fun ht => hx ht.1

/-- A block stores no traces, so indexing leaves of them what deleting leaves. -/
theorem indexBlock_forgetsTraces (h : indexBlock E kv db block results = .ok db') :
    ForgetsTraces db db' block.height := by
  obtain ⟨-, -, R, -, -, -, -, -, hget⟩ := indexBlock_ok h
  have htrace : ∀ k : Key, k.isTrace = true → db'.get? k = (deleteBlock db block.height).get? k := by
    intro k hk
    have hnot : ¬ R.Owns k := by
      intro howns
      rw [howns.isTrace] at hk
      cases hk
    rw [hget, BlockRecords.get_eq_none hnot, Option.none_or]
  have hdel := deleteBlock_forgetsTraces db block.height
  exact {
    block := fun c => (htrace _ rfl).trans (hdel.block c)
    tx := fun x c hx => (htrace _ rfl).trans (hdel.tx x c hx)
    other_block := fun n c hn => (htrace _ rfl).trans (hdel.other_block n c hn)
    other_tx := fun x c hx => (htrace _ rfl).trans (hdel.other_tx x c hx) }

end EvmGateway
