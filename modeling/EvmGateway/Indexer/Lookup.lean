import EvmGateway.Indexer.Refinement

/-!
# Reading an indexed block back

`Holds db R` is the interface between the store and what reads it: everything the
block stores is there, and its height holds nothing else.  Indexing a block establishes
it for the block (`holds_of_indexBlock`), and a store that represents an abstract one
has it for each of its blocks (`Represents.holds`).  The lookups of the indexer are then
computed from the records alone.
-/

namespace EvmGateway

open Lib

/-- At the height of the block the store holds what the block stores there, and nothing else. -/
structure HoldsHeight (db : DB) (R : BlockRecords) : Prop where
  height : ∀ k : Key, k.height? = some R.block.height → db.get? k = R.get k

/-- The store holds the records of the block, and nothing else at its height. -/
structure Holds (db : DB) (R : BlockRecords) : Prop extends HoldsHeight db R where
  get? : ∀ (k : Key) (v : k.Val), R.get k = some v → db.get? k = some v

/-- After a reset the height-keyed collections hold nothing at the height. -/
theorem get?_deleteBlock_of_height {db : DB} {k : Key} {n : ℕ} (hk : k.height? = some n) :
    (deleteBlock db n).get? k = none := by
  by_cases ht : ResetTouches db n k
  · exact get?_deleteBlock_of_touched ht
  · rw [get?_deleteBlock_of_not_touched ht]
    cases k with
    | txIndex m i | rpcTxIndex m i =>
      obtain rfl : m = n := Option.some.inj hk
      exact Option.not_isSome_iff_eq_none.mp fun hsome => ht ⟨rfl, hsome⟩
    | blockLogs m | blockMeta m => exact absurd (Option.some.inj hk) ht
    | _ => cases hk

theorem holds_of_indexBlock {E : Env} {kv : KVIndexer} {db db' : DB} {results : Option BlockResults}
    {R : BlockRecords} {n : ℕ} (h : indexBlock E kv db R.block results = .ok db')
    (hR : blockWrites E kv R.block results = .ok (R.writes, n)) : Holds db' R where
  get? := by
    intro k v hv
    rw [get?_of_indexBlock h hR, hv]
    rfl
  height := by
    intro k hk
    rw [get?_of_indexBlock h hR, get?_deleteBlock_of_height hk, Option.or_none]

theorem exists_holds_of_indexBlock {E : Env} {kv : KVIndexer} {db db' : DB} {block : Block}
    {results : Option BlockResults} (h : indexBlock E kv db block results = .ok db') :
    ∃ R : BlockRecords, R.block = block ∧
      R.blockMeta.virtualizedCosmosEvents = kv.virtualizationEnabled ∧
      R.hashes = shownByBlock E kv.virtualizationEnabled block results ∧ Holds db' R := by
  obtain ⟨ws, n, R, hws, rfl, rfl, hmode, hshown, -⟩ := indexBlock_ok h
  exact ⟨R, rfl, hmode, hshown, holds_of_indexBlock h hws⟩

theorem Represents.holds {db : DB} {A : ℕ → Option BlockRecords} (hrep : Represents db A) {h : ℕ}
    {R : BlockRecords} (hA : A h = some R) : Holds db R where
  get? := fun _ _ hv => hrep.get?_of_get hA hv
  height := by
    intro k hk
    rw [hrep.height h R hA] at hk
    ext v
    constructor
    · intro hv
      obtain ⟨R', hA', hget⟩ := hrep.exists_of_get? hk hv
      rw [hA] at hA'
      rwa [Option.some.inj hA']
    · exact hrep.get?_of_get hA

/-! ## Height-keyed lookups -/

namespace HoldsHeight

variable {db : DB} {R : BlockRecords}

theorem getBlockMetaByHeight (h : HoldsHeight db R) :
    EvmGateway.getBlockMetaByHeight db R.block.height = .ok R.blockMeta :=
  DB.getOr_of_get? ((h.height _ rfl).trans R.get_blockMeta) _

theorem getLogsByBlockHeight (h : HoldsHeight db R) :
    EvmGateway.getLogsByBlockHeight db R.block.height = .ok R.logs :=
  DB.getOr_of_get? ((h.height _ rfl).trans R.get_blockLogs) _

theorem getRPCTransactionHashesByBlockHeight (h : HoldsHeight db R) :
    EvmGateway.getRPCTransactionHashesByBlockHeight db R.block.height = R.hashes := by
  have hscan := @DB.rpcTxIndexEntries_eq db R.block.height R.hashes (by
    intro i x
    rw [h.height _ rfl, BlockRecords.get_rpcTxIndex]
    simp)
  rw [EvmGateway.getRPCTransactionHashesByBlockHeight, hscan, List.map_map]
  exact List.zipIdx_map_fst 0 R.hashes

/-- No transaction is found at a position the block does not have. -/
theorem getRPCTransactionByBlockAndIndex_of_none (h : HoldsHeight db R) {i : ℤ}
    (hi : i < 0 ∨ (R.entries.length : ℤ) ≤ i) :
    ∃ e, EvmGateway.getRPCTransactionByBlockAndIndex db R.block.height i = .error e ∧
      e.kind = .cacheMiss := by
  have hnone : db.get? (.rpcTxIndex R.block.height i) = none := by
    rw [h.height _ rfl]
    by_contra hsome
    obtain ⟨x, hx⟩ := Option.ne_none_iff_exists'.mp hsome
    obtain ⟨-, h0, hx⟩ := BlockRecords.get_rpcTxIndex.mp hx
    have hlt := (List.getElem?_eq_some_iff.mp hx).1
    rw [BlockRecords.hashes, List.length_map] at hlt
    omega
  rw [EvmGateway.getRPCTransactionByBlockAndIndex, DB.getOr_of_none hnone]
  exact ⟨_, rfl, rfl⟩

end HoldsHeight

namespace Holds

variable {db : DB} {R : BlockRecords}

theorem getHeightByBlockHash (h : Holds db R) :
    EvmGateway.getHeightByBlockHash db R.block.ethHash = .ok R.block.height :=
  DB.getOr_of_get? (h.get? _ _ R.get_blockHash) _

theorem getBlockMetaByHash (h : Holds db R) :
    EvmGateway.getBlockMetaByHash db R.block.ethHash = .ok R.blockMeta := by
  rw [EvmGateway.getBlockMetaByHash, h.getHeightByBlockHash]
  exact h.getBlockMetaByHeight

/-! ## Hash-keyed lookups -/

theorem getReceiptByTxHash (h : Holds db R) (hnd : R.hashes.Nodup) {e : Entry}
    (he : e ∈ R.entries) : EvmGateway.getReceiptByTxHash db e.hash = .ok e.receipt.toMap := by
  have hget := h.get? _ _ ((BlockRecords.get_receipt hnd).mpr ⟨e, he, rfl, rfl⟩)
  rw [EvmGateway.getReceiptByTxHash, DB.getOr_of_get? hget]
  rfl

/-- An entry of the Ethereum index leads to a result with its position. -/
theorem getByTxHash_of_txIndex (h : Holds db R) (hnd : R.hashes.Nodup) {j : ℤ} {x : Hash}
    (hj : db.get? (.txIndex R.block.height j) = some x) :
    ∃ r, EvmGateway.getByTxHash db x = .ok r ∧ r.height = R.block.height ∧ r.ethTxIndex = j := by
  rw [h.height _ rfl] at hj
  obtain ⟨-, p, e, hp, heth, hpos, rfl⟩ := BlockRecords.get_txIndex.mp hj
  obtain ⟨r, hr⟩ := Option.isSome_iff_exists.mp heth
  obtain ⟨hheight, hindex⟩ := (R.entry_at p e hp).result_position r hr
  have hget := (BlockRecords.get_txHash hnd).mpr ⟨e, List.mem_of_getElem? hp, rfl, hr⟩
  exact ⟨r, DB.getOr_of_get? (h.get? _ _ hget) _, hheight, hindex.trans hpos⟩

theorem insert_trace (h : Holds db R) {k : Key} (v : k.Val) (hk : k.isTrace = true) :
    Holds (db.insert k v) R where
  get? := by
    intro k' v' hv'
    rw [get?_insert_trace db v hk (BlockRecords.owns_of_get hv').isTrace]
    exact h.get? k' v' hv'
  height := by
    intro k' hk'
    rw [get?_insert_trace db v hk (Key.isTrace_of_height? hk')]
    exact h.height k' hk'

/-- Whatever the hashes, a visible position leads to the transaction of the last entry
with the hash that stands there. -/
theorem exists_getRPCTransactionByBlockAndIndex (h : Holds db R) {p : ℕ} {x : Hash}
    (hp : R.hashes[p]? = some x) :
    ∃ (q : ℕ) (e : Entry), R.entries[q]? = some e ∧ e.hash = x ∧
      EvmGateway.getRPCTransactionByBlockAndIndex db R.block.height p = .ok e.tx ∧
      ∀ j : ℕ, q < j → R.hashes[j]? ≠ some x := by
  obtain ⟨q, e, hq, hx, hget, -, hlast⟩ := BlockRecords.exists_last (List.mem_of_getElem? hp)
  have hindex : db.get? (.rpcTxIndex R.block.height p) = some x := by
    rw [h.height _ rfl, BlockRecords.get_rpcTxIndex]
    exact ⟨rfl, by omega, hp⟩
  refine ⟨q, e, hq, hx, ?_, hlast⟩
  rw [EvmGateway.getRPCTransactionByBlockAndIndex, DB.getOr_of_get? hindex]
  exact DB.getOr_of_get? (h.get? _ _ hget) _

/-- Whatever the hashes, a hash of the block leads to the transaction and the receipt of the last
entry that has it. -/
theorem exists_last (h : Holds db R) {x : Hash} (hx : x ∈ R.hashes) :
    ∃ (q : ℕ) (e : Entry), R.entries[q]? = some e ∧ e.hash = x ∧
      EvmGateway.getRPCTransactionByHash db x = .ok e.tx ∧
      EvmGateway.getReceiptByTxHash db x = .ok e.receipt.toMap ∧
      ∀ j : ℕ, q < j → R.hashes[j]? ≠ some x := by
  obtain ⟨q, e, hq, hhash, htx, hreceipt, hlast⟩ := BlockRecords.exists_last hx
  refine ⟨q, e, hq, hhash, DB.getOr_of_get? (h.get? _ _ htx) _, ?_, hlast⟩
  rw [EvmGateway.getReceiptByTxHash, DB.getOr_of_get? (h.get? _ _ hreceipt)]
  rfl

end Holds

end EvmGateway
