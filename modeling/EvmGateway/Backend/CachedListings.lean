import EvmGateway.Backend.Receipts
import EvmGateway.Indexer.Lookup

/-!
# What a stored block lists

A block of the store lists the hashes of its visible index: in the block itself, in full or by
hashes, and in its receipts, wherever they are read from.  The records the two listings read are
under the hashes they carry; nothing else is asked of them, so they may be those of another block.
-/

namespace EvmGateway

open Lib

namespace HoldsHeight

variable {db : DB} {R : BlockRecords}

/-- The transactions of a held block are read one by one. -/
theorem cachedBlockTransactions (hR : HoldsHeight db R) (fullTx : Bool) :
    EvmGateway.cachedBlockTransactions db R.blockMeta fullTx =
      R.hashes.zipIdx.mapM fun e => cachedBlockTransaction db R.blockMeta fullTx e.2 e.1 := by
  have hlen : R.hashes.length = R.entries.length := by rw [BlockRecords.hashes, List.length_map]
  rw [EvmGateway.cachedBlockTransactions, R.meta_count, R.meta_height,
    hR.getRPCTransactionHashesByBlockHeight, if_neg (by omega)]
  by_cases hnone : R.entries.length = 0
  · rw [if_pos (by omega), List.eq_nil_of_length_eq_zero (hlen.trans hnone)]
    rfl
  · rw [if_neg (by omega)]
    exact if_neg (by simp [hlen])

/-- The transactions a stored block is answered with have its hashes, in order. -/
theorem map_txHash_of_cachedBlockTransactions (hR : HoldsHeight db R)
    (hstore : ∀ x tx, db.get? (.rpcTxHash x) = some tx → tx.hash = x) {fullTx : Bool}
    {txs : List BlockTx} (h : EvmGateway.cachedBlockTransactions db R.blockMeta fullTx = .ok txs) :
    txs.map (·.txHash) = R.hashes := by
  have hone : ∀ (e : Hash × ℕ) (t : BlockTx),
      cachedBlockTransaction db R.blockMeta fullTx e.2 e.1 = .ok t → t.txHash = e.1 := by
    intro e t ht
    obtain ⟨-, ht⟩ := ensure_bind_eq_ok.mp ht
    cases fullTx with
    | false =>
      obtain rfl := Except.ok.inj ht
      rfl
    | true =>
      obtain ⟨rpcTx, hget, ht⟩ := bind_eq_ok.mp ht
      obtain ⟨-, ht⟩ := ensure_bind_eq_ok.mp ht
      obtain ⟨-, ht⟩ := ensure_bind_eq_ok.mp ht
      cases hindex : rpcTx.transactionIndex with
      | none => simp [hindex] at ht
      | some transactionIndex =>
        simp only [hindex] at ht
        obtain ⟨-, ht⟩ := ensure_bind_eq_ok.mp ht
        obtain rfl := Except.ok.inj ht
        exact hstore e.1 rpcTx (DB.getOr_eq_ok.mp hget)
  rw [hR.cachedBlockTransactions] at h
  have hall := mapM_ok h
  refine List.ext_getElem? fun i => ?_
  rw [List.getElem?_map]
  cases hi : txs[i]? with
  | none =>
    rw [List.getElem?_eq_none_iff, ← hall.length_eq, List.length_zipIdx] at hi
    rw [List.getElem?_eq_none hi]
    rfl
  | some t =>
    obtain ⟨e, he, ht⟩ := forall₂_getElem?_right hall hi
    rw [List.getElem?_zipIdx, Option.map_eq_some_iff] at he
    obtain ⟨x, hx, rfl⟩ := he
    rw [hx, Option.map_some, hone _ t ht]

end HoldsHeight

section Receipts

variable {db : DB} {cache : MaterializedCache} {receipts : List ReceiptMap}
  (hstore : ∀ x r, db.get? (.receipt x) = some r → r.toMap.transactionHash = x)
  (hmemory : cache.receipts.Holds fun x receipt => receipt.transactionHash = x)

include hstore hmemory

/-- A receipt read by a hash has the hash, and the memory keeps receipts under their hashes. -/
theorem materializedReceiptByHash_ok {x : Hash} {receipt : ReceiptMap} {cache' : MaterializedCache}
    (h : materializedReceiptByHash db cache x = (.ok receipt, cache')) :
    receipt.transactionHash = x ∧
      cache'.receipts.Holds fun x receipt => receipt.transactionHash = x := by
  unfold materializedReceiptByHash MaterializedCache.getReceipt at h
  cases hget : (cache.receipts.get x).1 with
  | some found =>
    simp only [hget] at h
    obtain ⟨hok, rfl⟩ := Prod.mk.inj h
    obtain rfl := Except.ok.inj hok
    exact ⟨hmemory.of_get hget, hmemory.get x⟩
  | none =>
    cases hfound : getReceiptByTxHash db x with
    | error e =>
      simp only [hget, hfound] at h
      cases (Prod.mk.inj h).1
    | ok found =>
      simp only [hget, hfound] at h
      obtain ⟨hok, rfl⟩ := Prod.mk.inj h
      obtain rfl := Except.ok.inj hok
      obtain ⟨r, hr, rfl⟩ := map_eq_ok.mp hfound
      have hhash := hstore x r (DB.getOr_eq_ok.mp hr)
      exact ⟨hhash, (hmemory.get x).add hhash⟩

/-- Receipts read by hashes have these hashes, whether they come from memory or from the store. -/
theorem map_transactionHash_of_materializedReceipts {height : ℕ} {hashes : List Hash}
    (h : (materializedReceipts db height hashes cache).1 = .ok receipts) :
    receipts.map (·.transactionHash) = hashes := by
  induction hashes generalizing cache receipts with
  | nil =>
    obtain rfl := Except.ok.inj h
    rfl
  | cons x hashes ih =>
    unfold materializedReceipts at h
    split_ifs at h
    cases hread : materializedReceiptByHash db cache x with
    | mk found cache' =>
      cases found with
      | error e => simp [hread] at h
      | ok receipt =>
        obtain ⟨hhash, hmemory'⟩ := materializedReceiptByHash_ok hstore hmemory hread
        cases hrest : materializedReceipts db height hashes cache' with
        | mk rest cache'' =>
          cases rest with
          | error e => simp [hread, hrest] at h
          | ok rest =>
            simp only [hread, hrest] at h
            obtain rfl := Except.ok.inj h
            rw [List.map_cons, hhash, ih hmemory' (by rw [hrest])]

/-- The receipts a stored block is answered with have its hashes, in order. -/
theorem HoldsHeight.map_transactionHash_of_receipts {R : BlockRecords} {b : Backend}
    (hR : HoldsHeight db R) (h : (b.receiptsFromCachedMeta db cache R.blockMeta).1 = .ok receipts) :
    receipts.map (·.transactionHash) = R.hashes := by
  rw [Backend.receiptsFromCachedMeta] at h
  by_cases hmode : b.cachedMetaMatchesVirtualization R.blockMeta = true
  · cases hvalid : validateCachedBlockMeta R.blockMeta with
    | error e => simp [hmode, hvalid] at h
    | ok _ =>
      simp only [hmode, if_true, hvalid, R.meta_height, hR.getRPCTransactionHashesByBlockHeight] at h
      by_cases hzero : R.blockMeta.ethTxCount = 0
      · rw [if_pos hzero] at h
        obtain rfl := Except.ok.inj h
        rw [R.meta_count] at hzero
        have hnil : R.entries = [] := List.eq_nil_of_length_eq_zero (by exact_mod_cast hzero)
        rw [BlockRecords.hashes, hnil]
        rfl
      · rw [if_neg hzero] at h
        split_ifs at h
        exact map_transactionHash_of_materializedReceipts hstore hmemory h
  · simp [hmode] at h

end Receipts

end EvmGateway
