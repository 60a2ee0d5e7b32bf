import EvmGateway.Backend.LiveRows
import EvmGateway.Backend.Receipts

/-!
# Requests by hash

With virtualisation, an online backend answers a request by hash in two stages.  A record
that is kept of the hash is served if its block is of the mode of the backend
(`getTransactionByHash_eq`, `getTransactionReceipt_eq`).  Otherwise the place of the hash is
looked up, in the store's results or by the node's search, and the answer is the first row
with the hash in the rebuilt block of that place (`liveTransactionAt_ok`,
`liveReceiptAt_ok`).

The two requests find the same row: the receipts and the transactions of a view have their
first place of a hash in common (`findIdx?_receipts`).
-/

namespace EvmGateway

open Lib

structure RPCTransaction.Is (tx : RPCTransaction) (block : Block) (x : Hash) (p : ℕ) : Prop where
  hash : tx.hash = x
  blockNumber : tx.blockNumber = some block.height
  transactionIndex : tx.transactionIndex = some p

structure ReceiptMap.Is (receipt : ReceiptMap) (block : Block) (x : Hash) (p : ℕ) : Prop where
  transactionHash : receipt.transactionHash = x
  blockNumber : receipt.blockNumber = block.height
  transactionIndex : receipt.transactionIndex = p

/-! ## Rows and first places -/

namespace LiveView.Rows

variable {block : Block} {view : LiveView}

theorem findIdx?_receipts (h : view.Rows block) (x : Hash) :
    view.receipts.findIdx? (·.transactionHash == x) =
      view.transactions.findIdx? (·.hash == x) := by
  have hmap : (view.receipts.map (·.transactionHash)).findIdx? (· == x) =
      (view.transactions.map (·.hash)).findIdx? (· == x) := by rw [h.hashes]
  rwa [List.findIdx?_map, List.findIdx?_map] at hmap

/-- The transaction found under a hash is the one at its first place. -/
theorem find?_transactions (h : view.Rows block) (hne : block.ethHash ≠ 0) {x : Hash} {p : ℕ} :
    (∃ tx, view.transactions.find? (·.hash == x) = some tx ∧ tx.Is block x p) ↔
      view.transactions.findIdx? (·.hash == x) = some p := by
  constructor
  · rintro ⟨tx, hfind, his⟩
    obtain ⟨i, hi, htx⟩ := find?_eq_some_iff_findIdx?.mp hfind
    obtain ⟨hlt, -⟩ := List.getElem?_eq_some_iff.mp htx
    obtain ⟨tx', receipt, htx', -, hrow⟩ := h.exists_row hlt
    obtain rfl := Option.some.inj (htx.symm.trans htx')
    have hp := (hrow.tx_position hne).2.symm.trans his.transactionIndex
    rwa [Option.some.inj hp] at hi
  · intro hp
    obtain ⟨hlt, hx, -⟩ := List.findIdx?_eq_some_iff_getElem.mp hp
    obtain ⟨tx, receipt, htx, -, hrow⟩ := h.exists_row hlt
    have hhash : tx.hash = x := by
      rw [List.getElem?_eq_getElem hlt, Option.some.injEq] at htx
      simpa [htx] using hx
    obtain ⟨hnumber, hindex⟩ := hrow.tx_position hne
    exact ⟨tx, find?_eq_some_iff_findIdx?.mpr ⟨p, hp, htx⟩, hhash, hnumber, hindex⟩

/-- The receipt found under a hash is the one at its first place. -/
theorem find?_receipts (h : view.Rows block) {x : Hash} {p : ℕ} :
    (∃ receipt, view.receipts.find? (·.transactionHash == x) = some receipt ∧
      receipt.Is block x p) ↔ view.transactions.findIdx? (·.hash == x) = some p := by
  rw [← h.findIdx?_receipts]
  constructor
  · rintro ⟨receipt, hfind, his⟩
    obtain ⟨i, hi, hreceipt⟩ := find?_eq_some_iff_findIdx?.mp hfind
    obtain ⟨hlt, -⟩ := List.getElem?_eq_some_iff.mp hreceipt
    obtain ⟨tx, receipt', -, hreceipt', hrow⟩ := h.exists_row (h.length ▸ hlt)
    obtain rfl := Option.some.inj (hreceipt.symm.trans hreceipt')
    rwa [← his.transactionIndex, hrow.index]
  · intro hp
    obtain ⟨hlt, hx, -⟩ := List.findIdx?_eq_some_iff_getElem.mp hp
    obtain ⟨tx, receipt, -, hreceipt, hrow⟩ := h.exists_row (h.length ▸ hlt)
    have hhash : receipt.transactionHash = x := by
      rw [List.getElem?_eq_getElem hlt, Option.some.injEq] at hreceipt
      simpa [hreceipt] using hx
    exact ⟨receipt, find?_eq_some_iff_findIdx?.mpr ⟨p, hp, hreceipt⟩, hhash, hrow.blockNumber,
      hrow.index⟩

end LiveView.Rows

/-! ## Kept records -/

namespace Backend

variable {E : Env} {b : Backend}

/-- The transaction the store has under a hash, if its block is of the mode of the backend. -/
def keptTransaction (b : Backend) (x : Hash) : Option RPCTransaction :=
  b.indexer.bind fun db =>
    (db.get? (.rpcTxHash x)).filter (b.cachedRPCTransactionMatchesVirtualization db)

/-- The receipt in memory or else in the store, if its block is of the mode of the backend. -/
def keptReceipt (b : Backend) (cache : MaterializedCache) (x : Hash) : Option ReceiptMap :=
  b.indexer.bind fun db =>
    ((cache.receipts.get x).1.or ((db.get? (.receipt x)).map (·.toMap))).filter
      (b.cachedReceiptMatchesVirtualization db)

/-- With virtualisation, an online backend serves a record of its mode and looks further
otherwise. -/
theorem cachedByHash_of_virtual {α : Type} (honline : b.offlineRPCOnly = false)
    (hvirtual : b.virtualizeCosmosEvents = true) (db : DB) (x : Hash) (found : Except Err α)
    (matchesMode : α → Bool) :
    b.cachedByHash db x found matchesMode =
      match found.toOption.filter matchesMode with
      | some a => .serve a
      | none => .live := by
  have hvisible : b.cachedTransactionVisible db x = true := by
    rw [cachedTransactionVisible, hvirtual, Bool.true_or]
  cases found with
  | error e => rfl
  | ok a =>
    simp only [cachedByHash, hvisible, if_true, Except.toOption, Option.filter_some, honline]
    by_cases ha : matchesMode a = true <;> simp [ha]

/-- A transaction is looked for in the store and then at the node. -/
theorem getTransactionByHash_eq (honline : b.offlineRPCOnly = false)
    (hvirtual : b.virtualizeCosmosEvents = true) (x : Hash) :
    b.getTransactionByHash E x =
      match b.keptTransaction x with
      | some tx => .ok (some tx)
      | none => b.liveTransactionByHash E x := by
  unfold getTransactionByHash cachedTransaction keptTransaction
  cases b.indexer with
  | none => rfl
  | some db =>
    have hget : (getRPCTransactionByHash db x).toOption = db.get? (.rpcTxHash x) := by
      rw [getRPCTransactionByHash, DB.getOr]
      cases db.get? (.rpcTxHash x) <;> rfl
    simp only [cachedByHash_of_virtual honline hvirtual, hget, Option.bind_some]
    cases (db.get? (.rpcTxHash x)).filter (b.cachedRPCTransactionMatchesVirtualization db) <;> rfl

/-- A receipt is looked for in memory, in the store and then at the node. -/
theorem getTransactionReceipt_eq (honline : b.offlineRPCOnly = false)
    (hvirtual : b.virtualizeCosmosEvents = true) (cache : MaterializedCache) (x : Hash) :
    (b.getTransactionReceipt E cache x).1 =
      match b.keptReceipt cache x with
      | some receipt => .ok (some receipt)
      | none => b.liveReceiptByHash E x := by
  unfold getTransactionReceipt cachedReceipt keptReceipt
  cases b.indexer with
  | none => rfl
  | some db =>
    have hget : (materializedReceiptByHash db cache x).1.toOption =
        (cache.receipts.get x).1.or ((db.get? (.receipt x)).map (·.toMap)) := by
      rw [materializedReceiptByHash, MaterializedCache.getReceipt, getReceiptByTxHash, DB.getOr]
      cases (cache.receipts.get x).1 with
      | some receipt => rfl
      | none => cases db.get? (.receipt x) <;> rfl
    simp only [cachedByHash_of_virtual honline hvirtual, hget, Option.bind_some]
    cases ((cache.receipts.get x).1.or ((db.get? (.receipt x)).map (·.toMap))).filter
      (b.cachedReceiptMatchesVirtualization db) <;> rfl

end Backend

/-! ## The node's block -/

namespace Backend

variable {E : Env} {b : Backend} {node : Node} {x : Hash} {res : TxResult}

/-- The answer of the node's search for a hash. -/
def searchByHash (E : Env) (b : Backend) (x : Hash) : Except Err TxResult :=
  b.queryTendermintTxIndexer E (ethHashQuery E x) (·.getTxByHash x)

theorem exists_of_searchByHash (hclient : b.client = some node)
    (h : b.searchByHash E x = .ok res) :
    ∃ found rest, node.txSearch (ethHashQuery E x) = .ok (found :: rest) ∧
      res.height = found.height := by
  unfold searchByHash queryTendermintTxIndexer at h
  simp only [hclient] at h
  obtain ⟨list, hsearch, h⟩ := bind_eq_ok.mp h
  cases list with
  | nil => cases h
  | cons found rest =>
    obtain ⟨tx, -, h⟩ := bind_eq_ok.mp h
    unfold parseTxIndexerResult at h
    obtain ⟨txs, -, h⟩ := bind_eq_ok.mp h
    obtain ⟨parsedTx, -, h⟩ := bind_eq_ok.mp h
    cases parsedTx with
    | none => cases h
    | some parsedTx =>
      obtain ⟨gas, -, h⟩ := bind_eq_ok.mp h
      obtain rfl := Except.ok.inj h
      exact ⟨found, rest, hsearch, rfl⟩

/-- The place of a hash is the store's, or without one the search's. -/
theorem getTxByEthHash_cases (E : Env) (honline : b.offlineRPCOnly = false) (x : Hash) :
    (∃ db res, b.indexer = some db ∧ db.get? (.txHash x) = some res ∧
      b.getTxByEthHash E x = .ok res) ∨
    (b.indexer.bind (·.get? (.txHash x)) = none ∧
      ∀ res, b.getTxByEthHash E x = .ok res ↔ b.searchByHash E x = .ok res) := by
  unfold getTxByEthHash indexedOrSearched searchByHash getByTxHash DB.getOr
  cases hdb : b.indexer with
  | none => exact .inr ⟨rfl, fun res => by simp [honline]⟩
  | some db =>
    cases hres : db.get? (.txHash x) with
    | none => exact .inr ⟨hres, fun res => by simp [honline, hres]⟩
    | some res => exact .inl ⟨db, res, rfl, hres, by simp [hres]⟩

theorem blockNumber_of_pending {tx : RPCTransaction}
    (h : b.getTransactionByHashPending E x = .ok (some tx)) : tx.blockNumber = none := by
  unfold getTransactionByHashPending at h
  split at h
  · cases h
  · split at h
    · cases h
    · obtain ⟨tx', hnew, htx⟩ := map_eq_ok.mp h
      obtain rfl := Option.some.inj htx
      exact newRPCTransaction_pending hnew

/-- What the live answer to a request for a transaction was taken from. -/
theorem liveTransactionAt_ok (hvirtual : b.virtualizeCosmosEvents = true) {tx : RPCTransaction}
    (h : b.liveTransactionAt E x res = .ok (some tx)) :
    ∃ other blockRes view, b.tendermintBlockByNumber res.height = .ok (some other) ∧
      b.tendermintBlockResultByNumber other.height = .ok blockRes ∧
      liveVirtualBlockView E b (some other) blockRes = .ok view ∧
      view.transactions.find? (·.hash == x) = some tx := by
  unfold liveTransactionAt at h
  obtain ⟨other, hother, h⟩ := bind_eq_ok.mp h
  cases other with
  | none => cases h
  | some other =>
    obtain ⟨rawTx, -, h⟩ := bind_eq_ok.mp h
    obtain ⟨sdkTx, -, h⟩ := bind_eq_ok.mp h
    obtain ⟨msg, -, h⟩ := bind_eq_ok.mp h
    cases heth : msg.ethereum? with
    | none => simp [heth] at h
    | some ethMsg =>
      simp only [heth] at h
      cases hres : b.tendermintBlockResultByNumber other.height with
      | error e => simp [hres] at h
      | ok blockRes =>
        simp only [hres, hvirtual, if_true] at h
        obtain ⟨view, hview, h⟩ := bind_eq_ok.mp h
        exact ⟨other, blockRes, view, hother, hres, hview, Except.ok.inj h⟩

/-- What the live answer to a request for a receipt was taken from. -/
theorem liveReceiptAt_ok (hvirtual : b.virtualizeCosmosEvents = true) {receipt : ReceiptMap}
    (h : b.liveReceiptAt E x res = .ok (some receipt)) :
    ∃ other blockRes view, b.tendermintBlockByNumber res.height = .ok (some other) ∧
      b.tendermintBlockResultByNumber res.height = .ok blockRes ∧
      liveVirtualBlockView E b (some other) blockRes = .ok view ∧
      view.receipts.find? (·.transactionHash == x) = some receipt := by
  unfold liveReceiptAt at h
  obtain ⟨other, hother, h⟩ := bind_eq_ok.mp h
  cases other with
  | none => cases h
  | some other =>
    obtain ⟨rawTx, -, h⟩ := bind_eq_ok.mp h
    obtain ⟨sdkTx, -, h⟩ := bind_eq_ok.mp h
    obtain ⟨msg, -, h⟩ := bind_eq_ok.mp h
    cases heth : msg.ethereum? with
    | none => simp [heth] at h
    | some ethMsg =>
      cases hdata : ethMsg.asTransaction with
      | none => simp [heth, hdata] at h
      | some txData =>
        simp only [heth, hdata] at h
        cases hres : b.tendermintBlockResultByNumber res.height with
        | error e => simp [hres] at h
        | ok blockRes =>
          simp only [hres, hvirtual, if_true] at h
          obtain ⟨view, hview, h⟩ := bind_eq_ok.mp h
          exact ⟨other, blockRes, view, hother, rfl, hview, Except.ok.inj h⟩

end Backend

end EvmGateway
