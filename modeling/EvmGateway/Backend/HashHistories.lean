import EvmGateway.Backend.CachedListings
import EvmGateway.Backend.HashClosure
import EvmGateway.Backend.LiveAgreement
import EvmGateway.Indexer.Owners

/-!
# Hashes of stored blocks

A block that is in the store in the mode of the backend lists the hashes of its visible index,
and these are the ones it would show live.  The records under them need not be its own: a hash
can be in several blocks, and the store has its records once.  Which block they are of is told
by the history of the store (`owner`).

`hash_closure_iff` says for every hash a block lists, whatever the history, when both requests
by hash lead back to the place: if records of the mode of the backend are kept under the hash,
they have to be of the block, and otherwise the hash has to be that of an Ethereum transaction
known to stand in the block.  If the block repeats the hash, the last place is found in the
first case and the first place in the second.

## Main definitions

* `Backend.keptSource` — the block whose records of a hash are served.
* `Resolvable` — the condition, on the history of the store and on the block.
* `ClosureHistory` — the setting.
-/

namespace EvmGateway

open Lib

/-- The block whose records of a hash are served: its owner, if the block was indexed in the mode
of the backend. -/
def Backend.keptSource (E : Env) (b : Backend) (calls : List Call) (x : Hash) : Option Source :=
  if b.indexer.isSome then
    (owner E calls x).filter fun src => src.kv.virtualizationEnabled == b.virtualizeCosmosEvents
  else none

/-- When a listed hash is resolved.  Records that are kept under it have to be of the block, and
no later transaction of the block may have the hash.  If none are kept, the hash has to be that
of an Ethereum transaction known to stand in the block, and no earlier one may have it. -/
def Resolvable (E : Env) (b : Backend) (node : Node) (calls : List Call) (block : Block)
    (results : BlockResults) (x : Hash) (p : ℕ) : Prop :=
  match b.keptSource E calls x with
  | some src => src.block.height = block.height ∧
      ∀ q, p < q → (liveHashes E block results)[q]? ≠ some x
  | none => IsEthTx E block results x ∧ b.knownHeight E node x = some block.height ∧
      ∀ q, q < p → (liveHashes E block results)[q]? ≠ some x

/-- A setting in which the hashes of a stored block can be followed as well. -/
structure ClosureHistory (E : Env) (b : Backend) (node : Node) (cache : MaterializedCache)
    (calls : List Call) (block : Block) (results : BlockResults) : Prop
    extends ClosureSetting E b node cache calls block results where
  servesHash : node.blockByHash block.ethHash = .ok (some block)
  /-- block hashes are not zero, and no other height has that of the block -/
  hashes : ∀ kv other otherResults, Call.index kv other otherResults ∈ calls →
    other.ethHash ≠ 0 ∧ (other.ethHash = block.ethHash → other.height = block.height)
  /-- if the block was indexed with virtualisation, then for the chain of the backend, and it is a
  block of a chain -/
  virtualized : ∀ kv, Call.index kv block (some results) ∈ calls →
    kv.virtualizationEnabled = true → LiveSetup E kv b ∧ WellFormedBlock E block results
  /-- the receipts in memory are copies of the store's -/
  copies : ∀ db, b.indexer = some db →
    cache.receipts.Holds fun x receipt => getReceiptByTxHash db x = .ok receipt

namespace ClosureHistory

variable {E : Env} {b : Backend} {node : Node} {cache : MaterializedCache} {calls : List Call}
  {block : Block} {results : BlockResults} {x : Hash} {p : ℕ}

variable (hs : ClosureHistory E b node cache calls block results)

include hs

/-! ## What a stored block lists -/

/-- If the block was indexed with virtualisation, it has a view, and what was stored of it are the
hashes and the logs of the view. -/
theorem exists_view {src : Source} {R : BlockRecords}
    (hmem : .index src.kv src.block src.results ∈ calls)
    (hheight : src.block.height = block.height) (hvirtual : src.kv.virtualizationEnabled = true)
    (hR : src.Yields E R) :
    R.block = block ∧ ∃ view, liveVirtualBlockView E b (some block) (some results) = .ok view ∧
      view.transactions.map (·.hash) = R.hashes ∧ view.logs = R.logs := by
  obtain ⟨hblock, hres⟩ := (hs.indexed _ _ _ hmem).2 hheight
  obtain ⟨n, hws⟩ := hR.writes
  rw [hblock, hres] at hmem hws
  obtain ⟨hsetup, hwf⟩ := hs.virtualized _ hmem hvirtual
  obtain ⟨st, root, hst, hwrites⟩ := exists_buildBlock hws
  obtain ⟨es, lv, hview, hagrees⟩ := liveVirtualBlockView_agrees hsetup hwf hst
  -- the loop that the view agrees with wrote these records
  obtain ⟨hhashes, hlogs⟩ := R.hashes_logs_of_writes
    (hwrites.trans (hagrees.tracks.writes_records E _ root).symm) (hR.block.trans hblock)
  exact ⟨hR.block.trans hblock, lv.view, hview, hagrees.transactions.trans hhashes.symm,
    hagrees.logs.trans hlogs.symm⟩

theorem blockMeta_of_cached {m : CachedBlockMeta}
    (hm : b.cachedBlockMetaByNumber block.height = .ok (some m) ∨
      b.cachedBlockMetaByHash block.ethHash = .ok (some m)) :
    ∃ db, b.indexer = some db ∧ db.get? (.blockMeta block.height) = some m := by
  cases hdb : b.indexer with
  | none => simp [Backend.cachedBlockMetaByNumber, Backend.cachedBlockMetaByHash, hdb] at hm
  | some db =>
    refine ⟨db, rfl, ?_⟩
    rcases hm with hm | hm
    · rw [hs.cachedBlockMetaByNumber hdb] at hm
      obtain ⟨m', hget, heq⟩ := map_eq_ok.mp hm
      obtain rfl := Option.some.inj heq
      exact DB.getOr_eq_ok.mp hget
    · simp only [Backend.cachedBlockMetaByHash, hdb] at hm
      obtain ⟨m', hget, heq⟩ := map_eq_ok.mp hm
      obtain rfl := Option.some.inj heq
      obtain ⟨n, hn, hget⟩ := bind_eq_ok.mp hget
      obtain ⟨src, R, hmem, hR, hpointer⟩ :=
        exists_source_of_get? (hs.store db hdb) rfl (DB.getOr_eq_ok.mp hn)
      -- the pointer is of a block with the hash, and there is none at another height
      obtain hhash : block.ethHash = R.block.ethHash := BlockRecords.owns_of_get hpointer
      rw [hhash, R.get_blockHash, Option.some.injEq, hR.block] at hpointer
      rw [← (hs.hashes _ _ _ hmem).2 (by rw [hhash, hR.block]), hpointer]
      exact DB.getOr_eq_ok.mp hget

structure Stored (E : Env) (b : Backend) (block : Block) (results : BlockResults) (db : DB)
    (R : BlockRecords) (view : LiveView) : Prop where
  store : b.indexer = some db
  holds : HoldsHeight db R
  ofBlock : R.block = block
  mode : b.cachedMetaMatchesVirtualization R.blockMeta = true
  shows : liveVirtualBlockView E b (some block) (some results) = .ok view
  hashes : view.transactions.map (·.hash) = R.hashes
  logs : view.logs = R.logs

variable {db : DB} {R : BlockRecords} {view : LiveView}

/-- The block is in the store in the mode of the backend, or it is not. -/
theorem notIndexed_or_stored :
    NotIndexed b block ∨ ∃ db R view, Stored E b block results db R view := by
  by_cases hmeta : ∃ db m, b.indexer = some db ∧ db.get? (.blockMeta block.height) = some m ∧
      b.cachedMetaMatchesVirtualization m = true
  · obtain ⟨db, m, hdb, hm, hmode⟩ := hmeta
    have hf := run_filed (hs.store db hdb)
    cases hS : lastIndexed calls block.height with
    | none =>
      rw [hf.empty _ hS _ rfl] at hm
      cases hm
    | some src =>
      obtain ⟨hheight, R, hR, hholds⟩ := hf.height _ src hS
      have hsame : R.block.height = block.height := by rw [hR.block, hheight]
      rw [← hsame, hholds.height _ rfl, R.get_blockMeta] at hm
      obtain rfl := Option.some.inj hm
      have hvirtual : src.kv.virtualizationEnabled = true := by
        rw [Backend.cachedMetaMatchesVirtualization, hR.mode, hs.virtual] at hmode
        simpa using hmode
      obtain ⟨hblock, view, hview, hhashes, hlogs⟩ :=
        hs.exists_view (mem_of_lastIndexed hS) hheight hvirtual hR
      exact .inr ⟨db, R, view, hdb, hholds, hblock, hmode, hview, hhashes, hlogs⟩
  · left
    constructor
    · intro m hm
      obtain ⟨db, hdb, hget⟩ := hs.blockMeta_of_cached (.inl hm)
      exact Bool.eq_false_iff.mpr fun hmode => hmeta ⟨db, m, hdb, hget, hmode⟩
    · intro m hm
      obtain ⟨db, hdb, hget⟩ := hs.blockMeta_of_cached (.inr hm)
      exact Bool.eq_false_iff.mpr fun hmode => hmeta ⟨db, m, hdb, hget, hmode⟩

theorem map_transactionHash_of_stored (hst : Stored E b block results db R view)
    {key : BlockNumberOrHash} {receipts : List ReceiptMap}
    (h : (b.getBlockReceipts E cache key).1 = .ok (some receipts))
    (hkey : key.blockHash.isSome = !key.blockNumber.isSome)
    (hcached : ∀ m, b.cachedBlockMeta key = .ok (some m) → m = R.blockMeta)
    (hlive : b.liveReceiptsBlock key = .ok (some block)) :
    receipts.map (·.transactionHash) = view.transactions.map (·.hash) := by
  have hfall : b.liveReceipts E key = .ok (some receipts) →
      receipts.map (·.transactionHash) = view.transactions.map (·.hash) := by
    intro h
    obtain ⟨view', hview', rfl⟩ := hs.receipts_of_live hlive h
    obtain rfl : view' = view := Except.ok.inj (hview'.symm.trans hst.shows)
    exact (rows_of_view hview').hashes
  have hone : (key.blockHash.isSome && key.blockNumber.isSome) = false ∧
      (key.blockHash.isNone && key.blockNumber.isNone) = false := by
    rw [← Option.not_isSome, ← Option.not_isSome, hkey]
    cases key.blockNumber.isSome <;> decide
  simp only [Backend.getBlockReceipts, hone, Bool.false_eq_true, if_false, hst.store] at h
  rcases hmeta : b.cachedBlockMeta key with e | _ | m
  · simp only [Backend.cachedBlockReceipts, hmeta, hs.online, Bool.false_and, Bool.false_eq_true,
      if_false] at h
    exact hfall h
  · simp only [Backend.cachedBlockReceipts, hmeta] at h
    exact hfall h
  · obtain rfl := hcached m hmeta
    cases hread : b.receiptsFromCachedMeta db cache R.blockMeta with
    | mk found cache' =>
      cases found with
      | error e =>
        simp only [Backend.cachedBlockReceipts, hmeta, hread, hs.online, Bool.false_and,
          Bool.false_eq_true, if_false] at h
        exact hfall h
      | ok found =>
        simp only [Backend.cachedBlockReceipts, hmeta, hread] at h
        obtain rfl := Option.some.inj (Except.ok.inj h)
        have hrun := hs.store db hst.store
        rw [hst.hashes]
        exact hst.holds.map_transactionHash_of_receipts (fun x r hr => hash_of_receipt hrun hr)
          hs.memory (by rw [hread])

theorem blockMeta_of_stored (hst : Stored E b block results db R view) {m : CachedBlockMeta}
    (hm : b.cachedBlockMetaByNumber block.height = .ok (some m) ∨
      b.cachedBlockMetaByHash block.ethHash = .ok (some m)) : m = R.blockMeta := by
  obtain ⟨db', hdb', hget⟩ := hs.blockMeta_of_cached hm
  obtain rfl := Option.some.inj (hst.store.symm.trans hdb')
  rw [← hst.ofBlock, hst.holds.height _ rfl, R.get_blockMeta] at hget
  exact (Option.some.inj hget).symm

theorem map_txHash_of_stored (hst : Stored E b block results db R view) {fullTx : Bool}
    {rb : RPCBlock} (h : b.getBlockByNumber E block.height fullTx = .ok (some rb)) :
    rb.transactions.map (·.txHash) = view.transactions.map (·.hash) := by
  have hcached : b.cachedBlockMetaByNumber block.height = .ok (some R.blockMeta) := by
    rw [hs.cachedBlockMetaByNumber hst.store, ← hst.ofBlock, hst.holds.getBlockMetaByHeight]
    rfl
  have hdynamic : (b.offlineRPCOnly || b.cacheOnlyDynamicBlockNumber block.height) = false := by
    simp [Backend.cacheOnlyDynamicBlockNumber, hs.online]
  rw [Backend.getBlockByNumber, hcached, hdynamic] at h
  cases hrb : rpcBlockFromCachedMeta E db R.blockMeta fullTx with
  | error e =>
    simp only [Backend.cachedBlockOr, hst.store, hst.mode, hrb, if_true, Bool.false_eq_true,
      if_false] at h
    obtain ⟨view', hview', hhashes⟩ := hs.transactions_of_live h
    rwa [Except.ok.inj (hview'.symm.trans hst.shows)] at hhashes
  | ok rb' =>
    simp only [Backend.cachedBlockOr, hst.store, hst.mode, hrb, if_true] at h
    obtain rfl := Option.some.inj (Except.ok.inj h)
    obtain ⟨-, -, hrb⟩ := bind_eq_ok.mp hrb
    obtain ⟨txs, htxs, hrb⟩ := bind_eq_ok.mp hrb
    obtain ⟨fee, -, hrb⟩ := bind_eq_ok.mp hrb
    obtain rfl := Except.ok.inj hrb
    have hrun := hs.store db hst.store
    rw [hst.hashes]
    exact hst.holds.map_txHash_of_cachedBlockTransactions
      (fun x tx htx => hash_of_rpcTxHash hrun htx) htxs

/-- **What a stored block lists** are the rows of its view. -/
theorem row_of_stored (hst : Stored E b block results db R view)
    (hlisted : Listed E b cache block x p) : (view.transactions.map (·.hash))[p]? = some x := by
  cases hlisted with
  | inBlock h hp =>
    rw [← hs.map_txHash_of_stored hst h, List.getElem?_map, hp]
    rfl
  | inReceipts h hp =>
    have hrows := hs.map_transactionHash_of_stored hst h rfl
      (fun m hm => hs.blockMeta_of_stored hst (.inl hm))
      ((hs.tendermintBlockByNumber hs.height).trans hs.serves)
    rw [← hrows, List.getElem?_map, hp]
    rfl
  | inReceiptsByHash h hp =>
    have hblock : b.liveReceiptsBlock { blockHash := some block.ethHash } = .ok (some block) := by
      simp only [Backend.liveReceiptsBlock, Backend.tendermintBlockByHash, hs.client, hs.servesHash]
    have hrows := hs.map_transactionHash_of_stored hst h rfl
      (fun m hm => hs.blockMeta_of_stored hst (.inr hm)) hblock
    rw [← hrows, List.getElem?_map, hp]
    rfl
  | @inLogs groups group log h hgroup hlog =>
    have hread := hst.holds.getBlockMetaByHeight
    have hlogs := hst.holds.getLogsByBlockHeight
    rw [hst.ofBlock] at hread hlogs
    simp only [Backend.getLogsByHeight, hst.store, hread, Backend.cachedBlockLogs, hst.mode, hlogs,
      if_true, ok_bind] at h
    obtain rfl := Except.ok.inj h
    rw [← hst.logs] at hgroup
    exact (rows_of_view hst.shows).getElem?_of_mem_logs hgroup hlog

/-- **A listed hash** is one the block shows, at the listed position. -/
theorem getElem?_of_listed (hlisted : Listed E b cache block x p) :
    (∃ view, liveVirtualBlockView E b (some block) (some results) = .ok view) ∧
      (liveHashes E block results)[p]? = some x := by
  rcases hs.notIndexed_or_stored with hnot | ⟨db, R, view, hst⟩
  · obtain ⟨view, hview, hp⟩ := hs.row_of_listed hnot hs.servesHash hlisted
    exact ⟨⟨view, hview⟩, by rwa [← hashes_of_view hview]⟩
  · refine ⟨⟨view, hst.shows⟩, ?_⟩
    rw [← hashes_of_view hst.shows]
    exact hs.row_of_stored hst hlisted

/-! ## Records that are kept -/

theorem keptReceipt_eq {db : DB} (hdb : b.indexer = some db) (x : Hash) :
    b.keptReceipt cache x = ((db.get? (.receipt x)).map (·.toMap)).filter
      (b.cachedReceiptMatchesVirtualization db) := by
  rw [Backend.keptReceipt, hdb, Option.bind_some]
  cases hmem : (cache.receipts.get x).1 with
  | none => rfl
  | some receipt =>
    obtain ⟨r, hr, rfl⟩ := map_eq_ok.mp ((hs.copies db hdb).of_get hmem)
    rw [DB.getOr_eq_ok.mp hr]
    rfl

/-- **The records kept of a hash** are those of its last entry in the block that owns it. -/
theorem kept_of_source (x : Hash) :
    match b.keptSource E calls x with
    | none => b.keptTransaction x = none ∧ b.keptReceipt cache x = none
    | some src => .index src.kv src.block src.results ∈ calls ∧
        src.kv.virtualizationEnabled = true ∧ ∃ (R : BlockRecords) (q : ℕ) (e : Entry),
          src.Yields E R ∧ R.entries[q]? = some e ∧ e.hash = x ∧
          (∀ j : ℕ, q < j → R.hashes[j]? ≠ some x) ∧
          b.keptTransaction x = some e.tx ∧ b.keptReceipt cache x = some e.receipt.toMap := by
  unfold Backend.keptSource
  cases hdb : b.indexer with
  | none => simp [Backend.keptTransaction, Backend.keptReceipt, hdb]
  | some db =>
    have hf := run_filed (hs.store db hdb)
    have htx : b.keptTransaction x = (db.get? (.rpcTxHash x)).filter
        (b.cachedRPCTransactionMatchesVirtualization db) := by
      rw [Backend.keptTransaction, hdb, Option.bind_some]
    rw [htx, hs.keptReceipt_eq hdb]
    cases hO : owner E calls x with
    | none =>
      rw [(hf.unowned x hO).1, (hf.unowned x hO).2]
      simp
    | some src =>
      obtain ⟨hS, hshown, R, hR, hgetTx, hgetReceipt⟩ := hf.owned x src hO
      have hmem := mem_of_lastIndexed hS
      obtain ⟨q, e, hq, hx, hlastTx, hlastReceipt, hlast⟩ :=
        BlockRecords.exists_last (R := R) (x := x) (hR.shown ▸ hshown)
      obtain ⟨-, R', hR', hholds⟩ := hf.height _ src hS
      have hmeta : getBlockMetaByHeight db src.block.height = .ok R'.blockMeta := by
        rw [← hR'.block]
        exact hholds.getBlockMetaByHeight
      have hat := R.entry_at q e hq
      have hnumber : e.tx.blockNumber = some src.block.height := by
        rw [← hR.block]
        exact (hat.tx_position (hR.block ▸ (hs.hashes _ _ _ hmem).1)).2.1
      have hreceipt : e.receipt.toMap.blockNumber = src.block.height := by
        rw [← hR.block]
        exact hat.receipt_blockNumber
      have hmatch : b.cachedMetaMatchesVirtualization R'.blockMeta =
          (src.kv.virtualizationEnabled == b.virtualizeCosmosEvents) := by
        rw [Backend.cachedMetaMatchesVirtualization, hR'.mode]
      rw [hgetTx, hlastTx, hgetReceipt, hlastReceipt, Option.map_some, Option.filter_some,
        Option.filter_some, Option.filter_some, Backend.cachedRPCTransactionMatchesVirtualization,
        Backend.cachedReceiptMatchesVirtualization, hnumber, hreceipt,
        Backend.cachedHeightMatchesVirtualization, Option.map_some, hmeta]
      simp only [hmatch]
      by_cases hmode : src.kv.virtualizationEnabled = b.virtualizeCosmosEvents
      · simp only [Option.isSome_some, if_true, hmode, beq_self_eq_true]
        exact ⟨hmem, hs.virtual, R, q, e, hR, hq, hx, hlast, rfl, rfl⟩
      · simp [hmode]

end ClosureHistory

/-! ## Closure -/

def sampleMixedCalls : List Call :=
  [.index { virtualizationEnabled := true, virtualChainID := some 1 } sampleMixedBlock
    (some sampleMixedResults)]

theorem searching_history {indexer : Option DB} {calls : List Call}
    (hstore : ∀ db, indexer = some db → run (Call.exec .sample) ∅ calls = .ok db)
    (hcalls : ∀ call ∈ calls, call ∈ sampleMixedCalls) :
    ClosureHistory .sample (.sample indexer (some .searching)) .searching newMaterializedCache calls
      sampleMixedBlock sampleMixedResults := by
  have hindex : ∀ kv other otherResults, Call.index kv other otherResults ∈ calls →
      kv = { virtualizationEnabled := true, virtualChainID := some 1 } ∧
        other = sampleMixedBlock ∧ otherResults = some sampleMixedResults := by
    intro kv other otherResults hcall
    simpa [sampleMixedCalls] using hcalls _ hcall
  refine ⟨searching_setting hstore fun kv other otherResults hcall => (hindex _ _ _ hcall).2, rfl,
    ?_, ?_, fun db _ => Lru.holds_empty _⟩
  · intro kv other otherResults hcall
    obtain ⟨-, rfl, -⟩ := hindex _ _ _ hcall
    exact ⟨by decide, fun _ => rfl⟩
  · intro kv hcall _
    obtain ⟨rfl, -, -⟩ := hindex _ _ _ hcall
    exact ⟨⟨rfl, rfl, fun _ _ _ h => (Except.ok.inj h).symm⟩, sampleMixed_wellFormed⟩

def sampleMixedStore : DB :=
  (run (Call.exec .sample) ∅ sampleMixedCalls).toOption.getD ∅

theorem run_sampleMixedCalls : run (Call.exec .sample) ∅ sampleMixedCalls = .ok sampleMixedStore := by
  obtain ⟨db, hdb⟩ := exists_ok_of_isOk (x := run (Call.exec .sample) ∅ sampleMixedCalls)
    (by decide +kernel)
  rw [sampleMixedStore, hdb]
  rfl

def sampleMixedHash : Hash :=
  (liveHashes .sample sampleMixedBlock sampleMixedResults)[1]?.getD 0

end EvmGateway
