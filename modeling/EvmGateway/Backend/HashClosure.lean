import EvmGateway.Backend.EthTxs
import EvmGateway.Backend.HashLookups

/-!
# Hashes that a block lists

A block lists its transaction hashes in three places: in the block itself, in its receipts
and in its logs.  With virtualisation all three contain the synthetic hashes, which are
derived from the block one way.  A request by hash reads the record of the store if it has
one of the right mode.  Otherwise it has to find the block of the hash first, and asks the
store's results and then the node's search, both of which know Ethereum transactions only.

So a hash is found at the node exactly if it is that of an Ethereum transaction known to stand
in the block (`liveTransactionByHash_iff`, `liveReceiptByHash_iff`).  A synthetic hash of a
block that is not in the store, or is there in the other mode, is listed and not found
(`synthetic_hash_not_found`).

## Main definitions

* `Listed` — the hashes a block lists, with their positions.
* `Resolves` — both requests by hash answer with the place.
* `FoundLive` — the node leads to the place.
-/

namespace EvmGateway

open Lib

/-! ## Listings and lookups -/

/-- The hash `x` is listed for the block at position `p`. -/
inductive Listed (E : Env) (b : Backend) (cache : MaterializedCache) (block : Block) :
    Hash → ℕ → Prop
  | inBlock {fullTx : Bool} {rb : RPCBlock} {p : ℕ} {t : BlockTx}
      (h : b.getBlockByNumber E block.height fullTx = .ok (some rb))
      (hp : rb.transactions[p]? = some t) : Listed E b cache block t.txHash p
  | inReceipts {receipts : List ReceiptMap} {p : ℕ} {r : ReceiptMap}
      (h : (b.getBlockReceipts E cache { blockNumber := some block.height }).1 =
        .ok (some receipts))
      (hp : receipts[p]? = some r) : Listed E b cache block r.transactionHash p
  | inReceiptsByHash {receipts : List ReceiptMap} {p : ℕ} {r : ReceiptMap}
      (h : (b.getBlockReceipts E cache { blockHash := some block.ethHash }).1 =
        .ok (some receipts))
      (hp : receipts[p]? = some r) : Listed E b cache block r.transactionHash p
  | inLogs {groups : List (List RPCLog)} {group : List RPCLog} {log : RPCLog}
      (h : b.getLogsByHeight E block.height = .ok groups) (hgroup : group ∈ groups)
      (hlog : log ∈ group) : Listed E b cache block log.txHash log.txIndex

/-- Both requests by hash answer with the position of the block. -/
structure Resolves (E : Env) (b : Backend) (cache : MaterializedCache) (block : Block) (x : Hash)
    (p : ℕ) : Prop where
  transaction : ∃ tx, b.getTransactionByHash E x = .ok (some tx) ∧ tx.Is block x p
  receipt : ∃ receipt, (b.getTransactionReceipt E cache x).1 = .ok (some receipt) ∧
    receipt.Is block x p

/-! ## What is known of a hash -/

namespace Backend

/-- The height at which a hash is known to stand: by the store's result, or else by the first
transaction the node's search returns. -/
def knownHeight (E : Env) (b : Backend) (node : Node) (x : Hash) : Option ℕ :=
  match b.indexer.bind (·.get? (.txHash x)) with
  | some res => some res.height
  | none =>
    match node.txSearch (ethHashQuery E x) with
    | .ok (found :: _) => some found.height
    | _ => none

end Backend

def IsEthTx (E : Env) (block : Block) (results : BlockResults) (x : Hash) : Prop :=
  ∃ i j, EthTxAt E block results.txResults x i j

/-! ## The setting -/

/-- An online backend with virtualisation, a block its node serves, and any store that was
filled from the blocks of the chain. -/
structure ClosureSetting (E : Env) (b : Backend) (node : Node) (cache : MaterializedCache)
    (calls : List Call) (block : Block) (results : BlockResults) : Prop where
  online : b.offlineRPCOnly = false
  virtual : b.virtualizeCosmosEvents = true
  client : b.client = some node
  height : 1 ≤ block.height
  serves : node.block block.height = .ok (some block)
  servesResults : node.blockResults block.height = .ok (some results)
  /-- the node answers with the block that is asked for -/
  honest : ∀ (h : ℤ) (other : Block), node.block h = .ok (some other) →
    other.height = h ∧ other.ethHash ≠ 0
  /-- the node's search finds every Ethereum transaction -/
  finds : ∀ x, IsEthTx E block results x → ∃ res, b.searchByHash E x = .ok res
  /-- and what it finds in the block stands there -/
  stands : ∀ x res, b.searchByHash E x = .ok res → 1 ≤ res.height ∧
    (res.height = block.height → EthTxAt E block results.txResults x res.txIndex res.msgIndex)
  store : ∀ db, b.indexer = some db → run (Call.exec E) ∅ calls = .ok db
  /-- at the height of the block, the node's block was indexed, in either mode -/
  indexed : ∀ kv other otherResults, Call.index kv other otherResults ∈ calls → 1 ≤ other.height ∧
    (other.height = block.height → other = block ∧ otherResults = some results)
  memory : cache.receipts.Holds fun x receipt => receipt.transactionHash = x

/-- The hash can be found in the node's block: it is an Ethereum transaction, it is known to
stand in the block, and the position is the first the rebuilt block has it at. -/
structure FoundLive (E : Env) (b : Backend) (node : Node) (block : Block) (results : BlockResults)
    (x : Hash) (p : ℕ) : Prop where
  ethereum : IsEthTx E block results x
  known : b.knownHeight E node x = some block.height
  first : ∃ view, liveVirtualBlockView E b (some block) (some results) = .ok view ∧
    view.transactions.findIdx? (·.hash == x) = some p

namespace ClosureSetting

variable {E : Env} {b : Backend} {node : Node} {cache : MaterializedCache} {calls : List Call}
  {block : Block} {results : BlockResults} {x : Hash} {p : ℕ} {res : TxResult}

variable (hs : ClosureSetting E b node cache calls block results)

include hs

theorem tendermintBlockByNumber {h : ℕ} (hpos : 1 ≤ h) :
    b.tendermintBlockByNumber h = node.block h := by
  have hheight : b.tendermintHeight h = .ok h := by
    rw [Backend.tendermintHeight, blockNumberInt64_of_pos (by omega), if_neg (by omega)]
  simp only [Backend.tendermintBlockByNumber, hheight, ok_bind, hs.client]

theorem tendermintBlockResultByNumber (h : ℕ) :
    b.tendermintBlockResultByNumber h = node.blockResults h := by
  rw [Backend.tendermintBlockResultByNumber, hs.client]

theorem cachedBlockMetaByNumber {db : DB} (hdb : b.indexer = some db) :
    b.cachedBlockMetaByNumber block.height = some <$> getBlockMetaByHeight db block.height := by
  have hheight := hs.height
  have hindexed : b.indexedBlockHeight block.height = block.height := by
    simp only [Backend.indexedBlockHeight, hdb]
    rw [if_neg (by omega), blockNumberInt64_of_pos (by omega)]
  simp only [Backend.cachedBlockMetaByNumber, hdb, hindexed]
  rw [if_neg (by omega), Int.toNat_natCast]

/-- A hash whose place is found is known there, and stands there if that is the block. -/
theorem of_getTxByEthHash (h : b.getTxByEthHash E x = .ok res) :
    1 ≤ res.height ∧ b.knownHeight E node x = some res.height ∧
      (res.height = block.height →
        EthTxAt E block results.txResults x res.txIndex res.msgIndex) := by
  unfold Backend.knownHeight
  rcases b.getTxByEthHash_cases E hs.online x with ⟨db, res', hdb, hres', hget⟩ | ⟨hnone, hget⟩
  · obtain rfl := Except.ok.inj (h.symm.trans hget)
    obtain ⟨kv, other, otherResults, hmem, hheight, hat⟩ := ethTxAt_of_txHash (hs.store db hdb) hres'
    obtain ⟨hpos, hsame⟩ := hs.indexed kv other otherResults hmem
    refine ⟨hheight ▸ hpos, by rw [hdb, Option.bind_some, hres'], fun hblock => ?_⟩
    obtain ⟨rfl, rfl⟩ := hsame (hheight ▸ hblock)
    exact hat
  · have hsearch := (hget res).mp h
    obtain ⟨found, rest, hfound, hheight⟩ := Backend.exists_of_searchByHash hs.client hsearch
    obtain ⟨hpos, hat⟩ := hs.stands x res hsearch
    exact ⟨hpos, by rw [hnone, hfound, hheight], hat⟩

/-- The place of an Ethereum transaction that is known to stand in the block is found. -/
theorem exists_getTxByEthHash (heth : IsEthTx E block results x)
    (hknown : b.knownHeight E node x = some block.height) :
    ∃ res, b.getTxByEthHash E x = .ok res ∧ res.height = block.height := by
  have hfound : ∃ res, b.getTxByEthHash E x = .ok res := by
    rcases b.getTxByEthHash_cases E hs.online x with ⟨db, res, -, -, hget⟩ | ⟨-, hget⟩
    · exact ⟨res, hget⟩
    · obtain ⟨res, hres⟩ := hs.finds x heth
      exact ⟨res, (hget res).mpr hres⟩
  obtain ⟨res, hres⟩ := hfound
  obtain ⟨-, hheight, -⟩ := hs.of_getTxByEthHash hres
  exact ⟨res, hres, Option.some.inj (hheight.symm.trans hknown)⟩

/-- The view a live answer is taken from is that of the block, if the answer is. -/
theorem foundLive_of_view {other : Block} {blockRes : Option BlockResults} {view : LiveView}
    (hget : b.getTxByEthHash E x = .ok res)
    (hother : b.tendermintBlockByNumber res.height = .ok (some other))
    (hres : b.tendermintBlockResultByNumber other.height = .ok blockRes)
    (hview : liveVirtualBlockView E b (some other) blockRes = .ok view)
    (hheight : other.height = block.height)
    (hfirst : view.transactions.findIdx? (·.hash == x) = some p) :
    FoundLive E b node block results x p := by
  obtain ⟨hpos, hknown, hat⟩ := hs.of_getTxByEthHash hget
  rw [hs.tendermintBlockByNumber hpos] at hother
  have hsame : res.height = block.height := by
    have := (hs.honest res.height other hother).1
    omega
  rw [hsame, hs.serves] at hother
  obtain rfl := Option.some.inj (Except.ok.inj hother)
  rw [hs.tendermintBlockResultByNumber, hs.servesResults] at hres
  obtain rfl := Except.ok.inj hres
  exact ⟨⟨_, _, hat hsame⟩, hsame ▸ hknown, view, hview, hfirst⟩

/-- A transaction is found at the node exactly under the hash of an Ethereum transaction that
is known to stand in the block. -/
theorem liveTransactionByHash_iff :
    (∃ tx, b.liveTransactionByHash E x = .ok (some tx) ∧ tx.Is block x p) ↔
      FoundLive E b node block results x p := by
  constructor
  · rintro ⟨tx, h, his⟩
    unfold Backend.liveTransactionByHash at h
    obtain ⟨found, hattempt, h⟩ := bind_eq_ok.mp h
    rcases attempt_eq_ok hattempt with ⟨res, hget, rfl⟩ | ⟨rfl, -⟩
    · obtain ⟨other, blockRes, view, hother, hres, hview, hfind⟩ :=
        Backend.liveTransactionAt_ok hs.virtual h
      have hrows := rows_of_view hview
      have hother' := hother
      rw [hs.tendermintBlockByNumber (hs.of_getTxByEthHash hget).1] at hother'
      have hne := (hs.honest _ other hother').2
      have hheight : other.height = block.height := by
        obtain ⟨i, -, htx⟩ := find?_eq_some_iff_findIdx?.mp hfind
        obtain ⟨hlt, -⟩ := List.getElem?_eq_some_iff.mp htx
        obtain ⟨tx', receipt, htx', -, hrow⟩ := hrows.exists_row hlt
        obtain rfl := Option.some.inj (htx.symm.trans htx')
        exact Option.some.inj ((hrow.tx_position hne).1.symm.trans his.blockNumber)
      have his' : tx.Is other x p := ⟨his.hash, hheight ▸ his.blockNumber, his.transactionIndex⟩
      exact hs.foundLive_of_view hget hother hres hview hheight
        ((hrows.find?_transactions hne).mp ⟨tx, hfind, his'⟩)
    · simp only [hs.online, Bool.false_eq_true, if_false] at h
      cases (Backend.blockNumber_of_pending h).symm.trans his.blockNumber
  · rintro ⟨heth, hknown, view, hview, hfirst⟩
    obtain ⟨res, hget, hheight⟩ := hs.exists_getTxByEthHash heth hknown
    obtain ⟨-, -, hat⟩ := hs.of_getTxByEthHash hget
    obtain ⟨normalized, rawTx, result, tx, parsedTxs, msg, ethMsg, txData, -, hraw, -, hdec, -, hmsg,
      hethMsg, -, -⟩ := hat hheight
    have hne := (hs.honest _ block hs.serves).2
    obtain ⟨rpcTx, hfind, his⟩ := ((rows_of_view hview).find?_transactions hne).mpr hfirst
    refine ⟨rpcTx, ?_, his⟩
    have hblock : b.tendermintBlockByNumber res.height = .ok (some block) := by
      rw [hheight, hs.tendermintBlockByNumber hs.height, hs.serves]
    have hresults := (hs.tendermintBlockResultByNumber block.height).trans hs.servesResults
    simp only [Backend.liveTransactionByHash, hget, attempt_ok, ok_bind, Backend.liveTransactionAt,
      hblock, Block.txAt, hraw, hdec, SdkTx.msgAt, hmsg, hethMsg, hresults, hs.virtual, if_true,
      hview,
      hfind]
    rfl

/-- A receipt is found at the node exactly under the hash of an Ethereum transaction that is
known to stand in the block. -/
theorem liveReceiptByHash_iff :
    (∃ receipt, b.liveReceiptByHash E x = .ok (some receipt) ∧ receipt.Is block x p) ↔
      FoundLive E b node block results x p := by
  constructor
  · rintro ⟨receipt, h, his⟩
    unfold Backend.liveReceiptByHash at h
    obtain ⟨found, hattempt, h⟩ := bind_eq_ok.mp h
    rcases attempt_eq_ok hattempt with ⟨res, hget, rfl⟩ | ⟨rfl, -⟩
    · obtain ⟨other, blockRes, view, hother, hres, hview, hfind⟩ :=
        Backend.liveReceiptAt_ok hs.virtual h
      have hrows := rows_of_view hview
      have hother' := hother
      rw [hs.tendermintBlockByNumber (hs.of_getTxByEthHash hget).1] at hother'
      have hasked : other.height = res.height := by exact_mod_cast (hs.honest _ other hother').1
      have hheight : other.height = block.height := by
        obtain ⟨i, -, hreceipt⟩ := find?_eq_some_iff_findIdx?.mp hfind
        obtain ⟨hlt, -⟩ := List.getElem?_eq_some_iff.mp hreceipt
        obtain ⟨tx, receipt', -, hreceipt', hrow⟩ := hrows.exists_row (hrows.length ▸ hlt)
        obtain rfl := Option.some.inj (hreceipt.symm.trans hreceipt')
        exact hrow.blockNumber.symm.trans his.blockNumber
      have his' : receipt.Is other x p :=
        ⟨his.transactionHash, hheight ▸ his.blockNumber, his.transactionIndex⟩
      exact hs.foundLive_of_view hget hother (hasked ▸ hres) hview hheight
        (hrows.find?_receipts.mp ⟨receipt, hfind, his'⟩)
    · cases h
  · rintro ⟨heth, hknown, view, hview, hfirst⟩
    obtain ⟨res, hget, hheight⟩ := hs.exists_getTxByEthHash heth hknown
    obtain ⟨-, -, hat⟩ := hs.of_getTxByEthHash hget
    obtain ⟨normalized, rawTx, result, tx, parsedTxs, msg, ethMsg, txData, -, hraw, -, hdec, -, hmsg,
      hethMsg, hdata, -⟩ := hat hheight
    obtain ⟨receipt, hfind, his⟩ := (rows_of_view hview).find?_receipts.mpr hfirst
    refine ⟨receipt, ?_, his⟩
    have hblock : b.tendermintBlockByNumber res.height = .ok (some block) := by
      rw [hheight, hs.tendermintBlockByNumber hs.height, hs.serves]
    have hresults : b.tendermintBlockResultByNumber res.height = .ok (some results) := by
      rw [hheight, hs.tendermintBlockResultByNumber, hs.servesResults]
    have hwrap : wrapErr (E.txDecoder rawTx) "failed to decode tx" = .ok tx := wrapErr_eq_ok.mpr hdec
    simp only [Backend.liveReceiptByHash, hget, attempt_ok, ok_bind, Backend.liveReceiptAt, hblock,
      Block.txAt, hraw, hwrap, SdkTx.msgAt, hmsg, hethMsg, hdata, hresults, hs.virtual, if_true,
      hview,
      hfind]
    rfl

/-! ## Closure -/

theorem transaction_iff :
    (∃ tx, b.getTransactionByHash E x = .ok (some tx) ∧ tx.Is block x p) ↔
      match b.keptTransaction x with
      | some tx => tx.blockNumber = some block.height ∧ tx.transactionIndex = some p
      | none => FoundLive E b node block results x p := by
  rw [Backend.getTransactionByHash_eq hs.online hs.virtual]
  cases hkept : b.keptTransaction x with
  | none => exact hs.liveTransactionByHash_iff
  | some tx =>
    have hhash : tx.hash = x := by
      obtain ⟨db, hdb, hfilter⟩ := Option.bind_eq_some_iff.mp hkept
      exact hash_of_rpcTxHash (hs.store db hdb) (Option.filter_eq_some_iff.mp hfilter).1
    constructor
    · rintro ⟨tx', htx', his⟩
      obtain rfl := Option.some.inj (Except.ok.inj htx')
      exact ⟨his.blockNumber, his.transactionIndex⟩
    · rintro ⟨hnumber, hindex⟩
      exact ⟨tx, rfl, hhash, hnumber, hindex⟩

theorem receipt_iff :
    (∃ receipt, (b.getTransactionReceipt E cache x).1 = .ok (some receipt) ∧
      receipt.Is block x p) ↔
      match b.keptReceipt cache x with
      | some receipt => receipt.blockNumber = block.height ∧ receipt.transactionIndex = p
      | none => FoundLive E b node block results x p := by
  rw [Backend.getTransactionReceipt_eq hs.online hs.virtual]
  cases hkept : b.keptReceipt cache x with
  | none => exact hs.liveReceiptByHash_iff
  | some receipt =>
    have hhash : receipt.transactionHash = x := by
      obtain ⟨db, hdb, hfilter⟩ := Option.bind_eq_some_iff.mp hkept
      rcases Option.or_eq_some_iff.mp (Option.filter_eq_some_iff.mp hfilter).1 with hmem |
        ⟨-, hstored⟩
      · exact hs.memory.of_get hmem
      · obtain ⟨stored, hget, rfl⟩ := Option.map_eq_some_iff.mp hstored
        exact hash_of_receipt (hs.store db hdb) hget
    constructor
    · rintro ⟨receipt', hreceipt', his⟩
      obtain rfl := Option.some.inj (Except.ok.inj hreceipt')
      exact ⟨his.blockNumber, his.transactionIndex⟩
    · rintro ⟨hnumber, hindex⟩
      exact ⟨receipt, rfl, hhash, hnumber, hindex⟩

end ClosureSetting

/-! ## Blocks that are not in the store -/

/-- The store has no meta of the block in the mode of the backend, neither under its height nor
under its hash. -/
structure NotIndexed (b : Backend) (block : Block) : Prop where
  byNumber : ∀ m, b.cachedBlockMetaByNumber block.height = .ok (some m) →
    b.cachedMetaMatchesVirtualization m = false
  byHash : ∀ m, b.cachedBlockMetaByHash block.ethHash = .ok (some m) →
    b.cachedMetaMatchesVirtualization m = false

namespace ClosureSetting

variable {E : Env} {b : Backend} {node : Node} {cache : MaterializedCache} {calls : List Call}
  {block : Block} {results : BlockResults} {x : Hash} {p : ℕ}

variable (hs : ClosureSetting E b node cache calls block results)

include hs

theorem transactions_of_live {fullTx : Bool} {rb : RPCBlock}
    (h : b.liveBlockByNumber E block.height fullTx = .ok (some rb)) :
    ∃ view, liveVirtualBlockView E b (some block) (some results) = .ok view ∧
      rb.transactions.map (·.txHash) = view.transactions.map (·.hash) := by
  rw [Backend.liveBlockByNumber, hs.tendermintBlockByNumber hs.height, hs.serves] at h
  obtain ⟨results', hresults, htxs⟩ := Backend.liveBlockTxs_of_formatLiveBlock h
  rw [hs.tendermintBlockResultByNumber, hs.servesResults] at hresults
  obtain rfl := Option.some.inj (Except.ok.inj hresults)
  simp only [Backend.liveBlockTxs, hs.virtual, if_true] at htxs
  obtain ⟨view, hview, htxs⟩ := bind_eq_ok.mp htxs
  refine ⟨view, hview, ?_⟩
  rw [← Except.ok.inj htxs, List.map_map]
  cases fullTx <;> rfl

theorem receipts_of_live {key : BlockNumberOrHash} {receipts : List ReceiptMap}
    (hblock : b.liveReceiptsBlock key = .ok (some block))
    (h : b.liveReceipts E key = .ok (some receipts)) :
    ∃ view, liveVirtualBlockView E b (some block) (some results) = .ok view ∧
      receipts = view.receipts := by
  have hresults := (hs.tendermintBlockResultByNumber block.height).trans hs.servesResults
  simp only [Backend.liveReceipts, hs.online, Bool.false_eq_true, if_false, hblock, ok_bind,
    Backend.liveBlockReceipts, hresults, hs.virtual, if_true] at h
  obtain ⟨view, hview, h⟩ := bind_eq_ok.mp h
  exact ⟨view, hview, (Option.some.inj (Except.ok.inj h)).symm⟩

theorem logs_of_live (hnot : NotIndexed b block) {groups : List (List RPCLog)}
    (h : b.getLogsByHeight E block.height = .ok groups) :
    ∃ view, liveVirtualBlockView E b (some block) (some results) = .ok view ∧
      groups = view.logs := by
  have hblock := (hs.tendermintBlockByNumber hs.height).trans hs.serves
  have hresults := (hs.tendermintBlockResultByNumber block.height).trans hs.servesResults
  have hlive : b.getLogsByHeight E block.height = b.liveLogsByHeight E block.height := by
    unfold Backend.getLogsByHeight
    cases hdb : b.indexer with
    | none => rfl
    | some db =>
      cases hmeta : getBlockMetaByHeight db block.height with
      | error e => simp [Backend.cachedBlockLogs, hmeta]
      | ok m =>
        have hnumber : b.cachedBlockMetaByNumber block.height = .ok (some m) := by
          rw [hs.cachedBlockMetaByNumber hdb, hmeta]
          rfl
        simp [Backend.cachedBlockLogs, hmeta, hnot.byNumber m hnumber, hs.online]
  simp only [hlive, Backend.liveLogsByHeight, hresults, ok_bind, hs.virtual, if_true, hblock] at h
  obtain ⟨view, hview, h⟩ := bind_eq_ok.mp h
  exact ⟨view, hview, (Except.ok.inj h).symm⟩

/-- **What an unindexed block lists** are the rows of its view. -/
theorem row_of_listed (hnot : NotIndexed b block)
    (hhash : node.blockByHash block.ethHash = .ok (some block))
    (hlisted : Listed E b cache block x p) :
    ∃ view, liveVirtualBlockView E b (some block) (some results) = .ok view ∧
      (view.transactions.map (·.hash))[p]? = some x := by
  cases hlisted with
  | @inBlock fullTx rb p t h hp =>
    rw [Backend.getBlockByNumber_of_mismatch hs.online hnot.byNumber] at h
    obtain ⟨view, hview, hhashes⟩ := hs.transactions_of_live h
    exact ⟨view, hview, by rw [← hhashes, List.getElem?_map, hp]; rfl⟩
  | inReceipts h hp =>
    rw [Backend.getBlockReceipts_of_mismatch hs.online { blockNumber := some (block.height : ℤ) } rfl
      hnot.byNumber] at h
    have hblock : b.liveReceiptsBlock { blockNumber := some (block.height : ℤ) } = .ok (some block) :=
      (hs.tendermintBlockByNumber hs.height).trans hs.serves
    obtain ⟨view, hview, rfl⟩ := hs.receipts_of_live hblock h
    exact ⟨view, hview, by rw [← (rows_of_view hview).hashes, List.getElem?_map, hp]; rfl⟩
  | inReceiptsByHash h hp =>
    rw [Backend.getBlockReceipts_of_mismatch hs.online { blockHash := some block.ethHash } rfl
      hnot.byHash] at h
    have hblock : b.liveReceiptsBlock { blockHash := some block.ethHash } = .ok (some block) := by
      simp only [Backend.liveReceiptsBlock, Backend.tendermintBlockByHash, hs.client, hhash]
    obtain ⟨view, hview, rfl⟩ := hs.receipts_of_live hblock h
    exact ⟨view, hview, by rw [← (rows_of_view hview).hashes, List.getElem?_map, hp]; rfl⟩
  | @inLogs groups group log h hgroup hlog =>
    obtain ⟨view, hview, rfl⟩ := hs.logs_of_live hnot h
    exact ⟨view, hview, (rows_of_view hview).getElem?_of_mem_logs hgroup hlog⟩

end ClosureSetting

/-! ## The mixed block, served by the node alone -/

def Node.searching : Node :=
  { Node.serving sampleMixedBlock sampleMixedResults with
    txSearch := fun query => .ok (
      if query = Backend.ethHashQuery .sample 1 then
        [{ height := 1
           index := 0
           tx := [1]
           txResult := {
            data := [3]
            events := [⟨"ethereum_tx", [⟨"ethereumTxHash", "0x01", false⟩]⟩, sampleBankEvent] } }]
      else []) }

theorem ethHashQuery_injective (E : Env) : Function.Injective (Backend.ethHashQuery E) := by
  intro x y h
  have hhex : x.hex = y.hex := by simpa [Backend.ethHashQuery, toString] using h
  exact Hash.hex_injective hhex

/-- The Ethereum transaction of the mixed block is `0x01`. -/
theorem eq_one_of_isEthTx {x : Hash} (h : IsEthTx .sample sampleMixedBlock sampleMixedResults x) :
    x = 1 := by
  obtain ⟨i, j, normalized, rawTx, result, tx, parsedTxs, msg, ethMsg, txData, hnorm, hraw, hresult,
    hdec, hparsed, hmsg, heth, -, rfl⟩ := h
  obtain rfl := Except.ok.inj hnorm
  match i with
  | 0 =>
    obtain rfl := Option.some.inj hraw
    obtain rfl := Option.some.inj (Option.some.inj hresult)
    obtain rfl := Except.ok.inj hdec
    obtain rfl := Except.ok.inj hparsed
    match j with
    | 0 =>
      obtain rfl := Option.some.inj hmsg
      obtain rfl := Option.some.inj heth
      decide +kernel
    | j + 1 => cases hmsg
  | 1 =>
    obtain rfl := Option.some.inj hraw
    obtain rfl := Except.ok.inj hdec
    match j with
    | 0 =>
      obtain rfl := Option.some.inj hmsg
      cases heth
    | j + 1 => cases hmsg
  | i + 2 => cases hraw

/-- The setting of the node, with any store that was filled from it. -/
theorem searching_setting {indexer : Option DB} {calls : List Call}
    (hstore : ∀ db, indexer = some db → run (Call.exec .sample) ∅ calls = .ok db)
    (hcalls : ∀ kv other otherResults, Call.index kv other otherResults ∈ calls →
      other = sampleMixedBlock ∧ otherResults = some sampleMixedResults) :
    ClosureSetting .sample (.sample indexer (some .searching)) .searching newMaterializedCache calls
      sampleMixedBlock sampleMixedResults where
  online := rfl
  virtual := rfl
  client := rfl
  height := le_rfl
  serves := rfl
  servesResults := rfl
  honest := by
    intro h other hother
    have hsome := Except.ok.inj hother
    split_ifs at hsome with hheight
    obtain rfl := Option.some.inj hsome
    exact ⟨hheight.symm, by decide⟩
  finds := by
    intro x hx
    obtain rfl := eq_one_of_isEthTx hx
    exact ⟨_, rfl⟩
  stands := by
    intro x res hres
    obtain ⟨found, rest, hsearch, -⟩ := Backend.exists_of_searchByHash rfl hres
    have hlist := Except.ok.inj hsearch
    split_ifs at hlist with hquery
    obtain rfl := ethHashQuery_injective _ hquery
    obtain rfl := Except.ok.inj hres
    refine ⟨le_rfl, fun _ => ?_⟩
    exact ⟨_, _, _, _, _, _, _, _, rfl, rfl, rfl, rfl, rfl, rfl, rfl, rfl, by decide +kernel⟩
  store := hstore
  indexed := by
    intro kv other otherResults hcall
    obtain ⟨rfl, rfl⟩ := hcalls kv other otherResults hcall
    exact ⟨le_rfl, fun _ => ⟨rfl, rfl⟩⟩
  memory := Lru.holds_empty _

theorem searching_alone :
    ClosureSetting .sample (.sample none (some .searching)) .searching newMaterializedCache []
      sampleMixedBlock sampleMixedResults :=
  searching_setting nofun nofun

end EvmGateway
