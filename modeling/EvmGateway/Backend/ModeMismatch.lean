import EvmGateway.Backend.LiveRows
import EvmGateway.Backend.Positions

/-!
# Blocks of the other mode

A block may have been indexed in the mode opposite to the one the backend runs in.  An online backend
does not read such a block from the store: the block, its receipts and its logs are rebuilt from the
node's data, and show one list of transactions (`Describes`).

The requests by position notice the other mode as well, but the helper they both fall back to reads
the store again and does not compare modes: a position the block has a record at is answered with the
record.  `positionLive_iff` says for every position when the answer is live.

## Main definitions

* `OtherMode b db R` — the block is indexed in the other mode and the node serves it.
* `Describes L receipts groups` — the receipts and the logs are those of the list.
* `ServedLive R L idx answer` — the answer is the one of the list, and none of the records.
* `PositionLive b R L idx` — the positions that are answered so.
-/

namespace EvmGateway

open Lib

/-- An online backend whose store has a block in the other mode, and whose node serves the block.  The
indexer counts the transactions of a block in 32 bits. -/
structure OtherMode (b : Backend) (db : DB) (R : BlockRecords) : Prop where
  online : b.offlineRPCOnly = false
  store : b.indexer = some db
  holds : Holds db R
  mode : b.cachedMetaMatchesVirtualization R.blockMeta = false
  height : 1 ≤ R.block.height
  hash : R.block.ethHash ≠ 0
  length : R.entries.length ≤ 2 ^ 31
  byNumber : b.tendermintBlockByNumber R.block.height = .ok (some R.block)
  byHash : b.tendermintBlockByHash R.block.ethHash = .ok (some R.block)

/-- The receipts are those of the transactions, in order, and the logs are those of the receipts. -/
structure Describes (L : List RPCTransaction) (receipts : List ReceiptMap)
    (groups : List (List RPCLog)) : Prop where
  hashes : receipts.map (·.transactionHash) = L.map (·.hash)
  logs : groups.flatten = (receipts.map (·.logs)).flatten

structure ServedLive (R : BlockRecords) (L : List RPCTransaction) (idx : UInt64)
    (answer : Except Err (Option RPCTransaction)) : Prop where
  position : answer = .ok L[idx.toNat]?
  isolated : ∀ e ∈ R.entries, answer ≠ .ok (some e.tx)

/-- The block has no record at the wrapped position, and the position is not one that an unvirtualised
backend counts as the first of the list. -/
def PositionLive (b : Backend) (R : BlockRecords) (L : List RPCTransaction) (idx : UInt64) : Prop :=
  (int32 idx < 0 ∨ (R.entries.length : ℤ) ≤ int32 idx) ∧
    (b.virtualizeCosmosEvents = true ∨ idx.toNat < 2 ^ 63 ∨ L = [])

/-! ## The requests -/

namespace OtherMode

variable {E : Env} {b : Backend} {db : DB} {R : BlockRecords} {idx : UInt64}

variable (h : OtherMode b db R)

include h

theorem indexedBlockHeight :
    b.indexedBlockHeight R.block.height = R.block.height := by
  have hheight := h.height
  simp only [Backend.indexedBlockHeight, h.store]
  rw [if_neg (by omega), blockNumberInt64_of_pos (by omega)]

theorem cachedBlockMetaByNumber :
    b.cachedBlockMetaByNumber R.block.height = .ok (some R.blockMeta) := by
  have hheight := h.height
  simp only [Backend.cachedBlockMetaByNumber, h.store, h.indexedBlockHeight]
  rw [if_neg (by omega), Int.toNat_natCast, h.holds.getBlockMetaByHeight]
  rfl

theorem cachedBlockMetaByHash :
    b.cachedBlockMetaByHash R.block.ethHash = .ok (some R.blockMeta) := by
  simp only [Backend.cachedBlockMetaByHash, h.store, h.holds.getBlockMetaByHash]
  rfl

theorem mismatch {cached : Except Err (Option CachedBlockMeta)}
    (hcached : cached = .ok (some R.blockMeta)) (m : CachedBlockMeta) (hm : cached = .ok (some m)) :
    b.cachedMetaMatchesVirtualization m = false := by
  obtain rfl := Option.some.inj (Except.ok.inj (hcached.symm.trans hm))
  exact h.mode

theorem liveBlockTxs {rb : RPCBlock}
    (hrb : b.getBlockByNumber E R.block.height true = .ok (some rb)) :
    ∃ results, b.tendermintBlockResultByNumber R.block.height = .ok (some results) ∧
      b.liveBlockTxs E R.block results true = .ok rb.transactions := by
  rw [Backend.getBlockByNumber_of_mismatch h.online (h.mismatch h.cachedBlockMetaByNumber),
    Backend.liveBlockByNumber, h.byNumber] at hrb
  exact Backend.liveBlockTxs_of_formatLiveBlock hrb

/-- So are the receipts, for either way to ask for them. -/
theorem getBlockReceipts (cache : MaterializedCache) :
    (b.getBlockReceipts E cache { blockNumber := some (R.block.height : ℤ) }).1 =
        b.liveBlockReceipts E R.block ∧
      (b.getBlockReceipts E cache { blockHash := some R.block.ethHash }).1 =
        b.liveBlockReceipts E R.block := by
  constructor
  · rw [Backend.getBlockReceipts_of_mismatch h.online { blockNumber := some (R.block.height : ℤ) } rfl
      (h.mismatch h.cachedBlockMetaByNumber)]
    simp [Backend.liveReceipts, h.online, Backend.liveReceiptsBlock, h.byNumber]
  · rw [Backend.getBlockReceipts_of_mismatch h.online { blockHash := some R.block.ethHash } rfl
      (h.mismatch h.cachedBlockMetaByHash)]
    simp [Backend.liveReceipts, h.online, Backend.liveReceiptsBlock, h.byHash]

theorem getLogsByHeight :
    b.getLogsByHeight E R.block.height = b.liveLogsByHeight E R.block.height := by
  simp [Backend.getLogsByHeight, h.store, Backend.cachedBlockLogs, h.holds.getBlockMetaByHeight,
    h.mode,
    h.online]

theorem getTransactionByBlockNumberAndIndex :
    b.getTransactionByBlockNumberAndIndex E R.block.height idx =
      b.getTransactionByBlockAndIndex E R.block idx := by
  have hheight := h.height
  have hnot : ¬ (R.block.height : ℤ) < 1 := by omega
  simp [Backend.getTransactionByBlockNumberAndIndex, h.store, h.indexedBlockHeight, hnot,
    h.holds.getBlockMetaByHeight, h.mode, Backend.mismatchOr, h.online,
    Backend.liveByBlockNumberAndIndex, h.byNumber]

theorem getTransactionByBlockHashAndIndex :
    b.getTransactionByBlockHashAndIndex E R.block.ethHash idx =
      b.getTransactionByBlockAndIndex E R.block idx := by
  simp [Backend.getTransactionByBlockHashAndIndex, h.store, h.holds.getBlockMetaByHash, h.mode,
    Backend.mismatchOr, h.online, liveByBlockHashAndIndex_eq h.byHash]

/-- **The helper serves the record of the store**, whatever its mode, and otherwise the live answer. -/
theorem servedLive_iff {L : List RPCTransaction}
    (hplace : ∀ tx, L[idx.toNat]? = some tx → tx.transactionIndex = some idx.toNat)
    (hlive : int32 idx < 0 ∨ (R.entries.length : ℤ) ≤ int32 idx →
      (b.liveTransactionByBlockAndIndex E R.block idx = .ok L[idx.toNat]? ↔
        b.virtualizeCosmosEvents = true ∨ idx.toNat < 2 ^ 63 ∨ L = [])) :
    ServedLive R L idx (b.getTransactionByBlockAndIndex E R.block idx) ↔ PositionLive b R L idx := by
  rw [PositionLive]
  by_cases hmiss : int32 idx < 0 ∨ (R.entries.length : ℤ) ≤ int32 idx
  · obtain ⟨e, he, -⟩ := h.holds.getRPCTransactionByBlockAndIndex_of_none hmiss
    rw [getTransactionByBlockAndIndex_of_miss h.store he, and_iff_right hmiss, ← hlive hmiss]
    refine ⟨ServedLive.position, fun hanswer => ⟨hanswer, fun e he hrecord => ?_⟩⟩
    -- a record tells its position, which would be one the block has a record at
    obtain ⟨q, hq⟩ := List.mem_iff_getElem?.mp he
    have hown := hplace e.tx (Except.ok.inj (hanswer.symm.trans hrecord))
    rw [((R.entry_at q e hq).tx_position h.hash).2.2, Option.some.injEq] at hown
    have hlt := (List.getElem?_eq_some_iff.mp hq).1
    have hlength := h.length
    rw [int32_of_lt (by omega)] at hmiss
    omega
  · -- the record of the wrapped position is served
    have hp : (int32 idx).toNat < R.hashes.length := by
      rw [BlockRecords.hashes, List.length_map]
      omega
    obtain ⟨q, e, hq, -, hget, -⟩ :=
      h.holds.exists_getRPCTransactionByBlockAndIndex (List.getElem?_eq_getElem hp)
    rw [Int.toNat_of_nonneg (by omega)] at hget
    rw [Backend.getTransactionByBlockAndIndex, h.store, Option.map_some, hget]
    exact iff_of_false (fun hserved => hserved.isolated e (List.mem_of_getElem? hq) rfl)
      fun hcond => hmiss hcond.1

/-- **One list**: the transactions of the live block, which its receipts and logs describe, and which
the live answers by position come from. -/
theorem exists_list {results : BlockResults} {transactions : List BlockTx}
    (hresults : b.tendermintBlockResultByNumber R.block.height = .ok (some results))
    (hnative : b.virtualizeCosmosEvents = false → NativeBlock E b R.block results)
    (htxs : b.liveBlockTxs E R.block results true = .ok transactions)
    (hlen : transactions.length ≤ 2 ^ 63) :
    ∃ L receipts groups, transactions = L.map .full ∧
      b.liveBlockReceipts E R.block = .ok (some receipts) ∧
      b.liveLogsByHeight E R.block.height = .ok groups ∧ Describes L receipts groups ∧
      (∀ (p : ℕ) (tx : RPCTransaction), L[p]? = some tx → tx.transactionIndex = some p) ∧
      ∀ idx, int32 idx < 0 ∨ (R.entries.length : ℤ) ≤ int32 idx →
        (b.liveTransactionByBlockAndIndex E R.block idx = .ok L[idx.toNat]? ↔
          b.virtualizeCosmosEvents = true ∨ idx.toNat < 2 ^ 63 ∨ L = []) := by
  by_cases hvirtual : b.virtualizeCosmosEvents = true
  · simp only [Backend.liveBlockTxs, hvirtual, if_true] at htxs
    obtain ⟨view, hview, htxs⟩ := bind_eq_ok.mp htxs
    obtain rfl := Except.ok.inj htxs
    rw [List.length_map] at hlen
    have hrows := rows_of_view hview
    refine ⟨view.transactions, view.receipts, view.logs, rfl, ?_, ?_, ?_, ?_, ?_⟩
    · simp [Backend.liveBlockReceipts, hresults, hvirtual, hview]
    · simp [Backend.liveLogsByHeight, hresults, hvirtual, h.byNumber, hview]
    · exact ⟨hrows.hashes, by rw [hrows.logs]⟩
    · intro p tx hp
      obtain ⟨tx', receipt, htx, -, hrow⟩ := hrows.exists_row (List.getElem?_eq_some_iff.mp hp).1
      obtain rfl := Option.some.inj (htx.symm.trans hp)
      exact (hrow.tx_position h.hash).2
    · intro idx _
      rw [iff_true_right (.inl hvirtual)]
      exact liveTransactionByBlockAndIndex_view hvirtual hresults hview hlen
  · have hfalse : b.virtualizeCosmosEvents = false := by simpa using hvirtual
    have hblock := hnative hfalse
    simp only [Backend.liveBlockTxs, hfalse, Bool.false_eq_true, if_false] at htxs
    obtain ⟨L, hL, hhashes, hconverted⟩ := nativeBlockTxs_ok hblock (b.baseFeeOrNil E results)
    rw [hL] at htxs
    obtain rfl := Except.ok.inj htxs
    rw [List.length_map] at hlen
    obtain ⟨receipts, groups, hreceipts, hgroups, hrows, hlogs⟩ :=
      nativeReceipts_ok hblock hfalse hresults
    refine ⟨L, receipts, groups, rfl, hreceipts, ?_, ⟨hrows.trans hhashes.symm, hlogs.symm⟩, ?_, ?_⟩
    · simp [Backend.liveLogsByHeight, hresults, hfalse, hgroups]
    · intro p tx hp
      obtain ⟨e, he, hnew⟩ := forall₂_getElem?_right hconverted hp
      have hpos : e.2 = p := by
        rw [List.getElem?_zipIdx, Option.map_eq_some_iff] at he
        obtain ⟨msg, -, rfl⟩ := he
        exact Nat.zero_add p
      rw [(newRPCTransaction_position hnew h.hash).2.2, hpos]
    · intro idx hmiss
      have hcount : (ethMsgsFromTendermintBlock E R.block).length = L.length := by
        simpa using hconverted.length_eq
      obtain ⟨e, hnative⟩ := h.holds.getByBlockAndIndex_of_none hmiss
      have hmsg := ethMsgByIndex_search hblock h.store h.online (by omega) hnative
      have hlive :=
        liveTransactionByBlockAndIndex_native hfalse hresults hblock hmsg hconverted hlen
      rw [or_iff_right hvirtual]
      split_ifs at hlive with hcond
      · exact iff_of_true hlive hcond
      · -- past the end the list has nothing, and the first message is found
        obtain ⟨tx, hlive⟩ := hlive
        rw [hlive, List.getElem?_eq_none (by omega)]
        exact iff_of_false (by simp) hcond

end OtherMode

/-- **A block of the other mode**: the receipts and the logs describe the list of transactions the
block is answered with, and a request by position is answered live exactly under `PositionLive`. -/
theorem positionLive_iff (E : Env) (b : Backend) (db : DB) (R : BlockRecords) (rb : RPCBlock)
    (hmode : OtherMode b db R)
    (hnative : ∀ results, b.virtualizeCosmosEvents = false →
      b.tendermintBlockResultByNumber R.block.height = .ok (some results) →
        NativeBlock E b R.block results)
    (hrb : b.getBlockByNumber E R.block.height true = .ok (some rb))
    (hlen : rb.transactions.length ≤ 2 ^ 63) :
    ∃ L receipts groups, rb.transactions = L.map .full ∧
      (∀ cache, (b.getBlockReceipts E cache { blockNumber := some (R.block.height : ℤ) }).1 =
          .ok (some receipts) ∧
        (b.getBlockReceipts E cache { blockHash := some R.block.ethHash }).1 = .ok (some receipts)) ∧
      b.getLogsByHeight E R.block.height = .ok groups ∧ Describes L receipts groups ∧
      ∀ idx, (ServedLive R L idx (b.getTransactionByBlockNumberAndIndex E R.block.height idx) ↔
          PositionLive b R L idx) ∧
        (ServedLive R L idx (b.getTransactionByBlockHashAndIndex E R.block.ethHash idx) ↔
          PositionLive b R L idx) := by
  obtain ⟨results, hresults, htxs⟩ := hmode.liveBlockTxs hrb
  obtain ⟨L, receipts, groups, hL, hreceipts, hgroups, hdescribes, hplace, hlive⟩ :=
    hmode.exists_list hresults (fun hfalse => hnative results hfalse hresults) htxs hlen
  refine ⟨L, receipts, groups, hL, ?_, ?_, hdescribes, ?_⟩
  · intro cache
    rw [(hmode.getBlockReceipts cache).1, (hmode.getBlockReceipts cache).2]
    exact ⟨hreceipts, hreceipts⟩
  · rw [hmode.getLogsByHeight, hgroups]
  · intro idx
    rw [hmode.getTransactionByBlockNumberAndIndex, hmode.getTransactionByBlockHashAndIndex]
    exact ⟨hmode.servedLive_iff (hplace _) (hlive idx), hmode.servedLive_iff (hplace _) (hlive idx)⟩

def Backend.mixed (virtualizeCosmosEvents : Bool) (indexer : Option DB) : Backend :=
  { Backend.sample indexer (some (.serving sampleMixedBlock sampleMixedResults)) with
    virtualizeCosmosEvents := virtualizeCosmosEvents }

theorem sampleMixed_native (indexer : Option DB) :
    NativeBlock .sample (Backend.mixed false indexer) sampleMixedBlock sampleMixedResults where
  converts := by
    intro msg hmsg
    obtain rfl : msg = sampleEthMsg 1 := List.mem_singleton.mp hmsg
    exact ⟨_, _, rfl, rfl, rfl⟩
  signed := fun msg _ => ⟨_, rfl⟩
  results := by
    refine ⟨_, rfl, .cons ⟨_, rfl, ?_⟩ (.cons ⟨_, rfl, ?_⟩ .nil)⟩
    · refine ⟨nofun, ?_, ?_, ?_⟩
      · intro tx htx
        obtain rfl := Except.ok.inj htx
        exact ⟨_, rfl⟩
      · intro tx parsedTxs htx hparsed j msg parsedTx hmsg hget
        obtain rfl := Except.ok.inj htx
        obtain rfl := Option.some.inj (Except.ok.inj hparsed)
        cases j with
        | zero =>
          obtain rfl := Option.some.inj hmsg
          obtain rfl := Option.some.inj hget
          decide +kernel
        | succ j => cases hmsg
      · intro tx htx
        obtain rfl := Except.ok.inj htx
        rfl
    · refine ⟨nofun, ?_, ?_, ?_⟩
      · intro tx htx
        obtain rfl := Except.ok.inj htx
        exact ⟨_, rfl⟩
      · intro tx parsedTxs htx _ j msg parsedTx hmsg _
        obtain rfl := Except.ok.inj htx
        cases j with
        | zero => cases hmsg
        | succ j => cases hmsg
      · intro tx htx
        obtain rfl := Except.ok.inj htx
        rfl
  search := nofun
  search_noPanic := fun idx => .error (by decide)

theorem OtherMode.sampleMixed {virtual : Bool} {db : DB}
    (hdb : indexBlock .sample { virtualizationEnabled := !virtual } ∅ sampleMixedBlock
      (some sampleMixedResults) = .ok db) :
    ∃ R, R.block = sampleMixedBlock ∧ R.entries.length = (if virtual then 1 else 2) ∧
      OtherMode (Backend.mixed virtual (some db)) db R := by
  obtain ⟨R, hblock, hmeta, hshown, hR⟩ := exists_holds_of_indexBlock hdb
  have hlen : R.entries.length = if virtual then 1 else 2 := by
    rw [← List.length_map (f := Entry.hash)]
    refine (congrArg List.length hshown).trans ?_
    cases virtual <;> decide +kernel
  refine ⟨R, hblock, hlen, rfl, rfl, hR, ?_, ?_, ?_, ?_, ?_, ?_⟩
  · rw [Backend.cachedMetaMatchesVirtualization, hmeta]
    cases virtual <;> rfl
  · rw [hblock]
    decide
  · rw [hblock]
    decide
  · cases virtual <;> simp [hlen]
  all_goals
    rw [hblock]
    rfl

/-- The mixed block in both modes.  Indexed with virtualisation and asked for without it there is one
transaction, and nothing at position 5.  Asked for with it there are two, and the second is served
if the block was indexed without. -/
theorem positionLive_iff_mixed :
    (∃ db R L, indexBlock .sample { virtualizationEnabled := true } ∅ sampleMixedBlock
        (some sampleMixedResults) = .ok db ∧ Holds db R ∧ L.length = 1 ∧
      ServedLive R L 5
        ((Backend.mixed false (some db)).getTransactionByBlockNumberAndIndex .sample 1 5)) ∧
    ∃ db R L, indexBlock .sample { virtualizationEnabled := false } ∅ sampleMixedBlock
        (some sampleMixedResults) = .ok db ∧ Holds db R ∧ L.length = 2 ∧
      ServedLive R L 1
        ((Backend.mixed true (some db)).getTransactionByBlockNumberAndIndex .sample 1 1) := by
  constructor
  · obtain ⟨db, hdb, rb, hrb, htxs⟩ : ∃ db, indexBlock .sample { virtualizationEnabled := true }
        ∅ sampleMixedBlock (some sampleMixedResults) = .ok db ∧
      ∃ rb, (Backend.mixed false (some db)).getBlockByNumber .sample 1 true = .ok (some rb) ∧
        rb.transactions.length = 1 := ⟨_, rfl, _, rfl, rfl⟩
    obtain ⟨R, hblock, hlen, hmode⟩ := @OtherMode.sampleMixed false db hdb
    obtain ⟨L, receipts, groups, hL, -, -, -, hpos⟩ := positionLive_iff .sample _ db R rb hmode
      (by
        intro results _ hresults
        rw [hblock] at hresults ⊢
        obtain rfl := Option.some.inj (Except.ok.inj hresults)
        exact sampleMixed_native (some db)) (by rw [hblock]; exact hrb) (by omega)
    rw [hblock] at hpos
    refine ⟨db, R, L, hdb, hmode.holds, ?_, (hpos 5).1.mpr ⟨?_, .inr (.inl (by decide))⟩⟩
    · rwa [hL, List.length_map] at htxs
    · rw [hlen]
      decide
  · obtain ⟨db, hdb, rb, hrb, htxs⟩ : ∃ db, indexBlock .sample { virtualizationEnabled := false }
        ∅ sampleMixedBlock (some sampleMixedResults) = .ok db ∧
      ∃ rb, (Backend.mixed true (some db)).getBlockByNumber .sample 1 true = .ok (some rb) ∧
        rb.transactions.length = 2 := ⟨_, rfl, _, rfl, rfl⟩
    obtain ⟨R, hblock, hlen, hmode⟩ := @OtherMode.sampleMixed true db hdb
    obtain ⟨L, receipts, groups, hL, -, -, -, hpos⟩ := positionLive_iff .sample _ db R rb hmode
      nofun (by rw [hblock]; exact hrb) (by omega)
    rw [hblock] at hpos
    refine ⟨db, R, L, hdb, hmode.holds, ?_, (hpos 1).1.mpr ⟨?_, .inl rfl⟩⟩
    · rwa [hL, List.length_map] at htxs
    · rw [hlen]
      decide

/-- **A record of the other mode is served.**  The mixed block, indexed with virtualisation and asked
for without it, has one transaction, and at position 1 the synthetic record of the store is found. -/
theorem stale_record_served :
    ∃ db rb tx stale, indexBlock .sample { virtualizationEnabled := true } ∅ sampleMixedBlock
        (some sampleMixedResults) = .ok db ∧
      (Backend.mixed false (some db)).getBlockByNumber .sample 1 true = .ok (some rb) ∧
      rb.transactions = [.full tx] ∧
      (Backend.mixed false (some db)).getTransactionByBlockNumberAndIndex .sample 1 1 =
        .ok (some stale) ∧
      (Backend.mixed false (some db)).getTransactionByBlockHashAndIndex .sample
        sampleMixedBlock.ethHash 1 = .ok (some stale) ∧
      getRPCTransactionByBlockAndIndex db 1 1 = .ok stale ∧
      isVirtualRPCTransaction db stale.hash = true := by
  refine ⟨_, _, _, _, rfl, rfl, rfl, rfl, rfl, rfl, ?_⟩
  decide +kernel

end EvmGateway
