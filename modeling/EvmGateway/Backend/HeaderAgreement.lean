import EvmGateway.Backend.Headers
import EvmGateway.Backend.NativeAgreement

/-!
# Headers of stored and of live blocks

A header is built from the stored meta of a block or from the node's block and results.  Without
virtualisation the two agree on what comes from the block itself.  They differ in the gas used,
which a live header leaves at zero, and in the transactions root, which a live header takes from
the data hash only if the data hash is empty.

* `stored_header`, `live_header` — the two headers of an indexed block.
* `headers_agree_iff` — when they agree.
-/

namespace EvmGateway

open Lib

/-- Two headers agree on the fields that describe a block. -/
structure Header.AgreesWith (header header' : Header) : Prop where
  parentHash : header.parentHash = header'.parentHash
  coinbase : header.coinbase = header'.coinbase
  root : header.root = header'.root
  txHash : header.txHash = header'.txHash
  bloom : header.bloom = header'.bloom
  number : header.number = header'.number
  gasUsed : header.gasUsed = header'.gasUsed
  time : header.time = header'.time
  baseFee : header.baseFee = header'.baseFee

def messageLogs (E : Env) (block : Block) (txResults : List (Option ExecTxResult)) : List RPCLog :=
  (listed E block).flatMap (groupAt E block txResults)

/-- The logs of the results, decoded transaction by transaction, set the bits that the logs of the
messages set.  Results that do not decode set none. -/
def LogsAgree (E : Env) (block : Block) (results : BlockResults) : Prop :=
  ∃ txResults, normalizeTxResponseIndexes E results.txResults = .ok txResults ∧
    match getLogsFromBlockResults E (some results) with
    | .ok groups =>
      virtualLogsBloom E groups.flatten = virtualLogsBloom E (messageLogs E block txResults)
    | .error e =>
      e.kind ≠ .panic ∧ virtualLogsBloom E (messageLogs E block txResults) = List.replicate 256 0

/-! ## The two headers -/

/-- The bloom of a live header. -/
def resultsBloom (E : Env) (results : BlockResults) : Except Err Bytes := do
  let groups ← attempt (getLogsFromBlockResults E (some results))
  return (groups.map (groupsBloom E)).getD (bytesToBloom [])

section Headers

variable {E : Env} {kv : KVIndexer} {b : Backend} {block : Block} {results : BlockResults}
  {db db' : DB}

def storedHeader (E : Env) (kv : KVIndexer) (block : Block) (results : BlockResults)
    (txResults : List (Option ExecTxResult)) : Header where
  parentHash := bytesToHash block.lastBlockHash
  coinbase := bytesToAddress block.proposerAddress
  root := bytesToHash block.appHash
  txHash :=
    if shownByBlock E false block (some results) = [] then E.emptyRootHash
    else bytesToHash block.dataHash
  bloom := bytesToBloom (virtualLogsBloom E (messageLogs E block txResults))
  number := block.height
  gasLimit := kv.cachedGasLimit
  gasUsed := UInt64.ofNat (gasBefore results.txResults block.txs.length)
  time := headerTime block.time
  baseFee := baseFeeFromEvents E results.finalizeBlockEvents

theorem cachedMiner_addressHex {m : CachedBlockMeta} {a : Address} (h : m.miner = E.addressHex a) :
    cachedMiner m = a := by
  have hne : E.addressHex a ≠ "" := by
    intro hempty
    have hhex := isHexAddress_addressHex E a
    rw [hempty] at hhex
    exact absurd hhex (by decide)
  rw [cachedMiner, h, if_neg hne, hexToAddress_addressHex]

theorem cachedStateRoot_hexutilEncode {m : CachedBlockMeta} {bs : Bytes}
    (h : m.stateRoot = hexutilEncode bs) : cachedStateRoot m = bs := by
  rw [cachedStateRoot, h, if_neg (hexutilEncode_ne_empty bs), fromHex_hexutilEncode]

theorem cachedTransactionsRoot_hex {m : CachedBlockMeta} {x : Hash} (h : m.transactionsRoot = x.hex)
    (hasTransactions : Bool) : cachedTransactionsRoot E m hasTransactions = x := by
  have hne : x.hex ≠ "" := hexutilEncode_ne_empty _
  rw [cachedTransactionsRoot, h, if_pos hne, hexToHash_hex]

theorem header_blockMeta {st : IndexState} {root : String} {x : Hash} (hroot : root = x.hex)
    {baseFee : Option ℤ} :
    (st.blockMeta E kv block baseFee root).header E baseFee = {
      parentHash := bytesToHash block.lastBlockHash
      coinbase := bytesToAddress block.proposerAddress
      root := bytesToHash block.appHash
      txHash := x
      bloom := bytesToBloom (virtualLogsBloom E st.flatLogs)
      number := block.height
      gasLimit := kv.cachedGasLimit
      gasUsed := st.blockGasUsed
      time := headerTime block.time
      baseFee := baseFee } := by
  generalize hm : st.blockMeta E kv block baseFee root = m
  have hminer : cachedMiner m = bytesToAddress block.proposerAddress :=
    cachedMiner_addressHex (by rw [← hm, IndexState.blockMeta])
  have hstate : cachedStateRoot m = block.appHash :=
    cachedStateRoot_hexutilEncode (by rw [← hm, IndexState.blockMeta])
  have htxs : ∀ flag, cachedTransactionsRoot E m flag = x :=
    cachedTransactionsRoot_hex (by rw [← hm, IndexState.blockMeta, hroot])
  rw [CachedBlockMeta.header, hminer, hstate, htxs, ← hm]
  simp only [IndexState.blockMeta, hexToHash_hex, fromHex_hexutilEncode]

theorem transactionsRoot_native {st : IndexState} (hkv : kv.virtualizationEnabled = false) :
    st.transactionsRoot E kv block =
      .ok (if st.visibleTxCount kv = 0 then E.emptyRootHash else bytesToHash block.dataHash).hex := by
  rw [IndexState.transactionsRoot]
  by_cases hzero : st.visibleTxCount kv = 0
  · simp [hzero]
  · simp [hzero, hkv, Nat.pos_of_ne_zero hzero]

/-- **The header of a stored block** is read exactly if its base fee can be read back. -/
theorem stored_header (hbloom : ∀ logs, (E.logsBloom logs).length = 256)
    (hheight : 1 ≤ block.height) (happ : block.appHash.length = 32)
    (hkv : kv.virtualizationEnabled = false) (h : indexBlock E kv db block (some results) = .ok db') :
    ∃ txResults, normalizeTxResponseIndexes E results.txResults = .ok txResults ∧
      ∀ b : Backend, b.Reads false db' → ∀ header, b.headerByNumber E block.height = .ok header ↔
        FeeFits (baseFeeFromEvents E results.finalizeBlockEvents) ∧
          header = storedHeader E kv block results txResults := by
  obtain ⟨R, st, root, rfl, hR, hst, hroot, hmeta, hlogs, hshown⟩ := exists_meta_of_indexBlock h
  obtain ⟨R', st', txResults, hblock, hR', hst', hnorm, hall, hgas, -⟩ := indexBlock_stores h
  rw [hkv] at hall hshown
  have hmode : R.blockMeta.virtualizedCosmosEvents = false := by
    rw [hmeta]
    exact hkv
  -- both records are those of the height
  have hmeta' : R'.blockMeta = R.blockMeta := by
    have hread := hR'.getBlockMetaByHeight
    rw [hblock, hR.getBlockMetaByHeight] at hread
    exact (Except.ok.inj hread).symm
  have hlogs' : R'.logs = R.logs := by
    have hread := hR'.getLogsByBlockHeight
    rw [hblock, hR.getLogsByBlockHeight] at hread
    exact (Except.ok.inj hread).symm
  have hcount : st.visibleTxCount kv = (shownByBlock E false R.block (some results)).length := by
    have hmetaCount : (st.visibleTxCount kv : ℤ) = R.entries.length := by
      rw [← R.meta_count, hmeta]
      rfl
    rw [← hshown, BlockRecords.hashes, List.length_map]
    exact_mod_cast hmetaCount
  have hvalid := validate_blockMeta hbloom hheight hroot
    (baseFeeFromEvents E results.finalizeBlockEvents)
  have hheader : (st.blockMeta E kv R.block (baseFeeFromEvents E results.finalizeBlockEvents)
      root).header E (baseFeeFromEvents E results.finalizeBlockEvents) =
      storedHeader E kv R.block results txResults := by
    have hgasUsed : st.blockGasUsed =
        UInt64.ofNat (gasBefore results.txResults R.block.txs.length) := by
      rw [hmeta', hmeta] at hgas
      exact hgas.trans (congrArg _ (gasBefore_normalized (normalizeResults_same hnorm) _))
    have hflat : st.flatLogs = messageLogs E R.block txResults := by
      rw [← hlogs, ← hlogs', messageLogs, BlockRecords.logs,
        StoresAll.map_logs_listed hst' hnorm hall,
        List.flatMap_def]
    have hrootHex : root = (if shownByBlock E false R.block (some results) = [] then
        E.emptyRootHash else bytesToHash R.block.dataHash).hex := by
      rw [transactionsRoot_native hkv, hcount] at hroot
      simpa using (Except.ok.inj hroot).symm
    rw [header_blockMeta hrootHex, hflat, hgasUsed]
    rfl
  refine ⟨txResults, hnorm, fun b hb header => ?_⟩
  rw [(hb.header_eq hR hheight hmode).1, hmeta]
  by_cases hfits : FeeFits (baseFeeFromEvents E results.finalizeBlockEvents)
  · rw [show blockBaseFeeFromResults E (some results) =
        baseFeeFromEvents E results.finalizeBlockEvents from rfl,
      headerFromCachedBlockMeta_blockMeta hbloom hheight hroot happ hfits, hheader]
    simp [hfits, eq_comm]
  · refine iff_of_false (fun hread => hfits ?_) fun h => hfits h.1
    obtain ⟨_, hok, -⟩ := bind_eq_ok.mp hread
    exact (hvalid.mp hok).2

/-- **The header of a block that is not stored** in the mode of the backend. -/
theorem live_header (hserves : Serves b block results) (honline : b.offlineRPCOnly = false)
    (hpos : 1 ≤ block.height) (hmode : b.virtualizeCosmosEvents = false)
    (hheight : results.height = block.height)
    (hmiss : ∀ d, b.indexer = some d → d.get? (.blockMeta block.height) = none)
    (hbloom : ∀ event ∈ results.finalizeBlockEvents, event.type ≠ E.eventTypeBlockBloom) {fee : ℤ}
    (hfee : baseFeeFromEvents E results.finalizeBlockEvents = some fee) :
    b.headerByNumber E block.height = (do
      let bloom ← resultsBloom E results
      return ethHeaderFromTendermint E block bloom (some fee)) := by
  have hlookup : ∀ d, b.indexer = some d → ∃ e, getBlockMetaByHeight d block.height = .error e := by
    intro d hd
    exact ⟨_, DB.getOr_of_none (hmiss d hd) _⟩
  have hcached : ∀ live, b.cachedHeaderOr E (b.cachedBlockMetaByNumber block.height) live = live := by
    intro live
    cases hindexer : b.indexer with
    | none => simp only [Backend.cachedBlockMetaByNumber, hindexer, Backend.cachedHeaderOr]
    | some d =>
      obtain ⟨e, he⟩ := hlookup d hindexer
      have hindexed : b.indexedBlockHeight block.height = block.height := by
        rw [Backend.indexedBlockHeight, hindexer]
        exact (if_neg (by omega)).trans (blockNumberInt64_of_pos (by omega))
      have hmeta : b.cachedBlockMetaByNumber block.height = .error e := by
        simp only [Backend.cachedBlockMetaByNumber, hindexer, hindexed, Int.toNat_natCast, he]
        exact if_neg (by omega)
      simp [hmeta, Backend.cachedHeaderOr, honline]
  have hnone : b.cachedBloom results.height = none := by
    rw [Backend.cachedBloom, hheight]
    cases hindexer : b.indexer with
    | none => rfl
    | some d =>
      obtain ⟨e, he⟩ := hlookup d hindexer
      rw [Option.map_some, he]
  have hevents : bloomFromEvents E results.finalizeBlockEvents = none := by
    rw [bloomFromEvents, List.findSome?_eq_none_iff]
    intro event hevent
    rw [if_pos (hbloom event hevent)]
  have hnative : b.blockBloom E results = Backend.nativeBloom E results := by
    rw [Backend.blockBloom, hnone, hmode]
    rfl
  have hbaseFee : b.baseFeeOrNil E results = some fee := by
    rw [Backend.baseFeeOrNil, Backend.baseFee, hfee]
  rw [Backend.headerByNumber, hcached, Backend.liveHeaderOf, honline, hserves.blockAt]
  simp only [Bool.false_eq_true, if_false, ok_bind, Backend.liveHeader, hserves.resultsAt, hnative,
    hbaseFee, Backend.nativeBloom, hevents, resultsBloom]
  -- the logs decode, or they do not, or decoding them panics
  cases getLogsFromBlockResults E (some results) with
  | ok groups => rfl
  | error e =>
    by_cases hpanic : e.kind = .panic
    · simp [attempt, hpanic]
    · simp only [attempt, hpanic, if_false, ok_bind]
      rfl

/-- The bloom of the live header is the stored one exactly if the logs agree. -/
theorem resultsBloom_eq_iff (hbloom : ∀ logs, (E.logsBloom logs).length = 256)
    {txResults : List (Option ExecTxResult)}
    (hnorm : normalizeTxResponseIndexes E results.txResults = .ok txResults) :
    resultsBloom E results = .ok (bytesToBloom (virtualLogsBloom E (messageLogs E block txResults))) ↔
      LogsAgree E block results := by
  have hfull : ∀ logs, bytesToBloom (virtualLogsBloom E logs) = virtualLogsBloom E logs := by
    intro logs
    simp [bytesToBloom, virtualLogsBloom, hbloom]
  simp only [LogsAgree, resultsBloom, hnorm, Except.ok.injEq, exists_eq_left', hfull]
  cases getLogsFromBlockResults E (some results) with
  | ok groups =>
    simp only [attempt_ok, ok_bind, Option.map_some, Option.getD_some, groupsBloom, hfull]
    exact ⟨Except.ok.inj, congrArg _⟩
  | error e =>
    by_cases hpanic : e.kind = .panic
    · have hraised : attempt (Except.error e : Except Err (List (List RPCLog))) = .error e := by
        simp [attempt, hpanic]
      simp only [hraised]
      exact iff_of_false (by simp) fun h => h.1 hpanic
    · have hnone : attempt (Except.error e : Except Err (List (List RPCLog))) = .ok none := by
        simp [attempt, hpanic]
      have hempty : bytesToBloom [] = List.replicate 256 0 := List.append_nil _
      simp only [hnone]
      exact ⟨fun h => ⟨hpanic, (Except.ok.inj h).symm.trans hempty⟩,
        fun h => congrArg Except.ok (hempty.trans h.2.symm)⟩

/-- On a chain that keeps its promises the logs agree, unless there are some without a transaction. -/
theorem logsAgree_of_chain (hchain : NativeChain E block results)
    (h : indexBlock E kv db block (some results) = .ok db') {groups : List (List RPCLog)}
    (hgroups : getLogsFromBlockResults E (some results) = .ok groups)
    (hrest : (groups.drop block.txs.length).flatten = []) : LogsAgree E block results := by
  obtain ⟨-, st, txResults, -, -, hst, hnorm, -⟩ := indexBlock_stores h
  refine ⟨txResults, hnorm, ?_⟩
  have hflat := flatten_groups hchain hnorm (length_le_of_buildBlock hst hnorm) hgroups
  have hall : groups.flatten = messageLogs E block txResults := by
    rw [messageLogs, ← hflat, ← List.append_nil (List.flatten (groups.take _)), ← hrest,
      ← List.flatten_append, List.take_append_drop]
  rw [hgroups]
  exact congrArg (virtualLogsBloom E) hall

end Headers

/-! ## When the headers agree -/

/-- **Headers of stored and live blocks.**  For a block indexed without virtualisation, the header
read from the store and the one built from the node's data exist and agree exactly if the base fee
can be stored, the block shows no transaction or has the data hash of an empty block, its
transactions used no gas, and its logs agree; the last is what a chain that keeps its promises
gives. -/
theorem headers_agree_iff {E : Env} {kv : KVIndexer} {b : Backend} {db db' : DB} {block : Block}
    {results : BlockResults} {fee : ℤ} (hbloom : ∀ logs, (E.logsBloom logs).length = 256)
    (hpos : 1 ≤ block.height) (happ : block.appHash.length = 32) (hdata : block.dataHash.length = 32)
    (hfee : baseFeeFromEvents E results.finalizeBlockEvents = some fee)
    (hevents : ∀ event ∈ results.finalizeBlockEvents, event.type ≠ E.eventTypeBlockBloom)
    (hkv : kv.virtualizationEnabled = false) (h : indexBlock E kv db block (some results) = .ok db')
    (hmode : b.virtualizeCosmosEvents = false) (honline : b.offlineRPCOnly = false)
    (hserves : Serves b block results) (hheight : results.height = block.height)
    (hmiss : ∀ d, b.indexer = some d → d.get? (.blockMeta block.height) = none) :
    ((∃ cached live, ({ b with indexer := some db' } : Backend).headerByNumber E block.height =
        .ok cached ∧ b.headerByNumber E block.height = .ok live ∧ cached.AgreesWith live) ↔
      (0 ≤ fee ∧ fee < 2 ^ 256) ∧
      (shownByBlock E false block (some results) = [] ∨
        bytesToHash block.dataHash = E.emptyRootHash) ∧
      UInt64.ofNat (gasBefore results.txResults block.txs.length) = 0 ∧
      LogsAgree E block results) ∧
    (NativeChain E block results → ∀ groups, getLogsFromBlockResults E (some results) = .ok groups →
      (groups.drop block.txs.length).flatten = [] → LogsAgree E block results) := by
  refine ⟨?_, fun hchain groups hgroups => logsAgree_of_chain hchain h hgroups⟩
  obtain ⟨txResults, hnorm, hstored⟩ := stored_header hbloom hpos happ hkv h
  have hread : ({ b with indexer := some db' } : Backend).Reads false db' := ⟨hmode, rfl⟩
  have hlive := live_header hserves honline hpos hmode hheight hmiss hevents hfee
  have hfits : FeeFits (baseFeeFromEvents E results.finalizeBlockEvents) ↔
      0 ≤ fee ∧ fee < 2 ^ 256 := by
    rw [hfee, FeeFits]
    simp
  -- a full data hash leaves the live root empty
  have hroot : ∀ bloom, (ethHeaderFromTendermint E block bloom (some fee)).txHash =
      E.emptyRootHash := by
    intro bloom
    rw [ethHeaderFromTendermint, if_neg (by omega)]
  have htxHash : (storedHeader E kv block results txResults).txHash = E.emptyRootHash ↔
      shownByBlock E false block (some results) = [] ∨
        bytesToHash block.dataHash = E.emptyRootHash := by
    by_cases hshown : shownByBlock E false block (some results) = []
    · simp [storedHeader, hshown]
    · simp [storedHeader, hshown]
  rw [← hfits, ← htxHash, ← resultsBloom_eq_iff hbloom hnorm]
  constructor
  · rintro ⟨cached, live, hcached, hok, hagree⟩
    obtain ⟨hfeeFits, rfl⟩ := (hstored _ hread cached).mp hcached
    rw [hlive] at hok
    obtain ⟨bloom, hbloomOk, hok⟩ := bind_eq_ok.mp hok
    obtain rfl := Except.ok.inj hok
    refine ⟨hfeeFits, hagree.txHash.trans (hroot bloom), hagree.gasUsed, ?_⟩
    rw [hbloomOk]
    exact congrArg _ hagree.bloom.symm
  · rintro ⟨hfeeFits, htx, hgas, hblooms⟩
    refine ⟨_, _, (hstored _ hread _).mpr ⟨hfeeFits, rfl⟩, by rw [hlive, hblooms]; rfl, ?_⟩
    exact ⟨rfl, rfl, rfl, htx.trans (hroot _).symm, rfl, rfl, hgas, rfl, hfee⟩

/-- A block whose only transaction is a Cosmos transaction that used no gas. -/
def sampleQuietBlock : Block := { sampleHashedBlock with txs := [[0]] }

def sampleQuietResults : BlockResults := { samplePricedResults with txResults := [some {}] }

/-- A backend without a store whose node serves one block. -/
def Backend.serving (block : Block) (results : BlockResults) : Backend :=
  { Backend.sample none (some (.serving block results)) with virtualizeCosmosEvents := false }

/-- The headers of the quiet block agree. -/
theorem headers_agree_iff_quiet :
    ∃ db cached live, indexBlock .priced {} ∅ sampleQuietBlock (some sampleQuietResults) = .ok db ∧
      ({ Backend.serving sampleQuietBlock sampleQuietResults with indexer := some db }
        : Backend).headerByNumber .priced 1 = .ok cached ∧
      (Backend.serving sampleQuietBlock sampleQuietResults).headerByNumber .priced 1 = .ok live ∧
      cached.AgreesWith live := by
  obtain ⟨db, hdb⟩ : ∃ db, indexBlock .priced {} ∅ sampleQuietBlock (some sampleQuietResults) =
    .ok db := ⟨_, rfl⟩
  obtain ⟨cached, live, hagree⟩ :=
    (@headers_agree_iff .priced {} (Backend.serving sampleQuietBlock sampleQuietResults) ∅ db
      sampleQuietBlock sampleQuietResults 160000000 (fun _ => List.length_replicate) le_rfl rfl rfl
      rfl (by decide) rfl hdb rfl rfl ⟨rfl, rfl⟩ rfl nofun).1.mpr
      ⟨by decide, .inl (by decide +kernel), by decide +kernel, _, rfl, rfl⟩
  exact ⟨db, cached, live, hdb, hagree⟩

def sampleSpentResults : BlockResults :=
  { samplePricedResults with
    txResults := [
      some {
        gasUsed := 21000
        data := [3]
        events := [⟨"ethereum_tx", [⟨"ethereumTxHash", "0x01", false⟩]⟩] },
      some {}] }

/-- A block with an Ethereum transaction has another transactions root and another gas used live
than from the store. -/
theorem headers_disagree :
    ∃ db cached live,
      indexBlock .priced {} ∅ sampleHashedBlock (some sampleSpentResults) = .ok db ∧
      ({ Backend.serving sampleHashedBlock sampleSpentResults with indexer := some db }
        : Backend).headerByNumber .priced 1 = .ok cached ∧
      (Backend.serving sampleHashedBlock sampleSpentResults).headerByNumber .priced 1 = .ok live ∧
      cached.txHash = bytesToHash (List.replicate 32 2) ∧ live.txHash = Env.priced.emptyRootHash ∧
      cached.txHash ≠ live.txHash ∧ cached.gasUsed = 21000 ∧ live.gasUsed = 0 := by
  obtain ⟨db, hdb⟩ : ∃ db, indexBlock .priced {} ∅ sampleHashedBlock (some sampleSpentResults) =
    .ok db := ⟨_, rfl⟩
  obtain ⟨txResults, -, hstored⟩ := @stored_header .priced {} sampleHashedBlock sampleSpentResults ∅
    db (fun _ => List.length_replicate) le_rfl rfl rfl hdb
  have hfits : FeeFits (baseFeeFromEvents .priced sampleSpentResults.finalizeBlockEvents) := by
    rintro fee hfee
    obtain rfl : (160000000 : ℤ) = fee := Option.some.inj hfee
    decide
  have htx : (storedHeader .priced {} sampleHashedBlock sampleSpentResults txResults).txHash =
      bytesToHash (List.replicate 32 2) := by
    have hshown : shownByBlock .priced false sampleHashedBlock (some sampleSpentResults) ≠ [] := by
      decide +kernel
    rw [storedHeader, if_neg hshown]
    rfl
  have hgas : (storedHeader .priced {} sampleHashedBlock sampleSpentResults txResults).gasUsed =
      21000 := show UInt64.ofNat (gasBefore sampleSpentResults.txResults 2) = 21000 by decide +kernel
  refine ⟨db, _, _, hdb, (hstored _ ⟨rfl, rfl⟩ _).mpr ⟨hfits, rfl⟩, rfl, htx, rfl, ?_, hgas, rfl⟩
  rw [htx]
  decide +kernel

end EvmGateway
