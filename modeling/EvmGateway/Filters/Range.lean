import EvmGateway.Backend.Blocks
import EvmGateway.Backend.LogCache
import EvmGateway.Filters.Logs
import EvmGateway.Indexer.LogBlooms

/-!
# Range queries

A range query is exact: if it succeeds, its answer is the logs of all heights of the range that
pass the filter, in order, and if a height cannot be read it fails.

Blocks are left out by their bloom.  This loses nothing, since a log that passes the filter is found
in the bloom: the filter looks for an address or topic of each group, and a log that passes has it
(`bloomFilter_of_logMatches`).  The stored bloom of an indexed block contains its stored logs, after
any history of calls (`shows_of_lastIndexed`).

## Main definitions

* `Backend.Shows` — a list of logs is what the backend answers from at a height.
* `queriedHeights` — the heights of a range.
* `ExactRange` — what a range query must do.
-/

namespace EvmGateway.Filters

open Lib

variable {bloomLookup : Bytes → Bytes → Bool}

/-! ## Blooms -/

structure InBloom (bloomLookup : Bytes → Bytes → Bool) (bloom : Bytes) (log : RPCLog) : Prop where
  address : bloomLookup bloom log.address.bytes = true
  topic : ∀ topic ∈ log.topics, bloomLookup bloom (Hash.bytes topic) = true

/-- A bloom contains what was added to it. -/
structure BloomLaw (E : Env) (bloomLookup : Bytes → Bytes → Bool) : Prop where
  address : ∀ logs, ∀ log ∈ logs,
    bloomLookup (bytesToBloom (E.logsBloom logs)) log.address.bytes = true
  topic : ∀ logs, ∀ log ∈ logs, ∀ topic ∈ log.topics,
    bloomLookup (bytesToBloom (E.logsBloom logs)) (Hash.bytes topic) = true

theorem BloomLaw.inBloom {E : Env} (h : BloomLaw E bloomLookup) {logs : List RPCLog} {log : RPCLog}
    (hlog : log ∈ logs) : InBloom bloomLookup (bytesToBloom (virtualLogsBloom E logs)) log where
  address := h.address (ethLogs logs) (ethLog log) (List.mem_map_of_mem hlog)
  topic := h.topic (ethLogs logs) (ethLog log) (List.mem_map_of_mem hlog)

/-- **The bloom test is implied by the match**: a log that passes the filter is found. -/
theorem bloomFilter_of_logMatches {bloom : Bytes} {log : RPCLog} {addresses : List Address}
    {topics : List (List Hash)} (hin : InBloom bloomLookup bloom log)
    (hm : logMatches log addresses topics = true) :
    bloomFilter bloomLookup bloom addresses topics = true := by
  simp only [logMatches, Bool.and_eq_true, Bool.or_eq_true, decide_eq_true_eq, List.all_eq_true,
    List.contains_iff_mem] at hm
  obtain ⟨⟨haddr, hlen⟩, htopics⟩ := hm
  simp only [bloomFilter, Bool.and_eq_true, Bool.or_eq_true, List.any_eq_true, List.all_eq_true]
  constructor
  · exact haddr.imp_right fun hmem => ⟨log.address, hmem, hin.address⟩
  · intro sub hsub
    -- the topic of the log at the position of the group
    obtain ⟨i, hi, rfl⟩ := List.getElem_of_mem hsub
    have hi' : i < log.topics.length := by omega
    have hpair : (topics[i], log.topics[i]) ∈ topics.zip log.topics := by
      rw [List.mem_iff_getElem]
      exact ⟨i, by simp [hi, hi'], by simp⟩
    exact (htopics _ hpair).imp_right fun hmem =>
      ⟨log.topics[i], hmem, hin.topic _ (List.getElem_mem hi')⟩

/-! ## The logs of a height -/

/-- The logs are those the backend answers from at a height: it returns the ones that pass the
filter, and its bloom contains them. -/
structure Backend.Shows (bloomLookup : Bytes → Bytes → Bool) (B : Backend)
    (addresses : List Address) (topics : List (List Hash)) (height : Int64) (logs : List RPCLog) :
    Prop where
  filtered : ∀ found, B.getFilteredLogsByHeight height addresses topics = .ok found →
    found = logs.filter fun log => logMatches log addresses topics
  bloom : ∀ bloom, B.getBlockBloomByHeight height = .ok bloom →
    ∀ log ∈ logs, InBloom bloomLookup bloom log

/-- The bloom of a height cannot be read, or it passes the test and the logs cannot be read. -/
def Backend.Unreadable (bloomLookup : Bytes → Bytes → Bool) (B : Backend)
    (addresses : List Address) (topics : List (List Hash)) (height : Int64) : Prop :=
  (∃ e, B.getBlockBloomByHeight height = .error e) ∨
    ∃ bloom e, B.getBlockBloomByHeight height = .ok bloom ∧
      bloomFilter bloomLookup bloom addresses topics = true ∧
      B.getFilteredLogsByHeight height addresses topics = .error e

/-- A block whose bloom fails the test has no logs to return. -/
theorem Backend.Shows.filter_eq_nil {B : Backend} {addresses : List Address}
    {topics : List (List Hash)} {height : Int64} {logs : List RPCLog} {bloom : Bytes}
    (h : B.Shows bloomLookup addresses topics height logs)
    (hbloom : B.getBlockBloomByHeight height = .ok bloom)
    (htest : bloomFilter bloomLookup bloom addresses topics = false) :
    (logs.filter fun log => logMatches log addresses topics) = [] := by
  rw [List.filter_eq_nil_iff]
  intro log hlog hm
  rw [bloomFilter_of_logMatches (h.bloom bloom hbloom log hlog) hm] at htest
  cases htest

/-! ## The loop -/

section Loop

variable {f : Filter} {logLimit : ℤ} {logs logs' : List RPCLog} {height : Int64}

/-- **One height** adds the logs that pass, within the limit. -/
theorem visitHeight_ok {logsAt : List RPCLog}
    (hshows : f.backend.Shows bloomLookup f.criteria.addresses f.criteria.topics height logsAt)
    (h : f.visitHeight bloomLookup logLimit logs height = .ok logs') :
    logs' = logs ++ logsAt.filter
        (fun log => logMatches log f.criteria.addresses f.criteria.topics) ∧
      (logs' = logs ∨ (logs'.length : ℤ) ≤ logLimit) := by
  unfold Filter.visitHeight at h
  cases hbloom : f.backend.getBlockBloomByHeight height with
  | error e =>
    rw [hbloom] at h
    cases h
  | ok bloom =>
    simp only [hbloom] at h
    split_ifs at h with htest
    · cases hlogs : f.backend.getFilteredLogsByHeight height f.criteria.addresses
          f.criteria.topics with
      | error e =>
        rw [hlogs] at h
        cases h
      | ok filtered =>
        simp only [hlogs] at h
        split_ifs at h with hlimit
        obtain rfl := Except.ok.inj h
        rw [hshows.filtered filtered hlogs] at hlimit ⊢
        refine ⟨rfl, .inr ?_⟩
        rw [List.length_append]
        push_cast
        omega
    · obtain rfl := Except.ok.inj h
      rw [hshows.filter_eq_nil hbloom (by simpa using htest), List.append_nil]
      exact ⟨rfl, .inl rfl⟩

theorem visitHeight_error
    (h : f.backend.Unreadable bloomLookup f.criteria.addresses f.criteria.topics height)
    (logLimit : ℤ) (logs : List RPCLog) :
    ∃ e, f.visitHeight bloomLookup logLimit logs height = .error e := by
  rcases h with ⟨e, hbloom⟩ | ⟨bloom, e, hbloom, htest, hlogs⟩
  · simp [Filter.visitHeight, hbloom]
  · simp [Filter.visitHeight, hbloom, htest, hlogs]

def matchingLogs (logsAt : Int64 → List RPCLog) (addresses : List Address)
    (topics : List (List Hash)) (heights : List Int64) : List RPCLog :=
  heights.flatMap fun height => (logsAt height).filter fun log => logMatches log addresses topics

/-- **All heights**: what passes, in order, within the limit. -/
theorem run_visitHeight {logsAt : Int64 → List RPCLog} {heights : List Int64}
    (hshows : ∀ height, f.backend.Shows bloomLookup f.criteria.addresses f.criteria.topics height
      (logsAt height))
    (hrun : run (f.visitHeight bloomLookup logLimit) [] heights = .ok logs) :
    logs = matchingLogs logsAt f.criteria.addresses f.criteria.topics heights ∧
      (logs.length : ℤ) ≤ max logLimit 0 := by
  refine run_induction (fun heights logs =>
    logs = matchingLogs logsAt f.criteria.addresses f.criteria.topics heights ∧
      (logs.length : ℤ) ≤ max logLimit 0) ⟨rfl, le_max_right logLimit 0⟩ ?_ hrun
  rintro heights height logs logs' - ⟨hlogs, hlimit⟩ hstep
  obtain ⟨hlogs', hlimit'⟩ := visitHeight_ok (hshows height) hstep
  constructor
  · rw [hlogs', hlogs]
    simp [matchingLogs]
  · rcases hlimit' with rfl | hle
    · exact hlimit
    · exact le_max_of_le_left hle

end Loop

/-! ## Ranges -/

/-- The heights of a range: none if it starts after the latest block. -/
def queriedHeights (head start stop : Int64) : List Int64 :=
  if head < resolveBound head start then []
  else between (resolveBound head start) (min (resolveBound head stop) (head + maxToOverhang))

/-- What a range query must do, given the number of the latest block and the logs of each height.
The answer may be missing for want of fuel. -/
structure ExactRange (bloomLookup : Bytes → Bytes → Bool) (B : Backend)
    (logsAt : Int64 → List RPCLog) (addresses : List Address) (topics : List (List Hash))
    (head start stop : Int64) (logLimit : ℤ) (blockLimit : Int64)
    (answer : ℕ → Option (Except Err (List RPCLog))) : Prop where
  /-- a successful answer is exact -/
  exact : ∀ fuel logs, answer fuel = some (.ok logs) →
    logs = matchingLogs logsAt addresses topics (queriedHeights head start stop)
  distance : ∀ fuel logs, answer fuel = some (.ok logs) →
    resolveBound head stop - resolveBound head start ≤ blockLimit
  results : ∀ fuel logs, answer fuel = some (.ok logs) → (logs.length : ℤ) ≤ max logLimit 0
  /-- nothing is left out because it cannot be read -/
  unreadable : ∀ height ∈ queriedHeights head start stop,
    B.Unreadable bloomLookup addresses topics height →
      ∃ n, ∀ fuel, n ≤ fuel → ∃ e, answer fuel = some (.error e)
  /-- the query ends, unless the largest integer is a height of the range -/
  ends : Int64.maxValue ∉ queriedHeights head start stop →
    ∃ n, ∀ fuel, n ≤ fuel → (answer fuel).isSome = true

theorem resolveBound_nonneg {head : Int64} (h : 0 ≤ head) (number : Int64) :
    0 ≤ (resolveBound head number).toInt := by
  rw [Int64.le_iff_toInt_le, Int64.toInt_zero] at h
  unfold resolveBound
  split_ifs with hneg hzero
  · exact h
  · decide
  · rw [Int64.not_lt, Int64.le_iff_toInt_le] at hneg
    exact hneg

theorem toInt_distance {head : Int64} (h : 0 ≤ head) (start stop : Int64) :
    (resolveBound head stop - resolveBound head start).toInt =
      (resolveBound head stop).toInt - (resolveBound head start).toInt := by
  have hstart := resolveBound_nonneg h start
  have hstop := resolveBound_nonneg h stop
  have hstart' := (resolveBound head start).toInt_lt
  have hstop' := (resolveBound head stop).toInt_lt
  rw [Int64.toInt_sub, Int.bmod_eq_of_le (by omega) (by omega)]

theorem toInt_overhang {head : Int64} (h : head.toInt + 600 < 2 ^ 63) :
    (head + maxToOverhang).toInt = head.toInt + 600 := by
  have hlow := head.le_toInt
  have hoverhang : maxToOverhang.toInt = 600 := rfl
  rw [Int64.toInt_add, hoverhang, Int.bmod_eq_of_le (by omega) (by omega)]

section Query

variable {B : Backend} {logsAt : Int64 → List RPCLog} {addresses : List Address}
  {topics : List (List Hash)} {head start stop : Int64} {logLimit : ℤ} {blockLimit : Int64}

/-- A query whose range is neither too long nor after the latest block is the loop over its heights. -/
theorem logsUpTo_eq (hlimit : ¬ blockLimit < resolveBound head stop - resolveBound head start)
    (hstart : ¬ head < resolveBound head start) (fuel : ℕ) :
    (newRangeFilter B start stop addresses topics).logsUpTo bloomLookup head logLimit blockLimit
      fuel = forTo ((newRangeFilter B start stop addresses topics).visitHeight bloomLookup logLimit)
        (min (resolveBound head stop) (head + maxToOverhang)) fuel (resolveBound head start) [] := by
  have hmin : (if head + maxToOverhang < resolveBound head stop then head + maxToOverhang
      else resolveBound head stop) = min (resolveBound head stop) (head + maxToOverhang) := by
    change _ = if resolveBound head stop ≤ head + maxToOverhang then resolveBound head stop
      else head + maxToOverhang
    by_cases hlt : head + maxToOverhang < resolveBound head stop
    · rw [if_pos hlt, if_neg (Int64.not_le.mpr hlt)]
    · rw [if_neg hlt, if_pos (Int64.not_lt.mp hlt)]
  simp only [Filter.logsUpTo, newRangeFilter, Int64.ofInt_toInt, if_neg hlimit, if_neg hstart, hmin]

theorem logsUpTo_exact_of_too_long
    (hlimit : blockLimit < resolveBound head stop - resolveBound head start) :
    ExactRange bloomLookup B logsAt addresses topics head start stop logLimit blockLimit
      ((newRangeFilter B start stop addresses topics).logsUpTo bloomLookup head logLimit
        blockLimit) := by
  have hanswer : ∀ fuel, (newRangeFilter B start stop addresses topics).logsUpTo bloomLookup head
      logLimit blockLimit fuel =
        some (.error (.plain s!"maximum [from, to] blocks distance: {blockLimit}")) := by
    intro fuel
    simp [Filter.logsUpTo, newRangeFilter, hlimit]
  constructor <;> simp [hanswer]

/-- The answer for a range after the latest block is empty. -/
theorem logsUpTo_exact_of_after
    (hlimit : ¬ blockLimit < resolveBound head stop - resolveBound head start)
    (hstart : head < resolveBound head start) :
    ExactRange bloomLookup B logsAt addresses topics head start stop logLimit blockLimit
      ((newRangeFilter B start stop addresses topics).logsUpTo bloomLookup head logLimit
        blockLimit) := by
  have hnone : queriedHeights head start stop = [] := if_pos hstart
  have hanswer : ∀ fuel, (newRangeFilter B start stop addresses topics).logsUpTo bloomLookup head
      logLimit blockLimit fuel = some (.ok []) := by
    intro fuel
    simp [Filter.logsUpTo, newRangeFilter, hlimit, hstart]
  constructor <;> simp_all [matchingLogs]

/-- The loop over the heights of a range collects what passes, and fails at a height that cannot be
read. -/
theorem logsUpTo_exact_of_loop
    (hshows : ∀ height, B.Shows bloomLookup addresses topics height (logsAt height))
    (hlimit : ¬ blockLimit < resolveBound head stop - resolveBound head start)
    (hstart : ¬ head < resolveBound head start) :
    ExactRange bloomLookup B logsAt addresses topics head start stop logLimit blockLimit
      ((newRangeFilter B start stop addresses topics).logsUpTo bloomLookup head logLimit
        blockLimit) := by
  have hheights : queriedHeights head start stop = between (resolveBound head start)
      (min (resolveBound head stop) (head + maxToOverhang)) := if_neg hstart
  have hok : ∀ fuel logs, (newRangeFilter B start stop addresses topics).logsUpTo bloomLookup
      head logLimit blockLimit fuel = some (.ok logs) →
      run ((newRangeFilter B start stop addresses topics).visitHeight bloomLookup logLimit) []
        (queriedHeights head start stop) = .ok logs := by
    intro fuel logs h
    rw [logsUpTo_eq hlimit hstart] at h
    rw [hheights]
    exact forTo_ok h
  refine ⟨fun fuel logs h => (run_visitHeight hshows (hok fuel logs h)).1,
    fun _ _ _ => Int64.not_lt.mp hlimit,
    fun fuel logs h => (run_visitHeight hshows (hok fuel logs h)).2, ?_, ?_⟩
  · intro height hmem hbad
    obtain ⟨e, he⟩ := run_error_of_mem (s := []) hmem
      (visitHeight_error (f := newRangeFilter B start stop addresses topics) hbad logLimit)
    rw [hheights] at he
    refine ⟨(queriedHeights head start stop).length + 1, fun fuel hfuel => ⟨e, ?_⟩⟩
    rw [logsUpTo_eq hlimit hstart]
    rw [hheights] at hfuel
    exact forTo_error he hfuel
  · intro hmax
    refine ⟨(queriedHeights head start stop).length + 1, fun fuel hfuel => ?_⟩
    rw [hheights] at hmax hfuel
    have hlt : min (resolveBound head stop) (head + maxToOverhang) < Int64.maxValue := by
      by_contra hnot
      exact hmax (mem_between.mpr ⟨Int64.le_maxValue _, Int64.not_lt.mp hnot⟩)
    rw [logsUpTo_eq hlimit hstart, forTo_eq_run hlt hfuel]
    rfl

/-- **A range query is exact.** -/
theorem logsUpTo_exact
    (hshows : ∀ height, B.Shows bloomLookup addresses topics height (logsAt height)) :
    ExactRange bloomLookup B logsAt addresses topics head start stop logLimit blockLimit
      ((newRangeFilter B start stop addresses topics).logsUpTo bloomLookup head logLimit
        blockLimit) := by
  by_cases hlimit : blockLimit < resolveBound head stop - resolveBound head start
  · exact logsUpTo_exact_of_too_long hlimit
  · by_cases hstart : head < resolveBound head start
    · exact logsUpTo_exact_of_after hlimit hstart
    · exact logsUpTo_exact_of_loop hshows hlimit hstart

end Query

/-! ## Stored blocks -/

structure Backend.ReadsStore (B : Backend) (db : DB) (height : ℕ) : Prop where
  bloom : B.getBlockBloomByHeight (Int64.ofNat height) =
    ((getBlockMetaByHeight db height).map fun m => bytesToBloom (fromHex m.bloom)).mapError
      Err.message
  logs : ∀ addresses topics, B.getFilteredLogsByHeight (Int64.ofNat height) addresses topics =
    (getFilteredLogsByBlockHeight db height addresses topics).mapError Err.message

/-- The gateway's own backend does so if the block was indexed in its mode, and nothing is kept in
memory. -/
theorem readsStore_of_backend {E : Env} {b : EvmGateway.Backend} {db : DB} {height : ℕ}
    {m : CachedBlockMeta} {groups : List (List RPCLog)} {B : Backend} (hdb : b.indexer = some db)
    (hm : db.get? (.blockMeta height) = some m)
    (hmode : b.cachedMetaMatchesVirtualization m = true)
    (hlogs : db.get? (.blockLogs height) = some groups)
    (hbloom : B.getBlockBloomByHeight (Int64.ofNat height) =
      (b.getBlockBloomByHeight E height).mapError Err.message)
    (hfiltered : ∀ addresses topics,
      B.getFilteredLogsByHeight (Int64.ofNat height) addresses topics =
        (b.getFilteredLogsByHeight E newMaterializedCache height addresses topics).1.mapError
          Err.message) : B.ReadsStore db height := by
  have hmeta : getBlockMetaByHeight db height = .ok m := DB.getOr_eq_ok.mpr hm
  constructor
  · rw [hbloom]
    simp [EvmGateway.Backend.getBlockBloomByHeight, EvmGateway.Backend.cachedBloom, hdb, hmeta, hmode,
      Except.map]
  · intro addresses topics
    have hlookup : getFilteredLogsByBlockHeight db height addresses topics =
        .ok (groups.flatten.filter fun log => logMatches log addresses topics) := by
      rw [getFilteredLogsByBlockHeight, getLogsByBlockHeight, DB.getOr_eq_ok.mpr hlogs]
      rfl
    rw [hfiltered]
    simp only [EvmGateway.Backend.getFilteredLogsByHeight, hdb, hmeta, hlookup]
    rw [Backend.cachedFilteredLogs_ok (P := fun _ _ => False) (Lru.holds_empty _) hmode]
    · rfl
    · exact fun _ l hl => hl.elim

/-- **Stored blocks**: after any history, the stored groups of a height are what a backend answers
from that reads it from the store. -/
theorem shows_of_lastIndexed {E : Env} (hlaw : BloomLaw E bloomLookup) {calls : List Call} {db : DB}
    (hrun : run (Call.exec E) ∅ calls = .ok db) {height : ℕ} {src : Source}
    (hsrc : lastIndexed calls height = some src) :
    ∃ m groups, db.get? (.blockMeta height) = some m ∧ db.get? (.blockLogs height) = some groups ∧
      ∀ B : Backend, B.ReadsStore db height → ∀ addresses topics,
        B.Shows bloomLookup addresses topics (Int64.ofNat height) groups.flatten := by
  obtain ⟨m, groups, hm, hlogs, hbloom⟩ := bloom_of_lastIndexed hrun hsrc
  refine ⟨m, groups, hm, hlogs, fun B hB addresses topics => ⟨?_, ?_⟩⟩
  · intro found hfound
    rw [hB.logs, getFilteredLogsByBlockHeight, getLogsByBlockHeight,
      DB.getOr_eq_ok.mpr hlogs] at hfound
    exact (Except.ok.inj hfound).symm
  · intro bloom hread log hlog
    rw [hB.bloom, getBlockMetaByHeight, DB.getOr_eq_ok.mpr hm] at hread
    obtain rfl := Except.ok.inj hread
    dsimp only
    rw [hbloom]
    exact hlaw.inBloom hlog

/-- **Range log queries are exact**, for every backend and every latest block, and the blocks an
indexer has stored are as a backend has to show them. -/
theorem range_logs_exact (E : Env) (bloomLookup : Bytes → Bytes → Bool)
    (hlaw : BloomLaw E bloomLookup) :
    (∀ (B : Backend) (logsAt : Int64 → List RPCLog) (addresses : List Address)
        (topics : List (List Hash)) (start stop : Int64) (logLimit : ℤ) (blockLimit : Int64),
      (∀ height, B.Shows bloomLookup addresses topics height (logsAt height)) →
      (∀ e, B.headerByNumber ethLatestBlockNumber = .error e → ∀ fuel, ∃ e',
        (newRangeFilter B start stop addresses topics).logs bloomLookup logLimit blockLimit fuel =
          some (.error e')) ∧
      ∀ number, B.headerByNumber ethLatestBlockNumber = .ok (some ⟨some number⟩) →
        ExactRange bloomLookup B logsAt addresses topics (Int64.ofInt number) start stop logLimit
          blockLimit ((newRangeFilter B start stop addresses topics).logs bloomLookup logLimit
            blockLimit)) ∧
    -- neither the distance nor the last height wraps
    (∀ head start stop : Int64, 0 ≤ head →
      (resolveBound head stop - resolveBound head start).toInt =
        (resolveBound head stop).toInt - (resolveBound head start).toInt) ∧
    (∀ head : Int64, head.toInt + 600 < 2 ^ 63 →
      (head + maxToOverhang).toInt = head.toInt + 600) ∧
    ∀ (calls : List Call) (db : DB), run (Call.exec E) ∅ calls = .ok db →
      ∀ (height : ℕ) (src : Source), lastIndexed calls height = some src →
        ∃ m groups, db.get? (.blockMeta height) = some m ∧
          db.get? (.blockLogs height) = some groups ∧
          ∀ B : Backend, B.ReadsStore db height → ∀ addresses topics,
            B.Shows bloomLookup addresses topics (Int64.ofNat height) groups.flatten := by
  refine ⟨fun B logsAt addresses topics start stop logLimit blockLimit hshows => ⟨?_, ?_⟩,
    fun head start stop hhead => toInt_distance hhead start stop,
    fun head hhead => toInt_overhang hhead, fun calls db hrun height src hsrc =>
      shows_of_lastIndexed hlaw hrun hsrc⟩
  · intro e he fuel
    simp [Filter.logs, Filter.rangeLogs, newRangeFilter, he]
  · intro number hhead
    have hlogs : (newRangeFilter B start stop addresses topics).logs bloomLookup logLimit
        blockLimit = (newRangeFilter B start stop addresses topics).logsUpTo bloomLookup
          (Int64.ofInt number) logLimit blockLimit := by
      funext fuel
      simp [Filter.logs, Filter.rangeLogs, newRangeFilter, hhead]
    rw [hlogs]
    exact logsUpTo_exact hshows

/-- The bloom that contains everything. -/
def fullBloom : Bytes := List.replicate 256 255

def fullBloomLookup (bloom _ : Bytes) : Bool := bloom == fullBloom

theorem fullBloomLookup_full (data : Bytes) : fullBloomLookup fullBloom data = true := by
  simp [fullBloomLookup]

/-- One log at each height but the second. -/
def sampleLogsAt (height : Int64) : List RPCLog :=
  if height = 2 then []
  else [{ address := 1, topics := [2], data := [], blockNumber := height.toInt.toNat, txHash := 3,
          txIndex := 0, blockHash := 4, index := 0, removed := false, isVirtual := false }]

/-- A backend with three blocks; some heights may be unreadable.  The bloom of the second block is
empty. -/
def sampleLogBackend (readable : Int64 → Bool) : Backend where
  headerByNumber _ := .ok (some ⟨some 3⟩)
  headerByHash _ := .ok (some ⟨some 3⟩)
  getFilteredLogs _ addresses topics :=
    .ok ((sampleLogsAt 3).filter fun log => logMatches log addresses topics)
  getFilteredLogsByHeight height addresses topics :=
    if readable height then
      .ok ((sampleLogsAt height).filter fun log => logMatches log addresses topics)
    else .error "block is unreadable"
  getBlockBloomByHeight height := .ok (if height = 2 then [] else fullBloom)
  rpcLogsCap := 10000
  rpcBlockRangeCap := 10000

theorem sampleLogBackend_shows (readable : Int64 → Bool) (addresses : List Address)
    (topics : List (List Hash)) (height : Int64) :
    (sampleLogBackend readable).Shows fullBloomLookup addresses topics height
      (sampleLogsAt height) where
  filtered found h := by
    simp only [sampleLogBackend] at h
    split_ifs at h
    exact (Except.ok.inj h).symm
  bloom bloom h log hlog := by
    obtain rfl := Except.ok.inj h
    have hother : height ≠ 2 := by
      rintro rfl
      cases hlog
    rw [if_neg hother]
    exact ⟨fullBloomLookup_full _, fun _ _ => fullBloomLookup_full _⟩

def fullBloomEnv : Env :=
  { Env.sample with logsBloom := fun logs => if logs = [] then [] else fullBloom }

theorem fullBloomEnv_law : BloomLaw fullBloomEnv fullBloomLookup := by
  have hbytes : ∀ {logs log}, log ∈ logs → bytesToBloom (fullBloomEnv.logsBloom logs) =
      fullBloom := by
    intro logs log hlog
    have hbloom : fullBloomEnv.logsBloom logs = fullBloom := if_neg (List.ne_nil_of_mem hlog)
    rw [hbloom]
    decide +kernel
  constructor
  · intro logs log hlog
    rw [hbytes hlog, fullBloomLookup_full]
  · intro logs log hlog topic _
    rw [hbytes hlog, fullBloomLookup_full]

/-- Three blocks give their logs, though the second is unreadable: its bloom has nothing of the
query.  An unreadable third block gives an error.  A block that was indexed is as it has to be. -/
theorem range_logs_exact_three :
    (∀ fuel logs, (newRangeFilter (sampleLogBackend (· ≠ 2)) 0 (-1) [1] [[2]]).logs
        fullBloomLookup 10000 10000 fuel = some (.ok logs) →
      logs = matchingLogs sampleLogsAt [1] [[2]] [1, 2, 3]) ∧
    (newRangeFilter (sampleLogBackend (· ≠ 2)) 0 (-1) [1] [[2]]).logs fullBloomLookup 10000
      10000 4 = some (.ok (sampleLogsAt 1 ++ sampleLogsAt 3)) ∧
    (∃ n, ∀ fuel, n ≤ fuel → ∃ e, (newRangeFilter (sampleLogBackend (· ≠ 3)) 0 (-1) [1] [[2]]).logs
      fullBloomLookup 10000 10000 fuel = some (.error e)) ∧
    ∃ db, run (Call.exec fullBloomEnv) ∅
        [.index {} (sampleBlock 1 [1]) (some (sampleIncluded 1))] = .ok db ∧
      ∃ m groups, db.get? (.blockMeta 1) = some m ∧ db.get? (.blockLogs 1) = some groups ∧
        ∀ B : Backend, B.ReadsStore db 1 → ∀ addresses topics,
          B.Shows fullBloomLookup addresses topics 1 groups.flatten := by
  obtain ⟨hrange, -, -, hstore⟩ := range_logs_exact fullBloomEnv fullBloomLookup fullBloomEnv_law
  have hexact := fun readable => (hrange (sampleLogBackend readable) sampleLogsAt [1] [[2]] 0 (-1)
    10000 10000 (sampleLogBackend_shows readable [1] [[2]])).2 3 rfl
  refine ⟨(hexact _).exact, by decide +kernel, ?_, ?_⟩
  · exact (hexact (· ≠ 3)).unreadable 3 (by decide +kernel)
      (.inr ⟨fullBloom, "block is unreadable", rfl, by decide +kernel, rfl⟩)
  · obtain ⟨db, hdb⟩ := exists_ok_of_isOk (x := run (Call.exec fullBloomEnv) ∅
      [.index {} (sampleBlock 1 [1]) (some (sampleIncluded 1))]) (by decide +kernel)
    exact ⟨db, hdb, hstore _ db hdb 1 _ rfl⟩

end EvmGateway.Filters
