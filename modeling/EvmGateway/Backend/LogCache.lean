import EvmGateway.Backend.Filters

/-!
# Log queries through the in-memory cache

A filter without addresses whose topic groups are all empty is taken to ask for every
log of the block, and its answer is kept under the height of the block for later
filters of that kind.  Matching is by position, though: a topic list of length `k`
asks for logs with at least `k` topics, also if all its groups are empty.  The cache is
therefore transparent for the filters that are `Whole` at a height: taken to ask for
all logs, they do.

`serve_blockLogs` is the step: a whole query leaves the cached logs of the height
complete.  `runLogQueries_blockLogs` follows for every sequence of queries, and
`getFilteredLogsByHeight_transparent` for the answer to the next one.
-/

namespace EvmGateway

open Lib

/-! ## Sequences of queries -/

inductive LogQuery where
  | byHash (hash : Hash) (addresses : List Address) (topics : List (List Hash))
  | byHeight (height : ℕ) (addresses : List Address) (topics : List (List Hash))
  deriving DecidableEq

namespace LogQuery

def topics : LogQuery → List (List Hash)
  | byHash _ _ topics | byHeight _ _ topics => topics

/-- Whether the query is taken to ask for all logs. -/
def broad : LogQuery → Bool
  | byHash _ addresses topics | byHeight _ addresses topics => broadLogFilter addresses topics

def source (db : DB) : LogQuery → Option ℕ
  | byHash hash _ _ => db.get? (.blockHash hash)
  | byHeight height _ _ => some height

/-- The height under which the answer is kept in memory. -/
def key (db : DB) : LogQuery → Option ℕ
  | byHash hash _ _ => (getBlockMetaByHash db hash).toOption.map CachedBlockMeta.height
  | byHeight height _ _ => some height

/-- Answer a query. -/
def serve (E : Env) (b : Backend) (cache : MaterializedCache) :
    LogQuery → Except Err (List RPCLog) × MaterializedCache
  | byHash hash addresses topics => b.getFilteredLogs E cache hash addresses topics
  | byHeight height addresses topics => b.getFilteredLogsByHeight E cache height addresses topics

/-- If the answer is kept as the logs of the height, it is all of them: it is read there,
and no log has fewer topics than the filter has groups. -/
def Whole (db : DB) (height : ℕ) (q : LogQuery) : Prop :=
  q.broad = true → q.key db = some height → q.source db = some height ∧
    ∀ groups, db.get? (.blockLogs height) = some groups →
      ∀ log ∈ groups.flatten, q.topics.length ≤ log.topics.length

end LogQuery

def runLogQueries (E : Env) (b : Backend) (cache : MaterializedCache) (qs : List LogQuery) :
    MaterializedCache :=
  qs.foldl (fun cache q => (q.serve E b cache).2) cache

/-! ## Broad filters -/

theorem logMatches_of_broad {addresses : List Address} {topics : List (List Hash)} {log : RPCLog}
    (hbroad : broadLogFilter addresses topics = true)
    (hlen : topics.length ≤ log.topics.length) : logMatches log addresses topics = true := by
  simp only [broadLogFilter, Bool.and_eq_true, List.all_eq_true] at hbroad
  have hzip : ∀ p ∈ topics.zip log.topics, p.1.isEmpty = true := by
    intro p hp
    exact hbroad.2 p.1 (List.of_mem_zip hp).1
  simp only [logMatches, hbroad.1, Bool.true_or, Bool.true_and, Bool.and_eq_true,
    decide_eq_true_eq, List.all_eq_true, Bool.or_eq_true]
  exact ⟨hlen, fun p hp => .inl (hzip p hp)⟩

theorem filter_logMatches_of_broad {addresses : List Address} {topics : List (List Hash)}
    {logs : List RPCLog} (hbroad : broadLogFilter addresses topics = true)
    (hlen : ∀ log ∈ logs, topics.length ≤ log.topics.length) :
    logs.filter (fun log => logMatches log addresses topics) = logs :=
  List.filter_eq_self.mpr fun log hlog => logMatches_of_broad hbroad (hlen log hlog)

/-! ## One lookup -/

section Lookup

variable {b : Backend} {cache : MaterializedCache} {m : Except Err CachedBlockMeta}
  {key : CachedBlockMeta → ℕ} {broad : Bool} {lookup : Except Err (List RPCLog)}
  {P : ℕ → List RPCLog → Prop}

/-- A lookup adds to the cached logs at most the value it finds in the store. -/
theorem Backend.cachedFilteredLogs_blockLogs (hcache : cache.blockLogs.Holds P)
    (hadd : ∀ m' logs, broad = true → m = .ok m' → lookup = .ok logs → P (key m') logs) :
    (b.cachedFilteredLogs cache m key broad lookup).2.blockLogs.Holds P := by
  unfold Backend.cachedFilteredLogs
  cases m with
  | error e => exact hcache
  | ok m =>
    dsimp only
    split_ifs with hmode hbroad hoffline
    · have hget := hcache.get (key m)
      rcases hk : cache.blockLogs.get (key m) with ⟨found, rest⟩
      rw [hk] at hget
      simp only [MaterializedCache.getBlockLogs, hk]
      cases found with
      | some logs => exact hget
      | none =>
        cases lookup with
        | error e => exact hget
        | ok logs => exact hget.add (hadd m logs hbroad rfl rfl)
    · cases lookup <;> exact hcache
    · exact hcache
    · exact hcache

/-- A lookup in a block of the right mode serves the stored value if the cached ones are
right. -/
theorem Backend.cachedFilteredLogs_ok {m : CachedBlockMeta} {logs : List RPCLog}
    (hcache : cache.blockLogs.Holds P) (hmode : b.cachedMetaMatchesVirtualization m = true)
    (hP : broad = true → ∀ l, P (key m) l → l = logs) :
    (b.cachedFilteredLogs cache (.ok m) key broad (.ok logs)).1 = .ok (some logs) := by
  unfold Backend.cachedFilteredLogs
  dsimp only
  rw [if_pos hmode]
  by_cases hbroad : broad = true
  · simp only [hbroad, if_true]
    rcases hk : cache.getBlockLogs (key m) with ⟨_ | l, rest⟩
    · rfl
    · have hfound : (cache.blockLogs.get (key m)).1 = some l := congrArg Prod.fst hk
      rw [hP hbroad l (hcache.of_get hfound)]
  · simp only [hbroad]
    rfl

end Lookup

/-! ## Runs of queries -/

section Runs

variable {E : Env} {b : Backend} {db : DB} {height : ℕ} {groups : List (List RPCLog)}

def Complete (height : ℕ) (groups : List (List RPCLog)) (k : ℕ) (logs : List RPCLog) : Prop :=
  k = height → logs = groups.flatten

/-- **One query**: a whole query leaves what is kept for the height complete. -/
theorem serve_blockLogs {cache : MaterializedCache} {q : LogQuery} (hdb : b.indexer = some db)
    (hlogs : db.get? (.blockLogs height) = some groups) (hq : q.Whole db height)
    (hcache : cache.blockLogs.Holds (Complete height groups)) :
    (q.serve E b cache).2.blockLogs.Holds (Complete height groups) := by
  -- the height that is read is the one the answer is kept under, and the filter passes all
  have hfilter : ∀ addresses topics, broadLogFilter addresses topics = true →
      (∀ log ∈ groups.flatten, topics.length ≤ log.topics.length) → ∀ logs,
      getFilteredLogsByBlockHeight db height addresses topics = .ok logs →
      logs = groups.flatten := by
    intro addresses topics hbroad hlen logs h
    rw [getFilteredLogsByBlockHeight, getLogsByBlockHeight, DB.getOr_eq_ok.mpr hlogs] at h
    obtain rfl := Except.ok.inj h
    exact filter_logMatches_of_broad hbroad hlen
  cases q with
  | byHeight h addresses topics =>
    simp only [LogQuery.serve, Backend.getFilteredLogsByHeight, hdb]
    refine Backend.cachedFilteredLogs_blockLogs hcache ?_
    rintro m logs hbroad - hlookup rfl
    exact hfilter addresses topics hbroad ((hq hbroad rfl).2 groups hlogs) logs hlookup
  | byHash hash addresses topics =>
    simp only [LogQuery.serve, Backend.getFilteredLogs, hdb]
    refine Backend.cachedFilteredLogs_blockLogs hcache ?_
    intro m logs hbroad hm hlookup hkey
    have hk : (LogQuery.byHash hash addresses topics).key db = some height := by
      simp [LogQuery.key, hm, hkey, Except.toOption]
    obtain ⟨hsource, hlen⟩ := hq hbroad hk
    rw [getFilteredLogsByBlockHash, getHeightByBlockHash, DB.getOr_eq_ok.mpr hsource] at hlookup
    exact hfilter addresses topics hbroad (hlen groups hlogs) logs hlookup

/-- **A sequence of queries** leaves what is kept for the height complete. -/
theorem runLogQueries_blockLogs {cache : MaterializedCache} {qs : List LogQuery}
    (hdb : b.indexer = some db) (hlogs : db.get? (.blockLogs height) = some groups)
    (hqs : ∀ q ∈ qs, q.Whole db height)
    (hcache : cache.blockLogs.Holds (Complete height groups)) :
    (runLogQueries E b cache qs).blockLogs.Holds (Complete height groups) := by
  induction qs generalizing cache with
  | nil => exact hcache
  | cons q qs ih =>
    refine ih (fun q' hq' => hqs q' (List.mem_cons_of_mem q hq')) ?_
    exact serve_blockLogs hdb hlogs (hqs q List.mem_cons_self) hcache

/-- **Transparency.**  After any queries, whole at the height, the answer to one more is
the stored logs of the height that pass its filter, in order. -/
theorem getFilteredLogsByHeight_transparent {m : CachedBlockMeta} (hdb : b.indexer = some db)
    (hm : db.get? (.blockMeta height) = some m)
    (hmode : b.cachedMetaMatchesVirtualization m = true)
    (hlogs : db.get? (.blockLogs height) = some groups) (qs : List LogQuery)
    (addresses : List Address) (topics : List (List Hash))
    (hwhole : ∀ q ∈ qs ++ [.byHeight height addresses topics], q.Whole db height) :
    (b.getFilteredLogsByHeight E (runLogQueries E b newMaterializedCache qs) height addresses
      topics).1 = .ok (groups.flatten.filter fun log => logMatches log addresses topics) := by
  have hqs : ∀ q ∈ qs, q.Whole db height := fun q hq => hwhole q (List.mem_append_left _ hq)
  have hlast : (LogQuery.byHeight height addresses topics).Whole db height := hwhole _ (by simp)
  have hcache : (runLogQueries E b newMaterializedCache qs).blockLogs.Holds
      (Complete height groups) := runLogQueries_blockLogs hdb hlogs hqs (Lru.holds_empty _)
  have hmeta : getBlockMetaByHeight db height = .ok m := DB.getOr_eq_ok.mpr hm
  have hlookup : getFilteredLogsByBlockHeight db height addresses topics =
      .ok (groups.flatten.filter fun log => logMatches log addresses topics) := by
    rw [getFilteredLogsByBlockHeight, getLogsByBlockHeight, DB.getOr_eq_ok.mpr hlogs]
    rfl
  simp only [Backend.getFilteredLogsByHeight, hdb, hmeta, hlookup]
  rw [Backend.cachedFilteredLogs_ok hcache hmode ?_]
  · rfl
  · intro hbroad l hl
    rw [hl rfl]
    exact (filter_logMatches_of_broad hbroad ((hlast hbroad rfl).2 groups hlogs)).symm

/-- The log of a small indexed block is served twice: from the store, then from memory. -/
theorem getFilteredLogsByHeight_transparent_sample :
    ∃ db groups, indexBlock .sample { virtualizationEnabled := true } ∅ (sampleBlock 1 [1])
        (some (sampleIncluded 1)) = .ok db ∧
      db.get? (.blockLogs 1) = some groups ∧ groups.flatten.length = 1 ∧
      ((Backend.sample (some db) none).getFilteredLogsByHeight .sample
        (runLogQueries .sample (Backend.sample (some db) none) newMaterializedCache
          [.byHeight 1 [] []]) 1 [] []).1 =
        .ok (groups.flatten.filter fun log => logMatches log [] []) := by
  refine ⟨_, _, rfl, rfl, by decide +kernel, ?_⟩
  refine getFilteredLogsByHeight_transparent rfl rfl (by decide +kernel) rfl
    [.byHeight 1 [] []] [] [] ?_
  intro q hq
  obtain rfl : q = .byHeight 1 [] [] := by simpa using hq
  exact fun _ _ => ⟨rfl, fun _ _ _ _ => Nat.zero_le _⟩

/-- **An empty topic group hides logs from later queries.**  The block has one log, without
topics.  Asking for the logs with at least one topic leaves the empty answer in memory,
and the query for all logs is then answered with it. -/
theorem empty_topic_group_poisons_cache :
    ∃ db m groups, indexBlock .sample { virtualizationEnabled := true } ∅ (sampleBlock 1 [1])
        (some (sampleIncluded 1)) = .ok db ∧
      db.get? (.blockMeta 1) = some m ∧
      (Backend.sample (some db) none).cachedMetaMatchesVirtualization m = true ∧
      db.get? (.blockLogs 1) = some groups ∧
      (groups.flatten.filter fun log => logMatches log [] []).length = 1 ∧
      ((Backend.sample (some db) none).getFilteredLogsByHeight .sample newMaterializedCache
        1 [] []).1 = .ok (groups.flatten.filter fun log => logMatches log [] []) ∧
      ((Backend.sample (some db) none).getFilteredLogsByHeight .sample
        (runLogQueries .sample (Backend.sample (some db) none) newMaterializedCache
          [.byHeight 1 [] [[]]]) 1 [] []).1 = .ok [] := by
  refine ⟨_, _, _, rfl, rfl, ?_, rfl, ?_, ?_, ?_⟩ <;> decide +kernel

end Runs

end EvmGateway
