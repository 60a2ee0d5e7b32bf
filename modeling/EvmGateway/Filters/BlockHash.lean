import EvmGateway.Filters.Range

/-!
# Queries by block hash

A query by block hash looks up the header, then the bloom of its height, then the logs.  A header
that cannot be read is an error, and so are logs that cannot be read.  A bloom that cannot be read
is not: the error is logged, and the answer is empty.  So is the answer for a missing header.

The zero hash is taken for no hash.  The query then goes on as a range query without bounds, and
reads through a nil bound.

`block_hash_logs_iff` says that there is no other way to hide a failure.
-/

namespace EvmGateway.Filters

open Lib

variable {crit : FilterCriteria}

variable {bloomLookup : Bytes → Bytes → Bool}

/-- A request returns an error or exactly these logs, and does not panic. -/
def HidesNothing (answer : ℕ → Option (Except Err (List RPCLog))) (matching : List RPCLog) : Prop :=
  ∀ fuel, answer fuel = some (.ok matching) ∨
    ∃ e, answer fuel = some (.error e) ∧ e.kind ≠ .panic

theorem hidesNothing_nil {answer : ℕ → Option (Except Err (List RPCLog))} {matching : List RPCLog}
    (h : ∀ fuel, answer fuel = some (.ok [])) : HidesNothing answer matching ↔ matching = [] := by
  constructor
  · intro hall
    rcases hall 0 with hok | ⟨e, he, -⟩
    · rw [h] at hok
      exact (Except.ok.inj (Option.some.inj hok)).symm
    · rw [h] at he
      cases he
  · rintro rfl fuel
    exact .inl (h fuel)

/-- The header, if it can be read, leads to a bloom that lets the filter through. -/
def Backend.Reaches (bloomLookup : Bytes → Bytes → Bool) (B : Backend) (hash : Hash)
    (addresses : List Address) (topics : List (List Hash)) : Prop :=
  ∀ header, B.headerByHash hash = .ok header → ∃ number bloom, header = some ⟨some number⟩ ∧
    B.getBlockBloomByHeight (Int64.ofInt number) = .ok bloom ∧
    bloomFilter bloomLookup bloom addresses topics = true

section Hash

variable {B : Backend} {hash : Hash} {addresses : List Address} {topics : List (List Hash)}
  {logs : List RPCLog}

theorem getLogs_hash (bloomLookup : Bytes → Bytes → Bool) (B : Backend) (hash : Hash)
    (haddresses : addresses.length ≤ maxAddresses)
    (htopics : topics.length ≤ maxTopics) (fuel : ℕ) :
    getLogs bloomLookup B { blockHash := some hash, addresses := addresses, topics := topics } fuel =
      (newBlockFilter B { blockHash := some hash, addresses := addresses, topics := topics }).logs
        bloomLookup B.rpcLogsCap.toInt B.rpcBlockRangeCap.toInt64 fuel := by
  simp [getLogs, validateFilterCriteria, requestFilter, Nat.not_lt.mpr haddresses,
    Nat.not_lt.mpr htopics]

/-- A query that reaches the logs returns them, or an error. -/
theorem blockLogs_of_reaches (hlogs : ∀ found, B.getFilteredLogs hash addresses topics = .ok found →
      found = logs.filter fun log => logMatches log addresses topics)
    (h : B.Reaches bloomLookup hash addresses topics) (ha : crit.addresses = addresses)
    (ht : crit.topics = topics) :
    (newBlockFilter B crit).blockLogs bloomLookup hash =
        .ok (logs.filter fun log => logMatches log addresses topics) ∨
      ∃ e, (newBlockFilter B crit).blockLogs bloomLookup hash = .error e ∧ e.kind ≠ .panic := by
  subst ha ht
  cases hheader : B.headerByHash hash with
  | error e =>
    refine .inr ⟨.plain s!"failed to fetch header by hash {hash.hex}: {e}", ?_, nofun⟩
    simp [Filter.blockLogs, newBlockFilter, hheader]
  | ok header =>
    obtain ⟨number, bloom, rfl, hbloom, htest⟩ := h header hheader
    cases hfound : B.getFilteredLogs hash crit.addresses crit.topics with
    | error e =>
      refine .inr ⟨.plain e, ?_, nofun⟩
      simp [Filter.blockLogs, newBlockFilter, hheader, hbloom, htest, hfound, Except.mapError]
    | ok found =>
      refine .inl ?_
      rw [← hlogs found hfound]
      simp [Filter.blockLogs, newBlockFilter, hheader, hbloom, htest, hfound, Except.mapError]

/-- A query that does not reach the logs returns none. -/
theorem blockLogs_of_not_reaches (h : ¬ B.Reaches bloomLookup hash crit.addresses crit.topics) :
    (newBlockFilter B crit).blockLogs bloomLookup hash = .ok [] := by
  unfold Backend.Reaches at h
  push Not at h
  obtain ⟨header, hheader, h⟩ := h
  simp only [Filter.blockLogs, newBlockFilter, hheader]
  cases hnumber : header.bind Header.number with
  | none => rfl
  | some number =>
    obtain ⟨⟨-⟩, rfl, rfl⟩ := Option.bind_eq_some_iff.mp hnumber
    dsimp only
    cases hbloom : B.getBlockBloomByHeight (Int64.ofInt number) with
    | error e => rfl
    | ok bloom => simp [h number bloom rfl hbloom]

theorem logs_of_ne (hhash : crit.blockHash = some hash) (hne : hash ≠ 0) (logLimit : ℤ)
    (blockLimit : Int64) (fuel : ℕ) :
    (newBlockFilter B crit).logs bloomLookup logLimit blockLimit fuel =
      some ((newBlockFilter B crit).blockLogs bloomLookup hash) := by
  simp only [Filter.logs, newBlockFilter, hhash]
  rw [if_pos hne]

/-- The answer for the zero hash: an error, nothing, or a panic. -/
theorem logs_zero (hhash : crit.blockHash = some 0) (hfrom : crit.fromBlock = none) (logLimit : ℤ)
    (blockLimit : Int64) (fuel : ℕ) :
    (newBlockFilter B crit).logs bloomLookup logLimit blockLimit fuel = some (
      match B.headerByNumber ethLatestBlockNumber with
      | .error e => .error (.plain s!"failed to fetch header by number (latest): {e}")
      | .ok header =>
        match header.bind Header.number with
        | none => .ok []
        | some _ => .error (.panic "invalid memory address or nil pointer dereference")) := by
  simp only [Filter.logs, Filter.rangeLogs, Filter.logsUpTo, newBlockFilter, hhash, hfrom, ne_eq,
    not_true_eq_false, if_false]
  cases B.headerByNumber ethLatestBlockNumber with
  | error e => rfl
  | ok header =>
    dsimp only
    cases header.bind Header.number <;> rfl

theorem filter_logMatches_eq_nil :
    (logs.filter fun log => logMatches log addresses topics) = [] ↔
      ∀ log ∈ logs, logMatches log addresses topics = false := by
  simp [List.filter_eq_nil_iff]

end Hash

/-- **A query by block hash hides nothing** if and only if no log of the block passes the filter or
the logs are reached.  With the zero hash it is if and only if the latest header cannot be read, or
is missing and no log passes. -/
theorem block_hash_logs_iff (bloomLookup : Bytes → Bytes → Bool) (B : Backend) (hash : Hash)
    (addresses : List Address) (topics : List (List Hash)) (logs : List RPCLog)
    (haddresses : addresses.length ≤ maxAddresses) (htopics : topics.length ≤ maxTopics)
    (hlogs : ∀ found, B.getFilteredLogs hash addresses topics = .ok found →
      found = logs.filter fun log => logMatches log addresses topics) :
    HidesNothing (getLogs bloomLookup B
        { blockHash := some hash, addresses := addresses, topics := topics })
      (logs.filter fun log => logMatches log addresses topics) ↔
    if hash ≠ 0 then
      (∀ log ∈ logs, logMatches log addresses topics = false) ∨
        B.Reaches bloomLookup hash addresses topics
    else
      (∃ e, B.headerByNumber ethLatestBlockNumber = .error e) ∨
        (∃ header, B.headerByNumber ethLatestBlockNumber = .ok header ∧
          header.bind Header.number = none) ∧
        ∀ log ∈ logs, logMatches log addresses topics = false := by
  have hgetLogs := getLogs_hash bloomLookup B hash haddresses htopics
  rw [← filter_logMatches_eq_nil]
  split_ifs with hhash
  · -- the query by hash
    have hanswer := fun fuel => (hgetLogs fuel).trans (logs_of_ne rfl hhash _ _ fuel)
    by_cases hreach : B.Reaches bloomLookup hash addresses topics
    · refine iff_of_true ?_ (.inr hreach)
      intro fuel
      rw [hanswer]
      simpa using blockLogs_of_reaches hlogs hreach rfl rfl
    · rw [or_iff_left hreach]
      refine hidesNothing_nil fun fuel => ?_
      rw [hanswer, blockLogs_of_not_reaches hreach]
  · -- the zero hash
    obtain rfl : hash = 0 := not_not.mp hhash
    have hanswer := fun fuel => (hgetLogs fuel).trans (logs_zero rfl rfl _ _ fuel)
    cases hheader : B.headerByNumber ethLatestBlockNumber with
    | error e =>
      simp only [hheader] at hanswer
      exact iff_of_true (fun fuel => .inr ⟨_, hanswer fuel, nofun⟩) (.inl ⟨e, rfl⟩)
    | ok header =>
      simp only [hheader] at hanswer
      cases hnumber : header.bind Header.number with
      | none =>
        simp only [hnumber] at hanswer
        rw [hidesNothing_nil hanswer]
        constructor
        · exact fun hnone => .inr ⟨⟨header, rfl, hnumber⟩, hnone⟩
        · rintro (⟨e, he⟩ | ⟨-, hnone⟩)
          · cases he
          · exact hnone
      | some number =>
        simp only [hnumber] at hanswer
        refine iff_of_false ?_ ?_
        · intro hall
          rcases hall 0 with hok | ⟨e, he, hkind⟩
          · rw [hanswer] at hok
            cases hok
          · rw [hanswer] at he
            obtain rfl := Except.error.inj (Option.some.inj he)
            exact hkind rfl
        · rintro (⟨e, he⟩ | ⟨⟨header', hheader', hnone⟩, -⟩)
          · cases he
          · obtain rfl := Except.ok.inj hheader'
            rw [hnumber] at hnone
            cases hnone

/-- The log of block 3 is found by its hash. -/
theorem block_hash_logs_iff_three :
    HidesNothing (getLogs fullBloomLookup (sampleLogBackend fun _ => true)
        { blockHash := some 4, addresses := [1], topics := [[2]] })
      ((sampleLogsAt 3).filter fun log => logMatches log [1] [[2]]) := by
  refine (block_hash_logs_iff fullBloomLookup _ 4 [1] [[2]] (sampleLogsAt 3) (by decide) (by decide)
    ?_).mpr ?_
  · exact fun found hfound => (Except.ok.inj hfound).symm
  · rw [if_pos (by decide)]
    refine .inr fun header hheader => ?_
    obtain rfl := Except.ok.inj hheader
    exact ⟨3, fullBloom, rfl, rfl, by decide +kernel⟩

/-- A backend whose blooms cannot be read. -/
def bloomlessBackend : Backend :=
  { sampleLogBackend fun _ => true with
    getBlockBloomByHeight := fun _ => .error "block is unreadable" }

/-- The log of block 3 passes the filter and the answer is empty; with the zero hash there is a
panic. -/
theorem unreadable_bloom_hides_log :
    (sampleLogsAt 3).filter (fun log => logMatches log [1] [[2]]) ≠ [] ∧
    bloomlessBackend.getFilteredLogs 4 [1] [[2]] =
      .ok ((sampleLogsAt 3).filter fun log => logMatches log [1] [[2]]) ∧
    (∀ fuel, getLogs fullBloomLookup bloomlessBackend
      { blockHash := some 4, addresses := [1], topics := [[2]] } fuel = some (.ok [])) ∧
    ∀ fuel, getLogs fullBloomLookup (sampleLogBackend fun _ => true)
      { blockHash := some 0, addresses := [1], topics := [[2]] } fuel =
        some (.error (.panic "invalid memory address or nil pointer dereference")) := by
  refine ⟨by decide +kernel, rfl, fun fuel => ?_, fun fuel => ?_⟩
  · rfl
  · rfl

end EvmGateway.Filters
