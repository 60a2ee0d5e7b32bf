import EvmGateway.Lib.Counted
import EvmGateway.Virtual.Logs

/-!
# Log queries

`eth_getLogs` asks for the logs of a block hash or of a range of heights.  The bloom of a block
tells that none of its logs can pass the filter; the other blocks are read.  The backend is the
interface the filters see: an answer or an error for each call.

Heights are 64-bit integers here, and wrap.  A nil slice is an empty list.  The loop over a range
has fuel, since it does not end if the last height is the largest integer.

## Main definitions

* `bloomFilter` — whether a block with this bloom is read.
* `Filter.logs` — the logs a filter selects.
* `getLogs` — the request.
-/

namespace EvmGateway.Filters

open Lib

/-! ## The backend -/

/-- The header of a block. -/
structure Header where
  number : Option ℤ

/-- What the filters ask the backend for.  An error is its text. -/
structure Backend where
  headerByNumber : Int64 → Except String (Option Header)
  headerByHash : Hash → Except String (Option Header)
  getFilteredLogs : Hash → List Address → List (List Hash) → Except String (List RPCLog)
  getFilteredLogsByHeight : Int64 → List Address → List (List Hash) → Except String (List RPCLog)
  getBlockBloomByHeight : Int64 → Except String Bytes
  rpcLogsCap : Int32
  rpcBlockRangeCap : Int32

def ethLatestBlockNumber : Int64 := -1

/-! ## Criteria -/

/-- What is asked for: a block or a range, and a filter. -/
structure FilterCriteria where
  blockHash : Option Hash := none
  fromBlock : Option ℤ := none
  toBlock : Option ℤ := none
  addresses : List Address := []
  topics : List (List Hash) := []

def maxAddresses : ℕ := 32

def maxTopics : ℕ := 4

/-- The limits of a request. -/
def validateFilterCriteria (criteria : FilterCriteria) : Except Err Unit :=
  if criteria.addresses.length > maxAddresses then
    .error (.plain
      s!"max filter addresses exceeded: {criteria.addresses.length} > {maxAddresses}")
  else if criteria.topics.length > maxTopics then
    .error (.plain s!"max filter topics exceeded: {criteria.topics.length} > {maxTopics}")
  else .ok ()

/-- A filter for one request. -/
structure Filter where
  backend : Backend
  criteria : FilterCriteria

def newBlockFilter (backend : Backend) (criteria : FilterCriteria) : Filter := ⟨backend, criteria⟩

def newRangeFilter (backend : Backend) (start stop : Int64) (addresses : List Address)
    (topics : List (List Hash)) : Filter where
  backend := backend
  criteria :=
    { fromBlock := some start.toInt
      toBlock := some stop.toInt
      addresses := addresses
      topics := topics }

/-! ## Blooms -/

section Lookup

-- whether a bloom may contain a byte string, as the library decides it
variable (bloomLookup : Bytes → Bytes → Bool)

/-- Whether a block with this bloom can have logs that pass the filter.  The topics are looked up
without their positions. -/
def bloomFilter (bloom : Bytes) (addresses : List Address) (topics : List (List Hash)) : Bool :=
  (addresses.isEmpty || addresses.any fun addr => bloomLookup bloom addr.bytes) &&
  topics.all fun sub => sub.isEmpty || sub.any fun topic => bloomLookup bloom topic.bytes

/-! ## Queries -/

/-- The number of blocks a range may reach beyond the latest. -/
def maxToOverhang : Int64 := 600

/-- A bound of a range: a negative number is the latest block, zero the first one. -/
def resolveBound (head number : Int64) : Int64 :=
  if number < 0 then head else if number = 0 then 1 else number

/-- One height of a range: the logs so far, and those of the height. -/
def Filter.visitHeight (f : Filter) (logLimit : ℤ) (logs : List RPCLog) (height : Int64) :
    Except Err (List RPCLog) :=
  match f.backend.getBlockBloomByHeight height with
  | .error e => .error (.plain s!"failed to fetch block bloom at height {height}: {e}")
  | .ok bloom =>
    if bloomFilter bloomLookup bloom f.criteria.addresses f.criteria.topics then
      match f.backend.getFilteredLogsByHeight height f.criteria.addresses f.criteria.topics with
      | .error e => .error (.plain s!"failed to fetch block logs at height {height}: {e}")
      | .ok filtered =>
        if logLimit < logs.length + filtered.length then
          .error (.plain s!"query returned more than {logLimit} results")
        else .ok (logs ++ filtered)
    else .ok logs

/-- The logs of a range, with the number of the latest block known. -/
def Filter.logsUpTo (f : Filter) (head : Int64) (logLimit : ℤ) (blockLimit : Int64) (fuel : ℕ) :
    Option (Except Err (List RPCLog)) :=
  match f.criteria.fromBlock, f.criteria.toBlock with
  | some fromBlock, some toBlock =>
    let start := resolveBound head (Int64.ofInt fromBlock)
    let stop := resolveBound head (Int64.ofInt toBlock)
    if blockLimit < stop - start then
      some (.error (.plain s!"maximum [from, to] blocks distance: {blockLimit}"))
    else if head < start then some (.ok [])
    else
      let stop := if head + maxToOverhang < stop then head + maxToOverhang else stop
      forTo (f.visitHeight bloomLookup logLimit) stop fuel start []
  | _, _ => some (.error (.panic "invalid memory address or nil pointer dereference"))

def Filter.rangeLogs (f : Filter) (logLimit : ℤ) (blockLimit : Int64) (fuel : ℕ) :
    Option (Except Err (List RPCLog)) :=
  match f.backend.headerByNumber ethLatestBlockNumber with
  | .error e => some (.error (.plain s!"failed to fetch header by number (latest): {e}"))
  | .ok header =>
    match header.bind Header.number with
    | none => some (.ok [])
    | some number => f.logsUpTo bloomLookup (Int64.ofInt number) logLimit blockLimit fuel

def Filter.blockLogs (f : Filter) (hash : Hash) : Except Err (List RPCLog) :=
  match f.backend.headerByHash hash with
  | .error e => .error (.plain s!"failed to fetch header by hash {hash.hex}: {e}")
  | .ok header =>
    match header.bind Header.number with
    | none => .ok []
    | some number =>
      match f.backend.getBlockBloomByHeight (Int64.ofInt number) with
      -- the error is only logged
      | .error _ => .ok []
      | .ok bloom =>
        if bloomFilter bloomLookup bloom f.criteria.addresses f.criteria.topics then
          (f.backend.getFilteredLogs hash f.criteria.addresses f.criteria.topics).mapError .plain
        else .ok []

def Filter.logs (f : Filter) (logLimit : ℤ) (blockLimit : Int64) (fuel : ℕ) :
    Option (Except Err (List RPCLog)) :=
  match f.criteria.blockHash with
  | some hash =>
    if hash ≠ 0 then some (f.blockLogs bloomLookup hash)
    else f.rangeLogs bloomLookup logLimit blockLimit fuel
  | none => f.rangeLogs bloomLookup logLimit blockLimit fuel

def latestBlockNumber : Int64 := -2

def requestFilter (backend : Backend) (crit : FilterCriteria) : Filter :=
  match crit.blockHash with
  | some _ => newBlockFilter backend crit
  | none => newRangeFilter backend ((crit.fromBlock.map Int64.ofInt).getD latestBlockNumber)
      ((crit.toBlock.map Int64.ofInt).getD latestBlockNumber) crit.addresses crit.topics

/-- The request `eth_getLogs`. -/
def getLogs (backend : Backend) (crit : FilterCriteria) (fuel : ℕ) :
    Option (Except Err (List RPCLog)) :=
  match validateFilterCriteria crit with
  | .error e => some (.error (e.wrap "invalid criteria"))
  | .ok () =>
    (requestFilter backend crit).logs bloomLookup backend.rpcLogsCap.toInt
      backend.rpcBlockRangeCap.toInt64 fuel

end Lookup

end EvmGateway.Filters
