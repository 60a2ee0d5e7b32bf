import EvmGateway.Blocksync.Delivery
import EvmGateway.Indexer.Histories
import EvmGateway.Indexer.Ranges

/-!
# The handlers of a sync

A block that was fetched is indexed by a handler.  If indexing fails, the handler deletes
whatever its height held, so that the next start finds the height missing.  There are two
handlers, one for the gaps and the tip and one for `Resync`; they differ in what they return
and do the same to the store.

The database can fail.  A batch is applied as a whole or not at all, and `DiskErrors` says
which of the two batches of a handler fail; an error of a read before the batch counts as one
of the batch.  A panic while a block is indexed is recovered and is an error here.

`SyncRange` and `SyncForward` are seen from their handler: a list of blocks to deliver, which
ends early if the handler returns an error, and the error the call ends with otherwise.

## Main definitions

* `indexBlockWithStatsAndResults`, `cleanupFailedBlock` — the two calls that change the store.
* `Syncer.handleSyncedBlock`, `Syncer.resyncBlock` — the handlers.
* `deliver`, `Syncer.resync` — runs of them.
-/

namespace EvmGateway

open Lib

/-- What the node returned for a height; the block may be missing. -/
structure FetchedBlock where
  block : Option Block
  blockResults : Option BlockResults

/-- The height of a block, for the texts of errors. -/
def FetchedBlock.height (fetched : FetchedBlock) : ℕ := (fetched.block.map (·.height)).getD 0

/-- A block as it is handed to a handler. -/
abbrev SyncedBlock := Blocksync.NewBlockData FetchedBlock

/-- The settings of the indexer's syncer. -/
structure Syncer where
  env : Env
  indexer : KVIndexer
  allowGaps : Bool
  fetchJobs : ℤ
  parallelSyncTipAndGaps : Bool
  /-- whether there is a `tipPublisher` -/
  publishes : Bool

/-! ## Changing the store -/

/-- The errors of the database during one call of a handler. -/
structure DiskErrors where
  /-- while the block is indexed -/
  index : Option Err := none
  /-- while the height is deleted -/
  delete : Option Err := none

/-- Write a batch: all of it, or nothing. -/
def writeBatch (diskErr : Option Err) (batch : DBBatch) (db : DB) : DB × Option Err :=
  match diskErr with
  | none => (applyBatch batch db, none)
  | some err => (db, some err)

/-- The batch that replaces a height by a block, and the number of Ethereum transactions. -/
def buildBatch (E : Env) (kv : KVIndexer) (fetched : FetchedBlock) (db : DB) :
    Except Err (DBBatch × ℕ) :=
  match fetched.block with
  | none => .error (.panic "runtime error: invalid memory address or nil pointer dereference")
  | some block => do
    let (writes, indexedEthTxs) ← blockWrites E kv block fetched.blockResults
    return (resetBlock db block.height ++ writes, indexedEthTxs)

/-- Index a block on the disk.  The result is the number of Ethereum transactions. -/
def indexBlockWithStatsAndResults (E : Env) (kv : KVIndexer) (diskErr : Option Err)
    (fetched : FetchedBlock) (db : DB) : DB × Except Err ℕ :=
  match buildBatch E kv fetched db with
  | .error err => (db, .error err)
  | .ok (batch, indexedEthTxs) =>
    match writeBatch diskErr batch db with
    | (db', none) => (db', .ok indexedEthTxs)
    | (db', some err) => (db', .error (err.wrap s!"IndexBlock {fetched.height}, write batch"))

/-- Delete what is left of a block that could not be indexed. -/
def cleanupFailedBlock (diskErr : Option Err) (height : ℕ) (db : DB) : DB × Option Err :=
  match writeBatch diskErr (resetBlock db height) db with
  | (db', none) => (db', none)
  | (db', some err) =>
    (db', some ((err.wrap s!"DeleteBlock {height}").wrap s!"delete failed block {height}"))

/-- One error from two. -/
def joinErrors (primary secondary : Err) : Err :=
  ⟨primary.kind, s!"{primary.message}: {secondary.message}"⟩

/-! ## The handlers -/

/-- What a handler is called on: a block, and the errors of the database. -/
abbrev HandlerCall := SyncedBlock × DiskErrors

/-- What the node returned for the block of a call. -/
def HandlerCall.fetched (c : HandlerCall) : FetchedBlock := c.1.block.getD ⟨none, none⟩

namespace Syncer

variable (S : Syncer)

def index (c : HandlerCall) (db : DB) : DB × Except Err ℕ :=
  indexBlockWithStatsAndResults S.env S.indexer c.2.index (HandlerCall.fetched c) db

/-- What `handleSyncedBlock` returns after a failure, depending on the cleanup. -/
def afterFailure (height : ℕ) (err : Err) (cleanupErr : Option Err) : Option Err :=
  match cleanupErr with
  | some cleanupErr => some (joinErrors (err.wrap s!"index block {height}") cleanupErr)
  | none =>
    if err.kind = .blockParse ∧ S.allowGaps = true then none
    else some (err.wrap s!"index block {height}")

/-- What a handler leaves behind. -/
structure Outcome where
  db : DB
  err : Option Err
  /-- the height passed to `PublishIndexedBlock` -/
  published : Option ℕ

/-- The handler of the gaps and, with `publishTip`, of the tip. -/
def handleSyncedBlock (publishTip : Bool) (c : HandlerCall) (db : DB) : Outcome :=
  if c.1.skipped then ⟨db, none, none⟩
  else
    match S.index c db with
    | (db₁, .error err) =>
      match cleanupFailedBlock c.2.delete c.1.height db₁ with
      | (db₂, cleanupErr) => ⟨db₂, S.afterFailure c.1.height err cleanupErr, none⟩
    | (db₁, .ok _) => ⟨db₁, none, if publishTip && S.publishes then some c.1.height else none⟩

/-- The handler of `Resync`. -/
def resyncBlock (c : HandlerCall) (db : DB) : DB × Except Err ℕ :=
  if c.1.skipped then
    (db, .error (.plain s!"block {c.1.height} was skipped during resync"))
  else
    match S.index c db with
    | (db₁, .error err) =>
      match cleanupFailedBlock c.2.delete c.1.height db₁ with
      | (db₂, some cleanupErr) =>
        (db₂, .error (joinErrors (err.wrap s!"index block {c.1.height}") cleanupErr))
      | (db₂, none) => (db₂, .error (err.wrap s!"index block {c.1.height}"))
    | (db₁, .ok indexedEthTxs) => (db₁, .ok indexedEthTxs)

end Syncer

/-! ## Runs of a handler -/

/-- The calls a range or the tip is synced with, and the error it ends with if no handler
fails. -/
structure Feed where
  calls : List HandlerCall
  err : Option Err

/-- A sync as it went. -/
structure SyncRun (σ : Type) where
  state : σ
  /-- the calls that were made, in order -/
  handled : List HandlerCall
  err : Option Err

/-- Deliver blocks to a handler until it returns an error. -/
def deliver {σ : Type} (handler : HandlerCall → σ → σ × Option Err) (err : Option Err) :
    List HandlerCall → σ → SyncRun σ
  | [], s => ⟨s, [], err⟩
  | c :: calls, s =>
    match handler c s with
    | (s', some err') => ⟨s', [c], some err'⟩
    | (s', none) =>
      { deliver handler err calls s' with handled := c :: (deliver handler err calls s').handled }

/-- What `Resync` counts. -/
structure ResyncStats where
  blocksSynced : ℕ := 0
  uniqueTxnsSeen : ℕ := 0

namespace Syncer

variable (S : Syncer)

/-- The handler of the gaps or the tip, as it is passed to the block syncer. -/
def syncHandler (publishTip : Bool) (c : HandlerCall) (db : DB) : DB × Option Err :=
  ((S.handleSyncedBlock publishTip c db).db, (S.handleSyncedBlock publishTip c db).err)

/-- The handler of `Resync`, with its counters. -/
def resyncHandler (c : HandlerCall) (s : DB × ResyncStats) : (DB × ResyncStats) × Option Err :=
  match S.resyncBlock c s.1 with
  | (db, .error err) => ((db, s.2), some err)
  | (db, .ok indexedEthTxs) =>
    ((db, ⟨s.2.blocksSynced + 1, s.2.uniqueTxnsSeen + indexedEthTxs⟩), none)

/-- Sync the targets one after another until one fails. -/
def resyncTargets (feed : BlockRange → Feed) :
    List BlockRange → DB × ResyncStats → SyncRun (DB × ResyncStats)
  | [], s => ⟨s, [], none⟩
  | target :: targets, s =>
    match deliver S.resyncHandler (feed target).err (feed target).calls s with
    | ⟨s', handled, some err⟩ => ⟨s', handled, some err⟩
    | ⟨s', handled, none⟩ =>
      { resyncTargets feed targets s' with
        handled := handled ++ (resyncTargets feed targets s').handled }

def resync (targets : List BlockRange) (feed : BlockRange → Feed) (db : DB) :
    SyncRun (DB × ResyncStats) :=
  if targets.isEmpty then ⟨(db, {}), [], some (.plain "no resync targets provided")⟩
  else S.resyncTargets feed (normalizeRanges targets) (db, {})

end Syncer

end EvmGateway
