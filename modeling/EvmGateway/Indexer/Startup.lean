import EvmGateway.Blocksync.Provenance
import EvmGateway.Indexer.Sync

/-!
# The two queues of a start

At a start the gaps of the store are computed, and two queues are set up: one syncs the gaps,
one gap after another, the other follows the chain from the head on.  They run at the same
time or, in serial mode, one after the other, and share the store.

Each queue makes calls of the block syncer, whose goroutines are those of the block getter,
and each block is given to a handler.  Since the queues share the store, a handler is not one
step here: it reads the store and builds a batch, writes it, and after a failure reads again
and deletes.  Anything the other queue does can come in between.  A handler left alone does
what `handleSyncedBlock` does (`handler_alone`).

What happens is recorded as a list of events, oldest first, which no step reads.

The node is a relation: `answers h fetched` says that it may answer `fetched` when it is asked
for height `h`.  The context is the one of `Run`, whose only error is its cancellation.

## Main definitions

* `Syncer.run` — the decisions before the queues are set up.
* `Handler`, `handlerStep` — a handler, piece by piece.
* `SyncCall`, `callStep` — a call of `SyncRange` or `SyncForward`.
* `RunState`, `runStep` — the two queues.
-/

namespace EvmGateway

open Lib

/-! ## Before the queues -/

/-- The heights the node reports.  The head of a chain is not the largest `int64`, so the height
after it is one, too. -/
structure NodeStatus where
  earliestBlockHeight : ℤ
  latestBlockHeight : ℤ
  latest_lt : latestBlockHeight < maxInt64

/-- How the node answers when it is asked for a block. -/
inductive BlockProbe
  | block
  /-- an answer without a block -/
  | empty
  /-- an error, with the lowest height its text gives -/
  | failed (err : Err) (lowest : Option ℤ)

/-- The lowest height in the text of an error, if it makes sense. -/
def lowestAvailableHeight (lowest : Option ℤ) : Option ℤ := lowest.filter fun height => 0 < height

/-- What the queues are set up with. -/
structure Plan where
  gaps : List BlockRange
  head : ℤ
  parallel : Bool
  deriving DecidableEq

namespace Syncer

variable (S : Syncer)

/-- Check the first height asked for against the node. -/
def resolveEarliestBlock (requested : ℤ) : BlockProbe → Except Err ℤ
  | .block => .ok requested
  | .empty => .error (.plain s!"validate earliest block {requested}: empty block response")
  | .failed err lowest =>
    match lowestAvailableHeight lowest with
    | none => .error (err.wrap s!"validate earliest block {requested}")
    | some chainEarliest =>
      if S.allowGaps then .ok chainEarliest
      else .error (.plain s!"earliest block {requested} before chain earliest {chainEarliest}")

/-- The first height to sync. -/
def earliestBlock (configured : ℤ) (status : NodeStatus) (probe : BlockProbe) : Except Err ℤ :=
  if configured ≤ 0 then
    .ok (if status.earliestBlockHeight ≤ 0 then 1 else status.earliestBlockHeight)
  else S.resolveEarliestBlock configured probe

/-- The gaps up to the head, and whether both queues run at once. -/
def plan (db : DB) (earliest head : ℤ) : Plan :=
  let gaps := computeGaps earliest head (loadIndexedRanges db)
  ⟨gaps, head, !gaps.isEmpty && S.parallelSyncTipAndGaps⟩

/-- The decisions of `Run`; there is nothing to do below the first height. -/
def run (configured : ℤ) (status : NodeStatus) (probe : BlockProbe) (db : DB) :
    Except Err (Option Plan) := do
  let earliest ← S.earliestBlock configured status probe
  if status.latestBlockHeight < earliest then return none
  return some (S.plan db earliest status.latestBlockHeight)

theorem earliestBlock_pos {configured : ℤ} {status : NodeStatus} {probe : BlockProbe}
    {earliest : ℤ} (h : S.earliestBlock configured status probe = .ok earliest) : 0 < earliest := by
  unfold earliestBlock at h
  by_cases hconf : configured ≤ 0
  · rw [if_pos hconf] at h
    obtain rfl := Except.ok.inj h
    split_ifs <;> omega
  · rw [if_neg hconf] at h
    cases probe with
    | block =>
      obtain rfl := Except.ok.inj h
      omega
    | empty => cases h
    | failed err lowest =>
      simp only [resolveEarliestBlock] at h
      cases hlow : lowestAvailableHeight lowest with
      | none =>
        rw [hlow] at h
        cases h
      | some chainEarliest =>
        simp only [hlow] at h
        split_ifs at h
        obtain rfl := Except.ok.inj h
        exact of_decide_eq_true (Option.filter_eq_some_iff.mp hlow).2

end Syncer

/-! ## Events -/

/-- The queue a call belongs to. -/
inductive Queue
  | gap
  | tip
  deriving DecidableEq

/-- What is recorded of a run. -/
inductive SyncEvent
  /-- the handler was called -/
  | handed (queue : Queue) (height : ℕ)
  /-- the batch of the block was written -/
  | indexed (queue : Queue) (height : ℕ)
  /-- the height was given up: the node does not have it, or it cannot be parsed -/
  | skipped (queue : Queue) (height : ℕ)
  /-- the handler failed -/
  | failed (queue : Queue) (height : ℕ)
  /-- `PublishIndexedBlock` was called -/
  | published (height : ℕ)
  /-- the call for a gap returned -/
  | gapEnded (gap : BlockRange) (result : Blocksync.Result)
  /-- the call for the tip returned -/
  | tipEnded (result : Blocksync.Result)

/-! ## Handlers -/

/-- A handler, by the place it is at. -/
inductive Handler
  | idle
  /-- about to read the store and to build the batch -/
  | indexing (block : SyncedBlock)
  /-- about to write the batch -/
  | writing (block : SyncedBlock) (batch : DBBatch)
  /-- indexing failed; about to read what the height holds -/
  | cleaning (block : SyncedBlock) (err : Err)
  /-- about to delete it -/
  | deleting (block : SyncedBlock) (err : Err) (batch : DBBatch)
  /-- about to publish -/
  | publishing (block : SyncedBlock)
  | returned (err : Option Err)

/-- What a handler does next. -/
inductive HandlerAction
  /-- read the store and build a batch -/
  | read
  /-- write the batch, with an error or without -/
  | write (diskErr : Option Err)
  | publish

section Handlers

variable (S : Syncer) (queue : Queue)

/-- What the node returned for a block. -/
def fetchedOf (block : SyncedBlock) : FetchedBlock := block.block.getD ⟨none, none⟩

/-- Where a handler goes after the batch was written. -/
def afterIndexing (block : SyncedBlock) : Handler :=
  if queue = .tip ∧ S.publishes = true then .publishing block else .returned none

/-- The text around an error of the deletion. -/
def deletionErr (height : ℕ) (err : Err) : Err :=
  (err.wrap s!"DeleteBlock {height}").wrap s!"delete failed block {height}"

/-- How a failure of a handler is recorded: it is an error, or the height is given up. -/
def failureEvent (height : ℕ) : Option Err → SyncEvent
  | some _ => .failed queue height
  | none => .skipped queue height

/-- One piece of a handler. -/
def handlerStep (db : DB) : Handler → HandlerAction → Option (Handler × DB × List SyncEvent)
  | .indexing block, .read =>
    match buildBatch S.env S.indexer (fetchedOf block) db with
    | .ok (batch, _) => some (.writing block batch, db, [])
    | .error err => some (.cleaning block err, db, [])
  | .writing block batch, .write diskErr =>
    match writeBatch diskErr batch db with
    | (db', none) => some (afterIndexing S queue block, db', [.indexed queue block.height])
    | (db', some err) =>
      some (.cleaning block (err.wrap s!"IndexBlock {(fetchedOf block).height}, write batch"),
        db', [])
  | .cleaning block err, .read => some (.deleting block err (resetBlock db block.height), db, [])
  | .deleting block err batch, .write diskErr =>
    match writeBatch diskErr batch db with
    | (db', cleanupErr) =>
      let err' := S.afterFailure block.height err (cleanupErr.map (deletionErr block.height))
      some (.returned err', db', [failureEvent queue block.height err'])
  | .publishing block, .publish => some (.returned none, db, [.published block.height])
  | _, _ => none

/-- Pieces of a handler one after another, with nothing in between. -/
def handlerAlone : List HandlerAction → Handler × DB × List SyncEvent →
    Option (Handler × DB × List SyncEvent)
  | [], r => some r
  | a :: as, (handler, db, events) => do
    let (handler', db', events') ← handlerStep S queue db handler a
    handlerAlone as (handler', db', events ++ events')

end Handlers

/-! ## Calls of the block syncer -/

structure SyncCall where
  getter : Blocksync.State FetchedBlock
  handler : Handler

/-- A call as it starts; the context may be done already. -/
def SyncCall.start (cfg : Blocksync.Syncer) (stop : Option ℤ) (start : ℤ) (canceled : Bool) :
    SyncCall :=
  ⟨{ Blocksync.State.init cfg stop start with canceled := canceled }, .idle⟩

/-- The context is done. -/
def SyncCall.cancel (call : SyncCall) : SyncCall :=
  { call with getter := { call.getter with canceled := true } }

/-- What happens in a call. -/
inductive CallAction
  /-- an action of the getter that does not involve the handler -/
  | getter (a : Blocksync.Action FetchedBlock)
  /-- the consumer receives a block -/
  | receive
  /-- a piece of the handler -/
  | handler (a : HandlerAction)
  /-- the handler returns -/
  | finish

/-- The actions of the getter that do not involve the handler; fetches are answered by the
node.  The context is not the call's own. -/
def getterAction (answers : ℕ → FetchedBlock → Bool) (g : Blocksync.State FetchedBlock) :
    Blocksync.Action FetchedBlock → Bool
  | .worker w (.fetched (.ok fetched)) =>
    match g.workers[w]? with
    | some (.fetching h) => answers h fetched
    | _ => false
  | .worker _ _ | .announcer _ => true
  | .consumer .receive | .consumer (.handled _) | .cancel => false
  | .consumer _ => true

/-- A block was received: the handler is called, or the height is given up. -/
def SyncCall.receive (queue : Queue) (call : SyncCall) (g : Blocksync.State FetchedBlock) :
    SyncCall × List SyncEvent :=
  match g.consumer with
  | .handling block => (⟨g, .indexing block⟩, [.handed queue block.height])
  | .receiving => (⟨g, call.handler⟩, [.skipped queue call.getter.expected])
  | _ => (⟨g, call.handler⟩, [])

section Calls

variable (S : Syncer) (answers : ℕ → FetchedBlock → Bool) (cfg : Blocksync.Syncer)
  (stop : Option ℤ) (queue : Queue)

def callStep (db : DB) (call : SyncCall) : CallAction → Option (SyncCall × DB × List SyncEvent)
  | .getter a =>
    if getterAction answers call.getter a then
      (Blocksync.step cfg stop call.getter a).map fun g => (⟨g, call.handler⟩, db, [])
    else none
  | .receive =>
    (Blocksync.step cfg stop call.getter (.consumer .receive)).map fun g =>
      ((call.receive queue g).1, db, (call.receive queue g).2)
  | .handler a =>
    (handlerStep S queue db call.handler a).map fun r => (⟨call.getter, r.1⟩, r.2)
  | .finish =>
    match call.handler with
    | .returned err =>
      (Blocksync.step cfg stop call.getter (.consumer (.handled err.isNone))).map fun g =>
        (⟨g, .idle⟩, db, [])
    | _ => none

end Calls

/-! ## The queues -/

inductive GapQueue
  /-- between two gaps -/
  | next (rest : List BlockRange)
  /-- in a call for a gap -/
  | syncing (gap : BlockRange) (rest : List BlockRange) (call : SyncCall)
  /-- at its end, with the error of a cancellation or without one -/
  | done (canceled : Bool)

inductive TipQueue
  | waiting
  | syncing (call : SyncCall)
  | done (result : Blocksync.Result)

def GapQueue.cancel : GapQueue → GapQueue
  | .syncing gap rest call => .syncing gap rest call.cancel
  | q => q

def TipQueue.cancel : TipQueue → TipQueue
  | .syncing call => .syncing call.cancel
  | q => q

/-- Both queues, the store and the context. -/
structure RunState where
  db : DB
  canceled : Bool
  gap : GapQueue
  tip : TipQueue
  events : List SyncEvent

/-- The queues as they are set up. -/
def Plan.start (plan : Plan) (db : DB) : RunState := ⟨db, false, .next plan.gaps, .waiting, []⟩

/-- What happens in a run. -/
inductive RunAction
  /-- the queue of the gaps begins the next gap, or ends -/
  | nextGap
  /-- the call for a gap goes on -/
  | gap (a : CallAction)
  /-- the call for a gap has returned -/
  | gapReturn
  /-- the queue of the tip begins -/
  | startTip
  /-- the call for the tip goes on -/
  | tip (a : CallAction)
  /-- the call for the tip has returned -/
  | tipReturn
  /-- the context is cancelled -/
  | cancel

section Queues

variable (S : Syncer) (answers : ℕ → FetchedBlock → Bool) (plan : Plan)

/-- The settings for gaps. -/
def Syncer.rangeSyncer : Blocksync.Syncer := Blocksync.newSyncer S.fetchJobs S.allowGaps

/-- The settings for the tip, as `SyncForward` passes them on. -/
def Syncer.forwardSyncer : Blocksync.Syncer := (Blocksync.newSyncer S.fetchJobs false).forward

def nextGapStep (s : RunState) : Option RunState :=
  match s.gap with
  | .next [] => some { s with gap := .done false }
  | .next (gap :: rest) =>
    some { s with
      gap := .syncing gap rest (.start S.rangeSyncer (some gap.stop) gap.start s.canceled) }
  | _ => none

def gapStep (s : RunState) (a : CallAction) : Option RunState :=
  match s.gap with
  | .syncing gap rest call =>
    (callStep S answers S.rangeSyncer (some gap.stop) .gap s.db call a).map fun r =>
      { s with gap := .syncing gap rest r.1, db := r.2.1, events := s.events ++ r.2.2 }
  | _ => none

/-- After the call for a gap: a cancellation ends the queue, any other error does not. -/
def gapReturnStep (s : RunState) : Option RunState :=
  match s.gap with
  | .syncing gap rest call =>
    match call.getter.consumer with
    | .returned result =>
      some { s with
        gap := if result = .ctxErr then .done true else .next rest
        events := s.events ++ [.gapEnded gap result] }
    | _ => none
  | _ => none

/-- The queue of the tip begins at once, or after the gaps. -/
def startTipStep (s : RunState) : Option RunState :=
  match s.tip with
  | .waiting =>
    let call := SyncCall.start S.forwardSyncer none (plan.head + 1) s.canceled
    if plan.parallel then some { s with tip := .syncing call }
    else
      match s.gap with
      | .done false => some { s with tip := .syncing call }
      | _ => none
  | _ => none

def tipStep (s : RunState) (a : CallAction) : Option RunState :=
  match s.tip with
  | .syncing call =>
    (callStep S answers S.forwardSyncer none .tip s.db call a).map fun r =>
      { s with tip := .syncing r.1, db := r.2.1, events := s.events ++ r.2.2 }
  | _ => none

def tipReturnStep (s : RunState) : Option RunState :=
  match s.tip with
  | .syncing call =>
    match call.getter.consumer with
    | .returned result =>
      some { s with tip := .done result, events := s.events ++ [.tipEnded result] }
    | _ => none
  | _ => none

def runStep (s : RunState) : RunAction → Option RunState
  | .nextGap => nextGapStep S s
  | .gap a => gapStep S answers s a
  | .gapReturn => gapReturnStep s
  | .startTip => startTipStep S plan s
  | .tip a => tipStep S answers s a
  | .tipReturn => tipReturnStep s
  | .cancel => some { s with canceled := true, gap := s.gap.cancel, tip := s.tip.cancel }

/-- The states of a run, from the store it starts with. -/
def RunReaches (db : DB) (s : RunState) : Prop :=
  Reachable (runStep S answers plan) (plan.start db) s

end Queues

/-! ## A handler left alone -/

section Alone

variable (S : Syncer) (queue : Queue)

def SyncEvent.published? : SyncEvent → Option ℕ
  | .published height => some height
  | _ => none

@[simp] theorem published?_failureEvent (height : ℕ) (err : Option Err) :
    (failureEvent queue height err).published? = none := by
  cases err <;> rfl

/-- The actions of a handler that meets the errors of the database given. -/
def handlerActions (c : HandlerCall) (db : DB) : List HandlerAction :=
  match buildBatch S.env S.indexer (fetchedOf c.1) db with
  | .error _ => [.read, .read, .write c.2.delete]
  | .ok _ =>
    .read :: .write c.2.index ::
      match c.2.index with
      | some _ => [.read, .write c.2.delete]
      | none => if queue = .tip ∧ S.publishes = true then [.publish] else []

/-- **A handler left alone** leaves the store, returns the error and publishes the height of
`handleSyncedBlock`. -/
theorem handler_alone (c : HandlerCall) (hskip : c.1.skipped = false) (db : DB) :
    ∃ events, handlerAlone S queue (handlerActions S queue c db) (.indexing c.1, db, []) =
        some (.returned (S.handleSyncedBlock (queue == .tip) c db).err,
          (S.handleSyncedBlock (queue == .tip) c db).db, events) ∧
      events.filterMap SyncEvent.published? =
        (S.handleSyncedBlock (queue == .tip) c db).published.toList := by
  obtain ⟨block, indexErr, deleteErr⟩ := c
  have hfetched : HandlerCall.fetched (block, ⟨indexErr, deleteErr⟩) = fetchedOf block := rfl
  unfold handlerActions Syncer.handleSyncedBlock Syncer.index indexBlockWithStatsAndResults
  rw [hfetched]
  simp only at hskip
  simp only [hskip]
  cases hbuild : buildBatch S.env S.indexer (fetchedOf block) db with
  | error err =>
    simp only [handlerAlone, handlerStep, hbuild]
    cases deleteErr <;> exact ⟨_, rfl, by simp [cleanupFailedBlock, writeBatch]⟩
  | ok r =>
    cases indexErr with
    | some err =>
      simp only [handlerAlone, handlerStep, hbuild, writeBatch]
      cases deleteErr <;> exact ⟨_, rfl, by simp [cleanupFailedBlock, writeBatch]⟩
    | none =>
      by_cases hpublish : queue = .tip ∧ S.publishes = true
      · refine ⟨[.indexed queue block.height, .published block.height], ?_, ?_⟩
        · simp [handlerAlone, handlerStep, hbuild, writeBatch, afterIndexing, hpublish]
        · simp [writeBatch, SyncEvent.published?, List.filterMap_cons, hpublish.1, hpublish.2]
      · refine ⟨[.indexed queue block.height], ?_, ?_⟩
        · simp [handlerAlone, handlerStep, hbuild, writeBatch, afterIndexing, hpublish]
        · cases queue <;> simp_all [writeBatch, SyncEvent.published?]

end Alone

end EvmGateway
