import EvmGateway.Lib.Int64
import EvmGateway.Lib.Interleaving
import Mathlib

/-!
# The block getter

Blocks are fetched by several workers at once and handed to a handler in order.  A worker
takes the next height, fetches its block and puts it into a map; the announcer waits for
the block of its own height, takes it out of the map and sends it on a channel; the
consumer, which is `SyncRange` or `SyncForward`, receives from the channel and calls the
handler.  A worker that finds the map too full waits before it takes another height.

The step function has one action for each atomic piece of these goroutines.  What happens
under `jobCond.L` is one action, except that the announcer keeps the lock from a failed
lookup until it waits: the checks of `isDone` in between race with `Close`, which takes no
lock.  `Signal` wakes the announcer, the only goroutine that waits on the condition, and is
lost if it does not wait.  A sleep is a delay between two actions and no action itself.

The counters of the source are 64-bit words that start at a nonnegative `int64`.  They are
kept here as the numbers counted to.  Two counters of one getter are far less than `2 ^ 64`
apart, so equal words are equal numbers.  What the handler sees of a height (`height64`), and
what is compared with the end of the range (`State.inRange`), is its signed word: past the
largest `int64` it is negative.

## Main definitions

* `Syncer` — the settings of a syncer.
* `State`, `Action`, `step` — the goroutines of one call, and what they can do.
* `State.init` — the start of `SyncRange` or, without an end, of `SyncForward`.
-/

namespace EvmGateway.Blocksync

open Lib

/-- The settings of a syncer. -/
structure Syncer where
  jobs : ℕ
  allowGaps : Bool
  jobs_pos : 0 < jobs

/-- At least one job is used. -/
def newSyncer (jobs : ℤ) (allowGaps : Bool) : Syncer where
  jobs := if jobs ≤ 0 then 1 else jobs.toNat
  allowGaps := allowGaps
  jobs_pos := by
    split_ifs <;> omega

/-- The settings `SyncForward` passes on: it never skips. -/
def Syncer.forward (cfg : Syncer) : Syncer := { cfg with allowGaps := false }

/-- A fetched block, or a height without one. -/
structure NewBlockData (β : Type) where
  height : ℕ
  block : Option β := none
  skipped : Bool := false

/-- The field `Height`, an `int64`. -/
def NewBlockData.height64 {β : Type} (newBlock : NewBlockData β) : ℤ := wrap64 newBlock.height

inductive FetchErr
  /-- the error is a cancellation -/
  | canceled
  /-- the node does not have the block -/
  | unavailable
  | other
  deriving DecidableEq

inductive Worker (β : Type) where
  /-- about to take a height -/
  | idle
  /-- at the head of the loop with a height -/
  | check (height : ℕ)
  /-- in `fetchBlockByNum` -/
  | fetching (height : ℕ)
  /-- with an error of the fetch in hand -/
  | failed (height : ℕ) (err : FetchErr)
  /-- about to put a block into the map -/
  | deposit (height : ℕ) (newBlock : NewBlockData β)
  /-- in the loop that waits while the map is too full -/
  | held
  | exited

inductive Announcer (β : Type) where
  /-- at the head of the loop -/
  | check
  /-- about to lock and look its height up, at first or after a wakeup -/
  | lookup
  /-- holding the lock, with nothing found -/
  | missing
  /-- holding the lock, about to wait -/
  | parking
  /-- waiting, with the lock released -/
  | waiting
  /-- about to send a block -/
  | sending (ev : NewBlockData β)
  | exited

/-- Whether the announcer holds the lock between two of its actions. -/
def Announcer.locks {β : Type} : Announcer β → Bool
  | .missing | .parking => true
  | _ => false

/-- The effect of a signal. -/
def Announcer.wake {β : Type} : Announcer β → Announcer β
  | .waiting => .lookup
  | a => a

/-- What `SyncRange` and `SyncForward` return. -/
inductive Result
  | nil
  | negativeStart
  /-- the error of the context -/
  | ctxErr
  /-- "block stream closed" -/
  | streamClosed
  /-- "sequential block height mismatch" -/
  | mismatch
  | handlerErr
  deriving DecidableEq

inductive Consumer (β : Type) where
  /-- at the head of the loop -/
  | receiving
  /-- in the handler -/
  | handling (block : NewBlockData β)
  /-- returning, about to call `Close` -/
  | returning (result : Result)
  /-- in `Close`, after the signal -/
  | signalled (result : Result)
  | returned (result : Result)

/-- The state of one call and of its goroutines. -/
structure State (β : Type) where
  /-- the next height to hand out -/
  height : ℕ
  workers : List (Worker β)
  newBlocksMap : Std.ExtTreeMap ℕ (NewBlockData β)
  announcer : Announcer β
  /-- the height the announcer is at -/
  next : ℕ
  newBlocksC : List (NewBlockData β)
  /-- whether `newBlocksC` is closed -/
  streamEnd : Bool
  /-- whether `closeC` is closed -/
  closed : Bool
  /-- whether the context is done -/
  canceled : Bool
  consumer : Consumer β
  /-- the height the consumer is at, of which it has the signed word -/
  expected : ℕ
  /-- the blocks the handler was called on -/
  calls : List (NewBlockData β)
  /-- how many blocks were received -/
  received : ℕ
  /-- the heights that were given up as unavailable -/
  skipped : List ℕ

namespace State

variable {β : Type}

/-- `isDone` -/
def isDone (s : State β) : Bool := s.closed || s.canceled

/-- `jobCond.Signal()` -/
def signal (s : State β) : State β := { s with announcer := s.announcer.wake }

/-- Whether the map is too full to take another height. -/
def tooFarFromHead (s : State β) (cfg : Syncer) : Bool :=
  decide (1024 * cfg.jobs < s.newBlocksMap.size)

end State

/-! ## Workers -/

/-- What a worker does next. -/
inductive WorkerAction (β : Type) where
  /-- `getHeightToFetch` -/
  | take
  /-- the check at the head of the loop -/
  | check
  /-- `fetchBlockByNum` returns -/
  | fetched (result : Except FetchErr β)
  /-- deal with the error of the fetch -/
  | onError
  /-- put the block into the map -/
  | deposit
  /-- look at the size of the map again -/
  | recheck

section Workers

variable {β : Type} (cfg : Syncer) (s : State β)

/-- `fetchBlockByNum` returned. -/
def afterFetch (height : ℕ) : Except FetchErr β → Worker β
  | .ok block => .deposit height { height := height, block := some block }
  | .error err => .failed height err

def onFetchError (height : ℕ) (err : FetchErr) : Worker β × State β :=
  if err = .canceled ∨ s.isDone = true then (.exited, s)
  else if err = .unavailable ∧ cfg.allowGaps = true then
    (.deposit height { height := height, skipped := true },
      { s with skipped := s.skipped ++ [height] })
  else (.check height, s)

def depositBlock (height : ℕ) (newBlock : NewBlockData β) : State β :=
  { s with newBlocksMap := s.newBlocksMap.insert height newBlock }.signal

/-- Where a worker goes after it looked at the size of the map. -/
def afterSize : Worker β := if s.tooFarFromHead cfg then .held else .idle

def workerStep : Worker β → WorkerAction β → Option (Worker β × State β)
  | .idle, .take => some (.check s.height, { s with height := s.height + 1 })
  | .check h, .check => some (if s.isDone then .exited else .fetching h, s)
  | .fetching h, .fetched result => some (afterFetch h result, s)
  | .failed h err, .onError => some (onFetchError cfg s h err)
  | .deposit h newBlock, .deposit =>
    if s.announcer.locks then none
    else some (afterSize cfg (depositBlock s h newBlock), depositBlock s h newBlock)
  | .held, .recheck => if s.announcer.locks then none else some (afterSize cfg s, s)
  | _, _ => none

end Workers

/-! ## The announcer -/

/-- What the announcer does next. -/
inductive AnnouncerAction
  /-- the check at the head of the loop -/
  | check
  /-- lock and look the height up -/
  | lookup
  /-- the check under the lock -/
  | onMissing
  /-- `jobCond.Wait()` -/
  | park
  /-- send the block -/
  | send
  deriving DecidableEq

section Announcer

variable {β : Type} (cfg : Syncer) (s : State β)

/-- The capacity of the channel. -/
def Syncer.channelCap : ℕ := cfg.jobs * 100

/-- Close the channel and return. -/
def State.endStream : State β := { s with announcer := .exited, streamEnd := true }

/-- Look the height of the announcer up, and take its block out of the map. -/
def State.lookupNext : State β :=
  match s.newBlocksMap[s.next]? with
  | some ev => { s with newBlocksMap := s.newBlocksMap.erase s.next, announcer := .sending ev }
  | none => { s with announcer := .missing }

def announcerStep : Announcer β → AnnouncerAction → Option (State β)
  | .check, .check => some (if s.isDone then s.endStream else { s with announcer := .lookup })
  | .lookup, .lookup => some s.lookupNext
  | .missing, .onMissing => some (if s.isDone then s.endStream else { s with announcer := .parking })
  | .parking, .park => some { s with announcer := .waiting }
  | .sending ev, .send =>
    if s.newBlocksC.length < cfg.channelCap then
      some { s with newBlocksC := s.newBlocksC ++ [ev], next := s.next + 1, announcer := .check }
    else none
  | _, _ => none

end Announcer

/-! ## The consumer -/

/-- What the consumer does next. -/
inductive ConsumerAction
  /-- receive a block -/
  | receive
  /-- find the channel closed and empty -/
  | streamClosed
  /-- find the context done -/
  | ctxDone
  /-- leave the loop after the last height -/
  | finish
  /-- the handler returns, with or without an error -/
  | handled (ok : Bool)
  /-- the signal of `Close` -/
  | signal
  /-- `close(closeC)` -/
  | close
  deriving DecidableEq

section Consumer

variable {β : Type} (s : State β)

/-- Whether the loop of the consumer goes on: `expected <= end`, on signed words. -/
def State.inRange (stop : Option ℤ) : Bool :=
  match stop with
  | some last => decide (wrap64 s.expected ≤ last)
  | none => true

/-- A block was received: check its height and call the handler, unless it is skipped. -/
def State.receiveBlock (block : NewBlockData β) (rest : List (NewBlockData β)) : State β :=
  if block.height ≠ s.expected then
    { s with newBlocksC := rest, received := s.received + 1, consumer := .returning .mismatch }
  else if block.skipped then
    { s with newBlocksC := rest, received := s.received + 1, expected := s.expected + 1 }
  else
    { s with newBlocksC := rest, received := s.received + 1, consumer := .handling block,
             calls := s.calls ++ [block] }

def consumerStep (stop : Option ℤ) : Consumer β → ConsumerAction → Option (State β)
  | .receiving, .receive =>
    match s.newBlocksC with
    | block :: rest => if s.inRange stop then some (s.receiveBlock block rest) else none
    | [] => none
  | .receiving, .streamClosed =>
    if s.inRange stop && s.newBlocksC.isEmpty && s.streamEnd then
      some { s with consumer := .returning .streamClosed }
    else none
  | .receiving, .ctxDone =>
    if s.inRange stop && s.canceled then some { s with consumer := .returning .ctxErr } else none
  | .receiving, .finish =>
    if s.inRange stop then none else some { s with consumer := .returning .nil }
  | .handling _, .handled ok =>
    if ok then some { s with expected := s.expected + 1, consumer := .receiving }
    else some { s with consumer := .returning .handlerErr }
  | .returning result, .signal => some { s.signal with consumer := .signalled result }
  | .signalled result, .close => some { s with closed := true, consumer := .returned result }
  | _, _ => none

end Consumer

/-! ## The system -/

/-- An action of one of the goroutines, or the cancellation of the context. -/
inductive Action (β : Type) where
  | worker (w : ℕ) (a : WorkerAction β)
  | announcer (a : AnnouncerAction)
  | consumer (a : ConsumerAction)
  | cancel

/-- The parties a scheduler can favour.  The fetch of a worker is a party of its own. -/
inductive Proc
  | worker (w : ℕ)
  | fetch (w : ℕ)
  | announcer
  | consumer
  | environment
  deriving DecidableEq

/-- The party that performs an action. -/
def Action.owner {β : Type} : Action β → Proc
  | .worker w (.fetched _) => .fetch w
  | .worker w _ => .worker w
  | .announcer _ => .announcer
  | .consumer _ => .consumer
  | .cancel => .environment

section System

variable {β : Type} (cfg : Syncer) (stop : Option ℤ)

/-- One action of the system. -/
def step (s : State β) : Action β → Option (State β)
  | .worker w a =>
    match s.workers[w]? with
    | none => none
    | some worker =>
      (workerStep cfg s worker a).map fun r => { r.2 with workers := s.workers.set w r.1 }
  | .announcer a => announcerStep cfg s s.announcer a
  | .consumer a => consumerStep s stop s.consumer a
  | .cancel => some { s with canceled := true }

def earlyReturn (start : ℤ) : Option Result :=
  if start < 0 then some .negativeStart
  else
    match stop with
    | some last => if last < start then some .nil else none
    | none => none

def State.init (start : ℤ) : State β where
  height := start.toNat
  workers := if (earlyReturn stop start).isSome then [] else .replicate cfg.jobs .idle
  newBlocksMap := ∅
  announcer := if (earlyReturn stop start).isSome then .exited else .check
  next := start.toNat
  newBlocksC := []
  streamEnd := false
  closed := false
  canceled := false
  consumer := ((earlyReturn stop start).map .returned).getD .receiving
  expected := start.toNat
  calls := []
  received := 0
  skipped := []

/-- The states of `SyncRange`, with `stop` the last height, and of `SyncForward`, without. -/
def SyncReaches (start : ℤ) (s : State β) : Prop :=
  Reachable (step cfg stop) (State.init cfg stop start) s

end System

end EvmGateway.Blocksync
