import EvmGateway.Backend.Blocks
import EvmGateway.Lib.Int64

/-!
# Fee history

`eth_feeHistory` answers with one row for each block of a window that ends at a requested block.
The window is computed in `int64` from an unsigned count; its blocks are fetched in batches of
four, each block by a goroutine that writes its row at its own index.

The goroutines of a batch and how they end are left to `FeeFetchers`; here are the window, the
indexes and block numbers the goroutines are started with, what one of them does, and where it
writes its row.

## Main definitions

* `feeWindow` — the window of a request.
* `FeeWindow.batch`, `FeeWindow.Batches` — the goroutines of one batch, and of all batches.
* `processBlock` — the row of a block.
* `feeFetcher` — how the goroutine of a block ends.
* `FeeSlices.put` — where it writes its row.
-/

namespace EvmGateway

open Lib

/-! ## The window -/

/-- Check that percentiles are in range and ascending, behind the one before. -/
def checkPercentilesFrom (E : Env) : ℕ → Option ℚ → List ℚ → Except Err Unit
  | _, _, [] => .ok ()
  | i, previous, p :: ps =>
    if p < 0 ∨ 100 < p then .error (.plain (E.formatFloat p ++ ": invalid reward percentile"))
    else
      match previous with
      | none => checkPercentilesFrom E (i + 1) (some p) ps
      | some q =>
        if p ≤ q then
          .error (.plain ("#" ++ toString (i - 1) ++ ":" ++ E.formatFloat q ++ " > #" ++ toString i ++
            ":" ++ E.formatFloat p ++ ": invalid reward percentile"))
        else checkPercentilesFrom E (i + 1) (some p) ps

def checkPercentiles (E : Env) (rewardPercentiles : List ℚ) : Except Err Unit :=
  if 100 < rewardPercentiles.length then
    .error (.plain "exceed max length: invalid reward percentile")
  else checkPercentilesFrom E 0 none rewardPercentiles

/-- The window of a request: how many blocks, and from where to where. -/
structure FeeWindow where
  blocks : ℤ
  blockStart : ℤ
  blockEnd : ℤ
  deriving DecidableEq

def feeBlockEnd (head lastBlock : ℤ) : Except Err ℤ :=
  if lastBlock < 0 then .ok head
  else if head < lastBlock then
    .error (.plain s!"requested {lastBlock}, head {head}: request beyond head block")
  else .ok lastBlock

/-- Cut the count at the genesis, and allocate the rows. -/
def cutFeeWindow (blocks blockEnd : ℤ) : Except Err FeeWindow :=
  let blocks :=
    if blockEnd < maxInt64 ∧ wrap64 (blockEnd + 1) < blocks then wrap64 (blockEnd + 1) else blocks
  if blocks < 0 then .error (.panic "runtime error: makeslice: len out of range")
  else .ok ⟨blocks, wrap64 (wrap64 (blockEnd + 1) - blocks), blockEnd⟩

def Backend.feeWindow (E : Env) (b : Backend) (userBlockCount : UInt64) (lastBlock : ℤ)
    (rewardPercentiles : List ℚ) : Except Err FeeWindow := do
  checkPercentiles E rewardPercentiles
  let blockNumber ← b.blockNumber
  let blockEnd ← feeBlockEnd (wrap64 blockNumber) lastBlock
  let blocks := wrap64 userBlockCount.toNat
  if blocks > b.feeHistoryCap then
    .error (.plain ("FeeHistory user block count " ++ toString blocks ++ " higher than " ++
      toString b.feeHistoryCap))
  else cutFeeWindow blocks blockEnd

/-! ## The goroutines -/

/-- What a goroutine is started with: the index of its row, and its block number. -/
structure Fetcher where
  index : ℤ
  blockNum : ℤ
  deriving DecidableEq

/-- How many goroutines a batch has. -/
def maxBlockFetchers : ℕ := 4

/-- The signed 32-bit integer with the same low bits. -/
def wrap32 (x : ℤ) : ℤ := x.bmod (2 ^ 32)

namespace FeeWindow

/-- The goroutine at a place of a batch. -/
def fetcher (w : FeeWindow) (blockID : ℤ) (i : ℕ) : Fetcher :=
  let index := wrap32 (wrap64 (wrap64 (blockID - w.blockStart) + i))
  ⟨index, wrap64 (w.blockStart + index)⟩

def batch (w : FeeWindow) (blockID : ℤ) : List Fetcher :=
  ((List.range maxBlockFetchers).takeWhile fun i : ℕ =>
    decide (wrap64 (blockID + i) < wrap64 (w.blockEnd + 1))).map (w.fetcher blockID)

inductive Batches (w : FeeWindow) : ℤ → List (List Fetcher) → Prop
  | done {blockID : ℤ} (h : w.blockEnd < blockID) : Batches w blockID []
  | more {blockID : ℤ} {bs : List (List Fetcher)} (h : blockID ≤ w.blockEnd)
      (hrest : Batches w (wrap64 (blockID + maxBlockFetchers)) bs) :
      Batches w blockID (w.batch blockID :: bs)

/-- The blocks the loop comes to. -/
inductive Visits (w : FeeWindow) : ℤ → Prop
  | start : Visits w w.blockStart
  | next {blockID : ℤ} (h : Visits w blockID) (hle : blockID ≤ w.blockEnd) :
      Visits w (wrap64 (blockID + maxBlockFetchers))

end FeeWindow

/-! ## The row of a block -/

/-- The row of a block. -/
structure OneFeeHistory where
  baseFee : ℤ
  nextBaseFee : ℤ
  reward : List ℤ
  gasUsedRatio : ℚ
  deriving DecidableEq

structure TxGasAndReward where
  gasUsed : UInt64
  reward : ℤ
  deriving DecidableEq

/-- The coin with a name, by bisection. -/
def findCoin (denom : String) : (fuel : ℕ) → List Coin → Option Coin
  | 0, _ => none
  | _ + 1, [] => none
  | _ + 1, [coin] => if coin.denom = denom then some coin else none
  | fuel + 1, coins =>
    match coins[coins.length / 2]? with
    | none => none
    | some coin =>
      if denom < coin.denom then findCoin denom fuel (coins.take (coins.length / 2))
      else if denom = coin.denom then some coin
      else findCoin denom fuel (coins.drop (coins.length / 2 + 1))

/-- How much of a coin there is. -/
def amountOf (E : Env) (coins : List Coin) (denom : String) : Except Err ℤ :=
  if E.validateDenom denom then .ok (((findCoin denom (coins.length + 1) coins).map (·.amount)).getD
    0)
  else .error (.panic ("invalid denom: " ++ denom))

/-- The integer has at most 256 bits. -/
def FitsInt (x : ℤ) : Prop := x.natAbs < 2 ^ 256

instance (x : ℤ) : Decidable (FitsInt x) := inferInstanceAs (Decidable (_ < _))

/-- The price a transaction pays above the base fee. -/
def txReward (E : Env) (blockBaseFee : ℤ) (tx : FeeTx) : Except Err ℤ := do
  match tx.fee with
  | [] => .error (.panic "runtime error: index out of range [0] with length 0")
  | coin :: _ =>
    let fee ← amountOf E tx.fee coin.denom
    if tx.gas = 0 then .error (.panic "Division by zero")
    else if ¬ FitsInt blockBaseFee then .error (.panic "NewIntFromBigInt() out of bound")
    else if ¬ FitsInt (fee.tdiv tx.gas.toNat - blockBaseFee) then
      .error (.panic "integer overflow")
    else .ok (max 0 (fee.tdiv tx.gas.toNat - blockBaseFee))

def gatherReward (E : Env) (blockBaseFee : ℤ) (results : BlockResults) (i : ℕ) (rawTx : Bytes)
    (sorter : List TxGasAndReward) : Except Err (List TxGasAndReward) :=
  match results.txResults[i]? with
  | none => .error (.panic "runtime error: index out of range")
  | some result =>
    match E.txDecoder rawTx with
    | .error _ => .ok sorter
    | .ok tx =>
      match tx.feeTx with
      | none => .ok sorter
      | some feeTx =>
        match result with
        | none => .error (.panic "invalid memory address or nil pointer dereference")
        | some result => do
          let reward ← txReward E blockBaseFee feeTx
          return sorter ++ [⟨result.gasUsed.toUInt64, reward⟩]

/-- Go on to the transaction at which the gas reaches a threshold, or to the last one. -/
def advanceReward (threshold : UInt64) :
    UInt64 → TxGasAndReward → List TxGasAndReward → UInt64 × TxGasAndReward × List TxGasAndReward
  | sumGasUsed, current, [] => (sumGasUsed, current, [])
  | sumGasUsed, current, next :: rest =>
    if sumGasUsed < threshold then advanceReward threshold (sumGasUsed + next.gasUsed) next rest
    else (sumGasUsed, current, next :: rest)

def percentileRewards (E : Env) (blockGasUsed : UInt64) :
    UInt64 → TxGasAndReward → List TxGasAndReward → List ℚ → List ℤ
  | _, _, _, [] => []
  | sumGasUsed, current, rest, p :: ps =>
    match advanceReward (E.gasThreshold blockGasUsed p) sumGasUsed current rest with
    | (sumGasUsed, current, rest) =>
      current.reward :: percentileRewards E blockGasUsed sumGasUsed current rest ps

/-- The rewards of a block: those of its transactions in ascending order, at the percentiles of its
gas; all zero without transactions. -/
def blockRewards (E : Env) (blockGasUsed : UInt64) (sorter : List TxGasAndReward)
    (rewardPercentiles : List ℚ) : List ℤ :=
  match sorter.insertionSort (·.reward ≤ ·.reward) with
  | [] => rewardPercentiles.map fun _ => 0
  | first :: rest => percentileRewards E blockGasUsed first.gasUsed first rest rewardPercentiles

/-- The row of a block. -/
def Backend.processBlock (E : Env) (b : Backend) (block : Block) (ethBlock : RPCBlock)
    (rewardPercentiles : List ℚ) (results : BlockResults) : Except Err OneFeeHistory := do
  let blockBaseFee := (b.baseFeeOrNil E results).getD 0
  if ethBlock.gasLimit = 0 then
    .error (.plain ("gasLimit of block height " ++ toString block.height ++
      " should be bigger than 0 , current gaslimit 0"))
  else
    let sorter ← forIdx (gatherReward E blockBaseFee results) 0 block.txs []
    return {
      baseFee := blockBaseFee
      nextBaseFee := blockBaseFee
      reward := blockRewards E ethBlock.gasUsed sorter rewardPercentiles
      gasUsedRatio := E.gasUsedRatio ethBlock.gasUsed ethBlock.gasLimit }

/-! ## The goroutine of a block -/

/-- How a goroutine ends: with a row, or with what it reports.  The report may be no error. -/
inductive FetchOutcome where
  | success (row : OneFeeHistory)
  | failure (report : Option Err)
  | panicked (message : String)
  deriving DecidableEq

/-- The error of a call that also returns nothing. -/
def reportOf {α : Type} (x : Except Err α) : FetchOutcome :=
  match x with
  | .ok _ => .failure none
  | .error e => if e.kind = .panic then .panicked e.message else .failure (some e)

/-- What the goroutine of a block does.  A block the node does not have is reported without an
error. -/
def Backend.feeFetcher (E : Env) (b : Backend) (rewardPercentiles : List ℚ) (blockNum : ℤ) :
    FetchOutcome :=
  match b.tendermintBlockByNumber blockNum with
  | .ok (some block) =>
    match b.getBlockByNumber E blockNum true with
    | .ok (some ethBlock) =>
      match b.tendermintBlockResultByNumber block.height with
      | .ok (some results) =>
        match b.processBlock E block ethBlock rewardPercentiles results with
        | .ok row => .success row
        | .error e => if e.kind = .panic then .panicked e.message else .failure (some e)
      -- the missing error is read for the log
      | .ok none => .panicked "invalid memory address or nil pointer dereference"
      | .error e => reportOf (.error e : Except Err Unit)
    | x => reportOf x
  | x => reportOf x

/-! ## The rows of the answer -/

/-- The rows of the answer, as they are filled. -/
structure FeeSlices where
  reward : List (List (Option ℤ))
  baseFee : List (Option ℤ)
  gasUsedRatio : List ℚ
  deriving DecidableEq

/-- Empty rows. -/
def FeeSlices.make (blocks : ℕ) (rewardCount : ℕ) : FeeSlices where
  reward := List.replicate blocks (List.replicate rewardCount none)
  baseFee := List.replicate (blocks + 1) none
  gasUsedRatio := List.replicate blocks 0

def FeeSlices.put (s : FeeSlices) (index : ℕ) (row : OneFeeHistory) : FeeSlices where
  reward := s.reward.set index (row.reward.map some)
  baseFee :=
    let fees := s.baseFee.set index (some row.baseFee)
    if index + 2 = s.baseFee.length then fees.set (index + 1) (some row.nextBaseFee) else fees
  gasUsedRatio := s.gasUsedRatio.set index row.gasUsedRatio

/-- The rows when goroutines have written the row of the height they fetched, in some order. -/
def FeeWindow.filled (w : FeeWindow) (rewardCount : ℕ) (rows : ℤ → OneFeeHistory)
    (fetchers : List Fetcher) : FeeSlices :=
  fetchers.foldl (fun s f => s.put f.index.toNat (rows (blockNumberInt64 f.blockNum)))
    (.make w.blocks.toNat rewardCount)

end EvmGateway
