import EvmGateway.Backend.FeeHistory

/-!
# The row of a block in a fee history

The row of a block has the prices its transactions pay above the base fee.  To find them, each
transaction's result is read at its place, the first coin of its fee is looked up, and the fee is
divided by the gas limit.  None of this is checked, so one transaction without a fee, with a coin
of an invalid name or with a zero gas limit costs the whole row.

## Main statements

* `txReward_ok_iff` — when the price of a transaction can be computed.
* `mem_blockRewards` — the rewards of the percentiles are among those of the transactions.
* `fee_row_iff` — a row is computed exactly when every transaction has a result and a price.
-/

namespace EvmGateway

open Lib

/-! ## Transactions -/

section Transactions

variable {E : Env} {blockBaseFee : ℤ} {tx : FeeTx}

def FeeTx.feeIn (tx : FeeTx) (coin : Coin) : ℤ :=
  ((findCoin coin.denom (tx.fee.length + 1) tx.fee).map (·.amount)).getD 0

/-- The price of the transaction can be computed: its fee has a first coin with a valid name, its
gas limit is not zero, and the numbers have no more than 256 bits. -/
def FeeTx.Priced (E : Env) (blockBaseFee : ℤ) (tx : FeeTx) : Prop :=
  ∃ coin, tx.fee.head? = some coin ∧ E.validateDenom coin.denom = true ∧ tx.gas ≠ 0 ∧
    FitsInt blockBaseFee ∧ FitsInt ((tx.feeIn coin).tdiv tx.gas.toNat - blockBaseFee)

theorem txReward_of_fee {coin : Coin} {rest : List Coin} (hfee : tx.fee = coin :: rest) :
    txReward E blockBaseFee tx = (do
      let fee ← amountOf E tx.fee coin.denom
      if tx.gas = 0 then .error (.panic "Division by zero")
      else if ¬ FitsInt blockBaseFee then .error (.panic "NewIntFromBigInt() out of bound")
      else if ¬ FitsInt (fee.tdiv tx.gas.toNat - blockBaseFee) then
        .error (.panic "integer overflow")
      else .ok (max 0 (fee.tdiv tx.gas.toNat - blockBaseFee))) := by
  simp only [txReward, hfee]

theorem txReward_ok_iff :
    (∃ r, txReward E blockBaseFee tx = .ok r) ↔ tx.Priced E blockBaseFee := by
  cases hfee : tx.fee with
  | nil => simp [txReward, FeeTx.Priced, hfee]
  | cons coin rest =>
    have hhead : ∀ c, tx.fee.head? = some c ↔ coin = c := by simp [hfee]
    simp only [FeeTx.Priced, hhead, exists_eq_left']
    rw [txReward_of_fee hfee, amountOf]
    by_cases hdenom : E.validateDenom coin.denom = true
    · rw [if_pos hdenom, ok_bind, ← FeeTx.feeIn]
      by_cases hgas : tx.gas = 0
      · simp [hgas]
      · by_cases hbase : FitsInt blockBaseFee
        · by_cases hprice : FitsInt ((tx.feeIn coin).tdiv tx.gas.toNat - blockBaseFee) <;>
            simp [hdenom, hgas, hbase, hprice]
        · simp [hgas, hbase]
    · rw [if_neg hdenom, error_bind]
      simp [hdenom]

theorem txReward_nonneg {r : ℤ} (h : txReward E blockBaseFee tx = .ok r) : 0 ≤ r := by
  cases hfee : tx.fee with
  | nil => simp [txReward, hfee] at h
  | cons coin rest =>
    rw [txReward_of_fee hfee] at h
    obtain ⟨fee, -, h⟩ := bind_eq_ok.1 h
    split_ifs at h
    rw [← Except.ok.inj h]
    exact le_max_left 0 _

def Env.feeTxOf (E : Env) (rawTx : Bytes) : Option FeeTx :=
  match E.txDecoder rawTx with
  | .ok tx => tx.feeTx
  | .error _ => none

variable {results : BlockResults} {i : ℕ} {rawTx : Bytes} {sorter sorter' : List TxGasAndReward}

theorem gatherReward_of_feeTx (htx : E.feeTxOf rawTx = some tx) :
    gatherReward E blockBaseFee results i rawTx sorter = .ok sorter' ↔
      ∃ result reward, results.txResults[i]? = some (some result) ∧
        txReward E blockBaseFee tx = .ok reward ∧
          sorter' = sorter ++ [⟨result.gasUsed.toUInt64, reward⟩] := by
  have hdecoded : ∃ sdkTx, E.txDecoder rawTx = .ok sdkTx ∧ sdkTx.feeTx = some tx := by
    rw [Env.feeTxOf] at htx
    split at htx
    · exact ⟨_, ‹_›, htx⟩
    · cases htx
  obtain ⟨sdkTx, hdecode, hfee⟩ := hdecoded
  cases hresult : results.txResults[i]? with
  | none => simp [gatherReward, hresult]
  | some result =>
    cases result with
    | none => simp [gatherReward, hresult, hdecode, hfee]
    | some result =>
      simp only [gatherReward, hresult, hdecode, hfee, bind_eq_ok, pure_eq_ok, Except.ok.injEq]
      constructor
      · rintro ⟨reward, hreward, rfl⟩
        exact ⟨result, reward, rfl, hreward, rfl⟩
      · rintro ⟨result', reward, hresult', hreward, rfl⟩
        cases hresult'
        exact ⟨reward, hreward, rfl⟩

end Transactions

/-! ## Percentiles -/

theorem advanceReward_mem (threshold sumGasUsed : UInt64) (current : TxGasAndReward)
    (rest : List TxGasAndReward) :
    (advanceReward threshold sumGasUsed current rest).2.1 ::
        (advanceReward threshold sumGasUsed current rest).2.2 ⊆ current :: rest := by
  induction rest generalizing sumGasUsed current with
  | nil => simp [advanceReward]
  | cons next rest ih =>
    rw [advanceReward]
    split_ifs
    · exact List.Subset.trans (ih _ next) (List.subset_cons_self _ _)
    · exact List.Subset.refl _

theorem percentileRewards_mem {E : Env} {blockGasUsed sumGasUsed : UInt64}
    {current : TxGasAndReward} {rest : List TxGasAndReward} {ps : List ℚ} {r : ℤ}
    (hr : r ∈ percentileRewards E blockGasUsed sumGasUsed current rest ps) :
    ∃ g ∈ current :: rest, r = g.reward := by
  induction ps generalizing sumGasUsed current rest with
  | nil => simp [percentileRewards] at hr
  | cons p ps ih =>
    have hsub := advanceReward_mem (E.gasThreshold blockGasUsed p) sumGasUsed current rest
    rw [percentileRewards] at hr
    rcases List.mem_cons.1 hr with rfl | hr
    · exact ⟨_, hsub List.mem_cons_self, rfl⟩
    · obtain ⟨g, hg, rfl⟩ := ih hr
      exact ⟨g, hsub hg, rfl⟩

theorem length_percentileRewards (E : Env) (blockGasUsed sumGasUsed : UInt64)
    (current : TxGasAndReward) (rest : List TxGasAndReward) (ps : List ℚ) :
    (percentileRewards E blockGasUsed sumGasUsed current rest ps).length = ps.length := by
  induction ps generalizing sumGasUsed current rest with
  | nil => rfl
  | cons p ps ih => simp [percentileRewards, ih]

theorem length_blockRewards (E : Env) (blockGasUsed : UInt64) (sorter : List TxGasAndReward)
    (ps : List ℚ) : (blockRewards E blockGasUsed sorter ps).length = ps.length := by
  rw [blockRewards]
  split
  · simp
  · exact length_percentileRewards ..

/-- The rewards of the percentiles are among those of the transactions, or zero. -/
theorem mem_blockRewards {E : Env} {blockGasUsed : UInt64} {sorter : List TxGasAndReward}
    {ps : List ℚ} {r : ℤ} (hr : r ∈ blockRewards E blockGasUsed sorter ps) :
    (∃ g ∈ sorter, r = g.reward) ∨ sorter = [] ∧ r = 0 := by
  have hperm := List.perm_insertionSort (fun a b : TxGasAndReward => a.reward ≤ b.reward) sorter
  rw [blockRewards] at hr
  split at hr
  case h_1 hnil =>
    rw [hnil] at hperm
    obtain ⟨p, -, rfl⟩ := List.mem_map.1 hr
    exact .inr ⟨hperm.nil_eq.symm, rfl⟩
  case h_2 first rest hcons =>
    rw [hcons] at hperm
    obtain ⟨g, hg, rfl⟩ := percentileRewards_mem hr
    exact .inl ⟨g, hperm.mem_iff.1 hg, rfl⟩

/-! ## Blocks -/

/-- What a row should have: a reward for each percentile, which is the nonnegative reward of one of
the transactions, or zero if there are none. -/
def RewardsOf (E : Env) (blockBaseFee : ℤ) (txs : List Bytes) (ps : List ℚ)
    (reward : List ℤ) : Prop :=
  reward.length = ps.length ∧ ∀ r ∈ reward, 0 ≤ r ∧
    ((∃ rawTx ∈ txs, ∃ tx, E.feeTxOf rawTx = some tx ∧ txReward E blockBaseFee tx = .ok r) ∨
      txs = [] ∧ r = 0)

section Blocks

variable {E : Env} {b : Backend} {block : Block} {ethBlock : RPCBlock} {ps : List ℚ}
  {results : BlockResults} {blockBaseFee : ℤ} {sorter : List TxGasAndReward}

theorem gathered_rewards {txs : List Bytes} (hfee : ∀ rawTx ∈ txs, ∃ tx, E.feeTxOf rawTx = some tx)
    (h : forIdx (gatherReward E blockBaseFee results) 0 txs [] = .ok sorter) :
    sorter.length = txs.length ∧ ∀ g ∈ sorter, ∃ rawTx ∈ txs, ∃ tx,
      E.feeTxOf rawTx = some tx ∧ txReward E blockBaseFee tx = .ok g.reward := by
  have hinv := forIdx_induction
    (fun i sorter => sorter.length = i ∧ ∀ g ∈ sorter, ∃ rawTx ∈ txs, ∃ tx,
      E.feeTxOf rawTx = some tx ∧ txReward E blockBaseFee tx = .ok g.reward)
    txs 0 [] sorter ⟨rfl, by simp⟩ ?_ h
  · simpa using hinv
  · rintro i rawTx before after hraw ⟨hlength, hall⟩ hstep
    have hmem : rawTx ∈ txs := List.mem_of_getElem? hraw
    obtain ⟨tx, htx⟩ := hfee rawTx hmem
    obtain ⟨result, reward, -, hreward, rfl⟩ := (gatherReward_of_feeTx htx).1 hstep
    refine ⟨by simp [hlength], ?_⟩
    intro g hg
    rcases List.mem_append.1 hg with hg | hg
    · exact hall g hg
    · obtain rfl := List.mem_singleton.1 hg
      exact ⟨rawTx, hmem, tx, htx, hreward⟩

theorem gather_ok_iff (hlen : results.txResults.length = block.txs.length)
    (hfee : ∀ rawTx ∈ block.txs, ∃ tx, E.feeTxOf rawTx = some tx) :
    (∃ sorter, forIdx (gatherReward E blockBaseFee results) 0 block.txs [] = .ok sorter) ↔
      none ∉ results.txResults ∧
        ∀ rawTx ∈ block.txs, ∀ tx ∈ E.feeTxOf rawTx, tx.Priced E blockBaseFee := by
  constructor
  · rintro ⟨sorter, h⟩
    constructor
    · intro hnone
      obtain ⟨i, hi⟩ := List.mem_iff_getElem?.1 hnone
      have hlt : i < block.txs.length := hlen ▸ (List.getElem?_eq_some_iff.1 hi).1
      have hraw := List.getElem?_eq_getElem hlt
      obtain ⟨tx, htx⟩ := hfee _ (List.getElem_mem hlt)
      obtain ⟨before, after, hstep⟩ := forIdx_passes h hraw
      obtain ⟨result, -, hresult, -⟩ := (gatherReward_of_feeTx htx).1 hstep
      rw [Nat.zero_add, hi] at hresult
      cases hresult
    · intro rawTx hmem tx htx
      obtain ⟨i, hraw⟩ := List.mem_iff_getElem?.1 hmem
      obtain ⟨before, after, hstep⟩ := forIdx_passes h hraw
      obtain ⟨-, reward, -, hreward, -⟩ := (gatherReward_of_feeTx htx).1 hstep
      exact txReward_ok_iff.1 ⟨reward, hreward⟩
  · rintro ⟨hresults, hpriced⟩
    apply forIdx_ok
    intro i rawTx sorter hraw
    have hlt : i < results.txResults.length := hlen ▸ (List.getElem?_eq_some_iff.1 hraw).1
    obtain ⟨result, hresult⟩ : ∃ result, results.txResults[i]? = some (some result) := by
      cases hi : results.txResults[i] with
      | none => exact absurd (hi ▸ List.getElem_mem hlt) hresults
      | some result => exact ⟨result, by rw [List.getElem?_eq_getElem hlt, hi]⟩
    obtain ⟨tx, htx⟩ := hfee rawTx (List.mem_of_getElem? hraw)
    obtain ⟨reward, hreward⟩ := txReward_ok_iff.2 (hpriced rawTx (List.mem_of_getElem? hraw) tx htx)
    exact ⟨_, (gatherReward_of_feeTx htx).2
      ⟨result, reward, by rw [Nat.zero_add, hresult], hreward, rfl⟩⟩

end Blocks

/-- The row of a block of transactions with fees is computed, with the rewards of its transactions,
exactly when no result is missing and every transaction has a price. -/
theorem fee_row_iff (E : Env) (b : Backend) (block : Block) (ethBlock : RPCBlock) (ps : List ℚ)
    (results : BlockResults) (hlen : results.txResults.length = block.txs.length)
    (hfee : ∀ rawTx ∈ block.txs, ∃ tx, E.feeTxOf rawTx = some tx)
    (hgas : 0 < ethBlock.gasLimit) :
    (∃ row, b.processBlock E block ethBlock ps results = .ok row ∧
        RewardsOf E ((b.baseFeeOrNil E results).getD 0) block.txs ps row.reward) ↔
      none ∉ results.txResults ∧ ∀ rawTx ∈ block.txs, ∀ tx ∈ E.feeTxOf rawTx,
        tx.Priced E ((b.baseFeeOrNil E results).getD 0) := by
  have hpos : ethBlock.gasLimit ≠ 0 := fun h => absurd hgas (by simp [h])
  rw [← gather_ok_iff hlen hfee]
  simp only [Backend.processBlock, if_neg hpos, bind_eq_ok, pure_eq_ok, Except.ok.injEq]
  constructor
  · rintro ⟨row, ⟨sorter, hsorter, -⟩, -⟩
    exact ⟨sorter, hsorter⟩
  · rintro ⟨sorter, hsorter⟩
    obtain ⟨hlength, hall⟩ := gathered_rewards hfee hsorter
    refine ⟨_, ⟨sorter, hsorter, rfl⟩, length_blockRewards .., ?_⟩
    intro r hr
    rcases mem_blockRewards hr with ⟨g, hg, rfl⟩ | ⟨hnil, rfl⟩
    · obtain ⟨rawTx, hmem, tx, htx, hreward⟩ := hall g hg
      exact ⟨txReward_nonneg hreward, .inl ⟨rawTx, hmem, tx, htx, hreward⟩⟩
    · refine ⟨le_rfl, .inr ⟨?_, rfl⟩⟩
      rw [hnil] at hlength
      exact List.eq_nil_of_length_eq_zero hlength.symm

/-! ## A small block -/

/-- The transaction `[0]` pays no fee, `[1]` pays for no gas, others pay two coins for each unit. -/
def sampleFeeTx (rawTx : Bytes) : FeeTx :=
  if rawTx = [0] then { fee := [], gas := 21000 }
  else if rawTx = [1] then { fee := [⟨"inj", 42000⟩], gas := 0 }
  else { fee := [⟨"inj", 42000⟩], gas := 21000 }

def Env.feeSample : Env :=
  { Env.sample with
    txDecoder := fun rawTx =>
      .ok { msgs := [], extensionOptions := none, feeTx := some (sampleFeeTx rawTx) } }

def feeSampleBlock (rawTx : Bytes) : Block where
  height := 1
  hash := []
  txs := [rawTx]

def feeSampleResults : BlockResults where
  height := 1
  txResults := [some { gasUsed := 21000 }]

/-- The block as it is answered. -/
def feeSampleRPCBlock : RPCBlock where
  number := 1
  hash := []
  parentHash := 0
  logsBloom := []
  stateRoot := []
  miner := 0
  size := 0
  gasLimit := 100000
  gasUsed := 21000
  timestamp := 0
  transactionsRoot := 0
  transactions := []
  baseFeePerGas := none

theorem fee_row_iff_sample :
    ∃ row, (Backend.sample none none).processBlock Env.feeSample (feeSampleBlock [2])
        feeSampleRPCBlock [50] feeSampleResults = .ok row ∧
      RewardsOf Env.feeSample
        (((Backend.sample none none).baseFeeOrNil Env.feeSample feeSampleResults).getD 0)
        [[2]] [50] row.reward := by
  refine (fee_row_iff Env.feeSample (Backend.sample none none) (feeSampleBlock [2])
    feeSampleRPCBlock [50] feeSampleResults rfl (fun rawTx _ => ⟨_, rfl⟩) (by decide)).2
    ⟨by decide, ?_⟩
  intro rawTx hraw tx htx
  obtain rfl : rawTx = [2] := by simpa [feeSampleBlock] using hraw
  obtain rfl : sampleFeeTx [2] = tx := by simpa [Env.feeTxOf, Env.feeSample] using htx
  exact ⟨⟨"inj", 42000⟩, by decide +kernel, by decide +kernel, by decide +kernel, by decide +kernel,
    by decide +kernel⟩

/-- A transaction without a fee, or with a zero gas limit, ends the computation of the row in a
panic. -/
theorem fee_row_panics :
    (Backend.sample none none).processBlock Env.feeSample (feeSampleBlock [0])
        feeSampleRPCBlock [50] feeSampleResults =
      .error (.panic "runtime error: index out of range [0] with length 0") ∧
    (Backend.sample none none).processBlock Env.feeSample (feeSampleBlock [1])
        feeSampleRPCBlock [50] feeSampleResults = .error (.panic "Division by zero") := by
  decide +kernel

end EvmGateway
