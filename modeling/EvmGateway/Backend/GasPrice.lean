import EvmGateway.Backend.Headers

/-!
# Gas prices and tips

A suggested tip is to cover the largest rise of the base fee from one block to the next, which is
the base fee times `1 / targetBlockSpacePercentRate - 1` times `maxBlockChangeRate`.  The code
computes it on the integers the two rates are stored as: the quotient of one and such an integer
is zero, or the integer is one and the quotient less one is zero, so no tip is ever above zero.

* `suggestGasTipCap` — the tip; `suggestGasTipCap_eq` says what it is.
* `documentedTip` — the number it stands for; `tip_exact_iff` compares the two.
* `gasPrice`, `maxPriorityFeePerGas` — the requests that use it.
-/

namespace EvmGateway

open Lib

variable {baseFee : ℤ} {params : TxFeesParams}

/-! ## Numbers with eighteen decimals -/

namespace LegacyDec

/-- One, as it is stored. -/
def one : ℤ := 10 ^ 18

/-- The number a decimal stands for. -/
def value (d : LegacyDec) : ℚ := d.bigInt / one

/-- The integer part. -/
def truncateInt (d : LegacyDec) : ℤ := d.bigInt.tdiv one

theorem one_pos : 0 < one := by decide

end LegacyDec

/-! ## The requests -/

/-- The price of gas where none is configured. -/
def defaultGasPrice : ℤ := 20

namespace Backend

def suggestGasTipCap (b : Backend) (baseFee : Option ℤ) : Except Err ℤ :=
  match baseFee with
  | none => .ok 0
  | some baseFee => do
    let params ← b.queryClient.txFeesParams
    if params.targetBlockSpacePercentRate.bigInt = 0 then throw (.panic "division by zero")
    -- the stored integers, not the numbers they stand for
    let maxDelta := baseFee * params.maxBlockChangeRate.bigInt *
      (Int.tdiv 1 params.targetBlockSpacePercentRate.bigInt - 1)
    return if maxDelta < 0 then 0 else maxDelta

def globalMinGasPrice (b : Backend) : Except Err LegacyDec := do
  let params ← b.queryClient.txFeesParams
  return params.minGasPrice

/-- The minimum gas price of the configuration. -/
def rpcMinGasPrice (E : Env) (b : Backend) : Except Err ℤ :=
  match b.queryClient.evmDenom with
  | .error _ => .ok defaultGasPrice
  | .ok denom =>
    if !E.validateDenom denom then .error (.panic s!"invalid denom: {denom}")
    else
      let amt := (b.minGasPrices denom).truncateInt
      .ok (if amt = 0 then defaultGasPrice else amt)

/-- The gas price of the latest block: its base fee with a tip, at least the minimum. -/
def gasPrice (E : Env) (b : Backend) : Except Err ℤ := do
  let head ← b.currentHeader E
  let result ← match head.baseFee with
    | some baseFee => (· + baseFee) <$> b.suggestGasTipCap (some baseFee)
    | none => b.rpcMinGasPrice E
  let minGasPrice ← b.globalMinGasPrice
  return if result < minGasPrice.truncateInt then minGasPrice.truncateInt else result

/-- The tip for the latest block. -/
def maxPriorityFeePerGas (E : Env) (b : Backend) : Except Err ℤ := do
  let head ← b.currentHeader E
  b.suggestGasTipCap head.baseFee

end Backend

/-! ## What the tip is -/

theorem tdiv_one_sub_one {t : ℤ} (ht : 0 < t) : Int.tdiv 1 t - 1 = if t = 1 then 0 else -1 := by
  split_ifs with h
  · rw [h]
    decide
  · rw [Int.tdiv_eq_zero_of_lt (by decide) (by omega)]
    rfl

/-- **The suggested tip is zero**, whatever the base fee and the rates. -/
theorem suggestGasTipCap_eq {b : Backend} (hparams : b.queryClient.txFeesParams = .ok params)
    (hfee : 0 ≤ baseFee) (htarget : 0 < params.targetBlockSpacePercentRate.bigInt)
    (hchange : 0 ≤ params.maxBlockChangeRate.bigInt) :
    b.suggestGasTipCap (some baseFee) = .ok 0 := by
  have hdelta : 0 ≤ baseFee * params.maxBlockChangeRate.bigInt := Int.mul_nonneg hfee hchange
  simp only [Backend.suggestGasTipCap, hparams, ok_bind, if_neg htarget.ne',
    tdiv_one_sub_one htarget]
  split_ifs with hone hneg hneg
  · rfl
  · simp
  · rfl
  · have hzero : baseFee * params.maxBlockChangeRate.bigInt = 0 := by omega
    simp [hzero]

theorem gasPrice_eq {E : Env} {b : Backend} {head : Header} (hhead : b.currentHeader E = .ok head)
    (hbase : head.baseFee = some baseFee) (hparams : b.queryClient.txFeesParams = .ok params)
    (hfee : 0 ≤ baseFee) (htarget : 0 < params.targetBlockSpacePercentRate.bigInt)
    (hchange : 0 ≤ params.maxBlockChangeRate.bigInt) :
    b.gasPrice E = .ok (max baseFee params.minGasPrice.truncateInt) ∧
      b.maxPriorityFeePerGas E = .ok 0 := by
  have htip := suggestGasTipCap_eq hparams hfee htarget hchange
  constructor
  · have hadd : (· + baseFee) <$> b.suggestGasTipCap (some baseFee) = .ok baseFee := by
      rw [htip]
      exact congrArg Except.ok (zero_add baseFee)
    simp only [Backend.gasPrice, hhead, ok_bind, hbase, hadd, Backend.globalMinGasPrice, hparams,
      pure_eq_ok, Except.ok.injEq]
    split_ifs with hlt
    · exact (max_eq_right hlt.le).symm
    · exact (max_eq_left (not_lt.mp hlt)).symm
  · rw [Backend.maxPriorityFeePerGas, hhead, ok_bind, hbase, htip]

/-! ## The documented tip -/

/-- The largest rise of a base fee: `baseFee * (1 / target - 1) * change`. -/
def documentedTip (baseFee : ℤ) (params : TxFeesParams) : ℚ :=
  baseFee * (1 / params.targetBlockSpacePercentRate.value - 1) * params.maxBlockChangeRate.value

/-- The documented tip over the stored integers. -/
theorem documentedTip_eq (htarget : 0 < params.targetBlockSpacePercentRate.bigInt) :
    documentedTip baseFee params =
      (baseFee * (LegacyDec.one - params.targetBlockSpacePercentRate.bigInt) *
        params.maxBlockChangeRate.bigInt : ℤ) /
      (params.targetBlockSpacePercentRate.bigInt * LegacyDec.one : ℤ) := by
  have hone : (LegacyDec.one : ℚ) ≠ 0 := by exact_mod_cast LegacyDec.one_pos.ne'
  have htarget' : (params.targetBlockSpacePercentRate.bigInt : ℚ) ≠ 0 := by
    exact_mod_cast htarget.ne'
  rw [documentedTip, LegacyDec.value, LegacyDec.value]
  push_cast
  field_simp

/-- **The tip follows the formula exactly when the formula gives less than one.** -/
theorem tip_exact_iff {b : Backend} {params : TxFeesParams} {baseFee : ℤ}
    (hparams : b.queryClient.txFeesParams = .ok params) (hfee : 0 ≤ baseFee)
    (htarget : 0 < params.targetBlockSpacePercentRate.bigInt)
    (hle : params.targetBlockSpacePercentRate.bigInt ≤ LegacyDec.one)
    (hchange : 0 ≤ params.maxBlockChangeRate.bigInt) :
    (∃ tip : ℤ, b.suggestGasTipCap (some baseFee) = .ok tip ∧
        |(tip : ℚ) - documentedTip baseFee params| < 1) ↔
      baseFee * (LegacyDec.one - params.targetBlockSpacePercentRate.bigInt) *
          params.maxBlockChangeRate.bigInt <
        params.targetBlockSpacePercentRate.bigInt * LegacyDec.one := by
  have hden : 0 < params.targetBlockSpacePercentRate.bigInt * LegacyDec.one :=
    Int.mul_pos htarget LegacyDec.one_pos
  have hnum : 0 ≤ baseFee * (LegacyDec.one - params.targetBlockSpacePercentRate.bigInt) *
      params.maxBlockChangeRate.bigInt :=
    Int.mul_nonneg (Int.mul_nonneg hfee (by omega)) hchange
  have hnonneg : 0 ≤ documentedTip baseFee params := by
    rw [documentedTip_eq htarget]
    exact div_nonneg (by exact_mod_cast hnum) (by exact_mod_cast hden.le)
  have hsmall : |((0 : ℤ) : ℚ) - documentedTip baseFee params| < 1 ↔
      baseFee * (LegacyDec.one - params.targetBlockSpacePercentRate.bigInt) *
          params.maxBlockChangeRate.bigInt <
        params.targetBlockSpacePercentRate.bigInt * LegacyDec.one := by
    rw [Int.cast_zero, zero_sub, abs_neg, abs_of_nonneg hnonneg, documentedTip_eq htarget,
      div_lt_one (by exact_mod_cast hden)]
    exact Int.cast_lt
  rw [suggestGasTipCap_eq hparams hfee htarget hchange, ← hsmall]
  simp

def Backend.withRates (target change : ℤ) : Backend :=
  { Backend.sample none none with
    queryClient := { QueryClient.silent with
      txFeesParams := .ok {
        maxBlockChangeRate := ⟨change⟩
        targetBlockSpacePercentRate := ⟨target⟩ } } }

/-- With a target of all the block space the base fee does not rise, and the tip is right. -/
theorem tip_exact_iff_full :
    ∃ tip : ℤ, (Backend.withRates (10 ^ 18) (10 ^ 17)).suggestGasTipCap (some 160000000) =
        .ok tip ∧
      |(tip : ℚ) - documentedTip 160000000 ⟨⟨0⟩, ⟨10 ^ 17⟩, ⟨10 ^ 18⟩⟩| < 1 :=
  (tip_exact_iff (b := Backend.withRates (10 ^ 18) (10 ^ 17)) rfl (by decide) (by decide) (by decide)
    (by decide)).mpr (by decide)

/-- With a target of 0.625 and a change of 0.1 the formula gives 9600000, the code nothing. -/
theorem tip_not_exact :
    (Backend.withRates 625000000000000000 (10 ^ 17)).suggestGasTipCap (some 160000000) = .ok 0 ∧
      documentedTip 160000000 ⟨⟨0⟩, ⟨10 ^ 17⟩, ⟨625000000000000000⟩⟩ = 9600000 := by
  refine ⟨by decide +kernel, ?_⟩
  rw [documentedTip_eq (by decide)]
  norm_num [LegacyDec.one]

end EvmGateway
