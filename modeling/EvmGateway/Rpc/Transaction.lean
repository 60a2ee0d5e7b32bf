import EvmGateway.Env
import EvmGateway.Lib.Loop

/-!
# RPC transactions

The JSON shape of a transaction, how it is built from an Ethereum message, and the
base fee announced by the events of a block.
-/

namespace EvmGateway

open Lib

variable {E : Env} {msg : MsgEthereumTx} {blockNumber index : ℕ} {baseFee chainID : Option ℤ}
  {tx : RPCTransaction} {blockHash : Hash}

/-- A transaction as JSON-RPC returns it. -/
structure RPCTransaction where
  blockHash : Option Hash := none
  blockNumber : Option ℕ := none
  sender : Address
  gas : UInt64
  gasPrice : ℤ
  gasFeeCap : Option ℤ := none
  gasTipCap : Option ℤ := none
  hash : Hash
  input : Bytes
  nonce : UInt64
  toAddr : Option Address
  transactionIndex : Option ℕ := none
  value : ℤ
  type : ℕ
  accesses : Option AccessList := none
  chainID : Option ℤ
  v : ℤ
  r : ℤ
  s : ℤ
  isVirtual : Bool := false
  cosmosHash : Option Hash := none
  cosmosMsgIndex : Option ℕ := none
  deriving DecidableEq

def dynamicGasPrice (tx : EthTransaction) (baseFee : ℤ) : ℤ :=
  let price := tx.gasTipCap + baseFee
  if price > tx.gasFeeCap then tx.gasFeeCap else price

/-- Build the RPC form of an Ethereum message.  The block fields are filled only when
the block hash is not zero. -/
def newRPCTransaction (E : Env) (msg : MsgEthereumTx) (blockHash : Hash) (blockNumber index : ℕ)
    (baseFee : Option ℤ) (chainID : Option ℤ) : Except Err RPCTransaction := do
  let some tx := msg.asTransaction
    | throw (.panic "invalid memory address or nil pointer dereference")
  let sender ← E.getSenderLegacy msg tx.signer
  let result : RPCTransaction :=
    { type := tx.type
      sender := sender
      gas := tx.gas
      gasPrice := tx.gasPrice
      hash := tx.hash
      input := tx.data
      nonce := tx.nonce
      toAddr := tx.toAddr
      value := tx.value
      v := tx.v
      r := tx.r
      s := tx.s
      chainID := chainID }
  let result :=
    if blockHash ≠ 0 then
      { result with
        blockHash := some blockHash
        blockNumber := some blockNumber
        transactionIndex := some index }
    else result
  if tx.type = accessListTxType then
    return { result with accesses := some tx.accessList, chainID := some tx.chainID }
  else if tx.type = dynamicFeeTxType then
    return { result with
      accesses := some tx.accessList
      chainID := some tx.chainID
      gasFeeCap := some tx.gasFeeCap
      gasTipCap := some tx.gasTipCap
      gasPrice :=
        -- the effective price is known once the transaction is in a block
        match baseFee with
        | some fee => if blockHash ≠ 0 then dynamicGasPrice tx fee else tx.gasFeeCap
        | none => tx.gasFeeCap }
  else return result

theorem newRPCTransaction_cases
    (h : newRPCTransaction E msg blockHash blockNumber index baseFee chainID = .ok tx) :
    ∃ data, msg.asTransaction = some data ∧ tx.hash = data.hash ∧
      if blockHash ≠ 0 then tx.blockHash = some blockHash ∧ tx.blockNumber = some blockNumber ∧
        tx.transactionIndex = some index
      else tx.blockNumber = none := by
  unfold newRPCTransaction at h
  cases hdata : msg.asTransaction with
  | none => simp [hdata] at h
  | some data =>
    simp only [hdata] at h
    obtain ⟨sender, -, h⟩ := bind_eq_ok.mp h
    refine ⟨data, rfl, ?_⟩
    by_cases hzero : blockHash = 0
    · simp only [hzero, ne_eq, not_true_eq_false, if_false] at h ⊢
      split_ifs at h
      all_goals
        cases h
        exact ⟨rfl, rfl⟩
    · simp only [hzero, ne_eq, not_false_eq_true, if_true] at h ⊢
      split_ifs at h
      all_goals
        cases h
        exact ⟨rfl, rfl, rfl, rfl⟩

theorem newRPCTransaction_position
    (h : newRPCTransaction E msg blockHash blockNumber index baseFee chainID = .ok tx)
    (hne : blockHash ≠ 0) :
    tx.blockHash = some blockHash ∧ tx.blockNumber = some blockNumber ∧
      tx.transactionIndex = some index := by
  obtain ⟨data, -, -, hplace⟩ := newRPCTransaction_cases h
  rwa [if_pos hne] at hplace

theorem newRPCTransaction_pending
    (h : newRPCTransaction E msg 0 blockNumber index baseFee chainID = .ok tx) :
    tx.blockNumber = none := by
  obtain ⟨data, -, -, hplace⟩ := newRPCTransaction_cases h
  rwa [if_neg (not_not.mpr rfl)] at hplace

theorem newRPCTransaction_hash {data : EthTransaction} (hdata : msg.asTransaction = some data)
    (h : newRPCTransaction E msg blockHash blockNumber index baseFee chainID = .ok tx) :
    tx.hash = data.hash := by
  obtain ⟨data', hdata', hhash, -⟩ := newRPCTransaction_cases h
  rw [hhash, Option.some.inj (hdata.symm.trans hdata')]

theorem newRPCTransaction_ok {data : EthTransaction} {sender : Address}
    (hdata : msg.asTransaction = some data)
    (hsender : E.getSenderLegacy msg data.signer = .ok sender) (blockHash : Hash)
    (blockNumber index : ℕ) (baseFee chainID : Option ℤ) :
    ∃ tx, newRPCTransaction E msg blockHash blockNumber index baseFee chainID = .ok tx := by
  unfold newRPCTransaction
  simp only [hdata, hsender, ok_bind]
  split_ifs <;> exact ⟨_, rfl⟩

def baseFeeFromEvents (E : Env) (events : List Event) : Option ℤ :=
  events.reverse.findSome? fun evt =>
    if evt.type ≠ "txfees" then none
    else (evt.attributes.find? (·.key == "basefee")).bind fun attr =>
      E.legacyDecRoundInt attr.value

end EvmGateway
