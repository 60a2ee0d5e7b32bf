import EvmGateway.Rpc.Transaction

/-!
# Parsed transaction results

What the gateway reads out of an ABCI result about the Ethereum transactions in it:
from the events when execution got that far, and from the text of the log when a
message failed.

The two log patterns are unanchored regular expressions without alternatives, so
their leftmost match is the leftmost position at which a straight-line reader
succeeds.
-/

namespace EvmGateway

open Lib

/-- The information about one Ethereum transaction. -/
structure ParsedTx where
  msgIndex : ℤ
  hash : Hash := 0
  ethTxIndex : ℤ
  gasUsed : UInt64 := 0
  failed : Bool := false
  reason : String := ""
  vmError : String := ""
  deriving DecidableEq

/-- The Ethereum index of a transaction whose event has none. -/
def ethTxIndexUninitialized : ℤ := -1

/-- An empty record for a message. -/
def newParsedTx (msgIndex : ℤ) : ParsedTx :=
  { msgIndex := msgIndex, ethTxIndex := ethTxIndexUninitialized }

/-- The transactions found in one result, with the map from hash to message index
(newest entry first). -/
structure ParsedTxs where
  txs : List ParsedTx := []
  txHashes : List (Hash × ℤ) := []
  deriving DecidableEq

/-- Read one attribute of a transaction event. -/
def fillTxAttribute (E : Env) (tx : ParsedTx) (key value : String) : Except Err ParsedTx :=
  if key = E.attributeKeyEthereumTxHash then .ok { tx with hash := hexToHash value }
  else if key = E.attributeKeyTxIndex then do
    let txIndex ← liftErr (parseUint value 31)
    return { tx with ethTxIndex := txIndex }
  else if key = E.attributeKeyTxGasUsed then do
    let gasUsed ← liftErr (parseUint value 64)
    return { tx with gasUsed := UInt64.ofNat gasUsed }
  else if key = E.attributeKeyEthereumTxFailed then .ok { tx with failed := value ≠ "" }
  else .ok tx

def fillTxAttributes (E : Env) (tx : ParsedTx) (attrs : List EventAttribute) : Except Err ParsedTx :=
  attrs.foldlM (fun tx attr => fillTxAttribute E tx attr.key attr.value) tx

/-- Append a record under a message index. -/
def ParsedTxs.push (p : ParsedTxs) (tx : ParsedTx) (msgIndex : ℤ) : ParsedTxs :=
  { txs := p.txs ++ [tx], txHashes := (tx.hash, msgIndex) :: p.txHashes }

def parseTxFromEvent (E : Env) (p : ParsedTxs) (attrs : List EventAttribute) :
    Except Err ParsedTxs := do
  let msgIndex : ℤ := p.txs.length
  let tx ← fillTxAttributes E (newParsedTx msgIndex) attrs
  return p.push tx msgIndex

/-- `failed to execute message; message index: (\d+): `, with the text after it. -/
def readMessageError (cs : List Char) : Option (List Char × List Char) := do
  let cs ← afterLiteral "failed to execute message; message index: ".toList cs
  let (digits, cs) ← takeDigits cs
  let cs ← afterLiteral ": ".toList cs
  return (digits, cs)

/-- `failed to execute message; message index: (\d+): (.*)`.  A dot does not match a
line break. -/
def msgErrJSONRx (log : String) : Option (String × String) :=
  findFirst (fun cs => (readMessageError cs).map fun (digits, rest) =>
    (String.ofList digits, String.ofList (rest.takeWhile (· ≠ '\n')))) log.toList

def failedTxFromTextLog (tx : Option SdkTx) (result : ExecTxResult) (msgIndex : ℤ)
    (vmError : String) : Except Err ParsedTx := do
  let some tx := tx | throw (.plain "failed tx fallback requires decoded tx")
  if msgIndex < 0 ∨ msgIndex ≥ tx.msgs.length then
    throw (.plain s!"message index {msgIndex} out of bounds")
  let some ethMsg := (tx.msgs[msgIndex.toNat]?).bind Msg.ethereum?
    | throw (.plain s!"message index {msgIndex} is not an ethereum tx")
  let gasUsed := result.gasUsed.toUInt64
  return {
    msgIndex := msgIndex
    hash := ethMsg.hash
    ethTxIndex := ethTxIndexUninitialized
    -- zero gas used means the ante handler has already charged the full limit
    gasUsed := if gasUsed = 0 then ethMsg.gas else gasUsed
    failed := true
    vmError := vmError }

def parseFromLog (E : Env) (p : ParsedTxs) (result : ExecTxResult) (tx : Option SdkTx) :
    Except Err ParsedTxs := do
  let some (msgIndexStr, logJSON) := msgErrJSONRx result.log
    | throw (.plain "failed to locate message error in abci log")
  let msgIndex ← wrapErr (liftErr (atoi msgIndexStr)) "failed to parse message index as int"
  match E.sonicUnmarshalVMError logJSON with
  | .error err =>
    match failedTxFromTextLog tx result msgIndex logJSON with
    | .error _ => throw ((Err.plain err).wrap "failed to parse abci log as JSON")
    | .ok failedTx => return p.push failedTx msgIndex
  | .ok vmErr =>
    return p.push {
      msgIndex := msgIndex
      hash := hexToHash vmErr.hash
      ethTxIndex := ethTxIndexUninitialized
      gasUsed := vmErr.gasUsed
      failed := true
      reason := vmErr.reason
      vmError := vmErr.vmError } msgIndex

def chargeGasLimits (msgs : List Msg) (txs : List ParsedTx) : Except Err (List ParsedTx) :=
  forIdx (fun i (tx : ParsedTx) (done : List ParsedTx) =>
    match (msgs[i]?).bind Msg.ethereum? with
    | none => .error (.panic "index out of range or wrong message type")
    | some ethMsg => .ok (done ++ [{ tx with failed := true, gasUsed := ethMsg.gas }])) 0 txs []

def parseTxResult (E : Env) (result : ExecTxResult) (tx : Option SdkTx) : Except Err ParsedTxs := do
  let p ← result.events.foldlM (fun p event =>
    if event.type ≠ E.eventTypeEthereumTx then pure p
    else parseTxFromEvent E p event.attributes) ({} : ParsedTxs)
  if result.code ≠ codeTypeOK ∧ result.codespace = E.moduleName then
    -- fail all evm txns in the tx result
    parseFromLog E { p with txs := p.txs.map fun t => { t with failed := true } } result tx
  else
    match tx with
    | some tx =>
      if result.code ≠ codeTypeOK ∧ result.codespace ≠ E.moduleName then do
        -- the block gas limit was reached: the gas limit is what was deducted
        let txs ← chargeGasLimits tx.msgs p.txs
        return { p with txs := txs }
      else return p
    | none => return p

def ParsedTxs.getTxByHash (p : ParsedTxs) (hash : Hash) : Except Err (Option ParsedTx) :=
  match p.txHashes.lookup hash with
  | none => .ok none
  | some idx =>
    if idx < 0 then .error (.panic "index out of range")
    else match p.txs[idx.toNat]? with
      | some tx => .ok (some tx)
      | none => .error (.panic "index out of range")

def ParsedTxs.getTxByMsgIndex (p : ParsedTxs) (i : ℤ) : Option ParsedTx :=
  if i < 0 ∨ i ≥ p.txs.length then none else p.txs[i.toNat]?

/-- Find a transaction by its Ethereum index, assuming consecutive indexes. -/
def ParsedTxs.getTxByTxIndex (p : ParsedTxs) (txIndex : ℤ) : Option ParsedTx :=
  match p.txs with
  | [] => none
  | first :: _ => p.getTxByMsgIndex (txIndex - first.ethTxIndex)

def ParsedTxs.accumulativeGasUsed (p : ParsedTxs) (msgIndex : ℤ) : Except Err UInt64 :=
  if msgIndex ≥ p.txs.length then .error (.panic "index out of range")
  else .ok (((p.txs.take (msgIndex + 1).toNat).map (·.gasUsed)).sum)

end EvmGateway
