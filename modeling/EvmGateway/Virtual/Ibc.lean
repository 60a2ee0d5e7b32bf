import EvmGateway.Virtual.Bank

/-!
# IBC hook calls

The typed event of an IBC hook call, in its plain form and in the form a failed
callback leaves behind, and the logs it is exposed as: the contract's own logs
followed by one summary log.
-/

namespace EvmGateway.Ibc

open Lib

def eventType : String := "injective.evm.v1.EventIBCHookCall"

/-- The reserved address that emits summary logs. -/
def contractAddress : Address := 0x800

structure HookCall where
  destinationPort : String
  destinationChannel : String
  sequence : ℕ
  contract : Address
  input : Bytes
  success : Bool
  returnData : Bytes
  error : String
  gasUsed : UInt64
  logs : List EthLog
  msgIndex : Option ℕ
  deriving DecidableEq

/-- The plain form of a hook event; `none` for any other event. -/
def normalizeEvent (E : Env) (event : Event) : Option Event :=
  if event.type = eventType then some event
  else if event.type = E.errorAttributeKeyMark ++ eventType then
    let unmark (key : String) : String :=
      ((afterLiteral E.errorAttributeKeyMark.toList key.toList).map String.ofList).getD key
    some ⟨eventType, event.attributes.map fun attr => { attr with key := unmark attr.key }⟩
  else none

/-- The message a hook belongs to: the first index attribute that is not blank. -/
def parseMsgIndex (attrs : List EventAttribute) : Except Err (Option ℕ) :=
  match attrs.find? fun attr => attr.key == "msg_index" && trimSpace attr.value != "" with
  | none => .ok none
  | some attr => some <$> Bank.readMsgIndex attr.value

/-- Convert a log of the EVM module. -/
def ethereumLog (log : Option EvmLog) : Except Err EthLog := do
  let some log := log | throw (.plain "nil log")
  if ¬ isHexAddress log.address then throw (.plain s!"invalid address \"{log.address}\"")
  let topics ← forIdx (fun i topic out =>
    match hexutilDecode topic with
    | .ok bz =>
      if bz.length ≠ 32 then .error (.plain s!"invalid topic {i} \"{topic}\"")
      else .ok (out ++ [bytesToHash bz])
    | .error _ => .error (.plain s!"invalid topic {i} \"{topic}\"")) 0 log.topics []
  return { address := hexToAddress log.address, topics := topics, data := log.data }

/-- Parse one ABCI event; `none` when it is not a hook event. -/
def parseEvent (E : Env) (event : Event) (eventIndex : ℕ) : Except Err (Option HookCall) :=
  match normalizeEvent E event with
  | none => .ok none
  | some normalized => do
    let msgIndex ← wrapErr (parseMsgIndex normalized.attributes)
      s!"IBC hook event {eventIndex} invalid msg_index"
    let parsed ← wrapErr (E.parseTypedEvent normalized) s!"IBC hook event {eventIndex}"
    match parsed with
    | .inr typeName => throw (.plain s!"IBC hook event {eventIndex} decoded as {typeName}")
    | .inl typed =>
      if ¬ isHexAddress typed.contract then
        throw (.plain s!"IBC hook event {eventIndex} invalid contract \"{typed.contract}\"")
      let logs ← forIdx (fun logIndex log out => do
        let converted ← wrapErr (ethereumLog log) s!"IBC hook event {eventIndex} log {logIndex}"
        return out ++ [converted]) 0 typed.logs []
      return some {
        destinationPort := typed.destinationPort
        destinationChannel := typed.destinationChannel
        sequence := typed.sequence
        contract := hexToAddress typed.contract
        input := typed.input
        success := typed.success
        returnData := typed.returnData
        error := typed.error
        gasUsed := typed.gasUsed
        logs := logs
        msgIndex := msgIndex }

/-- The first topic of a summary log. -/
def topicHookCall (E : Env) : Hash :=
  E.keccak256 "IBCHookCall(string,string,uint64,address,bool,bytes,string,uint256)".toUTF8.data.toList

/-- The logs of a hook call: those of the contract, without metadata, then the
summary.  A call without a message index is refused. -/
def ethereumLogs (E : Env) (call : HookCall) : Except Err (List EthLog) := do
  let some msgIndex := call.msgIndex
    | throw (.plain "IBC hook requires a nonnegative msg_index")
  let data ← E.packHookSummary call.destinationPort call.destinationChannel call.sequence
    call.success call.returnData call.error
  let summary : EthLog :=
    { address := contractAddress
      topics := [topicHookCall E, bytesToHash call.contract.bytes, BitVec.ofNat 256 msgIndex]
      data := data }
  return (call.logs.map fun log =>
    { address := log.address, topics := log.topics, data := log.data }) ++ [summary]

end EvmGateway.Ibc
