import EvmGateway.Env
import EvmGateway.Lib.Loop

/-!
# Native bank events

The `x/bank` events the gateway exposes as Ethereum logs: how one ABCI event is read,
how a multi-coin amount becomes one normalised event per coin, and the log of each.
-/

namespace EvmGateway.Bank

open Lib

/-- The tracked event types. -/
inductive Kind where
  | transfer
  | coinSpent
  | coinReceived
  | coinbase
  | burn
  deriving DecidableEq, Repr

def trackedEventType (eventType : String) : Option Kind :=
  if eventType = "transfer" then some .transfer
  else if eventType = "coin_spent" then some .coinSpent
  else if eventType = "coin_received" then some .coinReceived
  else if eventType = "coinbase" then some .coinbase
  else if eventType = "burn" then some .burn
  else none

/-- The execution mode of events emitted before the transactions of a block. -/
def modeBeginBlock : String := "BeginBlock"

/-- The reserved address that emits all native bank logs. -/
def contractAddress : Address := 0x800

structure BankEvent where
  kind : Kind
  sender : Hash := 0
  recipient : Hash := 0
  actor : Hash := 0
  denom : String := ""
  amount : ℤ := 0
  msgIndex : Option ℕ := none
  mode : String := ""
  deriving DecidableEq

/-- The value of an attribute; a repeated key has its last value. -/
def attrValue (attrs : List EventAttribute) (key : String) : Option String :=
  (attrs.reverse.find? (·.key == key)).map (·.value)

def readMsgIndex (raw : String) : Except Err ℕ := do
  let idx ← liftErr (atoi raw)
  if idx < 0 then throw (.plain s!"negative msg_index {idx}")
  return idx.toNat

/-- The message an event belongs to, if it says so. -/
def parseMsgIndex (attrs : List EventAttribute) : Except Err (Option ℕ) :=
  match attrValue attrs "msg_index" with
  | none => .ok none
  | some raw => if trimSpace raw = "" then .ok none else some <$> readMsgIndex raw

/-- A non-empty text of digits. -/
def isHex (value : String) : Bool :=
  value ≠ "" && value.toList.all fun c => (hexVal c).isSome

/-- The bytes of an address written in hexadecimal; `none` when it is not. -/
def decodeHexAddress (value : String) : Except Err (Option Bytes) :=
  match value.toList with
  | '0' :: 'x' :: _ => some <$> liftErr (hexutilDecode value)
  | '0' :: 'X' :: _ => some <$> liftErr (hexutilDecode value)
  | cs =>
    if cs.length % 2 ≠ 0 ∨ ¬ isHex value then .ok none
    else some <$> liftErr (hexutilDecode ("0x" ++ value))

/-- Left-pad at most 32 bytes to a word. -/
def bytesToHash32 (bz : Bytes) : Except Err Hash :=
  if bz.length > 32 then .error (.plain s!"address is {bz.length} bytes, max 32")
  else .ok (bytesToHash bz)

/-- An account as a word: hexadecimal, bech32, or the raw text. -/
def addressBytes32 (E : Env) (value : String) : Except Err Hash := do
  let value := trimSpace value
  if value = "" then throw (.plain "empty address")
  match ← decodeHexAddress value with
  | some bz => bytesToHash32 bz
  | none =>
    match E.bech32DecodeAndConvert value with
    | .ok bz => bytesToHash32 bz
    | .error _ => bytesToHash32 value.toUTF8.data.toList

/-- An address attribute that must be present. -/
def requiredAddress (E : Env) (attrs : List EventAttribute) (key eventType : String)
    (eventIndex : ℕ) : Except Err Hash :=
  match attrValue attrs key with
  | none => .error (.plain s!"{eventType} event {eventIndex} missing {key}")
  | some raw =>
    if trimSpace raw = "" then .error (.plain s!"{eventType} event {eventIndex} missing {key}")
    else wrapErr (addressBytes32 E raw) s!"{eventType} event {eventIndex} invalid {key} \"{raw}\""

def readAccounts (E : Env) (base : BankEvent) (attrs : List EventAttribute) (eventType : String)
    (eventIndex : ℕ) : Except Err BankEvent :=
  let actor (key : String) : Except Err BankEvent := do
    return { base with actor := ← requiredAddress E attrs key eventType eventIndex }
  match base.kind with
  | .transfer => do
    let sender ← requiredAddress E attrs "sender" eventType eventIndex
    let recipient ← requiredAddress E attrs "recipient" eventType eventIndex
    return { base with sender := sender, recipient := recipient }
  | .coinSpent => actor "spender"
  | .coinReceived => actor "receiver"
  | .coinbase => actor "minter"
  | .burn => actor "burner"

/-- Parse one ABCI event; `none` when its type is not tracked. -/
def parseEvent (E : Env) (event : Event) (eventIndex : ℕ) : Except Err (Option (List BankEvent)) :=
  match trackedEventType event.type with
  | none => .ok none
  | some kind => do
    let some amountRaw := attrValue event.attributes "amount"
      | throw (.plain s!"{event.type} event {eventIndex} missing amount")
    let coins ← wrapErr (E.parseCoinsNormalized amountRaw)
      s!"{event.type} event {eventIndex} invalid amount \"{amountRaw}\""
    let msgIndex ← wrapErr (parseMsgIndex event.attributes)
      s!"{event.type} event {eventIndex} invalid msg_index"
    let base ← readAccounts E
      { kind := kind, msgIndex := msgIndex, mode := (attrValue event.attributes "mode").getD "" }
      event.attributes event.type eventIndex
    return some (coins.map fun coin => { base with denom := coin.denom, amount := coin.amount })

def parseEvents (E : Env) (events : List Event) : Except Err (List BankEvent) :=
  forIdx (fun i event out => do
    match ← parseEvent E event i with
    | some parsed => return out ++ parsed
    | none => return out) 0 events []

/-- The signature a tracked type is announced under. -/
def Kind.signature : Kind → String
  | .transfer => "NativeBankTransfer(bytes32,bytes32,string,uint256)"
  | .coinSpent => "NativeBankCoinSpent(bytes32,string,uint256)"
  | .coinReceived => "NativeBankCoinReceived(bytes32,string,uint256)"
  | .coinbase => "NativeBankCoinbase(bytes32,string,uint256)"
  | .burn => "NativeBankBurn(bytes32,string,uint256)"

/-- The first topic of a tracked type. -/
def topic (E : Env) (kind : Kind) : Hash := E.keccak256 kind.signature.toUTF8.data.toList

/-- The topics of an event's log. -/
def eventTopics (E : Env) (event : BankEvent) : List Hash :=
  match event.kind with
  | .transfer => [topic E .transfer, event.sender, event.recipient]
  | kind => [topic E kind, event.actor]

/-- The log of one event, without block and transaction metadata. -/
def ethereumLog (E : Env) (event : BankEvent) : Except Err EthLog := do
  let data ← E.packDenomAmount event.denom event.amount
  return { address := contractAddress, topics := eventTopics E event, data := data }

def ethereumLogs (E : Env) (events : List BankEvent) : Except Err (List EthLog) :=
  events.mapM (ethereumLog E)

end EvmGateway.Bank
