import EvmGateway.Rpc.ParsedTx

/-!
# Normalised response indexes

A chain node numbers the logs of Ethereum responses without counting the slots of
failed transactions.  `normalizeTxResponseIndexes` renumbers them over the whole
block: it walks the results with a transaction slot and a log index, rewrites the
logs of every successful Ethereum response, and lets failed transactions consume
their slots.
-/

namespace EvmGateway

open Lib

/-- The text a failed Ethereum message ends its log with, anchored at the end. -/
def readFailedEthereumTx (cs : List Char) : Option (String × String) := do
  let (digits, body) ← readMessageError cs
  let rest ← afterLiteral "\x7b\"tx_hash\":\"0x".toList body
  guard (64 ≤ rest.length ∧ (rest.take 64).all fun c => (hexVal c).isSome)
  let rest ← afterLiteral "\",\"gas_used\":".toList (rest.drop 64)
  let (_, rest) ← takeDigits rest
  let rest ← afterLiteral ",".toList rest
  guard (rest.getLast? = some '}' ∧ '\n' ∉ rest)
  return (String.ofList digits, String.ofList body)

/-- The message index and error object of a log that ends in a failed Ethereum
message. -/
def failedEthereumTxLogRegex (log : String) : Option (String × String) :=
  findFirst readFailedEthereumTx log.toList

def countEthereumTxEvents (E : Env) (events : List Event) : ℕ :=
  events.countP fun event => event.type == E.eventTypeEthereumTx

/-- The number of Ethereum transactions consumed by a transaction that failed with an
EVM error, or zero when the failure is not an EVM one. -/
def inferFailedEthereumTxCount (E : Env) (codespace log : String) : ℕ :=
  if codespace ≠ E.moduleName ∧ codespace ≠ E.undefinedCodespace then 0
  else
    match failedEthereumTxLogRegex log with
    | none => 0
    | some (index, object) =>
      match E.jsonUnmarshalVMError object with
      | .error _ => 0
      | .ok vmErr =>
        if vmErr.vmError = "" then 0
        else
          match atoi index with
          | .error _ => 0
          | .ok msgIndex =>
            if msgIndex < 0 then 0
            -- the sum is a signed word, and a negative count is as good as none
            else (Int.bmod (msgIndex + 1) 0x10000000000000000).toNat

/-- Give the logs of one response their slot and consecutive indexes.  Slots are counted from
what a log text says, so the 64-bit word they are written as can wrap. -/
def renumberLogs (txIndex : ℕ) : ℕ → List EvmLog → List EvmLog
  | _, [] => []
  | logIndex, log :: logs =>
    { log with txIndex := txIndex % 2 ^ 64, index := logIndex } ::
      renumberLogs txIndex (logIndex + 1) logs

/-- The state of the walk: the next slot, the next log index. -/
structure NormalizeState where
  txIndex : ℕ := 0
  logIndex : ℕ := 0
  deriving DecidableEq

/-- The state of the walk over the responses of one result. -/
structure ResponseState where
  pos : NormalizeState
  seenEthTx : ℕ := 0
  dirty : Bool := false
  responses : List AnyMsg := []
  deriving DecidableEq

def normalizeResponse (E : Env) (s : ResponseState) (rsp : AnyMsg) : Except Err ResponseState :=
  if rsp.typeUrl ≠ E.ethereumTxResponseTypeUrl then
    .ok { s with responses := s.responses ++ [rsp] }
  else do
    let response ← E.unmarshalEthereumTxResponse rsp.value
    let logs := renumberLogs s.pos.txIndex s.pos.logIndex response.logs
    let pos := { txIndex := s.pos.txIndex + 1, logIndex := s.pos.logIndex + logs.length }
    if logs = response.logs then
      return { s with pos := pos, seenEthTx := s.seenEthTx + 1, responses := s.responses ++ [rsp] }
    else do
      let bz ← E.marshalEthereumTxResponse { response with logs := logs }
      return {
        pos := pos
        seenEthTx := s.seenEthTx + 1
        dirty := true
        responses := s.responses ++ [{ rsp with value := bz }] }

/-- Renumber one result, returning it with the position after it. -/
def normalizeResult (E : Env) (pos : NormalizeState) (res : ExecTxResult) :
    Except Err (ExecTxResult × NormalizeState) := do
  let ethTxCount := max (countEthereumTxEvents E res.events)
    (inferFailedEthereumTxCount E res.codespace res.log)
  if res.code ≠ codeTypeOK ∨ res.data = [] then
    return (res, { pos with txIndex := pos.txIndex + ethTxCount })
  let txMsgData ← E.unmarshalTxMsgData res.data
  let s ← txMsgData.msgResponses.foldlM (normalizeResponse E) { pos := pos }
  let pos := { s.pos with txIndex := s.pos.txIndex + (ethTxCount - s.seenEthTx) }
  if s.dirty then
    let data ← E.marshalTxMsgData { txMsgData with msgResponses := s.responses }
    return ({ res with data := data }, pos)
  else return (res, pos)

/-- Renumber the results of a block from a position. -/
def normalizeResults (E : Env) : NormalizeState → List (Option ExecTxResult) →
    Except Err (List (Option ExecTxResult))
  | _, [] => .ok []
  | pos, none :: rest => do
    let rest ← normalizeResults E pos rest
    return none :: rest
  | pos, some res :: rest => do
    let (res, pos) ← normalizeResult E pos res
    let rest ← normalizeResults E pos rest
    return some res :: rest

/-- The results of a block with the log indexes of their Ethereum responses
normalised. -/
def normalizeTxResponseIndexes (E : Env) (input : List (Option ExecTxResult)) :
    Except Err (List (Option ExecTxResult)) :=
  normalizeResults E {} input

end EvmGateway
