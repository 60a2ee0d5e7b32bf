import EvmGateway.Backend.Tracing

/-!
# Traces of transactions that were not executed

An Ethereum transaction that failed in the ante handler is part of the block and has a
failed receipt, but replaying it gives an error.  `traceBlockAnswer` puts a trace that
matches the receipt in the place of such an error.  It looks up the failed message by the
position of the error among the traces.
-/

namespace EvmGateway

open Lib

/-! ## Failures in the ante handler -/

/-- What is put around the errors of message handlers. -/
def msgExecutionFailedLog : String := "failed to execute message"

def txAnteFailed (E : Env) : Option ExecTxResult → Bool
  | none => false
  | some res =>
    if res.code = codeTypeOK then false
    else if res.events ≠ [] then false
    else if res.codespace = E.moduleName ∨ txExceedBlockGasLimit res = true then false
    else (findFirst (afterLiteral msgExecutionFailedLog.toList) res.log.toList).isNone

/-! ## The trace of a failure -/

def tracerCall : String := "callTracer"

/-- The default tracer. -/
def tracerStructLogger : String := ""

def anteFailedSender (E : Env) (msg : MsgEthereumTx) (txData : EthTransaction) : Option Address :=
  if msg.fromBytes ≠ [] then some (bytesToAddress msg.fromBytes)
  else (E.getSenderLegacy msg txData.signer).toOption

def anteFailedCallFrame (txData : EthTransaction) (res : ExecTxResult) (sender : Address) :
    AnteFailedCallFrame where
  type := if txData.toAddr = none then "CREATE" else "CALL"
  fromAddr := sender
  toAddr := txData.toAddr
  value := txData.value
  gas := txData.gas
  gasUsed := txData.gas
  input := txData.data
  error := res.log

/-- The default trace of a message that failed. -/
def anteFailedStructLog (txData : EthTransaction) : AnteFailedStructLog where
  gas := txData.gas
  failed := true
  returnValue := ""
  structLogs := []

def anteFailedTraceResult (E : Env) (msg : MsgEthereumTx) (res : Option ExecTxResult)
    (config : Option TraceConfig) : Option AnteFailedTrace := do
  let res ← res
  let txData ← msg.asTransaction
  let tracer := (config.map (·.tracer)).getD tracerStructLogger
  if tracer = tracerCall then
    let sender ← anteFailedSender E msg txData
    return .callFrame (anteFailedCallFrame txData res sender)
  else if tracer = tracerStructLogger then
    return .structLog (anteFailedStructLog txData)
  else none

/-! ## Filling a block trace -/

structure AntePosition where
  msg : MsgEthereumTx
  res : Option ExecTxResult

def antePositionsAt (E : Env) (blockRes : BlockResults) (txIndex : ℕ) (rawTx : Bytes) :
    List AntePosition :=
  (ethMsgsOfTx E rawTx).map fun msg => ⟨msg, blockRes.txResults[txIndex]?.join⟩

/-- The Ethereum messages of a block with the results of their transactions. -/
def antePositions (E : Env) (block : Block) (blockRes : BlockResults) : List AntePosition :=
  block.txs.zipIdx.flatMap fun e => antePositionsAt E blockRes e.2 e.1

def hasTraceErrors (results : BlockTrace) : Bool :=
  results.any fun r =>
    match r with
    | some t => t.error ≠ ""
    | none => false

/-- Put the trace of a failed message in the place of an error. -/
def fillAnteFailedTrace (E : Env) (config : Option TraceConfig) (result : Option TxTraceResult)
    (position : AntePosition) : Option TxTraceResult :=
  match result with
  | none => none
  | some t =>
    if t.error = "" || !txAnteFailed E position.res then some t
    else
      match anteFailedTraceResult E position.msg position.res config with
      | some trace => some { result := some (E.anteFailedJson trace) }
      | none => some t

namespace Backend

/-- The block whose failures are looked up. -/
def blockOfFailures (b : Backend) (height : ℤ) (block : Option Block) : Option Block :=
  match block with
  | some block => some block
  | none => (b.tendermintBlockByNumber height).toOption.join

/-- Put traces in the place of the errors of messages that failed in the ante handler.  The
traces are taken to be those of the messages of the block, in their order. -/
def fillAnteFailedBlockTraces (E : Env) (b : Backend) (results : BlockTrace) (height : ℤ)
    (block : Option Block) (config : Option TraceConfig) : BlockTrace :=
  if b.offlineRPCOnly || !hasTraceErrors results then results
  else
    match b.blockOfFailures height block with
    | none => results
    | some block =>
      match b.tendermintBlockResultByNumber block.height with
      | .ok (some blockRes) =>
        let positions := antePositions E block blockRes
        if positions.length ≠ results.length then results
        else List.zipWith (fillAnteFailedTrace E config) results positions
      | _ => results

/-! ## The answer to a request -/

/-- The trace timeout limit of the chain. -/
def defaultTraceTimeoutCap : ℤ := 30 * 10 ^ 9

def traceTimeoutLimit (b : Backend) : ℤ :=
  if b.traceTimeoutCap ≤ 0 then defaultTraceTimeoutCap else b.traceTimeoutCap

def normalizeTraceTimeout (E : Env) (b : Backend) (config : Option TraceConfig) :
    Option TraceConfig :=
  match config with
  | none =>
    if b.traceTimeoutLimit = defaultTraceTimeoutCap then none
    else some { timeout := E.durationString b.traceTimeoutLimit }
  | some config =>
    if config.timeout = "" then
      if b.traceTimeoutLimit = defaultTraceTimeoutCap then some config
      else some { config with timeout := E.durationString b.traceTimeoutLimit }
    else
      match E.parseDuration config.timeout with
      | none => some config
      | some timeout =>
        if timeout ≤ b.traceTimeoutLimit then some config
        else some { config with timeout := E.durationString b.traceTimeoutLimit }

/-- What a request for the traces of a block is answered with, and the store afterwards. -/
def traceBlockAnswer (E : Env) (b : Backend) (height : ℤ) (config : Option TraceConfig)
    (block : Option Block) : Except Err (BlockTrace × Option DB) := do
  let config := b.normalizeTraceTimeout E config
  let (results, db) ← b.traceBlock E height config block
  return (b.fillAnteFailedBlockTraces E results height block config, db)

end Backend

end EvmGateway
