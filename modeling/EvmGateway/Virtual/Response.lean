import EvmGateway.Virtual.Logs

/-!
# Virtual events of a transaction response

One Cosmos transaction response is read into an ordered list of entries, each holding
the logs of one tracked event.  Entries of an Ethereum message are appended to that
message's own logs; the others become synthetic transactions: one for all bank
events, and one per IBC hook.
-/

namespace EvmGateway

open Lib

def receiptStatusFailed : ℕ := 0

def receiptStatusSuccessful : ℕ := 1

/-- The logs of one tracked event. -/
structure ResponseEntry where
  logs : List EthLog
  msgIndex : Option ℕ
  hook : Option Ibc.HookCall := none
  deriving DecidableEq

/-- The virtualisable events of a transaction response. -/
structure Response where
  entries : List ResponseEntry := []
  code : ℕ
  gasUsed : UInt64
  deriving DecidableEq

/-- What identifies a transaction beyond its response. -/
structure TxContext where
  tx : Bytes
  ethereumMessageIndexes : List ℕ
  ethereumGasUsed : UInt64 := 0
  totalMessages : ℕ
  blockHash : Hash
  blockNumber : ℕ
  txIndex : ℕ
  firstLogIndex : ℕ
  cumulativeGasUsedBefore : UInt64
  chainID : Option ℤ

def parseEntry (E : Env) (event : Event) (eventIndex : ℕ) : Except Err (Option ResponseEntry) := do
  match ← Bank.parseEvent E event eventIndex with
  | some bankEvents =>
    let logs ← wrapErr (Bank.ethereumLogs E bankEvents) s!"bank event {eventIndex}"
    return some { logs := logs, msgIndex := bankEvents.head?.bind (·.msgIndex) }
  | none =>
    match ← Ibc.parseEvent E event eventIndex with
    | some hook =>
      let logs ← wrapErr (Ibc.ethereumLogs E hook) s!"IBC hook event {eventIndex}"
      return some { logs := logs, msgIndex := hook.msgIndex, hook := some hook }
    | none => return none

def parseResponse (E : Env) (resp : ExecTxResult) : Except Err Response := do
  let entries ← forIdx (fun i event out => do
    match ← parseEntry E event i with
    | some entry => return out ++ [entry]
    | none => return out) 0 resp.events []
  return {
    entries := entries
    code := resp.code
    gasUsed := if resp.gasUsed > 0 then resp.gasUsed.toUInt64 else 0 }

def belongsToMessage (msgIndex : Option ℕ) (wanted total : ℕ) : Bool :=
  match msgIndex with
  | some i => i == wanted
  | none => total == 1 && wanted == 0

def belongsToNonEthereumMessage (msgIndex : Option ℕ) (ethereumIndexes : List ℕ) (total : ℕ) :
    Bool :=
  match msgIndex with
  | some i => !ethereumIndexes.contains i
  | none => !(total == 1 && ethereumIndexes.contains 0)

def ResponseEntry.rpcLogs (entry : ResponseEntry) (cosmosHash : Option Hash) : List RPCLog :=
  let logs := wrapLogs entry.logs true cosmosHash
  match entry.hook with
  | some hook => logs.map fun log => { log with cosmosMsgIndex := hook.msgIndex }
  | none => logs

def Response.logsForMessage (r : Response) (msgIndex totalMessages : ℕ) (ctx : LogContext) :
    List RPCLog :=
  setLogMetadata
    ((r.entries.filter fun entry => belongsToMessage entry.msgIndex msgIndex totalMessages).flatMap
      (·.rpcLogs none)) ctx

/-- Build one synthetic transaction from the entries it stands for. -/
def Response.syntheticTx (E : Env) (r : Response) (ctx : TxContext) (events : List ResponseEntry)
    (hook : Option Ibc.HookCall) (txHash : Hash) (gasUsed : UInt64) : VirtualTx :=
  let cosmosHash := originalCosmosTxHash E ctx.tx
  let logCtx : LogContext :=
    { blockHash := ctx.blockHash
      blockNumber := ctx.blockNumber
      txHash := txHash
      txIndex := ctx.txIndex
      firstLogIndex := ctx.firstLogIndex
      cosmosHash := some cosmosHash }
  let logs := setLogMetadata (events.flatMap (·.rpcLogs (some cosmosHash))) logCtx
  let status := if r.code ≠ codeTypeOK then receiptStatusFailed else receiptStatusSuccessful
  let build (sender toAddr : Address) (input : Bytes) (txGas receiptGasUsed : UInt64)
      (status : ℕ) (vmError : String) (cosmosMsgIndex : Option ℕ) : VirtualTx :=
    { transaction :=
        { newVirtualRPCTransaction txHash ctx.blockHash ctx.blockNumber ctx.txIndex ctx.chainID
            (some cosmosHash) sender toAddr input txGas with
          cosmosMsgIndex := cosmosMsgIndex }
      receipt :=
        { status := status
          cumulativeGasUsed := ctx.cumulativeGasUsedBefore + receiptGasUsed
          gasUsed := receiptGasUsed
          vmError := vmError
          logs := logs
          transactionHash := txHash
          blockHash := ctx.blockHash
          blockNumber := ctx.blockNumber
          transactionIndex := ctx.txIndex
          effectiveGasPrice := 0
          sender := sender
          toAddr := some toAddr
          type := legacyTxType } }
  match hook with
  | none => build 0 Bank.contractAddress [] 0 gasUsed status "" none
  | some hook =>
    build E.ibcHookCallerAddress hook.contract hook.input hook.gasUsed hook.gasUsed
      (if hook.success then status else receiptStatusFailed) hook.error hook.msgIndex

theorem syntheticTx_hash (E : Env) (r : Response) (ctx : TxContext) (events : List ResponseEntry)
    (hook : Option Ibc.HookCall) (hash : Hash) (gas : UInt64) :
    (r.syntheticTx E ctx events hook hash gas).transaction.hash = hash := by
  cases hook <;> rfl

/-- Take gas out of what is left for the bank transaction. -/
def accountGas (bankGasUsed gas : UInt64) : UInt64 :=
  if gas ≥ bankGasUsed then 0 else bankGasUsed - gas

def TxContext.advance (ctx : TxContext) (tx : VirtualTx) : TxContext :=
  { ctx with
    txIndex := ctx.txIndex + 1
    firstLogIndex := ctx.firstLogIndex + tx.receipt.logs.length
    cumulativeGasUsedBefore := tx.receipt.cumulativeGasUsed }

structure HookEntry where
  entry : ResponseEntry
  msgIndex : ℕ
  hook : Ibc.HookCall
  deriving DecidableEq

/-- Check that the hooks of a response can be identified. -/
def indexedHooks (totalMessages : ℕ) (hooks : List (ResponseEntry × Ibc.HookCall)) :
    Except Err (List HookEntry) :=
  hooks.mapM fun (entry, hook) =>
    match entry.msgIndex with
    | some i =>
      if i ≥ totalMessages then .error (.plain "IBC hook calls require valid msg_index attributes")
      else .ok ⟨entry, i, hook⟩
    | none => .error (.plain "IBC hook calls require valid msg_index attributes")

/-- The synthetic transactions of sorted hooks: `ordinal` counts the hooks already
seen of the message of the previous one. -/
def Response.hookTxs (E : Env) (r : Response) (perMessage : ℕ → ℕ) :
    TxContext → (previous : Option ℕ) → (ordinal : ℕ) → List HookEntry → List VirtualTx
  | _, _, _, [] => []
  | ctx, previous, ordinal, h :: rest =>
    let ordinal := if previous.isSome ∧ previous ≠ some h.msgIndex then 0 else ordinal
    let hash :=
      if perMessage h.msgIndex > 1 then nestedIBCHookTxHash E ctx.tx h.msgIndex ordinal
      else ibcHookTxHash E ctx.tx h.msgIndex
    let tx := r.syntheticTx E ctx [h.entry] (some h.hook) hash h.hook.gasUsed
    tx :: r.hookTxs E perMessage (ctx.advance tx) (some h.msgIndex) (ordinal + 1) rest

def Response.syntheticTxs (E : Env) (r : Response) (ctx : TxContext) :
    Except Err (List VirtualTx) := do
  let events := r.entries.filter fun event =>
    !event.logs.isEmpty &&
      belongsToNonEthereumMessage event.msgIndex ctx.ethereumMessageIndexes ctx.totalMessages
  let hooks := events.filterMap fun event => event.hook.map (Prod.mk event)
  let bankEvents := events.filter (·.hook.isNone)
  if hooks.isEmpty then
    if bankEvents.isEmpty then return []
    else return [r.syntheticTx E ctx bankEvents none (cosmosTxHash E ctx.tx) r.gasUsed]
  else
    let hooks ← indexedHooks ctx.totalMessages hooks
    let perMessage (i : ℕ) : ℕ := hooks.countP (·.msgIndex == i)
    -- hooks of one message keep their event order
    let hooks := hooks.insertionSort (·.msgIndex ≤ ·.msgIndex)
    let ctx := { ctx with
      cumulativeGasUsedBefore := ctx.cumulativeGasUsedBefore + ctx.ethereumGasUsed }
    let bankGasUsed := hooks.foldl (fun gas h => accountGas gas h.hook.gasUsed)
      (accountGas r.gasUsed ctx.ethereumGasUsed)
    if bankEvents.isEmpty then return r.hookTxs E perMessage ctx none 0 hooks
    else
      let tx := r.syntheticTx E ctx bankEvents none (cosmosTxHash E ctx.tx) bankGasUsed
      return tx :: r.hookTxs E perMessage (ctx.advance tx) none 0 hooks

/-! ## Events of a block phase -/

def splitBlockEvents (E : Env) (events : List Event) :
    Except Err (List EthLog × List EthLog) := do
  let bankEvents ← Bank.parseEvents E events
  let beginLogs ← Bank.ethereumLogs E (bankEvents.filter (·.mode = Bank.modeBeginBlock))
  let endLogs ← Bank.ethereumLogs E (bankEvents.filter (·.mode ≠ Bank.modeBeginBlock))
  return (beginLogs, endLogs)

/-- Assign an identity to metadata-free virtual logs. -/
def materializeLogs (logs : List EthLog) (ctx : LogContext) : List RPCLog :=
  setLogMetadata (wrapLogs logs true ctx.cosmosHash) ctx

/-- The synthetic transaction of a block phase. -/
def newBlockTx (hash : Hash) (logs : List EthLog) (ctx : LogContext) (chainID : Option ℤ)
    (cumulativeGasUsed : UInt64) : VirtualTx where
  transaction := newVirtualRPCTransaction hash ctx.blockHash ctx.blockNumber ctx.txIndex chainID
    none 0 Bank.contractAddress [] 0
  receipt :=
    { status := receiptStatusSuccessful
      cumulativeGasUsed := cumulativeGasUsed
      logs := materializeLogs logs ctx
      transactionHash := hash
      blockHash := ctx.blockHash
      blockNumber := ctx.blockNumber
      transactionIndex := ctx.txIndex
      effectiveGasPrice := 0
      sender := 0
      toAddr := some Bank.contractAddress
      type := legacyTxType }

end EvmGateway
