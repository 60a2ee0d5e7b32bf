import EvmGateway.Indexer.Records

/-!
# The layout of a block

Which visible transactions a block has, in which order, and which logs each of them
holds, said without the loop that numbers them.  A visible transaction has a slot: a
block phase, or a message, the bank events or a hook of one Cosmos transaction.  Every
tracked event is assigned one slot (`eventSlot`), and the logs of a slot are those of
the events assigned to it.

A `Piece` is a slot with its logs and its cumulative gas, as the inputs determine them.
`buildBlock_stores` says that the indexing loop stores the pieces of the block one by
one, numbering their logs as it goes.

## Main definitions

* `Slot`, `BlockSlot`, `eventSlot` — slots, and the slot of an event.
* `txSlots` — the slots of a Cosmos transaction in order.
* `Piece`, `txPieces`, `blockPieces` — what the inputs say about each slot.
* `StoresAll` — entries that hold the pieces.
-/

namespace EvmGateway

open Lib

/-! ## Slots -/

/-- A visible transaction of a Cosmos transaction: one of its messages, its bank events
together, or the hook of one of its tracked events. -/
inductive Slot where
  | message (i : ℕ)
  | bank
  | hook (k : ℕ)
  deriving DecidableEq

inductive BlockSlot where
  | beginBlock
  | tx (i : ℕ) (slot : Slot)
  | endBlock
  deriving DecidableEq

/-- The Ethereum message an event belongs to: the one it names, or the only message of
the transaction. -/
def eventMessage (msgs : List Msg) (entry : ResponseEntry) : Option ℕ :=
  match entry.msgIndex with
  | some i => if i ∈ ethMsgIndexes msgs then some i else none
  | none => if msgs.length = 1 ∧ 0 ∈ ethMsgIndexes msgs then some 0 else none

/-- The slot of the tracked event at a position. -/
def eventSlot (msgs : List Msg) (entry : ResponseEntry) (k : ℕ) : Slot :=
  match eventMessage msgs entry with
  | some i => .message i
  | none => if entry.hook.isSome then .hook k else .bank

def slotEvents (msgs : List Msg) (r : Response) (slot : Slot) : List (ResponseEntry × ℕ) :=
  r.entries.zipIdx.filter fun e => eventSlot msgs e.1 e.2 = slot

def hookEvents (msgs : List Msg) (r : Response) : List (ResponseEntry × ℕ) :=
  r.entries.zipIdx.filter fun e => eventSlot msgs e.1 e.2 = .hook e.2

/-- Hooks are ordered by message, and by event within a message. -/
def HookBefore (a b : ResponseEntry × ℕ) : Prop :=
  a.1.msgIndex.getD 0 < b.1.msgIndex.getD 0 ∨
    a.1.msgIndex.getD 0 = b.1.msgIndex.getD 0 ∧ a.2 ≤ b.2

instance : DecidableRel HookBefore := fun a b =>
  inferInstanceAs (Decidable (a.1.msgIndex.getD 0 < b.1.msgIndex.getD 0 ∨
    a.1.msgIndex.getD 0 = b.1.msgIndex.getD 0 ∧ a.2 ≤ b.2))

/-- The hooks of a transaction in the order of their slots. -/
def sortedHooks (msgs : List Msg) (r : Response) : List (ResponseEntry × ℕ) :=
  (hookEvents msgs r).insertionSort HookBefore

def hasBankLogs (msgs : List Msg) (r : Response) : Bool :=
  (slotEvents msgs r .bank).any fun e => !e.1.logs.isEmpty

def syntheticSlots (msgs : List Msg) (r : Response) : List Slot :=
  (if hasBankLogs msgs r then [.bank] else []) ++
    (sortedHooks msgs r).map fun e => .hook e.2

/-- **The slots of a transaction**: its Ethereum messages in order, its bank events if
they have logs, its other hooks by message and event. -/
def txSlots (msgs : List Msg) (r : Response) : List Slot :=
  (ethMsgIndexes msgs).map .message ++ syntheticSlots msgs r

/-! ## Gas -/

def parsedTxs (E : Env) (tx : SdkTx) (result : ExecTxResult) : ParsedTxs :=
  match parseTxResult E result (some tx) with
  | .ok txs => txs
  | .error _ => {}

/-- The gas a message is charged: its limit if the failure is outside the EVM, otherwise
what its result says. -/
def chargedGas (E : Env) (tx : SdkTx) (result : ExecTxResult) (msgIndex : ℕ) (msg : Msg) : ℕ :=
  match msg.ethereum? with
  | none => 0
  | some ethMsg =>
    if result.code ≠ codeTypeOK ∧ result.codespace ≠ E.moduleName then ethMsg.gas.toNat
    else (((parsedTxs E tx result).getTxByMsgIndex msgIndex).map (·.gasUsed.toNat)).getD 0

def chargedBefore (E : Env) (tx : SdkTx) (result : ExecTxResult) (n : ℕ) : ℕ :=
  ((tx.msgs.zipIdx.take n).map fun e => chargedGas E tx result e.2 e.1).sum

/-- The gas the Ethereum messages of a transaction are charged together. -/
def chargedTotal (E : Env) (tx : SdkTx) (result : ExecTxResult) : ℕ :=
  if isEthTx tx then chargedBefore E tx result tx.msgs.length else 0

def hookGas (e : ResponseEntry × ℕ) : UInt64 := (e.1.hook.map (·.gasUsed)).getD 0

/-- The gas left for the bank events of a transaction with hooks. -/
def bankGas (msgs : List Msg) (r : Response) (ethereumGas : ℕ) : ℕ :=
  ((sortedHooks msgs r).foldl (fun gas e => accountGas gas (hookGas e))
    (accountGas r.gasUsed (UInt64.ofNat ethereumGas))).toNat

def resultGas (result : ExecTxResult) : ℕ := result.gasUsed.toUInt64.toNat

/-- The gas of the first results of a block. -/
def gasBefore (txResults : List (Option ExecTxResult)) (n : ℕ) : ℕ :=
  ((txResults.take n).map fun r => (r.map resultGas).getD 0).sum

theorem gasBefore_succ (all : List (Option ExecTxResult)) (k : ℕ) :
    gasBefore all (k + 1) =
      gasBefore all k + ((all[k]?.bind id).map resultGas).getD 0 := by
  cases hk : all[k]? with
  | none => simp [gasBefore, List.take_add_one, hk]
  | some result => simp [gasBefore, List.take_add_one, hk]

theorem ofNat_gasBefore_succ {txResults : List (Option ExecTxResult)} {i : ℕ}
    {result : ExecTxResult} (hresult : txResults[i]? = some (some result)) :
    UInt64.ofNat (gasBefore txResults (i + 1)) =
      UInt64.ofNat (gasBefore txResults i) + result.gasUsed.toUInt64 := by
  rw [gasBefore_succ, hresult, UInt64.ofNat_add]
  simp [resultGas]

theorem gasBefore_normalized {input output : List (Option ExecTxResult)}
    (h : List.Forall₂ (Option.Rel SameButData) input output) (n : ℕ) :
    gasBefore output n = gasBefore input n := by
  induction h generalizing n with
  | nil => rfl
  | cons hres _ ih =>
    cases n with
    | zero => rfl
    | succ n =>
      have hrest := ih n
      unfold gasBefore at hrest ⊢
      rw [List.take_succ_cons, List.take_succ_cons, List.map_cons, List.map_cons, List.sum_cons,
        List.sum_cons, hrest]
      cases hres with
      | none => rfl
      | some hsame =>
        rw [hsame.fields]
        rfl

/-! ## Pieces -/

theorem ethMsgIndexes_eq (msgs : List Msg) :
    ethMsgIndexes msgs = (msgs.zipIdx.filter fun e => e.1.ethereum?.isSome).map Prod.snd := by
  rw [ethMsgIndexes, ← List.filterMap_eq_map, List.filterMap_filter]
  refine List.filterMap_congr fun e _ => ?_
  cases hmsg : e.1.ethereum? <;> simp [hmsg]

/-- A slot with its logs and its cumulative gas. -/
structure Piece where
  slot : BlockSlot
  /-- the logs of an Ethereum message itself -/
  native : List RPCLog := []
  /-- the logs of the events of the slot -/
  events : List RPCLog
  cosmosHash : Option Hash := none
  hook : Option Ibc.HookCall := none
  cumulative : ℕ

/-- The logs a message emitted itself. -/
def nativeLogs (E : Env) (block : Block) (result : ExecTxResult) (msgIndex : ℕ) : List RPCLog :=
  if result.data = [] then []
  else
    match E.decodeMsgLogs result.data msgIndex block.height with
    | .ok logs => wrapLogs logs false none
    | .error _ => []

def eventLogs (msgs : List Msg) (r : Response) (slot : Slot) (cosmosHash : Option Hash) :
    List RPCLog :=
  (slotEvents msgs r slot).flatMap fun e => e.1.rpcLogs cosmosHash

def messagePiece (E : Env) (block : Block) (txIndex : ℕ) (tx : SdkTx) (result : ExecTxResult)
    (response : Option Response) (before : ℕ) (msgIndex : ℕ) : Piece where
  slot := .tx txIndex (.message msgIndex)
  native := nativeLogs E block result msgIndex
  events := (response.map fun r => eventLogs tx.msgs r (.message msgIndex) none).getD []
  cumulative := before + chargedBefore E tx result (msgIndex + 1)

def messagePieces (E : Env) (block : Block) (txIndex : ℕ) (tx : SdkTx) (result : ExecTxResult)
    (response : Option Response) (before : ℕ) : List Piece :=
  if isEthTx tx then
    (ethMsgIndexes tx.msgs).map (messagePiece E block txIndex tx result response before)
  else []

def hookPieces (E : Env) (txIndex : ℕ) (rawTx : Bytes) :
    ℕ → List (ResponseEntry × ℕ) → List Piece
  | _, [] => []
  | before, e :: rest =>
    { slot := .tx txIndex (.hook e.2)
      events := e.1.rpcLogs (some (originalCosmosTxHash E rawTx))
      cosmosHash := some (originalCosmosTxHash E rawTx)
      hook := e.1.hook
      cumulative := before + (hookGas e).toNat } ::
      hookPieces E txIndex rawTx (before + (hookGas e).toNat) rest

def bankPieces (E : Env) (txIndex : ℕ) (rawTx : Bytes) (msgs : List Msg) (r : Response)
    (cumulative : ℕ) : List Piece :=
  if hasBankLogs msgs r then
    [{ slot := .tx txIndex .bank
       events := eventLogs msgs r .bank (some (originalCosmosTxHash E rawTx))
       cosmosHash := some (originalCosmosTxHash E rawTx)
       cumulative := cumulative }]
  else []

/-- The pieces of the synthetic slots of a transaction.  Without hooks the bank events
stand for the whole gas of the result, with hooks for what is left of it. -/
def syntheticPieces (E : Env) (txIndex : ℕ) (rawTx : Bytes) (msgs : List Msg) (r : Response)
    (before ethereumGas : ℕ) : List Piece :=
  if sortedHooks msgs r = [] then bankPieces E txIndex rawTx msgs r (before + r.gasUsed.toNat)
  else
    let bank := if hasBankLogs msgs r then bankGas msgs r ethereumGas else 0
    bankPieces E txIndex rawTx msgs r (before + ethereumGas + bank) ++
      hookPieces E txIndex rawTx (before + ethereumGas + bank) (sortedHooks msgs r)

def readResponse (E : Env) (virtualize : Bool) (result : ExecTxResult) : Option Response :=
  if virtualize then (parseResponse E result).toOption else none

def txPieces (E : Env) (virtualize : Bool) (block : Block) (txIndex : ℕ) (rawTx : Bytes)
    (result : ExecTxResult) (before : ℕ) : List Piece :=
  match E.txDecoder rawTx with
  | .error _ => []
  | .ok tx =>
    let response := readResponse E virtualize result
    messagePieces E block txIndex tx result response before ++
      (response.map fun r =>
        syntheticPieces E txIndex rawTx tx.msgs r before (chargedTotal E tx result)).getD []

def piecesAt (E : Env) (virtualize : Bool) (block : Block) (txResults : List (Option ExecTxResult))
    (txIndex : ℕ) (rawTx : Bytes) : List Piece :=
  match txResults[txIndex]? with
  | some (some result) =>
    txPieces E virtualize block txIndex rawTx result (gasBefore txResults txIndex)
  | _ => []

def phasePieces (slot : BlockSlot) (logs : List EthLog) (cumulative : ℕ) : List Piece :=
  if logs.isEmpty then []
  else [{ slot := slot, events := wrapLogs logs true none, cumulative := cumulative }]

/-- **The pieces of a block**, given its normalised results. -/
def blockPieces (E : Env) (virtualize : Bool) (block : Block) (results : Option BlockResults)
    (txResults : List (Option ExecTxResult)) : List Piece :=
  phasePieces .beginBlock (phaseLogs E virtualize results).1 0 ++
  (block.txs.zipIdx.flatMap fun e => piecesAt E virtualize block txResults e.2 e.1) ++
  phasePieces .endBlock (phaseLogs E virtualize results).2 (gasBefore txResults block.txs.length)

/-! ## Entries that hold pieces -/

def Piece.Names (E : Env) (block : Block) (p : Piece) (e : Entry) : Prop :=
  match p.slot with
  | .beginBlock => e.result = none ∧ e.hash = beginBlockHash E block.height
  | .endBlock => e.result = none ∧ e.hash = endBlockHash E block.height
  | .tx i (.message m) => ∃ r, e.result = some r ∧ r.txIndex = i ∧ r.msgIndex = m
  | .tx _ _ => e.result = none ∧ e.tx.cosmosHash = p.cosmosHash ∧
      e.tx.toAddr = some ((p.hook.map (·.contract)).getD Bank.contractAddress) ∧
      e.tx.cosmosMsgIndex = p.hook.bind (·.msgIndex)

def Piece.logContext (p : Piece) (block : Block) (hash : Hash) (position logIndex : ℕ) :
    LogContext where
  blockHash := block.ethHash
  blockNumber := block.height
  txHash := hash
  txIndex := position
  firstLogIndex := logIndex
  cosmosHash := p.cosmosHash

/-- The logs of a piece as they are stored.  Without virtualisation they keep the
numbers they come with. -/
def Piece.logs (virtualize : Bool) (p : Piece) (block : Block) (hash : Hash)
    (position logIndex : ℕ) : List RPCLog :=
  if virtualize then
    setLogMetadata (p.native ++ p.events) (p.logContext block hash position logIndex)
  else p.native

structure Piece.Stored (E : Env) (virtualize : Bool) (block : Block) (position logIndex : ℕ)
    (p : Piece) (e : Entry) : Prop where
  names : p.Names E block e
  cumulative : e.receipt.cumulativeGasUsed = UInt64.ofNat p.cumulative
  logs : e.receipt.logs = p.logs virtualize block e.hash position logIndex

/-- The number of logs of a list of entries. -/
def logCount (es : List Entry) : ℕ := (es.flatMap (·.receipt.logs)).length

/-- The entries hold the pieces, one by one. -/
structure StoresAll (E : Env) (virtualize : Bool) (block : Block) (ps : List Piece)
    (es : List Entry) : Prop where
  length : ps.length = es.length
  stored : ∀ (k : ℕ) (p : Piece) (e : Entry), ps[k]? = some p → es[k]? = some e →
    p.Stored E virtualize block k (logCount (es.take k)) e

end EvmGateway
