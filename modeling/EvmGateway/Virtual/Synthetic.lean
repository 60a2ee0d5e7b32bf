import EvmGateway.Virtual.Response
import EvmGateway.Lib.Ledger
import EvmGateway.Lib.Lists

/-!
# Synthetic transactions of a response

The synthetic transactions of a response are numbered by a context that moves on with each
of them.  `Numbered` says this without the loop, `syntheticTxs_ok` that the transactions of
a response are the one for its bank events, if there are any, and one for each hook, in the
order of the messages.

`synthetic_gas_conserved` follows the gas: what the bank transaction gets is what the
Ethereum messages and the hooks leave of the gas of the response.

## Main definitions

* `Response.projected`, `Response.bankEntries`, `Response.hookEntries` — the events that are
  projected, and their two kinds.
* `Numbered` — transactions that are numbered one after the other.
* `GasConserved` — what is said about the gas.
-/

namespace EvmGateway

open Lib

variable {events : List ResponseEntry} {txs : List VirtualTx} {ctx : TxContext}
  {hooks : List HookEntry} {E : Env} {r : Response}

/-! ## Projected events -/

def Response.projected (r : Response) (ctx : TxContext) : List ResponseEntry :=
  r.entries.filter fun event =>
    !event.logs.isEmpty &&
      belongsToNonEthereumMessage event.msgIndex ctx.ethereumMessageIndexes ctx.totalMessages

/-- The bank events among them. -/
def Response.bankEntries (r : Response) (ctx : TxContext) : List ResponseEntry :=
  (r.projected ctx).filter (·.hook.isNone)

/-- The hooks among them. -/
def Response.hookEntries (r : Response) (ctx : TxContext) : List ResponseEntry :=
  (r.projected ctx).filter (·.hook.isSome)

def Response.orderedHooks (r : Response) (ctx : TxContext) : List ResponseEntry :=
  (r.hookEntries ctx).insertionSort fun a b => a.msgIndex.getD 0 ≤ b.msgIndex.getD 0

def ResponseEntry.hookGas (event : ResponseEntry) : ℕ := (event.hook.map (·.gasUsed.toNat)).getD 0

def Response.hookGas (r : Response) (ctx : TxContext) : ℕ :=
  ((r.hookEntries ctx).map (·.hookGas)).sum

def TxContext.afterEthereum (ctx : TxContext) : TxContext :=
  { ctx with cumulativeGasUsedBefore := ctx.cumulativeGasUsedBefore + ctx.ethereumGasUsed }

def Response.bankTxs (E : Env) (r : Response) (ctx : TxContext) (gas : UInt64) : List VirtualTx :=
  if (r.bankEntries ctx).isEmpty then []
  else [r.syntheticTx E ctx (r.bankEntries ctx) none (cosmosTxHash E ctx.tx) gas]

/-- A hook entry reads the message and the call off its event. -/
def HookEntry.Of (event : ResponseEntry) (h : HookEntry) : Prop :=
  event = h.entry ∧ event.msgIndex = some h.msgIndex ∧ event.hook = some h.hook

theorem indexedHooks_ok {total : ℕ}
    (h : indexedHooks total (events.filterMap fun event => event.hook.map (Prod.mk event)) =
      .ok hooks) :
    List.Forall₂ HookEntry.Of (events.filter fun event => event.hook.isSome) hooks := by
  induction events generalizing hooks with
  | nil =>
    obtain rfl := Except.ok.inj h
    exact .nil
  | cons event events ih =>
    cases hhook : event.hook with
    | none =>
      rw [List.filter_cons_of_neg (by simp [hhook])]
      rw [List.filterMap_cons_none (by simp [hhook])] at h
      exact ih h
    | some hook =>
      rw [List.filter_cons_of_pos (by simp [hhook])]
      rw [List.filterMap_cons_some (b := (event, hook)) (by simp [hhook]), indexedHooks,
        List.mapM_cons] at h
      obtain ⟨first, hfirst, h⟩ := bind_eq_ok.mp h
      obtain ⟨rest, hrest, h⟩ := bind_eq_ok.mp h
      obtain rfl := Except.ok.inj h
      refine .cons ?_ (ih hrest)
      cases hindex : event.msgIndex with
      | none => simp [hindex] at hfirst
      | some i =>
        simp only [hindex] at hfirst
        split_ifs at hfirst
        obtain rfl := Except.ok.inj hfirst
        exact ⟨rfl, hindex, hhook⟩

/-- Sorting by message keeps events and entries side by side. -/
theorem forall₂_insertionSort_of (h : List.Forall₂ HookEntry.Of events hooks) :
    List.Forall₂ HookEntry.Of
      (events.insertionSort fun a b => a.msgIndex.getD 0 ≤ b.msgIndex.getD 0)
      (hooks.insertionSort fun a b => a.msgIndex ≤ b.msgIndex) := by
  have hentries : events = hooks.map (·.entry) := by
    induction h with
    | nil => rfl
    | cons hof _ ih => rw [List.map_cons, ← hof.1, ih]
  have hof : ∀ h ∈ hooks, h.entry.msgIndex = some h.msgIndex ∧ h.entry.hook = some h.hook := by
    intro hook hmem
    obtain ⟨i, hi⟩ := List.getElem?_of_mem hmem
    obtain ⟨event, -, heq, hindex, hhook⟩ := forall₂_getElem?_right h hi
    subst heq
    exact ⟨hindex, hhook⟩
  rw [hentries, ← List.map_insertionSort (fun a b : HookEntry => a.msgIndex ≤ b.msgIndex)
    (fun a b : ResponseEntry => a.msgIndex.getD 0 ≤ b.msgIndex.getD 0) (·.entry) hooks
    (fun a ha b hb => by simp [(hof a ha).1, (hof b hb).1]), List.forall₂_map_left_iff,
    List.forall₂_same]
  intro hook hmem
  obtain ⟨hindex, hhook⟩ := hof hook ((List.mem_insertionSort _).mp hmem)
  exact ⟨rfl, hindex, hhook⟩

/-- **The synthetic transactions of a response with hooks**: the one of the bank events, then one
for each hook. -/
theorem syntheticTxs_ok (h : r.syntheticTxs E ctx = .ok txs) (hhooks : r.hookEntries ctx ≠ []) :
    ∃ hooks : List HookEntry, List.Forall₂ HookEntry.Of (r.hookEntries ctx) hooks ∧
      let sorted := hooks.insertionSort (·.msgIndex ≤ ·.msgIndex)
      let bankGas := sorted.foldl (fun gas h => accountGas gas h.hook.gasUsed)
        (accountGas r.gasUsed ctx.ethereumGasUsed)
      let bank := r.bankTxs E ctx.afterEthereum bankGas
      txs = bank ++ r.hookTxs E (fun i => hooks.countP (·.msgIndex == i))
        (bank.foldl TxContext.advance ctx.afterEthereum) none 0 sorted := by
  have hsome : ¬ ((r.projected ctx).filterMap fun event =>
      event.hook.map (Prod.mk event)).isEmpty = true := by
    intro hempty
    refine hhooks (List.filter_eq_nil_iff.mpr fun event hevent => ?_)
    have := List.filterMap_eq_nil_iff.mp (List.isEmpty_iff.mp hempty) event hevent
    simpa using this
  unfold Response.syntheticTxs at h
  simp only [← Response.projected.eq_def, if_neg hsome] at h
  obtain ⟨hooks, hok, h⟩ := bind_eq_ok.mp h
  refine ⟨hooks, indexedHooks_ok hok, ?_⟩
  have hbank : r.bankEntries ctx.afterEthereum = r.bankEntries ctx := rfl
  simp only [Response.bankTxs, hbank]
  by_cases hempty : (r.bankEntries ctx).isEmpty = true
  · rw [if_pos hempty]
    rw [← Response.bankEntries.eq_def, if_pos hempty] at h
    exact (Except.ok.inj h).symm
  · rw [if_neg hempty]
    rw [← Response.bankEntries.eq_def, if_neg hempty] at h
    exact (Except.ok.inj h).symm

theorem syntheticTxs_of_noHooks (hhooks : r.hookEntries ctx = []) :
    r.syntheticTxs E ctx = .ok (r.bankTxs E ctx r.gasUsed) := by
  have hnone : ((r.projected ctx).filterMap fun event =>
      event.hook.map (Prod.mk event)).isEmpty = true := by
    rw [List.isEmpty_iff, List.filterMap_eq_nil_iff]
    intro event hevent
    simpa using List.filter_eq_nil_iff.mp hhooks event hevent
  unfold Response.syntheticTxs Response.bankTxs
  simp only [← Response.projected.eq_def, if_pos hnone]
  rw [← Response.bankEntries.eq_def]
  split_ifs <;> rfl

/-! ## Logs -/

/-- The logs of a synthetic transaction name it. -/
def VirtualTx.OwnLogs (tx : VirtualTx) : Prop :=
  ∀ log ∈ tx.receipt.logs,
    log.txHash = tx.receipt.transactionHash ∧ log.txIndex = tx.receipt.transactionIndex

theorem syntheticTx_ownLogs (E : Env) (r : Response) (ctx : TxContext) (events : List ResponseEntry)
    (hook : Option Ibc.HookCall) (hash : Hash) (gas : UInt64) :
    (r.syntheticTx E ctx events hook hash gas).OwnLogs := by
  intro log hlog
  cases hook <;> exact of_mem_setLogMetadata hlog

theorem hookTxs_ownLogs (E : Env) (r : Response) (perMessage : ℕ → ℕ) (hooks : List HookEntry) :
    ∀ (ctx : TxContext) (previous : Option ℕ) (ordinal : ℕ),
      ∀ tx ∈ r.hookTxs E perMessage ctx previous ordinal hooks, tx.OwnLogs := by
  induction hooks with
  | nil =>
    intro ctx previous ordinal
    exact List.forall_mem_nil _
  | cons hook hooks ih =>
    intro ctx previous ordinal
    exact List.forall_mem_cons.mpr ⟨syntheticTx_ownLogs _ _ _ _ _ _ _, ih _ _ _⟩

theorem syntheticTxs_ownLogs (h : r.syntheticTxs E ctx = .ok txs) : ∀ tx ∈ txs, tx.OwnLogs := by
  have hbank : ∀ (ctx : TxContext) (gas : UInt64), ∀ tx ∈ r.bankTxs E ctx gas, tx.OwnLogs := by
    intro ctx gas
    unfold Response.bankTxs
    split_ifs
    · exact List.forall_mem_nil _
    · exact List.forall_mem_singleton.mpr (syntheticTx_ownLogs _ _ _ _ _ _ _)
  by_cases hhooks : r.hookEntries ctx = []
  · rw [syntheticTxs_of_noHooks hhooks] at h
    obtain rfl := Except.ok.inj h
    exact hbank ctx r.gasUsed
  · obtain ⟨hooks, -, rfl⟩ := syntheticTxs_ok h hhooks
    exact List.forall_mem_append.mpr ⟨hbank _ _, hookTxs_ownLogs _ _ _ _ _ _ _⟩

/-! ## Numbering -/

/-- Transactions that are numbered from a context on: positions, log indexes and cumulative gas. -/
def Numbered : TxContext → List VirtualTx → Prop
  | _, [] => True
  | ctx, tx :: txs =>
    (tx.receipt.transactionIndex = ctx.txIndex ∧
      tx.receipt.logs.map (·.index) = List.range' ctx.firstLogIndex tx.receipt.logs.length ∧
      tx.receipt.cumulativeGasUsed = ctx.cumulativeGasUsedBefore + tx.receipt.gasUsed) ∧
    Numbered (ctx.advance tx) txs

section Numbered

variable {E : Env} {r : Response}

theorem map_index_setLogMetadata (logs : List RPCLog) (ctx : LogContext) :
    (setLogMetadata logs ctx).map (·.index) = List.range' ctx.firstLogIndex logs.length := by
  refine List.ext_getElem (by simp) fun i hi hi' => ?_
  simp [setLogMetadata, RPCLog.withMetadata]

theorem Numbered.syntheticTx (events : List ResponseEntry) (hook : Option Ibc.HookCall)
    (hash : Hash) (gas : UInt64)
    (h : Numbered (ctx.advance (r.syntheticTx E ctx events hook hash gas)) txs) :
    Numbered ctx (r.syntheticTx E ctx events hook hash gas :: txs) := by
  refine ⟨?_, h⟩
  cases hook with
  | none =>
    refine ⟨rfl, ?_, rfl⟩
    simp only [Response.syntheticTx, map_index_setLogMetadata, length_setLogMetadata]
  | some hook =>
    refine ⟨rfl, ?_, rfl⟩
    simp only [Response.syntheticTx, map_index_setLogMetadata, length_setLogMetadata]

theorem numbered_hookTxs (perMessage : ℕ → ℕ) (hooks : List HookEntry) :
    ∀ (ctx : TxContext) (previous : Option ℕ) (ordinal : ℕ),
      Numbered ctx (r.hookTxs E perMessage ctx previous ordinal hooks) := by
  induction hooks with
  | nil =>
    intro ctx previous ordinal
    trivial
  | cons hook hooks ih =>
    intro ctx previous ordinal
    exact Numbered.syntheticTx _ _ _ _ (ih _ _ _)

theorem numbered_bankTxs_append {gas : UInt64}
    (h : Numbered ((r.bankTxs E ctx gas).foldl TxContext.advance ctx) txs) :
    Numbered ctx (r.bankTxs E ctx gas ++ txs) := by
  unfold Response.bankTxs at h ⊢
  split_ifs at h ⊢ with hbank
  · exact h
  · exact Numbered.syntheticTx _ _ _ _ h

namespace Numbered

variable {ctx : TxContext} {txs : List VirtualTx}

theorem transactionIndex (h : Numbered ctx txs) :
    txs.map (·.receipt.transactionIndex) = List.range' ctx.txIndex txs.length := by
  induction txs generalizing ctx with
  | nil => rfl
  | cons tx txs ih =>
    obtain ⟨⟨hindex, -, -⟩, h⟩ := h
    rw [List.map_cons, hindex, ih h, List.length_cons, List.range'_succ]
    rfl

theorem logIndex (h : Numbered ctx txs) :
    (txs.flatMap (·.receipt.logs)).map (·.index) =
      List.range' ctx.firstLogIndex (txs.flatMap (·.receipt.logs)).length := by
  induction txs generalizing ctx with
  | nil => rfl
  | cons tx txs ih =>
    obtain ⟨⟨-, hlogs, -⟩, h⟩ := h
    rw [List.flatMap_cons, List.map_append, hlogs, ih h, List.length_append, ← List.range'_append_1]
    rfl

/-- Cumulative gas is the running sum, as long as it fits. -/
theorem cumulative (h : Numbered ctx txs)
    (hfit : ctx.cumulativeGasUsedBefore.toNat + (txs.map (·.receipt.gasUsed.toNat)).sum < 2 ^ 64) :
    txs.map (·.receipt.cumulativeGasUsed.toNat) =
      sumsFrom ctx.cumulativeGasUsedBefore.toNat (txs.map (·.receipt.gasUsed.toNat)) := by
  induction txs generalizing ctx with
  | nil => rfl
  | cons tx txs ih =>
    obtain ⟨⟨-, -, hgas⟩, h⟩ := h
    rw [List.map_cons, List.sum_cons] at hfit
    have hsum : tx.receipt.cumulativeGasUsed.toNat =
        ctx.cumulativeGasUsedBefore.toNat + tx.receipt.gasUsed.toNat := by
      rw [hgas, UInt64.toNat_add, Nat.mod_eq_of_lt (by omega)]
    have hrest := ih h (by
      change tx.receipt.cumulativeGasUsed.toNat + _ < 2 ^ 64
      omega)
    rw [List.map_cons, List.map_cons, sumsFrom, hrest, ← hsum]
    rfl

end Numbered

end Numbered

/-! ## Gas -/

theorem toNat_accountGas (bankGasUsed gas : UInt64) :
    (accountGas bankGasUsed gas).toNat = bankGasUsed.toNat - gas.toNat := by
  unfold accountGas
  split_ifs with h
  · have hle := UInt64.le_iff_toNat_le.mp h
    rw [UInt64.toNat_zero]
    omega
  · exact UInt64.toNat_sub_of_le _ _ (UInt64.le_of_lt (UInt64.not_le.mp h))

theorem toNat_foldl_accountGas (hooks : List HookEntry) (bankGasUsed : UInt64) :
    (hooks.foldl (fun gas h => accountGas gas h.hook.gasUsed) bankGasUsed).toNat =
      bankGasUsed.toNat - (hooks.map (·.hook.gasUsed.toNat)).sum := by
  induction hooks generalizing bankGasUsed with
  | nil => rfl
  | cons hook hooks ih =>
    rw [List.foldl_cons, ih, toNat_accountGas, List.map_cons, List.sum_cons, Nat.sub_sub]

/-- A transaction shows a hook: its target, its input and its gas. -/
def ResponseEntry.ShownBy (event : ResponseEntry) (tx : VirtualTx) : Prop :=
  ∃ hook, event.hook = some hook ∧ tx.receipt.toAddr = some hook.contract ∧
    tx.transaction.input = hook.input ∧ tx.receipt.gasUsed = hook.gasUsed

theorem hookTxs_shown (E : Env) (r : Response) (perMessage : ℕ → ℕ)
    (h : List.Forall₂ HookEntry.Of events hooks) :
    ∀ (ctx : TxContext) (previous : Option ℕ) (ordinal : ℕ), List.Forall₂ ResponseEntry.ShownBy
      events (r.hookTxs E perMessage ctx previous ordinal hooks) := by
  induction h with
  | nil =>
    intro ctx previous ordinal
    exact .nil
  | cons hof _ ih =>
    intro ctx previous ordinal
    exact .cons ⟨_, hof.2.2, rfl, rfl, rfl⟩ (ih _ _ _)

theorem map_gasUsed_of_shown (h : List.Forall₂ ResponseEntry.ShownBy events txs) :
    txs.map (·.receipt.gasUsed.toNat) = events.map (·.hookGas) := by
  induction h with
  | nil => rfl
  | cons hshown _ ih =>
    obtain ⟨hook, hhook, -, -, hgas⟩ := hshown
    rw [List.map_cons, ih, List.map_cons, hgas, ResponseEntry.hookGas, hhook]
    rfl

theorem map_hookGas_of (h : List.Forall₂ HookEntry.Of events hooks) :
    hooks.map (·.hook.gasUsed.toNat) = events.map (·.hookGas) := by
  induction h with
  | nil => rfl
  | cons hof _ ih =>
    rw [List.map_cons, ih, List.map_cons, ResponseEntry.hookGas, hof.2.2]
    rfl

theorem sum_orderedHooks (r : Response) (ctx : TxContext) :
    ((r.orderedHooks ctx).map (·.hookGas)).sum = r.hookGas ctx :=
  ((List.perm_insertionSort _ _).map _).sum_eq

/-- The gas and the numbers of the synthetic transactions of a response: the transaction of the
bank events, if there is one, then one for each hook in the order of the messages. -/
structure GasConserved (r : Response) (ctx : TxContext) (bank hooks : List VirtualTx) : Prop where
  transactionIndex : (bank ++ hooks).map (·.receipt.transactionIndex) =
    List.range' ctx.txIndex (bank ++ hooks).length
  logIndex : ((bank ++ hooks).flatMap (·.receipt.logs)).map (·.index) =
    List.range' ctx.firstLogIndex ((bank ++ hooks).flatMap (·.receipt.logs)).length
  hookGas : List.Forall₂ ResponseEntry.ShownBy (r.orderedHooks ctx) hooks
  bankGas : bank.map (·.receipt.gasUsed.toNat) = if r.bankEntries ctx = [] then []
    else [r.gasUsed.toNat - ctx.ethereumGasUsed.toNat - r.hookGas ctx]
  cumulative : (bank ++ hooks).map (·.receipt.cumulativeGasUsed.toNat) =
    sumsFrom (ctx.cumulativeGasUsedBefore.toNat + ctx.ethereumGasUsed.toNat)
      ((bank ++ hooks).map (·.receipt.gasUsed.toNat))
  last : bank ≠ [] → ((bank ++ hooks).map (·.receipt.cumulativeGasUsed.toNat)).getLast? =
    some (ctx.cumulativeGasUsedBefore.toNat +
      max r.gasUsed.toNat (ctx.ethereumGasUsed.toNat + r.hookGas ctx))

theorem map_gasUsed_bankTxs (E : Env) (r : Response) (ctx : TxContext) (gas : UInt64) :
    (r.bankTxs E ctx gas).map (·.receipt.gasUsed.toNat) =
      if r.bankEntries ctx = [] then [] else [gas.toNat] := by
  unfold Response.bankTxs
  by_cases hbank : r.bankEntries ctx = []
  · rw [if_pos hbank, if_pos (List.isEmpty_iff.mpr hbank)]
    rfl
  · rw [if_neg hbank, if_neg (mt List.isEmpty_iff.mp hbank)]
    rfl

/-- **Gas is conserved.** The hooks of a response keep their gas, the bank events get what the
Ethereum messages and the hooks leave of the gas of the response, and the cumulative gas adds
up. -/
theorem synthetic_gas_conserved (E : Env) (r : Response) (ctx : TxContext) {txs : List VirtualTx}
    (h : r.syntheticTxs E ctx = .ok txs) (hhooks : r.hookEntries ctx ≠ [])
    (hfit : ctx.cumulativeGasUsedBefore.toNat + ctx.ethereumGasUsed.toNat + r.hookGas ctx < 2 ^ 64)
    (hbank : r.bankEntries ctx ≠ [] →
      ctx.cumulativeGasUsedBefore.toNat + r.gasUsed.toNat < 2 ^ 64) :
    ∃ bank hooks, txs = bank ++ hooks ∧ GasConserved r ctx bank hooks := by
  obtain ⟨hooks, hof, htxs⟩ := syntheticTxs_ok h hhooks
  have hsorted := forall₂_insertionSort_of hof
  set sorted := hooks.insertionSort (·.msgIndex ≤ ·.msgIndex)
  set gas := sorted.foldl (fun gas h => accountGas gas h.hook.gasUsed)
    (accountGas r.gasUsed ctx.ethereumGasUsed) with hgas
  have hgasNat : gas.toNat = r.gasUsed.toNat - ctx.ethereumGasUsed.toNat - r.hookGas ctx := by
    rw [hgas, toNat_foldl_accountGas, toNat_accountGas, map_hookGas_of hsorted]
    exact congrArg _ (sum_orderedHooks r ctx)
  set bank := r.bankTxs E ctx.afterEthereum gas with hbankTxs
  have hbankGas : bank.map (·.receipt.gasUsed.toNat) = if r.bankEntries ctx = [] then []
      else [r.gasUsed.toNat - ctx.ethereumGasUsed.toNat - r.hookGas ctx] := by
    rw [hbankTxs, map_gasUsed_bankTxs, hgasNat]
    rfl
  have hshown : List.Forall₂ ResponseEntry.ShownBy (r.orderedHooks ctx) _ :=
    hookTxs_shown E r (fun i => hooks.countP (·.msgIndex == i)) hsorted
      (bank.foldl TxContext.advance ctx.afterEthereum) none 0
  have hnumbered : Numbered ctx.afterEthereum txs :=
    htxs ▸ numbered_bankTxs_append (numbered_hookTxs _ _ _ _ _)
  have hsum : (txs.map (·.receipt.gasUsed.toNat)).sum =
      (bank.map (·.receipt.gasUsed.toNat)).sum + r.hookGas ctx := by
    rw [htxs, List.map_append, List.sum_append, map_gasUsed_of_shown hshown, sum_orderedHooks]
  -- what the receipts add up to with and without a bank receipt
  have hnone : r.bankEntries ctx = [] → (txs.map (·.receipt.gasUsed.toNat)).sum = r.hookGas ctx := by
    intro hempty
    rw [hsum, hbankGas, if_pos hempty, List.sum_nil, Nat.zero_add]
  have hsome : r.bankEntries ctx ≠ [] → (txs.map (·.receipt.gasUsed.toNat)).sum =
      r.gasUsed.toNat - ctx.ethereumGasUsed.toNat - r.hookGas ctx + r.hookGas ctx := by
    intro hne
    rw [hsum, hbankGas, if_neg hne, List.sum_singleton]
  have hbefore : ctx.afterEthereum.cumulativeGasUsedBefore.toNat =
      ctx.cumulativeGasUsedBefore.toNat + ctx.ethereumGasUsed.toNat := by
    rw [TxContext.afterEthereum, UInt64.toNat_add, Nat.mod_eq_of_lt (by omega)]
  have hcumulative := hnumbered.cumulative (by
    rw [hbefore]
    by_cases hempty : r.bankEntries ctx = []
    · rw [hnone hempty]
      exact hfit
    · have := hbank hempty
      rw [hsome hempty]
      omega)
  rw [hbefore] at hcumulative
  subst htxs
  exact ⟨bank, _, rfl,
    { transactionIndex := hnumbered.transactionIndex
      logIndex := hnumbered.logIndex
      hookGas := hshown
      bankGas := hbankGas
      cumulative := hcumulative
      last := by
        intro hne
        have hentries : r.bankEntries ctx ≠ [] := by
          intro hempty
          rw [if_pos hempty, List.map_eq_nil_iff] at hbankGas
          exact hne hbankGas
        rw [hcumulative, getLast?_sumsFrom, hsome hentries]
        · congr 1
          omega
        · rw [Ne, List.map_eq_nil_iff]
          exact List.append_ne_nil_of_left_ne_nil hne _ }⟩

def EthLog.plain : EthLog := { address := 0, topics := [], data := [] }

def Ibc.HookCall.sample (gasUsed : UInt64) (msgIndex : ℕ) : Ibc.HookCall where
  destinationPort := "transfer"
  destinationChannel := "channel-0"
  sequence := 1
  contract := 7
  input := []
  success := true
  returnData := []
  error := ""
  gasUsed := gasUsed
  logs := [.plain]
  msgIndex := some msgIndex

/-- Hooks out of order around a bank event, two of them of one message. -/
def Response.sample : Response where
  entries :=
    [{ logs := [.plain], msgIndex := some 2, hook := some (.sample 30 2) },
      { logs := [.plain, .plain], msgIndex := some 0 },
      { logs := [.plain], msgIndex := some 1, hook := some (.sample 20 1) },
      { logs := [.plain], msgIndex := some 1, hook := some (.sample 15 1) }]
  code := 0
  gasUsed := 100

/-- The context of a transaction with an Ethereum message behind two others. -/
def TxContext.sample : TxContext where
  tx := [1]
  ethereumMessageIndexes := [3]
  ethereumGasUsed := 10
  totalMessages := 4
  blockHash := 5
  blockNumber := 1
  txIndex := 6
  firstLogIndex := 8
  cumulativeGasUsedBefore := 1000
  chainID := none

theorem synthetic_gas_conserved_sample : ∃ txs bank hooks : List VirtualTx,
    Response.sample.syntheticTxs .sample .sample = .ok txs ∧ txs = bank ++ hooks ∧
      GasConserved .sample .sample bank hooks := by
  obtain ⟨txs, htxs⟩ : ∃ txs, Response.sample.syntheticTxs .sample .sample = .ok txs := ⟨_, rfl⟩
  obtain ⟨bank, hooks, happend, hgas⟩ := synthetic_gas_conserved .sample .sample .sample htxs
    (by decide) (by decide) (by decide)
  exact ⟨txs, bank, hooks, htxs, happend, hgas⟩

end EvmGateway
