import EvmGateway.Indexer.LayoutLoop

/-!
# Cumulative gas of stored receipts

The receipts of a block count gas per message, per hook and per bank aggregate, while the
block counts the gas of its results.  The two counts differ: a message that failed
outside the EVM is charged its gas limit, a hook what its event says, and the bank events
of a transaction without hooks stand for the whole gas of the result.

`cumulative_gas_iff` says exactly when the receipts are still cumulative.  The condition
is about the gas amounts of the transactions alone: bank events without hooks must cover
the messages before them, and what a transaction is charged must fit in the gas of its
result together with the headroom up to the next receipt.

## Main definitions

* `TxGas`, `txGas`, `blockGas` — the gas amounts of a transaction and of a block.
* `GasCovered` — the condition on them.
* `GasCumulative` — receipts that are cumulative.
-/

namespace EvmGateway

open Lib

/-! ## The gas amounts of a transaction -/

structure TxGas where
  /-- the gas of the result -/
  used : ℕ := 0
  /-- what each Ethereum message is charged -/
  messages : List ℕ := []
  /-- what the bank events stand for, if they have logs: with hooks for what is left after
  messages and hooks, without hooks for the whole transaction -/
  bank : Option ℕ := none
  /-- what the hooks are charged, in the order of their slots -/
  hooks : List ℕ := []

/-- All amounts, in the order of their receipts. -/
def TxGas.charges (t : TxGas) : List ℕ := t.messages ++ t.bank.toList ++ t.hooks

/-- The gas up to the last receipt of the transaction. -/
def TxGas.charged (t : TxGas) : ℕ :=
  if t.hooks = [] then t.bank.getD t.messages.sum
  else t.messages.sum + t.bank.getD 0 + t.hooks.sum

/-- Bank events without hooks stand for at least what the messages are charged. -/
def TxGas.BankCovers (t : TxGas) : Prop :=
  t.hooks = [] → t.messages ≠ [] → ∀ gas ∈ t.bank, t.messages.sum ≤ gas

instance (t : TxGas) : Decidable t.BankCovers :=
  inferInstanceAs (Decidable (t.hooks = [] → t.messages ≠ [] → ∀ gas ∈ t.bank, t.messages.sum ≤ gas))

/-- The gas up to the first receipt of the transactions, or all their gas. -/
def headroom : List TxGas → ℕ
  | [] => 0
  | t :: rest => t.charges.head?.getD (t.used + headroom rest)

/-- **The gas of the results covers the receipts**: a transaction with receipts is charged
no more than the gas of its result and the headroom after it. -/
def GasCovered : List TxGas → Prop
  | [] => True
  | t :: rest =>
    t.BankCovers ∧ (t.charges ≠ [] → t.charged ≤ t.used + headroom rest) ∧ GasCovered rest

instance decidableGasCovered : (ts : List TxGas) → Decidable (GasCovered ts)
  | [] => .isTrue trivial
  | t :: rest =>
    have := decidableGasCovered rest
    inferInstanceAs (Decidable (t.BankCovers ∧
      (t.charges ≠ [] → t.charged ≤ t.used + headroom rest) ∧ GasCovered rest))

def messageGas (E : Env) (tx : SdkTx) (result : ExecTxResult) : List ℕ :=
  if isEthTx tx then
    (tx.msgs.zipIdx.filter fun e => e.1.ethereum?.isSome).map fun e => chargedGas E tx result e.2 e.1
  else []

/-- What the bank events of a transaction stand for. -/
def bankCharge (msgs : List Msg) (r : Response) (ethereumGas : ℕ) : Option ℕ :=
  if hasBankLogs msgs r then
    some (if sortedHooks msgs r = [] then r.gasUsed.toNat else bankGas msgs r ethereumGas)
  else none

/-- The gas amounts of a transaction, from its messages, its result and its events. -/
def txGas (E : Env) (virtualize : Bool) (rawTx : Bytes) (result : ExecTxResult) : TxGas :=
  match E.txDecoder rawTx with
  | .error _ => { used := resultGas result }
  | .ok tx =>
    let response := readResponse E virtualize result
    { used := resultGas result
      messages := messageGas E tx result
      bank := response.bind fun r => bankCharge tx.msgs r (chargedTotal E tx result)
      hooks := (response.map fun r => (sortedHooks tx.msgs r).map fun e => (hookGas e).toNat).getD
        [] }

/-- The gas amounts of a block. -/
def gasOf (E : Env) (virtualize : Bool) (txs : List Bytes) (txResults : List (Option ExecTxResult)) :
    List TxGas :=
  (txs.zip txResults).map fun e => (e.2.map (txGas E virtualize e.1)).getD {}

def blockGas (E : Env) (virtualize : Bool) (block : Block) (results : Option BlockResults) :
    List TxGas :=
  gasOf E virtualize block.txs (blockTxResults results)

/-! ## Receipts as marks on the gas of the block -/

def TxGas.marks (t : TxGas) : List ℕ :=
  if t.hooks = [] then sumsFrom 0 t.messages ++ t.bank.toList
  else sumsFrom 0 t.charges

def TxGas.posting (t : TxGas) : Posting := ⟨t.used, t.marks⟩

theorem TxGas.pairwise_marks_iff (t : TxGas) : t.marks.Pairwise (· ≤ ·) ↔ t.BankCovers := by
  unfold marks BankCovers
  by_cases hhooks : t.hooks = []
  · rw [if_pos hhooks, List.pairwise_append]
    have hall := fun gas => @all_le_iff_of_getLast? _ (pairwise_sumsFrom 0 t.messages) gas
    constructor
    · intro h _ hne gas hgas
      have hlast := (hall gas).mp fun x hx => h.2.2 x hx gas (Option.mem_toList.mpr hgas)
      rw [getLast?_sumsFrom 0 hne, Nat.zero_add] at hlast
      exact hlast _ rfl
    · intro h
      refine ⟨pairwise_sumsFrom 0 _, ?_, fun x hx gas hgas => (hall gas).mpr ?_ x hx⟩
      · cases t.bank <;> simp
      · have hne : t.messages ≠ [] := by
          rintro hnil
          rw [hnil] at hx
          cases hx
        rw [getLast?_sumsFrom 0 hne, Nat.zero_add]
        intro m hm
        obtain rfl := Option.some.inj hm
        exact h hhooks hne gas (Option.mem_toList.mp hgas)
  · rw [if_neg hhooks]
    exact ⟨fun _ hnil => absurd hnil hhooks, fun _ => pairwise_sumsFrom 0 _⟩

theorem TxGas.head?_marks (t : TxGas) : t.marks.head? = t.charges.head? := by
  have hsums : ∀ l : List ℕ, (sumsFrom 0 l).head? = l.head? := by
    intro l
    rw [head?_sumsFrom]
    cases l <;> simp
  unfold marks charges
  by_cases hhooks : t.hooks = []
  · rw [if_pos hhooks, hhooks, List.append_nil, List.head?_append, List.head?_append, hsums]
  · rw [if_neg hhooks]
    exact hsums _

theorem TxGas.getLast?_marks (t : TxGas) :
    t.marks.getLast? = if t.charges = [] then none else some t.charged := by
  unfold marks charged
  by_cases hhooks : t.hooks = []
  · rw [if_pos hhooks, if_pos hhooks, charges, hhooks, List.append_nil]
    cases hbank : t.bank with
    | some gas => simp
    | none =>
      by_cases hne : t.messages = []
      · simp [hne, sumsFrom]
      · simp [hne, getLast?_sumsFrom 0 hne]
  · have hne : t.charges ≠ [] := by simp [charges, hhooks]
    rw [if_neg hhooks, if_neg hhooks, if_neg hne, getLast?_sumsFrom 0 hne, charges]
    cases t.bank <;> simp [Nat.add_assoc]

theorem room_map_posting (ts : List TxGas) : room (ts.map TxGas.posting) = headroom ts := by
  induction ts with
  | nil => rfl
  | cons t ts ih =>
    rw [List.map_cons, room, headroom, ih, TxGas.posting, TxGas.head?_marks]

theorem covered_map_posting (ts : List TxGas) :
    Lib.Covered (ts.map TxGas.posting) ↔ GasCovered ts := by
  induction ts with
  | nil => exact Iff.rfl
  | cons t ts ih =>
    rw [List.map_cons, Lib.Covered, GasCovered, ih, room_map_posting, TxGas.posting,
      TxGas.pairwise_marks_iff, TxGas.getLast?_marks]
    by_cases hne : t.charges = []
    · simp [hne]
    · simp [hne]

/-! ## The pieces of a block leave these marks -/

section Pieces

variable (E : Env) (tx : SdkTx) (result : ExecTxResult)

theorem chargedGas_eq_zero {msg : Msg} (h : msg.ethereum? = none) (i : ℕ) :
    chargedGas E tx result i msg = 0 := by
  simp [chargedGas, h]

theorem sum_chargedGas_filter (l : List (Msg × ℕ)) :
    ((l.filter fun e => e.1.ethereum?.isSome).map fun e => chargedGas E tx result e.2 e.1).sum =
      (l.map fun e => chargedGas E tx result e.2 e.1).sum := by
  induction l with
  | nil => rfl
  | cons e l ih =>
    cases hmsg : e.1.ethereum? with
    | none =>
      rw [List.filter_cons_of_neg (by simp [hmsg]), List.map_cons, List.sum_cons, ih,
        chargedGas_eq_zero E tx result hmsg, Nat.zero_add]
    | some msg =>
      rw [List.filter_cons_of_pos (by simp [hmsg]), List.map_cons, List.map_cons, List.sum_cons,
        List.sum_cons, ih]

theorem sum_messageGas : (messageGas E tx result).sum = chargedTotal E tx result := by
  unfold messageGas chargedTotal
  split_ifs
  · rw [sum_chargedGas_filter, chargedBefore, List.take_of_length_le (by simp)]
  · rfl

theorem map_chargedBefore (msgs : List Msg) (k b : ℕ) :
    (((msgs.zipIdx k).filter fun e => e.1.ethereum?.isSome).map fun e =>
        b + (((msgs.zipIdx k).take (e.2 - k + 1)).map fun e => chargedGas E tx result e.2 e.1).sum) =
      sumsFrom b (((msgs.zipIdx k).filter fun e => e.1.ethereum?.isSome).map fun e =>
        chargedGas E tx result e.2 e.1) := by
  induction msgs generalizing k b with
  | nil => rfl
  | cons msg msgs ih =>
    have hrest := ih (k + 1) (b + chargedGas E tx result k msg)
    -- later messages count the first one as well
    have hshift : ∀ e ∈ (msgs.zipIdx (k + 1)).filter fun e => e.1.ethereum?.isSome,
        b + ((((msg, k) :: msgs.zipIdx (k + 1)).take (e.2 - k + 1)).map fun e =>
          chargedGas E tx result e.2 e.1).sum =
        b + chargedGas E tx result k msg + (((msgs.zipIdx (k + 1)).take (e.2 - (k + 1) + 1)).map
          fun e => chargedGas E tx result e.2 e.1).sum := by
      intro e he
      have hle := List.le_snd_of_mem_zipIdx (List.mem_filter.mp he).1
      rw [show e.2 - k + 1 = (e.2 - (k + 1) + 1) + 1 by omega, List.take_succ_cons, List.map_cons,
        List.sum_cons, Nat.add_assoc]
    rw [List.zipIdx_cons]
    cases hmsg : msg.ethereum? with
    | none =>
      rw [chargedGas_eq_zero E tx result hmsg] at hshift hrest
      rw [List.filter_cons_of_neg (by simp [hmsg]), List.map_congr_left hshift]
      exact hrest
    | some ethMsg =>
      rw [List.filter_cons_of_pos (by simp [hmsg]), List.map_cons, List.map_congr_left hshift,
        hrest, List.map_cons, sumsFrom]
      simp

theorem map_cumulative_messagePieces (block : Block) (i : ℕ) (response : Option Response)
    (before : ℕ) :
    (messagePieces E block i tx result response before).map (·.cumulative) =
      sumsFrom before (messageGas E tx result) := by
  unfold messagePieces messageGas
  split_ifs
  · rw [← map_chargedBefore E tx result tx.msgs 0 before, ethMsgIndexes_eq, List.map_map,
      List.map_map]
    rfl
  · rfl

theorem map_cumulative_hookPieces (i : ℕ) (rawTx : Bytes) (before : ℕ)
    (sorted : List (ResponseEntry × ℕ)) :
    (hookPieces E i rawTx before sorted).map (·.cumulative) =
      sumsFrom before (sorted.map fun e => (hookGas e).toNat) := by
  induction sorted generalizing before with
  | nil => rfl
  | cons e sorted ih => rw [hookPieces, List.map_cons, ih, List.map_cons, sumsFrom]

theorem map_cumulative_bankPieces (i : ℕ) (rawTx : Bytes) (msgs : List Msg) (r : Response)
    (cumulative : ℕ) :
    (bankPieces E i rawTx msgs r cumulative).map (·.cumulative) =
      if hasBankLogs msgs r then [cumulative] else [] := by
  unfold bankPieces
  split_ifs <;> rfl

theorem map_cumulative_syntheticPieces (i : ℕ) (rawTx : Bytes) (msgs : List Msg) (r : Response)
    (before gas : ℕ) :
    (syntheticPieces E i rawTx msgs r before gas).map (·.cumulative) =
      if sortedHooks msgs r = [] then (bankCharge msgs r gas).toList.map (before + ·)
      else sumsFrom (before + gas) ((bankCharge msgs r gas).toList ++
        (sortedHooks msgs r).map fun e => (hookGas e).toNat) := by
  unfold syntheticPieces bankCharge
  by_cases hnone : sortedHooks msgs r = []
  · rw [if_pos hnone, if_pos hnone, if_pos hnone, map_cumulative_bankPieces]
    split_ifs <;> rfl
  · simp only [if_neg hnone, List.map_append, map_cumulative_bankPieces, map_cumulative_hookPieces]
    split_ifs <;> rfl

theorem map_cumulative_txPieces (virtualize : Bool) (block : Block) (i : ℕ) (rawTx : Bytes)
    (before : ℕ) :
    (txPieces E virtualize block i rawTx result before).map (·.cumulative) =
      (txGas E virtualize rawTx result).marks.map (before + ·) := by
  unfold txPieces txGas TxGas.marks TxGas.charges
  cases hdec : E.txDecoder rawTx with
  | error e => rfl
  | ok tx =>
    simp only [List.map_append, map_cumulative_messagePieces]
    cases hresponse : readResponse E virtualize result with
    | none => simp [map_add_sumsFrom]
    | some r =>
      simp only [Option.map_some, Option.getD_some, Option.bind_some,
        map_cumulative_syntheticPieces, List.map_eq_nil_iff]
      by_cases hnone : sortedHooks tx.msgs r = []
      · rw [if_pos hnone, if_pos hnone, List.map_append, map_add_sumsFrom, Nat.add_zero]
      · rw [if_neg hnone, if_neg hnone, map_add_sumsFrom, Nat.add_zero, List.append_assoc,
          sumsFrom_append before, sum_messageGas]

theorem used_txGas (virtualize : Bool) (rawTx : Bytes) :
    (txGas E virtualize rawTx result).used = resultGas result := by
  unfold txGas
  cases E.txDecoder rawTx <;> rfl

end Pieces

theorem head_and_tail_at {all rs : List (Option ExecTxResult)} {k : ℕ}
    (hpos : ∀ j, all[k + j]? = rs[j]?) :
    all[k]? = rs.head? ∧ ∀ j, all[k + 1 + j]? = rs.tail[j]? := by
  refine ⟨?_, fun j => ?_⟩
  · rw [List.head?_eq_getElem?]
    exact hpos 0
  · rw [Nat.add_assoc, Nat.add_comm 1 j, hpos (j + 1), List.getElem?_tail]

theorem gasBefore_add (E : Env) (virtualize : Bool) {all rs : List (Option ExecTxResult)}
    (txs : List Bytes) {k : ℕ} (hpos : ∀ j, all[k + j]? = rs[j]?) :
    gasBefore all (k + txs.length) =
      gasBefore all k + ((gasOf E virtualize txs rs).map (·.used)).sum := by
  induction txs generalizing k rs with
  | nil => rfl
  | cons rawTx txs ih =>
    obtain ⟨hk, hnext⟩ := head_and_tail_at hpos
    rw [List.length_cons, Nat.add_comm txs.length, ← Nat.add_assoc, ih hnext, gasBefore_succ, hk]
    cases rs with
    | nil => simp [gasOf]
    | cons result rs => cases result <;> simp [gasOf, used_txGas, Nat.add_assoc]

theorem map_cumulative_piecesAt (E : Env) (virtualize : Bool) (block : Block)
    {all rs : List (Option ExecTxResult)} (txs : List Bytes) {k : ℕ}
    (hpos : ∀ j, all[k + j]? = rs[j]?) :
    ((txs.zipIdx k).flatMap fun e => piecesAt E virtualize block all e.2 e.1).map (·.cumulative) =
      marksFrom (gasBefore all k) ((gasOf E virtualize txs rs).map TxGas.posting) := by
  induction txs generalizing k rs with
  | nil => rfl
  | cons rawTx txs ih =>
    obtain ⟨hk, hnext⟩ := head_and_tail_at hpos
    rw [List.zipIdx_cons, List.flatMap_cons, List.map_append, ih hnext, gasBefore_succ, hk]
    cases rs with
    | nil => simp [piecesAt, hk, gasOf]
    | cons result rs =>
      cases result with
      | none => simp [piecesAt, hk, gasOf, marksFrom, TxGas.posting, TxGas.marks, sumsFrom]
      | some result =>
        simp only [piecesAt, hk, List.head?_cons, map_cumulative_txPieces]
        simp [gasOf, marksFrom, TxGas.posting, used_txGas]

theorem map_cumulative_blockPieces (E : Env) (virtualize : Bool) (block : Block)
    (results : Option BlockResults) (txResults : List (Option ExecTxResult)) :
    ∃ first last, (∀ x ∈ first, x = 0) ∧ (∀ x ∈ last, x = gasBefore txResults block.txs.length) ∧
      (blockPieces E virtualize block results txResults).map (·.cumulative) =
        first ++ marksFrom 0 ((gasOf E virtualize block.txs txResults).map TxGas.posting) ++
          last := by
  have hphase : ∀ slot logs cumulative, ∀ x ∈ (phasePieces slot logs cumulative).map (·.cumulative),
      x = cumulative := by
    intro slot logs cumulative x hx
    unfold phasePieces at hx
    split_ifs at hx
    · cases hx
    · exact List.mem_singleton.mp hx
  refine ⟨_, _, hphase .beginBlock (phaseLogs E virtualize results).1 0,
    hphase .endBlock (phaseLogs E virtualize results).2 (gasBefore txResults block.txs.length), ?_⟩
  rw [blockPieces, List.map_append, List.map_append,
    @map_cumulative_piecesAt E virtualize block txResults txResults block.txs 0 (by simp)]
  rfl

/-- Normalisation does not change gas amounts. -/
theorem gasOf_normalized {E : Env} {input output : List (Option ExecTxResult)}
    (h : List.Forall₂ (Option.Rel SameButData) input output) (virtualize : Bool) (txs : List Bytes) :
    gasOf E virtualize txs output = gasOf E virtualize txs input := by
  induction h generalizing txs with
  | nil => rfl
  | cons hres _ ih =>
    cases txs with
    | nil => rfl
    | cons rawTx txs =>
      have hrest := ih txs
      unfold gasOf at hrest ⊢
      rw [List.zip_cons_cons, List.zip_cons_cons, List.map_cons, List.map_cons, hrest]
      cases hres with
      | none => rfl
      | some hsame =>
        rw [hsame.fields]
        rfl

/-! ## Cumulative receipts -/

def GasSumsFit (E : Env) (virtualize : Bool) (block : Block) (results : Option BlockResults) : Prop :=
  (∀ gas ∈ marksFrom 0 ((blockGas E virtualize block results).map TxGas.posting), gas < 2 ^ 64) ∧
    ((blockGas E virtualize block results).map (·.used)).sum < 2 ^ 64

structure GasCumulative (R : BlockRecords) : Prop where
  monotone : ∀ e ∈ R.entries, ∀ e' ∈ R.entries,
    e.receipt.transactionIndex ≤ e'.receipt.transactionIndex →
      e.receipt.cumulativeGasUsed ≤ e'.receipt.cumulativeGasUsed
  bounded : ∀ e ∈ R.entries, e.receipt.cumulativeGasUsed ≤ R.blockMeta.gasUsed

/-- Receipts are in the order of their positions. -/
theorem gasCumulative_iff (R : BlockRecords) :
    GasCumulative R ↔ (R.entries.map (·.receipt.cumulativeGasUsed.toNat) ++
      [R.blockMeta.gasUsed.toNat]).Pairwise (· ≤ ·) := by
  have hat := fun i e he => (R.entry_at i e he).receipt_index
  rw [List.pairwise_append, List.pairwise_map, List.pairwise_iff_getElem]
  constructor
  · intro h
    refine ⟨fun i j hi hj hij => ?_, List.pairwise_singleton _ _, fun x hx y hy => ?_⟩
    · refine UInt64.le_iff_toNat_le.mp (h.monotone _ (List.getElem_mem hi) _ (List.getElem_mem hj) ?_)
      rw [hat i _ (List.getElem?_eq_getElem hi), hat j _ (List.getElem?_eq_getElem hj)]
      exact hij.le
    · obtain ⟨e, he, rfl⟩ := List.mem_map.mp hx
      obtain rfl := List.mem_singleton.mp hy
      exact UInt64.le_iff_toNat_le.mp (h.bounded e he)
  · rintro ⟨hsorted, -, hbound⟩
    refine ⟨fun e he e' he' hle => ?_, fun e he => ?_⟩
    · obtain ⟨i, hi, rfl⟩ := List.mem_iff_getElem.mp he
      obtain ⟨j, hj, rfl⟩ := List.mem_iff_getElem.mp he'
      rw [hat i _ (List.getElem?_eq_getElem hi), hat j _ (List.getElem?_eq_getElem hj)] at hle
      rcases Nat.lt_or_eq_of_le hle with hlt | rfl
      · exact UInt64.le_iff_toNat_le.mpr (hsorted i j hi hj hlt)
      · exact UInt64.le_refl _
    · exact UInt64.le_iff_toNat_le.mpr
        (hbound _ (List.mem_map_of_mem he) _ (List.mem_singleton_self _))

theorem StoresAll.map_cumulative {E : Env} {virtualize : Bool} {block : Block} {ps : List Piece}
    {es : List Entry} (h : StoresAll E virtualize block ps es)
    (hfit : ∀ p ∈ ps, p.cumulative < 2 ^ 64) :
    es.map (·.receipt.cumulativeGasUsed.toNat) = ps.map (·.cumulative) := by
  refine List.ext_getElem (by simp [h.length]) fun k hk hk' => ?_
  rw [List.length_map] at hk hk'
  have hstored := h.stored k _ _ (List.getElem?_eq_getElem hk') (List.getElem?_eq_getElem hk)
  rw [List.getElem_map, List.getElem_map, hstored.cumulative]
  exact UInt64.toNat_ofNat_of_lt' (hfit _ (List.getElem_mem hk'))

/-- Zeros before and totals after a list do not matter for its order. -/
theorem pairwise_between_iff {first last l : List ℕ} {total : ℕ} (hfirst : ∀ x ∈ first, x = 0)
    (hlast : ∀ x ∈ last, x = total) :
    (first ++ l ++ last ++ [total]).Pairwise (· ≤ ·) ↔ (l ++ [total]).Pairwise (· ≤ ·) := by
  have hends : ∀ x ∈ last ++ [total], x = total := by
    intro x hx
    rcases List.mem_append.mp hx with hx | hx
    · exact hlast x hx
    · exact List.mem_singleton.mp hx
  rw [List.append_assoc, List.append_assoc]
  constructor
  · intro h
    refine h.sublist (((List.sublist_append_right last [total]).append_left l).trans ?_)
    exact List.sublist_append_right first _
  · intro h
    obtain ⟨hl, -, hle⟩ := List.pairwise_append.mp h
    refine List.pairwise_append.mpr ⟨?_, List.pairwise_append.mpr ⟨hl, ?_, ?_⟩, ?_⟩
    · refine List.pairwise_of_forall_mem_list fun x hx y hy => ?_
      rw [hfirst x hx, hfirst y hy]
    · refine List.pairwise_of_forall_mem_list fun x hx y hy => ?_
      rw [hends x hx, hends y hy]
    · intro x hx y hy
      rw [hends y hy]
      exact hle x hx total (List.mem_singleton_self total)
    · intro x hx y _
      rw [hfirst x hx]
      exact Nat.zero_le y

/-- **Cumulative gas.**  The receipts that an indexed block writes are cumulative and stay within
the gas of the block exactly if the gas of the results covers them. -/
theorem cumulative_gas_iff {E : Env} {kv : KVIndexer} {db db' : DB} {block : Block}
    {results : Option BlockResults} (h : indexBlock E kv db block results = .ok db')
    (hfit : GasSumsFit E kv.virtualizationEnabled block results) :
    ∃ R : BlockRecords, R.block = block ∧ Holds db' R ∧
      (∃ n, blockWrites E kv block results = .ok (R.writes, n)) ∧
      (GasCumulative R ↔ GasCovered (blockGas E kv.virtualizationEnabled block results)) := by
  obtain ⟨R, st, txResults, hblock, hholds, -, hnorm, hall, hgas, hwrites⟩ := indexBlock_stores h
  have hsame : gasOf E kv.virtualizationEnabled block.txs txResults =
      blockGas E kv.virtualizationEnabled block results :=
    gasOf_normalized (normalizeResults_same hnorm) _ _
  have htotal := @gasBefore_add E kv.virtualizationEnabled txResults txResults block.txs 0 (by simp)
  rw [Nat.zero_add, hsame, show gasBefore txResults 0 = 0 from rfl, Nat.zero_add] at htotal
  obtain ⟨first, last, hfirst, hlast, hpieces⟩ :=
    map_cumulative_blockPieces E kv.virtualizationEnabled block results txResults
  rw [hsame] at hpieces
  have hpiecesFit : ∀ p ∈ blockPieces E kv.virtualizationEnabled block results txResults,
      p.cumulative < 2 ^ 64 := by
    intro p hp
    have hmem := List.mem_map_of_mem (f := (·.cumulative)) hp
    rw [hpieces, List.mem_append, List.mem_append] at hmem
    rcases hmem with (hmem | hmem) | hmem
    · rw [hfirst _ hmem]
      decide
    · exact hfit.1 _ hmem
    · rw [hlast _ hmem, htotal]
      exact hfit.2
  refine ⟨R, hblock, hholds, hwrites, ?_⟩
  rw [gasCumulative_iff, hall.map_cumulative hpiecesFit, hgas, htotal,
    UInt64.toNat_ofNat_of_lt' hfit.2, hpieces, pairwise_between_iff hfirst (htotal ▸ hlast),
    ← covered_map_posting, ← pairwise_marksFrom_iff 0, List.map_map, Nat.zero_add]
  rfl

/-- The mixed block: the Ethereum message is charged 21000 of the 30000 gas of its transaction, and
the bank events of the Cosmos transaction stand for 5000. -/
def sampleMixedGas : BlockResults where
  height := 1
  txResults := [
    some {
      data := [3]
      gasUsed := 30000
      events := [⟨"ethereum_tx", [⟨"ethereumTxHash", "0x01", false⟩,
        ⟨"txGasUsed", "21000", false⟩]⟩, sampleBankEvent] },
    some { gasUsed := 5000, events := [sampleBankEvent] }]

/-- Its receipts count 21000 and 35000 gas. -/
theorem cumulative_gas_iff_mixed :
    ∃ db R, indexBlock .sample { virtualizationEnabled := true } ∅ sampleMixedBlock
        (some sampleMixedGas) = .ok db ∧ Holds db R ∧ GasCumulative R ∧
      (blockGas .sample true sampleMixedBlock (some sampleMixedGas)).map (·.charges) =
        [[21000], [5000]] := by
  obtain ⟨db, hdb⟩ := exists_ok_of_isOk (x := indexBlock .sample { virtualizationEnabled := true } ∅
    sampleMixedBlock (some sampleMixedGas)) (by decide +kernel)
  obtain ⟨R, -, hR, -, hiff⟩ := cumulative_gas_iff hdb (by unfold GasSumsFit; decide +kernel)
  exact ⟨db, R, hdb, hR, hiff.mpr (by decide +kernel), by decide +kernel⟩

def sampleFailedThenIncluded : BlockResults where
  height := 1
  txResults := [
    some { code := 5, codespace := "sdk", gasUsed := 5000 },
    some {
      data := [3]
      gasUsed := 10000
      events := [⟨"ethereum_tx", [⟨"ethereumTxHash", "0x02", false⟩,
        ⟨"txGasUsed", "10000", false⟩]⟩] }]

/-- **The gas limit of a failed transaction outgrows the block.**  The receipt of the
failed transaction counts its gas limit of 21000.  The next receipt counts less, and so
does the block. -/
theorem failed_receipt_exceeds_block :
    ∃ db r₁ r₂ m, indexBlock .sample {} ∅ sampleTwoTxs (some sampleFailedThenIncluded) = .ok db ∧
      db.get? (.receipt 1) = some r₁ ∧ db.get? (.receipt 2) = some r₂ ∧
      db.get? (.blockMeta 1) = some m ∧ r₁.transactionIndex = 0 ∧ r₂.transactionIndex = 1 ∧
      r₁.cumulativeGasUsed = 21000 ∧ r₂.cumulativeGasUsed = 15000 ∧ m.gasUsed = 15000 :=
  ⟨_, _, _, _, rfl, rfl, rfl, rfl, rfl, rfl, rfl, rfl, rfl⟩

end EvmGateway
