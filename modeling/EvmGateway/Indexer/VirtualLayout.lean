import EvmGateway.Indexer.Conservative
import EvmGateway.Indexer.LayoutLoop

/-!
# The layout of a virtual block

With virtualisation the records of a block are its layout: one record per slot, in
order, and in each group the logs of exactly the events assigned to its slot, in event
order and after the logs of the message itself (`virtual_layout`).  Every event with
logs has its slot in the layout exactly once, so no log is lost and none is doubled.
-/

namespace EvmGateway

open Lib

variable {r : Response} {rawTx : Bytes} {E : Env} {i txIndex : ℕ} {msgs : List Msg} {p : Piece}
  {tx : SdkTx} {slot : BlockSlot} {logs : List EthLog} {result : ExecTxResult} {log : RPCLog}

/-! ## The layout as the inputs determine it -/

/-- What is known about the transaction at a position of a block. -/
structure TxAt (E : Env) (block : Block) (results : Option BlockResults) (i : ℕ) (rawTx : Bytes)
    (tx : SdkTx) (r : Response) : Prop where
  raw : block.txs[i]? = some rawTx
  decoded : E.txDecoder rawTx = .ok tx
  parsed : ∃ result, (blockTxResults results)[i]? = some (some result) ∧
    parseResponse E result = .ok r

def layoutAt (E : Env) (results : Option BlockResults) (i : ℕ) (rawTx : Bytes) : List BlockSlot :=
  match (blockTxResults results)[i]?, E.txDecoder rawTx with
  | some (some result), .ok tx =>
    match parseResponse E result with
    | .ok r => (txSlots tx.msgs r).map (.tx i)
    | .error _ => []
  | _, _ => []

def phaseSlots (slot : BlockSlot) (logs : List EthLog) : List BlockSlot :=
  if logs.isEmpty then [] else [slot]

/-- **The slots of a block**: the begin phase, the transactions in order, the end phase. -/
def blockLayout (E : Env) (block : Block) (results : Option BlockResults) : List BlockSlot :=
  phaseSlots .beginBlock (phaseLogs E true results).1 ++
  (block.txs.zipIdx.flatMap fun e => layoutAt E results e.2 e.1) ++
  phaseSlots .endBlock (phaseLogs E true results).2

def phaseSlot (event : Bank.BankEvent) : BlockSlot :=
  if event.mode = Bank.modeBeginBlock then .beginBlock else .endBlock

def PhaseLogsAre (E : Env) (events : List Bank.BankEvent) (slot : BlockSlot) (logs : List EthLog) :
    Prop :=
  List.Forall₂ (fun event log => Bank.ethereumLog E event = .ok log)
    (events.filter fun event => phaseSlot event = slot) logs

/-! ## Records that fit a slot -/

/-- What a log says, apart from where it is. -/
def EthLog.content (log : EthLog) : Address × List Hash × Bytes := (log.address, log.topics, log.data)

/-- The group starts with the given own logs, which are not virtual, and goes on with
virtual logs that say what the given event logs say. -/
def GroupIs (group own : List RPCLog) (events : List EthLog) : Prop :=
  ∃ first rest, group = first ++ rest ∧ first.map RPCLog.content = own.map RPCLog.content ∧
    (∀ log ∈ first, log.isVirtual = false) ∧
    rest.map RPCLog.content = events.map EthLog.content ∧ ∀ log ∈ rest, log.isVirtual = true

/-- The own logs of a slot: a message has those its data holds. -/
def ownLogs (E : Env) (block : Block) (txResults : List (Option ExecTxResult)) (i : ℕ) :
    Slot → List RPCLog
  | .message m =>
    match txResults[i]? with
    | some (some result) => nativeLogs E block result m
    | _ => []
  | .bank | .hook _ => []

def SlotRecord (E : Env) (i : ℕ) (rawTx : Bytes) (r : Response) (e : Entry) : Slot → Prop
  | .message m => ∃ res, e.result = some res ∧ res.txIndex = i ∧ res.msgIndex = m
  | .bank => e.result = none ∧ e.tx.cosmosHash = some (originalCosmosTxHash E rawTx) ∧
      e.tx.toAddr = some Bank.contractAddress ∧ e.tx.cosmosMsgIndex = none
  | .hook k => e.result = none ∧ e.tx.cosmosHash = some (originalCosmosTxHash E rawTx) ∧
      ∃ entry hook, r.entries[k]? = some entry ∧ entry.hook = some hook ∧
        e.tx.toAddr = some hook.contract ∧ e.tx.cosmosMsgIndex = hook.msgIndex

/-- The record fits the slot: it is of the slot's kind and its group holds the logs of
the events assigned to the slot. -/
def FitsSlot (E : Env) (block : Block) (results : Option BlockResults)
    (txResults : List (Option ExecTxResult)) (slot : BlockSlot) (e : Entry) : Prop :=
  match slot with
  | .beginBlock => e.result = none ∧ e.hash = beginBlockHash E block.height ∧
      GroupIs e.receipt.logs [] (phaseLogs E true results).1
  | .endBlock => e.result = none ∧ e.hash = endBlockHash E block.height ∧
      GroupIs e.receipt.logs [] (phaseLogs E true results).2
  | .tx i slot => ∃ rawTx tx r, TxAt E block results i rawTx tx r ∧ SlotRecord E i rawTx r e slot ∧
      GroupIs e.receipt.logs (ownLogs E block txResults i slot)
        ((slotEvents tx.msgs r slot).flatMap (·.1.logs))

/-! ## Groups -/

theorem Piece.Stored.groupIs {block : Block} {position logIndex : ℕ} {e : Entry}
    (h : p.Stored E true block position logIndex e) {events : List EthLog}
    (hnative : ∀ log ∈ p.native, log.isVirtual = false)
    (hevents : p.events.map RPCLog.content = events.map EthLog.content)
    (hvirtual : ∀ log ∈ p.events, log.isVirtual = true) :
    GroupIs e.receipt.logs p.native events := by
  have hlogs := h.logs
  rw [Piece.logs, if_pos rfl, setLogMetadata_append] at hlogs
  refine ⟨_, _, hlogs, map_content_setLogMetadata .., isVirtual_setLogMetadata hnative, ?_,
    isVirtual_setLogMetadata hvirtual⟩
  rw [map_content_setLogMetadata, hevents]

theorem map_content_wrapLogs (logs : List EthLog) (b : Bool) (cosmosHash : Option Hash) :
    (wrapLogs logs b cosmosHash).map RPCLog.content = logs.map EthLog.content := by
  simp only [wrapLogs, List.map_map]
  rfl

theorem isVirtual_of_mem_wrapLogs {b : Bool} {cosmosHash : Option Hash}
    (h : log ∈ wrapLogs logs b cosmosHash) : log.isVirtual = b := by
  obtain ⟨l, -, rfl⟩ := List.mem_map.mp h
  rfl

theorem map_content_rpcLogs (entry : ResponseEntry) (cosmosHash : Option Hash) :
    (entry.rpcLogs cosmosHash).map RPCLog.content = entry.logs.map EthLog.content := by
  rw [← map_content_wrapLogs entry.logs true cosmosHash, ResponseEntry.rpcLogs]
  cases entry.hook with
  | none => rfl
  | some hook =>
    simp only [List.map_map]
    rfl

theorem map_content_flatMap_rpcLogs (events : List (ResponseEntry × ℕ)) (cosmosHash : Option Hash) :
    (events.flatMap fun e => e.1.rpcLogs cosmosHash).map RPCLog.content =
      (events.flatMap (·.1.logs)).map EthLog.content := by
  simp only [List.map_flatMap, map_content_rpcLogs]

theorem isVirtual_of_mem_eventLogs {slot : Slot} {cosmosHash : Option Hash}
    (h : log ∈ eventLogs msgs r slot cosmosHash) :
    log.isVirtual = true := by
  obtain ⟨e, -, hlog⟩ := List.mem_flatMap.mp h
  exact isVirtual_of_mem_rpcLogs hlog

theorem isVirtual_of_mem_nativeLogs {block : Block} {m : ℕ}
    (h : log ∈ nativeLogs E block result m) : log.isVirtual = false := by
  unfold nativeLogs at h
  split_ifs at h
  · cases h
  · cases hlogs : E.decodeMsgLogs result.data m block.height with
    | error e => simp [hlogs] at h
    | ok logs =>
      rw [hlogs] at h
      exact isVirtual_of_mem_wrapLogs h

/-! ## Pieces fit their slots -/

theorem nodup_filter_zipIdx (r : Response) (p : ResponseEntry × ℕ → Bool) :
    (r.entries.zipIdx.filter p).Nodup :=
  (pairwise_snd_filter_zipIdx p r.entries 0).imp fun {a b} hlt heq => by
    rw [heq] at hlt
    omega

theorem mem_hookEvents {e : ResponseEntry × ℕ} :
    e ∈ hookEvents msgs r ↔ r.entries[e.2]? = some e.1 ∧ eventMessage msgs e.1 = none ∧
      e.1.hook.isSome = true := by
  rw [hookEvents, List.mem_filter, List.mem_zipIdx_iff_getElem?, decide_eq_true_eq,
    eventSlot_eq_hook]
  simp

theorem slotEvents_hook {e : ResponseEntry × ℕ} (h : e ∈ hookEvents msgs r) :
    slotEvents msgs r (.hook e.2) = [e] := by
  obtain ⟨hentry, hnone, hhook⟩ := mem_hookEvents.mp h
  have hmem : e ∈ slotEvents msgs r (.hook e.2) := by
    rw [slotEvents, List.mem_filter, List.mem_zipIdx_iff_getElem?, decide_eq_true_eq]
    exact ⟨hentry, eventSlot_eq_hook.mpr ⟨hnone, hhook, rfl⟩⟩
  have hall : ∀ e' ∈ slotEvents msgs r (.hook e.2), e' = e := by
    intro e' he'
    rw [slotEvents, List.mem_filter, List.mem_zipIdx_iff_getElem?, decide_eq_true_eq] at he'
    obtain ⟨hentry', hslot⟩ := he'
    obtain ⟨-, -, hk⟩ := eventSlot_eq_hook.mp hslot
    rw [hk, hentry] at hentry'
    exact Prod.ext (Option.some.inj hentry').symm hk
  have hnodup : (slotEvents msgs r (.hook e.2)).Nodup := nodup_filter_zipIdx r _
  exact List.perm_singleton.mp (List.perm_of_nodup_nodup_toFinset_eq hnodup (List.nodup_singleton e)
    (Finset.ext fun x => by
      rw [List.mem_toFinset, List.mem_toFinset, List.mem_singleton]
      exact ⟨hall x, fun hx => hx ▸ hmem⟩))

theorem mem_hookPieces {before : ℕ} {sorted : List (ResponseEntry × ℕ)}
    (h : p ∈ hookPieces E txIndex rawTx before sorted) :
    ∃ e ∈ sorted, ∃ cumulative, p =
      { slot := .tx txIndex (.hook e.2)
        events := e.1.rpcLogs (some (originalCosmosTxHash E rawTx))
        cosmosHash := some (originalCosmosTxHash E rawTx)
        hook := e.1.hook
        cumulative := cumulative } := by
  induction sorted generalizing before with
  | nil => cases h
  | cons e sorted ih =>
    rcases List.mem_cons.mp h with rfl | h
    · exact ⟨e, List.mem_cons_self, _, rfl⟩
    · obtain ⟨e', he', hp⟩ := ih h
      exact ⟨e', List.mem_cons_of_mem e he', hp⟩

theorem mem_bankPieces {cumulative : ℕ} (h : p ∈ bankPieces E txIndex rawTx msgs r cumulative) :
    p = { slot := .tx txIndex .bank
          events := eventLogs msgs r .bank (some (originalCosmosTxHash E rawTx))
          cosmosHash := some (originalCosmosTxHash E rawTx)
          cumulative := cumulative } := by
  unfold bankPieces at h
  split_ifs at h
  · exact List.mem_singleton.mp h
  · cases h

theorem mem_syntheticPieces {before gas : ℕ}
    (h : p ∈ syntheticPieces E txIndex rawTx msgs r before gas) :
    (∃ cumulative, p ∈ bankPieces E txIndex rawTx msgs r cumulative) ∨
      ∃ before, p ∈ hookPieces E txIndex rawTx before (sortedHooks msgs r) := by
  rw [syntheticPieces] at h
  by_cases hnone : sortedHooks msgs r = []
  · rw [if_pos hnone] at h
    exact .inl ⟨_, h⟩
  · rw [if_neg hnone] at h
    rcases List.mem_append.mp h with h | h
    · exact .inl ⟨_, h⟩
    · exact .inr ⟨_, h⟩

section Fits

variable {E : Env} {block : Block} {results : Option BlockResults}
  {txResults : List (Option ExecTxResult)} {position logIndex : ℕ} {p : Piece} {e : Entry}

theorem TxAt.normalized (h : TxAt E block results i rawTx tx r)
    (hnorm : normalizeTxResponseIndexes E (blockTxResults results) = .ok txResults)
    (hresult : txResults[i]? = some (some result)) :
    parseResponse E result = .ok r := by
  obtain ⟨res, hres, heq⟩ := normalizeResults_getElem? hnorm hresult
  obtain ⟨res', hres', hparse⟩ := h.parsed
  rw [hres] at hres'
  obtain rfl := Option.some.inj (Option.some.inj hres')
  rw [← hparse, heq]
  rfl

/-- The record of a piece of a transaction fits the slot of the piece. -/
theorem fits_of_mem_piecesAt (htx : TxAt E block results i rawTx tx r)
    (hnorm : normalizeTxResponseIndexes E (blockTxResults results) = .ok txResults)
    (hp : p ∈ piecesAt E true block txResults i rawTx)
    (hstored : p.Stored E true block position logIndex e) :
    FitsSlot E block results txResults p.slot e := by
  unfold piecesAt at hp
  split at hp
  · rename_i result hresult
    have hparse := htx.normalized hnorm hresult
    simp only [txPieces, htx.decoded, readResponse, if_true, hparse, Except.toOption,
      Option.map_some, Option.getD_some] at hp
    rcases List.mem_append.mp hp with hp | hp
    · -- a message
      unfold messagePieces at hp
      split_ifs at hp
      · obtain ⟨m, -, rfl⟩ := List.mem_map.mp hp
        refine ⟨rawTx, tx, r, htx, hstored.names, ?_⟩
        have hgroup := hstored.groupIs
          (fun log hlog => isVirtual_of_mem_nativeLogs hlog)
          (map_content_flatMap_rpcLogs (slotEvents tx.msgs r (.message m)) none)
          fun log hlog => isVirtual_of_mem_eventLogs hlog
        simpa [ownLogs, hresult, messagePiece] using hgroup
      · cases hp
    · rcases mem_syntheticPieces hp with ⟨cumulative, hp⟩ | ⟨before, hp⟩
      · -- the bank events
        obtain rfl := mem_bankPieces hp
        refine ⟨rawTx, tx, r, htx, hstored.names, ?_⟩
        exact hstored.groupIs (List.forall_mem_nil _) (map_content_flatMap_rpcLogs _ _)
          fun log hlog => isVirtual_of_mem_eventLogs hlog
      · -- a hook
        obtain ⟨event, hevent, cumulative, rfl⟩ := mem_hookPieces hp
        have hmem : event ∈ hookEvents tx.msgs r := (List.mem_insertionSort _).mp hevent
        obtain ⟨hentry, -, hhook⟩ := mem_hookEvents.mp hmem
        obtain ⟨hook, hhook⟩ := Option.isSome_iff_exists.mp hhook
        refine ⟨rawTx, tx, r, htx, ?_, ?_⟩
        · obtain ⟨hnone, hcosmos, hto, hindex⟩ := hstored.names
          rw [hhook] at hto hindex
          exact ⟨hnone, hcosmos, event.1, hook, hentry, hhook, hto, hindex⟩
        · rw [slotEvents_hook hmem]
          refine hstored.groupIs (List.forall_mem_nil _) ?_ fun log hlog =>
            isVirtual_of_mem_rpcLogs hlog
          simpa using map_content_rpcLogs event.1 _
  · cases hp

theorem fits_of_mem_phasePieces {cumulative : ℕ}
    (hslot : slot = .beginBlock ∧ logs = (phaseLogs E true results).1 ∨
      slot = .endBlock ∧ logs = (phaseLogs E true results).2)
    (hp : p ∈ phasePieces slot logs cumulative)
    (hstored : p.Stored E true block position logIndex e) :
    FitsSlot E block results txResults p.slot e := by
  unfold phasePieces at hp
  split_ifs at hp
  · cases hp
  · obtain rfl := List.mem_singleton.mp hp
    have hgroup : GroupIs e.receipt.logs [] logs :=
      hstored.groupIs (fun log hlog => nomatch hlog) (map_content_wrapLogs ..) fun log hlog =>
        isVirtual_of_mem_wrapLogs hlog
    rcases hslot with ⟨rfl, rfl⟩ | ⟨rfl, rfl⟩
    · exact ⟨hstored.names.1, hstored.names.2, hgroup⟩
    · exact ⟨hstored.names.1, hstored.names.2, hgroup⟩

end Fits

/-! ## The slots of the pieces are the layout -/

/-- A transaction with an Ethereum message carries the extension option. -/
def ExtensionCarried (E : Env) (block : Block) : Prop :=
  ∀ rawTx ∈ block.txs, ∀ tx, E.txDecoder rawTx = .ok tx → ethMsgIndexes tx.msgs ≠ [] →
    isEthTx tx = true

theorem map_slot_hookPieces (E : Env) (txIndex : ℕ) (rawTx : Bytes) (before : ℕ)
    (sorted : List (ResponseEntry × ℕ)) :
    (hookPieces E txIndex rawTx before sorted).map (·.slot) =
      sorted.map fun e => .tx txIndex (.hook e.2) := by
  induction sorted generalizing before with
  | nil => rfl
  | cons e sorted ih => rw [hookPieces, List.map_cons, List.map_cons, ih]

theorem map_slot_bankPieces (E : Env) (txIndex : ℕ) (rawTx : Bytes) (msgs : List Msg) (r : Response)
    (cumulative : ℕ) :
    (bankPieces E txIndex rawTx msgs r cumulative).map (·.slot) =
      (if hasBankLogs msgs r then [.bank] else []).map (BlockSlot.tx txIndex) := by
  unfold bankPieces
  split_ifs <;> rfl

theorem map_slot_syntheticPieces (E : Env) (txIndex : ℕ) (rawTx : Bytes) (msgs : List Msg)
    (r : Response) (before gas : ℕ) :
    (syntheticPieces E txIndex rawTx msgs r before gas).map (·.slot) =
      (syntheticSlots msgs r).map (.tx txIndex) := by
  rw [syntheticPieces, syntheticSlots, List.map_append, List.map_map]
  by_cases hnone : sortedHooks msgs r = []
  · rw [if_pos hnone, map_slot_bankPieces, hnone]
    simp
  · rw [if_neg hnone, List.map_append, map_slot_bankPieces, map_slot_hookPieces]
    rfl

theorem map_slot_phasePieces (slot : BlockSlot) (logs : List EthLog) (cumulative : ℕ) :
    (phasePieces slot logs cumulative).map (·.slot) = phaseSlots slot logs := by
  unfold phasePieces phaseSlots
  split_ifs <;> rfl

section Slots

variable {E : Env} {block : Block} {results : Option BlockResults}
  {txResults : List (Option ExecTxResult)}

theorem map_slot_piecesAt (hext : ExtensionCarried E block)
    (htx : TxAt E block results i rawTx tx r)
    (hnorm : normalizeTxResponseIndexes E (blockTxResults results) = .ok txResults)
    (hresult : txResults[i]? = some (some result)) :
    (piecesAt E true block txResults i rawTx).map (·.slot) = layoutAt E results i rawTx := by
  obtain ⟨res, hres, hparse⟩ := htx.parsed
  have hmessages : ∀ (response : Option Response) (before : ℕ),
      (messagePieces E block i tx result response before).map (·.slot) =
        ((ethMsgIndexes tx.msgs).map .message).map (.tx i) := by
    intro response before
    unfold messagePieces
    by_cases hnone : ethMsgIndexes tx.msgs = []
    · rw [hnone]
      split_ifs <;> rfl
    · rw [if_pos (hext rawTx (List.mem_of_getElem? htx.raw) tx htx.decoded hnone)]
      simp [messagePiece]
  simp only [piecesAt, hresult, txPieces, htx.decoded, readResponse, if_true,
    htx.normalized hnorm hresult, Except.toOption, Option.map_some, Option.getD_some,
    List.map_append, hmessages, map_slot_syntheticPieces, layoutAt, hres, hparse, txSlots]

end Slots

/-! ## Every slot once -/

theorem nodup_ethMsgIndexes (msgs : List Msg) : (ethMsgIndexes msgs).Nodup := by
  rw [ethMsgIndexes_eq]
  exact List.pairwise_map.mpr ((pairwise_snd_filter_zipIdx _ msgs 0).imp Nat.ne_of_lt)

theorem nodup_sortedHooks (msgs : List Msg) (r : Response) :
    ((sortedHooks msgs r).map Prod.snd).Nodup := by
  have hperm : (sortedHooks msgs r).Perm (hookEvents msgs r) := List.perm_insertionSort _ _
  rw [(hperm.map Prod.snd).nodup_iff]
  exact List.pairwise_map.mpr ((pairwise_snd_filter_zipIdx _ r.entries 0).imp Nat.ne_of_lt)

theorem nodup_txSlots (msgs : List Msg) (r : Response) : (txSlots msgs r).Nodup := by
  have hmessages : ((ethMsgIndexes msgs).map Slot.message).Nodup :=
    (nodup_ethMsgIndexes msgs).map fun _ _ h => Slot.message.inj h
  have hhooks : ((sortedHooks msgs r).map fun e => Slot.hook e.2).Nodup := by
    have hmap := (nodup_sortedHooks msgs r).map fun _ _ h => Slot.hook.inj h
    rwa [List.map_map] at hmap
  rw [txSlots, syntheticSlots]
  refine hmessages.append (List.Nodup.append ?_ hhooks ?_) ?_
  · split_ifs
    · exact List.nodup_singleton _
    · exact List.nodup_nil
  · intro slot hbank hhook
    obtain ⟨e, -, rfl⟩ := List.mem_map.mp hhook
    split_ifs at hbank <;> simp at hbank
  · intro slot hmessage hsynthetic
    obtain ⟨m, -, rfl⟩ := List.mem_map.mp hmessage
    rcases List.mem_append.mp hsynthetic with h | h
    · split_ifs at h <;> simp at h
    · simp at h

theorem eventSlot_mem_txSlots {entry : ResponseEntry} {k : ℕ} (hk : r.entries[k]? = some entry)
    (hlogs : entry.logs ≠ []) :
    eventSlot msgs entry k ∈ txSlots msgs r := by
  rw [txSlots, syntheticSlots, List.mem_append, List.mem_append]
  have hevent : (entry, k) ∈ r.entries.zipIdx := List.mem_zipIdx_iff_getElem?.mpr hk
  cases hslot : eventSlot msgs entry k with
  | message m =>
    exact .inl (List.mem_map_of_mem (eventMessage_mem (eventSlot_eq_message.mp hslot)))
  | bank =>
    have hhas : hasBankLogs msgs r = true := by
      refine List.any_eq_true.mpr ⟨(entry, k), List.mem_filter.mpr ⟨hevent, ?_⟩, ?_⟩
      · exact decide_eq_true hslot
      · simpa using hlogs
    rw [if_pos hhas]
    exact .inr (.inl (List.mem_singleton_self _))
  | hook j =>
    obtain ⟨hnone, hhook, rfl⟩ := eventSlot_eq_hook.mp hslot
    have hmem : (entry, k) ∈ hookEvents msgs r := mem_hookEvents.mpr ⟨hk, hnone, hhook⟩
    exact .inr (.inr (List.mem_map.mpr ⟨_, (List.mem_insertionSort _).mpr hmem, rfl⟩))

theorem mem_phaseSlots {slot' : BlockSlot} :
    slot' ∈ phaseSlots slot logs ↔ slot' = slot ∧ logs ≠ [] := by
  unfold phaseSlots
  cases logs <;> simp

theorem nodup_phaseSlots (slot : BlockSlot) (logs : List EthLog) : (phaseSlots slot logs).Nodup := by
  unfold phaseSlots
  split_ifs
  · exact List.nodup_nil
  · exact List.nodup_singleton slot

section BlockLayout

variable {E : Env} {block : Block} {results : Option BlockResults}

theorem layoutAt_of_txAt (h : TxAt E block results i rawTx tx r) :
    layoutAt E results i rawTx = (txSlots tx.msgs r).map (.tx i) := by
  obtain ⟨result, hresult, hparse⟩ := h.parsed
  simp only [layoutAt, hresult, h.decoded, hparse]

theorem layoutAt_nodup (i : ℕ) (rawTx : Bytes) : (layoutAt E results i rawTx).Nodup := by
  unfold layoutAt
  split
  · split
    · exact (nodup_txSlots _ _).map fun _ _ h => (BlockSlot.tx.inj h).2
    · exact List.nodup_nil
  · exact List.nodup_nil

theorem exists_of_mem_layoutAt (h : slot ∈ layoutAt E results i rawTx) : ∃ s, slot = .tx i s := by
  unfold layoutAt at h
  split at h
  · split at h
    · obtain ⟨s, -, rfl⟩ := List.mem_map.mp h
      exact ⟨s, rfl⟩
    · cases h
  · cases h

theorem blockLayout_nodup : (blockLayout E block results).Nodup := by
  have htxs : (block.txs.zipIdx.flatMap fun e => layoutAt E results e.2 e.1).Nodup := by
    refine List.nodup_flatMap.mpr ⟨fun e _ => layoutAt_nodup e.2 e.1, ?_⟩
    refine (pairwise_snd_zipIdx block.txs 0).imp fun {a b} hlt slot ha hb => ?_
    obtain ⟨s, rfl⟩ := exists_of_mem_layoutAt ha
    obtain ⟨s', hs'⟩ := exists_of_mem_layoutAt hb
    exact Nat.ne_of_lt hlt (BlockSlot.tx.inj hs').1
  have htx : ∀ slot ∈ block.txs.zipIdx.flatMap fun e => layoutAt E results e.2 e.1,
      ∃ i s, slot = .tx i s := by
    intro slot hslot
    obtain ⟨e, -, hslot⟩ := List.mem_flatMap.mp hslot
    exact ⟨e.2, exists_of_mem_layoutAt hslot⟩
  rw [blockLayout]
  refine ((nodup_phaseSlots _ _).append htxs ?_).append (nodup_phaseSlots _ _) ?_
  · intro slot hbegin hslot
    obtain ⟨i, s, rfl⟩ := htx slot hslot
    cases (mem_phaseSlots.mp hbegin).1
  · intro slot hslot hend
    obtain ⟨rfl, -⟩ := mem_phaseSlots.mp hend
    rcases List.mem_append.mp hslot with hbegin | hslot
    · cases (mem_phaseSlots.mp hbegin).1
    · obtain ⟨i, s, hs⟩ := htx _ hslot
      cases hs

theorem count_eventSlot (htx : TxAt E block results i rawTx tx r) {entry : ResponseEntry} {k : ℕ}
    (hk : r.entries[k]? = some entry) (hlogs : entry.logs ≠ []) :
    (blockLayout E block results).count (.tx i (eventSlot tx.msgs entry k)) = 1 := by
  refine List.count_eq_one_of_mem blockLayout_nodup ?_
  rw [blockLayout, List.mem_append, List.mem_append]
  refine .inl (.inr (List.mem_flatMap.mpr ⟨(rawTx, i), ?_, ?_⟩))
  · exact List.mem_zipIdx_iff_getElem?.mpr htx.raw
  · rw [layoutAt_of_txAt htx]
    exact List.mem_map_of_mem (eventSlot_mem_txSlots hk hlogs)

end BlockLayout

/-! ## Indexed blocks are laid out -/

/-- Every transaction of a block indexed with virtualisation was decoded and its events
were parsed. -/
theorem exists_txAt {E : Env} {kv : KVIndexer} {block : Block} {results : Option BlockResults}
    {txResults : List (Option ExecTxResult)} {st : IndexState}
    (hkv : kv.virtualizationEnabled = true) (h : buildBlock E kv block results = .ok st)
    (hnorm : normalizeTxResponseIndexes E (blockTxResults results) = .ok txResults) {i : ℕ}
    {rawTx : Bytes} (hraw : block.txs[i]? = some rawTx) :
    ∃ tx r result, TxAt E block results i rawTx tx r ∧ txResults[i]? = some (some result) := by
  obtain ⟨t, t', hpass⟩ := exists_indexTx h hnorm hraw
  obtain ⟨result, tx, response, _, _, _, hresult, htx, hresponse, -⟩ := indexTx_ok hpass
  rw [virtualResponse, if_pos hkv] at hresponse
  obtain ⟨r, hr, -⟩ := map_eq_ok.mp hresponse
  rw [orBlockParseError_eq_ok] at hr
  obtain ⟨res, hres, heq⟩ := normalizeResults_getElem? hnorm hresult
  refine ⟨tx, r, result, ⟨hraw, htx, res, hres, ?_⟩, hresult⟩
  rw [heq] at hr
  exact hr

theorem splitBlockEvents_ok {raw : List Event} {beginLogs endLogs : List EthLog}
    (h : splitBlockEvents E raw = .ok (beginLogs, endLogs)) :
    ∃ events, Bank.parseEvents E raw = .ok events ∧ PhaseLogsAre E events .beginBlock beginLogs ∧
      PhaseLogsAre E events .endBlock endLogs := by
  unfold splitBlockEvents at h
  obtain ⟨events, hevents, h⟩ := bind_eq_ok.mp h
  obtain ⟨bs, hbs, h⟩ := bind_eq_ok.mp h
  obtain ⟨es, hes, h⟩ := bind_eq_ok.mp h
  obtain ⟨rfl, rfl⟩ := Prod.mk.inj (Except.ok.inj h)
  refine ⟨events, hevents, ?_, ?_⟩
  · have hslot : (fun event => decide (phaseSlot event = .beginBlock)) =
        fun event : Bank.BankEvent => decide (event.mode = Bank.modeBeginBlock) := by
      funext event
      by_cases hmode : event.mode = Bank.modeBeginBlock <;> simp [phaseSlot, hmode]
    rw [PhaseLogsAre, hslot]
    exact mapM_ok hbs
  · have hslot : (fun event => decide (phaseSlot event = .endBlock)) =
        fun event : Bank.BankEvent => decide (event.mode ≠ Bank.modeBeginBlock) := by
      funext event
      by_cases hmode : event.mode = Bank.modeBeginBlock <;> simp [phaseSlot, hmode]
    rw [PhaseLogsAre, hslot]
    exact mapM_ok hes

theorem PhaseLogsAre.ne_nil {events : List Bank.BankEvent} (h : PhaseLogsAre E events slot logs)
    {event : Bank.BankEvent} (hevent : event ∈ events) (hslot : phaseSlot event = slot) :
    logs ≠ [] := by
  rintro rfl
  have hnil := List.forall₂_nil_right_iff.mp h
  have hmem : event ∈ events.filter fun event => phaseSlot event = slot :=
    List.mem_filter.mpr ⟨hevent, decide_eq_true hslot⟩
  rw [hnil] at hmem
  cases hmem

/-- **The records of a virtual block are its layout.** -/
structure LaidOut (E : Env) (block : Block) (results : Option BlockResults) (R : BlockRecords) :
    Prop where
  /-- every transaction has decoded messages and tracked events -/
  txs : ∀ (i : ℕ) (rawTx : Bytes), block.txs[i]? = some rawTx →
    ∃ tx r, TxAt E block results i rawTx tx r
  /-- the records fit the slots of the layout, one by one -/
  records : ∃ txResults, normalizeTxResponseIndexes E (blockTxResults results) = .ok txResults ∧
    List.Forall₂ (FitsSlot E block results txResults) (blockLayout E block results) R.entries
  /-- the slot of an event with logs is in the layout once -/
  events : ∀ (i : ℕ) (rawTx : Bytes) (tx : SdkTx) (r : Response),
    TxAt E block results i rawTx tx r → ∀ (k : ℕ) (entry : ResponseEntry),
      r.entries[k]? = some entry → entry.logs ≠ [] →
        (blockLayout E block results).count (.tx i (eventSlot tx.msgs entry k)) = 1
  /-- the phases hold the logs of the bank events of the block, each in its slot, and the
  slot of a bank event is in the layout once -/
  phases : ∀ fin, results = some fin → ∃ events,
    Bank.parseEvents E fin.finalizeBlockEvents = .ok events ∧
      PhaseLogsAre E events .beginBlock (phaseLogs E true results).1 ∧
      PhaseLogsAre E events .endBlock (phaseLogs E true results).2 ∧
      ∀ event ∈ events, (blockLayout E block results).count (phaseSlot event) = 1

section LaidOut

variable {E : Env} {kv : KVIndexer} {block : Block} {results : Option BlockResults}
  {txResults : List (Option ExecTxResult)} {st : IndexState}

theorem map_slot_blockPieces (hext : ExtensionCarried E block)
    (htxs : ∀ (i : ℕ) (rawTx : Bytes), block.txs[i]? = some rawTx → ∃ tx r result,
      TxAt E block results i rawTx tx r ∧ txResults[i]? = some (some result))
    (hnorm : normalizeTxResponseIndexes E (blockTxResults results) = .ok txResults) :
    (blockPieces E true block results txResults).map (·.slot) = blockLayout E block results := by
  have hpieces : ∀ e ∈ block.txs.zipIdx, (piecesAt E true block txResults e.2 e.1).map (·.slot) =
      layoutAt E results e.2 e.1 := by
    intro e he
    obtain ⟨tx, r, result, htx, hresult⟩ := htxs e.2 e.1 (List.mem_zipIdx_iff_getElem?.mp he)
    exact map_slot_piecesAt hext htx hnorm hresult
  rw [blockPieces, blockLayout, List.map_append, List.map_append, map_slot_phasePieces,
    map_slot_phasePieces, List.map_flatMap]
  congr 2
  simp only [List.flatMap_def]
  rw [List.map_congr_left hpieces]

theorem fits_of_mem_blockPieces
    (htxs : ∀ (i : ℕ) (rawTx : Bytes), block.txs[i]? = some rawTx → ∃ tx r result,
      TxAt E block results i rawTx tx r ∧ txResults[i]? = some (some result))
    (hnorm : normalizeTxResponseIndexes E (blockTxResults results) = .ok txResults)
    {position logIndex : ℕ} {e : Entry} (hp : p ∈ blockPieces E true block results txResults)
    (hstored : p.Stored E true block position logIndex e) :
    FitsSlot E block results txResults p.slot e := by
  rw [blockPieces, List.mem_append, List.mem_append] at hp
  rcases hp with (hp | hp) | hp
  · exact fits_of_mem_phasePieces (.inl ⟨rfl, rfl⟩) hp hstored
  · obtain ⟨event, hevent, hp⟩ := List.mem_flatMap.mp hp
    obtain ⟨tx, r, result, htx, -⟩ :=
      htxs event.2 event.1 (List.mem_zipIdx_iff_getElem?.mp hevent)
    exact fits_of_mem_piecesAt htx hnorm hp hstored
  · exact fits_of_mem_phasePieces (.inr ⟨rfl, rfl⟩) hp hstored

theorem StoresAll.fits (hext : ExtensionCarried E block)
    (htxs : ∀ (i : ℕ) (rawTx : Bytes), block.txs[i]? = some rawTx → ∃ tx r result,
      TxAt E block results i rawTx tx r ∧ txResults[i]? = some (some result))
    (hnorm : normalizeTxResponseIndexes E (blockTxResults results) = .ok txResults)
    {es : List Entry} (h : StoresAll E true block (blockPieces E true block results txResults) es) :
    List.Forall₂ (FitsSlot E block results txResults) (blockLayout E block results) es := by
  rw [← map_slot_blockPieces hext htxs hnorm, List.forall₂_map_left_iff, List.forall₂_iff_get]
  refine ⟨h.length, fun k hk hk' => ?_⟩
  refine fits_of_mem_blockPieces htxs hnorm (List.get_mem _ _) (h.stored k _ _ ?_ ?_)
  · exact List.getElem?_eq_getElem hk
  · exact List.getElem?_eq_getElem hk'

theorem laidOut_phases (hkv : kv.virtualizationEnabled = true)
    (h : buildBlock E kv block results = .ok st) {fin : BlockResults} (hfin : results = some fin) :
    ∃ events, Bank.parseEvents E fin.finalizeBlockEvents = .ok events ∧
      PhaseLogsAre E events .beginBlock (phaseLogs E true results).1 ∧
      PhaseLogsAre E events .endBlock (phaseLogs E true results).2 ∧
      ∀ event ∈ events, (blockLayout E block results).count (phaseSlot event) = 1 := by
  obtain ⟨_, beginLogs, endLogs, _, -, hlogs, -, -⟩ := buildBlock_ok h
  have hphase := (blockPhaseLogs_ok hlogs).1
  rw [hkv] at hphase
  rw [hfin, blockPhaseLogs, if_pos hkv, orBlockParseError_eq_ok] at hlogs
  obtain ⟨events, hevents, hbegin, hend⟩ := splitBlockEvents_ok hlogs
  rw [hphase]
  refine ⟨events, hevents, hbegin, hend, fun event hevent => ?_⟩
  refine List.count_eq_one_of_mem blockLayout_nodup ?_
  rw [blockLayout, hphase, List.mem_append, List.mem_append]
  by_cases hmode : event.mode = Bank.modeBeginBlock
  · have hslot : phaseSlot event = .beginBlock := if_pos hmode
    exact .inl (.inl (mem_phaseSlots.mpr ⟨hslot, hbegin.ne_nil hevent hslot⟩))
  · have hslot : phaseSlot event = .endBlock := if_neg hmode
    exact .inr (mem_phaseSlots.mpr ⟨hslot, hend.ne_nil hevent hslot⟩)

end LaidOut

/-- **Virtual block layout.**  The records that indexing a block with virtualisation
leaves in the store are laid out as the block's messages and events say. -/
theorem virtual_layout {E : Env} {kv : KVIndexer} {db db' : DB} {block : Block}
    {results : Option BlockResults} (hkv : kv.virtualizationEnabled = true)
    (hext : ExtensionCarried E block) (h : indexBlock E kv db block results = .ok db') :
    ∃ R : BlockRecords, R.block = block ∧ Holds db' R ∧ LaidOut E block results R := by
  obtain ⟨R, st, txResults, hblock, hholds, hst, hnorm, hall, -⟩ := indexBlock_stores h
  rw [hkv] at hall
  have htxs := fun i rawTx hraw =>
    @exists_txAt E kv block results txResults st hkv hst hnorm i rawTx hraw
  refine ⟨R, hblock, hholds, ?_, ?_, ?_, ?_⟩
  · intro i rawTx hraw
    obtain ⟨tx, r, -, htx, -⟩ := htxs i rawTx hraw
    exact ⟨tx, r, htx⟩
  · exact ⟨txResults, hnorm, hall.fits hext htxs hnorm⟩
  · exact fun i rawTx tx r htx k entry hk hlogs => count_eventSlot htx hk hlogs
  · exact fun fin hfin => laidOut_phases hkv hst hfin

/-- The mixed block has two slots: the message of its Ethereum transaction and the bank
events of its Cosmos transaction. -/
theorem virtual_layout_mixed :
    ∃ db, indexBlock .sample { virtualizationEnabled := true } ∅ sampleMixedBlock
        (some sampleMixedResults) = .ok db ∧
      blockLayout .sample sampleMixedBlock (some sampleMixedResults) =
        [.tx 0 (.message 0), .tx 1 .bank] ∧
      ∃ R : BlockRecords, R.block = sampleMixedBlock ∧ Holds db R ∧
        LaidOut .sample sampleMixedBlock (some sampleMixedResults) R := by
  have hext : ExtensionCarried .sample sampleMixedBlock := by
    intro rawTx hraw tx htx hne
    rcases List.mem_pair.mp hraw with rfl | rfl
    · obtain rfl := Except.ok.inj htx
      rfl
    · obtain rfl := Except.ok.inj htx
      exact absurd rfl hne
  exact ⟨_, rfl, by decide +kernel, @virtual_layout .sample { virtualizationEnabled := true } ∅ _
    sampleMixedBlock (some sampleMixedResults) rfl hext rfl⟩

end EvmGateway
