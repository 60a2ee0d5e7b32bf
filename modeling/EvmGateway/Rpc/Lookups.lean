import EvmGateway.Lib.Lists
import EvmGateway.Rpc.Normalize

/-!
# Lookups in a parsed result

The records of a parsed result stand at consecutive positions, and the hash map holds message
indexes that the lookups use as positions.  An event adds its record at the position it counts, so
the two agree; the record of a failure log brings the message index of the log with it and is
appended behind the records of the events.

`lookups_coherent_iff` says for every result and transaction when parsing and the lookups are safe
and coherent.

## Main definitions

* `ParsedTxs.Indexed` — every record stands at its message index, and the map leads to its hash.
* `ParsedTxs.Coherent` — what the lookups promise.
* `LookupsSound` — the condition on the result and the transaction.
-/

namespace EvmGateway

open Lib

variable {t : ParsedTx} {p : ParsedTxs} {txs : List ParsedTx}

/-- The records of the Ethereum events of a result. -/
def eventTxs (E : Env) (events : List Event) : Except Err ParsedTxs :=
  events.foldlM (fun p event =>
    if event.type ≠ E.eventTypeEthereumTx then pure p
    else parseTxFromEvent E p event.attributes) {}

/-- The record was returned by a lookup. -/
inductive ParsedTxs.Returns (p : ParsedTxs) : ParsedTx → Prop
  | byHash {h t} : p.getTxByHash h = .ok (some t) → p.Returns t
  | byMsgIndex {i t} : p.getTxByMsgIndex i = some t → p.Returns t
  | byTxIndex {i t} : p.getTxByTxIndex i = some t → p.Returns t

/-- The lookups do not panic, return what was asked for, and the gas up to a returned record can be
added up. -/
structure ParsedTxs.Coherent (p : ParsedTxs) : Prop where
  hash_noPanic : ∀ h, NoPanic (p.getTxByHash h)
  hash : ∀ h t, p.getTxByHash h = .ok (some t) → t.hash = h
  msgIndex : ∀ i t, p.getTxByMsgIndex i = some t → t.msgIndex = i
  gas : ∀ t, p.Returns t → NoPanic (p.accumulativeGasUsed t.msgIndex)

/-- The failure log of a result names a message, and a record for it can be made: from the error
object of the log, or from the message itself. -/
def LogNames (E : Env) (result : ExecTxResult) (tx : Option SdkTx) (msgIndex : ℤ) : Prop :=
  ∃ digits text, msgErrJSONRx result.log = some (digits, text) ∧ atoi digits = .ok msgIndex ∧
    ((∃ vmErr, E.sonicUnmarshalVMError text = .ok vmErr) ∨
      ∃ sdkTx, tx = some sdkTx ∧ 0 ≤ msgIndex ∧
        ((sdkTx.msgs[msgIndex.toNat]?).bind Msg.ethereum?).isSome = true)

/-- When parsing and the lookups are safe: if the events can be read, the message a failure log of
the EVM names is the one after those of the events, and on any other failure each event has an
Ethereum message at its position. -/
def LookupsSound (E : Env) (result : ExecTxResult) (tx : Option SdkTx) : Prop :=
  (∀ event ∈ result.events, event.type = E.eventTypeEthereumTx →
      ∃ t, fillTxAttributes E (newParsedTx 0) event.attributes = .ok t) →
    result.code ≠ codeTypeOK →
      if result.codespace = E.moduleName then
        ∀ msgIndex, LogNames E result tx msgIndex →
          msgIndex = countEthereumTxEvents E result.events
      else ∀ sdkTx, tx = some sdkTx → ∀ i < countEthereumTxEvents E result.events,
        ((sdkTx.msgs[i]?).bind Msg.ethereum?).isSome = true

theorem LogNames.unique {E : Env} {result : ExecTxResult} {tx : Option SdkTx} {i j : ℤ}
    (hi : LogNames E result tx i) (hj : LogNames E result tx j) : i = j := by
  obtain ⟨digits, text, hlog, hindex, -⟩ := hi
  obtain ⟨digits', text', hlog', hindex', -⟩ := hj
  rw [hlog] at hlog'
  obtain ⟨rfl, -⟩ := Prod.mk.inj (Option.some.inj hlog')
  rw [hindex] at hindex'
  exact Except.ok.inj hindex'

/-! ## Panics -/

theorem fillTxAttribute_noPanic (E : Env) (tx : ParsedTx) (key value : String) :
    NoPanic (fillTxAttribute E tx key value) := by
  unfold fillTxAttribute
  split_ifs
  · exact .ok _
  · exact (NoPanic.liftErr _).bind fun _ _ => .ok _
  · exact (NoPanic.liftErr _).bind fun _ _ => .ok _
  · exact .ok _
  · exact .ok _

theorem parseTxFromEvent_noPanic (E : Env) (p : ParsedTxs) (attrs : List EventAttribute) :
    NoPanic (parseTxFromEvent E p attrs) :=
  (NoPanic.foldlM (fun attr _ tx => fillTxAttribute_noPanic E tx attr.key attr.value) _).bind
    fun _ _ => .ok _

theorem parseFromLog_noPanic (E : Env) (p : ParsedTxs) (result : ExecTxResult) (tx : Option SdkTx) :
    NoPanic (parseFromLog E p result tx) := by
  unfold parseFromLog
  cases hlog : msgErrJSONRx result.log with
  | none => exact .error (by simp [Err.plain])
  | some m =>
    refine (NoPanic.wrapErr (.liftErr _) _).bind fun msgIndex _ => ?_
    cases hjson : E.sonicUnmarshalVMError m.2 with
    | ok vmErr => exact .ok _
    | error err =>
      cases htext : failedTxFromTextLog tx result msgIndex m.2 with
      | ok failedTx => exact .ok _
      | error e => exact .error (by simp [Err.plain, Err.wrap])

theorem eventTxs_noPanic (E : Env) (events : List Event) : NoPanic (eventTxs E events) := by
  refine NoPanic.foldlM (fun event _ p => ?_) _
  split_ifs
  · exact .ok p
  · exact parseTxFromEvent_noPanic E p event.attributes

/-! ## Records at their positions -/

theorem mem_of_lookup {α β : Type} [BEq α] [LawfulBEq α] {l : List (α × β)} {a : α} {b : β}
    (h : l.lookup a = some b) : (a, b) ∈ l := by
  induction l with
  | nil => cases h
  | cons e l ih =>
    rw [List.lookup_cons] at h
    split at h
    · rename_i heq
      obtain rfl := Option.some.inj h
      rw [beq_iff_eq.mp heq]
      exact List.mem_cons_self
    · exact List.mem_cons_of_mem _ (ih h)

theorem getTxByMsgIndex_eq_some {i : ℤ} :
    p.getTxByMsgIndex i = some t ↔ 0 ≤ i ∧ p.txs[i.toNat]? = some t := by
  unfold ParsedTxs.getTxByMsgIndex
  split_ifs with hout
  · constructor
    · intro h
      cases h
    · intro h
      have := (List.getElem?_eq_some_iff.mp h.2).1
      omega
  · exact ⟨fun h => ⟨by omega, h⟩, fun h => h.2⟩

/-- A lookup returns one of the records. -/
theorem ParsedTxs.Returns.mem (h : p.Returns t)
    (hhash : ∀ {h t}, p.getTxByHash h = .ok (some t) → t.hash = h ∧ t ∈ p.txs) : t ∈ p.txs := by
  cases h with
  | byHash ht => exact (hhash ht).2
  | byMsgIndex ht => exact List.mem_of_getElem? (getTxByMsgIndex_eq_some.mp ht).2
  | byTxIndex ht =>
    unfold ParsedTxs.getTxByTxIndex at ht
    split at ht
    · cases ht
    · exact List.mem_of_getElem? (getTxByMsgIndex_eq_some.mp ht).2

/-- What a record is found by. -/
def ParsedTx.key (t : ParsedTx) : ℤ × Hash := (t.msgIndex, t.hash)

/-- Every record stands at its message index, and the map leads to a record of its hash. -/
structure ParsedTxs.Indexed (p : ParsedTxs) : Prop where
  msgIndex : ∀ (i : ℕ) t, p.txs[i]? = some t → t.msgIndex = i
  txHashes : ∀ h idx, (h, idx) ∈ p.txHashes →
    ∃ (i : ℕ) (t : ParsedTx), idx = i ∧ p.txs[i]? = some t ∧ t.hash = h

namespace ParsedTxs.Indexed

variable {p : ParsedTxs}

theorem init : ParsedTxs.Indexed {} where
  msgIndex := fun i t h => by simp at h
  txHashes := fun h idx hmem => by simp at hmem

/-- A record that is appended under its own position keeps the others where they are. -/
theorem push (hp : p.Indexed) {tx : ParsedTx} (htx : tx.msgIndex = p.txs.length) :
    (p.push tx p.txs.length).Indexed where
  msgIndex := by
    intro i t hi
    rw [ParsedTxs.push, List.getElem?_append] at hi
    split_ifs at hi with hlt
    · exact hp.msgIndex i t hi
    · obtain ⟨hzero, rfl⟩ : i - p.txs.length = 0 ∧ tx = t := by
        simpa [List.getElem?_singleton] using hi
      rw [htx]
      omega
  txHashes := by
    intro h idx hmem
    rcases List.mem_cons.mp hmem with heq | hmem
    · obtain ⟨rfl, rfl⟩ := Prod.mk.inj heq
      exact ⟨p.txs.length, tx, rfl, by simp [ParsedTxs.push], rfl⟩
    · obtain ⟨i, t, rfl, hi, hhash⟩ := hp.txHashes h idx hmem
      have hlt := (List.getElem?_eq_some_iff.mp hi).1
      exact ⟨i, t, rfl, by rw [ParsedTxs.push, List.getElem?_append_left hlt, hi], hhash⟩

/-- Rewriting the other fields of the records keeps them at their positions. -/
theorem rewrite (hp : p.Indexed) (htxs : txs.map ParsedTx.key = p.txs.map ParsedTx.key) :
    ParsedTxs.Indexed { p with txs := txs } := by
  have hkey : ∀ (i : ℕ), txs[i]?.map ParsedTx.key = p.txs[i]?.map ParsedTx.key := by
    intro i
    rw [← List.getElem?_map, htxs, List.getElem?_map]
  constructor
  · intro i t' hi
    obtain ⟨t, ht, heq⟩ := Option.map_eq_some_iff.mp
      ((hkey i).symm.trans (congrArg (Option.map ParsedTx.key) hi))
    rw [← (Prod.mk.inj heq).1, hp.msgIndex i t ht]
  · intro h idx hmem
    obtain ⟨i, t, rfl, hi, hhash⟩ := hp.txHashes h idx hmem
    obtain ⟨t', ht', heq⟩ := Option.map_eq_some_iff.mp
      ((hkey i).trans (congrArg (Option.map ParsedTx.key) hi))
    exact ⟨i, t', rfl, ht', (Prod.mk.inj heq).2.trans hhash⟩

theorem getTxByHash_noPanic (hp : p.Indexed) (h : Hash) : NoPanic (p.getTxByHash h) := by
  unfold ParsedTxs.getTxByHash
  cases hlook : p.txHashes.lookup h with
  | none => exact .ok _
  | some idx =>
    obtain ⟨i, t, rfl, hi, -⟩ := hp.txHashes h idx (mem_of_lookup hlook)
    simp only [Int.toNat_natCast, hi]
    rw [if_neg (by omega)]
    exact .ok _

theorem getTxByHash_hash (hp : p.Indexed) {h : Hash} (ht : p.getTxByHash h = .ok (some t)) :
    t.hash = h ∧ t ∈ p.txs := by
  unfold ParsedTxs.getTxByHash at ht
  cases hlook : p.txHashes.lookup h with
  | none => simp [hlook] at ht
  | some idx =>
    obtain ⟨i, t', rfl, hi, hhash⟩ := hp.txHashes h idx (mem_of_lookup hlook)
    simp only [hlook, Int.toNat_natCast, hi] at ht
    rw [if_neg (by omega)] at ht
    obtain rfl := Option.some.inj (Except.ok.inj ht)
    exact ⟨hhash, List.mem_of_getElem? hi⟩

/-- Records at their positions can be looked up. -/
theorem coherent (hp : p.Indexed) : p.Coherent where
  hash_noPanic := hp.getTxByHash_noPanic
  hash := fun h t ht => (hp.getTxByHash_hash ht).1
  msgIndex := by
    intro i t ht
    obtain ⟨h0, hget⟩ := getTxByMsgIndex_eq_some.mp ht
    rw [hp.msgIndex _ t hget, Int.toNat_of_nonneg h0]
  gas := by
    intro t ht
    obtain ⟨i, hi⟩ := List.getElem?_of_mem (ht.mem hp.getTxByHash_hash)
    rw [hp.msgIndex i t hi, ParsedTxs.accumulativeGasUsed, if_neg]
    · exact .ok _
    · have := (List.getElem?_eq_some_iff.mp hi).1
      omega

end ParsedTxs.Indexed

/-! ## The events -/

section Parsing

variable {E : Env} {result : ExecTxResult} {tx : Option SdkTx}

/-- An attribute leaves the message index alone, and whether it can be read does not depend on the
record. -/
theorem fillTxAttribute_ok {t' : ParsedTx} {key value : String}
    (h : fillTxAttribute E t key value = .ok t') :
    t'.msgIndex = t.msgIndex ∧ ∀ u, ∃ u', fillTxAttribute E u key value = .ok u' := by
  unfold fillTxAttribute at h ⊢
  split_ifs at h ⊢
  · obtain rfl := Except.ok.inj h
    exact ⟨rfl, fun u => ⟨_, rfl⟩⟩
  · obtain ⟨n, hn, h⟩ := bind_eq_ok.mp h
    obtain rfl := Except.ok.inj h
    exact ⟨rfl, fun u => ⟨{ u with ethTxIndex := n }, by rw [hn]; rfl⟩⟩
  · obtain ⟨n, hn, h⟩ := bind_eq_ok.mp h
    obtain rfl := Except.ok.inj h
    exact ⟨rfl, fun u => ⟨{ u with gasUsed := UInt64.ofNat n }, by rw [hn]; rfl⟩⟩
  · obtain rfl := Except.ok.inj h
    exact ⟨rfl, fun u => ⟨_, rfl⟩⟩
  · obtain rfl := Except.ok.inj h
    exact ⟨rfl, fun u => ⟨u, rfl⟩⟩

theorem fillTxAttributes_ok {attrs : List EventAttribute} {t' : ParsedTx}
    (h : fillTxAttributes E t attrs = .ok t') :
    t'.msgIndex = t.msgIndex ∧ ∀ u, ∃ u', fillTxAttributes E u attrs = .ok u' := by
  induction attrs generalizing t with
  | nil =>
    obtain rfl := Except.ok.inj h
    exact ⟨rfl, fun u => ⟨u, rfl⟩⟩
  | cons attr attrs ih =>
    rw [fillTxAttributes, List.foldlM_cons] at h
    obtain ⟨t₁, h₁, h⟩ := bind_eq_ok.mp h
    obtain ⟨hindex₁, hany₁⟩ := fillTxAttribute_ok h₁
    obtain ⟨hindex, hany⟩ := ih h
    refine ⟨hindex.trans hindex₁, fun u => ?_⟩
    obtain ⟨u₁, hu₁⟩ := hany₁ u
    obtain ⟨u', hu'⟩ := hany u₁
    exact ⟨u', by rw [fillTxAttributes, List.foldlM_cons, hu₁]; exact hu'⟩

theorem countEthereumTxEvents_cons (event : Event) (events : List Event) :
    countEthereumTxEvents E (event :: events) = countEthereumTxEvents E events +
      if event.type = E.eventTypeEthereumTx then 1 else 0 := by
  simp [countEthereumTxEvents, List.countP_cons]

/-- **The events** add a record each, at its position. -/
theorem foldlM_events_indexed {events : List Event} {p' : ParsedTxs} (hp : p.Indexed)
    (h : events.foldlM (fun p event =>
      if event.type ≠ E.eventTypeEthereumTx then pure p
      else parseTxFromEvent E p event.attributes) p = (.ok p' : Except Err ParsedTxs)) :
    p'.Indexed ∧ p'.txs.length = p.txs.length + countEthereumTxEvents E events := by
  induction events generalizing p with
  | nil =>
    obtain rfl := Except.ok.inj h
    exact ⟨hp, by simp [countEthereumTxEvents]⟩
  | cons event events ih =>
    rw [List.foldlM_cons] at h
    obtain ⟨p₁, h₁, h⟩ := bind_eq_ok.mp h
    by_cases htype : event.type = E.eventTypeEthereumTx
    · rw [if_neg (not_not_intro htype)] at h₁
      obtain ⟨t, ht, h₁⟩ := bind_eq_ok.mp h₁
      obtain rfl := Except.ok.inj h₁
      obtain ⟨hindexed, hlength⟩ := ih (hp.push (fillTxAttributes_ok ht).1) h
      refine ⟨hindexed, ?_⟩
      rw [hlength, countEthereumTxEvents_cons, if_pos htype, ParsedTxs.push, List.length_append,
        List.length_singleton]
      omega
    · rw [if_pos htype] at h₁
      obtain rfl := Except.ok.inj h₁
      obtain ⟨hindexed, hlength⟩ := ih hp h
      refine ⟨hindexed, ?_⟩
      rw [hlength, countEthereumTxEvents_cons, if_neg htype, Nat.add_zero]

theorem eventTxs_indexed (h : eventTxs E result.events = .ok p) :
    p.Indexed ∧ p.txs.length = countEthereumTxEvents E result.events := by
  obtain ⟨hindexed, hlength⟩ := foldlM_events_indexed .init h
  exact ⟨hindexed, by simpa using hlength⟩

/-- The events can be read together if each can be read alone. -/
theorem foldlM_events_ok {events : List Event} (p : ParsedTxs) :
    (∃ p', events.foldlM (fun p event =>
      if event.type ≠ E.eventTypeEthereumTx then pure p
      else parseTxFromEvent E p event.attributes) p = (.ok p' : Except Err ParsedTxs)) ↔
      ∀ event ∈ events, event.type = E.eventTypeEthereumTx →
        ∃ t, fillTxAttributes E (newParsedTx 0) event.attributes = .ok t := by
  induction events generalizing p with
  | nil => simp
  | cons event events ih =>
    rw [List.foldlM_cons, List.forall_mem_cons]
    by_cases htype : event.type = E.eventTypeEthereumTx
    · rw [if_neg (not_not_intro htype)]
      constructor
      · rintro ⟨p', h⟩
        obtain ⟨p₁, h₁, h⟩ := bind_eq_ok.mp h
        obtain ⟨t, ht, -⟩ := bind_eq_ok.mp h₁
        exact ⟨fun _ => (fillTxAttributes_ok ht).2 _, (ih p₁).mp ⟨p', h⟩⟩
      · rintro ⟨hevent, hevents⟩
        obtain ⟨t, ht⟩ := hevent htype
        obtain ⟨t', ht'⟩ := (fillTxAttributes_ok ht).2 (newParsedTx p.txs.length)
        obtain ⟨p', hp'⟩ := (ih (p.push t' p.txs.length)).mpr hevents
        exact ⟨p', by rw [parseTxFromEvent, ht']; exact hp'⟩
    · rw [if_pos htype]
      constructor
      · rintro ⟨p', h⟩
        exact ⟨fun h' => absurd h' htype, (ih p).mp ⟨p', h⟩⟩
      · rintro ⟨-, hevents⟩
        exact (ih p).mpr hevents

/-! ## The failure log -/

theorem failedTxFromTextLog_ok {msgIndex : ℤ} {vmError : String}
    (h : failedTxFromTextLog tx result msgIndex vmError = .ok t) :
    msgIndex = t.msgIndex ∧ ∃ sdkTx, tx = some sdkTx ∧ 0 ≤ t.msgIndex ∧
      ((sdkTx.msgs[t.msgIndex.toNat]?).bind Msg.ethereum?).isSome = true := by
  unfold failedTxFromTextLog at h
  cases tx with
  | none => simp at h
  | some sdkTx =>
    by_cases hout : msgIndex < 0 ∨ msgIndex ≥ sdkTx.msgs.length
    · simp [hout] at h
    · simp only [hout, if_false] at h
      cases hmsg : (sdkTx.msgs[msgIndex.toNat]?).bind Msg.ethereum? with
      | none => simp [hmsg] at h
      | some ethMsg =>
        simp only [hmsg] at h
        obtain rfl := Except.ok.inj h
        exact ⟨rfl, sdkTx, rfl, by simp only; omega, by simp [hmsg]⟩

/-- A failure log appends the record of the message it names, under its index. -/
theorem parseFromLog_ok {p' : ParsedTxs} (h : parseFromLog E p result tx = .ok p') :
    ∃ t, LogNames E result tx t.msgIndex ∧ p' = p.push t t.msgIndex := by
  unfold parseFromLog at h
  cases hlog : msgErrJSONRx result.log with
  | none => simp [hlog] at h
  | some m =>
    obtain ⟨digits, text⟩ := m
    simp only [hlog] at h
    obtain ⟨msgIndex, hindex, h⟩ := bind_eq_ok.mp h
    have hatoi : atoi digits = .ok msgIndex := by
      cases ha : atoi digits with
      | error e => simp [ha, liftErr, wrapErr, Except.mapError] at hindex
      | ok n => simpa [ha, liftErr, wrapErr, Except.mapError] using hindex
    cases hjson : E.sonicUnmarshalVMError text with
    | ok vmErr =>
      simp only [hjson] at h
      obtain rfl := Except.ok.inj h
      exact ⟨_, ⟨digits, text, hlog, hatoi, .inl ⟨vmErr, hjson⟩⟩, rfl⟩
    | error err =>
      simp only [hjson] at h
      cases htext : failedTxFromTextLog tx result msgIndex text with
      | error e => simp [htext] at h
      | ok failedTx =>
        simp only [htext] at h
        obtain rfl := Except.ok.inj h
        obtain ⟨hfailed, hmsg⟩ := failedTxFromTextLog_ok htext
        subst hfailed
        exact ⟨failedTx, ⟨digits, text, hlog, hatoi, .inr hmsg⟩, rfl⟩

theorem parseFromLog_of_names {msgIndex : ℤ} (h : LogNames E result tx msgIndex) (p : ParsedTxs) :
    ∃ p', parseFromLog E p result tx = .ok p' := by
  obtain ⟨digits, text, hlog, hatoi, hsource⟩ := h
  have hindex : wrapErr (liftErr (atoi digits)) "failed to parse message index as int" =
      .ok msgIndex := by
    rw [hatoi]
    rfl
  unfold parseFromLog
  simp only [hlog, hindex, ok_bind]
  cases hjson : E.sonicUnmarshalVMError text with
  | ok vmErr => exact ⟨_, rfl⟩
  | error err =>
    rcases hsource with ⟨vmErr, hok⟩ | ⟨sdkTx, rfl, h0, hmsg⟩
    · rw [hjson] at hok
      cases hok
    · obtain ⟨ethMsg, heth⟩ := Option.isSome_iff_exists.mp hmsg
      obtain ⟨msg, hget, -⟩ := Option.bind_eq_some_iff.mp heth
      have hlt := (List.getElem?_eq_some_iff.mp hget).1
      have hin : ¬ (msgIndex < 0 ∨ msgIndex ≥ sdkTx.msgs.length) := by omega
      have htext : ∃ t, failedTxFromTextLog (some sdkTx) result msgIndex text = .ok t := by
        simp only [failedTxFromTextLog, hin, if_false, heth]
        exact ⟨_, rfl⟩
      obtain ⟨t, htext⟩ := htext
      exact ⟨_, by simp only [htext]; rfl⟩

/-! ## Other failures -/

def chargeGasLimit (msgs : List Msg) (i : ℕ) (tx : ParsedTx) (done : List ParsedTx) :
    Except Err (List ParsedTx) :=
  match (msgs[i]?).bind Msg.ethereum? with
  | none => .error (.panic "index out of range or wrong message type")
  | some ethMsg => .ok (done ++ [{ tx with failed := true, gasUsed := ethMsg.gas }])

theorem chargeGasLimits_eq (msgs : List Msg) (txs : List ParsedTx) :
    chargeGasLimits msgs txs = forIdx (chargeGasLimit msgs) 0 txs [] := rfl

/-- Charging the gas limits rewrites the other fields of the records. -/
theorem chargeGasLimits_ok {msgs : List Msg} {txs' : List ParsedTx}
    (h : chargeGasLimits msgs txs = .ok txs') :
    txs'.map ParsedTx.key = txs.map ParsedTx.key := by
  have hout := forIdx_output (fun keys (done : List ParsedTx) => done.map ParsedTx.key = keys)
    (fun _ t => [ParsedTx.key t]) txs 0 [] txs' [] rfl ?_ h
  · rw [hout, List.nil_append, ← List.map_eq_flatMap]
    conv_rhs => rw [← List.zipIdx_map_fst 0 txs, List.map_map]
    rfl
  · intro j t done done' keys _ hkeys hstep
    change chargeGasLimit msgs (0 + j) t done = .ok done' at hstep
    unfold chargeGasLimit at hstep
    split at hstep
    · cases hstep
    · obtain rfl := Except.ok.inj hstep
      rw [List.map_append, hkeys]
      rfl

theorem chargeGasLimits_noPanic {msgs : List Msg} :
    NoPanic (chargeGasLimits msgs txs) ↔
      ∀ i < txs.length, ((msgs[i]?).bind Msg.ethereum?).isSome = true := by
  rw [chargeGasLimits_eq]
  constructor
  · intro h i hi
    by_contra hnone
    rw [Bool.not_eq_true, Option.isSome_eq_false_iff, Option.isNone_iff_eq_none] at hnone
    have hfail : ∀ done, ∃ e, chargeGasLimit msgs (0 + i) (txs[i]) done = .error e := by
      intro done
      simp only [chargeGasLimit, Nat.zero_add, hnone]
      exact ⟨_, rfl⟩
    have hpanic : ∀ j t done e, chargeGasLimit msgs (0 + j) t done = .error e →
        e.kind = .panic := by
      intro j t done e hstep
      unfold chargeGasLimit at hstep
      split at hstep
      · obtain rfl := Except.error.inj hstep
        rfl
      · cases hstep
    obtain ⟨e, he, hkind⟩ := forIdx_error txs 0 [] hpanic
      ⟨i, txs[i], List.getElem?_eq_getElem hi, hfail⟩
    exact h e he hkind
  · intro h
    obtain ⟨txs', htxs'⟩ := forIdx_ok (f := chargeGasLimit msgs) txs 0 [] fun j t done hj => by
      obtain ⟨ethMsg, hmsg⟩ := Option.isSome_iff_exists.mp
        (h j (List.getElem?_eq_some_iff.mp hj).1)
      simp only [chargeGasLimit, Nat.zero_add, hmsg]
      exact ⟨_, rfl⟩
    rw [htxs']
    exact .ok _

/-! ## The branches of parsing -/

section Branches

variable {p : ParsedTxs}

theorem parseTxResult_of_ok (hevents : eventTxs E result.events = .ok p)
    (hcode : result.code = codeTypeOK) : parseTxResult E result tx = .ok p := by
  change (eventTxs E result.events >>= _) = _
  rw [hevents, ok_bind]
  cases tx <;> simp [hcode]

theorem parseTxResult_of_evm (hevents : eventTxs E result.events = .ok p)
    (hcode : result.code ≠ codeTypeOK) (hspace : result.codespace = E.moduleName) :
    parseTxResult E result tx =
      parseFromLog E { p with txs := p.txs.map fun t => { t with failed := true } } result tx := by
  change (eventTxs E result.events >>= _) = _
  rw [hevents, ok_bind, if_pos ⟨hcode, hspace⟩]

theorem parseTxResult_of_none (hevents : eventTxs E result.events = .ok p)
    (hspace : result.codespace ≠ E.moduleName) : parseTxResult E result none = .ok p := by
  change (eventTxs E result.events >>= _) = _
  rw [hevents, ok_bind, if_neg (fun h => hspace h.2)]
  rfl

theorem parseTxResult_of_other {sdkTx : SdkTx} (hevents : eventTxs E result.events = .ok p)
    (hcode : result.code ≠ codeTypeOK) (hspace : result.codespace ≠ E.moduleName) :
    parseTxResult E result (some sdkTx) =
      (fun txs => { p with txs := txs }) <$> chargeGasLimits sdkTx.msgs p.txs := by
  change (eventTxs E result.events >>= _) = _
  rw [hevents, ok_bind, if_neg (fun h => hspace h.2)]
  simp only [hcode, hspace, ne_eq, not_false_eq_true, and_self, if_true]
  cases chargeGasLimits sdkTx.msgs p.txs <;> rfl

/-- The record of a failure log is coherent with the others exactly at the next position. -/
theorem parseFromLog_coherent_iff (hp : p.Indexed) :
    (NoPanic (parseFromLog E p result tx) ∧
      ∀ p', parseFromLog E p result tx = .ok p' → p'.Coherent) ↔
      ∀ msgIndex, LogNames E result tx msgIndex → msgIndex = p.txs.length := by
  rw [and_iff_right (parseFromLog_noPanic E p result tx)]
  constructor
  · intro h msgIndex hnames
    obtain ⟨p', hp'⟩ := parseFromLog_of_names hnames p
    obtain ⟨t, ht, rfl⟩ := parseFromLog_ok hp'
    have hlast : (p.push t t.msgIndex).getTxByMsgIndex p.txs.length = some t :=
      getTxByMsgIndex_eq_some.mpr ⟨by omega, by simp [ParsedTxs.push]⟩
    rw [← (h _ hp').msgIndex _ t hlast]
    exact hnames.unique ht
  · intro h p' hp'
    obtain ⟨t, ht, rfl⟩ := parseFromLog_ok hp'
    have hnext := h t.msgIndex ht
    rw [hnext]
    exact (hp.push hnext).coherent

/-- Charging the gas limits keeps the records coherent, if it can be done. -/
theorem chargeGasLimits_coherent_iff {sdkTx : SdkTx} (hp : p.Indexed) :
    (NoPanic ((fun txs => { p with txs := txs }) <$> chargeGasLimits sdkTx.msgs p.txs) ∧
      ∀ p', (fun txs => { p with txs := txs }) <$> chargeGasLimits sdkTx.msgs p.txs = .ok p' →
        p'.Coherent) ↔
      ∀ sdkTx', some sdkTx = some sdkTx' → ∀ i < p.txs.length,
        ((sdkTx'.msgs[i]?).bind Msg.ethereum?).isSome = true := by
  constructor
  · rintro ⟨hpanic, -⟩ sdkTx' heq
    obtain rfl := Option.some.inj heq
    refine chargeGasLimits_noPanic.mp ?_
    intro e he
    exact hpanic e (by rw [he]; rfl)
  · intro h
    have hpanic := chargeGasLimits_noPanic.mpr (h sdkTx rfl)
    constructor
    · intro e he
      refine hpanic e ?_
      cases hcharge : chargeGasLimits sdkTx.msgs p.txs with
      | error e' => simpa [hcharge, Functor.map, Except.map] using he
      | ok txs => simp [hcharge, Functor.map, Except.map] at he
    · intro p' hp'
      obtain ⟨txs, htxs, rfl⟩ := map_eq_ok.mp hp'
      exact (hp.rewrite (chargeGasLimits_ok htxs)).coherent

end Branches

end Parsing

/-- **Lookups in a parsed result**, for every result and transaction: parsing does not panic and
what it returns is coherent, exactly under `LookupsSound`. -/
theorem lookups_coherent_iff (E : Env) (result : ExecTxResult) (tx : Option SdkTx) :
    (NoPanic (parseTxResult E result tx) ∧
      ∀ p, parseTxResult E result tx = .ok p → p.Coherent) ↔ LookupsSound E result tx := by
  have hreadable := @foldlM_events_ok E result.events {}
  rw [LookupsSound, ← hreadable]
  cases hevents : eventTxs E result.events with
  | error e =>
    -- an event that cannot be read is an error
    have hparse : parseTxResult E result tx = .error e := by
      rw [parseTxResult]
      change (eventTxs E result.events >>= _) = _
      rw [hevents]
      rfl
    refine iff_of_true ⟨?_, ?_⟩ ?_
    · rw [hparse]
      exact .error (eventTxs_noPanic E result.events e hevents)
    · intro p hp
      rw [hparse] at hp
      cases hp
    · rintro ⟨p, hp⟩
      rw [eventTxs] at hevents
      rw [hevents] at hp
      cases hp
  | ok p =>
    obtain ⟨hp, hlength⟩ := eventTxs_indexed hevents
    have hread : ∃ p, eventTxs E result.events = .ok p := ⟨p, hevents⟩
    rw [← hlength, ← eventTxs, imp_iff_right hread]
    by_cases hcode : result.code = codeTypeOK
    · rw [parseTxResult_of_ok hevents hcode]
      exact iff_of_true ⟨.ok p, fun p' hp' => Except.ok.inj hp' ▸ hp.coherent⟩
        fun hne => absurd hcode hne
    · rw [imp_iff_right hcode]
      by_cases hspace : result.codespace = E.moduleName
      · rw [parseTxResult_of_evm hevents hcode hspace, if_pos hspace]
        have hfailed : ParsedTxs.Indexed
          { p with txs := p.txs.map fun t => { t with failed := true } } :=
          hp.rewrite (by simp [ParsedTx.key])
        have hiff := @parseFromLog_coherent_iff E result tx _ hfailed
        rwa [List.length_map] at hiff
      · rw [if_neg hspace]
        cases tx with
        | none =>
          rw [parseTxResult_of_none hevents hspace]
          exact iff_of_true ⟨.ok p, fun p' hp' => Except.ok.inj hp' ▸ hp.coherent⟩ nofun
        | some sdkTx =>
          rw [parseTxResult_of_other hevents hcode hspace]
          exact chargeGasLimits_coherent_iff hp

/-- The result of a transaction whose second Ethereum message failed: the events of the first are
gone, and the log names the second. -/
def sampleSecondFailed : ExecTxResult where
  code := 1
  codespace := "evm"
  log := "failed to execute message; message index: 1: out of gas"

/-- **A lookup that panics.**  The record of the second message is the only one, and the map says
it stands at position 1. -/
theorem lookup_by_hash_panics :
    ∃ tx p t, Env.sample.txDecoder [1, 2] = .ok tx ∧
      parseTxResult .sample sampleSecondFailed (some tx) = .ok p ∧ p.txs = [t] ∧ t.hash = 2 ∧
      p.getTxByHash 2 = .error (.panic "index out of range") ∧
      p.getTxByMsgIndex 0 = some t ∧ t.msgIndex = 1 ∧
      p.accumulativeGasUsed t.msgIndex = .error (.panic "index out of range") := by
  refine ⟨_, _, _, rfl, rfl, rfl, ?_, rfl, rfl, rfl, rfl⟩
  decide +kernel

end EvmGateway
