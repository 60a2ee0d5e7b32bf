import EvmGateway.Lib.Lists
import EvmGateway.Rpc.Normalize

/-!
# What normalisation changes

Normalisation walks the results of a block with two counters.  It gives the logs of the successful
Ethereum responses consecutive indexes and the slot of their response, and changes nothing else
(`normalize_minimal_idempotent`).  The walk is described by a relation between the responses before
and after it (`Walk`), from which the numbering, the frame and the idempotence are read off.

The source clones the results before it walks them, so that the caller's results stay as they are.
`normalizeTxResponseIndexesAt` is the function on results in memory; it computes what the function
on values computes, and only adds to the memory.

## Main definitions

* `responseLogs`, `slotsConsumed` — the responses of a result, and the slots it takes.
* `SameButIndexes` — what a result has in common with its normalised form.
* `normalizeTxResponseIndexesAt` — normalisation of results in memory.
-/

namespace EvmGateway

open Lib

variable {pos : NormalizeState} {res : ExecTxResult} {rs rs' : List AnyMsg} {rsp : AnyMsg}

/-- Decoding inverts encoding, and no bytes encode no responses. -/
structure PayloadLaws (E : Env) : Prop where
  txMsgData : ∀ d bz, E.marshalTxMsgData d = .ok bz → E.unmarshalTxMsgData bz = .ok d
  response : ∀ r bz, E.marshalEthereumTxResponse r = .ok bz → E.unmarshalEthereumTxResponse bz = .ok r
  empty : ∀ d, E.unmarshalTxMsgData [] = .ok d → d.msgResponses = []

/-! ## The responses of a result -/

def AnyMsg.isEthereum (E : Env) (rsp : AnyMsg) : Bool := rsp.typeUrl == E.ethereumTxResponseTypeUrl

def msgResponses (E : Env) (res : ExecTxResult) : List AnyMsg :=
  if res.code ≠ codeTypeOK ∨ res.data = [] then []
  else
    match E.unmarshalTxMsgData res.data with
    | .error _ => []
    | .ok d => d.msgResponses

def ethereumLogs (E : Env) (rsp : AnyMsg) : List EvmLog :=
  match E.unmarshalEthereumTxResponse rsp.value with
  | .error _ => []
  | .ok r => r.logs

def responseLogs (E : Env) : Option ExecTxResult → List (List EvmLog)
  | none => []
  | some res => ((msgResponses E res).filter (AnyMsg.isEthereum E)).map (ethereumLogs E)

def slotsConsumed (E : Env) : Option ExecTxResult → ℕ
  | none => 0
  | some res => max ((msgResponses E res).countP (AnyMsg.isEthereum E))
      (max (countEthereumTxEvents E res.events) (inferFailedEthereumTxCount E res.codespace res.log))

def firstSlot (E : Env) (results : List (Option ExecTxResult)) (i : ℕ) : ℕ :=
  ((results.take i).map (slotsConsumed E)).sum

/-! ## What stays -/

def SameLog (log log' : EvmLog) : Prop :=
  log' = { log with txIndex := log'.txIndex, index := log'.index }

/-- A response that is kept, or an Ethereum one whose logs have other indexes. -/
structure SameResponse (E : Env) (rsp rsp' : AnyMsg) : Prop where
  typeUrl : rsp'.typeUrl = rsp.typeUrl
  other : rsp.isEthereum E = false → rsp' = rsp
  ethereum : rsp.isEthereum E = true →
    ∃ r r', E.unmarshalEthereumTxResponse rsp.value = .ok r ∧
      E.unmarshalEthereumTxResponse rsp'.value = .ok r' ∧ r'.rest = r.rest ∧
      List.Forall₂ SameLog r.logs r'.logs

/-- A result with other indexes in the logs of its Ethereum responses. -/
structure SameResult (E : Env) (res res' : ExecTxResult) : Prop where
  fields : res' = { res with data := res'.data }
  /-- nothing is encoded anew unless a log has changed -/
  kept : responseLogs E (some res') = responseLogs E (some res) → res' = res
  data : ¬ (res.code ≠ codeTypeOK ∨ res.data = []) →
    ∃ d d', E.unmarshalTxMsgData res.data = .ok d ∧ E.unmarshalTxMsgData res'.data = .ok d' ∧
      d'.rest = d.rest ∧ List.Forall₂ (SameResponse E) d.msgResponses d'.msgResponses

/-- Results in the same places, with other indexes in their Ethereum logs. -/
def SameButIndexes (E : Env) : List (Option ExecTxResult) → List (Option ExecTxResult) → Prop :=
  List.Forall₂ (Option.Rel (SameResult E))

/-! ## The logs of a response -/

section Logs

variable (txIndex logIndex : ℕ) (logs : List EvmLog)

@[simp] theorem length_renumberLogs : (renumberLogs txIndex logIndex logs).length = logs.length := by
  induction logs generalizing logIndex with
  | nil => rfl
  | cons log logs ih => simp [renumberLogs, ih]

theorem map_index_renumberLogs :
    (renumberLogs txIndex logIndex logs).map (·.index) = List.range' logIndex logs.length := by
  induction logs generalizing logIndex with
  | nil => rfl
  | cons log logs ih => simp [renumberLogs, ih, List.range'_succ]

theorem txIndex_of_mem_renumberLogs {log : EvmLog} (h : log ∈ renumberLogs txIndex logIndex logs) :
    log.txIndex = txIndex % 2 ^ 64 := by
  induction logs generalizing logIndex with
  | nil => cases h
  | cons log' logs ih =>
    rcases List.mem_cons.mp h with rfl | h
    · rfl
    · exact ih (logIndex + 1) h

theorem sameLog_renumberLogs : List.Forall₂ SameLog logs (renumberLogs txIndex logIndex logs) := by
  induction logs generalizing logIndex with
  | nil => exact .nil
  | cons log logs ih => exact .cons rfl (ih (logIndex + 1))

@[simp] theorem renumberLogs_renumberLogs :
    renumberLogs txIndex logIndex (renumberLogs txIndex logIndex logs) =
      renumberLogs txIndex logIndex logs := by
  induction logs generalizing logIndex with
  | nil => rfl
  | cons log logs ih => rw [renumberLogs, renumberLogs, ih]

end Logs

/-! ## The responses of a result -/

/-- The responses before and after the walk, from a slot and a log index. -/
inductive Walk (E : Env) : ℕ → ℕ → List AnyMsg → List AnyMsg → Prop
  | nil {k n} : Walk E k n [] []
  | other {k n rsp rs rs'} : rsp.isEthereum E = false → Walk E k n rs rs' →
      Walk E k n (rsp :: rs) (rsp :: rs')
  | ethereum {k n rsp rsp' r rs rs'} : rsp.isEthereum E = true → rsp'.typeUrl = rsp.typeUrl →
      E.unmarshalEthereumTxResponse rsp.value = .ok r →
      E.unmarshalEthereumTxResponse rsp'.value = .ok { r with logs := renumberLogs k n r.logs } →
      Walk E (k + 1) (n + r.logs.length) rs rs' → Walk E k n (rsp :: rs) (rsp' :: rs')

/-- The logs of the Ethereum ones among some responses. -/
def walkLogs (E : Env) (rs : List AnyMsg) : List (List EvmLog) :=
  (rs.filter (AnyMsg.isEthereum E)).map (ethereumLogs E)

namespace Walk

variable {E : Env} {k n : ℕ} {rs rs' : List AnyMsg}

theorem isEthereum_eq {rsp' : AnyMsg} (h : rsp'.typeUrl = rsp.typeUrl) :
    rsp'.isEthereum E = rsp.isEthereum E := by
  rw [AnyMsg.isEthereum, AnyMsg.isEthereum, h]

theorem countP_eq (h : Walk E k n rs rs') :
    rs'.countP (AnyMsg.isEthereum E) = rs.countP (AnyMsg.isEthereum E) := by
  induction h with
  | nil => rfl
  | other hrsp _ ih => rw [List.countP_cons, List.countP_cons, ih]
  | ethereum hrsp htype _ _ _ ih => rw [List.countP_cons, List.countP_cons, ih, isEthereum_eq htype]

theorem sameResponses (h : Walk E k n rs rs') : List.Forall₂ (SameResponse E) rs rs' := by
  induction h with
  | nil => exact .nil
  | other hrsp _ ih => exact .cons ⟨rfl, fun _ => rfl, fun h => by simp [hrsp] at h⟩ ih
  | ethereum hrsp htype hr hr' _ ih =>
    refine .cons ⟨htype, fun h => by simp [hrsp] at h, fun _ => ?_⟩ ih
    exact ⟨_, _, hr, hr', rfl, sameLog_renumberLogs ..⟩

theorem walkLogs_cons_other (h : rsp.isEthereum E = false) (rs : List AnyMsg) :
    walkLogs E (rsp :: rs) = walkLogs E rs := by
  simp [walkLogs, h]

theorem walkLogs_cons_ethereum {rsp : AnyMsg} {r : MsgEthereumTxResponse}
    (h : rsp.isEthereum E = true)
    (hr : E.unmarshalEthereumTxResponse rsp.value = .ok r) (rs : List AnyMsg) :
    walkLogs E (rsp :: rs) = r.logs :: walkLogs E rs := by
  simp [walkLogs, h, ethereumLogs, hr]

/-- The number of logs stays. -/
theorem map_length_logs (h : Walk E k n rs rs') :
    (walkLogs E rs').map List.length = (walkLogs E rs).map List.length := by
  induction h with
  | nil => rfl
  | other hrsp _ ih => rw [walkLogs_cons_other hrsp, walkLogs_cons_other hrsp, ih]
  | ethereum hrsp htype hr hr' _ ih =>
    rw [walkLogs_cons_ethereum hrsp hr,
      walkLogs_cons_ethereum ((isEthereum_eq htype).trans hrsp) hr']
    simp only [List.map_cons, length_renumberLogs, ih]

theorem length_logs (h : Walk E k n rs rs') :
    (walkLogs E rs').flatten.length = (walkLogs E rs).flatten.length := by
  rw [List.length_flatten, List.length_flatten, h.map_length_logs]

/-- **The logs are numbered on** from the log index the walk starts at. -/
theorem map_index (h : Walk E k n rs rs') :
    (walkLogs E rs').flatten.map (·.index) = List.range' n (walkLogs E rs).flatten.length := by
  induction h with
  | nil => rfl
  | other hrsp _ ih => rw [walkLogs_cons_other hrsp, walkLogs_cons_other hrsp, ih]
  | @ethereum k n rsp rsp' r rs rs' hrsp htype hr hr' _ ih =>
    rw [walkLogs_cons_ethereum hrsp hr,
      walkLogs_cons_ethereum ((isEthereum_eq htype).trans hrsp) hr', List.flatten_cons,
      List.flatten_cons, List.map_append, map_index_renumberLogs, ih, List.length_append,
      ← List.range'_append_1]

/-- **The logs of a response get its slot.** -/
theorem txIndex_eq (h : Walk E k n rs rs') {m : ℕ} {logs : List EvmLog}
    (hm : (walkLogs E rs')[m]? = some logs) : ∀ log ∈ logs, log.txIndex = (k + m) % 2 ^ 64 := by
  induction h generalizing m with
  | nil => simp [walkLogs] at hm
  | other hrsp _ ih =>
    rw [walkLogs_cons_other hrsp] at hm
    exact ih hm
  | @ethereum k n rsp rsp' r rs rs' hrsp htype hr hr' _ ih =>
    rw [walkLogs_cons_ethereum ((isEthereum_eq htype).trans hrsp) hr'] at hm
    cases m with
    | zero =>
      obtain rfl : renumberLogs k n r.logs = logs := by simpa using hm
      exact fun log hlog => txIndex_of_mem_renumberLogs k n r.logs hlog
    | succ m =>
      rw [show k + (m + 1) = k + 1 + m by omega]
      exact ih hm

end Walk

/-! ## The loop over the responses -/

section Responses

variable {E : Env}

theorem not_isEthereum :
    rsp.isEthereum E = false ↔ rsp.typeUrl ≠ E.ethereumTxResponseTypeUrl := by
  simp [AnyMsg.isEthereum]

def ResponseState.walked (E : Env) (s : ResponseState) (rs rs' : List AnyMsg) (dirty : Bool) :
    ResponseState where
  pos := {
    txIndex := s.pos.txIndex + rs.countP (AnyMsg.isEthereum E)
    logIndex := s.pos.logIndex + (walkLogs E rs).flatten.length }
  seenEthTx := s.seenEthTx + rs.countP (AnyMsg.isEthereum E)
  dirty := s.dirty || dirty
  responses := s.responses ++ rs'

/-- **The loop walks the responses**; if it is not dirty it has kept them all, and if it is, some log
has changed. -/
theorem foldlM_normalizeResponse (hlaws : PayloadLaws E) {s s' : ResponseState}
    (h : rs.foldlM (normalizeResponse E) s = .ok s') :
    ∃ rs' dirty, Walk E s.pos.txIndex s.pos.logIndex rs rs' ∧ s' = s.walked E rs rs' dirty ∧
      (dirty = false → rs' = rs) ∧ (dirty = true → walkLogs E rs' ≠ walkLogs E rs) := by
  induction rs generalizing s with
  | nil =>
    obtain rfl := Except.ok.inj h
    exact ⟨[], false, .nil, by simp [ResponseState.walked, walkLogs], fun _ => rfl, nofun⟩
  | cons rsp rs ih =>
    rw [List.foldlM_cons] at h
    obtain ⟨s₁, h₁, h⟩ := bind_eq_ok.mp h
    cases hrsp : rsp.isEthereum E with
    | false =>
      rw [normalizeResponse, if_pos (not_isEthereum.mp hrsp)] at h₁
      obtain rfl := Except.ok.inj h₁
      obtain ⟨rs', dirty, hwalk, rfl, hclean, hdirty⟩ := ih h
      refine ⟨rsp :: rs', dirty, .other hrsp hwalk, ?_, fun hd => by rw [hclean hd], ?_⟩
      · simp [ResponseState.walked, hrsp, Walk.walkLogs_cons_other hrsp]
      · rwa [Walk.walkLogs_cons_other hrsp, Walk.walkLogs_cons_other hrsp]
    | true =>
      have htype : rsp.typeUrl = E.ethereumTxResponseTypeUrl := by simpa [AnyMsg.isEthereum] using
        hrsp
      rw [normalizeResponse, if_neg (not_not_intro htype)] at h₁
      obtain ⟨r, hr, h₁⟩ := bind_eq_ok.mp h₁
      by_cases hsame : renumberLogs s.pos.txIndex s.pos.logIndex r.logs = r.logs
      · -- the logs are already numbered
        simp only [hsame, if_true] at h₁
        obtain rfl := Except.ok.inj h₁
        obtain ⟨rs', dirty, hwalk, rfl, hclean, hdirty⟩ := ih h
        refine ⟨rsp :: rs', dirty, .ethereum hrsp rfl hr (by rw [hsame]; exact hr) hwalk, ?_,
          fun hd => by rw [hclean hd], ?_⟩
        · simp [ResponseState.walked, hrsp, Walk.walkLogs_cons_ethereum hrsp hr, Nat.add_assoc,
            Nat.add_comm 1]
        · rw [Walk.walkLogs_cons_ethereum hrsp hr, Walk.walkLogs_cons_ethereum hrsp hr]
          exact fun hd heq => hdirty hd (List.cons.inj heq).2
      · simp only [length_renumberLogs, hsame, if_false] at h₁
        obtain ⟨bz, hbz, h₁⟩ := bind_eq_ok.mp h₁
        obtain rfl := Except.ok.inj h₁
        obtain ⟨rs', dirty, hwalk, rfl, -⟩ := ih h
        refine ⟨{ rsp with value := bz } :: rs', true,
          .ethereum hrsp rfl hr (hlaws.response _ _ hbz) hwalk, ?_, nofun, fun _ => ?_⟩
        · simp [ResponseState.walked, hrsp, Walk.walkLogs_cons_ethereum hrsp hr, Nat.add_assoc,
            Nat.add_comm 1]
        · rw [Walk.walkLogs_cons_ethereum hrsp hr,
            @Walk.walkLogs_cons_ethereum E { rsp with value := bz } _ hrsp (hlaws.response _ _ hbz)]
          exact fun heq => hsame (List.cons.inj heq).1

/-- **Walking again changes nothing.** -/
theorem foldlM_normalizeResponse_of_walk {s : ResponseState}
    (h : Walk E s.pos.txIndex s.pos.logIndex rs rs') :
    rs'.foldlM (normalizeResponse E) s = .ok (s.walked E rs rs' false) := by
  generalize hk : s.pos.txIndex = k at h
  generalize hn : s.pos.logIndex = n at h
  induction h generalizing s with
  | nil => simp [ResponseState.walked, walkLogs]
  | @other k n rsp rs rs' hrsp _ ih =>
    subst hk hn
    rw [List.foldlM_cons, normalizeResponse, if_pos (not_isEthereum.mp hrsp), ok_bind,
      @ih { s with responses := s.responses ++ [rsp] } rfl rfl]
    simp [ResponseState.walked, hrsp, Walk.walkLogs_cons_other hrsp]
  | @ethereum k n rsp rsp' r rs rs' hrsp htype hr hr' _ ih =>
    subst hk hn
    have htype' : rsp'.typeUrl = E.ethereumTxResponseTypeUrl := by
      rw [htype]
      simpa [AnyMsg.isEthereum] using hrsp
    rw [List.foldlM_cons, normalizeResponse, if_neg (not_not_intro htype'), hr']
    simp only [ok_bind, renumberLogs_renumberLogs, length_renumberLogs, if_true, pure_eq_ok]
    rw [ih rfl rfl]
    simp [ResponseState.walked, hrsp, Walk.walkLogs_cons_ethereum hrsp hr, Nat.add_assoc,
      Nat.add_comm 1]

end Responses

/-! ## Results -/

section Results

variable {E : Env}

/-- The position after a result. -/
def NormalizeState.after (E : Env) (pos : NormalizeState) (res : Option ExecTxResult) :
    NormalizeState where
  txIndex := pos.txIndex + slotsConsumed E res
  logIndex := pos.logIndex + (responseLogs E res).flatten.length

theorem msgResponses_of_unread (h : res.code ≠ codeTypeOK ∨ res.data = []) :
    msgResponses E res = [] := by
  rw [msgResponses, if_pos h]

theorem msgResponses_of_read {d : TxMsgData} (h : ¬ (res.code ≠ codeTypeOK ∨ res.data = []))
    (hd : E.unmarshalTxMsgData res.data = .ok d) :
    msgResponses E res = d.msgResponses := by
  rw [msgResponses, if_neg h, hd]

/-- A walk over the responses of a result ends at the position after the result. -/
theorem after_of_walked {dirty : Bool} :
    { (ResponseState.walked E { pos := pos } (msgResponses E res) rs' dirty).pos with
      txIndex := (ResponseState.walked E { pos := pos } (msgResponses E res) rs' dirty).pos.txIndex +
        (max (countEthereumTxEvents E res.events)
          (inferFailedEthereumTxCount E res.codespace res.log) -
          (ResponseState.walked E { pos := pos } (msgResponses E res) rs' dirty).seenEthTx) } =
      pos.after E (some res) := by
  simp only [ResponseState.walked, NormalizeState.after, slotsConsumed, responseLogs, walkLogs,
    NormalizeState.mk.injEq, and_true, Nat.zero_add]
  omega

/-- A result whose responses are walked without a change is kept. -/
theorem normalizeResult_of_clean {d : TxMsgData}
    (hread : ¬ (res.code ≠ codeTypeOK ∨ res.data = []))
    (hd : E.unmarshalTxMsgData res.data = .ok d)
    (hrs : rs'.countP (AnyMsg.isEthereum E) = rs.countP (AnyMsg.isEthereum E))
    (hlogs : (walkLogs E rs').flatten.length = (walkLogs E rs).flatten.length)
    (hd' : d.msgResponses = rs') (hwalk : rs'.foldlM (normalizeResponse E) { pos := pos } =
      .ok (ResponseState.walked E { pos := pos } rs rs' false)) :
    normalizeResult E pos res = .ok (res, pos.after E (some res)) := by
  subst hd'
  have heq : ResponseState.walked E { pos := pos } rs d.msgResponses false =
      ResponseState.walked E { pos := pos } d.msgResponses d.msgResponses false := by
    simp [ResponseState.walked, hrs, hlogs]
  rw [normalizeResult, if_neg hread, hd, ok_bind, hwalk, heq, ok_bind,
    ← msgResponses_of_read hread hd, after_of_walked]
  rfl

/-- **One result**: its responses are walked, the rest of it is kept, and doing so again changes
nothing. -/
theorem normalizeResult_walk (hlaws : PayloadLaws E) {pos' : NormalizeState} {res' : ExecTxResult}
    (h : normalizeResult E pos res = .ok (res', pos')) :
    Walk E pos.txIndex pos.logIndex (msgResponses E res) (msgResponses E res') ∧
      SameResult E res res' ∧ pos' = pos.after E (some res) ∧
      normalizeResult E pos res' = .ok (res', pos') := by
  by_cases hunread : res.code ≠ codeTypeOK ∨ res.data = []
  · rw [normalizeResult, if_pos hunread] at h
    obtain ⟨rfl, rfl⟩ := Prod.mk.inj (Except.ok.inj h)
    refine ⟨by rw [msgResponses_of_unread hunread]; exact .nil,
      ⟨rfl, fun _ => rfl, fun hread => absurd hunread hread⟩, ?_, ?_⟩
    · simp [NormalizeState.after, slotsConsumed, responseLogs, msgResponses_of_unread hunread]
    · rw [normalizeResult, if_pos hunread]
      rfl
  · have hfull := h
    rw [normalizeResult, if_neg hunread] at h
    obtain ⟨d, hd, h⟩ := bind_eq_ok.mp h
    obtain ⟨s, hs, h⟩ := bind_eq_ok.mp h
    obtain ⟨rs', dirty, hwalk, rfl, hclean, hdirty⟩ := foldlM_normalizeResponse hlaws hs
    have hresponses := msgResponses_of_read hunread hd
    cases dirty with
    | false =>
      rw [← hresponses, after_of_walked] at h
      obtain ⟨rfl, rfl⟩ := Prod.mk.inj (Except.ok.inj h)
      obtain rfl := hclean rfl
      refine ⟨by rw [hresponses]; exact hwalk, ⟨rfl, fun _ => rfl, fun _ => ?_⟩, rfl, hfull⟩
      exact ⟨d, d, hd, hd, rfl, hwalk.sameResponses⟩
    | true =>
      rw [← hresponses, after_of_walked] at h
      simp only [ResponseState.walked, Bool.or_true, if_true, List.nil_append] at h
      obtain ⟨data, hdata, h⟩ := bind_eq_ok.mp h
      obtain ⟨rfl, rfl⟩ := Prod.mk.inj (Except.ok.inj h)
      have hd' := hlaws.txMsgData _ _ hdata
      have hread' : ¬ (({ res with data := data } : ExecTxResult).code ≠ codeTypeOK ∨
          ({ res with data := data } : ExecTxResult).data = []) := by
        rintro (hcode | rfl)
        · exact hunread (.inl hcode)
        · -- no bytes would encode no responses
          obtain rfl : rs' = [] := hlaws.empty _ hd'
          exact hdirty rfl (by rw [List.forall₂_nil_right_iff.mp hwalk.sameResponses])
      have hresponses' := msgResponses_of_read hread' hd'
      have hafter : pos.after E (some { res with data := data }) = pos.after E (some res) := by
        simp only [NormalizeState.after, slotsConsumed, responseLogs, hresponses, hresponses']
        rw [hwalk.countP_eq]
        exact congrArg _ (congrArg _ hwalk.length_logs)
      refine ⟨by rw [hresponses, hresponses']; exact hwalk,
        ⟨rfl, fun hlogs => ?_, fun _ => ⟨d, _, hd, hd', rfl, hwalk.sameResponses⟩⟩, rfl, ?_⟩
      · rw [responseLogs, responseLogs, hresponses, hresponses'] at hlogs
        exact absurd hlogs (hdirty rfl)
      rw [← hafter]
      exact normalizeResult_of_clean hread' hd' hwalk.countP_eq hwalk.length_logs rfl
        (foldlM_normalizeResponse_of_walk hwalk)

/-- The logs of the successful Ethereum responses of a block, in order. -/
def blockResponseLogs (E : Env) (results : List (Option ExecTxResult)) : List EvmLog :=
  results.flatMap fun res => (responseLogs E res).flatten

theorem normalizeResults_lengths (hlaws : PayloadLaws E)
    {input output : List (Option ExecTxResult)} (h : normalizeResults E pos input = .ok output) :
    List.Forall₂ (fun res res' => (responseLogs E res').map List.length =
      (responseLogs E res).map List.length) input output := by
  induction input generalizing pos output with
  | nil =>
    obtain rfl := Except.ok.inj h
    exact .nil
  | cons res input ih =>
    cases res with
    | none =>
      obtain ⟨rest, hrest, h⟩ := bind_eq_ok.mp h
      obtain rfl := Except.ok.inj h
      exact .cons rfl (ih hrest)
    | some res =>
      obtain ⟨⟨res', pos'⟩, hres, h⟩ := bind_eq_ok.mp h
      obtain ⟨rest, hrest, h⟩ := bind_eq_ok.mp h
      obtain rfl := Except.ok.inj h
      exact .cons (normalizeResult_walk hlaws hres).1.map_length_logs (ih hrest)

/-- **All results**, from a position. -/
theorem normalizeResults_walk (hlaws : PayloadLaws E) {input output : List (Option ExecTxResult)}
    (h : normalizeResults E pos input = .ok output) :
    normalizeResults E pos output = .ok output ∧ SameButIndexes E input output ∧
      (blockResponseLogs E output).map (·.index) =
        List.range' pos.logIndex (blockResponseLogs E output).length ∧
      ∀ i res m logs, output[i]? = some res → (responseLogs E res)[m]? = some logs →
        ∀ log ∈ logs, log.txIndex = (pos.txIndex + firstSlot E input i + m) % 2 ^ 64 := by
  induction input generalizing pos output with
  | nil =>
    obtain rfl := Except.ok.inj h
    exact ⟨rfl, .nil, rfl, fun i res m logs hi => by simp at hi⟩
  | cons res input ih =>
    cases res with
    | none =>
      obtain ⟨rest, hrest, h⟩ := bind_eq_ok.mp h
      obtain rfl := Except.ok.inj h
      obtain ⟨hagain, hsame, hindex, hslot⟩ := ih hrest
      refine ⟨by rw [normalizeResults, hagain]; rfl, .cons .none hsame, ?_, ?_⟩
      · simpa [blockResponseLogs, responseLogs] using hindex
      · intro i res m logs hi hm
        cases i with
        | zero =>
          obtain rfl : none = res := by simpa using hi
          simp [responseLogs] at hm
        | succ i =>
          rw [firstSlot, List.take_succ_cons, List.map_cons, List.sum_cons, slotsConsumed,
            Nat.zero_add]
          exact hslot i res m logs hi hm
    | some res =>
      obtain ⟨⟨res', pos'⟩, hres, h⟩ := bind_eq_ok.mp h
      obtain ⟨rest, hrest, h⟩ := bind_eq_ok.mp h
      obtain rfl := Except.ok.inj h
      obtain ⟨hwalk, hsameRes, hpos, hresAgain⟩ := normalizeResult_walk hlaws hres
      obtain ⟨hagain, hsame, hindex, hslot⟩ := ih hrest
      refine ⟨by simp only [normalizeResults, hresAgain, ok_bind, hagain, pure_eq_ok],
        .cons (.some hsameRes) hsame, ?_, ?_⟩
      · have hlogs : blockResponseLogs E (some res' :: rest) =
            (walkLogs E (msgResponses E res')).flatten ++ blockResponseLogs E rest := rfl
        rw [hlogs, List.map_append, hwalk.map_index, hindex, hpos, NormalizeState.after,
          List.length_append, hwalk.length_logs, ← List.range'_append_1]
        rfl
      · intro i r m logs hi hm
        cases i with
        | zero =>
          obtain rfl : some res' = r := by simpa using hi
          simpa [firstSlot] using hwalk.txIndex_eq hm
        | succ i =>
          have := hslot i r m logs hi hm
          rw [hpos, NormalizeState.after] at this
          rw [firstSlot, List.take_succ_cons, List.map_cons, List.sum_cons, ← Nat.add_assoc]
          exact this

end Results

/-! ## Results in memory -/

abbrev Memory := List ExecTxResult

/-- The results some pointers lead to; nil leads to none. -/
def Memory.deref (mem : Memory) (ptrs : List (Option ℕ)) : List (Option ExecTxResult) :=
  ptrs.map fun ptr => ptr.bind (mem[·]?)

/-- A pointer into the memory that does not lead anywhere. -/
def nilDereference : Err := .panic "invalid memory address or nil pointer dereference"

/-- Copy each result to a new address. -/
def cloneResults : List (Option ℕ) → Memory → Except Err (List (Option ℕ) × Memory)
  | [], mem => .ok ([], mem)
  | none :: ptrs, mem => do
    let (copies, mem) ← cloneResults ptrs mem
    return (none :: copies, mem)
  | some ptr :: ptrs, mem => do
    let some res := mem[ptr]? | throw nilDereference
    let (copies, mem') ← cloneResults ptrs (mem ++ [res])
    return (some mem.length :: copies, mem')

def normalizeInPlace (E : Env) : NormalizeState → List (Option ℕ) → Memory → Except Err Memory
  | _, [], mem => .ok mem
  | pos, none :: ptrs, mem => normalizeInPlace E pos ptrs mem
  | pos, some ptr :: ptrs, mem => do
    let some res := mem[ptr]? | throw nilDereference
    let (res, pos) ← normalizeResult E pos res
    normalizeInPlace E pos ptrs (mem.set ptr res)

/-- Normalise results in memory: clone them, then renumber the clones. -/
def normalizeTxResponseIndexesAt (E : Env) (mem : Memory) (input : List (Option ℕ)) :
    Except Err (List (Option ℕ) × Memory) := do
  let (normalized, mem) ← cloneResults input mem
  let mem ← normalizeInPlace E {} normalized mem
  return (normalized, mem)

/-- Consecutive addresses for the results that are not nil. -/
def addresses : ℕ → List (Option ExecTxResult) → List (Option ℕ)
  | _, [] => []
  | a, none :: rs => none :: addresses a rs
  | a, some _ :: rs => some a :: addresses (a + 1) rs

section InMemory

variable {E : Env}

/-- Cloning puts the results behind the memory. -/
theorem cloneResults_eq {ptrs : List (Option ℕ)} {mem : Memory} (pre : Memory)
    (hptrs : ∀ ptr ∈ ptrs.reduceOption, ptr < pre.length) (hpre : pre <+: mem) :
    cloneResults ptrs mem = .ok (addresses mem.length (Memory.deref pre ptrs),
      mem ++ (Memory.deref pre ptrs).reduceOption) := by
  induction ptrs generalizing mem with
  | nil => simp [cloneResults, Memory.deref, addresses]
  | cons ptr ptrs ih =>
    cases ptr with
    | none =>
      rw [cloneResults, ih (by simpa using hptrs) hpre]
      rfl
    | some ptr =>
      have hlt : ptr < pre.length := hptrs ptr (by simp)
      have hget : mem[ptr]? = some pre[ptr] := by
        obtain ⟨rest, rfl⟩ := hpre
        rw [List.getElem?_append_left hlt, List.getElem?_eq_getElem hlt]
      have hrest := @ih (mem ++ [pre[ptr]]) (fun q hq => hptrs q (by simp [hq]))
        (hpre.trans (List.prefix_append ..))
      simp only [cloneResults, hget, hrest, ok_bind, pure_eq_ok]
      simp [Memory.deref, addresses, List.getElem?_eq_getElem hlt]

/-- Renumbering the clones in place is renumbering them as values. -/
theorem normalizeInPlace_eq (pos : NormalizeState) (pre : Memory) (rs : List (Option ExecTxResult)) :
    normalizeInPlace E pos (addresses pre.length rs) (pre ++ rs.reduceOption) =
      (fun out => pre ++ out.reduceOption) <$> normalizeResults E pos rs := by
  induction rs generalizing pos pre with
  | nil => simp [addresses, normalizeInPlace, normalizeResults, Functor.map, Except.map]
  | cons res rs ih =>
    cases res with
    | none =>
      rw [addresses, normalizeInPlace, List.reduceOption_cons_of_none, ih, normalizeResults]
      cases normalizeResults E pos rs <;> simp [Functor.map, Except.map]
    | some res =>
      rw [addresses, normalizeInPlace, List.reduceOption_cons_of_some, normalizeResults]
      simp only [List.getElem?_append_right le_rfl, Nat.sub_self, List.getElem?_cons_zero]
      cases normalizeResult E pos res with
      | error e => rfl
      | ok out =>
        have hnext := ih out.2 (pre ++ [out.1])
        rw [List.length_append, List.length_singleton, List.append_assoc] at hnext
        simp only [ok_bind, List.set_append_right _ _ le_rfl, Nat.sub_self, List.set_cons_zero]
        rw [← List.singleton_append, hnext]
        cases normalizeResults E out.2 rs <;> simp [Functor.map, Except.map]

theorem deref_addresses (pre : Memory) (rs : List (Option ExecTxResult)) :
    Memory.deref (pre ++ rs.reduceOption) (addresses pre.length rs) = rs := by
  induction rs generalizing pre with
  | nil => rfl
  | cons res rs ih =>
    cases res with
    | none =>
      have := ih pre
      simpa [Memory.deref, addresses] using this
    | some res =>
      have hrest := ih (pre ++ [res])
      rw [List.length_append, List.length_singleton, List.append_assoc,
        List.singleton_append] at hrest
      rw [List.reduceOption_cons_of_some, addresses, Memory.deref, List.map_cons]
      refine congrArg₂ List.cons ?_ hrest
      simp

theorem addresses_eq_of_same {rs rs' : List (Option ExecTxResult)} (h : SameButIndexes E rs rs')
    (a : ℕ) : addresses a rs' = addresses a rs := by
  induction h generalizing a with
  | nil => rfl
  | cons hres _ ih =>
    cases hres with
    | some _ => rw [addresses, addresses, ih]
    | none => rw [addresses, addresses, ih]

theorem lt_of_mem_addresses {a ptr : ℕ} {rs : List (Option ExecTxResult)}
    (h : ptr ∈ (addresses a rs).reduceOption) : ptr < a + rs.reduceOption.length := by
  induction rs generalizing a with
  | nil => simp [addresses] at h
  | cons res rs ih =>
    cases res with
    | none => simpa [addresses] using ih (a := a) (by simpa [addresses] using h)
    | some res =>
      rw [List.reduceOption_cons_of_some, List.length_cons]
      rw [addresses, List.reduceOption_cons_of_some, List.mem_cons] at h
      rcases h with rfl | h
      · omega
      · have := ih h
        omega

/-- **Normalisation in memory** is normalisation of the values, with the result behind the memory. -/
theorem normalizeTxResponseIndexesAt_eq {mem : Memory} {input : List (Option ℕ)}
    (hvalid : ∀ ptr ∈ input.reduceOption, ptr < mem.length) :
    normalizeTxResponseIndexesAt E mem input =
      (fun out => (addresses mem.length (mem.deref input), mem ++ out.reduceOption)) <$>
        normalizeTxResponseIndexes E (mem.deref input) := by
  rw [normalizeTxResponseIndexesAt, cloneResults_eq mem hvalid (List.prefix_refl mem)]
  simp only [ok_bind]
  rw [normalizeInPlace_eq, normalizeTxResponseIndexes]
  cases normalizeResults E {} (mem.deref input) <;> rfl

end InMemory

/-- **Normalisation is a minimal, idempotent rewrite.**  Doing it again gives the same results; the
logs of the successful Ethereum responses are numbered from 0 on and carry the slot of their response;
everything else in the results stays, and so does everything the memory held before. -/
theorem normalize_minimal_idempotent (E : Env) (mem mem' : Memory) (input output : List (Option ℕ))
    (hlaws : PayloadLaws E) (hvalid : ∀ ptr ∈ input.reduceOption, ptr < mem.length)
    (h : normalizeTxResponseIndexesAt E mem input = .ok (output, mem')) :
    (∃ output' mem'', normalizeTxResponseIndexesAt E mem' output = .ok (output', mem'') ∧
      mem''.deref output' = mem'.deref output) ∧
    ((blockResponseLogs E (mem'.deref output)).map (·.index) =
      List.range (blockResponseLogs E (mem'.deref output)).length) ∧
    (∀ i res m logs, (mem'.deref output)[i]? = some res → (responseLogs E res)[m]? = some logs →
      ∀ log ∈ logs, log.txIndex = (firstSlot E (mem.deref input) i + m) % 2 ^ 64) ∧
    SameButIndexes E (mem.deref input) (mem'.deref output) ∧ mem <+: mem' := by
  rw [normalizeTxResponseIndexesAt_eq hvalid] at h
  obtain ⟨out, hout, heq⟩ := map_eq_ok.mp h
  obtain ⟨rfl, rfl⟩ := Prod.mk.inj heq
  obtain ⟨hagain, hsame, hindex, hslot⟩ := normalizeResults_walk hlaws hout
  have hderef : Memory.deref (mem ++ out.reduceOption) (addresses mem.length (mem.deref input)) =
      out := by
    rw [← addresses_eq_of_same hsame]
    exact deref_addresses mem out
  rw [hderef]
  refine ⟨⟨addresses (mem ++ out.reduceOption).length out,
    mem ++ out.reduceOption ++ out.reduceOption, ?_, deref_addresses ..⟩, ?_, ?_, hsame,
    List.prefix_append ..⟩
  · rw [normalizeTxResponseIndexesAt_eq, hderef, normalizeTxResponseIndexes, hagain]
    · rfl
    · intro ptr hptr
      rw [← addresses_eq_of_same hsame] at hptr
      rw [List.length_append]
      exact lt_of_mem_addresses hptr
  · rw [hindex, List.range_eq_range']
  · intro i res m logs hi hm
    simpa using hslot i res m logs hi hm

/-- The log with the given slot and index, and nothing else. -/
def numberedLog (txIndex index : UInt8) : EvmLog where
  address := ""
  topics := []
  data := []
  blockNumber := 0
  txHash := ""
  txIndex := txIndex.toNat
  blockHash := ""
  index := index.toNat
  removed := false

/-- An environment in which the data of a result are one Ethereum response with one log, of which
only the indexes are encoded. -/
def Env.numbering : Env where
  __ := Env.sample
  unmarshalTxMsgData := fun bs =>
    match bs with
    | [] => .ok { msgResponses := [], rest := [] }
    | _ :: value => .ok { msgResponses := [⟨Env.sample.ethereumTxResponseTypeUrl, value⟩], rest :=
        [] }
  marshalTxMsgData := fun d =>
    match d with
    | ⟨[⟨typeUrl, value⟩], []⟩ =>
      if typeUrl = Env.sample.ethereumTxResponseTypeUrl then .ok (1 :: value)
      else .error (.plain "not encoded")
    | _ => .error (.plain "not encoded")
  unmarshalEthereumTxResponse := fun bs =>
    match bs with
    | [txIndex, index] => .ok { logs := [numberedLog txIndex index], rest := [] }
    | _ => .error (.plain "not decoded")
  marshalEthereumTxResponse := fun r =>
    match r.logs with
    | [log] =>
      if r.rest = [] ∧ log = numberedLog (UInt8.ofNat log.txIndex) (UInt8.ofNat log.index) then
        .ok [UInt8.ofNat log.txIndex, UInt8.ofNat log.index]
      else .error (.plain "not encoded")
    | _ => .error (.plain "not encoded")

theorem Env.numbering_laws : PayloadLaws Env.numbering where
  txMsgData := by
    intro d bz h
    simp only [Env.numbering] at h
    split at h
    · split_ifs at h with htype
      obtain rfl := Except.ok.inj h
      subst htype
      rfl
    · cases h
  response := by
    rintro ⟨logs, rest⟩ bz h
    simp only [Env.numbering] at h
    split at h
    · rename_i log
      split_ifs at h with hlog
      obtain ⟨rfl, hlog⟩ := hlog
      obtain rfl := Except.ok.inj h
      change Except.ok _ = Except.ok _
      rw [← hlog]
    · cases h
  empty := by
    intro d h
    obtain rfl := Except.ok.inj h
    rfl

/-- A failed transaction that takes a slot, and a response with a log behind it: the log gets slot 1
and index 0. -/
theorem normalize_minimal_idempotent_two :
    ∃ mem', normalizeTxResponseIndexesAt .numbering
        [{ code := 5, events := [⟨"ethereum_tx", []⟩] }, { data := [1, 9, 9] }]
          [some 0, none, some 1] =
          .ok ([some 2, none, some 3], mem') ∧
      mem'[3]? = some { data := [1, 1, 0] } ∧
      (blockResponseLogs .numbering (mem'.deref [some 2, none, some 3])).map (·.index) = [0] ∧
      [{ code := 5, events := [⟨"ethereum_tx", []⟩] }, { data := [1, 9, 9] }] <+: mem' := by
  have hrun := normalize_minimal_idempotent .numbering
    [{ code := 5, events := [⟨"ethereum_tx", []⟩] }, { data := [1, 9, 9] }] _ [some 0, none, some 1] _
    Env.numbering_laws (by decide) rfl
  refine ⟨_, rfl, by decide +kernel, hrun.2.1.trans (by decide +kernel), hrun.2.2.2.2⟩

end EvmGateway
