import EvmGateway.Blocksync.Retry
import EvmGateway.Lib.Interleaving
import Mathlib

/-!
# Fetching one block

A block, its results and its validators are fetched by three goroutines.  Each of them runs
`fetchWithRetry`, sends what it got on a channel of its own from within the fetch function, sends
the error of `fetchWithRetry` on a shared channel, and closes its own channel last.
`fetchBlockByNum` receives from the three channels in turn and then looks for an error.

A channel that is closed without a value gives nil, which is no block to take a field of.  It is
closed after the error was sent, and `fetchWithRetry` does not return nil without a success: its
loop never runs out of attempts (`FetcherPc.attempt?`), so the last line of the function, which
returns nil, is not reached.

* `Fetcher.step`, `mainStep`, `fetchStep` — the goroutines, with the context cancelled at any time.
* `Inv` — what holds in every state.
* `retry_accounting` — the retries, and what they mean for the fetched block.
-/

namespace EvmGateway.Blocksync

open Lib

/-! ## The goroutines -/

/-- What a call of the client returns: an error, or a pointer that may be nil. -/
abbrev Response (V : Type) := Except String (Option V)

/-- Where a fetching goroutine is. -/
inductive FetcherPc
  /-- at the head of the loop -/
  | head (attempt : ℤ)
  /-- in the fetch function -/
  | calling (attempt : ℤ)
  /-- waiting before another attempt -/
  | delaying (attempt : ℤ)
  /-- about to send an error -/
  | failed (err : RetryErr)
  /-- about to close the channel -/
  | closing
  | exited

/-- The attempt the loop is at. -/
def FetcherPc.attempt? : FetcherPc → Option ℤ
  | .head attempt | .calling attempt | .delaying attempt => some attempt
  | _ => none

/-- Whether the goroutine is done but for closing its channel. -/
def FetcherPc.finished : FetcherPc → Bool
  | .closing | .exited => true
  | _ => false

/-- Where the goroutine is after `fetchWithRetry`. -/
def FetcherPc.leave : Option RetryErr → FetcherPc
  | none => .closing
  | some err => .failed err

structure Fetcher (V : Type) where
  pc : FetcherPc
  /-- the value in the channel, which has room for one -/
  buffer : Option V := none
  closed : Bool := false

inductive FetcherAction (V : Type)
  /-- check the attempt and the context, and call the fetch function -/
  | enter
  /-- the client returns -/
  | answer (response : Response V)
  /-- the delay is over -/
  | delay
  /-- the context ends the delay -/
  | cancelled
  | report
  | close

/-- What the fetch function returns for a response. -/
def fetchOutcome {V : Type} (what : String) (height : UInt64) : Response V → Outcome
  | .error err => some err
  | .ok none => some s!"failed to get {what} ({height})"
  | .ok (some _) => none

/-- Send the value of a response.  A send to a full channel waits. -/
def Fetcher.send {V : Type} (f : Fetcher V) : Response V → Option (Fetcher V)
  | .ok (some value) => if f.buffer.isNone then some { f with buffer := some value } else none
  | _ => some f

/-- Receive a value, or nil from a channel that is closed and empty. -/
def Fetcher.receive {V : Type} (f : Fetcher V) : Option (Option V × Fetcher V) :=
  match f.buffer with
  | some value => some (some value, { f with buffer := none })
  | none => if f.closed then some (none, f) else none

section Goroutines

variable {V : Type} (allowGaps : Bool) (what : String) (height : UInt64) (ctxDone : Bool)

/-- A step of a fetching goroutine, with the errors in the shared channel, which has room for one
of each goroutine. -/
def Fetcher.step (f : Fetcher V) (errC : List RetryErr) :
    FetcherAction V → Option (Fetcher V × List RetryErr)
  | .enter =>
    match f.pc with
    | .head attempt =>
      match loopHead (fun _ => ctxDone) 0 attempt (.calling attempt) with
      | .returned err _ => some ({ f with pc := .leave err }, errC)
      | .calling attempt => some ({ f with pc := .calling attempt }, errC)
    | _ => none
  | .answer response =>
    match f.pc with
    | .calling attempt =>
      (f.send response).map fun f =>
        match retryPass allowGaps attempt (fetchOutcome what height response) with
        | .returned err => ({ f with pc := .leave err }, errC)
        | .again attempt => ({ f with pc := .delaying attempt }, errC)
    | _ => none
  | .delay =>
    match f.pc with
    | .delaying attempt => some ({ f with pc := .head attempt }, errC)
    | _ => none
  | .cancelled =>
    match f.pc with
    | .delaying _ => if ctxDone then some ({ f with pc := .failed .ctx }, errC) else none
    | _ => none
  | .report =>
    match f.pc with
    | .failed err =>
      if errC.length < 3 then some ({ f with pc := .closing }, errC ++ [err]) else none
    | _ => none
  | .close =>
    match f.pc with
    | .closing => some ({ f with pc := .exited, closed := true }, errC)
    | _ => none

end Goroutines

/-! ## The function -/

/-- The response with a block. -/
structure ResultBlock (B : Type) where
  block : Option B

/-- What `fetchBlockByNum` returns. -/
structure FetchedBlock (B R V : Type) where
  height : Int64
  block : Option B
  blockResults : Option R
  activeSet : List V

/-- Where `fetchBlockByNum` is. -/
inductive MainPc (B R V : Type)
  | awaitBlock
  | awaitResults (block : Option (ResultBlock B))
  | awaitValidators (block : Option (ResultBlock B)) (results : Option R)
  /-- about to look for an error -/
  | selecting (block : Option (ResultBlock B)) (results : Option R) (validators : List V)
  | returned (result : Except RetryErr (FetchedBlock B R V))
  /-- a field of nil was read -/
  | panicked

structure FetchState (B R V : Type) where
  ctxDone : Bool
  block : Fetcher (ResultBlock B)
  results : Fetcher R
  validators : Fetcher (List V)
  errC : List RetryErr
  main : MainPc B R V

inductive FetchAction (B R V : Type)
  /-- the context is cancelled -/
  | cancel
  | block (a : FetcherAction (ResultBlock B))
  | results (a : FetcherAction R)
  | validators (a : FetcherAction (List V))
  | main

/-- What the client may return for a height. -/
structure Client (B R V : Type) where
  block : Int64 → Response (ResultBlock B) → Prop
  blockResults : Int64 → Response R → Prop
  validators : Int64 → Response (List V) → Prop

section Function

variable {B R V : Type} (allowGaps fetchValidators : Bool) (height : UInt64)

def mainStep (s : FetchState B R V) : Option (FetchState B R V) :=
  match s.main with
  | .awaitBlock =>
    s.block.receive.map fun (block, f) => { s with block := f, main := .awaitResults block }
  | .awaitResults block =>
    s.results.receive.map fun (results, f) =>
      { s with
        results := f
        main := if fetchValidators then .awaitValidators block results
          else .selecting block results [] }
  | .awaitValidators block results =>
    s.validators.receive.map fun (validators, f) =>
      { s with validators := f, main := .selecting block results (validators.getD []) }
  | .selecting block results validators =>
    match s.errC, block with
    | err :: errC, _ => some { s with errC := errC, main := .returned (.error err) }
    | [], none => some { s with main := .panicked }
    | [], some block =>
      some { s with
        main := .returned (.ok ⟨height.toInt64, block.block, results, validators⟩) }
  | .returned _ | .panicked => none

/-- A step of `fetchBlockByNum` and its goroutines. -/
def fetchStep (s : FetchState B R V) : FetchAction B R V → Option (FetchState B R V)
  | .cancel => some { s with ctxDone := true }
  | .block a =>
    (s.block.step allowGaps "block info" height s.ctxDone s.errC a).map fun (f, errC) =>
      { s with block := f, errC := errC }
  | .results a =>
    (s.results.step allowGaps "block results" height s.ctxDone s.errC a).map fun (f, errC) =>
      { s with results := f, errC := errC }
  | .validators a =>
    (s.validators.step allowGaps "validator set" height s.ctxDone s.errC a).map fun (f, errC) =>
      { s with validators := f, errC := errC }
  | .main => mainStep fetchValidators height s

/-- The start of `fetchBlockByNum`. -/
def FetchState.init : FetchState B R V where
  ctxDone := false
  block := ⟨.head 0, none, false⟩
  results := ⟨.head 0, none, false⟩
  validators := ⟨if fetchValidators then .head 0 else .closing, none, false⟩
  errC := []
  main := .awaitBlock

variable (client : Client B R V)

def Answered (_ : FetchState B R V) : FetchAction B R V → Prop
  | .block (.answer response) => client.block height.toInt64 response
  | .results (.answer response) => client.blockResults height.toInt64 response
  | .validators (.answer response) => client.validators height.toInt64 response
  | _ => True

/-- The states of `fetchBlockByNum` with a client. -/
def FetchReaches : FetchState B R V → Prop :=
  ReachableWith (fetchStep allowGaps fetchValidators height) (Answered height client)
    (.init fetchValidators)

end Function

/-! ## What a goroutine keeps -/

section Fetcher

variable {V : Type} {allowGaps : Bool} {what : String} {height : UInt64} {ctxDone : Bool}
  {f f' : Fetcher V} {errC errC' : List RetryErr} {a : FetcherAction V} {answers : Response V → Prop}

/-- A goroutine has an attempt left while it is in the loop, has only put an answer into its
channel, and has closed it last. -/
structure Fetcher.Ok (answers : Response V → Prop) (f : Fetcher V) : Prop where
  attempt : ∀ a, f.pc.attempt? = some a → 0 ≤ a ∧ a < retryAttempts
  buffer : ∀ value, f.buffer = some value → answers (.ok (some value))
  closed : f.closed = true → f.pc = .exited

/-- Once the goroutine is done, there is a value in its channel, or an error was reported. -/
def Fetcher.Delivers (f : Fetcher V) (errC : List RetryErr) : Prop :=
  f.pc.finished = true → f.buffer ≠ none ∨ errC ≠ []

theorem loopHead_of_attempt {done : ℕ → Bool} {calls : ℕ} {attempt : ℤ}
    (h : attempt < retryAttempts) (call : Fetch) :
    loopHead done calls attempt call =
      if done (2 * calls) then .returned (some .ctx) calls else call := by
  rw [loopHead, if_neg (not_not.mpr h)]

/-- A pass that goes on has an attempt left. -/
theorem attempt_of_again {attempt attempt' : ℤ} {outcome : Outcome} (hge : 0 ≤ attempt)
    (hlt : attempt < retryAttempts) (h : retryPass allowGaps attempt outcome = .again attempt') :
    0 ≤ attempt' ∧ attempt' < retryAttempts := by
  cases outcome with
  | none => cases h
  | some err =>
    rw [retryPass] at h
    split_ifs at h with hahead hgap hlast
    · obtain rfl := Pass.again.inj h
      omega
    · obtain rfl := Pass.again.inj h
      rw [retryAttempts] at hlt hlast ⊢
      omega

theorem outcome_of_returned_nil {attempt : ℤ} {outcome : Outcome}
    (h : retryPass allowGaps attempt outcome = .returned none) : outcome = none := by
  cases outcome with
  | none => rfl
  | some err =>
    rw [retryPass] at h
    split_ifs at h
    all_goals cases h

theorem buffer_of_success {response : Response V} (hsend : f.send response = some f')
    (h : fetchOutcome what height response = none) : f'.buffer ≠ none := by
  match response, h with
  | .ok (some value), _ =>
    rw [Fetcher.send] at hsend
    split_ifs at hsend with hroom
    obtain rfl := Option.some.inj hsend
    simp

/-- Sending leaves the rest of the goroutine as it is. -/
theorem send_eq {response : Response V} (h : f.send response = some f') :
    f'.pc = f.pc ∧ f'.closed = f.closed ∧
      ∀ value, f'.buffer = some value → f.buffer = some value ∨ response = .ok (some value) := by
  match response with
  | .error err =>
    obtain rfl := Option.some.inj h
    exact ⟨rfl, rfl, fun _ => .inl⟩
  | .ok none =>
    obtain rfl := Option.some.inj h
    exact ⟨rfl, rfl, fun _ => .inl⟩
  | .ok (some value) =>
    rw [Fetcher.send] at h
    split_ifs at h with hroom
    obtain rfl := Option.some.inj h
    exact ⟨rfl, rfl, fun v hv => .inr (by rw [Option.some.inj hv])⟩

theorem Fetcher.Ok.goto {pc : FetcherPc} (h : f.Ok answers) (hopen : f.closed = false)
    (hpc : ∀ a, pc.attempt? = some a → 0 ≤ a ∧ a < retryAttempts) :
    Fetcher.Ok answers { f with pc := pc } where
  attempt := hpc
  buffer := h.buffer
  closed hclosed := by
    rw [hopen] at hclosed
    cases hclosed

theorem Fetcher.Ok.open (h : f.Ok answers) (hpc : f.pc ≠ .exited) : f.closed = false := by
  by_contra hclosed
  exact hpc (h.closed (by simpa using hclosed))

theorem leave_attempt (err : Option RetryErr) (a : ℤ) : (FetcherPc.leave err).attempt? ≠ some a := by
  cases err <;> nofun

/-- **A step of a goroutine** keeps what it has promised. -/
theorem Fetcher.Ok.step (h : f.Ok answers)
    (hanswer : ∀ response, a = .answer response → answers response)
    (hstep : f.step allowGaps what height ctxDone errC a = some (f', errC')) :
    f'.Ok answers ∧ (errC ≠ [] → errC' ≠ []) ∧ (f.Delivers errC → f'.Delivers errC') := by
  cases a with
  | enter =>
    cases hpc : f.pc with
    | head attempt =>
      have hopen := h.open (by rw [hpc]; nofun)
      have hattempt := h.attempt attempt (by rw [hpc]; rfl)
      simp only [Fetcher.step, hpc, loopHead_of_attempt hattempt.2] at hstep
      cases ctxDone with
      | true =>
        obtain ⟨rfl, rfl⟩ := Prod.mk.inj (Option.some.inj hstep)
        exact ⟨h.goto hopen nofun, id, fun _ => nofun⟩
      | false =>
        obtain ⟨rfl, rfl⟩ := Prod.mk.inj (Option.some.inj hstep)
        refine ⟨h.goto hopen fun a ha => ?_, id, fun _ => nofun⟩
        obtain rfl := Option.some.inj ha
        exact hattempt
    | _ => simp [Fetcher.step, hpc] at hstep
  | answer response =>
    cases hpc : f.pc with
    | calling attempt =>
      have hattempt := h.attempt attempt (by rw [hpc]; rfl)
      simp only [Fetcher.step, hpc, Option.map_eq_some_iff] at hstep
      obtain ⟨g, hsend, hstep⟩ := hstep
      obtain ⟨hgpc, hgclosed, hgbuffer⟩ := send_eq hsend
      have hopen : g.closed = false := by
        rw [hgclosed]
        exact h.open (by rw [hpc]; nofun)
      have hg : g.Ok answers := by
        refine ⟨by rw [hgpc]; exact h.attempt, fun value hvalue => ?_, by rw [hopen]; nofun⟩
        rcases hgbuffer value hvalue with hold | rfl
        · exact h.buffer value hold
        · exact hanswer _ rfl
      cases hpass : retryPass allowGaps attempt (fetchOutcome what height response) with
      | returned err =>
        simp only [hpass] at hstep
        obtain ⟨rfl, rfl⟩ := Prod.mk.inj hstep
        refine ⟨hg.goto hopen fun a ha => absurd ha (leave_attempt err a), id, fun _ hfinished => ?_⟩
        cases err with
        | none =>
          have hsent := buffer_of_success hsend (outcome_of_returned_nil hpass)
          exact .inl hsent
        | some err => cases hfinished
      | again attempt' =>
        simp only [hpass] at hstep
        obtain ⟨rfl, rfl⟩ := Prod.mk.inj hstep
        refine ⟨hg.goto hopen fun a ha => ?_, id, fun _ => nofun⟩
        obtain rfl := Option.some.inj ha
        exact attempt_of_again hattempt.1 hattempt.2 hpass
    | _ => simp [Fetcher.step, hpc] at hstep
  | delay =>
    cases hpc : f.pc with
    | delaying attempt =>
      simp only [Fetcher.step, hpc] at hstep
      obtain ⟨rfl, rfl⟩ := Prod.mk.inj (Option.some.inj hstep)
      refine ⟨h.goto (h.open (by rw [hpc]; nofun)) fun a ha => ?_, id, fun _ => nofun⟩
      exact h.attempt a (by rw [hpc]; exact ha)
    | _ => simp [Fetcher.step, hpc] at hstep
  | cancelled =>
    cases hpc : f.pc with
    | delaying attempt =>
      simp only [Fetcher.step, hpc] at hstep
      split_ifs at hstep
      obtain ⟨rfl, rfl⟩ := Prod.mk.inj (Option.some.inj hstep)
      exact ⟨h.goto (h.open (by rw [hpc]; nofun)) nofun, id, fun _ => nofun⟩
    | _ => simp [Fetcher.step, hpc] at hstep
  | report =>
    cases hpc : f.pc with
    | failed err =>
      simp only [Fetcher.step, hpc] at hstep
      split_ifs at hstep
      obtain ⟨rfl, rfl⟩ := Prod.mk.inj (Option.some.inj hstep)
      have hne : errC ++ [err] ≠ [] := by simp
      exact ⟨h.goto (h.open (by rw [hpc]; nofun)) nofun, fun _ => hne, fun _ _ => .inr hne⟩
    | _ => simp [Fetcher.step, hpc] at hstep
  | close =>
    cases hpc : f.pc with
    | closing =>
      simp only [Fetcher.step, hpc] at hstep
      obtain ⟨rfl, rfl⟩ := Prod.mk.inj (Option.some.inj hstep)
      exact ⟨⟨nofun, h.buffer, fun _ => rfl⟩, id, fun hdel _ => hdel (by rw [hpc]; rfl)⟩
    | _ => simp [Fetcher.step, hpc] at hstep

def Received (answers : Response V → Prop) (errC : List RetryErr) (value? : Option V) : Prop :=
  (∃ value, value? = some value ∧ answers (.ok (some value))) ∨ errC ≠ []

theorem Fetcher.Ok.of_receive {value? : Option V} (h : f.Ok answers)
    (hrecv : f.receive = some (value?, f')) : f'.Ok answers := by
  rw [Fetcher.receive] at hrecv
  cases hbuffer : f.buffer with
  | some value =>
    simp only [hbuffer] at hrecv
    obtain ⟨rfl, rfl⟩ := Prod.mk.inj (Option.some.inj hrecv)
    exact ⟨h.attempt, nofun, h.closed⟩
  | none =>
    simp only [hbuffer] at hrecv
    split_ifs at hrecv with hclosed
    obtain ⟨rfl, rfl⟩ := Prod.mk.inj (Option.some.inj hrecv)
    exact h

/-- **Receiving** from a goroutine that keeps its promise. -/
theorem Fetcher.Ok.received {value? : Option V} (h : f.Ok answers) (hdel : f.Delivers errC)
    (hrecv : f.receive = some (value?, f')) : Received answers errC value? := by
  rw [Fetcher.receive] at hrecv
  cases hbuffer : f.buffer with
  | some value =>
    simp only [hbuffer] at hrecv
    obtain ⟨rfl, -⟩ := Prod.mk.inj (Option.some.inj hrecv)
    exact .inl ⟨value, rfl, h.buffer value hbuffer⟩
  | none =>
    simp only [hbuffer] at hrecv
    split_ifs at hrecv with hclosed
    rcases hdel (by rw [h.closed hclosed]; rfl) with hsome | herr
    · exact absurd hbuffer hsome
    · exact .inr herr

end Fetcher

/-! ## What holds in every state -/

section Invariant

variable {B R V : Type} {allowGaps fetchValidators : Bool} {height : UInt64}
  {client : Client B R V} {s s' : FetchState B R V}

structure FetchedBlock.Answered (client : Client B R V) (height : Int64)
    (data : FetchedBlock B R V) : Prop where
  height_eq : data.height = height
  block : ∃ response, client.block height (.ok (some response)) ∧ data.block = response.block
  results : ∃ results, client.blockResults height (.ok (some results)) ∧
    data.blockResults = some results

/-- What `fetchBlockByNum` knows where it is. -/
def MainOk (client : Client B R V) (height : Int64) (s : FetchState B R V) : Prop :=
  match s.main with
  | .awaitBlock => s.block.Delivers s.errC ∧ s.results.Delivers s.errC
  | .awaitResults block =>
    Received (client.block height) s.errC block ∧ s.results.Delivers s.errC
  | .awaitValidators block results | .selecting block results _ =>
    Received (client.block height) s.errC block ∧
      Received (client.blockResults height) s.errC results
  | .returned (.ok data) => data.Answered client height
  | .returned (.error _) => True
  | .panicked => False

structure Inv (client : Client B R V) (height : Int64) (s : FetchState B R V) : Prop where
  block : s.block.Ok (client.block height)
  results : s.results.Ok (client.blockResults height)
  validators : s.validators.Ok (client.validators height)
  main : MainOk client height s

theorem Received.mono {W : Type} {answers : Response W → Prop} {errC errC' : List RetryErr}
    {value? : Option W} (h : Received answers errC value?) (herr : errC ≠ [] → errC' ≠ []) :
    Received answers errC' value? := h.imp_right herr

theorem Fetcher.Delivers.mono {W : Type} {f : Fetcher W} {errC errC' : List RetryErr}
    (h : f.Delivers errC) (herr : errC ≠ [] → errC' ≠ []) : f.Delivers errC' :=
  fun hfinished => (h hfinished).imp_right herr

/-- What is known stays true when the goroutines go on. -/
theorem MainOk.mono (h : MainOk client height.toInt64 s) (hmain : s'.main = s.main)
    (herr : s.errC ≠ [] → s'.errC ≠ [])
    (hblock : s.block.Delivers s.errC → s'.block.Delivers s'.errC)
    (hresults : s.results.Delivers s.errC → s'.results.Delivers s'.errC) :
    MainOk client height.toInt64 s' := by
  rw [MainOk] at h ⊢
  rw [hmain]
  cases hpc : s.main with
  | awaitBlock =>
    rw [hpc] at h
    exact ⟨hblock h.1, hresults h.2⟩
  | awaitResults block =>
    rw [hpc] at h
    exact ⟨h.1.mono herr, hresults h.2⟩
  | awaitValidators block results =>
    rw [hpc] at h
    exact ⟨h.1.mono herr, h.2.mono herr⟩
  | selecting block results validators =>
    rw [hpc] at h
    exact ⟨h.1.mono herr, h.2.mono herr⟩
  | returned result =>
    rw [hpc] at h
    cases result with
    | ok data => exact h
    | error err => trivial
  | panicked =>
    rw [hpc] at h
    exact h

theorem Inv.mainStep (h : Inv client height.toInt64 s)
    (hstep : mainStep fetchValidators height s = some s') : Inv client height.toInt64 s' := by
  obtain ⟨hblock, hresults, hvalidators, hmain⟩ := h
  rw [MainOk] at hmain
  cases hpc : s.main with
  | awaitBlock =>
    rw [hpc] at hmain
    simp only [Blocksync.mainStep, hpc, Option.map_eq_some_iff] at hstep
    obtain ⟨⟨block, f⟩, hrecv, rfl⟩ := hstep
    have hf := hblock.of_receive hrecv
    have hreceived := hblock.received hmain.1 hrecv
    exact ⟨hf, hresults, hvalidators, hreceived, hmain.2⟩
  | awaitResults block =>
    rw [hpc] at hmain
    simp only [Blocksync.mainStep, hpc, Option.map_eq_some_iff] at hstep
    obtain ⟨⟨results, f⟩, hrecv, rfl⟩ := hstep
    have hf := hresults.of_receive hrecv
    have hreceived := hresults.received hmain.2 hrecv
    refine ⟨hblock, hf, hvalidators, ?_⟩
    cases fetchValidators with
    | true => exact ⟨hmain.1, hreceived⟩
    | false => exact ⟨hmain.1, hreceived⟩
  | awaitValidators block results =>
    rw [hpc] at hmain
    simp only [Blocksync.mainStep, hpc, Option.map_eq_some_iff] at hstep
    obtain ⟨⟨validators, f⟩, hrecv, rfl⟩ := hstep
    exact ⟨hblock, hresults, hvalidators.of_receive hrecv, hmain⟩
  | selecting block results validators =>
    rw [hpc] at hmain
    cases herr : s.errC with
    | cons err errC =>
      simp only [Blocksync.mainStep, hpc, herr] at hstep
      obtain rfl := Option.some.inj hstep
      exact ⟨hblock, hresults, hvalidators, trivial⟩
    | nil =>
      -- without an error both were received
      obtain ⟨hblockRecv, hresultsRecv⟩ := hmain
      obtain ⟨response, rfl, hresponse⟩ := hblockRecv.resolve_right (not_not.mpr herr)
      obtain ⟨value, rfl, hvalue⟩ := hresultsRecv.resolve_right (not_not.mpr herr)
      simp only [Blocksync.mainStep, hpc, herr] at hstep
      obtain rfl := Option.some.inj hstep
      exact ⟨hblock, hresults, hvalidators, rfl, ⟨response, hresponse, rfl⟩, ⟨value, hvalue, rfl⟩⟩
  | returned result => simp [Blocksync.mainStep, hpc] at hstep
  | panicked => simp [Blocksync.mainStep, hpc] at hstep

/-- **One step** of `fetchBlockByNum` and its goroutines. -/
theorem Inv.step {a : FetchAction B R V} (h : Inv client height.toInt64 s)
    (hanswered : Answered height client s a)
    (hstep : fetchStep allowGaps fetchValidators height s a = some s') :
    Inv client height.toInt64 s' := by
  cases a with
  | cancel =>
    obtain rfl := Option.some.inj hstep
    exact ⟨h.block, h.results, h.validators, h.main⟩
  | block a =>
    rw [fetchStep, Option.map_eq_some_iff] at hstep
    obtain ⟨⟨f, errC⟩, hf, rfl⟩ := hstep
    obtain ⟨hok, herr, hdel⟩ := h.block.step (by rintro response rfl; exact hanswered) hf
    exact ⟨hok, h.results, h.validators, h.main.mono rfl herr hdel fun hres => hres.mono herr⟩
  | results a =>
    rw [fetchStep, Option.map_eq_some_iff] at hstep
    obtain ⟨⟨f, errC⟩, hf, rfl⟩ := hstep
    obtain ⟨hok, herr, hdel⟩ := h.results.step (by rintro response rfl; exact hanswered) hf
    exact ⟨h.block, hok, h.validators, h.main.mono rfl herr (fun hblk => hblk.mono herr) hdel⟩
  | validators a =>
    rw [fetchStep, Option.map_eq_some_iff] at hstep
    obtain ⟨⟨f, errC⟩, hf, rfl⟩ := hstep
    obtain ⟨hok, herr, -⟩ := h.validators.step (by rintro response rfl; exact hanswered) hf
    exact ⟨h.block, h.results, hok, h.main.mono rfl herr (fun hblk => hblk.mono herr)
      fun hres => hres.mono herr⟩
  | main => exact h.mainStep hstep

theorem Inv.init : Inv client height.toInt64 (.init fetchValidators) where
  block := ⟨fun a ha => by obtain rfl := Option.some.inj ha; decide, nofun, nofun⟩
  results := ⟨fun a ha => by obtain rfl := Option.some.inj ha; decide, nofun, nofun⟩
  validators := by
    refine ⟨fun a ha => ?_, nofun, nofun⟩
    cases fetchValidators with
    | true =>
      obtain rfl := Option.some.inj ha
      decide
    | false => cases ha
  main := ⟨nofun, nofun⟩

/-- **Every run** keeps it. -/
theorem FetchReaches.inv (h : FetchReaches allowGaps fetchValidators height client s) :
    Inv client height.toInt64 s :=
  ReachableWith.invariant h .init fun _ _ _ hinv hok hstep => hinv.step hok hstep

theorem FetchReaches.next (h : FetchReaches allowGaps fetchValidators height client s)
    (a : FetchAction B R V) (hanswered : Answered height client s a)
    (hstep : fetchStep allowGaps fetchValidators height s a = some s') :
    FetchReaches allowGaps fetchValidators height client s' := ReachableWith.step a h hanswered hstep

end Invariant

/-! ## The fetched block -/

/-- **Retries.**  They are accounted for as `Accounts` says.  So `fetchBlockByNum` never reads a
field of nil, and what it returns without an error is the block and the results the client
answered for the height. -/
theorem retry_accounting (allowGaps fetchValidators : Bool) :
    (∀ outcomes : Stream'.Seq Outcome, Accounts allowGaps outcomes) ∧
    ∀ {B R V : Type} (client : Client B R V) (height : UInt64) (s : FetchState B R V),
      FetchReaches allowGaps fetchValidators height client s →
      (∀ response, client.block height.toInt64 (.ok (some response)) → response.block ≠ none) →
      s.main ≠ .panicked ∧ ∀ data, s.main = .returned (.ok data) →
        data.height = height.toInt64 ∧
        (∃ block, data.block = some block ∧
          client.block height.toInt64 (.ok (some ⟨some block⟩))) ∧
        ∃ results, data.blockResults = some results ∧
          client.blockResults height.toInt64 (.ok (some results)) := by
  refine ⟨accounts allowGaps, fun client height s hs hfull => ?_⟩
  have hmain := hs.inv.main
  rw [MainOk] at hmain
  constructor
  · intro hpanicked
    rw [hpanicked] at hmain
    exact hmain
  · intro data hdata
    rw [hdata] at hmain
    obtain ⟨hheight, ⟨response, hresponse, hblock⟩, ⟨results, hresults, hres⟩⟩ := hmain
    obtain ⟨block, hsome⟩ := Option.ne_none_iff_exists'.mp (hfull response hresponse)
    refine ⟨hheight, ⟨block, hblock.trans hsome, ?_⟩, results, hres, hresults⟩
    rw [← hsome]
    exact hresponse

def sampleClient : Client Unit Unit Unit where
  block _ response := response = .ok (some ⟨some ()⟩)
  blockResults _ response := response = .ok (some ())
  validators _ _ := False

/-- A run in which the results are there first. -/
theorem retry_accounting_sample :
    ∃ s : FetchState Unit Unit Unit, FetchReaches true false 7 sampleClient s ∧
      s.main = .returned (.ok ⟨7, some (), some (), []⟩) ∧ s.main ≠ .panicked := by
  have h₀ : FetchReaches true false 7 sampleClient (.init false) := .init
  have h₁ := h₀.next (.results .enter) trivial rfl
  have h₂ := h₁.next (.results (.answer (.ok (some ())))) rfl rfl
  have h₃ := h₂.next (.block .enter) trivial rfl
  have h₄ := h₃.next (.block (.answer (.ok (some ⟨some ()⟩)))) rfl rfl
  have hs := ((h₄.next .main trivial rfl).next .main trivial rfl).next .main trivial rfl
  have hfull : ∀ response, sampleClient.block (7 : UInt64).toInt64 (.ok (some response)) →
      response.block ≠ none := by
    intro response h
    cases h
    nofun
  exact ⟨_, hs, rfl, ((retry_accounting true false).2 sampleClient 7 _ hs hfull).1⟩

end EvmGateway.Blocksync
