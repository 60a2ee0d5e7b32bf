import EvmGateway.Indexer.AdvertisedHead

/-!
# What a cancelled sync returns

The announcer ends on the same cancellation as the consumer, and closes the stream.  The consumer
selects between the two and takes either: it returns the error of the context, or finds the stream
closed and returns an error that is no cancellation.  `syncGaps` and `runForwardSync` report such
an error as a stopped sync, and the queue of the gaps goes on with the next gap.

A look of the consumer at its channels can go wrong if and only if the stream is closed and has no
block left (`look_reports_iff`).  Calls in which no look comes that late end as they should
(`result_of_looksOpen`, `result_cases`), and nothing is reported as stopped
(`noneClosed_of_looksOpen`).
-/

namespace EvmGateway

open Lib Blocksync

variable {result : Result} {a : CallAction}

/-! ## One call -/

namespace Blocksync

variable {β : Type} {cfg : Syncer} {stop : Option ℤ} {start : ℤ} {s s' : State β}

/-- The stream is closed and has no block left. -/
def State.Drained (s : State β) : Prop := s.newBlocksC = [] ∧ s.streamEnd = true

/-- The consumer is about to select. -/
def State.Looks (stop : Option ℤ) (s : State β) : Prop :=
  s.consumer = .receiving ∧ s.inRange stop = true

/-- When the consumer selects, the stream is open or has a block left. -/
def LooksOpen (stop : Option ℤ) (s : State β) : Action β → Prop
  | .consumer _ => s.Looks stop → ¬s.Drained
  | _ => True

theorem LooksOpen.of_streamClosed {a : Action β} (h : LooksOpen stop s a) :
    a = .consumer .streamClosed → s.Looks stop → ¬s.Drained := by
  rintro rfl
  exact h

theorem step_result_ne_streamClosed {a : Action β} (hs : s.consumer.result? ≠ some .streamClosed)
    (hok : a = .consumer .streamClosed → s.Looks stop → ¬s.Drained)
    (hstep : step cfg stop s a = some s') : s'.consumer.result? ≠ some .streamClosed := by
  cases a with
  | worker w a =>
    obtain ⟨x, x', s₁, -, hm, rfl⟩ := step_worker hstep
    cases hm <;> exact hs
  | announcer a => cases step_announcer hstep <;> exact hs
  | cancel =>
    obtain rfl := step_cancel hstep
    exact hs
  | consumer a =>
    cases step_consumer hstep with
    | streamClosed hc hrange hchan hend => exact absurd ⟨hchan, hend⟩ (hok rfl ⟨hc, hrange⟩)
    | signal result hc | close result hc =>
      rw [hc] at hs
      exact hs
    | skip block rest hc _ _ _ _ =>
      change s.consumer.result? ≠ _
      rw [hc]
      nofun
    | _ => nofun

/-- **One look.**  Every way the consumer can select leads to the error of the context or to
another block if and only if the stream is not drained. -/
theorem look_reports_iff (hs : SyncReaches cfg stop start s) (hlook : s.Looks stop) :
    (∀ a s' result, step cfg stop s (.consumer a) = some s' → s'.consumer = .returning result →
      result = .ctxErr) ↔ ¬s.Drained := by
  obtain ⟨hc, hrange⟩ := hlook
  constructor
  · rintro hall ⟨hchan, hend⟩
    have hstep : step cfg stop s (.consumer .streamClosed) =
        some { s with consumer := .returning .streamClosed } := by
      simp [step, consumerStep, hc, hrange, hchan, hend]
    cases hall _ _ _ hstep rfl
  · intro hopen a s' result hstep hres
    have hs' : SyncReaches cfg stop start s' := hs.step _ hstep
    have hinv := hs'.inOrder.consuming
    cases step_consumer hstep with
    | mismatch block rest _ _ _ _ => exact absurd rfl hinv.no_mismatch
    | streamClosed _ _ hchan hend => exact absurd ⟨hchan, hend⟩ hopen
    | ctxDone _ _ _ => exact (Consumer.returning.inj hres).symm
    | finish _ hout =>
      rw [hrange] at hout
      cases hout
    | skip block rest _ _ _ _ _ =>
      change s.consumer = _ at hres
      rw [hc] at hres
      cases hres
    | call block rest _ _ _ _ _ => cases hres
    | handled block hc' | handlerErr block hc' | signal result hc' | close result hc' =>
      rw [hc] at hc'
      cases hc'

theorem result_of_looksOpen (hearly : earlyReturn stop start = none)
    (h : ReachableWith (step cfg stop) (LooksOpen stop) (State.init cfg stop start) s) :
    s.consumer.result? ≠ some .streamClosed := by
  refine ReachableWith.invariant (I := fun s => s.consumer.result? ≠ some .streamClosed) h ?_
    fun _ _ _ hs hok hstep => step_result_ne_streamClosed hs hok.of_streamClosed hstep
  simp [State.init, hearly, Consumer.result?]

/-- The results that are left for a call without an error of the handler. -/
theorem result_cases (hs : SyncReaches cfg stop start s) (hearly : earlyReturn stop start = none)
    (hres : s.consumer.result? = some result) (hhandler : result ≠ .handlerErr)
    (hclosed : result ≠ .streamClosed) :
    (result = .nil ∧ ∃ last, stop = some last ∧
        s.calls.map (·.height) = wantedHeights start last s.skipped) ∨
      result = .ctxErr ∧ s.canceled = true := by
  have hret := hs.soundReturn hearly
  cases result with
  | nil =>
    obtain ⟨last, rfl, -⟩ := hs.inOrder.consuming.nil hres
    have hle := (earlyReturn_eq_none hearly).2 last rfl
    exact .inl ⟨rfl, last, rfl, hs.complete hle hres⟩
  | negativeStart => exact absurd hres hret.started
  | ctxErr => exact .inr ⟨rfl, hret.ctxErr hres⟩
  | streamClosed => exact absurd rfl hclosed
  | mismatch => exact absurd hres hs.inOrder.consuming.no_mismatch
  | handlerErr => exact absurd rfl hhandler

end Blocksync

/-! ## The queues -/

/-- An error that is not a cancellation is reported. -/
def Blocksync.Result.stopped : Result → Bool
  | .nil | .ctxErr => false
  | _ => true

def SyncEvent.reportsStop : SyncEvent → Bool
  | .gapEnded _ result | .tipEnded result => result.stopped
  | _ => false

/-- The looks of both calls are not too late. -/
def RunLooksOpen (s : RunState) : RunAction → Prop
  | .gap (.getter a) => ∀ gap rest call, s.gap = .syncing gap rest call →
      LooksOpen (some gap.stop) call.getter a
  | .tip (.getter a) => ∀ call, s.tip = .syncing call → LooksOpen none call.getter a
  | _ => True

def SyncCall.Open (call : SyncCall) : Prop := call.getter.consumer.result? ≠ some .streamClosed

def GapQueue.Open : GapQueue → Prop
  | .syncing _ _ call => call.Open
  | _ => True

def TipQueue.Open : TipQueue → Prop
  | .syncing call => call.Open
  | _ => True

section Queues

variable {S : Syncer} {answers : ℕ → FetchedBlock → Bool} {plan : Plan} {earliest : ℤ} {db₀ : DB}
  {cfg : Blocksync.Syncer} {stop : Option ℤ} {queue : Queue} {db db' : DB} {call call' : SyncCall}
  {new : List SyncEvent} {s s' : RunState}

theorem receive_getter (g : Blocksync.State FetchedBlock) :
    (call.receive queue g).1.getter = g := by
  rw [SyncCall.receive]
  split <;> rfl

/-- A call that has not found its stream closed does not find it closed now. -/
theorem callStep_open (hs : call.Open) (hok : ∀ b, a = .getter b → LooksOpen stop call.getter b)
    (hstep : callStep S answers cfg stop queue db call a = some (call', db', new)) :
    call'.Open := by
  cases a with
  | getter b =>
    simp only [callStep] at hstep
    split_ifs at hstep
    obtain ⟨g, hg, heq⟩ := Option.map_eq_some_iff.mp hstep
    cases heq
    exact step_result_ne_streamClosed hs (hok b rfl).of_streamClosed hg
  | receive =>
    obtain ⟨g, hg, heq⟩ := Option.map_eq_some_iff.mp hstep
    obtain ⟨rfl, -⟩ := Prod.mk.inj heq
    rw [SyncCall.Open, receive_getter]
    exact step_result_ne_streamClosed hs (fun ha => by cases ha) hg
  | handler b =>
    simp only [callStep] at hstep
    obtain ⟨r, -, heq⟩ := Option.map_eq_some_iff.mp hstep
    obtain ⟨rfl, -⟩ := Prod.mk.inj heq
    exact hs
  | finish =>
    simp only [callStep] at hstep
    split at hstep
    · obtain ⟨g, hg, heq⟩ := Option.map_eq_some_iff.mp hstep
      obtain ⟨rfl, -⟩ := Prod.mk.inj heq
      exact step_result_ne_streamClosed hs (fun ha => by cases ha) hg
    · cases hstep

/-- No call has found its stream closed, and a stop that was reported is one of a handler. -/
structure NoneClosed (s : RunState) : Prop where
  gap : s.gap.Open
  tip : s.tip.Open
  reports : ∀ e ∈ s.events, e.reportsStop = true → ∃ queue h, .failed queue h ∈ s.events

theorem NoneClosed.append_reports (h : NoneClosed s)
    (hnew : ∀ e ∈ new, e.reportsStop = true → ∃ queue h, .failed queue h ∈ s.events) :
    ∀ e ∈ s.events ++ new, e.reportsStop = true → ∃ queue h, .failed queue h ∈ s.events ++ new := by
  intro e he hstop
  obtain ⟨q, n, hfailed⟩ : ∃ queue h, .failed queue h ∈ s.events := by
    rcases List.mem_append.mp he with he | he
    · exact h.reports e he hstop
    · exact hnew e he hstop
  exact ⟨q, n, List.mem_append_left _ hfailed⟩

theorem callStep_not_reportsStop
    (hstep : callStep S answers cfg stop queue db call a = some (call', db', new)) :
    ∀ e ∈ new, e.reportsStop = false := by
  cases callStep_move hstep with
  | handler x db' new hm =>
    generalize call.handler = y at hm
    cases hm with
    | delete block err batch err' => cases err' <;> simp [failureEvent, SyncEvent.reportsStop]
    | _ => simp [failureEvent, SyncEvent.reportsStop]
  | _ => simp [SyncEvent.reportsStop]

theorem CallInv.failed_of_stopped {start : ℤ} {before : List ℕ} {canceled : Bool}
    {events : List SyncEvent}
    (hi : CallInv answers cfg stop start queue before canceled call events)
    (hearly : earlyReturn stop start = none) (hc : call.getter.consumer = .returned result)
    (hopen : call.Open) (hstop : result.stopped = true) :
    ∃ h, .failed queue h ∈ events := by
  have hres : call.getter.consumer.result? = some result := by rw [hc]; rfl
  by_cases hhandler : result = .handlerErr
  · exact hi.failed (hhandler ▸ hres)
  · have hclosed : result ≠ .streamClosed := by
      rintro rfl
      exact hopen hres
    rcases result_cases hi.reaches hearly hres hhandler hclosed with ⟨rfl, -⟩ | ⟨rfl, -⟩
    all_goals cases hstop

theorem SyncCall.start_open (cfg : Blocksync.Syncer) (stop : Option ℤ) (start : ℤ) (canceled : Bool) :
    (SyncCall.start cfg stop start canceled).Open := by
  rw [SyncCall.Open]
  change (((earlyReturn stop start).map Consumer.returned).getD
    (Consumer.receiving (β := FetchedBlock))).result? ≠ _
  cases hearly : earlyReturn stop start with
  | none => nofun
  | some result =>
    rcases earlyReturn_eq_some hearly with rfl | ⟨rfl, -⟩
    all_goals nofun

/-- The queue of the gaps goes on with its call. -/
theorem NoneClosed.gapStep (h : NoneClosed s) (hok : RunLooksOpen s (.gap a))
    (hstep : gapStep S answers s a = some s') : NoneClosed s' := by
  have hgap := h.gap
  simp only [EvmGateway.gapStep] at hstep
  split at hstep
  case h_1 gap rest call hq =>
    rw [hq] at hgap
    obtain ⟨⟨call', db', new⟩, hcall, rfl⟩ := Option.map_eq_some_iff.mp hstep
    refine ⟨callStep_open hgap ?_ hcall, h.tip, h.append_reports fun e he hstop => ?_⟩
    · rintro b rfl
      exact hok gap rest call hq
    · rw [callStep_not_reportsStop hcall e he] at hstop
      cases hstop
  case h_2 => cases hstep

/-- The queue of the tip goes on with its call. -/
theorem NoneClosed.tipStep (h : NoneClosed s) (hok : RunLooksOpen s (.tip a))
    (hstep : tipStep S answers s a = some s') : NoneClosed s' := by
  have htip := h.tip
  simp only [EvmGateway.tipStep] at hstep
  split at hstep
  case h_1 call hq =>
    rw [hq] at htip
    obtain ⟨⟨call', db', new⟩, hcall, rfl⟩ := Option.map_eq_some_iff.mp hstep
    refine ⟨h.gap, callStep_open htip ?_ hcall, h.append_reports fun e he hstop => ?_⟩
    · rintro b rfl
      exact hok call hq
    · rw [callStep_not_reportsStop hcall e he] at hstop
      cases hstop
  case h_2 => cases hstep

/-- A call for a gap ends, and the queue with it or not. -/
theorem NoneClosed.gapReturn {gap : BlockRange} {rest : List BlockRange}
    (hplan : PlanSound plan earliest) (hinv : RunInv S answers plan s) (h : NoneClosed s)
    (hq : s.gap = .syncing gap rest call) (hc : call.getter.consumer = .returned result) :
    NoneClosed
      { s with
        gap := if result = .ctxErr then .done true else .next rest
        events := s.events ++ [.gapEnded gap result] } := by
  have hgap := hinv.gap
  have hopen := h.gap
  rw [hq] at hgap hopen
  obtain ⟨done, before, hgaps, -, hcall⟩ := hgap
  refine ⟨?_, h.tip, h.append_reports fun e he hstop => ?_⟩
  · dsimp only
    split_ifs
    all_goals trivial
  · obtain rfl := List.mem_singleton.mp he
    have hmem : gap ∈ plan.gaps := by simp [hgaps]
    have hearly := hplan.earlyReturn_gap hmem
    exact ⟨.gap, hcall.failed_of_stopped hearly hc hopen hstop⟩

theorem NoneClosed.tipReturn (hplan : PlanSound plan earliest) (hinv : RunInv S answers plan s)
    (h : NoneClosed s) (hq : s.tip = .syncing call) (hc : call.getter.consumer = .returned result) :
    NoneClosed { s with tip := .done result, events := s.events ++ [.tipEnded result] } := by
  have htip := hinv.tip
  have hopen := h.tip
  rw [hq] at htip hopen
  refine ⟨h.gap, trivial, h.append_reports fun e he hstop => ?_⟩
  obtain rfl := List.mem_singleton.mp he
  exact ⟨.tip, CallInv.failed_of_stopped htip hplan.earlyReturn_tip hc hopen hstop⟩

theorem NoneClosed.cancel (h : NoneClosed s) :
    NoneClosed { s with canceled := true, gap := s.gap.cancel, tip := s.tip.cancel } := by
  obtain ⟨hgap, htip, hreports⟩ := h
  refine ⟨?_, ?_, hreports⟩
  · cases hq : s.gap with
    | syncing gap rest call =>
      rw [hq] at hgap
      exact hgap
    | _ => trivial
  · cases hq : s.tip with
    | syncing call =>
      rw [hq] at htip
      exact htip
    | _ => trivial

/-- **One step of the queues** whose looks are not too late. -/
theorem NoneClosed.step {a : RunAction} (hplan : PlanSound plan earliest)
    (hinv : RunInv S answers plan s) (h : NoneClosed s) (hok : RunLooksOpen s a)
    (hstep : runStep S answers plan s a = some s') : NoneClosed s' := by
  cases a with
  | nextGap =>
    simp only [runStep, nextGapStep] at hstep
    split at hstep
    case h_1 =>
      obtain rfl := Option.some.inj hstep
      exact ⟨trivial, h.tip, h.reports⟩
    case h_2 =>
      obtain rfl := Option.some.inj hstep
      exact ⟨SyncCall.start_open _ _ _ _, h.tip, h.reports⟩
    case h_3 => cases hstep
  | gap a => exact h.gapStep hok hstep
  | gapReturn =>
    simp only [runStep, gapReturnStep] at hstep
    split at hstep
    case h_1 gap rest call hq =>
      split at hstep
      case h_1 result hc =>
        obtain rfl := Option.some.inj hstep
        exact h.gapReturn hplan hinv hq hc
      case h_2 => cases hstep
    case h_2 => cases hstep
  | startTip =>
    obtain ⟨call, hcall, rfl⟩ : ∃ call : SyncCall, call.Open ∧ s' =
      { s with tip := .syncing call } := by
      simp only [runStep, startTipStep] at hstep
      split at hstep
      case h_1 =>
        split_ifs at hstep
        · exact ⟨_, SyncCall.start_open _ _ _ _, (Option.some.inj hstep).symm⟩
        · split at hstep
          · exact ⟨_, SyncCall.start_open _ _ _ _, (Option.some.inj hstep).symm⟩
          · cases hstep
      case h_2 => cases hstep
    exact ⟨h.gap, hcall, h.reports⟩
  | tip a => exact h.tipStep hok hstep
  | tipReturn =>
    simp only [runStep, tipReturnStep] at hstep
    split at hstep
    case h_1 call hq =>
      split at hstep
      case h_1 result hc =>
        obtain rfl := Option.some.inj hstep
        exact h.tipReturn hplan hinv hq hc
      case h_2 => cases hstep
    case h_2 => cases hstep
  | cancel =>
    obtain rfl := Option.some.inj hstep
    exact h.cancel

/-- **Every run** whose looks are not too late reports a stop only after a handler has failed. -/
theorem noneClosed_of_looksOpen (hplan : PlanSound plan earliest)
    (h : ReachableWith (runStep S answers plan) RunLooksOpen (plan.start db₀) s) : NoneClosed s := by
  refine (ReachableWith.invariant (I := fun s => RunInv S answers plan s ∧ NoneClosed s) h
    ⟨start_inv plan db₀, trivial, trivial, nofun⟩ ?_).2
  intro s s' a hs hok hstep
  exact ⟨(runStep_move hstep).inv hplan hs.1, hs.2.step hplan hs.1 hok hstep⟩

end Queues

/-! ## Cancellation as a whole -/

/-- **Cancellation.**  A look of a cancelled call can lead to another error than that of the
context if and only if the stream is drained.  If no look comes that late and no handler fails,
the call returns nil after its whole range or the error of the context, and neither a gap nor the
forward sync is reported as stopped. -/
theorem cancellation_reported (S : Syncer) (answers : ℕ → FetchedBlock → Bool) (configured : ℤ)
    (status : NodeStatus) (probe : BlockProbe) (db₀ : DB) (plan : Plan) (s : RunState) :
    (∀ {β : Type} (cfg : Blocksync.Syncer) (stop : Option ℤ) (start : ℤ),
      earlyReturn stop start = none →
      (∀ s : State β, SyncReaches cfg stop start s → s.Looks stop → s.canceled = true →
        ((∀ a s' result, step cfg stop s (.consumer a) = some s' →
          s'.consumer = .returning result → result = .ctxErr) ↔ ¬s.Drained)) ∧
      ∀ (s : State β) (result : Result),
        ReachableWith (step cfg stop) (LooksOpen stop) (State.init cfg stop start) s →
        s.consumer = .returned result → result ≠ .handlerErr →
        (result = .nil ∧ ∃ last, stop = some last ∧
            s.calls.map (·.height) = wantedHeights start last s.skipped) ∨
          result = .ctxErr ∧ s.canceled = true) ∧
    (S.run configured status probe db₀ = .ok (some plan) →
      ReachableWith (runStep S answers plan) RunLooksOpen (plan.start db₀) s →
      (∀ queue h, .failed queue h ∉ s.events) → ∀ e ∈ s.events, e.reportsStop = false) := by
  constructor
  · intro β cfg stop start hearly
    refine ⟨fun s hs hlook _ => look_reports_iff hs hlook, ?_⟩
    intro s result hs hret hhandler
    have hres : s.consumer.result? = some result := by rw [hret]; rfl
    refine result_cases hs.reachable hearly hres hhandler ?_
    rintro rfl
    exact result_of_looksOpen hearly hs hres
  · intro hrun hs hfailed e he
    obtain ⟨earliest, hplan, rfl⟩ := Syncer.run_eq_plan hrun
    by_contra hstop
    obtain ⟨queue, h, hmem⟩ := (noneClosed_of_looksOpen hplan hs).reports e he (by simpa using hstop)
    exact hfailed queue h hmem

def leaveOnStream : List CallAction :=
  [.getter (.announcer .check), .getter (.consumer .streamClosed), .getter (.consumer .signal),
    .getter (.consumer .close)]

/-- A start with one gap, cancelled in the gap.  The consumer looks first. -/
theorem cancellation_reported_early :
    ∃ s, ReachableWith (runStep sampleSyncer anyBlockOf ⟨[⟨1, 3⟩], 3, true⟩) RunLooksOpen
        (Plan.start ⟨[⟨1, 3⟩], 3, true⟩ ∅) s ∧
      s.canceled = true ∧ s.events = [.gapEnded ⟨1, 3⟩ .ctxErr] ∧
      ∀ e ∈ s.events, e.reportsStop = false := by
  have hrun : sampleSyncer.run 0 ⟨0, 3, by decide⟩ .block ∅ = .ok (some ⟨[⟨1, 3⟩], 3, true⟩) := by
    decide +kernel
  have h₀ : ReachableWith (runStep sampleSyncer anyBlockOf ⟨[⟨1, 3⟩], 3, true⟩) RunLooksOpen
    (Plan.start ⟨[⟨1, 3⟩], 3, true⟩ ∅) _ := .init
  have h₁ := h₀.step RunAction.nextGap trivial rfl
  have h₂ := h₁.step RunAction.cancel trivial rfl
  have h₃ := h₂.step (.gap (.getter (.consumer .ctxDone)))
    (by rintro _ _ _ ⟨⟩ _ ⟨-, hend⟩; cases hend) rfl
  have h₄ := h₃.step (.gap (.getter (.consumer .signal)))
    (by rintro _ _ _ ⟨⟩ ⟨hc, -⟩; cases hc) rfl
  have h₅ := h₄.step (.gap (.getter (.consumer .close)))
    (by rintro _ _ _ ⟨⟩ ⟨hc, -⟩; cases hc) rfl
  have hs := h₅.step RunAction.gapReturn trivial rfl
  refine ⟨_, hs, rfl, rfl, ?_⟩
  refine (cancellation_reported sampleSyncer anyBlockOf 0 ⟨0, 3, by decide⟩ .block ∅ _ _).2 hrun hs ?_
  intro queue h hmem
  cases List.mem_singleton.mp hmem

/-- The announcer looks first: the gap and then the forward sync are reported as stopped, although
they were only cancelled. -/
theorem cancellation_reported_as_stop :
    sampleSyncer.run 0 ⟨0, 3, by decide⟩ .block ∅ = .ok (some ⟨[⟨1, 3⟩], 3, true⟩) ∧
      ∃ s, RunReaches sampleSyncer anyBlockOf ⟨[⟨1, 3⟩], 3, true⟩ ∅ s ∧ s.canceled = true ∧
        s.events = [.gapEnded ⟨1, 3⟩ .streamClosed, .tipEnded .streamClosed] ∧
        s.events.map SyncEvent.reportsStop = [true, true] := by
  refine ⟨by decide +kernel, _, Reachable.init.perform (l := [.nextGap, .cancel] ++
    leaveOnStream.map .gap ++ [.gapReturn, .startTip] ++ leaveOnStream.map .tip ++ [.tipReturn]) rfl,
    rfl, rfl, rfl⟩

end EvmGateway
