import EvmGateway.Backend.FeeHistory
import EvmGateway.Lib.Interleaving
import EvmGateway.Lib.Lists

/-!
# The goroutines of a fee history

`eth_feeHistory` starts the goroutines of a batch, and one that waits for all of them; then it
waits for a report on an unbuffered channel or for the end of the batch.  After a report it
returns, and nobody reads the channel any more: a second goroutine that has something to report
stays at the channel, and the one that waits for the batch stays with it.  What a goroutine reports
may be no error, and then the request is answered with neither a result nor an error.

So the goroutines all end, and a failure is returned as an error, only if the first batch with a
failure has a single one that is reported with an error.

## Main definitions

* `FetchState.step` — the request and its goroutines, one action at a time.
* `SoundBatches` — the condition on how the goroutines end.

## Main statements

* `FetchState.valid_of_reachable` — the invariant of all interleavings.
* `fee_fetchers_end_iff` — the condition is what it takes.
-/

namespace EvmGateway

open Lib

variable {result : FeeReturn} {g : Goroutine} {later : List (List FetchOutcome)}

/-! ## Interleavings -/

/-- What a goroutine reports on the channel.  A panic is recovered and reported. -/
def FetchOutcome.report : FetchOutcome → Option (Option Err)
  | .success _ => none
  | .failure report => some report
  | .panicked message => some (some (.plain (message ++ ": panic")))

/-- Where a goroutine is. -/
inductive FetchStatus where
  /-- it fetches its block -/
  | running
  /-- it is at the channel with a report -/
  | sending (report : Option Err)
  /-- it only has to leave the wait group -/
  | finishing
  | done
  deriving DecidableEq

/-- The goroutine of a block. -/
structure Goroutine where
  outcome : FetchOutcome
  status : FetchStatus
  deriving DecidableEq

/-- How the request returns. -/
inductive FeeReturn where
  /-- with its rows -/
  | answer
  /-- without rows, with what was reported -/
  | reported (report : Option Err)
  deriving DecidableEq

/-- Where the request is. -/
inductive FeeMain where
  /-- it has goroutines of the batch left to start -/
  | spawning (pending : List FetchOutcome)
  /-- it waits for a report or for the end of the batch -/
  | selecting
  | returned (result : FeeReturn)
  deriving DecidableEq

/-- Where the goroutine is that waits for the batch. -/
inductive FeeWaiter where
  | notStarted
  | waiting
  | done
  deriving DecidableEq

/-- The request and the goroutines it started. -/
structure FetchState where
  main : FeeMain
  /-- the goroutines of the batch -/
  fetchers : List Goroutine
  waiter : FeeWaiter
  /-- the batches that are left -/
  later : List (List FetchOutcome)
  /-- the goroutines of the batches before -/
  earlier : List Goroutine
  deriving DecidableEq

/-- What can happen next. -/
inductive FetchAction where
  /-- the request starts the next goroutine -/
  | spawn
  /-- a goroutine is through with its block -/
  | work (i : ℕ)
  /-- a goroutine hands its report over to the request -/
  | report (i : ℕ)
  /-- a goroutine leaves the wait group -/
  | finish (i : ℕ)
  /-- the wait group is empty -/
  | close
  /-- the request learns that the batch has ended -/
  | next
  deriving DecidableEq

/-- Where a goroutine is when it is through with its block. -/
def FetchOutcome.worked (o : FetchOutcome) : FetchStatus :=
  match o.report with
  | some report => .sending report
  | none => .finishing

namespace FetchState

def begin (earlier : List Goroutine) : List (List FetchOutcome) → FetchState
  | [] => ⟨.returned .answer, [], .done, [], earlier⟩
  | batch :: later => ⟨.spawning batch, [], .notStarted, later, earlier⟩

/-- A goroutine of the batch goes on. -/
def move (s : FetchState) (i : ℕ) (g : Goroutine) (status : FetchStatus) : FetchState :=
  { s with fetchers := s.fetchers.set i { g with status := status } }

def step (s : FetchState) : FetchAction → Option FetchState
  | .spawn =>
    match s.main with
    | .spawning (outcome :: pending) =>
      some { s with main := .spawning pending, fetchers := s.fetchers ++ [⟨outcome, .running⟩] }
    | .spawning [] => some { s with main := .selecting, waiter := .waiting }
    | _ => none
  | .work i =>
    match s.fetchers[i]? with
    | some g => if g.status = .running then some (s.move i g g.outcome.worked) else none
    | none => none
  | .report i =>
    match s.fetchers[i]?, s.main with
    | some g, .selecting =>
      match g.status with
      | .sending report => some { s.move i g .finishing with main := .returned (.reported report) }
      | _ => none
    | _, _ => none
  | .finish i =>
    match s.fetchers[i]? with
    | some g => if g.status = .finishing then some (s.move i g .done) else none
    | none => none
  | .close =>
    if s.waiter = .waiting ∧ ∀ g ∈ s.fetchers, g.status = .done then
      some { s with waiter := .done }
    else none
  | .next =>
    if s.main = .selecting ∧ s.waiter = .done then
      some (begin (s.earlier ++ s.fetchers) s.later)
    else none

/-- What an action does. -/
inductive Step (s : FetchState) : FetchState → Prop
  | spawn {outcome : FetchOutcome} {pending : List FetchOutcome}
      (hmain : s.main = .spawning (outcome :: pending)) :
      Step s { s with main := .spawning pending, fetchers := s.fetchers ++ [⟨outcome, .running⟩] }
  | wait (hmain : s.main = .spawning []) : Step s { s with main := .selecting, waiter := .waiting }
  | work {before after : List Goroutine} {g : Goroutine} (hf : s.fetchers = before ++ g :: after)
      (hg : g.status = .running) :
      Step s { s with fetchers := before ++ ⟨g.outcome, g.outcome.worked⟩ :: after }
  | report {before after : List Goroutine} {g : Goroutine} {report : Option Err}
      (hf : s.fetchers = before ++ g :: after) (hmain : s.main = .selecting)
      (hg : g.status = .sending report) :
      Step s { s with
        main := .returned (.reported report)
        fetchers := before ++ ⟨g.outcome, .finishing⟩ :: after }
  | finish {before after : List Goroutine} {g : Goroutine} (hf : s.fetchers = before ++ g :: after)
      (hg : g.status = .finishing) :
      Step s { s with fetchers := before ++ ⟨g.outcome, .done⟩ :: after }
  | close (hwaiter : s.waiter = .waiting) (hall : ∀ g ∈ s.fetchers, g.status = .done) :
      Step s { s with waiter := .done }
  | next (hmain : s.main = .selecting) (hwaiter : s.waiter = .done) :
      Step s (begin (s.earlier ++ s.fetchers) s.later)

variable {s s' : FetchState} {batches : List (List FetchOutcome)}

theorem step_eq_some {a : FetchAction} (h : s.step a = some s') : s.Step s' := by
  cases a with
  | spawn =>
    simp only [step] at h
    split at h <;> cases h
    · exact .spawn ‹_›
    · exact .wait ‹_›
  | work i =>
    simp only [step] at h
    split at h
    case h_1 g hi =>
      split_ifs at h with hg
      cases h
      obtain ⟨before, after, hf, hset⟩ := split_of_getElem? hi
      simpa only [move, hset] using Step.work hf hg
    case h_2 => cases h
  | report i =>
    simp only [step] at h
    split at h
    case h_1 g hi hmain =>
      split at h
      case h_1 report hg =>
        cases h
        obtain ⟨before, after, hf, hset⟩ := split_of_getElem? hi
        simpa only [move, hset] using Step.report hf hmain hg
      case h_2 => cases h
    case h_2 => cases h
  | finish i =>
    simp only [step] at h
    split at h
    case h_1 g hi =>
      split_ifs at h with hg
      cases h
      obtain ⟨before, after, hf, hset⟩ := split_of_getElem? hi
      simpa only [move, hset] using Step.finish hf hg
    case h_2 => cases h
  | close =>
    simp only [step] at h
    split_ifs at h with hall
    cases h
    exact .close hall.1 hall.2
  | next =>
    simp only [step] at h
    split_ifs at h with hmain
    cases h
    exact .next hmain.1 hmain.2

/-! ## Every interleaving ends -/

/-- How far a goroutine is from its end. -/
def rankOf (g : Goroutine) : ℕ :=
  match g.status with
  | .running => 3
  | .sending _ => 2
  | .finishing => 1
  | .done => 0

/-- How far the request is from its end, within the batch. -/
def mainRank : FeeMain → ℕ
  | .spawning pending => 4 * pending.length + 5
  | .selecting => 2
  | .returned _ => 0

/-- How many actions are left at most. -/
def rank (s : FetchState) : ℕ :=
  (s.fetchers.map rankOf).sum + mainRank s.main + (if s.waiter = .waiting then 1 else 0) +
    (s.later.map fun batch => 4 * batch.length + 5).sum

theorem rankOf_worked (o : FetchOutcome) : rankOf ⟨o, o.worked⟩ < 3 := by
  cases h : o.report <;> simp [rankOf, FetchOutcome.worked, h]

theorem Step.rank_lt (h : s.Step s') : s'.rank < s.rank := by
  cases h with
  | spawn hmain =>
    simp [rank, hmain, mainRank, rankOf]
    omega
  | wait hmain =>
    simp [rank, hmain, mainRank]
    omega
  | @work before after g hf hg =>
    have hlt := rankOf_worked g.outcome
    have hrunning : rankOf g = 3 := by simp [rankOf, hg]
    simp [rank, hf]
    omega
  | @report before after g report hf hmain hg =>
    have hsending : rankOf g = 2 := by simp [rankOf, hg]
    have hfinishing : rankOf ⟨g.outcome, .finishing⟩ = 1 := rfl
    simp [rank, hf, hmain, mainRank]
    omega
  | @finish before after g hf hg =>
    have hfinishing : rankOf g = 1 := by simp [rankOf, hg]
    have hdone : rankOf ⟨g.outcome, .done⟩ = 0 := rfl
    simp [rank, hf]
    omega
  | close hwaiter hall =>
    simp [rank, hwaiter]
  | next hmain hwaiter =>
    cases hlater : s.later <;> simp [rank, begin, hmain, hwaiter, hlater, mainRank]

theorem rank_lt_of_step (s s' : FetchState) (a : FetchAction) (h : s.step a = some s') :
    s'.rank < s.rank :=
  (step_eq_some h).rank_lt

/-! ## The invariant -/

end FetchState

/-- The first batch with a report has a single one, and it is an error. -/
def SoundBatches : List (List FetchOutcome) → Prop
  | [] => True
  | batch :: later =>
    match batch.filterMap FetchOutcome.report with
    | [] => SoundBatches later
    | [some _] => True
    | _ => False

theorem soundBatches_of_quiet {batch : List FetchOutcome}
    (h : batch.filterMap FetchOutcome.report = []) :
    SoundBatches (batch :: later) ↔ SoundBatches later := by
  rw [SoundBatches, h]

theorem soundBatches_of_report {batch : List FetchOutcome}
    (h : batch.filterMap FetchOutcome.report ≠ []) :
    SoundBatches (batch :: later) ↔ ∃ e, batch.filterMap FetchOutcome.report = [some e] := by
  rw [SoundBatches]
  split
  · exact absurd ‹_› h
  · simp_all
  · rename_i hne
    simp only [false_iff, not_exists]
    exact hne

/-- What a goroutine has handed over. -/
def Goroutine.sent (g : Goroutine) : Option (Option Err) :=
  match g.status with
  | .running | .sending _ => none
  | .finishing | .done => g.outcome.report

theorem Goroutine.sent_eq_none_or (g : Goroutine) :
    g.sent = none ∨ g.sent = (FetchOutcome.report ∘ Goroutine.outcome) g := by
  cases h : g.status <;> simp [Goroutine.sent, h]

namespace FetchState

variable {s s' : FetchState} {batches : List (List FetchOutcome)}

/-- The goroutines of the batch that are left to start. -/
def pending (s : FetchState) : List FetchOutcome :=
  match s.main with
  | .spawning pending => pending
  | _ => []

/-- What the request has read from the channel. -/
def received (s : FetchState) : List (Option Err) :=
  match s.main with
  | .returned (.reported report) => [report]
  | _ => []

/-- The invariant of all interleavings. -/
structure Valid (batches : List (List FetchOutcome)) (s : FetchState) : Prop where
  /-- the batches before had no reports -/
  sound_iff : SoundBatches batches ↔
    SoundBatches ((s.fetchers.map (·.outcome) ++ s.pending) :: s.later)
  /-- their goroutines have ended -/
  earlier : ∀ g ∈ s.earlier, g.outcome.report = none ∧ g.status = .done
  waiter : s.waiter = .notStarted ↔ ∃ pending, s.main = .spawning pending
  closed : s.waiter = .done → ∀ g ∈ s.fetchers, g.status = .done
  sending : ∀ g ∈ s.fetchers, ∀ report, g.status = .sending report → g.outcome.report = some report
  /-- every report handed over was read -/
  sent : s.fetchers.filterMap Goroutine.sent = s.received
  answered : s.main = .returned .answer → s.fetchers = [] ∧ s.later = [] ∧ s.waiter = .done

theorem valid_begin {earlier : List Goroutine}
    (hsound : SoundBatches batches ↔ SoundBatches later)
    (hearlier : ∀ g ∈ earlier, g.outcome.report = none ∧ g.status = .done) :
    (begin earlier later).Valid batches := by
  cases later with
  | nil =>
    constructor <;> simp [begin, pending, received, SoundBatches] at hsound ⊢
    · exact hsound
    · exact hearlier
  | cons batch later =>
    constructor <;> simp [begin, pending, received, hsound]
    exact hearlier

theorem sent_of_done (h : g.status = .done) : g.sent = g.outcome.report := by
  simp [Goroutine.sent, h]

theorem Valid.reports_of_done (h : s.Valid batches) (hall : ∀ g ∈ s.fetchers, g.status = .done) :
    (s.fetchers.map (·.outcome)).filterMap FetchOutcome.report = s.received := by
  rw [List.filterMap_map, ← h.sent]
  exact List.filterMap_congr fun g hg => (sent_of_done (hall g hg)).symm

theorem sent_worked (o : FetchOutcome) : Goroutine.sent ⟨o, o.worked⟩ = none := by
  cases h : o.report <;> simp [Goroutine.sent, FetchOutcome.worked, h]

theorem report_of_worked {o : FetchOutcome} {report : Option Err}
    (h : o.worked = .sending report) : o.report = some report := by
  cases ho : o.report <;> simp_all [FetchOutcome.worked]

/-- A fact about all goroutines of the batch when one of them has gone on. -/
theorem forall_mem_replaced {P : Goroutine → Prop} {before after : List Goroutine}
    {g' : Goroutine} (hf : s.fetchers = before ++ g :: after) (h : ∀ x ∈ s.fetchers, P x)
    (hg' : P g') : ∀ x ∈ before ++ g' :: after, P x := by
  intro x hx
  rcases List.mem_append.1 hx with hx | hx
  · exact h x (by simp [hf, hx])
  · rcases List.mem_cons.1 hx with rfl | hx
    · exact hg'
    · exact h x (by simp [hf, hx])

theorem Valid.of_step (h : s.Valid batches) (hstep : s.Step s') : s'.Valid batches := by
  cases hstep with
  | @spawn outcome rest hmain =>
    have hwaiter : s.waiter = .notStarted := h.waiter.2 ⟨_, hmain⟩
    have hsound := h.sound_iff
    have hsent := h.sent
    simp only [pending, received, hmain] at hsound hsent
    constructor
    · simpa [pending] using hsound
    · exact h.earlier
    · simp [hwaiter]
    · simp [hwaiter]
    · simpa [or_imp, forall_and] using h.sending
    · simpa [received, Goroutine.sent] using hsent
    · simp
  | wait hmain =>
    have hsound := h.sound_iff
    have hsent := h.sent
    simp only [pending, received, hmain] at hsound hsent
    constructor
    · simpa [pending] using hsound
    · exact h.earlier
    · simp
    · simp
    · exact h.sending
    · simpa [received] using hsent
    · simp
  | @work before after g hf hg =>
    refine ⟨h.sound_iff.trans (by simp [pending, hf]), h.earlier, h.waiter, ?_, ?_, ?_, ?_⟩
    · exact fun hdone => absurd (h.closed hdone g (by simp [hf])) (by simp [hg])
    · exact forall_mem_replaced hf h.sending fun report => report_of_worked
    · have hnone : g.sent = none := by simp [Goroutine.sent, hg]
      have hsent := h.sent
      rw [hf] at hsent
      simpa [hnone, sent_worked, received] using hsent
    · exact fun hmain => absurd (h.answered hmain).1 (by simp [hf])
  | @report before after g report hf hmain hg =>
    refine ⟨h.sound_iff.trans (by simp [pending, hf, hmain]), h.earlier, ?_, ?_, ?_, ?_, by simp⟩
    · simpa [hmain] using h.waiter
    · exact fun hdone => absurd (h.closed hdone g (by simp [hf])) (by simp [hg])
    · exact forall_mem_replaced hf h.sending (by simp)
    · have hreport : g.outcome.report = some report := h.sending g (by simp [hf]) report hg
      have hnone : g.sent = none := by simp [Goroutine.sent, hg]
      have hsent := h.sent
      simp only [hf, received, hmain, List.filterMap_append, List.filterMap_cons, hnone,
        List.append_eq_nil_iff] at hsent
      simp [received, hsent, Goroutine.sent, hreport]
  | @finish before after g hf hg =>
    refine ⟨h.sound_iff.trans (by simp [pending, hf]), h.earlier, h.waiter, ?_, ?_, ?_, ?_⟩
    · exact fun hdone => absurd (h.closed hdone g (by simp [hf])) (by simp [hg])
    · exact forall_mem_replaced hf h.sending (by simp)
    · have hsame : Goroutine.sent ⟨g.outcome, .done⟩ = g.sent := by simp [Goroutine.sent, hg]
      have hsent := h.sent
      rw [hf] at hsent
      simpa [hsame, received, List.filterMap_cons] using hsent
    · exact fun hmain => absurd (h.answered hmain).1 (by simp [hf])
  | close hwaiter hall =>
    refine ⟨h.sound_iff, h.earlier, ?_, fun _ => hall, h.sending, h.sent, ?_⟩
    · simpa [hwaiter] using h.waiter
    · exact fun hmain => absurd (h.answered hmain).2.2 (by simp [hwaiter])
  | next hmain hwaiter =>
    have hall := h.closed hwaiter
    have hquiet : (s.fetchers.map (·.outcome)).filterMap FetchOutcome.report = [] := by
      simpa [received, hmain] using h.reports_of_done hall
    apply valid_begin
    · have hsound := h.sound_iff
      simp only [pending, hmain, List.append_nil] at hsound
      exact hsound.trans (soundBatches_of_quiet hquiet)
    · intro g hg
      rcases List.mem_append.1 hg with hg | hg
      · exact h.earlier g hg
      · refine ⟨?_, hall g hg⟩
        exact List.filterMap_eq_nil_iff.1 hquiet _ (List.mem_map_of_mem hg)

theorem valid_of_reachable (h : Reachable step (begin [] batches) s) : s.Valid batches :=
  h.invariant (valid_begin Iff.rfl (by simp)) fun _ _ _ hv hstep => hv.of_step (step_eq_some hstep)

/-! ## Where interleavings end -/

/-- The goroutines that were started have ended. -/
def Ended (s : FetchState) : Prop :=
  (∀ g ∈ s.earlier ++ s.fetchers, g.status = .done) ∧ s.waiter = .done

/-- A goroutine that cannot go on has ended, or is at the channel. -/
theorem done_or_sending_of_final (hfinal : Final step s) (hg : g ∈ s.fetchers) :
    g.status = .done ∨ ∃ report, g.status = .sending report := by
  obtain ⟨i, hi⟩ := List.mem_iff_getElem?.1 hg
  cases hstatus : g.status with
  | running =>
    have hwork := hfinal (.work i)
    simp [step, hi, hstatus] at hwork
  | sending report => exact .inr ⟨report, rfl⟩
  | finishing =>
    have hfinish := hfinal (.finish i)
    simp [step, hi, hstatus] at hfinish
  | done => exact .inl rfl

theorem waiter_ne_waiting_of_final (hfinal : Final step s)
    (hall : ∀ g ∈ s.fetchers, g.status = .done) : s.waiter ≠ .waiting := by
  intro hwaiter
  have hclose := hfinal .close
  rw [step, if_pos ⟨hwaiter, hall⟩] at hclose
  cases hclose

/-- The request has returned when nothing can happen any more. -/
theorem Valid.returned_of_final (h : s.Valid batches) (hfinal : Final step s) :
    ∃ result, s.main = .returned result := by
  cases hmain : s.main with
  | spawning pending =>
    have hspawn := hfinal .spawn
    cases pending <;> simp [step, hmain] at hspawn
  | selecting =>
    exfalso
    have hall : ∀ g ∈ s.fetchers, g.status = .done := by
      intro g hg
      obtain hdone | ⟨report, hsending⟩ := done_or_sending_of_final hfinal hg
      · exact hdone
      · -- the request is there to read the report
        obtain ⟨i, hi⟩ := List.mem_iff_getElem?.1 hg
        have hreport := hfinal (.report i)
        simp [step, hi, hmain, hsending] at hreport
    have hnext := hfinal .next
    cases hwaiter : s.waiter with
    | notStarted =>
      obtain ⟨pending, hspawning⟩ := h.waiter.1 hwaiter
      simp [hmain] at hspawning
    | waiting => exact waiter_ne_waiting_of_final hfinal hall hwaiter
    | done => simp [step, hmain, hwaiter] at hnext
  | returned result => exact ⟨result, rfl⟩

/-- If all goroutines of the batch have ended where nothing can happen any more, all have. -/
theorem Valid.ended_of_final (h : s.Valid batches) (hfinal : Final step s)
    (hall : ∀ g ∈ s.fetchers, g.status = .done) : s.Ended := by
  constructor
  · intro g hg
    rcases List.mem_append.1 hg with hg | hg
    · exact (h.earlier g hg).2
    · exact hall g hg
  · obtain ⟨result, hmain⟩ := h.returned_of_final hfinal
    cases hwaiter : s.waiter with
    | notStarted =>
      obtain ⟨pending, hspawning⟩ := h.waiter.1 hwaiter
      simp [hmain] at hspawning
    | waiting => exact absurd hwaiter (waiter_ne_waiting_of_final hfinal hall)
    | done => rfl

theorem Valid.sound_iff_of_returned (h : s.Valid batches) (hmain : s.main = .returned result) :
    SoundBatches batches ↔ SoundBatches (s.fetchers.map (·.outcome) :: s.later) := by
  simpa [pending, hmain] using h.sound_iff

theorem Valid.mem_reports (h : s.Valid batches) {report : Option Err}
    (hmain : s.main = .returned (.reported report)) :
    report ∈ (s.fetchers.map (·.outcome)).filterMap FetchOutcome.report := by
  have hmem : report ∈ s.fetchers.filterMap Goroutine.sent := by simp [h.sent, received, hmain]
  obtain ⟨g, hg, hsent⟩ := List.mem_filterMap.1 hmem
  refine List.mem_filterMap.2 ⟨g.outcome, List.mem_map_of_mem hg, ?_⟩
  rcases g.sent_eq_none_or with hnone | hreport
  · simp [hnone] at hsent
  · exact hreport.symm.trans hsent

end FetchState

/-! ## The claim on all interleavings -/

/-- A failure of a started goroutine is returned as an error, the request returns, and then all
goroutines it started end, in every interleaving that goes on as long as it can. -/
structure FetchersSound (batches : List (List FetchOutcome)) : Prop where
  error : ∀ s, Reachable FetchState.step (.begin [] batches) s →
    ∀ result, s.main = .returned result →
      (∃ g ∈ s.earlier ++ s.fetchers, g.outcome.report ≠ none) →
        ∃ e, result = .reported (some e)
  returns : ∀ ρ : Execution FetchState.step, ρ.state 0 = .begin [] batches → ρ.NeverStalls →
    ∃ t result, (ρ.state t).main = .returned result
  ends : ∀ ρ : Execution FetchState.step, ρ.state 0 = .begin [] batches → ρ.NeverStalls →
    ∀ t result, (ρ.state t).main = .returned result → ∃ u, t ≤ u ∧ (ρ.state u).Ended

section Sound

variable {batches : List (List FetchOutcome)} {s : FetchState}

theorem valid_of_execution {ρ : Execution FetchState.step}
    (h : ρ.state 0 = .begin [] batches) (t : ℕ) : (ρ.state t).Valid batches :=
  FetchState.valid_of_reachable (h ▸ ρ.reachable t)

/-- Under the condition a failure is returned as an error. -/
theorem error_of_soundBatches (h : SoundBatches batches) (hv : s.Valid batches)
    (hmain : s.main = .returned result)
    (hfailed : ∃ g ∈ s.earlier ++ s.fetchers, g.outcome.report ≠ none) :
    ∃ e, result = .reported (some e) := by
  cases result with
  | answer =>
    obtain ⟨g, hg, hreport⟩ := hfailed
    rw [(hv.answered hmain).1, List.append_nil] at hg
    exact absurd (hv.earlier g hg).1 hreport
  | reported report =>
    have hmem := hv.mem_reports hmain
    obtain ⟨e, he⟩ := (soundBatches_of_report (List.ne_nil_of_mem hmem)).1
      ((hv.sound_iff_of_returned hmain).1 h)
    rw [he, List.mem_singleton] at hmem
    exact ⟨e, by rw [hmem]⟩

/-- Under the condition no goroutine stays at the channel. -/
theorem ended_of_soundBatches (h : SoundBatches batches) (hv : s.Valid batches)
    (hfinal : Final FetchState.step s) : s.Ended := by
  apply hv.ended_of_final hfinal
  intro g hg
  obtain hdone | ⟨left, hsending⟩ := FetchState.done_or_sending_of_final hfinal hg
  · exact hdone
  obtain ⟨result, hmain⟩ := hv.returned_of_final hfinal
  have hleft : g.outcome.report = some left := hv.sending g hg left hsending
  cases result with
  | answer => simp [(hv.answered hmain).1] at hg
  | reported report =>
    exfalso
    -- the batch has the report that was read and the one that is left
    have hmem := hv.mem_reports hmain
    obtain ⟨e, he⟩ := (soundBatches_of_report (List.ne_nil_of_mem hmem)).1
      ((hv.sound_iff_of_returned hmain).1 h)
    have hlt := length_filterMap_lt Goroutine.sent_eq_none_or hg (by simp [Goroutine.sent, hsending])
      (by simp [hleft])
    rw [← List.filterMap_map, he, hv.sent] at hlt
    simp [FetchState.received, hmain] at hlt

/-- Where all goroutines have ended and a failure was returned as an error, the condition holds. -/
theorem soundBatches_of_ended (hv : s.Valid batches) (hended : s.Ended)
    (hmain : s.main = .returned result)
    (herror : (∃ g ∈ s.earlier ++ s.fetchers, g.outcome.report ≠ none) →
      ∃ e, result = .reported (some e)) : SoundBatches batches := by
  rw [hv.sound_iff_of_returned hmain]
  have hreports := hv.reports_of_done fun g hg => hended.1 g (by simp [hg])
  cases result with
  | answer =>
    have hanswered := hv.answered hmain
    simp [hanswered, SoundBatches]
  | reported report =>
    have hmem := hv.mem_reports hmain
    obtain ⟨o, ho, hreport⟩ := List.mem_filterMap.1 hmem
    obtain ⟨g, hg, rfl⟩ := List.mem_map.1 ho
    obtain ⟨e, he⟩ := herror ⟨g, by simp [hg], by simp [hreport]⟩
    rw [soundBatches_of_report (List.ne_nil_of_mem hmem)]
    refine ⟨e, hreports.trans ?_⟩
    simp [FetchState.received, hmain, FeeReturn.reported.inj he]

/-- A run to where nothing can happen any more leads to where all goroutines have ended. -/
theorem FetchersSound.ended (h : FetchersSound batches) {l : List FetchAction}
    (hl : perform FetchState.step (.begin [] batches) l = some s)
    (hfinal : Final FetchState.step s) : s.Ended := by
  have hsome : (perform FetchState.step (.begin [] batches) l).isSome = true := by simp [hl]
  have hlast : ∀ t, l.length ≤ t →
      (Execution.ofRun (FetchState.begin [] batches) l hsome).state t = s := by
    intro t ht
    simp [Execution.ofRun, List.take_of_length_le ht, hl]
  have hlive := Execution.ofRun_neverStalls hsome (by rw [hlast _ le_rfl]; exact hfinal)
  have hv := FetchState.valid_of_reachable (Reachable.init.perform hl)
  obtain ⟨result, hmain⟩ := hv.returned_of_final hfinal
  obtain ⟨u, hu, hended⟩ := h.ends _ rfl hlive l.length result (by rw [hlast _ le_rfl]; exact hmain)
  rwa [hlast u hu] at hended

/-- In every interleaving a failure is returned as an error and all goroutines end, exactly when
the first batch with a failure has a single one that is reported with an error. -/
theorem fee_fetchers_end_iff (batches : List (List FetchOutcome)) :
    FetchersSound batches ↔ SoundBatches batches := by
  constructor
  · intro h
    -- some interleaving goes on as long as it can
    obtain ⟨l, s, hl, hfinal⟩ :=
      exists_final FetchState.rank FetchState.rank_lt_of_step (.begin [] batches)
    have hreach : Reachable FetchState.step (.begin [] batches) s := Reachable.init.perform hl
    have hv := FetchState.valid_of_reachable hreach
    obtain ⟨result, hmain⟩ := hv.returned_of_final hfinal
    exact soundBatches_of_ended hv (h.ended hl hfinal) hmain (h.error s hreach result hmain)
  · intro h
    constructor
    · intro s hs result hmain hfailed
      exact error_of_soundBatches h (FetchState.valid_of_reachable hs) hmain hfailed
    · intro ρ hρ hlive
      obtain ⟨t, -, hfinal⟩ := hlive.reaches_final FetchState.rank FetchState.rank_lt_of_step 0
      exact ⟨t, (valid_of_execution hρ t).returned_of_final hfinal⟩
    · intro ρ hρ hlive t result hmain
      obtain ⟨u, hu, hfinal⟩ := hlive.reaches_final FetchState.rank FetchState.rank_lt_of_step t
      exact ⟨u, hu, ended_of_soundBatches h (valid_of_execution hρ u) hfinal⟩

end Sound

/-- How the goroutines of batches end on a backend. -/
def Backend.feeOutcomes (E : Env) (b : Backend) (rewardPercentiles : List ℚ)
    (batches : List (List Fetcher)) : List (List FetchOutcome) :=
  batches.map fun batch => batch.map fun f => b.feeFetcher E rewardPercentiles f.blockNum

/-- The node cannot be asked for two blocks of a batch: the first failure is returned, the second
stays at the channel. -/
def leaked : FetchState where
  main := .returned (.reported (some (.plain "rpc client is nil")))
  fetchers := [⟨.failure (some (.plain "rpc client is nil")), .done⟩,
    ⟨.failure (some (.plain "rpc client is nil")), .sending (some (.plain "rpc client is nil"))⟩]
  waiter := .waiting
  later := []
  earlier := []

theorem final_leaked : Final FetchState.step leaked := by
  rintro (_ | (_ | _ | i) | (_ | _ | i) | (_ | _ | i) | _ | _) <;> rfl

/-- A request for two blocks without a node leaks two goroutines.  And a block that is missing
without an error is answered with neither rows nor an error. -/
theorem fee_fetchers_leak :
    perform FetchState.step
        (.begin [] ((Backend.sample none none).feeOutcomes Env.sample [] [[⟨0, 4⟩, ⟨1, 5⟩]]))
        [.spawn, .spawn, .spawn, .work 0, .work 1, .report 0, .finish 0] = some leaked ∧
      ¬ leaked.Ended ∧
      ¬ FetchersSound
        ((Backend.sample none none).feeOutcomes Env.sample [] [[⟨0, 4⟩, ⟨1, 5⟩]]) ∧
      (perform FetchState.step (.begin [] [[.failure none]])
        [.spawn, .spawn, .work 0, .report 0]).map (·.main) = some (.returned (.reported none)) ∧
      ¬ FetchersSound [[.failure none]] := by
  have hrun : perform FetchState.step
      (.begin [] ((Backend.sample none none).feeOutcomes Env.sample [] [[⟨0, 4⟩, ⟨1, 5⟩]]))
      [.spawn, .spawn, .spawn, .work 0, .work 1, .report 0, .finish 0] = some leaked := by
    decide +kernel
  have hleak : ¬ leaked.Ended := fun h => absurd h.2 (by decide)
  refine ⟨hrun, hleak, fun h => hleak (h.ended hrun final_leaked), by decide +kernel, ?_⟩
  intro h
  obtain ⟨s, hs⟩ : ∃ s, perform FetchState.step (.begin [] [[.failure none]])
      [.spawn, .spawn, .work 0, .report 0] = some s := ⟨_, rfl⟩
  obtain rfl := Option.some.inj hs
  obtain ⟨e, he⟩ := h.error _ (Reachable.init.perform hs) _ rfl
    ⟨_, List.mem_singleton_self _, by decide⟩
  simp at he

end EvmGateway
