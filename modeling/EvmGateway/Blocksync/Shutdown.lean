import EvmGateway.Blocksync.Progress

/-!
# Shutdown

Once the getter is done, workers and announcer are meant to return.  Three places have no
check of `isDone`: the announcer in `jobCond.Wait()`, the announcer that sends into the
channel, and a worker that waits for the map to shrink.  `Close` signals the announcer before
it closes `closeC` and without the lock, and a cancelled context signals nobody, so the
announcer can be left waiting; a full channel keeps it in its send once nobody receives; and
once it has returned, a map above the limit never shrinks.

`State.Drains` excludes the three.  In a fair run of a getter that is done, with nobody
receiving, the goroutines return exactly if `Drains` holds at some time (`shutdown_iff`): from
then on every action of a worker or the announcer brings it closer to its end.
-/

namespace EvmGateway.Blocksync

open Lib

variable {β : Type} {cfg : Syncer} {stop : Option ℤ} {start : ℤ} {s s' : State β}

/-- Whether a worker may still deposit a block once the getter is done. -/
def Worker.isPending : Worker β → Bool
  | .fetching _ | .deposit _ _ => true
  | _ => false

def State.Stopped (s : State β) : Prop :=
  (∀ x ∈ s.workers, x = .exited) ∧ s.announcer = .exited

/-- Nothing is in the way of the goroutines: the announcer neither waits nor is about to,
there is room for the block it may send, and the map stays within the limit of the workers. -/
structure State.Drains (cfg : Syncer) (s : State β) : Prop where
  awake : s.announcer ≠ .parking ∧ s.announcer ≠ .waiting
  room : s.announcer = .lookup ∨ (∃ ev, s.announcer = .sending ev) →
    s.newBlocksC.length < cfg.channelCap
  slack : s.newBlocksMap.size + s.workers.countP Worker.isPending ≤ 1024 * cfg.jobs

theorem State.Stopped.drains (hs : s.Stopped) (hb : s.Bounded cfg) : s.Drains cfg := by
  obtain ⟨hworkers, ha⟩ := hs
  refine ⟨by simp [ha], by simp [ha], ?_⟩
  have hheld : s.workers.countP Worker.isHeld = 0 :=
    List.countP_eq_zero.mpr fun x hx => by rw [hworkers x hx]; nofun
  have hpending : s.workers.countP Worker.isPending = 0 :=
    List.countP_eq_zero.mpr fun x hx => by rw [hworkers x hx]; nofun
  have hsize := hb.2
  omega

/-! ## One action -/

theorem afterSize_of_le (h : s.newBlocksMap.size ≤ 1024 * cfg.jobs) : afterSize cfg s = .idle := by
  simp [afterSize, State.tooFarFromHead, not_lt.mpr h]

/-- How far a worker is from its end. -/
def Worker.remaining : Worker β → ℕ
  | .fetching _ => 5
  | .deposit _ _ => 4
  | .held => 3
  | .idle => 2
  | .check _ | .failed _ _ => 1
  | .exited => 0

/-- How far the announcer is from its end. -/
def Announcer.remaining : Announcer β → ℕ
  | .lookup => 3
  | .sending _ => 2
  | .check | .missing => 1
  | .parking | .waiting | .exited => 0

/-- How far the goroutines are from their ends. -/
def State.remaining (s : State β) : ℕ :=
  (s.workers.map Worker.remaining).sum + s.announcer.remaining

structure Draining (cfg : Syncer) (s : State β) : Prop where
  done : s.isDone = true
  drains : s.Drains cfg

theorem countP_set_add {workers : List (Worker β)} {w : ℕ} {x : Worker β}
    (hx : workers[w]? = some x) (x' : Worker β) (p : Worker β → Bool) :
    (workers.set w x').countP p + (if p x then 1 else 0) =
      workers.countP p + if p x' then 1 else 0 := by
  obtain ⟨hw, rfl⟩ := List.getElem?_eq_some_iff.mp hx
  have hpos : p workers[w] = true → 0 < workers.countP p := fun h =>
    List.countP_pos_iff.mpr ⟨_, List.getElem_mem hw, h⟩
  rw [List.countP_set hw]
  by_cases h : p workers[w] = true
  · have hle := hpos h
    split_ifs <;> omega
  · split_ifs <;> omega

theorem sum_remaining_set {workers : List (Worker β)} {w : ℕ} {x x' : Worker β}
    (hx : workers[w]? = some x) (hlt : x'.remaining < x.remaining) :
    ((workers.set w x').map Worker.remaining).sum < (workers.map Worker.remaining).sum := by
  induction workers generalizing w with
  | nil => simp at hx
  | cons y workers ih =>
    cases w with
    | zero =>
      obtain rfl := Option.some.inj hx
      simpa using hlt
    | succ w => simpa using ih hx

theorem WorkerMove.draining {w : ℕ} {x x' : Worker β} {s₁ : State β} (hs : Draining cfg s)
    (hx : s.workers[w]? = some x) (hm : WorkerMove cfg s x x' s₁) :
    Draining cfg { s₁ with workers := s.workers.set w x' } ∧ x'.remaining < x.remaining := by
  obtain ⟨hdone, hawake, hroom, hslack⟩ := hs
  have hcount := countP_set_add hx x' Worker.isPending
  cases hm with
  | fetch h hlive | skip h hlive _ | retry h _ _ hlive =>
    rw [hdone] at hlive
    cases hlive
  | deposit h newBlock hlock =>
    have hann : s.announcer.wake = s.announcer := by
      cases ha : s.announcer <;> first | rfl | exact absurd ha hawake.2
    have hle : (s.newBlocksMap.insert h newBlock).size ≤ s.newBlocksMap.size + 1 :=
      Std.ExtTreeMap.size_insert_le
    have hfits : (s.newBlocksMap.insert h newBlock).size ≤ 1024 * cfg.jobs := by
      have hpos : 0 < s.workers.countP Worker.isPending :=
        List.countP_pos_iff.mpr ⟨_, List.mem_of_getElem? hx, rfl⟩
      omega
    rw [afterSize_of_le (s := depositBlock s h newBlock) hfits] at hcount ⊢
    simp only [Worker.isPending, if_true, Bool.false_eq_true, if_false] at hcount
    refine ⟨⟨hdone, ?_, ?_, ?_⟩, by simp [Worker.remaining]⟩
    · change s.announcer.wake ≠ _ ∧ s.announcer.wake ≠ _
      rwa [hann]
    · change s.announcer.wake = _ ∨ (∃ ev, s.announcer.wake = _) → _
      rwa [hann]
    · change (s.newBlocksMap.insert h newBlock).size + _ ≤ _
      simp only
      omega
  | recheck hlock =>
    rw [afterSize_of_le (by omega)] at hcount ⊢
    simp only [Worker.isPending, Bool.false_eq_true, if_false] at hcount
    refine ⟨⟨hdone, hawake, hroom, ?_⟩, by simp [Worker.remaining]⟩
    simp only
    omega
  | _ =>
    simp only [Worker.isPending, if_true, Bool.false_eq_true, if_false] at hcount
    refine ⟨⟨hdone, hawake, hroom, ?_⟩, by simp [Worker.remaining]⟩
    simp only
    omega

theorem AnnouncerMove.draining (hs : Draining cfg s) (hm : AnnouncerMove cfg s s') :
    Draining cfg s' ∧ s'.announcer.remaining < s.announcer.remaining ∧
      s'.workers = s.workers := by
  obtain ⟨hdone, hawake, hroom, hslack⟩ := hs
  cases hm with
  | leave ha _ =>
    refine ⟨⟨hdone, by simp [State.endStream], by simp [State.endStream], hslack⟩, ?_, rfl⟩
    rcases ha with ha | ha <;> rw [ha] <;> exact Nat.one_pos
  | found ev ha hev =>
    have hle : (s.newBlocksMap.erase s.next).size ≤ s.newBlocksMap.size :=
      Std.ExtTreeMap.size_erase_le
    refine ⟨⟨hdone, by simp, fun _ => hroom (.inl ha), ?_⟩, by simp [ha, Announcer.remaining], rfl⟩
    simp only
    omega
  | miss ha _ => exact ⟨⟨hdone, by simp, by simp, hslack⟩, by simp [ha, Announcer.remaining], rfl⟩
  | send ev ha _ => exact ⟨⟨hdone, by simp, by simp, hslack⟩, by simp [ha, Announcer.remaining], rfl⟩
  | look _ hlive | commit _ hlive =>
    rw [hdone] at hlive
    cases hlive
  | park ha => exact absurd ha hawake.1

theorem ConsumerMove.draining {a : ConsumerAction} (hs : Draining cfg s)
    (hm : ConsumerMove stop s a s') (ha : a ≠ .receive) :
    Draining cfg s' ∧ s'.announcer = s.announcer ∧ s'.workers = s.workers := by
  obtain ⟨hdone, hdrains⟩ := hs
  cases hm with
  | mismatch | skip | call => exact absurd rfl ha
  | signal result _ =>
    have hann : s.announcer.wake = s.announcer := by
      cases h : s.announcer <;> first | rfl | exact absurd h hdrains.awake.2
    refine ⟨⟨hdone, ?_, ?_, hdrains.slack⟩, hann, rfl⟩
    · change s.announcer.wake ≠ _ ∧ s.announcer.wake ≠ _
      rw [hann]
      exact hdrains.awake
    · change s.announcer.wake = _ ∨ (∃ ev, s.announcer.wake = _) → _
      rw [hann]
      exact hdrains.room
  | close result _ => exact ⟨⟨rfl, hdrains.awake, hdrains.room, hdrains.slack⟩, rfl, rfl⟩
  | _ => exact ⟨⟨hdone, hdrains.awake, hdrains.room, hdrains.slack⟩, rfl, rfl⟩

/-- An action of a draining getter brings a goroutine closer to its end, or changes none. -/
theorem draining_step {a : Action β} (hs : Draining cfg s) (h : step cfg stop s a = some s')
    (ha : a ≠ .consumer .receive) :
    Draining cfg s' ∧ (s'.remaining < s.remaining ∨
      s'.announcer = s.announcer ∧ s'.workers = s.workers ∧
        (a.owner = .consumer ∨ a.owner = .environment)) := by
  cases a with
  | worker w a =>
    obtain ⟨x, x', s₁, hx, hm, rfl⟩ := step_worker h
    obtain ⟨hs', hlt⟩ := hm.draining hs hx
    refine ⟨hs', .inl ?_⟩
    have hsum := sum_remaining_set hx hlt
    have hann : s₁.announcer = s.announcer := hm.announcer_eq hs.drains.awake.2
    simp only [State.remaining, hann]
    omega
  | announcer a =>
    obtain ⟨hs', hlt, hworkers⟩ := (step_announcer h).draining hs
    refine ⟨hs', .inl ?_⟩
    simp only [State.remaining, hworkers]
    omega
  | consumer a =>
    obtain ⟨hs', hann, hworkers⟩ := (step_consumer h).draining hs fun h => ha (by rw [h])
    exact ⟨hs', .inr ⟨hann, hworkers, .inl rfl⟩⟩
  | cancel =>
    obtain rfl := step_cancel h
    exact ⟨⟨by simp [State.isDone], hs.drains.awake, hs.drains.room, hs.drains.slack⟩,
      .inr ⟨rfl, rfl, .inr rfl⟩⟩

/-! ## The helpful party -/

/-- Whether a worker has returned. -/
def Worker.isExited : Worker β → Bool
  | .exited => true
  | _ => false

theorem Worker.isExited_iff {x : Worker β} : x.isExited = true ↔ x = .exited := by
  cases x <;> simp [Worker.isExited]

/-- The first worker that has not returned. -/
def nextWorker (workers : List (Worker β)) : ℕ := workers.findIdx fun x => !x.isExited

def workerParty (w : ℕ) : Option (Worker β) → Proc
  | some (.fetching _) => .fetch w
  | _ => .worker w

/-- The party that brings a draining getter closer to its end. -/
def drainHelper (s : State β) : Proc :=
  match s.announcer with
  | .exited => workerParty (nextWorker s.workers) s.workers[nextWorker s.workers]?
  | _ => .announcer

theorem drainHelper_ne (s : State β) : drainHelper s ≠ .consumer ∧ drainHelper s ≠ .environment := by
  unfold drainHelper workerParty
  split
  · split <;> simp
  · simp

/-- A worker that has not returned can act, unless it needs the lock. -/
theorem workerParty_enabled {w : ℕ} {x : Worker β} (hx : s.workers[w]? = some x)
    (hne : x ≠ .exited) (hlock : s.announcer.locks = false) :
    Enabled (step cfg stop) Action.owner (workerParty w (some x)) s := by
  cases x with
  | idle => exact ⟨.worker w .take, rfl, by simp [step, hx, workerStep]⟩
  | check h => exact ⟨.worker w .check, rfl, by simp [step, hx, workerStep]⟩
  | fetching h =>
    exact ⟨.worker w (.fetched (.error .other)), rfl, by simp [step, hx, workerStep]⟩
  | failed h err => exact ⟨.worker w .onError, rfl, by simp [step, hx, workerStep]⟩
  | deposit h newBlock => exact ⟨.worker w .deposit, rfl, by simp [step, hx, workerStep, hlock]⟩
  | held => exact ⟨.worker w .recheck, rfl, by simp [step, hx, workerStep, hlock]⟩
  | exited => exact absurd rfl hne

theorem drainHelper_enabled (hs : s.Drains cfg) (hne : ¬ s.Stopped) :
    Enabled (step cfg stop) Action.owner (drainHelper s) s := by
  unfold drainHelper
  cases ha : s.announcer with
  | check => exact ⟨.announcer .check, rfl, by simp [step, announcerStep, ha]⟩
  | lookup => exact ⟨.announcer .lookup, rfl, by simp [step, announcerStep, ha]⟩
  | missing => exact ⟨.announcer .onMissing, rfl, by simp [step, announcerStep, ha]⟩
  | parking => exact absurd ha hs.awake.1
  | waiting => exact absurd ha hs.awake.2
  | sending ev =>
    have hroom := hs.room (.inr ⟨ev, ha⟩)
    exact ⟨.announcer .send, rfl, by simp [step, announcerStep, ha, hroom]⟩
  | exited =>
    have hex : ∃ x ∈ s.workers, (!x.isExited) = true := by
      by_contra hall
      refine hne ⟨fun x hx => ?_, ha⟩
      by_contra hx'
      exact hall ⟨x, hx, by simpa [← Worker.isExited_iff] using hx'⟩
    have hlt : nextWorker s.workers < s.workers.length := List.findIdx_lt_length_of_exists hex
    have hx : s.workers[nextWorker s.workers]? = some s.workers[nextWorker s.workers] :=
      List.getElem?_eq_getElem hlt
    have hnot : (!(s.workers[nextWorker s.workers]).isExited) = true :=
      List.findIdx_getElem (w := hlt)
    rw [hx]
    refine workerParty_enabled hx ?_ (by rw [ha]; rfl)
    intro hexited
    rw [hexited] at hnot
    cases hnot

/-! ## Runs -/

/-- A fair run that starts in a reachable state and in which, from `T` on, the getter is done
and nobody receives.  Fetches return. -/
structure ShutdownRun (cfg : Syncer) (stop : Option ℤ) (start : ℤ)
    (ρ : Execution (step (β := β) cfg stop)) (T : ℕ) : Prop where
  reaches : SyncReaches cfg stop start (ρ.state 0)
  fair_worker : ∀ w, ρ.WeaklyFair Action.owner (.worker w)
  fair_fetch : ∀ w, ρ.WeaklyFair Action.owner (.fetch w)
  fair_announcer : ρ.WeaklyFair Action.owner .announcer
  done : (ρ.state T).isDone = true
  silent : ∀ t, T ≤ t → ρ.action t ≠ some (.consumer .receive)

section ShutdownRuns

variable {ρ : Execution (step (β := β) cfg stop)} {T : ℕ}

theorem isDone_step {a : Action β} (hs : s.isDone = true) (h : step cfg stop s a = some s') :
    s'.isDone = true := by
  cases a with
  | worker w a =>
    obtain ⟨x, x', s₁, -, hm, rfl⟩ := step_worker h
    cases hm <;> exact hs
  | announcer a => cases step_announcer h <;> exact hs
  | consumer a =>
    cases step_consumer h with
    | close _ _ => rfl
    | _ => exact hs
  | cancel =>
    obtain rfl := step_cancel h
    simp [State.isDone]

theorem ShutdownRun.isDone (hρ : ShutdownRun cfg stop start ρ T) (t : ℕ) (ht : T ≤ t) :
    (ρ.state t).isDone = true :=
  Execution.stable (P := fun s : State β => s.isDone = true)
    (fun u a _ ha hs => isDone_step hs (ρ.next u a ha)) hρ.done t ht

theorem ShutdownRun.fair_drainHelper (hρ : ShutdownRun cfg stop start ρ T) (s : State β) :
    ρ.WeaklyFair Action.owner (drainHelper s) := by
  unfold drainHelper workerParty
  split
  · split
    · exact hρ.fair_fetch _
    · exact hρ.fair_worker _
  · exact hρ.fair_announcer

/-- From a time at which it drains, the getter stops. -/
theorem ShutdownRun.stops (hρ : ShutdownRun cfg stop start ρ T) {t : ℕ} (ht : T ≤ t)
    (hdrains : (ρ.state t).Drains cfg) : ∃ u, t ≤ u ∧ (ρ.state u).Stopped := by
  by_cases hstopped : (ρ.state t).Stopped
  · exact ⟨t, le_rfl, hstopped⟩
  refine Execution.eventually_of_rank (P := fun s => Draining cfg s ∧ ¬ s.Stopped)
    (Q := State.Stopped) Action.owner State.remaining drainHelper
    (fun s _ => hρ.fair_drainHelper s) (fun s hs => drainHelper_enabled hs.1.drains hs.2) ?_
    ⟨⟨hρ.isDone t ht, hdrains⟩, hstopped⟩
  rintro u a hu ha ⟨hs, -⟩
  have hsilent : a ≠ .consumer .receive := fun h => hρ.silent u (by omega) (h ▸ ha)
  obtain ⟨hs', hrank⟩ := draining_step hs (ρ.next u a ha) hsilent
  by_cases hstop : (ρ.state (u + 1)).Stopped
  · exact .inl hstop
  refine .inr ⟨⟨hs', hstop⟩, ?_⟩
  rcases hrank with hlt | ⟨hann, hworkers, howner⟩
  · exact .inl hlt
  · refine .inr ⟨by rw [State.remaining, State.remaining, hann, hworkers],
      by rw [drainHelper, drainHelper, hann, hworkers], ?_⟩
    have hne := drainHelper_ne (ρ.state u)
    rcases howner with h | h <;> rw [h]
    · exact hne.1.symm
    · exact hne.2.symm

/-- **Shutdown.**  After the getter is done and nobody receives, its goroutines return exactly
if at some time the announcer neither waits nor is about to, the channel has room for what it
may send, and the map, with the blocks still to come, is within the limit of the workers. -/
theorem shutdown_iff (hρ : ShutdownRun cfg stop start ρ T) :
    (∃ t, T ≤ t ∧ (ρ.state t).Stopped) ↔ ∃ t, T ≤ t ∧ (ρ.state t).Drains cfg := by
  constructor
  · rintro ⟨t, ht, hstopped⟩
    have hreach : SyncReaches cfg stop start (ρ.state t) :=
      Reachable.invariant (I := SyncReaches cfg stop start) (Execution.reachable t) hρ.reaches
        fun _ _ a hs h => hs.step a h
    exact ⟨t, ht, hstopped.drains hreach.bounded⟩
  · rintro ⟨t, ht, hdrains⟩
    obtain ⟨u, hu, hstopped⟩ := hρ.stops ht hdrains
    exact ⟨u, by omega, hstopped⟩

end ShutdownRuns

/-- A range of one block is shut down: the announcer is at the head of its loop when `Close`
is called. -/
theorem shutdown_iff_one : ShutdownRun (newSyncer 1 false) (some 1) 1 oneBlock 12 ∧
    ∃ t, 12 ≤ t ∧ (oneBlock.state t).Stopped := by
  have hρ : ShutdownRun (newSyncer 1 false) (some 1) 1 oneBlock 12 := by
    refine ⟨.init, fun w => oneBlock_fair (by simp), fun w => oneBlock_fair (by simp),
      oneBlock_fair (by simp), rfl, fun t ht ha => ?_⟩
    have hlt : t < oneBlockRun.length := (List.getElem?_eq_some_iff.mp ha).1
    change t < 15 at hlt
    interval_cases t <;> cases ha
  refine ⟨hρ, (shutdown_iff hρ).mpr ⟨12, le_rfl, ⟨?_, ?_, ?_⟩⟩⟩
  · exact ⟨nofun, nofun⟩
  · exact fun _ => by decide +kernel
  · decide +kernel

/-! ## The lost signal -/

/-- `Close` signals while the announcer is about to wait. -/
def lostSignalRun : List (Action Unit) :=
  [.worker 0 .take, .worker 0 .check, .worker 0 (.fetched (.ok ())), .worker 0 .deposit,
    .announcer .check, .announcer .lookup, .announcer .send,
    .announcer .check, .announcer .lookup, .announcer .onMissing,
    .consumer .receive, .consumer (.handled true), .consumer .finish, .consumer .signal,
    .announcer .park, .consumer .close, .worker 0 .take, .worker 0 .check]

theorem lostSignalRun_possible : (perform (step (newSyncer 1 false) (some 1))
    (State.init (newSyncer 1 false) (some 1) 1) lostSignalRun).isSome = true := by
  decide +kernel

def lostSignal : Execution (step (β := Unit) (newSyncer 1 false) (some 1)) :=
  .ofRun _ lostSignalRun lostSignalRun_possible

theorem lostSignal_end : (lostSignal.state 18).workers = [.exited] ∧
    (lostSignal.state 18).announcer = .waiting ∧
      (lostSignal.state 18).consumer = .returned .nil :=
  ⟨rfl, rfl, rfl⟩

theorem lostSignal_fair {p : Proc} (hp : p ≠ .environment) :
    lostSignal.WeaklyFair Action.owner p := by
  obtain ⟨hw, ha, hc⟩ := lostSignal_end
  refine Execution.ofRun_weaklyFair lostSignalRun_possible
    (not_enabled_of_returned (s := lostSignal.state 18) ?_ (.inr ha) hc hp)
  rw [hw]
  simp

/-- `SyncRange` returned without an error, and the announcer waits forever. -/
theorem announcer_left_waiting : ShutdownRun (newSyncer 1 false) (some 1) 1 lostSignal 16 ∧
    (lostSignal.state 16).consumer = .returned .nil ∧
      ¬ ∃ t, 16 ≤ t ∧ (lostSignal.state t).Stopped := by
  refine ⟨⟨.init, fun w => lostSignal_fair (by simp), fun w => lostSignal_fair (by simp),
    lostSignal_fair (by simp), rfl, fun t ht ha => ?_⟩, rfl, ?_⟩
  · have hlt : t < lostSignalRun.length := (List.getElem?_eq_some_iff.mp ha).1
    change t < 18 at hlt
    interval_cases t <;> cases ha
  · rintro ⟨t, ht, -, hstopped⟩
    have hwaits : (lostSignal.state t).announcer = .waiting := by
      by_cases hend : 18 ≤ t
      · exact (congrArg State.announcer
          (Execution.ofRun_state_of_le lostSignalRun_possible hend)).trans lostSignal_end.2.1
      · interval_cases t <;> rfl
    rw [hwaits] at hstopped
    cases hstopped

end EvmGateway.Blocksync
