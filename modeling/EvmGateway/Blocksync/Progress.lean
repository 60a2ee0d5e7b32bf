import EvmGateway.Blocksync.Delivery

/-!
# Progress

While the context is live, the consumer keeps receiving and every fetch eventually returns,
each height is eventually delivered.  The argument follows the next height through its
places: not handed out, with a worker that fetches it, with a worker about to deposit it, in
the map, with the announcer, on the channel.  It never moves back, and at each place a fair
scheduler moves it on.

Two facts carry this.  A worker that waits for the map to shrink owns no height, so the
height the announcer waits for is never behind it; and if no height is handed out, the map is
empty and no worker waits for long.  The announcer never waits while its block is in the map:
a deposit needs the lock, which the announcer holds from a failed lookup until it waits
(`Alert`).
-/

namespace EvmGateway.Blocksync

open Lib

variable {t w u : ℕ}

variable {β : Type} {cfg : Syncer} {stop : Option ℤ} {start : ℤ} {s s' : State β}

/-! ## No signal is lost -/

/-- The announcer has looked its height up without success and not looked again. -/
def Announcer.isMissing : Announcer β → Bool
  | .missing | .parking | .waiting => true
  | _ => false

/-- An announcer that waits, or is about to, misses nothing. -/
def State.Alert (s : State β) : Prop :=
  s.announcer.isMissing = true → s.newBlocksMap[s.next]? = none

theorem Announcer.not_isMissing_wake {a : Announcer β} (h : a.locks = false) :
    a.wake.isMissing = false := by
  cases a <;> first | rfl | cases h

theorem step_alert {a : Action β} (halert : s.Alert) (h : step cfg stop s a = some s') :
    s'.Alert := by
  cases a with
  | worker w a =>
    obtain ⟨x, x', s₁, -, hm, rfl⟩ := step_worker h
    cases hm with
    | deposit n newBlock hlock =>
      intro hmissing
      have := Announcer.not_isMissing_wake hlock
      rw [show s.announcer.wake.isMissing = true from hmissing] at this
      cases this
    | _ => exact halert
  | announcer a =>
    cases step_announcer h with
    | miss ha hev => exact fun _ => hev
    | commit ha _ => exact fun _ => halert (by rw [ha]; rfl)
    | park ha => exact fun _ => halert (by rw [ha]; rfl)
    | _ => nofun
  | consumer a =>
    cases step_consumer h with
    | signal result _ =>
      intro hmissing
      refine halert ?_
      change s.announcer.wake.isMissing = true at hmissing
      revert hmissing
      cases s.announcer <;> simp [Announcer.wake, Announcer.isMissing]
    | _ => exact halert
  | cancel =>
    obtain rfl := step_cancel h
    exact halert

theorem init_alert (cfg : Syncer) (stop : Option ℤ) (start : ℤ) :
    (State.init cfg stop start : State β).Alert := fun _ => by simp [State.init]

theorem SyncReaches.alert (h : SyncReaches cfg stop start s) : s.Alert :=
  Reachable.invariant h (init_alert cfg stop start) fun _ _ _ hs hstep => step_alert hs hstep

/-- The height the announcer waits for is with a worker that is not held back, if it was
handed out and no worker has left. -/
theorem Ownership.exists_owner {workers : List (Worker β)}
    {blocks : Std.ExtTreeMap ℕ (NewBlockData β)} {popped height : ℕ} {skipped : List ℕ}
    (o : Ownership workers blocks popped height skipped) (hnone : blocks[popped]? = none)
    (hlt : popped < height) (hall : ∀ x ∈ workers, x ≠ .exited) :
    ∃ (w : ℕ) (x : Worker β), workers[w]? = some x ∧ x.height? = some popped ∧ x ≠ .held := by
  rcases o.complete hall popped le_rfl hlt with hb | ⟨w, x, hx, hxh⟩
  · exact absurd hnone hb
  · refine ⟨w, x, hx, hxh, ?_⟩
    rintro rfl
    cases hxh

theorem Announcer.wake_eq_exited {a : Announcer β} : a.wake = .exited ↔ a = .exited := by
  cases a <;> simp [Announcer.wake]

theorem WorkerMove.consumer_frame {x x' : Worker β} (hm : WorkerMove cfg s x x' s') :
    s'.consumer = s.consumer ∧ s'.received = s.received ∧ s'.newBlocksC = s.newBlocksC := by
  cases hm <;> exact ⟨rfl, rfl, rfl⟩

theorem AnnouncerMove.consumer_frame (hm : AnnouncerMove cfg s s') :
    s'.consumer = s.consumer ∧ s'.received = s.received := by
  cases hm <;> exact ⟨rfl, rfl⟩

theorem AnnouncerMove.newBlocksC_ne_nil (hm : AnnouncerMove cfg s s') (hne : s.newBlocksC ≠ []) :
    s'.newBlocksC ≠ [] := by
  cases hm with
  | send ev _ _ => simp
  | _ => exact hne

/-! ## Fair runs -/

/-- The worker is in its fetch loop with the height. -/
def Worker.Fetches (x : Worker β) (h : ℕ) : Prop :=
  x = .check h ∨ x = .fetching h ∨ ∃ err, x = .failed h err

/-- A run of `SyncRange` or `SyncForward` whose context stays live, under a fair scheduler,
with a handler that does not fail.  No fetch fails as canceled, and before `Close` every fetch
loop ends with a block, or with a height given up as unavailable where that is allowed. -/
structure LiveRun (cfg : Syncer) (stop : Option ℤ) (start : ℤ)
    (ρ : Execution (step (β := β) cfg stop)) : Prop where
  init : ρ.state 0 = State.init cfg stop start
  fair_worker : ∀ w, ρ.WeaklyFair Action.owner (.worker w)
  fair_announcer : ρ.WeaklyFair Action.owner .announcer
  fair_consumer : ρ.WeaklyFair Action.owner .consumer
  live : ∀ t, (ρ.state t).canceled = false
  handled : ∀ t, ρ.action t ≠ some (.consumer (.handled false))
  uncanceled : ∀ t (w h : ℕ), (ρ.state t).workers[w]? ≠ some (.failed h .canceled)
  fetched : ∀ t (w : ℕ) (x : Worker β) (h : ℕ), (ρ.state t).workers[w]? = some x → x.Fetches h →
    ∃ u, t ≤ u ∧ ((ρ.state u).closed = true ∨
      ∃ newBlock, (ρ.state u).workers[w]? = some (.deposit h newBlock))

section LiveRuns

variable {ρ : Execution (step (β := β) cfg stop)} {r : ℕ}

/-- No worker leaves before `Close`. -/
theorem LiveRun.present (hρ : LiveRun cfg stop start ρ) (t : ℕ)
    (hopen : (ρ.state t).closed = false) : ∀ x ∈ (ρ.state t).workers, x ≠ .exited := by
  induction t with
  | zero =>
    rw [hρ.init]
    intro x hx
    unfold State.init at hx
    split_ifs at hx
    · cases hx
    · rw [List.eq_of_mem_replicate hx]
      simp
  | succ t ih =>
    cases ha : ρ.action t with
    | none =>
      rw [ρ.idle t ha] at hopen ⊢
      exact ih hopen
    | some a =>
      have hlive := hρ.live t
      have hbad := hρ.uncanceled t
      have hstep := ρ.next t a ha
      generalize ρ.state t = s at *
      generalize ρ.state (t + 1) = s' at *
      cases a with
      | worker w a =>
        obtain ⟨x, x', s₁, hx, hm, rfl⟩ := step_worker hstep
        have hsame : s₁.closed = s.closed := by cases hm <;> rfl
        have hopen' : s.closed = false := hsame ▸ hopen
        have hdone : s.isDone = false := by rw [State.isDone, hopen', hlive]; rfl
        have hx' : x' ≠ .exited := by
          cases hm with
          | leave h hd =>
            rw [hdone] at hd
            cases hd
          | giveUp h err hd =>
            rcases hd with rfl | hd
            · exact absurd hx (hbad w h)
            · rw [hdone] at hd
              cases hd
          | deposit h newBlock _ =>
            rcases afterSize_cases cfg (depositBlock s h newBlock) with h' | h' <;> simp [h']
          | recheck _ => rcases afterSize_cases cfg s with h' | h' <;> simp [h']
          | _ => simp
        intro y hy
        rcases List.mem_or_eq_of_mem_set hy with hy | rfl
        · exact ih hopen' y hy
        · exact hx'
      | announcer a =>
        cases step_announcer hstep <;> exact ih hopen
      | consumer a =>
        cases step_consumer hstep with
        | close result _ => cases hopen
        | _ => exact ih hopen
      | cancel =>
        obtain rfl := step_cancel hstep
        exact ih hopen

theorem LiveRun.reaches (hρ : LiveRun cfg stop start ρ) (t : ℕ) :
    SyncReaches cfg stop start (ρ.state t) := by
  have h := Execution.reachable (ρ := ρ) t
  rwa [hρ.init] at h

/-- The consumer is in its loop and has received `r` blocks. -/
structure Awaiting (cfg : Syncer) (stop : Option ℤ) (start : ℤ) (r : ℕ) (s : State β) : Prop where
  inOrder : InOrder stop start s
  alert : s.Alert
  bounded : s.Bounded cfg
  received : s.received = r
  running : s.consumer.result? = none
  workers : s.workers.length = cfg.jobs
  present : ∀ x ∈ s.workers, x ≠ .exited
  announcing : s.announcer ≠ .exited
  live : s.isDone = false

/-- The announcer leaves only when the getter is done. -/
theorem SyncReaches.announcing (h : SyncReaches cfg stop start s) :
    s.announcer = .exited → (earlyReturn stop start).isSome = true ∨ s.isDone = true := by
  refine Reachable.invariant (I := fun s : State β =>
    s.announcer = .exited → (earlyReturn stop start).isSome = true ∨ s.isDone = true) h ?_ ?_
  · intro ha
    unfold State.init at ha
    split_ifs at ha with hearly
    exact .inl hearly
  · intro s s' a hs hstep
    cases a with
    | worker w a =>
      obtain ⟨x, x', s₁, -, hm, rfl⟩ := step_worker hstep
      cases hm with
      | deposit _ _ _ => exact fun ha => hs (Announcer.wake_eq_exited.mp ha)
      | _ => exact hs
    | announcer a =>
      cases step_announcer hstep with
      | leave _ hdone => exact fun _ => .inr hdone
      | _ => nofun
    | consumer a =>
      cases step_consumer hstep with
      | signal _ _ => exact fun ha => hs (Announcer.wake_eq_exited.mp ha)
      | close _ _ => exact fun _ => .inr rfl
      | _ => exact hs
    | cancel =>
      obtain rfl := step_cancel hstep
      exact fun _ => .inr (by simp [State.isDone])

theorem SyncReaches.length_workers (h : SyncReaches cfg stop start s)
    (hearly : earlyReturn stop start = none) : s.workers.length = cfg.jobs := by
  refine Reachable.invariant (I := fun s : State β => s.workers.length = cfg.jobs) h ?_ ?_
  · simp [State.init, hearly]
  · intro s s' a hs hstep
    cases a with
    | worker w a =>
      obtain ⟨x, x', s₁, -, hm, rfl⟩ := step_worker hstep
      simpa using hs
    | announcer a => cases step_announcer hstep <;> exact hs
    | consumer a => cases step_consumer hstep <;> exact hs
    | cancel =>
      obtain rfl := step_cancel hstep
      exact hs

theorem LiveRun.awaiting (hρ : LiveRun cfg stop start ρ) (hr : (ρ.state t).received = r)
    (hrun : (ρ.state t).consumer.result? = none) :
    Awaiting cfg stop start r (ρ.state t) := by
  have hreach := hρ.reaches t
  have hearly := hreach.inOrder.consuming.early hrun
  have hopen : (ρ.state t).closed = false := by
    refine hreach.inOrder.consuming.not_closed fun result hc => ?_
    rw [hc] at hrun
    cases hrun
  have hdone : (ρ.state t).isDone = false := by rw [State.isDone, hopen, hρ.live]; rfl
  refine ⟨hreach.inOrder, hreach.alert, hreach.bounded, hr, hrun, hreach.length_workers hearly,
    hρ.present t hopen, ?_, hdone⟩
  intro ha
  rcases hreach.announcing ha with hsome | htrue
  · rw [hearly] at hsome
    cases hsome
  · rw [hdone] at htrue
    cases htrue

/-- The range has a block after the first `r`. -/
def Wanted (stop : Option ℤ) (start : ℤ) (r : ℕ) : Prop :=
  ∀ last, stop = some last → (start.toNat + r : ℤ) ≤ last

theorem Awaiting.inRange (hs : Awaiting cfg stop start r s) (hw : Wanted stop start r)
    (hc : s.consumer = .receiving) : s.inRange stop = true := by
  have hexp := hs.inOrder.consuming.receiving hc
  have hr := hs.received
  cases stop with
  | none => rfl
  | some last =>
    have hle := hw last rfl
    have hword := wrap64_natCast_le s.expected
    simp only [State.inRange, decide_eq_true_eq]
    omega

theorem LiveRun.consumer_next (hρ : LiveRun cfg stop start ρ) (hw : Wanted stop start r)
    {a : ConsumerAction} (hs : Awaiting cfg stop start r (ρ.state t))
    (ha : ρ.action t = some (.consumer a)) :
    (ρ.state t).newBlocksC ≠ [] ∧ (ρ.state (t + 1)).received = r + 1 ∨
      ∃ block, (ρ.state t).consumer = .handling block ∧ ρ.state (t + 1) =
        { ρ.state t with expected := (ρ.state t).expected + 1, consumer := .receiving } := by
  have hm := step_consumer (ρ.next t _ ha)
  have hlive := hs.live
  have hrun := hs.running
  have hr := hs.received
  generalize ρ.state t = s at *
  generalize ρ.state (t + 1) = s' at *
  cases hm with
  | mismatch block rest _ _ hchan _ | skip block rest _ _ hchan _ _
  | call block rest _ _ hchan _ _ => exact .inl ⟨by simp [hchan], by simp [hr]⟩
  | streamClosed _ _ _ hend =>
    rw [hs.inOrder.consuming.streamEnd hend] at hlive
    cases hlive
  | ctxDone _ _ hctx =>
    rw [State.isDone, hctx, Bool.or_true] at hlive
    cases hlive
  | finish hc hrange =>
    rw [hs.inRange hw hc] at hrange
    cases hrange
  | handled block hc => exact .inr ⟨block, hc, rfl⟩
  | handlerErr _ _ => exact absurd ha (hρ.handled t)
  | signal result hc | close result hc =>
    rw [hc] at hrun
    cases hrun

theorem LiveRun.not_cancel (hρ : LiveRun cfg stop start ρ) (t : ℕ) :
    ρ.action t ≠ some .cancel := by
  intro ha
  have hlive := hρ.live (t + 1)
  rw [step_cancel (ρ.next t _ ha)] at hlive
  cases hlive

/-- The consumer goes on waiting until it receives the next block. -/
theorem LiveRun.awaiting_next (hρ : LiveRun cfg stop start ρ) (hw : Wanted stop start r)
    {a : Action β} (hs : Awaiting cfg stop start r (ρ.state t)) (ha : ρ.action t = some a) :
    (ρ.state (t + 1)).received = r + 1 ∨ Awaiting cfg stop start r (ρ.state (t + 1)) := by
  cases a with
  | worker w a =>
    obtain ⟨x, x', s₁, -, hm, heq⟩ := step_worker (ρ.next t _ ha)
    refine .inr (hρ.awaiting ?_ ?_)
    · rw [heq, ← hs.received]
      exact hm.consumer_frame.2.1
    · rw [heq, ← hs.running]
      exact congrArg Consumer.result? hm.consumer_frame.1
  | announcer a =>
    have hm := (step_announcer (ρ.next t _ ha)).consumer_frame
    exact .inr (hρ.awaiting (hm.2.trans hs.received)
      ((congrArg Consumer.result? hm.1).trans hs.running))
  | consumer a =>
    rcases hρ.consumer_next hw hs ha with ⟨-, h⟩ | ⟨block, -, heq⟩
    · exact .inl h
    · exact .inr (hρ.awaiting (by rw [heq, ← hs.received]) (by rw [heq]; rfl))
  | cancel => exact absurd ha (hρ.not_cancel t)

/-! ### On the channel -/

/-- The actions of the consumer before it receives. -/
def Consumer.phase : Consumer β → ℕ
  | .handling _ => 1
  | _ => 0

theorem Action.owner_worker (w : ℕ) (a : WorkerAction β) :
    (Action.worker w a).owner = .worker w ∨ (Action.worker w a).owner = .fetch w := by
  cases a <;> simp [Action.owner]

theorem Awaiting.consumer_enabled (hs : Awaiting cfg stop start r s) (hw : Wanted stop start r)
    (hne : s.newBlocksC ≠ []) : Enabled (step cfg stop) Action.owner .consumer s := by
  cases hc : s.consumer with
  | receiving =>
    obtain ⟨block, rest, hchan⟩ := List.exists_cons_of_ne_nil hne
    exact ⟨.consumer .receive, rfl, by simp [step, consumerStep, hc, hchan, hs.inRange hw hc]⟩
  | handling block => exact ⟨.consumer (.handled true), rfl, by simp [step, consumerStep, hc]⟩
  | _ =>
    have hrun := hs.running
    rw [hc] at hrun
    cases hrun

theorem LiveRun.receives_of_channel (hρ : LiveRun cfg stop start ρ) (hw : Wanted stop start r)
    (hs : Awaiting cfg stop start r (ρ.state t)) (hne : (ρ.state t).newBlocksC ≠ []) :
    ∃ u, t ≤ u ∧ (ρ.state u).received = r + 1 := by
  refine Execution.eventually_of_rank
    (P := fun s => Awaiting cfg stop start r s ∧ s.newBlocksC ≠ [])
    (Q := fun s => s.received = r + 1) Action.owner (fun s => s.consumer.phase)
    (fun _ => Proc.consumer) (fun _ _ => hρ.fair_consumer)
    (fun s hs => hs.1.consumer_enabled hw hs.2) ?_ ⟨hs, hne⟩
  rintro u a - ha ⟨hs, hne⟩
  rcases hρ.awaiting_next hw hs ha with hr | hs'
  · exact .inl hr
  right
  cases a with
  | worker w a =>
    obtain ⟨x, x', s₁, -, hm, heq⟩ := step_worker (ρ.next u _ ha)
    obtain ⟨hcons, -, hchan⟩ := hm.consumer_frame
    refine ⟨⟨hs', ?_⟩, .inr ⟨?_, rfl, ?_⟩⟩
    · rw [heq]
      exact hchan ▸ hne
    · rw [heq]
      exact congrArg Consumer.phase hcons
    · rcases Action.owner_worker w a with h | h <;> rw [h] <;> nofun
  | announcer a =>
    have hm := step_announcer (ρ.next u _ ha)
    exact ⟨⟨hs', hm.newBlocksC_ne_nil hne⟩,
      .inr ⟨congrArg Consumer.phase hm.consumer_frame.1, rfl, nofun⟩⟩
  | consumer a =>
    rcases hρ.consumer_next hw hs ha with ⟨-, hr⟩ | ⟨block, hc, heq⟩
    · have hr' := hs'.received
      omega
    · refine ⟨⟨hs', by rw [heq]; exact hne⟩, .inl ?_⟩
      rw [heq, hc]
      exact Nat.one_pos
  | cancel => exact absurd ha (hρ.not_cancel u)

/-! ### In the map, or with the announcer -/

/-- The actions of the announcer before it waits or sends. -/
def Announcer.phase : Announcer β → ℕ
  | .check => 5
  | .lookup => 4
  | .missing => 3
  | .parking => 2
  | .waiting => 1
  | .sending _ | .exited => 0

theorem Awaiting.next_eq (hs : Awaiting cfg stop start r s) :
    s.next = start.toNat + r + s.newBlocksC.length := by
  rw [hs.inOrder.streamed.next, hs.received]

/-- The places of the announcer once the next block is deposited and not yet on the channel. -/
theorem Awaiting.announcer_of_settled (hs : Awaiting cfg stop start r s)
    (hset : s.Settled (start.toNat + r)) (hnil : s.newBlocksC = []) :
    (s.announcer = .check ∨ s.announcer = .lookup) ∧ s.newBlocksMap[s.next]? ≠ none ∨
      ∃ ev, s.announcer = .sending ev := by
  have hnext := hs.next_eq
  rw [hnil, List.length_nil, Nat.add_zero] at hnext
  rw [← hnext] at hset
  have halert := hs.alert
  have hann := hs.announcing
  unfold State.Settled State.popped at hset
  unfold State.Alert at halert
  cases ha : s.announcer with
  | check | lookup =>
    rw [ha] at hset
    exact .inl ⟨by simp, hset.resolve_right (Nat.lt_irrefl _)⟩
  | missing | parking | waiting =>
    rw [ha] at hset halert
    exact absurd (halert rfl) (hset.resolve_right (Nat.lt_irrefl _))
  | sending ev => exact .inr ⟨ev, rfl⟩
  | exited => exact absurd ha hann

theorem Awaiting.announcer_enabled (hs : Awaiting cfg stop start r s)
    (hset : s.Settled (start.toNat + r)) (hnil : s.newBlocksC = []) :
    Enabled (step cfg stop) Action.owner .announcer s := by
  have hpos := cfg.jobs_pos
  rcases hs.announcer_of_settled hset hnil with ⟨ha | ha, -⟩ | ⟨ev, ha⟩
  · exact ⟨.announcer .check, rfl, by simp [step, announcerStep, ha]⟩
  · exact ⟨.announcer .lookup, rfl, by simp [step, announcerStep, ha]⟩
  · exact ⟨.announcer .send, rfl, by simp [step, announcerStep, ha, hnil, Syncer.channelCap, hpos]⟩

theorem WorkerMove.announcer_eq {x x' : Worker β} (hm : WorkerMove cfg s x x' s')
    (ha : s.announcer ≠ .waiting) : s'.announcer = s.announcer := by
  cases hm with
  | deposit h newBlock _ =>
    change s.announcer.wake = s.announcer
    cases h : s.announcer <;> first | rfl | exact absurd h ha
  | _ => rfl

theorem LiveRun.receives_of_settled (hρ : LiveRun cfg stop start ρ) (hw : Wanted stop start r)
    (hs : Awaiting cfg stop start r (ρ.state t)) (hset : (ρ.state t).Settled (start.toNat + r)) :
    ∃ u, t ≤ u ∧ (ρ.state u).received = r + 1 := by
  by_cases hnil : (ρ.state t).newBlocksC = []
  swap
  · exact hρ.receives_of_channel hw hs hnil
  have hlead : ∃ u, t ≤ u ∧ ((ρ.state u).received = r + 1 ∨
      Awaiting cfg stop start r (ρ.state u) ∧ (ρ.state u).newBlocksC ≠ []) := by
    refine Execution.eventually_of_rank
      (P := fun s => Awaiting cfg stop start r s ∧ s.Settled (start.toNat + r) ∧
        s.newBlocksC = [])
      (Q := fun s => s.received = r + 1 ∨ Awaiting cfg stop start r s ∧ s.newBlocksC ≠ [])
      Action.owner (fun s => s.announcer.phase) (fun _ => Proc.announcer)
      (fun _ _ => hρ.fair_announcer) (fun s hs => hs.1.announcer_enabled hs.2.1 hs.2.2) ?_
      ⟨hs, hset, hnil⟩
    rintro u a - ha ⟨hs, hset, hnil⟩
    rcases hρ.awaiting_next hw hs ha with hr | hs'
    · exact .inl (.inl hr)
    have hset' := settled_step (ρ.next u a ha) hset
    by_cases hnil' : (ρ.state (u + 1)).newBlocksC = []
    swap
    · exact .inl (.inr ⟨hs', hnil'⟩)
    refine .inr ⟨⟨hs', hset', hnil'⟩, ?_⟩
    have hplace := hs.announcer_of_settled hset hnil
    cases a with
    | worker w a =>
      obtain ⟨x, x', s₁, -, hm, heq⟩ := step_worker (ρ.next u _ ha)
      refine .inr ⟨?_, rfl, ?_⟩
      · rw [heq]
        refine congrArg Announcer.phase (hm.announcer_eq ?_)
        rcases hplace with ⟨ha | ha, -⟩ | ⟨ev, ha⟩ <;> rw [ha] <;> nofun
      · rcases Action.owner_worker w a with h | h <;> rw [h] <;> nofun
    | announcer a =>
      have hm := step_announcer (ρ.next u _ ha)
      refine .inl ?_
      generalize ρ.state u = s at *
      generalize ρ.state (u + 1) = s' at *
      cases hm with
      | leave _ hdone =>
        rw [hs.live] at hdone
        cases hdone
      | look ha _ => simp [ha, Announcer.phase]
      | found ev ha _ => simp [ha, Announcer.phase]
      | send ev ha _ => simp at hnil'
      | miss ha hev =>
        rcases hplace with ⟨-, hmap⟩ | ⟨ev, hev⟩
        · exact absurd hev hmap
        · rw [ha] at hev
          cases hev
      | commit ha _ | park ha => simp [ha] at hplace
    | consumer a =>
      rcases hρ.consumer_next hw hs ha with ⟨hne, -⟩ | ⟨block, -, heq⟩
      · exact absurd hnil hne
      · exact .inr ⟨by rw [heq], rfl, nofun⟩
    | cancel => exact absurd ha (hρ.not_cancel u)
  obtain ⟨u, hu, hr | ⟨hs', hne⟩⟩ := hlead
  · exact ⟨u, hu, hr⟩
  · obtain ⟨v, hv, hr⟩ := hρ.receives_of_channel hw hs' hne
    exact ⟨v, by omega, hr⟩

/-! ### With a worker -/

/-- The announcer finds nothing: it goes on to wait. -/
theorem AnnouncerMove.starved (hm : AnnouncerMove cfg s s') (hdone : s.isDone = false)
    (hnone : s.newBlocksMap[s.next]? = none) (hpending : s.announcer.pending = 0) :
    s'.announcer.phase < s.announcer.phase ∧ s'.workers = s.workers ∧
      s'.newBlocksMap = s.newBlocksMap ∧ s'.height = s.height := by
  cases hm with
  | leave _ h =>
    rw [hdone] at h
    cases h
  | found ev _ hev =>
    rw [hnone] at hev
    cases hev
  | send ev ha _ =>
    rw [ha] at hpending
    cases hpending
  | look ha _ | miss ha _ | commit ha _ | park ha =>
    rw [ha]
    exact ⟨by simp [Announcer.phase], rfl, rfl, rfl⟩

theorem enabled_of_locks (h : s.announcer.locks = true) :
    Enabled (step cfg stop) Action.owner .announcer s := by
  cases ha : s.announcer with
  | missing => exact ⟨.announcer .onMissing, rfl, by simp [step, announcerStep, ha]⟩
  | parking => exact ⟨.announcer .park, rfl, by simp [step, announcerStep, ha]⟩
  | _ =>
    rw [ha] at h
    cases h

/-- The party that lets a worker get hold of the lock. -/
def lockHelper (w : ℕ) (s : State β) : Proc :=
  if s.announcer.locks then .announcer else .worker w

theorem LiveRun.fair_lockHelper (hρ : LiveRun cfg stop start ρ) (w : ℕ) (s : State β) :
    ρ.WeaklyFair Action.owner (lockHelper w s) := by
  unfold lockHelper
  split_ifs
  · exact hρ.fair_announcer
  · exact hρ.fair_worker w

/-- The next height is with the worker: it is not announced and not deposited. -/
theorem Awaiting.of_owns (hs : Awaiting cfg stop start r s)
    (hown : Owns s.workers w (start.toNat + r)) :
    s.next = start.toNat + r ∧ s.newBlocksC = [] ∧ s.announcer.pending = 0 ∧
      s.newBlocksMap[s.next]? = none := by
  have hnext := hs.next_eq
  obtain ⟨hle, -, hnone⟩ := Ownership.owned hs.inOrder.ownership w _ hown
  unfold State.popped at hle
  have heq : s.next = start.toNat + r := by omega
  exact ⟨heq, List.eq_nil_of_length_eq_zero (by omega), by omega, heq ▸ hnone⟩

theorem Awaiting.size_le (hs : Awaiting cfg stop start r s) :
    s.newBlocksMap.size ≤ 1024 * cfg.jobs + cfg.jobs := by
  have hcount : s.workers.countP Worker.isHeld ≤ s.workers.length := List.countP_le_length
  have hlen := hs.workers
  have hsize := hs.bounded.2
  omega

/-- How far a worker about to deposit is from the lock: other workers may come first while
there is room in the map. -/
def depositRank (cfg : Syncer) (s : State β) : ℕ :=
  (1024 * cfg.jobs + cfg.jobs - s.newBlocksMap.size) * 8 + s.announcer.phase

theorem Announcer.phase_wake_le (a : Announcer β) : a.wake.phase ≤ a.phase + 3 := by
  cases a <;> simp [Announcer.wake, Announcer.phase]

/-- Another worker deposits first. -/
theorem depositRank_deposit {v h : ℕ} {newBlock : NewBlockData β} (ho : s.Ownership)
    (hx : s.workers[v]? = some (.deposit h newBlock))
    (hle : (s.newBlocksMap.insert h newBlock).size ≤ 1024 * cfg.jobs + cfg.jobs) :
    depositRank cfg (depositBlock s h newBlock) < depositRank cfg s := by
  have hnone := (Ownership.owned ho v h ⟨_, hx, rfl⟩).2.2
  have hsize : (s.newBlocksMap.insert h newBlock).size = s.newBlocksMap.size + 1 := by
    rw [Std.ExtTreeMap.size_insert, Std.ExtTreeMap.contains_eq_isSome_getElem?, hnone]
    rfl
  have hphase := s.announcer.phase_wake_le
  change (_ - (s.newBlocksMap.insert h newBlock).size) * 8 + s.announcer.wake.phase < _
  unfold depositRank
  omega

/-- A worker about to deposit the next height: what one action does. -/
theorem LiveRun.deposit_next (hρ : LiveRun cfg stop start ρ) (hw : Wanted stop start r)
    {newBlock : NewBlockData β} {a : Action β} (hs : Awaiting cfg stop start r (ρ.state u))
    (hs' : Awaiting cfg stop start r (ρ.state (u + 1)))
    (hx : (ρ.state u).workers[w]? = some (.deposit (start.toNat + r) newBlock))
    (ha : ρ.action u = some a) :
    (ρ.state (u + 1)).Settled (start.toNat + r) ∨
      (ρ.state (u + 1)).workers[w]? = some (.deposit (start.toNat + r) newBlock) ∧
        (depositRank cfg (ρ.state (u + 1)) < depositRank cfg (ρ.state u) ∨
          depositRank cfg (ρ.state (u + 1)) = depositRank cfg (ρ.state u) ∧
            lockHelper w (ρ.state (u + 1)) = lockHelper w (ρ.state u) ∧
              a.owner ≠ lockHelper w (ρ.state u)) := by
  obtain ⟨-, hnil, hpending, hnone⟩ := hs.of_owns ⟨_, hx, rfl⟩
  cases a with
  | worker v a =>
    obtain ⟨y, y', s₁, hy, hm, heq⟩ := step_worker (ρ.next u _ ha)
    by_cases hv : v = w
    · subst hv
      rw [hx] at hy
      obtain rfl := Option.some.inj hy
      cases hm with
      | deposit _ _ hlock =>
        refine .inl (.inl ?_)
        rw [heq]
        change ((ρ.state u).newBlocksMap.insert (start.toNat + r) newBlock)[start.toNat + r]? ≠ none
        simp
    · refine .inr ⟨?_, ?_⟩
      · rw [heq]
        exact (List.getElem?_set_ne hv).trans hx
      · have howner : (Action.worker v a).owner ≠ lockHelper w (ρ.state u) := by
          unfold lockHelper
          rcases Action.owner_worker v a with h | h <;> rw [h] <;> split_ifs <;> simp [hv]
        cases hm with
        | deposit h block hlock =>
          have hle := hs'.size_le
          rw [heq] at hle ⊢
          exact .inl (depositRank_deposit hs.inOrder.ownership hy hle)
        | _ => exact .inr (by rw [heq]; exact ⟨rfl, rfl, howner⟩)
  | announcer a =>
    obtain ⟨hphase, hworkers, hmap, -⟩ :=
      (step_announcer (ρ.next u _ ha)).starved hs.live hnone hpending
    refine .inr ⟨by rw [hworkers, hx], .inl ?_⟩
    unfold depositRank
    rw [hmap]
    omega
  | consumer a =>
    rcases hρ.consumer_next hw hs ha with ⟨hne, -⟩ | ⟨block, -, heq⟩
    · exact absurd hnil hne
    · refine .inr ⟨by rw [heq]; exact hx, .inr ⟨by rw [heq]; rfl, by rw [heq]; rfl, ?_⟩⟩
      unfold lockHelper
      split_ifs <;> rintro ⟨⟩
  | cancel => exact absurd ha (hρ.not_cancel u)

theorem LiveRun.receives_of_deposit (hρ : LiveRun cfg stop start ρ) (hw : Wanted stop start r)
    {newBlock : NewBlockData β} (hs : Awaiting cfg stop start r (ρ.state t))
    (hx : (ρ.state t).workers[w]? = some (.deposit (start.toNat + r) newBlock)) :
    ∃ u, t ≤ u ∧ (ρ.state u).received = r + 1 := by
  have hlead : ∃ u, t ≤ u ∧ ((ρ.state u).received = r + 1 ∨
      Awaiting cfg stop start r (ρ.state u) ∧ (ρ.state u).Settled (start.toNat + r)) := by
    refine Execution.eventually_of_rank
      (P := fun s => Awaiting cfg stop start r s ∧
        s.workers[w]? = some (.deposit (start.toNat + r) newBlock))
      (Q := fun s => s.received = r + 1 ∨
        Awaiting cfg stop start r s ∧ s.Settled (start.toNat + r))
      Action.owner (depositRank cfg) (lockHelper w) (fun s _ => hρ.fair_lockHelper w s) ?_ ?_
      ⟨hs, hx⟩
    · rintro s ⟨-, hx⟩
      unfold lockHelper
      split_ifs with hlock
      · exact enabled_of_locks hlock
      · exact ⟨.worker w .deposit, rfl, by simp [step, hx, workerStep, hlock]⟩
    · rintro u a - ha ⟨hs, hx⟩
      rcases hρ.awaiting_next hw hs ha with hr | hs'
      · exact .inl (.inl hr)
      · rcases hρ.deposit_next hw hs hs' hx ha with hset | ⟨hx', hrank⟩
        · exact .inl (.inr ⟨hs', hset⟩)
        · exact .inr ⟨⟨hs', hx'⟩, hrank⟩
  obtain ⟨u, hu, hr | ⟨hs', hset⟩⟩ := hlead
  · exact ⟨u, hu, hr⟩
  · obtain ⟨v, hv, hr⟩ := hρ.receives_of_settled hw hs' hset
    exact ⟨v, by omega, hr⟩

/-- Before the next block is received, the consumer waits for it. -/
theorem LiveRun.awaiting_or_received (hρ : LiveRun cfg stop start ρ) (hw : Wanted stop start r)
    (hs : Awaiting cfg stop start r (ρ.state t)) (u : ℕ) (hu : t ≤ u) :
    (∃ v, t ≤ v ∧ (ρ.state v).received = r + 1) ∨ Awaiting cfg stop start r (ρ.state u) := by
  by_cases hex : ∃ v, t ≤ v ∧ (ρ.state v).received = r + 1
  · exact .inl hex
  · refine .inr (Execution.stable (P := Awaiting cfg stop start r) (fun v a hv ha hs => ?_) hs u hu)
    rcases hρ.awaiting_next hw hs ha with hr | hs'
    · exact absurd ⟨v + 1, by omega, hr⟩ hex
    · exact hs'

theorem LiveRun.receives_of_fetch (hρ : LiveRun cfg stop start ρ) (hw : Wanted stop start r)
    {x : Worker β} (hs : Awaiting cfg stop start r (ρ.state t))
    (hx : (ρ.state t).workers[w]? = some x) (hfetch : x.Fetches (start.toNat + r)) :
    ∃ u, t ≤ u ∧ (ρ.state u).received = r + 1 := by
  obtain ⟨u, hu, hend⟩ := hρ.fetched t w x _ hx hfetch
  rcases hρ.awaiting_or_received hw hs u hu with hr | hs'
  · exact hr
  · rcases hend with hclosed | ⟨newBlock, hdep⟩
    · have hlive := hs'.live
      rw [State.isDone, hclosed] at hlive
      cases hlive
    · obtain ⟨v, hv, hr⟩ := hρ.receives_of_deposit hw hs' hdep
      exact ⟨v, by omega, hr⟩

/-! ### Not handed out -/

/-- While the next height is not handed out, the map is empty and no worker has a height. -/
theorem Awaiting.of_height (hs : Awaiting cfg stop start r s)
    (hheight : s.height = start.toNat + r) :
    s.newBlocksC = [] ∧ s.announcer.pending = 0 ∧ s.newBlocksMap = ∅ ∧
      ∀ (w : ℕ) (x : Worker β), s.workers[w]? = some x → x = .idle ∨ x = .held := by
  have hnext := hs.next_eq
  have ho := hs.inOrder.ownership
  have hle := Ownership.popped_le ho
  have hpopped : s.popped = s.next + s.announcer.pending := rfl
  refine ⟨List.eq_nil_of_length_eq_zero (by omega), by omega, ?_, ?_⟩
  · refine Std.ExtTreeMap.ext_getElem? fun k => ?_
    cases hk : s.newBlocksMap[k]? with
    | none => simp
    | some block =>
      obtain ⟨h₁, h₂, -⟩ := Ownership.entry ho k block hk
      omega
  · intro w x hx
    have hpresent := hs.present x (List.mem_of_getElem? hx)
    have hnot : ∀ h, x.height? ≠ some h := by
      intro h hxh
      obtain ⟨h₁, h₂, -⟩ := Ownership.owned ho w h ⟨x, hx, hxh⟩
      omega
    cases x with
    | idle => exact .inl rfl
    | held => exact .inr rfl
    | exited => exact absurd rfl hpresent
    | _ => exact absurd rfl (hnot _)

/-- How far the first worker is from taking a height. -/
def takeRank (s : State β) : ℕ :=
  ((s.workers[0]?).elim 0 fun x => if x.isHeld then 8 else 0) + s.announcer.phase

theorem LiveRun.take_next (hρ : LiveRun cfg stop start ρ) (hw : Wanted stop start r)
    {a : Action β} (hs : Awaiting cfg stop start r (ρ.state u))
    (hheight : (ρ.state u).height = start.toNat + r) (ha : ρ.action u = some a) :
    (∃ (w : ℕ) (x : Worker β), (ρ.state (u + 1)).workers[w]? = some x ∧
        x.Fetches (start.toNat + r)) ∨
      (ρ.state (u + 1)).height = start.toNat + r ∧
        (takeRank (ρ.state (u + 1)) < takeRank (ρ.state u) ∨
          takeRank (ρ.state (u + 1)) = takeRank (ρ.state u) ∧
            lockHelper 0 (ρ.state (u + 1)) = lockHelper 0 (ρ.state u) ∧
              a.owner ≠ lockHelper 0 (ρ.state u)) := by
  obtain ⟨hnil, hpending, hmap, hidle⟩ := hs.of_height hheight
  cases a with
  | worker v a =>
    obtain ⟨y, y', s₁, hy, hm, heq⟩ := step_worker (ρ.next u _ ha)
    have hlt := (List.getElem?_eq_some_iff.mp hy).1
    rcases hidle v y hy with rfl | rfl
    · cases hm with
      | take =>
        refine .inl ⟨v, .check (ρ.state u).height, ?_, hheight ▸ .inl rfl⟩
        rw [heq]
        exact List.getElem?_set_self hlt
    · cases hm with
      | recheck hlock =>
        have hback : afterSize cfg (ρ.state u) = .idle := by
          simp [afterSize, State.tooFarFromHead, hmap]
        rw [hback] at heq
        refine .inr ⟨by rw [heq]; exact hheight, ?_⟩
        rw [heq]
        by_cases hv : v = 0
        · subst hv
          refine .inl ?_
          unfold takeRank
          rw [hy, List.getElem?_set_self hlt]
          simp [Worker.isHeld]
        · refine .inr ⟨?_, rfl, ?_⟩
          · unfold takeRank
            rw [List.getElem?_set_ne hv]
          · rw [lockHelper, hlock]
            rcases Action.owner_worker v a with h | h <;> rw [h] <;> simp [hv]
  | announcer a =>
    obtain ⟨hphase, hworkers, -, hh⟩ :=
      (step_announcer (ρ.next u _ ha)).starved hs.live (by rw [hmap]; simp) hpending
    refine .inr ⟨hh.trans hheight, .inl ?_⟩
    unfold takeRank
    rw [hworkers]
    omega
  | consumer a =>
    rcases hρ.consumer_next hw hs ha with ⟨hne, -⟩ | ⟨block, -, heq⟩
    · exact absurd hnil hne
    · refine .inr ⟨by rw [heq]; exact hheight, .inr ⟨by rw [heq]; rfl, by rw [heq]; rfl, ?_⟩⟩
      unfold lockHelper
      split_ifs <;> rintro ⟨⟩
  | cancel => exact absurd ha (hρ.not_cancel u)

theorem LiveRun.receives_of_height (hρ : LiveRun cfg stop start ρ) (hw : Wanted stop start r)
    (hs : Awaiting cfg stop start r (ρ.state t)) (hheight : (ρ.state t).height = start.toNat + r) :
    ∃ u, t ≤ u ∧ (ρ.state u).received = r + 1 := by
  have hlead : ∃ u, t ≤ u ∧ ((ρ.state u).received = r + 1 ∨
      Awaiting cfg stop start r (ρ.state u) ∧ ∃ (w : ℕ) (x : Worker β),
        (ρ.state u).workers[w]? = some x ∧ x.Fetches (start.toNat + r)) := by
    refine Execution.eventually_of_rank
      (P := fun s => Awaiting cfg stop start r s ∧ s.height = start.toNat + r)
      (Q := fun s => s.received = r + 1 ∨ Awaiting cfg stop start r s ∧
        ∃ (w : ℕ) (x : Worker β), s.workers[w]? = some x ∧ x.Fetches (start.toNat + r))
      Action.owner takeRank (lockHelper 0) (fun s _ => hρ.fair_lockHelper 0 s) ?_ ?_ ⟨hs, hheight⟩
    · rintro s ⟨hs, hheight⟩
      obtain ⟨-, -, -, hidle⟩ := hs.of_height hheight
      have hlt : 0 < s.workers.length := hs.workers ▸ cfg.jobs_pos
      obtain ⟨x, hx⟩ : ∃ x, s.workers[0]? = some x := ⟨_, List.getElem?_eq_getElem hlt⟩
      unfold lockHelper
      split_ifs with hlock
      · exact enabled_of_locks hlock
      · rcases hidle 0 x hx with rfl | rfl
        · exact ⟨.worker 0 .take, rfl, by simp [step, hx, workerStep]⟩
        · exact ⟨.worker 0 .recheck, rfl, by simp [step, hx, workerStep, hlock]⟩
    · rintro u a - ha ⟨hs, hheight⟩
      rcases hρ.awaiting_next hw hs ha with hr | hs'
      · exact .inl (.inl hr)
      · rcases hρ.take_next hw hs hheight ha with hfetch | ⟨hheight', hrank⟩
        · exact .inl (.inr ⟨hs', hfetch⟩)
        · exact .inr ⟨⟨hs', hheight'⟩, hrank⟩
  obtain ⟨u, hu, hr | ⟨hs', w, x, hx, hfetch⟩⟩ := hlead
  · exact ⟨u, hu, hr⟩
  · obtain ⟨v, hv, hr⟩ := hρ.receives_of_fetch hw hs' hx hfetch
    exact ⟨v, by omega, hr⟩

/-! ### From every state -/

/-- The next block is received. -/
theorem LiveRun.receives (hρ : LiveRun cfg stop start ρ) (hw : Wanted stop start r)
    (hs : Awaiting cfg stop start r (ρ.state t)) : ∃ u, t ≤ u ∧ (ρ.state u).received = r + 1 := by
  by_cases hset : (ρ.state t).Settled (start.toNat + r)
  · exact hρ.receives_of_settled hw hs hset
  obtain ⟨hnone, hpopped⟩ := not_or.mp hset
  have ho := hs.inOrder.ownership
  have hnext := hs.next_eq
  have hle : (ρ.state t).popped ≤ start.toNat + r := not_lt.mp hpopped
  have heq : (ρ.state t).popped = start.toNat + r := by
    unfold State.popped at hle ⊢
    omega
  by_cases hheight : (ρ.state t).height = start.toNat + r
  · exact hρ.receives_of_height hw hs hheight
  · have hlt : (ρ.state t).popped < (ρ.state t).height := by
      have := Ownership.popped_le ho
      omega
    obtain ⟨w, x, hx, hxh, hheld⟩ := Ownership.exists_owner ho
      (by rw [heq]; exact not_not.mp hnone) hlt hs.present
    rw [heq] at hxh
    cases x with
    | deposit h newBlock =>
      obtain rfl := Option.some.inj hxh
      exact hρ.receives_of_deposit hw hs hx
    | check h =>
      obtain rfl := Option.some.inj hxh
      exact hρ.receives_of_fetch hw hs hx (.inl rfl)
    | fetching h =>
      obtain rfl := Option.some.inj hxh
      exact hρ.receives_of_fetch hw hs hx (.inr (.inl rfl))
    | failed h err =>
      obtain rfl := Option.some.inj hxh
      exact hρ.receives_of_fetch hw hs hx (.inr (.inr ⟨err, rfl⟩))
    | idle | held | exited => cases hxh

/-- The block of the height is received at some time from `t` on. -/
def DeliveredFrom (ρ : Execution (step (β := β) cfg stop)) (t h : ℕ) : Prop :=
  ∃ u, t ≤ u ∧ ρ.action u = some (.consumer .receive) ∧
    ∃ block rest, (ρ.state u).newBlocksC = block :: rest ∧ block.height = h

/-- Only the consumer counts, and it counts what it receives. -/
theorem received_step {a : Action β} (h : step cfg stop s a = some s') :
    s'.received = s.received ∨ a = .consumer .receive ∧ ∃ block rest,
      s.newBlocksC = block :: rest := by
  cases a with
  | worker w a =>
    obtain ⟨x, x', s₁, -, hm, rfl⟩ := step_worker h
    exact .inl hm.consumer_frame.2.1
  | announcer a => exact .inl (step_announcer h).consumer_frame.2
  | consumer a =>
    cases step_consumer h with
    | mismatch block rest _ _ hchan _ | skip block rest _ _ hchan _ _
    | call block rest _ _ hchan _ _ => exact .inr ⟨rfl, block, rest, hchan⟩
    | _ => exact .inl rfl
  | cancel =>
    obtain rfl := step_cancel h
    exact .inl rfl

/-- If the count changes, the block after the counted ones was received. -/
theorem LiveRun.delivered (hρ : LiveRun cfg stop start ρ) (hu : t ≤ u)
    (hne : (ρ.state u).received ≠ (ρ.state t).received) :
    DeliveredFrom ρ t (start.toNat + (ρ.state t).received) := by
  induction u, hu using Nat.le_induction with
  | base => exact absurd rfl hne
  | succ u hu ih =>
    by_cases hsame : (ρ.state u).received = (ρ.state t).received
    · cases ha : ρ.action u with
      | none =>
        rw [ρ.idle u ha] at hne
        exact absurd hsame hne
      | some a =>
        rcases received_step (ρ.next u a ha) with hkeep | ⟨rfl, block, rest, hchan⟩
        · exact absurd (hkeep.trans hsame) hne
        · refine ⟨u, hu, ha, block, rest, hchan, ?_⟩
          rw [← hsame]
          exact ((hρ.reaches u).inOrder.streamed.receive hchan).2.2.height
    · exact ih hsame

end LiveRuns

/-- What an announcer that waits can rely on: its block is not in the map, and if its height
was handed out, it is with a worker that is not held back. -/
structure State.WellParked (s : State β) : Prop where
  missing : s.newBlocksMap[s.next]? = none
  owner : s.next < s.height → (∀ x ∈ s.workers, x ≠ .exited) → ∃ (w : ℕ) (x : Worker β),
    s.workers[w]? = some x ∧ x.height? = some s.next ∧ x ≠ .held

theorem SyncReaches.wellParked (h : SyncReaches cfg stop start s) (ha : s.announcer = .waiting) :
    s.WellParked := by
  have hnone : s.newBlocksMap[s.next]? = none := h.alert (by rw [ha]; rfl)
  have hpopped : s.popped = s.next := by rw [State.popped, ha]; rfl
  refine ⟨hnone, fun hlt hall => ?_⟩
  have howner := Ownership.exists_owner h.ownership (hpopped ▸ hnone) (hpopped ▸ hlt) hall
  rwa [hpopped] at howner

/-- **No deadlock.**  For every number of jobs, a waiting announcer has missed no signal and
its height is not behind a worker that is held back; and in every fair live run, from every
time at which the consumer is in its loop, the next height of the range is delivered. -/
theorem next_height_delivered (cfg : Syncer) (stop : Option ℤ) (start : ℤ) :
    (∀ s : State β, SyncReaches cfg stop start s → s.announcer = .waiting → s.WellParked) ∧
      ∀ ρ : Execution (step (β := β) cfg stop), LiveRun cfg stop start ρ →
        ∀ t, (ρ.state t).consumer.result? = none → Wanted stop start (ρ.state t).received →
          DeliveredFrom ρ t (start.toNat + (ρ.state t).received) := by
  refine ⟨fun s h ha => h.wellParked ha, fun ρ hρ t hrun hw => ?_⟩
  obtain ⟨u, hu, hr⟩ := hρ.receives hw (hρ.awaiting rfl hrun)
  exact hρ.delivered hu (by omega)

/-! ### A run of one block -/

/-- When the goroutines have returned, or the announcer is left waiting, none can act. -/
theorem not_enabled_of_returned {result : Result} {p : Proc} (hw : ∀ x ∈ s.workers, x = .exited)
    (ha : s.announcer = .exited ∨ s.announcer = .waiting) (hc : s.consumer = .returned result)
    (hp : p ≠ .environment) :
    ¬ Enabled (step cfg stop) Action.owner p s := by
  rintro ⟨a, rfl, hsome⟩
  obtain ⟨s', hs'⟩ := Option.isSome_iff_exists.mp hsome
  cases a with
  | worker w a =>
    obtain ⟨x, x', s₁, hx, hm, -⟩ := step_worker hs'
    obtain rfl := hw x (List.mem_of_getElem? hx)
    cases hm
  | announcer a =>
    have hnone : step cfg stop s (.announcer a) = none := by
      rcases ha with ha | ha <;> simp [step, announcerStep, ha]
    rw [hnone] at hs'
    cases hs'
  | consumer a =>
    have hnone : step cfg stop s (.consumer a) = none := by
      simp [step, consumerStep, hc]
    rw [hnone] at hs'
    cases hs'
  | cancel => exact hp rfl

def oneBlockRun : List (Action Unit) :=
  [.worker 0 .take, .worker 0 .check, .worker 0 (.fetched (.ok ())), .worker 0 .deposit,
    .announcer .check, .announcer .lookup, .announcer .send,
    .consumer .receive, .consumer (.handled true), .consumer .finish, .consumer .signal,
    .consumer .close, .worker 0 .take, .worker 0 .check, .announcer .check]

theorem oneBlockRun_possible : (perform (step (newSyncer 1 false) (some 1))
    (State.init (newSyncer 1 false) (some 1) 1) oneBlockRun).isSome = true := by
  decide +kernel

def oneBlock : Execution (step (β := Unit) (newSyncer 1 false) (some 1)) :=
  .ofRun _ oneBlockRun oneBlockRun_possible

theorem oneBlock_finished : (oneBlock.state 15).workers = [.exited] ∧
    (oneBlock.state 15).announcer = .exited ∧ (oneBlock.state 15).consumer = .returned .nil ∧
      (oneBlock.state 15).closed = true :=
  ⟨rfl, rfl, rfl, rfl⟩

theorem oneBlock_fair {p : Proc} (hp : p ≠ .environment) : oneBlock.WeaklyFair Action.owner p := by
  obtain ⟨hw, ha, hc, -⟩ := oneBlock_finished
  refine Execution.ofRun_weaklyFair oneBlockRun_possible
    (not_enabled_of_returned (s := oneBlock.state 15) ?_ (.inl ha) hc hp)
  rw [hw]
  simp

theorem oneBlock_live : LiveRun (newSyncer 1 false) (some 1) 1 oneBlock where
  init := rfl
  fair_worker w := oneBlock_fair (by simp)
  fair_announcer := oneBlock_fair (by simp)
  fair_consumer := oneBlock_fair (by simp)
  live := Execution.ofRun_forall (P := fun s : State Unit => s.canceled = false)
    oneBlockRun_possible (by decide +kernel)
  handled t ha := by
    have hmem := List.mem_of_getElem? (l := oneBlockRun) ha
    simp [oneBlockRun] at hmem
  uncanceled t w h hx := by
    have hnone := Execution.ofRun_forall (P := fun s : State Unit =>
      s.workers.all (fun | .failed _ _ => false | _ => true) = true)
      oneBlockRun_possible (by decide +kernel) t
    simpa using List.all_eq_true.mp hnone _ (List.mem_of_getElem? hx)
  fetched t w x h _ _ := by
    have hend := Execution.ofRun_state_of_le oneBlockRun_possible (Nat.le_max_right t 15)
    exact ⟨max t 15, Nat.le_max_left _ _, .inl ((congrArg State.closed hend).trans
      oneBlock_finished.2.2.2)⟩

/-- Block 1 is delivered. -/
theorem next_height_delivered_one :
    LiveRun (newSyncer 1 false) (some 1) 1 oneBlock ∧ DeliveredFrom oneBlock 0 1 :=
  ⟨oneBlock_live, (next_height_delivered (newSyncer 1 false) (some 1) 1).2 oneBlock oneBlock_live 0
    rfl (by rintro _ ⟨⟩; decide)⟩

end EvmGateway.Blocksync
