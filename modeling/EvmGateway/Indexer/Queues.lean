import EvmGateway.Indexer.Startup

/-!
# What a call records

A call of the block syncer is taken apart into its moves once (`callStep_move`).  The events it
adds to the record then mirror the getter and the handler: the heights handed out are the calls
of the getter, a height the getter has passed was indexed or given up, and a height is published
after its batch was written and before the next one is handed out (`CallInv`).

Events of the other queue leave these facts alone (`CallInv.frame`).
-/

namespace EvmGateway

open Lib Blocksync

variable {g : Blocksync.State FetchedBlock} {block : SyncedBlock} {x : Handler}
  {a : Blocksync.Action FetchedBlock}

/-! ## The record -/

def SyncEvent.queue : SyncEvent → Queue
  | .handed q _ | .indexed q _ | .skipped q _ | .failed q _ => q
  | .gapEnded _ _ => .gap
  | .published _ | .tipEnded _ => .tip

/-- The height handed out by the queue. -/
def SyncEvent.handed? (queue : Queue) : SyncEvent → Option ℕ
  | .handed q h => if q = queue then some h else none
  | _ => none

def handedHeights (queue : Queue) (events : List SyncEvent) : List ℕ :=
  events.filterMap (SyncEvent.handed? queue)

def publishedHeights (events : List SyncEvent) : List ℕ := events.filterMap SyncEvent.published?

/-- The height was indexed or given up. -/
def Settled (queue : Queue) (events : List SyncEvent) (h : ℕ) : Prop :=
  .indexed queue h ∈ events ∨ .skipped queue h ∈ events

section Record

variable {queue : Queue} {events new : List SyncEvent} {h : ℕ}

@[simp] theorem handedHeights_append :
    handedHeights queue (events ++ new) = handedHeights queue events ++ handedHeights queue new :=
  List.filterMap_append

@[simp] theorem publishedHeights_append :
    publishedHeights (events ++ new) = publishedHeights events ++ publishedHeights new :=
  List.filterMap_append

theorem mem_handedHeights : h ∈ handedHeights queue events ↔ .handed queue h ∈ events := by
  simp only [handedHeights, List.mem_filterMap]
  constructor
  · rintro ⟨e, he, hh⟩
    cases e with
    | handed q n =>
      simp only [SyncEvent.handed?, Option.ite_none_right_eq_some, Option.some.injEq] at hh
      obtain ⟨rfl, rfl⟩ := hh
      exact he
    | _ => cases hh
  · exact fun he => ⟨_, he, by simp [SyncEvent.handed?]⟩

theorem mem_publishedHeights : h ∈ publishedHeights events ↔ .published h ∈ events := by
  simp only [publishedHeights, List.mem_filterMap]
  constructor
  · rintro ⟨e, he, hh⟩
    cases e with
    | published n =>
      obtain rfl := Option.some.inj hh
      exact he
    | _ => cases hh
  · exact fun he => ⟨_, he, rfl⟩

theorem Settled.append (hs : Settled queue events h) : Settled queue (events ++ new) h :=
  hs.imp (List.mem_append_left _) (List.mem_append_left _)

theorem handedHeights_eq_nil (hnew : ∀ e ∈ new, e.queue ≠ queue) : handedHeights queue new = [] := by
  refine List.filterMap_eq_nil_iff.mpr fun e he => ?_
  cases e with
  | handed q n => exact if_neg (hnew _ he)
  | _ => rfl

theorem publishedHeights_eq_nil (hnew : ∀ e ∈ new, e.queue ≠ .tip) : publishedHeights new = [] := by
  refine List.filterMap_eq_nil_iff.mpr fun e he => ?_
  cases e with
  | published n => exact absurd rfl (hnew _ he)
  | _ => rfl

/-- What holds of the record of every run. -/
structure LogInv (events : List SyncEvent) : Prop where
  indexed_handed : ∀ queue h, .indexed queue h ∈ events → h ∈ handedHeights queue events
  published_after : ∀ l h l', events = l ++ .published h :: l' → .indexed .tip h ∈ l
  published_ascending : (publishedHeights events).Pairwise (· < ·)

theorem LogInv.indexed_of_published (hlog : LogInv events) (h : ℕ)
    (hp : h ∈ publishedHeights events) : .indexed .tip h ∈ events := by
  obtain ⟨l, l', rfl⟩ := List.append_of_mem (mem_publishedHeights.mp hp)
  exact List.mem_append_left _ (hlog.published_after l h l' rfl)

theorem append_published_cases {l l' : List SyncEvent} {e : SyncEvent}
    (heq : events ++ [e] = l ++ .published h :: l') :
    (∃ l'', events = l ++ .published h :: l'') ∨ e = .published h ∧ l = events := by
  rcases List.eq_nil_or_concat l' with rfl | ⟨l'', e', rfl⟩
  · obtain ⟨h₁, h₂⟩ := List.append_inj' heq rfl
    exact .inr ⟨List.head_eq_of_cons_eq h₂, h₁.symm⟩
  · rw [List.concat_eq_append, ← List.cons_append, ← List.append_assoc] at heq
    exact .inl ⟨l'', (List.append_inj' heq rfl).1⟩

/-- The record grows by an event that is true. -/
theorem LogInv.concat {e : SyncEvent} (hlog : LogInv events)
    (hindexed : ∀ q h, e = .indexed q h → h ∈ handedHeights q events)
    (hpublished : ∀ h, e = .published h →
      .indexed .tip h ∈ events ∧ ∀ p ∈ publishedHeights events, p < h) :
    LogInv (events ++ [e]) where
  indexed_handed := by
    intro q h hmem
    rw [handedHeights_append, List.mem_append]
    rcases List.mem_append.mp hmem with hmem | hmem
    · exact .inl (hlog.indexed_handed q h hmem)
    · exact .inl (hindexed q h (List.mem_singleton.mp hmem).symm)
  published_after := by
    intro l h l' heq
    rcases append_published_cases heq with ⟨l'', heq⟩ | ⟨rfl, rfl⟩
    · exact hlog.published_after l h l'' heq
    · exact (hpublished h rfl).1
  published_ascending := by
    rw [publishedHeights_append]
    cases e with
    | published h =>
      refine List.pairwise_append.mpr ⟨hlog.published_ascending, List.pairwise_singleton .., ?_⟩
      intro p hp k hk
      rw [List.mem_singleton.mp hk]
      exact (hpublished h rfl).2 p hp
    | _ =>
      change (publishedHeights events ++ []).Pairwise _
      simpa using hlog.published_ascending

end Record

/-! ## The moves of a call -/

def Handler.block? : Handler → Option SyncedBlock
  | .indexing block | .writing block _ | .cleaning block _ | .deleting block _ _
  | .publishing block => some block
  | .idle | .returned _ => none

/-- The block a handler works on, unless its batch was written. -/
def Handler.unwritten? : Handler → Option SyncedBlock
  | .indexing block | .writing block _ | .cleaning block _ | .deleting block _ _ => some block
  | .publishing _ | .idle | .returned _ => none

/-- The moves of a handler. -/
inductive HandlerMove (S : Syncer) (queue : Queue) (db : DB) :
    Handler → Handler → DB → List SyncEvent → Prop
  | build (block : SyncedBlock) (batch : DBBatch) (n : ℕ)
      (hbuild : buildBatch S.env S.indexer (fetchedOf block) db = .ok (batch, n)) :
      HandlerMove S queue db (.indexing block) (.writing block batch) db []
  | buildErr (block : SyncedBlock) (err : Err) :
      HandlerMove S queue db (.indexing block) (.cleaning block err) db []
  | write (block : SyncedBlock) (batch : DBBatch) :
      HandlerMove S queue db (.writing block batch) (afterIndexing S queue block)
        (applyBatch batch db) [.indexed queue block.height]
  | writeErr (block : SyncedBlock) (batch : DBBatch) (err : Err) :
      HandlerMove S queue db (.writing block batch) (.cleaning block err) db []
  | readBack (block : SyncedBlock) (err : Err) :
      HandlerMove S queue db (.cleaning block err)
        (.deleting block err (resetBlock db block.height)) db []
  | delete (block : SyncedBlock) (err : Err) (batch : DBBatch) (err' : Option Err) :
      HandlerMove S queue db (.deleting block err batch) (.returned err') (applyBatch batch db)
        [failureEvent queue block.height err']
  | deleteErr (block : SyncedBlock) (err : Err) (batch : DBBatch) (err' : Err) :
      HandlerMove S queue db (.deleting block err batch) (.returned (some err')) db
        [failureEvent queue block.height (some err')]
  | publish (block : SyncedBlock) :
      HandlerMove S queue db (.publishing block) (.returned none) db [.published block.height]

theorem handlerStep_move {S : Syncer} {queue : Queue} {db db' : DB} {x' : Handler}
    {a : HandlerAction} {new : List SyncEvent}
    (h : handlerStep S queue db x a = some (x', db', new)) :
    HandlerMove S queue db x x' db' new := by
  unfold handlerStep at h
  split at h
  case h_1 block =>
    cases hbuild : buildBatch S.env S.indexer (fetchedOf block) db with
    | error err =>
      simp only [hbuild] at h
      cases h
      exact .buildErr block err
    | ok r =>
      simp only [hbuild] at h
      cases h
      exact .build block _ _ hbuild
  case h_2 block batch diskErr =>
    cases diskErr with
    | none =>
      cases h
      exact .write block batch
    | some err =>
      cases h
      exact .writeErr block batch _
  case h_3 block err =>
    cases h
    exact .readBack block err
  case h_4 block err batch diskErr =>
    cases diskErr with
    | none =>
      cases h
      exact .delete block err batch _
    | some err' =>
      cases h
      exact .deleteErr block err batch _
  case h_5 block =>
    cases h
    exact .publish block
  case h_6 => cases h

/-- The moves of a call. -/
inductive CallMove (S : Syncer) (answers : ℕ → FetchedBlock → Bool) (cfg : Blocksync.Syncer)
    (stop : Option ℤ) (queue : Queue) (db : DB) (call : SyncCall) :
    SyncCall → DB → List SyncEvent → Prop
  | getter (a : Blocksync.Action FetchedBlock) (g : Blocksync.State FetchedBlock)
      (ha : getterAction answers call.getter a = true)
      (hstep : Blocksync.step cfg stop call.getter a = some g) :
      CallMove S answers cfg stop queue db call ⟨g, call.handler⟩ db []
  | mismatch (g : Blocksync.State FetchedBlock)
      (hstep : Blocksync.step cfg stop call.getter (.consumer .receive) = some g)
      (hg : g.consumer = .returning .mismatch) :
      CallMove S answers cfg stop queue db call ⟨g, call.handler⟩ db []
  | skip (g : Blocksync.State FetchedBlock)
      (hstep : Blocksync.step cfg stop call.getter (.consumer .receive) = some g)
      (hc : call.getter.consumer = .receiving) (hg : g.consumer = .receiving)
      (hexpected : g.expected = call.getter.expected + 1) (hcalls : g.calls = call.getter.calls)
      (hctx : g.canceled = call.getter.canceled) :
      CallMove S answers cfg stop queue db call ⟨g, call.handler⟩ db
        [.skipped queue call.getter.expected]
  | hand (block : SyncedBlock) (g : Blocksync.State FetchedBlock)
      (hstep : Blocksync.step cfg stop call.getter (.consumer .receive) = some g)
      (hc : call.getter.consumer = .receiving) (hg : g.consumer = .handling block)
      (hheight : block.height = call.getter.expected)
      (hexpected : g.expected = call.getter.expected)
      (hcalls : g.calls = call.getter.calls ++ [block])
      (hctx : g.canceled = call.getter.canceled) :
      CallMove S answers cfg stop queue db call ⟨g, .indexing block⟩ db [.handed queue block.height]
  | handler (x : Handler) (db' : DB) (new : List SyncEvent)
      (hm : HandlerMove S queue db call.handler x db' new) :
      CallMove S answers cfg stop queue db call ⟨call.getter, x⟩ db' new
  | resume (block : SyncedBlock) (g : Blocksync.State FetchedBlock)
      (hh : call.handler = .returned none)
      (hstep : Blocksync.step cfg stop call.getter (.consumer (.handled true)) = some g)
      (hc : call.getter.consumer = .handling block) (hg : g.consumer = .receiving)
      (hexpected : g.expected = call.getter.expected + 1) (hcalls : g.calls = call.getter.calls)
      (hctx : g.canceled = call.getter.canceled) :
      CallMove S answers cfg stop queue db call ⟨g, .idle⟩ db []
  | abort (err : Err) (block : SyncedBlock) (g : Blocksync.State FetchedBlock)
      (hh : call.handler = .returned (some err))
      (hstep : Blocksync.step cfg stop call.getter (.consumer (.handled false)) = some g)
      (hc : call.getter.consumer = .handling block) (hg : g.consumer = .returning .handlerErr)
      (hexpected : g.expected = call.getter.expected) (hcalls : g.calls = call.getter.calls)
      (hctx : g.canceled = call.getter.canceled) :
      CallMove S answers cfg stop queue db call ⟨g, .idle⟩ db []

section Moves

variable {S : Syncer} {answers : ℕ → FetchedBlock → Bool} {cfg : Blocksync.Syncer}
  {stop : Option ℤ} {queue : Queue} {db db' : DB} {call call' : SyncCall}
  {g : Blocksync.State FetchedBlock}

theorem receive_of_receiving (hg : g.consumer = .receiving) :
    call.receive queue g = (⟨g, call.handler⟩, [.skipped queue call.getter.expected]) := by
  simp only [SyncCall.receive, hg]

/-- Receiving a block: its height is given up, or it is handed out. -/
theorem receive_move
    (hstep : Blocksync.step cfg stop call.getter (.consumer .receive) = some g) :
    CallMove S answers cfg stop queue db call (call.receive queue g).1 db
      (call.receive queue g).2 := by
  cases step_consumer hstep with
  | mismatch block rest hc _ _ _ => exact .mismatch _ hstep rfl
  | skip block rest hc _ _ _ _ =>
    rw [receive_of_receiving]
    · exact .skip _ hstep hc hc rfl rfl rfl
    · exact hc
  | call block rest hc _ _ hheight _ => exact .hand block _ hstep hc rfl hheight rfl rfl rfl

/-- The handler returns: the getter goes on, or the call ends. -/
theorem finish_move {err : Option Err} (hh : call.handler = .returned err)
    (hstep : Blocksync.step cfg stop call.getter (.consumer (.handled err.isNone)) = some g) :
    CallMove S answers cfg stop queue db call ⟨g, .idle⟩ db [] := by
  cases err with
  | none =>
    cases step_consumer hstep with
    | handled block hc => exact .resume block _ hh hstep hc rfl rfl rfl rfl
  | some err =>
    cases step_consumer hstep with
    | handlerErr block hc => exact .abort err block _ hh hstep hc rfl rfl rfl rfl

theorem callStep_move {a : CallAction} {new : List SyncEvent}
    (h : callStep S answers cfg stop queue db call a = some (call', db', new)) :
    CallMove S answers cfg stop queue db call call' db' new := by
  unfold callStep at h
  cases a with
  | getter a =>
    simp only at h
    split_ifs at h with ha
    obtain ⟨g, hstep, heq⟩ := Option.map_eq_some_iff.mp h
    cases heq
    exact .getter a g ha hstep
  | receive =>
    obtain ⟨g, hstep, heq⟩ := Option.map_eq_some_iff.mp h
    cases heq
    exact receive_move hstep
  | handler a =>
    obtain ⟨⟨x, db₁, new₁⟩, hstep, heq⟩ := Option.map_eq_some_iff.mp h
    cases heq
    exact .handler _ _ _ (handlerStep_move hstep)
  | finish =>
    simp only at h
    split at h
    case h_1 err hh =>
      obtain ⟨g, hstep, heq⟩ := Option.map_eq_some_iff.mp h
      cases heq
      exact finish_move hh hstep
    case h_2 => cases h

end Moves

/-! ## The getter of a call -/

/-- What an action that does not involve the handler leaves as it was. -/
structure GetterFrame (g g' : Blocksync.State FetchedBlock) : Prop where
  calls : g'.calls = g.calls
  expected : g'.expected = g.expected
  canceled : g'.canceled = g.canceled
  handling : ∀ block, g'.consumer = .handling block ↔ g.consumer = .handling block
  handlerErr : g'.consumer.result? = some .handlerErr → g.consumer.result? = some .handlerErr

theorem getterAction_frame {answers : ℕ → FetchedBlock → Bool} {cfg : Blocksync.Syncer}
    {stop : Option ℤ} {g' : Blocksync.State FetchedBlock} (ha : getterAction answers g a = true)
    (h : Blocksync.step cfg stop g a = some g') :
    GetterFrame g g' := by
  cases a with
  | worker w a =>
    obtain ⟨x, x', s₁, -, hm, rfl⟩ := step_worker h
    cases hm <;> exact ⟨rfl, rfl, rfl, fun _ => Iff.rfl, id⟩
  | announcer a => cases step_announcer h <;> exact ⟨rfl, rfl, rfl, fun _ => Iff.rfl, id⟩
  | consumer a =>
    cases step_consumer h with
    | streamClosed hc _ _ _ | ctxDone hc _ _ | finish hc _ | signal result hc | close result hc =>
      exact ⟨rfl, rfl, rfl, by simp [hc], by simp [hc, Consumer.result?]⟩
    | _ => simp [getterAction] at ha
  | cancel => simp [getterAction] at ha

theorem getterAction_from {answers : ℕ → FetchedBlock → Bool} {cfg : Blocksync.Syncer}
    {stop : Option ℤ} {g' : Blocksync.State FetchedBlock} (ha : getterAction answers g a = true)
    (hg : g.From fun h fetched => answers h fetched = true)
    (h : Blocksync.step cfg stop g a = some g') :
    g'.From fun h fetched => answers h fetched = true := by
  refine step_from hg ?_ h
  rintro w n block rfl hx
  simpa [getterAction, hx] using ha

/-! ## The invariant of a call -/

section Invariant

/-- How a call and its record fit together.  The queue handed out the heights `before` in
earlier calls. -/
structure CallInv (answers : ℕ → FetchedBlock → Bool) (cfg : Blocksync.Syncer) (stop : Option ℤ)
    (start : ℤ) (queue : Queue) (before : List ℕ) (canceled : Bool) (call : SyncCall)
    (events : List SyncEvent) : Prop where
  reaches : SyncReaches cfg stop start call.getter
  source : call.getter.From fun h fetched => answers h fetched = true
  ctx : call.getter.canceled = canceled
  handed : handedHeights queue events = before ++ call.getter.calls.map (·.height)
  idle : call.handler = .idle ↔ ∀ block, call.getter.consumer ≠ .handling block
  current : ∀ block, call.handler.block? = some block → call.getter.consumer = .handling block
  height : ∀ block, call.getter.consumer = .handling block →
    block.height = call.getter.expected ∧ block.height ∈ handedHeights queue events
  returned : ∀ err block, call.handler = .returned err → call.getter.consumer = .handling block →
    if err.isNone then Settled queue events block.height else .failed queue block.height ∈ events
  settled : ∀ h, start.toNat ≤ h → h < call.getter.expected → Settled queue events h
  failed : call.getter.consumer.result? = some .handlerErr → ∃ h, .failed queue h ∈ events
  unwritten : ∀ block, call.handler.unwritten? = some block →
    .indexed queue block.height ∉ events
  publishing : ∀ block, call.handler = .publishing block →
    queue = .tip ∧ .indexed .tip block.height ∈ events
  unpublished : ∀ block, call.handler.block? = some block → queue = .tip →
    ∀ p ∈ publishedHeights events, p < block.height

variable {S : Syncer} {answers : ℕ → FetchedBlock → Bool} {cfg : Blocksync.Syncer}
  {stop : Option ℤ} {start : ℤ} {queue : Queue} {before : List ℕ} {canceled : Bool}
  {db db' : DB} {call call' : SyncCall} {events new : List SyncEvent}

variable (hi : CallInv answers cfg stop start queue before canceled call events)

include hi

/-- Events of the other queue change nothing. -/
theorem CallInv.frame (hnew : ∀ e ∈ new, e.queue ≠ queue) :
    CallInv answers cfg stop start queue before canceled call (events ++ new) where
  reaches := hi.reaches
  source := hi.source
  ctx := hi.ctx
  handed := by rw [handedHeights_append, handedHeights_eq_nil hnew, List.append_nil, hi.handed]
  idle := hi.idle
  current := hi.current
  height := fun block hc => by
    rw [handedHeights_append, handedHeights_eq_nil hnew, List.append_nil]
    exact hi.height block hc
  returned := by
    intro err block hh hc
    have hret := hi.returned err block hh hc
    split_ifs at hret ⊢
    · exact hret.append
    · exact List.mem_append_left _ hret
  settled := fun h hle hlt => (hi.settled h hle hlt).append
  failed := fun hres => (hi.failed hres).imp fun _ => List.mem_append_left _
  unwritten := by
    intro block hb hmem
    rcases List.mem_append.mp hmem with hmem | hmem
    · exact hi.unwritten block hb hmem
    · exact hnew _ hmem rfl
  publishing := fun block hh =>
    ⟨(hi.publishing block hh).1, List.mem_append_left _ (hi.publishing block hh).2⟩
  unpublished := by
    intro block hb hq p hp
    subst hq
    rw [publishedHeights_append, publishedHeights_eq_nil hnew, List.append_nil] at hp
    exact hi.unpublished block hb rfl p hp

/-- The heights handed out are below the one the getter expects, unless it is in the handler. -/
theorem CallInv.handed_lt (hbefore : ∀ h ∈ before, h < start.toNat)
    (hc : call.getter.consumer = .receiving) (h : ℕ) (hh : h ∈ handedHeights queue events) :
    h < call.getter.expected := by
  obtain ⟨-, hst, hcons⟩ := hi.reaches.inOrder
  have hexp := hcons.receiving hc
  rw [hi.handed, List.mem_append, hst.calls] at hh
  rcases hh with hh | hh
  · have := hbefore h hh
    omega
  · have := (List.mem_range'_1.mp (List.mem_of_mem_filter hh)).2
    omega

theorem CallInv.getter (ha : getterAction answers call.getter a = true)
    (hstep : Blocksync.step cfg stop call.getter a = some g) :
    CallInv answers cfg stop start queue before canceled ⟨g, call.handler⟩ events := by
  have hf := getterAction_frame ha hstep
  exact {
    reaches := .step a hi.reaches hstep
    source := getterAction_from ha hi.source hstep
    ctx := hf.canceled.trans hi.ctx
    handed := by rw [hf.calls, hi.handed]
    idle := by simpa only [ne_eq, hf.handling] using hi.idle
    current := fun block hb => (hf.handling block).mpr (hi.current block hb)
    height := fun block hc => by
      rw [hf.expected]
      exact hi.height block ((hf.handling block).mp hc)
    returned := fun err block hh hc => hi.returned err block hh ((hf.handling block).mp hc)
    settled := fun h hle hlt => hi.settled h hle (hf.expected ▸ hlt)
    failed := fun hres => hi.failed (hf.handlerErr hres)
    unwritten := hi.unwritten
    publishing := hi.publishing
    unpublished := hi.unpublished }

theorem CallInv.consumer_from {a : ConsumerAction}
    (hstep : Blocksync.step cfg stop call.getter (.consumer a) = some g) :
    g.From fun h fetched => answers h fetched = true :=
  step_from hi.source (fun _ _ _ ha => by cases ha) hstep

omit hi in
theorem Handler.block?_of_unwritten? (h : x.unwritten? = some block) : x.block? = some block := by
  cases x <;> first | exact h | cases h

/-- A call between two blocks, at the height `expected`. -/
theorem CallInv.between {a : ConsumerAction}
    (hstep : Blocksync.step cfg stop call.getter (.consumer a) = some g)
    (hg : ∀ block, g.consumer ≠ .handling block) (hcalls : g.calls = call.getter.calls)
    (hctx : g.canceled = call.getter.canceled) (hnew : handedHeights queue new = [])
    (hsettled : ∀ h, start.toNat ≤ h → h < g.expected → Settled queue (events ++ new) h)
    (hfailed : g.consumer.result? = some .handlerErr → ∃ h, .failed queue h ∈ events) :
    CallInv answers cfg stop start queue before canceled ⟨g, .idle⟩ (events ++ new) where
  reaches := .step _ hi.reaches hstep
  source := hi.consumer_from hstep
  ctx := hctx.trans hi.ctx
  handed := by rw [handedHeights_append, hnew, List.append_nil, hcalls, hi.handed]
  idle := iff_of_true rfl hg
  current := nofun
  height := fun block hc => absurd hc (hg block)
  returned := nofun
  settled := hsettled
  failed := fun hres => (hfailed hres).imp fun _ => List.mem_append_left _
  unwritten := nofun
  publishing := nofun
  unpublished := nofun

/-- A height is given up between two blocks. -/
theorem CallInv.skip (hstep : Blocksync.step cfg stop call.getter (.consumer .receive) = some g)
    (hc : call.getter.consumer = .receiving) (hg : g.consumer = .receiving)
    (hexpected : g.expected = call.getter.expected + 1) (hcalls : g.calls = call.getter.calls)
    (hctx : g.canceled = call.getter.canceled) :
    CallInv answers cfg stop start queue before canceled ⟨g, call.handler⟩
      (events ++ [.skipped queue call.getter.expected]) := by
  have hidle : call.handler = .idle := hi.idle.mpr (by simp [hc])
  rw [hidle]
  refine hi.between hstep (by simp [hg]) hcalls hctx rfl ?_ (by simp [hg, Consumer.result?])
  intro h hle hlt
  rcases Nat.lt_succ_iff_lt_or_eq.mp (hexpected ▸ hlt) with hlt | rfl
  · exact (hi.settled h hle hlt).append
  · exact .inr (by simp)

theorem CallInv.hand (hlog : LogInv events) (hbefore : ∀ h ∈ before, h < start.toNat)
    (hstep : Blocksync.step cfg stop call.getter (.consumer .receive) = some g)
    (hc : call.getter.consumer = .receiving) (hg : g.consumer = .handling block)
    (hheight : block.height = call.getter.expected)
    (hexpected : g.expected = call.getter.expected)
    (hcalls : g.calls = call.getter.calls ++ [block]) (hctx : g.canceled = call.getter.canceled) :
    CallInv answers cfg stop start queue before canceled ⟨g, .indexing block⟩
      (events ++ [.handed queue block.height]) where
  reaches := .step _ hi.reaches hstep
  source := hi.consumer_from hstep
  ctx := hctx.trans hi.ctx
  handed := by
    rw [handedHeights_append, hi.handed, hcalls]
    simp [handedHeights, SyncEvent.handed?]
  idle := by simp [hg]
  current := by
    rintro _ ⟨⟩
    exact hg
  height := by
    intro b hb
    obtain rfl : block = b := by simpa [hg] using hb
    exact ⟨hheight.trans hexpected.symm, mem_handedHeights.mpr (by simp)⟩
  returned := nofun
  settled := fun h hle hlt => (hi.settled h hle (hexpected ▸ hlt)).append
  failed := by simp [hg, Consumer.result?]
  unwritten := by
    rintro _ ⟨⟩ hmem
    have hlt := hi.handed_lt hbefore hc block.height
      (hlog.indexed_handed queue block.height (by simpa using hmem))
    omega
  publishing := nofun
  unpublished := by
    rintro _ ⟨⟩ rfl p hp
    rw [publishedHeights_append, List.mem_append] at hp
    rcases hp with hp | hp
    · rw [hheight]
      exact hi.handed_lt hbefore hc p (hlog.indexed_handed .tip p (hlog.indexed_of_published p hp))
    · cases hp

/-- The handler returns without an error. -/
theorem CallInv.resume (hh : call.handler = .returned none)
    (hstep : Blocksync.step cfg stop call.getter (.consumer (.handled true)) = some g)
    (hc : call.getter.consumer = .handling block) (hg : g.consumer = .receiving)
    (hexpected : g.expected = call.getter.expected + 1) (hcalls : g.calls = call.getter.calls)
    (hctx : g.canceled = call.getter.canceled) :
    CallInv answers cfg stop start queue before canceled ⟨g, .idle⟩ events := by
  rw [← List.append_nil events]
  refine hi.between hstep (by simp [hg]) hcalls hctx rfl ?_ (by simp [hg, Consumer.result?])
  intro h hle hlt
  rw [List.append_nil]
  rcases Nat.lt_succ_iff_lt_or_eq.mp (hexpected ▸ hlt) with hlt | rfl
  · exact hi.settled h hle hlt
  · rw [← (hi.height block hc).1]
    simpa using hi.returned none block hh hc

theorem CallInv.abort {err : Err} (hh : call.handler = .returned (some err))
    (hstep : Blocksync.step cfg stop call.getter (.consumer (.handled false)) = some g)
    (hc : call.getter.consumer = .handling block) (hg : g.consumer = .returning .handlerErr)
    (hexpected : g.expected = call.getter.expected) (hcalls : g.calls = call.getter.calls)
    (hctx : g.canceled = call.getter.canceled) :
    CallInv answers cfg stop start queue before canceled ⟨g, .idle⟩ events := by
  rw [← List.append_nil events]
  refine hi.between hstep (by simp [hg]) hcalls hctx rfl ?_ ?_
  · intro h hle hlt
    exact (hi.settled h hle (hexpected ▸ hlt)).append
  · exact fun _ => ⟨block.height, by simpa using hi.returned (some err) block hh hc⟩

theorem CallInv.work {block : SyncedBlock} {x : Handler}
    (hblock : call.handler.block? = some block) (hx : x.block? = some block)
    (hhanded : handedHeights queue new = []) (hpublished : publishedHeights new = [])
    (hunwritten : x.unwritten? = some block → .indexed queue block.height ∉ events ++ new)
    (hpublishing : x = .publishing block → queue = .tip ∧ .indexed .tip block.height ∈ events ++
      new) :
    CallInv answers cfg stop start queue before canceled ⟨call.getter, x⟩ (events ++ new) where
  reaches := hi.reaches
  source := hi.source
  ctx := hi.ctx
  handed := by rw [handedHeights_append, hhanded, List.append_nil, hi.handed]
  idle := by
    have hc := hi.current block hblock
    refine iff_of_false ?_ (by simp [hc])
    rintro rfl
    cases hx
  current := by
    intro b hb
    obtain rfl : block = b := Option.some.inj (hx.symm.trans hb)
    exact hi.current block hblock
  height := fun b hc => by
    rw [handedHeights_append, hhanded, List.append_nil]
    exact hi.height b hc
  returned := by
    rintro err b rfl
    cases hx
  settled := fun h hle hlt => (hi.settled h hle hlt).append
  failed := fun hres => (hi.failed hres).imp fun _ => List.mem_append_left _
  unwritten := by
    intro b hb
    obtain rfl : block = b := Option.some.inj (hx.symm.trans (Handler.block?_of_unwritten? hb))
    exact hunwritten hb
  publishing := by
    rintro b rfl
    obtain rfl : b = block := Option.some.inj hx
    exact hpublishing rfl
  unpublished := by
    intro b hb hq p hp
    obtain rfl : block = b := Option.some.inj (hx.symm.trans hb)
    rw [publishedHeights_append, hpublished, List.append_nil] at hp
    exact hi.unpublished block hblock hq p hp

theorem CallInv.settle {err : Option Err} (hblock : call.handler.block? = some block)
    (hhanded : handedHeights queue new = [])
    (hreturned : if err.isNone then Settled queue (events ++ new) block.height
      else .failed queue block.height ∈ events ++ new) :
    CallInv answers cfg stop start queue before canceled ⟨call.getter, .returned err⟩
      (events ++ new) where
  reaches := hi.reaches
  source := hi.source
  ctx := hi.ctx
  handed := by rw [handedHeights_append, hhanded, List.append_nil, hi.handed]
  idle := iff_of_false (by simp) (by simp [hi.current block hblock])
  current := nofun
  height := fun b hc => by
    rw [handedHeights_append, hhanded, List.append_nil]
    exact hi.height b hc
  returned := by
    rintro _ b ⟨⟩ hc
    obtain rfl : block = b := by simpa [hi.current block hblock] using hc
    exact hreturned
  settled := fun h hle hlt => (hi.settled h hle hlt).append
  failed := fun hres => (hi.failed hres).imp fun _ => List.mem_append_left _
  unwritten := nofun
  publishing := nofun
  unpublished := nofun

omit hi in
theorem returned_failureEvent (height : ℕ) (err : Option Err) :
    if err.isNone then Settled queue (events ++ [failureEvent queue height err]) height
    else .failed queue height ∈ events ++ [failureEvent queue height err] := by
  cases err with
  | none => exact .inr (by simp [failureEvent])
  | some err => simp [failureEvent]

omit hi in
theorem handedHeights_failureEvent (height : ℕ) (err : Option Err) :
    handedHeights queue [failureEvent queue height err] = [] := by
  cases err <;> rfl

theorem CallInv.write {batch : DBBatch} (hh : call.handler = .writing block batch) :
    CallInv answers cfg stop start queue before canceled
      ⟨call.getter, afterIndexing S queue block⟩ (events ++ [.indexed queue block.height]) := by
  have hblock : call.handler.block? = some block := by rw [hh]; rfl
  unfold afterIndexing
  split_ifs with hpublish
  · refine hi.work hblock rfl rfl rfl nofun fun _ => ⟨hpublish.1, ?_⟩
    rw [hpublish.1]
    simp
  · exact hi.settle hblock rfl (.inl (by simp))

theorem HandlerMove.inv (hlog : LogInv events)
    (hm : HandlerMove S queue db call.handler x db' new) :
    LogInv (events ++ new) ∧
      CallInv answers cfg stop start queue before canceled ⟨call.getter, x⟩ (events ++ new) := by
  -- a piece that records nothing
  have hquiet : ∀ (block : SyncedBlock) (x : Handler), call.handler.unwritten? = some block →
      x.unwritten? = some block → (∀ b, x ≠ .publishing b) → LogInv (events ++ []) ∧
        CallInv answers cfg stop start queue before canceled ⟨call.getter, x⟩ (events ++ []) := by
    intro block x hb hx hne
    rw [List.append_nil]
    have hwork : CallInv answers cfg stop start queue before canceled ⟨call.getter, x⟩
        (events ++ []) :=
      hi.work (Handler.block?_of_unwritten? hb) (Handler.block?_of_unwritten? hx) rfl rfl
        (fun _ => by simpa using hi.unwritten block hb) (fun h => absurd h (hne _))
    rw [List.append_nil] at hwork
    exact ⟨hlog, hwork⟩
  generalize hh : call.handler = y at hm
  cases hm with
  | build block batch n hbuild => exact hquiet block _ (by rw [hh]; rfl) rfl nofun
  | buildErr block err => exact hquiet block _ (by rw [hh]; rfl) rfl nofun
  | write block batch =>
    refine ⟨hlog.concat ?_ nofun, hi.write hh⟩
    rintro q h ⟨⟩
    exact (hi.height block (hi.current block (by rw [hh]; rfl))).2
  | writeErr block batch err => exact hquiet block _ (by rw [hh]; rfl) rfl nofun
  | readBack block err => exact hquiet block _ (by rw [hh]; rfl) rfl nofun
  | delete block err batch err' =>
    refine ⟨hlog.concat ?_ ?_, hi.settle (by rw [hh]; rfl) (handedHeights_failureEvent _ _)
      (returned_failureEvent _ _)⟩
    all_goals cases err' <;> nofun
  | deleteErr block err batch err' =>
    exact ⟨hlog.concat nofun nofun, hi.settle (by rw [hh]; rfl) rfl (returned_failureEvent _ _)⟩
  | publish block =>
    obtain ⟨rfl, hindexed⟩ := hi.publishing block hh
    refine ⟨hlog.concat nofun ?_, hi.settle (by rw [hh]; rfl) rfl (.inl ?_)⟩
    · rintro h ⟨⟩
      exact ⟨hindexed, hi.unpublished block (by rw [hh]; rfl) rfl⟩
    · exact List.mem_append_left _ hindexed

/-- **Every move of a call** keeps the call and the record in step. -/
theorem CallMove.inv (hlog : LogInv events) (hbefore : ∀ h ∈ before, h < start.toNat)
    (hm : CallMove S answers cfg stop queue db call call' db' new) :
    LogInv (events ++ new) ∧
      CallInv answers cfg stop start queue before canceled call' (events ++ new) := by
  cases hm with
  | getter a g ha hstep =>
    rw [List.append_nil]
    exact ⟨hlog, hi.getter ha hstep⟩
  | mismatch g hstep hg =>
    have hno := (SyncReaches.inOrder (.step _ hi.reaches hstep)).consuming.no_mismatch
    exact absurd (by rw [hg]; rfl) hno
  | skip g hstep hc hg hexpected hcalls hctx =>
    exact ⟨hlog.concat nofun nofun, hi.skip hstep hc hg hexpected hcalls hctx⟩
  | hand block g hstep hc hg hheight hexpected hcalls hctx =>
    exact ⟨hlog.concat nofun nofun,
      hi.hand hlog hbefore hstep hc hg hheight hexpected hcalls hctx⟩
  | handler x _ _ hm => exact hm.inv hi hlog
  | resume block g hh hstep hc hg hexpected hcalls hctx =>
    rw [List.append_nil]
    exact ⟨hlog, hi.resume hh hstep hc hg hexpected hcalls hctx⟩
  | abort err block g hh hstep hc hg hexpected hcalls hctx =>
    rw [List.append_nil]
    exact ⟨hlog, hi.abort hh hstep hc hg hexpected hcalls hctx⟩

omit hi in
theorem CallInv.init (hearly : earlyReturn stop start = none)
    (hfresh : handedHeights queue events = before) :
    CallInv answers cfg stop start queue before canceled (.start cfg stop start canceled) events := by
  have hc : (SyncCall.start cfg stop start canceled).getter.consumer = .receiving := by
    simp [SyncCall.start, Blocksync.State.init, hearly]
  have hreach : SyncReaches cfg stop start (SyncCall.start cfg stop start canceled).getter := by
    cases canceled with
    | false => exact .init
    | true => exact .step .cancel .init rfl
  have hfrom := init_from (P := fun h fetched => answers h fetched = true) cfg stop start
  exact {
    reaches := hreach
    source := ⟨hfrom.worker, hfrom.entry, hfrom.sending, hfrom.channel, hfrom.handling⟩
    ctx := rfl
    handed := by
      rw [hfresh]
      exact (List.append_nil before).symm
    idle := iff_of_true rfl (by simp [hc])
    current := by rintro _ ⟨⟩
    height := by simp [hc]
    returned := by rintro _ _ ⟨⟩
    settled := fun h hle hlt => absurd hlt (not_lt.mpr hle)
    failed := by simp [hc, Consumer.result?]
    unwritten := by rintro _ ⟨⟩
    publishing := by rintro _ ⟨⟩
    unpublished := by rintro _ ⟨⟩ }

/-- The context is cancelled. -/
theorem CallInv.cancel :
    CallInv answers cfg stop start queue before true call.cancel events where
  reaches := .step .cancel hi.reaches rfl
  source := ⟨hi.source.worker, hi.source.entry, hi.source.sending, hi.source.channel,
    hi.source.handling⟩
  ctx := rfl
  handed := hi.handed
  idle := hi.idle
  current := hi.current
  height := hi.height
  returned := hi.returned
  settled := hi.settled
  failed := hi.failed
  unwritten := hi.unwritten
  publishing := hi.publishing
  unpublished := hi.unpublished

theorem CallMove.queue_eq (hm : CallMove S answers cfg stop queue db call call' db' new) :
    ∀ e ∈ new, e.queue = queue := by
  cases hm with
  | handler x _ _ hm =>
    generalize hh : call.handler = y at hm
    cases hm with
    | delete block err batch err' => cases err' <;> simp [failureEvent, SyncEvent.queue]
    | publish block => simp [SyncEvent.queue, (hi.publishing block hh).1]
    | _ => simp [failureEvent, SyncEvent.queue]
  | _ => simp [SyncEvent.queue]

end Invariant

end EvmGateway
