import EvmGateway.Blocksync.Delivery

/-!
# Where the blocks of a call come from

A block passes from the worker that fetched it through the map, the announcer and the channel
to the handler, and is never replaced on its way: what is known of a fetch is known of the
block the handler gets (`step_from`).

The results of a call are told apart further: one that returns the error of the context was
cancelled, and one that returns without an error has left its range (`SoundReturn`).
-/

namespace EvmGateway.Blocksync

open Lib

variable {β : Type} {cfg : Syncer} {stop : Option ℤ} {start : ℤ} {s s' : State β}
  {P : ℕ → β → Prop}

/-! ## Blocks -/

/-- The block, if it has one, is as `P` says of its height. -/
def NewBlockData.From (P : ℕ → β → Prop) (newBlock : NewBlockData β) : Prop :=
  ∀ block, newBlock.block = some block → P newBlock.height block

def Worker.From (P : ℕ → β → Prop) : Worker β → Prop
  | .deposit _ newBlock => newBlock.From P
  | .idle | .check _ | .fetching _ | .failed _ _ | .held | .exited => True

/-- All blocks on their way are as `P` says of their heights. -/
structure State.From (P : ℕ → β → Prop) (s : State β) : Prop where
  worker : ∀ x ∈ s.workers, x.From P
  entry : ∀ (k : ℕ) (newBlock : NewBlockData β), s.newBlocksMap[k]? = some newBlock →
    newBlock.From P
  sending : ∀ ev, s.announcer = .sending ev → ev.From P
  channel : ∀ newBlock ∈ s.newBlocksC, newBlock.From P
  handling : ∀ block, s.consumer = .handling block → block.From P

theorem afterSize_from (cfg : Syncer) (s : State β) : (afterSize cfg s).From P := by
  rcases afterSize_cases cfg s with h | h <;> rw [h] <;> trivial

/-- What a worker leaves behind, if its fetch was answered as `P` says. -/
theorem workerStep_from {x x' : Worker β} {a : WorkerAction β} (hs : s.From P) (hx : x.From P)
    (hP : ∀ h block, x = .fetching h → a = .fetched (.ok block) → P h block)
    (h : workerStep cfg s x a = some (x', s')) : x'.From P ∧ s'.From P := by
  unfold workerStep at h
  split at h
  case h_1 =>
    cases h
    exact ⟨trivial, hs.worker, hs.entry, hs.sending, hs.channel, hs.handling⟩
  case h_2 n =>
    cases h
    split_ifs <;> exact ⟨trivial, hs⟩
  case h_3 n result =>
    cases h
    cases result with
    | ok block =>
      refine ⟨?_, hs⟩
      rintro _ ⟨⟩
      exact hP n block rfl rfl
    | error err => exact ⟨trivial, hs⟩
  case h_4 n err =>
    simp only [onFetchError, Option.some.injEq] at h
    split_ifs at h
    · cases h
      exact ⟨trivial, hs⟩
    · cases h
      exact ⟨by rintro _ ⟨⟩, hs.worker, hs.entry, hs.sending, hs.channel, hs.handling⟩
    · cases h
      exact ⟨trivial, hs⟩
  case h_5 n newBlock =>
    split_ifs at h
    cases h
    refine ⟨afterSize_from _ _, hs.worker, ?_, ?_, hs.channel, hs.handling⟩
    · intro k b hk
      change (s.newBlocksMap.insert n newBlock)[k]? = some b at hk
      rw [Std.ExtTreeMap.getElem?_insert] at hk
      split_ifs at hk
      · obtain rfl := Option.some.inj hk
        exact hx
      · exact hs.entry k b hk
    · exact fun ev hev => hs.sending ev (Announcer.wake_eq_sending.mp hev)
  case h_6 =>
    split_ifs at h
    cases h
    exact ⟨afterSize_from _ _, hs⟩
  case h_7 => cases h

theorem AnnouncerMove.state_from (hs : s.From P) (hm : AnnouncerMove cfg s s') : s'.From P := by
  cases hm with
  | found ev ha hev =>
    refine ⟨hs.worker, ?_, ?_, hs.channel, hs.handling⟩
    · intro k b hk
      change (s.newBlocksMap.erase s.next)[k]? = some b at hk
      rw [Std.ExtTreeMap.getElem?_erase] at hk
      split_ifs at hk
      exact hs.entry k b hk
    · rintro _ ⟨⟩
      exact hs.entry s.next ev hev
  | send ev ha _ =>
    refine ⟨hs.worker, hs.entry, nofun, ?_, hs.handling⟩
    intro b hb
    rcases List.mem_append.mp hb with hb | hb
    · exact hs.channel b hb
    · rw [List.mem_singleton.mp hb]
      exact hs.sending ev ha
  | _ => exact ⟨hs.worker, hs.entry, nofun, hs.channel, hs.handling⟩

theorem ConsumerMove.state_from {a : ConsumerAction} (hs : s.From P) (hm : ConsumerMove stop s a s') :
    s'.From P := by
  -- receiving takes the first block off the channel
  have hchannel : ∀ block rest, s.newBlocksC = block :: rest →
      block.From P ∧ ∀ b ∈ rest, b.From P := by
    intro block rest hchan
    have hall := hs.channel
    rw [hchan] at hall
    exact ⟨hall block (by simp), fun b hb => hall b (by simp [hb])⟩
  cases hm with
  | mismatch block rest _ _ hchan _ =>
    exact ⟨hs.worker, hs.entry, hs.sending, (hchannel block rest hchan).2, nofun⟩
  | skip block rest _ _ hchan _ _ =>
    exact ⟨hs.worker, hs.entry, hs.sending, (hchannel block rest hchan).2, hs.handling⟩
  | call block rest _ _ hchan _ _ =>
    refine ⟨hs.worker, hs.entry, hs.sending, (hchannel block rest hchan).2, ?_⟩
    rintro _ ⟨⟩
    exact (hchannel block rest hchan).1
  | signal result _ =>
    exact ⟨hs.worker, hs.entry, fun ev hev => hs.sending ev (Announcer.wake_eq_sending.mp hev),
      hs.channel, nofun⟩
  | _ => exact ⟨hs.worker, hs.entry, hs.sending, hs.channel, nofun⟩

/-- What is known of every fetch is known of every block. -/
theorem step_from {a : Action β} (hs : s.From P)
    (hP : ∀ w h block, a = .worker w (.fetched (.ok block)) → s.workers[w]? = some (.fetching h) →
      P h block)
    (h : step cfg stop s a = some s') : s'.From P := by
  cases a with
  | worker w a =>
    unfold step at h
    cases hx : s.workers[w]? with
    | none => simp [hx] at h
    | some x =>
      simp only [hx] at h
      obtain ⟨⟨x', s₁⟩, hstep, rfl⟩ := Option.map_eq_some_iff.mp h
      obtain ⟨hx', hs₁⟩ := workerStep_from hs (hs.worker x (List.mem_of_getElem? hx))
        (fun n block hfetch ha => hP w n block (ha ▸ rfl) (hfetch ▸ hx)) hstep
      refine ⟨?_, hs₁.entry, hs₁.sending, hs₁.channel, hs₁.handling⟩
      intro y hy
      rcases List.mem_or_eq_of_mem_set hy with hy | rfl
      · exact hs.worker y hy
      · exact hx'
  | announcer a => exact (step_announcer h).state_from hs
  | consumer a => exact (step_consumer h).state_from hs
  | cancel =>
    obtain rfl := step_cancel h
    exact ⟨hs.worker, hs.entry, hs.sending, hs.channel, hs.handling⟩

theorem init_from (cfg : Syncer) (stop : Option ℤ) (start : ℤ) :
    (State.init cfg stop start : State β).From P where
  worker := by
    intro x hx
    unfold State.init at hx
    split_ifs at hx
    · cases hx
    · obtain rfl := List.eq_of_mem_replicate hx
      trivial
  entry := fun k newBlock hk => by simp [State.init] at hk
  sending := by
    intro ev hev
    unfold State.init at hev
    split_ifs at hev
  channel := nofun
  handling := by
    intro block hc
    unfold State.init at hc
    cases h : earlyReturn stop start <;> simp [h] at hc

/-! ## Results -/

/-- What the result of a call that was started says. -/
structure SoundReturn (stop : Option ℤ) (s : State β) : Prop where
  ctxErr : s.consumer.result? = some .ctxErr → s.canceled = true
  nil : s.consumer.result? = some .nil → s.inRange stop = false
  started : s.consumer.result? ≠ some .negativeStart

theorem soundReturn_of_running (h : s.consumer.result? = none) : SoundReturn stop s :=
  ⟨by simp [h], by simp [h], by simp [h]⟩

theorem ConsumerMove.soundReturn {a : ConsumerAction} (hs : SoundReturn stop s)
    (hm : ConsumerMove stop s a s') : SoundReturn stop s' := by
  cases hm with
  | skip block rest hc _ _ _ _ => exact soundReturn_of_running (by rw [hc]; rfl)
  | call block rest _ _ _ _ _ => exact soundReturn_of_running rfl
  | handled block _ => exact soundReturn_of_running rfl
  | mismatch block rest _ _ _ _ => exact ⟨nofun, nofun, nofun⟩
  | streamClosed _ _ _ _ => exact ⟨nofun, nofun, nofun⟩
  | handlerErr block _ => exact ⟨nofun, nofun, nofun⟩
  | ctxDone _ _ hctx => exact ⟨fun _ => hctx, nofun, nofun⟩
  | finish _ hrange => exact ⟨nofun, fun _ => hrange, nofun⟩
  | signal result hc =>
    obtain ⟨hctx, hnil, hstart⟩ := hs
    rw [hc] at hctx hnil hstart
    exact ⟨hctx, hnil, hstart⟩
  | close result hc =>
    obtain ⟨hctx, hnil, hstart⟩ := hs
    rw [hc] at hctx hnil hstart
    exact ⟨hctx, hnil, hstart⟩

/-- **The result of a call.**  The error of the context is returned after a cancellation only,
and no error only past the end of the range. -/
theorem SyncReaches.soundReturn (h : SyncReaches cfg stop start s)
    (hearly : earlyReturn stop start = none) : SoundReturn stop s := by
  refine Reachable.invariant h (soundReturn_of_running ?_) ?_
  · simp [State.init, hearly, Consumer.result?]
  · intro s s' a hs hstep
    cases a with
    | worker w a =>
      obtain ⟨x, x', s₁, -, hm, rfl⟩ := step_worker hstep
      cases hm <;> exact ⟨hs.ctxErr, hs.nil, hs.started⟩
    | announcer a => cases step_announcer hstep <;> exact ⟨hs.ctxErr, hs.nil, hs.started⟩
    | consumer a => exact (step_consumer hstep).soundReturn hs
    | cancel =>
      obtain rfl := step_cancel hstep
      exact ⟨fun _ => rfl, hs.nil, hs.started⟩

end EvmGateway.Blocksync
