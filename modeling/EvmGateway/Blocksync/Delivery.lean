import EvmGateway.Blocksync.Ownership

/-!
# In-order delivery

The announcer takes heights out of the map one after another, and the channel keeps them in
this order, so the blocks on the channel carry the heights that follow the ones received
(`Streamed`).  What the consumer expects is then what it gets, and the handler is called on
the heights of the range in order, except for those given up as unavailable.

The consumer can only find the channel closed after the context is done: `Close` is its own
last act.  `delivery_in_order` puts the facts together for `SyncRange` and `SyncForward`.

A range that ends with the largest `int64` has no end: no signed word is past it, and after the
last height the consumer goes on with the smallest one (`range_without_end`).
-/

namespace EvmGateway.Blocksync

open Lib

variable {first : ℕ} {last : ℤ}

variable {β : Type} {cfg : Syncer} {stop : Option ℤ} {start : ℤ} {s s' : State β}

/-! ## The stream -/

/-- The blocks on the channel, and the one about to be sent, follow the received ones; the
handler was called on the received heights that were not given up. -/
structure Streamed (first : ℕ) (s : State β) : Prop where
  next : s.next = first + s.received + s.newBlocksC.length
  labels : ∀ (i : ℕ) (block : NewBlockData β), s.newBlocksC[i]? = some block →
    block.Labels (first + s.received + i) s.skipped
  sending : ∀ ev, s.announcer = .sending ev → ev.Labels s.next s.skipped
  calls : s.calls.map (·.height) = (List.range' first s.received).filter (· ∉ s.skipped)

theorem Announcer.wake_eq_sending {a : Announcer β} {ev : NewBlockData β} :
    a.wake = .sending ev ↔ a = .sending ev := by
  cases a <;> simp [Announcer.wake]

/-- A height given up later is none of the heights announced so far. -/
theorem Streamed.skip {h : ℕ} (hst : Streamed first s) (hh : s.popped ≤ h) :
    Streamed first { s with skipped := s.skipped ++ [h] } := by
  have hnext := hst.next
  have hpopped : s.next ≤ s.popped := Nat.le_add_right _ _
  refine ⟨hst.next, ?_, ?_, ?_⟩
  · intro i block hi
    have hlt : i < s.newBlocksC.length := (List.getElem?_eq_some_iff.mp hi).1
    exact (hst.labels i block hi).append (by omega)
  · intro ev hev
    refine (hst.sending ev hev).append ?_
    have hpop : s.popped = s.next + 1 := by rw [State.popped, hev]; rfl
    omega
  · rw [hst.calls]
    refine List.filter_congr fun k hk => ?_
    have hlt := (List.mem_range'_1.mp hk).2
    have hne : k ≠ h := by omega
    simp [hne]

theorem WorkerMove.streamed {w : ℕ} {x x' : Worker β} {s₁ : State β} (hst : Streamed first s)
    (ho : s.Ownership) (hx : s.workers[w]? = some x) (hm : WorkerMove cfg s x x' s₁) :
    Streamed first { s₁ with workers := s.workers.set w x' } := by
  cases hm with
  | skip h _ _ =>
    have hskip := hst.skip (Ownership.owned ho w h ⟨_, hx, rfl⟩).1
    exact ⟨hskip.next, hskip.labels, hskip.sending, hskip.calls⟩
  | deposit h newBlock _ =>
    exact ⟨hst.next, hst.labels, fun ev hev => hst.sending ev (Announcer.wake_eq_sending.mp hev),
      hst.calls⟩
  | _ => exact ⟨hst.next, hst.labels, hst.sending, hst.calls⟩

theorem AnnouncerMove.streamed (hst : Streamed first s) (ho : s.Ownership)
    (hm : AnnouncerMove cfg s s') : Streamed first s' := by
  cases hm with
  | found ev ha hev =>
    refine ⟨hst.next, hst.labels, ?_, hst.calls⟩
    rintro _ ⟨⟩
    exact (Ownership.entry ho s.next ev hev).2.2
  | send ev ha _ =>
    refine ⟨?_, ?_, nofun, hst.calls⟩
    · have := hst.next
      simp only [List.length_append, List.length_singleton]
      omega
    · intro i block hi
      rw [List.getElem?_append] at hi
      split_ifs at hi with hlt
      · exact hst.labels i block hi
      · have hlen : i - s.newBlocksC.length < 1 := (List.getElem?_eq_some_iff.mp hi).1
        have hzero : i - s.newBlocksC.length = 0 := by omega
        rw [hzero] at hi
        obtain rfl : ev = block := Option.some.inj hi
        have hl := hst.sending ev ha
        rwa [hst.next, show s.newBlocksC.length = i by omega] at hl
  | _ => exact ⟨hst.next, hst.labels, nofun, hst.calls⟩

theorem Streamed.receive {block : NewBlockData β} {rest : List (NewBlockData β)}
    (hst : Streamed first s) (hchan : s.newBlocksC = block :: rest) :
    s.next = first + (s.received + 1) + rest.length ∧
      (∀ (i : ℕ) (b : NewBlockData β), rest[i]? = some b →
        b.Labels (first + (s.received + 1) + i) s.skipped) ∧
      block.Labels (first + s.received) s.skipped := by
  refine ⟨?_, ?_, ?_⟩
  · rw [hst.next, hchan, List.length_cons]
    omega
  · intro i b hi
    have hl := hst.labels (i + 1) b (by rw [hchan]; exact hi)
    rwa [show first + s.received + (i + 1) = first + (s.received + 1) + i by omega] at hl
  · exact hst.labels 0 block (by rw [hchan]; rfl)

theorem Streamed.calls_succ (hst : Streamed first s) :
    (List.range' first (s.received + 1)).filter (· ∉ s.skipped) =
      s.calls.map (·.height) ++ [first + s.received].filter (· ∉ s.skipped) := by
  rw [List.range'_concat, List.filter_append, hst.calls, Nat.one_mul]

theorem ConsumerMove.streamed {a : ConsumerAction} (hst : Streamed first s)
    (hplace : s.consumer = .receiving → s.expected = first + s.received)
    (hm : ConsumerMove stop s a s') : Streamed first s' := by
  cases hm with
  | mismatch block rest hc _ hchan hheight =>
    obtain ⟨-, -, hl⟩ := hst.receive hchan
    exact absurd (hl.height.trans (hplace hc).symm) hheight
  | skip block rest hc _ hchan hheight hskip =>
    obtain ⟨hnext, hlabels, hl⟩ := hst.receive hchan
    refine ⟨hnext, hlabels, hst.sending, ?_⟩
    have hmem := hl.skipped.mp hskip
    rw [hst.calls_succ]
    simp [hmem]
  | call block rest hc _ hchan hheight hskip =>
    obtain ⟨hnext, hlabels, hl⟩ := hst.receive hchan
    refine ⟨hnext, hlabels, hst.sending, ?_⟩
    have hnot : first + s.received ∉ s.skipped := by
      intro hmem
      rw [hl.skipped.mpr hmem] at hskip
      cases hskip
    rw [hst.calls_succ, List.map_append]
    simp [hnot, hl.height]
  | signal result _ =>
    exact ⟨hst.next, hst.labels, fun ev hev => hst.sending ev (Announcer.wake_eq_sending.mp hev),
      hst.calls⟩
  | _ => exact ⟨hst.next, hst.labels, hst.sending, hst.calls⟩

/-! ## The consumer -/

/-- What the consumer returns, once it has left its loop. -/
def Consumer.result? : Consumer β → Option Result
  | .receiving | .handling _ => none
  | .returning result | .signalled result | .returned result => some result

/-- The range is used up: its last height was received, or it is empty. -/
def RangeDone (stop : Option ℤ) (start : ℤ) (s : State β) : Prop :=
  ∃ last, stop = some last ∧
    (last < start ∨ 0 ≤ start ∧ (start.toNat + s.received : ℤ) = last + 1)

structure Consuming (stop : Option ℤ) (start : ℤ) (s : State β) : Prop where
  early : s.consumer.result? = none → earlyReturn stop start = none
  receiving : s.consumer = .receiving → s.expected = start.toNat + s.received
  handling : ∀ block, s.consumer = .handling block → start.toNat + s.received = s.expected + 1
  bound : ∀ last, stop = some last → last < maxInt64 →
    s.received = 0 ∨ (start.toNat + s.received : ℤ) ≤ last + 1
  no_mismatch : s.consumer.result? ≠ some .mismatch
  no_streamClosed : s.canceled = false → s.consumer.result? ≠ some .streamClosed
  nil : s.consumer.result? = some .nil → RangeDone stop start s
  streamEnd : s.streamEnd = true → s.isDone = true
  closed : s.closed = true → ∃ result, s.consumer = .returned result

theorem le_of_inRange (h : s.inRange (some last) = true) (hword : (s.expected : ℤ) ≤ maxInt64) :
    (s.expected : ℤ) ≤ last := by
  have hself : wrap64 s.expected = s.expected :=
    wrap64_eq_self ⟨by omega, by unfold maxInt64 at hword; omega⟩
  simpa [State.inRange, hself] using h

theorem lt_of_inRange_eq_false (h : s.inRange (some last) = false) :
    last < s.expected ∧ last < maxInt64 := by
  have hlt : last < wrap64 s.expected := by simpa [State.inRange] using h
  have hword := (inInt64_wrap64 s.expected).2
  unfold maxInt64
  exact ⟨hlt.trans_le (wrap64_natCast_le _), by omega⟩

theorem earlyReturn_eq_none (h : earlyReturn stop start = none) :
    0 ≤ start ∧ ∀ last, stop = some last → start ≤ last := by
  unfold earlyReturn at h
  split_ifs at h with hneg
  refine ⟨not_lt.mp hneg, ?_⟩
  rintro last rfl
  by_contra hlt
  rw [not_le] at hlt
  simp [hlt] at h

theorem earlyReturn_eq_some {result : Result} (h : earlyReturn stop start = some result) :
    result = .negativeStart ∨ result = .nil ∧ ∃ last, stop = some last ∧ last < start := by
  unfold earlyReturn at h
  split_ifs at h with hneg
  · exact .inl (Option.some.inj h).symm
  · cases stop with
    | none => cases h
    | some last =>
      by_cases hlt : last < start
      · simp only [hlt, if_true, Option.some.injEq] at h
        exact .inr ⟨h.symm, last, rfl, hlt⟩
      · simp [hlt] at h

theorem init_consuming (cfg : Syncer) (stop : Option ℤ) (start : ℤ) :
    Consuming stop start (State.init cfg stop start : State β) := by
  have hstart : (State.init cfg stop start : State β).consumer =
      ((earlyReturn stop start).map .returned).getD .receiving := rfl
  cases hearly : earlyReturn stop start with
  | none =>
    rw [hearly] at hstart
    refine ⟨fun _ => hearly, fun _ => rfl, ?_, fun _ _ _ => .inl rfl, ?_, ?_, ?_, nofun, nofun⟩
    · intro block hc
      rw [hstart] at hc
      cases hc
    all_goals rw [hstart]; simp [Consumer.result?]
  | some result =>
    rw [hearly] at hstart
    have hresult := earlyReturn_eq_some hearly
    refine ⟨?_, ?_, ?_, fun _ _ _ => .inl rfl, ?_, ?_, ?_, nofun, nofun⟩
    · rw [hstart]
      intro h
      cases h
    · rw [hstart]
      intro h
      cases h
    · rw [hstart]
      intro block h
      cases h
    · rw [hstart]
      rcases hresult with rfl | ⟨rfl, -⟩ <;> simp [Consumer.result?]
    · rw [hstart]
      rcases hresult with rfl | ⟨rfl, -⟩ <;> simp [Consumer.result?]
    · rw [hstart]
      rcases hresult with rfl | ⟨-, last, hstop, hlt⟩
      · simp [Consumer.result?]
      · exact fun _ => ⟨last, hstop, .inl hlt⟩

/-- Receiving in range keeps within the range, unless its end is the largest word. -/
theorem Consuming.bound_succ (hcons : Consuming stop start s) (hc : s.consumer = .receiving)
    (hrange : s.inRange stop = true) (last : ℤ) (hlast : stop = some last)
    (hmax : last < maxInt64) :
    s.received + 1 = 0 ∨ ((start.toNat : ℤ) + (s.received + 1 : ℕ)) ≤ last + 1 := by
  subst hlast
  have hexp := hcons.receiving hc
  obtain ⟨hpos, hle⟩ := earlyReturn_eq_none (hcons.early (by rw [hc]; rfl))
  have hstart := hle last rfl
  have hword : (s.expected : ℤ) ≤ maxInt64 := by
    rcases hcons.bound last rfl hmax with hzero | hbound <;> omega
  have hin := le_of_inRange hrange hword
  exact .inr (by push_cast; omega)

theorem Consuming.not_closed (hcons : Consuming stop start s)
    (hc : ∀ result, s.consumer ≠ .returned result) : s.closed = false := by
  by_contra hclosed
  obtain ⟨result, hres⟩ := hcons.closed (by simpa using hclosed)
  exact hc result hres

theorem Consuming.leave (hcons : Consuming stop start s) {result : Result}
    (hc : ∀ result, s.consumer ≠ .returned result) (hmismatch : result ≠ .mismatch)
    (hclosed : result = .streamClosed → s.canceled = true)
    (hnil : result = .nil → RangeDone stop start s) :
    Consuming stop start { s with consumer := .returning result } where
  early := nofun
  receiving := nofun
  handling := nofun
  bound := hcons.bound
  no_mismatch := by simpa [Consumer.result?] using hmismatch
  no_streamClosed := by
    intro hlive hres
    rw [hclosed (Option.some.inj hres)] at hlive
    cases hlive
  nil := fun hres => hnil (Option.some.inj hres)
  streamEnd := hcons.streamEnd
  closed := by
    rw [hcons.not_closed hc]
    nofun

theorem ConsumerMove.consuming {a : ConsumerAction} (hcons : Consuming stop start s)
    (hhead : ∀ block rest, s.newBlocksC = block :: rest → block.height = start.toNat + s.received)
    (hm : ConsumerMove stop s a s') : Consuming stop start s' := by
  cases hm with
  | mismatch block rest hc _ hchan hheight =>
    exact absurd ((hhead block rest hchan).trans (hcons.receiving hc).symm) hheight
  | skip block rest hc hrange hchan _ _ =>
    have hopen := hcons.not_closed (by simp [hc])
    have hexp := hcons.receiving hc
    refine ⟨hcons.early, fun _ => ?_, ?_, hcons.bound_succ hc hrange, hcons.no_mismatch,
      hcons.no_streamClosed, ?_, hcons.streamEnd, hcons.closed⟩
    · simp only
      omega
    · simp [hc]
    · simp [hc, Consumer.result?]
  | call block rest hc hrange hchan _ _ =>
    have hopen := hcons.not_closed (by simp [hc])
    have hexp := hcons.receiving hc
    refine ⟨fun _ => hcons.early (by rw [hc]; rfl), by rintro ⟨⟩, fun _ _ => ?_,
      hcons.bound_succ hc hrange, by rintro ⟨⟩, fun _ => by rintro ⟨⟩, by rintro ⟨⟩,
      hcons.streamEnd, by simp [hopen]⟩
    simp only
    omega
  | streamClosed hc _ _ hend =>
    refine hcons.leave (by simp [hc]) (by simp) (fun _ => ?_) (by simp)
    have hdone := hcons.streamEnd hend
    rwa [State.isDone, hcons.not_closed (by simp [hc]), Bool.false_or] at hdone
  | ctxDone hc _ _ => exact hcons.leave (by simp [hc]) (by simp) (by simp) (by simp)
  | finish hc hrange =>
    refine hcons.leave (by simp [hc]) (by simp) (by simp) fun _ => ?_
    have hexp := hcons.receiving hc
    obtain ⟨hpos, hle⟩ := earlyReturn_eq_none (hcons.early (by rw [hc]; rfl))
    cases stop with
    | none => cases hrange
    | some last =>
      obtain ⟨hgt, hmax⟩ := lt_of_inRange_eq_false hrange
      have hstart := hle last rfl
      rcases hcons.bound last rfl hmax with hzero | hbound
      · omega
      · exact ⟨last, rfl, .inr ⟨hpos, by omega⟩⟩
  | handled block hc =>
    have hopen := hcons.not_closed (by simp [hc])
    have hexp := hcons.handling block hc
    exact ⟨fun _ => hcons.early (by rw [hc]; rfl), fun _ => hexp.symm, by rintro _ ⟨⟩, hcons.bound,
      by rintro ⟨⟩, fun _ => by rintro ⟨⟩, by rintro ⟨⟩, hcons.streamEnd, by simp [hopen]⟩
  | handlerErr block hc => exact hcons.leave (by simp [hc]) (by simp) (by simp) (by simp)
  | signal result hc =>
    have hopen := hcons.not_closed (by simp [hc])
    obtain ⟨-, -, -, hbound, hmismatch, hstream, hnil, hend, -⟩ := hcons
    rw [hc] at hmismatch hstream hnil
    exact ⟨by rintro ⟨⟩, by rintro ⟨⟩, by rintro _ ⟨⟩, hbound, hmismatch, hstream, hnil, hend,
      by simp [State.signal, hopen]⟩
  | close result hc =>
    obtain ⟨-, -, -, hbound, hmismatch, hstream, hnil, -, -⟩ := hcons
    rw [hc] at hmismatch hstream hnil
    exact ⟨by rintro ⟨⟩, by rintro ⟨⟩, by rintro _ ⟨⟩, hbound, hmismatch, hstream, hnil,
      by simp [State.isDone], fun _ => ⟨result, rfl⟩⟩

/-! ## Every reachable state -/

structure InOrder (stop : Option ℤ) (start : ℤ) (s : State β) : Prop where
  ownership : s.Ownership
  streamed : Streamed start.toNat s
  consuming : Consuming stop start s

theorem step_inOrder {a : Action β} (hs : InOrder stop start s)
    (h : step cfg stop s a = some s') : InOrder stop start s' := by
  refine ⟨step_ownership hs.ownership h, ?_, ?_⟩
  · cases a with
    | worker w a =>
      obtain ⟨x, x', s₁, hx, hm, rfl⟩ := step_worker h
      exact hm.streamed hs.streamed hs.ownership hx
    | announcer a => exact (step_announcer h).streamed hs.streamed hs.ownership
    | consumer a => exact (step_consumer h).streamed hs.streamed hs.consuming.receiving
    | cancel =>
      obtain rfl := step_cancel h
      exact ⟨hs.streamed.next, hs.streamed.labels, hs.streamed.sending, hs.streamed.calls⟩
  · have hcons := hs.consuming
    cases a with
    | worker w a =>
      obtain ⟨x, x', s₁, -, hm, rfl⟩ := step_worker h
      cases hm <;> exact ⟨hcons.early, hcons.receiving, hcons.handling, hcons.bound,
        hcons.no_mismatch, hcons.no_streamClosed, hcons.nil, hcons.streamEnd, hcons.closed⟩
    | announcer a =>
      cases step_announcer h with
      | leave _ hdone =>
        exact ⟨hcons.early, hcons.receiving, hcons.handling, hcons.bound, hcons.no_mismatch,
          hcons.no_streamClosed, hcons.nil, fun _ => hdone, hcons.closed⟩
      | _ =>
        exact ⟨hcons.early, hcons.receiving, hcons.handling, hcons.bound, hcons.no_mismatch,
          hcons.no_streamClosed, hcons.nil, hcons.streamEnd, hcons.closed⟩
    | consumer a =>
      exact (step_consumer h).consuming hcons fun block rest hchan =>
        (hs.streamed.receive hchan).2.2.height
    | cancel =>
      obtain rfl := step_cancel h
      exact ⟨hcons.early, hcons.receiving, hcons.handling, hcons.bound, hcons.no_mismatch, nofun,
        hcons.nil, fun _ => by simp [State.isDone], hcons.closed⟩

theorem init_inOrder (cfg : Syncer) (stop : Option ℤ) (start : ℤ) :
    InOrder stop start (State.init cfg stop start : State β) where
  ownership := init_ownership cfg stop start
  streamed := by
    refine ⟨rfl, fun i block hi => by simp [State.init] at hi, ?_, rfl⟩
    intro ev hev
    unfold State.init at hev
    split_ifs at hev
  consuming := init_consuming cfg stop start

theorem SyncReaches.inOrder (h : SyncReaches cfg stop start s) : InOrder stop start s :=
  Reachable.invariant h (init_inOrder cfg stop start) fun _ _ _ hs => step_inOrder hs

/-- Without gaps no height is given up. -/
theorem SyncReaches.skipped_eq_nil (h : SyncReaches cfg stop start s)
    (hgaps : cfg.allowGaps = false) : s.skipped = [] := by
  refine Reachable.invariant (I := fun s => s.skipped = []) h rfl ?_
  intro s s' a hs hstep
  cases a with
  | worker w a =>
    obtain ⟨x, x', s₁, -, hm, rfl⟩ := step_worker hstep
    cases hm with
    | skip h _ hallow =>
      rw [hgaps] at hallow
      cases hallow
    | _ => exact hs
  | announcer a => cases step_announcer hstep <;> exact hs
  | consumer a => cases step_consumer hstep <;> exact hs
  | cancel =>
    obtain rfl := step_cancel hstep
    exact hs

/-- The result of a call, where it has one, is none of the errors of a broken stream. -/
structure SoundResult (s : State β) : Prop where
  no_mismatch : s.consumer.result? ≠ some .mismatch
  no_streamClosed : s.canceled = false → s.consumer.result? ≠ some .streamClosed

/-- The heights from `start` to `last` that were not given up. -/
def wantedHeights (start last : ℤ) (skipped : List ℕ) : List ℕ :=
  (List.range' start.toNat (last + 1 - start).toNat).filter (· ∉ skipped)

/-- The handler was called in order, once for each height, up to some height of the range,
and up to its end if the call returned without an error. -/
structure DeliversRange (start last : ℤ) (s : State β) : Prop extends SoundResult s where
  calls_prefix : s.calls.map (·.height64) <+: (wantedHeights start last s.skipped).map (↑)
  calls_once : (s.calls.map (·.height64)).Nodup
  complete : s.consumer.result? = some .nil →
    s.calls.map (·.height64) = (wantedHeights start last s.skipped).map (↑)

/-- The handler was called on all heights from `start` up to some height. -/
structure DeliversForward (start : ℤ) (s : State β) : Prop extends SoundResult s where
  calls : s.calls.map (·.height64) = (List.range' start.toNat s.calls.length).map (↑)
  no_skips : s.skipped = []
  endless : s.consumer.result? ≠ some .nil

theorem SyncReaches.soundResult (h : SyncReaches cfg stop start s) : SoundResult s :=
  ⟨h.inOrder.consuming.no_mismatch, h.inOrder.consuming.no_streamClosed⟩

theorem SyncReaches.calls_begin (h : SyncReaches cfg (some last) start s) (hle : start ≤ last)
    (hmax : last < maxInt64) :
    s.calls.map (·.height) <+: wantedHeights start last s.skipped := by
  obtain ⟨-, hst, hcons⟩ := h.inOrder
  have hlen : s.received ≤ (last + 1 - start).toNat := by
    rcases hcons.bound last rfl hmax with hzero | hbound <;> omega
  rw [hst.calls, wantedHeights]
  refine List.IsPrefix.filter _ ⟨List.range' (start.toNat + s.received)
    ((last + 1 - start).toNat - s.received), ?_⟩
  rw [List.range'_append_1]
  congr 1
  omega

theorem SyncReaches.complete (h : SyncReaches cfg (some last) start s) (hle : start ≤ last)
    (hnil : s.consumer.result? = some .nil) :
    s.calls.map (·.height) = wantedHeights start last s.skipped := by
  obtain ⟨-, hst, hcons⟩ := h.inOrder
  obtain ⟨_, ⟨⟩, hlt | ⟨hpos, hlast⟩⟩ := hcons.nil hnil
  · omega
  · rw [hst.calls, wantedHeights, show s.received = (last + 1 - start).toNat by omega]

theorem SyncReaches.calls_forward (h : SyncReaches cfg.forward none start s) :
    s.calls.map (·.height) = List.range' start.toNat s.calls.length := by
  have hcalls := h.inOrder.streamed.calls
  simp only [h.skipped_eq_nil rfl, List.not_mem_nil, not_false_eq_true, decide_true,
    List.filter_true] at hcalls
  rw [hcalls, show s.calls.length = s.received by simpa using congrArg List.length hcalls]

theorem SyncReaches.endless (h : SyncReaches cfg none start s) :
    s.consumer.result? ≠ some .nil := by
  intro hnil
  obtain ⟨last, hstop, -⟩ := h.inOrder.consuming.nil hnil
  cases hstop

theorem map_height64 {l : List (NewBlockData β)} (h : ∀ n ∈ l.map (·.height), n < 2 ^ 63) :
    l.map (·.height64) = (l.map (·.height)).map (↑) := by
  rw [List.map_map]
  refine List.map_congr_left fun block hblock => wrap64_eq_self ⟨by omega, ?_⟩
  have := h block.height (List.mem_map_of_mem hblock)
  omega

theorem deliversRange (hle : start ≤ last) (hmax : last < maxInt64)
    (h : SyncReaches cfg (some last) start s) : DeliversRange start last s := by
  obtain ⟨-, hst, hcons⟩ := h.inOrder
  have hwords : s.calls.map (·.height64) = (s.calls.map (·.height)).map (↑) := by
    refine map_height64 fun n hn => ?_
    rw [hst.calls] at hn
    have hn' := List.mem_range'_1.mp (List.mem_of_mem_filter hn)
    have hbound := hcons.bound last rfl hmax
    unfold maxInt64 at hmax
    omega
  refine ⟨h.soundResult, ?_, ?_, fun hnil => ?_⟩
  · rw [hwords]
    exact (h.calls_begin hle hmax).map _
  · rw [hwords, hst.calls]
    exact ((List.nodup_range' ..).filter _).map Nat.cast_injective
  · rw [hwords, h.complete hle hnil]

theorem deliversForward (h : SyncReaches cfg.forward none start s)
    (hword : (start.toNat + s.received : ℤ) ≤ 2 ^ 63) : DeliversForward start s := by
  refine ⟨h.soundResult, ?_, h.skipped_eq_nil rfl, h.endless⟩
  rw [← h.calls_forward]
  refine map_height64 fun n hn => ?_
  rw [h.inOrder.streamed.calls] at hn
  have hn' := List.mem_range'_1.mp (List.mem_of_mem_filter hn)
  omega

/-- **In-order delivery**, for every number of jobs and every interleaving.  `SyncRange`
calls its handler on a prefix of the range, each height once and the ones given up left out;
it returns without an error only after the whole range; and it finds neither a wrong height
nor, while the context is live, a closed channel.  `SyncForward` does the same without an
end, and gives no height up.  The range must not end with the largest `int64`, nor the forward
sync have gone past it. -/
theorem delivery_in_order (cfg : Syncer) (start last : ℤ) (hle : start ≤ last)
    (hmax : last < maxInt64) :
    (∀ s : State β, SyncReaches cfg (some last) start s → DeliversRange start last s) ∧
      ∀ s : State β, SyncReaches cfg.forward none start s →
        (start.toNat + s.received : ℤ) ≤ 2 ^ 63 → DeliversForward start s :=
  ⟨fun _ h => deliversRange hle hmax h, fun _ h hword => deliversForward h hword⟩

/-- A range of three heights. -/
theorem delivery_in_order_three :
    (∀ s : State Unit, SyncReaches (newSyncer 2 true) (some 3) 1 s → DeliversRange 1 3 s) ∧
      ∀ s : State Unit, SyncReaches (newSyncer 2 true).forward none 1 s →
        ((1 : ℤ).toNat + s.received : ℤ) ≤ 2 ^ 63 → DeliversForward 1 s :=
  delivery_in_order (newSyncer 2 true) 1 3 (by decide) (by decide)

/-- The only worker fetches a block, and the handler is called on it. -/
def handOne : List (Action Unit) :=
  [.worker 0 .take, .worker 0 .check, .worker 0 (.fetched (.ok ())), .worker 0 .deposit,
    .announcer .check, .announcer .lookup, .announcer .send, .consumer .receive]

/-- **A range without an end.**  The largest `int64` is the only height of the range, and the
handler has returned from it.  The call does not return: the handler is called on the smallest
`int64`, too. -/
theorem range_without_end :
    ∃ s : State Unit, SyncReaches (newSyncer 1 false) (some maxInt64) maxInt64 s ∧
      s.consumer.result? = none ∧ s.calls.map (·.height64) = [maxInt64, -2 ^ 63] ∧
      wantedHeights maxInt64 maxInt64 s.skipped = [2 ^ 63 - 1] ∧
      ¬ DeliversRange maxInt64 maxInt64 s := by
  obtain ⟨s, hs, hsum⟩ := Option.map_eq_some_iff.mp (show
    (perform (step (newSyncer 1 false) (some maxInt64)) (State.init (newSyncer 1 false)
      (some maxInt64) maxInt64) (handOne ++ .consumer (.handled true) :: handOne)).map
        (fun s => (s.consumer.result?, s.calls.map (·.height64), s.skipped)) =
      some (none, [maxInt64, -2 ^ 63], []) by decide +kernel)
  simp only [Prod.mk.injEq] at hsum
  obtain ⟨hres, hcalls, hskipped⟩ := hsum
  have hwanted : wantedHeights maxInt64 maxInt64 s.skipped = [2 ^ 63 - 1] := by
    rw [hskipped]
    decide +kernel
  refine ⟨s, Reachable.init.perform hs, hres, hcalls, hwanted, fun h => ?_⟩
  have hpre := DeliversRange.calls_prefix h
  rw [hcalls, hwanted] at hpre
  exact absurd hpre.length_le (by decide)

end EvmGateway.Blocksync
