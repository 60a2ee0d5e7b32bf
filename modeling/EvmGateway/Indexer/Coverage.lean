import EvmGateway.Indexer.Queues
import EvmGateway.Indexer.Recovery

/-!
# A start covers everything once

The gaps are disjoint and below the head, and the tip begins after it, so the heights handed
out by the queues ascend within each queue and are never the same (`RunInv`).  A gap that ends
without an error has all its heights settled, and a queue ends early only by its own error or
a cancellation.

The store of a run changes only at heights that were handed out (`StoreInv`): a batch is built
for one height, whatever the other queue has written since.  A height with a batch written
keeps its meta.

`startup_sync` puts the facts together for every store and every interleaving.
-/

namespace EvmGateway

open Lib Blocksync

variable {db : DB} {h : ℕ} {head : ℤ} {events : List SyncEvent}

/-! ## Both queues -/

/-- The gaps of a plan lie between the first height and the head, in ascending order. -/
structure PlanSound (plan : Plan) (earliest : ℤ) : Prop where
  pos : 0 < earliest
  le : earliest ≤ plan.head
  head : plan.head < maxInt64
  ascending : Ascending plan.gaps
  within : ∀ g ∈ plan.gaps, earliest ≤ g.start ∧ g.stop ≤ plan.head

structure GapsEnded (done : List BlockRange) (heights : List ℕ) (events : List SyncEvent) : Prop where
  ended : ∀ g ∈ done, ∃ result, .gapEnded g result ∈ events
  ascending : heights.Pairwise (· < ·)
  covered : ∀ h ∈ heights, Covered done h

section Queues

variable (S : Syncer) (answers : ℕ → FetchedBlock → Bool) (plan : Plan)

/-- How the queue of the gaps and the record fit together. -/
def GapInv (canceled : Bool) (events : List SyncEvent) : GapQueue → Prop
  | .next rest => ∃ done, plan.gaps = done ++ rest ∧
      GapsEnded done (handedHeights .gap events) events
  | .syncing gap rest call => ∃ done before, plan.gaps = done ++ gap :: rest ∧
      GapsEnded done before events ∧
      CallInv answers S.rangeSyncer (some gap.stop) gap.start .gap before canceled call events
  | .done ctxErr => ∃ done rest, plan.gaps = done ++ rest ∧
      GapsEnded done (handedHeights .gap events) events ∧
      if ctxErr then canceled = true else rest = []

/-- How the queue of the tip and the record fit together. -/
def TipInv (canceled : Bool) (events : List SyncEvent) : TipQueue → Prop
  | .waiting => handedHeights .tip events = []
  | .syncing call =>
      CallInv answers S.forwardSyncer none (plan.head + 1) .tip [] canceled call events
  | .done _ => (∃ n, handedHeights .tip events = List.range' (plan.head + 1).toNat n) ∧
      (canceled = true ∨ ∃ h, .failed .tip h ∈ events)

/-- The invariant of a run. -/
structure RunInv (s : RunState) : Prop where
  log : LogInv s.events
  gap : GapInv S answers plan s.canceled s.events s.gap
  tip : TipInv S answers plan s.canceled s.events s.tip
  /-- a gap that ended without an error is settled -/
  settled : ∀ g, .gapEnded g .nil ∈ s.events → ∀ h : ℕ, g.Contains h → Settled .gap s.events h

end Queues

section Steps

variable {S : Syncer} {answers : ℕ → FetchedBlock → Bool} {plan : Plan} {earliest : ℤ}
  {canceled : Bool} {events new : List SyncEvent} {done rest : List BlockRange}
  {heights before : List ℕ} {gap : BlockRange} {call : SyncCall} {s s' : RunState}

theorem GapsEnded.append (hd : GapsEnded done heights events) :
    GapsEnded done heights (events ++ new) :=
  ⟨fun g hg => (hd.ended g hg).imp fun _ => List.mem_append_left _, hd.ascending, hd.covered⟩

/-- Events of the tip leave the queue of the gaps alone. -/
theorem GapInv.frame {q : GapQueue} (hi : GapInv S answers plan canceled events q)
    (hnew : ∀ e ∈ new, e.queue ≠ .gap) : GapInv S answers plan canceled (events ++ new) q := by
  have hhanded : handedHeights .gap (events ++ new) = handedHeights .gap events := by
    rw [handedHeights_append, handedHeights_eq_nil hnew, List.append_nil]
  cases q with
  | next rest =>
    obtain ⟨done, hgaps, hd⟩ := hi
    exact ⟨done, hgaps, hhanded ▸ hd.append⟩
  | syncing gap rest call =>
    obtain ⟨done, before, hgaps, hd, hcall⟩ := hi
    exact ⟨done, before, hgaps, hd.append, hcall.frame hnew⟩
  | done ctxErr =>
    obtain ⟨done, rest, hgaps, hd, hend⟩ := hi
    exact ⟨done, rest, hgaps, hhanded ▸ hd.append, hend⟩

/-- Events of the gaps leave the queue of the tip alone. -/
theorem TipInv.frame {q : TipQueue} (hi : TipInv S answers plan canceled events q)
    (hnew : ∀ e ∈ new, e.queue ≠ .tip) : TipInv S answers plan canceled (events ++ new) q := by
  have hhanded : handedHeights .tip (events ++ new) = handedHeights .tip events := by
    rw [handedHeights_append, handedHeights_eq_nil hnew, List.append_nil]
  cases q with
  | waiting => exact hhanded.trans hi
  | syncing call => exact CallInv.frame hi hnew
  | done result =>
    exact ⟨hhanded ▸ hi.1, hi.2.imp_right fun ⟨h, hh⟩ => ⟨h, List.mem_append_left _ hh⟩⟩

theorem GapsEnded.lt_start (hd : GapsEnded done heights events) (hplan : PlanSound plan earliest)
    (hgaps : plan.gaps = done ++ gap :: rest) (h : ℕ) (hh : h ∈ heights) : h < gap.start.toNat := by
  obtain ⟨g, hg, hle, hstop⟩ := hd.covered h hh
  have hapart := hplan.ascending.apart
  rw [hgaps] at hapart
  have hlt := (List.pairwise_append.mp hapart).2.2 g hg gap (by simp)
  omega

theorem CallInv.gap_heights (hd : GapsEnded done before events) (hplan : PlanSound plan earliest)
    (hgaps : plan.gaps = done ++ gap :: rest)
    (hi : CallInv answers S.rangeSyncer (some gap.stop) gap.start .gap before canceled call events) :
    (handedHeights .gap events).Pairwise (· < ·) ∧
      ∀ h ∈ handedHeights .gap events, Covered (done ++ [gap]) h := by
  obtain ⟨-, hst, hcons⟩ := hi.reaches.inOrder
  have hmem : gap ∈ plan.gaps := by simp [hgaps]
  have hstart := (hplan.within gap hmem).1
  have hpos := hplan.pos
  -- the calls of the getter lie in the gap
  have hcalls : ∀ h ∈ call.getter.calls.map (·.height), gap.start.toNat ≤ h ∧ gap.Contains h := by
    intro h hh
    rw [hst.calls] at hh
    have hrange := List.mem_range'_1.mp (List.mem_of_mem_filter hh)
    refine ⟨hrange.1, by omega, ?_⟩
    have hstop := (hplan.within gap hmem).2.trans_lt hplan.head
    rcases hcons.bound gap.stop rfl hstop with hzero | hbound <;> omega
  rw [hi.handed]
  constructor
  · refine List.pairwise_append.mpr ⟨hd.ascending, ?_, ?_⟩
    · rw [hst.calls]
      exact (List.pairwise_lt_range' ..).filter _
    · intro a ha b hb
      have := hd.lt_start hplan hgaps a ha
      have := (hcalls b hb).1
      omega
  · intro h hh
    rw [covered_append]
    rcases List.mem_append.mp hh with hh | hh
    · exact .inl (hd.covered h hh)
    · exact .inr (by simpa using (hcalls h hh).2)

theorem PlanSound.earlyReturn_gap (hplan : PlanSound plan earliest) (hmem : gap ∈ plan.gaps) :
    earlyReturn (some gap.stop) gap.start = none := by
  have hpos := hplan.pos
  have hstart := (hplan.within gap hmem).1
  have hne := hplan.ascending.nonempty gap hmem
  simp only [earlyReturn]
  rw [if_neg (by omega), if_neg (by omega)]

theorem PlanSound.earlyReturn_tip (hplan : PlanSound plan earliest) :
    earlyReturn none (plan.head + 1) = none := by
  have hpos := hplan.pos
  have hle := hplan.le
  simp only [earlyReturn]
  rw [if_neg (by omega)]

theorem settled_append
    (hs : ∀ g, .gapEnded g .nil ∈ events → ∀ h : ℕ, g.Contains h → Settled .gap events h)
    (hnew : ∀ g, .gapEnded g .nil ∈ new → ∀ h : ℕ, g.Contains h → Settled .gap (events ++ new) h) :
    ∀ g, .gapEnded g .nil ∈ events ++ new → ∀ h : ℕ, g.Contains h →
      Settled .gap (events ++ new) h := by
  intro g hg h hh
  rcases List.mem_append.mp hg with hg | hg
  · exact (hs g hg h hh).append
  · exact hnew g hg h hh

theorem CallMove.not_gapEnded {cfg : Blocksync.Syncer} {stop : Option ℤ} {queue : Queue}
    {db' : DB} {call' : SyncCall} (hm : CallMove S answers cfg stop queue db call call' db' new)
    (g : BlockRange) (result : Result) : .gapEnded g result ∉ new := by
  cases hm with
  | handler x _ _ hm =>
    generalize call.handler = y at hm
    cases hm with
    | delete block err batch err' => cases err' <;> simp [failureEvent]
    | _ => simp [failureEvent]
  | _ => simp

/-- The moves of a run. -/
inductive RunMove (S : Syncer) (answers : ℕ → FetchedBlock → Bool) (plan : Plan) (s : RunState) :
    RunState → Prop
  | gapsDone (hq : s.gap = .next []) : RunMove S answers plan s { s with gap := .done false }
  | startGap (gap : BlockRange) (rest : List BlockRange) (hq : s.gap = .next (gap :: rest)) :
      RunMove S answers plan s
        { s with
          gap := .syncing gap rest (.start S.rangeSyncer (some gap.stop) gap.start s.canceled) }
  | gap (gap : BlockRange) (rest : List BlockRange) (call call' : SyncCall) (db' : DB)
      (new : List SyncEvent) (hq : s.gap = .syncing gap rest call)
      (hm : CallMove S answers S.rangeSyncer (some gap.stop) .gap s.db call call' db' new) :
      RunMove S answers plan s
        { s with gap := .syncing gap rest call', db := db', events := s.events ++ new }
  | gapReturn (gap : BlockRange) (rest : List BlockRange) (call : SyncCall) (result : Result)
      (hq : s.gap = .syncing gap rest call) (hc : call.getter.consumer = .returned result) :
      RunMove S answers plan s
        { s with
          gap := if result = .ctxErr then .done true else .next rest
          events := s.events ++ [.gapEnded gap result] }
  | startTip (hq : s.tip = .waiting) :
      RunMove S answers plan s
        { s with tip := .syncing (.start S.forwardSyncer none (plan.head + 1) s.canceled) }
  | tip (call call' : SyncCall) (db' : DB) (new : List SyncEvent) (hq : s.tip = .syncing call)
      (hm : CallMove S answers S.forwardSyncer none .tip s.db call call' db' new) :
      RunMove S answers plan s
        { s with tip := .syncing call', db := db', events := s.events ++ new }
  | tipReturn (call : SyncCall) (result : Result) (hq : s.tip = .syncing call)
      (hc : call.getter.consumer = .returned result) :
      RunMove S answers plan s
        { s with tip := .done result, events := s.events ++ [.tipEnded result] }
  | cancel :
      RunMove S answers plan s
        { s with canceled := true, gap := s.gap.cancel, tip := s.tip.cancel }

theorem runStep_move {a : RunAction} (h : runStep S answers plan s a = some s') :
    RunMove S answers plan s s' := by
  cases a with
  | nextGap =>
    simp only [runStep, nextGapStep] at h
    split at h
    case h_1 hq =>
      obtain rfl := Option.some.inj h
      exact .gapsDone hq
    case h_2 gap rest hq =>
      obtain rfl := Option.some.inj h
      exact .startGap gap rest hq
    case h_3 => cases h
  | gap a =>
    simp only [runStep, gapStep] at h
    split at h
    case h_1 gap rest call hq =>
      obtain ⟨⟨call', db', new⟩, hstep, rfl⟩ := Option.map_eq_some_iff.mp h
      exact .gap gap rest call call' db' new hq (callStep_move hstep)
    case h_2 => cases h
  | gapReturn =>
    simp only [runStep, gapReturnStep] at h
    split at h
    case h_1 gap rest call hq =>
      split at h
      case h_1 result hc =>
        obtain rfl := Option.some.inj h
        exact .gapReturn gap rest call result hq hc
      case h_2 => cases h
    case h_2 => cases h
  | startTip =>
    simp only [runStep, startTipStep] at h
    split at h
    case h_1 hq =>
      split_ifs at h
      · obtain rfl := Option.some.inj h
        exact .startTip hq
      · split at h
        · obtain rfl := Option.some.inj h
          exact .startTip hq
        · cases h
    case h_2 => cases h
  | tip a =>
    simp only [runStep, tipStep] at h
    split at h
    case h_1 call hq =>
      obtain ⟨⟨call', db', new⟩, hstep, rfl⟩ := Option.map_eq_some_iff.mp h
      exact .tip call call' db' new hq (callStep_move hstep)
    case h_2 => cases h
  | tipReturn =>
    simp only [runStep, tipReturnStep] at h
    split at h
    case h_1 call hq =>
      split at h
      case h_1 result hc =>
        obtain rfl := Option.some.inj h
        exact .tipReturn call result hq hc
      case h_2 => cases h
    case h_2 => cases h
  | cancel =>
    obtain rfl := Option.some.inj h
    exact .cancel

theorem RunInv.gapReturn {result : Result} (hplan : PlanSound plan earliest)
    (hs : RunInv S answers plan s) (hq : s.gap = .syncing gap rest call)
    (hc : call.getter.consumer = .returned result) :
    RunInv S answers plan
      { s with
        gap := if result = .ctxErr then .done true else .next rest
        events := s.events ++ [.gapEnded gap result] } := by
  have hgap := hs.gap
  rw [hq] at hgap
  obtain ⟨done, before, hgaps, hd, hcall⟩ := hgap
  have hret := hcall.reaches.soundReturn (hplan.earlyReturn_gap (by simp [hgaps]))
  obtain ⟨hasc, hcov⟩ := hcall.gap_heights hd hplan hgaps
  have hhanded : handedHeights .gap (s.events ++ [.gapEnded gap result]) =
      handedHeights .gap s.events := by
    rw [handedHeights_append]
    exact List.append_nil _
  have hd' : GapsEnded (done ++ [gap]) (handedHeights .gap (s.events ++ [.gapEnded gap result]))
      (s.events ++ [.gapEnded gap result]) := by
    rw [hhanded]
    refine ⟨?_, hasc, hcov⟩
    intro g hg
    rcases List.mem_append.mp hg with hg | hg
    · exact hd.append.ended g hg
    · rw [List.mem_singleton.mp hg]
      exact ⟨result, by simp⟩
  have hgaps' : plan.gaps = (done ++ [gap]) ++ rest := by simp [hgaps]
  refine ⟨hs.log.concat nofun nofun, ?_, hs.tip.frame (by simp [SyncEvent.queue]), ?_⟩
  · dsimp only
    split_ifs with hctx
    · refine ⟨done ++ [gap], rest, hgaps', hd', ?_⟩
      rw [if_pos rfl, ← hcall.ctx]
      exact hret.ctxErr (by rw [hc, hctx]; rfl)
    · exact ⟨done ++ [gap], hgaps', hd'⟩
  · -- past its end, all heights of the gap are settled
    refine settled_append hs.settled ?_
    intro g hg n hn
    obtain ⟨rfl, rfl⟩ : g = gap ∧ result = .nil := by simpa [eq_comm] using hg
    have hrange := hret.nil (by rw [hc]; rfl)
    have hlt := (lt_of_inRange_eq_false hrange).1
    obtain ⟨hle, hstop⟩ := hn
    exact (hcall.settled n (by omega) (by omega)).append

theorem CallInv.tip_heights
    (hi : CallInv answers S.forwardSyncer none (plan.head + 1) .tip [] canceled call events) :
    handedHeights .tip events = List.range' (plan.head + 1).toNat call.getter.calls.length := by
  rw [hi.handed, List.nil_append]
  exact SyncReaches.calls_forward hi.reaches

theorem RunInv.tipReturn {result : Result} (hplan : PlanSound plan earliest)
    (hs : RunInv S answers plan s) (hq : s.tip = .syncing call)
    (hc : call.getter.consumer = .returned result) :
    RunInv S answers plan
      { s with tip := .done result, events := s.events ++ [.tipEnded result] } := by
  have htip := hs.tip
  rw [hq] at htip
  have hret := htip.reaches.soundReturn hplan.earlyReturn_tip
  have hsound := htip.reaches.soundResult
  have hres : call.getter.consumer.result? = some result := by rw [hc]; rfl
  have hhanded : handedHeights .tip (s.events ++ [.tipEnded result]) =
      handedHeights .tip s.events := by
    rw [handedHeights_append]
    exact List.append_nil _
  refine ⟨hs.log.concat nofun nofun, hs.gap.frame (by simp [SyncEvent.queue]),
    ⟨⟨_, hhanded.trans htip.tip_heights⟩, ?_⟩, settled_append hs.settled (by simp)⟩
  -- only an error of the handler is not one of the context
  rw [← htip.ctx]
  cases result with
  | nil => exact absurd hres htip.reaches.endless
  | negativeStart => exact absurd hres hret.started
  | ctxErr => exact .inl (hret.ctxErr hres)
  | streamClosed =>
    by_contra hlive
    exact hsound.no_streamClosed (by simpa using fun hctx => hlive (.inl hctx)) hres
  | mismatch => exact absurd hres hsound.no_mismatch
  | handlerErr =>
    obtain ⟨h, hh⟩ := htip.failed hres
    exact .inr ⟨h, List.mem_append_left _ hh⟩

theorem RunInv.cancel (hs : RunInv S answers plan s) :
    RunInv S answers plan { s with canceled := true, gap := s.gap.cancel, tip := s.tip.cancel } := by
  refine ⟨hs.log, ?_, ?_, hs.settled⟩
  · have hgap := hs.gap
    generalize s.gap = q at hgap
    cases q with
    | next rest => exact hgap
    | syncing gap rest call =>
      obtain ⟨done, before, hgaps, hd, hcall⟩ := hgap
      exact ⟨done, before, hgaps, hd, hcall.cancel⟩
    | done ctxErr =>
      obtain ⟨done, rest, hgaps, hd, hend⟩ := hgap
      refine ⟨done, rest, hgaps, hd, ?_⟩
      cases ctxErr with
      | true => exact rfl
      | false => exact hend
  · have htip := hs.tip
    generalize s.tip = q at htip
    cases q with
    | waiting => exact htip
    | syncing call => exact CallInv.cancel htip
    | done result => exact ⟨htip.1, .inl rfl⟩

/-- **Every move of a run** keeps the queues and the record in step. -/
theorem RunMove.inv (hplan : PlanSound plan earliest) (hs : RunInv S answers plan s)
    (hm : RunMove S answers plan s s') : RunInv S answers plan s' := by
  have hgap := hs.gap
  have htip := hs.tip
  cases hm with
  | gapsDone hq =>
    rw [hq] at hgap
    obtain ⟨done, hgaps, hd⟩ := hgap
    exact ⟨hs.log, ⟨done, [], hgaps, hd, rfl⟩, hs.tip, hs.settled⟩
  | startGap gap rest hq =>
    rw [hq] at hgap
    obtain ⟨done, hgaps, hd⟩ := hgap
    have hearly : earlyReturn (some gap.stop) gap.start = none :=
      hplan.earlyReturn_gap (by simp [hgaps])
    exact ⟨hs.log, ⟨done, _, hgaps, hd, .init hearly rfl⟩, hs.tip, hs.settled⟩
  | gap gap rest call call' db' new hq hm =>
    rw [hq] at hgap
    obtain ⟨done, before, hgaps, hd, hcall⟩ := hgap
    obtain ⟨hlog, hcall'⟩ := hm.inv hcall hs.log (hd.lt_start hplan hgaps)
    refine ⟨hlog, ⟨done, before, hgaps, hd.append, hcall'⟩, hs.tip.frame ?_, ?_⟩
    · intro e he
      simp [hm.queue_eq hcall e he]
    · exact settled_append hs.settled fun g hg => absurd hg (hm.not_gapEnded g _)
  | gapReturn gap rest call result hq hc => exact hs.gapReturn hplan hq hc
  | startTip hq =>
    rw [hq] at htip
    exact ⟨hs.log, hs.gap, CallInv.init hplan.earlyReturn_tip htip, hs.settled⟩
  | tip call call' db' new hq hm =>
    rw [hq] at htip
    obtain ⟨hlog, hcall'⟩ := hm.inv htip hs.log (by simp)
    refine ⟨hlog, hs.gap.frame ?_, hcall', ?_⟩
    · intro e he
      simp [hm.queue_eq htip e he]
    · exact settled_append hs.settled fun g hg => absurd hg (hm.not_gapEnded g _)
  | tipReturn call result hq hc => exact hs.tipReturn hplan hq hc
  | cancel => exact hs.cancel

theorem start_inv (plan : Plan) (db : DB) : RunInv S answers plan (plan.start db) where
  log := ⟨nofun, fun l h l' heq => by simp [Plan.start] at heq, .nil⟩
  gap := ⟨[], rfl, nofun, .nil, nofun⟩
  tip := rfl
  settled := nofun

theorem RunReaches.inv (hplan : PlanSound plan earliest) (h : RunReaches S answers plan db s) :
    RunInv S answers plan s :=
  Reachable.invariant h (start_inv plan db) fun _ _ _ hs hstep => (runStep_move hstep).inv hplan hs

end Steps

/-! ## The heights of the queues -/

section Heights

variable {S : Syncer} {answers : ℕ → FetchedBlock → Bool} {plan : Plan} {earliest : ℤ} {s : RunState}

/-- The queue of the gaps hands out heights of the gaps, in ascending order. -/
theorem RunInv.gap_heights (hs : RunInv S answers plan s) (hplan : PlanSound plan earliest) :
    (handedHeights .gap s.events).Pairwise (· < ·) ∧
      ∀ h ∈ handedHeights .gap s.events, Covered plan.gaps h := by
  have hgap := hs.gap
  generalize s.gap = q at hgap
  cases q with
  | next rest =>
    obtain ⟨done, hgaps, hd⟩ := hgap
    rw [hgaps]
    exact ⟨hd.ascending, fun h hh => covered_append.mpr (.inl (hd.covered h hh))⟩
  | syncing gap rest call =>
    obtain ⟨done, before, hgaps, hd, hcall⟩ := hgap
    obtain ⟨hasc, hcov⟩ := hcall.gap_heights hd hplan hgaps
    refine ⟨hasc, fun h hh => ?_⟩
    rw [hgaps, ← List.singleton_append, ← List.append_assoc]
    exact covered_append.mpr (.inl (hcov h hh))
  | done ctxErr =>
    obtain ⟨done, rest, hgaps, hd, -⟩ := hgap
    rw [hgaps]
    exact ⟨hd.ascending, fun h hh => covered_append.mpr (.inl (hd.covered h hh))⟩

theorem RunInv.tip_heights (hs : RunInv S answers plan s) :
    ∃ n, handedHeights .tip s.events = List.range' (plan.head + 1).toNat n := by
  have htip := hs.tip
  generalize s.tip = q at htip
  cases q with
  | waiting => exact ⟨0, htip⟩
  | syncing call => exact ⟨_, CallInv.tip_heights htip⟩
  | done result => exact htip.1

theorem PlanSound.bounds_of_covered (hplan : PlanSound plan earliest) {h : ℤ}
    (hh : Covered plan.gaps h) : earliest ≤ h ∧ h ≤ plan.head := by
  obtain ⟨g, hg, hle, hstop⟩ := hh
  obtain ⟨hstart, hend⟩ := hplan.within g hg
  exact ⟨hstart.trans hle, hstop.trans hend⟩

theorem RunInv.gap_lt_tip (hs : RunInv S answers plan s) (hplan : PlanSound plan earliest)
    {h' : ℕ} (hgap : h ∈ handedHeights .gap s.events) (htip : h' ∈ handedHeights .tip s.events) :
    h < h' := by
  have hle := (hplan.bounds_of_covered ((hs.gap_heights hplan).2 h hgap)).2
  obtain ⟨n, hn⟩ := hs.tip_heights
  rw [hn] at htip
  have hge := (List.mem_range'_1.mp htip).1
  omega

theorem RunInv.queue_of_indexed (hs : RunInv S answers plan s) (hplan : PlanSound plan earliest)
    {q q' : Queue} (hindexed : .indexed q h ∈ s.events) (hh : h ∈ handedHeights q' s.events) :
    q = q' := by
  have hq := hs.log.indexed_handed q h hindexed
  cases q <;> cases q'
  · rfl
  · exact absurd (hs.gap_lt_tip hplan hq hh) (lt_irrefl h)
  · exact absurd (hs.gap_lt_tip hplan hh hq) (lt_irrefl h)
  · rfl

end Heights

/-! ## The store -/

def KeepsOthers (height : ℕ) (batch : DBBatch) : Prop :=
  ∀ (k : Key) (n : ℕ), k.height? = some n → n ≠ height → lastWrite batch k = none

structure IndexBatch (height : ℕ) (batch : DBBatch) : Prop where
  keeps : KeepsOthers height batch
  blockMeta : ∃ m, lastWrite batch (.blockMeta height) = some (some m)

def Handler.BatchSound : Handler → Prop
  | .writing block batch => IndexBatch block.height batch
  | .deleting block _ batch => KeepsOthers block.height batch
  | .idle | .indexing _ | .cleaning _ _ | .publishing _ | .returned _ => True

def HonestNode (answers : ℕ → FetchedBlock → Bool) : Prop :=
  ∀ h fetched block, answers h fetched = true → fetched.block = some block → block.height = h

theorem keepsOthers_resetBlock (db : DB) (height : ℕ) :
    KeepsOthers height (resetBlock db height) := by
  intro k n hk hne
  refine lastWrite_resetBlock_of_not_mem fun ht => ?_
  cases k with
  | txIndex m i | rpcTxIndex m i =>
    obtain rfl := Option.some.inj hk
    exact hne ht.1
  | blockLogs m | blockMeta m =>
    obtain rfl := Option.some.inj hk
    exact hne ht
  | _ => cases hk

theorem indexBatch_of_buildBatch {E : Env} {kv : KVIndexer} {fetched : FetchedBlock}
    {batch : DBBatch} {n : ℕ} (h : buildBatch E kv fetched db = .ok (batch, n)) :
    ∃ block, fetched.block = some block ∧ IndexBatch block.height batch := by
  unfold buildBatch at h
  cases hblock : fetched.block with
  | none =>
    rw [hblock] at h
    cases h
  | some block =>
    simp only [hblock] at h
    obtain ⟨⟨writes, m⟩, hwrites, heq⟩ := bind_eq_ok.mp h
    obtain ⟨rfl, rfl⟩ := Prod.mk.inj (Except.ok.inj heq)
    obtain ⟨R, rfl, rfl, -, -⟩ := blockWrites_ok hwrites
    refine ⟨R.block, rfl, ?_, R.blockMeta, ?_⟩
    · intro k m hk hne
      rw [lastWrite_append, keepsOthers_resetBlock db _ k m hk hne, R.lastWrite_writes]
      cases hget : R.get k with
      | none => rfl
      | some v => exact absurd (BlockRecords.height_of_owns (BlockRecords.owns_of_get hget) hk) hne
    · rw [lastWrite_append, R.lastWrite_writes, R.get_blockMeta]
      rfl

/-- What a run has done to the store it started with. -/
structure StoreInv (db₀ db : DB) (events : List SyncEvent) : Prop where
  untouched : ∀ (k : Key) (h : ℕ), k.height? = some h → (∀ q, h ∉ handedHeights q events) →
    db.get? k = db₀.get? k
  indexed : ∀ q h, .indexed q h ∈ events → (db.get? (.blockMeta h)).isSome

section Store

variable {S : Syncer} {answers : ℕ → FetchedBlock → Bool} {cfg : Blocksync.Syncer}
  {stop : Option ℤ} {start : ℤ} {queue : Queue} {before : List ℕ} {canceled : Bool}
  {db₀ db db' : DB} {call call' : SyncCall} {events new : List SyncEvent} {batch : DBBatch} {h : ℕ}

theorem StoreInv.append (hst : StoreInv db₀ db events)
    (hnew : ∀ q h, .indexed q h ∈ new → (db.get? (.blockMeta h)).isSome) :
    StoreInv db₀ db (events ++ new) where
  untouched := by
    intro k h hk hh
    refine hst.untouched k h hk fun q hq => hh q ?_
    rw [handedHeights_append]
    exact List.mem_append_left _ hq
  indexed := by
    intro q h hmem
    rcases List.mem_append.mp hmem with hmem | hmem
    · exact hst.indexed q h hmem
    · exact hnew q h hmem

theorem StoreInv.apply (hst : StoreInv db₀ db events) (hkeeps : KeepsOthers h batch)
    (hh : h ∈ handedHeights queue events)
    (hown : ∀ q, .indexed q h ∈ events → ∃ m, lastWrite batch (.blockMeta h) = some (some m)) :
    StoreInv db₀ (applyBatch batch db) events where
  untouched := by
    intro k n hk hn
    have hne : n ≠ h := by
      rintro rfl
      exact hn queue hh
    rw [get?_applyBatch, hkeeps k n hk hne]
    exact hst.untouched k n hk hn
  indexed := by
    intro q n hmem
    rw [get?_applyBatch]
    by_cases hne : n = h
    · subst hne
      obtain ⟨m, hm⟩ := hown q hmem
      rw [hm]
      rfl
    · rw [hkeeps (.blockMeta n) n rfl hne]
      exact hst.indexed q n hmem

/-- The batches of a call are for the heights it was handed. -/
theorem CallMove.batchSound (hnode : HonestNode answers)
    (hi : CallInv answers cfg stop start queue before canceled call events)
    (hb : call.handler.BatchSound) (hm : CallMove S answers cfg stop queue db call call' db' new) :
    call'.handler.BatchSound := by
  cases hm with
  | getter a g _ _ => exact hb
  | mismatch g _ _ => exact hb
  | skip g _ _ _ _ _ _ => exact hb
  | hand block g _ _ _ _ _ _ _ => exact trivial
  | resume block g _ _ _ _ _ _ _ => exact trivial
  | abort err block g _ _ _ _ _ _ _ => exact trivial
  | handler x _ _ hm =>
    generalize hh : call.handler = y at hm
    cases hm with
    | build block batch n hbuild =>
      obtain ⟨b, hblock, hindex⟩ := indexBatch_of_buildBatch hbuild
      have hfrom := hi.source.handling block (hi.current block (by rw [hh]; rfl))
      cases hfetched : block.block with
      | none => simp [fetchedOf, hfetched] at hblock
      | some fetched =>
        simp only [fetchedOf, hfetched, Option.getD_some] at hblock
        have hheight := hnode _ _ b (hfrom fetched hfetched) hblock
        change IndexBatch block.height batch
        rw [← hheight]
        exact hindex
    | readBack block err => exact keepsOthers_resetBlock db block.height
    | write block batch =>
      change (afterIndexing S queue block).BatchSound
      unfold afterIndexing
      split_ifs <;> exact trivial
    | _ => exact trivial

theorem CallMove.storeInv (hi : CallInv answers cfg stop start queue before canceled call events)
    (hb : call.handler.BatchSound) (hst : StoreInv db₀ db events)
    (hown : ∀ q h, .indexed q h ∈ events → h ∈ handedHeights queue events → q = queue)
    (hm : CallMove S answers cfg stop queue db call call' db' new) :
    StoreInv db₀ db' (events ++ new) := by
  cases hm with
  | handler x _ _ hm =>
    generalize hh : call.handler = y at hm
    cases hm with
    | write block batch =>
      rw [hh] at hb
      have hblock := hi.current block (by rw [hh]; rfl)
      refine (hst.apply hb.keeps (hi.height block hblock).2 fun _ _ => hb.blockMeta).append ?_
      intro q h hmem
      obtain ⟨rfl, rfl⟩ : q = queue ∧ h = block.height := by simpa using hmem
      obtain ⟨m, hm⟩ := hb.blockMeta
      rw [get?_applyBatch, hm]
      rfl
    | delete block err batch err' =>
      rw [hh] at hb
      have hhanded := (hi.height block (hi.current block (by rw [hh]; rfl))).2
      have happly : StoreInv db₀ (applyBatch batch db) events := by
        refine hst.apply hb hhanded fun q hmem => ?_
        rw [hown q block.height hmem hhanded] at hmem
        exact absurd hmem (hi.unwritten block (by rw [hh]; rfl))
      refine happly.append ?_
      cases err' <;> simp [failureEvent]
    | _ => exact hst.append (by simp [failureEvent])
  | _ => exact hst.append (by simp)

end Store

section Runs

variable {S : Syncer} {answers : ℕ → FetchedBlock → Bool} {plan : Plan} {earliest : ℤ}
  {db₀ : DB} {s s' : RunState}

structure RunStoreInv (db₀ : DB) (s : RunState) : Prop where
  store : StoreInv db₀ s.db s.events
  gap : ∀ gap rest call, s.gap = .syncing gap rest call → call.handler.BatchSound
  tip : ∀ call, s.tip = .syncing call → call.handler.BatchSound

theorem StoreInv.concat {e : SyncEvent} (hst : StoreInv db₀ db events)
    (he : ∀ q h, e ≠ .indexed q h) : StoreInv db₀ db (events ++ [e]) :=
  hst.append fun q h hmem => absurd (List.mem_singleton.mp hmem).symm (he q h)

theorem GapQueue.cancel_eq_syncing {q : GapQueue} {gap : BlockRange} {rest : List BlockRange}
    {call : SyncCall} (h : q.cancel = .syncing gap rest call) :
    ∃ call', q = .syncing gap rest call' ∧ call'.cancel = call := by
  cases q with
  | syncing gap' rest' call' => simpa [GapQueue.cancel, and_assoc] using h
  | _ => cases h

theorem TipQueue.cancel_eq_syncing {q : TipQueue} {call : SyncCall}
    (h : q.cancel = .syncing call) : ∃ call', q = .syncing call' ∧ call'.cancel = call := by
  cases q with
  | syncing call' => simpa [TipQueue.cancel] using h
  | _ => cases h

theorem RunMove.storeInv (hnode : HonestNode answers) (hplan : PlanSound plan earliest)
    (hi : RunInv S answers plan s) (hs : RunStoreInv db₀ s) (hm : RunMove S answers plan s s') :
    RunStoreInv db₀ s' := by
  have hgap := hi.gap
  have htip := hi.tip
  cases hm with
  | gapsDone hq => exact ⟨hs.store, fun _ _ _ hq => (by cases hq), hs.tip⟩
  | startGap gap rest hq =>
    refine ⟨hs.store, ?_, hs.tip⟩
    rintro _ _ _ ⟨⟩
    exact trivial
  | gap gap rest call call' db' new hq hm =>
    rw [hq] at hgap
    obtain ⟨done, before, -, -, hcall⟩ := hgap
    have hb := hs.gap gap rest call hq
    refine ⟨hm.storeInv hcall hb hs.store fun _ _ => hi.queue_of_indexed hplan, ?_, hs.tip⟩
    rintro _ _ _ ⟨⟩
    exact hm.batchSound hnode hcall hb
  | gapReturn gap rest call result hq hc =>
    refine ⟨hs.store.concat nofun, ?_, hs.tip⟩
    by_cases hctx : result = .ctxErr <;> simp [hctx]
  | startTip hq =>
    refine ⟨hs.store, hs.gap, ?_⟩
    rintro _ ⟨⟩
    exact trivial
  | tip call call' db' new hq hm =>
    rw [hq] at htip
    have hb := hs.tip call hq
    refine ⟨hm.storeInv htip hb hs.store fun _ _ => hi.queue_of_indexed hplan, hs.gap, ?_⟩
    rintro _ ⟨⟩
    exact hm.batchSound hnode htip hb
  | tipReturn call result hq hc => exact ⟨hs.store.concat nofun, hs.gap, fun _ hq => (by cases hq)⟩
  | cancel =>
    refine ⟨hs.store, ?_, ?_⟩
    · intro gap rest call hq
      obtain ⟨call', hgap, rfl⟩ := GapQueue.cancel_eq_syncing hq
      exact hs.gap gap rest call' hgap
    · intro call hq
      obtain ⟨call', htip, rfl⟩ := TipQueue.cancel_eq_syncing hq
      exact hs.tip call' htip

theorem RunReaches.storeInv (hnode : HonestNode answers) (hplan : PlanSound plan earliest)
    (h : RunReaches S answers plan db₀ s) : RunStoreInv db₀ s := by
  have hstart : RunStoreInv db₀ (plan.start db₀) :=
    ⟨⟨fun _ _ _ _ => rfl, by simp [Plan.start]⟩, by simp [Plan.start], by simp [Plan.start]⟩
  refine (Reachable.invariant (I := fun s => RunInv S answers plan s ∧ RunStoreInv db₀ s) h
    ⟨start_inv plan db₀, hstart⟩ ?_).2
  intro s s' a hs hstep
  have hm := runStep_move hstep
  exact ⟨hm.inv hplan hs.1, hm.storeInv hnode hplan hs.1 hs.2⟩

end Runs

/-! ## The start as a whole -/

def RunState.tipHeight (plan : Plan) (s : RunState) : ℕ :=
  match s.tip with
  | .syncing call => call.getter.expected
  | .waiting | .done _ => (plan.head + 1).toNat

def RunAction.queue? : RunAction → Option Queue
  | .nextGap | .gap _ | .gapReturn => some .gap
  | .startTip | .tip _ | .tipReturn => some .tip
  | .cancel => none

/-- What holds in every state of a run from the store `db₀`. -/
structure StartupSound (S : Syncer) (answers : ℕ → FetchedBlock → Bool) (plan : Plan) (db₀ : DB)
    (earliest : ℤ) (s : RunState) : Prop where
  /-- no height is handed to a handler twice -/
  handed_once : (handedHeights .gap s.events ++ handedHeights .tip s.events).Nodup
  /-- the queue of the gaps only gets heights of the gaps -/
  gap_heights : ∀ h ∈ handedHeights .gap s.events, Covered plan.gaps h
  /-- the tip is handed out in order -/
  tip_heights : ∃ n, handedHeights .tip s.events = List.range' (plan.head + 1).toNat n
  /-- without a cancellation, the queue of the gaps ends after all gaps -/
  gaps_ended : s.canceled = false → ∀ ctxErr, s.gap = .done ctxErr →
    ∀ g ∈ plan.gaps, ∃ result, .gapEnded g result ∈ s.events
  /-- without an error, every height up to the tip is indexed or was skipped -/
  complete : HonestNode answers → s.gap = .done false →
    (∀ g result, .gapEnded g result ∈ s.events → result = .nil) →
    ∀ h : ℕ, earliest ≤ h → h < s.tipHeight plan →
      s.db.HasHeight h ∨ ∃ queue, .skipped queue h ∈ s.events
  published_tip : ∀ h ∈ publishedHeights s.events, h ∈ handedHeights .tip s.events
  published_ascending : (publishedHeights s.events).Pairwise (· < ·)
  /-- a height is published after its batch was written -/
  published_after : ∀ l h l', s.events = l ++ .published h :: l' → .indexed .tip h ∈ l
  /-- without a cancellation, the queue of the tip ends with an error of its own handler -/
  tip_ended : s.canceled = false → ∀ result, s.tip = .done result →
    ∃ h, .failed .tip h ∈ s.events
  /-- what the queue of the tip does next does not depend on the queue of the gaps -/
  tip_free : plan.parallel = true → ∀ (a : RunAction) (q : GapQueue), a.queue? = some .tip →
    runStep S answers plan { s with gap := q } a =
      (runStep S answers plan s a).map fun s' => { s' with gap := q }
  /-- what the queue of the gaps does next does not depend on the queue of the tip -/
  gap_free : ∀ (a : RunAction) (q : TipQueue), a.queue? = some .gap →
    runStep S answers plan { s with tip := q } a =
      (runStep S answers plan s a).map fun s' => { s' with tip := q }

section Startup

variable {S : Syncer} {answers : ℕ → FetchedBlock → Bool} {plan : Plan} {earliest : ℤ}
  {db₀ : DB} {s : RunState}

theorem tip_free (hpar : plan.parallel = true) (a : RunAction) (q : GapQueue)
    (ha : a.queue? = some .tip) : runStep S answers plan { s with gap := q } a =
      (runStep S answers plan s a).map fun s' => { s' with gap := q } := by
  cases a with
  | startTip =>
    simp only [runStep, startTipStep, hpar, if_true]
    cases s.tip <;> rfl
  | tip a =>
    simp only [runStep, tipStep]
    cases s.tip with
    | syncing call =>
      simp only [Option.map_map]
      rfl
    | _ => rfl
  | tipReturn =>
    simp only [runStep, tipReturnStep]
    cases s.tip with
    | syncing call =>
      dsimp only
      generalize call.getter.consumer = c
      cases c <;> rfl
    | _ => rfl
  | _ => simp [RunAction.queue?] at ha

theorem gap_free (a : RunAction) (q : TipQueue) (ha : a.queue? = some .gap) :
    runStep S answers plan { s with tip := q } a =
      (runStep S answers plan s a).map fun s' => { s' with tip := q } := by
  cases a with
  | nextGap =>
    simp only [runStep, nextGapStep]
    cases s.gap with
    | next rest => cases rest <;> rfl
    | _ => rfl
  | gap a =>
    simp only [runStep, gapStep]
    cases s.gap with
    | syncing gap rest call =>
      simp only [Option.map_map]
      rfl
    | _ => rfl
  | gapReturn =>
    simp only [runStep, gapReturnStep]
    cases s.gap with
    | syncing gap rest call =>
      dsimp only
      generalize call.getter.consumer = c
      cases c <;> rfl
    | _ => rfl
  | _ => simp [RunAction.queue?] at ha

theorem Syncer.plan_sound (S : Syncer) (db : DB) {earliest : ℤ} {status : NodeStatus}
    (hpos : 0 < earliest) (hle : earliest ≤ status.latestBlockHeight) :
    PlanSound (S.plan db earliest status.latestBlockHeight) earliest := by
  have hgaps := computeGaps_gapsFrom earliest status.latestBlockHeight
    (loadIndexedRanges_ascending db).nonempty
  exact ⟨hpos, hle, status.latest_lt, hgaps.ascending, hgaps.within⟩

/-- **The gaps of a start** are the heights up to the head that are not reported as indexed. -/
theorem Syncer.covered_plan {S : Syncer} {earliest : ℤ}
    (hplan : PlanSound (S.plan db earliest head) earliest) (h : ℕ) :
    Covered (S.plan db earliest head).gaps h ↔
      (earliest ≤ h ∧ h ≤ head) ∧ ¬ ReportedIndexed db h := by
  constructor
  · intro hcov
    have hb : earliest ≤ h ∧ h ≤ head := hplan.bounds_of_covered hcov
    exact ⟨hb, (covered_gaps_iff db hb.1 hb.2).mp hcov⟩
  · exact fun ⟨hb, hnot⟩ => (covered_gaps_iff db hb.1 hb.2).mpr hnot

theorem StoreInv.hasHeight (hst : StoreInv db₀ db events) (hrep : ReportedIndexed db₀ h)
    (hnot : ∀ q, h ∉ handedHeights q events) : db.HasHeight h := by
  rcases hrep with hmeta | ⟨-, x, i, hx⟩
  · exact .inl (by rwa [hst.untouched (.blockMeta h) h rfl hnot])
  · exact .inr ⟨x, i, by rw [hst.untouched (.txIndex h i) h rfl hnot, hx]⟩

theorem StoreInv.of_settled {queue : Queue} (hst : StoreInv db₀ db events)
    (hs : Settled queue events h) :
    db.HasHeight h ∨ ∃ queue, .skipped queue h ∈ events :=
  hs.imp (fun hi => .inl (hst.indexed queue h hi)) fun hi => ⟨queue, hi⟩

theorem RunReaches.complete (hplan : PlanSound (S.plan db₀ earliest head) earliest)
    (hs : RunReaches S answers (S.plan db₀ earliest head) db₀ s) (hnode : HonestNode answers)
    (hdone : s.gap = .done false)
    (hnil : ∀ g result, .gapEnded g result ∈ s.events → result = .nil) (h : ℕ) (hh : earliest ≤ h)
    (hlt : h < s.tipHeight (S.plan db₀ earliest head)) :
    s.db.HasHeight h ∨ ∃ queue, .skipped queue h ∈ s.events := by
  have hinv := hs.inv hplan
  have hst := (hs.storeInv hnode hplan).store
  by_cases hhead : (h : ℤ) ≤ head
  · by_cases hrep : ReportedIndexed db₀ h
    · -- reported heights are handed out by no queue
      refine .inl (hst.hasHeight hrep fun q hq => ?_)
      cases q with
      | gap =>
        have hcov := (hinv.gap_heights hplan).2 h hq
        exact ((Syncer.covered_plan hplan h).mp hcov).2 hrep
      | tip =>
        obtain ⟨n, hn⟩ := hinv.tip_heights
        rw [hn] at hq
        have hge : (head + 1).toNat ≤ h := (List.mem_range'_1.mp hq).1
        omega
    · -- the gap of the height has ended without an error
      obtain ⟨g, hg, hcontains⟩ := (Syncer.covered_plan hplan h).mpr ⟨⟨hh, hhead⟩, hrep⟩
      have hgap := hinv.gap
      rw [hdone] at hgap
      obtain ⟨done, rest, hgaps, hd, hrest⟩ := hgap
      obtain rfl : rest = [] := hrest
      rw [hgaps, List.append_nil] at hg
      obtain ⟨result, hended⟩ := hd.ended g hg
      obtain rfl := hnil g result hended
      exact hst.of_settled (hinv.settled g hended h hcontains)
  · have htip := hinv.tip
    unfold RunState.tipHeight at hlt
    cases hq : s.tip with
    | syncing call =>
      rw [hq] at htip hlt
      exact hst.of_settled (htip.settled h (by change (head + 1).toNat ≤ h; omega) hlt)
    | waiting | done result =>
      rw [hq] at hlt
      have hlt' : h < (head + 1).toNat := hlt
      omega

theorem RunReaches.sound (hplan : PlanSound (S.plan db₀ earliest head) earliest)
    (hs : RunReaches S answers (S.plan db₀ earliest head) db₀ s) :
    StartupSound S answers (S.plan db₀ earliest head) db₀ earliest s := by
  have hinv := hs.inv hplan
  refine ⟨?_, (hinv.gap_heights hplan).2, hinv.tip_heights, ?_, hs.complete hplan, ?_,
    hinv.log.published_ascending, hinv.log.published_after, ?_, tip_free, gap_free⟩
  · -- both lists ascend, and the gaps are below the tip
    obtain ⟨n, hn⟩ := hinv.tip_heights
    refine List.Pairwise.imp (fun hlt => Nat.ne_of_lt hlt) (List.pairwise_append.mpr
      ⟨(hinv.gap_heights hplan).1, ?_, fun a ha b hb => hinv.gap_lt_tip hplan ha hb⟩)
    rw [hn]
    exact List.pairwise_lt_range' ..
  · intro hlive ctxErr hdone g hg
    have hgap := hinv.gap
    rw [hdone] at hgap
    obtain ⟨done, rest, hgaps, hd, hrest⟩ := hgap
    cases ctxErr with
    | true => simp [hlive] at hrest
    | false =>
      obtain rfl : rest = [] := hrest
      rw [hgaps, List.append_nil] at hg
      exact hd.ended g hg
  · exact fun h hp => hinv.log.indexed_handed .tip h (hinv.log.indexed_of_published h hp)
  · intro hlive result hdone
    have htip := hinv.tip
    rw [hdone] at htip
    exact htip.2.resolve_left (by simp [hlive])

end Startup

/-- **Startup sync**, for every store and every interleaving of the two queues.  The gaps are
exactly the heights up to the head that are not reported as indexed; no height is handed out
twice; the tip is handed out in order and published in order, each height after its batch; a
queue ends by itself or by a cancellation; and without an error every height up to the tip is
indexed or was skipped. -/
theorem startup_sync (S : Syncer) (answers : ℕ → FetchedBlock → Bool) (configured : ℤ)
    (status : NodeStatus) (probe : BlockProbe) (db₀ : DB) (earliest : ℤ)
    (hearliest : S.earliestBlock configured status probe = .ok earliest)
    (hle : earliest ≤ status.latestBlockHeight) :
    ∃ plan, S.run configured status probe db₀ = .ok (some plan) ∧
      plan.head = status.latestBlockHeight ∧
      (∀ h : ℕ, Covered plan.gaps h ↔
        (earliest ≤ h ∧ h ≤ status.latestBlockHeight) ∧ ¬ ReportedIndexed db₀ h) ∧
      ∀ s, RunReaches S answers plan db₀ s → StartupSound S answers plan db₀ earliest s := by
  have hplan := S.plan_sound db₀ (S.earliestBlock_pos hearliest) hle
  refine ⟨S.plan db₀ earliest status.latestBlockHeight, ?_, rfl, Syncer.covered_plan hplan,
    fun s hs => hs.sound hplan⟩
  simp only [Syncer.run, hearliest]
  exact if_neg (not_lt.mpr hle)

/-- A node that answers with some block of the height, or with none. -/
def anyBlockOf (h : ℕ) (fetched : FetchedBlock) : Bool :=
  fetched.block.all fun block => block.height == h

/-- A start at height 1 with an empty store and a chain of three blocks. -/
theorem startup_sync_three : HonestNode anyBlockOf ∧ ∃ plan,
    sampleSyncer.run 0 ⟨0, 3, by decide⟩ .block ∅ = .ok (some plan) ∧ plan.head = 3 ∧
      (∀ h : ℕ, Covered plan.gaps h ↔ (1 ≤ (h : ℤ) ∧ (h : ℤ) ≤ 3) ∧ ¬ ReportedIndexed ∅ h) ∧
      ∀ s, RunReaches sampleSyncer anyBlockOf plan ∅ s →
        StartupSound sampleSyncer anyBlockOf plan ∅ 1 s := by
  refine ⟨?_, startup_sync sampleSyncer anyBlockOf 0 ⟨0, 3, by decide⟩ .block ∅ 1 rfl (by decide)⟩
  intro h fetched block hanswer hblock
  simpa [anyBlockOf, hblock] using hanswer

end EvmGateway
