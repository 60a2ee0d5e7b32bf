import EvmGateway.Streaming.Wakeups

/-!
# Subscribers that fall behind

A wakeup can be lost, and a subscriber that falls behind by more than the capacity leaves items
out.  Whatever happens, it is given items that come after its first read, in their order and none
of them twice (`subscribers_in_order`).  The reason is that a read begins at the offset or, if the
segment of the offset was pruned, behind it.
-/

namespace EvmGateway.Streaming

open Lib

variable {V : Type}

section Read

variable {added : List V} {s : Stream V}

theorem Stored.le_readPos (hs : Stored added s) (o : ℕ) : o ≤ s.readPos o := by
  unfold Stream.readPos
  split_ifs with hseg
  · exact le_rfl
  · have hlt := (Nat.div_lt_iff_lt_mul hs.size_pos).mp (not_le.mp hseg)
    omega

/-- **A read at any offset** returns items from where it begins, and the place behind them. -/
theorem Stored.doRead_eq (hs : Stored added s) {o : ℕ} (ho : o ≤ added.length) :
    ∃ d, s.doRead o = some ((added.drop (s.readPos o)).take d,
      min (s.readPos o + d) added.length) := by
  obtain ⟨hle, hoff⟩ := hs.readPos_spec ho
  have hmod := Nat.mod_lt (s.readPos o) hs.size_pos
  have hdiv := Nat.div_add_mod' (s.readPos o) s.segmentSize
  refine ⟨s.segmentSize - s.readPos o % s.segmentSize, ?_⟩
  rw [hs.doRead_readPos, hs.doRead hle hoff, Nat.succ_mul]
  congr 3
  omega

end Read

/-- Where a subscriber is: before its first read, or at an offset up to which it was given items in
their order. -/
structure Subscriber.Placed (added : List V) (x : Subscriber V) : Prop where
  fresh : x.first = none → x.phase = .reading ∧ x.offset = -1 ∧ x.delivered = []
  placed : ∀ k, x.first = some k → ∃ o : ℕ, x.offset = o ∧ k ≤ o ∧ o ≤ added.length ∧
    x.delivered.Sublist ((added.take o).drop k)

structure HubPlaced (s : Hub V) : Prop where
  stored : Stored s.added s.stream
  subscriber : ∀ x ∈ s.subscribers, x.Placed s.added

section Steps

variable {s s' : Hub V} {x x' : Subscriber V}

/-- A read that begins at the offset or behind it. -/
theorem placed_afterRead {k o p d : ℕ} (hfirst : x.first = some k) (hko : k ≤ o)
    (hgiven : x.delivered.Sublist ((s.added.take o).drop k)) (hop : o ≤ p)
    (hp : p ≤ s.added.length) :
    (x.afterRead s ((s.added.drop p).take d) (min (p + d) s.added.length)).Placed s.added where
  fresh := nofun
  placed := by
    intro k' hk'
    obtain rfl : k = k' := by simpa [Subscriber.afterRead, hfirst] using hk'
    refine ⟨_, rfl, by omega, Nat.min_le_right .., ?_⟩
    rw [← drop_take_append (hko.trans hop) hp]
    -- what was skipped is left out
    exact (hgiven.trans ((List.take_sublist_take_left hop).drop k)).append_right _

theorem SubscriberMove.placed {a : SubscriberAction} (hs : Stored s.added s.stream)
    (hx : x.Placed s.added) (hm : SubscriberMove s x a x') : x'.Placed s.added := by
  -- before its first read a subscriber is about to read
  have hphase : ∀ {ph : Phase V}, x.phase ≠ .reading → { x with phase := ph }.Placed s.added :=
    fun hne => ⟨fun hnone => absurd (hx.fresh hnone).1 hne, hx.placed⟩
  cases hm with
  | read items offset _ _ hread =>
    cases hfirst : x.first with
    | none =>
      obtain ⟨-, hoffset, hnil⟩ := hx.fresh hfirst
      rw [hoffset, hs.doRead_of_neg (by decide)] at hread
      cases hread
      refine ⟨nofun, fun k hk => ⟨s.added.length, rfl, ?_, le_rfl, ?_⟩⟩
      · obtain rfl : s.added.length = k := by simpa [Subscriber.afterRead, hfirst] using hk
        exact le_rfl
      · simp [Subscriber.afterRead, hnil]
    | some k =>
      obtain ⟨o, hoffset, hko, hle, hgiven⟩ := hx.placed k hfirst
      obtain ⟨d, hdo⟩ := hs.doRead_eq hle
      rw [hoffset, hdo] at hread
      cases hread
      exact placed_afterRead hfirst hko hgiven (hs.le_readPos o) (hs.readPos_spec hle).1
  | capture h => exact hphase (by simp [h])
  | wake _ h _ => exact hphase (by simp [h])
  | giveUp _ h _ => exact hphase (by simp [h])
  | next _ h => exact hphase (by simp [h])
  | stop _ h => exact hphase (by simp [h])

/-- **Every action** keeps the subscribers where they should be. -/
theorem hubStep_placed {a : HubAction V} (hs : HubPlaced s) (h : hubStep s a = some s') :
    HubPlaced s' := by
  cases a with
  | subscribe =>
    obtain rfl := Option.some.inj h
    refine ⟨hs.stored, fun x hx => ?_⟩
    rcases List.mem_append.mp hx with hx | hx
    · exact hs.subscriber x hx
    · rw [List.mem_singleton.mp hx]
      exact ⟨fun _ => ⟨rfl, rfl, rfl⟩, nofun⟩
  | cancel i =>
    obtain rfl := Option.some.inj h
    refine ⟨hs.stored, fun x hx => ?_⟩
    obtain ⟨j, hj⟩ := List.getElem?_of_mem hx
    rw [List.getElem?_modify, Option.map_eq_map, Option.map_eq_some_iff] at hj
    obtain ⟨y, hy, rfl⟩ := hj
    have hy := hs.subscriber y (List.mem_of_getElem? hy)
    split_ifs
    · exact ⟨hy.fresh, hy.placed⟩
    · exact hy
  | append vs =>
    simp only [hubStep] at h
    split_ifs at h
    obtain ⟨stream, hadd, hst, -⟩ := hs.stored.add vs
    rw [hadd] at h
    obtain rfl := Option.some.inj h
    refine ⟨hst, fun x hx => ⟨(hs.subscriber x hx).fresh, fun k hk => ?_⟩⟩
    obtain ⟨o, hoffset, hko, hle, hgiven⟩ := (hs.subscriber x hx).placed k hk
    refine ⟨o, hoffset, hko, hle.trans (by simp), ?_⟩
    rwa [List.take_append_of_le_length hle]
  | broadcast =>
    simp only [hubStep] at h
    split_ifs at h
    obtain rfl := Option.some.inj h
    exact ⟨hs.stored, hs.subscriber⟩
  | subscriber i a =>
    simp only [hubStep] at h
    split at h
    case h_1 x hx =>
      obtain ⟨x', hstep, rfl⟩ := Option.map_eq_some_iff.mp h
      refine ⟨hs.stored, fun y hy => ?_⟩
      rcases List.mem_or_eq_of_mem_set hy with hy | rfl
      · exact hs.subscriber y hy
      · have hx := hs.subscriber x (List.mem_of_getElem? hx)
        have hy := (subscriberStep_move hstep).placed hs.stored hx
        exact hy
    case h_2 => cases h

end Steps

/-- **Subscribers in order.**  In every run, a subscriber is given items that were added after its
first read, in their order and none of them twice, and nothing before it. -/
theorem subscribers_in_order {size capacity : ℕ} {stream : Stream V} (hsize : 1 ≤ size)
    (hcap : 1 ≤ capacity) (hnew : newStream size capacity = some stream) {s : Hub V}
    (hs : Reachable hubStep { stream := stream } s) {x : Subscriber V} (hx : x ∈ s.subscribers) :
    x.delivered.Sublist (s.added.drop (x.first.getD s.added.length)) := by
  obtain ⟨stream', hnew', hst, -⟩ := newStream_stored (V := V) hsize hcap
  obtain rfl : stream' = stream := Option.some.inj (hnew'.symm.trans hnew)
  have hplaced : HubPlaced s := hs.invariant ⟨hst, List.forall_mem_nil _⟩
    fun _ _ _ hs h => hubStep_placed hs h
  have hx := hplaced.subscriber x hx
  cases hfirst : x.first with
  | none => simp [(hx.fresh hfirst).2.2]
  | some k =>
    obtain ⟨o, -, -, -, hgiven⟩ := hx.placed k hfirst
    exact hgiven.trans ((List.take_sublist o _).drop k)

/-- Five items are added before a subscriber reads, and the first segment is pruned. -/
def overtakenRun : List (HubAction ℕ) :=
  [.subscribe, .subscriber 0 .read, .subscriber 0 .capture, .append [5, 6, 7, 8, 9], .broadcast,
    .subscriber 0 .wake, .subscriber 0 .read]

theorem subscribers_in_order_overtaken :
    ∃ s, perform hubStep { stream := smallStream } overtakenRun = some s ∧
      ∃ x ∈ s.subscribers, x.delivered = [7, 8] ∧
        x.delivered.Sublist (s.added.drop (x.first.getD s.added.length)) := by
  have hrun : (perform hubStep { stream := smallStream } overtakenRun).map
      (fun s => s.subscribers.map (·.delivered)) = some [[7, 8]] := by decide +kernel
  obtain ⟨s, hs, hgiven⟩ := Option.map_eq_some_iff.mp hrun
  obtain ⟨x, hx, hseven⟩ : ∃ x ∈ s.subscribers, x.delivered = [7, 8] :=
    List.mem_map.mp (hgiven ▸ List.mem_singleton_self _)
  exact ⟨s, hs, x, hx, hseven, subscribers_in_order (show 1 ≤ 2 by decide) (show 1 ≤ 2 by decide) rfl
    (Reachable.init.perform hs) hx⟩

end EvmGateway.Streaming
