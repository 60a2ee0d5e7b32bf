import EvmGateway.Lib.Interleaving
import EvmGateway.Streaming.Stream

/-!
# Blocking readers

A subscriber reads a stream in a loop.  If there is nothing to read it releases the lock of the
stream, takes the current channel of the condition and waits until the channel is closed.
`Add` appends its items under the lock, then closes the channel and puts a new one in its place.

The channel is a number here: a channel is closed if it is not the current one.  The steps are
those pieces of the goroutines that a lock makes atomic.  `Add` is two of them, since the
condition has a lock of its own; the subscriber is outside both locks between its read and the
moment it takes the channel.  A broadcast at that moment is lost on it: it takes the new channel
and waits, although there is an item.

`Undisturbed` excludes this, and that a subscriber falls behind by more than the capacity.  In the
runs that are left, a subscriber that waits has been given everything (`HubInv.delivered`), and
every item is delivered if the scheduler is fair (`FairRun.delivered`).

## Main definitions

* `Hub`, `hubStep` — a stream with its subscribers.
* `Subscriber.Blocked` — the subscriber waits for a broadcast.
* `Undisturbed` — what an action must not do.
* `FairRun` — a run that is fair to a subscriber.
-/

namespace EvmGateway.Streaming

open Lib

variable {V : Type}

/-! ## The system -/

/-- A subscriber, by the place in its loop. -/
inductive Phase (V : Type)
  /-- about to lock and read -/
  | reading
  /-- in `Wait` with the lock of the stream released, about to take the channel -/
  | unlocked
  /-- waiting for the channel to be closed -/
  | waiting (ch : ℕ)
  /-- in the callback -/
  | calling (items : List V)
  | exited
  deriving DecidableEq

/-- A call of `Subscribe`. -/
structure Subscriber (V : Type) where
  phase : Phase V := .reading
  offset : ℤ := -1
  /-- whether its context is done -/
  canceled : Bool := false
  /-- the number of items at its first read -/
  first : Option ℕ := none
  /-- the items passed to the callback -/
  delivered : List V := []

/-- A stream with its subscribers. -/
structure Hub (V : Type) where
  stream : Stream V
  /-- everything added so far -/
  added : List V := []
  /-- an `Add` holds the lock and has not called `Broadcast` yet -/
  adding : Bool := false
  /-- the current channel of the condition -/
  ch : ℕ := 0
  subscribers : List (Subscriber V) := []

/-- What a subscriber does next. -/
inductive SubscriberAction
  /-- lock, read, and unlock if there is nothing -/
  | read
  /-- take the channel -/
  | capture
  /-- find the channel closed, or -/
  | wake
  /-- the context done -/
  | giveUp
  /-- the callback returns, with or without an error -/
  | returned (ok : Bool)

/-- What happens to a stream and its subscribers. -/
inductive HubAction (V : Type)
  | subscribe
  | cancel (i : ℕ)
  /-- `Add` locks and appends items -/
  | append (vs : List V)
  /-- `Add` broadcasts and unlocks -/
  | broadcast
  | subscriber (i : ℕ) (a : SubscriberAction)

def Subscriber.afterRead (x : Subscriber V) (s : Hub V) (items : List V) (offset : ℕ) :
    Subscriber V :=
  { x with
    phase := if items.isEmpty then .unlocked else .calling items
    offset := offset
    first := some (x.first.getD s.added.length)
    delivered := x.delivered ++ items }

def subscriberStep (s : Hub V) (x : Subscriber V) : Phase V → SubscriberAction → Option (Subscriber V)
  | .reading, .read =>
    if s.adding then none
    else (s.stream.doRead x.offset).map fun (items, offset) => x.afterRead s items offset
  | .unlocked, .capture => some { x with phase := .waiting s.ch }
  | .waiting ch, .wake => if ch = s.ch then none else some { x with phase := .reading }
  | .waiting _, .giveUp => if x.canceled then some { x with phase := .exited } else none
  | .calling _, .returned ok => some { x with phase := if ok then .reading else .exited }
  | _, _ => none

/-- One action of the system. -/
def hubStep (s : Hub V) : HubAction V → Option (Hub V)
  | .subscribe => some { s with subscribers := s.subscribers ++ [{}] }
  | .cancel i =>
    some { s with subscribers := s.subscribers.modify i fun x => { x with canceled := true } }
  | .append vs =>
    if s.adding ∨ vs = [] then none
    else
      (s.stream.add vs).map fun r =>
        { s with stream := r.1, added := s.added ++ vs, adding := true }
  | .broadcast => if s.adding then some { s with adding := false, ch := s.ch + 1 } else none
  | .subscriber i a =>
    match s.subscribers[i]? with
    | some x =>
      (subscriberStep s x x.phase a).map fun x' => { s with subscribers := s.subscribers.set i x' }
    | none => none

/-- The parties a scheduler can favour. -/
inductive Party
  | subscriber (i : ℕ)
  /-- the `Add` that holds the lock -/
  | adder
  | environment
  deriving DecidableEq

def HubAction.owner : HubAction V → Party
  | .subscriber i _ => .subscriber i
  | .broadcast => .adder
  | .subscribe | .cancel _ | .append _ => .environment

/-- The subscriber waits, and only a broadcast can wake it. -/
structure Subscriber.Blocked (x : Subscriber V) (s : Hub V) : Prop where
  waiting : x.phase = .waiting s.ch
  live : x.canceled = false

/-- No broadcast while a subscriber is between its read and its channel, and no items that leave
a subscriber behind by more than the capacity. -/
def Undisturbed (capacity : ℕ) (s : Hub V) : HubAction V → Prop
  | .broadcast => ∀ x ∈ s.subscribers, x.phase ≠ .unlocked
  | .append vs => ∀ x ∈ s.subscribers, x.first.isSome → x.phase ≠ .exited →
      ((s.added.length + vs.length : ℕ) : ℤ) ≤ x.offset + capacity
  | .subscribe | .cancel _ | .subscriber _ _ => True

instance [DecidableEq V] (capacity : ℕ) (s : Hub V) : DecidablePred (Undisturbed capacity s)
  | .broadcast => inferInstanceAs (Decidable (∀ x ∈ s.subscribers, x.phase ≠ .unlocked))
  | .append vs => inferInstanceAs (Decidable (∀ x ∈ s.subscribers, x.first.isSome →
      x.phase ≠ .exited → ((s.added.length + vs.length : ℕ) : ℤ) ≤ x.offset + capacity))
  | .subscribe | .cancel _ | .subscriber _ _ => inferInstanceAs (Decidable True)

/-! ## Waiting subscribers have been given everything -/

/-- The subscriber was given the items from its first read up to its offset, and is not further
behind than the capacity. -/
structure Subscriber.Given (x : Subscriber V) (capacity : ℕ) (added : List V) (k o : ℕ) : Prop where
  offset : x.offset = o
  first_le : k ≤ o
  le : o ≤ added.length
  delivered : x.delivered = (added.take o).drop k
  near : x.phase ≠ .exited → added.length ≤ o + capacity

/-- How a subscriber and the stream fit together. -/
structure SubscriberInv (capacity : ℕ) (s : Hub V) (x : Subscriber V) : Prop where
  fresh : x.first = none → x.phase = .reading ∧ x.offset = -1 ∧ x.delivered = []
  given : ∀ k, x.first = some k → ∃ o, x.Given capacity s.added k o
  channel : ∀ ch, x.phase = .waiting ch → ch ≤ s.ch
  /-- nothing is left to read for a subscriber about to wait, or waiting -/
  caughtUp : x.phase = .unlocked ∨ x.phase = .waiting s.ch → s.adding = false →
    x.offset = s.added.length

/-- The invariant of the system. -/
structure HubInv (capacity : ℕ) (s : Hub V) : Prop where
  stored : Stored s.added s.stream
  room : capacity ≤ s.stream.maxSegments * s.stream.segmentSize
  subscriber : ∀ x ∈ s.subscribers, SubscriberInv capacity s x

section Steps

variable {capacity : ℕ} {s s' : Hub V} {x x' : Subscriber V}

/-- The moves of a subscriber. -/
inductive SubscriberMove (s : Hub V) (x : Subscriber V) : SubscriberAction → Subscriber V → Prop
  | read (items : List V) (offset : ℕ) (hphase : x.phase = .reading) (hlock : s.adding = false)
      (hread : s.stream.doRead x.offset = some (items, offset)) :
      SubscriberMove s x .read (x.afterRead s items offset)
  | capture (hphase : x.phase = .unlocked) :
      SubscriberMove s x .capture { x with phase := .waiting s.ch }
  | wake (ch : ℕ) (hphase : x.phase = .waiting ch) (hch : ch ≠ s.ch) :
      SubscriberMove s x .wake { x with phase := .reading }
  | giveUp (ch : ℕ) (hphase : x.phase = .waiting ch) (hcanceled : x.canceled = true) :
      SubscriberMove s x .giveUp { x with phase := .exited }
  | next (items : List V) (hphase : x.phase = .calling items) :
      SubscriberMove s x (.returned true) { x with phase := .reading }
  | stop (items : List V) (hphase : x.phase = .calling items) :
      SubscriberMove s x (.returned false) { x with phase := .exited }

theorem subscriberStep_move {a : SubscriberAction} (h : subscriberStep s x x.phase a = some x') :
    SubscriberMove s x a x' := by
  unfold subscriberStep at h
  split at h
  case h_1 hphase =>
    split_ifs at h with hlock
    obtain ⟨⟨items, offset⟩, hread, rfl⟩ := Option.map_eq_some_iff.mp h
    exact .read items offset hphase (by simpa using hlock) hread
  case h_2 hphase =>
    obtain rfl := Option.some.inj h
    exact .capture hphase
  case h_3 ch hphase =>
    split_ifs at h with hch
    obtain rfl := Option.some.inj h
    exact .wake ch hphase hch
  case h_4 ch hphase =>
    split_ifs at h with hcanceled
    obtain rfl := Option.some.inj h
    exact .giveUp ch hphase hcanceled
  case h_5 items ok hphase =>
    obtain rfl := Option.some.inj h
    cases ok with
    | true => exact .next items hphase
    | false => exact .stop items hphase
  case h_6 => cases h

theorem Subscriber.Given.segment_le (hs : HubInv capacity s) {k o : ℕ}
    (hg : x.Given capacity s.added k o) (hphase : x.phase ≠ .exited) :
    s.stream.segmentOffset ≤ o / s.stream.segmentSize := by
  rw [Nat.le_div_iff_mul_le hs.stored.size_pos]
  by_cases hoff : s.stream.segmentOffset = 0
  · simp [hoff]
  · have hcount := hs.stored.pruned (Nat.pos_of_ne_zero hoff)
    have hlt := hs.stored.lt (by omega)
    have hnear := hg.near hphase
    have hcap := hs.room
    rw [hcount, ← Nat.add_assoc, Nat.add_sub_cancel, Nat.add_mul] at hlt
    omega

theorem Subscriber.Given.doRead (hs : HubInv capacity s) {k o : ℕ}
    (hg : x.Given capacity s.added k o) (hphase : x.phase ≠ .exited) :
    s.stream.doRead x.offset = some
      ((s.added.drop o).take (s.stream.segmentSize - o % s.stream.segmentSize),
        min ((o / s.stream.segmentSize + 1) * s.stream.segmentSize) s.added.length) := by
  rw [hg.offset]
  exact hs.stored.doRead hg.le (hg.segment_le hs hphase)

theorem segment_end (hs : HubInv capacity s) (o : ℕ) :
    (o / s.stream.segmentSize + 1) * s.stream.segmentSize =
      o + (s.stream.segmentSize - o % s.stream.segmentSize) := by
  have hdiv := Nat.div_add_mod' o s.stream.segmentSize
  have hmod := Nat.mod_lt o hs.stored.size_pos
  rw [Nat.succ_mul]
  omega

theorem drop_take_append {l : List V} {k o d : ℕ} (hk : k ≤ o) (ho : o ≤ l.length) :
    (l.take o).drop k ++ (l.drop o).take d = (l.take (min (o + d) l.length)).drop k := by
  have htake : l.take (min (o + d) l.length) = l.take o ++ (l.drop o).take d := by
    rw [← List.take_add]
    rcases le_total (o + d) l.length with h | h
    · rw [Nat.min_eq_left h]
    · rw [Nat.min_eq_right h, List.take_length, List.take_of_length_le h]
  rw [htake, List.drop_append_of_le_length (by simp; omega)]

theorem SubscriberInv.firstRead (hx : SubscriberInv capacity s x) (hfirst : x.first = none) :
    SubscriberInv capacity s (x.afterRead s [] s.added.length) where
  fresh := nofun
  given := by
    intro k hk
    obtain rfl : s.added.length = k := by simpa [Subscriber.afterRead, hfirst] using hk
    refine ⟨s.added.length, rfl, le_rfl, le_rfl, ?_, fun _ => Nat.le_add_right ..⟩
    simp [Subscriber.afterRead, (hx.fresh hfirst).2.2]
  channel := nofun
  caughtUp := fun _ _ => rfl

theorem SubscriberInv.laterRead (hs : HubInv capacity s) {k o : ℕ}
    (hg : x.Given capacity s.added k o) (hfirst : x.first = some k) (hphase : x.phase ≠ .exited) :
    SubscriberInv capacity s (x.afterRead s
      ((s.added.drop o).take (s.stream.segmentSize - o % s.stream.segmentSize))
      (min ((o / s.stream.segmentSize + 1) * s.stream.segmentSize) s.added.length)) := by
  have hmod := Nat.mod_lt o hs.stored.size_pos
  have hle := hg.le
  have hnear := hg.near hphase
  rw [segment_end hs o]
  refine ⟨?_, ?_, ?_, ?_⟩
  · simp [Subscriber.afterRead]
  · intro k' hk'
    obtain rfl : k = k' := by simpa [Subscriber.afterRead, hfirst] using hk'
    have hfirst_le := hg.first_le
    refine ⟨_, rfl, by omega, Nat.min_le_right .., ?_, fun _ => by omega⟩
    change x.delivered ++ _ = _
    rw [hg.delivered, drop_take_append hfirst_le hle]
  · intro ch hch
    simp only [Subscriber.afterRead] at hch
    split_ifs at hch
  · intro hph _
    simp only [Subscriber.afterRead] at hph ⊢
    -- nothing was read, so the offset was at the end
    have hempty : ((s.added.drop o).take
        (s.stream.segmentSize - o % s.stream.segmentSize)).isEmpty = true := by
      by_contra hne
      simp [hne] at hph
    have hlen := congrArg List.length (List.isEmpty_iff.mp hempty)
    rw [List.length_take, List.length_drop, List.length_nil] at hlen
    rw [Nat.min_eq_right (by omega)]

/-- A move of a subscriber keeps its record. -/
theorem SubscriberMove.inv {a : SubscriberAction} (hs : HubInv capacity s)
    (hx : SubscriberInv capacity s x) (hm : SubscriberMove s x a x') :
      SubscriberInv capacity s x' := by
  -- a change of the phase that does not lead to the channel
  have hphase : ∀ ph : Phase V, x.phase ≠ .reading → (ph ≠ .exited → x.phase ≠ .exited) →
      ph ≠ .unlocked → (∀ ch, ph ≠ .waiting ch) →
        SubscriberInv capacity s { x with phase := ph } := by
    intro ph hnot hexited hun hwait
    refine ⟨fun hfirst => absurd (hx.fresh hfirst).1 hnot, ?_, fun ch hch => absurd hch (hwait ch),
      ?_⟩
    · intro k hk
      obtain ⟨o, hg⟩ := hx.given k hk
      exact ⟨o, hg.offset, hg.first_le, hg.le, hg.delivered, fun hne => hg.near (hexited hne)⟩
    · rintro (hph | hph)
      · exact absurd hph hun
      · exact absurd hph (hwait _)
  cases hm with
  | read items offset hreading hlock hread =>
    cases hfirst : x.first with
    | none =>
      rw [(hx.fresh hfirst).2.1, hs.stored.doRead_of_neg (by decide)] at hread
      cases hread
      exact hx.firstRead hfirst
    | some k =>
      obtain ⟨o, hg⟩ := hx.given k hfirst
      have hlive : x.phase ≠ .exited := by simp [hreading]
      rw [hg.doRead hs hlive] at hread
      cases hread
      exact SubscriberInv.laterRead hs hg hfirst hlive
  | capture hunlocked =>
    refine ⟨fun hfirst => ?_, ?_, ?_, fun _ => hx.caughtUp (.inl hunlocked)⟩
    · have := (hx.fresh hfirst).1
      rw [hunlocked] at this
      cases this
    · intro k hk
      obtain ⟨o, hg⟩ := hx.given k hk
      exact ⟨o, hg.offset, hg.first_le, hg.le, hg.delivered, fun _ => hg.near (by simp [hunlocked])⟩
    · rintro ch ⟨⟩
      exact le_rfl
  | wake ch hwaiting hch => exact hphase _ (by simp [hwaiting]) (by simp [hwaiting]) nofun nofun
  | giveUp ch hwaiting hcanceled => exact hphase _ (by simp [hwaiting]) (by simp) nofun nofun
  | next items hcalling => exact hphase _ (by simp [hcalling]) (by simp [hcalling]) nofun nofun
  | stop items hcalling => exact hphase _ (by simp [hcalling]) (by simp) nofun nofun

theorem SubscriberInv.congr (hx : SubscriberInv capacity s x) (l : List (Subscriber V)) :
    SubscriberInv capacity { s with subscribers := l } x :=
  ⟨hx.fresh, hx.given, hx.channel, hx.caughtUp⟩

/-- More items, for a subscriber that stays near enough. -/
theorem SubscriberInv.append {vs : List V} {stream : Stream V} (hx : SubscriberInv capacity s x)
    (hnear : x.first.isSome → x.phase ≠ .exited →
      ((s.added.length + vs.length : ℕ) : ℤ) ≤ x.offset + capacity) :
    SubscriberInv capacity { s with stream := stream, added := s.added ++ vs, adding := true } x where
  fresh := hx.fresh
  given := by
    intro k hk
    obtain ⟨o, hg⟩ := hx.given k hk
    have hle := hg.le
    refine ⟨o, hg.offset, hg.first_le, by simp only [List.length_append]; omega, ?_, ?_⟩
    · rw [hg.delivered, List.take_append_of_le_length hle]
    · intro hlive
      have hn := hnear (by simp [hk]) hlive
      rw [hg.offset] at hn
      simp only [List.length_append]
      omega
  channel := hx.channel
  caughtUp := nofun

theorem SubscriberInv.broadcast (hx : SubscriberInv capacity s x) (hwindow : x.phase ≠ .unlocked) :
    SubscriberInv capacity { s with adding := false, ch := s.ch + 1 } x where
  fresh := hx.fresh
  given := hx.given
  channel := fun ch hch => (hx.channel ch hch).trans (Nat.le_succ _)
  caughtUp := by
    rintro (hph | hph) _
    · exact absurd hph hwindow
    · exact absurd (hx.channel _ hph) (Nat.not_succ_le_self _)

/-- **Every admitted action** keeps the subscribers and the stream in step. -/
theorem hubStep_inv {a : HubAction V} (hs : HubInv capacity s) (hok : Undisturbed capacity s a)
    (h : hubStep s a = some s') : HubInv capacity s' := by
  cases a with
  | subscribe =>
    obtain rfl := Option.some.inj h
    refine ⟨hs.stored, hs.room, ?_⟩
    intro x hx
    rcases List.mem_append.mp hx with hx | hx
    · exact (hs.subscriber x hx).congr _
    · rw [List.mem_singleton.mp hx]
      exact ⟨fun _ => ⟨rfl, rfl, rfl⟩, nofun, nofun, by simp⟩
  | cancel i =>
    obtain rfl := Option.some.inj h
    refine ⟨hs.stored, hs.room, ?_⟩
    intro x hx
    obtain ⟨y, hy, rfl | rfl⟩ : ∃ y ∈ s.subscribers, x = y ∨ x = { y with canceled := true } := by
      obtain ⟨j, hj⟩ := List.getElem?_of_mem hx
      rw [List.getElem?_modify, Option.map_eq_map, Option.map_eq_some_iff] at hj
      obtain ⟨y, hy, rfl⟩ := hj
      refine ⟨y, List.mem_of_getElem? hy, ?_⟩
      split_ifs
      · exact .inr rfl
      · exact .inl rfl
    · exact (hs.subscriber x hy).congr _
    · have hinv := hs.subscriber y hy
      refine ⟨hinv.fresh, ?_, hinv.channel, hinv.caughtUp⟩
      intro k hk
      obtain ⟨o, hg⟩ := hinv.given k hk
      exact ⟨o, hg.offset, hg.first_le, hg.le, hg.delivered, hg.near⟩
  | append vs =>
    simp only [hubStep] at h
    split_ifs at h with hbusy
    obtain ⟨stream, hadd, hst, hsize, hmax⟩ := hs.stored.add vs
    rw [hadd] at h
    obtain rfl := Option.some.inj h
    refine ⟨hst, ?_, fun x hx => (hs.subscriber x hx).append (hok x hx)⟩
    rw [hsize, hmax]
    exact hs.room
  | broadcast =>
    simp only [hubStep] at h
    split_ifs at h
    obtain rfl := Option.some.inj h
    exact ⟨hs.stored, hs.room, fun x hx => (hs.subscriber x hx).broadcast (hok x hx)⟩
  | subscriber i a =>
    simp only [hubStep] at h
    split at h
    case h_1 x hx =>
      obtain ⟨x', hstep, rfl⟩ := Option.map_eq_some_iff.mp h
      refine ⟨hs.stored, hs.room, ?_⟩
      intro y hy
      rcases List.mem_or_eq_of_mem_set hy with hy | rfl
      · exact (hs.subscriber y hy).congr _
      · have hinv := hs.subscriber x (List.mem_of_getElem? hx)
        exact ((subscriberStep_move hstep).inv hs hinv).congr _
    case h_2 => cases h

end Steps

theorem newHub_inv {size capacity : ℕ} (hsize : 1 ≤ size) (hcap : 1 ≤ capacity) :
    ∃ stream : Stream V, newStream size capacity = some stream ∧
      HubInv capacity ({ stream := stream } : Hub V) := by
  obtain ⟨stream, hnew, hst, hsize', hcap'⟩ := newStream_stored (V := V) hsize hcap
  exact ⟨stream, hnew, hst, hsize' ▸ hcap', nofun⟩

/-- A waiting subscriber has been given everything, unless an `Add` is about to broadcast. -/
theorem HubInv.delivered {capacity : ℕ} {s : Hub V} {x : Subscriber V} (hs : HubInv capacity s)
    (hx : x ∈ s.subscribers) (hblocked : x.Blocked s) (hidle : s.adding = false) {k : ℕ}
    (hk : x.first = some k) : x.delivered = s.added.drop k := by
  have hinv := hs.subscriber x hx
  obtain ⟨o, hg⟩ := hinv.given k hk
  have hcaught := hinv.caughtUp (.inr hblocked.waiting) hidle
  have ho : o = s.added.length := by
    rw [hg.offset] at hcaught
    exact_mod_cast hcaught
  rw [hg.delivered, ho, List.take_length]

/-! ## Every item is delivered -/

/-- A run that is fair to a subscriber: the reader is let in between two writers, and an `Add`
that has appended its items broadcasts.  The subscription is not ended from outside. -/
structure FairRun (stream : Stream V) (capacity i : ℕ) (ρ : Execution (hubStep (V := V))) :
    Prop where
  init : ρ.state 0 = { stream := stream }
  undisturbed : ∀ t a, ρ.action t = some a → Undisturbed capacity (ρ.state t) a
  fair_subscriber : ρ.StronglyFair HubAction.owner (.subscriber i)
  fair_adder : ρ.WeaklyFair HubAction.owner .adder
  not_canceled : ∀ t, ρ.action t ≠ some (.cancel i)
  callback : ∀ t, ρ.action t ≠ some (.subscriber i (.returned false))

section Fair

variable {stream : Stream V} {capacity i k n : ℕ} {ρ : Execution (hubStep (V := V))} {s s' : Hub V}
  {x : Subscriber V}

/-- The other parties leave a subscriber alone, unless they cancel it. -/
theorem subscriber_frame {a : HubAction V} (h : hubStep s a = some s')
    (howner : a.owner ≠ .subscriber i) (hcancel : a ≠ .cancel i)
    (hx : s.subscribers[i]? = some x) : s'.subscribers[i]? = some x := by
  cases a with
  | subscribe =>
    obtain rfl := Option.some.inj h
    exact (List.getElem?_append_left (List.getElem?_eq_some_iff.mp hx).1).trans hx
  | cancel j =>
    obtain rfl := Option.some.inj h
    have hne : j ≠ i := by
      rintro rfl
      exact hcancel rfl
    simp [hne, hx]
  | append vs =>
    simp only [hubStep] at h
    split_ifs at h
    obtain ⟨r, -, rfl⟩ := Option.map_eq_some_iff.mp h
    exact hx
  | broadcast =>
    simp only [hubStep] at h
    split_ifs at h
    obtain rfl := Option.some.inj h
    exact hx
  | subscriber j a =>
    have hne : j ≠ i := by
      rintro rfl
      exact howner rfl
    simp only [hubStep] at h
    split at h
    case h_1 y hy =>
      obtain ⟨y', -, rfl⟩ := Option.map_eq_some_iff.mp h
      change (s.subscribers.set j y')[i]? = some x
      rw [List.getElem?_set_ne hne, hx]
    case h_2 => cases h

theorem subscriber_move {a : SubscriberAction} (h : hubStep s (.subscriber i a) = some s')
    (hx : s.subscribers[i]? = some x) : ∃ x', SubscriberMove s x a x' ∧
      s'.subscribers[i]? = some x' ∧ s'.added = s.added := by
  simp only [hubStep, hx] at h
  obtain ⟨x', hstep, rfl⟩ := Option.map_eq_some_iff.mp h
  refine ⟨x', subscriberStep_move hstep, ?_, rfl⟩
  simp [(List.getElem?_eq_some_iff.mp hx).1]

/-- Items are only added. -/
theorem added_grows {a : HubAction V} (h : hubStep s a = some s') : s.added <+: s'.added := by
  cases a with
  | append vs =>
    simp only [hubStep] at h
    split_ifs at h
    obtain ⟨r, -, rfl⟩ := Option.map_eq_some_iff.mp h
    exact List.prefix_append ..
  | subscriber i a =>
    simp only [hubStep] at h
    split at h
    · obtain ⟨y, -, rfl⟩ := Option.map_eq_some_iff.mp h
      exact List.prefix_rfl
    · cases h
  | broadcast =>
    simp only [hubStep] at h
    split_ifs at h
    obtain rfl := Option.some.inj h
    exact List.prefix_rfl
  | _ =>
    obtain rfl := Option.some.inj h
    exact List.prefix_rfl

theorem added_mono {t u : ℕ} (htu : t ≤ u) : (ρ.state t).added <+: (ρ.state u).added :=
  ρ.stable (P := fun s => (ρ.state t).added <+: s.added)
    (fun u a _ ha hP => hP.trans (added_grows (ρ.next u a ha))) List.prefix_rfl u htu

theorem FairRun.inv (hρ : FairRun stream capacity i ρ)
    (hinit : HubInv capacity ({ stream := stream } : Hub V)) (t : ℕ) :
    HubInv capacity (ρ.state t) := by
  refine ReachableWith.invariant (ρ.reachableWith hρ.undisturbed t) ?_
    fun _ _ _ hs hok hstep => hubStep_inv hs hok hstep
  rw [hρ.init]
  exact hinit

/-- The subscription is neither cancelled nor ended. -/
def Subscriber.Alive (x : Subscriber V) : Prop := x.canceled = false ∧ x.phase ≠ .exited

theorem SubscriberMove.alive {a : SubscriberAction} {x' : Subscriber V} (hx : x.Alive)
    (ha : a ≠ .returned false) (hm : SubscriberMove s x a x') : x'.Alive := by
  obtain ⟨hcanceled, hphase⟩ := hx
  cases hm with
  | read items offset _ _ _ =>
    refine ⟨hcanceled, ?_⟩
    simp only [Subscriber.afterRead]
    split_ifs <;> simp
  | capture _ => exact ⟨hcanceled, nofun⟩
  | wake ch _ _ => exact ⟨hcanceled, nofun⟩
  | next items _ => exact ⟨hcanceled, nofun⟩
  | giveUp ch _ hc =>
    rw [hcanceled] at hc
    cases hc
  | stop items _ => exact absurd rfl ha

theorem FairRun.alive (hρ : FairRun stream capacity i ρ) (t : ℕ) :
    ∀ x, (ρ.state t).subscribers[i]? = some x → x.Alive := by
  refine ρ.stable (P := fun s => ∀ x, s.subscribers[i]? = some x → x.Alive) ?_ ?_ t (Nat.zero_le t)
  · intro u a _ ha hP x hx
    have hstep := ρ.next u a ha
    have hcancel : a ≠ .cancel i := fun h => hρ.not_canceled u (h ▸ ha)
    cases hold : (ρ.state u).subscribers[i]? with
    | none =>
      -- a subscriber that is new
      cases a with
      | subscribe =>
        obtain hs := Option.some.inj hstep
        rw [← hs] at hx
        have hle : (ρ.state u).subscribers.length ≤ i := by simpa using hold
        rw [List.getElem?_append_right hle] at hx
        obtain rfl := List.mem_singleton.mp (List.mem_of_getElem? hx)
        exact ⟨rfl, nofun⟩
      | cancel j =>
        obtain hs := Option.some.inj hstep
        rw [← hs] at hx
        simp [List.getElem?_modify, hold] at hx
      | append vs =>
        simp only [hubStep] at hstep
        split_ifs at hstep
        obtain ⟨r, -, hs⟩ := Option.map_eq_some_iff.mp hstep
        rw [← hs] at hx
        simp [hold] at hx
      | broadcast =>
        simp only [hubStep] at hstep
        split_ifs at hstep
        obtain hs := Option.some.inj hstep
        rw [← hs] at hx
        simp [hold] at hx
      | subscriber j a =>
        simp only [hubStep] at hstep
        split at hstep
        · obtain ⟨y, -, hs⟩ := Option.map_eq_some_iff.mp hstep
          rw [← hs] at hx
          simp only [List.getElem?_set] at hx
          have hle : (ρ.state u).subscribers.length ≤ i := by simpa using hold
          split_ifs at hx
          · omega
          · simp [hold] at hx
        · cases hstep
    | some y =>
      by_cases howner : a.owner = .subscriber i
      · cases a with
        | subscriber j a =>
          obtain rfl : j = i := by simpa [HubAction.owner] using howner
          obtain ⟨y', hm, hy', -⟩ := subscriber_move hstep hold
          obtain rfl : y' = x := Option.some.inj (hy'.symm.trans hx)
          exact hm.alive (hP y hold) fun h => hρ.callback u (h ▸ ha)
        | _ => cases howner
      · have hframe := subscriber_frame hstep howner hcancel hold
        obtain rfl : y = x := Option.some.inj (hframe.symm.trans hx)
        exact hP y hold
  · intro x hx
    rw [hρ.init] at hx
    simp at hx

/-- The lock is released again and again. -/
theorem FairRun.unlocked (hρ : FairRun stream capacity i ρ) (t : ℕ) :
    ∃ u, t ≤ u ∧ (ρ.state u).adding = false := by
  by_contra hnever
  simp only [not_exists, not_and, Bool.not_eq_false] at hnever
  obtain ⟨u, hu, a, ha, howner⟩ := hρ.fair_adder t fun u hu =>
    ⟨.broadcast, rfl, by simp [hubStep, hnever u hu]⟩
  cases a with
  | broadcast =>
    have hstep := ρ.next u _ ha
    simp only [hubStep, hnever u hu, if_true, Option.some.injEq] at hstep
    have := hnever (u + 1) (by omega)
    rw [← hstep] at this
    cases this
  | _ => cases howner

/-- A subscriber with something to read can act once the lock is free. -/
theorem HubInv.enabled (hs : HubInv capacity s) (hx : s.subscribers[i]? = some x) (halive : x.Alive)
    (hidle : s.adding = false) (hk : x.first = some k) (hlt : x.offset < s.added.length) :
    Enabled hubStep HubAction.owner (.subscriber i) s := by
  have hinv := hs.subscriber x (List.mem_of_getElem? hx)
  obtain ⟨o, hg⟩ := hinv.given k hk
  have hact : ∀ a, (subscriberStep s x x.phase a).isSome →
      Enabled hubStep HubAction.owner (.subscriber i) s := by
    intro a ha
    exact ⟨.subscriber i a, rfl, by simpa [hubStep, hx] using ha⟩
  cases hphase : x.phase with
  | reading => exact hact .read (by simp [subscriberStep, hphase, hidle, hg.doRead hs halive.2])
  | unlocked => exact hact .capture (by simp [subscriberStep, hphase])
  | waiting ch =>
    have hch : ch ≠ s.ch := by
      rintro rfl
      have := hinv.caughtUp (.inr hphase) hidle
      omega
    exact hact .wake (by simp [subscriberStep, hphase, hch])
  | calling items => exact hact (.returned true) (by simp [subscriberStep, hphase])
  | exited => exact absurd hphase halive.2

/-- A blocked subscriber cannot act. -/
theorem Subscriber.Blocked.not_enabled (hx : s.subscribers[i]? = some x) (hblocked : x.Blocked s) :
    ¬ Enabled hubStep HubAction.owner (.subscriber i) s := by
  rintro ⟨a, howner, ha⟩
  obtain ⟨s', hs'⟩ := Option.isSome_iff_exists.mp ha
  cases a with
  | subscriber j a =>
    obtain rfl : j = i := by simpa [HubAction.owner] using howner
    obtain ⟨x', hm, -⟩ := subscriber_move hs' hx
    obtain ⟨hwaiting, hlive⟩ := hblocked
    cases hm <;> simp_all
  | _ => cases howner

theorem adder_not_enabled (hidle : s.adding = false) :
    ¬ Enabled hubStep HubAction.owner .adder s := by
  rintro ⟨a, howner, ha⟩
  cases a with
  | broadcast => simp [hubStep, hidle] at ha
  | _ => cases howner

/-- How far a place is from the next read. -/
def Phase.toRead : Phase V → ℕ
  | .reading | .exited => 0
  | .calling _ | .waiting _ => 1
  | .unlocked => 2

/-- How far a subscriber is from item `n`. -/
def Subscriber.toGo (x : Subscriber V) (n : ℕ) : ℕ := (n + 1 - x.offset).toNat * 3 + x.phase.toRead

/-- The subscriber has not got to item `n` yet. -/
def Behind (i k n : ℕ) (s : Hub V) : Prop :=
  ∃ x, s.subscribers[i]? = some x ∧ x.first = some k ∧ x.offset ≤ n ∧ n < s.added.length

/-- The subscriber has got past item `n`. -/
def Past (i k n : ℕ) (s : Hub V) : Prop :=
  ∃ x, s.subscribers[i]? = some x ∧ x.first = some k ∧ n < x.offset

/-- A move of a subscriber that is behind brings it nearer. -/
theorem SubscriberMove.toGo_lt {a : SubscriberAction} {x' : Subscriber V} (hs : HubInv capacity s)
    (hx : x ∈ s.subscribers) (halive : x.Alive) (ha : a ≠ .returned false) (hk : x.first = some k)
    (hle : x.offset ≤ n) (hlt : n < s.added.length) (hm : SubscriberMove s x a x') :
    x'.first = some k ∧ (n < x'.offset ∨ x'.offset ≤ n ∧ x'.toGo n < x.toGo n) := by
  cases hm with
  | read items offset hphase _ hread =>
    obtain ⟨o, hg⟩ := (hs.subscriber x hx).given k hk
    rw [hg.doRead hs halive.2] at hread
    obtain ⟨rfl, rfl⟩ := Prod.mk.inj (Option.some.inj hread)
    have hoff := hg.offset
    have hmod := Nat.mod_lt o hs.stored.size_pos
    refine ⟨by simp [Subscriber.afterRead, hk], ?_⟩
    rw [segment_end hs o]
    -- something is read, so the offset grows
    have hgrow : o <
        min (o + (s.stream.segmentSize - o % s.stream.segmentSize)) s.added.length := by
      omega
    generalize min (o + (s.stream.segmentSize - o % s.stream.segmentSize)) s.added.length = o'
      at hgrow
    have htoRead : (x.afterRead s ((s.added.drop o).take
        (s.stream.segmentSize - o % s.stream.segmentSize)) o').phase.toRead ≤ 2 := by
      simp only [Subscriber.afterRead]
      split_ifs <;> simp [Phase.toRead]
    by_cases hn : (n : ℤ) < o'
    · exact .inl hn
    · refine .inr ⟨not_lt.mp hn, ?_⟩
      have htoGo : x.toGo n = (n + 1 - x.offset).toNat * 3 := by
        simp [Subscriber.toGo, hphase, Phase.toRead]
      rw [htoGo, Subscriber.toGo]
      change ((n : ℤ) + 1 - o').toNat * 3 + _ < _
      omega
  | capture hphase => exact ⟨hk, .inr ⟨hle, by simp [Subscriber.toGo, hphase, Phase.toRead]⟩⟩
  | wake ch hphase _ => exact ⟨hk, .inr ⟨hle, by simp [Subscriber.toGo, hphase, Phase.toRead]⟩⟩
  | next items hphase => exact ⟨hk, .inr ⟨hle, by simp [Subscriber.toGo, hphase, Phase.toRead]⟩⟩
  | giveUp ch _ hc =>
    rw [halive.1] at hc
    cases hc
  | stop items _ => exact absurd rfl ha

/-- A subscriber that is behind gets nearer. -/
theorem FairRun.nearer (hρ : FairRun stream capacity i ρ)
    (hinit : HubInv capacity ({ stream := stream } : Hub V)) {t : ℕ}
    (hx : (ρ.state t).subscribers[i]? = some x) (hk : x.first = some k) (hle : x.offset ≤ n)
    (hlt : n < (ρ.state t).added.length) :
    ∃ u x', t ≤ u ∧ (ρ.state u).subscribers[i]? = some x' ∧ x'.first = some k ∧
      n < (ρ.state u).added.length ∧ (n < x'.offset ∨ x'.offset ≤ n ∧ x'.toGo n < x.toGo n) := by
  have halive := hρ.alive t x hx
  obtain ⟨u, hu, ⟨hx', hlt'⟩, a, ha, howner⟩ := hρ.fair_subscriber.acts
    (P := fun s => s.subscribers[i]? = some x ∧ n < s.added.length)
    (fun u a _ ha hne hP => ⟨subscriber_frame (ρ.next u a ha) hne
        (fun h => hρ.not_canceled u (h ▸ ha)) hP.1,
      hP.2.trans_le (added_grows (ρ.next u a ha)).length_le⟩)
    (fun u _ hP => by
      obtain ⟨v, hv, hidle⟩ := hρ.unlocked u
      refine ⟨v, hv, (hρ.inv hinit v).enabled (hP v hv).1 halive hidle hk ?_⟩
      have := (hP v hv).2
      omega)
    ⟨hx, hlt⟩
  cases a with
  | subscriber j a =>
    obtain rfl : j = i := by simpa [HubAction.owner] using howner
    obtain ⟨x', hm, hmem, hadded⟩ := subscriber_move (ρ.next u _ ha) hx'
    obtain ⟨hk', hgo⟩ := hm.toGo_lt (hρ.inv hinit u) (List.mem_of_getElem? hx') halive
      (fun h => hρ.callback u (h ▸ ha)) hk hle hlt'
    exact ⟨u + 1, x', by omega, hmem, hk', hadded ▸ hlt', hgo⟩
  | _ => cases howner

/-- **Every item is delivered** to a subscriber of a fair run. -/
theorem FairRun.past (hρ : FairRun stream capacity i ρ)
    (hinit : HubInv capacity ({ stream := stream } : Hub V)) {t : ℕ}
    (ht : Behind i k n (ρ.state t)) : ∃ u, t ≤ u ∧ Past i k n (ρ.state u) := by
  refine Execution.eventually_of_decreasing (P := Behind i k n)
    (fun s => (s.subscribers[i]?.map fun x => x.toGo n).getD 0) ?_ ht
  rintro u - ⟨x, hx, hk, hle, hlt⟩
  obtain ⟨v, x', hv, hx', hk', hlt', hpast | ⟨hle', hgo⟩⟩ := hρ.nearer hinit hx hk hle hlt
  · exact ⟨v, hv, .inl ⟨x', hx', hk', hpast⟩⟩
  · exact ⟨v, hv, .inr ⟨⟨x', hx', hk', hle', hlt'⟩, by simpa [hx, hx'] using hgo⟩⟩

theorem FairRun.delivered (hρ : FairRun stream capacity i ρ)
    (hinit : HubInv capacity ({ stream := stream } : Hub V)) {t : ℕ}
    (hx : (ρ.state t).subscribers[i]? = some x) (hk : x.first = some k) (hkn : k ≤ n)
    (hlt : n < (ρ.state t).added.length) :
    ∃ u y, t ≤ u ∧ (ρ.state u).subscribers[i]? = some y ∧
      y.delivered[n - k]? = (ρ.state t).added[n]? := by
  obtain ⟨u, hu, y, hy, hyk, hpast⟩ : ∃ u, t ≤ u ∧ Past i k n (ρ.state u) := by
    rcases lt_or_ge (n : ℤ) x.offset with hpast | hle
    · exact ⟨t, le_rfl, x, hx, hk, hpast⟩
    · exact hρ.past hinit ⟨x, hx, hk, hle, hlt⟩
  refine ⟨u, y, hu, hy, ?_⟩
  obtain ⟨o, hg⟩ := ((hρ.inv hinit u).subscriber y (List.mem_of_getElem? hy)).given k hyk
  rw [hg.offset] at hpast
  rw [hg.delivered, List.getElem?_drop, Nat.add_sub_cancel' hkn,
    List.getElem?_take_of_lt (by omega)]
  obtain ⟨vs, hvs⟩ := added_mono (ρ := ρ) hu
  rw [← hvs, List.getElem?_append_left hlt]
end Fair

/-- **No wakeup is lost** in an undisturbed run: a waiting subscriber has been given every item since
its first read, and every such item is delivered if the scheduler is fair. -/
theorem undisturbed_wakeups (size capacity : ℕ) (hsize : 1 ≤ size) (hcap : 1 ≤ capacity) :
    ∃ stream : Stream V, newStream size capacity = some stream ∧
      (∀ s, ReachableWith hubStep (Undisturbed capacity) { stream := stream } s →
        ∀ x ∈ s.subscribers, x.Blocked s → s.adding = false →
          ∃ k, x.first = some k ∧ x.delivered = s.added.drop k) ∧
      ∀ i ρ, FairRun stream capacity i ρ → ∀ t x k n,
        (ρ.state t).subscribers[i]? = some x → x.first = some k → k ≤ n →
          n < (ρ.state t).added.length → ∃ u y, t ≤ u ∧ (ρ.state u).subscribers[i]? = some y ∧
            y.delivered[n - k]? = (ρ.state t).added[n]? := by
  obtain ⟨stream, hnew, hinit⟩ := newHub_inv (V := V) hsize hcap
  refine ⟨stream, hnew, ?_, fun i ρ hρ t x k n hx hk hkn hlt => hρ.delivered hinit hx hk hkn hlt⟩
  intro s hs x hx hblocked hidle
  have hinv := hs.invariant hinit fun _ _ _ hs hok hstep => hubStep_inv hs hok hstep
  cases hk : x.first with
  | none =>
    have hphase := ((hinv.subscriber x hx).fresh hk).1
    rw [hblocked.waiting] at hphase
    cases hphase
  | some k => exact ⟨k, rfl, hinv.delivered hx hblocked hidle hk⟩

/-! ## A run that loses a wakeup, and one that does not -/

/-- Segments of two items, and a capacity of two. -/
def smallStream : Stream ℕ := (newStream 2 2).get (by decide)

/-- An item is added while the subscriber waits. -/
def oneItemRun : List (HubAction ℕ) :=
  [.subscribe, .subscriber 0 .read, .subscriber 0 .capture, .append [7], .broadcast,
    .subscriber 0 .wake, .subscriber 0 .read, .subscriber 0 (.returned true),
    .subscriber 0 .read, .subscriber 0 .capture]

theorem oneItemRun_possible :
    (perform hubStep { stream := smallStream } oneItemRun).isSome = true := by
  decide +kernel

def oneItem : Execution (hubStep (V := ℕ)) := .ofRun _ oneItemRun oneItemRun_possible

theorem oneItem_fair : FairRun smallStream 2 0 oneItem where
  init := rfl
  undisturbed t a ha := by
    have hlt : t < oneItemRun.length := (List.getElem?_eq_some_iff.mp ha).1
    change t < 10 at hlt
    interval_cases t <;> obtain rfl := Option.some.inj ha <;> decide +kernel
  fair_subscriber := by
    exact Execution.ofRun_stronglyFair oneItemRun_possible
      (Subscriber.Blocked.not_enabled (s := oneItem.state 10) rfl ⟨rfl, rfl⟩)
  fair_adder := by
    exact Execution.ofRun_weaklyFair oneItemRun_possible
      (adder_not_enabled (s := oneItem.state 10) rfl)
  not_canceled t ha := by
    have hmem := List.mem_of_getElem? (l := oneItemRun) ha
    simp [oneItemRun] at hmem
  callback t ha := by
    have hmem := List.mem_of_getElem? (l := oneItemRun) ha
    simp [oneItemRun] at hmem

/-- The item that is added while the subscriber waits is delivered. -/
theorem undisturbed_wakeups_one : ∃ stream : Stream ℕ, newStream 2 2 = some stream ∧
    FairRun stream 2 0 oneItem ∧ ∃ u y, 4 ≤ u ∧ (oneItem.state u).subscribers[0]? = some y ∧
      y.delivered[0]? = some 7 := by
  obtain ⟨stream, hnew, -, hlive⟩ :=
    undisturbed_wakeups (V := ℕ) 2 2 (by decide) (by decide)
  obtain rfl : smallStream = stream := Option.some.inj hnew
  exact ⟨_, hnew, oneItem_fair, hlive 0 oneItem oneItem_fair 4 _ 0 0 rfl rfl le_rfl (by decide)⟩

/-- An item is added after the first read, before the subscriber takes the channel. -/
def lostWakeupRun : List (HubAction ℕ) :=
  [.subscribe, .subscriber 0 .read, .append [7], .broadcast, .subscriber 0 .capture]

theorem lostWakeupRun_possible :
    (perform hubStep { stream := smallStream } lostWakeupRun).isSome = true := by
  decide +kernel

def lostWakeup : Execution (hubStep (V := ℕ)) := .ofRun _ lostWakeupRun lostWakeupRun_possible

/-- The subscriber waits forever with an item to read, and the scheduler is fair. -/
theorem item_never_delivered : newStream 2 2 = some smallStream ∧
    lostWakeup.state 0 = { stream := smallStream } ∧
    lostWakeup.StronglyFair HubAction.owner (.subscriber 0) ∧
    lostWakeup.WeaklyFair HubAction.owner .adder ∧
    ∀ t, 5 ≤ t → (lostWakeup.state t).added = [7] ∧ (lostWakeup.state t).adding = false ∧
      ∃ x, (lostWakeup.state t).subscribers = [x] ∧ x.Blocked (lostWakeup.state t) ∧
        x.first = some 0 ∧ x.delivered = [] := by
  refine ⟨rfl, rfl, ?_, ?_, fun t ht => ?_⟩
  · exact Execution.ofRun_stronglyFair lostWakeupRun_possible
      (Subscriber.Blocked.not_enabled (s := lostWakeup.state 5) rfl ⟨rfl, rfl⟩)
  · exact Execution.ofRun_weaklyFair lostWakeupRun_possible
      (adder_not_enabled (s := lostWakeup.state 5) rfl)
  · have hend : lostWakeup.state t = lostWakeup.state 5 :=
      Execution.ofRun_state_of_le lostWakeupRun_possible ht
    rw [hend]
    exact ⟨rfl, rfl, _, rfl, ⟨rfl, rfl⟩, rfl, rfl⟩

end EvmGateway.Streaming
