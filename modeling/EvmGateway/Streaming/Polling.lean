import EvmGateway.Lib.Interleaving
import EvmGateway.Streaming.Stream

/-!
# Polling a stream

A filter polls a stream: it asks for the end once, and then again and again for everything after
the offset it was given last.  Items are added in between, in batches of any size.

A poll returns what is retained of the new items, unless the segment of the offset was pruned.
Then the offset within its segment is applied to the earliest segment, and the items before it
are left out although they are retained.  `poll_exact_iff` says that this is the only case: a poll
is exact if and only if its segment is there or its offset is the start of a segment.
-/

namespace EvmGateway.Streaming

open Lib

variable {V : Type}

/-- A stream with one reader. -/
structure Poll (V : Type) where
  stream : Stream V
  /-- everything added so far -/
  added : List V
  /-- the offset returned by the last read, if there was one -/
  offset : Option ℕ

/-- What happens to a stream with one reader. -/
inductive PollAction (V : Type)
  | add (vs : List V)
  /-- the first read, with a negative offset -/
  | start (offset : ℤ)
  /-- a read from the last offset -/
  | poll

/-- One action.  The lock of the stream makes each of them atomic. -/
def pollStep (p : Poll V) : PollAction V → Option (Poll V)
  | .add vs => (p.stream.add vs).map fun r => { p with stream := r.1, added := p.added ++ vs }
  | .start offset =>
    if offset < 0 ∧ p.offset = none then
      (p.stream.readNonBlocking offset).map fun r => { p with offset := some r.2 }
    else none
  | .poll =>
    match p.offset with
    | some o => (p.stream.readAllNonBlocking o).map fun r => { p with offset := some r.2 }
    | none => none

/-- The retained items after an offset, by their place among everything added. -/
def Poll.unread (p : Poll V) (o : ℕ) : List V :=
  p.added.drop (max o (p.added.length - p.stream.retained.length))

/-- The reader is not ahead of the stream. -/
structure PollInv (segmentSize capacity : ℕ) (p : Poll V) : Prop where
  stored : Stored p.added p.stream
  size : p.stream.segmentSize = segmentSize
  capacity : capacity ≤ p.stream.maxSegments * segmentSize
  offset_le : ∀ o, p.offset = some o → o ≤ p.added.length

theorem pollStep_inv {segmentSize capacity : ℕ} {p p' : Poll V} {a : PollAction V}
    (hp : PollInv segmentSize capacity p) (h : pollStep p a = some p') :
    PollInv segmentSize capacity p' := by
  cases a with
  | add vs =>
    obtain ⟨s', hadd, hst, hsize, hmax⟩ := hp.stored.add vs
    simp only [pollStep, hadd, Option.map_some] at h
    obtain rfl := Option.some.inj h
    refine ⟨hst, hsize.trans hp.size, hmax ▸ hp.capacity, fun o ho => ?_⟩
    have := hp.offset_le o ho
    simp only [List.length_append]
    omega
  | start offset =>
    simp only [pollStep] at h
    split_ifs at h with hneg
    rw [Stream.readNonBlocking, hp.stored.doRead_of_neg hneg.1] at h
    obtain rfl := Option.some.inj h
    refine ⟨hp.stored, hp.size, hp.capacity, ?_⟩
    rintro _ ⟨⟩
    exact le_rfl
  | poll =>
    simp only [pollStep] at h
    split at h
    case h_1 o ho =>
      rw [hp.stored.readAllNonBlocking (hp.offset_le o ho)] at h
      obtain rfl := Option.some.inj h
      refine ⟨hp.stored, hp.size, hp.capacity, ?_⟩
      rintro _ ⟨⟩
      exact le_rfl
    case h_2 => cases h

theorem PollInv.unread_eq {segmentSize capacity : ℕ} {p : Poll V}
    (hp : PollInv segmentSize capacity p) (o : ℕ) :
    p.unread o = p.added.drop (max o (p.stream.segmentOffset * segmentSize)) := by
  have hle := hp.stored.offset_le
  rw [Poll.unread, hp.stored.retained, List.length_drop, hp.size] at *
  congr 2
  omega

/-- A read begins where it should if its segment is there, or its offset starts a segment. -/
theorem PollInv.exact_iff {segmentSize capacity : ℕ} {p : Poll V}
    (hp : PollInv segmentSize capacity p) (o : ℕ) :
    p.added.drop (p.stream.readPos o) = p.unread o ↔
      p.stream.segmentOffset ≤ o / segmentSize ∨ o % segmentSize = 0 := by
  have hsize := hp.stored.size_pos
  have hdiv := Nat.div_add_mod' o segmentSize
  rw [hp.unread_eq, Stream.readPos, hp.size] at *
  by_cases hseg : p.stream.segmentOffset ≤ o / segmentSize
  · have hle := Nat.mul_le_mul_right segmentSize hseg
    rw [if_pos hseg, Nat.max_eq_left (by omega)]
    exact iff_of_true rfl (.inl hseg)
  · -- the earliest segment is full, so a remainder leaves items out
    have hlt : o < p.stream.segmentOffset * segmentSize :=
      (Nat.div_lt_iff_lt_mul hsize).mp (not_le.mp hseg)
    have hmod := Nat.mod_lt o hsize
    have hcount := hp.stored.pruned (Nat.zero_lt_of_lt (not_le.mp hseg))
    have hmax := hp.stored.max_pos
    have hend := hp.stored.lt (by omega)
    have hmono : (p.stream.segmentOffset + 1) * segmentSize ≤
        (p.stream.segmentOffset + p.stream.segments.count - 1) * segmentSize :=
      Nat.mul_le_mul_right _ (by omega)
    rw [Nat.succ_mul] at hmono
    rw [hp.size] at hend
    rw [if_neg hseg, Nat.max_eq_right hlt.le, or_iff_right hseg]
    constructor
    · intro heq
      have hlen := congrArg List.length heq
      rw [List.length_drop, List.length_drop] at hlen
      omega
    · intro hzero
      rw [hzero, Nat.add_zero]

/-- **Polling.**  For every segment size and capacity and every interleaving, at least the last
`capacity` items are retained, and a poll returns the id of the last item.  The items it returns
are exactly the retained ones after the reader's offset if and only if the segment of the offset
is not pruned or the offset is the start of a segment. -/
theorem poll_exact_iff (segmentSize capacity : ℕ) (hsize : 1 ≤ segmentSize) (hcap : 1 ≤ capacity) :
    ∃ s₀ : Stream V, newStream segmentSize capacity = some s₀ ∧
      ∀ p, Reachable pollStep ⟨s₀, [], none⟩ p →
        p.stream.retained <:+ p.added ∧
        min capacity p.added.length ≤ p.stream.retained.length ∧
        ∀ o, p.offset = some o → ∃ items,
          p.stream.readAllNonBlocking o = some (items, p.added.length) ∧
          (items = p.unread o ↔
            p.stream.segmentOffset ≤ o / segmentSize ∨ o % segmentSize = 0) := by
  obtain ⟨s₀, hnew, hst, hsize₀, hcap₀⟩ := newStream_stored (V := V) hsize hcap
  refine ⟨s₀, hnew, fun p hp => ?_⟩
  have hinv : PollInv segmentSize capacity p :=
    Reachable.invariant hp ⟨hst, hsize₀, hcap₀, nofun⟩ fun _ _ _ => pollStep_inv
  refine ⟨?_, ?_, ?_⟩
  · rw [hinv.stored.retained]
    exact List.drop_suffix ..
  · have hret := hinv.stored.length_retained
    have := hinv.capacity
    rw [hinv.size] at hret
    omega
  · intro o ho
    exact ⟨_, hinv.stored.readAllNonBlocking (hinv.offset_le o ho), hinv.exact_iff o⟩

/-- Segments of two items and a capacity of two. -/
theorem poll_exact_iff_two : ∃ s₀ : Stream ℕ, newStream 2 2 = some s₀ ∧
    ∀ p, Reachable pollStep ⟨s₀, [], none⟩ p →
      p.stream.retained <:+ p.added ∧ min 2 p.added.length ≤ p.stream.retained.length ∧
      ∀ o, p.offset = some o → ∃ items,
        p.stream.readAllNonBlocking o = some (items, p.added.length) ∧
        (items = p.unread o ↔ p.stream.segmentOffset ≤ o / 2 ∨ o % 2 = 0) :=
  poll_exact_iff 2 2 (by decide) (by decide)

/-- A reader that starts after one item and polls after its segment was pruned. -/
def lateReader : List (PollAction ℕ) := [.add [1], .start (-1), .add [2, 3, 4, 5, 6]]

/-- The late reader misses item 3, which is retained. -/
theorem late_poll_leaves_out : ∃ (s₀ : Stream ℕ) (p : Poll ℕ), newStream 2 2 = some s₀ ∧
    Reachable pollStep ⟨s₀, [], none⟩ p ∧ p.offset = some 1 ∧
    p.stream.readAllNonBlocking 1 = some ([4, 5, 6], 6) ∧ p.stream.retained = [3, 4, 5, 6] ∧
    p.unread 1 = [3, 4, 5, 6] :=
  ⟨_, _, rfl, .perform (l := lateReader) .init rfl, rfl, rfl, rfl, rfl⟩

end EvmGateway.Streaming
