import EvmGateway.Streaming.Queue

/-!
# Streams

A stream keeps the last items added to it in segments of a fixed size.  A full queue of
segments gives up its first segment when a new one is needed.  Items have ids, from 1 on, and a
reader passes the id of the last item it has seen.

`Stored` says what a stream holds after the items `added`: its segments are consecutive chunks
of `added`, up to its end.  Adding keeps this (`Stored.add`), and a read is described by it: a
reader gets the rest of the segment of its offset (`Stored.doRead`), except that in a pruned
segment the rest is taken of the earliest segment instead (`doRead_of_pruned`).

A panic is `none`.
-/

namespace EvmGateway.Streaming

variable {V : Type}

/-! ## The operations -/

/-- A stream.  Locks and the condition of blocking readers are not part of it. -/
structure Stream (V : Type) where
  segments : Queue (List V)
  segmentSize : ℕ
  maxSegments : ℕ
  /-- how many segments were pruned -/
  segmentOffset : ℕ

/-- `NewStream` panics if the capacity is too small. -/
def newStream (segmentSize capacity : ℕ) : Option (Stream V) :=
  let maxSegments := (capacity + segmentSize - 1) / segmentSize
  if maxSegments < 1 then none else some ⟨.new, segmentSize, maxSegments, 0⟩

namespace Stream

def lastSegment (s : Stream V) : List V := (s.segments.get (-1)).getD []

def lastID (s : Stream V) : ℕ :=
  if s.segments.length = 0 then 0
  else (s.segmentOffset + s.segments.length - 1) * s.segmentSize + s.lastSegment.length

/-- A new segment at the end; too many, and the first one is reused for it. -/
def pushSegment (s : Stream V) : Option (Stream V) :=
  if s.segments.length > s.maxSegments then
    s.segments.remove.map fun (seg, segments) =>
      { s with segments := segments.add (seg.take 0), segmentOffset := s.segmentOffset + 1 }
  else some { s with segments := s.segments.add [] }

/-- The loop body of `Add`. -/
def addItem (s : Stream V) (v : V) : Option (Stream V) := do
  let s ← if s.segments.length = 0 ∨ s.lastSegment.length = s.segmentSize then s.pushSegment
    else some s
  let segments ← s.segments.updateTail (· ++ [v])
  return { s with segments := segments }

/-- Append items; the result is the id of the last one. -/
def add (s : Stream V) (vs : List V) : Option (Stream V × ℕ) :=
  if vs.isEmpty then some (s, 0) else (vs.foldlM addItem s).map fun s => (s, s.lastID)

/-- The segment of an offset, by its place in the queue. -/
def segmentOf (s : Stream V) (offset : ℕ) : ℕ :=
  if s.segmentOffset ≤ offset / s.segmentSize then offset / s.segmentSize - s.segmentOffset
  -- the target segment is pruned, adjust to earliest segment
  else 0

/-- The items after an offset, up to the end of a segment, and the id of the last of them. -/
def doRead (s : Stream V) (offset : ℤ) : Option (List V × ℕ) :=
  if s.segments.length = 0 ∨ offset < 0 then some ([], s.lastID)
  else
    let segment := s.segmentOf offset.toNat
    if s.segments.length ≤ segment then some ([], s.lastID)
    else do
      let seg ← s.segments.get segment
      if seg.length < offset.toNat % s.segmentSize then none
      else
        let items := seg.drop (offset.toNat % s.segmentSize)
        if items.isEmpty then some ([], s.lastID)
        else some (items, (s.segmentOffset + segment) * s.segmentSize + seg.length)

/-- `ReadNonBlocking` -/
def readNonBlocking (s : Stream V) (offset : ℤ) : Option (List V × ℕ) := s.doRead offset

/-- The loop of `ReadAllNonBlocking`; `none` also if the fuel is used up. -/
def readAllLoop (s : Stream V) : ℕ → ℤ → List V → Option (List V × ℕ)
  | 0, _, _ => none
  | fuel + 1, offset, result => do
    let (items, offset) ← s.doRead offset
    if items.isEmpty then some (result, offset) else readAllLoop s fuel offset (result ++ items)

/-- `ReadAllNonBlocking`.  A read per segment and a last one are enough. -/
def readAllNonBlocking (s : Stream V) (offset : ℤ) : Option (List V × ℕ) :=
  s.readAllLoop (s.segments.length + 1) offset []

end Stream

/-! ## What a stream holds -/

/-- The `i`-th chunk of a list. -/
def chunk (l : List V) (size i : ℕ) : List V := (l.drop (i * size)).take size

theorem length_chunk (l : List V) (size i : ℕ) :
    (chunk l size i).length = min size (l.length - i * size) := by
  simp [chunk]

theorem chunk_eq_nil {l : List V} {size i : ℕ} (h : l.length ≤ i * size) : chunk l size i = [] := by
  simp [chunk, List.drop_eq_nil_of_le h]

theorem chunk_append_of_full {l l' : List V} {size i : ℕ} (h : (i + 1) * size ≤ l.length) :
    chunk (l ++ l') size i = chunk l size i := by
  rw [Nat.succ_mul] at h
  rw [chunk, chunk, List.drop_append_of_le_length (by omega),
    List.take_append_of_le_length (by simp; omega)]

theorem chunk_concat {l : List V} {v : V} {size i : ℕ} (hle : i * size ≤ l.length)
    (hlt : l.length < (i + 1) * size) : chunk (l ++ [v]) size i = chunk l size i ++ [v] := by
  rw [Nat.succ_mul] at hlt
  have hlen : (l.drop (i * size)).length < size := by simp; omega
  rw [chunk, chunk, List.drop_append_of_le_length hle, List.take_of_length_le hlen.le,
    List.take_of_length_le (by simp at hlen ⊢; omega)]

/-- The segments of a stream are consecutive chunks of the items added; `count` of them are
kept after the first `segmentOffset`, and no more are given up than the capacity asks for. -/
structure Chunked (added : List V) (s : Stream V) : Prop where
  size_pos : 0 < s.segmentSize
  max_pos : 0 < s.maxSegments
  segment : ∀ i < s.segments.count,
    s.segments.toList[i]? = some (chunk added s.segmentSize (s.segmentOffset + i))
  count_le : s.segments.count ≤ s.maxSegments + 1
  pruned : 0 < s.segmentOffset → s.segments.count = s.maxSegments + 1

/-- What a stream holds after the items `added`. -/
structure Stored (added : List V) (s : Stream V) : Prop extends Chunked added s where
  le : added.length ≤ (s.segmentOffset + s.segments.count) * s.segmentSize
  lt : 0 < s.segments.count → (s.segmentOffset + s.segments.count - 1) * s.segmentSize < added.length

/-- A stream about to take an item into its last segment. -/
structure Room (added : List V) (s : Stream V) : Prop extends Chunked added s where
  count_pos : 0 < s.segments.count
  lt : added.length < (s.segmentOffset + s.segments.count) * s.segmentSize
  le : (s.segmentOffset + s.segments.count - 1) * s.segmentSize ≤ added.length

variable {added : List V} {s s' : Stream V}

theorem Chunked.lastSegment (hs : Chunked added s) (h : 0 < s.segments.count) :
    s.lastSegment = chunk added s.segmentSize (s.segmentOffset + s.segments.count - 1) := by
  rw [Stream.lastSegment, Queue.get_neg_one, List.getLast?_eq_getElem?, Queue.length_toList,
    hs.segment _ (Nat.sub_lt h Nat.one_pos), Option.getD_some, Nat.add_sub_assoc h]

theorem Stored.segmentOffset_eq_zero (hs : Stored added s) (h : s.segments.count = 0) :
    s.segmentOffset = 0 := by
  by_contra hne
  have := hs.pruned (Nat.pos_of_ne_zero hne)
  omega

theorem offset_mul_eq (h : 0 < s.segments.count) :
    (s.segmentOffset + s.segments.count) * s.segmentSize =
      (s.segmentOffset + s.segments.count - 1) * s.segmentSize + s.segmentSize := by
  rw [← Nat.succ_mul, Nat.succ_eq_add_one, Nat.sub_add_cancel (by omega)]

theorem Stored.length_lastSegment (hs : Stored added s) (h : 0 < s.segments.count) :
    (s.segmentOffset + s.segments.count - 1) * s.segmentSize + s.lastSegment.length =
      added.length := by
  have hle := hs.le
  have hlt := hs.lt h
  rw [offset_mul_eq h] at hle
  rw [hs.lastSegment h, length_chunk]
  omega

theorem Stored.lastID (hs : Stored added s) : s.lastID = added.length := by
  unfold Stream.lastID
  split_ifs with h
  · have hcount : s.segments.count = 0 := h
    have hle := hs.le
    rw [hs.segmentOffset_eq_zero hcount, hcount] at hle
    omega
  · exact hs.length_lastSegment (Nat.pos_of_ne_zero h)

/-! ## Adding -/

/-- A full stream ends where its last segment ends. -/
theorem Stored.length_of_full (hs : Stored added s)
    (hfull : s.segments.length = 0 ∨ s.lastSegment.length = s.segmentSize) :
    added.length = (s.segmentOffset + s.segments.count) * s.segmentSize := by
  by_cases hcount : s.segments.count = 0
  · have hle := hs.le
    rw [hs.segmentOffset_eq_zero hcount, hcount] at hle ⊢
    omega
  · have hpos := Nat.pos_of_ne_zero hcount
    have hlast := hs.length_lastSegment hpos
    have hlen := hfull.resolve_left hcount
    rw [offset_mul_eq hpos]
    omega

/-- Room is made by an empty segment at the end, with the first `d` segments given up. -/
theorem Stored.push {q : Queue (List V)} {d : ℕ} (hs : Stored added s)
    (hend : added.length = (s.segmentOffset + s.segments.count) * s.segmentSize)
    (hd : d ≤ s.segments.count) (hq : q.toList = s.segments.toList.drop d ++ [[]])
    (hle : q.count ≤ s.maxSegments + 1)
    (hpruned : 0 < s.segmentOffset + d → q.count = s.maxSegments + 1) :
    Room added { s with segments := q, segmentOffset := s.segmentOffset + d } := by
  have hlen : (s.segments.toList.drop d).length = s.segments.count - d := by simp
  have hcount : q.count = s.segments.count - d + 1 := by
    rw [← Queue.length_toList, hq, List.length_append, hlen, List.length_singleton]
  have htotal : s.segmentOffset + d + q.count = s.segmentOffset + s.segments.count + 1 := by omega
  refine ⟨⟨hs.size_pos, hs.max_pos, ?_, hle, hpruned⟩, ?_, ?_, ?_⟩
  · intro i hi
    change i < q.count at hi
    change q.toList[i]? = some (chunk added s.segmentSize (s.segmentOffset + d + i))
    rw [hq]
    by_cases hlt : i < s.segments.count - d
    · rw [List.getElem?_append_left (by rwa [hlen]), List.getElem?_drop, Nat.add_assoc]
      exact hs.segment (d + i) (by omega)
    · obtain rfl : i = s.segments.count - d := by omega
      rw [List.getElem?_append_right hlen.le, hlen, Nat.sub_self]
      refine congrArg some (chunk_eq_nil ?_).symm
      rw [hend]
      exact Nat.mul_le_mul_right _ (by omega)
  · change 0 < q.count
    omega
  · change added.length < (s.segmentOffset + d + q.count) * s.segmentSize
    rw [hend, htotal]
    exact Nat.mul_lt_mul_of_pos_right (Nat.lt_succ_self _) hs.size_pos
  · change (s.segmentOffset + d + q.count - 1) * s.segmentSize ≤ added.length
    rw [hend, htotal, Nat.add_sub_cancel]

/-- A new segment makes room, at the price of the first one if there are too many. -/
theorem Stored.pushSegment (hs : Stored added s)
    (hfull : s.segments.length = 0 ∨ s.lastSegment.length = s.segmentSize) :
    ∃ s', s.pushSegment = some s' ∧ Room added s' ∧ s'.segmentSize = s.segmentSize ∧
      s'.maxSegments = s.maxSegments := by
  have hend := hs.length_of_full hfull
  unfold Stream.pushSegment
  split_ifs with hmany
  · have hcount : s.segments.count = s.maxSegments + 1 := le_antisymm hs.count_le hmany
    obtain ⟨x, l, hl⟩ : ∃ x l, s.segments.toList = x :: l :=
      List.exists_cons_of_length_pos (by rw [Queue.length_toList]; omega)
    obtain ⟨q, hq, htoList⟩ := Queue.remove_of_toList hl
    have hadd : (q.add ([] : List V)).toList = s.segments.toList.drop 1 ++ [[]] := by
      rw [Queue.toList_add, htoList, hl, List.drop_one, List.tail_cons]
    have hcount' : (q.add ([] : List V)).count = s.maxSegments + 1 := by
      rw [← Queue.length_toList, hadd]
      simp [hcount]
    exact ⟨{ s with segments := q.add [], segmentOffset := s.segmentOffset + 1 },
      by rw [hq]; rfl, hs.push hend (by omega) hadd hcount'.le (fun _ => hcount'), rfl, rfl⟩
  · have hcount : s.segments.count ≤ s.maxSegments := not_lt.mp hmany
    have hadd : (s.segments.add ([] : List V)).toList = s.segments.toList.drop 0 ++ [[]] := by
      rw [Queue.toList_add, List.drop_zero]
    have hcount' : (s.segments.add ([] : List V)).count = s.segments.count + 1 := by
      rw [← Queue.length_toList, hadd]
      simp
    refine ⟨{ s with segments := s.segments.add [] }, rfl,
      hs.push hend (Nat.zero_le _) hadd (by omega) ?_, rfl, rfl⟩
    intro hpos
    have := hs.pruned hpos
    omega

theorem Stored.room (hs : Stored added s)
    (hnot : ¬ (s.segments.length = 0 ∨ s.lastSegment.length = s.segmentSize)) : Room added s := by
  rw [not_or] at hnot
  have hpos : 0 < s.segments.count := Nat.pos_of_ne_zero hnot.1
  have hlast := hs.length_lastSegment hpos
  have hne := hnot.2
  have hle : s.lastSegment.length ≤ s.segmentSize := by
    rw [hs.lastSegment hpos, length_chunk]
    exact Nat.min_le_left ..
  refine ⟨hs.toChunked, hpos, ?_, (hs.lt hpos).le⟩
  rw [offset_mul_eq hpos]
  omega

/-- An item goes to the end of the last segment. -/
theorem Room.append (hs : Room added s) (v : V) :
    ∃ segments, s.segments.updateTail (· ++ [v]) = some segments ∧
      Stored (added ++ [v]) { s with segments := segments } := by
  have hpos := hs.count_pos
  obtain ⟨l, x, hl⟩ : ∃ l x, s.segments.toList = l ++ [x] := by
    rcases List.eq_nil_or_concat s.segments.toList with hnil | ⟨l, x, hl⟩
    · have := congrArg List.length hnil
      rw [Queue.length_toList] at this
      exact absurd this hpos.ne'
    · exact ⟨l, x, by rw [hl, List.concat_eq_append]⟩
  have hlen : s.segments.count = l.length + 1 := by
    rw [← Queue.length_toList, hl]
    simp
  obtain ⟨q, hq, htoList⟩ := Queue.toList_updateTail (f := (· ++ [v])) hl
  have hcount : q.count = s.segments.count := by
    rw [← Queue.length_toList, htoList, hlen]
    simp
  have hlt := hs.lt
  have hle := hs.le
  refine ⟨q, hq, ⟨hs.size_pos, hs.max_pos, ?_, hcount ▸ hs.count_le, hcount ▸ hs.pruned⟩, ?_, ?_⟩
  · intro i hi
    change i < q.count at hi
    change q.toList[i]? = _
    have hseg := hs.segment i (hcount ▸ hi)
    rw [hl] at hseg
    rw [htoList]
    by_cases hi' : i < l.length
    · -- a segment before the last is full
      rw [List.getElem?_append_left hi'] at hseg ⊢
      rw [hseg, chunk_append_of_full]
      refine le_trans (Nat.mul_le_mul_right _ ?_) hle
      simp only
      omega
    · obtain rfl : i = l.length := by omega
      rw [List.getElem?_append_right le_rfl, Nat.sub_self] at hseg ⊢
      obtain rfl := Option.some.inj hseg
      refine congrArg some (chunk_concat ?_ ?_).symm
      · rw [hlen] at hle
        exact hle
      · rw [hlen] at hlt
        exact hlt
  · change (added ++ [v]).length ≤ (s.segmentOffset + q.count) * s.segmentSize
    rw [hcount, List.length_append, List.length_singleton]
    omega
  · intro _
    change (s.segmentOffset + q.count - 1) * s.segmentSize < (added ++ [v]).length
    rw [hcount, List.length_append, List.length_singleton]
    omega

theorem Stored.addItem (hs : Stored added s) (v : V) :
    ∃ s', s.addItem v = some s' ∧ Stored (added ++ [v]) s' ∧ s'.segmentSize = s.segmentSize ∧
      s'.maxSegments = s.maxSegments := by
  unfold Stream.addItem
  by_cases hfull : s.segments.length = 0 ∨ s.lastSegment.length = s.segmentSize
  · obtain ⟨s₁, hpush, hroom, hsize, hmax⟩ := hs.pushSegment hfull
    obtain ⟨q, hq, hst⟩ := hroom.append v
    rw [if_pos hfull, hpush]
    exact ⟨_, by simp [hq], hst, hsize, hmax⟩
  · obtain ⟨q, hq, hst⟩ := (hs.room hfull).append v
    rw [if_neg hfull]
    exact ⟨_, by simp [hq], hst, rfl, rfl⟩

theorem Stored.foldlM_addItem (hs : Stored added s) (vs : List V) :
    ∃ s', vs.foldlM Stream.addItem s = some s' ∧ Stored (added ++ vs) s' ∧
      s'.segmentSize = s.segmentSize ∧ s'.maxSegments = s.maxSegments := by
  induction vs generalizing added s with
  | nil => exact ⟨s, rfl, by rwa [List.append_nil], rfl, rfl⟩
  | cons v vs ih =>
    obtain ⟨s₁, h₁, hst₁, hsize₁, hmax₁⟩ := hs.addItem v
    obtain ⟨s₂, h₂, hst₂, hsize₂, hmax₂⟩ := ih hst₁
    refine ⟨s₂, ?_, ?_, hsize₂.trans hsize₁, hmax₂.trans hmax₁⟩
    · rw [List.foldlM_cons, h₁]
      exact h₂
    · rwa [List.append_assoc] at hst₂

/-- **Adding** never panics, and returns the number of items added so far. -/
theorem Stored.add (hs : Stored added s) (vs : List V) :
    ∃ s', s.add vs = some (s', if vs.isEmpty then 0 else (added ++ vs).length) ∧
      Stored (added ++ vs) s' ∧ s'.segmentSize = s.segmentSize ∧ s'.maxSegments = s.maxSegments := by
  obtain ⟨s', hfold, hst, hsize, hmax⟩ := hs.foldlM_addItem vs
  unfold Stream.add
  split_ifs with hempty
  · rw [List.isEmpty_iff.mp hempty, List.append_nil]
    exact ⟨s, rfl, hs, rfl, rfl⟩
  · exact ⟨s', by rw [hfold, Option.map_some, hst.lastID], hst, hsize, hmax⟩

/-- A new stream holds nothing. -/
theorem newStream_stored {segmentSize capacity : ℕ} (hsize : 1 ≤ segmentSize) (hcap : 1 ≤ capacity) :
    ∃ s : Stream V, newStream segmentSize capacity = some s ∧ Stored [] s ∧
      s.segmentSize = segmentSize ∧ capacity ≤ s.maxSegments * segmentSize := by
  have hmax : 1 ≤ (capacity + segmentSize - 1) / segmentSize :=
    (Nat.one_le_div_iff hsize).mpr (by omega)
  have hcover : capacity ≤ (capacity + segmentSize - 1) / segmentSize * segmentSize := by
    have hdiv := Nat.div_add_mod' (capacity + segmentSize - 1) segmentSize
    have hmod := Nat.mod_lt (capacity + segmentSize - 1) hsize
    omega
  refine ⟨⟨.new, segmentSize, (capacity + segmentSize - 1) / segmentSize, 0⟩, ?_, ?_, rfl, hcover⟩
  · rw [newStream, if_neg (not_lt.mpr hmax)]
  · exact ⟨⟨hsize, hmax, nofun, Nat.zero_le _, nofun⟩, Nat.zero_le _, nofun⟩

/-! ## What is retained -/

theorem flatten_chunks (l : List V) (size i n : ℕ) :
    ((List.range n).map fun j => chunk l size (i + j)).flatten =
      (l.drop (i * size)).take (n * size) := by
  induction n with
  | zero => simp
  | succ n ih =>
    rw [List.range_succ, List.map_append, List.flatten_append, ih, Nat.succ_mul, List.take_add,
      List.drop_drop]
    simp [chunk, Nat.add_mul]

/-- The items a stream still has. -/
def Stream.retained (s : Stream V) : List V := s.segments.toList.flatten

theorem Stored.offset_le (hs : Stored added s) : s.segmentOffset * s.segmentSize ≤ added.length := by
  by_cases hcount : s.segments.count = 0
  · rw [hs.segmentOffset_eq_zero hcount, Nat.zero_mul]
    exact Nat.zero_le _
  · have hpos := Nat.pos_of_ne_zero hcount
    exact (Nat.mul_le_mul_right _ (by omega)).trans (hs.lt hpos).le

/-- **The retained items** are the last ones, from the first segment that was not pruned. -/
theorem Stored.retained (hs : Stored added s) :
    s.retained = added.drop (s.segmentOffset * s.segmentSize) := by
  have hlist : s.segments.toList =
      (List.range s.segments.count).map fun i => chunk added s.segmentSize (s.segmentOffset + i) := by
    refine List.ext_getElem? fun i => ?_
    by_cases hi : i < s.segments.count
    · rw [hs.segment i hi, List.getElem?_map, List.getElem?_range hi]
      rfl
    · rw [List.getElem?_eq_none (by simpa using hi), List.getElem?_eq_none (by simpa using hi)]
  have hle := hs.le
  rw [Nat.add_mul] at hle
  rw [Stream.retained, hlist, flatten_chunks, List.take_of_length_le]
  rw [List.length_drop]
  omega

/-- Nothing is given up while less than the maximum is kept. -/
theorem Stored.length_retained (hs : Stored added s) :
    min (s.maxSegments * s.segmentSize) added.length ≤ s.retained.length := by
  rw [hs.retained, List.length_drop]
  by_cases hoff : s.segmentOffset = 0
  · simp [hoff]
  · have hcount := hs.pruned (Nat.pos_of_ne_zero hoff)
    have hlt := hs.lt (by omega)
    rw [hcount, ← Nat.add_assoc, Nat.add_sub_cancel, Nat.add_mul] at hlt
    omega

/-! ## Reading -/

theorem Stored.doRead_of_neg (hs : Stored added s) {offset : ℤ} (h : offset < 0) :
    s.doRead offset = some ([], added.length) := by
  rw [Stream.doRead, if_pos (.inr h), hs.lastID]

theorem doRead_of_pruned (hsize : 0 < s.segmentSize) {o : ℕ}
    (h : o / s.segmentSize < s.segmentOffset) :
    s.doRead o = s.doRead (s.segmentOffset * s.segmentSize + o % s.segmentSize : ℕ) := by
  have hdiv : (s.segmentOffset * s.segmentSize + o % s.segmentSize) / s.segmentSize =
      s.segmentOffset := by
    rw [Nat.mul_comm, Nat.mul_add_div hsize, Nat.div_eq_of_lt (Nat.mod_lt _ hsize), Nat.add_zero]
  have hmod : (s.segmentOffset * s.segmentSize + o % s.segmentSize) % s.segmentSize =
      o % s.segmentSize := by
    rw [Nat.mul_comm, Nat.mul_add_mod, Nat.mod_mod]
  have hseg : s.segmentOf o = s.segmentOf (s.segmentOffset * s.segmentSize + o % s.segmentSize) := by
    rw [Stream.segmentOf, Stream.segmentOf, if_neg (not_le.mpr h), hdiv, if_pos le_rfl, Nat.sub_self]
  have hneg : ∀ n : ℕ, ¬ (n : ℤ) < 0 := fun n => by omega
  simp only [Stream.doRead, hneg, or_false, Int.toNat_natCast, hseg, hmod]

/-- **A read** returns the rest of the segment of the offset, and where it ends. -/
theorem Stored.doRead (hs : Stored added s) {o : ℕ} (ho : o ≤ added.length)
    (hoff : s.segmentOffset ≤ o / s.segmentSize) :
    s.doRead o = some ((added.drop o).take (s.segmentSize - o % s.segmentSize),
      min ((o / s.segmentSize + 1) * s.segmentSize) added.length) := by
  have hsize := hs.size_pos
  have hdiv := Nat.div_add_mod' o s.segmentSize
  have hmod := Nat.mod_lt o hsize
  have hsucc : (o / s.segmentSize + 1) * s.segmentSize = o / s.segmentSize * s.segmentSize +
      s.segmentSize := Nat.succ_mul ..
  -- at the end of the stream nothing is read
  have hatEnd : added.length ≤ o → some (([] : List V), s.lastID) =
      some ((added.drop o).take (s.segmentSize - o % s.segmentSize),
        min ((o / s.segmentSize + 1) * s.segmentSize) added.length) := by
    intro hle
    rw [List.drop_eq_nil_of_le hle, List.take_nil, hs.lastID, Nat.min_eq_right (by omega)]
  have hneg : ¬ (o : ℤ) < 0 := by omega
  unfold Stream.doRead
  simp only [hneg, or_false, Int.toNat_natCast, Stream.segmentOf, if_pos hoff]
  split_ifs with hzero hfuture
  · have hcount : s.segments.count = 0 := hzero
    have hle := hs.le
    rw [hs.segmentOffset_eq_zero hcount, hcount] at hle
    exact hatEnd (by omega)
  · -- past the last segment
    have hcount : s.segments.count ≤ o / s.segmentSize - s.segmentOffset := hfuture
    refine hatEnd (hs.le.trans (le_trans (Nat.mul_le_mul_right _ ?_) (Nat.div_mul_le_self ..)))
    omega
  · have hlt : o / s.segmentSize - s.segmentOffset < s.segments.count := not_le.mp hfuture
    have hseg : s.segments.get (o / s.segmentSize - s.segmentOffset : ℕ) =
        some (chunk added s.segmentSize (o / s.segmentSize)) := by
      rw [Queue.get_natCast _ hlt, hs.segment _ hlt, Nat.add_sub_cancel' hoff]
    have hitems : (chunk added s.segmentSize (o / s.segmentSize)).drop (o % s.segmentSize) =
        (added.drop o).take (s.segmentSize - o % s.segmentSize) := by
      rw [chunk, List.drop_take, List.drop_drop, hdiv]
    have hlen : ¬ (chunk added s.segmentSize (o / s.segmentSize)).length < o % s.segmentSize := by
      rw [length_chunk]
      omega
    rw [hseg]
    simp only [Option.bind_eq_bind, Option.bind_some, if_neg hlen, hitems, Nat.add_sub_cancel' hoff]
    split_ifs with hempty
    · have hnil := congrArg List.length (List.isEmpty_iff.mp hempty)
      rw [List.length_take, List.length_drop, List.length_nil] at hnil
      exact hatEnd (by omega)
    · rw [length_chunk]
      congr 2
      omega

/-- Where a read begins. -/
def Stream.readPos (s : Stream V) (o : ℕ) : ℕ :=
  if s.segmentOffset ≤ o / s.segmentSize then o
  else s.segmentOffset * s.segmentSize + o % s.segmentSize

theorem Stored.doRead_readPos (hs : Stored added s) (o : ℕ) :
    s.doRead o = s.doRead (s.readPos o : ℕ) := by
  unfold Stream.readPos
  split_ifs with h
  · rfl
  · exact doRead_of_pruned hs.size_pos (not_le.mp h)

/-- A read begins within the retained items. -/
theorem Stored.readPos_spec (hs : Stored added s) {o : ℕ} (ho : o ≤ added.length) :
    s.readPos o ≤ added.length ∧ s.segmentOffset ≤ s.readPos o / s.segmentSize := by
  have hsize := hs.size_pos
  unfold Stream.readPos
  split_ifs with h
  · exact ⟨ho, h⟩
  · have hmod := Nat.mod_lt o hsize
    have hcount := hs.pruned (Nat.zero_lt_of_lt (not_le.mp h))
    have hmax := hs.max_pos
    have hlt := hs.lt (by omega)
    have hmono : (s.segmentOffset + 1) * s.segmentSize ≤
        (s.segmentOffset + s.segments.count - 1) * s.segmentSize :=
      Nat.mul_le_mul_right _ (by omega)
    rw [Nat.succ_mul] at hmono
    refine ⟨by omega, ?_⟩
    rw [Nat.mul_comm, Nat.mul_add_div hsize]
    exact Nat.le_add_right ..

theorem take_append_drop_min (l : List V) (o d : ℕ) :
    (l.drop o).take d ++ l.drop (min (o + d) l.length) = l.drop o := by
  have hdrop : l.drop (min (o + d) l.length) = (l.drop o).drop d := by
    rw [List.drop_drop]
    rcases le_total (o + d) l.length with h | h
    · rw [Nat.min_eq_left h]
    · rw [Nat.min_eq_right h, List.drop_length, List.drop_eq_nil_of_le h]
  rw [hdrop, List.take_append_drop]

theorem Stored.readAllLoop_of_end (hs : Stored added s)
    (hoff : s.segmentOffset ≤ added.length / s.segmentSize) (fuel : ℕ) (result : List V) :
    s.readAllLoop (fuel + 1) added.length result = some (result, added.length) := by
  have hdiv := Nat.div_add_mod' added.length s.segmentSize
  have hmod := Nat.mod_lt added.length hs.size_pos
  have hsucc : (added.length / s.segmentSize + 1) * s.segmentSize =
      added.length / s.segmentSize * s.segmentSize + s.segmentSize := Nat.succ_mul ..
  have hmin : min ((added.length / s.segmentSize + 1) * s.segmentSize) added.length =
      added.length := Nat.min_eq_right (by omega)
  rw [Stream.readAllLoop, hs.doRead le_rfl hoff, hmin, List.drop_length, List.take_nil]
  rfl

/-- The loop collects everything from its offset on, one segment at a time. -/
theorem Stored.readAllLoop (hs : Stored added s) (fuel : ℕ) {o : ℕ} (ho : o < added.length)
    (hoff : s.segmentOffset ≤ o / s.segmentSize)
    (hfuel : s.segmentOffset + s.segments.count ≤ o / s.segmentSize + fuel) (result : List V) :
    s.readAllLoop (fuel + 1) o result = some (result ++ added.drop o, added.length) := by
  induction fuel generalizing o result with
  | zero =>
    -- the offset would be past the last segment
    have hle := hs.le.trans (Nat.mul_le_mul_right s.segmentSize hfuel)
    have := Nat.div_mul_le_self o s.segmentSize
    rw [Nat.add_zero] at hle
    omega
  | succ fuel ih =>
    have hsize := hs.size_pos
    have hdiv := Nat.div_add_mod' o s.segmentSize
    have hmod := Nat.mod_lt o hsize
    have hsucc : (o / s.segmentSize + 1) * s.segmentSize = o / s.segmentSize * s.segmentSize +
        s.segmentSize := Nat.succ_mul ..
    have hend : (o / s.segmentSize + 1) * s.segmentSize = o +
        (s.segmentSize - o % s.segmentSize) := by
      omega
    have hempty : ((added.drop o).take (s.segmentSize - o % s.segmentSize)).isEmpty = false := by
      rw [List.isEmpty_eq_false_iff_exists_mem]
      refine List.exists_mem_of_length_pos ?_
      rw [List.length_take, List.length_drop]
      omega
    rw [Stream.readAllLoop, hs.doRead ho.le hoff]
    simp only [Option.bind_eq_bind, Option.bind_some, hempty, Bool.false_eq_true, if_false]
    have hrest := take_append_drop_min added o (s.segmentSize - o % s.segmentSize)
    rw [← hend] at hrest
    rcases lt_or_ge ((o / s.segmentSize + 1) * s.segmentSize) added.length with hlt | hge
    · have hnext : (o / s.segmentSize + 1) * s.segmentSize / s.segmentSize = o / s.segmentSize + 1 :=
        Nat.mul_div_cancel _ hsize
      rw [Nat.min_eq_left hlt.le] at hrest ⊢
      rw [ih hlt (by rw [hnext]; omega) (by rw [hnext]; omega), List.append_assoc, hrest]
    · rw [Nat.min_eq_right hge] at hrest ⊢
      rw [List.drop_length, List.append_nil] at hrest
      rw [hs.readAllLoop_of_end (hoff.trans (Nat.div_le_div_right ho.le)), hrest]

/-- **Reading everything** from an offset returns the items from where the read begins, and the
id of the last item. -/
theorem Stored.readAllNonBlocking (hs : Stored added s) {o : ℕ} (ho : o ≤ added.length) :
    s.readAllNonBlocking o = some (added.drop (s.readPos o), added.length) := by
  obtain ⟨hle, hoff⟩ := hs.readPos_spec ho
  have hstart : s.readAllNonBlocking o = s.readAllLoop (s.segments.length + 1) (s.readPos o : ℕ)
      [] := by
    rw [Stream.readAllNonBlocking, Stream.readAllLoop, Stream.readAllLoop, hs.doRead_readPos]
  rw [hstart]
  rcases Nat.lt_or_eq_of_le hle with hlt | heq
  · exact hs.readAllLoop _ hlt hoff (Nat.add_le_add_right hoff _) []
  · rw [heq] at hoff ⊢
    rw [hs.readAllLoop_of_end hoff, List.drop_length]

end EvmGateway.Streaming
