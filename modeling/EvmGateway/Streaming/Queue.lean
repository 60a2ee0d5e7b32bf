import Mathlib

/-!
# The ring-buffer queue

The segments of a stream are kept in a queue on a ring buffer, which doubles when it is full
and halves when it is a quarter full.  The length of the buffer is a power of two, so that an
index is wrapped by a mask; a queue carries this and the bounds of its indices with it.

`Queue.toList` is what the queue stands for.  Every operation is described by it
(`toList_add`, `remove_of_toList`, `get_natCast`, `get_neg_one`, `toList_updateTail`), and
nothing else is used of a queue.  An operation that panics has no result.
-/

namespace EvmGateway.Streaming

variable {α : Type}

/-! ## The operations -/

/-- The smallest length of a buffer. -/
def minQueueLen : ℕ := 16

/-- A queue on a ring buffer. -/
structure Queue (α : Type) where
  buf : List α
  head : ℕ
  tail : ℕ
  count : ℕ
  len_pow : ∃ k, buf.length = 2 ^ k
  count_le : count ≤ buf.length
  head_lt : head < buf.length
  tail_eq : tail = (head + count) % buf.length

/-- The wrapped index, by a mask. -/
def wrap (i len : ℕ) : ℕ := i &&& (len - 1)

/-- `copy(dst, src)` -/
def copySlice (dst src : List α) : List α := src.take dst.length ++ dst.drop src.length

theorem length_copySlice (dst src : List α) : (copySlice dst src).length = dst.length := by
  simp only [copySlice, List.length_append, List.length_take, List.length_drop]
  omega

theorem wrap_eq {i len : ℕ} (h : ∃ k, len = 2 ^ k) : wrap i len = i % len := by
  obtain ⟨k, rfl⟩ := h
  exact Nat.and_two_pow_sub_one_eq_mod i k

theorem mod_of_lt_double {i len : ℕ} (h : i < 2 * len) :
    i % len = if i < len then i else i - len := by
  split_ifs with hlt
  · exact Nat.mod_eq_of_lt hlt
  · rw [Nat.mod_eq_sub_mod (not_lt.mp hlt), Nat.mod_eq_of_lt (by omega)]

namespace Queue

/-- The queue at first. -/
def new [Inhabited α] : Queue α where
  buf := .replicate minQueueLen default
  head := 0
  tail := 0
  count := 0
  len_pow := ⟨4, rfl⟩
  count_le := Nat.zero_le _
  head_lt := by simp [minQueueLen]
  tail_eq := by simp

/-- `Length` -/
def length (q : Queue α) : ℕ := q.count

theorem len_pos (q : Queue α) : 0 < q.buf.length := Nat.zero_lt_of_lt q.head_lt

theorem head_add_lt (q : Queue α) {i : ℕ} (hi : i ≤ q.count) : q.head + i < 2 * q.buf.length := by
  have := q.head_lt
  have := q.count_le
  omega

section Resize

variable [Inhabited α]

/-- The buffer after `resize`. -/
def resizedBuf (q : Queue α) : List α :=
  let newBuf := List.replicate (q.count <<< 1) default
  if q.tail > q.head then copySlice newBuf ((q.buf.take q.tail).drop q.head)
  else
    let n := min newBuf.length (q.buf.drop q.head).length
    let newBuf := copySlice newBuf (q.buf.drop q.head)
    newBuf.take n ++ copySlice (newBuf.drop n) (q.buf.take q.tail)

theorem length_resizedBuf (q : Queue α) : q.resizedBuf.length = q.count * 2 := by
  unfold resizedBuf
  split_ifs
  · simp [length_copySlice, Nat.shiftLeft_eq]
  · simp only [List.length_append, List.length_take, length_copySlice, List.length_drop,
      List.length_replicate, Nat.shiftLeft_eq]
    omega

/-- Move to a buffer of twice the current contents, which are a power of two. -/
def resize (q : Queue α) (h : ∃ k, q.count = 2 ^ k) : Queue α where
  buf := q.resizedBuf
  head := 0
  tail := q.count
  count := q.count
  len_pow := by
    obtain ⟨k, hk⟩ := h
    exact ⟨k + 1, by rw [length_resizedBuf, hk, pow_succ]⟩
  count_le := by rw [length_resizedBuf]; omega
  head_lt := by
    obtain ⟨k, hk⟩ := h
    have := Nat.two_pow_pos k
    rw [length_resizedBuf]
    omega
  tail_eq := by
    obtain ⟨k, hk⟩ := h
    have := Nat.two_pow_pos k
    rw [length_resizedBuf, Nat.zero_add, Nat.mod_eq_of_lt (by omega)]

end Resize

/-- Put an element at the end; there is room for it. -/
def addRoom (q : Queue α) (h : q.count < q.buf.length) (elem : α) : Queue α where
  buf := q.buf.set q.tail elem
  head := q.head
  tail := wrap (q.tail + 1) q.buf.length
  count := q.count + 1
  len_pow := by simpa using q.len_pow
  count_le := by simpa using h
  head_lt := by simpa using q.head_lt
  tail_eq := by
    rw [wrap_eq q.len_pow, q.tail_eq, List.length_set, Nat.mod_add_mod, Nat.add_assoc]

/-- Put an element at the end. -/
def add [Inhabited α] (q : Queue α) (elem : α) : Queue α :=
  if h : q.count = q.buf.length then
    (q.resize (by rw [h]; exact q.len_pow)).addRoom (by
      change q.count < q.resizedBuf.length
      have := q.len_pos
      rw [length_resizedBuf]
      omega) elem
  else q.addRoom (lt_of_le_of_ne q.count_le h) elem

/-- The queue without its first element. -/
def dropHead (q : Queue α) (h : 0 < q.count) : Queue α where
  buf := q.buf
  head := wrap (q.head + 1) q.buf.length
  tail := q.tail
  count := q.count - 1
  len_pow := q.len_pow
  count_le := (Nat.sub_le ..).trans q.count_le
  head_lt := by
    rw [wrap_eq q.len_pow]
    exact Nat.mod_lt _ q.len_pos
  tail_eq := by
    rw [wrap_eq q.len_pow, q.tail_eq, Nat.mod_add_mod]
    congr 1
    omega

theorem count_pow_of_quarter {q : Queue α} (h : q.count <<< 2 = q.buf.length)
    (hlen : minQueueLen < q.buf.length) : ∃ k, q.count = 2 ^ k := by
  obtain ⟨k, hk⟩ := q.len_pow
  rw [hk, Nat.shiftLeft_eq] at h
  rw [hk, minQueueLen] at hlen
  have hk2 : 2 ≤ k := by
    by_contra hlt
    interval_cases k <;> omega
  refine ⟨k - 2, Nat.eq_of_mul_eq_mul_right (show 0 < 2 ^ 2 by decide) ?_⟩
  rw [h, ← pow_add, Nat.sub_add_cancel hk2]

/-- Take the first element off; the buffer shrinks when it is a quarter full. -/
def remove [Inhabited α] (q : Queue α) : Option (α × Queue α) :=
  if h : 0 < q.count then
    let q' := q.dropHead h
    q.buf[q.head]?.map fun ret =>
      (ret, if hsmall : minQueueLen < q'.buf.length ∧ q'.count <<< 2 = q'.buf.length then
        q'.resize (count_pow_of_quarter hsmall.2 hsmall.1) else q')
  else none

/-- The place of an index in the buffer; a negative index counts from the end. -/
def place (q : Queue α) (i : ℤ) : Option ℕ :=
  let i := if i < 0 then i + q.count else i
  if i < 0 ∨ q.count ≤ i then none else some (wrap (q.head + i.toNat) q.buf.length)

/-- `Get` -/
def get (q : Queue α) (i : ℤ) : Option α := (q.place i).bind fun p => q.buf[p]?

/-- Assign to the last element through its pointer. -/
def updateTail (q : Queue α) (f : α → α) : Option (Queue α) :=
  (q.place (-1)).map fun p =>
    { q with
      buf := q.buf.modify p f
      len_pow := by simpa using q.len_pow
      count_le := by simpa using q.count_le
      head_lt := by simpa using q.head_lt
      tail_eq := by simpa using q.tail_eq }

/-! ## What the queue stands for -/

/-- The elements in order. -/
def toList (q : Queue α) : List α := (q.buf.rotate q.head).take q.count

theorem getElem?_toList (q : Queue α) {i : ℕ} (hi : i < q.count) :
    q.toList[i]? = q.buf[(q.head + i) % q.buf.length]? := by
  rw [toList, List.getElem?_take_of_lt hi, List.getElem?_rotate (lt_of_lt_of_le hi q.count_le),
    Nat.add_comm]

@[simp] theorem length_toList (q : Queue α) : q.toList.length = q.count := by
  rw [toList, List.length_take, List.length_rotate]
  exact Nat.min_eq_left q.count_le

theorem toList_eq (q : Queue α) {l : List α} (hlen : l.length = q.count)
    (hl : ∀ i < q.count, l[i]? = q.buf[(q.head + i) % q.buf.length]?) : q.toList = l := by
  refine List.ext_getElem? fun i => ?_
  by_cases hi : i < q.count
  · rw [getElem?_toList q hi, hl i hi]
  · rw [List.getElem?_eq_none (by simpa using hi), List.getElem?_eq_none (by omega)]

theorem toList_addRoom (q : Queue α) (h : q.count < q.buf.length) (elem : α) :
    (q.addRoom h elem).toList = q.toList ++ [elem] := by
  refine toList_eq _ (by simp [addRoom]) fun i hi => ?_
  have hi' : i ≤ q.count := Nat.le_of_lt_succ hi
  have hbuf : (q.addRoom h elem).buf = q.buf.set q.tail elem := rfl
  have hhead : (q.addRoom h elem).head = q.head := rfl
  -- the element written is at the first free place
  have hplace : q.tail = (q.head + i) % q.buf.length ↔ q.count = i := by
    rw [q.tail_eq, mod_of_lt_double (q.head_add_lt le_rfl), mod_of_lt_double (q.head_add_lt hi')]
    have := q.head_lt
    split_ifs <;> omega
  rw [hbuf, hhead, List.length_set, List.getElem?_set, List.getElem?_append, length_toList]
  by_cases hlt : i < q.count
  · rw [if_pos hlt, if_neg (by rw [hplace]; omega), getElem?_toList q hlt]
  · obtain rfl : q.count = i := by omega
    rw [if_neg hlt, if_pos (hplace.mpr rfl), if_pos ?_, Nat.sub_self]
    · rfl
    · rw [hplace.mpr rfl]
      exact Nat.mod_lt _ q.len_pos

theorem toList_dropHead (q : Queue α) (h : 0 < q.count) : (q.dropHead h).toList = q.toList.tail := by
  refine toList_eq _ (by simp [dropHead]) fun i hi => ?_
  have hi' : i + 1 < q.count := by
    change i < q.count - 1 at hi
    omega
  change q.toList.tail[i]? = q.buf[(wrap (q.head + 1) q.buf.length + i) % q.buf.length]?
  rw [List.getElem?_tail, getElem?_toList q hi', wrap_eq q.len_pow, Nat.mod_add_mod]
  congr 2
  omega

section Resize

variable [Inhabited α]

/-- The contents come first in the new buffer, whether or not they were wrapped. -/
theorem resizedBuf_eq (q : Queue α) (h : 0 < q.count) :
    q.resizedBuf = q.toList ++ .replicate q.count default := by
  have hhead := q.head_lt
  have hcount := q.count_le
  have htail := q.tail_eq
  rw [mod_of_lt_double (q.head_add_lt le_rfl)] at htail
  have hrotate : q.buf.rotate q.head = q.buf.drop q.head ++ q.buf.take q.head :=
    List.rotate_eq_drop_append_take hhead.le
  unfold resizedBuf toList
  rw [hrotate]
  split_ifs with hlt
  · -- in one piece
    obtain ⟨hend, hle⟩ : q.tail = q.head + q.count ∧ q.head + q.count < q.buf.length := by
      split_ifs at htail <;> omega
    have hpiece : (q.buf.take q.tail).drop q.head = (q.buf.drop q.head).take q.count := by
      rw [hend, List.drop_take]
      congr 1
      omega
    rw [hpiece, List.take_append_of_le_length (by simp; omega), copySlice]
    rw [List.take_of_length_le (by simp [Nat.shiftLeft_eq]; omega)]
    congr 1
    simp [Nat.shiftLeft_eq]
    omega
  · -- in two pieces
    obtain ⟨hend, hle⟩ : q.tail + q.buf.length = q.head + q.count ∧ q.tail ≤ q.head := by
      split_ifs at htail <;> omega
    have hfirst : copySlice (.replicate (q.count <<< 1) default) (q.buf.drop q.head) =
        q.buf.drop q.head ++ .replicate (q.count * 2 - (q.buf.length - q.head)) default := by
      rw [copySlice, List.take_of_length_le (by simp [Nat.shiftLeft_eq]; omega)]
      simp [Nat.shiftLeft_eq]
    have hmin : min (List.replicate (q.count <<< 1) (default : α)).length
        (q.buf.drop q.head).length = (q.buf.drop q.head).length := by
      simp [Nat.shiftLeft_eq]
      omega
    simp only [hfirst, hmin, List.take_left, List.drop_left]
    rw [List.take_append, List.take_of_length_le (show (q.buf.drop q.head).length ≤ q.count by
      simp; omega), List.append_assoc]
    congr 1
    have htake : (q.buf.take q.head).take (q.count - (q.buf.drop q.head).length) =
        q.buf.take q.tail := by
      rw [List.take_take]
      congr 1
      simp
      omega
    rw [htake, copySlice, List.take_of_length_le (by simp; omega)]
    congr 1
    simp
    omega

theorem toList_resize (q : Queue α) (h : ∃ k, q.count = 2 ^ k) : (q.resize h).toList = q.toList := by
  have hpos : 0 < q.count := by
    obtain ⟨k, hk⟩ := h
    rw [hk]
    exact Nat.two_pow_pos k
  change (q.resizedBuf.rotate 0).take q.count = q.toList
  rw [List.rotate_zero, q.resizedBuf_eq hpos, List.take_left' (length_toList q)]

/-- **Adding** puts an element at the end. -/
@[simp] theorem toList_add (q : Queue α) (elem : α) : (q.add elem).toList = q.toList ++ [elem] := by
  unfold add
  split_ifs with h
  · rw [toList_addRoom, toList_resize]
  · rw [toList_addRoom]

/-- **Removing** takes the first element off. -/
theorem remove_of_toList {q : Queue α} {x : α} {l : List α} (h : q.toList = x :: l) :
    ∃ q', q.remove = some (x, q') ∧ q'.toList = l := by
  have hpos : 0 < q.count := by
    rw [← length_toList, h]
    exact Nat.succ_pos _
  have hx : q.buf[q.head]? = some x := by
    have hget := getElem?_toList q hpos
    rw [h, Nat.add_zero, Nat.mod_eq_of_lt q.head_lt] at hget
    exact hget.symm
  have hl : (q.dropHead hpos).toList = l := by rw [toList_dropHead, h, List.tail_cons]
  unfold remove
  rw [dif_pos hpos, hx]
  refine ⟨_, rfl, ?_⟩
  split_ifs with hsmall
  · rw [toList_resize, hl]
  · exact hl

end Resize

theorem place_natCast (q : Queue α) {i : ℕ} (hi : i < q.count) :
    q.place i = some ((q.head + i) % q.buf.length) := by
  have hneg : ¬ (i : ℤ) < 0 := by omega
  simp only [place, if_neg hneg]
  rw [if_neg (by omega), wrap_eq q.len_pow]
  simp

theorem place_neg_one (q : Queue α) (h : 0 < q.count) :
    q.place (-1) = some ((q.head + (q.count - 1)) % q.buf.length) := by
  have hcast : (-1 : ℤ) + q.count = ((q.count - 1 : ℕ) : ℤ) := by omega
  simp only [place, show (-1 : ℤ) < 0 by decide, if_true, hcast]
  rw [if_neg (by omega), wrap_eq q.len_pow]
  simp

/-- **Reading** at an index. -/
theorem get_natCast (q : Queue α) {i : ℕ} (hi : i < q.count) : q.get i = q.toList[i]? := by
  rw [get, place_natCast q hi, getElem?_toList q hi]
  rfl

/-- **Reading** the last element. -/
theorem get_neg_one (q : Queue α) : q.get (-1) = q.toList.getLast? := by
  by_cases h : 0 < q.count
  · rw [get, place_neg_one q h, List.getLast?_eq_getElem?, length_toList,
      getElem?_toList q (Nat.sub_lt h Nat.one_pos)]
    rfl
  · have hzero : q.count = 0 := by omega
    have hnil : q.toList = [] := List.length_eq_zero_iff.mp ((length_toList q).trans hzero)
    simp [get, place, hzero, hnil]

/-- **Assigning** to the last element. -/
theorem toList_updateTail {q : Queue α} {f : α → α} {l : List α} {x : α} (h : q.toList = l ++ [x]) :
    ∃ q', q.updateTail f = some q' ∧ q'.toList = l ++ [f x] := by
  have hcount : q.count = l.length + 1 := by
    rw [← length_toList, h]
    simp
  rw [updateTail, place_neg_one q (by omega)]
  refine ⟨_, rfl, toList_eq _ (by simp [hcount]) fun i hi => ?_⟩
  change i < q.count at hi
  change (l ++ [f x])[i]? = (q.buf.modify ((q.head + (q.count - 1)) % q.buf.length) f)[
    (q.head + i) % (q.buf.modify ((q.head + (q.count - 1)) % q.buf.length) f).length]?
  have hplace : (q.head + (q.count - 1)) % q.buf.length = (q.head + i) % q.buf.length ↔
      i = l.length := by
    rw [mod_of_lt_double (q.head_add_lt (Nat.sub_le ..)), mod_of_lt_double (q.head_add_lt hi.le)]
    have := q.head_lt
    have := q.count_le
    split_ifs <;> omega
  have hget := getElem?_toList q hi
  rw [h, List.getElem?_append] at hget
  rw [List.length_modify, List.getElem?_modify, ← hget, List.getElem?_append]
  by_cases hlt : i < l.length
  · simp [hlt, hplace, hlt.ne]
  · obtain rfl : i = l.length := by omega
    simp [hplace]

end Queue

end EvmGateway.Streaming
