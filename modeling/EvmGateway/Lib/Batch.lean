import Mathlib

/-!
# Atomic batches over an ordered key-value map

A batch is the list of puts and deletes a writer has queued; committing it applies
them in order.  The value type may depend on the key, so one map holds several
collections at once.

Everything a reader can see after a commit is the last queued write of the key, or
the old value when there is none: `get?_applyBatch`.  The remaining lemmas compute
`lastWrite` for the shapes in which batches are built (appended, or gathered from a
list of records), and `collect_eq_of_get?` turns lookups at consecutive keys into
the result of an ordered scan.

## Main definitions

* `Write K V` — one queued put or delete.
* `applyBatch ws m` — commit.
* `lastWrite ws k` — the write of `k` that wins.
* `collect m p` — an ascending scan keeping what `p` selects.
-/

namespace EvmGateway.Lib

open Std

universe u v w

/-- A queued write: `some v` puts `v` under the key, `none` deletes the key. -/
structure Write (K : Type u) (V : K → Type v) where
  key : K
  value : Option (V key)

/-- A queue of writes, oldest first. -/
abbrev Batch (K : Type u) (V : K → Type v) := List (Write K V)

variable {K : Type u} {V : K → Type v} {cmp : K → K → Ordering}

/-- Queue a put. -/
def Write.set (k : K) (v : V k) : Write K V := ⟨k, some v⟩

/-- Queue a delete. -/
def Write.delete (k : K) : Write K V := ⟨k, none⟩

@[simp] theorem Write.key_set (k : K) (v : V k) : (Write.set k v).key = k := rfl

@[simp] theorem Write.key_delete (k : K) : (Write.delete k : Write K V).key = k := rfl

section LastWrite

variable [DecidableEq K]

/-- What a single write does to the key `k`, if it is a write of `k` at all. -/
def Write.at (w : Write K V) (k : K) : Option (Option (V k)) :=
  if h : w.key = k then some (h ▸ w.value) else none

@[simp] theorem Write.at_set_self (k : K) (v : V k) : (Write.set k v).at k = some (some v) := by
  simp [Write.at, Write.set]

@[simp] theorem Write.at_delete_self (k : K) : (Write.delete k : Write K V).at k = some none := by
  simp [Write.at, Write.delete]

theorem Write.at_of_ne {w : Write K V} {k : K} (h : w.key ≠ k) : w.at k = none := by
  simp [Write.at, h]

theorem Write.at_set_of_ne {k k' : K} (v : V k) (h : k ≠ k') : (Write.set k v).at k' = none :=
  Write.at_of_ne h

theorem Write.key_eq_of_at {w : Write K V} {k : K} {o : Option (V k)} (h : w.at k = some o) :
    w.key = k := by
  by_contra hne
  rw [Write.at_of_ne hne] at h
  cases h

def lastWrite : Batch K V → (k : K) → Option (Option (V k))
  | [], _ => none
  | w :: ws, k => (lastWrite ws k).or (w.at k)

@[simp] theorem lastWrite_nil (k : K) : lastWrite ([] : Batch K V) k = none := rfl

@[simp] theorem lastWrite_cons (w : Write K V) (ws : Batch K V) (k : K) :
    lastWrite (w :: ws) k = (lastWrite ws k).or (w.at k) := rfl

theorem lastWrite_append (ws ws' : Batch K V) (k : K) :
    lastWrite (ws ++ ws') k = (lastWrite ws' k).or (lastWrite ws k) := by
  induction ws with
  | nil => simp
  | cons w ws ih => simp [ih, Option.or_assoc]

theorem lastWrite_eq_none_iff {ws : Batch K V} {k : K} :
    lastWrite ws k = none ↔ ∀ w ∈ ws, w.key ≠ k := by
  induction ws with
  | nil => simp
  | cons w ws ih =>
    simp only [lastWrite_cons, Option.or_eq_none_iff, ih, List.mem_cons, forall_eq_or_imp,
      and_comm (a := ∀ w ∈ ws, w.key ≠ k)]
    refine and_congr_left fun _ => ⟨fun h hk => ?_, Write.at_of_ne⟩
    simp [Write.at, hk] at h

/-- The winning write is one of the queued ones. -/
theorem exists_mem_of_lastWrite {ws : Batch K V} {k : K} {o : Option (V k)}
    (h : lastWrite ws k = some o) : ∃ w ∈ ws, w.at k = some o := by
  induction ws with
  | nil => cases h
  | cons w ws ih =>
    rw [lastWrite_cons, Option.or_eq_some_iff] at h
    rcases h with h | ⟨_, h⟩
    · obtain ⟨w', hw', hat⟩ := ih h
      exact ⟨w', List.mem_cons_of_mem _ hw', hat⟩
    · exact ⟨w, List.mem_cons_self, h⟩

/-- A key that the batch writes, and only ever in one way, ends up written that way. -/
theorem lastWrite_eq_of_forall {ws : Batch K V} {k : K} {o : Option (V k)}
    (hex : ∃ w ∈ ws, w.key = k) (hall : ∀ w ∈ ws, ∀ o', w.at k = some o' → o' = o) :
    lastWrite ws k = some o := by
  cases h : lastWrite ws k with
  | none =>
    obtain ⟨w, hw, hk⟩ := hex
    exact absurd hk (lastWrite_eq_none_iff.mp h w hw)
  | some o' =>
    obtain ⟨w, hw, hat⟩ := exists_mem_of_lastWrite h
    rw [hall w hw o' hat]

/-- A batch of deletes deletes the keys it names and touches nothing else. -/
theorem lastWrite_map_delete (ks : List K) (k : K) :
    lastWrite (ks.map (Write.delete (V := V))) k = if k ∈ ks then some none else none := by
  split_ifs with hk
  · refine lastWrite_eq_of_forall ⟨_, List.mem_map.mpr ⟨k, hk, rfl⟩, rfl⟩ ?_
    intro w hw o ho
    obtain ⟨k', _, rfl⟩ := List.mem_map.mp hw
    obtain rfl : k' = k := Write.key_eq_of_at ho
    simpa using ho.symm
  · refine lastWrite_eq_none_iff.mpr ?_
    intro w hw
    obtain ⟨k', hk', rfl⟩ := List.mem_map.mp hw
    rintro rfl
    exact hk hk'

theorem lastWrite_flatMap_eq_none {α : Type w} {l : List α} {f : α → Batch K V} {k : K} :
    lastWrite (l.flatMap f) k = none ↔ ∀ a ∈ l, lastWrite (f a) k = none := by
  simp only [lastWrite_eq_none_iff, List.mem_flatMap, forall_exists_index, and_imp]
  exact ⟨fun h a ha w hw => h w a ha hw, fun h w a ha hw => h a ha w hw⟩

/-- In a batch gathered from records, the winning write is the last word of the last
record that writes the key. -/
theorem exists_last_of_lastWrite_flatMap {α : Type w} {l : List α} {f : α → Batch K V} {k : K}
    {o : Option (V k)} (h : lastWrite (l.flatMap f) k = some o) :
    ∃ (i : ℕ) (a : α), l[i]? = some a ∧ lastWrite (f a) k = some o ∧
      ∀ (j : ℕ) (b : α), i < j → l[j]? = some b → lastWrite (f b) k = none := by
  induction l with
  | nil => cases h
  | cons a l ih =>
    rw [List.flatMap_cons, lastWrite_append, Option.or_eq_some_iff] at h
    rcases h with h | ⟨hlater, h⟩
    · obtain ⟨i, b, hb, hbo, hafter⟩ := ih h
      refine ⟨i + 1, b, hb, hbo, ?_⟩
      intro j c hj hc
      cases j with
      | zero => omega
      | succ j => exact hafter j c (by omega) hc
    · refine ⟨0, a, rfl, h, ?_⟩
      intro j c hj hc
      cases j with
      | zero => omega
      | succ j => exact lastWrite_flatMap_eq_none.mp hlater c (List.mem_of_getElem? hc)

theorem exists_mem_of_lastWrite_flatMap {α : Type w} {l : List α} {f : α → Batch K V} {k : K}
    {o : Option (V k)} (h : lastWrite (l.flatMap f) k = some o) :
    ∃ a ∈ l, lastWrite (f a) k = some o := by
  obtain ⟨i, a, ha, hao, -⟩ := exists_last_of_lastWrite_flatMap h
  exact ⟨a, List.mem_of_getElem? ha, hao⟩

/-- A key that some record writes, and that every record writing it writes in the
same way, ends up written that way. -/
theorem lastWrite_flatMap_of_agree {α : Type w} {l : List α} {f : α → Batch K V} {k : K}
    {o : Option (V k)} (hex : ∃ a ∈ l, lastWrite (f a) k = some o)
    (hall : ∀ a ∈ l, ∀ o', lastWrite (f a) k = some o' → o' = o) :
    lastWrite (l.flatMap f) k = some o := by
  cases h : lastWrite (l.flatMap f) k with
  | none =>
    obtain ⟨a, ha, hao⟩ := hex
    rw [lastWrite_flatMap_eq_none.mp h a ha] at hao
    cases hao
  | some o' =>
    obtain ⟨a, ha, hao⟩ := exists_mem_of_lastWrite_flatMap h
    rw [hall a ha o' hao]

end LastWrite

section Apply

variable [TransCmp cmp]

def Write.apply (m : ExtDTreeMap K V cmp) (w : Write K V) : ExtDTreeMap K V cmp :=
  match w.value with
  | some v => m.insert w.key v
  | none => m.erase w.key

/-- Commit a batch: apply its writes in order. -/
def applyBatch (ws : Batch K V) (m : ExtDTreeMap K V cmp) : ExtDTreeMap K V cmp :=
  ws.foldl Write.apply m

@[simp] theorem applyBatch_nil (m : ExtDTreeMap K V cmp) : applyBatch [] m = m := rfl

@[simp] theorem applyBatch_cons (w : Write K V) (ws : Batch K V) (m : ExtDTreeMap K V cmp) :
    applyBatch (w :: ws) m = applyBatch ws (w.apply m) := rfl

variable [LawfulEqCmp cmp]

theorem Write.get?_apply [DecidableEq K] (w : Write K V) (m : ExtDTreeMap K V cmp) (k : K) :
    (w.apply m).get? k = (w.at k).getD (m.get? k) := by
  obtain ⟨k', o⟩ := w
  by_cases h : k' = k
  · subst h
    cases o <;> simp [Write.apply, Write.at]
  · have hne : cmp k' k ≠ .eq := fun hc => h (LawfulEqCmp.eq_of_compare hc)
    cases o <;> simp [Write.apply, Write.at, h, ExtDTreeMap.get?_insert, ExtDTreeMap.get?_erase, hne]

/-- **What a reader sees after a commit**: the last queued write of the key, or the
old value if the batch does not write it. -/
theorem get?_applyBatch [DecidableEq K] (ws : Batch K V) (m : ExtDTreeMap K V cmp) (k : K) :
    (applyBatch ws m).get? k = (lastWrite ws k).getD (m.get? k) := by
  induction ws generalizing m with
  | nil => rfl
  | cons w ws ih =>
    rw [applyBatch_cons, ih, Write.get?_apply, lastWrite_cons]
    cases lastWrite ws k <;> simp

/-- An ascending scan of the map that keeps what `p` selects. -/
def collect {β : Type w} (m : ExtDTreeMap K V cmp) (p : (k : K) → V k → Option β) : List β :=
  m.toList.filterMap fun e => p e.1 e.2

theorem mem_collect {β : Type w} {m : ExtDTreeMap K V cmp} {p : (k : K) → V k → Option β} {b : β} :
    b ∈ collect m p ↔ ∃ k v, m.get? k = some v ∧ p k v = some b := by
  simp only [collect, List.mem_filterMap, Sigma.exists, ExtDTreeMap.mem_toList_iff_get?_eq_some]

/-- The scan with the key of each selected entry. -/
def keyedScan {β : Type w} (m : ExtDTreeMap K V cmp) (p : (k : K) → V k → Option β) : List (K × β) :=
  m.toList.filterMap fun e => (p e.1 e.2).map (Prod.mk e.1)

omit [LawfulEqCmp cmp] in
theorem collect_eq_map_keyedScan {β : Type w} (m : ExtDTreeMap K V cmp)
    (p : (k : K) → V k → Option β) : collect m p = (keyedScan m p).map Prod.snd := by
  simp [collect, keyedScan, List.map_filterMap, Function.comp_def]

theorem mem_keyedScan {β : Type w} {m : ExtDTreeMap K V cmp} {p : (k : K) → V k → Option β} {k : K}
    {b : β} : (k, b) ∈ keyedScan m p ↔ ∃ v, m.get? k = some v ∧ p k v = some b := by
  simp only [keyedScan, List.mem_filterMap, Option.map_eq_some_iff, Prod.mk.injEq, Sigma.exists,
    ExtDTreeMap.mem_toList_iff_get?_eq_some]
  constructor
  · rintro ⟨k', v, hv, b', hb, rfl, rfl⟩
    exact ⟨v, hv, hb⟩
  · rintro ⟨v, hv, hb⟩
    exact ⟨k, v, hv, b, hb, rfl, rfl⟩

omit [LawfulEqCmp cmp] in
theorem pairwise_keyedScan {β : Type w} (m : ExtDTreeMap K V cmp) (p : (k : K) → V k → Option β) :
    (keyedScan m p).Pairwise fun a b => cmp a.1 b.1 = .lt := by
  refine (ExtDTreeMap.ordered_keys_toList (t := m)).filterMap _ ?_
  intro e e' hlt a ha b hb
  obtain ⟨x, -, rfl⟩ := Option.map_eq_some_iff.mp ha
  obtain ⟨y, -, rfl⟩ := Option.map_eq_some_iff.mp hb
  exact hlt

/-- A keyed scan is determined by its members, because its keys ascend. -/
theorem keyedScan_eq {β : Type w} {m : ExtDTreeMap K V cmp} {p : (k : K) → V k → Option β}
    {l : List (K × β)} (hl : l.Pairwise fun a b => cmp a.1 b.1 = .lt)
    (hmem : ∀ a, a ∈ keyedScan m p ↔ a ∈ l) : keyedScan m p = l := by
  let r : K × β → K × β → Prop := fun a b => cmp a.1 b.1 = .lt
  have : Std.Irrefl r := ⟨fun a h => by simp [r, ReflCmp.compare_self] at h⟩
  have : Std.Antisymm r := ⟨fun a b h h' => by
    simp only [r] at h h'
    rw [@OrientedCmp.eq_swap _ cmp _, h] at h'
    cases h'⟩
  have hscan : (keyedScan m p).Pairwise r := pairwise_keyedScan m p
  exact hscan.eq_of_mem_iff hl hmem

/-- **A scan over consecutive keys.**  If the selected entries of the map sit exactly
at the keys `key 0, key 1, …` in ascending order, with the elements of `l`, the scan
returns `l`. -/
theorem collect_eq_of_get? {β : Type w} {m : ExtDTreeMap K V cmp} {p : (k : K) → V k → Option β}
    {l : List β} (key : ℕ → K) (hmono : ∀ i j, i < j → cmp (key i) (key j) = .lt)
    (hsound : ∀ k v b, m.get? k = some v → p k v = some b → ∃ i, k = key i ∧ l[i]? = some b)
    (hcomplete : ∀ i b, l[i]? = some b → ∃ v, m.get? (key i) = some v ∧ p (key i) v = some b) :
    collect m p = l := by
  let listed : List (K × β) := l.zipIdx.map fun e => (key e.2, e.1)
  have hlisted : listed.Pairwise fun a b => cmp a.1 b.1 = .lt := by
    refine List.pairwise_map.mpr ?_
    refine List.pairwise_iff_getElem.mpr fun i j hi hj hij => ?_
    simpa using hmono i j hij
  have hmem : ∀ a, a ∈ keyedScan m p ↔ a ∈ listed := by
    rintro ⟨k, b⟩
    simp only [mem_keyedScan, listed, List.mem_map, Prod.mk.injEq, Prod.exists,
      List.mem_zipIdx_iff_getElem?]
    constructor
    · rintro ⟨v, hv, hb⟩
      obtain ⟨i, rfl, hi⟩ := hsound k v b hv hb
      exact ⟨b, i, hi, rfl, rfl⟩
    · rintro ⟨b', i, hi, rfl, rfl⟩
      exact hcomplete i b' hi
  have hl : listed.map Prod.snd = l := by
    simp [listed, List.map_map, Function.comp_def, List.zipIdx_map_fst]
  rw [collect_eq_map_keyedScan, keyedScan_eq hlisted hmem, hl]

omit [LawfulEqCmp cmp] in
theorem pairwise_collect {β : Type w} {m : ExtDTreeMap K V cmp} {p : (k : K) → V k → Option β}
    {R : β → β → Prop} (h : ∀ k k' v v' b b', cmp k k' = .lt → p k v = some b →
      p k' v' = some b' → R b b') : (collect m p).Pairwise R := by
  refine (ExtDTreeMap.ordered_keys_toList (t := m)).filterMap _ ?_
  intro e e' hlt b hb b' hb'
  exact h _ _ _ _ b b' hlt hb hb'

/-- A scan only depends on the entries it selects. -/
theorem collect_congr {β : Type w} {m m' : ExtDTreeMap K V cmp} {p : (k : K) → V k → Option β}
    (h : ∀ k v b, p k v = some b → (m.get? k = some v ↔ m'.get? k = some v)) :
    collect m p = collect m' p := by
  have hmem : ∀ a, a ∈ keyedScan m p ↔ a ∈ keyedScan m' p := by
    rintro ⟨k, b⟩
    simp only [mem_keyedScan]
    exact exists_congr fun v => and_congr_left fun hb => h k v b hb
  rw [collect_eq_map_keyedScan, collect_eq_map_keyedScan,
    keyedScan_eq (pairwise_keyedScan m' p) hmem]

end Apply

end EvmGateway.Lib
