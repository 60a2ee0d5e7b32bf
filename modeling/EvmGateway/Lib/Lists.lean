import Mathlib.Data.List.Forall2
import Mathlib.Data.List.Sort

/-!
# Positions in lists

Facts about positions that the records of a block are read with: related lists are
related position by position, the position of an element in a filtered list is the
number of kept elements before it, and a sort that compares elements in the order of
their positions may break ties by position.  Ordinals along a sorted list restart with each
key, and the pairs of key and ordinal are distinct (`nodup_ordinalsFrom`).  What a search
returns is the element at the first place that passes (`find?_eq_some_iff_findIdx?`).
-/

namespace EvmGateway.Lib

variable {α β : Type*}

theorem forall₂_getElem?_left {R : α → β → Prop} {l : List α} {l' : List β}
    (h : List.Forall₂ R l l') {i : ℕ} {a : α} (ha : l[i]? = some a) :
    ∃ b, l'[i]? = some b ∧ R a b := by
  induction h generalizing i with
  | nil => simp at ha
  | cons hab _ ih =>
    cases i with
    | zero =>
      obtain rfl := Option.some.inj ha
      exact ⟨_, rfl, hab⟩
    | succ i => exact ih ha

theorem forall₂_getElem?_right {R : α → β → Prop} {l : List α} {l' : List β}
    (h : List.Forall₂ R l l') {i : ℕ} {b : β} (hb : l'[i]? = some b) :
    ∃ a, l[i]? = some a ∧ R a b :=
  forall₂_getElem?_left (R := fun b a => R a b) (List.Forall₂.flip h) hb

theorem eq_take_append_cons_drop {l : List α} {i : ℕ} {a : α} (h : l[i]? = some a) :
    l = l.take i ++ a :: l.drop (i + 1) := by
  obtain ⟨hi, rfl⟩ := List.getElem?_eq_some_iff.mp h
  rw [← List.drop_eq_getElem_cons hi, List.take_append_drop]

/-- The element at a position of a filtered list, by its position in the list. -/
theorem getElem?_filter_eq_some {p : α → Bool} {l : List α} {j : ℕ} {a : α} :
    (l.filter p)[j]? = some a ↔
      ∃ i : ℕ, l[i]? = some a ∧ p a = true ∧ (l.take i).countP p = j := by
  induction l generalizing j with
  | nil => simp
  | cons b l ih =>
    by_cases hb : p b = true
    · cases j with
      | zero =>
        rw [List.filter_cons_of_pos hb]
        constructor
        · intro h
          obtain rfl : b = a := by simpa using h
          exact ⟨0, rfl, hb, rfl⟩
        · intro h
          obtain ⟨i, hi, -, hc⟩ := h
          cases i with
          | zero => simpa using hi
          | succ i => simp [hb] at hc
      | succ j =>
        rw [List.filter_cons_of_pos hb, List.getElem?_cons_succ, ih]
        constructor
        · intro h
          obtain ⟨i, hi, ha, hc⟩ := h
          exact ⟨i + 1, hi, ha, by simp [hb, hc]⟩
        · intro h
          obtain ⟨i, hi, ha, hc⟩ := h
          cases i with
          | zero => simp at hc
          | succ i => exact ⟨i, hi, ha, by simpa [hb] using hc⟩
    · rw [List.filter_cons_of_neg hb, ih]
      constructor
      · intro h
        obtain ⟨i, hi, ha, hc⟩ := h
        exact ⟨i + 1, hi, ha, by simpa [hb] using hc⟩
      · intro h
        obtain ⟨i, hi, ha, hc⟩ := h
        cases i with
        | zero =>
          obtain rfl : b = a := by simpa using hi
          exact absurd ha hb
        | succ i => exact ⟨i, hi, ha, by simpa [hb] using hc⟩

/-- Two orders that agree on what is compared insert at the same place. -/
theorem orderedInsert_congr {r s : α → α → Prop} [DecidableRel r] [DecidableRel s] {a : α}
    {l : List α} (h : ∀ b ∈ l, r a b ↔ s a b) : l.orderedInsert r a = l.orderedInsert s a := by
  induction l with
  | nil => rfl
  | cons b l ih =>
    rw [List.orderedInsert_cons, List.orderedInsert_cons, ih fun c hc => h c (by simp [hc])]
    by_cases hab : r a b
    · rw [if_pos hab, if_pos ((h b (by simp)).mp hab)]
    · rw [if_neg hab, if_neg fun hs => hab ((h b (by simp)).mpr hs)]

theorem insertionSort_congr {r s : α → α → Prop} [DecidableRel r] [DecidableRel s] {l : List α}
    (h : l.Pairwise fun a b => r a b ↔ s a b) : l.insertionSort r = l.insertionSort s := by
  induction l with
  | nil => rfl
  | cons a l ih =>
    rw [List.pairwise_cons] at h
    rw [List.insertionSort_cons, List.insertionSort_cons, ih h.2]
    exact orderedInsert_congr fun b hb => h.1 b ((List.mem_insertionSort s).mp hb)

theorem map_fst_filter_zipIdx (p : α → Bool) (l : List α) (i : ℕ) :
    ((l.zipIdx i).filter fun e => p e.1).map Prod.fst = l.filter p := by
  rw [show (fun e : α × ℕ => p e.1) = p ∘ Prod.fst from rfl, ← List.filter_map,
    List.zipIdx_map_fst]

theorem flatMap_fst_zipIdx {β : Type*} (f : α → List β) (l : List α) (i : ℕ) :
    ((l.zipIdx i).flatMap fun e => f e.1) = l.flatMap f := by
  conv_rhs => rw [← List.zipIdx_map_fst i l, List.flatMap_map]

theorem take_zipIdx (l : List α) (i n : ℕ) : (l.zipIdx i).take n = (l.take n).zipIdx i := by
  ext1 k
  rw [List.getElem?_take, List.getElem?_zipIdx, List.getElem?_zipIdx, List.getElem?_take]
  split_ifs <;> rfl

/-- Positions grow along a list. -/
theorem pairwise_snd_zipIdx (l : List α) (i : ℕ) :
    (l.zipIdx i).Pairwise fun a b => a.2 < b.2 := by
  induction l generalizing i with
  | nil => exact .nil
  | cons a l ih =>
    rw [List.zipIdx_cons]
    refine .cons (fun b hb => ?_) (ih (i + 1))
    have := List.le_snd_of_mem_zipIdx hb
    omega

theorem pairwise_snd_filter_zipIdx (p : α × ℕ → Bool) (l : List α) (i : ℕ) :
    ((l.zipIdx i).filter p).Pairwise fun a b => a.2 < b.2 :=
  (pairwise_snd_zipIdx l i).filter p

theorem nodup_of_countP_mem_eq_length [DecidableEq α] {l l' : List α} (hl' : l'.Nodup)
    (h : l'.countP (· ∈ l) = l.length) : l.Nodup ∧ l ⊆ l' := by
  have hsub : l'.filter (· ∈ l) ⊆ l := fun a ha => by simpa using (List.mem_filter.mp ha).2
  rw [List.countP_eq_length_filter] at h
  have hperm := (List.subperm_of_subset (hl'.filter _) hsub).perm_of_length_le h.ge
  refine ⟨hperm.nodup_iff.mp (hl'.filter _), fun a ha => ?_⟩
  exact (List.mem_filter.mp (hperm.mem_iff.mpr ha)).1

theorem countP_mem_eq_length_iff [DecidableEq α] {l l' : List α} (hl : l.Nodup) (hl' : l'.Nodup) :
    l'.countP (· ∈ l) = l.length ↔ l ⊆ l' := by
  constructor
  · intro h
    exact (nodup_of_countP_mem_eq_length hl' h).2
  · intro h
    have hsub : l'.filter (· ∈ l) ⊆ l := fun a ha => by simpa using (List.mem_filter.mp ha).2
    have hsub' : l ⊆ l'.filter (· ∈ l) :=
      fun a ha => List.mem_filter.mpr ⟨h ha, by simpa using ha⟩
    rw [List.countP_eq_length_filter]
    exact le_antisymm (List.subperm_of_subset (hl'.filter _) hsub).length_le
      (List.subperm_of_subset hl hsub').length_le

/-- Numbers given in groups are consecutive exactly if each group goes on where the groups
before it stop. -/
theorem flatten_eq_range'_iff (gs : List (List ℕ)) (s : ℕ) :
    gs.flatten = List.range' s gs.flatten.length ↔ ∀ (k : ℕ) (g : List ℕ), gs[k]? = some g →
      g = List.range' (s + (gs.take k).flatten.length) g.length := by
  induction gs generalizing s with
  | nil => simp
  | cons g gs ih =>
    have hsplit : (g :: gs).flatten = List.range' s (g :: gs).flatten.length ↔
        g = List.range' s g.length ∧ gs.flatten = List.range' (s + g.length) gs.flatten.length := by
      rw [List.flatten_cons, List.length_append, ← List.range'_append_1]
      exact ⟨fun h => List.append_inj h (by simp), fun h => by rw [← h.1, ← h.2]⟩
    rw [hsplit, ih]
    constructor
    · rintro ⟨hfirst, hrest⟩ k g' hk
      cases k with
      | zero =>
        obtain rfl : g = g' := by simpa using hk
        simpa using hfirst
      | succ k =>
        have := hrest k g' hk
        rwa [Nat.add_assoc, ← List.length_append, ← List.flatten_cons, ← List.take_succ_cons] at this
    · intro h
      refine ⟨by simpa using h 0 g rfl, fun k g' hk => ?_⟩
      have := h (k + 1) g' hk
      rwa [List.take_succ_cons, List.flatten_cons, List.length_append, ← Nat.add_assoc] at this

/-! ## Ordinals within runs -/

/-- The ordinal of a key that follows `previous`: it goes on in a run of one key and restarts
with another key. -/
def nextOrdinal (previous : Option ℕ) (ordinal key : ℕ) : ℕ :=
  if previous.isSome ∧ previous ≠ some key then 0 else ordinal

@[simp] theorem nextOrdinal_some (k ordinal key : ℕ) :
    nextOrdinal (some k) ordinal key = if k = key then ordinal else 0 := by
  simp [nextOrdinal]

/-- Keys with their ordinals within runs of the same key. -/
def ordinalsFrom : Option ℕ → ℕ → List ℕ → List (ℕ × ℕ)
  | _, _, [] => []
  | previous, ordinal, key :: l =>
    (key, nextOrdinal previous ordinal key) ::
      ordinalsFrom (some key) (nextOrdinal previous ordinal key + 1) l

theorem fst_mem_of_mem_ordinalsFrom {previous : Option ℕ} {ordinal : ℕ} {l : List ℕ} {x : ℕ × ℕ}
    (h : x ∈ ordinalsFrom previous ordinal l) : x.1 ∈ l := by
  induction l generalizing previous ordinal with
  | nil => cases h
  | cons key l ih =>
    rcases List.mem_cons.mp h with rfl | h
    · exact List.mem_cons_self
    · exact List.mem_cons_of_mem _ (ih h)

/-- Ordinals stay below the number of times a key occurs. -/
theorem snd_lt_of_mem_ordinalsFrom {previous : Option ℕ} {ordinal : ℕ} {l : List ℕ} {x : ℕ × ℕ}
    (h : x ∈ ordinalsFrom previous ordinal l) :
    x.2 < nextOrdinal previous ordinal x.1 + l.count x.1 := by
  induction l generalizing previous ordinal with
  | nil => cases h
  | cons key l ih =>
    rcases List.mem_cons.mp h with rfl | h
    · simp only [List.count_cons_self]
      omega
    · have hx := ih h
      rw [nextOrdinal_some] at hx
      by_cases hkey : key = x.1
      · subst hkey
        rw [if_pos rfl] at hx
        rw [List.count_cons_self]
        omega
      · rw [if_neg hkey] at hx
        rw [List.count_cons_of_ne hkey]
        omega

/-- In a sorted list a run goes on where it was left. -/
theorem le_snd_of_mem_ordinalsFrom {k ordinal : ℕ} {l : List ℕ} (hl : (k :: l).Pairwise (· ≤ ·))
    {x : ℕ × ℕ} (h : x ∈ ordinalsFrom (some k) ordinal l) (hx : x.1 = k) : ordinal ≤ x.2 := by
  induction l generalizing ordinal with
  | nil => cases h
  | cons key l ih =>
    obtain ⟨hk, hl⟩ := List.pairwise_cons.mp hl
    have hle := hk key List.mem_cons_self
    rcases List.mem_cons.mp h with rfl | h
    · simp [show k = key from hx.symm]
    · -- a later occurrence of `k` leaves no room for another key between
      have hge := (List.pairwise_cons.mp hl).1 x.1 (fst_mem_of_mem_ordinalsFrom h)
      obtain rfl : k = key := by omega
      rw [nextOrdinal_some, if_pos rfl] at h
      exact (Nat.le_succ _).trans (ih hl h)

theorem nodup_ordinalsFrom {previous : Option ℕ} {ordinal : ℕ} {l : List ℕ}
    (hl : l.Pairwise (· ≤ ·)) : (ordinalsFrom previous ordinal l).Nodup := by
  induction l generalizing previous ordinal with
  | nil => exact .nil
  | cons key l ih =>
    refine List.nodup_cons.mpr ⟨fun hmem => ?_, ih (List.pairwise_cons.mp hl).2⟩
    exact Nat.not_succ_le_self _ (le_snd_of_mem_ordinalsFrom hl hmem rfl)

/-! ## Filtering less -/

section FilterMap

variable {α β : Type*} {f g : α → Option β} {l : List α}

theorem length_filterMap_le (h : ∀ x, f x = none ∨ f x = g x) :
    (l.filterMap f).length ≤ (l.filterMap g).length := by
  induction l with
  | nil => simp
  | cons x l ih =>
    rcases h x with hx | hx
    · cases hg : g x <;> simp [hx, hg] <;> omega
    · cases hg : g x <;> simp [hx, hg] <;> omega

/-- A map that drops one more element leaves fewer. -/
theorem length_filterMap_lt (h : ∀ x, f x = none ∨ f x = g x) {x : α} (hx : x ∈ l)
    (hf : f x = none) (hg : g x ≠ none) : (l.filterMap f).length < (l.filterMap g).length := by
  obtain ⟨l₁, l₂, rfl⟩ := List.append_of_mem hx
  obtain ⟨y, hy⟩ := Option.ne_none_iff_exists'.1 hg
  have h₁ : (l₁.filterMap f).length ≤ (l₁.filterMap g).length := length_filterMap_le h
  have h₂ : (l₂.filterMap f).length ≤ (l₂.filterMap g).length := length_filterMap_le h
  simp only [List.filterMap_append, List.filterMap_cons, hf, hy, List.length_append,
    List.length_cons]
  omega

end FilterMap

/-! ## Places -/

theorem split_of_getElem? {α : Type*} {l : List α} {i : ℕ} {x : α} (h : l[i]? = some x) :
    ∃ l₁ l₂, l = l₁ ++ x :: l₂ ∧ ∀ y, l.set i y = l₁ ++ y :: l₂ := by
  obtain ⟨hi, rfl⟩ := List.getElem?_eq_some_iff.mp h
  refine ⟨l.take i, l.drop (i + 1), ?_, fun y => List.set_eq_take_append_cons_drop.trans ?_⟩
  · rw [List.getElem_cons_drop, List.take_append_drop]
  · rw [if_pos hi]

theorem le_last_of_mem {l : List ℕ} (hsorted : l.Pairwise (· ≤ ·)) {last : ℕ}
    (hlast : l.getLast? = some last) {x : ℕ} (hx : x ∈ l) : x ≤ last := by
  obtain ⟨front, rfl⟩ := List.getLast?_eq_some_iff.mp hlast
  rcases List.mem_append.mp hx with hx | hx
  · exact (List.pairwise_append.mp hsorted).2.2 x hx last (by simp)
  · exact (List.mem_singleton.mp hx).le

/-! ## Ranges -/

/-- A bound cuts a range short. -/
theorem takeWhile_range {p : ℕ → Bool} {m c : ℕ} (h : ∀ i < m, p i = decide (i < c)) :
    (List.range m).takeWhile p = List.range (min m c) := by
  induction m with
  | zero => simp
  | succ m ih =>
    rw [List.range_succ, List.takeWhile_append, ih fun i hi => h i (by omega)]
    by_cases hm : m < c
    · rw [min_eq_left (show m + 1 ≤ c by omega), min_eq_left (show m ≤ c by omega)]
      simp [h m (by omega), hm, List.range_succ]
    · have hmin : min (m + 1) c = min m c := by omega
      by_cases hc : c = m
      · simp [hc, h m (by omega)]
      · have hne : min m c ≠ m := by omega
        simp [hmin, hne]

theorem range'_min_append (start size n : ℕ) :
    List.range' start (min size n) ++ List.range' (start + size) (n - size) =
      List.range' start n := by
  by_cases h : n ≤ size
  · simp [min_eq_right h, Nat.sub_eq_zero_of_le h]
  · rw [min_eq_left (by omega), List.range'_append_1]
    congr 1
    omega

/-- The element `find?` returns is the one at the first place. -/
theorem find?_eq_some_iff_findIdx? {f : α → Bool} {l : List α} {a : α} :
    l.find? f = some a ↔ ∃ i, l.findIdx? f = some i ∧ l[i]? = some a := by
  constructor
  · intro h
    obtain ⟨hfa, i, hi, rfl, hbefore⟩ := List.find?_eq_some_iff_getElem.mp h
    refine ⟨i, ?_, List.getElem?_eq_getElem hi⟩
    exact List.findIdx?_eq_some_iff_getElem.mpr ⟨hi, hfa, fun j hj => by simpa using hbefore j hj⟩
  · rintro ⟨i, hi, ha⟩
    obtain ⟨hlt, hfi, hbefore⟩ := List.findIdx?_eq_some_iff_getElem.mp hi
    obtain rfl : l[i] = a := by simpa [hlt] using ha
    exact List.find?_eq_some_iff_getElem.mpr
      ⟨hfi, i, hlt, rfl, fun j hj => by simpa using hbefore j hj⟩

/-- A place of an element is its first one iff the element stands at no place before. -/
theorem findIdx?_eq_some_iff_of_getElem? [DecidableEq α] {l : List α} {a : α} {i : ℕ}
    (hi : l[i]? = some a) : l.findIdx? (· == a) = some i ↔ ∀ j, j < i → l[j]? ≠ some a := by
  obtain ⟨hlt, rfl⟩ := List.getElem?_eq_some_iff.mp hi
  rw [List.findIdx?_eq_some_iff_getElem]
  constructor
  · rintro ⟨_, _, hbefore⟩ j hj heq
    obtain ⟨hjlt, heq⟩ := List.getElem?_eq_some_iff.mp heq
    exact hbefore j hj (by simpa using heq)
  · intro hbefore
    refine ⟨hlt, by simp, fun j hj heq => hbefore j hj ?_⟩
    rw [List.getElem?_eq_getElem (hj.trans hlt), beq_iff_eq.mp heq]

theorem findIdx?_eq_some_of_nodup [DecidableEq α] {l : List α} (hnd : l.Nodup) {a : α}
    {i : ℕ} (hi : l[i]? = some a) : l.findIdx? (· == a) = some i := by
  obtain ⟨hlt, rfl⟩ := List.getElem?_eq_some_iff.mp hi
  refine List.findIdx?_eq_some_iff_getElem.mpr ⟨hlt, by simp, fun j hj => ?_⟩
  rw [beq_iff_eq, hnd.getElem_inj_iff]
  omega

end EvmGateway.Lib
