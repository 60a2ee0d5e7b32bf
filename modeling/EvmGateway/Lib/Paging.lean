import Mathlib.Data.List.Sort

/-!
# Reading a list page by page

A long list is handed out in pages: a call gets a continuation, answers with one page and with the
continuation of the next one, and the last page has none.  `exists_follows` is the rule for such
calls: if each continuation stands for a position and each page holds the elements from its
position on, then following the continuations comes to an end and the pages are the list.

Pages are often cut from a list that was filtered in its own memory.  `filterInPlace_eq` says that
this is filtering: what is overwritten has been read before.

## Main definitions

* `Follows` — the answers of following continuations to the end.
* `filterInPlace` — the loop that keeps elements at the front of the same memory.
-/

namespace EvmGateway.Lib

/-! ## Following continuations -/

section Following

variable {C R α : Type*} {call : ℕ → C → R → Prop} {next : R → Option C}

/-- The answers of the calls, from the `k`-th one with a continuation to the last one. -/
inductive Follows (call : ℕ → C → R → Prop) (next : R → Option C) : ℕ → C → List R → Prop
  | last {k : ℕ} {c : C} {r : R} (hcall : call k c r) (hnext : next r = none) :
      Follows call next k c [r]
  | more {k : ℕ} {c c' : C} {r : R} {rs : List R} (hcall : call k c r) (hnext : next r = some c')
      (hrest : Follows call next (k + 1) c' rs) : Follows call next k c (r :: rs)

/-- **Paging.** If continuations stand for positions, the pages followed from a position are the
rest of the list. -/
theorem exists_follows {l : List α} {n : ℕ} (hn : 0 < n) {content : R → List α}
    {At : C → ℕ → Prop}
    (hpage : ∀ k c j, At c j → ∃ r, call k c r ∧ content r = (l.drop j).take n ∧
      (j + n < l.length → ∃ c', next r = some c' ∧ At c' (j + n)) ∧
      (l.length ≤ j + n → next r = none)) :
    ∀ k c j, At c j → ∃ rs, Follows call next k c rs ∧ rs.flatMap content = l.drop j ∧
      ∀ r ∈ rs, (content r).length ≤ n := by
  -- the induction is on what is left behind the position
  have hrun : ∀ fuel k c j, l.length - j ≤ fuel → At c j → ∃ rs, Follows call next k c rs ∧
      rs.flatMap content = l.drop j ∧ ∀ r ∈ rs, (content r).length ≤ n := by
    intro fuel
    induction fuel with
    | zero =>
      intro k c j hfuel hat
      obtain ⟨r, hcall, hcontent, -, hlast⟩ := hpage k c j hat
      have hnil := List.drop_eq_nil_of_le (show l.length ≤ j by omega)
      refine ⟨[r], .last hcall (hlast (by omega)), ?_, ?_⟩
      · simp [hcontent, hnil]
      · simp [hcontent, hnil]
    | succ fuel ih =>
      intro k c j hfuel hat
      obtain ⟨r, hcall, hcontent, hmore, hlast⟩ := hpage k c j hat
      have hlen : (content r).length ≤ n := by
        rw [hcontent]
        exact List.length_take_le _ _
      by_cases hend : j + n < l.length
      · obtain ⟨c', hnext, hat'⟩ := hmore hend
        obtain ⟨rs, hrs, hflat, hsize⟩ := ih (k + 1) c' (j + n) (by omega) hat'
        refine ⟨r :: rs, .more hcall hnext hrs, ?_, List.forall_mem_cons.mpr ⟨hlen, hsize⟩⟩
        rw [List.flatMap_cons, hflat, hcontent, ← List.drop_drop, List.take_append_drop]
      · refine ⟨[r], .last hcall (hlast (not_lt.mp hend)), ?_, by simpa using hlen⟩
        simp only [List.flatMap_cons, List.flatMap_nil, List.append_nil, hcontent]
        exact List.take_of_length_le (by rw [List.length_drop]; omega)
  intro k c j hat
  exact hrun (l.length - j) k c j le_rfl hat

end Following

/-! ## Pages of a sorted list -/

/-- In a sorted list, what is not below the key of an element is what starts with it. -/
theorem filter_key_le_eq_drop {α K : Type*} [LinearOrder K] {key : α → K} {l : List α}
    (hsorted : l.Pairwise fun a b => key a < key b) {j : ℕ} {a : α} (ha : l[j]? = some a)
    {p : α → Bool} (hp : ∀ b, p b = true ↔ key a ≤ key b) : l.filter p = l.drop j := by
  induction l generalizing j with
  | nil => simp at ha
  | cons b l ih =>
    obtain ⟨hfirst, hsorted⟩ := List.pairwise_cons.mp hsorted
    cases j with
    | zero =>
      obtain rfl := Option.some.inj ha
      rw [List.drop_zero, List.filter_eq_self]
      intro c hc
      rcases List.mem_cons.mp hc with rfl | hc
      · exact (hp c).mpr le_rfl
      · exact (hp c).mpr (hfirst c hc).le
    | succ j =>
      have hlt := hfirst a (List.mem_of_getElem? ha)
      have hnot : ¬ p b = true := fun h => not_le.mpr hlt ((hp b).mp h)
      rw [List.filter_cons_of_neg hnot, ih hsorted ha, List.drop_succ_cons]

/-! ## Filtering in place -/

section InPlace

variable {α : Type*} (p : α → Bool)

/-- One step of the loop: the memory, and how much of its front is kept. -/
def keepStep (s : List α × ℕ) (i : ℕ) : List α × ℕ :=
  match s.1[i]? with
  | some a => if p a then (s.1.set s.2 a, s.2 + 1) else s
  | none => s

/-- Keep elements at the front of the memory they are read from. -/
def filterInPlace (l : List α) : List α :=
  let s := (List.range l.length).foldl (keepStep p) (l, 0)
  s.1.take s.2

variable {p} {l : List α}

/-- After `i` steps the front holds what was kept and the rest is as it was. -/
structure Kept (p : α → Bool) (l : List α) (i : ℕ) (s : List α × ℕ) : Prop where
  le : s.2 ≤ i
  length : s.1.length = l.length
  front : s.1.take s.2 = (l.take i).filter p
  rest : s.1.drop i = l.drop i

theorem Kept.step {i : ℕ} {s : List α × ℕ} (h : Kept p l i s) (hi : i < l.length) :
    Kept p l (i + 1) (keepStep p s i) := by
  have hread : s.1[i]? = some l[i] := by
    have hhead := congrArg List.head? h.rest
    rw [List.head?_drop, List.head?_drop] at hhead
    rw [hhead, List.getElem?_eq_getElem hi]
  have htake : (l.take (i + 1)).filter p = (l.take i).filter p ++ [l[i]].filter p := by
    rw [List.take_succ_eq_append_getElem hi, List.filter_append]
  have hdrop : ∀ m : List α, m.drop i = l.drop i → m.drop (i + 1) = l.drop (i + 1) := by
    intro m hm
    rw [← List.drop_drop, hm, List.drop_drop]
  have hlt : s.2 < s.1.length := by
    have := h.le
    rw [h.length]
    omega
  unfold keepStep
  rw [hread]
  dsimp only
  by_cases hp : p l[i] = true
  · rw [if_pos hp]
    refine ⟨by have := h.le; simp only; omega, by simpa using h.length, ?_, ?_⟩
    · simp only
      rw [htake, ← h.front, List.filter_cons_of_pos hp, List.filter_nil,
        List.take_succ_eq_append_getElem (by simpa using hlt), List.take_set_of_le le_rfl]
      simp
    · simp only
      rw [List.drop_set_of_lt (by have := h.le; omega)]
      exact hdrop _ h.rest
  · rw [if_neg hp]
    refine ⟨by have := h.le; omega, h.length, ?_, hdrop _ h.rest⟩
    rw [htake, ← h.front, List.filter_cons_of_neg hp, List.filter_nil, List.append_nil]

/-- **Filtering in place** is filtering. -/
theorem filterInPlace_eq (p : α → Bool) (l : List α) : filterInPlace p l = l.filter p := by
  have hrun : ∀ i, i ≤ l.length → Kept p l i ((List.range i).foldl (keepStep p) (l, 0)) := by
    intro i
    induction i with
    | zero =>
      intro _
      exact ⟨le_rfl, rfl, rfl, rfl⟩
    | succ i ih =>
      intro hi
      rw [List.range_succ, List.foldl_append]
      exact (ih (by omega)).step (by omega)
  have h := (hrun l.length le_rfl).front
  rw [List.take_length] at h
  exact h

end InPlace

end EvmGateway.Lib
