import Mathlib

/-!
# Marks on a running balance

A run of postings moves a balance forward, and each posting leaves marks at distances
from the balance before it.  The marks need not stay within what their posting moves the
balance by.  `pairwise_marksFrom_iff` says exactly when the marks still never go down and
never pass the final balance: each posting's own marks are in order, and its last mark
leaves `room` for what comes next.

## Main definitions

* `sumsFrom b l` — the partial sums of `l`, starting from `b`.
* `Posting`, `marksFrom` — postings, and the marks a run of them leaves.
* `room`, `Covered` — how far a mark may reach, and that all marks stay within.
-/

namespace EvmGateway.Lib

/-! ## Partial sums -/

/-- The partial sums of a list, starting from a balance. -/
def sumsFrom : ℕ → List ℕ → List ℕ
  | _, [] => []
  | b, x :: l => (b + x) :: sumsFrom (b + x) l

theorem map_add_sumsFrom (a b : ℕ) (l : List ℕ) :
    (sumsFrom b l).map (a + ·) = sumsFrom (a + b) l := by
  induction l generalizing b with
  | nil => rfl
  | cons x l ih => rw [sumsFrom, sumsFrom, List.map_cons, ih, Nat.add_assoc]

theorem sumsFrom_append (b : ℕ) (l l' : List ℕ) :
    sumsFrom b (l ++ l') = sumsFrom b l ++ sumsFrom (b + l.sum) l' := by
  induction l generalizing b with
  | nil => rfl
  | cons x l ih => rw [List.cons_append, sumsFrom, sumsFrom, ih, List.sum_cons, Nat.add_assoc]; rfl

theorem le_of_mem_sumsFrom {b y : ℕ} {l : List ℕ} (h : y ∈ sumsFrom b l) :
    b ≤ y ∧ y ≤ b + l.sum := by
  induction l generalizing b with
  | nil => cases h
  | cons x l ih =>
    rw [List.sum_cons]
    rcases List.mem_cons.mp h with rfl | h
    · omega
    · have := ih h
      omega

theorem pairwise_sumsFrom (b : ℕ) (l : List ℕ) : (sumsFrom b l).Pairwise (· ≤ ·) := by
  induction l generalizing b with
  | nil => exact .nil
  | cons x l ih => exact .cons (fun y hy => (le_of_mem_sumsFrom hy).1) (ih (b + x))

theorem head?_sumsFrom (b : ℕ) (l : List ℕ) : (sumsFrom b l).head? = l.head?.map (b + ·) := by
  cases l <;> rfl

theorem getLast?_sumsFrom (b : ℕ) {l : List ℕ} (h : l ≠ []) :
    (sumsFrom b l).getLast? = some (b + l.sum) := by
  induction l generalizing b with
  | nil => exact absurd rfl h
  | cons x l ih =>
    rw [sumsFrom, List.sum_cons]
    cases l with
    | nil => rfl
    | cons y l =>
      have hlast := ih (b + x) (List.cons_ne_nil y l)
      rw [List.getLast?_cons, hlast, Option.getD_some, Nat.add_assoc]

/-! ## Postings -/

/-- A posting moves the balance by `used` and leaves marks at distances from the balance
before it. -/
structure Posting where
  used : ℕ
  marks : List ℕ

/-- The marks a run of postings leaves. -/
def marksFrom : ℕ → List Posting → List ℕ
  | _, [] => []
  | b, t :: l => t.marks.map (b + ·) ++ marksFrom (b + t.used) l

/-- The distance to the next mark, or to the final balance. -/
def room : List Posting → ℕ
  | [] => 0
  | t :: l => t.marks.head?.getD (t.used + room l)

/-- The marks of each posting are in order and its last one leaves room for what comes next. -/
def Covered : List Posting → Prop
  | [] => True
  | t :: l => t.marks.Pairwise (· ≤ ·) ∧ (∀ m ∈ t.marks.getLast?, m ≤ t.used + room l) ∧ Covered l

/-- What comes next is the next mark, or the final balance. -/
theorem head?_marksFrom (b : ℕ) (l : List Posting) :
    (marksFrom b l ++ [b + (l.map (·.used)).sum]).head? = some (b + room l) := by
  induction l generalizing b with
  | nil => rfl
  | cons t l ih =>
    rw [marksFrom, room, List.map_cons, List.sum_cons, List.append_assoc, ← Nat.add_assoc]
    cases hmarks : t.marks with
    | nil => rw [List.map_nil, List.nil_append, ih (b + t.used), List.head?_nil, Option.getD_none,
        Nat.add_assoc]
    | cons m marks => rfl

/-- In a sorted list the bounds of the head are the bounds of the list. -/
theorem le_all_iff_of_head? {l : List ℕ} (hl : l.Pairwise (· ≤ ·)) {a x : ℕ}
    (ha : l.head? = some a) : (∀ y ∈ l, x ≤ y) ↔ x ≤ a := by
  cases l with
  | nil => cases ha
  | cons y l =>
    obtain rfl : y = a := Option.some.inj ha
    refine ⟨fun h => h y List.mem_cons_self, fun h z hz => ?_⟩
    rcases List.mem_cons.mp hz with rfl | hz
    · exact h
    · exact Nat.le_trans h (List.rel_of_pairwise_cons hl hz)

/-- In a sorted list the last element bounds the list. -/
theorem all_le_iff_of_getLast? {l : List ℕ} (hl : l.Pairwise (· ≤ ·)) {b : ℕ} :
    (∀ x ∈ l, x ≤ b) ↔ ∀ m ∈ l.getLast?, m ≤ b := by
  constructor
  · exact fun h m hm => h m (List.mem_of_getLast? hm)
  · intro h x hx
    obtain ⟨init, m, rfl⟩ := List.eq_nil_or_concat' l |>.resolve_left (List.ne_nil_of_mem hx)
    have hm := h m (by simp)
    rcases List.mem_append.mp hx with hx | hx
    · exact Nat.le_trans ((List.pairwise_append.mp hl).2.2 x hx m (List.mem_singleton_self m)) hm
    · exact List.mem_singleton.mp hx ▸ hm

/-- **Marks never go down and never pass the final balance** exactly if they are covered. -/
theorem pairwise_marksFrom_iff (b : ℕ) (l : List Posting) :
    (marksFrom b l ++ [b + (l.map (·.used)).sum]).Pairwise (· ≤ ·) ↔ Covered l := by
  induction l generalizing b with
  | nil => simp [marksFrom, Covered]
  | cons t l ih =>
    have hrest := ih (b + t.used)
    have hhead := head?_marksFrom (b + t.used) l
    rw [marksFrom, Covered, List.map_cons, List.sum_cons, List.append_assoc, ← Nat.add_assoc,
      List.pairwise_append, hrest]
    have hmarks : (t.marks.map (b + ·)).Pairwise (· ≤ ·) ↔ t.marks.Pairwise (· ≤ ·) := by
      rw [List.pairwise_map]
      exact List.Pairwise.iff fun x y => Nat.add_le_add_iff_left
    rw [hmarks]
    constructor
    · intro ⟨hown, hcovered, hacross⟩
      refine ⟨hown, (all_le_iff_of_getLast? hown).mp fun m hm => ?_, hcovered⟩
      have := (le_all_iff_of_head? (hrest.mpr hcovered) hhead).mp
        (hacross (b + m) (List.mem_map_of_mem hm))
      omega
    · intro ⟨hown, hlast, hcovered⟩
      refine ⟨hown, hcovered, fun x hx => (le_all_iff_of_head? (hrest.mpr hcovered) hhead).mpr ?_⟩
      obtain ⟨m, hm, rfl⟩ := List.mem_map.mp hx
      have := (all_le_iff_of_getLast? hown).mpr hlast m hm
      omega

end EvmGateway.Lib
