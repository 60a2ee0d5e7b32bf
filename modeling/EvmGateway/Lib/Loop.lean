import Mathlib.Data.List.Basic

/-!
# Fallible loops over a list

The loops of the modelled code walk a slice with its index, update some local
variables and may leave with an error.  `forIdx` is that shape: the body sees the
index, the element and the loop state, and the first error ends the loop.

A loop is reasoned about in three ways, each packaged once: an invariant carried
to the end (`forIdx_induction`), a simulation of one loop by another over the same
list (`forIdx_simulation`), and a relation kept by two loops that both finish
(`forIdx_relation`).  That a loop finishes at all is `forIdx_ok`.

## Main definitions

* `forIdx f i l s` — run `f i l[0]`, `f (i+1) l[1]`, … from the state `s`.
-/

namespace EvmGateway.Lib

universe u v w x

theorem bind_eq_ok {ε : Type u} {α β : Type v} {m : Except ε α} {f : α → Except ε β} {b : β} :
    (m >>= f) = .ok b ↔ ∃ a, m = .ok a ∧ f a = .ok b := by
  rcases m with e | a
  · exact ⟨nofun, fun ⟨_, h, _⟩ => nomatch h⟩
  · refine ⟨fun h => ⟨a, rfl, h⟩, ?_⟩
    rintro ⟨a', ha, h⟩
    cases ha
    exact h

theorem map_eq_ok {ε : Type u} {α β : Type v} {m : Except ε α} {f : α → β} {b : β} :
    f <$> m = .ok b ↔ ∃ a, m = .ok a ∧ f a = b := by
  cases m with
  | error e => exact ⟨nofun, fun ⟨_, h, _⟩ => nomatch h⟩
  | ok a => simp [Functor.map, Except.map]

@[simp] theorem ok_bind {ε : Type u} {α β : Type v} (a : α) (f : α → Except ε β) :
    (Except.ok a >>= f) = f a := rfl

@[simp] theorem error_bind {ε : Type u} {α β : Type v} (e : ε) (f : α → Except ε β) :
    (Except.error e >>= f) = .error e := rfl

@[simp] theorem pure_eq_ok {ε : Type u} {α : Type v} (a : α) :
    (pure a : Except ε α) = .ok a := rfl

@[simp] theorem throw_eq_error {ε : Type u} {α : Type v} (e : ε) :
    (throw e : Except ε α) = .error e := rfl

theorem exists_ok_of_isOk {ε : Type u} {α : Type v} {x : Except ε α} (h : x.isOk = true) :
    ∃ a, x = .ok a := by
  cases x with
  | error e => cases h
  | ok a => exact ⟨a, rfl⟩

/-- Calls made one after the other that all succeed. -/
theorem mapM_ok {ε : Type u} {α : Type w} {β : Type v} {f : α → Except ε β} {l : List α}
    {bs : List β} (h : l.mapM f = .ok bs) : List.Forall₂ (fun a b => f a = .ok b) l bs := by
  induction l generalizing bs with
  | nil =>
    obtain rfl : [] = bs := Except.ok.inj h
    exact .nil
  | cons a l ih =>
    rw [List.mapM_cons] at h
    obtain ⟨b, hb, h⟩ := bind_eq_ok.mp h
    obtain ⟨bs', hbs', h⟩ := bind_eq_ok.mp h
    obtain rfl := Except.ok.inj h
    exact .cons hb (ih hbs')

theorem exists_mapM_ok {ε : Type u} {α : Type w} {β : Type v} {f : α → Except ε β} {l : List α}
    (h : ∀ a ∈ l, ∃ b, f a = .ok b) : ∃ bs, l.mapM f = .ok bs := by
  induction l with
  | nil => exact ⟨[], rfl⟩
  | cons a l ih =>
    obtain ⟨b, hb⟩ := h a List.mem_cons_self
    obtain ⟨bs, hbs⟩ := ih fun a' ha' => h a' (List.mem_cons_of_mem _ ha')
    exact ⟨b :: bs, by rw [List.mapM_cons, hb, hbs]; rfl⟩

variable {ε : Type u} {α : Type w} {σ : Type v}

/-- Run the body over the list from index `i`, threading the loop state; the first
error is the result of the whole loop. -/
def forIdx (f : ℕ → α → σ → Except ε σ) : ℕ → List α → σ → Except ε σ
  | _, [], s => .ok s
  | i, a :: l, s => f i a s >>= forIdx f (i + 1) l

@[simp] theorem forIdx_nil (f : ℕ → α → σ → Except ε σ) (i : ℕ) (s : σ) :
    forIdx f i [] s = .ok s := rfl

@[simp] theorem forIdx_cons (f : ℕ → α → σ → Except ε σ) (i : ℕ) (a : α) (l : List α) (s : σ) :
    forIdx f i (a :: l) s = (f i a s >>= forIdx f (i + 1) l) := rfl

/-- **Induction along a loop.**  A predicate on (index, state) that holds at the
start and is kept by every successful pass of the body holds at the end. -/
theorem forIdx_induction {f : ℕ → α → σ → Except ε σ} (P : ℕ → σ → Prop) :
    ∀ (l : List α) (i : ℕ) (s s' : σ), P i s →
      (∀ j a t t', l[j]? = some a → P (i + j) t → f (i + j) a t = .ok t' → P (i + j + 1) t') →
      forIdx f i l s = .ok s' → P (i + l.length) s' := by
  intro l
  induction l with
  | nil =>
    intro i s s' h0 _ h
    obtain rfl : s = s' := by simpa using h
    simpa using h0
  | cons a l ih =>
    intro i s s' h0 hstep h
    obtain ⟨t, ht, hrest⟩ := bind_eq_ok.mp h
    have hnext : P (i + 1) t := hstep 0 a s t rfl h0 ht
    rw [List.length_cons, show i + (l.length + 1) = i + 1 + l.length by omega]
    refine ih (i + 1) t s' hnext ?_ hrest
    intro j b u u' hj hP hu
    rw [show i + 1 + j = i + (j + 1) by omega] at hP hu ⊢
    exact hstep (j + 1) b u u' hj hP hu

/-- Every pass of a loop that finishes has succeeded. -/
theorem forIdx_passes {f : ℕ → α → σ → Except ε σ} {l : List α} {i : ℕ} {s s' : σ}
    (h : forIdx f i l s = .ok s') {j : ℕ} {a : α} (hj : l[j]? = some a) :
    ∃ t t', f (i + j) a t = .ok t' := by
  induction l generalizing i j s with
  | nil => simp at hj
  | cons b l ih =>
    obtain ⟨t, ht, hrest⟩ := bind_eq_ok.mp h
    cases j with
    | zero =>
      obtain rfl : b = a := by simpa using hj
      exact ⟨s, t, ht⟩
    | succ j =>
      rw [show i + (j + 1) = i + 1 + j by omega]
      exact ih hrest hj

/-- A loop finishes if no pass of the body fails. -/
theorem forIdx_ok {f : ℕ → α → σ → Except ε σ} (l : List α) (i : ℕ) (s : σ)
    (hstep : ∀ j a t, l[j]? = some a → ∃ t', f (i + j) a t = .ok t') :
    ∃ s', forIdx f i l s = .ok s' := by
  induction l generalizing i s with
  | nil => exact ⟨s, rfl⟩
  | cons a l ih =>
    obtain ⟨t, ht⟩ := hstep 0 a s rfl
    rw [forIdx_cons, show f i a s = .ok t from ht]
    refine ih (i + 1) t ?_
    intro j b u hj
    rw [show i + 1 + j = i + (j + 1) by omega]
    exact hstep (j + 1) b u hj

/-- A loop with an element whose pass always fails ends in an error of some pass. -/
theorem forIdx_error {f : ℕ → α → σ → Except ε σ} {P : ε → Prop} (l : List α) (i : ℕ) (s : σ)
    (herror : ∀ j a t e, f (i + j) a t = .error e → P e)
    (hfail : ∃ j a, l[j]? = some a ∧ ∀ t, ∃ e, f (i + j) a t = .error e) :
    ∃ e, forIdx f i l s = .error e ∧ P e := by
  induction l generalizing i s with
  | nil =>
    obtain ⟨j, a, hj, -⟩ := hfail
    simp at hj
  | cons a l ih =>
    rw [forIdx_cons]
    cases hstep : f i a s with
    | error e => exact ⟨e, rfl, herror 0 a s e hstep⟩
    | ok t =>
      refine ih (i + 1) t ?_ ?_
      · intro j b u e he
        rw [show i + 1 + j = i + (j + 1) by omega] at he
        exact herror (j + 1) b u e he
      · obtain ⟨j, b, hj, hb⟩ := hfail
        cases j with
        | zero =>
          obtain rfl : a = b := by simpa using hj
          obtain ⟨e, he⟩ := hb s
          rw [Nat.add_zero, hstep] at he
          cases he
        | succ j =>
          refine ⟨j, b, hj, fun u => ?_⟩
          rw [show i + 1 + j = i + (j + 1) by omega]
          exact hb u

/-- **Loops that produce output.**  If every successful pass appends `out j a` to the
output so far, the loop appends the outputs of all elements in order. -/
theorem forIdx_output {β : Type x} {f : ℕ → α → σ → Except ε σ} (P : List β → σ → Prop)
    (out : ℕ → α → List β) (l : List α) (i : ℕ) (s s' : σ) (bs : List β) (h0 : P bs s)
    (hstep : ∀ j a t t' bs, l[j]? = some a → P bs t → f (i + j) a t = .ok t' →
      P (bs ++ out (i + j) a) t')
    (h : forIdx f i l s = .ok s') : P (bs ++ (l.zipIdx i).flatMap fun e => out e.2 e.1) s' := by
  induction l generalizing i s bs with
  | nil =>
    obtain rfl : s = s' := by simpa using h
    simpa using h0
  | cons a l ih =>
    obtain ⟨t, ht, hrest⟩ := bind_eq_ok.mp h
    rw [List.zipIdx_cons, List.flatMap_cons, ← List.append_assoc]
    refine ih (i + 1) t _ (hstep 0 a s t bs rfl h0 ht) ?_ hrest
    intro j b u u' bs hj hP hu
    rw [show i + 1 + j = i + (j + 1) by omega] at hu ⊢
    exact hstep (j + 1) b u u' bs hj hP hu

/-- **Simulation.**  If every successful pass of `f` is matched by a successful pass
of `g` that keeps the relation, a successful loop over `f` is matched by a
successful loop over `g`. -/
theorem forIdx_simulation {ε' : Type u} {τ : Type x} {f : ℕ → α → σ → Except ε σ}
    {g : ℕ → α → τ → Except ε' τ} (R : ℕ → σ → τ → Prop) :
    ∀ (l : List α) (i : ℕ) (s s' : σ) (t : τ), R i s t →
      (∀ j a u u' v, l[j]? = some a → R (i + j) u v → f (i + j) a u = .ok u' →
        ∃ v', g (i + j) a v = .ok v' ∧ R (i + j + 1) u' v') →
      forIdx f i l s = .ok s' → ∃ t', forIdx g i l t = .ok t' ∧ R (i + l.length) s' t' := by
  intro l
  induction l with
  | nil =>
    intro i s s' t h0 _ h
    obtain rfl : s = s' := by simpa using h
    exact ⟨t, rfl, by simpa using h0⟩
  | cons a l ih =>
    intro i s s' t h0 hstep h
    obtain ⟨u, hu, hrest⟩ := bind_eq_ok.mp h
    obtain ⟨v, hv, hR⟩ := hstep 0 a s u t rfl h0 hu
    rw [List.length_cons, show i + (l.length + 1) = i + 1 + l.length by omega, forIdx_cons,
      show g i a t = .ok v from hv]
    refine ih (i + 1) u s' v hR ?_ hrest
    intro j b u u' v hj hP hu
    rw [show i + 1 + j = i + (j + 1) by omega] at hP hu ⊢
    exact hstep (j + 1) b u u' v hj hP hu

/-- **Two loops in step.**  A relation kept by every pair of successful passes holds
at the end of two successful loops over the same list. -/
theorem forIdx_relation {ε' : Type u} {τ : Type x} {f : ℕ → α → σ → Except ε σ}
    {g : ℕ → α → τ → Except ε' τ} (R : ℕ → σ → τ → Prop) (l : List α) (i : ℕ) (s s' : σ) (t t' : τ)
    (h0 : R i s t)
    (hstep : ∀ j a u u' v v', l[j]? = some a → R (i + j) u v → f (i + j) a u = .ok u' →
      g (i + j) a v = .ok v' → R (i + j + 1) u' v')
    (hf : forIdx f i l s = .ok s') (hg : forIdx g i l t = .ok t') : R (i + l.length) s' t' := by
  induction l generalizing i s t with
  | nil =>
    obtain rfl : s = s' := by simpa using hf
    obtain rfl : t = t' := by simpa using hg
    simpa using h0
  | cons a l ih =>
    obtain ⟨u, hu, hf'⟩ := bind_eq_ok.mp hf
    obtain ⟨v, hv, hg'⟩ := bind_eq_ok.mp hg
    rw [List.length_cons, show i + (l.length + 1) = i + 1 + l.length by omega]
    refine ih (i + 1) u v (hstep 0 a s u t v rfl h0 hu hv) ?_ hf' hg'
    intro j b u u' v v' hj hR hu hv
    rw [show i + 1 + j = i + (j + 1) by omega] at hR hu hv ⊢
    exact hstep (j + 1) b u u' v v' hj hR hu hv

end EvmGateway.Lib
