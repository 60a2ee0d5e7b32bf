import Mathlib.Data.Nat.Init
import Mathlib.Order.Basic
import Mathlib.Order.RelClasses

/-!
# Interleaved processes

A concurrent system is a partial step function: `step s a` is the state after the action
`a`, or nothing where the action is not possible.  Every action belongs to a process, and
a schedule is a choice of actions, so that a statement about all runs is a statement
about all interleavings.

Safety is proved with `Reachable.invariant`.  Progress is proved along an `Execution`, a
run without end, in which a process that can always act eventually does (`WeaklyFair`).
The rule for it is `Execution.eventually_of_rank`: as long as the goal is not reached, a
rank never rises, and in every state some helpful process can act and lowers it.

## Main definitions

* `Reachable step s₀ s` — some run leads from `s₀` to `s`.
* `perform step s l` — the state after the actions `l`.
* `Execution step` — an infinite run, which may idle.
* `Enabled`, `Execution.WeaklyFair` — what a scheduler owes a process.
* `Execution.ofRun` — a list of actions as an execution that comes to rest.
-/

namespace EvmGateway.Lib

universe u v w x

variable {σ : Type u} {α : Type v} {ι : Type w} {step : σ → α → Option σ} {s₀ s : σ}

/-! ## Finite runs -/

/-- The states some run leads to. -/
inductive Reachable (step : σ → α → Option σ) (s₀ : σ) : σ → Prop
  | init : Reachable step s₀ s₀
  | step {s s' : σ} (a : α) (hs : Reachable step s₀ s) (h : step s a = some s') :
      Reachable step s₀ s'

theorem Reachable.invariant {I : σ → Prop} (h : Reachable step s₀ s) (hinit : I s₀)
    (hstep : ∀ s s' a, I s → step s a = some s' → I s') : I s := by
  induction h with
  | init => exact hinit
  | step a _ hs ih => exact hstep _ _ a ih hs

/-- The states of the runs whose actions are all admitted where they are taken. -/
inductive ReachableWith (step : σ → α → Option σ) (ok : σ → α → Prop) (s₀ : σ) : σ → Prop
  | init : ReachableWith step ok s₀ s₀
  | step {s s' : σ} (a : α) (hs : ReachableWith step ok s₀ s) (hok : ok s a)
      (h : step s a = some s') : ReachableWith step ok s₀ s'

theorem ReachableWith.invariant {ok : σ → α → Prop} {I : σ → Prop}
    (h : ReachableWith step ok s₀ s) (hinit : I s₀)
    (hstep : ∀ s s' a, I s → ok s a → step s a = some s' → I s') : I s := by
  induction h with
  | init => exact hinit
  | step a _ hok hs ih => exact hstep _ _ a ih hok hs

theorem ReachableWith.reachable {ok : σ → α → Prop} (h : ReachableWith step ok s₀ s) :
    Reachable step s₀ s := by
  induction h with
  | init => exact .init
  | step a _ _ hs ih => exact ih.step a hs

/-- Perform actions in order. -/
def perform (step : σ → α → Option σ) (s : σ) : List α → Option σ
  | [] => some s
  | a :: l => (step s a).bind fun s' => perform step s' l

/-- What a list of actions leads to is reachable. -/
theorem Reachable.perform {l : List α} {s' : σ} (hs : Reachable step s₀ s)
    (h : perform step s l = some s') : Reachable step s₀ s' := by
  induction l generalizing s with
  | nil =>
    obtain rfl := Option.some.inj h
    exact hs
  | cons a l ih =>
    obtain ⟨s₁, h₁, h⟩ := Option.bind_eq_some_iff.mp h
    exact ih (hs.step a h₁) h

theorem perform_append (l m : List α) :
    perform step s (l ++ m) = (perform step s l).bind fun s' => perform step s' m := by
  induction l generalizing s with
  | nil => rfl
  | cons a l ih =>
    rw [List.cons_append, perform, perform, Option.bind_assoc]
    exact congrArg _ (funext fun s' => ih)

theorem perform_take_isSome {l : List α} (h : (perform step s l).isSome = true) (t : ℕ) :
    (perform step s (l.take t)).isSome = true := by
  rw [← List.take_append_drop t l, perform_append] at h
  exact Option.isSome_of_isSome_bind h

/-! ## Runs that end -/

/-- No action is possible. -/
def Final (step : σ → α → Option σ) (s : σ) : Prop := ∀ a, step s a = none

theorem exists_step_of_not_final (h : ¬ Final step s) : ∃ a s', step s a = some s' := by
  simp only [Final, not_forall] at h
  obtain ⟨a, ha⟩ := h
  exact ⟨a, Option.ne_none_iff_exists'.mp ha⟩

/-- If every action lowers a rank, some run leads to a state without actions. -/
theorem exists_final (rank : σ → ℕ) (hrank : ∀ s s' a, step s a = some s' → rank s' < rank s)
    (s : σ) : ∃ l s', perform step s l = some s' ∧ Final step s' := by
  induction hr : rank s using Nat.strong_induction_on generalizing s with
  | _ r ih =>
    by_cases hfinal : Final step s
    · exact ⟨[], s, rfl, hfinal⟩
    · obtain ⟨a, s₁, h₁⟩ := exists_step_of_not_final hfinal
      obtain ⟨l, s', hl, hs'⟩ := ih _ (hr ▸ hrank _ _ a h₁) s₁ rfl
      exact ⟨a :: l, s', by rw [EvmGateway.Lib.perform, h₁, Option.bind_some, hl], hs'⟩

/-! ## Infinite runs -/

/-- A run without end.  At a time without an action nothing changes. -/
structure Execution (step : σ → α → Option σ) where
  state : ℕ → σ
  action : ℕ → Option α
  next : ∀ t a, action t = some a → step (state t) a = some (state (t + 1))
  idle : ∀ t, action t = none → state (t + 1) = state t

/-- Some action of the process is possible. -/
def Enabled (step : σ → α → Option σ) (owner : α → ι) (p : ι) (s : σ) : Prop :=
  ∃ a, owner a = p ∧ (step s a).isSome

namespace Execution

variable (ρ : Execution step)

/-- A process that can act from some time on eventually acts. -/
def WeaklyFair (owner : α → ι) (p : ι) : Prop :=
  ∀ t, (∀ u, t ≤ u → Enabled step owner p (ρ.state u)) →
    ∃ u, t ≤ u ∧ ∃ a, ρ.action u = some a ∧ owner a = p

/-- A process that can act again and again eventually acts. -/
def StronglyFair (owner : α → ι) (p : ι) : Prop :=
  ∀ t, (∀ u, t ≤ u → ∃ v, u ≤ v ∧ Enabled step owner p (ρ.state v)) →
    ∃ u, t ≤ u ∧ ∃ a, ρ.action u = some a ∧ owner a = p

/-- As long as something can happen, something eventually does. -/
def NeverStalls : Prop := ∀ t, ¬ Final step (ρ.state t) → ∃ u, t ≤ u ∧ ρ.action u ≠ none

variable {ρ}

/-- The states of an execution are reachable from its first one. -/
theorem reachable (t : ℕ) : Reachable step (ρ.state 0) (ρ.state t) := by
  induction t with
  | zero => exact .init
  | succ t ih =>
    cases ha : ρ.action t with
    | none =>
      rw [ρ.idle t ha]
      exact ih
    | some a => exact ih.step a (ρ.next t a ha)

/-- What an action keeps, the passing of time keeps. -/
theorem stable {P : σ → Prop} {t : ℕ}
    (hstep : ∀ u a, t ≤ u → ρ.action u = some a → P (ρ.state u) → P (ρ.state (u + 1)))
    (ht : P (ρ.state t)) : ∀ u, t ≤ u → P (ρ.state u) := by
  intro u hu
  induction u, hu using Nat.le_induction with
  | base => exact ht
  | succ u hu ih =>
    cases ha : ρ.action u with
    | none =>
      rw [ρ.idle u ha]
      exact ih
    | some a => exact hstep u a hu ha ih

theorem reachableWith {ok : σ → α → Prop}
    (hok : ∀ t a, ρ.action t = some a → ok (ρ.state t) a) (t : ℕ) :
    ReachableWith step ok (ρ.state 0) (ρ.state t) := by
  induction t with
  | zero => exact .init
  | succ t ih =>
    cases ha : ρ.action t with
    | none =>
      rw [ρ.idle t ha]
      exact ih
    | some a => exact ih.step a (hok t a ha) (ρ.next t a ha)

/-- **Strong fairness.**  If only the process itself can end `P`, and it can act again and again
as long as `P` holds, then it acts while `P` holds. -/
theorem StronglyFair.acts {owner : α → ι} {p : ι} {P : σ → Prop} {t : ℕ}
    (hfair : ρ.StronglyFair owner p)
    (hkeep : ∀ u a, t ≤ u → ρ.action u = some a → owner a ≠ p → P (ρ.state u) →
      P (ρ.state (u + 1)))
    (henabled : ∀ u, t ≤ u → (∀ v, u ≤ v → P (ρ.state v)) →
      ∃ v, u ≤ v ∧ Enabled step owner p (ρ.state v))
    (ht : P (ρ.state t)) :
    ∃ u, t ≤ u ∧ P (ρ.state u) ∧ ∃ a, ρ.action u = some a ∧ owner a = p := by
  by_contra hnever
  simp only [not_exists, not_and] at hnever
  have hall : ∀ u, t ≤ u → P (ρ.state u) :=
    stable (fun u a hu ha hP => hkeep u a hu ha (hnever u hu hP a ha) hP) ht
  obtain ⟨u, hu, a, ha, howner⟩ := hfair t fun u hu =>
    henabled u hu fun v hv => hall v (by omega)
  exact hnever u hu (hall u hu) a ha howner

section Rank

variable {β : Type x} [LT β] [WellFoundedLT β] {P Q : σ → Prop} {t₀ : ℕ}

/-- A rank that can always be lowered leads to the goal. -/
theorem eventually_of_decreasing (rank : σ → β)
    (hdec : ∀ t, t₀ ≤ t → P (ρ.state t) →
      ∃ u, t ≤ u ∧ (Q (ρ.state u) ∨ P (ρ.state u) ∧ rank (ρ.state u) < rank (ρ.state t)))
    (hP : P (ρ.state t₀)) : ∃ t, t₀ ≤ t ∧ Q (ρ.state t) := by
  have hall : ∀ (r : β) (t : ℕ), t₀ ≤ t → P (ρ.state t) → rank (ρ.state t) = r →
      ∃ u, t ≤ u ∧ Q (ρ.state u) := by
    intro r
    induction r using WellFoundedLT.induction with
    | ind r ih =>
      rintro t ht hPt rfl
      obtain ⟨u, hu, hQ | ⟨hPu, hlt⟩⟩ := hdec t ht hPt
      · exact ⟨u, hu, hQ⟩
      · obtain ⟨v, hv, hQ⟩ := ih _ hlt u (by omega) hPu rfl
        exact ⟨v, by omega, hQ⟩
  exact hall _ t₀ (Nat.le_refl t₀) hP rfl

/-- **Progress.**  While the goal is not reached, every action keeps `P` and either lowers
the rank or leaves it to the same helpful process, which has not acted; the helpful process
can act.  Then the goal is reached. -/
theorem eventually_of_rank (owner : α → ι) (rank : σ → β) (helper : σ → ι)
    (hfair : ∀ s, P s → ρ.WeaklyFair owner (helper s))
    (henabled : ∀ s, P s → Enabled step owner (helper s) s)
    (hstep : ∀ t a, t₀ ≤ t → ρ.action t = some a → P (ρ.state t) →
      Q (ρ.state (t + 1)) ∨ P (ρ.state (t + 1)) ∧ (rank (ρ.state (t + 1)) < rank (ρ.state t) ∨
        rank (ρ.state (t + 1)) = rank (ρ.state t) ∧
          helper (ρ.state (t + 1)) = helper (ρ.state t) ∧ owner a ≠ helper (ρ.state t)))
    (hP : P (ρ.state t₀)) : ∃ t, t₀ ≤ t ∧ Q (ρ.state t) := by
  refine eventually_of_decreasing rank (fun t ht hPt => ?_) hP
  by_contra hnever
  simp only [not_exists, not_and, not_or] at hnever
  -- otherwise the rank and the helpful process stay as they are, and the process never acts
  have hsame : ∀ u, t ≤ u → P (ρ.state u) ∧ rank (ρ.state u) = rank (ρ.state t) ∧
      helper (ρ.state u) = helper (ρ.state t) := by
    refine stable (P := fun s => P s ∧ rank s = rank (ρ.state t) ∧ helper s = helper (ρ.state t))
      (fun u a hu ha h => ?_) ⟨hPt, rfl, rfl⟩
    rcases hstep u a (by omega) ha h.1 with hQ | ⟨hP', hlt | ⟨hrank, hhelper, -⟩⟩
    · exact absurd hQ (hnever (u + 1) (by omega)).1
    · rw [h.2.1] at hlt
      exact absurd hlt ((hnever (u + 1) (by omega)).2 hP')
    · exact ⟨hP', hrank.trans h.2.1, hhelper.trans h.2.2⟩
  obtain ⟨u, hu, a, ha, howner⟩ := hfair _ hPt t fun u hu => by
    rw [← (hsame u hu).2.2]
    exact henabled _ (hsame u hu).1
  rcases hstep u a (by omega) ha (hsame u hu).1 with hQ | ⟨hP', hlt | ⟨-, -, hne⟩⟩
  · exact (hnever (u + 1) (by omega)).1 hQ
  · rw [(hsame u hu).2.1] at hlt
    exact (hnever (u + 1) (by omega)).2 hP' hlt
  · rw [(hsame u hu).2.2] at hne
    exact hne howner

end Rank

/-- If every action lowers a rank, an execution that never stalls comes to a state without
actions. -/
theorem NeverStalls.reaches_final (h : ρ.NeverStalls) (rank : σ → ℕ)
    (hrank : ∀ s s' a, step s a = some s' → rank s' < rank s) (t₀ : ℕ) :
    ∃ t, t₀ ≤ t ∧ Final step (ρ.state t) := by
  have hmono : ∀ t u, t ≤ u → rank (ρ.state u) ≤ rank (ρ.state t) := by
    intro t
    refine stable (P := fun s => rank s ≤ rank (ρ.state t)) (fun u a _ ha hle => ?_) (Nat.le_refl _)
    have hlt := hrank _ _ a (ρ.next u a ha)
    omega
  refine eventually_of_decreasing (P := fun _ => True) rank (fun t ht _ => ?_) trivial
  by_cases hfinal : Final step (ρ.state t)
  · exact ⟨t, Nat.le_refl t, .inl hfinal⟩
  · obtain ⟨u, hu, hact⟩ := h t hfinal
    obtain ⟨a, ha⟩ := Option.ne_none_iff_exists'.mp hact
    have hlt := hrank _ _ a (ρ.next u a ha)
    have hle := hmono t u hu
    exact ⟨u + 1, by omega, .inr ⟨trivial, by omega⟩⟩

/-! ## Runs that come to rest -/

section OfRun

variable {l : List α}

def ofRun (s₀ : σ) (l : List α) (h : (perform step s₀ l).isSome = true) : Execution step where
  state t := (perform step s₀ (l.take t)).getD s₀
  action t := l[t]?
  next t a ha := by
    obtain ⟨s₁, h₁⟩ := Option.isSome_iff_exists.mp (perform_take_isSome h t)
    obtain ⟨s₂, h₂⟩ := Option.isSome_iff_exists.mp (perform_take_isSome h (t + 1))
    have h₃ := h₂
    rw [List.take_add_one, ha, perform_append, h₁] at h₃
    rw [h₁, h₂]
    simpa [perform, Option.bind_eq_some_iff] using h₃
  idle t ha := by
    have hle : l.length ≤ t := by simpa using ha
    rw [List.take_of_length_le hle, List.take_of_length_le (by omega)]

theorem ofRun_state_of_le (h : (perform step s₀ l).isSome = true) {t : ℕ} (ht : l.length ≤ t) :
    (ofRun s₀ l h).state t = (ofRun s₀ l h).state l.length := by
  simp [ofRun, List.take_of_length_le ht]

theorem ofRun_forall {P : σ → Prop} (h : (perform step s₀ l).isSome = true)
    (hP : ∀ t ≤ l.length, P ((ofRun s₀ l h).state t)) (t : ℕ) : P ((ofRun s₀ l h).state t) := by
  by_cases ht : t ≤ l.length
  · exact hP t ht
  · rw [ofRun_state_of_le h (by omega)]
    exact hP l.length (Nat.le_refl _)

theorem ofRun_neverStalls (h : (perform step s₀ l).isSome = true)
    (hfinal : Final step ((ofRun s₀ l h).state l.length)) : (ofRun s₀ l h).NeverStalls := by
  intro t ht
  by_cases hlt : t < l.length
  · exact ⟨t, Nat.le_refl t, by simp [ofRun, hlt]⟩
  · rw [ofRun_state_of_le h (by omega)] at ht
    exact absurd hfinal ht

theorem ofRun_weaklyFair {owner : α → ι} {p : ι} (h : (perform step s₀ l).isSome = true)
    (hp : ¬ Enabled step owner p ((ofRun s₀ l h).state l.length)) :
    (ofRun s₀ l h).WeaklyFair owner p := by
  intro t ht
  have hen := ht (max t l.length) (Nat.le_max_left _ _)
  rw [ofRun_state_of_le h (Nat.le_max_right _ _)] at hen
  exact absurd hen hp

theorem ofRun_stronglyFair {owner : α → ι} {p : ι} (h : (perform step s₀ l).isSome = true)
    (hp : ¬ Enabled step owner p ((ofRun s₀ l h).state l.length)) :
    (ofRun s₀ l h).StronglyFair owner p := by
  intro t ht
  obtain ⟨v, hv, hen⟩ := ht (max t l.length) (Nat.le_max_left _ _)
  rw [ofRun_state_of_le h (Nat.le_trans (Nat.le_max_right _ _) hv)] at hen
  exact absurd hen hp

end OfRun

end Execution

end EvmGateway.Lib
