import EvmGateway.Lib.Loop
import Mathlib.Data.List.Induction

/-!
# Runs of a fallible step function

`run f s l` performs the actions `l` one after another from the state `s` and stops at
the first failure.  Facts about whole runs are proved with `run_induction`: an
invariant of the actions performed so far and the state they led to.

`Throughout f s Q l` says that every state reached along a run satisfies `Q`.  It is
how an assumption about the environment is stated for a whole run, and
`run_induction_throughout` makes it available at each step.
-/

namespace EvmGateway.Lib

variable {σ α ε : Type*} {f : σ → α → Except ε σ} {s s' : σ} {l : List α}

/-- Perform actions in order. -/
def run (f : σ → α → Except ε σ) (s : σ) : List α → Except ε σ
  | [] => .ok s
  | a :: l => do
    let s' ← f s a
    run f s' l

@[simp] theorem run_nil : run f s [] = .ok s := rfl

theorem run_cons {a : α} : run f s (a :: l) = f s a >>= fun s' => run f s' l := rfl

theorem run_append (l' : List α) : run f s (l ++ l') = run f s l >>= fun s' => run f s' l' := by
  induction l generalizing s with
  | nil => rfl
  | cons a l ih =>
    rw [List.cons_append, run_cons, run_cons]
    cases h : f s a with
    | error e => rfl
    | ok s₁ => simpa using ih

/-- A run fails if one of its steps does from every state. -/
theorem run_error_of_mem {a : α} (ha : a ∈ l) (hf : ∀ s, ∃ e, f s a = .error e) :
    ∃ e, run f s l = .error e := by
  induction l generalizing s with
  | nil => cases ha
  | cons b l ih =>
    rw [run_cons]
    cases hb : f s b with
    | error e => exact ⟨e, rfl⟩
    | ok s' =>
      rcases List.mem_cons.mp ha with rfl | ha
      · obtain ⟨e, he⟩ := hf s
        rw [hb] at he
        cases he
      · exact ih ha

/-- A run that performs one more action. -/
theorem run_concat_eq_ok {a : α} :
    run f s (l ++ [a]) = .ok s' ↔ ∃ s₁, run f s l = .ok s₁ ∧ f s₁ a = .ok s' := by
  rw [run_append, bind_eq_ok]
  constructor
  · intro h
    obtain ⟨s₁, h₁, h⟩ := h
    rw [run_cons, bind_eq_ok] at h
    obtain ⟨s₂, h₂, h⟩ := h
    obtain rfl := Except.ok.inj h
    exact ⟨s₁, h₁, h₂⟩
  · intro h
    obtain ⟨s₁, h₁, h₂⟩ := h
    refine ⟨s₁, h₁, ?_⟩
    rw [run_cons, h₂]
    rfl

/-- Induction along a run: `P` holds before the first action and is kept by each. -/
theorem run_induction (P : List α → σ → Prop) (hinit : P [] s)
    (hstep : ∀ (l : List α) (a : α) (s₁ s₂ : σ), run f s l = .ok s₁ → P l s₁ → f s₁ a = .ok s₂ →
      P (l ++ [a]) s₂)
    (hrun : run f s l = .ok s') : P l s' := by
  induction l using List.reverseRecOn generalizing s' with
  | nil =>
    obtain rfl := Except.ok.inj hrun
    exact hinit
  | append_singleton l a ih =>
    obtain ⟨s₁, h₁, h₂⟩ := run_concat_eq_ok.mp hrun
    exact hstep l a s₁ s' h₁ (ih h₁) h₂

/-- Every state reached along a run satisfies `Q`. -/
def Throughout (f : σ → α → Except ε σ) (s : σ) (Q : σ → Prop) (l : List α) : Prop :=
  ∀ l₁ s₁, l₁ <+: l → run f s l₁ = .ok s₁ → Q s₁

theorem Throughout.last {Q : σ → Prop} (h : Throughout f s Q l) (hrun : run f s l = .ok s') :
    Q s' := h l s' (List.prefix_refl l) hrun

theorem Throughout.of_concat {Q : σ → Prop} {a : α} (h : Throughout f s Q (l ++ [a])) :
    Throughout f s Q l := fun l₁ s₁ hl => h l₁ s₁ (hl.trans (List.prefix_append l [a]))

/-- Induction along a run whose states all satisfy `Q`. -/
theorem run_induction_throughout {Q : σ → Prop} (P : List α → σ → Prop) (hinit : P [] s)
    (hstep : ∀ (l : List α) (a : α) (s₁ s₂ : σ), Q s₁ → Q s₂ → P l s₁ → f s₁ a = .ok s₂ →
      P (l ++ [a]) s₂)
    (hQ : Throughout f s Q l) (hrun : run f s l = .ok s') : P l s' := by
  induction l using List.reverseRecOn generalizing s' with
  | nil =>
    obtain rfl := Except.ok.inj hrun
    exact hinit
  | append_singleton l a ih =>
    obtain ⟨s₁, h₁, h₂⟩ := run_concat_eq_ok.mp hrun
    exact hstep l a s₁ s' (hQ.of_concat.last h₁) (hQ.last hrun) (ih hQ.of_concat h₁) h₂

end EvmGateway.Lib
