import EvmGateway.Lib.Run

/-!
# Counted loops over machine integers

`for i := a; i <= b; i++ { ... }` with a 64-bit counter and a body that may fail.  The loop is the
run of its body over the numbers from `a` to `b`, with one exception: the condition `i <= b` holds
of every counter if `b` is the largest one.  Such a loop does not end unless its body fails.

## Main results

* `forTo_eq_run` — below the largest number the loop is the run of its body.
* `forTo_ok` — a loop that ends without an error has run its body over all numbers.
* `forTo_error` — a loop fails if the run does.
-/

namespace EvmGateway.Lib

/-! ## Intervals -/

/-- The numbers from `a` to `b`. -/
def between (a b : Int64) : List Int64 :=
  (List.range (b.toInt + 1 - a.toInt).toNat).map fun i : ℕ => Int64.ofInt (a.toInt + i)

theorem between_of_lt {a b : Int64} (h : b < a) : between a b = [] := by
  rw [Int64.lt_iff_toInt_lt] at h
  simp only [between, List.map_eq_nil_iff, List.range_eq_nil]
  omega

theorem toInt_add_one {a b : Int64} (h : a < b) : (a + 1).toInt = a.toInt + 1 := by
  rw [Int64.lt_iff_toInt_lt] at h
  have hlow := a.le_toInt
  have hhigh := b.toInt_lt
  rw [Int64.toInt_add, Int64.toInt_one, Int.bmod_eq_of_le (by omega) (by omega)]

theorem between_cons {a b : Int64} (h : a ≤ b) (hb : a < Int64.maxValue) :
    between a b = a :: between (a + 1) b := by
  have hsucc := toInt_add_one hb
  rw [Int64.le_iff_toInt_le] at h
  have hlen : (b.toInt + 1 - a.toInt).toNat = (b.toInt + 1 - (a + 1).toInt).toNat + 1 := by
    omega
  rw [between, between, hlen, List.range_succ_eq_map, List.map_cons, List.map_map, hsucc]
  congr 1
  · simp
  · refine List.map_congr_left fun i _ => ?_
    simp only [Function.comp_apply]
    congr 1
    push_cast
    omega

theorem between_of_not_lt {a b : Int64} (h : a ≤ b) (ha : ¬ a < Int64.maxValue) :
    between a b = [a] := by
  have hmax : Int64.maxValue ≤ a := by simpa using ha
  rw [Int64.le_iff_toInt_le] at h hmax
  have hhigh := b.toInt_le
  have hone : (b.toInt + 1 - a.toInt).toNat = 1 := by omega
  simp [between, hone]

theorem mem_between {a b x : Int64} : x ∈ between a b ↔ a ≤ x ∧ x ≤ b := by
  simp only [between, List.mem_map, List.mem_range, Int64.le_iff_toInt_le]
  have hlow := a.le_toInt
  have hhigh := b.toInt_lt
  constructor
  · rintro ⟨i, hi, rfl⟩
    rw [Int64.toInt_ofInt_of_le (by omega) (by omega)]
    omega
  · rintro ⟨hax, hxb⟩
    refine ⟨(x.toInt - a.toInt).toNat, by omega, ?_⟩
    have hx : a.toInt + (x.toInt - a.toInt).toNat = x.toInt := by omega
    rw [hx, Int64.ofInt_toInt]

/-! ## Loops -/

variable {σ ε : Type} {f : σ → Int64 → Except ε σ} {b i : Int64} {s : σ}

/-- The loop from `i` to `b`; nothing if it does not end within the fuel. -/
def forTo (f : σ → Int64 → Except ε σ) (b : Int64) : ℕ → Int64 → σ → Option (Except ε σ)
  | 0, _, _ => none
  | fuel + 1, i, s =>
    if i ≤ b then
      match f s i with
      | .error e => some (.error e)
      | .ok s' => forTo f b fuel (i + 1) s'
    else some (.ok s)

theorem forTo_of_lt (fuel : ℕ) (h : b < i) : forTo f b (fuel + 1) i s = some (.ok s) := by
  simp [forTo, Int64.not_le.mpr h]

theorem forTo_of_ok (fuel : ℕ) (h : i ≤ b) {s' : σ} (hf : f s i = .ok s') :
    forTo f b (fuel + 1) i s = forTo f b fuel (i + 1) s' := by
  simp [forTo, h, hf]

theorem forTo_of_error (fuel : ℕ) (h : i ≤ b) {e : ε} (hf : f s i = .error e) :
    forTo f b (fuel + 1) i s = some (.error e) := by
  simp [forTo, h, hf]

/-- **Below the largest number** the loop ends, and is the run of its body. -/
theorem forTo_eq_run (hb : b < Int64.maxValue) {fuel : ℕ}
    (hfuel : (between i b).length < fuel) :
    forTo f b fuel i s = some (run f s (between i b)) := by
  induction fuel generalizing i s with
  | zero => omega
  | succ fuel ih =>
    by_cases hlt : b < i
    · rw [forTo_of_lt fuel hlt, between_of_lt hlt, run_nil]
    · have hle : i ≤ b := by simpa using hlt
      have hi : i < Int64.maxValue := Int64.lt_of_le_of_lt hle hb
      rw [between_cons hle hi, run_cons]
      cases hf : f s i with
      | error e => exact forTo_of_error fuel hle hf
      | ok s' =>
        rw [forTo_of_ok fuel hle hf]
        refine ih ?_
        rw [between_cons hle hi, List.length_cons] at hfuel
        omega

/-- A loop up to the largest number ends with an error only. -/
theorem lt_maxValue_of_forTo_ok {fuel : ℕ} {s' : σ} (h : forTo f b fuel i s = some (.ok s')) :
    b < Int64.maxValue := by
  induction fuel generalizing i s with
  | zero => cases h
  | succ fuel ih =>
    by_cases hlt : b < i
    · exact Int64.lt_of_lt_of_le hlt i.le_maxValue
    · have hle : i ≤ b := by simpa using hlt
      cases hf : f s i with
      | error e =>
        rw [forTo_of_error fuel hle hf] at h
        cases h
      | ok s₁ =>
        rw [forTo_of_ok fuel hle hf] at h
        exact ih h

/-- More fuel does not change the result. -/
theorem forTo_mono {fuel fuel' : ℕ} (hle : fuel ≤ fuel') {r : Except ε σ}
    (h : forTo f b fuel i s = some r) : forTo f b fuel' i s = some r := by
  induction fuel generalizing fuel' i s with
  | zero => cases h
  | succ fuel ih =>
    obtain ⟨fuel', rfl⟩ : ∃ n, fuel' = n + 1 := ⟨fuel' - 1, by omega⟩
    by_cases hlt : b < i
    · rw [forTo_of_lt fuel hlt] at h
      rwa [forTo_of_lt fuel' hlt]
    · have hle' : i ≤ b := by simpa using hlt
      cases hf : f s i with
      | error e =>
        rw [forTo_of_error fuel hle' hf] at h
        rwa [forTo_of_error fuel' hle' hf]
      | ok s₁ =>
        rw [forTo_of_ok fuel hle' hf] at h
        rw [forTo_of_ok fuel' hle' hf]
        exact ih (by omega) h

/-- **A loop that ends without an error** has run its body over all numbers. -/
theorem forTo_ok {fuel : ℕ} {s' : σ} (h : forTo f b fuel i s = some (.ok s')) :
    run f s (between i b) = .ok s' := by
  have hb := lt_maxValue_of_forTo_ok h
  have hmore := forTo_mono (Nat.le_add_right fuel ((between i b).length + 1)) h
  rw [forTo_eq_run hb (by omega)] at hmore
  exact Option.some.inj hmore

/-- **A loop fails** if the run does. -/
theorem forTo_error {e : ε} (h : run f s (between i b) = .error e) {fuel : ℕ}
    (hfuel : (between i b).length < fuel) : forTo f b fuel i s = some (.error e) := by
  induction fuel generalizing i s with
  | zero => omega
  | succ fuel ih =>
    by_cases hlt : b < i
    · rw [between_of_lt hlt] at h
      cases h
    · have hle : i ≤ b := by simpa using hlt
      by_cases hi : i < Int64.maxValue
      · rw [between_cons hle hi, List.length_cons] at hfuel
        rw [between_cons hle hi, run_cons] at h
        cases hf : f s i with
        | error e' =>
          rw [hf] at h
          obtain rfl := Except.error.inj h
          exact forTo_of_error fuel hle hf
        | ok s' =>
          rw [hf] at h
          rw [forTo_of_ok fuel hle hf]
          exact ih h (by omega)
      · rw [between_of_not_lt hle hi, run_cons] at h
        cases hf : f s i with
        | error e' =>
          rw [hf] at h
          obtain rfl := Except.error.inj h
          exact forTo_of_error fuel hle hf
        | ok s' =>
          rw [hf] at h
          cases h

end EvmGateway.Lib
