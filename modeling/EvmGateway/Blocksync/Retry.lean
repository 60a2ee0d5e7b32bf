import EvmGateway.Lib.Text
import Mathlib

/-!
# Retries

A request to the node is repeated until it succeeds or has failed ten times.  A node that has not
reached the height yet is asked for as long as it takes: such a failure takes the attempt back
that the loop counts for it.  With `allowGaps`, a block the node does not have ends the loop at
once.

`fetchLoop` is the loop over a list of outcomes.  A list that ends before the loop does leaves the
loop calling.  `verdict` is what the outcomes lead to when the ones ahead of the chain's head are
left out, and `result_fetchLoop` says that the loop computes it.  The statements about sequences,
finite or infinite, are about their beginnings.

* `exists_returns_iff` — which outcome decides what the loop returns.
* `Accounts`, `accounts` — what that means for each of its results.
-/

namespace EvmGateway.Blocksync

open Lib

variable {err : Option RetryErr} {k m a : ℕ}

/-! ## Errors -/

def notFoundErr : String := "is not available"

def isNotFound (err : String) : Bool :=
  (findFirst (afterLiteral notFoundErr.toList) err.toList).isSome

/-- The expression of an error of a node that has not reached a height. -/
def aheadOfHeadHeight (cs : List Char) : Option (List Char) := do
  let cs ← afterLiteral "height ".toList cs
  let (_, cs) ← takeDigits cs
  let cs ← afterLiteral
    " must be less than or equal to the current blockchain height ".toList cs
  let (_, cs) ← takeDigits cs
  return cs

def isAheadOfChainHead (err : String) : Bool :=
  (findFirst aheadOfHeadHeight err.toList).isSome

/-- An error of `fetchWithRetry`. -/
inductive RetryErr
  /-- the error of the context -/
  | ctx
  /-- `ErrBlockUnavailable` -/
  | unavailable
  /-- an error of the request, by its text -/
  | rpc (text : String)
  deriving DecidableEq

/-! ## The loop -/

def retryAttempts : ℤ := 10

/-- What a call of the fetch function returns: no error, or the text of one. -/
abbrev Outcome := Option String

/-- What one pass of the loop leads to. -/
inductive Pass
  | returned (err : Option RetryErr)
  /-- wait, and go on with an attempt -/
  | again (attempt : ℤ)
  deriving DecidableEq

/-- The branches on the outcome of a call. -/
def retryPass (allowGaps : Bool) (attempt : ℤ) : Outcome → Pass
  | none => .returned none
  | some err =>
    -- `attempt--` and the increment of the loop
    if isAheadOfChainHead err then .again (attempt - 1 + 1)
    else if allowGaps && isNotFound err then .returned (some .unavailable)
    else if attempt = retryAttempts - 1 then .returned (some (.rpc err))
    else .again (attempt + 1)

/-- How far the loop gets. -/
inductive Fetch
  /-- it returned after a number of calls -/
  | returned (err : Option RetryErr) (calls : ℕ)
  /-- it is about to call, or in a call, at an attempt -/
  | calling (attempt : ℤ)
  deriving DecidableEq

/-- The checks at the head of the loop.  `done` says what each look at the context finds. -/
def loopHead (done : ℕ → Bool) (calls : ℕ) (attempt : ℤ) (call : Fetch) : Fetch :=
  if ¬attempt < retryAttempts then .returned none calls
  else if done (2 * calls) then .returned (some .ctx) calls
  else call

/-- The loop, after some calls, over the outcomes of the next ones. -/
def fetchLoop (done : ℕ → Bool) (allowGaps : Bool) : ℕ → ℤ → List Outcome → Fetch
  | calls, attempt, [] => loopHead done calls attempt (.calling attempt)
  | calls, attempt, outcome :: rest =>
    loopHead done calls attempt
      (match retryPass allowGaps attempt outcome with
      | .returned err => .returned err (calls + 1)
      | .again attempt =>
        if done (2 * calls + 1) then .returned (some .ctx) (calls + 1)
        else fetchLoop done allowGaps (calls + 1) attempt rest)

def fetchWithRetry (done : ℕ → Bool) (allowGaps : Bool) (outcomes : List Outcome) : Fetch :=
  fetchLoop done allowGaps 0 0 outcomes

/-- A context that is never cancelled. -/
def neverDone : ℕ → Bool := fun _ => false

/-- What the loop returned, if it did. -/
def Fetch.result : Fetch → Option (Option RetryErr)
  | .returned err _ => some err
  | .calling _ => none

/-! ## What the outcomes lead to -/

/-- Whether an outcome counts: every one does, except an error ahead of the chain's head. -/
def counts : Outcome → Bool
  | none => true
  | some err => !isAheadOfChainHead err

/-- A failure that is only counted: it does not show a gap that may be left. -/
def Tolerated (allowGaps : Bool) (outcome : Outcome) : Prop :=
  ∃ err, outcome = some err ∧ ¬(allowGaps = true ∧ isNotFound err = true)

/-- What the outcomes that count lead to, with a number of attempts left. -/
def verdict (allowGaps : Bool) : ℕ → List Outcome → Option (Option RetryErr)
  | _, [] => none
  | _, none :: _ => some none
  | left, some err :: rest =>
    if allowGaps && isNotFound err then some (some .unavailable)
    else if left ≤ 1 then some (some (.rpc err))
    else verdict allowGaps (left - 1) rest

section Loop

variable {allowGaps : Bool} {calls n : ℕ} {outcomes : List Outcome} {err : Option RetryErr}

theorem loopHead_of_lt (ha : a < 10) (call : Fetch) :
    loopHead neverDone calls a call = call := by
  have hlt : ¬¬(a : ℤ) < retryAttempts := by
    rw [not_not, retryAttempts]
    omega
  rw [loopHead, if_neg hlt]
  rfl

/-- **The loop computes the verdict** over the outcomes that count. -/
theorem result_fetchLoop (ha : a < 10) :
    (fetchLoop neverDone allowGaps calls a outcomes).result =
      verdict allowGaps (10 - a) (outcomes.filter counts) := by
  induction outcomes generalizing calls a with
  | nil =>
    rw [fetchLoop, loopHead_of_lt ha]
    rfl
  | cons outcome rest ih =>
    rw [fetchLoop, loopHead_of_lt ha]
    cases outcome with
    | none => rfl
    | some e =>
      by_cases hahead : isAheadOfChainHead e = true
      · -- the attempt is taken back
        have hcounts : counts (some e) = false := by simp [counts, hahead]
        have hback : ((a : ℤ) - 1 + 1) = a := by omega
        simp only [retryPass, if_pos hahead, hback, List.filter_cons, hcounts, Bool.false_eq_true,
          if_false, neverDone]
        exact ih ha
      · have hcounts : counts (some e) = true := by simp [counts, hahead]
        by_cases hgap : (allowGaps && isNotFound e) = true
        · simp only [retryPass, if_neg hahead, if_pos hgap, List.filter_cons, hcounts, if_true,
            verdict, Fetch.result]
        · by_cases hlast : a = 9
          · subst hlast
            simp [retryPass, hahead, hgap, hcounts, verdict, retryAttempts, Fetch.result]
          · have hattempt : ¬(a : ℤ) = retryAttempts - 1 := by
              rw [retryAttempts]
              omega
            have hsucc : ((a : ℤ) + 1) = (a + 1 : ℕ) := by push_cast; rfl
            have hleft : ¬10 - a ≤ 1 := by omega
            simp only [retryPass, if_neg hahead, if_neg hgap, if_neg hattempt, List.filter_cons,
              hcounts, if_true, verdict, if_neg hleft, neverDone, Bool.false_eq_true, if_false,
              hsucc]
            rw [ih (by omega)]
            rfl

theorem result_fetchWithRetry :
    (fetchWithRetry neverDone allowGaps outcomes).result =
      verdict allowGaps 10 (outcomes.filter counts) := result_fetchLoop (a := 0) (by omega)

/-- The last call decides what is returned.  An error of the node is that of the last attempt. -/
theorem last_call_of_returned (ha : a < 10)
    (h : fetchLoop neverDone allowGaps calls a outcomes = .returned err n) :
    ∃ (m : ℕ) (outcome : Outcome), n = calls + m + 1 ∧ outcomes[m]? = some outcome ∧
      (err = none → outcome = none) ∧
      ∀ text, err = some (.rpc text) → outcome = some text ∧
        ((outcomes.take (m + 1)).filter counts).length = 10 - a := by
  induction outcomes generalizing calls a with
  | nil =>
    rw [fetchLoop, loopHead_of_lt ha] at h
    cases h
  | cons outcome rest ih =>
    rw [fetchLoop, loopHead_of_lt ha] at h
    cases outcome with
    | none =>
      obtain ⟨rfl, rfl⟩ := Fetch.returned.inj h
      exact ⟨0, none, rfl, rfl, fun _ => rfl, nofun⟩
    | some e =>
      -- a pass that goes on, with the failures it leaves
      have hagain : ∀ (a' : ℕ), a' < 10 →
          fetchLoop neverDone allowGaps (calls + 1) a' rest = .returned err n →
          10 - a = ((([some e] : List Outcome).filter counts).length) + (10 - a') →
          ∃ (m : ℕ) (outcome : Outcome), n = calls + m + 1 ∧
            (some e :: rest)[m]? = some outcome ∧ (err = none → outcome = none) ∧
            ∀ text, err = some (.rpc text) → outcome = some text ∧
              (((some e :: rest).take (m + 1)).filter counts).length = 10 - a := by
        intro a' ha' hloop hcount
        obtain ⟨m, outcome, rfl, hget, hnil, hrpc⟩ := ih ha' hloop
        refine ⟨m + 1, outcome, by omega, hget, hnil, fun text htext => ?_⟩
        obtain ⟨houtcome, hlen⟩ := hrpc text htext
        refine ⟨houtcome, ?_⟩
        rw [List.take_succ_cons, ← List.singleton_append, List.filter_append, List.length_append,
          hlen, hcount]
      by_cases hahead : isAheadOfChainHead e = true
      · have hcounts : counts (some e) = false := by simp [counts, hahead]
        have hback : ((a : ℤ) - 1 + 1) = a := by omega
        simp only [retryPass, if_pos hahead, hback, neverDone, Bool.false_eq_true, if_false] at h
        exact hagain a ha h (by simp [hcounts])
      · have hcounts : counts (some e) = true := by simp [counts, hahead]
        by_cases hgap : (allowGaps && isNotFound e) = true
        · simp only [retryPass, if_neg hahead, if_pos hgap] at h
          obtain ⟨rfl, rfl⟩ := Fetch.returned.inj h
          exact ⟨0, some e, rfl, rfl, nofun, nofun⟩
        · by_cases hlast : a = 9
          · subst hlast
            have hattempt : ((9 : ℕ) : ℤ) = retryAttempts - 1 := rfl
            simp only [retryPass, if_neg hahead, if_neg hgap, if_pos hattempt] at h
            obtain ⟨rfl, rfl⟩ := Fetch.returned.inj h
            refine ⟨0, some e, rfl, rfl, nofun, fun text htext => ?_⟩
            obtain rfl : e = text := by simpa using htext
            exact ⟨rfl, by simp [hcounts]⟩
          · have hattempt : ¬(a : ℤ) = retryAttempts - 1 := by
              rw [retryAttempts]
              omega
            have hsucc : ((a : ℤ) + 1) = (a + 1 : ℕ) := by push_cast; rfl
            simp only [retryPass, if_neg hahead, if_neg hgap, if_neg hattempt, hsucc, neverDone,
              Bool.false_eq_true, if_false] at h
            exact hagain (a + 1) (by omega) h (by simp [hcounts]; omega)

theorem fetchLoop_append {done : ℕ → Bool} {a : ℤ} (more : List Outcome)
    (h : fetchLoop done allowGaps calls a outcomes = .returned err n) :
    fetchLoop done allowGaps calls a (outcomes ++ more) = .returned err n := by
  induction outcomes generalizing calls a with
  | nil =>
    rw [fetchLoop, loopHead] at h
    rw [List.nil_append]
    cases more <;> rw [fetchLoop, loopHead] <;> split_ifs at h ⊢ <;> exact h
  | cons outcome rest ih =>
    rw [fetchLoop, loopHead] at h
    rw [List.cons_append, fetchLoop, loopHead]
    cases hpass : retryPass allowGaps a outcome with
    | returned e =>
      simp only [hpass] at h ⊢
      exact h
    | again a' =>
      simp only [hpass] at h ⊢
      split_ifs at h ⊢ with hattempt hdone hdone'
      · exact h
      · exact h
      · exact ih h
      · exact h

end Loop

/-! ## The verdict by positions -/

/-- The outcome at a position ends the loop, with a number of attempts at the start. -/
inductive Settles (allowGaps : Bool) (left j : ℕ) : Outcome → Option RetryErr → Prop
  | success : Settles allowGaps left j none none
  | gap {text : String} (hgap : (allowGaps && isNotFound text) = true) :
      Settles allowGaps left j (some text) (some .unavailable)
  | last {text : String} (hgap : ¬(allowGaps && isNotFound text) = true) (hlast : j + 1 = left) :
      Settles allowGaps left j (some text) (some (.rpc text))

section Verdict

variable {allowGaps : Bool} {left j : ℕ} {outcomes : List Outcome} {outcome : Outcome}
  {err : Option RetryErr}

theorem tolerated_some {text : String} :
    Tolerated allowGaps (some text) ↔ ¬(allowGaps && isNotFound text) = true := by
  simp [Tolerated]

/-- One attempt less is one position less. -/
theorem settles_succ (hleft : 1 < left) :
    Settles allowGaps left (j + 1) outcome err ↔ Settles allowGaps (left - 1) j outcome err := by
  constructor
  · intro h
    cases h with
    | success => exact .success
    | gap hgap => exact .gap hgap
    | last hgap hlast => exact .last hgap (by omega)
  · intro h
    cases h with
    | success => exact .success
    | gap hgap => exact .gap hgap
    | last hgap hlast => exact .last hgap (by omega)

/-- **What is returned** is decided by the first outcome that is not tolerated, or by the last
attempt. -/
theorem verdict_eq_some_iff (hleft : 0 < left) :
    verdict allowGaps left outcomes = some err ↔
      ∃ (j : ℕ) (outcome : Outcome), j < left ∧ outcomes[j]? = some outcome ∧
        (∀ i < j, ∃ o, outcomes[i]? = some o ∧ Tolerated allowGaps o) ∧
        Settles allowGaps left j outcome err := by
  induction outcomes generalizing left with
  | nil => simp [verdict]
  | cons first rest ih =>
    constructor
    · intro h
      cases first with
      | none =>
        obtain rfl := Option.some.inj h
        exact ⟨0, none, hleft, rfl, nofun, .success⟩
      | some text =>
        rw [verdict] at h
        split_ifs at h with hgap hlast
        · obtain rfl := Option.some.inj h
          exact ⟨0, some text, hleft, rfl, nofun, .gap hgap⟩
        · obtain rfl := Option.some.inj h
          exact ⟨0, some text, hleft, rfl, nofun, .last hgap (by omega)⟩
        · obtain ⟨j, outcome, hj, hget, hbefore, hsettles⟩ := (ih (by omega)).mp h
          refine ⟨j + 1, outcome, by omega, hget, fun i hi => ?_,
            (settles_succ (by omega)).mpr hsettles⟩
          cases i with
          | zero => exact ⟨_, rfl, tolerated_some.mpr hgap⟩
          | succ i => exact hbefore i (by omega)
    · rintro ⟨j, outcome, hj, hget, hbefore, hsettles⟩
      cases j with
      | zero =>
        obtain rfl := Option.some.inj hget
        cases hsettles with
        | success => rfl
        | gap hgap => rw [verdict, if_pos hgap]
        | last hgap hlast => rw [verdict, if_neg hgap, if_pos (by omega)]
      | succ j =>
        -- the first outcome is tolerated, so it only uses up an attempt
        obtain ⟨o, ho, htol⟩ := hbefore 0 (by omega)
        obtain rfl := Option.some.inj ho
        obtain ⟨text, rfl, -⟩ := id htol
        rw [verdict, if_neg (tolerated_some.mp htol), if_neg (by omega), ih (by omega)]
        exact ⟨j, outcome, by omega, hget, fun i hi => hbefore (i + 1) (by omega),
          (settles_succ (by omega)).mp hsettles⟩

/-- With as many outcomes as attempts, something is returned. -/
theorem exists_verdict (hleft : 0 < left) (hlen : left ≤ outcomes.length) :
    ∃ err, verdict allowGaps left outcomes = some err := by
  induction outcomes generalizing left with
  | nil => simp at hlen; omega
  | cons first rest ih =>
    cases first with
    | none => exact ⟨none, rfl⟩
    | some text =>
      rw [verdict]
      split_ifs with hgap hlast
      · exact ⟨_, rfl⟩
      · exact ⟨_, rfl⟩
      · rw [List.length_cons] at hlen
        exact ih (by omega) (by omega)

end Verdict

/-! ## Sequences of outcomes -/

/-- The loop returns after some calls, whose outcomes are a beginning of the sequence. -/
def Returns (allowGaps : Bool) (s : Stream'.Seq Outcome) (err : Option RetryErr) (n : ℕ) : Prop :=
  ∃ k, fetchWithRetry neverDone allowGaps (s.take k) = .returned err n

/-- The loop has not returned after any beginning of the sequence. -/
def KeepsCalling (allowGaps : Bool) (s : Stream'.Seq Outcome) : Prop :=
  ∀ k, ∃ attempt, fetchWithRetry neverDone allowGaps (s.take k) = .calling attempt

/-- An outcome of the sequence without those that do not count, by its position. -/
def Counted (s : Stream'.Seq Outcome) (j : ℕ) (outcome : Outcome) : Prop :=
  ∃ k, ((s.take k).filter counts)[j]? = some outcome

/-- The outcome at a position is there, and so are those before it, all of them tolerated. -/
def CountedAfter (allowGaps : Bool) (s : Stream'.Seq Outcome) (j : ℕ) (outcome : Outcome) : Prop :=
  Counted s j outcome ∧ ∀ i < j, ∃ o, Counted s i o ∧ Tolerated allowGaps o

section Sequences

variable {allowGaps : Bool} {s : Stream'.Seq Outcome}

theorem take_take (h : k ≤ m) : (s.take m).take k = s.take k := by
  ext1 i
  rw [List.getElem?_take, Stream'.Seq.getElem?_take, Stream'.Seq.getElem?_take]
  by_cases hi : i < k
  · rw [if_pos hi, if_pos hi, if_pos (hi.trans_le h)]
  · rw [if_neg hi, if_neg hi]

theorem take_isPrefix (h : k ≤ m) : s.take k <+: s.take m := by
  rw [← take_take h]
  exact List.take_prefix k _

theorem getElem?_filter_take {j : ℕ} (h : k ≤ m) {outcome : Outcome}
    (hj : ((s.take k).filter counts)[j]? = some outcome) :
    ((s.take m).filter counts)[j]? = some outcome := by
  obtain ⟨t, ht⟩ := (take_isPrefix (s := s) h).filter counts
  rw [← ht]
  rw [List.getElem?_append_left (List.getElem?_eq_some_iff.mp hj).1]
  exact hj

theorem Counted.unique {j : ℕ} {o o' : Outcome} (h : Counted s j o) (h' : Counted s j o') :
    o = o' := by
  obtain ⟨k, hk⟩ := h
  obtain ⟨m, hm⟩ := h'
  have hk' := getElem?_filter_take (Nat.le_max_left k m) hk
  have hm' := getElem?_filter_take (Nat.le_max_right k m) hm
  exact Option.some.inj (hk'.symm.trans hm')

theorem result_eq_some_iff {f : Fetch} :
    f.result = some err ↔ ∃ n, f = .returned err n := by
  cases f with
  | returned e n => simp [Fetch.result]
  | calling attempt => simp [Fetch.result]

/-- The loop returns what some beginning leads to. -/
theorem exists_returns_iff_verdict :
    (∃ n, Returns allowGaps s err n) ↔
      ∃ k, verdict allowGaps 10 ((s.take k).filter counts) = some err := by
  have hresult : ∀ k, (∃ n, fetchWithRetry neverDone allowGaps (s.take k) = .returned err n) ↔
      verdict allowGaps 10 ((s.take k).filter counts) = some err := by
    intro k
    rw [← result_eq_some_iff, result_fetchWithRetry]
  constructor
  · rintro ⟨n, k, h⟩
    exact ⟨k, (hresult k).mp ⟨n, h⟩⟩
  · rintro ⟨k, h⟩
    obtain ⟨n, h⟩ := (hresult k).mpr h
    exact ⟨n, k, h⟩

/-- **What is returned**, by the positions of the outcomes that count. -/
theorem exists_returns_iff :
    (∃ n, Returns allowGaps s err n) ↔
      ∃ j < 10, ∃ outcome, CountedAfter allowGaps s j outcome ∧
        Settles allowGaps 10 j outcome err := by
  rw [exists_returns_iff_verdict]
  constructor
  · rintro ⟨k, h⟩
    obtain ⟨j, outcome, hj, hget, hbefore, hsettles⟩ := (verdict_eq_some_iff (by omega)).mp h
    refine ⟨j, hj, outcome, ⟨⟨k, hget⟩, fun i hi => ?_⟩, hsettles⟩
    obtain ⟨o, ho, htol⟩ := hbefore i hi
    exact ⟨o, ⟨k, ho⟩, htol⟩
  · rintro ⟨j, hj, outcome, ⟨⟨k, hget⟩, hbefore⟩, hsettles⟩
    refine ⟨k, (verdict_eq_some_iff (by omega)).mpr ⟨j, outcome, hj, hget, fun i hi => ?_,
      hsettles⟩⟩
    obtain ⟨o, ho, htol⟩ := hbefore i hi
    have hlt := (List.getElem?_eq_some_iff.mp hget).1
    obtain ⟨o', ho'⟩ : ∃ o', ((s.take k).filter counts)[i]? = some o' :=
      ⟨_, List.getElem?_eq_getElem (hi.trans hlt)⟩
    exact ⟨o', ho', ho.unique ⟨k, ho'⟩ ▸ htol⟩

theorem exists_returns_nil_iff :
    (∃ n, Returns allowGaps s none n) ↔ ∃ j < 10, CountedAfter allowGaps s j none := by
  rw [exists_returns_iff]
  constructor
  · rintro ⟨j, hj, outcome, hcounted, hsettles⟩
    cases hsettles
    exact ⟨j, hj, hcounted⟩
  · rintro ⟨j, hj, hcounted⟩
    exact ⟨j, hj, none, hcounted, .success⟩

theorem exists_returns_unavailable_iff :
    (∃ n, Returns allowGaps s (some .unavailable) n) ↔
      allowGaps = true ∧ ∃ j < 10, ∃ text, CountedAfter allowGaps s j (some text) ∧
        isNotFound text = true := by
  rw [exists_returns_iff]
  constructor
  · rintro ⟨j, hj, outcome, hcounted, hsettles⟩
    cases hsettles with
    | gap hgap =>
      rw [Bool.and_eq_true] at hgap
      exact ⟨hgap.1, j, hj, _, hcounted, hgap.2⟩
  · rintro ⟨hallow, j, hj, text, hcounted, hmissing⟩
    exact ⟨j, hj, some text, hcounted, .gap (by rw [hallow, hmissing]; rfl)⟩

theorem exists_returns_rpc_iff {text : String} :
    (∃ n, Returns allowGaps s (some (.rpc text)) n) ↔
      CountedAfter allowGaps s 9 (some text) ∧ Tolerated allowGaps (some text) := by
  rw [exists_returns_iff]
  constructor
  · rintro ⟨j, hj, outcome, hcounted, hsettles⟩
    cases hsettles with
    | last hgap hlast =>
      obtain rfl : j = 9 := by omega
      exact ⟨hcounted, tolerated_some.mpr hgap⟩
  · rintro ⟨hcounted, htol⟩
    exact ⟨9, by omega, some text, hcounted, .last (tolerated_some.mp htol) rfl⟩

theorem not_returns_ctx (n : ℕ) : ¬Returns allowGaps s (some .ctx) n := by
  intro h
  obtain ⟨j, hj, outcome, hcounted, hsettles⟩ := exists_returns_iff.mp ⟨n, h⟩
  cases hsettles

theorem exists_returns {outcome : Outcome} (h : Counted s 9 outcome) :
    ∃ err n, Returns allowGaps s err n := by
  obtain ⟨k, hk⟩ := h
  have hlen := (List.getElem?_eq_some_iff.mp hk).1
  obtain ⟨err, herr⟩ : ∃ err, verdict allowGaps 10 _ = some err :=
    exists_verdict (by omega) (Nat.succ_le_of_lt hlen)
  exact ⟨err, exists_returns_iff_verdict.mpr ⟨k, herr⟩⟩

theorem keepsCalling_iff : KeepsCalling allowGaps s ↔ ∀ err n, ¬Returns allowGaps s err n := by
  constructor
  · rintro h err n ⟨k, hk⟩
    obtain ⟨attempt, hcalling⟩ := h k
    rw [hk] at hcalling
    cases hcalling
  · intro h k
    cases hk : fetchWithRetry neverDone allowGaps (s.take k) with
    | returned err n => exact absurd ⟨k, hk⟩ (h err n)
    | calling attempt => exact ⟨attempt, rfl⟩

/-- The loop returns once. -/
theorem Returns.unique {err' : Option RetryErr} {n n' : ℕ} (h : Returns allowGaps s err n)
    (h' : Returns allowGaps s err' n') : err = err' ∧ n = n' := by
  obtain ⟨k, hk⟩ := h
  obtain ⟨m, hm⟩ := h'
  obtain ⟨t, ht⟩ := take_isPrefix (s := s) (Nat.le_max_left k m)
  obtain ⟨t', ht'⟩ := take_isPrefix (s := s) (Nat.le_max_right k m)
  have hk' := fetchLoop_append t hk
  have hm' := fetchLoop_append t' hm
  rw [ht] at hk'
  rw [ht'] at hm'
  exact Fetch.returned.inj (hk'.symm.trans hm')

theorem Returns.last_call {n : ℕ} (h : Returns allowGaps s err n) :
    ∃ m outcome, n = m + 1 ∧ s.get? m = some outcome ∧ (err = none → outcome = none) ∧
      ∀ text, err = some (.rpc text) → outcome = some text ∧
        ((s.take n).filter counts).length = 10 := by
  obtain ⟨k, hk⟩ := h
  obtain ⟨m, outcome, rfl, hget, hnil, hrpc⟩ := last_call_of_returned (a := 0) (by omega) hk
  rw [Stream'.Seq.getElem?_take] at hget
  split_ifs at hget with hmk
  refine ⟨m, outcome, by omega, hget, hnil, fun text htext => ?_⟩
  obtain ⟨houtcome, hlen⟩ := hrpc text htext
  refine ⟨houtcome, ?_⟩
  rw [Nat.zero_add, ← take_take (Nat.succ_le_of_lt hmk)]
  exact hlen

/-- While only errors ahead of the head occur, the loop keeps calling. -/
theorem calling_of_ahead (h : ∀ m < k, ∀ o, s.get? m = some o → counts o = false) :
    ∃ attempt, fetchWithRetry neverDone allowGaps (s.take k) = .calling attempt := by
  have hnone : (s.take k).filter counts = [] := by
    rw [List.filter_eq_nil_iff]
    intro o ho
    obtain ⟨m, hm⟩ := List.mem_iff_getElem?.mp ho
    rw [Stream'.Seq.getElem?_take] at hm
    split_ifs at hm with hlt
    rw [h m hlt o hm]
    exact Bool.false_ne_true
  cases hk : fetchWithRetry neverDone allowGaps (s.take k) with
  | returned err n =>
    have hresult := @result_fetchWithRetry allowGaps (s.take k)
    rw [hnone, hk] at hresult
    cases hresult
  | calling attempt => exact ⟨attempt, rfl⟩

/-- How the retries of a sequence of outcomes are accounted for. -/
structure Accounts (allowGaps : Bool) (s : Stream'.Seq Outcome) : Prop where
  /-- only the outcomes that count matter -/
  counted_only : ∀ s', (∀ j o, Counted s j o ↔ Counted s' j o) →
    ∀ err, (∃ n, Returns allowGaps s err n) ↔ ∃ n, Returns allowGaps s' err n
  nil : (∃ n, Returns allowGaps s none n) ↔ ∃ j < 10, CountedAfter allowGaps s j none
  unavailable : (∃ n, Returns allowGaps s (some .unavailable) n) ↔
    allowGaps = true ∧ ∃ j < 10, ∃ text, CountedAfter allowGaps s j (some text) ∧
      isNotFound text = true
  rpc : ∀ text, (∃ n, Returns allowGaps s (some (.rpc text)) n) ↔
    CountedAfter allowGaps s 9 (some text) ∧ Tolerated allowGaps (some text)
  /-- the error is that of the last call, the tenth that counts -/
  tenth : ∀ text n, Returns allowGaps s (some (.rpc text)) n →
    s.get? (n - 1) = some (some text) ∧ ((s.take n).filter counts).length = 10
  /-- no other error is returned -/
  not_ctx : ∀ n, ¬Returns allowGaps s (some .ctx) n
  returns : ∀ o, Counted s 9 o → ∃ err n, Returns allowGaps s err n
  once : ∀ err err' n n', Returns allowGaps s err n → Returns allowGaps s err' n' →
    err = err' ∧ n = n'
  /-- nil is returned after a success, which is the last call -/
  success : ∀ n, Returns allowGaps s none n → 0 < n ∧ s.get? (n - 1) = some none
  calling : ∀ k, (∀ m < k, ∀ o, s.get? m = some o → counts o = false) →
    ∃ attempt, fetchWithRetry neverDone allowGaps (s.take k) = .calling attempt
  /-- if nothing is returned, the loop keeps calling -/
  keepsCalling : (∀ err n, ¬Returns allowGaps s err n) → KeepsCalling allowGaps s

/-- **Retry accounting**, for every sequence of outcomes. -/
theorem accounts (allowGaps : Bool) (s : Stream'.Seq Outcome) : Accounts allowGaps s where
  counted_only s' hsame err := by
    have hafter : ∀ j o, CountedAfter allowGaps s j o ↔ CountedAfter allowGaps s' j o := by
      intro j o
      simp only [CountedAfter, hsame]
    simp only [exists_returns_iff, hafter]
  nil := exists_returns_nil_iff
  unavailable := exists_returns_unavailable_iff
  rpc _ := exists_returns_rpc_iff
  tenth text n h := by
    obtain ⟨m, outcome, rfl, hget, -, hrpc⟩ := h.last_call
    obtain ⟨rfl, hlen⟩ := hrpc text rfl
    exact ⟨hget, hlen⟩
  not_ctx := not_returns_ctx
  returns _ h := exists_returns h
  once _ _ _ _ h h' := h.unique h'
  success n h := by
    obtain ⟨m, outcome, rfl, hget, hnil, -⟩ := h.last_call
    obtain rfl := hnil rfl
    exact ⟨m.succ_pos, hget⟩
  calling _ h := calling_of_ahead h
  keepsCalling h := keepsCalling_iff.mpr h

end Sequences

end EvmGateway.Blocksync
