import Mathlib

/-!
# Text scanning

Character-level readers for the few textual formats the modelled code accepts:
surrounding white space, decimal numbers with a range, and "the first place in the
text where this reader succeeds", which is how an unanchored regular expression
without alternatives finds its leftmost match.

All readers work on the list of characters, so that they compute in the kernel.
-/

namespace EvmGateway.Lib

universe u

/-- White space in the Unicode sense. -/
def isSpace (c : Char) : Bool :=
  let n := c.toNat
  (9 ≤ n && n ≤ 13) || n == 0x20 || n == 0x85 || n == 0xA0 || n == 0x1680 ||
    (0x2000 ≤ n && n ≤ 0x200A) || n == 0x2028 || n == 0x2029 || n == 0x202F || n == 0x205F ||
    n == 0x3000

/-- Drop white space at both ends. -/
def trimSpace (s : String) : String :=
  String.ofList ((s.toList.dropWhile isSpace).reverse.dropWhile isSpace).reverse

/-- A decimal digit. -/
def isDigit (c : Char) : Bool := '0' ≤ c && c ≤ '9'

/-- The number written by a run of decimal digits. -/
def decimalValue (cs : List Char) : ℕ := cs.foldl (fun acc c => acc * 10 + (c.toNat - 48)) 0

/-- Read an unsigned decimal number of at most `bits` bits. -/
def parseUint (s : String) (bits : ℕ) : Except String ℕ :=
  let cs := s.toList
  if cs.isEmpty || !cs.all isDigit then
    .error s!"strconv.ParseUint: parsing \"{s}\": invalid syntax"
  else if 2 ^ bits ≤ decimalValue cs then
    .error s!"strconv.ParseUint: parsing \"{s}\": value out of range"
  else .ok (decimalValue cs)

/-- Read a signed 64-bit decimal number. -/
def atoi (s : String) : Except String ℤ :=
  let (negative, digits) :=
    match s.toList with
    | '-' :: ds => (true, ds)
    | '+' :: ds => (false, ds)
    | ds => (false, ds)
  if digits.isEmpty || !digits.all isDigit then
    .error s!"strconv.Atoi: parsing \"{s}\": invalid syntax"
  else
    let n : ℤ := if negative then -(decimalValue digits : ℤ) else decimalValue digits
    if n < -2 ^ 63 ∨ 2 ^ 63 ≤ n then .error s!"strconv.Atoi: parsing \"{s}\": value out of range"
    else .ok n

theorem isDigit_iff {c : Char} : isDigit c = true ↔ c.isDigit = true := by
  simp only [isDigit, Bool.and_eq_true, decide_eq_true_eq, Char.isDigit_iff_toNat]
  exact Iff.rfl

theorem isDigit_of_mem_toDigits {n : ℕ} {c : Char} (h : c ∈ Nat.toDigits 10 n) :
    isDigit c = true :=
  isDigit_iff.mpr (Nat.isDigit_of_mem_toDigits (by decide) (by decide) h)

theorem decimalValue_toDigits (n : ℕ) : decimalValue (Nat.toDigits 10 n) = n := by
  have h := @Nat.ofDigitChars_ten_toDigits n
  simp only [Nat.ofDigitChars, Nat.mul_comm 10] at h
  exact h

/-- Reading the text of a number that fits gives the number. -/
theorem atoi_toString {n : ℕ} (h : n < 2 ^ 63) : atoi (toString n) = .ok (n : ℤ) := by
  have hdigits : (toString n).toList = Nat.toDigits 10 n := by
    rw [Nat.toString_eq_repr, Nat.toList_repr]
  have hall : (Nat.toDigits 10 n).all isDigit = true :=
    List.all_eq_true.mpr fun c hc => isDigit_of_mem_toDigits hc
  have hempty : (Nat.toDigits 10 n).isEmpty = false := by
    rw [List.isEmpty_eq_false_iff]
    exact Nat.toDigits_ne_nil
  have hsign : ∀ ds, Nat.toDigits 10 n ≠ '-' :: ds ∧ Nat.toDigits 10 n ≠ '+' :: ds := by
    intro ds
    constructor
    · intro heq
      exact absurd (isDigit_of_mem_toDigits (n := n) (heq ▸ List.mem_cons_self)) (by decide)
    · intro heq
      exact absurd (isDigit_of_mem_toDigits (n := n) (heq ▸ List.mem_cons_self)) (by decide)
  unfold atoi
  rw [hdigits]
  split
  next heq =>
    split at heq
    · exact absurd ‹_› (hsign _).1
    · exact absurd ‹_› (hsign _).2
    · obtain ⟨rfl, rfl⟩ := Prod.mk.inj heq
      rw [hall, hempty, decimalValue_toDigits]
      have hrange : ¬ ((n : ℤ) < -2 ^ 63 ∨ 2 ^ 63 ≤ (n : ℤ)) := by omega
      simp only [Bool.not_true, Bool.or_false, Bool.false_eq_true, if_false, hrange]

theorem atoi_range {s : String} {n : ℤ} (h : atoi s = .ok n) : -2 ^ 63 ≤ n ∧ n < 2 ^ 63 := by
  unfold atoi at h
  split at h
  dsimp only at h
  split_ifs at h
  all_goals
    obtain rfl := Except.ok.inj h
    omega

/-- The text after a literal, if the text starts with it. -/
def afterLiteral : List Char → List Char → Option (List Char)
  | [], cs => some cs
  | _ :: _, [] => none
  | p :: ps, c :: cs => if p = c then afterLiteral ps cs else none

/-- A non-empty run of digits and the text after it. -/
def takeDigits (cs : List Char) : Option (List Char × List Char) :=
  let (ds, rest) := cs.span isDigit
  if ds.isEmpty then none else some (ds, rest)

/-- The result at the leftmost position of the text where the reader succeeds. -/
def findFirst {α : Type u} (p : List Char → Option α) : List Char → Option α
  | [] => p []
  | c :: cs => (p (c :: cs)).or (findFirst p cs)

end EvmGateway.Lib
