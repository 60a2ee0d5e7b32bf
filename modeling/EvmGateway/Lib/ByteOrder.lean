import EvmGateway.Lib.Bytes

/-!
# The order of byte strings

Ordered stores compare keys byte by byte, with a string before its continuations.  Two facts
make such keys usable as an index.  Fixed-width big-endian numbers are ordered like the numbers
they stand for, also when more follows behind them; and the continuations of a string are a
half-open range, whose end is the string with its last byte raised (`inRange_prefixEnd`).  A byte
`0xff` cannot be raised, so the end is cut back to the last byte that can, and there is no end if
all bytes are `0xff`.

## Main definitions

* `InRange start stop k` — the keys an iterator from `start` to `stop` visits.
* `prefixEnd p` — the end of the range of the continuations of `p`.
-/

namespace EvmGateway.Lib

/-! ## Ranges -/

/-- Whether a key is in the half-open range between two keys; without an end the range is
unbounded. -/
def InRange (start : Bytes) (stop : Option Bytes) (k : Bytes) : Prop :=
  start ≤ k ∧ ∀ e, stop = some e → k < e

@[simp] theorem inRange_none {start k : Bytes} : InRange start none k ↔ start ≤ k := by
  simp [InRange]

@[simp] theorem inRange_some {start stop k : Bytes} :
    InRange start (some stop) k ↔ start ≤ k ∧ k < stop := by
  simp [InRange]

instance (start : Bytes) (stop : Option Bytes) (k : Bytes) : Decidable (InRange start stop k) :=
  match stop with
  | none => decidable_of_iff (start ≤ k) inRange_none.symm
  | some stop => decidable_of_iff (start ≤ k ∧ k < stop) inRange_some.symm

/-! ## Continuations -/

/-- The least byte string above all continuations of `p`, if there is one. -/
def prefixEnd : Bytes → Option Bytes
  | [] => none
  | b :: bs =>
    match prefixEnd bs with
    | some e => some (b :: e)
    | none => if b = 0xff then none else some [b + 1]

theorem lt_add_one_iff {b c : UInt8} (hb : b ≠ 0xff) : c < b + 1 ↔ c < b ∨ c = b := by
  have hlt : b.toNat < 255 := by
    have hle : b.toNat < 256 := b.toNat_lt
    have hne : b.toNat ≠ 255 := fun h => hb (UInt8.toNat_inj.mp h)
    omega
  rw [UInt8.lt_iff_toNat_lt, UInt8.lt_iff_toNat_lt, ← UInt8.toNat_inj, UInt8.toNat_add,
    UInt8.toNat_one, Nat.mod_eq_of_lt (by omega)]
  omega

theorem not_lt_of_eq_max {b c : UInt8} (hb : b = 0xff) : ¬ b < c := by
  have hc : c.toNat < 256 := c.toNat_lt
  rw [hb, UInt8.lt_iff_toNat_lt]
  change ¬ 255 < c.toNat
  omega

/-- **The continuations of a string are a range.** -/
theorem inRange_prefixEnd (p k : Bytes) : InRange p (prefixEnd p) k ↔ p <+: k := by
  induction p generalizing k with
  | nil => simp [prefixEnd]
  | cons b p ih =>
    cases k with
    | nil => simp [InRange]
    | cons c k =>
      have hk := ih k
      rw [List.cons_prefix_cons, ← hk, prefixEnd]
      cases hend : prefixEnd p with
      | some e =>
        simp only [inRange_some, List.cons_le_cons_iff, List.cons_lt_cons_iff]
        constructor
        · rintro ⟨hbc | ⟨hbc, hle⟩, hcb | ⟨hcb, hlt⟩⟩
          · exact absurd hcb (UInt8.lt_asymm hbc)
          · exact absurd hbc (hcb ▸ UInt8.lt_irrefl c)
          · exact absurd hcb (hbc ▸ UInt8.lt_irrefl b)
          · exact ⟨hbc, hle, hlt⟩
        · rintro ⟨hbc, hle, hlt⟩
          exact ⟨.inr ⟨hbc, hle⟩, .inr ⟨hbc.symm, hlt⟩⟩
      | none =>
        rw [inRange_none]
        by_cases hb : b = 0xff
        · simp only [if_pos hb, inRange_none, List.cons_le_cons_iff]
          exact or_iff_right (not_lt_of_eq_max hb)
        · simp only [if_neg hb, inRange_some, List.cons_le_cons_iff, List.cons_lt_cons_iff,
            List.not_lt_nil, and_false, or_false, lt_add_one_iff hb]
          constructor
          · rintro ⟨hbc | hbc, hcb | hcb⟩
            · exact absurd hcb (UInt8.lt_asymm hbc)
            · exact absurd hbc (hcb ▸ UInt8.lt_irrefl b)
            · exact absurd hcb (hbc.1 ▸ UInt8.lt_irrefl b)
            · exact hbc
          · intro hbc
            exact ⟨.inr hbc, .inr hbc.1.symm⟩

/-! ## Fixed-width parts -/

theorem isPrefix_append_iff {p l r : Bytes} (h : p.length = l.length) : p <+: l ++ r ↔ p = l := by
  rw [List.prefix_iff_eq_take, h, List.take_left]

/-- Strings with heads of one length are compared by their heads first. -/
theorem append_lt_append_iff {l l' r r' : Bytes} (h : l.length = l'.length) :
    l ++ r < l' ++ r' ↔ l < l' ∨ l = l' ∧ r < r' := by
  induction l generalizing l' with
  | nil =>
    obtain rfl := List.length_eq_zero_iff.mp h.symm
    simp
  | cons b l ih =>
    cases l' with
    | nil => simp at h
    | cons b' l' =>
      have hlen : l.length = l'.length := by simpa using h
      rw [List.cons_append, List.cons_append, List.cons_lt_cons_iff, List.cons_lt_cons_iff, ih hlen,
        List.cons.injEq]
      tauto

theorem ofBE_cons (b : UInt8) (bs : Bytes) : ofBE (b :: bs) = b.toNat * 256 ^ bs.length +
    ofBE bs := by
  induction bs using List.reverseRecOn with
  | nil => simp [ofBE]
  | append_singleton bs c ih =>
    rw [← List.cons_append, ofBE_concat, ih, ofBE_concat, List.length_append, List.length_singleton,
      pow_succ]
    ring

/-- Strings of one length are ordered like the numbers they stand for. -/
theorem lt_iff_ofBE_lt {l l' : Bytes} (h : l.length = l'.length) : l < l' ↔ ofBE l < ofBE l' := by
  induction l generalizing l' with
  | nil =>
    obtain rfl := List.length_eq_zero_iff.mp h.symm
    simp
  | cons b l ih =>
    cases l' with
    | nil => simp at h
    | cons b' l' =>
      have hlen : l.length = l'.length := by simpa using h
      have hl := ofBE_lt l
      have hl' := ofBE_lt l'
      rw [← hlen] at hl'
      rw [List.cons_lt_cons_iff, ih hlen, ofBE_cons, ofBE_cons, ← hlen, UInt8.lt_iff_toNat_lt,
        ← UInt8.toNat_inj]
      -- the leading byte decides unless it is the same
      rcases lt_trichotomy b.toNat b'.toNat with hlt | heq | hgt
      · have hstep : (b.toNat + 1) * 256 ^ l.length ≤ b'.toNat * 256 ^ l.length :=
          Nat.mul_le_mul_right _ hlt
        rw [Nat.add_mul, Nat.one_mul] at hstep
        exact iff_of_true (.inl hlt) (by omega)
      · rw [heq]
        simp
      · have hstep : (b'.toNat + 1) * 256 ^ l.length ≤ b.toNat * 256 ^ l.length :=
          Nat.mul_le_mul_right _ hgt
        rw [Nat.add_mul, Nat.one_mul] at hstep
        exact iff_of_false (by omega) (by omega)

theorem toBE_lt_toBE {w a b : ℕ} (ha : a < 256 ^ w) (hb : b < 256 ^ w) :
    toBE w a < toBE w b ↔ a < b := by
  rw [lt_iff_ofBE_lt (by simp), ofBE_toBE, ofBE_toBE, Nat.mod_eq_of_lt ha, Nat.mod_eq_of_lt hb]

theorem toBE_inj {w a b : ℕ} (ha : a < 256 ^ w) (hb : b < 256 ^ w) :
    toBE w a = toBE w b ↔ a = b := by
  constructor
  · intro h
    have hof := congrArg ofBE h
    rwa [ofBE_toBE, ofBE_toBE, Nat.mod_eq_of_lt ha, Nat.mod_eq_of_lt hb] at hof
  · rintro rfl
    rfl

end EvmGateway.Lib
