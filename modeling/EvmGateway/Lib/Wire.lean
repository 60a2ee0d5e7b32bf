import EvmGateway.Lib.Bytes

/-!
# Messages on the wire

An encoder with its decoder, a tag that tells a current payload from one of an older
format, and the ways a record keeps an optional value: as a pointer that may be null,
as a word with a flag, or as a pointer with a flag.

A pointer field is an `Option`; its getter answers an empty value for the null pointer.
Numbers without a bound are held as their big-endian bytes without leading zeros.

## Main results

* `Wire.untag_tagged`, `untag_of_head` — a payload is told apart by its tag.
* `ofBE_bigBytes` — unbounded numbers read back.
* `Wire.numbered_roundTrips` — every countable type has an encoder.
* `flagged_getD`, `bigField_eq` — optional values read back, zero included.
-/

namespace EvmGateway.Lib

/-! ## Encoders and tags -/

/-- An encoder with its decoder. -/
structure Wire (ε α : Type) where
  marshal : α → Bytes
  unmarshal : Bytes → Except ε α

/-- What was encoded is decoded as it was. -/
def Wire.RoundTrips {ε α : Type} (W : Wire ε α) : Prop :=
  ∀ a, W.unmarshal (W.marshal a) = .ok a

/-- A payload behind its tag. -/
def Wire.tagged {ε α : Type} (W : Wire ε α) (tag : Bytes) (a : α) : Bytes :=
  tag ++ W.marshal a

def untag (tag bz : Bytes) : Option Bytes :=
  if tag.isPrefixOf bz then some (bz.drop tag.length) else none

@[simp] theorem Wire.untag_tagged {ε α : Type} (W : Wire ε α) (tag : Bytes) (a : α) :
    untag tag (W.tagged tag a) = some (W.marshal a) := by
  simp [untag, Wire.tagged]

/-- A payload that starts with another byte carries no tag. -/
theorem untag_of_head {b : UInt8} {tag bz : Bytes} (h : bz.head? ≠ some b) :
    untag (b :: tag) bz = none := by
  cases bz with
  | nil => rfl
  | cons c bz =>
    have hne : (b == c) = false := by
      rw [beq_eq_false_iff_ne]
      rintro rfl
      exact h rfl
    simp [untag, List.isPrefixOf, hne]

/-! ## Unbounded numbers -/

/-- The bytes of a number, most significant first and without leading zeros; zero has
none. -/
def bigBytes (n : ℕ) : Bytes := (Nat.digits 256 n).reverse.map UInt8.ofNat

theorem ofBE_map_reverse (l : List ℕ) (h : ∀ d ∈ l, d < 256) :
    ofBE (l.reverse.map UInt8.ofNat) = Nat.ofDigits 256 l := by
  induction l with
  | nil => rfl
  | cons d l ih =>
    have hd : (UInt8.ofNat d).toNat = d := by
      simpa using Nat.mod_eq_of_lt (h d List.mem_cons_self)
    rw [List.reverse_cons, List.map_append, List.map_singleton, ofBE_concat, hd,
      ih fun x hx => h x (List.mem_cons_of_mem _ hx), Nat.ofDigits_cons]
    ring

@[simp] theorem ofBE_bigBytes (n : ℕ) : ofBE (bigBytes n) = n := by
  rw [bigBytes, ofBE_map_reverse _ fun d hd => Nat.digits_lt_base (by omega) hd,
    Nat.ofDigits_digits]

/-- A plain encoder of a countable type: an opening byte, then the number of the value. -/
def Wire.numbered {ε α : Type} [Encodable α] (opening : UInt8) (invalid : ε) : Wire ε α where
  marshal a := opening :: bigBytes (Encodable.encode a)
  unmarshal bz :=
    match Encodable.decode (ofBE bz.tail) with
    | some a => .ok a
    | none => .error invalid

theorem Wire.numbered_roundTrips {ε α : Type} [Encodable α] (opening : UInt8) (invalid : ε) :
    (Wire.numbered opening invalid : Wire ε α).RoundTrips := by
  intro a
  simp [Wire.numbered]

/-! ## Optional fields -/

/-- A word that counts only under its flag. -/
def flagged {α : Type} (present : Bool) (value : α) : Option α :=
  if present then some value else none

@[simp] theorem flagged_getD {α : Type} (v : Option α) (d : α) :
    flagged v.isSome (v.getD d) = v := by
  cases v <;> rfl

/-- A number that is there under its flag or when its pointer is not null. -/
def bigField (present : Bool) (data : Option Bytes) : Option ℤ :=
  if present || data.isSome then some (ofBE (data.getD []) : ℤ) else none

theorem bigField_eq {v : Option ℤ} (h : ∀ n ∈ v, 0 ≤ n) :
    bigField v.isSome (v.map fun n => bigBytes n.natAbs) = v := by
  cases v with
  | none => rfl
  | some n =>
    have hn : (n.natAbs : ℤ) = n := Int.natAbs_of_nonneg (h n rfl)
    simp [bigField, hn]

end EvmGateway.Lib
