import Mathlib

/-!
# Big-endian bytes and hexadecimal text

Fixed-width big-endian bytes, the two-digits-per-byte text form, and the minimal
`0x…` form used for quantities.  Decoding the text form is the lenient reading: it
stops at the first character that is not a digit pair and keeps what it has.

Decoding ignores letter case.  This is stated as `hexDecode` factoring through the
digit values (`hexDecode_eq`), so a text whose letters were re-cased decodes to the
same bytes.

## Main results

* `ofBE_toBE` — fixed-width bytes hold the number modulo `256 ^ w`.
* `hexDecode_hexEncode` — text round trip.
* `eq_of_decodeQuantity` — quantity round trip.
-/

namespace EvmGateway.Lib

/-- A byte string. -/
abbrev Bytes := List UInt8

/-! ## Big-endian numbers -/

/-- The last `w` base-256 digits of `n`, most significant first. -/
def toBE : ℕ → ℕ → Bytes
  | 0, _ => []
  | w + 1, n => toBE w (n / 256) ++ [UInt8.ofNat n]

/-- Read a byte string as a number, most significant byte first. -/
def ofBE (bs : Bytes) : ℕ := bs.foldl (fun acc b => acc * 256 + b.toNat) 0

@[simp] theorem length_toBE (w n : ℕ) : (toBE w n).length = w := by
  induction w generalizing n with
  | zero => rfl
  | succ w ih => simp [toBE, ih]

theorem ofBE_concat (bs : Bytes) (b : UInt8) : ofBE (bs ++ [b]) = ofBE bs * 256 + b.toNat := by
  simp [ofBE]

theorem ofBE_toBE (w n : ℕ) : ofBE (toBE w n) = n % 256 ^ w := by
  induction w generalizing n with
  | zero => simp [toBE, ofBE, Nat.mod_one]
  | succ w ih =>
    have hbyte : (UInt8.ofNat n).toNat = n % 256 := by simp
    rw [toBE, ofBE_concat, ih, hbyte, pow_succ', Nat.mod_mul]
    omega

theorem toBE_ofBE (bs : Bytes) : toBE bs.length (ofBE bs) = bs := by
  induction bs using List.reverseRecOn with
  | nil => rfl
  | append_singleton bs b ih =>
    have hb : b.toNat < 256 := b.toNat_lt
    have hdiv : (ofBE bs * 256 + b.toNat) / 256 = ofBE bs := by omega
    have hbyte : UInt8.ofNat (ofBE bs * 256 + b.toNat) = b := by
      rw [← UInt8.toNat_inj, UInt8.toNat_ofNat']
      omega
    rw [ofBE_concat, List.length_append, List.length_singleton, toBE, hdiv, ih, hbyte]

theorem ofBE_lt (bs : Bytes) : ofBE bs < 256 ^ bs.length := by
  have h := ofBE_toBE bs.length (ofBE bs)
  rw [toBE_ofBE] at h
  rw [h]
  exact Nat.mod_lt _ (by positivity)

/-! ## Digits -/

/-- The lower-case digit of a value below sixteen. -/
def hexDigit (n : ℕ) : Char :=
  if n < 10 then Char.ofNat ('0'.toNat + n) else Char.ofNat ('a'.toNat + (n - 10))

/-- The value of a digit of either case. -/
def hexVal (c : Char) : Option ℕ :=
  if '0' ≤ c ∧ c ≤ '9' then some (c.toNat - '0'.toNat)
  else if 'a' ≤ c ∧ c ≤ 'f' then some (c.toNat - 'a'.toNat + 10)
  else if 'A' ≤ c ∧ c ≤ 'F' then some (c.toNat - 'A'.toNat + 10)
  else none

theorem hexVal_hexDigit : ∀ n < 16, hexVal (hexDigit n) = some n := by decide

theorem hexVal_toUpper_hexDigit : ∀ n < 16, hexVal (hexDigit n).toUpper = some n := by decide

/-! ## Byte strings as text -/

/-- Two digits per byte, most significant first. -/
def hexEncode (bs : Bytes) : List Char :=
  bs.flatMap fun b => [hexDigit (b.toNat / 16), hexDigit (b.toNat % 16)]

/-- Join digit values pairwise, up to the first value that is missing. -/
def pairNibbles : List (Option ℕ) → Bytes
  | some hi :: some lo :: rest => UInt8.ofNat (16 * hi + lo) :: pairNibbles rest
  | _ => []

/-- Read digit pairs up to the first character that is not a digit. -/
def hexDecode (cs : List Char) : Bytes := pairNibbles (cs.map hexVal)

theorem hexDecode_eq {cs cs' : List Char} (h : cs.map hexVal = cs'.map hexVal) :
    hexDecode cs = hexDecode cs' := by
  rw [hexDecode, hexDecode, h]

theorem length_hexEncode (bs : Bytes) : (hexEncode bs).length = 2 * bs.length := by
  induction bs with
  | nil => rfl
  | cons b bs ih =>
    simp only [hexEncode, List.flatMap_cons, List.length_append, List.length_cons,
      List.length_nil] at ih ⊢
    omega

theorem hexDecode_hexEncode (bs : Bytes) : hexDecode (hexEncode bs) = bs := by
  induction bs with
  | nil => rfl
  | cons b bs ih =>
    have hb : b.toNat < 256 := b.toNat_lt
    have hhi := hexVal_hexDigit (b.toNat / 16) (by omega)
    have hlo := hexVal_hexDigit (b.toNat % 16) (by omega)
    have hbyte : UInt8.ofNat (16 * (b.toNat / 16) + b.toNat % 16) = b := by
      rw [Nat.div_add_mod, UInt8.ofNat_toNat]
    change pairNibbles (hexVal _ :: hexVal _ :: (hexEncode bs).map hexVal) = b :: bs
    rw [hhi, hlo, pairNibbles, hbyte]
    exact congrArg (b :: ·) ih

theorem exists_hexDigit_of_mem_hexEncode {bs : Bytes} {c : Char} (h : c ∈ hexEncode bs) :
    ∃ n < 16, c = hexDigit n := by
  obtain ⟨b, -, hc⟩ := List.mem_flatMap.mp h
  have hb : b.toNat < 256 := b.toNat_lt
  rcases List.mem_pair.mp hc with rfl | rfl
  · exact ⟨b.toNat / 16, by omega, rfl⟩
  · exact ⟨b.toNat % 16, by omega, rfl⟩

/-! ## Quantities -/

/-- The digits of a number without leading zeros; zero has none. -/
def quantityDigits (n : ℕ) : List Char := (Nat.digits 16 n).reverse.map hexDigit

/-- The `0x` form of a number, with a sign in front of a negative one. -/
def encodeQuantity (n : ℤ) : String :=
  if n = 0 then "0x0"
  else if 0 < n then String.ofList ('0' :: 'x' :: quantityDigits n.toNat)
  else String.ofList ('-' :: '0' :: 'x' :: quantityDigits n.natAbs)

/-- Read a run of digits as a number. -/
def parseDigits : ℕ → List Char → Option ℕ
  | acc, [] => some acc
  | acc, c :: cs =>
    match hexVal c with
    | some d => parseDigits (acc * 16 + d) cs
    | none => none

/-- Read a `0x` quantity of at most 256 bits. -/
def decodeQuantity (s : String) : Except String ℕ :=
  match s.toList with
  | [] => .error "empty hex string"
  | '0' :: x :: ds =>
    if x ≠ 'x' ∧ x ≠ 'X' then .error "hex string without 0x prefix"
    else if ds = [] then .error "hex string \"0x\""
    else if 1 < ds.length ∧ ds.head? = some '0' then
      .error "hex number with leading zero digits"
    else if 64 < ds.length then .error "hex number > 256 bits"
    else
      match parseDigits 0 ds with
      | some n => .ok n
      | none => .error "invalid hex string"
  | _ => .error "hex string without 0x prefix"

theorem parseDigits_append (acc : ℕ) (ds ds' : List Char) :
    parseDigits acc (ds ++ ds') = (parseDigits acc ds).bind (parseDigits · ds') := by
  induction ds generalizing acc with
  | nil => rfl
  | cons d ds ih =>
    simp only [List.cons_append, parseDigits]
    cases hexVal d <;> simp [ih]

theorem parseDigits_digits (l : List ℕ) (h : ∀ d ∈ l, d < 16) :
    parseDigits 0 (l.reverse.map hexDigit) = some (Nat.ofDigits 16 l) := by
  induction l with
  | nil => rfl
  | cons d l ih =>
    have hd := hexVal_hexDigit d (h d List.mem_cons_self)
    rw [List.reverse_cons, List.map_append, parseDigits_append,
      ih fun x hx => h x (List.mem_cons_of_mem _ hx)]
    simp only [Option.bind_some, List.map_cons, List.map_nil, parseDigits, hd,
      Nat.ofDigits_cons, Option.some.injEq]
    ring

theorem length_quantityDigits (n : ℕ) : (quantityDigits n).length = (Nat.digits 16 n).length := by
  simp [quantityDigits]

/-- The first digit of a positive number is not a zero. -/
theorem head?_quantityDigits {n : ℕ} (hn : n ≠ 0) : (quantityDigits n).head? ≠ some '0' := by
  have hne : Nat.digits 16 n ≠ [] := Nat.digits_ne_nil_iff_ne_zero.mpr hn
  have hlast := Nat.getLast_digit_ne_zero 16 hn
  have hlt : (Nat.digits 16 n).getLast hne < 16 :=
    Nat.digits_lt_base (by omega) (List.getLast_mem hne)
  rw [quantityDigits, List.head?_map, List.head?_reverse, List.getLast?_eq_some_getLast hne]
  intro h
  have hzero : hexDigit ((Nat.digits 16 n).getLast hne) = '0' := by simpa using h
  have hval := hexVal_hexDigit _ hlt
  rw [hzero] at hval
  exact hlast (Option.some.inj hval).symm

/-- A positive number reads back as itself unless it has too many digits. -/
theorem decodeQuantity_encodeQuantity {m : ℕ} (hm : 0 < m) :
    decodeQuantity (encodeQuantity m) =
      if 64 < (quantityDigits m).length then .error "hex number > 256 bits" else .ok m := by
  have hne : quantityDigits m ≠ [] := by
    simpa [quantityDigits] using Nat.digits_ne_nil_iff_ne_zero.mpr hm.ne'
  have hhead := head?_quantityDigits hm.ne'
  have hparse : parseDigits 0 (quantityDigits m) = some m := by
    rw [quantityDigits, parseDigits_digits _ fun d hd => Nat.digits_lt_base (by omega) hd,
      Nat.ofDigits_digits]
  have htext : (encodeQuantity (m : ℤ)).toList = '0' :: 'x' :: quantityDigits m := by
    rw [encodeQuantity, if_neg (by omega), if_pos (by omega), String.toList_ofList,
      Int.toNat_natCast]
  simp [decodeQuantity, htext, hne, hhead, hparse]

theorem lt_length_quantityDigits_iff (m : ℕ) : 64 < (quantityDigits m).length ↔ 2 ^ 256 ≤ m := by
  rw [length_quantityDigits, Nat.lt_digits_length_iff (by omega)]
  norm_num

/-- **A quantity that reads back at all reads back as itself.** -/
theorem eq_of_decodeQuantity {n : ℤ} {m : ℕ} (h : decodeQuantity (encodeQuantity n) = .ok m) :
    (m : ℤ) = n := by
  rcases lt_trichotomy n 0 with hneg | rfl | hpos
  · -- a sign is no digit
    have htext : (encodeQuantity n).toList = '-' :: '0' :: 'x' :: quantityDigits n.natAbs := by
      rw [encodeQuantity, if_neg (by omega), if_neg (by omega), String.toList_ofList]
    simp [decodeQuantity, htext] at h
  · have hzero : decodeQuantity (encodeQuantity 0) = .ok 0 := by decide
    rw [hzero] at h
    simpa using (Except.ok.inj h).symm
  · obtain ⟨k, rfl⟩ := Int.eq_ofNat_of_zero_le hpos.le
    rw [decodeQuantity_encodeQuantity (by omega)] at h
    split_ifs at h
    rw [Except.ok.inj h]

/-- What is not negative reads back if it fits in 256 bits. -/
theorem decodeQuantity_of_lt {n : ℤ} (hn : 0 ≤ n) (hlt : n < 2 ^ 256) :
    decodeQuantity (encodeQuantity n) = .ok n.toNat := by
  obtain ⟨m, rfl⟩ := Int.eq_ofNat_of_zero_le hn
  rcases Nat.eq_zero_or_pos m with rfl | hpos
  · decide
  · have hfits : ¬64 < (quantityDigits m).length := by
      rw [lt_length_quantityDigits_iff]
      omega
    rw [decodeQuantity_encodeQuantity hpos, if_neg hfits, Int.toNat_natCast]

theorem decodeQuantity_of_le {n : ℤ} (hle : 2 ^ 256 ≤ n) :
    decodeQuantity (encodeQuantity n) = .error "hex number > 256 bits" := by
  obtain ⟨m, rfl⟩ := Int.eq_ofNat_of_zero_le (show 0 ≤ n by omega)
  have hlong : 64 < (quantityDigits m).length := by
    rw [lt_length_quantityDigits_iff]
    omega
  rw [decodeQuantity_encodeQuantity (by omega), if_pos hlong]

theorem encodeQuantity_ne_empty (n : ℤ) : encodeQuantity n ≠ "" := by
  unfold encodeQuantity
  split_ifs <;> simp [← String.toList_inj]

end EvmGateway.Lib
