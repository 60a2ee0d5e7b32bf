import EvmGateway.Env
import EvmGateway.Lib.Int64
import EvmGateway.Lib.Loop

/-!
# Block parameters

A request names a block by a tag, a number or a hash.  Two decoders read the same JSON: one for
parameters that are block numbers, and one for parameters that may also be hashes.  Each has its
own list of tags, and only the first one casts a text without `0x` to a number.

`block_param_uniform_iff` says for which strings the two agree.

## Main definitions

* `decodeUint64` — the hexadecimal quantities of `hexutil`.
* `BlockNumber.unmarshalJSON`, `BlockNumberOrHash.unmarshalJSON` — the two decoders.
* `jsonString` — a string as JSON.
* `DecodesUniformly` — the two decoders agree on a string, and accept only tags and numbers.
-/

namespace EvmGateway

open Lib

variable {cs : List Char} {n : ℕ}

/-! ## Hexadecimal quantities -/

/-- The error of a text without `0x`. -/
def errMissingPrefix : Err := .plain "hex string without 0x prefix"

/-- The text starts with `0x`. -/
def has0x : List Char → Bool
  | '0' :: x :: _ => x == 'x' || x == 'X'
  | _ => false

/-- The digits of a quantity. -/
def checkNumber (input : List Char) : Except Err (List Char) :=
  if input = [] then .error (.plain "empty hex string")
  else if !has0x input then .error errMissingPrefix
  else
    let digits := input.drop 2
    if digits = [] then .error (.plain "hex string \"0x\"")
    else if 1 < digits.length ∧ digits.head? = some '0' then
      .error (.plain "hex number with leading zero digits")
    else .ok digits

/-- Read hexadecimal digits as an unsigned 64-bit number. -/
def parseHexUint64 : ℕ → List Char → Except Err ℕ
  | acc, [] => .ok acc
  | acc, c :: cs =>
    match hexVal c with
    | none => .error (.plain "invalid hex string")
    | some d =>
      if 2 ^ 64 ≤ acc * 16 + d then .error (.plain "hex number > 64 bits")
      else parseHexUint64 (acc * 16 + d) cs

/-- Read a quantity of at most 64 bits. -/
def decodeUint64 (input : List Char) : Except Err ℕ := do
  parseHexUint64 0 (← checkNumber input)

/-- The length of a text in bytes. -/
def byteLength (cs : List Char) : ℕ := (cs.map Char.utf8Size).sum

/-- Read a hash from the text of its bytes. -/
def hashUnmarshalText (input : List Char) : Except Err Hash :=
  if input = [] then .error (.plain "hex string has length 0, want 64 for Hash")
  else if !has0x input then .error errMissingPrefix
  else
    let digits := input.drop 2
    if byteLength digits % 2 ≠ 0 then .error (.plain "hex string of odd length")
    else if byteLength digits / 2 ≠ 32 then
      .error (.plain s!"hex string has length {byteLength digits}, want 64 for Hash")
    else if !digits.all fun c => (hexVal c).isSome then .error (.plain "invalid hex string")
    else .ok (bytesToHash (hexDecode digits))

/-! ## The two decoders -/

def ethPendingBlockNumber : ℤ := -2

def ethLatestBlockNumber : ℤ := -1

def ethEarliestBlockNumber : ℤ := 0

/-- Drop the quotes around a text. -/
def dropQuotes (input : List Char) : List Char :=
  if 2 ≤ input.length ∧ input.head? = some '"' ∧ input.getLast? = some '"' then input.tail.dropLast
  else input

namespace BlockNumber

/-- The quantity of a block number; a text without `0x` is cast. -/
def decodeNumber (E : Env) (input : String) : Except Err ℕ :=
  match decodeUint64 input.toList with
  | .ok blckNum => .ok blckNum
  | .error e => if e = errMissingPrefix then .ok (E.castToUint64 input) else .error e

def decode (E : Env) (input : String) : Except Err ℤ :=
  if input = "earliest" then .ok ethEarliestBlockNumber
  else if input = "latest" ∨ input = "finalized" ∨ input = "safe" then .ok ethLatestBlockNumber
  else if input = "pending" then .ok ethPendingBlockNumber
  else do
    let blckNum ← decodeNumber E input
    if (blckNum : ℤ) > maxInt64 then .error (.plain "block number larger than int64")
    else .ok (blckNum : ℤ)

/-- The decoder of block numbers. -/
def unmarshalJSON (E : Env) (data : String) : Except Err ℤ :=
  decode E (String.ofList (dropQuotes (trimSpace data).toList))

end BlockNumber

namespace BlockNumberOrHash

/-- Only one of the two may be given. -/
def checkUnmarshal (e : BlockNumberOrHash) : Except Err BlockNumberOrHash :=
  if e.blockNumber.isSome ∧ e.blockHash.isSome then
    .error (.plain "cannot specify both BlockHash and BlockNumber, choose one or the other")
  else .ok e

/-- A number that is signed as well. -/
def safeInt64 (value : ℕ) : Except Err ℤ :=
  if (value : ℤ) > maxInt64 then
    .error (.plain s!"uint64 value {value} cannot exceed 9223372036854775807")
  else .ok (value : ℤ)

/-- The block of a text. -/
def decodeFromString (input : String) : Except Err BlockNumberOrHash :=
  if input = "earliest" then .ok { blockNumber := some ethEarliestBlockNumber }
  else if input = "latest" ∨ input = "finalized" then
    .ok { blockNumber := some ethLatestBlockNumber }
  else if input = "pending" then .ok { blockNumber := some ethPendingBlockNumber }
  else if byteLength input.toList = 66 then do
    let hash ← hashUnmarshalText input.toList
    return { blockHash := some hash }
  else do
    let blockNumber ← decodeUint64 input.toList
    let bnInt ← safeInt64 blockNumber
    return { blockNumber := some bnInt }

def unmarshalJSON (E : Env) (data : String) : Except Err BlockNumberOrHash :=
  match E.sonicUnmarshalErased data with
  | .ok e => checkUnmarshal e
  | .error _ => do
    let input ← E.sonicUnmarshalString data
    decodeFromString input

end BlockNumberOrHash

/-! ## Strings as JSON -/

/-- A character of a JSON string. -/
def escapeChar (c : Char) : List Char :=
  if c = '"' then ['\\', '"']
  else if c = '\\' then ['\\', '\\']
  else if c.toNat < 32 then
    ['\\', 'u', '0', '0', hexDigit (c.toNat / 16), hexDigit (c.toNat % 16)]
  else [c]

/-- The characters between the quotes of a JSON string. -/
def escapeText (cs : List Char) : List Char := cs.flatMap escapeChar

def jsonString (s : String) : String := String.ofList ('"' :: (escapeText s.toList ++ ['"']))

/-- A character that stands for itself. -/
def Plain (c : Char) : Prop := escapeChar c = [c]

instance (c : Char) : Decidable (Plain c) := inferInstanceAs (Decidable (_ = _))

theorem escapeChar_cases (c : Char) : Plain c ∨ '\\' ∈ escapeChar c := by
  unfold Plain escapeChar
  split_ifs <;> simp

theorem escapeText_of_plain (h : ∀ c ∈ cs, Plain c) : escapeText cs = cs := by
  induction cs with
  | nil => rfl
  | cons c cs ih =>
    obtain ⟨hc, hcs⟩ := List.forall_mem_cons.mp h
    rw [escapeText, List.flatMap_cons, hc, List.singleton_append]
    exact congrArg _ (ih hcs)

theorem plain_of_backslash (h : '\\' ∉ escapeText cs) : ∀ c ∈ cs, Plain c := by
  intro c hc
  rcases escapeChar_cases c with hplain | hmem
  · exact hplain
  · exact absurd (List.mem_flatMap.mpr ⟨c, hc, hmem⟩) h

/-- A plain word is read as itself, and nothing else is. -/
theorem ofList_escapeText_eq_iff {s word : String} (h : word.toList.all (Plain ·) = true) :
    String.ofList (escapeText s.toList) = word ↔ s = word := by
  have hplain : ∀ c ∈ word.toList, Plain c := by simpa using h
  constructor
  · intro h
    have hlist : escapeText s.toList = word.toList := by rw [← h, String.toList_ofList]
    have hnot : '\\' ∉ escapeText s.toList := by
      rw [hlist]
      intro hmem
      exact absurd (hplain _ hmem) (by decide)
    rw [escapeText_of_plain (plain_of_backslash hnot)] at hlist
    exact String.toList_inj.mp hlist
  · rintro rfl
    rw [escapeText_of_plain hplain, String.ofList_toList]

theorem unmarshalJSON_jsonString (E : Env) (s : String) :
    BlockNumber.unmarshalJSON E (jsonString s) =
      BlockNumber.decode E (String.ofList (escapeText s.toList)) := by
  have htrim : trimSpace (jsonString s) = jsonString s := by
    simp [trimSpace, jsonString, isSpace]
  have hlast : ('"' :: (escapeText s.toList ++ ['"'])).getLast? = some '"' := by
    rw [← List.cons_append, List.getLast?_append]
    rfl
  have hquotes : dropQuotes (jsonString s).toList = escapeText s.toList := by
    simp [dropQuotes, jsonString, hlast]
  rw [BlockNumber.unmarshalJSON, htrim, hquotes]

/-! ## Quantities and escapes -/

theorem decodeUint64_of_missing (hne : cs ≠ []) (h : has0x cs = false) :
    decodeUint64 cs = .error errMissingPrefix := by
  simp [decodeUint64, checkNumber, hne, h]

/-- A text with `0x` fails in another way, if it fails. -/
theorem decodeUint64_ne_missing (h : cs = [] ∨ has0x cs = true) :
    decodeUint64 cs ≠ .error errMissingPrefix := by
  have hparse : ∀ (digits : List Char) (acc : ℕ),
      parseHexUint64 acc digits ≠ .error errMissingPrefix := by
    intro digits
    induction digits with
    | nil =>
      intro acc
      simp [parseHexUint64]
    | cons c digits ih =>
      intro acc
      unfold parseHexUint64
      cases hexVal c with
      | none => simp [errMissingPrefix, Err.plain]
      | some d =>
        dsimp only
        split_ifs
        · simp [errMissingPrefix, Err.plain]
        · exact ih _
  have hcheck : checkNumber cs ≠ .error errMissingPrefix := by
    unfold checkNumber
    rcases h with rfl | h
    · simp [errMissingPrefix, Err.plain]
    · simp only [h, Bool.not_true, Bool.false_eq_true, if_false]
      split_ifs <;> simp [errMissingPrefix, Err.plain]
  unfold decodeUint64
  cases hnum : checkNumber cs with
  | error e =>
    intro heq
    exact hcheck (hnum.trans (congrArg _ (Except.error.inj heq)))
  | ok digits => exact hparse digits 0

theorem hexVal_of_parseHexUint64 {acc : ℕ} (h : parseHexUint64 acc cs = .ok n) :
    ∀ c ∈ cs, (hexVal c).isSome := by
  induction cs generalizing acc with
  | nil => exact List.forall_mem_nil _
  | cons c cs ih =>
    unfold parseHexUint64 at h
    cases hc : hexVal c with
    | none => simp [hc] at h
    | some d =>
      simp only [hc] at h
      split_ifs at h
      exact List.forall_mem_cons.mpr ⟨by simp [hc], ih h⟩

/-- The characters of a quantity. -/
def QuantityChar (c : Char) : Prop := (hexVal c).isSome ∨ c = 'x' ∨ c = 'X'

theorem quantityChar_of_has0x (h : has0x cs = true) (hdigits : ∀ c ∈ cs.drop 2, (hexVal c).isSome) :
    ∀ c ∈ cs, QuantityChar c := by
  unfold has0x at h
  split at h
  next x rest =>
    have hx : x = 'x' ∨ x = 'X' := by simpa using h
    intro c hc
    rcases List.mem_cons.mp hc with rfl | hc
    · exact .inl (by decide)
    rcases List.mem_cons.mp hc with rfl | hc
    · exact .inr hx
    · exact .inl (hdigits c hc)
  · cases h

theorem checkNumber_ok {digits : List Char} (h : checkNumber cs = .ok digits) :
    has0x cs = true ∧ digits = cs.drop 2 ∧ digits ≠ [] := by
  unfold checkNumber at h
  dsimp only at h
  split_ifs at h with hempty hstart hdigits hzero
  obtain rfl := Except.ok.inj h
  exact ⟨by simpa using hstart, rfl, hdigits⟩

theorem decodeUint64_ok (h : decodeUint64 cs = .ok n) :
    has0x cs = true ∧ ∀ c ∈ cs, QuantityChar c := by
  obtain ⟨digits, hcheck, hparse⟩ := bind_eq_ok.mp h
  obtain ⟨hstart, rfl, -⟩ := checkNumber_ok hcheck
  exact ⟨hstart, quantityChar_of_has0x hstart (hexVal_of_parseHexUint64 hparse)⟩

theorem hashUnmarshalText_ok {hash : Hash} (h : hashUnmarshalText cs = .ok hash) :
    has0x cs = true ∧ ∀ c ∈ cs, QuantityChar c := by
  unfold hashUnmarshalText at h
  dsimp only at h
  split_ifs at h with hempty hstart hodd hlen hdigits
  have hstart : has0x cs = true := by simpa using hstart
  have hdigits : ∀ c ∈ cs.drop 2, (hexVal c).isSome := by
    simpa [Option.isSome_iff_ne_none] using hdigits
  exact ⟨hstart, quantityChar_of_has0x hstart hdigits⟩

/-- A digit is an ASCII character that is not escaped. -/
theorem QuantityChar.range {c : Char} (h : QuantityChar c) : 48 ≤ c.toNat ∧ c.toNat ≤ 120 ∧
    c.toNat ≠ 92 := by
  rcases h with h | rfl | rfl
  · unfold hexVal at h
    split_ifs at h with hdigit hlower hupper
    · have h₁ : '0'.toNat ≤ c.toNat := hdigit.1
      have h₂ : c.toNat ≤ '9'.toNat := hdigit.2
      have : '0'.toNat = 48 := rfl
      have : '9'.toNat = 57 := rfl
      omega
    · have h₁ : 'a'.toNat ≤ c.toNat := hlower.1
      have h₂ : c.toNat ≤ 'f'.toNat := hlower.2
      have : 'a'.toNat = 97 := rfl
      have : 'f'.toNat = 102 := rfl
      omega
    · have h₁ : 'A'.toNat ≤ c.toNat := hupper.1
      have h₂ : c.toNat ≤ 'F'.toNat := hupper.2
      have : 'A'.toNat = 65 := rfl
      have : 'F'.toNat = 70 := rfl
      omega
    · cases h
  · decide
  · decide

theorem QuantityChar.plain {c : Char} (h : QuantityChar c) : Plain c := by
  obtain ⟨hlow, -, hne⟩ := h.range
  have hquote : c ≠ '"' := by
    rintro rfl
    exact absurd hlow (by decide)
  have hback : c ≠ '\\' := by
    rintro rfl
    exact hne rfl
  rw [Plain, escapeChar, if_neg hquote, if_neg hback, if_neg (by omega)]

theorem byteLength_of_quantity (h : ∀ c ∈ cs, QuantityChar c) :
    byteLength cs = cs.length := by
  induction cs with
  | nil => rfl
  | cons c cs ih =>
    obtain ⟨hc, hcs⟩ := List.forall_mem_cons.mp h
    have hsize : c.utf8Size = 1 := by
      rw [Char.utf8Size_eq_one_iff]
      have := hc.range
      rw [UInt32.le_iff_toNat_le]
      change c.toNat ≤ 127
      omega
    have ih := ih hcs
    simp only [byteLength, List.map_cons, List.sum_cons, List.length_cons, hsize] at ih ⊢
    omega

/-- Escaping changes nothing that is a quantity, and makes nothing one. -/
theorem toOption_decodeUint64_escapeText (cs : List Char) :
    (decodeUint64 (escapeText cs)).toOption = (decodeUint64 cs).toOption := by
  have hescaped : ∀ n, decodeUint64 (escapeText cs) = .ok n → escapeText cs = cs := by
    intro n h
    refine escapeText_of_plain (plain_of_backslash fun hmem => ?_)
    exact ((decodeUint64_ok h).2 _ hmem).range.2.2 rfl
  have hplain : ∀ n, decodeUint64 cs = .ok n → escapeText cs = cs := by
    intro n h
    exact escapeText_of_plain fun c hc => ((decodeUint64_ok h).2 c hc).plain
  cases hraw : decodeUint64 (escapeText cs) with
  | ok n => rw [← hraw, hescaped n hraw]
  | error e =>
    cases hcs : decodeUint64 cs with
    | ok n =>
      rw [hplain n hcs, hcs] at hraw
      cases hraw
    | error e' => rfl

theorem has0x_iff :
    has0x cs = true ↔ ∃ x rest, cs = '0' :: x :: rest ∧ (x = 'x' ∨ x = 'X') := by
  unfold has0x
  split
  next x rest => simp
  next hnot =>
    refine iff_of_false Bool.false_ne_true ?_
    rintro ⟨x, rest, rfl, -⟩
    exact hnot x rest rfl

theorem escapeText_cons (c : Char) (cs : List Char) :
    escapeText (c :: cs) = c :: escapeText cs ∨ ∃ rest, escapeText (c :: cs) = '\\' :: rest := by
  rw [escapeText, List.flatMap_cons, escapeChar]
  split_ifs
  · exact .inr ⟨_, rfl⟩
  · exact .inr ⟨_, rfl⟩
  · exact .inr ⟨_, rfl⟩
  · exact .inl rfl

theorem has0x_escapeText (cs : List Char) : has0x (escapeText cs) = has0x cs := by
  refine Bool.eq_iff_iff.mpr ?_
  rw [has0x_iff, has0x_iff]
  constructor
  · rintro ⟨x, rest, heq, hx⟩
    cases cs with
    | nil => cases heq
    | cons c cs =>
      rcases escapeText_cons c cs with h | ⟨rest', h⟩
      · obtain ⟨rfl, htail⟩ := List.cons.inj (h.symm.trans heq)
        cases cs with
        | nil => cases htail
        | cons c' cs =>
          rcases escapeText_cons c' cs with h' | ⟨rest', h'⟩
          · obtain ⟨rfl, -⟩ := List.cons.inj (h'.symm.trans htail)
            exact ⟨c', cs, rfl, hx⟩
          · obtain ⟨rfl, -⟩ := List.cons.inj (h'.symm.trans htail)
            exact absurd hx (by decide)
      · rw [h] at heq
        exact absurd (List.cons.inj heq).1 (by decide)
  · rintro ⟨x, rest, rfl, hx⟩
    refine ⟨x, escapeText rest, ?_, hx⟩
    rcases hx with rfl | rfl <;> rfl

/-! ## When the decoders agree -/

/-- The tags the API knows. -/
def knownTags : List String := ["earliest", "latest", "finalized", "safe", "pending"]

/-- The text is a number, in hexadecimal with `0x` or in decimal. -/
def NumberText (s : String) (n : ℕ) : Prop :=
  has0x s.toList = true ∧ s.toList.drop 2 ≠ [] ∧ parseDigits 0 (s.toList.drop 2) = some n ∨
    s.toList ≠ [] ∧ s.toList.all isDigit = true ∧ decimalValue s.toList = n

structure DecodesUniformly (E : Env) (s : String) : Prop where
  same : (BlockNumberOrHash.unmarshalJSON E (jsonString s)).toOption =
    (BlockNumber.unmarshalJSON E (jsonString s)).toOption.map fun n => { blockNumber := some n }
  strict : ∀ n, BlockNumber.unmarshalJSON E (jsonString s) = .ok n →
    s ∈ knownTags ∨ ∃ k : ℕ, (k : ℤ) ≤ maxInt64 ∧ NumberText s k ∧ n = k

/-- The string does not reach the cast, or the cast gives a number that is too large. -/
def SafelyDecoded (E : Env) (s : String) : Prop :=
  s ∈ ["earliest", "latest", "finalized", "pending"] ∨ s = "" ∨ has0x s.toList = true ∨
    s ≠ "safe" ∧ maxInt64 < E.castToUint64 (String.ofList (escapeText s.toList))

section Agreement

variable {E : Env} {s : String}

theorem unmarshalJSON_of_no_tag (h : s ∉ knownTags) :
    BlockNumber.unmarshalJSON E (jsonString s) = (do
      let blckNum ← BlockNumber.decodeNumber E (String.ofList (escapeText s.toList))
      if (blckNum : ℤ) > maxInt64 then .error (.plain "block number larger than int64")
      else .ok (blckNum : ℤ)) := by
  simp only [knownTags, List.mem_cons, List.not_mem_nil, or_false, not_or] at h
  obtain ⟨hearliest, hlatest, hfinalized, hsafe, hpending⟩ := h
  have hne : ∀ word : String, word.toList.all (Plain ·) = true → s ≠ word →
      String.ofList (escapeText s.toList) ≠ word :=
    fun word hplain hword heq => hword ((ofList_escapeText_eq_iff hplain).mp heq)
  rw [unmarshalJSON_jsonString, BlockNumber.decode, if_neg (hne _ (by decide) hearliest), if_neg,
    if_neg (hne _ (by decide) hpending)]
  rintro (heq | heq | heq)
  · exact hne _ (by decide) hlatest heq
  · exact hne _ (by decide) hfinalized heq
  · exact hne _ (by decide) hsafe heq

/-- The other decoder on a string that is none of its tags: a quantity, as the length is not that
of a hash. -/
theorem decodeFromString_of_no_tag (h : s ∉ ["earliest", "latest", "finalized", "pending"])
    (hlen : s.length ≠ 66) :
    (BlockNumberOrHash.decodeFromString s).toOption =
      ((decodeUint64 s.toList).toOption.filter fun n : ℕ => (n : ℤ) ≤ maxInt64).map fun n : ℕ =>
        { blockNumber := some (n : ℤ) } := by
  simp only [List.mem_cons, List.not_mem_nil, or_false, not_or] at h
  obtain ⟨hearliest, hlatest, hfinalized, hpending⟩ := h
  rw [BlockNumberOrHash.decodeFromString, if_neg hearliest, if_neg (by simp [hlatest, hfinalized]),
    if_neg hpending]
  have hascii : (∀ c ∈ s.toList, QuantityChar c) → byteLength s.toList ≠ 66 := by
    intro hquantity
    rwa [byteLength_of_quantity hquantity, String.length_toList]
  by_cases hbytes : byteLength s.toList = 66
  · -- 66 bytes that are not 66 characters are neither a hash nor a quantity
    rw [if_pos hbytes]
    cases hhash : hashUnmarshalText s.toList with
    | ok hash => exact absurd hbytes (hascii (hashUnmarshalText_ok hhash).2)
    | error e =>
      cases hnum : decodeUint64 s.toList with
      | ok n => exact absurd hbytes (hascii (decodeUint64_ok hnum).2)
      | error e' => rfl
  · rw [if_neg hbytes]
    cases hnum : decodeUint64 s.toList with
    | error e => rfl
    | ok n =>
      rw [ok_bind]
      by_cases hmax : (n : ℤ) ≤ maxInt64
      · have hsafe : BlockNumberOrHash.safeInt64 n = .ok (n : ℤ) := if_neg (not_lt.mpr hmax)
        rw [hsafe]
        simp [Except.toOption, Option.filter, hmax]
      · obtain ⟨e, hsafe⟩ : ∃ e, BlockNumberOrHash.safeInt64 n = .error e :=
          ⟨_, if_pos (not_le.mp hmax)⟩
        rw [hsafe]
        simp [Except.toOption, Option.filter, hmax]

theorem unmarshalJSON_of_quantity (h : s ∉ knownTags)
    (hstart : s.toList = [] ∨ has0x s.toList = true) :
    (BlockNumber.unmarshalJSON E (jsonString s)).toOption =
      ((decodeUint64 s.toList).toOption.filter fun n : ℕ => (n : ℤ) ≤ maxInt64).map fun n : ℕ =>
        (n : ℤ) := by
  have hraw : escapeText s.toList = [] ∨ has0x (escapeText s.toList) = true := by
    rcases hstart with hnil | hx
    · exact .inl (by rw [hnil]; rfl)
    · exact .inr (by rw [has0x_escapeText, hx])
  have hmissing := decodeUint64_ne_missing hraw
  rw [unmarshalJSON_of_no_tag h, ← toOption_decodeUint64_escapeText, BlockNumber.decodeNumber,
    String.toList_ofList]
  cases hnum : decodeUint64 (escapeText s.toList) with
  | error e =>
    rw [hnum] at hmissing
    have hne : e ≠ errMissingPrefix := fun heq => hmissing (congrArg _ heq)
    dsimp only
    rw [if_neg hne]
    rfl
  | ok n =>
    dsimp only
    rw [ok_bind]
    by_cases hmax : (n : ℤ) ≤ maxInt64
    · rw [if_neg (not_lt.mpr hmax)]
      simp [Except.toOption, Option.filter, hmax]
    · rw [if_pos (not_le.mp hmax)]
      simp [Except.toOption, Option.filter, hmax]

/-- The number decoder on anything else: the cast. -/
theorem unmarshalJSON_of_cast (h : s ∉ knownTags) (hne : s.toList ≠ [])
    (hno : has0x s.toList = false) :
    BlockNumber.unmarshalJSON E (jsonString s) =
      if (E.castToUint64 (String.ofList (escapeText s.toList)) : ℤ) > maxInt64 then
        .error (.plain "block number larger than int64")
      else .ok (E.castToUint64 (String.ofList (escapeText s.toList)) : ℤ) := by
  have hraw : escapeText s.toList ≠ [] := by
    cases hs : s.toList with
    | nil => exact absurd hs hne
    | cons c cs =>
      rcases escapeText_cons c cs with heq | ⟨rest, heq⟩ <;> simp [heq]
  have hmissing := decodeUint64_of_missing hraw ((has0x_escapeText _).trans hno)
  rw [unmarshalJSON_of_no_tag h, BlockNumber.decodeNumber, String.toList_ofList, hmissing]
  dsimp only
  rw [if_pos rfl, ok_bind]

theorem parseDigits_of_parseHexUint64 {acc : ℕ} (h : parseHexUint64 acc cs = .ok n) :
    parseDigits acc cs = some n := by
  induction cs generalizing acc with
  | nil => exact congrArg some (Except.ok.inj h)
  | cons c cs ih =>
    unfold parseHexUint64 at h
    unfold parseDigits
    cases hc : hexVal c with
    | none => simp [hc] at h
    | some d =>
      simp only [hc] at h
      split_ifs at h
      exact ih h

theorem numberText_of_decodeUint64 (h : decodeUint64 s.toList = .ok n) : NumberText s n := by
  obtain ⟨digits, hcheck, hparse⟩ := bind_eq_ok.mp h
  obtain ⟨hstart, rfl, hne⟩ := checkNumber_ok hcheck
  exact .inl ⟨hstart, hne, parseDigits_of_parseHexUint64 hparse⟩

end Agreement

/-- **Uniform block parameters.** The two decoders agree on a string that is not as long as a hash,
and accept only tags and numbers, exactly if the string is one of the tags both know, is empty,
starts with `0x`, or is cast to a number that is too large. -/
theorem block_param_uniform_iff (E : Env) (s : String) (hlen : s.length ≠ 66)
    (herased : ∃ e, E.sonicUnmarshalErased (jsonString s) = .error e)
    (hstring : E.sonicUnmarshalString (jsonString s) = .ok s) :
    DecodesUniformly E s ↔ SafelyDecoded E s := by
  have hother : BlockNumberOrHash.unmarshalJSON E (jsonString s) =
      BlockNumberOrHash.decodeFromString s := by
    obtain ⟨e, he⟩ := herased
    rw [BlockNumberOrHash.unmarshalJSON, he, hstring]
    rfl
  by_cases htag : s ∈ ["earliest", "latest", "finalized", "pending"]
  · refine iff_of_true ⟨?_, fun n _ => .inl ?_⟩ (.inl htag)
    · rw [hother]
      simp only [List.mem_cons, List.not_mem_nil, or_false] at htag
      rcases htag with rfl | rfl | rfl | rfl <;> rfl
    · simp only [List.mem_cons, List.not_mem_nil, or_false] at htag
      rcases htag with rfl | rfl | rfl | rfl <;> simp [knownTags]
  have hquantity := decodeFromString_of_no_tag htag hlen
  rw [← hother] at hquantity
  by_cases hsafe : s = "safe"
  · -- only one decoder knows the tag
    subst hsafe
    refine iff_of_false (fun h => ?_) ?_
    · have hsame := h.same
      rw [hquantity] at hsame
      exact absurd hsame (by
        rw [show BlockNumber.unmarshalJSON E (jsonString "safe") = .ok ethLatestBlockNumber from rfl,
          show decodeUint64 "safe".toList = .error errMissingPrefix from rfl]
        simp [Except.toOption])
    · rintro (h | h | h | h)
      · exact htag h
      · exact absurd h (by decide)
      · exact absurd h (by decide)
      · exact h.1 rfl
  have hknown : s ∉ knownTags := by
    simp only [List.mem_cons, List.not_mem_nil, or_false, not_or] at htag
    simp [knownTags, htag, hsafe]
  by_cases hstart : s.toList = [] ∨ has0x s.toList = true
  · have hnumber := @unmarshalJSON_of_quantity E s hknown hstart
    refine iff_of_true ⟨?_, fun n hn => .inr ?_⟩ ?_
    · rw [hquantity, hnumber, Option.map_map]
      rfl
    · rw [hn] at hnumber
      cases hnum : decodeUint64 s.toList with
      | error e =>
        rw [hnum] at hnumber
        cases hnumber
      | ok k =>
        by_cases hmax : (k : ℤ) ≤ maxInt64
        · refine ⟨k, hmax, numberText_of_decodeUint64 hnum, ?_⟩
          simpa [hnum, Except.toOption, Option.filter, hmax] using hnumber
        · simp [hnum, Except.toOption, Option.filter, hmax] at hnumber
    · rcases hstart with hnil | hx
      · exact .inr (.inl (String.toList_inj.mp hnil))
      · exact .inr (.inr (.inl hx))
  · obtain ⟨hne, hno⟩ := not_or.mp hstart
    have hno : has0x s.toList = false := by simpa using hno
    have hcast := @unmarshalJSON_of_cast E s hknown hne hno
    rw [decodeUint64_of_missing hne hno] at hquantity
    constructor
    · intro h
      have hsame := h.same
      rw [hquantity, hcast] at hsame
      refine .inr (.inr (.inr ⟨hsafe, ?_⟩))
      by_contra hle
      rw [if_neg hle] at hsame
      cases hsame
    · intro h
      have hlarge : (E.castToUint64 (String.ofList (escapeText s.toList)) : ℤ) > maxInt64 := by
        rcases h with h | h | h | h
        · exact absurd h htag
        · exact absurd (congrArg String.toList h) hne
        · exact absurd (Or.inr h) hstart
        · exact h.2
      rw [if_pos hlarge] at hcast
      refine ⟨?_, fun n hn => ?_⟩
      · rw [hquantity, hcast]
        rfl
      · rw [hcast] at hn
        cases hn

theorem block_param_uniform_iff_quantity : DecodesUniformly .sample "0x10" := by
  refine (block_param_uniform_iff .sample "0x10" (by decide) ⟨_, rfl⟩ (by rfl)).mpr ?_
  exact .inr (.inr (.inl rfl))

/-- A known tag, a word and a negative number, each decoded by one of the decoders only. -/
theorem block_param_not_uniform :
    BlockNumber.unmarshalJSON .sample (jsonString "safe") = .ok ethLatestBlockNumber ∧
      (∃ e, BlockNumberOrHash.unmarshalJSON .sample (jsonString "safe") = .error e) ∧
    BlockNumber.unmarshalJSON .sample (jsonString "newest") = .ok 0 ∧
      (∃ e, BlockNumberOrHash.unmarshalJSON .sample (jsonString "newest") = .error e) ∧
    BlockNumber.unmarshalJSON .sample (jsonString "-5") = .ok 0 ∧
    ¬ DecodesUniformly .sample "newest" := by
  have hword : BlockNumber.unmarshalJSON .sample (jsonString "newest") = .ok 0 := by rfl
  obtain ⟨e, he⟩ : ∃ e, BlockNumberOrHash.unmarshalJSON .sample (jsonString "newest") = .error e :=
    ⟨_, rfl⟩
  refine ⟨rfl, ⟨_, rfl⟩, hword, ⟨e, he⟩, rfl, fun h => ?_⟩
  have hsame := h.same
  rw [hword, he] at hsame
  cases hsame

end EvmGateway
