import EvmGateway.Indexer.Ranges
import EvmGateway.Lib.ByteOrder

/-!
# The bytes of keys

A key of the store is a byte for its collection, followed by a hash or a height and, in some
collections, by a position or the digest of a trace config.  Numbers are written as unsigned
64-bit words, most significant byte first.  Everything above this module works with `Key`, whose
order compares collection, hash or height, and position; `encode_lt_encode` says that this is the
byte order of the keys of the database, so that iterating over the one is iterating over the other.

Two kinds of bounds are used for iterators: from a height to the next height, and from a string to
`prefixRangeEnd` of it.  `inRange_txIndexKey` and `inRange_traceTxKey` say which keys they select.

## Main definitions

* `Key.encode` — the bytes of a key, put together by the functions of the source.
* `Key.Fits` — heights and positions are nonnegative and of their type.
* `KeyBytes.loadLastBlock`, `KeyBytes.loadFirstBlock` — over the bytes in the database.
-/

namespace EvmGateway

open Lib

variable {h : ℕ} {k : Key} {b : UInt8} {rest : Bytes}

/-! ## Keys of the source -/

def keyPrefixTxHash : UInt8 := 1
def keyPrefixTxIndex : UInt8 := 2
def keyPrefixRPCtxHash : UInt8 := 3
def keyPrefixRPCtxIndex : UInt8 := 4
def keyPrefixReceipt : UInt8 := 5
def keyPrefixBlockLogs : UInt8 := 6
def keyPrefixBlockMeta : UInt8 := 7
def keyPrefixBlockHash : UInt8 := 8
def keyPrefixTraceTx : UInt8 := 9
def keyPrefixTraceBlock : UInt8 := 10
def keyPrefixVirtualRPCtx : UInt8 := 11

/-- `sdk.Uint64ToBigEndian(uint64(n))` -/
def uint64ToBigEndian (n : ℤ) : Bytes := toBE 8 (n % 2 ^ 64).toNat

def txHashKey (hash : Hash) : Bytes := keyPrefixTxHash :: hash.bytes

def txIndexKey (blockNumber txIndex : ℤ) : Bytes :=
  keyPrefixTxIndex :: (uint64ToBigEndian blockNumber ++ uint64ToBigEndian txIndex)

def rpctxHashKey (hash : Hash) : Bytes := keyPrefixRPCtxHash :: hash.bytes

def rpctxIndexKey (blockNumber txIndex : ℤ) : Bytes :=
  keyPrefixRPCtxIndex :: (uint64ToBigEndian blockNumber ++ uint64ToBigEndian txIndex)

def receiptKey (hash : Hash) : Bytes := keyPrefixReceipt :: hash.bytes

def blockLogsKey (height : ℤ) : Bytes := keyPrefixBlockLogs :: uint64ToBigEndian height

def blockMetaKey (height : ℤ) : Bytes := keyPrefixBlockMeta :: uint64ToBigEndian height

def blockHashKey (hash : Hash) : Bytes := keyPrefixBlockHash :: hash.bytes

def virtualRPCtxKey (hash : Hash) : Bytes := keyPrefixVirtualRPCtx :: hash.bytes

def traceTxPrefixStart (hash : Hash) : Bytes := keyPrefixTraceTx :: hash.bytes

def traceBlockPrefixStart (height : ℤ) : Bytes := keyPrefixTraceBlock :: uint64ToBigEndian height

def traceTxKey (hash config : Hash) : Bytes := traceTxPrefixStart hash ++ config.bytes

def traceBlockKey (height : ℤ) (config : Hash) : Bytes := traceBlockPrefixStart height ++ config.bytes

def Key.encode : Key → Bytes
  | .txHash hash => txHashKey hash
  | .txIndex height index => txIndexKey height index
  | .rpcTxHash hash => rpctxHashKey hash
  | .rpcTxIndex height index => rpctxIndexKey height index
  | .receipt hash => receiptKey hash
  | .blockLogs height => blockLogsKey height
  | .blockMeta height => blockMetaKey height
  | .blockHash hash => blockHashKey hash
  | .traceTx hash config => traceTxKey hash config
  | .traceBlock height config => traceBlockKey height config
  | .virtualRPCtx hash => virtualRPCtxKey hash

/-- The heights are nonnegative `int64`s and the positions nonnegative `int32`s. -/
def Key.Fits : Key → Prop
  | .txIndex height index | .rpcTxIndex height index => height < 2 ^ 63 ∧ 0 ≤ index ∧ index < 2 ^ 31
  | .blockLogs height | .blockMeta height | .traceBlock height _ => height < 2 ^ 63
  | _ => True

/-! ## Parts of a key -/

theorem uint64ToBigEndian_natCast {n : ℕ} (h : n < 2 ^ 64) : uint64ToBigEndian n = toBE 8 n := by
  rw [uint64ToBigEndian, Int.emod_eq_of_lt (by omega) (by omega), Int.toNat_natCast]

theorem uint64ToBigEndian_of_nonneg {n : ℤ} (h0 : 0 ≤ n) (h : n < 2 ^ 64) :
    uint64ToBigEndian n = toBE 8 n.toNat := by
  rw [uint64ToBigEndian, Int.emod_eq_of_lt h0 (by omega)]

namespace Key

/-- The number of bytes of a key's hash or height. -/
def subjectWidth : Key → ℕ
  | txIndex _ _ | rpcTxIndex _ _ | blockLogs _ | blockMeta _ | traceBlock _ _ => 8
  | _ => 32

/-- The number of bytes of a key's position or digest. -/
def positionWidth : Key → ℕ
  | txIndex _ _ | rpcTxIndex _ _ => 8
  | traceTx _ _ | traceBlock _ _ => 32
  | _ => 0

variable {k k' : Key}

theorem widths_eq (h : k.collection = k'.collection) :
    k.subjectWidth = k'.subjectWidth ∧ k.positionWidth = k'.positionWidth := by
  cases k <;> cases k' <;> simp_all [collection, subjectWidth, positionWidth]

theorem Fits.subject_lt (h : k.Fits) : k.subject < 256 ^ k.subjectWidth := by
  cases k with
  | txHash x | rpcTxHash x | receipt x | blockHash x | traceTx x _ | virtualRPCtx x => exact x.isLt
  | txIndex n i | rpcTxIndex n i =>
    have := h.1
    simp only [subject, subjectWidth]
    omega
  | blockLogs n | blockMeta n | traceBlock n c =>
    simp only [Fits] at h
    simp only [subject, subjectWidth]
    omega

theorem Fits.position_nonneg (h : k.Fits) : 0 ≤ k.position := by
  cases k with
  | txIndex n i | rpcTxIndex n i => exact h.2.1
  | _ => simp [position]

theorem Fits.position_lt (h : k.Fits) : k.position.toNat < 256 ^ k.positionWidth := by
  cases k with
  | traceTx x c | traceBlock n c => simpa [position, positionWidth] using c.isLt
  | txIndex n i | rpcTxIndex n i =>
    obtain ⟨-, h0, hi⟩ := h
    simp only [position, positionWidth]
    omega
  | _ => simp [position, positionWidth]

/-- **The parts of a key**: a byte, a number of one width, a number of another. -/
theorem Fits.encode_eq (h : k.Fits) :
    k.encode = UInt8.ofNat k.collection ::
      (toBE k.subjectWidth k.subject ++ toBE k.positionWidth k.position.toNat) := by
  cases k with
  | txIndex n i | rpcTxIndex n i =>
    obtain ⟨hn, h0, hi⟩ := h
    simp only [encode, txIndexKey, rpctxIndexKey,
      uint64ToBigEndian_natCast (show n < 2 ^ 64 by omega),
      uint64ToBigEndian_of_nonneg h0 (show i < 2 ^ 64 by omega)]
    rfl
  | blockLogs n | blockMeta n =>
    simp only [Fits] at h
    simp only [encode, blockLogsKey, blockMetaKey,
      uint64ToBigEndian_natCast (show n < 2 ^ 64 by omega), positionWidth, toBE, List.append_nil]
    rfl
  | traceBlock n c =>
    simp only [Fits] at h
    simp only [encode, traceBlockKey, traceBlockPrefixStart,
      uint64ToBigEndian_natCast (show n < 2 ^ 64 by omega), position, Int.toNat_natCast]
    rfl
  | traceTx x c =>
    simp only [position, Int.toNat_natCast]
    rfl
  | _ =>
    simp only [positionWidth, toBE, List.append_nil]
    rfl

theorem cmp_lt_iff : cmp k k' = .lt ↔ k.collection < k'.collection ∨
    k.collection = k'.collection ∧ (k.subject < k'.subject ∨
      k.subject = k'.subject ∧ k.position < k'.position) := by
  simp [cmp, compareLex, compareOn, Ordering.then_eq_lt, compare_lt_iff_lt]

theorem collection_lt : k.collection < 256 := by
  cases k <;> simp [collection]

theorem ofNat_collection_lt_iff :
    UInt8.ofNat k.collection < UInt8.ofNat k'.collection ↔ k.collection < k'.collection := by
  rw [UInt8.lt_iff_toNat_lt, UInt8.toNat_ofNat', UInt8.toNat_ofNat',
    Nat.mod_eq_of_lt (show k.collection < 2 ^ 8 from collection_lt),
    Nat.mod_eq_of_lt (show k'.collection < 2 ^ 8 from collection_lt)]

theorem ofNat_collection_inj :
    UInt8.ofNat k.collection = UInt8.ofNat k'.collection ↔ k.collection = k'.collection := by
  rw [← UInt8.toNat_inj, UInt8.toNat_ofNat', UInt8.toNat_ofNat',
    Nat.mod_eq_of_lt (show k.collection < 2 ^ 8 from collection_lt),
    Nat.mod_eq_of_lt (show k'.collection < 2 ^ 8 from collection_lt)]

/-- **The byte order of keys is the order of the store.** -/
theorem Fits.encode_lt_encode (h : k.Fits) (h' : k'.Fits) :
    k.encode < k'.encode ↔ cmp k k' = .lt := by
  rw [h.encode_eq, h'.encode_eq, List.cons_lt_cons_iff, ofNat_collection_lt_iff,
    ofNat_collection_inj, cmp_lt_iff]
  refine or_congr_right (and_congr_right fun hc => ?_)
  obtain ⟨hsubject, hposition⟩ := widths_eq hc
  have hslt := h'.subject_lt
  have hplt := h'.position_lt
  rw [← hsubject] at hslt
  rw [← hposition] at hplt
  rw [← hsubject, ← hposition, append_lt_append_iff (by simp), toBE_lt_toBE h.subject_lt hslt,
    toBE_inj h.subject_lt hslt, toBE_lt_toBE h.position_lt hplt]
  have h0 := h.position_nonneg
  have h0' := h'.position_nonneg
  refine or_congr_right (and_congr_right fun _ => ?_)
  omega

/-- Different keys have different bytes. -/
theorem Fits.encode_inj (h : k.Fits) (h' : k'.Fits) : k.encode = k'.encode ↔ k = k' := by
  constructor
  · intro heq
    have hlt : cmp k k' ≠ .lt := fun hlt =>
      List.lt_irrefl _ (heq ▸ (h.encode_lt_encode h').mpr hlt)
    have hgt : cmp k' k ≠ .lt := fun hlt =>
      List.lt_irrefl _ (heq ▸ (h'.encode_lt_encode h).mpr hlt)
    cases hcmp : cmp k k' with
    | lt => exact absurd hcmp hlt
    | eq => exact Std.LawfulEqCmp.eq_of_compare hcmp
    | gt => exact absurd (Std.OrientedCmp.lt_of_gt hcmp) hgt
  · rintro rfl
    rfl

end Key

/-! ## Bounds of a height -/

def txIndexPrefixStart (height : ℤ) : Bytes := keyPrefixTxIndex :: uint64ToBigEndian height

def txIndexPrefixEnd (height : ℤ) : Bytes :=
  keyPrefixTxIndex :: uint64ToBigEndian (wrap64 (height + 1))

def rpcTxIndexPrefixStart (height : ℤ) : Bytes := keyPrefixRPCtxIndex :: uint64ToBigEndian height

def rpcTxIndexPrefixEnd (height : ℤ) : Bytes :=
  keyPrefixRPCtxIndex :: uint64ToBigEndian (wrap64 (height + 1))

theorem uint64ToBigEndian_wrap64_add_one (hh : h < 2 ^ 63) :
    uint64ToBigEndian (wrap64 (h + 1)) = toBE 8 (h + 1) := by
  have hmod : wrap64 (h + 1) % 2 ^ 64 = h + 1 := by
    rw [wrap64, show (2 ^ 64 : ℤ) = ((2 ^ 64 : ℕ) : ℤ) by norm_num, Int.bmod_emod]
    omega
  rw [uint64ToBigEndian, hmod]
  rfl

/-- The range from a height to the next one, in a collection whose keys start with a height. -/
theorem inRange_height {c : UInt8} {n : ℕ} (hh : h < 2 ^ 63) (hn : n < 2 ^ 63) :
    InRange (b :: toBE 8 h) (some (b :: toBE 8 (h + 1))) (c :: (toBE 8 n ++ rest)) ↔
      c = b ∧ n = h := by
  have hlow : toBE 8 n ++ rest < toBE 8 h ++ [] ↔ n < h := by
    rw [append_lt_append_iff (by simp), toBE_lt_toBE (by omega) (by omega)]
    simp
  have hhigh : toBE 8 n ++ rest < toBE 8 (h + 1) ++ [] ↔ n < h + 1 := by
    rw [append_lt_append_iff (by simp), toBE_lt_toBE (by omega) (by omega)]
    simp
  rw [List.append_nil] at hlow hhigh
  rw [inRange_some, List.cons_le_cons_iff, List.cons_lt_cons_iff, hhigh, ← List.not_lt, hlow]
  constructor
  · rintro ⟨hbc | ⟨hbc, hle⟩, hcb | ⟨hcb, hlt⟩⟩
    · exact absurd hcb (UInt8.lt_asymm hbc)
    · exact absurd hbc (hcb ▸ UInt8.lt_irrefl c)
    · exact absurd hcb (hbc ▸ UInt8.lt_irrefl b)
    · exact ⟨hcb, by omega⟩
  · rintro ⟨rfl, rfl⟩
    exact ⟨.inr ⟨rfl, lt_irrefl _⟩, .inr ⟨rfl, Nat.lt_succ_self _⟩⟩

theorem not_inRange_of_ne {c : UInt8} {start stop : Bytes} (h : c ≠ b) :
    ¬ InRange (b :: start) (some (b :: stop)) (c :: rest) := by
  rw [inRange_some, List.cons_le_cons_iff, List.cons_lt_cons_iff]
  rintro ⟨hbc | ⟨hbc, -⟩, hcb | ⟨hcb, -⟩⟩
  · exact absurd hcb (UInt8.lt_asymm hbc)
  · exact h hcb
  · exact h hbc.symm
  · exact h hcb

theorem inRange_txIndexKey (hk : k.Fits) (hh : h < 2 ^ 63) :
    InRange (txIndexPrefixStart h) (some (txIndexPrefixEnd h)) k.encode ↔ ∃ i, k = .txIndex h i := by
  rw [txIndexPrefixStart, txIndexPrefixEnd, uint64ToBigEndian_natCast (by omega),
    uint64ToBigEndian_wrap64_add_one hh]
  cases k with
  | txIndex n i =>
    rw [hk.encode_eq]
    exact (inRange_height hh hk.1).trans (by simp [Key.collection, keyPrefixTxIndex])
  | _ => exact iff_of_false (not_inRange_of_ne (by decide)) (by simp)

theorem inRange_rpctxIndexKey (hk : k.Fits) (hh : h < 2 ^ 63) :
    InRange (rpcTxIndexPrefixStart h) (some (rpcTxIndexPrefixEnd h)) k.encode ↔
      ∃ i, k = .rpcTxIndex h i := by
  rw [rpcTxIndexPrefixStart, rpcTxIndexPrefixEnd, uint64ToBigEndian_natCast (by omega),
    uint64ToBigEndian_wrap64_add_one hh]
  cases k with
  | rpcTxIndex n i =>
    rw [hk.encode_eq]
    exact (inRange_height hh hk.1).trans (by simp [Key.collection, keyPrefixRPCtxIndex])
  | _ => exact iff_of_false (not_inRange_of_ne (by decide)) (by simp)

/-! ## Bounds of a string -/

/-- The loop of `prefixRangeEnd` from position `i - 1` down. -/
def raiseLast (stop : Bytes) : ℕ → Option Bytes
  | 0 => none
  | i + 1 =>
    match stop[i]? with
    | none => none
    | some b => if b = 0xff then raiseLast stop i else some (stop.take i ++ [b + 1])

/-- The end of the range of the keys that start with a string. -/
def prefixRangeEnd (p : Bytes) : Option Bytes := raiseLast p p.length

theorem raiseLast_append {p : Bytes} {i : ℕ} (hi : i ≤ p.length) :
    raiseLast (p ++ rest) i = raiseLast p i := by
  induction i with
  | zero => rfl
  | succ i ih =>
    rw [raiseLast, raiseLast, List.getElem?_append_left (by omega), ih (by omega),
      List.take_append_of_le_length (by omega)]

theorem prefixEnd_concat (p : Bytes) (b : UInt8) :
    prefixEnd (p ++ [b]) = if b = 0xff then prefixEnd p else some (p ++ [b + 1]) := by
  induction p with
  | nil => rfl
  | cons c p ih =>
    rw [List.cons_append, prefixEnd, ih]
    by_cases hb : b = 0xff
    · simp only [if_pos hb, prefixEnd]
    · simp only [if_neg hb, List.cons_append]

theorem prefixRangeEnd_eq (p : Bytes) : prefixRangeEnd p = prefixEnd p := by
  induction p using List.reverseRecOn with
  | nil => rfl
  | append_singleton p b ih =>
    rw [prefixRangeEnd, List.length_append, List.length_singleton, raiseLast, prefixEnd_concat,
      List.getElem?_concat_length, raiseLast_append le_rfl, List.take_left]
    simp only [← ih, prefixRangeEnd]

/-- **Prefix scans are exact.** -/
theorem prefix_scan_exact (p k : Bytes) : InRange p (prefixRangeEnd p) k ↔ p <+: k := by
  rw [prefixRangeEnd_eq]
  exact inRange_prefixEnd p k

example : prefixRangeEnd [1, 0xff, 0xff] = some [2] ∧ prefixRangeEnd [0xff, 0xff] = none := by decide

theorem Hash.bytes_inj {x y : Hash} : x.bytes = y.bytes ↔ x = y := by
  constructor
  · intro h
    rw [← bytesToHash_bytes x, h, bytesToHash_bytes]
  · rintro rfl
    rfl

/-- The scan for the traces of a transaction meets all of them and nothing else. -/
theorem inRange_traceTxKey (k : Key) (x : Hash) :
    InRange (traceTxPrefixStart x) (prefixRangeEnd (traceTxPrefixStart x)) k.encode ↔
      ∃ c, k = .traceTx x c := by
  rw [prefixRangeEnd_eq, inRange_prefixEnd]
  cases k with
  | traceTx y c =>
    refine (isPrefix_append_iff (by simp [traceTxPrefixStart, Hash.bytes])).trans ?_
    simp [traceTxPrefixStart, Hash.bytes_inj, eq_comm]
  | _ =>
    refine iff_of_false (fun h => ?_) (by simp)
    exact absurd (List.cons_prefix_cons.mp (show keyPrefixTraceTx :: _ <+: _ :: _ from h)).1
      (by decide)

/-- The scan for the traces of a block meets all of them and nothing else. -/
theorem inRange_traceBlockKey (hk : k.Fits) (hh : h < 2 ^ 63) :
    InRange (traceBlockPrefixStart h) (prefixRangeEnd (traceBlockPrefixStart h)) k.encode ↔
      ∃ c, k = .traceBlock h c := by
  rw [prefixRangeEnd_eq, inRange_prefixEnd]
  cases k with
  | traceBlock n c =>
    have hn : n < 2 ^ 63 := hk
    refine (isPrefix_append_iff (by simp [traceBlockPrefixStart, uint64ToBigEndian])).trans ?_
    rw [traceBlockPrefixStart, traceBlockPrefixStart, List.cons.injEq,
      uint64ToBigEndian_natCast (by omega), uint64ToBigEndian_natCast (by omega),
      toBE_inj (by omega) (by omega)]
    simp [eq_comm]
  | _ =>
    refine iff_of_false (fun h => ?_) (by simp)
    exact absurd (List.cons_prefix_cons.mp (show keyPrefixTraceBlock :: _ <+: _ :: _ from h)).1
      (by decide)

/-! ## Reading heights back -/

def txIndexKeyLength : ℕ := 1 + 8 + 8

def heightKeyLength : ℕ := 1 + 8

def parseBlockNumberFromKey (key : Bytes) : Except Err ℤ :=
  if key.length ≠ txIndexKeyLength then
    .error (.plain
      s!"wrong tx index key length, expect: {txIndexKeyLength}, got: {key.length}")
  else .ok (wrap64 (ofBE ((key.drop 1).take 8)))

def parseHeightFromHeightKey (key : Bytes) (collection : UInt8) : Except Err ℤ :=
  if key.length ≠ heightKeyLength then
    .error (.plain s!"wrong height key length, expect: {heightKeyLength}, got: {key.length}")
  else if key.headD 0 ≠ collection then
    .error (.plain s!"unexpected key prefix: {key.headD 0}")
  else .ok (wrap64 (ofBE (key.drop 1)))

theorem wrap64_ofBE_toBE (hh : h < 2 ^ 63) : wrap64 (ofBE (toBE 8 h)) = h := by
  rw [ofBE_toBE, Nat.mod_eq_of_lt (by omega), wrap64_eq_self ⟨by omega, by omega⟩]

theorem parseBlockNumberFromKey_txIndexKey (hh : h < 2 ^ 63) (i : ℤ) :
    parseBlockNumberFromKey (txIndexKey h i) = .ok h := by
  have hlen : (txIndexKey h i).length = txIndexKeyLength := by
    simp [txIndexKey, uint64ToBigEndian, txIndexKeyLength]
  have hword : ((txIndexKey h i).drop 1).take 8 = toBE 8 h := by
    rw [txIndexKey, List.drop_one, List.tail_cons, uint64ToBigEndian_natCast (by omega),
      List.take_left' (by simp)]
  rw [parseBlockNumberFromKey, if_neg (by simp [hlen]), hword, wrap64_ofBE_toBE hh]

theorem parseHeightFromHeightKey_cons (hh : h < 2 ^ 63) (collection : UInt8) :
    parseHeightFromHeightKey (collection :: uint64ToBigEndian h) collection = .ok h := by
  have hlen : (collection :: uint64ToBigEndian h).length = heightKeyLength := by
    simp [uint64ToBigEndian, heightKeyLength]
  rw [parseHeightFromHeightKey, if_neg (by simp [hlen]), List.headD_cons, if_neg (by simp),
    List.drop_one, List.tail_cons, uint64ToBigEndian_natCast (by omega), wrap64_ofBE_toBE hh]

/-! ## Iterating over the bytes -/

/-- The keys an iterator visits, in order. -/
def iterator (keys : List Bytes) (start : Bytes) (stop : Option Bytes) : List Bytes :=
  keys.filter fun k => InRange start stop k

namespace KeyBytes

/-- `LoadLastBlock`, given the keys of the database in ascending order. -/
def loadLastBlock (keys : List Bytes) : Except Err ℤ :=
  match (iterator keys [keyPrefixBlockMeta] (some [keyPrefixBlockMeta + 1])).reverse.head? with
  | some key => parseHeightFromHeightKey key keyPrefixBlockMeta
  | none =>
    match (iterator keys [keyPrefixTxIndex] (some [keyPrefixTxIndex + 1])).reverse.head? with
    | some key => parseBlockNumberFromKey key
    | none => .ok (-1)

/-- `LoadFirstBlock`, given the keys of the database in ascending order. -/
def loadFirstBlock (keys : List Bytes) : Except Err ℤ :=
  match (iterator keys [keyPrefixBlockMeta] (some [keyPrefixBlockMeta + 1])).head? with
  | some key => parseHeightFromHeightKey key keyPrefixBlockMeta
  | none =>
    match (iterator keys [keyPrefixTxIndex] (some [keyPrefixTxIndex + 1])).head? with
    | some key => parseBlockNumberFromKey key
    | none => .ok (-1)

end KeyBytes

namespace DB

def byteKeys (db : DB) : List Bytes := collect db fun k _ => some k.encode

/-- The keys of the store are of their types. -/
def Fits (db : DB) : Prop := ∀ k v, db.get? k = some v → k.Fits

variable {db : DB}

theorem Fits.insert (hdb : db.Fits) (hk : k.Fits) (v : k.Val) :
    DB.Fits (Std.ExtDTreeMap.insert db k v) := by
  intro k' v' h
  rw [Std.ExtDTreeMap.get?_insert] at h
  split at h
  · next heq =>
    rw [← Std.LawfulEqCmp.compare_eq_iff_eq.mp heq]
    exact hk
  · exact hdb k' v' h

/-- The bytes ascend. -/
theorem byteKeys_sorted (hdb : db.Fits) : db.byteKeys.Pairwise (· < ·) := by
  have hsorted := Std.ExtDTreeMap.ordered_keys_toList (t := db)
  rw [byteKeys, collect, List.pairwise_filterMap]
  refine hsorted.imp_of_mem fun {e e'} he he' hlt b hb b' hb' => ?_
  obtain rfl := Option.some.inj hb
  obtain rfl := Option.some.inj hb'
  have hfits := hdb e.1 e.2 (Std.ExtDTreeMap.mem_toList_iff_get?_eq_some.mp he)
  have hfits' := hdb e'.1 e'.2 (Std.ExtDTreeMap.mem_toList_iff_get?_eq_some.mp he')
  exact (hfits.encode_lt_encode hfits').mpr hlt

/-- The range of a collection: its byte up to the next one. -/
theorem inRange_collection (hb : b ≠ 0xff) (hk : k.Fits) :
    InRange [b] (some [b + 1]) k.encode ↔ UInt8.ofNat k.collection = b := by
  rw [hk.encode_eq, inRange_some, List.cons_le_cons_iff, List.cons_lt_cons_iff, lt_add_one_iff hb]
  simp only [List.nil_le, and_true, List.not_lt_nil, and_false, or_false]
  constructor
  · rintro ⟨hlt | heq, hlt' | heq'⟩
    · exact absurd hlt' (UInt8.lt_asymm hlt)
    · exact heq'
    · exact heq.symm
    · exact heq'
  · intro h
    exact ⟨.inr h.symm, .inr h⟩

/-- What an iterator over a collection visits, given how its keys are read and written. -/
theorem iterator_byteKeys {α : Type} (hdb : db.Fits) (hb : b ≠ 0xff)
    {read : (k : Key) → k.Val → Option α} {write : α → Bytes} (hread : ∀ (k : Key) (v : k.Val),
      (read k v).map write = if UInt8.ofNat k.collection = b then some k.encode else none) :
    iterator db.byteKeys [b] (some [b + 1]) = (collect db read).map write := by
  rw [iterator, byteKeys, collect, collect, List.filter_filterMap, List.map_filterMap]
  refine List.filterMap_congr fun e he => ?_
  have hfits := hdb e.1 e.2 (Std.ExtDTreeMap.mem_toList_iff_get?_eq_some.mp he)
  rw [hread, Option.filter_some]
  simp only [decide_eq_true_eq, inRange_collection hb hfits]

theorem iterator_metas (hdb : db.Fits) :
    iterator db.byteKeys [keyPrefixBlockMeta] (some [keyPrefixBlockMeta + 1]) =
      db.metaHeights.map fun h : ℕ => blockMetaKey h := by
  refine iterator_byteKeys hdb (show keyPrefixBlockMeta ≠ 0xff by decide) fun k v => ?_
  cases k <;> rfl

/-- The heights and positions of the Ethereum index, ascending. -/
def txIndexPositions (db : DB) : List (ℕ × ℤ) :=
  collect db fun k _ =>
    match k with
    | .txIndex h i => some (h, i)
    | _ => none

theorem map_fst_txIndexPositions (db : DB) : db.txIndexPositions.map Prod.fst =
    db.txIndexHeights := by
  rw [txIndexPositions, txIndexHeights, collect, collect, List.map_filterMap]
  refine List.filterMap_congr fun e _ => ?_
  obtain ⟨k, v⟩ := e
  cases k <;> rfl

theorem iterator_txIndexes (hdb : db.Fits) :
    iterator db.byteKeys [keyPrefixTxIndex] (some [keyPrefixTxIndex + 1]) =
      db.txIndexPositions.map fun e => txIndexKey e.1 e.2 := by
  refine iterator_byteKeys hdb (show keyPrefixTxIndex ≠ 0xff by decide) fun k v => ?_
  cases k <;> rfl

theorem Fits.of_metaHeights (hdb : db.Fits) (hh : h ∈ db.metaHeights) : h < 2 ^ 63 := by
  obtain ⟨v, hv⟩ := Option.isSome_iff_exists.mp (DB.mem_metaHeights.mp hh)
  exact hdb (.blockMeta h) v hv

theorem Fits.of_txIndexHeights (hdb : db.Fits) (hh : h ∈ db.txIndexHeights) :
    h < 2 ^ 63 := by
  obtain ⟨x, i, hx⟩ := DB.mem_txIndexHeights.mp hh
  exact (hdb (.txIndex h i) x hx).1

theorem parse_meta (hdb : db.Fits) (hh : h ∈ db.metaHeights) :
    parseHeightFromHeightKey (blockMetaKey h) keyPrefixBlockMeta = .ok h :=
  parseHeightFromHeightKey_cons (hdb.of_metaHeights hh) _

/-- **The scan over the bytes finds the last indexed height** of the store. -/
theorem loadLastBlock_byteKeys (hdb : db.Fits) :
    KeyBytes.loadLastBlock db.byteKeys = .ok (EvmGateway.loadLastBlock db) := by
  rw [KeyBytes.loadLastBlock, EvmGateway.loadLastBlock, iterator_metas hdb, iterator_txIndexes hdb,
    List.head?_reverse, List.head?_reverse, List.getLast?_map, List.getLast?_map,
    ← map_fst_txIndexPositions, List.getLast?_map]
  cases hmeta : db.metaHeights.getLast? with
  | some h => exact parse_meta hdb (List.mem_of_getLast? hmeta)
  | none =>
    cases hindex : db.txIndexPositions.getLast? with
    | none => rfl
    | some e =>
      have hmem : e.1 ∈ db.txIndexHeights := by
        rw [← map_fst_txIndexPositions]
        exact List.mem_map_of_mem (List.mem_of_getLast? hindex)
      exact parseBlockNumberFromKey_txIndexKey (hdb.of_txIndexHeights hmem) e.2

theorem loadFirstBlock_byteKeys (hdb : db.Fits) (hh : db.metaHeights.head? = some h) :
    KeyBytes.loadFirstBlock db.byteKeys = .ok h := by
  rw [KeyBytes.loadFirstBlock, iterator_metas hdb, List.head?_map, hh]
  exact parse_meta hdb (List.mem_of_head? hh)

theorem exists_loadBlocks (hdb : db.Fits) (hh : (db.get? (.blockMeta h)).isSome) :
    ∃ first last : ℕ, KeyBytes.loadFirstBlock db.byteKeys = .ok first ∧
      KeyBytes.loadLastBlock db.byteKeys = .ok last ∧ (db.get? (.blockMeta first)).isSome ∧
      (db.get? (.blockMeta last)).isSome ∧ first ≤ h ∧ h ≤ last := by
  have hmem := DB.mem_metaHeights.mpr hh
  have hne : db.metaHeights ≠ [] := List.ne_nil_of_mem hmem
  have hfirst := List.head?_eq_some_head hne
  have hlast := List.getLast?_eq_some_getLast hne
  refine ⟨_, _, loadFirstBlock_byteKeys hdb hfirst, ?_, DB.mem_metaHeights.mp (List.head_mem hne),
    DB.mem_metaHeights.mp (List.getLast_mem hne), ?_, le_last_of_mem db.metaHeights_sorted hlast hmem⟩
  · rw [loadLastBlock_byteKeys hdb, EvmGateway.loadLastBlock, hlast]
  · have hsorted := db.metaHeights_sorted
    obtain ⟨rest, hrest⟩ : ∃ rest, db.metaHeights = db.metaHeights.head hne :: rest :=
      ⟨_, (List.cons_head_tail hne).symm⟩
    rw [hrest] at hmem hsorted
    rcases List.mem_cons.mp hmem with rfl | hmem
    · exact le_rfl
    · exact (List.pairwise_cons.mp hsorted).1 h hmem

end DB

/-! ## The layout -/

/-- **Key layout.**  Keys of the eleven collections differ in their bytes; the bytes of index keys
and height keys are ordered like their numbers; the bounds of a height select its index keys; the
parsers read heights back; and the scans over the metas find the least and the greatest height. -/
theorem key_layout :
    (∀ k k' : Key, k.Fits → k'.Fits → (k.encode = k'.encode ↔ k = k')) ∧
    (∀ (h h' : ℕ) (i i' : ℤ), (Key.txIndex h i).Fits → (Key.txIndex h' i').Fits →
      (txIndexKey h i < txIndexKey h' i' ↔ h < h' ∨ h = h' ∧ i < i') ∧
      (rpctxIndexKey h i < rpctxIndexKey h' i' ↔ h < h' ∨ h = h' ∧ i < i')) ∧
    (∀ h h' : ℕ, h < 2 ^ 63 → h' < 2 ^ 63 →
      (blockMetaKey h < blockMetaKey h' ↔ h < h') ∧ (blockLogsKey h < blockLogsKey h' ↔ h < h')) ∧
    (∀ (h : ℕ) (k : Key), h < 2 ^ 63 → k.Fits →
      (InRange (txIndexPrefixStart h) (some (txIndexPrefixEnd h)) k.encode ↔
        ∃ i, k = .txIndex h i) ∧
      (InRange (rpcTxIndexPrefixStart h) (some (rpcTxIndexPrefixEnd h)) k.encode ↔
        ∃ i, k = .rpcTxIndex h i)) ∧
    (∀ (h : ℕ) (i : ℤ), h < 2 ^ 63 → parseBlockNumberFromKey (txIndexKey h i) = .ok (h : ℤ) ∧
      parseHeightFromHeightKey (blockMetaKey h) keyPrefixBlockMeta = .ok (h : ℤ) ∧
      parseHeightFromHeightKey (blockLogsKey h) keyPrefixBlockLogs = .ok (h : ℤ)) ∧
    ∀ db : DB, db.Fits → db.byteKeys.Pairwise (· < ·) ∧
      ∀ h : ℕ, (db.get? (.blockMeta h)).isSome → ∃ first last : ℕ,
        KeyBytes.loadFirstBlock db.byteKeys = .ok (first : ℤ) ∧
        KeyBytes.loadLastBlock db.byteKeys = .ok (last : ℤ) ∧
        (db.get? (.blockMeta first)).isSome ∧ (db.get? (.blockMeta last)).isSome ∧
        first ≤ h ∧ h ≤ last := by
  refine ⟨fun k k' hk hk' => hk.encode_inj hk', ?_, ?_, ?_, ?_, ?_⟩
  · intro h h' i i' hk hk'
    have hrpc : (Key.rpcTxIndex h i).Fits := hk
    have hrpc' : (Key.rpcTxIndex h' i').Fits := hk'
    constructor
    · refine (hk.encode_lt_encode hk').trans (Key.cmp_lt_iff.trans ?_)
      simp [Key.collection, Key.subject, Key.position]
    · refine (hrpc.encode_lt_encode hrpc').trans (Key.cmp_lt_iff.trans ?_)
      simp [Key.collection, Key.subject, Key.position]
  · intro h h' hh hh'
    have hmeta : (Key.blockMeta h).Fits := hh
    have hmeta' : (Key.blockMeta h').Fits := hh'
    have hlogs : (Key.blockLogs h).Fits := hh
    have hlogs' : (Key.blockLogs h').Fits := hh'
    constructor
    · refine (hmeta.encode_lt_encode hmeta').trans (Key.cmp_lt_iff.trans ?_)
      simp [Key.collection, Key.subject, Key.position]
    · refine (hlogs.encode_lt_encode hlogs').trans (Key.cmp_lt_iff.trans ?_)
      simp [Key.collection, Key.subject, Key.position]
  · intro h k hh hk
    exact ⟨inRange_txIndexKey hk hh, inRange_rpctxIndexKey hk hh⟩
  · intro h i hh
    exact ⟨parseBlockNumberFromKey_txIndexKey hh i, parseHeightFromHeightKey_cons hh _,
      parseHeightFromHeightKey_cons hh _⟩
  · intro db hdb
    exact ⟨db.byteKeys_sorted hdb, fun h hh => db.exists_loadBlocks hdb hh⟩

def CachedBlockMeta.empty (height : ℕ) : CachedBlockMeta where
  height := height
  hash := ""
  parentHash := ""
  stateRoot := ""
  miner := ""
  timestamp := 0
  size := 0
  gasLimit := 0
  gasUsed := 0
  ethTxCount := 0
  txCount := 0
  bloom := ""
  transactionsRoot := ""
  baseFee := ""
  virtualizedCosmosEvents := false

/-- A store with the metas of blocks 255 and 256, whose low bytes are in the other order. -/
def DB.twoMetas : DB :=
  Std.ExtDTreeMap.insert (Std.ExtDTreeMap.insert (∅ : DB) (.blockMeta 256) (.empty 256))
    (.blockMeta 255) (.empty 255)

theorem key_layout_twoMetas :
    blockMetaKey 255 < blockMetaKey 256 ∧ ∃ first last : ℕ,
      KeyBytes.loadFirstBlock DB.twoMetas.byteKeys = .ok (first : ℤ) ∧
      KeyBytes.loadLastBlock DB.twoMetas.byteKeys = .ok (last : ℤ) ∧
      first ≤ 255 ∧ 255 ≤ last := by
  obtain ⟨-, -, hheights, -, -, hscan⟩ := key_layout
  have hfits : DB.twoMetas.Fits := by
    refine DB.Fits.insert (DB.Fits.insert ?_ ?_ _) ?_ _
    · intro k v h
      rw [Std.ExtDTreeMap.get?_empty] at h
      exact absurd h (by simp)
    · exact (by decide : 256 < 2 ^ 63)
    · exact (by decide : 255 < 2 ^ 63)
  have hmeta : (DB.twoMetas.get? (.blockMeta 255)).isSome := by
    rw [DB.twoMetas, Std.ExtDTreeMap.get?_insert_self]
    rfl
  obtain ⟨first, last, hfirst, hlast, -, -, hle, hge⟩ := (hscan DB.twoMetas hfits).2 255 hmeta
  exact ⟨(hheights 255 256 (by decide) (by decide)).1.mpr (by decide),
    first, last, hfirst, hlast, hle, hge⟩

end EvmGateway
