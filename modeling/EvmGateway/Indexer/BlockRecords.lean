import EvmGateway.Indexer.Records

/-!
# What a block stores

`BlockRecords` is the abstract content of one indexed height: the block, its meta and
its visible transactions in order.  Its fields carry what the indexing loop
guarantees, so that a record list out of step with its positions cannot be built;
`blockWrites_ok` says that the batch of every successfully indexed block is the batch
of such a value.

`BlockRecords.get` reads a key from it.  The lemmas below compute `get` per
collection, in terms of the entries alone; what needs pairwise distinct hashes says so.
-/

namespace EvmGateway

open Lib

variable {R : BlockRecords} {x : Hash} {k : Key} {n p : ℕ} {e : Entry} {kv : KVIndexer}
  {block : Block} {i j : ℤ}

/-! ## Reading one entry -/

/-- The value an entry stores under a key. -/
def Entry.get (height : ℕ) (e : Entry) : (k : Key) → Option k.Val
  | .txHash x => if e.hash = x then e.result else none
  | .txIndex n i =>
    e.result.bind fun r => if r.height = n ∧ r.ethTxIndex = i then some e.hash else none
  | .rpcTxHash x => if e.hash = x then some e.tx else none
  | .rpcTxIndex n i =>
    if height = n ∧ e.receipt.transactionIndex = i then some e.hash else none
  | .receipt x => if e.hash = x then some e.receipt else none
  | .virtualRPCtx x => if e.hash = x ∧ e.result = none then some () else none
  | .blockLogs _ | .blockMeta _ | .blockHash _ | .traceTx _ _ | .traceBlock _ _ => none

/-- The batch of an entry writes exactly what the entry stores. -/
theorem Entry.lastWrite_writes (height : ℕ) (e : Entry) (k : Key) :
    lastWrite (e.writes height) k = (e.get height k).map some := by
  cases hr : e.result with
  | none =>
    cases k with
    | rpcTxHash x | receipt x | virtualRPCtx x | txHash x =>
      by_cases hx : e.hash = x
      · subst hx
        simp [Entry.writes, Entry.get, hr, Write.at_set_of_ne]
      · simp [Entry.writes, Entry.get, hr, Write.at_set_of_ne, hx]
    | rpcTxIndex n i =>
      by_cases hx : height = n ∧ (e.receipt.transactionIndex : ℤ) = i
      · obtain ⟨rfl, rfl⟩ := hx
        simp [Entry.writes, Entry.get, hr]
      · simp [Entry.writes, Entry.get, hr, Write.at_set_of_ne, hx]
    | _ => simp [Entry.writes, Entry.get, hr, Write.at_set_of_ne]
  | some r =>
    cases k with
    | rpcTxHash x | receipt x | virtualRPCtx x | txHash x =>
      by_cases hx : e.hash = x
      · subst hx
        simp [Entry.writes, saveTxResult, Entry.get, hr, Write.at_set_of_ne]
      · simp [Entry.writes, saveTxResult, Entry.get, hr, Write.at_set_of_ne, hx]
    | rpcTxIndex n i =>
      by_cases hx : height = n ∧ (e.receipt.transactionIndex : ℤ) = i
      · obtain ⟨rfl, rfl⟩ := hx
        simp [Entry.writes, saveTxResult, Entry.get, hr]
      · simp [Entry.writes, saveTxResult, Entry.get, hr, Write.at_set_of_ne, hx]
    | txIndex n i =>
      by_cases hx : r.height = n ∧ r.ethTxIndex = i
      · obtain ⟨rfl, rfl⟩ := hx
        simp [Entry.writes, saveTxResult, Entry.get, hr, Write.at_set_of_ne]
      · simp [Entry.writes, saveTxResult, Entry.get, hr, Write.at_set_of_ne, hx]
    | _ => simp [Entry.writes, saveTxResult, Entry.get, hr, Write.at_set_of_ne]

/-! ## The records of a block -/

/-- The content of one indexed height. -/
structure BlockRecords where
  block : Block
  blockMeta : CachedBlockMeta
  entries : List Entry
  meta_height : blockMeta.height = block.height
  meta_hash : blockMeta.hash = block.ethHash.hex
  meta_count : blockMeta.ethTxCount = entries.length
  entry_at : ∀ (i : ℕ) (e : Entry), entries[i]? = some e →
    e.At block i ((entries.take i).countP Entry.isEth)

namespace BlockRecords

/-- The hashes of the visible transactions. -/
def hashes (R : BlockRecords) : List Hash := R.entries.map Entry.hash

def logs (R : BlockRecords) : List (List RPCLog) := R.entries.map (·.receipt.logs)

/-- The writes of the block itself. -/
def closing (R : BlockRecords) : DBBatch :=
  [.set (.blockMeta R.block.height) R.blockMeta,
   .set (.blockHash R.block.ethHash) R.block.height,
   .set (.blockLogs R.block.height) R.logs]

def writes (R : BlockRecords) : DBBatch :=
  R.entries.flatMap (Entry.writes R.block.height) ++ R.closing

/-- The value the block itself stores under a key. -/
def blockGet (R : BlockRecords) : (k : Key) → Option k.Val
  | .blockMeta n => if R.block.height = n then some R.blockMeta else none
  | .blockHash x => if R.block.ethHash = x then some R.block.height else none
  | .blockLogs n => if R.block.height = n then some R.logs else none
  | .txHash _ | .txIndex _ _ | .rpcTxHash _ | .rpcTxIndex _ _ | .receipt _ | .traceTx _ _
  | .traceBlock _ _ | .virtualRPCtx _ => none

/-- The value stored under a key. -/
def get (R : BlockRecords) (k : Key) : Option k.Val := (lastWrite R.writes k).getD none

theorem lastWrite_closing (R : BlockRecords) (k : Key) :
    lastWrite R.closing k = (R.blockGet k).map some := by
  cases k with
  | blockMeta n | blockLogs n =>
    by_cases hn : R.block.height = n
    · subst hn
      simp [closing, blockGet, Write.at_set_of_ne]
    · simp [closing, blockGet, Write.at_set_of_ne, hn]
  | blockHash x =>
    by_cases hx : R.block.ethHash = x
    · subst hx
      simp [closing, blockGet, Write.at_set_of_ne]
    · simp [closing, blockGet, Write.at_set_of_ne, hx]
  | _ => simp [closing, blockGet, Write.at_set_of_ne]

/-- A block only puts values: what it writes last under a key is what `get` reads. -/
theorem lastWrite_writes (R : BlockRecords) (k : Key) :
    lastWrite R.writes k = (R.get k).map some := by
  have hput : lastWrite R.writes k ≠ some none := by
    intro h
    rw [writes, lastWrite_append, lastWrite_closing, Option.or_eq_some_iff] at h
    rcases h with h | ⟨_, h⟩
    · simp at h
    · obtain ⟨e, -, he⟩ := exists_mem_of_lastWrite_flatMap h
      rw [Entry.lastWrite_writes] at he
      simp at he
  rw [get]
  rcases h : lastWrite R.writes k with _ | _ | v
  · rfl
  · exact absurd h hput
  · rfl

/-- What is read under a key comes from the block itself or from the last of its entries
that stores the key. -/
theorem exists_last_of_get {v : k.Val} (h : R.get k = some v) :
    R.blockGet k = some v ∨ ∃ (p : ℕ) (e : Entry), R.entries[p]? = some e ∧
      e.get R.block.height k = some v ∧
      ∀ (q : ℕ) (e' : Entry), p < q → R.entries[q]? = some e' →
        e'.get R.block.height k = none := by
  have hw := R.lastWrite_writes k
  rw [h, writes, lastWrite_append, lastWrite_closing, Option.map_some, Option.or_eq_some_iff] at hw
  rcases hw with hw | ⟨_, hw⟩
  · exact .inl (by simpa using hw)
  · obtain ⟨p, e, hp, hv, hlater⟩ := exists_last_of_lastWrite_flatMap hw
    refine .inr ⟨p, e, hp, ?_, ?_⟩
    · simpa [Entry.lastWrite_writes] using hv
    · intro q e' hq he'
      simpa [Entry.lastWrite_writes] using hlater q e' hq he'

theorem exists_of_get {v : k.Val} (h : R.get k = some v) :
    R.blockGet k = some v ∨ ∃ e ∈ R.entries, e.get R.block.height k = some v := by
  rcases exists_last_of_get h with h | ⟨p, e, hp, hv, -⟩
  · exact .inl h
  · exact .inr ⟨e, List.mem_of_getElem? hp, hv⟩

/-- A key some entry stores is not left empty. -/
theorem exists_get_of_entry {v : k.Val} (he : e ∈ R.entries)
    (hv : e.get R.block.height k = some v) : ∃ v', R.get k = some v' := by
  by_contra hnone
  have hw := R.lastWrite_writes k
  rw [not_exists, ← Option.eq_none_iff_forall_ne_some] at hnone
  rw [hnone, writes, lastWrite_append, Option.map_none, Option.or_eq_none_iff] at hw
  have hlast := lastWrite_flatMap_eq_none.mp hw.2 e he
  rw [Entry.lastWrite_writes, hv] at hlast
  cases hlast

theorem get_of_blockGet {v : k.Val} (h : R.blockGet k = some v) :
    R.get k = some v := by
  rw [get, writes, lastWrite_append, lastWrite_closing, h]
  rfl

/-- An entry's value is read back when no other entry stores a different one. -/
theorem get_of_entry {v : k.Val} (he : e ∈ R.entries) (hv : e.get R.block.height k = some v)
    (hall : ∀ e' ∈ R.entries, ∀ v', e'.get R.block.height k = some v' → v' = v) :
    R.get k = some v := by
  have hblock : R.blockGet k = none := by
    cases k <;> first | rfl | simp [Entry.get] at hv
  have hlast : lastWrite (R.entries.flatMap (Entry.writes R.block.height)) k = some (some v) := by
    refine lastWrite_flatMap_of_agree ⟨e, he, by rw [Entry.lastWrite_writes, hv]; rfl⟩ ?_
    intro e' he' o ho
    rw [Entry.lastWrite_writes] at ho
    obtain ⟨v', hv', rfl⟩ := Option.map_eq_some_iff.mp ho
    rw [hall e' he' v' hv']
  rw [get, writes, lastWrite_append, lastWrite_closing, hblock, hlast]
  rfl

/-! ### Index collections -/

theorem getElem?_hashes (R : BlockRecords) (i : ℕ) :
    R.hashes[i]? = (R.entries[i]?).map Entry.hash := by
  simp [hashes]

theorem entry_rpcTxIndex (hp : R.entries[p]? = some e) :
    e.get R.block.height (.rpcTxIndex n i) = some x ↔
      R.block.height = n ∧ (p : ℤ) = i ∧ e.hash = x := by
  simp [Entry.get, (R.entry_at p e hp).receipt_index, and_assoc]

/-- **The visible index** of a block holds the hashes of its entries at their
positions, and nothing else. -/
theorem get_rpcTxIndex {R : BlockRecords} {n : ℕ} {i : ℤ} {x : Hash} :
    R.get (.rpcTxIndex n i) = some x ↔
      R.block.height = n ∧ 0 ≤ i ∧ R.hashes[i.toNat]? = some x := by
  constructor
  · intro h
    rcases exists_of_get h with h | ⟨e, he, hx⟩
    · simp [blockGet] at h
    · obtain ⟨p, hp⟩ := List.getElem?_of_mem he
      obtain ⟨hn, rfl, rfl⟩ := (entry_rpcTxIndex hp).mp hx
      exact ⟨hn, by omega, by simp [getElem?_hashes, hp]⟩
  · rintro ⟨rfl, h0, hx⟩
    rw [getElem?_hashes, Option.map_eq_some_iff] at hx
    obtain ⟨e, hp, rfl⟩ := hx
    refine get_of_entry (List.mem_of_getElem? hp)
      ((entry_rpcTxIndex hp).mpr ⟨rfl, Int.toNat_of_nonneg h0, rfl⟩) ?_
    intro e' he' x' hx'
    obtain ⟨p', hp'⟩ := List.getElem?_of_mem he'
    obtain ⟨-, rfl, rfl⟩ := (entry_rpcTxIndex hp').mp hx'
    rw [Int.toNat_natCast, hp'] at hp
    rw [Option.some.inj hp]

/-- The Ethereum position of an entry: the Ethereum entries before it. -/
def ethPosition (R : BlockRecords) (p : ℕ) : ℕ := (R.entries.take p).countP Entry.isEth

theorem ethPosition_lt {q : ℕ} (hp : R.entries[p]? = some e) (he : e.isEth = true) (hpq : p < q) :
    R.ethPosition p < R.ethPosition q := by
  have hsucc : R.ethPosition (p + 1) = R.ethPosition p + 1 := by
    simp [ethPosition, List.take_add_one, hp, he]
  have hmono : R.ethPosition (p + 1) ≤ R.ethPosition q :=
    (List.take_sublist_take_left hpq).countP_le
  omega

/-- An Ethereum entry stores its hash at its Ethereum position. -/
theorem entry_txIndex (hp : R.entries[p]? = some e) :
    e.get R.block.height (.txIndex n j) = some x ↔
      R.block.height = n ∧ e.isEth = true ∧ (R.ethPosition p : ℤ) = j ∧ e.hash = x := by
  cases hr : e.result with
  | none => simp [Entry.get, Entry.isEth, hr]
  | some r =>
    obtain ⟨hheight, hindex⟩ := (R.entry_at p e hp).result_position r hr
    simp [Entry.get, Entry.isEth, hr, hheight, hindex, ethPosition, and_assoc]

/-- **The Ethereum index** of a block holds the hashes of its Ethereum entries at
their Ethereum positions, and nothing else. -/
theorem get_txIndex :
    R.get (.txIndex n j) = some x ↔
      R.block.height = n ∧ ∃ p e, R.entries[p]? = some e ∧ e.isEth = true ∧
        (R.ethPosition p : ℤ) = j ∧ e.hash = x := by
  constructor
  · intro h
    rcases exists_of_get h with h | ⟨e, he, hx⟩
    · simp [blockGet] at h
    · obtain ⟨p, hp⟩ := List.getElem?_of_mem he
      obtain ⟨hn, heth, hj, hx⟩ := (entry_txIndex hp).mp hx
      exact ⟨hn, p, e, hp, heth, hj, hx⟩
  · rintro ⟨hn, p, e, hp, heth, hj, hx⟩
    refine get_of_entry (List.mem_of_getElem? hp) ((entry_txIndex hp).mpr ⟨hn, heth, hj, hx⟩) ?_
    intro e' he' x' hx'
    obtain ⟨p', hp'⟩ := List.getElem?_of_mem he'
    obtain ⟨-, heth', hj', rfl⟩ := (entry_txIndex hp').mp hx'
    -- two Ethereum entries with the same Ethereum position are the same entry
    have heq : R.ethPosition p = R.ethPosition p' := by omega
    rcases lt_trichotomy p p' with hlt | rfl | hlt
    · exact absurd heq (ethPosition_lt hp heth hlt).ne
    · rw [hp] at hp'
      rw [← hx, Option.some.inj hp']
    · exact absurd heq (ethPosition_lt hp' heth' hlt).ne'

/-- The hashes of the Ethereum transactions. -/
def ethHashes (R : BlockRecords) : List Hash := (R.entries.filter Entry.isEth).map Entry.hash

theorem get_txIndex_iff_ethHashes :
    R.get (.txIndex n j) = some x ↔
      R.block.height = n ∧ 0 ≤ j ∧ R.ethHashes[j.toNat]? = some x := by
  rw [get_txIndex, ethHashes, List.getElem?_map, Option.map_eq_some_iff]
  simp only [getElem?_filter_eq_some]
  constructor
  · intro h
    obtain ⟨hn, p, e, hp, heth, rfl, hx⟩ := h
    exact ⟨hn, by omega, e, ⟨p, hp, heth, by simp [ethPosition]⟩, hx⟩
  · intro h
    obtain ⟨hn, h0, e, ⟨p, hp, heth, hj⟩, hx⟩ := h
    exact ⟨hn, p, e, hp, heth, by rw [ethPosition, hj, Int.toNat_of_nonneg h0], hx⟩

/-! ### Hash-keyed collections -/

/-- With distinct hashes, a hash-keyed record is read from the one entry it is of. -/
theorem get_of_nodup (hnd : R.hashes.Nodup) {v : k.Val} (hblock : R.blockGet k = none)
    (hkey : ∀ (e : Entry) (v : k.Val), e.get R.block.height k = some v → k.subject = e.hash.toNat) :
    R.get k = some v ↔ ∃ e ∈ R.entries, e.get R.block.height k = some v := by
  constructor
  · intro h
    rcases exists_of_get h with h | h
    · rw [hblock] at h
      cases h
    · exact h
  · rintro ⟨e, he, hv⟩
    refine get_of_entry he hv ?_
    intro e' he' v' hv'
    have hhash : e'.hash = e.hash :=
      BitVec.eq_of_toNat_eq ((hkey e' v' hv').symm.trans (hkey e v hv))
    obtain rfl : e' = e := List.inj_on_of_nodup_map hnd he' he hhash
    rw [hv] at hv'
    exact (Option.some.inj hv').symm

theorem get_receipt (hnd : R.hashes.Nodup) {r : CachedReceipt} :
    R.get (.receipt x) = some r ↔ ∃ e ∈ R.entries, e.hash = x ∧ e.receipt = r := by
  rw [get_of_nodup hnd rfl]
  · simp [Entry.get]
  · intro e v hv
    simp only [Entry.get, Option.ite_none_right_eq_some] at hv
    exact congrArg BitVec.toNat hv.1.symm

theorem get_rpcTxHash (hnd : R.hashes.Nodup) {t : RPCTransaction} :
    R.get (.rpcTxHash x) = some t ↔ ∃ e ∈ R.entries, e.hash = x ∧ e.tx = t := by
  rw [get_of_nodup hnd rfl]
  · simp [Entry.get]
  · intro e v hv
    simp only [Entry.get, Option.ite_none_right_eq_some] at hv
    exact congrArg BitVec.toNat hv.1.symm

/-- What the last entry with a hash stores is read back from a key of the hash. -/
theorem get_of_last {q : ℕ} (hq : R.entries[q]? = some e)
    (hlast : ∀ j : ℕ, q < j → R.hashes[j]? ≠ some e.hash) {v : k.Val}
    (hv : e.get R.block.height k = some v)
    (hkey : ∀ (e' : Entry) (v' : k.Val), e'.get R.block.height k = some v' → e'.hash = e.hash) :
    R.get k = some v := by
  have hblock : R.blockGet k = none := by
    cases k <;> first | rfl | simp [Entry.get] at hv
  obtain ⟨v', hget⟩ := exists_get_of_entry (List.mem_of_getElem? hq) hv
  rcases exists_last_of_get hget with h | ⟨q', e', hq', hv', hlater⟩
  · rw [hblock] at h
    cases h
  · have hle : q' ≤ q := by
      by_contra hlt
      refine hlast q' (not_le.mp hlt) ?_
      rw [getElem?_hashes, hq', Option.map_some, hkey e' v' hv']
    have hge : ¬ q' < q := by
      intro hlt
      rw [hlater q e hlt hq] at hv
      cases hv
    obtain rfl : q' = q := by omega
    obtain rfl : e' = e := Option.some.inj (hq'.symm.trans hq)
    rw [hget, ← hv', hv]

/-- Whatever the hashes, a hash of the block leads to the transaction and the receipt of the last
entry that has it. -/
theorem exists_last (hx : x ∈ R.hashes) :
    ∃ (q : ℕ) (e : Entry), R.entries[q]? = some e ∧ e.hash = x ∧
      R.get (.rpcTxHash x) = some e.tx ∧ R.get (.receipt x) = some e.receipt ∧
      ∀ j : ℕ, q < j → R.hashes[j]? ≠ some x := by
  obtain ⟨e, he, rfl⟩ := List.mem_map.mp hx
  obtain ⟨t, ht⟩ := exists_get_of_entry (k := .rpcTxHash e.hash) (v := e.tx) he (by simp [Entry.get])
  rcases exists_last_of_get ht with h | ⟨q, e', hq, hget, hlater⟩
  · cases h
  · obtain ⟨hhash, rfl⟩ : e'.hash = e.hash ∧ e'.tx = t := by simpa [Entry.get] using hget
    have hlast : ∀ j : ℕ, q < j → R.hashes[j]? ≠ some e.hash := by
      intro j hj hx
      rw [getElem?_hashes, Option.map_eq_some_iff] at hx
      obtain ⟨e'', he'', hx⟩ := hx
      have hnone := hlater j e'' hj he''
      simp [Entry.get, hx] at hnone
    have hreceipt : R.get (.receipt e'.hash) = some e'.receipt := by
      refine get_of_last hq (hhash ▸ hlast) (by simp [Entry.get]) fun e'' r hr => ?_
      simp only [Entry.get, Option.ite_none_right_eq_some] at hr
      exact hr.1
    exact ⟨q, e', hq, hhash, ht, hhash ▸ hreceipt, hlast⟩

theorem get_txHash (hnd : R.hashes.Nodup) {r : TxResult} :
    R.get (.txHash x) = some r ↔ ∃ e ∈ R.entries, e.hash = x ∧ e.result = some r := by
  rw [get_of_nodup hnd rfl]
  · simp [Entry.get]
  · intro e v hv
    simp only [Entry.get, Option.ite_none_right_eq_some] at hv
    exact congrArg BitVec.toNat hv.1.symm

/-! ### Ownership -/

/-- The keys that can only belong to this block: those of its height, of its block
hash, and of its transaction hashes. -/
def Owns (R : BlockRecords) : Key → Prop
  | .txHash x | .rpcTxHash x | .receipt x | .virtualRPCtx x => x ∈ R.hashes
  | .txIndex n _ | .rpcTxIndex n _ | .blockLogs n | .blockMeta n => n = R.block.height
  | .blockHash x => x = R.block.ethHash
  | .traceTx _ _ | .traceBlock _ _ => False

/-- A block stores only keys it owns. -/
theorem owns_of_get {v : k.Val} (h : R.get k = some v) : R.Owns k := by
  rcases exists_of_get h with h | ⟨e, he, h⟩
  · cases k <;> simp_all [blockGet, Owns, eq_comm]
  · obtain ⟨p, hp⟩ := List.getElem?_of_mem he
    cases k with
    | txIndex n i => exact ((entry_txIndex hp).mp h).1.symm
    | rpcTxIndex n i => exact ((entry_rpcTxIndex hp).mp h).1.symm
    | txHash x | rpcTxHash x | receipt x | virtualRPCtx x =>
      simp only [Entry.get, Option.ite_none_right_eq_some] at h
      exact List.mem_map.mpr ⟨e, he, by first | exact h.1 | exact h.1.1⟩
    | _ => simp [Entry.get] at h

theorem get_eq_none (h : ¬ R.Owns k) : R.get k = none := by
  by_contra hsome
  obtain ⟨v, hv⟩ := Option.ne_none_iff_exists'.mp hsome
  exact h (owns_of_get hv)

theorem Owns.isTrace (h : R.Owns k) : k.isTrace = false := by
  cases k <;> first | rfl | exact h.elim

theorem exists_rpcTxIndex (hx : x ∈ R.hashes) :
    ∃ i, R.get (.rpcTxIndex R.block.height i) = some x := by
  obtain ⟨p, hp⟩ := List.getElem?_of_mem hx
  exact ⟨p, get_rpcTxIndex.mpr ⟨rfl, by omega, by simpa using hp⟩⟩

theorem exists_txIndex {r : TxResult} (h : R.get (.txHash x) = some r) :
    ∃ i, R.get (.txIndex R.block.height i) = some x := by
  rcases exists_of_get h with h | ⟨e, he, hr⟩
  · simp [blockGet] at h
  · simp only [Entry.get, Option.ite_none_right_eq_some] at hr
    obtain ⟨p, hp⟩ := List.getElem?_of_mem he
    have heth : e.isEth = true := by simp [Entry.isEth, hr.2]
    exact ⟨R.ethPosition p, get_txIndex.mpr ⟨rfl, p, e, hp, heth, rfl, hr.1⟩⟩

theorem mem_hashes_of_rpcTxIndex (h : R.get (.rpcTxIndex n i) = some x) : x ∈ R.hashes :=
  List.mem_of_getElem? (get_rpcTxIndex.mp h).2.2

theorem mem_hashes_of_txIndex (h : R.get (.txIndex n i) = some x) : x ∈ R.hashes := by
  obtain ⟨-, p, e, hp, -, -, rfl⟩ := get_txIndex.mp h
  exact List.mem_map.mpr ⟨e, List.mem_of_getElem? hp, rfl⟩

theorem get_blockMeta (R : BlockRecords) : R.get (.blockMeta R.block.height) = some R.blockMeta :=
  get_of_blockGet (by simp [blockGet])

theorem get_blockHash (R : BlockRecords) :
    R.get (.blockHash R.block.ethHash) = some R.block.height :=
  get_of_blockGet (by simp [blockGet])

theorem get_blockLogs (R : BlockRecords) : R.get (.blockLogs R.block.height) = some R.logs :=
  get_of_blockGet (by simp [blockGet])

structure Apart (R R' : BlockRecords) : Prop where
  height : R.block.height ≠ R'.block.height
  hashes : ∀ x ∈ R.hashes, x ∉ R'.hashes
  blockHash : R.block.ethHash ≠ R'.block.ethHash

theorem Apart.not_owns {R' : BlockRecords} (h : Apart R R') (hk : R.Owns k) :
    ¬ R'.Owns k := by
  cases k with
  | txHash x | rpcTxHash x | receipt x | virtualRPCtx x => exact h.hashes x hk
  | txIndex n i | rpcTxIndex n i | blockLogs n | blockMeta n =>
    exact fun hk' => h.height (hk.symm.trans hk')
  | blockHash x => exact fun hk' => h.blockHash (hk.symm.trans hk')
  | traceTx | traceBlock => exact hk.elim

end BlockRecords

/-! ## The records of an indexed block -/

def Tracks.records {kv : KVIndexer} {block : Block} {st : IndexState} {es : List Entry}
    (h : Tracks kv block st es) (E : Env) (baseFee : Option ℤ) (root : String) : BlockRecords where
  block := block
  blockMeta := st.blockMeta E kv block baseFee root
  entries := es
  meta_height := rfl
  meta_hash := rfl
  meta_count := congrArg _ h.visibleTxCount
  entry_at := h.entry_at

theorem Tracks.writes_records {st : IndexState} {es : List Entry} (h : Tracks kv block st es)
    (E : Env) (baseFee : Option ℤ) (root : String) :
    (h.records E baseFee root).writes =
      st.batch ++ st.closeBlock block (st.blockMeta E kv block baseFee root) := by
  rw [h.batch, IndexState.closeBlock, h.blockLogs]
  rfl

theorem BlockRecords.hashes_logs_of_writes (R : BlockRecords) {R' : BlockRecords}
    (hwrites : R.writes = R'.writes) (hblock : R.block = R'.block) :
    R.hashes = R'.hashes ∧ R.logs = R'.logs := by
  have hget : ∀ k, R.get k = R'.get k := fun k => by rw [get, get, hwrites]
  constructor
  · refine List.ext_getElem? fun i => Option.ext fun x => ?_
    have hi := @get_rpcTxIndex R R.block.height i x
    rw [hget, hblock, get_rpcTxIndex] at hi
    simpa using hi.symm
  · have hlogs := hget (.blockLogs R.block.height)
    rw [R.get_blockLogs, hblock, R'.get_blockLogs] at hlogs
    exact Option.some.inj hlogs

/-- The batch of an indexed block comes from a finished loop. -/
theorem exists_buildBlock {E : Env} {results : Option BlockResults} {ws : DBBatch}
    (h : blockWrites E kv block results = .ok (ws, n)) :
    ∃ st root, buildBlock E kv block results = .ok st ∧
      ws = st.batch ++ st.closeBlock block
        (st.blockMeta E kv block (blockBaseFeeFromResults E results) root) := by
  unfold blockWrites at h
  obtain ⟨st, hst, h⟩ := bind_eq_ok.mp h
  obtain ⟨root, -, h⟩ := bind_eq_ok.mp h
  exact ⟨st, root, hst, (Prod.mk.inj (Except.ok.inj h)).1.symm⟩

/-- **The batch of an indexed block** is the batch of its records. -/
theorem blockWrites_ok {E : Env} {results : Option BlockResults} {ws : DBBatch}
    (h : blockWrites E kv block results = .ok (ws, n)) :
    ∃ R : BlockRecords, R.block = block ∧ R.writes = ws ∧
      R.blockMeta.virtualizedCosmosEvents = kv.virtualizationEnabled ∧
      R.hashes = shownByBlock E kv.virtualizationEnabled block results := by
  obtain ⟨st, root, hst, rfl⟩ := exists_buildBlock h
  obtain ⟨es, hes, ht⟩ := buildBlock_tracks hst
  exact ⟨ht.records E _ root, rfl, ht.writes_records E _ root, rfl, hes⟩

end EvmGateway
