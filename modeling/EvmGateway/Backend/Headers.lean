import EvmGateway.Backend.CachedListings
import EvmGateway.Indexer.CodecRoundTrip
import EvmGateway.Indexer.LogBlooms

/-!
# Headers

A header is read from the meta of a stored block, or put together from the node's block and its
results.  The reader of a meta checks every field first, so what the indexer writes for a block
has to pass the checks: `validateCachedBlockMeta_eq_ok` lists them, and `validate_blockMeta` says
when the meta of an indexed block passes.

Fields that are the same in every header (the uncle hash, the receipts root, the difficulty and
the like) are left out.

## Main definitions

* `headerFromCachedBlockMeta`, `ethHeaderFromTendermint` — the two constructions.
* `headerByNumber`, `headerByHash` — the requests.
* `publishIndexedBlock` — what subscribers are told of a block that was indexed.

`committed_served_iff` says which of the blocks the indexer accepts can be served.
-/

namespace EvmGateway

open Lib

variable {E : Env} {m : CachedBlockMeta} {st : IndexState} {root : String}

/-- An Ethereum header. -/
structure Header where
  parentHash : Hash
  coinbase : Address
  root : Hash
  txHash : Hash
  bloom : Bytes
  number : ℕ
  gasLimit : UInt64
  gasUsed : UInt64
  time : UInt64
  baseFee : Option ℤ
  deriving DecidableEq

def headerTime (seconds : ℤ) : UInt64 := Int64.toUInt64 (Int64.ofInt seconds)

/-! ## The two constructions -/

def CachedBlockMeta.header (E : Env) (m : CachedBlockMeta) (baseFee : Option ℤ) : Header where
  parentHash := hexToHash m.parentHash
  coinbase := cachedMiner m
  root := bytesToHash (cachedStateRoot m)
  txHash := cachedTransactionsRoot E m (0 < m.ethTxCount)
  bloom := bytesToBloom (fromHex m.bloom)
  number := m.height
  gasLimit := m.gasLimit
  gasUsed := m.gasUsed
  time := headerTime m.timestamp
  baseFee := baseFee

def headerFromCachedBlockMeta (E : Env) (m : CachedBlockMeta) : Except Err Header := do
  validateCachedBlockMeta m
  let baseFee ← cachedBaseFee m
  return m.header E baseFee

/-- The header of the node's block. -/
def ethHeaderFromTendermint (E : Env) (block : Block) (bloom : Bytes) (baseFee : Option ℤ) :
    Header where
  parentHash := bytesToHash block.lastBlockHash
  coinbase := bytesToAddress block.proposerAddress
  root := bytesToHash block.appHash
  txHash := if block.dataHash.length = 0 then bytesToHash block.dataHash else E.emptyRootHash
  bloom := bloom
  number := block.height
  gasLimit := 0
  gasUsed := 0
  time := headerTime block.time
  baseFee := baseFee

/-! ## The requests -/

namespace Backend

def liveHeader (E : Env) (b : Backend) (block : Block) : Except Err Header :=
  match b.tendermintBlockResultByNumber block.height with
  | .error _ => .error (.plain s!"block result not found for height {block.height}")
  -- the base fee of missing results
  | .ok none => .error (.panic "invalid memory address or nil pointer dereference")
  | .ok (some blockRes) => do
    let bloom ← attempt (b.blockBloom E blockRes)
    return ethHeaderFromTendermint E block (bloom.getD (bytesToBloom []))
      (b.baseFeeOrNil E blockRes)

def liveHeaderOf (E : Env) (b : Backend) (name : String) (block : Except Err (Option Block)) :
    Except Err Header :=
  if b.offlineRPCOnly then .error (.plain s!"block not found for {name}")
  else do
    let some block ← block | throw (.plain s!"block not found for {name}")
    b.liveHeader E block

def cachedHeaderOr (E : Env) (b : Backend) (cached : Except Err (Option CachedBlockMeta))
    (live : Except Err Header) : Except Err Header :=
  match cached with
  | .ok (some m) =>
    if b.cachedMetaMatchesVirtualization m then headerFromCachedBlockMeta E m else live
  | .ok none => live
  | .error e => if !isIndexerCacheMiss e && b.offlineRPCOnly then .error e else live

def headerByNumber (E : Env) (b : Backend) (blockNum : ℤ) : Except Err Header :=
  b.cachedHeaderOr E (b.cachedBlockMetaByNumber blockNum)
    (b.liveHeaderOf E s!"height {blockNum}" (b.tendermintBlockByNumber blockNum))

def headerByHash (E : Env) (b : Backend) (blockHash : Hash) : Except Err Header :=
  b.cachedHeaderOr E (b.cachedBlockMetaByHash blockHash)
    (b.liveHeaderOf E s!"hash {blockHash.hex}" (b.tendermintBlockByHash blockHash))

/-- The header of the latest block. -/
def currentHeader (E : Env) (b : Backend) : Except Err Header := b.headerByNumber E (-1)

end Backend

/-! ## The announcement of a block -/

structure RPCHeader where
  ethHeader : Header
  hash : Hash
  deriving DecidableEq

/-- What a committed block adds to the three streams. -/
structure Announcement where
  header : RPCHeader
  txHashes : List Hash
  logs : List RPCLog
  deriving DecidableEq

/-- Read what subscribers are told of an indexed block. -/
def publishIndexedBlock (E : Env) (db : DB) (height : ℕ) : Except Err Announcement := do
  let m ← wrapErr (getBlockMetaByHeight db height) s!"load indexed block meta {height}"
  let header ← headerFromCachedBlockMeta E m
  let logGroups ← wrapErr (getLogsByBlockHeight db height) s!"load indexed block logs {height}"
  return {
    header := ⟨header, hexToHash m.hash⟩
    txHashes := getRPCTransactionHashesByBlockHeight db height
    logs := logGroups.flatten }

/-! ## The checks of a meta -/

@[simp] theorem ensure_eq_ok {ok : Bool} {message : String} {u : Unit} :
    ensure ok message = .ok u ↔ ok = true := by
  cases ok <;> simp [ensure]

/-- A text that is empty or a number. -/
def IsQuantity (s : String) : Prop := s = "" ∨ ∃ n, decodeQuantity s = .ok n

/-- A meta passes its checks exactly if each field passes its own. -/
theorem validateCachedBlockMeta_eq_ok :
    validateCachedBlockMeta m = .ok () ↔
      1 ≤ m.height ∧ 0 ≤ m.ethTxCount ∧ 0 ≤ m.txCount ∧ isHexHashString m.hash = true ∧
      emptyOr isHexHashString m.parentHash = true ∧ emptyOr isHexHashString m.stateRoot = true ∧
      emptyOr isHexAddress m.miner = true ∧ emptyOr isHexHashString m.transactionsRoot = true ∧
      (m.bloom = "" ∨ ((hexutilDecode m.bloom).toOption.getD []).length = 256) ∧
      IsQuantity m.baseFee := by
  cases hdecode : decodeQuantity m.baseFee with
  | ok n =>
    have hquantity : IsQuantity m.baseFee := .inr ⟨n, hdecode⟩
    simp only [validateCachedBlockMeta, ensure_bind_eq_ok, decide_eq_true_eq, Bool.or_eq_true,
      beq_iff_eq, hdecode, pure_eq_ok, hquantity]
  | error e =>
    have hquantity : IsQuantity m.baseFee ↔ m.baseFee = "" := by simp [IsQuantity, hdecode]
    simp only [validateCachedBlockMeta, ensure_bind_eq_ok, decide_eq_true_eq, Bool.or_eq_true,
      beq_iff_eq, hdecode, ensure_eq_ok, hquantity]

/-! ### Texts the indexer writes -/

theorem hexutilDecode_hexutilEncode (bs : Bytes) : hexutilDecode (hexutilEncode bs) = .ok bs := by
  have hdigits : ((hexEncode bs).all fun c => (hexVal c).isSome) = true := by
    rw [List.all_eq_true]
    intro c hc
    obtain ⟨n, hn, rfl⟩ := exists_hexDigit_of_mem_hexEncode hc
    rw [hexVal_hexDigit n hn]
    rfl
  have heven : ¬(hexEncode bs).length % 2 = 1 := by
    rw [length_hexEncode]
    omega
  simp only [hexutilDecode, hexutilEncode, String.toList_ofList, ne_eq, not_true_eq_false,
    false_and, if_false, heven, hdigits, if_true, hexDecode_hexEncode]

theorem hexutilEncode_ne_empty (bs : Bytes) : hexutilEncode bs ≠ "" := by
  simp [hexutilEncode, ← String.toList_inj]

theorem isHexHashString_hexutilEncode (bs : Bytes) :
    isHexHashString (hexutilEncode bs) = (bs.length == 32) := by
  rw [isHexHashString, hexutilDecode_hexutilEncode]

theorem emptyOr_hexutilEncode (check : String → Bool) (bs : Bytes) :
    emptyOr check (hexutilEncode bs) = check (hexutilEncode bs) := by
  simp [emptyOr, hexutilEncode_ne_empty]

@[simp] theorem isHexHashString_hex (h : Hash) : isHexHashString h.hex = true := by
  rw [Hash.hex, isHexHashString_hexutilEncode, Hash.bytes, length_toBE]
  rfl

@[simp] theorem isHexAddress_addressHex (E : Env) (a : Address) :
    isHexAddress (E.addressHex a) = true := by
  have hlen : (hexEncode a.bytes).length = 40 := by
    rw [length_hexEncode, Address.bytes, length_toBE]
  have hle : ∀ h : Hash, (hexEncode a.bytes).length ≤ (hexEncode h.bytes).length := by
    intro h
    rw [hlen, length_hexEncode, Hash.bytes, length_toBE]
    omega
  simp only [isHexAddress, Env.addressHex, String.toList_ofList, Bool.and_eq_true, beq_iff_eq]
  refine ⟨by rw [length_checksumDigits (hle _), hlen], ?_⟩
  -- the case of a digit does not matter, so look at the digits without the checksum
  have hvals := map_hexVal_checksumDigits (hle (E.keccak256
    ((hexEncode a.bytes).map fun c => UInt8.ofNat c.toNat)))
    fun d hd => exists_hexDigit_of_mem_hexEncode hd
  rw [List.all_eq_true]
  intro c hc
  have hmem := List.mem_map_of_mem (f := hexVal) hc
  rw [hvals, List.mem_map] at hmem
  obtain ⟨d, hd, heq⟩ := hmem
  obtain ⟨n, hn, rfl⟩ := exists_hexDigit_of_mem_hexEncode hd
  rw [← heq, hexVal_hexDigit n hn]
  rfl

def FeeFits (baseFee : Option ℤ) : Prop := ∀ fee, baseFee = some fee → 0 ≤ fee ∧ fee < 2 ^ 256

/-- The text of a base fee is read back exactly if the fee is not negative and has 256 bits. -/
theorem isQuantity_encodeOptionalBig (baseFee : Option ℤ) :
    IsQuantity (encodeOptionalBig baseFee) ↔ FeeFits baseFee := by
  cases baseFee with
  | none => simp [IsQuantity, encodeOptionalBig, FeeFits]
  | some fee =>
    simp only [IsQuantity, encodeOptionalBig, Option.map_some, Option.getD_some,
      encodeQuantity_ne_empty, false_or, FeeFits, Option.some.injEq, forall_eq']
    constructor
    · rintro ⟨n, hn⟩
      have hfee := eq_of_decodeQuantity hn
      refine ⟨by omega, ?_⟩
      by_contra hlt
      rw [decodeQuantity_of_le (not_lt.mp hlt)] at hn
      cases hn
    · rintro ⟨hnonneg, hlt⟩
      exact ⟨_, decodeQuantity_of_lt hnonneg hlt⟩

theorem cachedBaseFee_of_fits {baseFee : Option ℤ} (hm : m.baseFee = encodeOptionalBig baseFee)
    (hfits : FeeFits baseFee) :
    cachedBaseFee m = .ok baseFee := by
  rw [cachedBaseFee, hm]
  cases baseFee with
  | none => rfl
  | some fee =>
    obtain ⟨hnonneg, hlt⟩ := hfits fee rfl
    simp only [encodeOptionalBig, Option.map_some, Option.getD_some, encodeQuantity_ne_empty,
      if_false, decodeQuantity_of_lt hnonneg hlt, Int.toNat_of_nonneg hnonneg]

/-! ## The meta of an indexed block -/

theorem exists_transactionsRoot {kv : KVIndexer} {block : Block}
    (h : st.transactionsRoot E kv block = .ok root) : ∃ x : Hash, root = x.hex := by
  unfold IndexState.transactionsRoot at h
  split_ifs at h
  · exact ⟨_, (Except.ok.inj h).symm⟩
  · exact ⟨_, (Except.ok.inj h).symm⟩
  · exact ⟨_, (Except.ok.inj h).symm⟩

section Meta

variable {E : Env} {kv : KVIndexer} {block : Block} {results : Option BlockResults} {db db' : DB}

theorem exists_meta_of_indexBlock (h : indexBlock E kv db block results = .ok db') :
    ∃ (R : BlockRecords) (st : IndexState) (root : String), R.block = block ∧ Holds db' R ∧
      buildBlock E kv block results = .ok st ∧ st.transactionsRoot E kv block = .ok root ∧
      R.blockMeta = st.blockMeta E kv block (blockBaseFeeFromResults E results) root ∧
      R.logs.flatten = st.flatLogs ∧
      R.hashes = shownByBlock E kv.virtualizationEnabled block results := by
  obtain ⟨⟨_, _⟩, hstats, -⟩ := map_eq_ok.mp h
  obtain ⟨⟨ws, n⟩, hws, -⟩ := bind_eq_ok.mp hstats
  have hbuild := hws
  unfold blockWrites at hbuild
  obtain ⟨st, hst, hbuild⟩ := bind_eq_ok.mp hbuild
  obtain ⟨root, hroot, hbuild⟩ := bind_eq_ok.mp hbuild
  obtain ⟨es, hes, ht⟩ := buildBlock_tracks hst
  let R : BlockRecords := ht.records E (blockBaseFeeFromResults E results) root
  have hwrites : R.writes = ws := by
    rw [ht.writes_records]
    exact (Prod.mk.inj (Except.ok.inj hbuild)).1
  have hR : Holds db' R := holds_of_indexBlock (R := R) (n := n) h (hwrites ▸ hws)
  refine ⟨R, st, root, rfl, hR, hst, hroot, rfl, ?_, hes⟩
  rw [ht.flatLogs, ht.blockLogs]
  rfl

/-- **The meta of an indexed block passes the checks** exactly if the app hash has the length of a
hash and the base fee can be read back. -/
theorem validate_blockMeta (hbloom : ∀ logs, (E.logsBloom logs).length = 256)
    (hheight : 1 ≤ block.height) (hroot : st.transactionsRoot E kv block = .ok root)
    (baseFee : Option ℤ) :
    validateCachedBlockMeta (st.blockMeta E kv block baseFee root) = .ok () ↔
      block.appHash.length = 32 ∧ FeeFits baseFee := by
  obtain ⟨x, rfl⟩ := exists_transactionsRoot hroot
  have hhash : ∀ y : Hash, emptyOr isHexHashString y.hex = true := by
    intro y
    rw [Hash.hex, emptyOr_hexutilEncode]
    exact isHexHashString_hex y
  have hminer : ∀ a, emptyOr isHexAddress (E.addressHex a) = true := by
    intro a
    rw [emptyOr, isHexAddress_addressHex, Bool.or_true]
  simp only [validateCachedBlockMeta_eq_ok, IndexState.blockMeta, hheight, Int.natCast_nonneg,
    isHexHashString_hex, hhash, hminer, emptyOr_hexutilEncode, isHexHashString_hexutilEncode,
    hexutilDecode_hexutilEncode, Except.toOption, Option.getD_some, virtualLogsBloom, hbloom,
    isQuantity_encodeOptionalBig, beq_iff_eq, or_true, true_and]

/-- The header of an indexed block that passes the checks. -/
theorem headerFromCachedBlockMeta_blockMeta (hbloom : ∀ logs, (E.logsBloom logs).length = 256)
    (hheight : 1 ≤ block.height) (hroot : st.transactionsRoot E kv block = .ok root)
    (happ : block.appHash.length = 32) {baseFee : Option ℤ} (hfee : FeeFits baseFee) :
    headerFromCachedBlockMeta E (st.blockMeta E kv block baseFee root) =
      .ok ((st.blockMeta E kv block baseFee root).header E baseFee) := by
  rw [headerFromCachedBlockMeta, (validate_blockMeta hbloom hheight hroot baseFee).mpr ⟨happ, hfee⟩,
    cachedBaseFee_of_fits rfl hfee]
  rfl

end Meta

/-! ## Cached transactions -/

namespace Holds

variable {db : DB} {R : BlockRecords}

/-- A transaction of a held block is read in full exactly if its hash is not zero and stands at no
later position. -/
theorem cachedBlockTransaction_iff (hR : Holds db R) (hne : R.block.ethHash ≠ 0) {idx : ℕ}
    {x : Hash} (hx : R.hashes[idx]? = some x) :
    (∃ tx, cachedBlockTransaction db R.blockMeta true idx x = .ok tx) ↔
      x ≠ 0 ∧ ∀ j : ℕ, idx < j → R.hashes[j]? ≠ some x := by
  obtain ⟨q, e, hq, rfl, htx, -, hlast⟩ := hR.exists_last (List.mem_of_getElem? hx)
  obtain ⟨hblockHash, hnumber, hindex⟩ := (R.entry_at q e hq).tx_position hne
  have hqhash : R.hashes[q]? = some e.hash := by
    rw [BlockRecords.getElem?_hashes, hq, Option.map_some]
  have hposition : q = idx ↔ ∀ j : ℕ, idx < j → R.hashes[j]? ≠ some e.hash := by
    constructor
    · rintro rfl
      exact hlast
    · intro hlater
      rcases lt_trichotomy q idx with hlt | heq | hgt
      · exact absurd hx (hlast idx hlt)
      · exact heq
      · exact absurd hqhash (hlater q hgt)
  rw [← hposition]
  simp only [cachedBlockTransaction, htx, ok_bind, hblockHash, hnumber, hindex, R.meta_hash,
    R.meta_height, hexToHash_hex, ensure_bind_eq_ok, if_true, decide_eq_true_eq, decide_true,
    true_and, pure_eq_ok]
  simp

/-- **A held block is read in full, and by its hashes,** exactly if its hashes are distinct and
none of them is zero. -/
theorem exists_cachedBlockTransactions_iff (hR : Holds db R) (hne : R.block.ethHash ≠ 0) :
    (∀ fullTx, ∃ txs, EvmGateway.cachedBlockTransactions db R.blockMeta fullTx = .ok txs) ↔
      R.hashes.Nodup ∧ 0 ∉ R.hashes := by
  simp only [hR.cachedBlockTransactions]
  constructor
  · intro h
    obtain ⟨txs, htxs⟩ := h true
    have hread : ∀ (idx : ℕ) (x : Hash), R.hashes[idx]? = some x →
        x ≠ 0 ∧ ∀ j : ℕ, idx < j → R.hashes[j]? ≠ some x := by
      intro idx x hx
      have hzip : R.hashes.zipIdx[idx]? = some (x, idx) := by simp [hx]
      obtain ⟨tx, -, htx⟩ := forall₂_getElem?_left (mapM_ok htxs) hzip
      exact (hR.cachedBlockTransaction_iff hne hx).mp ⟨tx, htx⟩
    constructor
    · rw [List.nodup_iff_getElem?_ne_getElem?]
      intro i j hij hj heq
      rw [List.getElem?_eq_getElem hj] at heq
      exact (hread i _ heq).2 j hij (List.getElem?_eq_getElem hj)
    · intro hzero
      obtain ⟨idx, hidx⟩ := List.getElem?_of_mem hzero
      exact (hread idx 0 hidx).1 rfl
  · rintro ⟨hnd, hzero⟩ fullTx
    refine exists_mapM_ok fun e he => ?_
    have hx : R.hashes[e.2]? = some e.1 := List.mem_zipIdx_iff_getElem?.mp he
    have hnonzero : e.1 ≠ 0 := fun h => hzero (h ▸ List.mem_of_getElem? hx)
    cases fullTx with
    | false => exact ⟨.hash e.1, ensure_bind_eq_ok.mpr ⟨by simpa using hnonzero, rfl⟩⟩
    | true =>
      refine (hR.cachedBlockTransaction_iff hne hx).mpr ⟨hnonzero, fun j hj hsame => ?_⟩
      have hlt := (List.getElem?_eq_some_iff.mp hsame).1
      exact (List.nodup_iff_getElem?_ne_getElem?.mp hnd) e.2 j hj hlt (hx.trans hsame.symm)

end Holds

/-! ## Reads of the store -/

/-- A backend over a store, in the given mode. -/
structure Backend.Reads (b : Backend) (virtualize : Bool) (db : DB) : Prop where
  mode : b.virtualizeCosmosEvents = virtualize
  indexer : b.indexer = some db

structure Backend.ReadsOffline (b : Backend) (virtualize : Bool) (db : DB) : Prop extends
    b.Reads virtualize db where
  offline : b.offlineRPCOnly = true

section Reads

variable {E : Env} {b : Backend} {virtualize : Bool} {db : DB} {R : BlockRecords}

namespace Backend.Reads

theorem cachedBlockMetaByNumber (hb : b.Reads virtualize db) (hR : Holds db R)
    (hheight : 1 ≤ R.block.height) :
    b.cachedBlockMetaByNumber R.block.height = .ok (some R.blockMeta) := by
  have hindexed : b.indexedBlockHeight R.block.height = R.block.height := by
    rw [indexedBlockHeight, hb.indexer]
    exact (if_neg (by omega)).trans (blockNumberInt64_of_pos (by omega))
  rw [Backend.cachedBlockMetaByNumber, hb.indexer]
  simp only [hindexed, Int.toNat_natCast, hR.getBlockMetaByHeight]
  exact if_neg (by omega)

theorem cachedBlockMetaByHash (hb : b.Reads virtualize db) (hR : Holds db R) :
    b.cachedBlockMetaByHash R.block.ethHash = .ok (some R.blockMeta) := by
  rw [Backend.cachedBlockMetaByHash, hb.indexer]
  simp only [hR.getBlockMetaByHash]
  rfl

theorem cachedMetaMatchesVirtualization (hb : b.Reads virtualize db)
    (hmode : R.blockMeta.virtualizedCosmosEvents = virtualize) :
    b.cachedMetaMatchesVirtualization R.blockMeta = true := by
  rw [Backend.cachedMetaMatchesVirtualization, hb.mode, hmode, beq_self_eq_true]

theorem header_eq (hb : b.Reads virtualize db) (hR : Holds db R)
    (hheight : 1 ≤ R.block.height) (hmode : R.blockMeta.virtualizedCosmosEvents = virtualize) :
    b.headerByNumber E R.block.height = headerFromCachedBlockMeta E R.blockMeta ∧
      b.headerByHash E R.block.ethHash = headerFromCachedBlockMeta E R.blockMeta := by
  rw [headerByNumber, headerByHash, hb.cachedBlockMetaByNumber hR hheight,
    hb.cachedBlockMetaByHash hR]
  simp only [cachedHeaderOr, hb.cachedMetaMatchesVirtualization hmode, if_true, and_self]

end Backend.Reads

/-- A held block is answered exactly if it can be read from its meta. -/
theorem Backend.ReadsOffline.block_iff (hb : b.ReadsOffline virtualize db) (hR : Holds db R)
    (hheight : 1 ≤ R.block.height) (hmode : R.blockMeta.virtualizedCosmosEvents = virtualize)
    (fullTx : Bool) :
    ((∃ rb, b.getBlockByNumber E R.block.height fullTx = .ok (some rb)) ↔
      ∃ rb, rpcBlockFromCachedMeta E db R.blockMeta fullTx = .ok rb) ∧
    ((∃ rb, b.getBlockByHash E R.block.ethHash fullTx = .ok (some rb)) ↔
      ∃ rb, rpcBlockFromCachedMeta E db R.blockMeta fullTx = .ok rb) := by
  rw [Backend.getBlockByNumber, Backend.getBlockByHash, hb.cachedBlockMetaByNumber hR hheight,
    hb.cachedBlockMetaByHash hR]
  simp only [Backend.cachedBlockOr, hb.indexer, hb.cachedMetaMatchesVirtualization hmode, if_true,
    hb.offline, Bool.true_or]
  cases rpcBlockFromCachedMeta E db R.blockMeta fullTx with
  | ok rb => simp
  | error e => simp

end Reads

theorem rpcBlockFromCachedMeta_iff {db : DB} {fullTx : Bool} {fee : Option ℤ}
    (hvalid : validateCachedBlockMeta m = .ok ()) (hfee : cachedBaseFee m = .ok fee) :
    (∃ rb, rpcBlockFromCachedMeta E db m fullTx = .ok rb) ↔
      ∃ txs, cachedBlockTransactions db m fullTx = .ok txs := by
  rw [rpcBlockFromCachedMeta, hvalid, hfee]
  cases cachedBlockTransactions db m fullTx with
  | ok txs => simp
  | error e => simp

/-! ## Committed blocks are served -/

/-- What serving a block means that the indexer has committed: its meta decodes and passes the
checks, its header is that of the block, and neither the announcement nor an offline read rejects
it. -/
structure CommittedServed (E : Env) (K : KVCodec) (virtualize : Bool) (db : DB) (block : Block)
    (results : Option BlockResults) : Prop where
  stored : ∃ m header groups, getBlockMetaByHeight db block.height = .ok m ∧
    K.unmarshalBlockMetaPayload (K.mustMarshalBlockMeta m) = .ok m ∧
    validateCachedBlockMeta m = .ok () ∧ headerFromCachedBlockMeta E m = .ok header ∧
    getLogsByBlockHeight db block.height = .ok groups ∧ header.number = block.height ∧
    header.parentHash = bytesToHash block.lastBlockHash ∧ header.time = headerTime block.time ∧
    header.bloom = groupsBloom E groups ∧ header.baseFee = blockBaseFeeFromResults E results
  announced : ∃ announcement, publishIndexedBlock E db block.height = .ok announcement
  headers : ∀ b : Backend, b.ReadsOffline virtualize db →
    (∃ header, b.headerByNumber E block.height = .ok header) ∧
    ∃ header, b.headerByHash E block.ethHash = .ok header
  blocks : block.ethHash ≠ 0 → ∀ b : Backend, b.ReadsOffline virtualize db → ∀ fullTx,
    (∃ rb, b.getBlockByNumber E block.height fullTx = .ok (some rb)) ∧
    ∃ rb, b.getBlockByHash E block.ethHash fullTx = .ok (some rb)

theorem CommittedServed.not_of_error {K : KVCodec} {virtualize : Bool} {db : DB} {block : Block}
    {results : Option BlockResults} {e : Err}
    (h : publishIndexedBlock E db block.height = .error e) :
    ¬CommittedServed E K virtualize db block results := by
  intro hserved
  obtain ⟨announcement, hok⟩ := hserved.announced
  rw [h] at hok
  cases hok

/-- **Which committed blocks are served.**  A block the indexer accepted can be served exactly if
its app hash has the length of a hash, its base fee is a number of at most 256 bits, and the
hashes it shows are distinct and not zero. -/
theorem committed_served_iff {E : Env} {K : KVCodec} {kv : KVIndexer} {db db' : DB} {block : Block}
    {results : Option BlockResults} (hK : K.Laws)
    (hbloom : ∀ logs, (E.logsBloom logs).length = 256) (hheight : 1 ≤ block.height)
    (h : indexBlock E kv db block results = .ok db') :
    CommittedServed E K kv.virtualizationEnabled db' block results ↔
      block.appHash.length = 32 ∧ FeeFits (blockBaseFeeFromResults E results) ∧
      (block.ethHash ≠ 0 →
        (shownByBlock E kv.virtualizationEnabled block results).Nodup ∧
        0 ∉ shownByBlock E kv.virtualizationEnabled block results) := by
  obtain ⟨R, st, root, rfl, hR, -, hroot, hmeta, hlogs, hshown⟩ := exists_meta_of_indexBlock h
  have hmode : R.blockMeta.virtualizedCosmosEvents = kv.virtualizationEnabled := by rw [hmeta]; rfl
  have hvalid := validate_blockMeta hbloom hheight hroot (blockBaseFeeFromResults E results)
  rw [← hmeta] at hvalid
  have hbase : validateCachedBlockMeta R.blockMeta = .ok () →
      cachedBaseFee R.blockMeta = .ok (blockBaseFeeFromResults E results) := by
    intro hok
    refine cachedBaseFee_of_fits ?_ (hvalid.mp hok).2
    rw [hmeta]
    rfl
  rw [← hshown, ← and_assoc, ← hvalid]
  constructor
  · intro hserved
    obtain ⟨m, header, groups, hm, -, hok, hheader, -⟩ := hserved.stored
    obtain rfl := Except.ok.inj (hR.getBlockMetaByHeight.symm.trans hm)
    refine ⟨hok, fun hne => ?_⟩
    rw [← hR.exists_cachedBlockTransactions_iff hne]
    intro fullTx
    -- an offline backend over the store
    have hb : Backend.ReadsOffline { Backend.sample (some db') none with
        offlineRPCOnly := true, virtualizeCosmosEvents := kv.virtualizationEnabled }
        kv.virtualizationEnabled db' := ⟨⟨rfl, rfl⟩, rfl⟩
    exact (rpcBlockFromCachedMeta_iff hok (hbase hok)).mp
      ((hb.block_iff hR hheight hmode fullTx).1.mp (hserved.blocks hne _ hb fullTx).1)
  · rintro ⟨hok, hhashes⟩
    obtain ⟨happ, hfee⟩ := hvalid.mp hok
    have hheader : headerFromCachedBlockMeta E R.blockMeta =
        .ok (R.blockMeta.header E (blockBaseFeeFromResults E results)) := by
      rw [hmeta]
      exact headerFromCachedBlockMeta_blockMeta hbloom hheight hroot happ hfee
    constructor
    · refine ⟨_, _, _, hR.getBlockMetaByHeight, blockMeta_round_trip hK _, hok, hheader,
        hR.getLogsByBlockHeight, R.meta_height, ?_, ?_, ?_, rfl⟩
      · simp [hmeta, CachedBlockMeta.header, IndexState.blockMeta]
      · rw [hmeta]
        rfl
      · simp [hmeta, CachedBlockMeta.header, IndexState.blockMeta, groupsBloom, hlogs]
    · rw [publishIndexedBlock, hR.getBlockMetaByHeight, hR.getLogsByBlockHeight]
      simp only [wrapErr, Except.mapError, ok_bind, hheader]
      exact ⟨_, rfl⟩
    · intro b hb
      rw [(hb.header_eq hR hheight hmode).1, (hb.header_eq hR hheight hmode).2]
      exact ⟨⟨_, hheader⟩, _, hheader⟩
    · intro hne b hb fullTx
      have hread : ∃ rb, rpcBlockFromCachedMeta E db' R.blockMeta fullTx = .ok rb :=
        (rpcBlockFromCachedMeta_iff hok (hbase hok)).mpr
          ((hR.exists_cachedBlockTransactions_iff hne).mpr (hhashes hne) fullTx)
      exact ⟨(hb.block_iff hR hheight hmode fullTx).1.mpr hread,
        (hb.block_iff hR hheight hmode fullTx).2.mpr hread⟩

/-! ## A block with hashes -/

/-- The small environment, with blooms of full length and a base fee in every fee event. -/
def Env.priced : Env :=
  { Env.sample with
    logsBloom := fun _ => List.replicate 256 0
    legacyDecRoundInt := fun _ => some 160000000 }

def sampleHashedBlock : Block :=
  { sampleMixedBlock with
    appHash := List.replicate 32 1
    dataHash := List.replicate 32 2 }

def samplePricedResults : BlockResults :=
  { sampleMixedResults with
    finalizeBlockEvents := [⟨"txfees", [⟨"basefee", "160000000.0", false⟩]⟩] }

/-- The block with hashes is served after indexing it with virtualisation. -/
theorem committed_served_iff_hashed :
    ∃ db, indexBlock .priced { virtualizationEnabled := true } ∅ sampleHashedBlock
        (some samplePricedResults) = .ok db ∧
      CommittedServed .priced .sample true db sampleHashedBlock (some samplePricedResults) := by
  have hshown : (shownByBlock .priced true sampleHashedBlock (some samplePricedResults)).Nodup ∧
      0 ∉ shownByBlock .priced true sampleHashedBlock (some samplePricedResults) := by
    decide +kernel
  obtain ⟨db, hdb⟩ : ∃ db, indexBlock .priced { virtualizationEnabled := true } ∅ sampleHashedBlock
      (some samplePricedResults) = .ok db := ⟨_, rfl⟩
  refine ⟨db, hdb, (committed_served_iff KVCodec.sample_laws (fun _ => List.length_replicate)
    le_rfl hdb).mpr ⟨rfl, ?_, fun _ => hshown⟩⟩
  rintro fee hfee
  obtain rfl : (160000000 : ℤ) = fee := Option.some.inj hfee
  decide

/-- A block with an empty app hash, as the first block of a chain may have one, is indexed; then it
can neither be announced nor be read offline. -/
theorem committed_not_served :
    ∃ db, indexBlock .priced {} ∅ sampleMixedBlock (some sampleMixedResults) = .ok db ∧
      publishIndexedBlock .priced db 1 =
        .error (.plain "cached block meta has invalid state root for height 1: \"0x\"") ∧
      ({ Backend.sample (some db) none with
        offlineRPCOnly := true, virtualizeCosmosEvents := false }).headerByNumber .priced 1 =
        .error (.plain "cached block meta has invalid state root for height 1: \"0x\"") ∧
      ¬CommittedServed .priced .sample false db sampleMixedBlock (some sampleMixedResults) := by
  obtain ⟨db, hdb, hpublish, hheader⟩ : ∃ db,
      indexBlock .priced {} ∅ sampleMixedBlock (some sampleMixedResults) = .ok db ∧
      publishIndexedBlock .priced db 1 =
        .error (.plain "cached block meta has invalid state root for height 1: \"0x\"") ∧
      ({ Backend.sample (some db) none with
        offlineRPCOnly := true, virtualizeCosmosEvents := false }).headerByNumber .priced 1 =
        .error (.plain "cached block meta has invalid state root for height 1: \"0x\"") :=
    ⟨_, rfl, by decide +kernel, by decide +kernel⟩
  exact ⟨db, hdb, hpublish, hheader, CommittedServed.not_of_error hpublish⟩

end EvmGateway
