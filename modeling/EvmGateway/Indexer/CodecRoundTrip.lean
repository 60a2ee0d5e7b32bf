import EvmGateway.Indexer.Codec

/-!
# Payloads read back

What the store is given it gives back: encoding and decoding a payload is the identity,
whichever optional values are absent, zero or not zero.  The one exception is a receipt
whose gas price does not fit in 256 bits.  Its price goes through a text that is read
as a quantity of that size, so the encoder panics.

Filtering the record of a block's logs gives the logs that pass the filter.

## Main results

* `roundTrips_iff` — which values read back.
* `filtered_decoding` — filtering while decoding is filtering after it.
-/

namespace EvmGateway

open Lib

/-! ## Fields -/

@[simp] theorem getD_setText (s : String) : (setText s).getD "" = s := by
  unfold setText
  split_ifs with h <;> simp [h]

@[simp] theorem hashes_setHashes (hs : List Hash) : hashes (setHashes hs) = hs := by
  simp [hashes, setHashes, Function.comp_def]

@[simp] theorem hashOrZero_some (h : Hash) : hashOrZero (some h.bytes) = h := by
  simp [hashOrZero]

@[simp] theorem addressOrZero_some (a : Address) : addressOrZero (some a.bytes) = a := by
  simp [addressOrZero]

@[simp] theorem bytesToHash_comp_bytes : bytesToHash ∘ Hash.bytes = id :=
  funext bytesToHash_bytes

@[simp] theorem bytesToAddress_comp_bytes : bytesToAddress ∘ Address.bytes = id :=
  funext bytesToAddress_bytes

theorem flagged_text (v : Option String) :
    flagged v.isSome ((v.bind setText).getD "") = v := by
  cases v <;> simp [flagged]

theorem capnpAccesses_eq (v : Option AccessList) :
    capnpAccesses v.isSome (v.map fun accesses => accesses.map fun (address, storageKeys) =>
      { address := some address.bytes, storageKeys := setHashes storageKeys }) = v := by
  cases v <;> simp [capnpAccesses, Function.comp_def]

theorem readPayload_tagged {ρ α : Type} {capnp : Wire Err ρ} (h : capnp.RoundTrips)
    (ofRecord : ρ → α) (legacy : Bytes → Except Err α) (a : ρ) :
    readPayload capnp ofRecord legacy (capnp.tagged kvCapnpMagic a) = .ok (ofRecord a) := by
  simp [readPayload, h a, Except.map]

section RoundTrip

variable {E : Env} {K : KVCodec} (hK : K.Laws)
include hK

/-! ## Records -/

theorem capnpLogToRPC_setCapnpLog (log : RPCLog) : capnpLogToRPC (K.setCapnpLog log) = log := by
  simp [capnpLogToRPC, KVCodec.setCapnpLog, hK.slice]

theorem map_capnpLogToRPC (logs : List RPCLog) :
    (logs.map K.setCapnpLog).map capnpLogToRPC = logs := by
  simp [Function.comp_def, capnpLogToRPC_setCapnpLog hK]

theorem blockLogs_round_trip (groups : List (List RPCLog)) :
    K.unmarshalBlockLogsPayload (K.mustMarshalBlockLogs groups) = .ok groups := by
  rw [KVCodec.unmarshalBlockLogsPayload, KVCodec.mustMarshalBlockLogs,
    readPayload_tagged hK.capnpBlockLogs]
  simp only [capnpBlockLogsToRPC, List.map_map, Function.comp_def, capnpLogToRPC_setCapnpLog hK,
    List.map_id']

theorem blockMeta_round_trip (m : CachedBlockMeta) :
    K.unmarshalBlockMetaPayload (K.mustMarshalBlockMeta m) = .ok m := by
  rw [KVCodec.unmarshalBlockMetaPayload, KVCodec.mustMarshalBlockMeta,
    readPayload_tagged hK.capnpBlockMeta]
  simp [capnpBlockMetaToCached]

theorem txResult_round_trip (r : TxResult) :
    K.unmarshalTxResultPayload (K.mustMarshalTxResult r) = .ok r := by
  rw [KVCodec.unmarshalTxResultPayload, KVCodec.mustMarshalTxResult,
    readPayload_tagged hK.capnpTxResult]
  rfl

def PointerTransaction.Nonneg (tx : PointerTransaction) : Prop :=
  ∀ v ∈ [tx.blockNumber, tx.gasPrice, tx.gasFeeCap, tx.gasTipCap, tx.value, tx.chainID, tx.v,
    tx.r, tx.s], ∀ n ∈ v, 0 ≤ n

theorem transaction_round_trip {tx : PointerTransaction} (htx : tx.Nonneg) :
    K.unmarshalRPCTransactionPayload (K.mustMarshalRPCTransaction tx) = .ok tx := by
  have hbig : ∀ v ∈ [tx.blockNumber, tx.gasPrice, tx.gasFeeCap, tx.gasTipCap, tx.value,
      tx.chainID, tx.v, tx.r, tx.s], bigField v.isSome (hexutilBigBytes v) = v :=
    fun v hv => bigField_eq (htx v hv)
  simp only [List.mem_cons, List.not_mem_nil, or_false, forall_eq_or_imp, forall_eq] at hbig
  rw [KVCodec.unmarshalRPCTransactionPayload, KVCodec.mustMarshalRPCTransaction,
    readPayload_tagged hK.capnpRPCTransaction]
  simp [capnpTransactionToRPC, hbig, hK.slice, capnpAccesses_eq]

theorem trace_round_trip (raw : Bytes) :
    K.unmarshalTracePayload (K.mustMarshalTracePayload raw) = .ok raw := by
  rw [KVCodec.unmarshalTracePayload, KVCodec.mustMarshalTracePayload,
    readPayload_tagged hK.capnpTracePayload, hK.slice]

/-! ## Receipts -/

/-- The arguments a cached receipt is built from. -/
structure ReceiptArgs where
  status : ℕ
  cumulativeGasUsed : UInt64
  gasUsed : UInt64
  reason : String
  vmError : String
  logs : List RPCLog
  txHash : Hash
  contractAddress : Option Address
  blockHash : Hash
  blockNumber : ℕ
  transactionIndex : ℕ
  effectiveGasPrice : ℤ
  sender : Address
  toAddr : Option Address
  txType : ℕ

/-- The cached receipt built from its arguments. -/
def ReceiptArgs.build (E : Env) (a : ReceiptArgs) : CachedReceipt :=
  buildCachedReceipt E a.status a.cumulativeGasUsed a.gasUsed a.reason a.vmError a.logs a.txHash
    a.contractAddress a.blockHash a.blockNumber a.transactionIndex a.effectiveGasPrice a.sender
    a.toAddr a.txType

omit hK in
theorem ReceiptArgs.build_price_ne (a : ReceiptArgs) : (a.build E).effectiveGasPrice ≠ "" :=
  encodeQuantity_ne_empty _

/-- Every field of a built receipt but its price reads back, whatever the price is; the
price does if the bytes are its own. -/
theorem capnpReceiptToCached_receiptRecord {a : ReceiptArgs} (hprice : 0 ≤ a.effectiveGasPrice) :
    capnpReceiptToCached E
      (K.receiptRecord (a.build E) (some (bigBytes a.effectiveGasPrice.toNat))) = a.build E := by
  have hlogs := map_capnpLogToRPC hK a.logs
  have hread : bigField true (some (bigBytes a.effectiveGasPrice.toNat)) =
      some a.effectiveGasPrice := by
    simp [bigField, hprice]
  simp only [capnpReceiptToCached, KVCodec.receiptRecord, ReceiptArgs.build, buildCachedReceipt,
    flagged_text, ne_eq, encodeQuantity_ne_empty, not_false_eq_true, decide_true, hread, hlogs,
    Option.map_some, Option.getD_some,
    fromHex_hexutilEncode, hexToHash_hex, bytesToHash_bytes, hexToAddress_addressHex,
    bytesToAddress_bytes, Option.map_map, Function.comp_def]

theorem receipt_round_trip {a : ReceiptArgs} (hprice : 0 ≤ a.effectiveGasPrice)
    (hfits : a.effectiveGasPrice < 2 ^ 256) :
    ∃ bz, K.mustMarshalReceipt (a.build E) = .ok bz ∧
      K.unmarshalReceiptPayload E bz = .ok (a.build E) := by
  have hset : setEffectiveGasPrice (a.build E).effectiveGasPrice =
      .ok (some (bigBytes a.effectiveGasPrice.toNat)) := by
    have hread : decodeQuantity (a.build E).effectiveGasPrice = .ok a.effectiveGasPrice.toNat :=
      decodeQuantity_of_lt hprice hfits
    rw [setEffectiveGasPrice, if_neg a.build_price_ne, setHexBigData, hread]
    rfl
  refine ⟨_, by rw [KVCodec.mustMarshalReceipt, hset]; rfl, ?_⟩
  rw [KVCodec.unmarshalReceiptPayload, readPayload_tagged hK.capnpReceipt,
    capnpReceiptToCached_receiptRecord hK hprice]

omit hK in
/-- A price of more than 256 bits makes the encoder panic. -/
theorem mustMarshalReceipt_of_le {a : ReceiptArgs} (hbig : 2 ^ 256 ≤ a.effectiveGasPrice) :
    ∃ e, K.mustMarshalReceipt (a.build E) = .error (.panic e) := by
  have hread : decodeQuantity (a.build E).effectiveGasPrice = .error "hex number > 256 bits" :=
    decodeQuantity_of_le hbig
  have hset : ∃ e, setHexBigData (a.build E).effectiveGasPrice = .error (.panic e) :=
    ⟨_, by rw [setHexBigData, hread]⟩
  obtain ⟨e, hset⟩ := hset
  refine ⟨e, ?_⟩
  rw [KVCodec.mustMarshalReceipt, setEffectiveGasPrice, if_neg a.build_price_ne, hset]
  rfl

/-! ## Every value of the store -/

/-- A value of the store. -/
inductive KVValue where
  | transaction (tx : PointerTransaction)
  | receipt (a : ReceiptArgs)
  | blockLogs (groups : List (List RPCLog))
  | blockMeta (m : CachedBlockMeta)
  | txResult (r : TxResult)
  | trace (raw : Bytes)

/-- The numbers of a value are not negative. -/
def KVValue.Nonneg : KVValue → Prop
  | transaction tx => tx.Nonneg
  | receipt a => 0 ≤ a.effectiveGasPrice
  | _ => True

def KVValue.PriceFits : KVValue → Prop
  | receipt a => a.effectiveGasPrice < 2 ^ 256
  | _ => True

def KVValue.RoundTrips (E : Env) (K : KVCodec) : KVValue → Prop
  | transaction tx =>
    K.unmarshalRPCTransactionPayload (K.mustMarshalRPCTransaction tx) = .ok tx
  | receipt a => ∃ bz, K.mustMarshalReceipt (a.build E) = .ok bz ∧
      K.unmarshalReceiptPayload E bz = .ok (a.build E)
  | blockLogs groups => K.unmarshalBlockLogsPayload (K.mustMarshalBlockLogs groups) = .ok groups
  | blockMeta m => K.unmarshalBlockMetaPayload (K.mustMarshalBlockMeta m) = .ok m
  | txResult r => K.unmarshalTxResultPayload (K.mustMarshalTxResult r) = .ok r
  | trace raw => K.unmarshalTracePayload (K.mustMarshalTracePayload raw) = .ok raw

/-- **A value reads back exactly when it is no receipt with a gas price of more than
256 bits.** -/
theorem roundTrips_iff {v : KVValue} (hv : v.Nonneg) : v.RoundTrips E K ↔ v.PriceFits := by
  cases v with
  | transaction tx => exact iff_of_true (transaction_round_trip hK hv) trivial
  | blockLogs groups => exact iff_of_true (blockLogs_round_trip hK groups) trivial
  | blockMeta m => exact iff_of_true (blockMeta_round_trip hK m) trivial
  | txResult r => exact iff_of_true (txResult_round_trip hK r) trivial
  | trace raw => exact iff_of_true (trace_round_trip hK raw) trivial
  | receipt a =>
    constructor
    · rintro ⟨bz, hbz, -⟩
      by_contra hbig
      obtain ⟨e, he⟩ := mustMarshalReceipt_of_le (E := E) (K := K) (not_lt.mp hbig)
      rw [he] at hbz
      cases hbz
    · exact fun hfits => receipt_round_trip hK hv hfits

end RoundTrip

/-! ## Filtered logs -/

theorem emptyOrAny_eq {α : Type} [BEq α] [LawfulBEq α] (a : α) (candidates : List α) :
    (if candidates.isEmpty then true else candidates.any fun candidate => a == candidate) =
      (candidates.isEmpty || candidates.contains a) := by
  rw [List.contains_eq_any_beq]
  cases candidates.isEmpty <;> rfl

theorem topicsMatch_setHashes (hs : List Hash) (topics : List (List Hash)) :
    (if topics.isEmpty then true
      else if topics.length > (hs.map fun h => some h.bytes).length then false
      else (topics.zip (hs.map fun h => some h.bytes)).all fun (sub, bz) =>
        if sub.isEmpty then true
        else sub.any fun candidate => bytesToHash (bz.getD []) == candidate) =
      (decide (topics.length ≤ hs.length) &&
        (topics.zip hs).all fun (sub, topic) => sub.isEmpty || sub.contains topic) := by
  have hall : ((topics.zip (hs.map fun h => some h.bytes)).all fun (sub, bz) =>
        if sub.isEmpty then true
        else sub.any fun candidate => bytesToHash (bz.getD []) == candidate) =
      (topics.zip hs).all fun (sub, topic) => sub.isEmpty || sub.contains topic := by
    rw [List.zip_map_right, List.all_map]
    congr 1
    funext ⟨sub, topic⟩
    simp only [Function.comp_apply, Prod.map_apply, id_eq, Option.getD_some, bytesToHash_bytes]
    exact emptyOrAny_eq topic sub
  rw [hall, List.length_map]
  cases topics with
  | nil => rfl
  | cons sub topics =>
    rw [if_neg (by simp)]
    by_cases hlen : (sub :: topics).length > hs.length
    · rw [if_pos hlen, decide_eq_false (not_le.mpr hlen), Bool.false_and]
    · rw [if_neg hlen, decide_eq_true (not_lt.mp hlen), Bool.true_and]

theorem capnpLogMatches_setCapnpLog (K : KVCodec) (log : RPCLog) (addresses : List Address)
    (topics : List (List Hash)) :
    capnpLogMatches (K.setCapnpLog log) addresses topics = logMatches log addresses topics := by
  have haddress := emptyOrAny_eq log.address addresses
  have htopics := topicsMatch_setHashes log.topics topics
  rw [capnpLogMatches, logMatches, Bool.and_assoc, ← haddress, ← htopics]
  simp only [KVCodec.setCapnpLog, setHashes, bytesToAddress_bytes]

/-- Filtering the record of a block's logs filters the logs. -/
theorem capnpFilteredLogs_eq {K : KVCodec} (hK : K.Laws) (groups : List (List RPCLog))
    (addresses : List Address) (topics : List (List Hash)) :
    capnpFilteredLogs addresses topics
        { groups := some (groups.map fun logs => { logs := some (logs.map K.setCapnpLog) }) } =
      groups.flatten.filter fun log => logMatches log addresses topics := by
  have hgroup : ∀ logs : List RPCLog,
      ((logs.map K.setCapnpLog).filterMap fun src =>
        if capnpLogMatches src addresses topics then some (capnpLogToRPC src) else none) =
      logs.filter fun log => logMatches log addresses topics := by
    intro logs
    rw [List.filterMap_map, ← List.filterMap_eq_filter]
    congr 1
    funext log
    simp [capnpLogMatches_setCapnpLog, capnpLogToRPC_setCapnpLog hK, Option.guard]
  simp only [capnpFilteredLogs, List.flatMap_map, hgroup]
  rw [List.filter_flatten, List.flatMap_def]

/-- The payloads of a block's log groups: the current one and the older one. -/
def KVCodec.blockLogsPayloads (K : KVCodec) (groups : List (List RPCLog)) : List Bytes :=
  [K.mustMarshalBlockLogs groups, K.jsonBlockLogs.marshal groups]

theorem untag_json {K : KVCodec} (hJ : K.JsonLaws) (groups : List (List RPCLog)) :
    untag kvCapnpMagic (K.jsonBlockLogs.marshal groups) = none := by
  apply untag_of_head
  intro h
  have hlt := hJ.ascii groups _ h
  revert hlt
  decide

/-- **Filtering while decoding is decoding and then filtering**, for a payload of either
form. -/
theorem filtered_decoding {K : KVCodec} (hK : K.Laws) (hJ : K.JsonLaws)
    (groups : List (List RPCLog)) (addresses : List Address) (topics : List (List Hash)) :
    ∀ bz ∈ K.blockLogsPayloads groups, ∃ decoded,
      K.unmarshalBlockLogsPayload bz = .ok decoded ∧
      K.unmarshalFilteredBlockLogsPayload addresses topics bz =
        .ok (decoded.flatten.filter fun log => logMatches log addresses topics) := by
  intro bz hbz
  refine ⟨groups, ?_⟩
  rcases List.mem_pair.mp hbz with rfl | rfl
  · refine ⟨blockLogs_round_trip hK groups, ?_⟩
    rw [KVCodec.unmarshalFilteredBlockLogsPayload, KVCodec.mustMarshalBlockLogs,
      readPayload_tagged hK.capnpBlockLogs, capnpFilteredLogs_eq hK]
  · have hjson : K.jsonBlockLogs.unmarshal (K.jsonBlockLogs.marshal groups) = .ok groups :=
      hJ.blockLogs groups
    rw [KVCodec.unmarshalBlockLogsPayload, KVCodec.unmarshalFilteredBlockLogsPayload, readPayload,
      readPayload, untag_json hJ]
    refine ⟨hjson, ?_⟩
    rw [hjson, List.filter_flatten, ← List.flatMap_def]
    rfl

/-! ## A codec -/

section Sample

instance encodableUInt8 : Encodable UInt8 := .ofLeftInverse UInt8.toNat UInt8.ofNat fun _ => by simp

instance encodableUInt64 : Encodable UInt64 := .ofLeftInverse UInt64.toNat UInt64.ofNat
    fun _ => by simp

instance encodableBitVec (w : ℕ) : Encodable (BitVec w) :=
  .ofLeftInverse BitVec.toNat (BitVec.ofNat w) fun _ => by simp

instance encodableChar : Encodable Char := .ofLeftInverse Char.toNat Char.ofNat fun _ => by simp

instance encodableString : Encodable String :=
  .ofLeftInverse String.toList String.ofList fun _ => by simp

deriving instance Encodable for CapnpBlockMeta, CapnpLog, CapnpLogGroup, CapnpBlockLogs,
  CapnpReceipt, CapnpAccessTuple, CapnpRPCTransaction, CapnpTxResult, CapnpTracePayload, RPCLog

def KVCodec.sample : KVCodec where
  slice bs := if bs = [] then none else some bs
  capnpBlockMeta := .numbered 0 (.plain "invalid message")
  capnpBlockLogs := .numbered 0 (.plain "invalid message")
  capnpReceipt := .numbered 0 (.plain "invalid message")
  capnpRPCTransaction := .numbered 0 (.plain "invalid message")
  capnpTxResult := .numbered 0 (.plain "invalid message")
  capnpTracePayload := .numbered 0 (.plain "invalid message")
  jsonBlockMeta := ⟨fun _ => [], fun _ => .error (.plain "no older payloads")⟩
  jsonBlockLogs := .numbered 0x5b (.plain "invalid JSON")
  jsonReceipt := ⟨fun _ => [], fun _ => .error (.plain "no older payloads")⟩
  jsonRPCTransaction := ⟨fun _ => [], fun _ => .error (.plain "no older payloads")⟩
  protoTxResult := ⟨fun _ => [], fun _ => .error (.plain "no older payloads")⟩

theorem KVCodec.sample_laws : KVCodec.sample.Laws where
  slice bs := by
    by_cases h : bs = [] <;> simp [KVCodec.sample, h]
  capnpBlockMeta := Wire.numbered_roundTrips _ _
  capnpBlockLogs := Wire.numbered_roundTrips _ _
  capnpReceipt := Wire.numbered_roundTrips _ _
  capnpRPCTransaction := Wire.numbered_roundTrips _ _
  capnpTxResult := Wire.numbered_roundTrips _ _
  capnpTracePayload := Wire.numbered_roundTrips _ _

theorem KVCodec.sample_jsonLaws : KVCodec.sample.JsonLaws where
  blockLogs := Wire.numbered_roundTrips _ _
  ascii groups b hb := by
    obtain rfl : 0x5b = b := by simpa [KVCodec.sample, Wire.numbered] using hb
    decide

end Sample

def ReceiptArgs.atPrice (price : ℤ) : ReceiptArgs where
  status := 1
  cumulativeGasUsed := 21000
  gasUsed := 21000
  reason := ""
  vmError := "out of gas"
  logs := []
  txHash := 3
  contractAddress := none
  blockHash := 0xb1
  blockNumber := 5
  transactionIndex := 0
  effectiveGasPrice := price
  sender := 8
  toAddr := some 9
  txType := legacyTxType

/-- A transaction whose fee is zero, whose tip is absent and whose access list is empty. -/
def PointerTransaction.sample : PointerTransaction where
  blockHash := none
  blockNumber := some 0
  sender := 8
  gas := 21000
  gasPrice := some 0
  gasFeeCap := some 1
  gasTipCap := none
  hash := 3
  input := []
  nonce := 0
  toAddr := none
  transactionIndex := some 0
  value := none
  type := dynamicFeeTxType
  accesses := some []
  chainID := some 1
  v := none
  r := some 0
  s := none
  isVirtual := true
  cosmosHash := some 0
  cosmosMsgIndex := some 0

/-- That transaction reads back, and so does the receipt with the largest price that
fits. -/
theorem roundTrips_iff_sample :
    (KVValue.transaction .sample).RoundTrips Env.sample KVCodec.sample ∧
      (KVValue.receipt (.atPrice (2 ^ 256 - 1))).RoundTrips Env.sample KVCodec.sample := by
  have htx : (KVValue.transaction .sample).Nonneg := by
    simp [KVValue.Nonneg, PointerTransaction.Nonneg, PointerTransaction.sample]
  have hreceipt : (KVValue.receipt (.atPrice (2 ^ 256 - 1))).Nonneg := by
    change (0 : ℤ) ≤ 2 ^ 256 - 1
    norm_num
  have hfits : (KVValue.receipt (.atPrice (2 ^ 256 - 1))).PriceFits := by
    change (2 ^ 256 - 1 : ℤ) < 2 ^ 256
    norm_num
  exact ⟨(roundTrips_iff KVCodec.sample_laws htx).mpr trivial,
    (roundTrips_iff KVCodec.sample_laws hreceipt).mpr hfits⟩

/-- The next price makes the encoder panic. -/
theorem price_of_257_bits_panics :
    KVCodec.sample.Laws ∧ (KVValue.receipt (.atPrice (2 ^ 256))).Nonneg ∧
      ¬(KVValue.receipt (.atPrice (2 ^ 256))).RoundTrips Env.sample KVCodec.sample ∧
      ∃ e, KVCodec.sample.mustMarshalReceipt ((ReceiptArgs.atPrice (2 ^ 256)).build Env.sample) =
        .error (.panic e) := by
  obtain ⟨e, he⟩ := mustMarshalReceipt_of_le (E := Env.sample) (K := KVCodec.sample)
    (show 2 ^ 256 ≤ (ReceiptArgs.atPrice (2 ^ 256)).effectiveGasPrice from le_rfl)
  refine ⟨KVCodec.sample_laws, show (0 : ℤ) ≤ 2 ^ 256 by norm_num, ?_, e, he⟩
  rintro ⟨bz, hbz, -⟩
  rw [he] at hbz
  cases hbz

/-- A filter on a block with an empty group and a log without topics. -/
theorem filtered_decoding_sample :
    ∃ bz decoded, bz ∈ KVCodec.sample.blockLogsPayloads
        [[], [newRPCLog { address := 4, topics := [], data := [], blockNumber := 5 } false none]] ∧
      KVCodec.sample.unmarshalBlockLogsPayload bz = .ok decoded ∧
      KVCodec.sample.unmarshalFilteredBlockLogsPayload [4] [] bz =
        .ok (decoded.flatten.filter fun log => logMatches log [4] []) := by
  have hbz : KVCodec.sample.mustMarshalBlockLogs _ ∈ KVCodec.sample.blockLogsPayloads
      [[], [newRPCLog { address := 4, topics := [], data := [], blockNumber := 5 } false none]] :=
    List.mem_cons_self
  obtain ⟨decoded, hdecoded, hfiltered⟩ :=
    filtered_decoding KVCodec.sample_laws KVCodec.sample_jsonLaws _ [4] [] _ hbz
  exact ⟨_, decoded, hbz, hdecoded, hfiltered⟩

end EvmGateway
