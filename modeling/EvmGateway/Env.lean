import EvmGateway.Chain

/-!
# The library environment

The gateway links against CometBFT, the Cosmos SDK, the chain's EVM module and
go-ethereum.  `Env` gathers the functions and constants it takes from them, so that
the model below is a function of them and a concrete environment can be supplied to
evaluate it.

The checksummed text of an address is the one piece of such code that is spelled out,
because the records of the store hold addresses as text and reading them back must
give the address again (`hexToAddress_addressHex`).
-/

namespace EvmGateway

open Lib

/-! ## Trace values -/

/-- A decoded JSON value, identified by its compact text. -/
structure Json where
  text : String
  deriving DecidableEq

structure TxTraceResult where
  txHash : Hash := 0
  result : Option Json := none
  error : String := ""
  deriving DecidableEq

/-- The options of a trace request.  The fields the gateway hands through unread are
kept together in `rest`. -/
structure TraceConfig where
  tracer : String := ""
  timeout : String := ""
  tracerConfig : Bytes := []
  stateOverrides : Bytes := []
  blockOverrides : Bytes := []
  rest : Bytes := []
  deriving DecidableEq

/-- The call frame of a transaction that was not executed. -/
structure AnteFailedCallFrame where
  type : String
  fromAddr : Address
  toAddr : Option Address
  value : ℤ
  gas : UInt64
  gasUsed : UInt64
  input : Bytes
  error : String

/-- The default trace of a transaction that was not executed. -/
structure AnteFailedStructLog where
  gas : UInt64
  failed : Bool
  returnValue : String
  structLogs : List Json

/-- The trace of a transaction that was not executed. -/
inductive AnteFailedTrace where
  | callFrame (frame : AnteFailedCallFrame)
  | structLog (log : AnteFailedStructLog)

/-- A pair of a store query. -/
structure KvPair where
  key : Bytes
  value : Bytes
  deriving DecidableEq

/-! ## The environment -/

/-- The functions and constants of the linked libraries. -/
structure Env where
  /-- the EVM module's name, which is also its error codespace -/
  moduleName : String
  /-- the codespace of errors without one -/
  undefinedCodespace : String
  /-- the type of the event emitted per Ethereum transaction -/
  eventTypeEthereumTx : String
  /-- the name of that event in the queries of the node's search -/
  typeMsgEthereumTx : String
  attributeKeyEthereumTxHash : String
  attributeKeyTxIndex : String
  attributeKeyTxGasUsed : String
  attributeKeyEthereumTxFailed : String
  /-- the type of the event that carries the bloom of a block -/
  eventTypeBlockBloom : String
  attributeKeyEthereumBloom : String
  /-- what the IBC core puts in front of the events of a failed callback -/
  errorAttributeKeyMark : String
  /-- the account IBC hooks call contracts from -/
  ibcHookCallerAddress : Address
  /-- the type URL of an Ethereum response -/
  ethereumTxResponseTypeUrl : String
  emptyRootHash : Hash
  keccak256 : Bytes → Hash
  sha256 : Bytes → Hash
  /-- the CometBFT hash of a raw transaction -/
  txHash : Bytes → Bytes
  /-- the CometBFT Merkle root of a list of byte strings -/
  merkleRoot : List Bytes → Bytes
  createAddress : Address → UInt64 → Address
  logsBloom : List EthLog → Bytes
  txDecoder : Bytes → Except Err SdkTx
  getSenderLegacy : MsgEthereumTx → Signer → Except Err Address
  /-- the Ethereum message of a transaction with the given hash -/
  unwrapEthereumMsg : SdkTx → Hash → Except Err MsgEthereumTx
  /-- base fee, fee cap, tip cap -/
  effectiveGasPrice : ℤ → ℤ → ℤ → ℤ
  unmarshalTxMsgData : Bytes → Except Err TxMsgData
  marshalTxMsgData : TxMsgData → Except Err Bytes
  unmarshalEthereumTxResponse : Bytes → Except Err MsgEthereumTxResponse
  marshalEthereumTxResponse : MsgEthereumTxResponse → Except Err Bytes
  /-- the logs of one message in a transaction's response data, at a block height -/
  decodeMsgLogs : Bytes → ℕ → ℕ → Except Err (List EthLog)
  /-- the logs of all Ethereum messages in a transaction's response data -/
  decodeTxLogs : Bytes → ℕ → Except Err (List EthLog)
  /-- the lenient JSON reader of the error object -/
  sonicUnmarshalVMError : String → Except String AbciLogVMError
  /-- the standard library's JSON reader of the error object -/
  jsonUnmarshalVMError : String → Except String AbciLogVMError
  parseCoinsNormalized : String → Except Err (List Coin)
  bech32DecodeAndConvert : String → Except Err Bytes
  /-- the bytes of an account address in the chain's own bech32 form -/
  accAddressFromBech32 : String → Except Err Bytes
  /-- ABI encoding of a denomination and an amount -/
  packDenomAmount : String → ℤ → Except Err Bytes
  /-- ABI encoding of port, channel, sequence, success flag, return data and error -/
  packHookSummary : String → String → ℕ → Bool → Bytes → String → Except Err Bytes
  /-- a hook call, or the name of the type the event decodes as instead -/
  parseTypedEvent : Event → Except Err (EventIBCHookCall ⊕ String)
  /-- the bytes of an attribute value that is not text -/
  attributeBytes : String → Bytes
  /-- a decimal text rounded to an integer -/
  legacyDecRoundInt : String → Option ℤ
  marshalTraceConfig : Option TraceConfig → Option Bytes
  marshalTraces : List (Option TxTraceResult) → Except Err Bytes
  unmarshalTraces : Bytes → Except Err (List (Option TxTraceResult))
  /-- the JSON of a trace the gateway made itself -/
  anteFailedJson : AnteFailedTrace → Json
  /-- the nanoseconds of a duration text -/
  parseDuration : String → Option ℤ
  durationString : ℤ → String
  /-- a text cast to an unsigned 64-bit number, 0 for anything that is not one -/
  castToUint64 : String → ℕ := fun s => (parseUint s 64).toOption.getD 0
  /-- a JSON text read as an object with a block number or a block hash -/
  sonicUnmarshalErased : String → Except Err BlockNumberOrHash :=
    fun _ => .error (.plain "mismatched type")
  /-- a JSON text read as a string -/
  sonicUnmarshalString : String → Except Err String :=
    fun data => .ok (String.ofList (data.toList.drop 1).dropLast)
  /-- the name of the store of the EVM module -/
  storeKey : String := "evm"
  /-- what the store keys of a contract's slots begin with -/
  addressStoragePrefix : Address → Bytes := fun address => 2 :: address.bytes
  unmarshalKvPairs : Bytes → Except Err (List KvPair) := fun _ => .ok []
  /-- a floating-point number as text -/
  formatFloat : ℚ → String := toString
  /-- the share of a gas limit that was used, in floating point -/
  gasUsedRatio : UInt64 → UInt64 → ℚ := fun used limit => (used.toNat : ℚ) / limit.toNat
  /-- a percentage of some gas, in floating point, cut to an integer -/
  gasThreshold : UInt64 → ℚ → UInt64 := fun used p => UInt64.ofNat (used.toNat * p / 100).floor.toNat
  /-- a JSON value -/
  unmarshalTrace : Bytes → Except Err Json := fun raw =>
    .ok ⟨String.ofList (raw.map fun b => Char.ofNat b.toNat)⟩
  /-- the name of the type of a decoded transaction -/
  sdkTxType : String := "*tx.gogoTxWrapper"
  /-- whether a text can be the name of a coin -/
  validateDenom : String → Bool := fun denom => 3 ≤ denom.length

/-! ## Checksummed addresses -/

/-- The digits of an address with the checksum in their case: a letter is upper case
when the matching digit of the hash of the lower-case text is above seven. -/
def checksumDigits (check digits : List Char) : List Char :=
  List.zipWith (fun d c => if (hexVal c).getD 0 > 7 then d.toUpper else d) digits check

/-- The text form of an address. -/
def Env.addressHex (E : Env) (a : Address) : String :=
  let digits := hexEncode a.bytes
  let check := hexEncode (E.keccak256 (digits.map fun c => UInt8.ofNat c.toNat)).bytes
  String.ofList ('0' :: 'x' :: checksumDigits check digits)

/-- The checksum only changes letter case, so the digits keep their values. -/
theorem map_hexVal_checksumDigits {digits check : List Char} (hlen : digits.length ≤ check.length)
    (hdigits : ∀ d ∈ digits, ∃ n < 16, d = hexDigit n) :
    (checksumDigits check digits).map hexVal = digits.map hexVal := by
  induction digits generalizing check with
  | nil => simp [checksumDigits]
  | cons d ds ih =>
    cases check with
    | nil => simp at hlen
    | cons c cs =>
      have htail := @ih cs (by simpa using hlen)
        fun x hx => hdigits x (List.mem_cons_of_mem _ hx)
      obtain ⟨n, hn, rfl⟩ := hdigits d List.mem_cons_self
      have hhead : hexVal (if (hexVal c).getD 0 > 7 then (hexDigit n).toUpper else hexDigit n)
          = hexVal (hexDigit n) := by
        split
        · rw [hexVal_toUpper_hexDigit n hn, hexVal_hexDigit n hn]
        · rfl
      simp only [checksumDigits, List.zipWith_cons_cons, List.map_cons] at htail ⊢
      rw [hhead, htail]

theorem length_checksumDigits {digits check : List Char} (hlen : digits.length ≤ check.length) :
    (checksumDigits check digits).length = digits.length := by
  simp [checksumDigits, hlen]

@[simp] theorem hexToAddress_addressHex (E : Env) (a : Address) :
    hexToAddress (E.addressHex a) = a := by
  have hdigits : (hexEncode a.bytes).length = 40 := by
    rw [length_hexEncode, Address.bytes, length_toBE]
  have hlen : ∀ h : Hash, (hexEncode a.bytes).length ≤ (hexEncode h.bytes).length := by
    intro h
    rw [hdigits, length_hexEncode, Hash.bytes, length_toBE]
    omega
  rw [hexToAddress, Env.addressHex, fromHex_ofList, hexDecode_eq, hexDecode_hexEncode,
    bytesToAddress_bytes]
  · exact map_hexVal_checksumDigits (hlen _) fun d hd => exists_hexDigit_of_mem_hexEncode hd
  · rw [length_checksumDigits (hlen _), hdigits]

@[simp] theorem hexToAddress_comp_addressHex (E : Env) : hexToAddress ∘ E.addressHex = id :=
  funext (hexToAddress_addressHex E)

/-! ## A small environment -/

def sampleEthMsg (n : UInt8) : MsgEthereumTx where
  gas := 21000
  hash := BitVec.ofNat 256 n.toNat
  asTransaction := some {
    type := legacyTxType
    hash := BitVec.ofNat 256 n.toNat
    nonce := 0
    gas := 21000
    gasPrice := 1
    gasFeeCap := 1
    gasTipCap := 1
    value := 0
    toAddr := some 9
    data := []
    accessList := []
    chainID := 1
    isProtected := true
    v := 0
    r := 0
    s := 0 }

/-- An environment to evaluate the model in.  The event names are the chain's own.  A
raw transaction that starts with a zero byte is a Cosmos transaction with one message;
any other one is an Ethereum transaction with one message per byte.  A byte of response
data stands for a log of that address without topics. -/
def Env.sample : Env where
  moduleName := "evm"
  undefinedCodespace := "undefined"
  eventTypeEthereumTx := "ethereum_tx"
  typeMsgEthereumTx := "ethereum_tx"
  attributeKeyEthereumTxHash := "ethereumTxHash"
  attributeKeyTxIndex := "txIndex"
  attributeKeyTxGasUsed := "txGasUsed"
  attributeKeyEthereumTxFailed := "ethereumTxFailed"
  eventTypeBlockBloom := "block_bloom"
  attributeKeyEthereumBloom := "bloom"
  errorAttributeKeyMark := "ibccallbackerror-"
  ibcHookCallerAddress := 7
  ethereumTxResponseTypeUrl := "/injective.evm.v1.MsgEthereumTxResponse"
  emptyRootHash := 0
  keccak256 := fun bs => bytesToHash bs
  sha256 := fun bs => bytesToHash bs
  txHash := fun raw => 7 :: raw
  merkleRoot := fun _ => []
  createAddress := fun a _ => a
  logsBloom := fun _ => []
  txDecoder := fun raw =>
    match raw with
    | [] => .error (.plain "empty transaction")
    | n :: _ =>
      if n = 0 then .ok { msgs := [.other "/cosmos.bank.v1beta1.MsgSend"], extensionOptions := none }
      else .ok {
        msgs := raw.map fun n => .ethereumTx (sampleEthMsg n)
        extensionOptions := some ["/injective.evm.v1.ExtensionOptionsEthereumTx"] }
  getSenderLegacy := fun _ _ => .ok 8
  unwrapEthereumMsg := fun tx hash =>
    match (tx.msgs.filterMap Msg.ethereum?).find? (·.hash == hash) with
    | some msg => .ok msg
    | none => .error (.plain "eth tx not found")
  effectiveGasPrice := fun fee cap tip => min cap (fee + tip)
  unmarshalTxMsgData := fun bs => .ok { msgResponses := [], rest := bs }
  marshalTxMsgData := fun d => .ok d.rest
  unmarshalEthereumTxResponse := fun bs => .ok { logs := [], rest := bs }
  marshalEthereumTxResponse := fun r => .ok r.rest
  decodeMsgLogs := fun data _ height => .ok (data.map fun b =>
    { address := BitVec.ofNat 160 b.toNat, topics := [], data := [], blockNumber := height })
  decodeTxLogs := fun data height => .ok (data.map fun b =>
    { address := BitVec.ofNat 160 b.toNat, topics := [], data := [], blockNumber := height })
  sonicUnmarshalVMError := fun _ => .error "not an object"
  jsonUnmarshalVMError := fun _ => .error "not an object"
  parseCoinsNormalized := fun s => .ok [⟨s, 1⟩]
  bech32DecodeAndConvert := fun _ => .error (.plain "not bech32")
  accAddressFromBech32 := fun _ => .ok []
  packDenomAmount := fun _ _ => .ok []
  packHookSummary := fun _ _ _ _ _ _ => .ok []
  parseTypedEvent := fun _ => .error (.plain "not a hook")
  attributeBytes := fun _ => []
  legacyDecRoundInt := fun _ => none
  marshalTraceConfig := fun _ => some []
  marshalTraces := fun _ => .error (.plain "no traces")
  unmarshalTraces := fun _ => .error (.plain "no traces")
  anteFailedJson := fun trace =>
    match trace with
    | .callFrame frame => ⟨"\"" ++ frame.type ++ "\""⟩
    | .structLog _ => ⟨"[]"⟩
  parseDuration := fun _ => none
  durationString := fun d => toString d

end EvmGateway
