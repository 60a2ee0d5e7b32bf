import EvmGateway.Lib.Bytes
import EvmGateway.Lib.Text

/-!
# Chain data

The data the gateway reads from a CometBFT node and from the Cosmos SDK, the
Ethereum values it turns them into, and the library functions it calls on them.

Library functions whose code is not part of the gateway (hashing, codecs, signature
recovery, ABI packing, bech32) are the fields of `Env`, and so are the constants the
gateway takes from the EVM module.  Everything proved here holds for every `Env`;
where a result needs a law of one of these functions, the law is a hypothesis.

Slice lengths, heights and positions are natural numbers: a slice is never longer
than a machine integer, and heights are nonnegative.  Gas is a machine word and wraps
as it does in the source, and a position given by a caller is narrowed explicitly
where the source narrows it.
-/

namespace EvmGateway

open Lib

/-! ## Hashes and addresses -/

/-- A 32-byte hash. -/
abbrev Hash := BitVec 256

/-- A 20-byte account address. -/
abbrev Address := BitVec 160

def Hash.bytes (h : Hash) : Bytes := toBE 32 h.toNat

def Address.bytes (a : Address) : Bytes := toBE 20 a.toNat

/-- Read a hash from a byte string: the last 32 bytes, or all of a shorter one. -/
def bytesToHash (bs : Bytes) : Hash := BitVec.ofNat 256 (ofBE bs)

/-- Read an address from a byte string: the last 20 bytes, or all of a shorter one. -/
def bytesToAddress (bs : Bytes) : Address := BitVec.ofNat 160 (ofBE bs)

/-- The bytes a hexadecimal text stands for.  The `0x` is optional, a missing leading
digit is a zero, and reading stops at the first character that is not a digit. -/
def fromHex (s : String) : Bytes :=
  let cs :=
    match s.toList with
    | '0' :: 'x' :: cs => cs
    | '0' :: 'X' :: cs => cs
    | cs => cs
  hexDecode (if cs.length % 2 = 1 then '0' :: cs else cs)

/-- The `0x` text of a byte string. -/
def hexutilEncode (bs : Bytes) : String := String.ofList ('0' :: 'x' :: hexEncode bs)

/-- The strict reading of a `0x` text. -/
def hexutilDecode (s : String) : Except String Bytes :=
  match s.toList with
  | [] => .error "empty hex string"
  | '0' :: x :: cs =>
    if x ≠ 'x' ∧ x ≠ 'X' then .error "hex string without 0x prefix"
    else if cs.length % 2 = 1 then .error "hex string of odd length"
    else if cs.all fun c => (hexVal c).isSome then .ok (hexDecode cs)
    else .error "invalid hex string"
  | _ => .error "hex string without 0x prefix"

/-- The text form of a hash. -/
def Hash.hex (h : Hash) : String := hexutilEncode h.bytes

/-- Read a hash from text. -/
def hexToHash (s : String) : Hash := bytesToHash (fromHex s)

/-- Read an address from text. -/
def hexToAddress (s : String) : Address := bytesToAddress (fromHex s)

/-- Whether a text is an address: forty digits behind an optional `0x`. -/
def isHexAddress (s : String) : Bool :=
  let cs :=
    match s.toList with
    | '0' :: 'x' :: cs => cs
    | '0' :: 'X' :: cs => cs
    | cs => cs
  cs.length == 40 && cs.all fun c => (hexVal c).isSome

@[simp] theorem bytesToHash_bytes (h : Hash) : bytesToHash h.bytes = h := by
  rw [bytesToHash, Hash.bytes, ofBE_toBE, Nat.mod_eq_of_lt (by simpa using h.isLt)]
  simp

@[simp] theorem bytesToAddress_bytes (a : Address) : bytesToAddress a.bytes = a := by
  rw [bytesToAddress, Address.bytes, ofBE_toBE, Nat.mod_eq_of_lt (by simpa using a.isLt)]
  simp

theorem fromHex_ofList {cs : List Char} (h : cs.length % 2 = 0) :
    fromHex (String.ofList ('0' :: 'x' :: cs)) = hexDecode cs := by
  simp [fromHex, h]

@[simp] theorem fromHex_hexutilEncode (bs : Bytes) : fromHex (hexutilEncode bs) = bs := by
  rw [hexutilEncode, fromHex_ofList (by rw [length_hexEncode]; omega), hexDecode_hexEncode]

@[simp] theorem hexToHash_hex (h : Hash) : hexToHash h.hex = h := by
  rw [hexToHash, Hash.hex, fromHex_hexutilEncode, bytesToHash_bytes]

theorem Hash.hex_injective : Function.Injective Hash.hex :=
  fun h h' heq => by rw [← hexToHash_hex h, heq, hexToHash_hex]

/-! ## Block parameters -/

structure BlockNumberOrHash where
  blockNumber : Option ℤ := none
  blockHash : Option Hash := none
  deriving DecidableEq

/-! ## Errors -/

/-- What an error can be told apart by. -/
inductive ErrKind where
  /-- an ordinary error -/
  | plain
  /-- wraps `ErrBlockParse` -/
  | blockParse
  /-- wraps `ErrCacheMiss` -/
  | cacheMiss
  /-- a Go panic -/
  | panic
  deriving DecidableEq, Repr

/-- An error value: its text, and the sentinel it wraps. -/
structure Err where
  kind : ErrKind
  message : String
  deriving DecidableEq, Repr

/-- An ordinary error. -/
def Err.plain (message : String) : Err := ⟨.plain, message⟩

/-- A run-time panic. -/
def Err.panic (message : String) : Err := ⟨.panic, message⟩

/-- `errors.Wrap`: put a message in front, keep the sentinel. -/
def Err.wrap (e : Err) (message : String) : Err := ⟨e.kind, s!"{message}: {e.message}"⟩

/-- The value of a computation whose error the caller handles; a panic is not handled. -/
def attempt {α : Type} (x : Except Err α) : Except Err (Option α) :=
  match x with
  | .ok a => .ok (some a)
  | .error e => if e.kind = .panic then .error e else .ok none

@[simp] theorem attempt_ok {α : Type} (a : α) : attempt (.ok a) = .ok (some a) := rfl

theorem attempt_eq_ok {α : Type} {x : Except Err α} {o : Option α} (h : attempt x = .ok o) :
    (∃ a, x = .ok a ∧ o = some a) ∨ (o = none ∧ ∃ e, x = .error e) := by
  cases x with
  | ok a => exact .inl ⟨a, rfl, (Except.ok.inj h).symm⟩
  | error e =>
    simp only [attempt] at h
    split_ifs at h
    exact .inr ⟨(Except.ok.inj h).symm, e, rfl⟩

/-- Attach a message to the error of a computation. -/
def wrapErr {α : Type} (x : Except Err α) (message : String) : Except Err α :=
  x.mapError (Err.wrap · message)

/-- Turn a library's error text into an error value. -/
def liftErr {α : Type} (x : Except String α) : Except Err α := x.mapError Err.plain

/-! ### Absence of panics -/

/-- The computation does not end in a panic. -/
def NoPanic {α : Type} (x : Except Err α) : Prop := ∀ e, x = .error e → e.kind ≠ .panic

namespace NoPanic

variable {α β : Type}

theorem ok (a : α) : NoPanic (.ok a) := by
  intro e h
  cases h

theorem error {e : Err} (h : e.kind ≠ .panic) : NoPanic (.error e : Except Err α) := by
  intro e' he
  cases he
  exact h

theorem bind {x : Except Err α} {f : α → Except Err β} (hx : NoPanic x)
    (hf : ∀ a, x = .ok a → NoPanic (f a)) : NoPanic (x >>= f) := by
  cases x with
  | error e => exact error (hx e rfl)
  | ok a => exact hf a rfl

theorem liftErr (x : Except String α) : NoPanic (liftErr x) := by
  cases x with
  | error e => exact error (by simp [Err.plain])
  | ok a => exact ok a

theorem wrapErr {x : Except Err α} (hx : NoPanic x) (m : String) : NoPanic (wrapErr x m) := by
  cases x with
  | error e => exact error (hx e rfl)
  | ok a => exact ok a

theorem foldlM {f : β → α → Except Err β} {l : List α} (hf : ∀ a ∈ l, ∀ s, NoPanic (f s a)) :
    ∀ s, NoPanic (l.foldlM f s) := by
  induction l with
  | nil => exact fun s => ok s
  | cons a l ih =>
    intro s
    exact (hf a (by simp) s).bind fun s' _ => ih (fun a' ha' => hf a' (by simp [ha'])) s'

theorem attempt {x : Except Err α} (hx : NoPanic x) :
    EvmGateway.attempt x = .ok x.toOption := by
  cases x with
  | error e => simp [EvmGateway.attempt, hx e rfl, Except.toOption]
  | ok a => rfl

end NoPanic

theorem toOption_wrapErr {α : Type} (x : Except Err α) (m : String) :
    (wrapErr x m).toOption = x.toOption := by
  cases x <;> rfl

/-! ## What the node returns -/

structure EventAttribute where
  key : String
  value : String
  index : Bool := false
  deriving DecidableEq, Repr

/-- An ABCI event. -/
structure Event where
  type : String
  attributes : List EventAttribute
  deriving DecidableEq, Repr

/-- The result of executing one Cosmos transaction. -/
structure ExecTxResult where
  code : ℕ := 0
  data : Bytes := []
  log : String := ""
  gasUsed : Int64 := 0
  events : List Event := []
  codespace : String := ""
  deriving DecidableEq

/-- The success code of an ABCI result. -/
def codeTypeOK : ℕ := 0

/-- The results of one block.  A missing transaction result is `none`. -/
structure BlockResults where
  height : ℕ
  txResults : List (Option ExecTxResult)
  finalizeBlockEvents : List Event := []
  deriving DecidableEq

/-- A CometBFT block, with the header fields the gateway reads. -/
structure Block where
  height : ℕ
  hash : Bytes
  txs : List Bytes
  lastBlockHash : Bytes := []
  appHash : Bytes := []
  dataHash : Bytes := []
  proposerAddress : Bytes := []
  /-- block time in seconds -/
  time : ℤ := 0
  size : ℕ := 0
  deriving DecidableEq

def Block.ethHash (b : Block) : Hash := bytesToHash b.hash

/-! ## Transactions -/

/-- An access list: an address with its storage slots, per entry. -/
abbrev AccessList := List (Address × List Hash)

/-- An Ethereum transaction. -/
structure EthTransaction where
  /-- 0 legacy, 1 access list, 2 dynamic fee -/
  type : ℕ
  hash : Hash
  nonce : UInt64
  gas : UInt64
  gasPrice : ℤ
  gasFeeCap : ℤ
  gasTipCap : ℤ
  value : ℤ
  /-- `To()`, `none` for a contract creation -/
  toAddr : Option Address
  data : Bytes
  accessList : AccessList
  chainID : ℤ
  /-- `Protected()`: bound to a chain id -/
  isProtected : Bool
  v : ℤ
  r : ℤ
  s : ℤ
  deriving DecidableEq

def legacyTxType : ℕ := 0

def accessListTxType : ℕ := 1

def dynamicFeeTxType : ℕ := 2

/-- The message that carries an Ethereum transaction, with what its methods return. -/
structure MsgEthereumTx where
  /-- `GetGas()` -/
  gas : UInt64
  /-- `Hash()` -/
  hash : Hash
  /-- `AsTransaction()`, `none` when the payload cannot be unpacked -/
  asTransaction : Option EthTransaction
  /-- `From`, empty when the sender is not filled in -/
  fromBytes : Bytes := []
  deriving DecidableEq

inductive Msg where
  | ethereumTx (msg : MsgEthereumTx)
  | other (typeURL : String)
  deriving DecidableEq

def Msg.ethereum? : Msg → Option MsgEthereumTx
  | .ethereumTx m => some m
  | .other _ => none

structure Coin where
  denom : String
  amount : ℤ
  deriving DecidableEq

/-- The fee of a transaction: its coins, and the gas it is paid for. -/
structure FeeTx where
  fee : List Coin
  gas : UInt64
  deriving DecidableEq

/-- A decoded Cosmos transaction.  The extension options are absent when the decoded
type does not have them. -/
structure SdkTx where
  msgs : List Msg
  extensionOptions : Option (List String)
  /-- missing if the transaction pays no fee -/
  feeTx : Option FeeTx := none
  deriving DecidableEq

/-- How a sender is recovered from a signature. -/
inductive Signer where
  | latestForChainID (chainID : ℤ)
  | frontier
  deriving DecidableEq

/-- The signer the gateway picks for a transaction: the most permissive one for a
replay-protected transaction, the frontier signer otherwise. -/
def EthTransaction.signer (tx : EthTransaction) : Signer :=
  if tx.isProtected then .latestForChainID tx.chainID else .frontier

/-! ## Logs -/

/-- An Ethereum log. -/
structure EthLog where
  address : Address
  topics : List Hash
  data : Bytes
  blockNumber : ℕ := 0
  txHash : Hash := 0
  txIndex : ℕ := 0
  blockHash : Hash := 0
  index : ℕ := 0
  removed : Bool := false
  deriving DecidableEq

/-- A log as the EVM module encodes it in a response. -/
structure EvmLog where
  address : String
  topics : List String
  data : Bytes
  blockNumber : ℕ
  txHash : String
  txIndex : ℕ
  blockHash : String
  index : ℕ
  removed : Bool
  deriving DecidableEq

/-- The response of one executed Ethereum message.  The fields that are carried
through untouched are kept together in `rest`. -/
structure MsgEthereumTxResponse where
  logs : List EvmLog
  rest : Bytes
  deriving DecidableEq

/-- A protobuf `Any`. -/
structure AnyMsg where
  typeUrl : String
  value : Bytes
  deriving DecidableEq

/-- The data of a successful transaction result. -/
structure TxMsgData where
  msgResponses : List AnyMsg
  rest : Bytes
  deriving DecidableEq

/-- The error object the EVM message server puts in the log. -/
structure AbciLogVMError where
  hash : String
  gasUsed : UInt64
  reason : String
  vmError : String
  ret : Bytes
  deriving DecidableEq

structure EventIBCHookCall where
  destinationPort : String
  destinationChannel : String
  sequence : ℕ
  contract : String
  input : Bytes
  success : Bool
  returnData : Bytes
  error : String
  gasUsed : UInt64
  logs : List (Option EvmLog)
  deriving DecidableEq

end EvmGateway
