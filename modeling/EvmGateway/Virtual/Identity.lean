import EvmGateway.Virtual.Synthetic

/-!
# Identities of synthetic transactions

A synthetic transaction is identified by the hash of a text: the name of a block phase with a
height, or the hash of a Cosmos transaction, followed by decimal numbers for a hook.  The
texts can be told apart, so identities collide only if a hash function does
(`virtual_identities_distinct`).

A hash function has collisions, and so freedom from collisions is assumed of the texts in use,
not of all texts.

## Main definitions

* `VirtualIdentity` — what a synthetic transaction stands for, with `hash` and the hashed
  `preimage`.
* `Response.identities` — what the synthetic transactions of a response can stand for.
-/

namespace EvmGateway

open Lib

/-! ## Decimal texts -/

/-- The decimal text of a number. -/
def decimal (n : ℕ) : Bytes := asciiBytes (toString n)

theorem isDigit_of_mem_toString {n : ℕ} {c : Char} (h : c ∈ (toString n).toList) :
    48 ≤ c.toNat ∧ c.toNat ≤ 57 := by
  rw [Nat.toString_eq_repr, Nat.toList_repr] at h
  exact Char.isDigit_iff_toNat.mp (Nat.isDigit_of_mem_toDigits (by decide) (by decide) h)

theorem digit_of_mem_decimal {n : ℕ} {b : UInt8} (h : b ∈ decimal n) :
    48 ≤ b.toNat ∧ b.toNat ≤ 57 := by
  obtain ⟨c, hc, rfl⟩ := List.mem_map.mp h
  have hdigit := isDigit_of_mem_toString hc
  rw [UInt8.toNat_ofNat_of_lt' (show c.toNat < 256 by omega)]
  exact hdigit

theorem decimal_injective : Function.Injective decimal := by
  intro m n h
  -- the characters can be read back from the bytes
  have hchars : ∀ k : ℕ, (decimal k).map (fun b => Char.ofNat b.toNat) = (toString k).toList := by
    intro k
    rw [decimal, asciiBytes, List.map_map]
    refine (List.map_congr_left fun c hc => ?_).trans (List.map_id _)
    have hdigit := isDigit_of_mem_toString hc
    simp only [Function.comp_apply, id_eq,
      UInt8.toNat_ofNat_of_lt' (show c.toNat < 256 by omega), Char.ofNat_toNat]
  have hlist := (hchars m).symm.trans ((congrArg _ h).trans (hchars n))
  exact Nat.repr_inj.mp (String.toList_inj.mp hlist)

theorem hash_not_mem_decimal (n : ℕ) : (35 : UInt8) ∉ decimal n := by
  intro h
  exact absurd (digit_of_mem_decimal h).1 (by decide)

/-! ## Identities -/

/-- The phases of a block with events of their own. -/
inductive BlockPhase where
  | beginBlock
  | endBlock
  deriving DecidableEq

def BlockPhase.name : BlockPhase → String
  | .beginBlock => "begin_block"
  | .endBlock => "end_block"

/-- The parts of a Cosmos transaction: its bank events, the only hook of a message, and one of
several hooks of a message. -/
inductive TxPart where
  | bank
  | hook (msgIndex : ℕ)
  | nested (msgIndex position : ℕ)
  deriving DecidableEq

/-- What a synthetic transaction stands for. -/
inductive VirtualIdentity where
  | block (phase : BlockPhase) (height : ℕ)
  | tx (raw : Bytes) (part : TxPart)
  deriving DecidableEq

namespace VirtualIdentity

def hash (E : Env) : VirtualIdentity → Hash
  | .block .beginBlock height => beginBlockHash E height
  | .block .endBlock height => endBlockHash E height
  | .tx raw .bank => cosmosTxHash E raw
  | .tx raw (.hook i) => ibcHookTxHash E raw i
  | .tx raw (.nested i p) => nestedIBCHookTxHash E raw i p

def height : VirtualIdentity → ℕ
  | .block _ height => height
  | .tx _ _ => 0

def raw? : VirtualIdentity → Option Bytes
  | .block _ _ => none
  | .tx raw _ => some raw

/-- The Cosmos transactions of identities. -/
def rawTxs (S : Set VirtualIdentity) : Set Bytes := {raw | ∃ id ∈ S, id.raw? = some raw}

end VirtualIdentity

/-- What is written behind the hash of the Cosmos transaction. -/
def TxPart.suffix : TxPart → Bytes
  | .bank => []
  | .hook i => 64 :: decimal i
  | .nested i p => 64 :: (decimal i ++ 35 :: decimal p)

theorem TxPart.suffix_injective : Function.Injective TxPart.suffix := by
  have hapart : ∀ i j p : ℕ, decimal i ≠ decimal j ++ 35 :: decimal p := by
    intro i j p h
    exact hash_not_mem_decimal i (h ▸ List.mem_append_right _ List.mem_cons_self)
  intro a b h
  cases a with
  | bank =>
    cases b with
    | bank => rfl
    | hook j => cases h
    | nested j q => cases h
  | hook i =>
    cases b with
    | bank => cases h
    | hook j => rw [decimal_injective (List.cons_inj_right 64 |>.mp h)]
    | nested j q => exact absurd (List.cons_inj_right 64 |>.mp h) (hapart i j q)
  | nested i p =>
    cases b with
    | bank => cases h
    | hook j => exact absurd (List.cons_inj_right 64 |>.mp h).symm (hapart j i p)
    | nested j q =>
      have hsplit := (List.append_cons_inj_of_notMem (hash_not_mem_decimal i)
        (hash_not_mem_decimal p)).mp (List.cons_inj_right 64 |>.mp h)
      rw [decimal_injective hsplit.1, decimal_injective hsplit.2.2]

namespace VirtualIdentity

/-- The text that is hashed. -/
def preimage (E : Env) : VirtualIdentity → Bytes
  | .block phase height => asciiBytes phase.name ++ toBE 8 height
  | .tx raw part => (originalCosmosTxHash E raw).bytes ++ part.suffix

theorem hash_eq (E : Env) (id : VirtualIdentity) : id.hash E = E.keccak256 (id.preimage E) := by
  cases id with
  | block phase height => cases phase <;> rfl
  | tx raw part =>
    cases part with
    | bank => exact congrArg E.keccak256 (List.append_nil _).symm
    | hook i =>
      refine congrArg E.keccak256 ?_
      rw [List.append_assoc]
      rfl
    | nested i p =>
      refine congrArg E.keccak256 ?_
      simp only [List.append_assoc]
      rfl

theorem length_block (E : Env) (phase : BlockPhase) (height : ℕ) :
    ((block phase height).preimage E).length = phase.name.length + 8 := by
  cases phase <;> rfl

theorem le_length_tx (E : Env) (raw : Bytes) (part : TxPart) :
    32 ≤ ((tx raw part).preimage E).length := by
  rw [preimage, List.length_append, Hash.bytes, length_toBE]
  omega

theorem toBE_injOn : Set.InjOn (toBE 8) {n | n < 2 ^ 63} := by
  intro m hm n hn h
  have hvalue := congrArg ofBE h
  rw [ofBE_toBE, ofBE_toBE, Nat.mod_eq_of_lt, Nat.mod_eq_of_lt] at hvalue
  · exact hvalue
  · exact lt_trans hn (by norm_num)
  · exact lt_trans hm (by norm_num)

theorem originalCosmosTxHash_injOn {E : Env} {txs : Set Bytes} (hinj : Set.InjOn E.txHash txs)
    (hlen : ∀ tx ∈ txs, (E.txHash tx).length = 32) : Set.InjOn (originalCosmosTxHash E) txs := by
  intro tx htx tx' htx' h
  refine hinj htx htx' ?_
  have hvalue : ∀ raw ∈ txs, (originalCosmosTxHash E raw).toNat = ofBE (E.txHash raw) := by
    intro raw hraw
    rw [originalCosmosTxHash, bytesToHash, BitVec.toNat_ofNat, Nat.mod_eq_of_lt]
    have hlt := ofBE_lt (E.txHash raw)
    rw [hlen raw hraw] at hlt
    exact hlt.trans_le (by norm_num)
  have hof : ofBE (E.txHash tx) = ofBE (E.txHash tx') := by
    rw [← hvalue tx htx, h, hvalue tx' htx']
  rw [← toBE_ofBE (E.txHash tx), ← toBE_ofBE (E.txHash tx'), hof, hlen tx htx, hlen tx' htx']

/-- The hashed texts tell the identities apart. -/
theorem preimage_injOn {E : Env} {S : Set VirtualIdentity}
    (hinj : Set.InjOn E.txHash (rawTxs S)) (hlen : ∀ tx ∈ rawTxs S, (E.txHash tx).length = 32)
    (hheight : ∀ id ∈ S, id.height < 2 ^ 63) : Set.InjOn (preimage E) S := by
  intro a ha b hb h
  have hlength := congrArg List.length h
  cases a with
  | block phase height =>
    cases b with
    | block phase' height' =>
      rw [length_block, length_block] at hlength
      obtain rfl : phase = phase' := by
        cases phase <;> cases phase' <;> first | rfl | exact absurd hlength (by decide)
      obtain rfl : height = height' :=
        toBE_injOn (hheight _ ha) (hheight _ hb) (List.append_cancel_left h)
      rfl
    | tx raw part =>
      rw [length_block] at hlength
      have := le_length_tx E raw part
      have hname : phase.name.length ≤ 11 := by cases phase <;> decide
      omega
  | tx raw part =>
    cases b with
    | block phase height =>
      rw [length_block] at hlength
      have := le_length_tx E raw part
      have hname : phase.name.length ≤ 11 := by cases phase <;> decide
      omega
    | tx raw' part' =>
      obtain ⟨hhash, hsuffix⟩ := List.append_inj h (by rw [Hash.bytes, Hash.bytes]; simp)
      have hword : originalCosmosTxHash E raw = originalCosmosTxHash E raw' := by
        rw [← bytesToHash_bytes (originalCosmosTxHash E raw), hhash, bytesToHash_bytes]
      rw [originalCosmosTxHash_injOn hinj hlen ⟨_, ha, rfl⟩ ⟨_, hb, rfl⟩ hword,
        TxPart.suffix_injective hsuffix]

end VirtualIdentity

/-! ## The transactions of one response -/

/-- What the synthetic transactions of a response can stand for. -/
def Response.identities (r : Response) (ctx : TxContext) : Set VirtualIdentity :=
  {id | id = .tx ctx.tx .bank ∨ ∃ event ∈ r.hookEntries ctx, ∃ i, event.msgIndex = some i ∧
    (id = .tx ctx.tx (.hook i) ∨ ∃ p < (r.hookEntries ctx).length, id = .tx ctx.tx (.nested i p))}

def hookPart (perMessage : ℕ → ℕ) (x : ℕ × ℕ) : TxPart :=
  if perMessage x.1 > 1 then .nested x.1 x.2 else .hook x.1

section Transactions

variable {E : Env} {r : Response}

theorem map_hash_hookTxs (perMessage : ℕ → ℕ) (hooks : List HookEntry) :
    ∀ (ctx : TxContext) (previous : Option ℕ) (ordinal : ℕ),
      (r.hookTxs E perMessage ctx previous ordinal hooks).map (·.transaction.hash) =
        (ordinalsFrom previous ordinal (hooks.map (·.msgIndex))).map fun x =>
          (VirtualIdentity.tx ctx.tx (hookPart perMessage x)).hash E := by
  induction hooks with
  | nil =>
    intro ctx previous ordinal
    rfl
  | cons hook hooks ih =>
    intro ctx previous ordinal
    rw [Response.hookTxs, List.map_cons, List.map_cons, ordinalsFrom, List.map_cons, ih,
      syntheticTx_hash, ← nextOrdinal.eq_def, hookPart]
    congr 1
    split_ifs <;> rfl

theorem transactionHash_hookTxs (perMessage : ℕ → ℕ) (hooks : List HookEntry) :
    ∀ (ctx : TxContext) (previous : Option ℕ) (ordinal : ℕ),
      ∀ tx ∈ r.hookTxs E perMessage ctx previous ordinal hooks,
        tx.receipt.transactionHash = tx.transaction.hash := by
  induction hooks with
  | nil =>
    intro ctx previous ordinal tx htx
    cases htx
  | cons hook hooks ih =>
    intro ctx previous ordinal tx htx
    rcases List.mem_cons.mp htx with rfl | htx
    · rfl
    · exact ih _ _ _ tx htx

end Transactions

/-- Hooks of the same message are nested under it. -/
theorem nodup_hookParts {keys : List ℕ} (hsorted : keys.Pairwise (· ≤ ·)) :
    ((ordinalsFrom none 0 keys).map (hookPart fun i => keys.count i)).Nodup := by
  refine List.Nodup.map_on ?_ (nodup_ordinalsFrom hsorted)
  intro x hx y hy h
  unfold hookPart at h
  split_ifs at h with hmany hmany' hmany'
  · exact Prod.ext (TxPart.nested.inj h).1 (TxPart.nested.inj h).2
  · -- the only hook of its message has the first ordinal
    have hfst := TxPart.hook.inj h
    have hx' := snd_lt_of_mem_ordinalsFrom hx
    have hy' := snd_lt_of_mem_ordinalsFrom hy
    simp only [nextOrdinal, Option.isSome_none, Bool.false_eq_true, false_and, if_false] at hx' hy'
    dsimp only at hmany hmany'
    exact Prod.ext hfst (by omega)

theorem hookPart_ne_bank (perMessage : ℕ → ℕ) (x : ℕ × ℕ) : hookPart perMessage x ≠ .bank := by
  unfold hookPart
  split_ifs <;> exact TxPart.noConfusion

theorem foldl_advance_tx (txs : List VirtualTx) (ctx : TxContext) :
    (txs.foldl TxContext.advance ctx).tx = ctx.tx := by
  induction txs generalizing ctx with
  | nil => rfl
  | cons tx txs ih => exact ih (ctx.advance tx)

theorem bankTxs_identities (E : Env) (r : Response) (ctx : TxContext) (gas : UInt64) :
    ∃ ids : List VirtualIdentity, (ids = [] ∨ ids = [.tx ctx.tx .bank]) ∧
      (r.bankTxs E ctx gas).map (·.transaction.hash) = ids.map (·.hash E) ∧
      ∀ tx ∈ r.bankTxs E ctx gas, tx.receipt.transactionHash = tx.transaction.hash := by
  unfold Response.bankTxs
  split_ifs with hbank
  · exact ⟨[], .inl rfl, rfl, List.forall_mem_nil _⟩
  · refine ⟨_, .inr rfl, rfl, fun tx htx => ?_⟩
    obtain rfl := List.mem_singleton.mp htx
    rfl

def hookIdentities (raw : Bytes) (keys : List ℕ) : List VirtualIdentity :=
  (ordinalsFrom none 0 keys).map fun x => .tx raw (hookPart (fun i => keys.count i) x)

theorem nodup_hookIdentities (raw : Bytes) {keys : List ℕ} (hsorted : keys.Pairwise (· ≤ ·)) :
    (hookIdentities raw keys).Nodup := by
  have h := (nodup_hookParts hsorted).map (f := VirtualIdentity.tx raw)
    fun _ _ heq => (VirtualIdentity.tx.inj heq).2
  rwa [List.map_map] at h

theorem mem_hookIdentities {raw : Bytes} {keys : List ℕ} {id : VirtualIdentity}
    (h : id ∈ hookIdentities raw keys) :
    ∃ i ∈ keys, id = .tx raw (.hook i) ∨ ∃ p < keys.length, id = .tx raw (.nested i p) := by
  obtain ⟨x, hx, rfl⟩ := List.mem_map.mp h
  have hlt := snd_lt_of_mem_ordinalsFrom hx
  simp only [nextOrdinal, Option.isSome_none, Bool.false_eq_true, false_and, if_false,
    Nat.zero_add] at hlt
  refine ⟨x.1, fst_mem_of_mem_ordinalsFrom hx, ?_⟩
  unfold hookPart
  split_ifs with hmany
  · exact .inr ⟨x.2, hlt.trans_le List.count_le_length, rfl⟩
  · exact .inl rfl

theorem syntheticTxs_identities {E : Env} {r : Response} {ctx : TxContext} {txs : List VirtualTx}
    (h : r.syntheticTxs E ctx = .ok txs) (hhooks : r.hookEntries ctx ≠ []) :
    ∃ ids : List VirtualIdentity, ids.Nodup ∧ (∀ id ∈ ids, id ∈ r.identities ctx) ∧
      txs.map (·.transaction.hash) = ids.map (·.hash E) ∧
      ∀ tx ∈ txs, tx.receipt.transactionHash = tx.transaction.hash := by
  obtain ⟨hooks, hof, htxs⟩ := syntheticTxs_ok h hhooks
  dsimp only at htxs
  set sorted := hooks.insertionSort (·.msgIndex ≤ ·.msgIndex) with hsorted
  set keys := sorted.map (·.msgIndex) with hkeys
  have hperm : sorted.Perm hooks := List.perm_insertionSort _ _
  have hcount : (fun i => hooks.countP (·.msgIndex == i)) = fun i => keys.count i := by
    funext i
    rw [hkeys, List.count, List.countP_map, ← hperm.countP_eq]
    rfl
  have hkeysSorted : keys.Pairwise (· ≤ ·) :=
    List.pairwise_map.mpr (List.pairwise_insertionSort _ _)
  have hmem : ∀ id ∈ hookIdentities ctx.tx keys, id ∈ r.identities ctx := by
    intro id hid
    obtain ⟨i, hi, hid⟩ := mem_hookIdentities hid
    obtain ⟨hook, hhook, rfl⟩ := List.mem_map.mp hi
    obtain ⟨k, hk⟩ := List.getElem?_of_mem (hperm.mem_iff.mp hhook)
    obtain ⟨event, hevent, heq⟩ := forall₂_getElem?_right hof hk
    have hlen : keys.length = (r.hookEntries ctx).length := by
      rw [hkeys, List.length_map, hperm.length_eq, hof.length_eq]
    exact .inr ⟨event, List.mem_of_getElem? hevent, _, heq.2.1, hlen ▸ hid⟩
  obtain ⟨bankIds, hbankIds, hbank, hbankReceipt⟩ := bankTxs_identities E r ctx.afterEthereum
    (sorted.foldl (fun gas h => accountGas gas h.hook.gasUsed)
      (accountGas r.gasUsed ctx.ethereumGasUsed))
  subst htxs
  refine ⟨bankIds ++ hookIdentities ctx.tx keys, ?_, ?_, ?_, ?_⟩
  · rcases hbankIds with rfl | rfl
    · exact nodup_hookIdentities _ hkeysSorted
    · refine List.nodup_cons.mpr ⟨fun hbankMem => ?_, nodup_hookIdentities _ hkeysSorted⟩
      obtain ⟨x, -, hx⟩ := List.mem_map.mp hbankMem
      exact hookPart_ne_bank _ x (VirtualIdentity.tx.inj hx).2
  · intro id hid
    rcases List.mem_append.mp hid with hid | hid
    · rcases hbankIds with rfl | rfl
      · cases hid
      · exact .inl (List.mem_singleton.mp hid)
    · exact hmem id hid
  · rw [List.map_append, List.map_append, hbank, map_hash_hookTxs, foldl_advance_tx, hcount,
      hookIdentities, List.map_map]
    rfl
  · intro tx htx
    rcases List.mem_append.mp htx with htx | htx
    · exact hbankReceipt tx htx
    · exact transactionHash_hookTxs _ _ _ _ _ tx htx

/-- **Identities never collide.** Unless a hash function collides on the texts in use, different
identities have different hashes, and so have the synthetic transactions of every response. -/
theorem virtual_identities_distinct (E : Env) (S : Set VirtualIdentity)
    (hkeccak : Set.InjOn E.keccak256 (VirtualIdentity.preimage E '' S))
    (htxHash : Set.InjOn E.txHash (VirtualIdentity.rawTxs S))
    (hlen : ∀ tx ∈ VirtualIdentity.rawTxs S, (E.txHash tx).length = 32)
    (hheight : ∀ id ∈ S, id.height < 2 ^ 63) :
    Set.InjOn (VirtualIdentity.hash E) S ∧
      ∀ (r : Response) (ctx : TxContext) (txs : List VirtualTx), r.syntheticTxs E ctx = .ok txs →
        r.identities ctx ⊆ S → (txs.map (·.transaction.hash)).Nodup ∧
          (txs.map (·.receipt.transactionHash)).Nodup := by
  have hinj : Set.InjOn (VirtualIdentity.hash E) S := by
    intro a ha b hb h
    rw [VirtualIdentity.hash_eq, VirtualIdentity.hash_eq] at h
    exact VirtualIdentity.preimage_injOn htxHash hlen hheight ha hb
      (hkeccak (Set.mem_image_of_mem _ ha) (Set.mem_image_of_mem _ hb) h)
  refine ⟨hinj, fun r ctx txs h hS => ?_⟩
  by_cases hhooks : r.hookEntries ctx = []
  · rw [syntheticTxs_of_noHooks hhooks] at h
    rw [← Except.ok.inj h, Response.bankTxs]
    split_ifs
    · exact ⟨List.nodup_nil, List.nodup_nil⟩
    · exact ⟨List.nodup_singleton _, List.nodup_singleton _⟩
  · obtain ⟨ids, hnodup, hids, hhashes, hreceipts⟩ := syntheticTxs_identities h hhooks
    have hdistinct : (txs.map (·.transaction.hash)).Nodup := by
      rw [hhashes]
      exact hnodup.map_on fun a ha b hb heq => hinj (hS (hids a ha)) (hS (hids b hb)) heq
    exact ⟨hdistinct, by rwa [List.map_congr_left hreceipts]⟩

/-- An environment whose hashes keep what they hash, up to 32 bytes. -/
def Env.keeping : Env := { Env.sample with txHash := fun raw => toBE 32 (ofBE raw) }

/-- The identities of two phases, of the transactions of a response, and of another Cosmos
transaction. -/
def sampleIdentities : List VirtualIdentity :=
  [.block .beginBlock 1, .block .endBlock 1, .tx [2] .bank, .tx [1] .bank] ++
    [1, 2].flatMap fun i => .tx [1] (.hook i) :: [0, 1, 2].map fun p => .tx [1] (.nested i p)

theorem identities_sample : ∀ id ∈ Response.identities .sample .sample, id ∈ sampleIdentities := by
  rintro id (rfl | ⟨event, hevent, i, hi, hid⟩)
  · decide
  · have hmem : i ∈ [1, 2] := by
      have hall : ∀ e ∈ Response.hookEntries .sample .sample, ∀ j ∈ e.msgIndex, j ∈ [1, 2] := by
        decide
      exact hall event hevent i hi
    have hlen : (Response.hookEntries .sample .sample).length = 3 := rfl
    refine List.mem_append_right _ (List.mem_flatMap.mpr ⟨i, hmem, ?_⟩)
    rcases hid with rfl | ⟨p, hp, rfl⟩
    · exact List.mem_cons_self
    · refine List.mem_cons_of_mem _ (List.mem_map.mpr ⟨p, ?_, rfl⟩)
      rw [hlen] at hp
      interval_cases p <;> decide

theorem virtual_identities_distinct_sample :
    (∀ id ∈ sampleIdentities, ∀ id' ∈ sampleIdentities,
      id.hash .keeping = id'.hash .keeping → id = id') ∧
    ∃ txs, Response.sample.syntheticTxs .keeping .sample = .ok txs ∧
      txs.length = 4 ∧ (txs.map (·.transaction.hash)).Nodup := by
  have hraw : ∀ raw ∈ VirtualIdentity.rawTxs {id | id ∈ sampleIdentities}, raw ∈ [[1], [2]] := by
    rintro raw ⟨id, hid, hraw⟩
    have hall : ∀ id ∈ sampleIdentities, ∀ raw ∈ id.raw?, raw ∈ [[1], [2]] := by decide
    exact hall id hid raw hraw
  have h := virtual_identities_distinct .keeping {id | id ∈ sampleIdentities}
    (by
      rintro _ ⟨a, ha, rfl⟩ _ ⟨b, hb, rfl⟩ heq
      have hall : ∀ a ∈ sampleIdentities, ∀ b ∈ sampleIdentities,
          Env.keeping.keccak256 (a.preimage .keeping) =
            Env.keeping.keccak256 (b.preimage .keeping) →
          a.preimage .keeping = b.preimage .keeping := by decide +kernel
      exact hall a ha b hb heq)
    (by
      intro a ha b hb heq
      have hall : ∀ a ∈ [[1], [2]], ∀ b ∈ [[1], [2]],
          Env.keeping.txHash a = Env.keeping.txHash b → a = b := by decide +kernel
      exact hall a (hraw a ha) b (hraw b hb) heq)
    (fun tx _ => length_toBE 32 _)
    (fun id hid => by
      have hall : ∀ id ∈ sampleIdentities, id.height < 2 ^ 63 := by decide
      exact hall id hid)
  refine ⟨fun id hid id' hid' heq => h.1 hid hid' heq, ?_⟩
  obtain ⟨txs, htxs, hlen⟩ : ∃ txs, Response.sample.syntheticTxs .keeping .sample = .ok txs ∧
      txs.length = 4 := ⟨_, rfl, rfl⟩
  exact ⟨txs, htxs, hlen, (h.2 .sample .sample txs htxs identities_sample).1⟩

end EvmGateway
