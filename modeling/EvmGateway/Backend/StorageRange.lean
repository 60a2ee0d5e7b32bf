import EvmGateway.Backend.Receipts
import EvmGateway.Lib.Paging
import EvmGateway.Rpc.BlockParams

/-!
# The storage of a contract, page by page

`storageRangeAt` reads all slots of a contract from the node, sorts them, and answers with those
from a key on, at most so many, and with the key of the next one.

`storage_paging_complete` says that a caller who starts without a key and follows the next keys
gets every slot once, in ascending order.  The node is asked for the slots at every call and may
list them in another order each time.

## Main definitions

* `storageRangeAt` — the request.
* `ServesSlots` — the node of a backend answers with the given slots, in some order.
* `hashOrder` — the order of hashes, by bytes.
-/

namespace EvmGateway

open Lib

/-! ## Block heights -/

/-- The block number of a height; the latest block for one that is too large. -/
def newBlockNumber (n : ℕ) : ℤ := if (n : ℤ) ≤ maxInt64 then n else ethLatestBlockNumber

namespace Backend

/-- The error of a hash that belongs to no block. -/
def blockNotFoundForHash (blockHash : Hash) : Err :=
  .plain ("block not found for hash " ++ blockHash.hex)

def liveBlockNumberByHash (b : Backend) (blockHash : Hash) : Except Err ℕ :=
  if b.offlineRPCOnly then .error (blockNotFoundForHash blockHash)
  else do
    match ← b.tendermintBlockByHash blockHash with
    | none => .error (blockNotFoundForHash blockHash)
    | some block => .ok block.height

def blockNumberFromTendermintByHash (b : Backend) (blockHash : Hash) : Except Err ℕ :=
  match b.cachedBlockMetaByHash blockHash with
  | .ok (some m) => .ok m.height
  | .ok none => b.liveBlockNumberByHash blockHash
  | .error e =>
    if !isIndexerCacheMiss e ∧ b.offlineRPCOnly then .error e else b.liveBlockNumberByHash blockHash

def blockNumberFromTendermint (b : Backend) (block : BlockNumberOrHash) : Except Err ℤ :=
  match block.blockHash, block.blockNumber with
  | none, none => .error noBlockGiven
  | some hash, _ => newBlockNumber <$> b.blockNumberFromTendermintByHash hash
  | none, some blockNum => .ok blockNum

end Backend

/-! ## The request -/

/-- The order of hashes: that of their bytes. -/
def hashOrder (h : Hash) : List ℕ := h.bytes.map UInt8.toNat

/-- A slot of a contract. -/
structure StorageItem where
  key : Hash
  value : Hash
  deriving DecidableEq

/-- A slot in an answer. -/
structure StorageRangeEntry where
  key : Option Hash
  value : Hash
  deriving DecidableEq

/-- The answer: slots by key, and the key to go on with. -/
structure StorageRangeResult where
  storage : List (Hash × StorageRangeEntry) := []
  nextKey : Option Hash := none
  deriving DecidableEq

/-- A slot with its key, as it stands in the answer. -/
def StorageItem.entry (item : StorageItem) : Hash × StorageRangeEntry :=
  (item.key, { key := some item.key, value := item.value })

def putSlot (storage : List (Hash × StorageRangeEntry)) (item : StorageItem) :
    List (Hash × StorageRangeEntry) :=
  storage.filter (·.1 ≠ item.key) ++ [item.entry]

/-- The slots of the pairs of a store query. -/
def storageItems (pre : Bytes) (pairs : List KvPair) : List StorageItem :=
  pairs.filterMap fun pair =>
    if pair.key.length < pre.length then none
    else some ⟨bytesToHash (pair.key.drop pre.length), bytesToHash pair.value⟩

def sortItems (items : List StorageItem) : List StorageItem :=
  items.insertionSort fun a b => hashOrder a.key ≤ hashOrder b.key

/-- The slots from a key on; without a key, all of them. -/
def itemsFrom (items : List StorageItem) (keyStart : Bytes) : List StorageItem :=
  if 0 < keyStart.length then
    filterInPlace (fun item => decide (hashOrder (bytesToHash keyStart) ≤ hashOrder item.key)) items
  else items

def storagePage (filtered : List StorageItem) (maxResult : ℕ) : StorageRangeResult where
  storage := (filtered.take maxResult).foldl putSlot []
  nextKey := filtered[maxResult]?.map (·.key)

def Backend.querySlots (E : Env) (b : Backend) (contract : Address) (blockNum : ℤ) :
    Except Err Bytes :=
  match b.client with
  | none => .error (.panic "invalid memory address or nil pointer dereference")
  | some client =>
    client.abciQuery ("/store/" ++ E.storeKey ++ "/subspace") (E.addressStoragePrefix contract)
      (blockNumberInt64 blockNum)

def Backend.storageRangeAt (E : Env) (b : Backend) (block : BlockNumberOrHash) (_txIndex : ℤ)
    (contract : Address) (keyStart : Bytes) (maxResult : ℤ) : Except Err StorageRangeResult := do
  let blockNum ← b.blockNumberFromTendermint block
  let value ← b.querySlots E contract blockNum
  if value.length = 0 ∨ maxResult ≤ 0 then return {}
  else
    let pairs ← E.unmarshalKvPairs value
    let items := sortItems (storageItems (E.addressStoragePrefix contract) pairs)
    return storagePage (itemsFrom items keyStart) maxResult.toNat

/-! ## One page -/

theorem hashOrder_injective : Function.Injective hashOrder := by
  intro a b h
  have hbytes : a.bytes = b.bytes :=
    List.map_injective_iff.mpr (fun _ _ => UInt8.toNat_inj.mp) h
  rw [← bytesToHash_bytes a, hbytes, bytesToHash_bytes]

theorem foldl_putSlot {items : List StorageItem} (hdistinct : (items.map (·.key)).Nodup) :
    items.foldl putSlot [] = items.map StorageItem.entry := by
  induction items using List.reverseRecOn with
  | nil => rfl
  | append_singleton items item ih =>
    rw [List.map_append, List.nodup_append] at hdistinct
    obtain ⟨hitems, -, hnot⟩ := hdistinct
    rw [List.foldl_append, ih hitems, List.map_append]
    refine congrArg (· ++ _) (List.filter_eq_self.mpr fun entry hentry => ?_)
    obtain ⟨other, hother, rfl⟩ := List.mem_map.mp hentry
    have hne := hnot other.key (List.mem_map_of_mem hother) item.key (by simp)
    exact decide_eq_true hne

section Slots

variable {slots : List (Hash × Bytes)} {E : Env} {contract : Address}

/-- The slots as they are answered. -/
def slotItems (slots : List (Hash × Bytes)) : List StorageItem :=
  slots.map fun slot => ⟨slot.1, bytesToHash slot.2⟩

/-- The pairs of the slots in the store of the node. -/
def slotPairs (pre : Bytes) (slots : List (Hash × Bytes)) : List KvPair :=
  slots.map fun slot => ⟨pre ++ slot.1.bytes, slot.2⟩

theorem storageItems_slotPairs (pre : Bytes) (slots : List (Hash × Bytes)) :
    storageItems pre (slotPairs pre slots) = slotItems slots := by
  induction slots with
  | nil => rfl
  | cons slot slots ih =>
    rw [slotPairs, List.map_cons, storageItems, List.filterMap_cons_some (by
      rw [if_neg (by simp)])]
    rw [slotItems, List.map_cons, List.drop_left, bytesToHash_bytes]
    exact congrArg _ ih

/-- The node of a backend answers a query for the slots of a contract with the given slots, in some
order.  An answer without any slot is empty. -/
def ServesSlots (E : Env) (b : Backend) (block : BlockNumberOrHash) (contract : Address)
    (slots : List (Hash × Bytes)) : Prop :=
  ∃ blockNum value, b.blockNumberFromTendermint block = .ok blockNum ∧
    b.querySlots E contract blockNum = .ok value ∧
    (value = [] ∧ slots = [] ∨ value ≠ [] ∧ ∃ pairs, E.unmarshalKvPairs value = .ok pairs ∧
      pairs.Perm (slotPairs (E.addressStoragePrefix contract) slots))

instance : Std.Total fun a b : StorageItem => hashOrder a.key ≤ hashOrder b.key :=
  ⟨fun a b => le_total (hashOrder a.key) (hashOrder b.key)⟩

instance : IsTrans StorageItem fun a b => hashOrder a.key ≤ hashOrder b.key :=
  ⟨fun _ _ _ => le_trans⟩

/-- The slots of a contract in ascending order. -/
def sortedSlots (slots : List (Hash × Bytes)) : List StorageItem := sortItems (slotItems slots)

theorem sortedSlots_perm (slots : List (Hash × Bytes)) :
    (sortedSlots slots).Perm (slotItems slots) := List.perm_insertionSort _ _

/-- A continuation stands for a position: nothing for the first, a key for that of its slot. -/
def StandsFor (slots : List (Hash × Bytes)) (keyStart : Bytes) (j : ℕ) : Prop :=
  keyStart = [] ∧ j = 0 ∨ ∃ item, (sortedSlots slots)[j]? = some item ∧ keyStart = item.key.bytes

variable (hdistinct : (slots.map Prod.fst).Nodup)

include hdistinct

theorem nodup_keys_sortedSlots : ((sortedSlots slots).map (·.key)).Nodup := by
  refine ((sortedSlots_perm slots).map _).nodup_iff.mpr ?_
  rwa [slotItems, List.map_map]

theorem sortedSlots_ascending :
    (sortedSlots slots).Pairwise fun a b => hashOrder a.key < hashOrder b.key := by
  have hle : (sortedSlots slots).Pairwise fun a b => hashOrder a.key ≤ hashOrder b.key :=
    List.pairwise_insertionSort _ _
  have hne := List.pairwise_map.mp (nodup_keys_sortedSlots hdistinct)
  exact hle.imp₂ (fun a b hle hne => lt_of_le_of_ne hle fun h => hne (hashOrder_injective h)) hne

/-- Sorting forgets the order the node listed the slots in. -/
theorem sortItems_of_perm {pre : Bytes} {pairs : List KvPair}
    (hperm : pairs.Perm (slotPairs pre slots)) :
    sortItems (storageItems pre pairs) = sortedSlots slots := by
  have hitems : (storageItems pre pairs).Perm (slotItems slots) := by
    rw [← storageItems_slotPairs pre slots]
    exact hperm.filterMap _
  have hsorted : (sortItems (storageItems pre pairs)).Perm (sortedSlots slots) :=
    ((List.perm_insertionSort _ _).trans hitems).trans (sortedSlots_perm slots).symm
  refine List.Perm.eq_of_pairwise (fun a b ha hb hab hba => ?_)
    (List.pairwise_insertionSort _ _) (List.pairwise_insertionSort _ _) hsorted
  have hkey : a.key = b.key := hashOrder_injective (le_antisymm hab hba)
  exact List.inj_on_of_nodup_map (nodup_keys_sortedSlots hdistinct) (hsorted.mem_iff.mp ha) hb hkey

/-- What a call answers: a page of the sorted slots. -/
theorem storageRangeAt_eq {b : Backend} {block : BlockNumberOrHash} {txIndex maxResult : ℤ}
    (hserves : ServesSlots E b block contract slots) (hmax : 1 ≤ maxResult) (keyStart : Bytes) :
    b.storageRangeAt E block txIndex contract keyStart maxResult =
      .ok (storagePage (itemsFrom (sortedSlots slots) keyStart) maxResult.toNat) := by
  obtain ⟨blockNum, value, hnum, hquery, hvalue⟩ := hserves
  have hpos : ¬ maxResult ≤ 0 := by omega
  rw [Backend.storageRangeAt, hnum, ok_bind, hquery, ok_bind]
  rcases hvalue with ⟨rfl, rfl⟩ | ⟨hne, pairs, hpairs, hperm⟩
  · have hempty : itemsFrom (sortedSlots []) keyStart = [] := by
      unfold itemsFrom
      split_ifs
      · rw [filterInPlace_eq]
        rfl
      · rfl
    rw [if_pos (.inl rfl), hempty]
    simp [storagePage]
  · have hlen : ¬ (value.length = 0 ∨ maxResult ≤ 0) := by
      simp [hne, hpos]
    rw [if_neg hlen, hpairs, ok_bind, sortItems_of_perm hdistinct hperm]
    rfl

/-- A page from a position on. -/
theorem storagePage_drop (j n : ℕ) :
    (storagePage ((sortedSlots slots).drop j) n).storage =
        (((sortedSlots slots).map StorageItem.entry).drop j).take n ∧
      (storagePage ((sortedSlots slots).drop j) n).nextKey =
        (sortedSlots slots)[j + n]?.map (·.key) := by
  constructor
  · have hsub : (((sortedSlots slots).drop j).take n).Sublist (sortedSlots slots) :=
      (List.take_sublist _ _).trans (List.drop_sublist _ _)
    have hnodup := (nodup_keys_sortedSlots hdistinct).sublist (hsub.map (·.key))
    rw [storagePage, foldl_putSlot hnodup, List.map_take, List.map_drop]
  · rw [storagePage, List.getElem?_drop]

/-- A continuation is the key of the slot at its position. -/
theorem itemsFrom_eq_drop {keyStart : Bytes} {j : ℕ} (hat : StandsFor slots keyStart j) :
    itemsFrom (sortedSlots slots) keyStart = (sortedSlots slots).drop j := by
  rcases hat with ⟨rfl, rfl⟩ | ⟨item, hitem, hkey⟩
  · rw [List.drop_zero]
    exact if_neg (lt_irrefl 0)
  · have hlen : 0 < item.key.bytes.length := by
      rw [Hash.bytes, length_toBE]
      decide
    rw [hkey, itemsFrom, if_pos hlen, filterInPlace_eq, bytesToHash_bytes]
    exact filter_key_le_eq_drop (sortedSlots_ascending hdistinct) hitem fun _ => decide_eq_true_iff

end Slots

/-- **Complete paging.** Starting without a key and following the next keys ends, and the pages hold
every slot of the contract exactly once, with its value, in ascending order and at most
`maxResult` to a page. -/
theorem storage_paging_complete (E : Env) (backends : ℕ → Backend) (block : BlockNumberOrHash)
    (txIndex : ℤ) (contract : Address) (slots : List (Hash × Bytes)) (maxResult : ℤ)
    (hdistinct : (slots.map Prod.fst).Nodup)
    (hserves : ∀ k, ServesSlots E (backends k) block contract slots) (hmax : 1 ≤ maxResult) :
    ∃ pages : List StorageRangeResult,
      Follows (fun k keyStart page =>
          (backends k).storageRangeAt E block txIndex contract keyStart maxResult = .ok page)
        (fun page => page.nextKey.map Hash.bytes) 0 [] pages ∧
      (pages.flatMap (·.storage)).Perm (slots.map fun slot =>
        (slot.1, { key := some slot.1, value := bytesToHash slot.2 })) ∧
      (pages.flatMap (·.storage)).Pairwise (fun a b => hashOrder a.1 < hashOrder b.1) ∧
      ∀ page ∈ pages, (page.storage.length : ℤ) ≤ maxResult := by
  have hpaging : ∀ k keyStart j, StandsFor slots keyStart j →
      ∃ pages : List StorageRangeResult,
      Follows (fun k keyStart page =>
          (backends k).storageRangeAt E block txIndex contract keyStart maxResult = .ok page)
        (fun page => page.nextKey.map Hash.bytes) k keyStart pages ∧
      pages.flatMap (·.storage) = ((sortedSlots slots).map StorageItem.entry).drop j ∧
      ∀ page ∈ pages, page.storage.length ≤ maxResult.toNat :=
    exists_follows (by omega) fun k keyStart j hat => by
      obtain ⟨hstorage, hnext⟩ := storagePage_drop hdistinct j maxResult.toNat
      rw [← itemsFrom_eq_drop hdistinct hat] at hstorage hnext
      refine ⟨_, storageRangeAt_eq hdistinct (hserves k) hmax keyStart, hstorage, ?_, ?_⟩
      · intro hmore
        rw [List.length_map] at hmore
        have hitem := List.getElem?_eq_getElem hmore
        rw [hnext, hitem]
        exact ⟨_, rfl, .inr ⟨_, hitem, rfl⟩⟩
      · intro hend
        rw [List.length_map] at hend
        rw [hnext, List.getElem?_eq_none hend]
        rfl
  obtain ⟨pages, hfollows, hflat, hsize⟩ := hpaging 0 [] 0 (.inl ⟨rfl, rfl⟩)
  rw [List.drop_zero] at hflat
  refine ⟨pages, hfollows, ?_, ?_, fun page hpage => ?_⟩
  · rw [hflat]
    have hperm := (sortedSlots_perm slots).map StorageItem.entry
    rwa [slotItems, List.map_map] at hperm
  · rw [hflat, List.pairwise_map]
    exact sortedSlots_ascending hdistinct
  · have := hsize page hpage
    omega

/-- A node that only answers store queries. -/
def Node.storing (value : Bytes) : Node where
  block := fun _ => .ok none
  blockByHash := fun _ => .ok none
  blockResults := fun _ => .ok none
  txSearch := fun _ => .ok []
  unconfirmedTxs := .ok []
  consensusMaxGas := fun _ => .ok (-1)
  abciQuery := fun _ _ _ => .ok value

/-- Three slots of a contract. -/
def sampleSlots : List (Hash × Bytes) := [(3, [9]), (1, [7]), (2, [8])]

/-- Two answers with the three slots, in different orders. -/
def Env.storing : Env :=
  { Env.sample with
    unmarshalKvPairs := fun value =>
      .ok (if value = [1] then slotPairs (2 :: (5 : Address).bytes) sampleSlots
        else (slotPairs (2 :: (5 : Address).bytes) sampleSlots).reverse) }

/-- The node lists the slots in another order at every other call. -/
def storingBackend (k : ℕ) : Backend :=
  .sample none (some (.storing [if k % 2 = 0 then 1 else 2]))

theorem storingBackend_serves (k : ℕ) :
    ServesSlots .storing (storingBackend k) { blockNumber := some 1 } 5 sampleSlots := by
  refine ⟨1, [if k % 2 = 0 then 1 else 2], rfl, rfl, .inr ⟨List.cons_ne_nil _ _, _, rfl, ?_⟩⟩
  by_cases hk : k % 2 = 0
  · rw [if_pos hk, if_pos rfl]
    exact .refl _
  · rw [if_neg hk, if_neg (by decide)]
    exact List.reverse_perm _

theorem storage_paging_complete_three : ∃ pages : List StorageRangeResult,
    Follows (fun k keyStart page => (storingBackend k).storageRangeAt .storing
        { blockNumber := some 1 } 0 5 keyStart 2 = .ok page)
      (fun page => page.nextKey.map Hash.bytes) 0 [] pages ∧
    (pages.flatMap (·.storage)).Perm (sampleSlots.map fun slot =>
      (slot.1, { key := some slot.1, value := bytesToHash slot.2 })) := by
  obtain ⟨pages, hfollows, hperm, -, -⟩ := storage_paging_complete .storing storingBackend
    { blockNumber := some 1 } 0 5 sampleSlots 2 (by decide) storingBackend_serves (by decide)
  exact ⟨pages, hfollows, hperm⟩

end EvmGateway
