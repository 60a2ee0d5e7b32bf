import EvmGateway.Indexer.Lookup

/-!
# The block a record is of

The records of a transaction are stored under its hash, and a hash can occur in more than one
block.  A block that is indexed overwrites the records of its hashes, and a reset of a height
removes the records of every hash listed there, whichever block they are of.  `owner` follows
this along a history and tells for each hash the block whose records are under it.

`run_filed` holds for every history, whatever the hashes of its blocks: the store has at each
height what the height was last indexed from, and under each hash what its owner stored.

## Main definitions

* `owner E calls x` — the block whose records the store has under the hash.
* `Filed E S O db` — the store is what a history tells.
-/

namespace EvmGateway

open Lib

/-! ## Owners -/

def shownAtHeight (E : Env) (S : ℕ → Option Source) (height : ℕ) : List Hash :=
  match S height with
  | none => []
  | some src => src.shown E

/-- The effect of a reset of a height: the records of the hashes listed there are gone. -/
def disown (E : Env) (S : ℕ → Option Source) (height : ℕ) (O : Hash → Option Source) (x : Hash) :
    Option Source :=
  if (shownAtHeight E S height).contains x then none else O x

/-- The effect of storing a block: the records of its hashes are its own. -/
def Source.claim (E : Env) (src : Source) (O : Hash → Option Source) (x : Hash) : Option Source :=
  if (src.shown E).contains x then some src else O x

/-- The effect of a call on the owners of the hashes. -/
def Call.own (E : Env) (S : ℕ → Option Source) (O : Hash → Option Source) :
    Call → Hash → Option Source
  | .index kv block results =>
    Source.claim E ⟨kv, block, results⟩ (disown E S block.height O)
  | .delete height => disown E S height O
  | .cacheTxTrace _ _ _ | .cacheBlockTrace _ _ _ => O

def owner (E : Env) (calls : List Call) : Hash → Option Source :=
  (calls.foldl (fun s c => (c.record s.1, c.own E s.1 s.2)) ((fun _ => none), fun _ => none)).2

theorem owner_concat (E : Env) (calls : List Call) (c : Call) :
    owner E (calls ++ [c]) = c.own E (lastIndexed calls) (owner E calls) := by
  have hfst : ∀ s : (ℕ → Option Source) × (Hash → Option Source),
      (calls.foldl (fun s c => (c.record s.1, c.own E s.1 s.2)) s).1 =
        calls.foldl Call.record s.1 := by
    induction calls with
    | nil => exact fun _ => rfl
    | cons c calls ih => exact fun s => ih _
  rw [owner, List.foldl_append, List.foldl_cons, List.foldl_nil, hfst]
  rfl

/-! ## The store of a history -/

/-- The store is what a history tells: each height holds what it was last indexed from, and each
hash the records of its owner, which is what its height was last indexed from. -/
structure Filed (E : Env) (S : ℕ → Option Source) (O : Hash → Option Source) (db : DB) : Prop where
  empty : ∀ h, S h = none → ∀ k : Key, k.height? = some h → db.get? k = none
  height : ∀ h src, S h = some src → src.block.height = h ∧ ∃ R, src.Yields E R ∧ HoldsHeight db R
  unowned : ∀ x, O x = none → db.get? (.rpcTxHash x) = none ∧ db.get? (.receipt x) = none
  owned : ∀ x src, O x = some src → S src.block.height = some src ∧ x ∈ src.shown E ∧
    ∃ R, src.Yields E R ∧ db.get? (.rpcTxHash x) = R.get (.rpcTxHash x) ∧
      db.get? (.receipt x) = R.get (.receipt x)

theorem get?_deleteBlock_of_height_ne {db : DB} {k : Key} {n h : ℕ} (hk : k.height? = some n)
    (hne : n ≠ h) : (deleteBlock db h).get? k = db.get? k := by
  refine get?_deleteBlock_of_not_touched fun ht => ?_
  cases k with
  | txIndex m i | rpcTxIndex m i => exact hne ((Option.some.inj hk).symm.trans ht.1)
  | blockLogs m | blockMeta m => exact hne ((Option.some.inj hk).symm.trans ht)
  | _ => cases hk

namespace Filed

variable {E : Env} {S : ℕ → Option Source} {O : Hash → Option Source} {db db' : DB}

theorem reached_iff (hf : Filed E S O db) {h : ℕ} {x : Hash} :
    (EthIndexed db h x ∨ RpcIndexed db h x) ↔ x ∈ shownAtHeight E S h := by
  unfold shownAtHeight
  cases hS : S h with
  | none =>
    have hempty := hf.empty h hS
    simp [EthIndexed, RpcIndexed, hempty (.txIndex h _) rfl, hempty (.rpcTxIndex h _) rfl]
  | some src =>
    obtain ⟨rfl, R, hR, hheight⟩ := hf.height h src hS
    simp only [hR.shown]
    rw [← hR.block]
    constructor
    · rintro (⟨i, hi⟩ | ⟨i, hi⟩)
      · exact BlockRecords.mem_hashes_of_txIndex ((hheight.height _ rfl).symm.trans hi)
      · exact BlockRecords.mem_hashes_of_rpcTxIndex ((hheight.height _ rfl).symm.trans hi)
    · intro hx
      obtain ⟨i, hi⟩ := BlockRecords.exists_rpcTxIndex hx
      exact .inr ⟨i, (hheight.height _ rfl).trans hi⟩

theorem get?_deleteBlock (hf : Filed E S O db) {h : ℕ} {x : Hash}
    (hx : x ∉ shownAtHeight E S h) :
    (EvmGateway.deleteBlock db h).get? (.rpcTxHash x) = db.get? (.rpcTxHash x) ∧
      (EvmGateway.deleteBlock db h).get? (.receipt x) = db.get? (.receipt x) :=
  ⟨get?_deleteBlock_of_not_touched (mt hf.reached_iff.mp hx),
    get?_deleteBlock_of_not_touched (mt hf.reached_iff.mp hx)⟩

/-- Resetting a height. -/
theorem deleteBlock (hf : Filed E S O db) (h : ℕ) :
    Filed E (Function.update S h none) (disown E S h O) (deleteBlock db h) where
  empty := by
    intro h' hS' k hk
    by_cases hh : h' = h
    · exact get?_deleteBlock_of_height (hh ▸ hk)
    · rw [Function.update_of_ne hh] at hS'
      rw [get?_deleteBlock_of_height_ne hk hh, hf.empty h' hS' k hk]
  height := by
    intro h' src hS'
    have hh : h' ≠ h := by
      rintro rfl
      simp at hS'
    rw [Function.update_of_ne hh] at hS'
    obtain ⟨rfl, R, hR, hheight⟩ := hf.height h' src hS'
    refine ⟨rfl, R, hR, ⟨fun k hk => ?_⟩⟩
    rw [get?_deleteBlock_of_height_ne hk (hR.block ▸ hh), hheight.height k hk]
  unowned := by
    intro x hx
    simp only [disown, List.contains_iff_mem] at hx
    split_ifs at hx with hlisted
    · have ht := hf.reached_iff.mpr hlisted
      exact ⟨get?_deleteBlock_of_touched ht, get?_deleteBlock_of_touched ht⟩
    · rw [(hf.get?_deleteBlock hlisted).1, (hf.get?_deleteBlock hlisted).2]
      exact hf.unowned x hx
  owned := by
    intro x src hx
    simp only [disown, List.contains_iff_mem] at hx
    split_ifs at hx with hlisted
    rw [(hf.get?_deleteBlock hlisted).1, (hf.get?_deleteBlock hlisted).2]
    obtain ⟨hS, hrest⟩ := hf.owned x src hx
    refine ⟨?_, hrest⟩
    -- the owner is not at the height, where the hash would be listed
    rw [Function.update_of_ne, hS]
    rintro rfl
    exact hlisted (by rw [shownAtHeight, hS]; exact hrest.1)

/-- Storing a block at a height that is free. -/
theorem store (hf : Filed E S O db) {src : Source} {R : BlockRecords} (hR : src.Yields E R)
    (hfree : S src.block.height = none) (hget : ∀ k, db'.get? k = (R.get k).or (db.get? k)) :
    Filed E (Function.update S src.block.height (some src)) (src.claim E O) db' := by
  have hother : ∀ {k : Key} {n : ℕ}, k.height? = some n → n ≠ src.block.height →
      db'.get? k = db.get? k := by
    intro k n hk hn
    rw [hget, BlockRecords.get_eq_none, Option.none_or]
    exact fun howns => hn (hR.block ▸ BlockRecords.height_of_owns howns hk)
  have hkept : ∀ x, x ∉ src.shown E → db'.get? (.rpcTxHash x) = db.get? (.rpcTxHash x) ∧
      db'.get? (.receipt x) = db.get? (.receipt x) := by
    intro x hx
    have htx : ¬ R.Owns (.rpcTxHash x) := fun h => hx (hR.shown ▸ h)
    have hreceipt : ¬ R.Owns (.receipt x) := fun h => hx (hR.shown ▸ h)
    rw [hget, hget, BlockRecords.get_eq_none htx, BlockRecords.get_eq_none hreceipt]
    exact ⟨rfl, rfl⟩
  refine ⟨fun h hS k hk => ?_, fun h src' hS => ?_, fun x hx => ?_, fun x src' hx => ?_⟩
  · have hh : h ≠ src.block.height := by
      rintro rfl
      simp at hS
    rw [Function.update_of_ne hh] at hS
    rw [hother hk hh, hf.empty h hS k hk]
  · by_cases hh : h = src.block.height
    · subst hh
      rw [Function.update_self, Option.some.injEq] at hS
      subst hS
      refine ⟨rfl, R, hR, ⟨fun k hk => ?_⟩⟩
      rw [hR.block] at hk
      rw [hget, hf.empty _ hfree k hk, Option.or_none]
    · rw [Function.update_of_ne hh] at hS
      obtain ⟨rfl, R', hR', hheight⟩ := hf.height h src' hS
      refine ⟨rfl, R', hR', ⟨fun k hk => ?_⟩⟩
      rw [hother hk (hR'.block ▸ hh), hheight.height k hk]
  · simp only [Source.claim, List.contains_iff_mem] at hx
    split_ifs at hx with hshown
    rw [(hkept x hshown).1, (hkept x hshown).2]
    exact hf.unowned x hx
  · simp only [Source.claim, List.contains_iff_mem] at hx
    split_ifs at hx with hshown
    · obtain rfl := Option.some.inj hx
      obtain ⟨q, e, -, -, htx, hreceipt, -⟩ :=
        BlockRecords.exists_last (R := R) (x := x) (hR.shown ▸ hshown)
      refine ⟨Function.update_self .., hshown, R, hR, ?_, ?_⟩
      · rw [hget, htx, Option.some_or]
      · rw [hget, hreceipt, Option.some_or]
    · rw [(hkept x hshown).1, (hkept x hshown).2]
      obtain ⟨hS, hrest⟩ := hf.owned x src' hx
      refine ⟨?_, hrest⟩
      rw [Function.update_of_ne, hS]
      intro hh
      rw [hh, hfree] at hS
      cases hS

/-- Caching a trace. -/
theorem cacheTrace (hf : Filed E S O db) {k : Key} (v : k.Val) (hk : k.isTrace = true) :
    Filed E S O (db.insert k v) where
  empty := fun h hS k' hk' =>
    (get?_insert_trace db v hk (Key.isTrace_of_height? hk')).trans (hf.empty h hS k' hk')
  height := by
    intro h src hS
    obtain ⟨hh, R, hR, hheight⟩ := hf.height h src hS
    refine ⟨hh, R, hR, ⟨fun k' hk' => ?_⟩⟩
    rw [get?_insert_trace db v hk (Key.isTrace_of_height? hk'), hheight.height k' hk']
  unowned := by
    intro x hx
    rw [get?_insert_trace db v hk rfl, get?_insert_trace db v hk rfl]
    exact hf.unowned x hx
  owned := by
    intro x src hx
    rw [get?_insert_trace db v hk rfl, get?_insert_trace db v hk rfl]
    exact hf.owned x src hx

theorem exec (hf : Filed E S O db) {c : Call} (h : c.exec E db = .ok db') :
    Filed E (c.record S) (c.own E S O) db' := by
  cases c with
  | index kv block results =>
    obtain ⟨ws, n, R, hws, hblock, rfl, hmode, hshown, hget⟩ := indexBlock_ok h
    have hR : Source.Yields E ⟨kv, block, results⟩ R := ⟨hblock, ⟨n, hws⟩, hmode, hshown⟩
    have hstore := (hf.deleteBlock block.height).store hR (Function.update_self ..) hget
    rwa [Function.update_idem] at hstore
  | delete height =>
    obtain rfl := Except.ok.inj h
    exact hf.deleteBlock height
  | cacheTxTrace hash config raw | cacheBlockTrace height config raw =>
    obtain rfl := Except.ok.inj h
    exact hf.cacheTrace _ rfl

end Filed

/-- **Every history** leaves what it tells. -/
theorem run_filed {E : Env} {calls : List Call} {db : DB}
    (hrun : run (Call.exec E) ∅ calls = .ok db) :
    Filed E (lastIndexed calls) (owner E calls) db := by
  refine run_induction (fun calls db => Filed E (lastIndexed calls) (owner E calls) db) ?_ ?_ hrun
  · exact ⟨fun _ _ _ _ => by simp, nofun, fun _ _ => by simp, nofun⟩
  · intro calls c db₁ db₂ _ hf hstep
    rw [lastIndexed_concat, owner_concat]
    exact hf.exec hstep

end EvmGateway
