import EvmGateway.Indexer.Histories

/-!
# What a call leaves of another height

The collections keyed by height keep heights apart by themselves.  The collections
keyed by hash do not: a call on one height rewrites or deletes the records of every
hash it reaches, wherever else that hash is listed.  `blockAnswers` gathers what the
store answers about a height, `Call.Separate` is the condition that a call reaches no
hash of the height, and `blockAnswers_of_separate` is the frame law under it.
`shared_hash_breaks_frame` is the history in which the condition fails: a transaction
that failed before execution at one height and was included at a later one.
-/

namespace EvmGateway

open Lib

variable {db : DB} {E : Env} {h' : ℕ} {k : Key}

/-! ## Answers about a height -/

def Reached (db : DB) (height : ℕ) (x : Hash) : Prop :=
  EthIndexed db height x ∨ RpcIndexed db height x

def reachedHashes (db : DB) (height : ℕ) : List Hash :=
  (db.txIndexEntries height).map Prod.snd ++ (db.rpcTxIndexEntries height).map Prod.snd

theorem mem_reachedHashes {height : ℕ} {x : Hash} :
    x ∈ reachedHashes db height ↔ Reached db height x := by
  simp [reachedHashes, Reached, EthIndexed, RpcIndexed, DB.mem_txIndexEntries,
    DB.mem_rpcTxIndexEntries]

/-- What the store answers about a height: its meta, the height its block hash points
to, its log groups, its two indexes, and the records reached through them. -/
structure BlockAnswers where
  blockMeta : Option CachedBlockMeta
  pointer : Option ℕ
  logs : Option (List (List RPCLog))
  txIndex : List (ℤ × Hash)
  rpcTxIndex : List (ℤ × Hash)
  txResults : List (Option TxResult)
  transactions : List (Option RPCTransaction)
  receipts : List (Option CachedReceipt)
  deriving DecidableEq

def blockAnswers (db : DB) (height : ℕ) : BlockAnswers where
  blockMeta := db.get? (.blockMeta height)
  pointer := (db.get? (.blockMeta height)).bind fun m => db.get? (.blockHash (hexToHash m.hash))
  logs := db.get? (.blockLogs height)
  txIndex := db.txIndexEntries height
  rpcTxIndex := db.rpcTxIndexEntries height
  txResults := (reachedHashes db height).map fun x => db.get? (.txHash x)
  transactions := (reachedHashes db height).map fun x => db.get? (.rpcTxHash x)
  receipts := (reachedHashes db height).map fun x => db.get? (.receipt x)

def ReadFor (db : DB) (height : ℕ) : Key → Prop
  | .blockMeta n | .blockLogs n | .txIndex n _ | .rpcTxIndex n _ => n = height
  | .blockHash x => ∃ m, db.get? (.blockMeta height) = some m ∧ hexToHash m.hash = x
  | .txHash x | .rpcTxHash x | .receipt x => Reached db height x
  | .virtualRPCtx _ | .traceTx _ _ | .traceBlock _ _ => False

/-- Stores that agree on the keys read for a height give the same answers about it. -/
theorem blockAnswers_congr {db' : DB} {height : ℕ}
    (h : ∀ k, ReadFor db height k → db'.get? k = db.get? k) :
    blockAnswers db' height = blockAnswers db height := by
  have hmeta : db'.get? (.blockMeta height) = db.get? (.blockMeta height) := h (.blockMeta height) rfl
  have htx : db'.txIndexEntries height = db.txIndexEntries height := by
    refine collect_congr ?_
    intro k v b hb
    cases k with
    | txIndex n i =>
      obtain ⟨rfl, -⟩ : n = height ∧ (i, v) = b := by simpa using hb
      rw [h (.txIndex n i) rfl]
    | _ => simp at hb
  have hrpc : db'.rpcTxIndexEntries height = db.rpcTxIndexEntries height :=
    DB.rpcTxIndexEntries_congr fun i => h (.rpcTxIndex height i) rfl
  have hreached : reachedHashes db' height = reachedHashes db height := by
    rw [reachedHashes, reachedHashes, htx, hrpc]
  have hpointer : ∀ m, db.get? (.blockMeta height) = some m →
      db'.get? (.blockHash (hexToHash m.hash)) = db.get? (.blockHash (hexToHash m.hash)) :=
    fun m hm => h (.blockHash _) ⟨m, hm, rfl⟩
  simp only [blockAnswers, hmeta, htx, hrpc, hreached, h (.blockLogs height) rfl,
    BlockAnswers.mk.injEq, true_and]
  refine ⟨Option.bind_congr hpointer, ?_, ?_, ?_⟩
  all_goals
    refine List.map_congr_left fun x hx => ?_
  · exact h (.txHash x) (mem_reachedHashes.mp hx)
  · exact h (.rpcTxHash x) (mem_reachedHashes.mp hx)
  · exact h (.receipt x) (mem_reachedHashes.mp hx)

/-! ## The frame law -/

/-- The transaction hashes a call brings in. -/
def Call.shows (E : Env) : Call → List Hash
  | .index kv block results => shownByBlock E kv.virtualizationEnabled block results
  | _ => []

def Call.blockHash : Call → Option Hash
  | .index _ block _ => some block.ethHash
  | _ => none

/-- The call on height `h` reaches no transaction hash and no block hash of the height
`h'`: neither through what `h` holds before the call, nor through what the call brings
in. -/
structure Call.Separate (E : Env) (db : DB) (c : Call) (h h' : ℕ) : Prop where
  txHash : ∀ x, Reached db h' x → ¬ Reached db h x ∧ x ∉ c.shows E
  blockHash : ∀ m', db.get? (.blockMeta h') = some m' → c.blockHash ≠ some (hexToHash m'.hash) ∧
    ∀ m, db.get? (.blockMeta h) = some m → hexToHash m.hash ≠ hexToHash m'.hash

/-- A reset of one height deletes nothing that is read for a separate one. -/
theorem Call.Separate.not_touched {c : Call} {h : ℕ} (hsep : c.Separate E db h h') (hne : h ≠ h')
    (hk : ReadFor db h' k) :
    ¬ ResetTouches db h k := by
  intro ht
  cases k with
  | txHash x => exact (hsep.txHash x hk).1 (.inl ht)
  | rpcTxHash x | receipt x => exact (hsep.txHash x hk).1 ht
  | txIndex n i | rpcTxIndex n i => exact hne (ht.1.symm.trans hk)
  | blockLogs n | blockMeta n => exact hne (ht.symm.trans hk)
  | blockHash x =>
    obtain ⟨m', hm', rfl⟩ := hk
    obtain ⟨m, hm, heq⟩ := ht
    exact (hsep.blockHash m' hm').2 m hm heq
  | virtualRPCtx x | traceTx x c | traceBlock n c => exact hk

/-- Neither does the block a call brings in. -/
theorem Call.Separate.not_owned {kv : KVIndexer} {block : Block} {results : Option BlockResults}
    {R : BlockRecords} (hsep : (Call.index kv block results).Separate E db block.height h')
    (hne : block.height ≠ h') (hblock : R.block = block)
    (hshown : R.hashes = shownByBlock E kv.virtualizationEnabled block results)
    (hk : ReadFor db h' k) : ¬ R.Owns k := by
  intro howns
  subst hblock
  cases k with
  | txHash x | rpcTxHash x | receipt x =>
    refine (hsep.txHash x hk).2 ?_
    rw [Call.shows, ← hshown]
    exact howns
  | txIndex n i | rpcTxIndex n i | blockLogs n | blockMeta n => exact hne (howns.symm.trans hk)
  | blockHash x =>
    obtain ⟨m', hm', rfl⟩ := hk
    exact (hsep.blockHash m' hm').1 (congrArg some howns.symm)
  | virtualRPCtx x | traceTx x c | traceBlock n c => exact hk

/-- One call, key by key. -/
theorem Call.exec_frame {db' : DB} {c : Call}
    (hsep : ∀ h, c.resets = some h → h ≠ h' ∧ c.Separate E db h h')
    (hexec : c.exec E db = .ok db') (hk : ReadFor db h' k) : db'.get? k = db.get? k := by
  cases c with
  | index kv block results =>
    obtain ⟨hne, hsep⟩ := hsep block.height rfl
    obtain ⟨-, -, R, -, hblock, -, -, hshown, hget⟩ := indexBlock_ok hexec
    rw [hget, BlockRecords.get_eq_none (hsep.not_owned hne hblock hshown hk), Option.none_or]
    exact get?_deleteBlock_of_not_touched (hsep.not_touched hne hk)
  | delete height =>
    obtain ⟨hne, hsep⟩ := hsep height rfl
    obtain rfl := Except.ok.inj hexec
    exact get?_deleteBlock_of_not_touched (hsep.not_touched hne hk)
  | cacheTxTrace | cacheBlockTrace =>
    obtain rfl := Except.ok.inj hexec
    refine get?_insert_trace db _ rfl ?_
    cases k <;> first | rfl | exact hk.elim

/-- **The frame law.**  Along a run all of whose calls are on other heights and
separate from `h'` in the store they are made in, the answers about `h'` stay the
same. -/
theorem blockAnswers_of_separate (E : Env) (h' : ℕ) (calls : List Call) (db db' : DB)
    (hrun : run (Call.exec E) db calls = .ok db')
    (hsep : ∀ before c db₁ h, before ++ [c] <+: calls → run (Call.exec E) db before = .ok db₁ →
      c.resets = some h → h ≠ h' ∧ c.Separate E db₁ h h') :
    blockAnswers db' h' = blockAnswers db h' := by
  induction calls using List.reverseRecOn generalizing db' with
  | nil =>
    obtain rfl := Except.ok.inj hrun
    rfl
  | append_singleton calls c ih =>
    obtain ⟨db₁, hrun₁, hexec⟩ := run_concat_eq_ok.mp hrun
    have hstep : blockAnswers db' h' = blockAnswers db₁ h' := by
      refine blockAnswers_congr fun k hk => Call.exec_frame ?_ hexec hk
      exact fun h hc => hsep calls c db₁ h (List.prefix_refl _) hrun₁ hc
    rw [hstep]
    refine ih db₁ hrun₁ fun before c' db₂ h hpre => ?_
    exact hsep before c' db₂ h (hpre.trans (List.prefix_append _ _))

/-- Indexing a block of other transactions leaves the answers about a block alone. -/
theorem blockAnswers_of_separate_sample :
    ∃ db db', run (Call.exec .sample) ∅ [.index {} (sampleBlock 1 [1]) (some (sampleAnteFailed 1))] =
        .ok db ∧
      run (Call.exec .sample) db [.index {} (sampleBlock 2 [2]) (some (sampleAnteFailed 2))] =
        .ok db' ∧
      blockAnswers db' 1 = blockAnswers db 1 := by
  obtain ⟨db, hdb⟩ := exists_ok_of_isOk (x := run (Call.exec .sample) ∅
    [.index {} (sampleBlock 1 [1]) (some (sampleAnteFailed 1))]) (by decide +kernel)
  obtain ⟨db', hdb'⟩ := exists_indexBlock db
    (show (blockWrites .sample {} (sampleBlock 2 [2]) (some (sampleAnteFailed 2))).isOk = true by
      decide +kernel)
  have hrun : run (Call.exec .sample) db
      [.index {} (sampleBlock 2 [2]) (some (sampleAnteFailed 2))] = .ok db' := by
    rw [run_cons, Call.exec, hdb']
    rfl
  refine ⟨db, db', hdb, hrun, blockAnswers_of_separate .sample 1 _ db db' hrun ?_⟩
  intro before c db₁ h hpre hbefore hc
  obtain ⟨rfl, rfl⟩ : before = [] ∧
      c = .index {} (sampleBlock 2 [2]) (some (sampleAnteFailed 2)) := by
    cases before with
    | nil => simpa using hpre
    | cons b before => simp [List.cons_prefix_cons] at hpre
  obtain rfl : 2 = h := Option.some.inj hc
  obtain rfl := Except.ok.inj hbefore
  -- the store before the call is the block at height 1
  have hapart : Throughout (Call.exec .sample) ∅ HeightsApart
      [.index {} (sampleBlock 1 [1]) (some (sampleAnteFailed 1))] :=
    throughout_heightsApart (n := 1) (by simp [Call.resets, sampleBlock])
  obtain ⟨A, hrep, hS⟩ := run_represents hdb hapart
  have hnone : ∀ R, A 2 ≠ some R := by
    intro R hA
    obtain ⟨src, hsrc, -⟩ := hS.source hA
    simp [lastIndexed, Call.record, sampleBlock] at hsrc
  have hone : ∀ R, A 1 = some R → R.hashes = [1] ∧ R.block.ethHash = 1 := by
    intro R hA
    obtain ⟨src, hsrc, hR⟩ := hS.source hA
    obtain rfl : ⟨{}, sampleBlock 1 [1], some (sampleAnteFailed 1)⟩ = src := by
      simpa [lastIndexed, Call.record, sampleBlock] using hsrc
    rw [hR.hashes, hR.block]
    decide +kernel
  refine ⟨by decide, ?_, ?_⟩
  · intro x hx
    obtain ⟨R, hA, hmem⟩ := hrep.mem_hashes_of_indexed hx
    obtain rfl : x = 1 := by simpa [(hone R hA).1] using hmem
    refine ⟨?_, by decide +kernel⟩
    intro hx2
    obtain ⟨R', hA', -⟩ := hrep.mem_hashes_of_indexed hx2
    exact hnone R' hA'
  · intro m' hm'
    obtain ⟨R, hA, rfl⟩ := hrep.blockMeta_eq_some.mp hm'
    rw [R.meta_hash, hexToHash_hex, (hone R hA).2]
    refine ⟨by decide +kernel, ?_⟩
    intro m hm
    obtain ⟨R', hA', -⟩ := hrep.blockMeta_eq_some.mp hm
    exact absurd hA' (hnone R')

/-- **A shared hash breaks the frame.**  The transaction `0x01` failed before execution
at height 1 and is included at height 2: indexing height 2 changes the answers about
height 1, and deleting height 2 changes them again. -/
theorem shared_hash_breaks_frame :
    ∃ db db' db'', run (Call.exec .sample) ∅
        [.index {} (sampleBlock 1 [1]) (some (sampleAnteFailed 1))] = .ok db ∧
      Call.exec .sample db (.index {} (sampleBlock 2 [1]) (some (sampleIncluded 2))) = .ok db' ∧
      Call.exec .sample db' (.delete 2) = .ok db'' ∧
      blockAnswers db' 1 ≠ blockAnswers db 1 ∧ blockAnswers db'' 1 ≠ blockAnswers db' 1 := by
  refine ⟨_, _, _, rfl, rfl, rfl, ?_, ?_⟩ <;> decide +kernel

end EvmGateway
