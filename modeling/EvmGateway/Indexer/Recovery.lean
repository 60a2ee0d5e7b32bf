import EvmGateway.Indexer.Sync

/-!
# Failure and recovery

Indexing writes the store once, at its end, so a failure leaves the store as it was.  A
handler then deletes the height.  In terms of the abstract store, a handler that succeeds
remembers a block and one that fails forgets the height; the rest is untouched.

`failed_block_recovers` states this for every store that indexing and deletion lead to and
for every run of a handler from it, with what the next start makes of it: the height is in a
gap.
-/

namespace EvmGateway

open Lib

variable {db : DB} {h : ℕ}

/-! ## One call -/

/-- **Failure atomicity.**  If indexing returns an error, the store is as it was. -/
theorem indexBlockWithStatsAndResults_of_error {E : Env} {kv : KVIndexer} {diskErr : Option Err}
    {fetched : FetchedBlock} {err : Err}
    (h : (indexBlockWithStatsAndResults E kv diskErr fetched db).2 = .error err) :
    (indexBlockWithStatsAndResults E kv diskErr fetched db).1 = db := by
  unfold indexBlockWithStatsAndResults at h ⊢
  cases hbatch : buildBatch E kv fetched db with
  | error err => rfl
  | ok r =>
    cases diskErr with
    | some err => rfl
    | none =>
      rw [hbatch] at h
      cases h

namespace Syncer

variable (S : Syncer)

def store (c : HandlerCall) (db : DB) : DB :=
  if c.1.skipped then db
  else
    match S.index c db with
    | (db₁, .error _) => (cleanupFailedBlock c.2.delete c.1.height db₁).1
    | (db₁, .ok _) => db₁

theorem handleSyncedBlock_db (publishTip : Bool) (c : HandlerCall) (db : DB) :
    (S.handleSyncedBlock publishTip c db).db = S.store c db := by
  unfold handleSyncedBlock store
  by_cases hskip : c.1.skipped = true
  · rw [if_pos hskip, if_pos hskip]
  · rw [if_neg hskip, if_neg hskip]
    rcases S.index c db with ⟨db₁, err | n⟩ <;> rfl

theorem resyncBlock_fst (c : HandlerCall) (db : DB) : (S.resyncBlock c db).1 = S.store c db := by
  unfold resyncBlock store
  by_cases hskip : c.1.skipped = true
  · rw [if_pos hskip, if_pos hskip]
  · rw [if_neg hskip, if_neg hskip]
    rcases S.index c db with ⟨db₁, err | n⟩
    · rcases h : cleanupFailedBlock c.2.delete c.1.height db₁ with ⟨db₂, cleanupErr | cleanupErr⟩ <;>
        simp [h]
    · rfl

theorem resyncHandler_fst (c : HandlerCall) (s : DB × ResyncStats) :
    (S.resyncHandler c s).1.1 = S.store c s.1 := by
  rw [← resyncBlock_fst]
  unfold resyncHandler
  rcases S.resyncBlock c s.1 with ⟨db, _ | _⟩ <;> rfl

/-- Whether the block of a call is indexed.  It does not depend on the store. -/
def succeeds (c : HandlerCall) : Bool :=
  match (HandlerCall.fetched c).block with
  | some block =>
    (blockWrites S.env S.indexer block (HandlerCall.fetched c).blockResults).isOk && c.2.index.isNone
  | none => false

def effect (c : HandlerCall) : List Call :=
  if c.1.skipped then []
  else if S.succeeds c then
    (HandlerCall.fetched c).block.toList.map fun block =>
      .index S.indexer block (HandlerCall.fetched c).blockResults
  else if c.2.delete.isNone then [.delete c.1.height] else []

variable {S} {c : HandlerCall}

theorem index_of_succeeds (h : S.succeeds c = true) (db : DB) :
    ∃ block db' n, (HandlerCall.fetched c).block = some block ∧ S.index c db = (db', .ok n) ∧
      indexBlock S.env S.indexer db block (HandlerCall.fetched c).blockResults = .ok db' := by
  unfold succeeds at h
  cases hblock : (HandlerCall.fetched c).block with
  | none => simp [hblock] at h
  | some block =>
    simp only [hblock, Bool.and_eq_true, Option.isNone_iff_eq_none] at h
    obtain ⟨⟨writes, n⟩, hwrites⟩ := exists_ok_of_isOk h.1
    refine ⟨block, applyBatch (resetBlock db block.height ++ writes) db, n, rfl, ?_, ?_⟩
    · rw [index, indexBlockWithStatsAndResults, buildBatch, hblock, h.2]
      simp only [hwrites]
      rfl
    · rw [indexBlock, indexBlockWithStats, hwrites]
      rfl

theorem index_of_not_succeeds (h : S.succeeds c = false) (db : DB) :
    ∃ err, S.index c db = (db, .error err) := by
  unfold index indexBlockWithStatsAndResults buildBatch
  unfold succeeds at h
  cases hblock : (HandlerCall.fetched c).block with
  | none => exact ⟨_, rfl⟩
  | some block =>
    simp only [hblock] at h ⊢
    cases hwrites : blockWrites S.env S.indexer block (HandlerCall.fetched c).blockResults with
    | error err => exact ⟨err, rfl⟩
    | ok r =>
      cases hdisk : c.2.index with
      | some err => exact ⟨_, rfl⟩
      | none => simp [hwrites, hdisk, Except.isOk, Except.toBool] at h

theorem run_effect (c : HandlerCall) (db : DB) :
    run (Call.exec S.env) db (S.effect c) = .ok (S.store c db) := by
  unfold effect store
  by_cases hskip : c.1.skipped = true
  · rw [if_pos hskip, if_pos hskip]
    rfl
  rw [if_neg hskip, if_neg hskip]
  by_cases hs : S.succeeds c = true
  · obtain ⟨block, db', n, hblock, hindex, hok⟩ := index_of_succeeds hs db
    rw [if_pos hs, hblock, hindex]
    change run (Call.exec S.env) db [_] = _
    rw [run_cons, Call.exec, hok]
    rfl
  · obtain ⟨err, hindex⟩ := index_of_not_succeeds (by simpa using hs) db
    rw [if_neg hs, hindex]
    cases hdelete : c.2.delete with
    | none => rfl
    | some err' => rfl

structure FailsCleanly (S : Syncer) (c : HandlerCall) (db : DB) : Prop where
  skipped : c.1.skipped = false
  index : ∃ err, (S.index c db).2 = .error err
  cleanup : (cleanupFailedBlock c.2.delete c.1.height db).2 = none

theorem FailsCleanly.effect_eq (h : S.FailsCleanly c db) :
    S.effect c = [.delete c.1.height] := by
  have hs : S.succeeds c = false := by
    by_contra hne
    obtain ⟨block, db', n, -, hindex, -⟩ := index_of_succeeds (by simpa using hne) db
    obtain ⟨err, herr⟩ := h.index
    rw [hindex] at herr
    cases herr
  have hdelete : c.2.delete = none := by
    have hclean := h.cleanup
    cases hd : c.2.delete with
    | none => rfl
    | some err =>
      rw [hd] at hclean
      cases hclean
  simp [effect, h.skipped, hs, hdelete]

theorem FailsCleanly.store_eq (h : S.FailsCleanly c db) :
    S.store c db = deleteBlock db c.1.height := by
  have hrun := run_effect (S := S) c db
  rw [h.effect_eq] at hrun
  exact (Except.ok.inj hrun).symm

/-! ## Runs -/

def storeAfter (S : Syncer) (handled : List HandlerCall) (db : DB) : DB :=
  handled.foldl (fun db c => S.store c db) db

theorem storeAfter_append (S : Syncer) (l l' : List HandlerCall) (db : DB) :
    S.storeAfter (l ++ l') db = S.storeAfter l' (S.storeAfter l db) := List.foldl_append ..

theorem run_effects (handled : List HandlerCall) (db : DB) :
    run (Call.exec S.env) db (handled.flatMap S.effect) = .ok (S.storeAfter handled db) := by
  induction handled generalizing db with
  | nil => rfl
  | cons c handled ih =>
    rw [List.flatMap_cons, run_append, run_effect]
    exact ih (S.store c db)

theorem deliver_store {σ : Type} {handler : HandlerCall → σ → σ × Option Err} {π : σ → DB}
    (hπ : ∀ c s, π (handler c s).1 = S.store c (π s)) (err : Option Err) (calls : List HandlerCall)
    (s : σ) : π (deliver handler err calls s).state =
      S.storeAfter (deliver handler err calls s).handled (π s) := by
  induction calls generalizing s with
  | nil => rfl
  | cons c calls ih =>
    have hc := hπ c s
    unfold deliver
    generalize handler c s = r at hc ⊢
    obtain ⟨s', err' | err'⟩ := r
    · refine (ih s').trans ?_
      rw [hc]
      rfl
    · exact hc

theorem resyncTargets_store (feed : BlockRange → Feed) (targets : List BlockRange)
    (s : DB × ResyncStats) : (S.resyncTargets feed targets s).state.1 =
      S.storeAfter (S.resyncTargets feed targets s).handled s.1 := by
  induction targets generalizing s with
  | nil => rfl
  | cons target targets ih =>
    have hd := deliver_store (S := S) (π := Prod.fst) S.resyncHandler_fst (feed target).err
      (feed target).calls s
    unfold resyncTargets
    generalize deliver S.resyncHandler (feed target).err (feed target).calls s = r at hd ⊢
    obtain ⟨s', handled, err | err⟩ := r
    · refine (ih s').trans ?_
      change S.storeAfter _ s'.1 = List.foldl _ _ (handled ++ _)
      rw [List.foldl_append, hd]
      rfl
    · exact hd

end Syncer

/-! ## What is left of a height -/

/-- The keys attached to a height: those of the height itself, and those of the hashes listed
there. -/
def Attached (db : DB) (height : ℕ) : Key → Prop
  | .txHash x | .traceTx x _ => EthIndexed db height x
  | .rpcTxHash x | .receipt x | .virtualRPCtx x => EthIndexed db height x ∨ RpcIndexed db height x
  | .txIndex n _ | .rpcTxIndex n _ | .blockLogs n | .blockMeta n | .traceBlock n _ => n = height
  | .blockHash x => ∃ m, db.get? (.blockMeta height) = some m ∧ hexToHash m.hash = x

theorem get?_deleteBlock_of_attached {height : ℕ} {k : Key} (hk : Attached db height k) :
    (deleteBlock db height).get? k = none := by
  by_cases ht : ResetTouches db height k
  · exact get?_deleteBlock_of_touched ht
  · -- only keys without a record are attached and not deleted
    rw [get?_deleteBlock_of_not_touched ht, ← Option.not_isSome_iff_eq_none]
    intro hsome
    cases k with
    | txIndex n i | rpcTxIndex n i | traceBlock n c =>
      obtain rfl : n = height := hk
      exact ht ⟨rfl, hsome⟩
    | traceTx x c => exact ht ⟨hk, hsome⟩
    | _ => exact ht hk

/-- With hashes distinct across heights, what is attached to another height stays. -/
theorem Represents.get?_deleteBlock_of_attached {A : ℕ → Option BlockRecords}
    (hrep : Represents db A) (hdb : HeightsApart db) {h' : ℕ} (hne : h' ≠ h) {k : Key}
    (hk : Attached db h' k) : (EvmGateway.deleteBlock db h).get? k = db.get? k := by
  refine get?_deleteBlock_of_not_touched fun ht => ?_
  have hapart := hdb.pairwiseApart hrep
  -- a hash is not listed at both heights
  have hlisted : ∀ x, EthIndexed db h x ∨ RpcIndexed db h x →
      ¬ (EthIndexed db h' x ∨ RpcIndexed db h' x) := by
    intro x hx hx'
    obtain ⟨R, hA, hmem⟩ := hrep.mem_hashes_of_indexed hx
    obtain ⟨R', hA', hmem'⟩ := hrep.mem_hashes_of_indexed hx'
    exact (hapart h h' R R' hA hA' hne.symm).hashes x hmem hmem'
  cases k with
  | txHash x => exact hlisted x (.inl ht) (.inl hk)
  | traceTx x c => exact hlisted x (.inl ht.1) (.inl hk)
  | rpcTxHash x | receipt x | virtualRPCtx x => exact hlisted x ht hk
  | txIndex n i | rpcTxIndex n i | traceBlock n c => exact hne (hk.symm.trans ht.1)
  | blockLogs n | blockMeta n => exact hne (hk.symm.trans ht)
  | blockHash x =>
    obtain ⟨m, hm, rfl⟩ := ht
    obtain ⟨m', hm', heq⟩ := hk
    obtain ⟨R, hA, rfl⟩ := hrep.blockMeta_eq_some.mp hm
    obtain ⟨R', hA', rfl⟩ := hrep.blockMeta_eq_some.mp hm'
    refine (hapart h h' R R' hA hA' hne.symm).blockHash ?_
    rw [R.meta_hash, R'.meta_hash, hexToHash_hex, hexToHash_hex] at heq
    exact heq.symm

def Key.txHash? : Key → Option Hash
  | .txHash x | .rpcTxHash x | .receipt x | .virtualRPCtx x => some x
  | _ => none

/-- No record of the store says that it is of the height. -/
structure HeightAbsent (db : DB) (h : ℕ) : Prop where
  keyed : ∀ k : Key, k.height? = some h → db.get? k = none
  traceBlock : ∀ c, db.get? (.traceBlock h c) = none
  blockHash : ∀ x, db.get? (.blockHash x) ≠ some h
  receipt : ∀ x r, db.get? (.receipt x) = some r → r.blockNumber ≠ h
  txResult : ∀ x r, db.get? (.txHash x) = some r → r.height ≠ h
  /-- a record of a transaction is listed at another height -/
  listed : ∀ (k : Key) (x : Hash), k.txHash? = some x → (db.get? k).isSome →
    ∃ h', h' ≠ h ∧ RpcIndexed db h' x

theorem Represents.heightAbsent {A : ℕ → Option BlockRecords} (hrep : Represents db A)
    (hA : A h = none) (htrace : ∀ c, db.get? (.traceBlock h c) = none) :
    HeightAbsent db h := by
  -- a record belongs to a block at another height
  have howner : ∀ (k : Key) (v : k.Val), k.isTrace = false → db.get? k = some v →
      ∃ R, A R.block.height = some R ∧ R.block.height ≠ h ∧ R.get k = some v := by
    intro k v hk hv
    obtain ⟨h', R, hA', hget⟩ := (hrep.get? k hk v).mp hv
    obtain rfl : R.block.height = h' := hrep.height h' R hA'
    refine ⟨R, hA', ?_, hget⟩
    rintro rfl
    rw [hA] at hA'
    cases hA'
  refine ⟨?_, htrace, ?_, ?_, ?_, ?_⟩
  · intro k hk
    by_contra hsome
    obtain ⟨v, hv⟩ := Option.ne_none_iff_exists'.mp hsome
    obtain ⟨R, hA', -⟩ := hrep.exists_of_get? hk hv
    rw [hA] at hA'
    cases hA'
  · intro x hx
    obtain ⟨R, -, hne, hget⟩ := howner _ _ rfl hx
    rcases BlockRecords.exists_of_get hget with hb | ⟨e, -, he⟩
    · simp only [BlockRecords.blockGet, Option.ite_none_right_eq_some, Option.some.injEq] at hb
      exact hne hb.2
    · simp [Entry.get] at he
  · intro x r hr
    obtain ⟨R, -, hne, hget⟩ := howner _ _ rfl hr
    rcases BlockRecords.exists_of_get hget with hb | ⟨e, he, hv⟩
    · simp [BlockRecords.blockGet] at hb
    · simp only [Entry.get, Option.ite_none_right_eq_some, Option.some.injEq] at hv
      obtain ⟨p, hp⟩ := List.getElem?_of_mem he
      rw [← hv.2, (R.entry_at p e hp).receipt_blockNumber]
      exact hne
  · intro x r hr
    obtain ⟨R, -, hne, hget⟩ := howner _ _ rfl hr
    rcases BlockRecords.exists_of_get hget with hb | ⟨e, he, hv⟩
    · simp [BlockRecords.blockGet] at hb
    · simp only [Entry.get, Option.ite_none_right_eq_some] at hv
      obtain ⟨p, hp⟩ := List.getElem?_of_mem he
      rw [((R.entry_at p e hp).result_position r hv.2).1]
      exact hne
  · intro k x hx hsome
    obtain ⟨v, hv⟩ := Option.isSome_iff_exists.mp hsome
    have htr : k.isTrace = false := by cases k <;> simp_all [Key.txHash?, Key.isTrace]
    obtain ⟨R, hA', hne, hget⟩ := howner k v htr hv
    have hmem : x ∈ R.hashes := by
      have howns := BlockRecords.owns_of_get hget
      cases k <;> simp_all [Key.txHash?, BlockRecords.Owns]
    obtain ⟨i, hi⟩ := BlockRecords.exists_rpcTxIndex hmem
    exact ⟨_, hne, i, hrep.get?_of_get hA' hi⟩

theorem HeightAbsent.not_reportedIndexed (habs : HeightAbsent db h) :
    ¬ ReportedIndexed db h := by
  rintro (hmeta | ⟨-, x, i, hi⟩)
  · rw [habs.keyed (.blockMeta h) rfl] at hmeta
    cases hmeta
  · rw [habs.keyed (.txIndex h i) rfl] at hi
    cases hi

/-! ## Recovery -/

/-- A height that was deleted and not indexed again was last indexed from nothing. -/
theorem lastIndexed_of_deleted (before : List Call) {later : List Call}
    (hlater : ∀ c ∈ later, c.resets ≠ some h) :
    lastIndexed (before ++ .delete h :: later) h = none := by
  induction later using List.reverseRecOn with
  | nil =>
    rw [lastIndexed_concat]
    simp [Call.record]
  | append_singleton later c ih =>
    have ih := ih fun c' hc' => hlater c' (by simp [hc'])
    have hc := hlater c (by simp)
    rw [← List.cons_append, ← List.append_assoc, lastIndexed_concat]
    cases c with
    | index kv block results =>
      have hne : h ≠ block.height := fun heq => hc (congrArg some heq.symm)
      rw [Call.record, Function.update_of_ne hne]
      exact ih
    | delete n =>
      have hne : h ≠ n := fun heq => hc (congrArg some heq.symm)
      rw [Call.record, Function.update_of_ne hne]
      exact ih
    | cacheTxTrace | cacheBlockTrace => exact ih

/-- A handler neither caches traces nor touches the ones of other heights. -/
theorem Syncer.effect_resets {S : Syncer} {c : HandlerCall} {call : Call} (h : call ∈ S.effect c) :
    ∃ n, call.resets = some n := by
  unfold Syncer.effect at h
  split_ifs at h
  · cases h
  · obtain ⟨block, -, rfl⟩ := List.mem_map.mp h
    exact ⟨_, rfl⟩
  · rw [List.mem_singleton.mp h]
    exact ⟨_, rfl⟩
  · cases h

/-- Calls on other heights leave the traces of the block alone. -/
theorem get?_traceBlock_of_run {E : Env} {calls : List Call} {db' : DB} {config : Hash}
    (hrun : run (Call.exec E) db calls = .ok db')
    (hcalls : ∀ c ∈ calls, ∃ n, c.resets = some n ∧ n ≠ h) :
    db'.get? (.traceBlock h config) = db.get? (.traceBlock h config) := by
  refine run_induction (fun l db' => (∀ c ∈ l, ∃ n, c.resets = some n ∧ n ≠ h) →
    db'.get? (.traceBlock h config) = db.get? (.traceBlock h config)) (fun _ => rfl) ?_ hrun hcalls
  intro l c db₁ db₂ _ ih hexec hl
  obtain ⟨n, hn, hne⟩ := hl c (by simp)
  rw [(c.exec_forgetsTraces hn hexec).other_block h config hne.symm]
  exact ih fun c' hc' => hl c' (by simp [hc'])

/-- A failed height: `db₁` is the store before the failure, `db₂` the one after the cleanup and
`db₃` the one at the end of the run. -/
structure Recovers (db₁ db₂ db₃ : DB) (h : ℕ) : Prop where
  forgotten : ∀ k, Attached db₁ h k → db₂.get? k = none
  untouched : ∀ h', h' ≠ h → ∀ k, Attached db₁ h' k → db₂.get? k = db₁.get? k
  cleaned : HeightAbsent db₂ h
  absent : HeightAbsent db₃ h
  missing : ∀ earliest head : ℤ, earliest ≤ h → h ≤ head →
    Covered (computeGaps earliest head (loadIndexedRanges db₃)) h

/-- The handler calls `handled` were made in a run of the sync handler or of `Resync` that
started with `db` and ended with `db'`. -/
inductive Syncer.Synced (S : Syncer) (db : DB) : List HandlerCall → DB → Prop
  | sync (publishTip : Bool) (feed : Feed) :
      S.Synced db (deliver (S.syncHandler publishTip) feed.err feed.calls db).handled
        (deliver (S.syncHandler publishTip) feed.err feed.calls db).state
  | resync (targets : List BlockRange) (feed : BlockRange → Feed) :
      S.Synced db (S.resync targets feed db).handled (S.resync targets feed db).state.1

namespace Syncer

variable {S : Syncer} {calls : List Call} {db₀ db₃ : DB} {handled pre : List HandlerCall}
  {c : HandlerCall}

theorem Synced.storeAfter_eq (h : S.Synced db₀ handled db₃) : db₃ = S.storeAfter handled db₀ := by
  cases h with
  | sync publishTip feed =>
    exact deliver_store (π := fun db => db) (fun c db => S.handleSyncedBlock_db publishTip c db) _ _ _
  | resync targets feed =>
    unfold Syncer.resync
    split_ifs
    · rfl
    · exact resyncTargets_store ..

theorem heightAbsent_of_failed (post : List HandlerCall)
    (hrun : run (Call.exec S.env) ∅ calls = .ok db₀)
    (hapart : Throughout (Call.exec S.env) ∅ HeightsApart
      (calls ++ (pre ++ c :: post).flatMap S.effect))
    (hfail : S.FailsCleanly c (S.storeAfter pre db₀))
    (hlater : ∀ call ∈ post.flatMap S.effect, call.resets ≠ some c.1.height) :
    HeightAbsent (S.storeAfter (pre ++ c :: post) db₀) c.1.height := by
  have hall : run (Call.exec S.env) ∅ (calls ++ (pre ++ c :: post).flatMap S.effect) =
      .ok (S.storeAfter (pre ++ c :: post) db₀) := by
    rw [run_append, hrun]
    exact run_effects _ db₀
  obtain ⟨A, hrep, hS⟩ := run_represents hall hapart
  refine hrep.heightAbsent ?_ fun config => ?_
  · have hlast : lastIndexed (calls ++ (pre ++ c :: post).flatMap S.effect) c.1.height = none := by
      rw [List.flatMap_append, List.flatMap_cons, hfail.effect_eq, ← List.append_assoc]
      exact lastIndexed_of_deleted _ hlater
    have hrel := hS c.1.height
    rw [hlast] at hrel
    generalize A c.1.height = o at hrel ⊢
    cases hrel
    rfl
  · have hpost : run (Call.exec S.env) (deleteBlock (S.storeAfter pre db₀) c.1.height)
        (post.flatMap S.effect) = .ok (S.storeAfter (pre ++ c :: post) db₀) := by
      rw [run_effects, ← hfail.store_eq, storeAfter_append]
      rfl
    rw [get?_traceBlock_of_run hpost]
    · exact (deleteBlock_forgetsTraces _ _).block config
    · intro call hcall
      obtain ⟨c', -, hc'⟩ := List.mem_flatMap.mp hcall
      obtain ⟨n, hn⟩ := effect_resets hc'
      exact ⟨n, hn, fun heq => hlater call hcall (by rw [hn, heq])⟩

end Syncer

/-- **Failure atomicity and recovery.**  An error of indexing leaves the store as it was.
From every store that calls of the indexer lead to, with hashes distinct across heights: if in a
run of the sync handler or of `Resync` a block fails and is cleaned up, and its height is not
handled again, then nothing of the height is left, the other heights are untouched by the
failure, and the next start reports the height as missing. -/
theorem failed_block_recovers (S : Syncer) :
    (∀ (diskErr : Option Err) (fetched : FetchedBlock) (db : DB) (err : Err),
      (indexBlockWithStatsAndResults S.env S.indexer diskErr fetched db).2 = .error err →
        (indexBlockWithStatsAndResults S.env S.indexer diskErr fetched db).1 = db) ∧
      ∀ (calls : List Call) (db₀ db₃ : DB) (pre post : List HandlerCall) (c : HandlerCall),
        run (Call.exec S.env) ∅ calls = .ok db₀ → S.Synced db₀ (pre ++ c :: post) db₃ →
        Throughout (Call.exec S.env) ∅ HeightsApart
          (calls ++ (pre ++ c :: post).flatMap S.effect) →
        S.FailsCleanly c (S.storeAfter pre db₀) →
        (∀ call ∈ post.flatMap S.effect, call.resets ≠ some c.1.height) →
          Recovers (S.storeAfter pre db₀) (S.storeAfter (pre ++ [c]) db₀) db₃ c.1.height := by
  refine ⟨fun _ _ _ _ h => indexBlockWithStatsAndResults_of_error h, ?_⟩
  intro calls db₀ db₃ pre post c hrun hsynced hapart hfail hlater
  -- the store before the failure, and the one after the cleanup
  have hpre : run (Call.exec S.env) ∅ (calls ++ pre.flatMap S.effect) =
      .ok (S.storeAfter pre db₀) := by
    rw [run_append, hrun]
    exact Syncer.run_effects pre db₀
  have happre : Throughout (Call.exec S.env) ∅ HeightsApart (calls ++ pre.flatMap S.effect) :=
    fun l db hl h => hapart l db (hl.trans (by simp [List.prefix_append])) h
  have hcleaned : S.storeAfter (pre ++ [c]) db₀ = deleteBlock (S.storeAfter pre db₀) c.1.height := by
    rw [Syncer.storeAfter_append]
    exact hfail.store_eq
  obtain ⟨A, hrep, -⟩ := run_represents hpre happre
  have habsent : HeightAbsent db₃ c.1.height := by
    rw [hsynced.storeAfter_eq]
    exact Syncer.heightAbsent_of_failed post hrun hapart hfail hlater
  refine ⟨?_, ?_, ?_, habsent, ?_⟩
  · intro k hk
    rw [hcleaned]
    exact get?_deleteBlock_of_attached hk
  · intro h' hne k hk
    rw [hcleaned]
    exact hrep.get?_deleteBlock_of_attached (happre.last hpre) hne hk
  · refine Syncer.heightAbsent_of_failed [] hrun ?_ hfail (by simp)
    exact fun l db hl h => hapart l db (hl.trans (by simp [List.prefix_append])) h
  · intro earliest head hle hle'
    exact (covered_gaps_iff db₃ hle hle').mpr habsent.not_reportedIndexed

/-- A syncer that skips blocks it cannot parse. -/
def sampleSyncer : Syncer where
  env := .sample
  indexer := {}
  allowGaps := true
  fetchJobs := 1
  parallelSyncTipAndGaps := true
  publishes := true

/-- Block 1 without the results of its transaction. -/
def sampleBrokenCall : HandlerCall :=
  ({ height := 1, block := some ⟨some (sampleBlock 1 [1]), none⟩ }, {})

theorem sampleBrokenCall_failsCleanly (db : DB) : sampleSyncer.FailsCleanly sampleBrokenCall db := by
  obtain ⟨err, herr⟩ := Syncer.index_of_not_succeeds (S := sampleSyncer) (c := sampleBrokenCall)
    (by decide +kernel) db
  exact ⟨rfl, ⟨err, by rw [herr]⟩, rfl⟩

/-- Block 1 is indexed, and then fails. -/
theorem failed_block_recovers_sample :
    ∃ db₀ db₃, run (Call.exec .sample) ∅ [.index {} (sampleBlock 1 [1]) (some (sampleAnteFailed 1))] =
        .ok db₀ ∧ sampleSyncer.Synced db₀ [sampleBrokenCall] db₃ ∧
      Recovers db₀ (sampleSyncer.storeAfter [sampleBrokenCall] db₀) db₃ 1 := by
  obtain ⟨db₀, hrun⟩ := exists_ok_of_isOk (x := run (Call.exec .sample) ∅
    [.index {} (sampleBlock 1 [1]) (some (sampleAnteFailed 1))]) (by decide +kernel)
  have hsynced : sampleSyncer.Synced db₀ _ _ := .sync false ⟨[sampleBrokenCall], none⟩
  have hhandled : (deliver (sampleSyncer.syncHandler false) none [sampleBrokenCall] db₀).handled =
      [sampleBrokenCall] := by
    unfold deliver
    split <;> rfl
  rw [hhandled] at hsynced
  refine ⟨db₀, _, hrun, hsynced, (failed_block_recovers sampleSyncer).2 _ db₀ _ [] []
    sampleBrokenCall hrun hsynced (throughout_heightsApart (n := 1) ?_)
    (sampleBrokenCall_failsCleanly _) (by simp)⟩
  have heffect : sampleSyncer.effect sampleBrokenCall = [.delete 1] :=
    (sampleBrokenCall_failsCleanly db₀).effect_eq
  simp [heffect, Call.resets, sampleBlock]

end EvmGateway
