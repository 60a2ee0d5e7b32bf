import EvmGateway.Backend.Headers
import EvmGateway.Indexer.AdvertisedHead

/-!
# Announced blocks

The tip publishes a block once its batch is written, and both queues go on writing and deleting.
Neither touches a published height again, so what subscribers were told of a block is what later
requests find in the store (`announcement_stays`).
-/

namespace EvmGateway

open Lib Blocksync

section Rows

variable {S : Syncer} {answers : ℕ → FetchedBlock → Bool} {cfg : Blocksync.Syncer}
  {stop : Option ℤ} {queue : Queue} {db₀ db db' : DB} {call call' : SyncCall} {new : List SyncEvent}
  {plan : Plan} {earliest : ℤ} {s s' : RunState} {p : ℕ}

/-- A call writes rows of the height it works on. -/
theorem CallMove.get?_of_ne (hb : call.handler.BatchSound)
    (hm : CallMove S answers cfg stop queue db call call' db' new) {k : Key} (hk : k.height? = some p)
    (hp : ∀ block, call.handler.block? = some block → p ≠ block.height) :
    db'.get? k = db.get? k := by
  cases hm with
  | handler x _ _ hm =>
    generalize hh : call.handler = y at hm
    rw [hh] at hb hp
    cases hm with
    | write block batch => rw [get?_applyBatch, hb.keeps k p hk (hp block rfl), Option.getD_none]
    | delete block err batch err' => rw [get?_applyBatch, hb k p hk (hp block rfl), Option.getD_none]
    | _ => rfl
  | _ => rfl

/-- **A row of a published block** is not written again: gaps are below the tip, and the tip is
past the block. -/
theorem RunMove.get?_published (hplan : PlanSound plan earliest) (hi : RunInv S answers plan s)
    (hs : RunStoreInv db₀ s) (hm : RunMove S answers plan s s')
    (hp : p ∈ publishedHeights s.events) {k : Key} (hk : k.height? = some p) :
    s'.db.get? k = s.db.get? k := by
  have hgap := hi.gap
  have htip := hi.tip
  have hhanded := hi.log.indexed_handed .tip p (hi.log.indexed_of_published p hp)
  cases hm with
  | gap gap rest call call' db' new hq hm =>
    rw [hq] at hgap
    obtain ⟨done, before, -, -, hcall⟩ := hgap
    refine hm.get?_of_ne (hs.gap gap rest call hq) hk fun block hblock => ?_
    exact (hi.gap_lt_tip hplan (hcall.height block (hcall.current block hblock)).2 hhanded).ne'
  | tip call call' db' new hq hm =>
    rw [hq] at htip
    refine hm.get?_of_ne (hs.tip call hq) hk fun block hblock => ?_
    exact (htip.unpublished block hblock rfl p hp).ne
  | _ => rfl

theorem RunMove.events_grow (hm : RunMove S answers plan s s') : s.events <+: s'.events := by
  cases hm with
  | gap | gapReturn | tip | tipReturn => exact List.prefix_append ..
  | gapsDone | startGap | startTip | cancel => exact List.prefix_rfl

theorem publishIndexedBlock_congr (E : Env)
    (hrows : ∀ k : Key, k.height? = some p → db'.get? k = db.get? k) :
    publishIndexedBlock E db' p = publishIndexedBlock E db p := by
  have hhashes : db'.rpcTxIndexEntries p = db.rpcTxIndexEntries p :=
    DB.rpcTxIndexEntries_congr fun i => hrows (.rpcTxIndex p i) rfl
  simp only [publishIndexedBlock, getBlockMetaByHeight, getLogsByBlockHeight,
    getRPCTransactionHashesByBlockHeight, DB.getOr, hrows (.blockMeta p) rfl,
    hrows (.blockLogs p) rfl, hhashes]

end Rows

/-- **Announcements stay.**  Between any two states of a run, whatever the interleaving and the
failures, all rows of a published height, and so what subscribers are told of it, are the same. -/
theorem announcement_stays (S : Syncer) (answers : ℕ → FetchedBlock → Bool) (configured : ℤ)
    (status : NodeStatus) (probe : BlockProbe) (db₀ : DB) (plan : Plan)
    (hrun : S.run configured status probe db₀ = .ok (some plan)) (hnode : HonestNode answers)
    (s s' : RunState) (hs : RunReaches S answers plan db₀ s)
    (hlater : Reachable (runStep S answers plan) s s') :
    ∀ p ∈ publishedHeights s.events, p ∈ publishedHeights s'.events ∧
      (∀ k : Key, k.height? = some p → s'.db.get? k = s.db.get? k) ∧
      publishIndexedBlock S.env s'.db p = publishIndexedBlock S.env s.db p := by
  intro p hp
  obtain ⟨earliest, hplan, rfl⟩ := Syncer.run_eq_plan hrun
  obtain ⟨-, hkept, hrows⟩ := Reachable.invariant (I := fun t => RunReaches S answers _ db₀ t ∧
    p ∈ publishedHeights t.events ∧ ∀ k : Key, k.height? = some p → t.db.get? k = s.db.get? k)
    hlater ⟨hs, hp, fun _ _ => rfl⟩ fun t t' a ⟨ht, hpt, hrows⟩ hstep => by
      have hm := runStep_move hstep
      refine ⟨ht.step a hstep, (hm.events_grow.filterMap _).subset hpt, fun k hk => ?_⟩
      rw [hm.get?_published hplan (ht.inv hplan) (ht.storeInv hnode hplan) hpt hk, hrows k hk]
  exact ⟨hkept, hrows, publishIndexedBlock_congr S.env hrows⟩

/-- A start with an empty store and a chain of one block. -/
def oneBlockStep : RunState → RunAction → Option RunState :=
  runStep sampleSyncer anyBlockOf ⟨[⟨1, 1⟩], 1, true⟩

def publishBlockTwo : List RunAction :=
  .startTip :: (fetchAndHandle ⟨some { height := 2, hash := [2], txs := [] },
    some { height := 2, txResults := [] }⟩ [.read, .write none, .publish]).map .tip

theorem announcement_stays_two :
    ∃ s s', perform oneBlockStep (Plan.start ⟨[⟨1, 1⟩], 1, true⟩ ∅) publishBlockTwo = some s ∧
      perform oneBlockStep s indexBlockOne = some s' ∧ 2 ∈ publishedHeights s'.events ∧
      publishIndexedBlock .sample s'.db 2 = publishIndexedBlock .sample s.db 2 := by
  have hnode : HonestNode anyBlockOf := fun h fetched block hanswer hblock => by
    simpa [anyBlockOf, hblock] using hanswer
  obtain ⟨s, hs, hlater⟩ := Option.bind_eq_some_iff.mp (show
    ((perform oneBlockStep (Plan.start ⟨[⟨1, 1⟩], 1, true⟩ ∅) publishBlockTwo).bind fun s =>
      (perform oneBlockStep s indexBlockOne).map fun _ => publishedHeights s.events) = some [2] by
    decide +kernel)
  obtain ⟨s', hs', hpublished⟩ := Option.map_eq_some_iff.mp hlater
  have hstays := announcement_stays sampleSyncer anyBlockOf 0 ⟨0, 1, by decide⟩ .block ∅
    ⟨[⟨1, 1⟩], 1, true⟩
    (by decide +kernel) hnode s s' (Reachable.init.perform hs) (Reachable.init.perform hs') 2
    (by simp [hpublished])
  exact ⟨s, s', hs, hs', hstays.1, hstays.2.2⟩

end EvmGateway
