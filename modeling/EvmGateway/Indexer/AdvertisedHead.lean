import EvmGateway.Indexer.Coverage

/-!
# The advertised head

The head of the store is the highest height with a meta or, in a store without any meta, the
highest one with an Ethereum transaction.  While the queues of a start run, it should never go
back.

Two things can take it back.  In a store of an old version, without metas, the first block that is
indexed brings the first meta, and then the metas count: if a gap is below the old head, the head
falls to it.  And if the store is ahead of the node, the queue of the tip comes to heights that are
indexed already, and the deletion after a failure can take the highest one away.  Otherwise no
queue is handed a height that was reported as indexed at the start, and the head only rises.

## Main statements

* `reportedIndexed_cases` — what a run reports as indexed was reported at the start, or the run
  has indexed it.
* `CallMove.head_le` — no move of a call takes the head back.
* `head_never_goes_back` — no run does, under `Plan.HeadSafe`.
-/

namespace EvmGateway

open Lib Blocksync

/-! ## The head of a store -/

section Head

variable {db db' : DB} {h : ℕ}

/-- The head of a store is the highest height it reports as indexed. -/
theorem loadLastBlock_cases (db : DB) :
    (loadLastBlock db = -1 ∧ ∀ h, ¬ ReportedIndexed db h) ∨
      ∃ last : ℕ, loadLastBlock db = last ∧ ReportedIndexed db last ∧
        ∀ h, ReportedIndexed db h → h ≤ last := by
  cases hmeta : db.metaHeights.getLast? with
  | some last =>
    have hrep := DB.mem_metaHeights.mp (List.mem_of_getLast? hmeta)
    refine .inr ⟨last, by simp only [loadLastBlock, hmeta], .inl hrep, ?_⟩
    rintro h (hh | ⟨hnone, -⟩)
    · exact le_last_of_mem db.metaHeights_sorted hmeta (DB.mem_metaHeights.mpr hh)
    · simp [hnone last] at hrep
  | none =>
    have hnil : db.metaHeights = [] := List.getLast?_eq_none_iff.mp hmeta
    have hnone : ∀ n, db.get? (.blockMeta n) = none := by
      intro n
      rw [← Option.not_isSome_iff_eq_none, ← DB.mem_metaHeights, hnil]
      exact List.not_mem_nil
    have hrep : ∀ h, ReportedIndexed db h ↔ h ∈ db.txIndexHeights := by
      intro h
      rw [DB.mem_txIndexHeights, ReportedIndexed, hnone h]
      simp [hnone]
    cases htx : db.txIndexHeights.getLast? with
    | some last =>
      refine .inr ⟨last, by simp only [loadLastBlock, hmeta, htx],
        (hrep last).mpr (List.mem_of_getLast? htx), ?_⟩
      intro h hh
      exact le_last_of_mem db.txIndexHeights_sorted htx ((hrep h).mp hh)
    | none =>
      refine .inl ⟨by simp only [loadLastBlock, hmeta, htx], fun h hh => ?_⟩
      have hmem := (hrep h).mp hh
      rw [List.getLast?_eq_none_iff.mp htx] at hmem
      exact List.not_mem_nil hmem

theorem neg_one_le_loadLastBlock (db : DB) : -1 ≤ loadLastBlock db := by
  rcases loadLastBlock_cases db with ⟨hlast, -⟩ | ⟨last, hlast, -, -⟩ <;> omega

theorem le_loadLastBlock (hrep : ReportedIndexed db h) : h ≤ loadLastBlock db := by
  rcases loadLastBlock_cases db with ⟨-, hnone⟩ | ⟨last, hlast, -, hmax⟩
  · exact absurd hrep (hnone h)
  · rw [hlast]
    exact_mod_cast hmax h hrep

/-- The head does not go back if what was reported as indexed is, or something higher. -/
theorem loadLastBlock_mono
    (hall : ∀ x, ReportedIndexed db x → ∃ y, x ≤ y ∧ ReportedIndexed db' y) :
    loadLastBlock db ≤ loadLastBlock db' := by
  rcases loadLastBlock_cases db with ⟨hlast, -⟩ | ⟨last, hlast, hrep, -⟩
  · rw [hlast]
    exact neg_one_le_loadLastBlock db'
  · obtain ⟨y, hle, hy⟩ := hall last hrep
    have hhead := le_loadLastBlock hy
    omega

end Head

/-! ## What is in the store of a run -/

/-- The batch sets nothing. -/
def OnlyDeletes (batch : DBBatch) : Prop := ∀ k v, lastWrite batch k ≠ some (some v)

theorem onlyDeletes_resetBlock (db : DB) (height : ℕ) : OnlyDeletes (resetBlock db height) := by
  intro k v
  by_cases ht : ResetTouches db height k
  · simp [lastWrite_resetBlock_of_mem ht]
  · simp [lastWrite_resetBlock_of_not_mem ht]

theorem OnlyDeletes.get?_eq {batch : DBBatch} (hb : OnlyDeletes batch) {db : DB} {k : Key}
    (h : ((applyBatch batch db).get? k).isSome) : (db.get? k).isSome := by
  rw [get?_applyBatch] at h
  cases hw : lastWrite batch k with
  | none => simpa [hw] using h
  | some w =>
    cases w with
    | none => simp [hw] at h
    | some v => exact absurd hw (hb k v)

/-- A handler about to delete sets nothing. -/
def Handler.Cleans : Handler → Prop
  | .deleting _ _ batch => OnlyDeletes batch
  | _ => True

/-- What the store has of a height was there at the start, or the run has indexed the height. -/
def StoredFrom (db₀ db : DB) (events : List SyncEvent) : Prop :=
  ∀ (k : Key) (h : ℕ), k.height? = some h → (db.get? k).isSome →
    (db₀.get? k).isSome ∨ ∃ q, .indexed q h ∈ events

section Calls

variable {S : Syncer} {answers : ℕ → FetchedBlock → Bool} {cfg : Blocksync.Syncer}
  {stop : Option ℤ} {start : ℤ} {queue : Queue} {before : List ℕ} {canceled : Bool}
  {db₀ db db' : DB} {call call' : SyncCall} {events new : List SyncEvent}

theorem StoredFrom.append (hfrom : StoredFrom db₀ db events) :
    StoredFrom db₀ db (events ++ new) := by
  intro k h hk hget
  rcases hfrom k h hk hget with hget | ⟨q, hq⟩
  · exact .inl hget
  · exact .inr ⟨q, List.mem_append_left _ hq⟩

theorem CallMove.cleans (hc : call.handler.Cleans)
    (hm : CallMove S answers cfg stop queue db call call' db' new) : call'.handler.Cleans := by
  cases hm with
  | getter a g _ _ => exact hc
  | mismatch g _ _ => exact hc
  | skip g _ _ _ _ _ _ => exact hc
  | hand block g _ _ _ _ _ _ _ => exact trivial
  | resume block g _ _ _ _ _ _ _ => exact trivial
  | abort err block g _ _ _ _ _ _ _ => exact trivial
  | handler x _ _ hm =>
    generalize call.handler = y at hm
    cases hm with
    | readBack block err => exact onlyDeletes_resetBlock db block.height
    | write block batch =>
      change (afterIndexing S queue block).Cleans
      unfold afterIndexing
      split_ifs <;> exact trivial
    | _ => exact trivial

theorem CallMove.storedFrom (hb : call.handler.BatchSound) (hc : call.handler.Cleans)
    (hfrom : StoredFrom db₀ db events)
    (hm : CallMove S answers cfg stop queue db call call' db' new) :
    StoredFrom db₀ db' (events ++ new) := by
  cases hm with
  | handler x _ _ hm =>
    generalize hh : call.handler = y at hm
    cases hm with
    | write block batch =>
      rw [hh] at hb
      intro k h hk hget
      by_cases hne : h = block.height
      · exact .inr ⟨queue, by simp [hne]⟩
      · rw [get?_applyBatch, hb.keeps k h hk hne] at hget
        exact hfrom.append k h hk hget
    | delete block err batch err' =>
      rw [hh] at hc
      intro k h hk hget
      exact hfrom.append k h hk (OnlyDeletes.get?_eq hc hget)
    | _ => exact hfrom.append
  | _ => exact hfrom.append

def HandsNew (db₀ : DB) (events : List SyncEvent) : Prop :=
  ∀ q, ∀ h ∈ handedHeights q events, ¬ ReportedIndexed db₀ h

theorem StoreInv.get?_of_reported (hst : StoreInv db₀ db events) (hnew : HandsNew db₀ events)
    {k : Key} {h : ℕ} (hk : k.height? = some h) (hrep : ReportedIndexed db₀ h) :
    db.get? k = db₀.get? k :=
  hst.untouched k h hk fun q hq => hnew q h hq hrep

/-- What a run reports as indexed was reported at the start, or the run has indexed it. -/
theorem reportedIndexed_cases (hst : StoreInv db₀ db events) (hfrom : StoredFrom db₀ db events)
    (hnew : HandsNew db₀ events) {h : ℕ} (hrep : ReportedIndexed db h) :
    ReportedIndexed db₀ h ∨ ∃ q, .indexed q h ∈ events := by
  rcases hrep with hmeta | ⟨hnone, x, i, hx⟩
  · exact (hfrom (.blockMeta h) h rfl hmeta).imp_left .inl
  · refine (hfrom (.txIndex h i) h rfl (by simp [hx])).imp_left fun hget => .inr ⟨?_, ?_⟩
    · -- a meta of the start would still be there
      intro n
      by_contra hn
      have hsome : (db₀.get? (.blockMeta n)).isSome := Option.ne_none_iff_isSome.mp hn
      have hkept := hst.get?_of_reported hnew (k := .blockMeta n) rfl (.inl hsome)
      exact hn (hkept ▸ hnone n)
    · obtain ⟨y, hy⟩ := Option.isSome_iff_exists.mp hget
      exact ⟨y, i, hy⟩

/-- **Indexing** a height does not take the head back: metas stay, and a first meta is above the
head of a store without metas. -/
theorem head_le_of_indexBatch (hst : StoreInv db₀ db events) (hfrom : StoredFrom db₀ db events)
    (hnew : HandsNew db₀ events) {h : ℕ} {batch : DBBatch} (hb : IndexBatch h batch)
    (hlegacy : (∀ n, db₀.get? (.blockMeta n) = none) → loadLastBlock db₀ ≤ h) :
    loadLastBlock db ≤ loadLastBlock (applyBatch batch db) := by
  have hown : ((applyBatch batch db).get? (.blockMeta h)).isSome := by
    obtain ⟨m, hm⟩ := hb.blockMeta
    simp [get?_applyBatch, hm]
  apply loadLastBlock_mono
  intro x hx
  by_cases hmeta : (db.get? (.blockMeta x)).isSome
  · refine ⟨x, le_rfl, .inl ?_⟩
    by_cases hne : x = h
    · exact hne ▸ hown
    · rwa [get?_applyBatch, hb.keeps (.blockMeta x) x rfl hne]
  · refine ⟨h, ?_, .inl hown⟩
    rcases reportedIndexed_cases hst hfrom hnew hx with hrep | ⟨q, hq⟩
    · -- a height of an old store, which has no metas
      have hnone : ∀ n, db₀.get? (.blockMeta n) = none := by
        rcases hrep with hsome | ⟨hnone, -⟩
        · have hkept := hst.get?_of_reported hnew (k := .blockMeta x) rfl (.inl hsome)
          exact absurd (hkept ▸ hsome) hmeta
        · exact hnone
      have hle := le_loadLastBlock hrep
      have hhead := hlegacy hnone
      omega
    · exact absurd (hst.indexed q x hq) hmeta

/-- **A deletion** does not take the head back: the height is not reported as indexed. -/
theorem head_le_of_deletion {h : ℕ} {batch : DBBatch} (hkeeps : KeepsOthers h batch)
    (hdel : OnlyDeletes batch) (hnot : ¬ ReportedIndexed db h) :
    loadLastBlock db ≤ loadLastBlock (applyBatch batch db) := by
  apply loadLastBlock_mono
  intro x hx
  have hne : x ≠ h := fun heq => hnot (heq ▸ hx)
  refine ⟨x, le_rfl, ?_⟩
  rcases hx with hmeta | ⟨hnone, y, i, hy⟩
  · exact .inl (by rwa [get?_applyBatch, hkeeps (.blockMeta x) x rfl hne])
  · refine .inr ⟨fun n => ?_, y, i, ?_⟩
    · rw [← Option.not_isSome_iff_eq_none]
      exact fun hn => by simpa [hnone n] using hdel.get?_eq hn
    · rwa [get?_applyBatch, hkeeps (.txIndex x i) x rfl hne]

theorem CallMove.head_le (hi : CallInv answers cfg stop start queue before canceled call events)
    (hb : call.handler.BatchSound) (hc : call.handler.Cleans) (hst : StoreInv db₀ db events)
    (hfrom : StoredFrom db₀ db events) (hnew : HandsNew db₀ events)
    (hlegacy : (∀ n, db₀.get? (.blockMeta n) = none) →
      ∀ h ∈ handedHeights queue events, loadLastBlock db₀ ≤ h)
    (hown : ∀ q h, .indexed q h ∈ events → h ∈ handedHeights queue events → q = queue)
    (hm : CallMove S answers cfg stop queue db call call' db' new) :
    loadLastBlock db ≤ loadLastBlock db' := by
  cases hm with
  | handler x _ _ hm =>
    generalize hh : call.handler = y at hm
    cases hm with
    | write block batch =>
      rw [hh] at hb
      have hhanded := (hi.height block (hi.current block (by rw [hh]; rfl))).2
      exact head_le_of_indexBatch hst hfrom hnew hb fun hnone => hlegacy hnone _ hhanded
    | delete block err batch err' =>
      rw [hh] at hb hc
      have hhanded := (hi.height block (hi.current block (by rw [hh]; rfl))).2
      refine head_le_of_deletion hb hc fun hrep => ?_
      rcases reportedIndexed_cases hst hfrom hnew hrep with hrep | ⟨q, hq⟩
      · exact hnew queue _ hhanded hrep
      · rw [hown q block.height hq hhanded] at hq
        exact hi.unwritten block (by rw [hh]; rfl) hq
    | _ => exact le_rfl
  | _ => exact le_rfl

end Calls

/-! ## Runs -/

/-- The head of the store is not above the head of the node, and a store without metas has no gap
below its head. -/
def Plan.HeadSafe (plan : Plan) (db : DB) : Prop :=
  loadLastBlock db ≤ plan.head ∧
    (db.metaHeights ≠ [] ∨ ∀ g ∈ plan.gaps, loadLastBlock db ≤ g.start)

section Runs

variable {S : Syncer} {answers : ℕ → FetchedBlock → Bool} {plan : Plan} {earliest : ℤ}
  {db₀ : DB} {s s' : RunState}

/-- What the store of a run has, and what is about to be deleted. -/
structure RunHeadInv (db₀ : DB) (s : RunState) : Prop where
  stored : StoredFrom db₀ s.db s.events
  gap : ∀ gap rest call, s.gap = .syncing gap rest call → call.handler.Cleans
  tip : ∀ call, s.tip = .syncing call → call.handler.Cleans

theorem RunMove.headInv (hst : RunStoreInv db₀ s) (hs : RunHeadInv db₀ s)
    (hm : RunMove S answers plan s s') : RunHeadInv db₀ s' := by
  cases hm with
  | gapsDone hq => exact ⟨hs.stored, fun _ _ _ hq => (by cases hq), hs.tip⟩
  | startGap gap rest hq =>
    refine ⟨hs.stored, ?_, hs.tip⟩
    rintro _ _ _ ⟨⟩
    exact trivial
  | gap gap rest call call' db' new hq hm =>
    have hc := hs.gap gap rest call hq
    refine ⟨hm.storedFrom (hst.gap gap rest call hq) hc hs.stored, ?_, hs.tip⟩
    rintro _ _ _ ⟨⟩
    exact hm.cleans hc
  | gapReturn gap rest call result hq hc =>
    refine ⟨hs.stored.append, ?_, hs.tip⟩
    by_cases hctx : result = .ctxErr <;> simp [hctx]
  | startTip hq =>
    refine ⟨hs.stored, hs.gap, ?_⟩
    rintro _ ⟨⟩
    exact trivial
  | tip call call' db' new hq hm =>
    have hc := hs.tip call hq
    refine ⟨hm.storedFrom (hst.tip call hq) hc hs.stored, hs.gap, ?_⟩
    rintro _ ⟨⟩
    exact hm.cleans hc
  | tipReturn call result hq hc => exact ⟨hs.stored.append, hs.gap, fun _ hq => (by cases hq)⟩
  | cancel =>
    refine ⟨hs.stored, ?_, ?_⟩
    · intro gap rest call hq
      obtain ⟨call', hgap, rfl⟩ := GapQueue.cancel_eq_syncing hq
      exact hs.gap gap rest call' hgap
    · intro call hq
      obtain ⟨call', htip, rfl⟩ := TipQueue.cancel_eq_syncing hq
      exact hs.tip call' htip

/-- The invariants of a run, together. -/
structure HeadRun (S : Syncer) (answers : ℕ → FetchedBlock → Bool) (plan : Plan) (db₀ : DB)
    (s : RunState) : Prop where
  run : RunInv S answers plan s
  store : RunStoreInv db₀ s
  head : RunHeadInv db₀ s

theorem RunReaches.headRun (hnode : HonestNode answers) (hplan : PlanSound plan earliest)
    (h : RunReaches S answers plan db₀ s) : HeadRun S answers plan db₀ s := by
  have hstart : RunHeadInv db₀ (plan.start db₀) :=
    ⟨fun _ _ _ hget => .inl hget, by simp [Plan.start], by simp [Plan.start]⟩
  refine ⟨h.inv hplan, h.storeInv hnode hplan, ?_⟩
  refine (Reachable.invariant
    (I := fun s => RunReaches S answers plan db₀ s ∧ RunHeadInv db₀ s) h ⟨.init, hstart⟩ ?_).2
  intro s s' a hs hstep
  exact ⟨hs.1.step a hstep, (runStep_move hstep).headInv (hs.1.storeInv hnode hplan) hs.2⟩

/-- The queues are handed heights that were not reported as indexed at the start. -/
theorem RunInv.handsNew {head : ℤ} (hplan : PlanSound (S.plan db₀ earliest head) earliest)
    (hsafe : loadLastBlock db₀ ≤ head)
    (hi : RunInv S answers (S.plan db₀ earliest head) s) : HandsNew db₀ s.events := by
  intro q h hh hrep
  cases q with
  | gap =>
    have hcov := (hi.gap_heights hplan).2 h hh
    exact ((Syncer.covered_plan hplan h).mp hcov).2 hrep
  | tip =>
    obtain ⟨n, hn⟩ := hi.tip_heights
    rw [hn] at hh
    have hge : (head + 1).toNat ≤ h := (List.mem_range'_1.mp hh).1
    have hlast := le_loadLastBlock hrep
    omega

/-- In a store without metas they are not below its head. -/
theorem RunInv.head_le_handed (hplan : PlanSound plan earliest) (hi : RunInv S answers plan s)
    (hsafe : plan.HeadSafe db₀) (hnone : ∀ n, db₀.get? (.blockMeta n) = none) (q : Queue) (h : ℕ)
    (hh : h ∈ handedHeights q s.events) : loadLastBlock db₀ ≤ h := by
  cases q with
  | gap =>
    obtain ⟨g, hg, hstart, -⟩ := (hi.gap_heights hplan).2 h hh
    have hnil : db₀.metaHeights = [] := by
      refine List.eq_nil_iff_forall_not_mem.mpr fun n hn => ?_
      simpa [hnone n] using DB.mem_metaHeights.mp hn
    have hgap := hsafe.2.resolve_left (by simp [hnil]) g hg
    omega
  | tip =>
    obtain ⟨n, hn⟩ := hi.tip_heights
    rw [hn] at hh
    have hge := (List.mem_range'_1.mp hh).1
    have hle := hsafe.1
    omega

/-- No action of a run takes the head back. -/
theorem RunMove.head_le {head : ℤ} (hplan : PlanSound (S.plan db₀ earliest head) earliest)
    (hsafe : (S.plan db₀ earliest head).HeadSafe db₀)
    (hs : HeadRun S answers (S.plan db₀ earliest head) db₀ s)
    (hm : RunMove S answers (S.plan db₀ earliest head) s s') :
    loadLastBlock s.db ≤ loadLastBlock s'.db := by
  have hnew := hs.run.handsNew hplan hsafe.1
  have hlegacy := hs.run.head_le_handed hplan hsafe
  have hgap := hs.run.gap
  have htip := hs.run.tip
  cases hm with
  | gap gap rest call call' db' new hq hm =>
    rw [hq] at hgap
    obtain ⟨done, before, -, -, hcall⟩ := hgap
    exact hm.head_le hcall (hs.store.gap gap rest call hq) (hs.head.gap gap rest call hq)
      hs.store.store hs.head.stored hnew (fun hnone => hlegacy hnone .gap)
      fun _ _ => hs.run.queue_of_indexed hplan
  | tip call call' db' new hq hm =>
    rw [hq] at htip
    exact hm.head_le htip (hs.store.tip call hq) (hs.head.tip call hq)
      hs.store.store hs.head.stored hnew (fun hnone => hlegacy hnone .tip)
      fun _ _ => hs.run.queue_of_indexed hplan
  | _ => exact le_rfl

/-- What `Run` sets the queues up with. -/
theorem Syncer.run_eq_plan {configured : ℤ} {status : NodeStatus} {probe : BlockProbe}
    (h : S.run configured status probe db₀ = .ok (some plan)) :
    ∃ earliest, PlanSound plan earliest ∧
      plan = S.plan db₀ earliest status.latestBlockHeight := by
  obtain ⟨earliest, hearliest, h⟩ := bind_eq_ok.mp h
  by_cases hlt : status.latestBlockHeight < earliest
  · rw [if_pos hlt] at h
    cases h
  · rw [if_neg hlt] at h
    obtain rfl := Option.some.inj (Except.ok.inj h)
    exact ⟨earliest, S.plan_sound db₀ (S.earliestBlock_pos hearliest) (not_lt.mp hlt), rfl⟩

end Runs

/-- **The advertised head** never goes back: between any two states of a run, whatever the
interleaving and the failures, if the store is not ahead of the node and an old store has no gap
below its head. -/
theorem head_never_goes_back (S : Syncer) (answers : ℕ → FetchedBlock → Bool) (configured : ℤ)
    (status : NodeStatus) (probe : BlockProbe) (db₀ : DB) (plan : Plan)
    (hrun : S.run configured status probe db₀ = .ok (some plan)) (hnode : HonestNode answers)
    (hsafe : plan.HeadSafe db₀) (s s' : RunState) (hs : RunReaches S answers plan db₀ s)
    (hlater : Reachable (runStep S answers plan) s s') :
    loadLastBlock s.db ≤ loadLastBlock s'.db := by
  obtain ⟨earliest, hplan, rfl⟩ := Syncer.run_eq_plan hrun
  refine (Reachable.invariant (I := fun t => RunReaches S answers _ db₀ t ∧
    loadLastBlock s.db ≤ loadLastBlock t.db) hlater ⟨hs, le_rfl⟩ ?_).2
  intro t t' a ⟨ht, hhead⟩ hstep
  have hstep_le := (runStep_move hstep).head_le hplan hsafe (ht.headRun hnode hplan)
  exact ⟨ht.step a hstep, hhead.trans hstep_le⟩

def fetchAndHandle (fetched : FetchedBlock) (handling : List HandlerAction) : List CallAction :=
  [.getter (.worker 0 .take), .getter (.worker 0 .check),
    .getter (.worker 0 (.fetched (.ok fetched))), .getter (.worker 0 .deposit),
    .getter (.announcer .check), .getter (.announcer .lookup), .getter (.announcer .send),
    .receive] ++ handling.map .handler

def indexBlockOne : List RunAction :=
  .nextGap :: (fetchAndHandle ⟨some { height := 1, hash := [1], txs := [] },
    some { height := 1, txResults := [] }⟩ [.read, .write none]).map .gap

/-- A start at height 1 with an empty store and a chain of three blocks, up to block 1. -/
theorem head_never_goes_back_three :
    ∃ s, perform (runStep sampleSyncer anyBlockOf ⟨[⟨1, 3⟩], 3, true⟩)
        (Plan.start ⟨[⟨1, 3⟩], 3, true⟩ ∅) indexBlockOne = some s ∧
      loadLastBlock ∅ ≤ loadLastBlock s.db := by
  have hnode : HonestNode anyBlockOf := by
    intro h fetched block hanswer hblock
    simpa [anyBlockOf, hblock] using hanswer
  have hlast : loadLastBlock ∅ = -1 := by decide +kernel
  have hsafe : Plan.HeadSafe ⟨[⟨1, 3⟩], 3, true⟩ ∅ := by
    rw [Plan.HeadSafe, hlast]
    exact ⟨by decide, .inr (by decide)⟩
  obtain ⟨s, hs⟩ := Option.isSome_iff_exists.mp (show (perform
    (runStep sampleSyncer anyBlockOf ⟨[⟨1, 3⟩], 3, true⟩) (Plan.start ⟨[⟨1, 3⟩], 3, true⟩ ∅)
      indexBlockOne).isSome by decide +kernel)
  exact ⟨s, hs, head_never_goes_back sampleSyncer anyBlockOf 0 ⟨0, 3, by decide⟩ .block ∅ _
    (by decide +kernel)
    hnode hsafe _ s .init (Reachable.init.perform hs)⟩

/-- A store of an old version, with one Ethereum transaction at height 2 and no metas. -/
def oldStore : DB := (∅ : DB).insert (.txIndex 2 0) 7

/-- The queue of the tip fails to index block 2, and cleans up. -/
def failBlockTwo : List RunAction :=
  .startTip :: (fetchAndHandle ⟨some (sampleBlock 2 [1]), none⟩ [.read, .read, .write none]).map .tip

/-- An old store at head 2.  With the node at 2, the first meta takes the head back to 1.  With the
node at 1, a failure of the tip takes the head away. -/
theorem head_goes_back :
    loadLastBlock oldStore = 2 ∧
      sampleSyncer.run 0 ⟨0, 2, by decide⟩ .block oldStore = .ok (some ⟨[⟨1, 1⟩], 2, true⟩) ∧
      (perform (runStep sampleSyncer anyBlockOf ⟨[⟨1, 1⟩], 2, true⟩)
        (Plan.start ⟨[⟨1, 1⟩], 2, true⟩ oldStore) indexBlockOne).map
          (fun s => loadLastBlock s.db) = some 1 ∧
      sampleSyncer.run 0 ⟨0, 1, by decide⟩ .block oldStore = .ok (some ⟨[⟨1, 1⟩], 1, true⟩) ∧
      (perform (runStep sampleSyncer anyBlockOf ⟨[⟨1, 1⟩], 1, true⟩)
        (Plan.start ⟨[⟨1, 1⟩], 1, true⟩ oldStore) failBlockTwo).map
          (fun s => loadLastBlock s.db) = some (-1) := by
  decide +kernel

end EvmGateway
