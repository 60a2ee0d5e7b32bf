import EvmGateway.Indexer.Lookup

/-!
# Blooms of stored blocks

The bloom of a stored block is the bloom of its stored log groups.  This holds after every history
of calls, also if blocks share hashes: the height-keyed collections of a height are those of the
block last indexed there, whatever the other heights hold.

* `get?_of_lastIndexed` — what a height holds after a history.
* `bloom_of_lastIndexed` — the stored bloom is the bloom of the stored groups.
-/

namespace EvmGateway

open Lib

variable {E : Env} {db : DB} {src : Source}

/-! ## What a height holds -/

/-- A call leaves the height-keyed records of the other heights alone. -/
theorem Call.get?_eq_of_exec {db' : DB} {c : Call} (h : c.exec E db = .ok db') {k : Key} {n : ℕ}
    (hk : k.height? = some n) (hne : c.resets ≠ some n) : db'.get? k = db.get? k := by
  have hdel : ∀ m, m ≠ n → (deleteBlock db m).get? k = db.get? k := by
    intro m hm
    refine get?_deleteBlock_of_not_touched fun ht => hm ?_
    cases k <;> simp_all [ResetTouches, Key.height?]
  cases c with
  | index kv block results =>
    have hheight : block.height ≠ n := fun hn => hne (congrArg some hn)
    obtain ⟨-, -, R, -, hblock, -, -, -, hget⟩ := indexBlock_ok h
    have hnone : R.get k = none := by
      refine BlockRecords.get_eq_none fun howns => hheight ?_
      rw [BlockRecords.height_of_owns howns hk, hblock]
    rw [hget, hnone, Option.none_or, hdel _ hheight]
  | delete m =>
    obtain rfl := Except.ok.inj h
    exact hdel m fun hm => hne (congrArg some hm)
  | cacheTxTrace | cacheBlockTrace =>
    obtain rfl := Except.ok.inj h
    exact get?_insert_trace db _ rfl (Key.isTrace_of_height? hk)

/-- **What a height holds** after a history is what the block last indexed there wrote. -/
theorem get?_of_lastIndexed {calls : List Call} (hrun : run (Call.exec E) ∅ calls = .ok db)
    {h : ℕ} (hsrc : lastIndexed calls h = some src) :
    ∃ R : BlockRecords, src.Yields E R ∧ R.block.height = h ∧
      ∀ k : Key, k.height? = some h → db.get? k = R.get k := by
  refine run_induction (fun calls db => ∀ h src, lastIndexed calls h = some src →
    ∃ R : BlockRecords, src.Yields E R ∧ R.block.height = h ∧
      ∀ k : Key, k.height? = some h → db.get? k = R.get k)
    ?_ ?_ hrun h src hsrc
  · intro h src hsrc
    cases hsrc
  · intro calls c db₁ db₂ _ ih hstep h src hsrc
    rw [lastIndexed_concat] at hsrc
    by_cases hc : c.resets = some h
    · cases c with
      | index kv block results =>
        obtain rfl : block.height = h := Option.some.inj hc
        obtain rfl : ⟨kv, block, results⟩ = src := by simpa [Call.record] using hsrc
        obtain ⟨ws, n, R, hws, hblock, hwrites, hmode, hshown, -⟩ := indexBlock_ok hstep
        subst hblock hwrites
        exact ⟨R, ⟨rfl, ⟨n, hws⟩, hmode, hshown⟩, rfl, (holds_of_indexBlock hstep hws).height⟩
      | delete m =>
        obtain rfl : m = h := Option.some.inj hc
        simp [Call.record] at hsrc
      | cacheTxTrace | cacheBlockTrace => cases hc
    · have hold : lastIndexed calls h = some src := by
        cases c with
        | index kv block results | delete m =>
          have hne : h ≠ _ := fun hh => hc (congrArg some hh.symm)
          rwa [Call.record, Function.update_of_ne hne] at hsrc
        | cacheTxTrace | cacheBlockTrace => exact hsrc
      obtain ⟨R, hR, hheight, hget⟩ := ih h src hold
      refine ⟨R, hR, hheight, fun k hk => ?_⟩
      rw [Call.get?_eq_of_exec hstep hk hc, hget k hk]

/-! ## Blooms -/

theorem Source.Yields.bloom {R : BlockRecords} (h : src.Yields E R) :
    R.blockMeta.bloom = hexutilEncode (virtualLogsBloom E R.logs.flatten) := by
  obtain ⟨n, hn⟩ := h.writes
  obtain ⟨st, root, hst, hws⟩ := exists_buildBlock hn
  obtain ⟨es, -, ht⟩ := buildBlock_tracks hst
  -- the loop state writes the same meta and the same groups
  have hwrites : R.writes =
      (ht.records E (blockBaseFeeFromResults E src.results) root).writes := by
    rw [hws, ht.writes_records]
  have hget : ∀ k, R.get k = (ht.records E (blockBaseFeeFromResults E src.results) root).get k := by
    intro k
    rw [BlockRecords.get, BlockRecords.get, hwrites]
  have hmeta : R.blockMeta =
      st.blockMeta E src.kv src.block (blockBaseFeeFromResults E src.results) root := by
    have hboth := hget (.blockMeta R.block.height)
    rw [BlockRecords.get_blockMeta, h.block] at hboth
    exact Option.some.inj (hboth.trans (BlockRecords.get_blockMeta _))
  have hlogs : R.logs = es.map (·.receipt.logs) := by
    have hboth := hget (.blockLogs R.block.height)
    rw [BlockRecords.get_blockLogs, h.block] at hboth
    exact Option.some.inj (hboth.trans (BlockRecords.get_blockLogs _))
  rw [hmeta, hlogs, IndexState.blockMeta, ht.flatLogs, ht.blockLogs]

/-- **The stored bloom** of a height is the bloom of its stored log groups. -/
theorem bloom_of_lastIndexed {calls : List Call} (hrun : run (Call.exec E) ∅ calls = .ok db)
    {h : ℕ} (hsrc : lastIndexed calls h = some src) :
    ∃ m groups, db.get? (.blockMeta h) = some m ∧ db.get? (.blockLogs h) = some groups ∧
      fromHex m.bloom = virtualLogsBloom E groups.flatten := by
  obtain ⟨R, hR, hheight, hget⟩ := get?_of_lastIndexed hrun hsrc
  refine ⟨R.blockMeta, R.logs, ?_, ?_, by rw [hR.bloom, fromHex_hexutilEncode]⟩
  · rw [hget _ rfl, ← hheight, BlockRecords.get_blockMeta]
  · rw [hget _ rfl, ← hheight, BlockRecords.get_blockLogs]

end EvmGateway
