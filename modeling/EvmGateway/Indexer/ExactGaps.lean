import EvmGateway.Indexer.Ranges

/-!
# Exact gaps

The scan and the walk of `Ranges` compute with unbounded heights.  Here they are written with
the arithmetic of the machine, and on heights below the largest `int64` the two agree
(`loadIndexedRanges64_eq`, `computeGaps64_eq`).  The ranges are not only disjoint: between two of
them at least one height is missing.

## Main definitions

* `Separated` — ascending ranges that do not touch.
* `loadIndexedRanges64`, `computeGaps64` — the functions with machine arithmetic.
-/

namespace EvmGateway

open Lib

variable {ranges : List BlockRange} {r : BlockRange} {stop cursor : ℤ} {heights : List ℕ}

/-! ## Separated ranges -/

/-- The ranges are ascending and two of them do not even touch. -/
structure Separated (ranges : List BlockRange) : Prop where
  nonempty : ∀ r ∈ ranges, r.start ≤ r.stop
  apart : ranges.Pairwise fun r r' => r.stop + 1 < r'.start

theorem separated_nil : Separated [] := ⟨List.forall_mem_nil _, .nil⟩

theorem separated_singleton (h : r.start ≤ r.stop) : Separated [r] :=
  ⟨by simpa using h, List.pairwise_singleton ..⟩

theorem separated_cons :
    Separated (r :: ranges) ↔
      r.start ≤ r.stop ∧ (∀ r' ∈ ranges, r.stop + 1 < r'.start) ∧ Separated ranges := by
  constructor
  · rintro ⟨hne, hapart⟩
    obtain ⟨hfirst, hrest⟩ := List.forall_mem_cons.mp hne
    obtain ⟨hbefore, hapart⟩ := List.pairwise_cons.mp hapart
    exact ⟨hfirst, hbefore, hrest, hapart⟩
  · rintro ⟨hfirst, hbefore, hne, hapart⟩
    exact ⟨List.forall_mem_cons.mpr ⟨hfirst, hne⟩, List.pairwise_cons.mpr ⟨hbefore, hapart⟩⟩

theorem Separated.concat (h : Separated ranges) (hr : r.start ≤ r.stop)
    (hbefore : ∀ r' ∈ ranges, r'.stop + 1 < r.start) :
    Separated (ranges ++ [r]) where
  nonempty := List.forall_mem_append.mpr ⟨h.nonempty, by simpa using hr⟩
  apart := by
    refine List.pairwise_append.mpr ⟨h.apart, List.pairwise_singleton .., fun r' hr' _ hmem => ?_⟩
    rw [List.mem_singleton.mp hmem]
    exact hbefore r' hr'

/-! ## The scan -/

structure RangeScan.Apart (s : RangeScan) : Prop where
  ranges : Separated s.ranges
  current : s.lastBlock ≠ -1 → s.current.start ≤ s.current.stop ∧ s.current.stop = s.lastBlock
  before : s.lastBlock ≠ -1 → ∀ r ∈ s.ranges, r.stop + 1 < s.current.start
  fresh : s.lastBlock = -1 → s.ranges = []

theorem RangeScan.Apart.next {s : RangeScan} (hs : s.Apart) {height : ℤ} (hle : s.lastBlock ≤ height)
    (hpos : 0 ≤ height) : (s.next height).Apart := by
  have hheight : height ≠ -1 := by omega
  unfold RangeScan.next
  by_cases hsame : height = s.lastBlock
  · rwa [if_pos hsame]
  rw [if_neg hsame]
  by_cases hfresh : s.lastBlock = -1
  · rw [if_pos hfresh]
    have hnil := hs.fresh hfresh
    refine ⟨hs.ranges, fun _ => ⟨le_rfl, rfl⟩, fun _ r hr => ?_, fun h => absurd h hheight⟩
    rw [hnil] at hr
    cases hr
  rw [if_neg hfresh]
  obtain ⟨hcur, hstop⟩ := hs.current hfresh
  have hbefore := hs.before hfresh
  by_cases hnext : height = s.lastBlock + 1
  · -- the range goes on
    rw [if_pos hnext]
    refine ⟨hs.ranges, fun _ => ⟨?_, rfl⟩, fun _ => hbefore, fun h => absurd h hheight⟩
    simp only
    omega
  · -- a height is missing before the new range
    rw [if_neg hnext]
    refine ⟨hs.ranges.concat hcur hbefore, fun _ => ⟨le_rfl, rfl⟩, fun _ r hr => ?_,
      fun h => absurd h hheight⟩
    simp only
    rcases List.mem_append.mp hr with hr | hr
    · have := hbefore r hr
      omega
    · rw [List.mem_singleton.mp hr]
      omega

def RangeScan.next64 (s : RangeScan) (height : ℤ) : RangeScan :=
  if height = s.lastBlock then s
  else if s.lastBlock = -1 then { s with current := ⟨height, height⟩, lastBlock := height }
  else if height = wrap64 (s.lastBlock + 1) then
    { s with current := { s.current with stop := height }, lastBlock := height }
  else
    { ranges := s.ranges ++ [s.current], current := ⟨height, height⟩, lastBlock := height }

/-- Group heights into ranges, with machine arithmetic. -/
def scanRanges64 (heights : List ℕ) : RangeScan :=
  heights.foldl (fun (s : RangeScan) (h : ℕ) => s.next64 h) {}

/-- `LoadIndexedRanges` with machine arithmetic. -/
def loadIndexedRanges64 (db : DB) : List BlockRange :=
  if (scanRanges64 db.metaHeights).lastBlock ≠ -1 then (scanRanges64 db.metaHeights).found
  else (scanRanges64 db.txIndexHeights).found

theorem RangeScan.next64_eq {s : RangeScan} {height : ℤ} (h : InInt64 (s.lastBlock + 1)) :
    s.next64 height = s.next height := by
  unfold RangeScan.next64 RangeScan.next
  rw [wrap64_eq_self h]

theorem lastBlock_next (s : RangeScan) (height : ℤ) : (s.next height).lastBlock = height := by
  unfold RangeScan.next
  split_ifs with hsame <;> first | exact hsame.symm | rfl

theorem lastBlock_scanRanges_concat (heights : List ℕ) (h : ℕ) :
    (scanRanges (heights ++ [h])).lastBlock = h := by
  rw [scanRanges, List.foldl_append]
  exact lastBlock_next _ _

theorem lastBlock_scanRanges_le {n : ℕ} (h : ∀ k ∈ heights, k ≤ n) :
    (scanRanges heights).lastBlock ≤ n ∧ -1 ≤ (scanRanges heights).lastBlock := by
  induction heights using List.reverseRecOn with
  | nil => exact ⟨by simp only [scanRanges, List.foldl_nil]; omega, le_rfl⟩
  | append_singleton heights k _ =>
    have hk := h k (by simp)
    rw [lastBlock_scanRanges_concat]
    omega

theorem scanRanges64_eq (h : ∀ k ∈ heights, k ≤ 2 ^ 63 - 2) :
    scanRanges64 heights = scanRanges heights := by
  induction heights using List.reverseRecOn with
  | nil => rfl
  | append_singleton heights k ih =>
    have hbefore : ∀ j ∈ heights, j ≤ 2 ^ 63 - 2 := fun j hj => h j (by simp [hj])
    have hlast := lastBlock_scanRanges_le hbefore
    have hscan : scanRanges64 (heights ++ [k]) = (scanRanges64 heights).next64 k := by
      rw [scanRanges64, List.foldl_append]
      rfl
    have hideal : scanRanges (heights ++ [k]) = (scanRanges heights).next k := by
      rw [scanRanges, List.foldl_append]
      rfl
    rw [hscan, hideal, ih hbefore]
    exact RangeScan.next64_eq ⟨by omega, by omega⟩

theorem scanRanges_apart (hsorted : heights.Pairwise (· ≤ ·)) :
    (scanRanges heights).Apart := by
  induction heights using List.reverseRecOn with
  | nil => exact ⟨separated_nil, fun h => absurd rfl h, fun h => absurd rfl h, fun _ => rfl⟩
  | append_singleton heights h ih =>
    obtain ⟨hsorted, -, hle⟩ := List.pairwise_append.mp hsorted
    have hlast := lastBlock_scanRanges_le fun k hk => hle k hk h (List.mem_singleton_self h)
    rw [scanRanges, List.foldl_append]
    exact (ih hsorted).next hlast.1 (Int.natCast_nonneg h)

theorem RangeScan.Apart.found {s : RangeScan} (hs : s.Apart) : Separated s.found := by
  unfold RangeScan.found
  split_ifs with h
  · exact hs.ranges.concat (hs.current h).1 (hs.before h)
  · exact separated_nil

theorem loadIndexedRanges_separated (db : DB) : Separated (loadIndexedRanges db) := by
  unfold loadIndexedRanges
  split_ifs
  · exact (scanRanges_apart db.metaHeights_sorted).found
  · exact (scanRanges_apart db.txIndexHeights_sorted).found

theorem loadIndexedRanges64_eq {db : DB} (h : ∀ n, db.HasHeight n → n ≤ 2 ^ 63 - 2) :
    loadIndexedRanges64 db = loadIndexedRanges db := by
  have hmeta := scanRanges64_eq fun k hk => h k (.inl (DB.mem_metaHeights.mp hk))
  have htxIndex := scanRanges64_eq fun k hk => h k (.inr (DB.mem_txIndexHeights.mp hk))
  rw [loadIndexedRanges64, loadIndexedRanges, hmeta, htxIndex]

/-! ## The walk -/

/-- The gap before a range, with machine arithmetic. -/
def gapBefore64 (stop cursor : ℤ) (r : BlockRange) : List BlockRange :=
  if cursor < r.start then
    if cursor ≤ min (wrap64 (r.start - 1)) stop then [⟨cursor, min (wrap64 (r.start - 1)) stop⟩]
    else []
  else []

/-- Walk over the ranges from a cursor, with machine arithmetic. -/
def gapLoop64 (stop : ℤ) : List BlockRange → ℤ → List BlockRange
  | [], cursor => closeGap stop cursor
  | r :: ranges, cursor =>
    if r.stop < cursor then gapLoop64 stop ranges cursor
    else if stop < r.start then closeGap stop cursor
    else if stop < max cursor (wrap64 (r.stop + 1)) then
      gapBefore64 stop cursor r ++ closeGap stop (max cursor (wrap64 (r.stop + 1)))
    else gapBefore64 stop cursor r ++ gapLoop64 stop ranges (max cursor (wrap64 (r.stop + 1)))

/-- `ComputeGaps` with machine arithmetic. -/
def computeGaps64 (start stop : ℤ) (ranges : List BlockRange) : List BlockRange :=
  if stop < start then []
  else if ranges.isEmpty then [⟨start, stop⟩]
  else gapLoop64 stop (ranges.mergeSort fun r r' => r.start ≤ r'.start) start

theorem gapBefore64_eq (hcursor : -2 ^ 63 ≤ cursor) (hr : InInt64 r.start) :
    gapBefore64 stop cursor r = gapBefore stop cursor r := by
  unfold gapBefore64 gapBefore
  by_cases hlt : cursor < r.start
  · have hstart := hr.2
    rw [wrap64_eq_self ⟨by omega, by omega⟩]
  · rw [if_neg hlt, if_neg hlt]

/-- The ranges are in the type, and so are the heights after them. -/
def BlockRange.Fits (r : BlockRange) : Prop := InInt64 r.start ∧ r.start ≤ r.stop ∧ r.stop < maxInt64

theorem BlockRange.Fits.wrap64_stop (h : r.Fits) :
    wrap64 (r.stop + 1) = r.stop + 1 := by
  obtain ⟨hstart, hle, hstop⟩ := h
  have := hstart.1
  rw [maxInt64] at hstop
  exact wrap64_eq_self ⟨by omega, by omega⟩

theorem gapLoop64_eq (h : ∀ r ∈ ranges, r.Fits) (hcursor : -2 ^ 63 ≤ cursor) :
    gapLoop64 stop ranges cursor = gapLoop stop ranges cursor := by
  induction ranges generalizing cursor with
  | nil => rfl
  | cons r ranges ih =>
    have hr := h r List.mem_cons_self
    have ih := fun {c : ℤ} => @ih c fun r' hr' => h r' (List.mem_cons_of_mem _ hr')
    unfold gapLoop64 gapLoop
    rw [hr.wrap64_stop, gapBefore64_eq hcursor hr.1, ih hcursor,
      ih (hcursor.trans (le_max_left _ _))]

theorem computeGaps64_eq {start : ℤ} (stop : ℤ) (hstart : InInt64 start)
    (h : ∀ r ∈ ranges, r.Fits) :
    computeGaps64 start stop ranges = computeGaps start stop ranges := by
  unfold computeGaps64 computeGaps
  rw [gapLoop64_eq (fun r hr => h r ((List.mergeSort_perm _ _).mem_iff.mp hr)) hstart.1]

theorem closeGap_separated (stop cursor : ℤ) : Separated (closeGap stop cursor) := by
  unfold closeGap
  split_ifs with h
  · exact separated_singleton h
  · exact separated_nil

theorem separated_gapBefore_append {gaps : List BlockRange} (hr : r.start ≤ r.stop)
    (hgaps : Separated gaps) (hafter : ∀ g ∈ gaps, r.stop + 1 ≤ g.start) :
    Separated (gapBefore stop cursor r ++ gaps) := by
  unfold gapBefore
  split_ifs with hbefore hne
  · refine separated_cons.mpr ⟨hne, fun g hg => ?_, hgaps⟩
    have hstart := hafter g hg
    have hmin := min_le_left (r.start - 1) stop
    simp only
    omega
  · exact hgaps
  · exact hgaps

theorem gapLoop_separated (hsorted : ranges.Pairwise fun r r' => r.start ≤ r'.start)
    (hvalid : ∀ r ∈ ranges, r.start ≤ r.stop) (cursor : ℤ) :
    Separated (gapLoop stop ranges cursor) := by
  induction ranges generalizing cursor with
  | nil => exact closeGap_separated stop cursor
  | cons r ranges ih =>
    obtain ⟨-, hsorted⟩ := List.pairwise_cons.mp hsorted
    have hr := hvalid r List.mem_cons_self
    have hrest : ∀ r' ∈ ranges, r'.start ≤ r'.stop := fun r' hr' =>
      hvalid r' (List.mem_cons_of_mem _ hr')
    unfold gapLoop
    split_ifs with hpast hbeyond hend
    · exact ih hsorted hrest cursor
    · exact closeGap_separated stop cursor
    · refine separated_gapBefore_append hr (closeGap_separated _ _) fun g hg => ?_
      have hclose : closeGap stop (max cursor (r.stop + 1)) = [] := if_neg (by omega)
      rw [hclose] at hg
      cases hg
    · refine separated_gapBefore_append hr (ih hsorted hrest _) fun g hg => ?_
      exact (le_max_right _ _).trans ((gapLoop_gapsFrom hsorted hrest _).within g hg).1

theorem computeGaps_separated (start stop : ℤ) (hvalid : ∀ r ∈ ranges, r.start ≤ r.stop) :
    Separated (computeGaps start stop ranges) := by
  unfold computeGaps
  split_ifs with hlt hempty
  · exact separated_nil
  · exact separated_singleton (not_lt.mp hlt)
  · exact gapLoop_separated (pairwise_start_mergeSort ranges)
      (fun r hr => hvalid r ((List.mergeSort_perm _ _).mem_iff.mp hr)) start

/-- **Gaps are exact.** The loaded ranges are separated and hold exactly the reported heights of
the store, and the gaps of an interval are separated and hold exactly its heights that are in no
range. -/
theorem ranges_and_gaps_exact :
    (∀ db : DB, (∀ n, db.HasHeight n → n ≤ 2 ^ 63 - 2) →
      Separated (loadIndexedRanges64 db) ∧
        ∀ x, Covered (loadIndexedRanges64 db) x ↔ ∃ h : ℕ, ReportedIndexed db h ∧ (h : ℤ) = x) ∧
    ∀ (start stop : ℤ) (ranges : List BlockRange), InInt64 start → InInt64 stop →
      (∀ r ∈ ranges, r.Fits) →
        Separated (computeGaps64 start stop ranges) ∧
          ∀ x, Covered (computeGaps64 start stop ranges) x ↔
            start ≤ x ∧ x ≤ stop ∧ ¬ Covered ranges x := by
  constructor
  · intro db h
    rw [loadIndexedRanges64_eq h]
    exact ⟨loadIndexedRanges_separated db, covered_loadIndexedRanges db⟩
  · intro start stop ranges hstart _ h
    have hvalid : ∀ r ∈ ranges, r.start ≤ r.stop := fun r hr => (h r hr).2.1
    rw [computeGaps64_eq stop hstart h]
    have hgaps := computeGaps_gapsFrom start stop hvalid
    refine ⟨computeGaps_separated start stop hvalid, fun x => ?_⟩
    constructor
    · rintro ⟨g, hg, hx⟩
      have hwithin := hgaps.within g hg
      have hlow := hwithin.1.trans hx.1
      have hhigh := hx.2.trans hwithin.2
      exact ⟨hlow, hhigh, (hgaps.covered x hlow hhigh).mp ⟨g, hg, hx⟩⟩
    · rintro ⟨hlow, hhigh, hx⟩
      exact (hgaps.covered x hlow hhigh).mpr hx

/-- A store of an old version: two heights with transactions, no meta. -/
def legacyStore : DB := ((∅ : DB).insert (.txIndex 4 0) 8).insert (.txIndex 3 0) 7

theorem ranges_and_gaps_exact_sample :
    Separated (loadIndexedRanges64 legacyStore) ∧
      (∀ x, Covered (computeGaps64 1 9 [⟨7, 8⟩, ⟨2, 4⟩, ⟨3, 5⟩]) x ↔
        1 ≤ x ∧ x ≤ 9 ∧ ¬ Covered [⟨7, 8⟩, ⟨2, 4⟩, ⟨3, 5⟩] x) ∧
      loadIndexedRanges64 legacyStore = [⟨3, 4⟩] := by
  have hstore := ranges_and_gaps_exact.1 legacyStore (by
    rintro n (hmeta | htx)
    · rw [← DB.mem_metaHeights] at hmeta
      exact absurd hmeta (by
        rw [show legacyStore.metaHeights = [] from rfl]
        exact List.not_mem_nil)
    · rw [← DB.mem_txIndexHeights, show legacyStore.txIndexHeights = [3, 4] from rfl] at htx
      rcases List.mem_pair.mp htx with rfl | rfl <;> norm_num)
  have hgaps := ranges_and_gaps_exact.2 1 9 [⟨7, 8⟩, ⟨2, 4⟩, ⟨3, 5⟩] (by decide) (by decide) (by
    intro r hr
    simp only [List.mem_cons, List.not_mem_nil, or_false] at hr
    rcases hr with rfl | rfl | rfl <;> exact ⟨by decide, by decide, by decide⟩)
  exact ⟨hstore.1, hgaps.2, rfl⟩

end EvmGateway
