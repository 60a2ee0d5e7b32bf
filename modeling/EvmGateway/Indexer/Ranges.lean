import EvmGateway.Indexer.Reset
import EvmGateway.Lib.Int64

/-!
# Indexed ranges and gaps

At its start the syncer asks the store which heights it has, as ranges, and computes what is
missing between the earliest height and the head.  The scan over the block metas groups equal
and consecutive heights; a store without any meta is scanned by its transaction index instead.

Heights are nonnegative and below the largest `int64`, so that neither the step to the height
after a range nor the one before it leaves the type.  Only the targets of a resync come from the
command line and may reach it: their normalization is written with the arithmetic of the type.

* `covered_loadIndexedRanges` — the ranges contain exactly the heights of the store.
* `covered_computeGaps` — the gaps contain exactly the other heights of the interval, and they
  are ascending and disjoint.
-/

namespace EvmGateway

open Lib

variable {ranges : List BlockRange} {stop : ℤ} {h : ℕ}

/-- An inclusive range of block heights. -/
structure BlockRange where
  start : ℤ
  stop : ℤ
  deriving DecidableEq

/-- The height is in the range. -/
def BlockRange.Contains (r : BlockRange) (h : ℤ) : Prop := r.start ≤ h ∧ h ≤ r.stop

/-- The height is in some range. -/
def Covered (ranges : List BlockRange) (h : ℤ) : Prop := ∃ r ∈ ranges, r.Contains h

@[simp] theorem not_covered_nil (h : ℤ) : ¬ Covered [] h := by simp [Covered]

@[simp] theorem covered_cons {r : BlockRange} {h : ℤ} :
    Covered (r :: ranges) h ↔ r.Contains h ∨ Covered ranges h := by
  simp [Covered]

@[simp] theorem covered_append {l l' : List BlockRange} {h : ℤ} :
    Covered (l ++ l') h ↔ Covered l h ∨ Covered l' h := by
  simp [Covered, or_and_right, exists_or]

/-- The ranges are ascending and have no height in common. -/
structure Ascending (ranges : List BlockRange) : Prop where
  nonempty : ∀ r ∈ ranges, r.start ≤ r.stop
  apart : ranges.Pairwise fun r r' => r.stop < r'.start

/-! ## Loading the indexed ranges -/

/-- The local variables of the scan. -/
structure RangeScan where
  ranges : List BlockRange := []
  lastBlock : ℤ := -1
  current : BlockRange := ⟨0, 0⟩

def RangeScan.next (s : RangeScan) (height : ℤ) : RangeScan :=
  if height = s.lastBlock then s
  else if s.lastBlock = -1 then { s with current := ⟨height, height⟩, lastBlock := height }
  else if height = s.lastBlock + 1 then
    { s with current := { s.current with stop := height }, lastBlock := height }
  else
    { ranges := s.ranges ++ [s.current], current := ⟨height, height⟩, lastBlock := height }

def scanRanges (heights : List ℕ) : RangeScan :=
  heights.foldl (fun (s : RangeScan) (h : ℕ) => s.next h) {}

def RangeScan.found (s : RangeScan) : List BlockRange :=
  if s.lastBlock ≠ -1 then s.ranges ++ [s.current] else []

def loadIndexedRanges (db : DB) : List BlockRange :=
  if (scanRanges db.metaHeights).lastBlock ≠ -1 then (scanRanges db.metaHeights).found
  else (scanRanges db.txIndexHeights).found

structure RangeScan.Scanned (s : RangeScan) (heights : List ℕ) : Prop where
  fresh : s.lastBlock = -1 → s.ranges = [] ∧ heights = []
  last : s.lastBlock ≠ -1 → ∃ h ∈ heights, (h : ℤ) = s.lastBlock
  current : s.lastBlock ≠ -1 → s.current.start ≤ s.current.stop ∧ s.current.stop = s.lastBlock
  before : s.lastBlock ≠ -1 → ∀ r ∈ s.ranges, r.stop < s.current.start
  ascending : Ascending s.ranges
  covered : ∀ x : ℤ, Covered s.found x ↔ ∃ h ∈ heights, (h : ℤ) = x

theorem RangeScan.found_of_ne {s : RangeScan} (h : s.lastBlock ≠ -1) :
    s.found = s.ranges ++ [s.current] := if_pos h

theorem Ascending.concat {r : BlockRange} (hasc : Ascending ranges) (hr : r.start ≤ r.stop)
    (hbefore : ∀ r' ∈ ranges, r'.stop < r.start) :
    Ascending (ranges ++ [r]) where
  nonempty := by
    intro r' hr'
    rcases List.mem_append.mp hr' with h | h
    · exact hasc.nonempty r' h
    · rw [List.mem_singleton.mp h]
      exact hr
  apart := by
    rw [List.pairwise_append]
    exact ⟨hasc.apart, List.pairwise_singleton .., fun r' hr' _ h => by
      rw [List.mem_singleton.mp h]
      exact hbefore r' hr'⟩

/-- Scanning a height that is not below the ones before it. -/
theorem RangeScan.Scanned.next {s : RangeScan} {heights : List ℕ} {h : ℕ}
    (hs : s.Scanned heights) (hle : ∀ x ∈ heights, x ≤ h) : (s.next h).Scanned (heights ++ [h]) := by
  have hmem : ∀ x : ℤ, (∃ k ∈ heights ++ [h], (k : ℤ) = x) ↔ (∃ k ∈ heights, (k : ℤ) = x) ∨ x =
      h := by
    intro x
    simp [or_and_right, exists_or, @eq_comm ℤ x]
  unfold RangeScan.next
  by_cases hsame : (h : ℤ) = s.lastBlock
  · -- a height seen before
    rw [if_pos hsame]
    have hne : s.lastBlock ≠ -1 := by omega
    refine ⟨fun hx => absurd hx hne, fun _ => ⟨h, by simp, hsame⟩, hs.current, hs.before,
      hs.ascending, fun x => ?_⟩
    rw [hmem, hs.covered]
    constructor
    · exact .inl
    · rintro (hx | rfl)
      · exact hx
      · obtain ⟨k, hk, heq⟩ := hs.last hne
        exact ⟨k, hk, by omega⟩
  rw [if_neg hsame]
  by_cases hfresh : s.lastBlock = -1
  · -- the first height
    rw [if_pos hfresh]
    obtain ⟨hranges, rfl⟩ := hs.fresh hfresh
    refine ⟨fun hx => ?_, fun _ => ⟨h, by simp, rfl⟩, fun _ => ⟨le_rfl, rfl⟩, ?_, hs.ascending, ?_⟩
    · simp only at hx
      omega
    · simp [hranges]
    · intro x
      rw [RangeScan.found_of_ne (by simp only; omega), hmem]
      simp only [hranges, List.nil_append, covered_cons, not_covered_nil, BlockRange.Contains,
        List.not_mem_nil, false_and, exists_false, or_false, false_or]
      omega
  rw [if_neg hfresh]
  obtain ⟨hcur, hstop⟩ := hs.current hfresh
  obtain ⟨k, hk, hkeq⟩ := hs.last hfresh
  have hkh := hle k hk
  have hcov := hs.covered
  rw [RangeScan.found_of_ne hfresh] at hcov
  by_cases hnext : (h : ℤ) = s.lastBlock + 1
  · -- the range goes on
    rw [if_pos hnext]
    refine ⟨fun hx => ?_, fun _ => ⟨h, by simp, rfl⟩, fun _ => ⟨?_, rfl⟩, fun _ => hs.before hfresh,
      hs.ascending, ?_⟩
    · simp only at hx
      omega
    · simp only
      omega
    · intro x
      rw [RangeScan.found_of_ne (by simp only; omega), hmem, ← hcov]
      simp only [covered_append, covered_cons, not_covered_nil, BlockRange.Contains, or_false,
        or_assoc]
      refine or_congr_right ?_
      omega
  · -- a new range
    rw [if_neg hnext]
    refine ⟨fun hx => ?_, fun _ => ⟨h, by simp, rfl⟩, fun _ => ⟨le_rfl, rfl⟩, fun _ r hr => ?_,
      hs.ascending.concat hcur (hs.before hfresh), ?_⟩
    · simp only at hx
      omega
    · simp only
      rcases List.mem_append.mp hr with hr | hr
      · have := hs.before hfresh r hr
        omega
      · rw [List.mem_singleton.mp hr]
        omega
    · intro x
      rw [RangeScan.found_of_ne (by simp only; omega), hmem, ← hcov]
      simp only [covered_append, covered_cons, not_covered_nil, BlockRange.Contains, or_false]
      refine or_congr_right ?_
      omega

theorem scanRanges_scanned {heights : List ℕ} (hsorted : heights.Pairwise (· ≤ ·)) :
    (scanRanges heights).Scanned heights := by
  induction heights using List.reverseRecOn with
  | nil => exact ⟨fun _ => ⟨rfl, rfl⟩, by simp [scanRanges], by simp [scanRanges],
      by simp [scanRanges], ⟨by simp [scanRanges], by simp [scanRanges]⟩,
      by simp [scanRanges, RangeScan.found]⟩
  | append_singleton heights h ih =>
    rw [List.pairwise_append] at hsorted
    rw [scanRanges, List.foldl_append]
    exact (ih hsorted.1).next fun x hx => hsorted.2.2 x hx h (by simp)

theorem RangeScan.Scanned.ascending_found {s : RangeScan} {heights : List ℕ}
    (hs : s.Scanned heights) : Ascending s.found := by
  unfold RangeScan.found
  split_ifs with h
  · exact hs.ascending.concat (hs.current h).1 (hs.before h)
  · exact ⟨by simp, by simp⟩

theorem Key.subject_le_of_cmp {k k' : Key} (h : Key.cmp k k' = .lt)
    (hc : k.collection = k'.collection) : k.subject ≤ k'.subject := by
  by_contra hlt
  have hgt : compare k.subject k'.subject = .gt := compare_gt_iff_gt.mpr (not_le.mp hlt)
  simp [Key.cmp, compareLex, compareOn, hc, hgt] at h

/-- The scan over the metas meets the heights in ascending order. -/
theorem DB.metaHeights_sorted (db : DB) : db.metaHeights.Pairwise (· ≤ ·) := by
  refine pairwise_collect fun k k' v v' b b' hlt hb hb' => ?_
  cases k with
  | blockMeta h =>
    cases k' with
    | blockMeta h' =>
      obtain rfl := Option.some.inj hb
      obtain rfl := Option.some.inj hb'
      exact Key.subject_le_of_cmp hlt rfl
    | _ => cases hb'
  | _ => cases hb

/-- The scan over the transaction index meets the heights in ascending order. -/
theorem DB.txIndexHeights_sorted (db : DB) : db.txIndexHeights.Pairwise (· ≤ ·) := by
  refine pairwise_collect fun k k' v v' b b' hlt hb hb' => ?_
  cases k with
  | txIndex h i =>
    cases k' with
    | txIndex h' i' =>
      obtain rfl := Option.some.inj hb
      obtain rfl := Option.some.inj hb'
      exact Key.subject_le_of_cmp hlt rfl
    | _ => cases hb'
  | _ => cases hb

theorem DB.mem_metaHeights {db : DB} :
    h ∈ db.metaHeights ↔ (db.get? (.blockMeta h)).isSome := by
  rw [metaHeights, mem_collect, Option.isSome_iff_exists]
  constructor
  · rintro ⟨k, v, hv, hp⟩
    cases k with
    | blockMeta n =>
      obtain rfl : n = h := by simpa using hp
      exact ⟨v, hv⟩
    | _ => simp at hp
  · rintro ⟨v, hv⟩
    exact ⟨.blockMeta h, v, hv, rfl⟩

theorem DB.mem_txIndexHeights {db : DB} :
    h ∈ db.txIndexHeights ↔ ∃ x, EthIndexed db h x := by
  rw [txIndexHeights, mem_collect]
  constructor
  · rintro ⟨k, v, hv, hp⟩
    cases k with
    | txIndex n i =>
      obtain rfl : n = h := by simpa using hp
      exact ⟨v, i, hv⟩
    | _ => simp at hp
  · rintro ⟨x, i, hx⟩
    exact ⟨.txIndex h i, x, hx, rfl⟩

/-- The heights the store reports as indexed: those with a meta or, if there is no meta at
all, those with an Ethereum transaction. -/
def ReportedIndexed (db : DB) (h : ℕ) : Prop :=
  (db.get? (.blockMeta h)).isSome ∨ (∀ n, db.get? (.blockMeta n) = none) ∧ ∃ x, EthIndexed db h x

theorem loadIndexedRanges_ascending (db : DB) : Ascending (loadIndexedRanges db) := by
  unfold loadIndexedRanges
  split_ifs
  · exact (scanRanges_scanned db.metaHeights_sorted).ascending_found
  · exact (scanRanges_scanned db.txIndexHeights_sorted).ascending_found

/-- **The loaded ranges** contain exactly the heights that are reported as indexed. -/
theorem covered_loadIndexedRanges (db : DB) (x : ℤ) :
    Covered (loadIndexedRanges db) x ↔ ∃ h : ℕ, ReportedIndexed db h ∧ (h : ℤ) = x := by
  have hmeta := scanRanges_scanned db.metaHeights_sorted
  unfold loadIndexedRanges
  split_ifs with hne
  · rw [hmeta.covered]
    refine exists_congr fun h => and_congr_left fun _ => ?_
    rw [DB.mem_metaHeights]
    constructor
    · exact .inl
    · rintro (h | ⟨hnone, -⟩)
      · exact h
      · obtain ⟨k, hk, -⟩ := hmeta.last hne
        rw [DB.mem_metaHeights, hnone k] at hk
        cases hk
  · have hnil := (hmeta.fresh (not_not.mp hne)).2
    have hnone : ∀ n, db.get? (.blockMeta n) = none := by
      intro n
      rw [← Option.not_isSome_iff_eq_none, ← DB.mem_metaHeights, hnil]
      simp
    rw [(scanRanges_scanned db.txIndexHeights_sorted).covered]
    refine exists_congr fun h => and_congr_left fun _ => ?_
    rw [DB.mem_txIndexHeights, ReportedIndexed, hnone h]
    simp [hnone]

/-! ## Computing the gaps -/

/-- The last gap: what is left after all ranges. -/
def closeGap (stop cursor : ℤ) : List BlockRange :=
  if cursor ≤ stop then [⟨cursor, stop⟩] else []

def gapBefore (stop cursor : ℤ) (r : BlockRange) : List BlockRange :=
  if cursor < r.start then
    if cursor ≤ min (r.start - 1) stop then [⟨cursor, min (r.start - 1) stop⟩] else []
  else []

/-- Walk over the ranges from a cursor. -/
def gapLoop (stop : ℤ) : List BlockRange → ℤ → List BlockRange
  | [], cursor => closeGap stop cursor
  | r :: ranges, cursor =>
    if r.stop < cursor then gapLoop stop ranges cursor
    else if stop < r.start then closeGap stop cursor
    else if stop < max cursor (r.stop + 1) then
      gapBefore stop cursor r ++ closeGap stop (max cursor (r.stop + 1))
    else gapBefore stop cursor r ++ gapLoop stop ranges (max cursor (r.stop + 1))

/-- The heights from `start` to `stop` that are in no range, as ranges. -/
def computeGaps (start stop : ℤ) (ranges : List BlockRange) : List BlockRange :=
  if stop < start then []
  else if ranges.isEmpty then [⟨start, stop⟩]
  else gapLoop stop (ranges.mergeSort fun r r' => r.start ≤ r'.start) start

/-- What the walk from a cursor returns. -/
structure GapsFrom (cursor stop : ℤ) (ranges gaps : List BlockRange) : Prop where
  ascending : Ascending gaps
  within : ∀ g ∈ gaps, cursor ≤ g.start ∧ g.stop ≤ stop
  covered : ∀ x, cursor ≤ x → x ≤ stop → (Covered gaps x ↔ ¬ Covered ranges x)

/-- Past all remaining ranges, the rest is one gap. -/
theorem closeGap_gapsFrom {cursor : ℤ} (hnone : ∀ x, cursor ≤ x → x ≤ stop → ¬ Covered ranges x) :
    GapsFrom cursor stop ranges (closeGap stop cursor) := by
  unfold closeGap
  split_ifs with h
  · refine ⟨⟨by simpa using h, List.pairwise_singleton ..⟩, by simp, fun x hx hx' => ?_⟩
    simp only [covered_cons, not_covered_nil, or_false, BlockRange.Contains, hnone x hx hx']
    simp [hx, hx']
  · exact ⟨⟨by simp, .nil⟩, by simp, fun x hx hx' => absurd (hx.trans hx') h⟩

theorem GapsFrom.cons {cursor stop : ℤ} {r : BlockRange} {ranges gaps : List BlockRange}
    (hg : GapsFrom (max cursor (r.stop + 1)) stop ranges gaps) (hr : r.start ≤ r.stop)
    (hcursor : cursor ≤ r.stop) (hstart : r.start ≤ stop)
    (hsorted : ∀ r' ∈ ranges, r.start ≤ r'.start) :
    GapsFrom cursor stop (r :: ranges) (gapBefore stop cursor r ++ gaps) := by
  have hmax : max cursor (r.stop + 1) = r.stop + 1 := max_eq_right (by omega)
  rw [hmax] at hg
  -- no later range starts before this one
  have hlater : ∀ x, x < r.start → ¬ Covered ranges x := by
    rintro x hx ⟨r', hr', hcont⟩
    have := hsorted r' hr'
    have := hcont.1
    omega
  have hbelow : ∀ x, x ≤ r.stop → ¬ Covered gaps x := by
    rintro x hx ⟨g, hmem, hcont⟩
    have := (hg.within g hmem).1
    have := hcont.1
    omega
  by_cases hbefore : cursor < r.start
  · have hgap : gapBefore stop cursor r = [⟨cursor, r.start - 1⟩] := by
      have hmin : min (r.start - 1) stop = r.start - 1 := min_eq_left (by omega)
      rw [gapBefore, if_pos hbefore, hmin, if_pos (by omega)]
    rw [hgap, List.singleton_append]
    refine ⟨⟨?_, ?_⟩, ?_, ?_⟩
    · intro g hmem
      rcases List.mem_cons.mp hmem with rfl | hmem
      · simp only
        omega
      · exact hg.ascending.nonempty g hmem
    · rw [List.pairwise_cons]
      refine ⟨fun g hmem => ?_, hg.ascending.apart⟩
      have := (hg.within g hmem).1
      simp only
      omega
    · intro g hmem
      rcases List.mem_cons.mp hmem with rfl | hmem
      · simp only
        omega
      · have := hg.within g hmem
        omega
    · intro x hx hx'
      simp only [covered_cons, BlockRange.Contains]
      by_cases hlow : x < r.start
      · have h₁ := hlater x hlow
        have h₂ : x ≤ r.start - 1 := by omega
        have h₃ : ¬ r.start ≤ x := by omega
        simp [h₁, h₂, h₃, hx]
      · by_cases hin : x ≤ r.stop
        · have h₁ := hbelow x hin
          have h₂ : ¬ x ≤ r.start - 1 := by omega
          have h₃ : r.start ≤ x := by omega
          simp [h₁, h₂, h₃, hin]
        · have h₁ := hg.covered x (by omega) hx'
          have h₂ : ¬ x ≤ r.start - 1 := by omega
          simp [h₁, h₂, hin]
  · have hgap : gapBefore stop cursor r = [] := if_neg hbefore
    rw [hgap, List.nil_append]
    refine ⟨hg.ascending, fun g hmem => ?_, fun x hx hx' => ?_⟩
    · have := hg.within g hmem
      omega
    · simp only [covered_cons, BlockRange.Contains]
      by_cases hin : x ≤ r.stop
      · have h₁ := hbelow x hin
        have h₃ : r.start ≤ x := by omega
        simp [h₁, h₃, hin]
      · have h₁ := hg.covered x (by omega) hx'
        simp [h₁, hin]

theorem gapLoop_gapsFrom (hsorted : ranges.Pairwise fun r r' => r.start ≤ r'.start)
    (hvalid : ∀ r ∈ ranges, r.start ≤ r.stop) (cursor : ℤ) :
    GapsFrom cursor stop ranges (gapLoop stop ranges cursor) := by
  induction ranges generalizing cursor with
  | nil => exact closeGap_gapsFrom fun x _ _ => not_covered_nil x
  | cons r ranges ih =>
    rw [List.pairwise_cons] at hsorted
    have hr := hvalid r (by simp)
    have ih := fun c => ih hsorted.2 (fun r' hr' => hvalid r' (by simp [hr'])) c
    unfold gapLoop
    split_ifs with hpast hbeyond hend
    · -- the range ends before the cursor
      have h := ih cursor
      refine ⟨h.ascending, h.within, fun x hx hx' => ?_⟩
      have hnot : ¬ x ≤ r.stop := by omega
      rw [h.covered x hx hx']
      simp [BlockRange.Contains, hnot]
    · -- the range, and all after it, start past the end
      refine closeGap_gapsFrom ?_
      rintro x hx hx' ⟨r', hr', hcont⟩
      have := hcont.1
      rcases List.mem_cons.mp hr' with rfl | hr'
      · omega
      · have := hsorted.1 r' hr'
        omega
    · refine GapsFrom.cons (closeGap_gapsFrom fun x hx hx' => ?_) hr (by omega) (by omega) hsorted.1
      omega
    · exact (ih _).cons hr (by omega) (by omega) hsorted.1

theorem pairwise_start_mergeSort (ranges : List BlockRange) :
    (ranges.mergeSort fun r r' => r.start ≤ r'.start).Pairwise fun r r' => r.start ≤ r'.start := by
  have hmerge := @List.pairwise_mergeSort _ (fun r r' : BlockRange => r.start ≤ r'.start)
    (fun a b c => by simpa using fun h h' => h.trans h')
    (fun a b => by simpa using le_total a.start b.start) ranges
  simpa using hmerge

/-- **The gaps** of an interval contain exactly its heights that are in no range; they are
within the interval, ascending and disjoint. -/
theorem computeGaps_gapsFrom (start stop : ℤ) (hvalid : ∀ r ∈ ranges, r.start ≤ r.stop) :
    GapsFrom start stop ranges (computeGaps start stop ranges) := by
  unfold computeGaps
  split_ifs with hlt hempty
  · exact ⟨⟨by simp, .nil⟩, by simp, fun x hx hx' => by omega⟩
  · rw [List.isEmpty_iff.mp hempty]
    have hclose : closeGap stop start = [⟨start, stop⟩] := if_pos (by omega)
    rw [← hclose]
    exact closeGap_gapsFrom fun x _ _ => not_covered_nil x
  · have hperm := List.mergeSort_perm ranges fun r r' => decide (r.start ≤ r'.start)
    have hloop : GapsFrom start stop _ _ := gapLoop_gapsFrom (pairwise_start_mergeSort ranges)
      (fun r hr => hvalid r (hperm.mem_iff.mp hr)) start
    refine ⟨hloop.ascending, hloop.within, fun x hx hx' => ?_⟩
    rw [hloop.covered x hx hx', not_iff_not]
    exact ⟨fun ⟨r, hr, hc⟩ => ⟨r, hperm.mem_iff.mp hr, hc⟩,
      fun ⟨r, hr, hc⟩ => ⟨r, hperm.mem_iff.mpr hr, hc⟩⟩

/-- A height of the interval is in a gap exactly if it is not reported as indexed. -/
theorem covered_gaps_iff (db : DB) {start : ℤ} (hstart : start ≤ h) (hstop : h ≤ stop) :
    Covered (computeGaps start stop (loadIndexedRanges db)) h ↔ ¬ ReportedIndexed db h := by
  rw [(computeGaps_gapsFrom start stop (loadIndexedRanges_ascending db).nonempty).covered h hstart
    hstop, covered_loadIndexedRanges, not_iff_not]
  constructor
  · rintro ⟨k, hk, heq⟩
    obtain rfl : k = h := by exact_mod_cast heq
    exact hk
  · exact fun hh => ⟨h, hh, rfl⟩

/-! ## Normalizing ranges -/

/-- Merge sorted ranges into the current one while they overlap or touch it. -/
def mergeRanges (current : BlockRange) : List BlockRange → List BlockRange
  | [] => [current]
  | next :: rest =>
    if next.start ≤ wrap64 (current.stop + 1) then
      mergeRanges { current with stop := max current.stop next.stop } rest
    else current :: mergeRanges next rest

/-- The order of ranges by start, then by end. -/
def BlockRange.le (r r' : BlockRange) : Bool :=
  if r.start = r'.start then decide (r.stop ≤ r'.stop) else decide (r.start ≤ r'.start)

/-- Sort ranges and merge those that overlap or touch. -/
def normalizeRanges (ranges : List BlockRange) : List BlockRange :=
  match ranges.mergeSort BlockRange.le with
  | [] => []
  | r :: rest => mergeRanges r rest

/-- The number of heights of the ranges, as the source adds it up. -/
def countBlocks (ranges : List BlockRange) : ℤ :=
  ranges.foldl (fun total r => wrap64 (total + wrap64 (wrap64 (r.stop - r.start) + 1))) 0

end EvmGateway
