import EvmGateway.Indexer.ExactGaps

/-!
# The targets of a resync

A resync is given heights and ranges of heights on the command line.  They are sorted and merged
before the blocks are fetched, and counted for the log.

Merging looks at the height after a range and counting adds up lengths, both in `int64`.  The
largest height has no successor there, and the number of all heights does not fit.
`resync_targets_exact_iff` says which arguments this is visible for.

## Main definitions

* `parseResyncTargets` — what the command makes of its arguments.
* `NormalizedExactly` — what the merged ranges should be.
* `AloneAtEnd` — only one target reaches the largest height, and no other starts after it.
-/

namespace EvmGateway

open Lib

variable {ranges targets : List BlockRange} {r r' : BlockRange}

/-! ## Parsing the arguments -/

def parseResyncHeight (raw : String) : Except Err ℤ :=
  match atoi raw with
  | .error _ => .error (.plain s!"invalid block height \"{raw}\"")
  | .ok height =>
    if height < 0 then .error (.plain s!"block height {height} cannot be negative")
    else .ok height

def parseResyncTarget (raw : String) : Except Err BlockRange :=
  if raw.toList = [] then .error (.plain "empty resync target")
  else if ':' ∉ raw.toList then do
    let height ← wrapErr (parseResyncHeight raw) s!"parse resync target \"{raw}\""
    return ⟨height, height⟩
  else if raw.toList.count ':' ≠ 1 then
    .error (.plain s!"parse resync target \"{raw}\": expected START:END")
  else do
    let startRaw := String.ofList (raw.toList.takeWhile (· ≠ ':'))
    let endRaw := String.ofList ((raw.toList.dropWhile (· ≠ ':')).drop 1)
    let start ← wrapErr (parseResyncHeight startRaw) s!"parse resync target \"{raw}\""
    let stop ← wrapErr (parseResyncHeight endRaw) s!"parse resync target \"{raw}\""
    if start > stop then
      .error (.plain s!"parse resync target \"{raw}\": start block {start} greater than end block {stop}")
    else .ok ⟨start, stop⟩

def parseResyncTargets (args : List String) : Except Err (List BlockRange) :=
  if args.isEmpty then .error (.plain "no resync targets provided")
  else do
    let targets ← args.mapM parseResyncTarget
    return normalizeRanges targets

/-- The heights a target can have. -/
def BlockRange.Valid (r : BlockRange) : Prop := 0 ≤ r.start ∧ r.start ≤ r.stop ∧ r.stop ≤ maxInt64

theorem parseResyncHeight_ok {raw : String} {height : ℤ} (h : parseResyncHeight raw = .ok height) :
    0 ≤ height ∧ height ≤ maxInt64 := by
  unfold parseResyncHeight at h
  cases hparse : atoi raw with
  | error e => simp [hparse] at h
  | ok n =>
    simp only [hparse] at h
    split_ifs at h with hneg
    obtain rfl := Except.ok.inj h
    have hrange := atoi_range hparse
    rw [maxInt64]
    omega

theorem parseResyncTarget_ok {raw : String} (h : parseResyncTarget raw = .ok r) :
    r.Valid := by
  unfold parseResyncTarget at h
  split_ifs at h with hempty hcolon hcount
  · obtain ⟨start, hstart, h⟩ := bind_eq_ok.mp h
    obtain ⟨stop, hstop, h⟩ := bind_eq_ok.mp h
    split_ifs at h with hlt
    obtain rfl := Except.ok.inj h
    exact ⟨(parseResyncHeight_ok (wrapErr_eq_ok.mp hstart)).1, not_lt.mp hlt,
      (parseResyncHeight_ok (wrapErr_eq_ok.mp hstop)).2⟩
  · obtain ⟨height, hheight, h⟩ := bind_eq_ok.mp h
    obtain rfl := Except.ok.inj h
    have hrange := parseResyncHeight_ok (wrapErr_eq_ok.mp hheight)
    exact ⟨hrange.1, le_rfl, hrange.2⟩

theorem parseResyncTargets_ok {args : List String} {out : List BlockRange}
    (h : parseResyncTargets args = .ok out) : ∃ targets, args.mapM parseResyncTarget = .ok targets ∧
      (∀ r ∈ targets, r.Valid) ∧ out = normalizeRanges targets := by
  unfold parseResyncTargets at h
  split_ifs at h
  obtain ⟨targets, htargets, h⟩ := bind_eq_ok.mp h
  refine ⟨targets, htargets, fun r hr => ?_, (Except.ok.inj h).symm⟩
  obtain ⟨k, hk⟩ := List.getElem?_of_mem hr
  obtain ⟨arg, -, harg⟩ := forall₂_getElem?_right (mapM_ok htargets) hk
  exact parseResyncTarget_ok harg

/-! ### Accepted heights -/

theorem colon_not_mem_toString (n : ℕ) : ':' ∉ (toString n).toList := by
  intro h
  rw [Nat.toString_eq_repr, Nat.toList_repr] at h
  exact absurd (isDigit_of_mem_toDigits h) (by decide)

theorem toList_toString_ne_nil (n : ℕ) : (toString n).toList ≠ [] := by
  rw [Nat.toString_eq_repr, Nat.toList_repr]
  exact Nat.toDigits_ne_nil

theorem parseResyncHeight_toString {n : ℕ} (h : n < 2 ^ 63) :
    parseResyncHeight (toString n) = .ok (n : ℤ) := by
  have hneg : ¬ (n : ℤ) < 0 := by omega
  simp only [parseResyncHeight, atoi_toString h, if_neg hneg]

theorem parseResyncTarget_toString {n : ℕ} (h : n < 2 ^ 63) :
    parseResyncTarget (toString n) = .ok ⟨n, n⟩ := by
  simp only [parseResyncTarget, if_neg (toList_toString_ne_nil n),
    if_pos (colon_not_mem_toString n), parseResyncHeight_toString h]
  rfl

/-- Every range of heights is accepted. -/
theorem parseResyncTarget_range {a b : ℕ} (hab : a ≤ b) (h : b < 2 ^ 63) :
    parseResyncTarget (toString a ++ ":" ++ toString b) = .ok ⟨a, b⟩ := by
  have hlist : (toString a ++ ":" ++ toString b).toList =
      (toString a).toList ++ ':' :: (toString b).toList := by
    simp [String.toList_append]
  have hkeep : ∀ c ∈ (toString a).toList, decide (c ≠ ':') = true := by
    intro c hc
    exact decide_eq_true fun heq => colon_not_mem_toString a (heq ▸ hc)
  have htake : ((toString a).toList ++ ':' :: (toString b).toList).takeWhile (· ≠ ':') =
      (toString a).toList := by
    rw [List.takeWhile_append_of_pos hkeep]
    simp
  have hdrop : ((toString a).toList ++ ':' :: (toString b).toList).dropWhile (· ≠ ':') =
      ':' :: (toString b).toList := by
    rw [List.dropWhile_append_of_pos hkeep]
    simp
  have hcount : ((toString a).toList ++ ':' :: (toString b).toList).count ':' = 1 := by
    rw [List.count_append, List.count_cons_self,
      List.count_eq_zero_of_not_mem (colon_not_mem_toString a),
      List.count_eq_zero_of_not_mem (colon_not_mem_toString b)]
  have hle : ¬ (a : ℤ) > b := by omega
  unfold parseResyncTarget
  rw [hlist, htake, hdrop, if_neg (by simp), if_neg (by simp), if_neg (by rw [hcount]; simp),
    List.drop_one, List.tail_cons, String.ofList_toList, String.ofList_toList]
  dsimp only
  rw [parseResyncHeight_toString (hab.trans_lt h), parseResyncHeight_toString h]
  exact if_neg hle

/-! ## Merging -/

theorem BlockRange.le_iff :
    r.le r' = true ↔ r.start < r'.start ∨ r.start = r'.start ∧ r.stop ≤ r'.stop := by
  unfold BlockRange.le
  split_ifs with h
  · simp [h]
  · rw [decide_eq_true_eq]
    omega

theorem pairwise_mergeSort_le (ranges : List BlockRange) :
    (ranges.mergeSort BlockRange.le).Pairwise fun r r' => r.le r' = true :=
  @List.pairwise_mergeSort _ BlockRange.le
    (fun a b c h h' => by rw [BlockRange.le_iff] at h h' ⊢; omega)
    (fun a b => by rw [Bool.or_eq_true, BlockRange.le_iff, BlockRange.le_iff]; omega) ranges

/-- Only the last range may reach the largest height. -/
def EndsLast (ranges : List BlockRange) : Prop := ∀ r ∈ ranges.dropLast, r.stop < maxInt64

theorem BlockRange.Valid.wrap64_stop (h : r.Valid) (hlt : r.stop < maxInt64) :
    wrap64 (r.stop + 1) = r.stop + 1 := by
  obtain ⟨hstart, hle, -⟩ := h
  rw [maxInt64] at hlt
  exact wrap64_eq_self ⟨by omega, by omega⟩

/-- What merging starts with is where the result starts. -/
theorem head_mergeRanges (current : BlockRange) (rest : List BlockRange) :
    ∃ stop ranges, mergeRanges current rest = ⟨current.start, stop⟩ :: ranges := by
  induction rest generalizing current with
  | nil => exact ⟨current.stop, [], rfl⟩
  | cons next rest ih =>
    unfold mergeRanges
    split_ifs
    · exact ih _
    · exact ⟨current.stop, _, rfl⟩

/-- Two ranges merged into one. -/
def BlockRange.join (r r' : BlockRange) : BlockRange := { r with stop := max r.stop r'.stop }

theorem BlockRange.Valid.join (h : r.Valid) (h' : r'.Valid) :
    (r.join r').Valid :=
  ⟨h.1, h.2.1.trans (le_max_left _ _), max_le h.2.2 h'.2.2⟩

theorem mergeRanges_cons (current next : BlockRange) (rest : List BlockRange) :
    mergeRanges current (next :: rest) =
      if next.start ≤ wrap64 (current.stop + 1) then mergeRanges (current.join next) rest
      else current :: mergeRanges next rest := rfl

theorem endsLast_cons_cons :
    EndsLast (r :: r' :: ranges) ↔ r.stop < maxInt64 ∧ EndsLast (r' :: ranges) := by
  simp [EndsLast]

theorem endsLast_join (hr : r.stop < maxInt64) :
    EndsLast (r.join r' :: ranges) ↔ EndsLast (r' :: ranges) := by
  cases ranges with
  | nil => simp [EndsLast]
  | cons r'' ranges =>
    rw [endsLast_cons_cons, endsLast_cons_cons, BlockRange.join, max_lt_iff]
    simp [hr]

section Merge

variable {current : BlockRange} {rest : List BlockRange}

/-- The ranges a merge is given: sorted by start and valid. -/
structure Mergeable (ranges : List BlockRange) : Prop where
  sorted : ranges.Pairwise fun r r' => r.start ≤ r'.start
  valid : ∀ r ∈ ranges, r.Valid

theorem Mergeable.tail (h : Mergeable (r :: ranges)) :
    Mergeable ranges :=
  ⟨(List.pairwise_cons.mp h.sorted).2, fun r' hr' => h.valid r' (List.mem_cons_of_mem _ hr')⟩

theorem Mergeable.join (h : Mergeable (r :: r' :: ranges)) : Mergeable (r.join r' :: ranges) where
  sorted := by
    obtain ⟨hfirst, hrest⟩ := List.pairwise_cons.mp h.sorted
    exact List.pairwise_cons.mpr
      ⟨fun r'' hr'' => hfirst r'' (List.mem_cons_of_mem _ hr''), (List.pairwise_cons.mp hrest).2⟩
  valid := by
    obtain ⟨hr, hrest⟩ := List.forall_mem_cons.mp h.valid
    obtain ⟨hr', hrest⟩ := List.forall_mem_cons.mp hrest
    exact List.forall_mem_cons.mpr ⟨hr.join hr', hrest⟩

/-- Merging keeps the heights, whatever overflows. -/
theorem covered_mergeRanges (h : Mergeable (current :: rest)) (x : ℤ) :
    Covered (mergeRanges current rest) x ↔ Covered (current :: rest) x := by
  induction rest generalizing current with
  | nil => exact Iff.rfl
  | cons next rest ih =>
    have hle := (List.pairwise_cons.mp h.sorted).1 next List.mem_cons_self
    have hcur := h.valid current List.mem_cons_self
    have hnext := h.valid next (by simp)
    rw [mergeRanges_cons]
    split_ifs with htouch
    · -- an overflowing successor is below every start, so there was none here
      have hlt : current.stop < maxInt64 := by
        by_contra hge
        have hmax : current.stop = maxInt64 := le_antisymm hcur.2.2 (not_lt.mp hge)
        rw [hmax, wrap64_maxInt64_add_one] at htouch
        have := hnext.1
        omega
      rw [hcur.wrap64_stop hlt] at htouch
      rw [ih h.join]
      simp only [covered_cons, BlockRange.Contains, BlockRange.join, ← or_assoc]
      refine or_congr_left ?_
      have := hcur.2.1
      have := hnext.2.1
      omega
    · rw [covered_cons, ih h.tail, ← covered_cons]

theorem start_le_of_mem_mergeRanges (h : Mergeable (current :: rest)) :
    ∀ r ∈ mergeRanges current rest, current.start ≤ r.start := by
  induction rest generalizing current with
  | nil => simp [mergeRanges]
  | cons next rest ih =>
    have hle := (List.pairwise_cons.mp h.sorted).1 next List.mem_cons_self
    rw [mergeRanges_cons]
    split_ifs
    · exact ih h.join
    · intro r hr
      rcases List.mem_cons.mp hr with rfl | hr
      · exact le_rfl
      · exact hle.trans (ih h.tail r hr)

/-- Merged ranges are separated exactly if none but the last reaches the largest height. -/
theorem separated_mergeRanges_iff (h : Mergeable (current :: rest)) :
    Separated (mergeRanges current rest) ↔ EndsLast (current :: rest) := by
  induction rest generalizing current with
  | nil =>
    have hcur := h.valid current List.mem_cons_self
    exact iff_of_true (separated_singleton hcur.2.1) (by simp [EndsLast])
  | cons next rest ih =>
    have hcur := h.valid current List.mem_cons_self
    have hnext := h.valid next (by simp)
    rw [mergeRanges_cons, endsLast_cons_cons]
    by_cases hlt : current.stop < maxInt64
    · rw [hcur.wrap64_stop hlt]
      split_ifs with htouch
      · rw [ih h.join, endsLast_join hlt]
        simp [hlt]
      · rw [separated_cons, ih h.tail]
        have hafter : ∀ r ∈ mergeRanges next rest, current.stop + 1 < r.start := by
          intro r hr
          have := start_le_of_mem_mergeRanges h.tail r hr
          omega
        exact ⟨fun hsep => ⟨hlt, hsep.2.2⟩, fun hends => ⟨hcur.2.1, hafter, hends.2⟩⟩
    · -- the successor wraps around, and the next range overlaps the one that was closed
      have hmax : current.stop = maxInt64 := le_antisymm hcur.2.2 (not_lt.mp hlt)
      have hnot : ¬ next.start ≤ wrap64 (current.stop + 1) := by
        rw [hmax, wrap64_maxInt64_add_one]
        have := hnext.1
        omega
      rw [if_neg hnot, separated_cons]
      refine iff_of_false (fun hsep => ?_) fun hends => hlt hends.1
      obtain ⟨stop, ranges, heq⟩ := head_mergeRanges next rest
      have hapart := hsep.2.1 ⟨next.start, stop⟩ (heq ▸ List.mem_cons_self)
      have hbound := hnext.2.1.trans hnext.2.2
      simp only [hmax] at hapart
      omega

end Merge

/-! ## Normalizing -/

/-- If the first target reaches the largest height, the second one ends before and does not start
after it. -/
def BlockRange.YieldsTo (r r' : BlockRange) : Prop :=
  r.stop = maxInt64 → r'.stop < maxInt64 ∧ r'.start ≤ r.start

/-- At most one target reaches the largest height, and no other one starts after it. -/
def AloneAtEnd (targets : List BlockRange) : Prop :=
  targets.Pairwise fun r r' => r.YieldsTo r' ∧ r'.YieldsTo r

theorem aloneAtEnd_perm {targets' : List BlockRange} (h : targets.Perm targets') :
    AloneAtEnd targets ↔ AloneAtEnd targets' :=
  h.pairwise_iff fun hr => ⟨hr.2, hr.1⟩

/-- Among sorted targets, the one that reaches the largest height comes last. -/
theorem endsLast_iff {sorted : List BlockRange} (hvalid : ∀ r ∈ sorted, r.Valid)
    (hsorted : sorted.Pairwise fun r r' => r.le r' = true) :
    EndsLast sorted ↔ AloneAtEnd sorted := by
  induction sorted with
  | nil => exact iff_of_true (List.forall_mem_nil _) .nil
  | cons r ranges ih =>
    obtain ⟨hr, hvalid⟩ := List.forall_mem_cons.mp hvalid
    obtain ⟨hfirst, hsorted⟩ := List.pairwise_cons.mp hsorted
    have ih := ih hvalid hsorted
    cases ranges with
    | nil => exact iff_of_true (by simp [EndsLast]) (List.pairwise_singleton ..)
    | cons r' ranges =>
      have hcons : AloneAtEnd (r :: r' :: ranges) ↔
          (∀ r'' ∈ r' :: ranges, r.YieldsTo r'' ∧ r''.YieldsTo r) ∧ AloneAtEnd (r' :: ranges) :=
        List.pairwise_cons
      rw [endsLast_cons_cons, ih, hcons]
      refine and_congr_left fun _ => ?_
      constructor
      · intro hlt r'' hr''
        refine ⟨fun heq => absurd heq (ne_of_lt hlt), fun _ => ⟨hlt, ?_⟩⟩
        have := BlockRange.le_iff.mp (hfirst r'' hr'')
        omega
      · intro hyields
        by_contra hge
        have hmax : r.stop = maxInt64 := le_antisymm hr.2.2 (not_lt.mp hge)
        have hbefore := (hyields r' List.mem_cons_self).1 hmax
        have := BlockRange.le_iff.mp (hfirst r' List.mem_cons_self)
        omega

section Normalize

variable {targets : List BlockRange} (hvalid : ∀ r ∈ targets, r.Valid)

include hvalid

theorem normalizeRanges_cases : (targets = [] ∧ normalizeRanges targets = []) ∨
    ∃ r rest, targets.mergeSort BlockRange.le = r :: rest ∧ Mergeable (r :: rest) ∧
      normalizeRanges targets = mergeRanges r rest := by
  have hperm := List.mergeSort_perm targets BlockRange.le
  have hsorted := pairwise_mergeSort_le targets
  unfold normalizeRanges
  cases hcase : targets.mergeSort BlockRange.le with
  | nil =>
    rw [hcase] at hperm
    exact .inl ⟨hperm.nil_eq.symm, rfl⟩
  | cons r rest =>
    rw [hcase] at hperm hsorted
    refine .inr ⟨r, rest, rfl, ⟨hsorted.imp fun h => ?_, fun r' hr' => ?_⟩, rfl⟩
    · have := BlockRange.le_iff.mp h
      omega
    · exact hvalid r' (hperm.mem_iff.mp hr')

theorem covered_normalizeRanges (x : ℤ) : Covered (normalizeRanges targets) x ↔
    Covered targets x := by
  rcases normalizeRanges_cases hvalid with ⟨rfl, hnil⟩ | ⟨r, rest, hsort, hmerge, heq⟩
  · rw [hnil]
  · have hperm := List.mergeSort_perm targets BlockRange.le
    rw [heq, covered_mergeRanges hmerge, ← hsort]
    exact exists_congr fun r => and_congr_left fun _ => hperm.mem_iff

theorem separated_normalizeRanges_iff :
    Separated (normalizeRanges targets) ↔ AloneAtEnd targets := by
  rcases normalizeRanges_cases hvalid with ⟨rfl, hnil⟩ | ⟨r, rest, hsort, hmerge, heq⟩
  · rw [hnil]
    exact iff_of_true separated_nil .nil
  · have hperm := List.mergeSort_perm targets BlockRange.le
    rw [heq, separated_mergeRanges_iff hmerge,
      endsLast_iff hmerge.valid (hsort ▸ pairwise_mergeSort_le targets), ← hsort]
    exact aloneAtEnd_perm hperm

end Normalize

theorem mergeRanges_of_separated {current : BlockRange} {rest : List BlockRange}
    (hsep : Separated (current :: rest)) (hvalid : ∀ r ∈ current :: rest, r.Valid) :
    mergeRanges current rest = current :: rest := by
  induction rest generalizing current with
  | nil => rfl
  | cons next rest ih =>
    obtain ⟨hcur, hvalid⟩ := List.forall_mem_cons.mp hvalid
    obtain ⟨-, hafter, hsep⟩ := separated_cons.mp hsep
    have hnext := hvalid next List.mem_cons_self
    have hapart := hafter next List.mem_cons_self
    have hlt : current.stop < maxInt64 := by
      have := hnext.2.1.trans hnext.2.2
      omega
    rw [mergeRanges_cons, hcur.wrap64_stop hlt, if_neg (by omega), ih hsep hvalid]

/-- Separated ranges are a fixed point. -/
theorem normalizeRanges_of_separated (hsep : Separated ranges) (hvalid : ∀ r ∈ ranges, r.Valid) :
    normalizeRanges ranges = ranges := by
  have hsorted : ranges.mergeSort BlockRange.le = ranges := by
    refine List.mergeSort_of_pairwise (hsep.apart.imp_of_mem fun {r r'} hr _ h => ?_)
    have := hsep.nonempty r hr
    exact BlockRange.le_iff.mpr (.inl (by omega))
  unfold normalizeRanges
  rw [hsorted]
  cases ranges with
  | nil => rfl
  | cons r rest => exact mergeRanges_of_separated hsep hvalid

/-- The ends of merged ranges are those of the given ones. -/
theorem valid_mergeRanges {current : BlockRange} {rest : List BlockRange}
    (h : Mergeable (current :: rest)) : ∀ r ∈ mergeRanges current rest, r.Valid := by
  induction rest generalizing current with
  | nil => simpa [mergeRanges] using h.valid current List.mem_cons_self
  | cons next rest ih =>
    rw [mergeRanges_cons]
    split_ifs
    · exact ih h.join
    · exact List.forall_mem_cons.mpr ⟨h.valid current List.mem_cons_self, ih h.tail⟩

theorem valid_normalizeRanges (hvalid : ∀ r ∈ targets, r.Valid) :
    ∀ r ∈ normalizeRanges targets, r.Valid := by
  rcases normalizeRanges_cases hvalid with ⟨rfl, hnil⟩ | ⟨r, rest, -, hmerge, heq⟩
  · rw [hnil]
    exact List.forall_mem_nil _
  · rw [heq]
    exact valid_mergeRanges hmerge

/-! ## Counting -/

def heightsOf (ranges : List BlockRange) : Set ℤ := {x | Covered ranges x}

/-- The number of heights of ranges, added up without overflow. -/
def totalLength (ranges : List BlockRange) : ℤ := (ranges.map fun r => r.stop - r.start + 1).sum

/-- The overflows of the sum are one overflow of the total. -/
theorem countBlocks_eq (ranges : List BlockRange) : countBlocks ranges =
    wrap64 (totalLength ranges) := by
  have hfold : ∀ (ranges : List BlockRange) (total : ℤ),
      ranges.foldl (fun total r => wrap64 (total + wrap64 (wrap64 (r.stop - r.start) + 1)))
        (wrap64 total) = wrap64 (total + totalLength ranges) := by
    intro ranges
    induction ranges with
    | nil =>
      intro total
      simp [totalLength]
    | cons r ranges ih =>
      intro total
      rw [List.foldl_cons, wrap64_wrap64_add, wrap64_wrap64_add, wrap64_add_wrap64, ih, totalLength,
        totalLength, List.map_cons, List.sum_cons, add_assoc]
  have h := hfold ranges 0
  rwa [zero_add, wrap64_eq_self (by decide)] at h

theorem heightsOf_cons (r : BlockRange) (ranges : List BlockRange) :
    heightsOf (r :: ranges) = ↑(Finset.Icc r.start r.stop) ∪ heightsOf ranges := by
  ext x
  simp [heightsOf, BlockRange.Contains]

theorem finite_heightsOf (ranges : List BlockRange) : (heightsOf ranges).Finite := by
  induction ranges with
  | nil => simp [heightsOf]
  | cons r ranges ih =>
    rw [heightsOf_cons]
    exact (Finset.finite_toSet _).union ih

/-- Ranges that do not overlap have as many heights as their lengths add up to. -/
theorem ncard_heightsOf (hsep : Separated ranges) :
    ((heightsOf ranges).ncard : ℤ) = totalLength ranges := by
  induction ranges with
  | nil => simp [heightsOf, totalLength]
  | cons r ranges ih =>
    obtain ⟨hr, hafter, hsep⟩ := separated_cons.mp hsep
    have hdisjoint : Disjoint (↑(Finset.Icc r.start r.stop) : Set ℤ) (heightsOf ranges) := by
      rw [Set.disjoint_left]
      rintro x hx ⟨r', hr', hcont⟩
      have hin := Finset.mem_Icc.mp (Finset.mem_coe.mp hx)
      have := hafter r' hr'
      have := hcont.1
      omega
    rw [heightsOf_cons, Set.ncard_union_eq hdisjoint (Finset.finite_toSet _) (finite_heightsOf _),
      Set.ncard_coe_finset, Int.card_Icc, Nat.cast_add, ih hsep, totalLength, totalLength,
      List.map_cons, List.sum_cons, Int.toNat_of_nonneg (by omega)]
    ring

theorem ncard_all : ((Set.Icc 0 maxInt64 : Set ℤ).ncard : ℤ) = 2 ^ 63 := by
  rw [← Finset.coe_Icc, Set.ncard_coe_finset, Int.card_Icc, maxInt64]
  norm_num

theorem heightsOf_subset (hvalid : ∀ r ∈ ranges, r.Valid) :
    heightsOf ranges ⊆ Set.Icc 0 maxInt64 := by
  rintro x ⟨r, hr, hx⟩
  obtain ⟨hstart, -, hstop⟩ := hvalid r hr
  exact ⟨hstart.trans hx.1, hx.2.trans hstop⟩

/-- The number of heights fits exactly if a height is missing. -/
theorem ncard_lt_iff (hvalid : ∀ r ∈ ranges, r.Valid) :
    ((heightsOf ranges).ncard : ℤ) < 2 ^ 63 ↔ ∃ x, 0 ≤ x ∧ x ≤ maxInt64 ∧ ¬ Covered ranges x := by
  have hfinite : (Set.Icc 0 maxInt64 : Set ℤ).Finite := Set.finite_Icc _ _
  rw [← ncard_all]
  constructor
  · intro hlt
    by_contra hall
    push Not at hall
    have heq : heightsOf ranges = Set.Icc 0 maxInt64 :=
      (heightsOf_subset hvalid).antisymm fun x hx => hall x hx.1 hx.2
    rw [heq] at hlt
    exact lt_irrefl _ hlt
  · rintro ⟨x, hlow, hhigh, hx⟩
    have hss : heightsOf ranges ⊂ Set.Icc 0 maxInt64 :=
      ⟨heightsOf_subset hvalid, fun hsub => hx (hsub ⟨hlow, hhigh⟩)⟩
    exact_mod_cast Set.ncard_lt_ncard hss hfinite

/-! ## The targets of a resync -/

/-- What the merged ranges of targets should be. -/
structure NormalizedExactly (targets out : List BlockRange) : Prop where
  separated : Separated out
  covered : ∀ x, Covered out x ↔ Covered targets x
  fixed : normalizeRanges out = out
  count : countBlocks out = (heightsOf targets).ncard

theorem normalizedExactly_iff (hvalid : ∀ r ∈ targets, r.Valid) :
    NormalizedExactly targets (normalizeRanges targets) ↔
      AloneAtEnd targets ∧ ∃ x, 0 ≤ x ∧ x ≤ maxInt64 ∧ ¬ Covered targets x := by
  have hcovered := covered_normalizeRanges hvalid
  have hheights : heightsOf (normalizeRanges targets) = heightsOf targets := Set.ext hcovered
  have hout := valid_normalizeRanges hvalid
  have hcount : Separated (normalizeRanges targets) →
      (countBlocks (normalizeRanges targets) = (heightsOf targets).ncard ↔
        ((heightsOf targets).ncard : ℤ) < 2 ^ 63) := by
    intro hsep
    rw [countBlocks_eq, ← ncard_heightsOf hsep, hheights, wrap64_eq_self_iff, InInt64]
    omega
  rw [← separated_normalizeRanges_iff hvalid, ← ncard_lt_iff hvalid]
  constructor
  · intro h
    exact ⟨h.separated, (hcount h.separated).mp h.count⟩
  · rintro ⟨hsep, hlt⟩
    exact ⟨hsep, hcovered, normalizeRanges_of_separated hsep hout, (hcount hsep).mpr hlt⟩

/-- **Exact targets.** Every height and every range of heights is accepted.  The accepted targets
are normalized and counted exactly unless two of them meet at the largest height in a way that
needs its successor, or all heights are named. -/
theorem resync_targets_exact_iff (args : List String) (out : List BlockRange) :
    (∀ n : ℕ, n < 2 ^ 63 → parseResyncTarget (toString n) = .ok ⟨n, n⟩) ∧
    (∀ a b : ℕ, a ≤ b → b < 2 ^ 63 →
      parseResyncTarget (toString a ++ ":" ++ toString b) = .ok ⟨a, b⟩) ∧
    (parseResyncTargets args = .ok out →
      ∃ targets, args.mapM parseResyncTarget = .ok targets ∧
        (NormalizedExactly targets out ↔
          AloneAtEnd targets ∧ ∃ x, 0 ≤ x ∧ x ≤ maxInt64 ∧ ¬ Covered targets x)) := by
  refine ⟨fun n hn => parseResyncTarget_toString hn, fun a b hab hb => parseResyncTarget_range hab hb,
    fun h => ?_⟩
  obtain ⟨targets, htargets, hvalid, rfl⟩ := parseResyncTargets_ok h
  exact ⟨targets, htargets, normalizedExactly_iff hvalid⟩

theorem resync_targets_exact_iff_sample : ∃ out,
    parseResyncTargets ["8:9223372036854775807", "3", "4:5"] = .ok out ∧
      NormalizedExactly [⟨8, maxInt64⟩, ⟨3, 3⟩, ⟨4, 5⟩] out := by
  have hargs : ["8:9223372036854775807", "3", "4:5"].mapM parseResyncTarget =
      .ok [⟨8, maxInt64⟩, ⟨3, 3⟩, ⟨4, 5⟩] := by rfl
  have hparse : parseResyncTargets ["8:9223372036854775807", "3", "4:5"] =
      .ok (normalizeRanges [⟨8, maxInt64⟩, ⟨3, 3⟩, ⟨4, 5⟩]) := by
    rw [parseResyncTargets, hargs]
    rfl
  obtain ⟨targets, htargets, hiff⟩ := (resync_targets_exact_iff _ _).2.2 hparse
  obtain rfl := Except.ok.inj (hargs.symm.trans htargets)
  refine ⟨_, hparse, hiff.mpr ⟨?_, 0, le_rfl, by decide, ?_⟩⟩
  · simp [AloneAtEnd, BlockRange.YieldsTo, maxInt64]
  · simp [BlockRange.Contains]

/-- A range up to the largest height and that height again: the result overlaps.  All heights at
once: the count is negative. -/
theorem resync_targets_overlap :
    parseResyncTargets ["5:9223372036854775807", "9223372036854775807"] =
        .ok [⟨5, maxInt64⟩, ⟨maxInt64, maxInt64⟩] ∧
      ¬ Separated [⟨5, maxInt64⟩, ⟨maxInt64, maxInt64⟩] ∧
    parseResyncTargets ["0:9223372036854775807"] = .ok [⟨0, maxInt64⟩] ∧
      countBlocks [⟨0, maxInt64⟩] = -2 ^ 63 := by
  have hargs : ["5:9223372036854775807", "9223372036854775807"].mapM parseResyncTarget =
      .ok [⟨5, maxInt64⟩, ⟨maxInt64, maxInt64⟩] := by rfl
  have hargs' : ["0:9223372036854775807"].mapM parseResyncTarget = .ok [⟨0, maxInt64⟩] := by rfl
  have hsort : [(⟨5, maxInt64⟩ : BlockRange), ⟨maxInt64, maxInt64⟩].mergeSort BlockRange.le =
      [⟨5, maxInt64⟩, ⟨maxInt64, maxInt64⟩] := List.mergeSort_of_pairwise (by decide)
  refine ⟨?_, ?_, ?_, by decide⟩
  · rw [parseResyncTargets, hargs]
    change Except.ok (normalizeRanges _) = _
    rw [normalizeRanges, hsort]
    rfl
  · intro hsep
    have := (separated_cons.mp hsep).2.1 _ List.mem_cons_self
    simp at this
  · rw [parseResyncTargets, hargs']
    change Except.ok (normalizeRanges _) = _
    rw [normalizeRanges, List.mergeSort_singleton]
    rfl

end EvmGateway
