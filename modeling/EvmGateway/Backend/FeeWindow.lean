import EvmGateway.Backend.FeeHistory
import EvmGateway.Lib.Lists

/-!
# The window of a fee history

A request for the fee history of `count` blocks up to a block should be refused, or be answered on
a window of consecutive heights that ends at that block.  The count is unsigned and the window is
signed, the genesis is height `1` but the count is cut at block `0`, and the loop steps by four
past the end of the window.  So the window is exact only when the count fits into the heights up
to its end, and its end is not within a batch of the largest integer.

## Main statements

* `FeeWindow.exists_batches` — the goroutines have the indexes and blocks of the window in turn.
* `FeeWindow.describes_filled` — their rows are those of the heights of the window, in order.
* `fee_window_exact_iff` — a request is refused or its window is exact, exactly under
  `FeeRequestSound`.
-/

namespace EvmGateway

open Lib

variable {blockEnd cap : ℤ} {n : ℕ}

/-! ## Rows -/

namespace FeeSlices

/-- The rows of the answer are the given ones, in order; behind them stands the next base fee of
the last one. -/
structure Describes (s : FeeSlices) (n : ℕ) (row : ℕ → OneFeeHistory) : Prop where
  reward : s.reward = (List.range n).map fun j => (row j).reward.map some
  baseFee : s.baseFee.take n = (List.range n).map fun j => some (row j).baseFee
  nextBaseFee : 0 < n → s.baseFee[n]? = some (some (row (n - 1)).nextBaseFee)
  length_baseFee : s.baseFee.length = n + 1
  gasUsedRatio : s.gasUsedRatio = (List.range n).map fun j => (row j).gasUsedRatio

structure Written (s : FeeSlices) (n : ℕ) (row : ℕ → OneFeeHistory) (done : Set ℕ) : Prop where
  length_reward : s.reward.length = n
  length_baseFee : s.baseFee.length = n + 1
  length_gasUsedRatio : s.gasUsedRatio.length = n
  reward : ∀ j < n, j ∈ done → s.reward[j]? = some ((row j).reward.map some)
  baseFee : ∀ j < n, j ∈ done → s.baseFee[j]? = some (some (row j).baseFee)
  nextBaseFee : ∀ j, j + 1 = n → j ∈ done → s.baseFee[n]? = some (some (row j).nextBaseFee)
  gasUsedRatio : ∀ j < n, j ∈ done → s.gasUsedRatio[j]? = some (row j).gasUsedRatio

variable {n : ℕ} {row : ℕ → OneFeeHistory} {s : FeeSlices} {done : Set ℕ}

theorem written_make (rewardCount : ℕ) : (make n rewardCount).Written n row ∅ := by
  constructor <;> simp [make]

theorem Written.put (h : s.Written n row done) {k : ℕ} (hk : k < n) :
    (s.put k (row k)).Written n row (insert k done) where
  length_reward := by simp [FeeSlices.put, h.length_reward]
  length_baseFee := by
    simp only [FeeSlices.put]
    split_ifs <;> simp [h.length_baseFee]
  length_gasUsedRatio := by simp [FeeSlices.put, h.length_gasUsedRatio]
  reward := by
    intro j hj hmem
    by_cases hjk : j = k
    · subst hjk
      simp [FeeSlices.put, h.length_reward, hj]
    · simp [FeeSlices.put, List.getElem?_set_ne (Ne.symm hjk),
        h.reward j hj (hmem.resolve_left hjk)]
  baseFee := by
    intro j hj hmem
    -- the fee behind the last row is not at an index of a row
    have hput : (s.put k (row k)).baseFee[j]? = (s.baseFee.set k (some (row k).baseFee))[j]? := by
      simp only [FeeSlices.put, h.length_baseFee]
      split_ifs with hlast
      · exact List.getElem?_set_ne (by omega)
      · rfl
    rw [hput]
    by_cases hjk : j = k
    · subst hjk
      simp [h.length_baseFee, Nat.lt_succ_of_lt hj]
    · rw [List.getElem?_set_ne (Ne.symm hjk)]
      exact h.baseFee j hj (hmem.resolve_left hjk)
  nextBaseFee := by
    intro j hj hmem
    by_cases hjk : j = k
    · subst hjk
      subst hj
      simp [FeeSlices.put, h.length_baseFee]
    · have hlast : ¬ k + 2 = s.baseFee.length := by
        rw [h.length_baseFee]
        omega
      simp only [FeeSlices.put, if_neg hlast]
      rw [List.getElem?_set_ne (by omega)]
      exact h.nextBaseFee j hj (hmem.resolve_left hjk)
  gasUsedRatio := by
    intro j hj hmem
    by_cases hjk : j = k
    · subst hjk
      simp [FeeSlices.put, h.length_gasUsedRatio, hj]
    · simp [FeeSlices.put, List.getElem?_set_ne (Ne.symm hjk),
        h.gasUsedRatio j hj (hmem.resolve_left hjk)]

theorem Written.foldl_put {ks : List ℕ} (h : s.Written n row done) (hks : ∀ k ∈ ks, k < n) :
    (ks.foldl (fun s k => s.put k (row k)) s).Written n row (done ∪ {k | k ∈ ks}) := by
  induction ks generalizing s done with
  | nil => simpa using h
  | cons k ks ih =>
    have hstep := ih (h.put (hks k (by simp))) fun j hj => hks j (by simp [hj])
    have hset : insert k done ∪ {j | j ∈ ks} = done ∪ {j | j ∈ k :: ks} := by
      ext j
      simp only [Set.mem_union, Set.mem_insert_iff, Set.mem_ofPred_eq, List.mem_cons]
      tauto
    rwa [hset] at hstep

theorem Written.describes (h : s.Written n row done) (hall : ∀ j < n, j ∈ done) :
    s.Describes n row where
  reward := by
    apply List.ext_getElem?
    intro j
    by_cases hj : j < n
    · simp [h.reward j hj (hall j hj), hj]
    · simp [h.length_reward, hj]
  baseFee := by
    apply List.ext_getElem?
    intro j
    by_cases hj : j < n
    · simp [h.baseFee j hj (hall j hj), hj]
    · simp [hj]
  nextBaseFee := fun hn => h.nextBaseFee (n - 1) (by omega) (hall _ (by omega))
  length_baseFee := h.length_baseFee
  gasUsedRatio := by
    apply List.ext_getElem?
    intro j
    by_cases hj : j < n
    · simp [h.gasUsedRatio j hj (hall j hj), hj]
    · simp [h.length_gasUsedRatio, hj]

end FeeSlices

/-! ## Batches -/

namespace FeeWindow

variable {w : FeeWindow}

/-- The window of the last `n` heights up to a positive height, far enough from the largest
integer for the loop to step past its end. -/
structure Sound (w : FeeWindow) (n : ℕ) : Prop where
  blocks : w.blocks = n
  lt_int32 : n < 2 ^ 31
  start_pos : 1 ≤ w.blockStart
  end_eq : w.blockStart + n - 1 = w.blockEnd
  room : w.blockStart + 4 * ((n + 3) / 4 : ℕ) ≤ maxInt64

variable {n : ℕ}

theorem wrap32_eq_self {x : ℤ} (hlow : 0 ≤ x) (hhigh : x < 2 ^ 31) : wrap32 x = x :=
  Int.bmod_eq_of_le (by omega) (by omega)

theorem Sound.fetcher (h : w.Sound n) {k i : ℕ} (hk : k + i < n) :
    w.fetcher (w.blockStart + k) i = ⟨(k + i : ℕ), w.blockStart + (k + i : ℕ)⟩ := by
  have hstart := h.start_pos
  have hlt := h.lt_int32
  have hroom := h.room
  have hmax : maxInt64 = 2 ^ 63 - 1 := rfl
  have hindex : wrap32 (wrap64 (wrap64 (w.blockStart + k - w.blockStart) + i)) = (k + i : ℕ) := by
    have hsub : w.blockStart + k - w.blockStart = (k : ℤ) := by omega
    rw [hsub, wrap64_wrap64_add, wrap64_eq_self ⟨by omega, by omega⟩,
      wrap32_eq_self (by omega) (by omega)]
    push_cast
    rfl
  simp only [FeeWindow.fetcher, hindex]
  rw [wrap64_eq_self ⟨by omega, by omega⟩]

/-- The batch at a place of the window has the next four indexes, or what is left of them. -/
theorem Sound.batch (h : w.Sound n) {m : ℕ} (hm : 4 * m < n) :
    w.batch (w.blockStart + (4 * m : ℕ)) =
      (List.range' (4 * m) (min maxBlockFetchers (n - 4 * m))).map fun j : ℕ =>
        ⟨j, w.blockStart + j⟩ := by
  have hstart := h.start_pos
  have hend := h.end_eq
  have hlt := h.lt_int32
  have hroom := h.room
  have hmax : maxInt64 = 2 ^ 63 - 1 := rfl
  have htest : ∀ i < maxBlockFetchers,
      decide (wrap64 (w.blockStart + (4 * m : ℕ) + (i : ℕ)) < wrap64 (w.blockEnd + 1)) =
        decide (i < n - 4 * m) := by
    intro i hi
    have hi : i < 4 := hi
    rw [wrap64_eq_self ⟨by omega, by omega⟩, wrap64_eq_self ⟨by omega, by omega⟩]
    exact decide_eq_decide.2 (by omega)
  rw [FeeWindow.batch, takeWhile_range htest, List.range'_eq_map_range, List.map_map]
  apply List.map_congr_left
  intro i hi
  have hi : i < min maxBlockFetchers (n - 4 * m) := List.mem_range.1 hi
  exact h.fetcher (by omega)

/-- From a batch on, the loop starts the goroutines of the indexes that are left. -/
theorem Sound.batches_from (h : w.Sound n) (m : ℕ) :
    ∃ bs, w.Batches (w.blockStart + (4 * m : ℕ)) bs ∧
      bs.flatten = (List.range' (4 * m) (n - 4 * m)).map fun j : ℕ => ⟨j, w.blockStart + j⟩ := by
  have hend := h.end_eq
  -- on what is left of the window
  induction hrest : n - 4 * m using Nat.strong_induction_on generalizing m with
  | _ rest ih =>
    by_cases hm : 4 * m < n
    · obtain ⟨bs, hbs, hflat⟩ := ih (n - 4 * (m + 1)) (by omega) (m + 1) rfl
      have hroom := h.room
      have hstart := h.start_pos
      have hmax : maxInt64 = 2 ^ 63 - 1 := rfl
      have hnext : wrap64 (w.blockStart + (4 * m : ℕ) + maxBlockFetchers) =
          w.blockStart + (4 * (m + 1) : ℕ) := by
        have hfour : (maxBlockFetchers : ℤ) = 4 := rfl
        rw [hfour, wrap64_eq_self ⟨by omega, by omega⟩]
        omega
      refine ⟨_, .more (by omega) (hnext ▸ hbs), ?_⟩
      have hsplit := range'_min_append (4 * m) maxBlockFetchers (n - 4 * m)
      rw [hrest, show 4 * m + maxBlockFetchers = 4 * (m + 1) from rfl,
        show rest - maxBlockFetchers = n - 4 * (m + 1) by rw [maxBlockFetchers]; omega] at hsplit
      rw [List.flatten_cons, hflat, h.batch hm, ← List.map_append, hrest, hsplit]
    · refine ⟨[], .done (by omega), ?_⟩
      have hnone : rest = 0 := by omega
      simp [hnone]

/-- The blocks the loop comes to are the starts of batches. -/
theorem Sound.visits (h : w.Sound n) {blockID : ℤ} (hv : w.Visits blockID) :
    ∃ m : ℕ, blockID = w.blockStart + (4 * m : ℕ) ∧ 4 * m < n + 4 := by
  have hend := h.end_eq
  have hroom := h.room
  have hstart := h.start_pos
  have hmax : maxInt64 = 2 ^ 63 - 1 := rfl
  induction hv with
  | start => exact ⟨0, by simp, by omega⟩
  | @next blockID hv hle ih =>
    obtain ⟨m, rfl, hm⟩ := ih
    refine ⟨m + 1, ?_, by omega⟩
    have hfour : (maxBlockFetchers : ℤ) = 4 := rfl
    rw [hfour, wrap64_eq_self ⟨by omega, by omega⟩]
    omega

/-- What the window of a request should be: at most as many blocks as allowed, ending at the
requested block and not before the genesis, with one goroutine for each of its heights in turn, so
that the rows are those of its heights; and nothing overflows on the way. -/
structure Exact (w : FeeWindow) (cap blockEnd : ℤ) : Prop where
  nonneg : 0 ≤ w.blocks
  le_cap : w.blocks ≤ cap
  oldest_pos : 0 < w.blocks → 1 ≤ w.blockStart
  blockEnd_eq : w.blockEnd = blockEnd
  last : w.blockStart + w.blocks - 1 = blockEnd
  end_inInt64 : InInt64 (blockEnd + 1)
  step_inInt64 : ∀ blockID, w.Visits blockID → blockID ≤ w.blockEnd →
    InInt64 (blockID + maxBlockFetchers)
  fetchers : ∃ bs, w.Batches w.blockStart bs ∧
    bs.flatten = (List.range w.blocks.toNat).map (fun j : ℕ => ⟨j, w.blockStart + j⟩) ∧
    ∀ (rewardCount : ℕ) (rows : ℤ → OneFeeHistory) (order : List Fetcher),
      order.Perm bs.flatten →
        (w.filled rewardCount rows order).Describes w.blocks.toNat
          fun j => rows (w.blockStart + j)

/-- In whatever order the goroutines of the window write their rows, these are the rows of its
heights. -/
theorem Sound.describes_filled (h : w.Sound n) (rewardCount : ℕ) (rows : ℤ → OneFeeHistory)
    {order : List Fetcher}
    (horder : order.Perm ((List.range n).map fun j : ℕ => ⟨j, w.blockStart + j⟩)) :
    (w.filled rewardCount rows order).Describes n fun j => rows (w.blockStart + j) := by
  have hstart := h.start_pos
  have hmem : ∀ f ∈ order, f.index.toNat < n ∧
      rows (blockNumberInt64 f.blockNum) = rows (w.blockStart + f.index.toNat) := by
    intro f hf
    obtain ⟨j, hj, rfl⟩ := List.mem_map.1 (horder.mem_iff.1 hf)
    refine ⟨List.mem_range.1 hj, ?_⟩
    rw [blockNumberInt64_of_pos (by dsimp only; omega), Int.toNat_natCast]
  have hfold : w.filled rewardCount rows order =
      (order.map (·.index.toNat)).foldl (fun s j => s.put j (rows (w.blockStart + j)))
        (.make n rewardCount) := by
    rw [FeeWindow.filled, h.blocks, Int.toNat_natCast, List.foldl_map]
    exact List.foldl_ext _ _ _ fun s f hf => by rw [(hmem f hf).2]
  rw [hfold]
  apply ((FeeSlices.written_make rewardCount).foldl_put _).describes
  · intro j hj
    refine .inr (List.mem_map.2 ⟨⟨j, w.blockStart + j⟩, ?_, Int.toNat_natCast j⟩)
    exact horder.mem_iff.2 (List.mem_map_of_mem (List.mem_range.2 hj))
  · intro j hj
    obtain ⟨f, hf, rfl⟩ := List.mem_map.1 hj
    exact (hmem f hf).1

theorem Sound.exact (h : w.Sound n) (hcap : n ≤ cap) : w.Exact cap w.blockEnd where
  nonneg := by
    rw [h.blocks]
    omega
  le_cap := h.blocks ▸ hcap
  oldest_pos := fun _ => h.start_pos
  blockEnd_eq := rfl
  last := h.blocks ▸ h.end_eq
  end_inInt64 := by
    have hend := h.end_eq
    have hstart := h.start_pos
    have hroom := h.room
    have hmax : maxInt64 = 2 ^ 63 - 1 := rfl
    exact ⟨by omega, by omega⟩
  step_inInt64 := by
    intro blockID hv hle
    obtain ⟨m, rfl, -⟩ := h.visits hv
    have hend := h.end_eq
    have hstart := h.start_pos
    have hroom := h.room
    have hmax : maxInt64 = 2 ^ 63 - 1 := rfl
    have hfour : (maxBlockFetchers : ℤ) = 4 := rfl
    rw [hfour]
    exact ⟨by omega, by omega⟩
  fetchers := by
    obtain ⟨bs, hbs, hflat⟩ := h.batches_from 0
    have hflat : bs.flatten = (List.range n).map fun j : ℕ => ⟨j, w.blockStart + j⟩ := by
      simpa [List.range_eq_range'] using hflat
    refine ⟨bs, by simpa using hbs, by simpa [h.blocks] using hflat, ?_⟩
    intro rewardCount rows order horder
    simpa [h.blocks] using h.describes_filled rewardCount rows (hflat ▸ horder)

/-- Without an overflow the loop comes to every batch of the window. -/
theorem Exact.visits (h : w.Exact cap blockEnd) (m : ℕ) (hm : 4 * m < w.blocks) :
    w.Visits (w.blockStart + (4 * m : ℕ)) := by
  have hlast := h.last
  have hend := h.blockEnd_eq
  induction m with
  | zero => simpa using Visits.start
  | succ m ih =>
    have hv := ih (by omega)
    have hle : w.blockStart + (4 * m : ℕ) ≤ w.blockEnd := by omega
    have hnext := hv.next hle
    rw [wrap64_eq_self (h.step_inInt64 _ hv hle)] at hnext
    have heq : w.blockStart + (4 * m : ℕ) + maxBlockFetchers =
        w.blockStart + (4 * (m + 1) : ℕ) := by
      have hfour : (maxBlockFetchers : ℤ) = 4 := rfl
      omega
    rwa [heq] at hnext

/-- An exact window leaves the loop room to step past its end. -/
theorem Exact.room (h : w.Exact cap blockEnd) :
    w.blockStart + 4 * ((w.blocks.toNat + 3) / 4 : ℕ) ≤ maxInt64 := by
  have hlast := h.last
  have hend := h.blockEnd_eq
  have hnonneg := h.nonneg
  have hmax : maxInt64 = 2 ^ 63 - 1 := rfl
  by_cases hpos : 0 < w.blocks
  · -- the step behind the last batch
    have hv := h.visits ((w.blocks.toNat - 1) / 4) (by omega)
    have hstep := (h.step_inInt64 _ hv (by omega)).2
    have hfour : (maxBlockFetchers : ℤ) = 4 := rfl
    omega
  · have hnone : w.blocks = 0 := by omega
    have hin := h.end_inInt64.2
    simp only [hnone] at hlast ⊢
    norm_num
    omega

end FeeWindow

/-! ## Requests -/

def feeEnd (head lastBlock : ℤ) : ℤ := if lastBlock < 0 then head else lastBlock

/-- A request whose window is exact, or that is refused: one beyond the head or above the cap, or
one for no more blocks than there are heights up to its end, which is so far from the largest
integer that the loop can step past it. -/
def FeeRequestSound (cap head : ℤ) (count : ℕ) (lastBlock : ℤ) : Prop :=
  head < lastBlock ∨ count < 2 ^ 63 ∧
    (cap < count ∨ count ≤ feeEnd head lastBlock ∧
      feeEnd head lastBlock + 1 - count + 4 * ((count + 3) / 4 : ℕ) ≤ maxInt64)

/-- A request is refused with an error, or answered on an exact window. -/
def Backend.WorksOnWindow (E : Env) (b : Backend) (head : ℤ) (userBlockCount : UInt64)
    (lastBlock : ℤ) (rewardPercentiles : List ℚ) : Prop :=
  NoPanic (b.feeWindow E userBlockCount lastBlock rewardPercentiles) ∧
    ∀ w, b.feeWindow E userBlockCount lastBlock rewardPercentiles = .ok w →
      w.Exact b.feeHistoryCap (feeEnd head lastBlock)

theorem noPanic_checkPercentilesFrom (E : Env) (i : ℕ) (previous : Option ℚ) (ps : List ℚ) :
    NoPanic (checkPercentilesFrom E i previous ps) := by
  induction ps generalizing i previous with
  | nil => exact .ok ()
  | cons p ps ih =>
    rw [checkPercentilesFrom.eq_def]
    dsimp only
    split_ifs
    · exact .error (by simp [Err.plain])
    · cases previous with
      | none => exact ih _ _
      | some q =>
        dsimp only
        split_ifs
        · exact .error (by simp [Err.plain])
        · exact ih _ _

theorem noPanic_checkPercentiles (E : Env) (ps : List ℚ) : NoPanic (checkPercentiles E ps) := by
  rw [checkPercentiles]
  split_ifs
  · exact .error (by simp [Err.plain])
  · exact noPanic_checkPercentilesFrom E 0 none ps

theorem cutFeeWindow_of_le (hend : 0 ≤ blockEnd) (hmax : blockEnd < maxInt64)
    (hle : n ≤ blockEnd + 1) :
    cutFeeWindow n blockEnd = .ok ⟨n, blockEnd + 1 - n, blockEnd⟩ := by
  have hmax' : maxInt64 = 2 ^ 63 - 1 := rfl
  have hwrap : wrap64 (blockEnd + 1) = blockEnd + 1 := wrap64_eq_self ⟨by omega, by omega⟩
  have hcut : ¬ (blockEnd < maxInt64 ∧ blockEnd + 1 < n) := by omega
  simp only [cutFeeWindow, hwrap, if_neg hcut]
  rw [if_neg (by omega), wrap64_eq_self ⟨by omega, by omega⟩]

/-- A larger count is cut at block zero. -/
theorem cutFeeWindow_of_gt (hend : 0 ≤ blockEnd) (hmax : blockEnd < maxInt64)
    (hlt : blockEnd + 1 < n) :
    cutFeeWindow n blockEnd = .ok ⟨blockEnd + 1, 0, blockEnd⟩ := by
  have hmax' : maxInt64 = 2 ^ 63 - 1 := rfl
  have hwrap : wrap64 (blockEnd + 1) = blockEnd + 1 := wrap64_eq_self ⟨by omega, by omega⟩
  have hcut : blockEnd < maxInt64 ∧ blockEnd + 1 < n := ⟨hmax, hlt⟩
  simp only [cutFeeWindow, hwrap, if_pos hcut]
  rw [if_neg (by omega), sub_self]
  rfl

/-- Rows cannot be allocated for a negative count. -/
theorem cutFeeWindow_of_neg {blocks : ℤ} (hend : 0 ≤ blockEnd) (hneg : blocks < 0) :
    cutFeeWindow blocks blockEnd =
      .error (.panic "runtime error: makeslice: len out of range") := by
  have hmax : maxInt64 = 2 ^ 63 - 1 := rfl
  have hcut : ¬ (blockEnd < maxInt64 ∧ wrap64 (blockEnd + 1) < blocks) := by
    rintro ⟨hlt, hcut⟩
    rw [wrap64_eq_self ⟨by omega, by omega⟩] at hcut
    omega
  simp only [cutFeeWindow, if_neg hcut, if_pos hneg]

theorem exists_cutFeeWindow (n : ℕ) (hend : 0 ≤ blockEnd) :
    ∃ w, cutFeeWindow n blockEnd = .ok w := by
  have hmax : maxInt64 = 2 ^ 63 - 1 := rfl
  simp only [cutFeeWindow]
  rw [if_neg]
  · exact ⟨_, rfl⟩
  · split_ifs with hcut
    · rw [wrap64_eq_self ⟨by omega, by omega⟩]
      omega
    · omega

section Requests

variable {E : Env} {b : Backend} {userBlockCount : UInt64} {lastBlock : ℤ} {ps : List ℚ} {head : ℕ}

theorem feeBlockEnd_of_le (hmax : head ≤ maxInt64) (hlast : lastBlock ≤ head) :
    feeBlockEnd (wrap64 head) lastBlock = .ok (feeEnd head lastBlock) := by
  have hmax' : maxInt64 = 2 ^ 63 - 1 := rfl
  have hwrap : wrap64 head = head := wrap64_eq_self ⟨by omega, by omega⟩
  rw [feeBlockEnd, feeEnd, hwrap]
  split_ifs
  · rfl
  · omega
  · rfl

/-- The window of a request that passes the first checks. -/
theorem feeWindow_eq (hps : checkPercentiles E ps = .ok ()) (hhead : b.blockNumber = .ok head)
    (hmax : head ≤ maxInt64) (hlast : lastBlock ≤ head) :
    b.feeWindow E userBlockCount lastBlock ps =
      if wrap64 userBlockCount.toNat > b.feeHistoryCap then
        .error (.plain ("FeeHistory user block count " ++ toString (wrap64 userBlockCount.toNat) ++
          " higher than " ++ toString b.feeHistoryCap))
      else cutFeeWindow (wrap64 userBlockCount.toNat) (feeEnd head lastBlock) := by
  have hend := feeBlockEnd_of_le hmax hlast
  rw [Backend.feeWindow, hps, hhead, ok_bind, ok_bind, hend, ok_bind]

theorem feeWindow_beyond (userBlockCount : UInt64) (hps : checkPercentiles E ps = .ok ())
    (hhead : b.blockNumber = .ok head) (hmax : head ≤ maxInt64) (hlast : head < lastBlock) :
    ∃ m, b.feeWindow E userBlockCount lastBlock ps = .error (.plain m) := by
  have hmax' : maxInt64 = 2 ^ 63 - 1 := rfl
  have hwrap : wrap64 head = head := wrap64_eq_self ⟨by omega, by omega⟩
  refine ⟨s!"requested {lastBlock}, head {(head : ℤ)}: request beyond head block", ?_⟩
  rw [Backend.feeWindow, hps, hhead, ok_bind, ok_bind, feeBlockEnd, hwrap, if_neg (by omega),
    if_pos hlast, error_bind]

/-- The window of an allowed count is exact when it does not reach below the genesis and the loop
has room to step past it. -/
theorem exact_cutFeeWindow_iff (hend : 0 ≤ blockEnd) (hn : n < 2 ^ 31) (hcap : n ≤ cap) :
    (∀ w, cutFeeWindow n blockEnd = .ok w → w.Exact cap blockEnd) ↔
      n ≤ blockEnd ∧ blockEnd + 1 - n + 4 * ((n + 3) / 4 : ℕ) ≤ maxInt64 := by
  have hmax' : maxInt64 = 2 ^ 63 - 1 := rfl
  constructor
  · intro hall
    obtain ⟨w, hw⟩ := exists_cutFeeWindow n hend
    have hexact := hall w hw
    have hmax : blockEnd < maxInt64 := by
      have hin := hexact.end_inInt64.2
      omega
    by_cases hle : n ≤ blockEnd + 1
    · rw [cutFeeWindow_of_le hend hmax hle] at hw
      obtain rfl := Except.ok.inj hw
      have hpos := hexact.oldest_pos
      have hroom := hexact.room
      simp only [Int.toNat_natCast] at hpos hroom
      exact ⟨by omega, hroom⟩
    · -- a window cut at block zero begins below the genesis
      rw [cutFeeWindow_of_gt hend hmax (by omega)] at hw
      obtain rfl := Except.ok.inj hw
      have hpos := hexact.oldest_pos (by dsimp only; omega)
      exact absurd hpos (by norm_num)
  · rintro ⟨hle, hroom⟩ w hw
    rw [cutFeeWindow_of_le hend (by omega) (by omega)] at hw
    obtain rfl := Except.ok.inj hw
    have hsound : FeeWindow.Sound ⟨n, blockEnd + 1 - n, blockEnd⟩ n :=
      { blocks := rfl
        lt_int32 := hn
        start_pos := by dsimp only; omega
        end_eq := by dsimp only; omega
        room := hroom }
    exact hsound.exact hcap

/-- A request is refused with an error or answered on an exact window, exactly when its percentiles
are refused or it is a sound one. -/
theorem fee_window_exact_iff (E : Env) (b : Backend) (userBlockCount : UInt64) (lastBlock : ℤ)
    (ps : List ℚ) {head : ℕ} (hhead : b.blockNumber = .ok head) (hpos : 1 ≤ head)
    (hmax : head ≤ maxInt64) (hcap : 0 ≤ b.feeHistoryCap) (hint32 : b.feeHistoryCap < 2 ^ 31) :
    b.WorksOnWindow E head userBlockCount lastBlock ps ↔
      checkPercentiles E ps ≠ .ok () ∨
        FeeRequestSound b.feeHistoryCap head userBlockCount.toNat lastBlock := by
  have hmax' : maxInt64 = 2 ^ 63 - 1 := rfl
  have hcount : userBlockCount.toNat < 2 ^ 64 := userBlockCount.toNat_lt
  by_cases hps : checkPercentiles E ps = .ok ()
  · simp only [hps, ne_eq, not_true_eq_false, false_or]
    by_cases hlast : lastBlock ≤ head
    · have hend : 0 ≤ feeEnd head lastBlock := by
        rw [feeEnd]
        split_ifs <;> omega
      rw [Backend.WorksOnWindow, feeWindow_eq hps hhead hmax hlast]
      by_cases hsigned : userBlockCount.toNat < 2 ^ 63
      · rw [wrap64_eq_self ⟨by omega, by omega⟩]
        by_cases hover : b.feeHistoryCap < userBlockCount.toNat
        · rw [if_pos hover]
          exact iff_of_true ⟨.error (by simp [Err.plain]), by simp⟩
            (.inr ⟨hsigned, .inl hover⟩)
        · rw [if_neg hover, exact_cutFeeWindow_iff hend (by omega) (by omega)]
          obtain ⟨w, hw⟩ := exists_cutFeeWindow userBlockCount.toNat hend
          rw [hw, and_iff_right (.ok w), FeeRequestSound]
          simp only [not_lt.2 hlast, hsigned, hover, false_or, true_and]
      · -- a count above the signed range is read as a negative one
        have hwrap : wrap64 userBlockCount.toNat = userBlockCount.toNat - 2 ^ 64 :=
          wrap64_of_ge (by omega) (by omega)
        rw [hwrap, if_neg (by omega), cutFeeWindow_of_neg hend (by omega)]
        apply iff_of_false
        · exact fun h => h.1 _ rfl rfl
        · rintro (h | h)
          · omega
          · exact hsigned h.1
    · obtain ⟨m, hrefused⟩ := feeWindow_beyond userBlockCount hps hhead hmax
        (not_le.1 hlast)
      rw [Backend.WorksOnWindow, hrefused]
      exact iff_of_true ⟨.error (by simp [Err.plain]), by simp⟩ (.inl (not_le.1 hlast))
  · cases hcheck : checkPercentiles E ps with
    | ok u => exact absurd hcheck hps
    | error e =>
      have hrefused : b.feeWindow E userBlockCount lastBlock ps = .error e := by
        rw [Backend.feeWindow, hcheck, error_bind]
      rw [Backend.WorksOnWindow, hrefused]
      exact iff_of_true ⟨.error (noPanic_checkPercentiles E ps e hcheck), by simp⟩ (.inl (by simp))

end Requests

/-- A backend without an indexer at a head. -/
def Backend.atHead (head : ℕ) : Backend :=
  { Backend.sample none none with
    queryClient := { QueryClient.silent with blockHeight := .ok head } }

theorem fee_window_exact_iff_three :
    (Backend.atHead 5).WorksOnWindow Env.sample (5 : ℕ) 3 (-1) [] :=
  (fee_window_exact_iff Env.sample (Backend.atHead 5) 3 (-1) [] rfl (by decide) (by decide)
    (by decide) (by decide)).2 (.inr (.inr ⟨by decide, .inr ⟨by decide, by decide⟩⟩))

/-- Three blocks up to head two: the window begins at block zero, which is fetched as height one
once more.  And a count of `2 ^ 63` blocks allocates rows for a negative number of them. -/
theorem fee_window_below_genesis :
    (Backend.atHead 2).feeWindow Env.sample 3 (-1) [] = .ok ⟨3, 0, 2⟩ ∧
      (FeeWindow.batch ⟨3, 0, 2⟩ 0).map (fun f => blockNumberInt64 f.blockNum) = [1, 1, 2] ∧
      ¬ (Backend.atHead 2).WorksOnWindow Env.sample (2 : ℕ) 3 (-1) [] ∧
      (Backend.atHead 2).feeWindow Env.sample (2 ^ 63) (-1) [] =
        .error (.panic "runtime error: makeslice: len out of range") ∧
      ¬ (Backend.atHead 2).WorksOnWindow Env.sample (2 : ℕ) (2 ^ 63) (-1) [] := by
  have hthree : (Backend.atHead 2).feeWindow Env.sample 3 (-1) [] = .ok ⟨3, 0, 2⟩ := by
    decide +kernel
  have hnegative : (Backend.atHead 2).feeWindow Env.sample (2 ^ 63) (-1) [] =
      .error (.panic "runtime error: makeslice: len out of range") := by
    decide +kernel
  refine ⟨hthree, by decide +kernel, ?_, hnegative, ?_⟩
  · intro h
    exact absurd ((h.2 ⟨3, 0, 2⟩ hthree).oldest_pos (by decide)) (by decide)
  · intro h
    exact h.1 _ hnegative rfl

end EvmGateway
