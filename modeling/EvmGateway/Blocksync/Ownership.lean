import EvmGateway.Blocksync.Moves

/-!
# Who has which height

A height that was handed out and is not yet announced is in exactly one place: with the
worker that took it, or in the map.  `Ownership` states this for the parts of a state it is
about, together with what the blocks in these places say of themselves: a block carries the
height it is filed under, and it is marked as skipped exactly if the height was given up as
unavailable.

Two facts about the map follow for every interleaving.  A height is put into it at most
once, and never after it was announced; and its size stays within the limit of the workers
plus one block for each worker that waits for it to shrink (`reorder_buffer_bounded`).
-/

namespace EvmGateway.Blocksync

open Lib

variable {w h k : ℕ} {a : ConsumerAction}

variable {β : Type}

def Worker.height? : Worker β → Option ℕ
  | .check h | .fetching h | .failed h _ | .deposit h _ => some h
  | .idle | .held | .exited => none

def Owns (workers : List (Worker β)) (w h : ℕ) : Prop :=
  ∃ x, workers[w]? = some x ∧ x.height? = some h

/-- What a block says of itself is true: its height, and whether the height was given up. -/
structure NewBlockData.Labels (block : NewBlockData β) (h : ℕ) (skipped : List ℕ) : Prop where
  height : block.height = h
  skipped : block.skipped = true ↔ h ∈ skipped

/-- The block in the hands of a worker is labelled; a height without a block is not given
up. -/
def Worker.Labelled (skipped : List ℕ) : Worker β → Prop
  | .deposit h newBlock => newBlock.Labels h skipped
  | .check h | .fetching h | .failed h _ => h ∉ skipped
  | .idle | .held | .exited => True

theorem NewBlockData.Labels.append {block : NewBlockData β} {skipped : List ℕ}
    (hl : block.Labels k skipped) (hne : k ≠ h) : block.Labels k (skipped ++ [h]) :=
  ⟨hl.height, by rw [hl.skipped]; simp [hne]⟩

theorem Worker.Labelled.append {x : Worker β} {skipped : List ℕ} (hl : x.Labelled skipped)
    (hne : x.height? ≠ some h) : x.Labelled (skipped ++ [h]) := by
  cases x with
  | deposit k newBlock => exact NewBlockData.Labels.append hl fun hk => hne (by rw [hk]; rfl)
  | check k | fetching k | failed k err =>
    intro hmem
    rcases List.mem_append.mp hmem with hmem | hmem
    · exact hl hmem
    · exact hne (by rw [List.mem_singleton.mp hmem]; rfl)
  | idle | held | exited => trivial

/-- The blocks the announcer has taken out of the map and not yet sent. -/
def Announcer.pending : Announcer β → ℕ
  | .sending _ => 1
  | _ => 0

@[simp] theorem Announcer.pending_wake (a : Announcer β) : a.wake.pending = a.pending := by
  cases a <;> rfl

/-- The first height that was not taken out of the map. -/
def State.popped (s : State β) : ℕ := s.next + s.announcer.pending

/-- Every height between `popped` and `height` is in one place. -/
structure Ownership (workers : List (Worker β)) (blocks : Std.ExtTreeMap ℕ (NewBlockData β))
    (popped height : ℕ) (skipped : List ℕ) : Prop where
  popped_le : popped ≤ height
  entry : ∀ k block, blocks[k]? = some block →
    popped ≤ k ∧ k < height ∧ block.Labels k skipped
  owned : ∀ w h, Owns workers w h → popped ≤ h ∧ h < height ∧ blocks[h]? = none
  unique : ∀ w w' h, Owns workers w h → Owns workers w' h → w = w'
  labelled : ∀ (w : ℕ) (x : Worker β), workers[w]? = some x → x.Labelled skipped
  skipped_lt : ∀ h ∈ skipped, h < height
  complete : (∀ x ∈ workers, x ≠ .exited) → ∀ k, popped ≤ k → k < height →
    blocks[k]? ≠ none ∨ ∃ w, Owns workers w k

def State.Ownership (s : State β) : Prop :=
  Blocksync.Ownership s.workers s.newBlocksMap s.popped s.height s.skipped

theorem owns_set_self {workers : List (Worker β)} {x x' : Worker β} (hx : workers[w]? = some x) :
    Owns (workers.set w x') w h ↔ x'.height? = some h := by
  have hw : w < workers.length := (List.getElem?_eq_some_iff.mp hx).1
  simp [Owns, hw]

theorem owns_set_of_ne {workers : List (Worker β)} {v : ℕ} {x' : Worker β} (hv : w ≠ v) :
    Owns (workers.set w x') v h ↔ Owns workers v h := by
  simp [Owns, hv]

theorem owns_set {workers : List (Worker β)} {v : ℕ} {x x' : Worker β} (hx : workers[w]? = some x) :
    Owns (workers.set w x') v h ↔ v = w ∧ x'.height? = some h ∨ v ≠ w ∧ Owns workers v h := by
  by_cases hv : v = w
  · subst hv
    simp [owns_set_self hx]
  · simp [hv, owns_set_of_ne (Ne.symm hv)]

namespace Ownership

variable {workers : List (Worker β)} {blocks : Std.ExtTreeMap ℕ (NewBlockData β)}
  {popped height : ℕ} {skipped : List ℕ} {w h : ℕ} {x x' : Worker β}

theorem labelled_set (hl : ∀ (v : ℕ) (y : Worker β), workers[v]? = some y → y.Labelled skipped)
    (hx' : x'.Labelled skipped) :
    ∀ (v : ℕ) (y : Worker β), (workers.set w x')[v]? = some y → y.Labelled skipped := by
  intro v y hy
  rw [List.getElem?_set] at hy
  split_ifs at hy
  · obtain rfl := Option.some.inj hy
    exact hx'
  · exact hl v y hy

theorem not_exited_of_set (hx : workers[w]? = some x)
    (hall : ∀ y ∈ workers.set w x', y ≠ .exited) : x' ≠ .exited := by
  have hw : w < workers.length := (List.getElem?_eq_some_iff.mp hx).1
  exact hall x' (List.mem_set hw x')

theorem not_exited_before (hx : workers[w]? = some x) (hxne : x ≠ .exited)
    (hall : ∀ y ∈ workers.set w x', y ≠ .exited) : ∀ y ∈ workers, y ≠ .exited := by
  intro y hy
  obtain ⟨v, hv⟩ := List.getElem?_of_mem hy
  by_cases hvw : v = w
  · subst hvw
    rw [hx] at hv
    obtain rfl := Option.some.inj hv
    exact hxne
  · refine hall y (List.mem_of_getElem? (i := v) ?_)
    rw [List.getElem?_set_ne (Ne.symm hvw)]
    exact hv

theorem keep (o : Ownership workers blocks popped height skipped) (hx : workers[w]? = some x)
    (hxne : x ≠ .exited) (hh : x'.height? = x.height? ∨ x' = .exited)
    (hl : x'.Labelled skipped) :
    Ownership (workers.set w x') blocks popped height skipped := by
  have hsub : ∀ v k, Owns (workers.set w x') v k → Owns workers v k := by
    intro v k hv
    rcases (owns_set hx).mp hv with ⟨rfl, hk⟩ | ⟨-, hk⟩
    · rcases hh with hh | rfl
      · exact ⟨x, hx, hh ▸ hk⟩
      · cases hk
    · exact hk
  refine ⟨o.popped_le, o.entry, fun v k hv => o.owned v k (hsub v k hv),
    fun v v' k hv hv' => o.unique v v' k (hsub v k hv) (hsub v' k hv'),
    labelled_set o.labelled hl, o.skipped_lt, ?_⟩
  intro hall k hk hk'
  rcases o.complete (not_exited_before hx hxne hall) k hk hk' with hb | ⟨v, hv⟩
  · exact .inl hb
  · refine .inr ⟨v, (owns_set hx).mpr ?_⟩
    by_cases hvw : v = w
    · subst hvw
      obtain ⟨y, hy, hyk⟩ := hv
      rw [hx] at hy
      obtain rfl := Option.some.inj hy
      refine .inl ⟨rfl, ?_⟩
      rw [hh.resolve_right (not_exited_of_set hx hall), hyk]
    · exact .inr ⟨hvw, hv⟩

/-- A worker that takes the next height. -/
theorem take (o : Ownership workers blocks popped height skipped)
    (hx : workers[w]? = some .idle) :
    Ownership (workers.set w (.check height)) blocks popped (height + 1) skipped := by
  have howns : ∀ v k, Owns (workers.set w (.check height)) v k →
      v = w ∧ k = height ∨ v ≠ w ∧ Owns workers v k ∧ k < height := by
    intro v k hv
    rcases (owns_set hx).mp hv with ⟨rfl, hk⟩ | ⟨hne, hk⟩
    · exact .inl ⟨rfl, (Option.some.inj hk).symm⟩
    · exact .inr ⟨hne, hk, (o.owned v k hk).2.1⟩
  have hfresh : blocks[height]? = none := by
    by_contra hsome
    obtain ⟨block, hblock⟩ := Option.ne_none_iff_exists'.mp hsome
    have := (o.entry height block hblock).2.1
    omega
  refine ⟨by have := o.popped_le; omega, ?_, ?_, ?_, ?_, ?_, ?_⟩
  · intro k block hk
    obtain ⟨h₁, h₂, h₃⟩ := o.entry k block hk
    exact ⟨h₁, by omega, h₃⟩
  · intro v k hv
    rcases howns v k hv with ⟨rfl, rfl⟩ | ⟨-, hk, -⟩
    · exact ⟨o.popped_le, by omega, hfresh⟩
    · obtain ⟨h₁, h₂, h₃⟩ := o.owned v k hk
      exact ⟨h₁, by omega, h₃⟩
  · intro v v' k hv hv'
    rcases howns v k hv with ⟨rfl, rfl⟩ | ⟨hne, hk, hlt⟩
    · rcases howns v' _ hv' with ⟨rfl, -⟩ | ⟨-, -, hlt⟩
      · rfl
      · omega
    · rcases howns v' k hv' with ⟨-, rfl⟩ | ⟨-, hk', -⟩
      · omega
      · exact o.unique v v' k hk hk'
  · refine labelled_set o.labelled fun hmem => ?_
    have := o.skipped_lt _ hmem
    omega
  · intro k hk
    have := o.skipped_lt k hk
    omega
  · intro hall k hk hk'
    by_cases hkh : k = height
    · subst hkh
      exact .inr ⟨w, (owns_set_self hx).mpr rfl⟩
    · rcases o.complete (not_exited_before hx (by simp) hall) k hk (by omega) with hb | ⟨v, hv⟩
      · exact .inl hb
      · refine .inr ⟨v, (owns_set hx).mpr (.inr ⟨?_, hv⟩)⟩
        rintro rfl
        obtain ⟨y, hy, hyk⟩ := hv
        rw [hx] at hy
        obtain rfl := Option.some.inj hy
        cases hyk

theorem deposit {newBlock : NewBlockData β} (o : Ownership workers blocks popped height skipped)
    (hx : workers[w]? = some (.deposit h newBlock)) (hx' : x' = .idle ∨ x' = .held) :
    Ownership (workers.set w x') (blocks.insert h newBlock) popped height skipped := by
  have hnone : x'.height? = none := by rcases hx' with rfl | rfl <;> rfl
  have howns : ∀ v k, Owns (workers.set w x') v k ↔ Owns workers v k ∧ v ≠ w := by
    intro v k
    rw [owns_set hx, hnone]
    simp [and_comm]
  have hself : Owns workers w h := ⟨_, hx, rfl⟩
  refine ⟨o.popped_le, ?_, ?_, ?_, ?_, o.skipped_lt, ?_⟩
  · intro k block hk
    rw [Std.ExtTreeMap.getElem?_insert] at hk
    split_ifs at hk with heq
    · obtain rfl : h = k := by simpa using heq
      obtain rfl := Option.some.inj hk
      exact ⟨(o.owned w h hself).1, (o.owned w h hself).2.1, o.labelled w _ hx⟩
    · exact o.entry k block hk
  · intro v k hv
    obtain ⟨hv, hne⟩ := (howns v k).mp hv
    obtain ⟨h₁, h₂, h₃⟩ := o.owned v k hv
    refine ⟨h₁, h₂, ?_⟩
    rw [Std.ExtTreeMap.getElem?_insert, if_neg, h₃]
    intro heq
    obtain rfl : h = k := by simpa using heq
    exact hne (o.unique v w h hv hself)
  · intro v v' k hv hv'
    exact o.unique v v' k ((howns v k).mp hv).1 ((howns v' k).mp hv').1
  · refine labelled_set o.labelled ?_
    rcases hx' with rfl | rfl <;> trivial
  · intro hall k hk hk'
    by_cases hkh : k = h
    · subst hkh
      exact .inl (by simp)
    · rcases o.complete (not_exited_before hx (by simp) hall) k hk hk' with hb | ⟨v, hv⟩
      · refine .inl ?_
        rw [Std.ExtTreeMap.getElem?_insert, if_neg (by simpa using Ne.symm hkh)]
        exact hb
      · refine .inr ⟨v, (howns v k).mpr ⟨hv, ?_⟩⟩
        rintro rfl
        obtain ⟨y, hy, hyk⟩ := hv
        rw [hx] at hy
        obtain rfl := Option.some.inj hy
        exact hkh (Option.some.inj hyk).symm

/-- A worker that gives its height up. -/
theorem skip {err : FetchErr} (o : Ownership workers blocks popped height skipped)
    (hx : workers[w]? = some (.failed h err)) :
    Ownership (workers.set w (.deposit h { height := h, skipped := true })) blocks popped height
      (skipped ++ [h]) := by
  have hself : Owns workers w h := ⟨_, hx, rfl⟩
  have hsub : ∀ v k, Owns (workers.set w (.deposit h { height := h, skipped := true })) v k →
      Owns workers v k := by
    intro v k hv
    rcases (owns_set hx).mp hv with ⟨rfl, hk⟩ | ⟨-, hk⟩
    · exact ⟨_, hx, hk⟩
    · exact hk
  refine ⟨o.popped_le, ?_, fun v k hv => o.owned v k (hsub v k hv),
    fun v v' k hv hv' => o.unique v v' k (hsub v k hv) (hsub v' k hv'), ?_, ?_, ?_⟩
  · intro k block hk
    obtain ⟨h₁, h₂, h₃⟩ := o.entry k block hk
    refine ⟨h₁, h₂, h₃.append ?_⟩
    rintro rfl
    rw [(o.owned w k hself).2.2] at hk
    cases hk
  · intro v y hy
    by_cases hv : w = v
    · subst hv
      rw [List.getElem?_set_self (List.getElem?_eq_some_iff.mp hx).1] at hy
      obtain rfl := Option.some.inj hy
      exact ⟨rfl, by simp⟩
    · rw [List.getElem?_set_ne hv] at hy
      exact (o.labelled v y hy).append fun hyh => hv (o.unique w v h hself ⟨y, hy, hyh⟩)
  · intro k hk
    rcases List.mem_append.mp hk with hk | hk
    · exact o.skipped_lt k hk
    · rw [List.mem_singleton.mp hk]
      exact (o.owned w h hself).2.1
  · intro hall k hk hk'
    rcases o.complete (not_exited_before hx (by simp) hall) k hk hk' with hb | ⟨v, hv⟩
    · exact .inl hb
    · refine .inr ⟨v, (owns_set hx).mpr ?_⟩
      by_cases hvw : v = w
      · subst hvw
        obtain ⟨y, hy, hyk⟩ := hv
        rw [hx] at hy
        obtain rfl := Option.some.inj hy
        exact .inl ⟨rfl, hyk⟩
      · exact .inr ⟨hvw, hv⟩

/-- The announcer takes the block of its height. -/
theorem pop {ev : NewBlockData β} (o : Ownership workers blocks popped height skipped)
    (hev : blocks[popped]? = some ev) :
    Ownership workers (blocks.erase popped) (popped + 1) height skipped := by
  refine ⟨(o.entry popped ev hev).2.1, ?_, ?_, o.unique, o.labelled, o.skipped_lt, ?_⟩
  · intro k block hk
    rw [Std.ExtTreeMap.getElem?_erase] at hk
    split_ifs at hk with heq
    have hne : popped ≠ k := by simpa using heq
    obtain ⟨h₁, h₂, h₃⟩ := o.entry k block hk
    exact ⟨by omega, h₂, h₃⟩
  · intro v k hv
    obtain ⟨h₁, h₂, h₃⟩ := o.owned v k hv
    have hne : popped ≠ k := by
      rintro rfl
      rw [h₃] at hev
      cases hev
    refine ⟨by omega, h₂, ?_⟩
    rw [Std.ExtTreeMap.getElem?_erase, if_neg (by simpa using hne), h₃]
  · intro hall k hk hk'
    rcases o.complete hall k (by omega) hk' with hb | hv
    · refine .inl ?_
      have hne : popped ≠ k := by omega
      rw [Std.ExtTreeMap.getElem?_erase, if_neg (by simpa using hne)]
      exact hb
    · exact .inr hv

end Ownership

/-! ## Every reachable state -/

section Runs

variable {cfg : Syncer} {stop : Option ℤ} {start : ℤ} {s s' : State β}

theorem afterSize_cases (cfg : Syncer) (s : State β) :
    afterSize cfg s = .idle ∨ afterSize cfg s = .held := by
  unfold afterSize
  split_ifs
  · exact .inr rfl
  · exact .inl rfl

theorem init_ownership (cfg : Syncer) (stop : Option ℤ) (start : ℤ) :
    (State.init cfg stop start : State β).Ownership := by
  have hpopped : (State.init cfg stop start : State β).popped = start.toNat := by
    unfold State.popped State.init
    split_ifs <;> rfl
  have hidle : ∀ (w : ℕ) (x : Worker β),
      (State.init cfg stop start : State β).workers[w]? = some x → x = .idle := by
    intro w x hx
    have hmem := List.mem_of_getElem? hx
    unfold State.init at hmem
    split_ifs at hmem
    · cases hmem
    · exact List.eq_of_mem_replicate hmem
  have hnot : ∀ w h, ¬ Owns (State.init cfg stop start : State β).workers w h := by
    rintro w h ⟨x, hx, hxh⟩
    rw [hidle w x hx] at hxh
    cases hxh
  refine ⟨hpopped.le, ?_, fun w h hw => absurd hw (hnot w h), fun w _ h hw => absurd hw (hnot w h),
    ?_, ?_, ?_⟩
  · intro k block hk
    simp [State.init] at hk
  · intro w x hx
    rw [hidle w x hx]
    trivial
  · intro h hh
    cases hh
  · intro _ k hk hk'
    rw [hpopped] at hk
    exact absurd hk' (not_lt.mpr hk)

/-- A move of a worker keeps the places of the heights. -/
theorem WorkerMove.ownership {x x' : Worker β} {s₁ : State β} (ho : s.Ownership)
    (hx : s.workers[w]? = some x) (hm : WorkerMove cfg s x x' s₁) :
    State.Ownership { s₁ with workers := s.workers.set w x' } := by
  have hl := Ownership.labelled ho w x hx
  cases hm with
  | take => exact Ownership.take ho hx
  | leave h _ => exact Ownership.keep ho hx (by simp) (.inr rfl) trivial
  | fetch h _ => exact Ownership.keep ho hx (by simp) (.inl rfl) hl
  | fetched h block =>
    have hnot : h ∉ s.skipped := hl
    exact Ownership.keep ho hx (by simp) (.inl rfl) ⟨rfl, by simpa using hnot⟩
  | fail h err => exact Ownership.keep ho hx (by simp) (.inl rfl) hl
  | giveUp h err _ => exact Ownership.keep ho hx (by simp) (.inr rfl) trivial
  | skip h _ _ => exact Ownership.skip ho hx
  | retry h err _ _ => exact Ownership.keep ho hx (by simp) (.inl rfl) hl
  | deposit h newBlock _ =>
    have hpopped : (depositBlock s h newBlock).popped = s.popped := by
      simp [State.popped, depositBlock, State.signal]
    have := Ownership.deposit ho hx (afterSize_cases cfg (depositBlock s h newBlock))
    rw [← hpopped] at this
    exact this
  | recheck _ =>
    rcases afterSize_cases cfg s with hsize | hsize
    · rw [hsize]
      exact Ownership.keep ho hx (by simp) (.inl rfl) trivial
    · rw [hsize]
      exact Ownership.keep ho hx (by simp) (.inl rfl) trivial

/-- A move of the announcer keeps the places of the heights. -/
theorem AnnouncerMove.ownership (ho : s.Ownership) (hm : AnnouncerMove cfg s s') :
    s'.Ownership := by
  unfold State.Ownership State.popped at ho ⊢
  cases hm with
  | leave ha _ =>
    rcases ha with ha | ha <;> rw [ha] at ho <;> exact ho
  | look ha _ | miss ha _ | commit ha _ | park ha =>
    rw [ha] at ho
    exact ho
  | found ev ha hev =>
    rw [ha] at ho
    exact Ownership.pop ho hev
  | send ev ha _ =>
    rw [ha] at ho
    exact ho

/-- A move of the consumer keeps the places of the heights. -/
theorem ConsumerMove.ownership (ho : s.Ownership) (hm : ConsumerMove stop s a s') :
    s'.Ownership := by
  cases hm with
  | signal result _ =>
    have hpopped : s.signal.popped = s.popped := by simp [State.popped, State.signal]
    unfold State.Ownership at ho ⊢
    rw [← hpopped] at ho
    exact ho
  | _ => exact ho

theorem step_ownership {a : Action β} (ho : s.Ownership) (h : step cfg stop s a = some s') :
    s'.Ownership := by
  cases a with
  | worker w a =>
    obtain ⟨x, x', s₁, hx, hm, rfl⟩ := step_worker h
    exact hm.ownership ho hx
  | announcer a => exact (step_announcer h).ownership ho
  | consumer a => exact (step_consumer h).ownership ho
  | cancel =>
    obtain rfl := step_cancel h
    exact ho

/-- **Every height is in one place**, in every state of every interleaving. -/
theorem SyncReaches.ownership (h : SyncReaches cfg stop start s) : s.Ownership :=
  Reachable.invariant h (init_ownership cfg stop start) fun _ _ _ ho hs => step_ownership ho hs

/-! ## The size of the map -/

/-- Whether a worker waits for the map to shrink. -/
def Worker.isHeld : Worker β → Bool
  | .held => true
  | _ => false

/-- The workers that wait account for what is above the limit. -/
def State.Bounded (cfg : Syncer) (s : State β) : Prop :=
  s.workers.length ≤ cfg.jobs ∧
    s.newBlocksMap.size ≤ 1024 * cfg.jobs + s.workers.countP Worker.isHeld

theorem countP_set_of_not_held {workers : List (Worker β)} {x x' : Worker β}
    (hx : workers[w]? = some x) (hheld : x.isHeld = false) :
    (workers.set w x').countP Worker.isHeld =
      workers.countP Worker.isHeld + if x'.isHeld then 1 else 0 := by
  obtain ⟨hw, hxw⟩ := List.getElem?_eq_some_iff.mp hx
  rw [List.countP_set hw, hxw, hheld]
  simp

theorem WorkerMove.bounded {x x' : Worker β} {s₁ : State β} (hb : s.Bounded cfg)
    (hx : s.workers[w]? = some x) (hm : WorkerMove cfg s x x' s₁) :
    State.Bounded cfg { s₁ with workers := s.workers.set w x' } := by
  obtain ⟨hlen, hsize⟩ := hb
  refine ⟨by simpa using hlen, ?_⟩
  cases hm with
  | deposit h newBlock _ =>
    rw [countP_set_of_not_held hx rfl]
    have hle : (s.newBlocksMap.insert h newBlock).size ≤ s.newBlocksMap.size + 1 :=
      Std.ExtTreeMap.size_insert_le
    by_cases hfar : 1024 * cfg.jobs < (s.newBlocksMap.insert h newBlock).size
    · have hheld : afterSize cfg (depositBlock s h newBlock) = .held := by
        simp [afterSize, State.tooFarFromHead, depositBlock, State.signal, hfar]
      rw [hheld]
      exact hle.trans (by simp only [Worker.isHeld, if_true]; omega)
    · exact (not_lt.mp hfar).trans (by omega)
  | recheck _ =>
    by_cases hfar : 1024 * cfg.jobs < s.newBlocksMap.size
    · have hheld : afterSize cfg s = .held := by
        simp [afterSize, State.tooFarFromHead, hfar]
      obtain ⟨hw, hxw⟩ := List.getElem?_eq_some_iff.mp hx
      rw [hheld, ← hxw, List.set_getElem_self]
      exact hsize
    · exact (not_lt.mp hfar).trans (by omega)
  | _ =>
    rw [countP_set_of_not_held hx rfl]
    exact hsize.trans (by omega)

theorem AnnouncerMove.bounded (hb : s.Bounded cfg) (hm : AnnouncerMove cfg s s') :
    s'.Bounded cfg := by
  cases hm with
  | found ev _ _ => exact ⟨hb.1, Std.ExtTreeMap.size_erase_le.trans hb.2⟩
  | _ => exact hb

theorem ConsumerMove.bounded (hb : s.Bounded cfg) (hm : ConsumerMove stop s a s') :
    s'.Bounded cfg := by
  cases hm <;> exact hb

theorem step_bounded {a : Action β} (hb : s.Bounded cfg) (h : step cfg stop s a = some s') :
    s'.Bounded cfg := by
  cases a with
  | worker w a =>
    obtain ⟨x, x', s₁, hx, hm, rfl⟩ := step_worker h
    exact hm.bounded hb hx
  | announcer a => exact (step_announcer h).bounded hb
  | consumer a => exact (step_consumer h).bounded hb
  | cancel =>
    obtain rfl := step_cancel h
    exact hb

theorem init_bounded (cfg : Syncer) (stop : Option ℤ) (start : ℤ) :
    (State.init cfg stop start : State β).Bounded cfg := by
  refine ⟨?_, by simp [State.init]⟩
  unfold State.init
  split_ifs <;> simp

theorem SyncReaches.bounded (h : SyncReaches cfg stop start s) : s.Bounded cfg :=
  Reachable.invariant h (init_bounded cfg stop start) fun _ _ _ hb hs => step_bounded hb hs

/-! ## Deposits -/

def depositedHeight (s : State β) : Action β → Option ℕ
  | .worker w .deposit => (s.workers[w]?).bind fun
    | .deposit h _ => some h
    | _ => none
  | _ => none

def deposits (cfg : Syncer) (stop : Option ℤ) (s : State β) : List (Action β) → List ℕ
  | [] => []
  | a :: l => (depositedHeight s a).toList ++
      ((step cfg stop s a).map fun s' => deposits cfg stop s' l).getD []

/-- The height has been deposited: it is in the map or was announced. -/
def State.Settled (s : State β) (k : ℕ) : Prop := s.newBlocksMap[k]? ≠ none ∨ k < s.popped

theorem depositedHeight_eq_some {a : Action β} (ha : depositedHeight s a = some h) :
    ∃ w newBlock, a = .worker w .deposit ∧ s.workers[w]? = some (.deposit h newBlock) := by
  unfold depositedHeight at ha
  split at ha
  case h_1 w =>
    obtain ⟨x, hx, hxh⟩ := Option.bind_eq_some_iff.mp ha
    split at hxh
    case h_1 k newBlock =>
      obtain rfl := Option.some.inj hxh
      exact ⟨w, newBlock, rfl, hx⟩
    case h_2 => cases hxh
  case h_2 => cases ha

theorem not_settled_of_deposit (ho : s.Ownership) {a : Action β}
    (ha : depositedHeight s a = some h) : ¬ s.Settled h := by
  obtain ⟨w, newBlock, -, hw⟩ := depositedHeight_eq_some ha
  obtain ⟨h₁, -, h₃⟩ := Ownership.owned ho w h ⟨_, hw, rfl⟩
  rintro (hmap | hlt)
  · exact hmap h₃
  · omega

theorem WorkerMove.settled {x x' : Worker β} {s₁ : State β} (hm : WorkerMove cfg s x x' s₁)
    (hk : s.Settled k) :
    State.Settled { s₁ with workers := s.workers.set w x' } k := by
  cases hm with
  | deposit h newBlock _ =>
    rcases hk with hk | hk
    · refine .inl ?_
      change (s.newBlocksMap.insert h newBlock)[k]? ≠ none
      rw [Std.ExtTreeMap.getElem?_insert]
      split_ifs
      · simp
      · exact hk
    · exact .inr (by simpa [State.popped, depositBlock, State.signal] using hk)
  | _ => exact hk

theorem AnnouncerMove.settled (hm : AnnouncerMove cfg s s') (hk : s.Settled k) :
    s'.Settled k := by
  unfold State.Settled State.popped at hk ⊢
  cases hm with
  | leave ha _ =>
    rcases ha with ha | ha <;> rw [ha] at hk <;> exact hk
  | look ha _ | miss ha _ | commit ha _ | park ha =>
    rw [ha] at hk
    exact hk
  | found ev ha hev =>
    rw [ha] at hk
    by_cases hkn : s.next = k
    · exact .inr (by simp [Announcer.pending, hkn])
    · rcases hk with hk | hk
      · refine .inl ?_
        rw [Std.ExtTreeMap.getElem?_erase, if_neg (by simpa using hkn)]
        exact hk
      · exact .inr (hk.trans_le (by simp [Announcer.pending]))
  | send ev ha _ =>
    rw [ha] at hk
    exact hk

theorem ConsumerMove.settled (hm : ConsumerMove stop s a s') (hk : s.Settled k) :
    s'.Settled k := by
  cases hm with
  | signal result _ => exact hk.imp id fun h => by simpa [State.popped, State.signal] using h
  | _ => exact hk

/-- What was deposited stays so. -/
theorem settled_step {a : Action β} (h : step cfg stop s a = some s') (hk : s.Settled k) :
    s'.Settled k := by
  cases a with
  | worker w a =>
    obtain ⟨x, x', s₁, -, hm, rfl⟩ := step_worker h
    exact hm.settled hk
  | announcer a => exact (step_announcer h).settled hk
  | consumer a => exact (step_consumer h).settled hk
  | cancel =>
    obtain rfl := step_cancel h
    exact hk

theorem settled_of_deposit {a : Action β} (ha : depositedHeight s a = some k)
    (h : step cfg stop s a = some s') : s'.Settled k := by
  obtain ⟨w, newBlock, rfl, hw⟩ := depositedHeight_eq_some ha
  obtain ⟨x, x', s₁, hx, hm, rfl⟩ := step_worker h
  rw [hw] at hx
  obtain rfl := Option.some.inj hx
  cases hm with
  | deposit _ _ _ =>
    refine .inl ?_
    change (s.newBlocksMap.insert k newBlock)[k]? ≠ none
    simp

/-- From a state in order, a run deposits each height at most once, and none that was
deposited before. -/
theorem deposits_fresh (l : List (Action β)) (ho : s.Ownership) :
    (deposits cfg stop s l).Nodup ∧ ∀ k ∈ deposits cfg stop s l, ¬ s.Settled k := by
  induction l generalizing s with
  | nil => exact ⟨List.nodup_nil, fun k hk => by cases hk⟩
  | cons a l ih =>
    cases hs : step cfg stop s a with
    | none =>
      simp only [deposits, hs, Option.map_none, Option.getD_none, List.append_nil]
      exact ⟨by cases depositedHeight s a <;> simp,
        fun k hk => not_settled_of_deposit ho (Option.mem_toList.mp hk)⟩
    | some s' =>
      obtain ⟨hnodup, hfresh⟩ := ih (step_ownership ho hs)
      have hold : ∀ k ∈ deposits cfg stop s' l, ¬ s.Settled k :=
        fun k hk hset => hfresh k hk (settled_step hs hset)
      simp only [deposits, hs, Option.map_some, Option.getD_some]
      cases ha : depositedHeight s a with
      | none => exact ⟨hnodup, hold⟩
      | some h =>
        refine ⟨List.nodup_cons.mpr ⟨fun hmem => hfresh h hmem (settled_of_deposit ha hs), hnodup⟩,
          ?_⟩
        intro k hk
        rcases List.mem_cons.mp hk with rfl | hk
        · exact not_settled_of_deposit ho ha
        · exact hold k hk

/-- **The reorder buffer is bounded**, for every number of jobs and every interleaving: the
map holds at most `1024 * jobs + jobs` blocks, no height is deposited twice, and none after
it was announced. -/
theorem reorder_buffer_bounded (cfg : Syncer) (stop : Option ℤ) (start : ℤ)
    (l : List (Action β)) (s : State β)
    (hrun : perform (step cfg stop) (State.init cfg stop start) l = some s) :
    s.newBlocksMap.size ≤ 1024 * cfg.jobs + cfg.jobs ∧
      (deposits cfg stop (State.init cfg stop start : State β) l).Nodup ∧
      ∀ a h, depositedHeight s a = some h → s.popped ≤ h := by
  have hs : SyncReaches cfg stop start s := Reachable.init.perform hrun
  refine ⟨?_, (deposits_fresh l (init_ownership cfg stop start)).1, ?_⟩
  · obtain ⟨hlen, hsize⟩ := hs.bounded
    have hheld : s.workers.countP Worker.isHeld ≤ s.workers.length := List.countP_le_length
    omega
  · intro a h ha
    exact not_lt.mp fun hlt => not_settled_of_deposit hs.ownership ha (.inr hlt)

end Runs

/-- Two workers take the first heights and deposit them in the other order. -/
def crossedDeposits : List (Action Unit) :=
  [.worker 0 .take, .worker 1 .take, .worker 1 .check, .worker 1 (.fetched (.ok ())),
    .worker 1 .deposit, .worker 0 .check, .worker 0 (.fetched (.ok ())), .worker 0 .deposit]

/-- Both blocks are in the map, one height each. -/
theorem reorder_buffer_bounded_crossed :
    ∃ s : State Unit, perform (step (newSyncer 2 false) (some 3))
        (State.init (newSyncer 2 false) (some 3) 1) crossedDeposits = some s ∧
      s.newBlocksMap.size = 2 ∧ s.newBlocksMap.size ≤ 1024 * 2 + 2 ∧
      deposits (newSyncer 2 false) (some 3) (State.init (newSyncer 2 false) (some 3) 1)
        crossedDeposits = [2, 1] ∧
      ([2, 1] : List ℕ).Nodup := by
  obtain ⟨hsize, hnodup, -⟩ :=
    reorder_buffer_bounded (newSyncer 2 false) (some 3) 1 crossedDeposits _ rfl
  exact ⟨_, rfl, rfl, hsize, rfl, hnodup⟩

end EvmGateway.Blocksync
