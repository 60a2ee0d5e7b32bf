import EvmGateway.Blocksync.Getter

/-!
# What the goroutines can do

Each goroutine has one relation that lists its moves with their guards, and one lemma that
takes an action of the step function apart into a move.  Invariants are proved by cases on
the moves and never unfold the step function.
-/

namespace EvmGateway.Blocksync

open Lib

variable {β : Type} {cfg : Syncer} {stop : Option ℤ} {s s' : State β}

/-- The moves of a worker: from a place, to a place, with the state it leaves behind. -/
inductive WorkerMove (cfg : Syncer) (s : State β) : Worker β → Worker β → State β → Prop
  | take : WorkerMove cfg s .idle (.check s.height) { s with height := s.height + 1 }
  | leave (h : ℕ) (hdone : s.isDone = true) : WorkerMove cfg s (.check h) .exited s
  | fetch (h : ℕ) (hdone : s.isDone = false) : WorkerMove cfg s (.check h) (.fetching h) s
  | fetched (h : ℕ) (block : β) :
      WorkerMove cfg s (.fetching h) (.deposit h { height := h, block := some block }) s
  | fail (h : ℕ) (err : FetchErr) : WorkerMove cfg s (.fetching h) (.failed h err) s
  | giveUp (h : ℕ) (err : FetchErr) (hdone : err = .canceled ∨ s.isDone = true) :
      WorkerMove cfg s (.failed h err) .exited s
  | skip (h : ℕ) (hdone : s.isDone = false) (hgaps : cfg.allowGaps = true) :
      WorkerMove cfg s (.failed h .unavailable) (.deposit h { height := h, skipped := true })
        { s with skipped := s.skipped ++ [h] }
  | retry (h : ℕ) (err : FetchErr) (herr : err ≠ .canceled) (hdone : s.isDone = false) :
      WorkerMove cfg s (.failed h err) (.check h) s
  | deposit (h : ℕ) (newBlock : NewBlockData β) (hlock : s.announcer.locks = false) :
      WorkerMove cfg s (.deposit h newBlock) (afterSize cfg (depositBlock s h newBlock))
        (depositBlock s h newBlock)
  | recheck (hlock : s.announcer.locks = false) : WorkerMove cfg s .held (afterSize cfg s) s

theorem workerStep_move {x x' : Worker β} {a : WorkerAction β}
    (h : workerStep cfg s x a = some (x', s')) : WorkerMove cfg s x x' s' := by
  unfold workerStep at h
  split at h
  case h_1 =>
    cases h
    exact .take
  case h_2 n =>
    cases h
    cases hdone : s.isDone with
    | true => exact .leave n hdone
    | false => exact .fetch n hdone
  case h_3 n result =>
    cases h
    cases result with
    | ok block => exact .fetched n block
    | error err => exact .fail n err
  case h_4 n err =>
    simp only [onFetchError, Option.some.injEq] at h
    split_ifs at h with hdone hskip
    · cases h
      exact .giveUp n err hdone
    · cases h
      obtain ⟨rfl, hgaps⟩ := hskip
      exact .skip n (by simpa using hdone) hgaps
    · cases h
      exact .retry n err (fun herr => hdone (.inl herr)) (by simpa using fun hd => hdone (.inr hd))
  case h_5 n newBlock =>
    split_ifs at h with hlock
    cases h
    exact .deposit n newBlock (by simpa using hlock)
  case h_6 =>
    split_ifs at h with hlock
    cases h
    exact .recheck (by simpa using hlock)
  case h_7 => cases h

theorem step_worker {w : ℕ} {a : WorkerAction β} (h : step cfg stop s (.worker w a) = some s') :
    ∃ x x' s₁, s.workers[w]? = some x ∧ WorkerMove cfg s x x' s₁ ∧
      s' = { s₁ with workers := s.workers.set w x' } := by
  unfold step at h
  cases hx : s.workers[w]? with
  | none => simp [hx] at h
  | some x =>
    simp only [hx] at h
    obtain ⟨⟨x', s₁⟩, hstep, rfl⟩ := Option.map_eq_some_iff.mp h
    exact ⟨x, x', s₁, rfl, workerStep_move hstep, rfl⟩

/-- The moves of the announcer. -/
inductive AnnouncerMove (cfg : Syncer) (s : State β) : State β → Prop
  | leave (ha : s.announcer = .check ∨ s.announcer = .missing) (hdone : s.isDone = true) :
      AnnouncerMove cfg s s.endStream
  | look (ha : s.announcer = .check) (hdone : s.isDone = false) :
      AnnouncerMove cfg s { s with announcer := .lookup }
  | found (ev : NewBlockData β) (ha : s.announcer = .lookup)
      (hev : s.newBlocksMap[s.next]? = some ev) :
      AnnouncerMove cfg s
        { s with newBlocksMap := s.newBlocksMap.erase s.next, announcer := .sending ev }
  | miss (ha : s.announcer = .lookup) (hev : s.newBlocksMap[s.next]? = none) :
      AnnouncerMove cfg s { s with announcer := .missing }
  | commit (ha : s.announcer = .missing) (hdone : s.isDone = false) :
      AnnouncerMove cfg s { s with announcer := .parking }
  | park (ha : s.announcer = .parking) : AnnouncerMove cfg s { s with announcer := .waiting }
  | send (ev : NewBlockData β) (ha : s.announcer = .sending ev)
      (hroom : s.newBlocksC.length < cfg.channelCap) :
      AnnouncerMove cfg s
        { s with newBlocksC := s.newBlocksC ++ [ev], next := s.next + 1, announcer := .check }

theorem step_announcer {a : AnnouncerAction} (h : step cfg stop s (.announcer a) = some s') :
    AnnouncerMove cfg s s' := by
  change announcerStep cfg s s.announcer a = some s' at h
  unfold announcerStep at h
  split at h
  case h_1 ha =>
    cases hdone : s.isDone with
    | true =>
      simp only [hdone, if_true, Option.some.injEq] at h
      exact h ▸ .leave (.inl ha) hdone
    | false =>
      simp only [hdone, Bool.false_eq_true, if_false, Option.some.injEq] at h
      exact h ▸ .look ha hdone
  case h_2 ha =>
    simp only [State.lookupNext, Option.some.injEq] at h
    cases hev : s.newBlocksMap[s.next]? with
    | none =>
      simp only [hev] at h
      exact h ▸ .miss ha hev
    | some ev =>
      simp only [hev] at h
      exact h ▸ .found ev ha hev
  case h_3 ha =>
    cases hdone : s.isDone with
    | true =>
      simp only [hdone, if_true, Option.some.injEq] at h
      exact h ▸ .leave (.inr ha) hdone
    | false =>
      simp only [hdone, Bool.false_eq_true, if_false, Option.some.injEq] at h
      exact h ▸ .commit ha hdone
  case h_4 ha =>
    simp only [Option.some.injEq] at h
    exact h ▸ .park ha
  case h_5 ev ha =>
    split_ifs at h with hroom
    simp only [Option.some.injEq] at h
    exact h ▸ .send ev ha hroom
  case h_6 => cases h

/-- The moves of the consumer. -/
inductive ConsumerMove (stop : Option ℤ) (s : State β) : ConsumerAction → State β → Prop
  | mismatch (block : NewBlockData β) (rest : List (NewBlockData β))
      (hc : s.consumer = .receiving) (hrange : s.inRange stop = true)
      (hchan : s.newBlocksC = block :: rest) (hheight : block.height ≠ s.expected) :
      ConsumerMove stop s .receive
        { s with newBlocksC := rest, received := s.received + 1, consumer := .returning .mismatch }
  | skip (block : NewBlockData β) (rest : List (NewBlockData β))
      (hc : s.consumer = .receiving) (hrange : s.inRange stop = true)
      (hchan : s.newBlocksC = block :: rest) (hheight : block.height = s.expected)
      (hskip : block.skipped = true) :
      ConsumerMove stop s .receive
        { s with newBlocksC := rest, received := s.received + 1, expected := s.expected + 1 }
  | call (block : NewBlockData β) (rest : List (NewBlockData β))
      (hc : s.consumer = .receiving) (hrange : s.inRange stop = true)
      (hchan : s.newBlocksC = block :: rest) (hheight : block.height = s.expected)
      (hskip : block.skipped = false) :
      ConsumerMove stop s .receive
        { s with newBlocksC := rest, received := s.received + 1, consumer := .handling block,
                 calls := s.calls ++ [block] }
  | streamClosed (hc : s.consumer = .receiving) (hrange : s.inRange stop = true)
      (hchan : s.newBlocksC = []) (hend : s.streamEnd = true) :
      ConsumerMove stop s .streamClosed { s with consumer := .returning .streamClosed }
  | ctxDone (hc : s.consumer = .receiving) (hrange : s.inRange stop = true)
      (hctx : s.canceled = true) :
      ConsumerMove stop s .ctxDone { s with consumer := .returning .ctxErr }
  | finish (hc : s.consumer = .receiving) (hrange : s.inRange stop = false) :
      ConsumerMove stop s .finish { s with consumer := .returning .nil }
  | handled (block : NewBlockData β) (hc : s.consumer = .handling block) :
      ConsumerMove stop s (.handled true)
        { s with expected := s.expected + 1, consumer := .receiving }
  | handlerErr (block : NewBlockData β) (hc : s.consumer = .handling block) :
      ConsumerMove stop s (.handled false) { s with consumer := .returning .handlerErr }
  | signal (result : Result) (hc : s.consumer = .returning result) :
      ConsumerMove stop s .signal { s.signal with consumer := .signalled result }
  | close (result : Result) (hc : s.consumer = .signalled result) :
      ConsumerMove stop s .close { s with closed := true, consumer := .returned result }

theorem step_consumer {a : ConsumerAction} (h : step cfg stop s (.consumer a) = some s') :
    ConsumerMove stop s a s' := by
  change consumerStep s stop s.consumer a = some s' at h
  unfold consumerStep at h
  split at h
  case h_1 hc =>
    split at h
    case h_1 block rest hchan =>
      split_ifs at h with hrange
      obtain rfl := Option.some.inj h
      unfold State.receiveBlock
      split_ifs with hheight hskip
      · exact .mismatch block rest hc hrange hchan hheight
      · exact .skip block rest hc hrange hchan (not_not.mp hheight) hskip
      · exact .call block rest hc hrange hchan (not_not.mp hheight) (by simpa using hskip)
    case h_2 => cases h
  case h_2 hc =>
    split_ifs at h with hcond
    obtain rfl := Option.some.inj h
    simp only [Bool.and_eq_true, List.isEmpty_iff] at hcond
    exact .streamClosed hc hcond.1.1 hcond.1.2 hcond.2
  case h_3 hc =>
    split_ifs at h with hcond
    obtain rfl := Option.some.inj h
    simp only [Bool.and_eq_true] at hcond
    exact .ctxDone hc hcond.1 hcond.2
  case h_4 hc =>
    split_ifs at h with hrange
    obtain rfl := Option.some.inj h
    exact .finish hc (by simpa using hrange)
  case h_5 block ok hc =>
    cases ok with
    | true =>
      obtain rfl := Option.some.inj h
      exact .handled block hc
    | false =>
      obtain rfl := Option.some.inj h
      exact .handlerErr block hc
  case h_6 result hc =>
    obtain rfl := Option.some.inj h
    exact .signal result hc
  case h_7 result hc =>
    obtain rfl := Option.some.inj h
    exact .close result hc
  case h_8 => cases h

theorem step_cancel (h : step cfg stop s .cancel = some s') : s' = { s with canceled := true } :=
  (Option.some.inj h).symm

end EvmGateway.Blocksync
