import Mathlib.Data.List.Nodup

/-!
# A least-recently-used cache

The entries of a cache are kept most recent first.  Looking a key up moves its entry to
the front, adding one puts it there and drops the last entry when the cache is full.
The two bounds of the data structure, one entry per key and at most `n` entries, are
part of the type.

What a client needs is that a cache never invents a value: a property of all entries
survives lookups (`Holds.get`) and additions of values that have it (`Holds.add`),
whatever is evicted meanwhile.
-/

namespace EvmGateway.Lib

universe u v

/-- A cache of at most `n` entries, most recent first. -/
structure Lru (κ : Type u) (α : Type v) (n : ℕ) where
  entries : List (κ × α)
  nodup : (entries.map Prod.fst).Nodup
  length_le : entries.length ≤ n

namespace Lru

variable {κ : Type u} {α : Type v} {n : ℕ}

/-- The empty cache. -/
def empty (κ : Type u) (α : Type v) (n : ℕ) : Lru κ α n := ⟨[], List.nodup_nil, Nat.zero_le n⟩

/-- Every entry has the property. -/
def Holds (P : κ → α → Prop) (c : Lru κ α n) : Prop := ∀ k a, (k, a) ∈ c.entries → P k a

theorem holds_empty (P : κ → α → Prop) : Holds P (empty κ α n) := by
  intro k a h
  simp [empty] at h

variable [DecidableEq κ]

/-- Put a value in front, in place of an older one under its key. -/
def add (c : Lru κ α n) (k : κ) (a : α) : Lru κ α n where
  entries := ((k, a) :: c.entries.filter (·.1 ≠ k)).take n
  nodup := by
    have hsub : (((k, a) :: c.entries.filter (·.1 ≠ k)).take n).Sublist
        ((k, a) :: c.entries.filter (·.1 ≠ k)) := List.take_sublist ..
    refine (hsub.map Prod.fst).nodup ?_
    rw [List.map_cons, List.nodup_cons]
    constructor
    · simp
    · exact (List.filter_sublist.map Prod.fst).nodup c.nodup
  length_le := List.length_take_le n _

/-- The value under a key, without marking it as used. -/
def peek (c : Lru κ α n) (k : κ) : Option α := (c.entries.find? (·.1 = k)).map Prod.snd

/-- Look a key up.  A value that is found becomes the most recent one. -/
def get (c : Lru κ α n) (k : κ) : Option α × Lru κ α n :=
  match c.peek k with
  | some a => (some a, c.add k a)
  | none => (none, c)

namespace Holds

variable {P : κ → α → Prop} {c : Lru κ α n}

theorem peek (h : Holds P c) {k : κ} {a : α} (hk : c.peek k = some a) : P k a := by
  obtain ⟨e, he, rfl⟩ := Option.map_eq_some_iff.mp hk
  have hkey : e.1 = k := by simpa using List.find?_some he
  subst hkey
  exact h e.1 e.2 (List.mem_of_find?_eq_some he)

theorem add (h : Holds P c) {k : κ} {a : α} (hP : P k a) : Holds P (c.add k a) := by
  intro k' a' hmem
  rcases List.mem_cons.mp (List.mem_of_mem_take hmem) with heq | hold
  · obtain ⟨rfl, rfl⟩ := Prod.mk.inj heq
    exact hP
  · exact h k' a' (List.mem_filter.mp hold).1

theorem of_get (h : Holds P c) {k : κ} {a : α} (hk : (c.get k).1 = some a) : P k a := by
  unfold Lru.get at hk
  cases hpeek : c.peek k with
  | none => simp [hpeek] at hk
  | some b =>
    simp only [hpeek] at hk
    obtain rfl := Option.some.inj hk
    exact h.peek hpeek

theorem get (h : Holds P c) (k : κ) : Holds P (c.get k).2 := by
  unfold Lru.get
  cases hpeek : c.peek k with
  | none => exact h
  | some a => exact h.add (h.peek hpeek)

end Holds

end Lru

end EvmGateway.Lib
