import Peg.Load.Cache

/-!
# What a cache keeps

* `Key.Identity`: what two keys for one source have in common; `Key.beq_iff` shows that the comparison
  of keys decides exactly that.
* `Cache.get?_congr`: a cache answers alike for two keys of one source.
* `Cache.fetch_cases`: everything that a request can do.
-/

namespace Peg

/-! ## Keys -/

/-- The source that a key stands for: a file by the steps of its path and the time of its last change,
or a text, in one mode. -/
inductive Key.Identity where
  | file (steps : List Path.Component) (stamp : Nat) (mode : Mode)
  | inline (text : String) (mode : Mode)
deriving DecidableEq, Repr

namespace Key

/-- The source that the key stands for. -/
def identity : Key → Identity
  | .file path stamp mode => .file path.components stamp mode
  | .inline text mode => .inline text mode

theorem beq_iff {key key' : Key} : (key == key') = true ↔ key.identity = key'.identity := by
  change same key key' = true ↔ _
  cases key with
  | file path stamp mode =>
      cases key' with
      | file path' stamp' mode' => simp [same, identity, and_assoc]
      | inline text' mode' => simp [same, identity]
  | inline text mode =>
      cases key' with
      | file path' stamp' mode' => simp [same, identity]
      | inline text' mode' => simp [same, identity]

end Key

/-! ## Caches -/

namespace Cache

variable {α ε : Type} {cache : Cache α} {key key' : Key} {value : α}

theorem get?_congr (same : key.identity = key'.identity) : cache.get? key = cache.get? key' := by
  unfold get?
  induction cache.entries with
  | nil => rfl
  | cons entry entries ih =>
      have compare : (key == entry.1) = (key' == entry.1) := by
        rw [Bool.eq_iff_iff, Key.beq_iff, Key.beq_iff, same]
      rw [List.lookup_cons, List.lookup_cons, compare, ih]

theorem get?_eq_none_iff :
    cache.get? key = none ↔ ∀ entry ∈ cache.entries, entry.1.identity ≠ key.identity := by
  rw [get?, List.lookup_eq_none_iff]
  refine forall₂_congr fun entry _ => ?_
  rw [bne, Bool.not_eq_true', ← Bool.not_eq_true, Key.beq_iff, ne_comm]

/-- What is kept under a key was kept under a key for the same source. -/
theorem exists_mem_of_get? (found : cache.get? key = some value) :
    ∃ key', (key', value) ∈ cache.entries ∧ key'.identity = key.identity := by
  unfold get? at found
  induction entries : cache.entries generalizing cache with
  | nil =>
      rw [entries] at found
      cases found
  | cons entry rest ih =>
      rw [entries, List.lookup_cons] at found
      split at found
      · next same =>
          cases found
          exact ⟨entry.1, List.mem_cons_self, (Key.beq_iff.mp same).symm⟩
      · obtain ⟨key', member, same⟩ := @ih ⟨rest⟩ found rfl
        exact ⟨key', List.mem_cons_of_mem _ member, same⟩

/-- Everything that a request can do: find the value, build and keep it, or fail to build it. -/
theorem fetch_cases (cache : Cache α) (key : Key) (build : Unit → Except ε α) :
    (∃ value, cache.get? key = some value ∧ cache.fetch key build = (.hit value, cache)) ∨
      (∃ value, cache.get? key = none ∧ build () = .ok value ∧
        cache.fetch key build = (.built value, ⟨cache.entries ++ [(key, value)]⟩)) ∨
      (∃ error, cache.get? key = none ∧ build () = .error error ∧
        cache.fetch key build = (.failed error, cache)) := by
  cases kept : cache.get? key with
  | some value => exact Or.inl ⟨value, rfl, by simp only [fetch, request, kept, settle]⟩
  | none =>
      cases result : build () with
      | ok value =>
          exact Or.inr (Or.inl ⟨value, rfl, rfl, by simp only [fetch, request, kept, result, settle]⟩)
      | error error =>
          exact Or.inr (Or.inr ⟨error, rfl, rfl, by simp only [fetch, request, kept, result, settle]⟩)

/-- What is kept stays when more is added. -/
theorem get?_append (added : List (Key × α)) (kept : cache.get? key = some value) :
    (Cache.mk (cache.entries ++ added)).get? key = some value := by
  rw [get?] at kept ⊢
  rw [List.lookup_append, kept, Option.some_or]

/-- What is added for another source changes nothing. -/
theorem get?_concat_of_ne {other : Key} (differs : key.identity ≠ other.identity) (added : α) :
    (Cache.mk (cache.entries ++ [(other, added)])).get? key = cache.get? key := by
  have absent : (key == other) = false := Bool.eq_false_iff.mpr fun same => differs (Key.beq_iff.mp same)
  rw [get?, get?, List.lookup_append, List.lookup_cons, absent, List.lookup_nil, Option.or_none]

/-- What is built for a key is kept under it. -/
theorem get?_of_built (absent : cache.get? key = none) :
    (Cache.mk (cache.entries ++ [(key, value)])).get? key = some value := by
  rw [get?] at absent ⊢
  rw [List.lookup_append, absent, Option.none_or, List.lookup_cons, Key.beq_iff.mpr rfl]

/-- A request keeps what is kept. -/
theorem get?_fetch {kept : α} (build : Unit → Except ε α) (requested : Key)
    (found : cache.get? key = some kept) :
    (cache.fetch requested build).2.get? key = some kept := by
  rcases cache.fetch_cases requested build with ⟨_, -, eq⟩ | ⟨value, -, -, eq⟩ | ⟨_, -, -, eq⟩
  · rw [eq]
    exact found
  · rw [eq]
    exact get?_append _ found
  · rw [eq]
    exact found

end Cache

end Peg
