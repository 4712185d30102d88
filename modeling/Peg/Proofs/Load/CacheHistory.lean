import Mathlib.Data.Finset.Card
import Peg.Proofs.Load.Cache

/-!
# Histories of a shared cache

Any number of clients call one cache. A call excludes all others until it has answered, so a history is
a sequence of whole calls; who calls what and when is left open, and so is whether a builder succeeds.

* `Cache.Run`: the histories that lead from one cache to another.
* `Cache.Records`: the invariant, that a cache keeps exactly what was built, and nothing twice.
* `Cache.Run.get?_eq_some`: what is kept stays.
* `Cache.Run.history`: what holds of every history that begins with an empty cache.
-/

namespace Peg.Cache

variable {κ ε α : Type}

/-! ## Calls and histories -/

/-- A call to a cache. -/
inductive Call (ε α : Type) where
  | get (key : Key)
  | contains (key : Key)
  | size
  | fetch (key : Key) (build : Unit → Except ε α)

/-- What a cache answers. -/
inductive Answer (ε α : Type) where
  | kept (value : Option α)
  | held (held : Bool)
  | count (size : Nat)
  | fetched (outcome : Outcome ε α)

/-- The answer to a call, with the cache that the call leaves behind. -/
def perform (cache : Cache α) : Call ε α → Answer ε α × Cache α
  | .get key => (.kept (cache.get? key), cache)
  | .contains key => (.held (cache.contains key), cache)
  | .size => (.count cache.size, cache)
  | .fetch key build => (.fetched (cache.fetch key build).1, (cache.fetch key build).2)

/-- A call that took place: who made it and how it was answered. -/
structure Event (κ ε α : Type) where
  client : κ
  call : Call ε α
  answer : Answer ε α

/-- The calls that lead from one cache to another, in the order in which they had the cache to
themselves. -/
inductive Run (start : Cache α) : List (Event κ ε α) → Cache α → Prop
  | done : Run start [] start
  | call {events : List (Event κ ε α)} {cache : Cache α} (client : κ) (call : Call ε α) :
    Run start events cache →
    Run start (events ++ [⟨client, call, (cache.perform call).1⟩]) (cache.perform call).2

namespace Event

/-- What the event built, with its key. -/
def built? : Event κ ε α → Option (Key × α)
  | ⟨_, .fetch key _, .fetched (.built value)⟩ => some (key, value)
  | _ => none

/-- The key for which the event ran a builder, whether it succeeded or not. -/
def builderKey? : Event κ ε α → Option Key
  | ⟨_, .fetch key _, .fetched (.built _)⟩ => some key
  | ⟨_, .fetch key _, .fetched (.failed _)⟩ => some key
  | _ => none

/-- The value that the event handed out, with the key that it was asked for under. -/
def result? : Event κ ε α → Option (Key × α)
  | ⟨_, .get key, .kept (some value)⟩ => some (key, value)
  | ⟨_, .fetch key _, .fetched (.hit value)⟩ => some (key, value)
  | ⟨_, .fetch key _, .fetched (.built value)⟩ => some (key, value)
  | _ => none

end Event

/-- The keys for which a builder succeeded. -/
def builtKeys (events : List (Event κ ε α)) : List Key :=
  (events.filterMap Event.built?).map Prod.fst

/-! ## One call -/

variable {cache final : Cache α} {key : Key} {value : α}

theorem get?_perform (call : Call ε α) (kept : cache.get? key = some value) :
    (cache.perform call).2.get? key = some value := by
  cases call with
  | get | contains | size => exact kept
  | fetch requested build => exact get?_fetch build requested kept

/-- A builder runs only where nothing is kept. -/
theorem get?_eq_none_of_builderKey? {client : κ} {call : Call ε α}
    (ran : Event.builderKey? ⟨client, call, (cache.perform call).1⟩ = some key) :
    cache.get? key = none := by
  cases call with
  | get | contains | size => cases ran
  | fetch requested build =>
      rw [perform] at ran
      rcases cache.fetch_cases requested build with
        ⟨value, -, eq⟩ | ⟨value, absent, -, eq⟩ | ⟨error, absent, -, eq⟩
      · rw [eq] at ran
        cases ran
      · rw [eq] at ran
        cases ran
        exact absent
      · rw [eq] at ran
        cases ran
        exact absent

/-- What a call hands out is kept when it is over. -/
theorem get?_of_result? {client : κ} {call : Call ε α}
    (handed : Event.result? ⟨client, call, (cache.perform call).1⟩ = some (key, value)) :
    (cache.perform call).2.get? key = some value := by
  cases call with
  | contains | size => cases handed
  | get requested =>
      cases kept : cache.get? requested with
      | none =>
          rw [perform, kept] at handed
          cases handed
      | some value =>
          rw [perform, kept] at handed
          cases handed
          exact kept
  | fetch requested build =>
      rw [perform] at handed ⊢
      rcases cache.fetch_cases requested build with
        ⟨value, kept, eq⟩ | ⟨value, absent, -, eq⟩ | ⟨error, -, -, eq⟩
      · rw [eq] at handed ⊢
        cases handed
        exact kept
      · rw [eq] at handed ⊢
        cases handed
        exact get?_of_built absent
      · rw [eq] at handed
        cases handed

/-- A call whose builder fails leaves the cache as it is. -/
theorem perform_of_failed {call : Call ε α} {error : ε}
    (failed : (cache.perform call).1 = .fetched (.failed error)) :
    (cache.perform call).2 = cache := by
  cases call with
  | get | contains | size => rfl
  | fetch requested build =>
      rw [perform] at failed ⊢
      rcases cache.fetch_cases requested build with ⟨_, -, eq⟩ | ⟨_, -, -, eq⟩ | ⟨_, -, -, eq⟩
      · rw [eq]
      · rw [eq] at failed
        cases failed
      · rw [eq]

/-- A call adds to the cache what it built. -/
theorem entries_perform (client : κ) (call : Call ε α) :
    (cache.perform call).2.entries =
      cache.entries ++ (Event.built? ⟨client, call, (cache.perform call).1⟩).toList := by
  cases call with
  | get | contains | size => exact (List.append_nil _).symm
  | fetch requested build =>
      rw [perform]
      rcases cache.fetch_cases requested build with ⟨_, -, eq⟩ | ⟨_, -, -, eq⟩ | ⟨_, -, -, eq⟩
      · rw [eq]
        exact (List.append_nil _).symm
      · rw [eq]
        rfl
      · rw [eq]
        exact (List.append_nil _).symm

theorem Event.builderKey?_of_built? {event : Event κ ε α} (built : event.built? = some (key, value)) :
    event.builderKey? = some key := by
  unfold built? at built
  split at built
  · cases built
    rfl
  · cases built

theorem Event.result?_of_built? {event : Event κ ε α} (built : event.built? = some (key, value)) :
    event.result? = some (key, value) := by
  unfold built? at built
  split at built
  · cases built
    rfl
  · cases built

/-! ## Histories -/

namespace Run

variable {start : Cache α} {events past future : List (Event κ ε α)}

/-- What is kept stays. -/
theorem get?_eq_some (run : Run start events final) (kept : start.get? key = some value) :
    final.get? key = some value := by
  induction run with
  | done => exact kept
  | call _ call _ ih => exact get?_perform call ih

/-- What an event handed out is kept from then on. -/
theorem get?_of_result? (run : Run start events final) {event : Event κ ε α}
    (member : event ∈ events) (handed : event.result? = some (key, value)) :
    final.get? key = some value := by
  induction run with
  | done => cases member
  | call _ call _ ih =>
      rcases List.mem_append.mp member with earlier | last
      · exact get?_perform call (ih earlier)
      · rw [List.mem_singleton.mp last] at handed
        exact Cache.get?_of_result? handed

/-- No builder runs for a source that something is kept for. -/
theorem identity_ne_of_builderKey? (run : Run start events final)
    (kept : start.get? key = some value) {event : Event κ ε α} (member : event ∈ events)
    {requested : Key} (ran : event.builderKey? = some requested) :
    requested.identity ≠ key.identity := by
  induction run with
  | done => cases member
  | call _ call earlierRun ih =>
      rcases List.mem_append.mp member with earlier | last
      · exact ih earlier
      · rw [List.mem_singleton.mp last] at ran
        intro same
        have absent := get?_eq_none_of_builderKey? ran
        rw [get?_congr same, earlierRun.get?_eq_some kept] at absent
        cases absent

end Run

/-- The cache keeps exactly what the events built, and they built nothing twice. -/
structure Records (events : List (Event κ ε α)) (cache : Cache α) : Prop where
  entries : cache.entries = events.filterMap Event.built?
  nodup : ((builtKeys events).map Key.identity).Nodup

/-- Every call keeps the records: what it builds is new. -/
theorem Records.perform {events : List (Event κ ε α)} (records : Records events cache) (client : κ)
    (call : Call ε α) :
    Records (events ++ [⟨client, call, (cache.perform call).1⟩]) (cache.perform call).2 := by
  cases built : Event.built? ⟨client, call, (cache.perform call).1⟩ with
  | none =>
      have same : (events ++ [Event.mk client call (cache.perform call).1]).filterMap Event.built? =
          events.filterMap Event.built? := by
        rw [List.filterMap_append, List.filterMap_cons, built, List.filterMap_nil, List.append_nil]
      refine ⟨?_, ?_⟩
      · rw [entries_perform client, built, same, records.entries]
        exact List.append_nil _
      · rw [builtKeys, same]
        exact records.nodup
  | some entry =>
      have added : (events ++ [Event.mk client call (cache.perform call).1]).filterMap Event.built? =
          events.filterMap Event.built? ++ [entry] := by
        rw [List.filterMap_append, List.filterMap_cons, built, List.filterMap_nil]
      have absent : cache.get? entry.1 = none :=
        get?_eq_none_of_builderKey? (Event.builderKey?_of_built? built)
      refine ⟨?_, ?_⟩
      · rw [entries_perform client, built, added, records.entries]
        rfl
      · rw [builtKeys, added, List.map_append, List.map_append]
        refine List.nodup_append.mpr ⟨records.nodup, List.nodup_singleton _, ?_⟩
        intro identity earlier identity' last same
        obtain ⟨key, keyMember, rfl⟩ := List.mem_map.mp earlier
        obtain ⟨kept, keptMember, rfl⟩ := List.mem_map.mp keyMember
        rw [← records.entries] at keptMember
        rw [List.mem_singleton.mp last] at same
        exact get?_eq_none_iff.mp absent kept keptMember same

theorem Run.records {events : List (Event κ ε α)} (run : Run (.empty : Cache α) events cache) :
    Records events cache := by
  induction run with
  | done => exact ⟨rfl, List.nodup_nil⟩
  | call client call _ ih => exact ih.perform client call

/-- What was built for is kept. -/
theorem Run.get?_of_mem_builtKeys {start : Cache α} {events : List (Event κ ε α)}
    (run : Run start events cache) (member : key ∈ builtKeys events) :
    ∃ value, cache.get? key = some value := by
  obtain ⟨⟨_, value⟩, entryMember, rfl⟩ := List.mem_map.mp member
  obtain ⟨event, eventMember, built⟩ := List.mem_filterMap.mp entryMember
  exact ⟨value, run.get?_of_result? eventMember (Event.result?_of_built? built)⟩

/-- **The history of a shared cache.** Whatever calls the clients of an initially empty cache make, in
whatever order, and whichever builders fail:

* what is kept under a key is kept under it in every later state;
* a builder succeeds at most once for a source, and none runs for it afterwards;
* whoever asks for a source is handed the same value;
* a call whose builder fails leaves the cache as it is;
* as many values are kept as there are sources for which a builder succeeded. -/
theorem Run.history {past future : List (Event κ ε α)}
    (before : Run (.empty : Cache α) past cache) (after : Run cache future final) :
    (∀ key value, cache.get? key = some value → final.get? key = some value) ∧
      ((builtKeys past).map Key.identity).Nodup ∧
      (∀ built ∈ builtKeys past, ∀ event ∈ future, ∀ requested,
        event.builderKey? = some requested → requested.identity ≠ built.identity) ∧
      (∀ event ∈ past, ∀ event' ∈ past, ∀ key value key' value',
        event.result? = some (key, value) → event'.result? = some (key', value') →
        key.identity = key'.identity → value = value') ∧
      (∀ (call : Call ε α) (error : ε), (cache.perform call).1 = .fetched (.failed error) →
        (cache.perform call).2 = cache) ∧
      cache.size = ((builtKeys past).map Key.identity).toFinset.card := by
  refine ⟨fun _ _ => after.get?_eq_some, before.records.nodup, ?_, ?_,
    fun _ _ => perform_of_failed, ?_⟩
  · intro built member event eventMember requested ran
    obtain ⟨value, kept⟩ := before.get?_of_mem_builtKeys member
    exact after.identity_ne_of_builderKey? kept eventMember ran
  · intro event member event' member' key value key' value' handed handed' same
    have kept := before.get?_of_result? member handed
    have kept' := before.get?_of_result? member' handed'
    rw [get?_congr same, kept'] at kept
    exact (Option.some.inj kept).symm
  · rw [List.toFinset_card_of_nodup before.records.nodup, List.length_map, builtKeys,
      List.length_map, ← before.records.entries, size]

/-- Two clients spell the path of one file in two ways. The builder of the first fails, that of the
second succeeds, and the next one does not run. -/
theorem Run.history_two_spellings :
    let spelled : Key := .file ⟨"/g/./a"⟩ 0 .full
    let respelled : Key := .file ⟨"/g//a"⟩ 0 .full
    let past : List (Event Nat String Nat) :=
      [⟨0, .fetch spelled fun _ => .error "refused", .fetched (.failed "refused")⟩,
        ⟨1, .fetch spelled fun _ => .ok 7, .fetched (.built 7)⟩]
    let future : List (Event Nat String Nat) :=
      [⟨0, .fetch respelled fun _ => .ok 8, .fetched (.hit 7)⟩]
    let cache : Cache Nat := ⟨[(spelled, 7)]⟩
    Run .empty past cache ∧ Run cache future cache ∧
      ((builtKeys past).map Key.identity).Nodup ∧
      (∀ built ∈ builtKeys past, ∀ event ∈ future, ∀ requested,
        event.builderKey? = some requested → requested.identity ≠ built.identity) ∧
      cache.size = ((builtKeys past).map Key.identity).toFinset.card := by
  intro spelled respelled past future cache
  have before : Run .empty past cache :=
    .call 1 (.fetch spelled fun _ => .ok 7) (.call 0 (.fetch spelled fun _ => .error "refused") .done)
  have after : Run cache future cache :=
    .call 0 (.fetch respelled fun _ => .ok 8) .done
  obtain ⟨-, once, later, -, -, size⟩ := Run.history before after
  exact ⟨before, after, once, later, size⟩

end Peg.Cache
