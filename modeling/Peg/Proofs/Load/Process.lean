import Mathlib.Logic.Function.Basic
import Peg.Proofs.Grammar.Resolution
import Peg.Proofs.Load.Runs
import Peg.Tree.Draft

/-!
# Grammars of one process

All grammars of a process take their identities from one supply, whichever loader, cache or registry
they come from. The supply starts again after 2^32 identities; until then no two grammars share one, and
no reference is mistaken for a reference of another grammar.

* `Process`, `Process.Operation`: the state of a process, and what creates grammars in it.
* `GrammarId.nth`: the identities in the order in which they are handed out.
* `Process.perform_cases`: an operation creates at most one grammar, under the identity that is next.
* `Process.Numbered`: the invariant, that the grammars have the identities in order and refer to
  themselves only.
* `Process.run_references`: what references stand for, in every run that creates at most 2^32 grammars.
-/

namespace Peg

/-! ## Identities -/

/-- The identity that is handed out after `n` others. -/
def GrammarId.nth : Nat → GrammarId
  | 0 => .first
  | n + 1 => (nth n).next

theorem GrammarId.toNat_nth (n : Nat) : (nth n).value.toNat = (n + 1) % 2 ^ 32 := by
  induction n with
  | zero => rfl
  | succ n ih =>
      rw [nth, next, UInt32.toNat_add, ih, UInt32.toNat_one]
      omega

/-- The first 2^32 identities are different. -/
theorem GrammarId.nth_injective {n m : Nat} (hn : n < 2 ^ 32) (hm : m < 2 ^ 32)
    (same : nth n = nth m) : n = m := by
  have values := congrArg (fun id => id.value.toNat) same
  simp only [toNat_nth] at values
  omega

/-! ## Operations -/

/-- What a process has done about grammars: the identity of the next one, its caches by number, and the
grammars that were created, in order. -/
structure Process where
  supply : GrammarId
  caches : Nat → Cache Grammar
  created : List Grammar

/-- What has been kept in a cache since it had another state. -/
def Cache.keptSince {α : Type} (cache earlier : Cache α) : List α :=
  (cache.entries.drop earlier.size).map Prod.snd

namespace Process

/-- What can create a grammar in a process. A loader uses one of the caches; every operation may have a
loader of its own, which sees the files as they are at that time. -/
inductive Operation where
  /-- A text is compiled. -/
  | compile (cache : Nat) (loader : Loader) (text urn : String) (mode : Mode)
  /-- A grammar is requested. -/
  | load (cache : Nat) (loader : Loader) (request : Request)
  /-- A registry for a new grammar is filled by some calls and finished. The calls change nothing else of
  the process, so it does not matter what is done in between. -/
  | register (urn : String) (mode : Mode) (calls : List Registry.Call)

/-- A process in which nothing has been done. -/
def start : Process := ⟨.first, fun _ => .empty, []⟩

/-- What a loader with one of the caches shares with the process. -/
def store (process : Process) (cache : Nat) : Store :=
  ⟨process.caches cache, process.supply⟩

/-- The process after a loader has created some grammars and left a store behind. -/
def afterLoader (process : Process) (cache : Nat) (store : Store) (grammars : List Grammar) : Process :=
  ⟨store.supply, Function.update process.caches cache store.cache, process.created ++ grammars⟩

/-- The process after an operation. -/
def perform (process : Process) : Operation → Process
  | .compile cache loader text urn mode =>
    let (grammar, store) := loader.compileText text urn mode (process.store cache)
    process.afterLoader cache store [grammar]
  | .load cache loader request =>
    let store := (loader.load request (process.store cache)).2
    process.afterLoader cache store (store.cache.keptSince (process.caches cache))
  | .register urn mode calls =>
    let registry := ((Registry.new process.supply urn mode).performAll calls).2
    ⟨process.supply.next, process.caches, process.created ++ [registry.finish]⟩

/-- The process after some operations, performed one after the other. -/
def run (operations : List Operation) : Process :=
  operations.foldl perform start

end Process

/-! ## Loads -/

/-- A request to the cache of a store leaves the store as it is, or keeps a new grammar, which takes the
next identity. -/
theorem Store.fetch_creates (store : Store) (key : Key) (build : GrammarId → Except LoadError Grammar) :
    (store.fetch key build).2 = store ∨
      ∃ grammar, build store.supply = .ok grammar ∧
        (store.fetch key build).2 =
          ⟨⟨store.cache.entries ++ [(key, grammar)]⟩, store.supply.next⟩ := by
  rcases store.fetch_cases key build with
    ⟨value, -, eq⟩ | ⟨value, -, built, eq⟩ | ⟨error, -, -, eq⟩
  · rw [eq]
    exact Or.inl rfl
  · rw [eq]
    exact Or.inr ⟨value, built, rfl⟩
  · rw [eq]
    exact Or.inl rfl

/-- A load leaves the store as it is, or keeps a grammar that it has compiled from a text. -/
theorem Loader.load_creates (loader : Loader) (request : Request) (store : Store) :
    (loader.load request store).2 = store ∨
      ∃ key text urn mode, (loader.load request store).2 =
        ⟨⟨store.cache.entries ++ [(key, loader.grammarOf text urn mode store.supply)]⟩,
          store.supply.next⟩ := by
  rcases loader.load_cases request store with ⟨text, urn, -, eq⟩ | ⟨search, name, -, eq⟩
  · rw [eq, loadInline]
    rcases store.fetch_creates _ _ with same | ⟨grammar, built, kept⟩
    · exact Or.inl same
    · cases built
      exact Or.inr ⟨_, _, _, _, kept⟩
  · rw [eq, loadNamed]
    cases search.find loader.host name with
    | error error => exact Or.inl rfl
    | ok found =>
        show (loader.loadFound found request.options store).2 = store ∨ _
        rw [loadFound]
        rcases store.fetch_creates _ _ with same | ⟨grammar, built, kept⟩
        · exact Or.inl same
        · cases content : readText loader.host found.path request.options.encoding with
          | error error =>
              rw [content] at built
              cases built
          | ok text =>
              rw [content] at built
              cases built
              exact Or.inr ⟨_, _, _, _, kept⟩

theorem Cache.keptSince_self {α : Type} (cache : Cache α) : cache.keptSince cache = [] := by
  rw [keptSince, size, List.drop_length, List.map_nil]

theorem Cache.keptSince_concat {α : Type} (cache : Cache α) (entry : Key × α) :
    (Cache.mk (cache.entries ++ [entry])).keptSince cache = [entry.2] := by
  rw [keptSince, size, List.drop_left, List.map_singleton]

namespace Process

/-- An operation creates no grammar and leaves the supply as it is, or it creates one, which takes the
next identity and refers to itself only. -/
theorem perform_cases (process : Process) (operation : Operation) :
    ((process.perform operation).supply = process.supply ∧
        (process.perform operation).created = process.created) ∨
      ∃ grammar : Grammar, grammar.id = process.supply ∧ grammar.IsSelfContained ∧
        (process.perform operation).supply = process.supply.next ∧
        (process.perform operation).created = process.created ++ [grammar] := by
  cases operation with
  | compile cache loader text urn mode =>
      exact Or.inr ⟨_, (loader.read text).id_compile _ urn mode,
        (loader.read text).isSelfContained_compile _ urn mode, rfl, rfl⟩
  | load cache loader request =>
      rw [perform, afterLoader]
      rcases loader.load_creates request (process.store cache) with eq | ⟨key, text, urn, mode, eq⟩
      · rw [eq]
        refine Or.inl ⟨rfl, ?_⟩
        show _ ++ (process.caches cache).keptSince (process.caches cache) = _
        rw [Cache.keptSince_self, List.append_nil]
      · rw [eq]
        refine Or.inr ⟨_, (loader.read text).id_compile _ urn mode,
          (loader.read text).isSelfContained_compile _ urn mode, rfl, ?_⟩
        exact congrArg (_ ++ ·) (Cache.keptSince_concat (process.caches cache) (key, _))
  | register urn mode calls =>
      have gathers := ((Registry.Gathers.new process.supply urn mode).performAll calls).1
      exact Or.inr ⟨_, gathers.id, Registry.isSelfContained_finish _, rfl, rfl⟩

/-! ## Runs -/

/-- The grammars have the identities in the order of their creation, the supply goes on with the next
one, and every grammar refers to itself only. -/
structure Numbered (process : Process) : Prop where
  supply : process.supply = .nth process.created.length
  ids : ∀ (n : Nat) (grammar : Grammar), process.created[n]? = some grammar → grammar.id = .nth n
  contained : ∀ grammar ∈ process.created, grammar.IsSelfContained

theorem Numbered.start : Process.start.Numbered where
  supply := rfl
  ids := by
    intro n grammar found
    cases found
  contained := List.forall_mem_nil _

theorem Numbered.perform {process : Process} (numbered : process.Numbered) (operation : Operation) :
    (process.perform operation).Numbered := by
  rcases process.perform_cases operation with
    ⟨supply, created⟩ | ⟨grammar, id, contained, supply, created⟩
  · constructor
    · rw [supply, created]
      exact numbered.supply
    · rw [created]
      exact numbered.ids
    · rw [created]
      exact numbered.contained
  · constructor
    · rw [supply, created, numbered.supply, List.length_append, List.length_singleton, GrammarId.nth]
    · intro n other found
      rw [created, List.getElem?_append] at found
      split at found
      · exact numbered.ids n other found
      · next later =>
        obtain ⟨bound, rfl⟩ := List.getElem?_eq_some_iff.mp found
        rw [List.length_singleton] at bound
        rw [List.getElem_singleton, id, numbered.supply]
        congr 1
        omega
    · rw [created, List.forall_mem_append, List.forall_mem_singleton]
      exact ⟨numbered.contained, contained⟩

theorem Numbered.run (operations : List Operation) : (Process.run operations).Numbered := by
  unfold Process.run
  induction operations using List.reverseRecOn with
  | nil => exact .start
  | append_singleton operations operation ih =>
      rw [List.foldl_append]
      exact ih.perform operation

/-- An operation creates one grammar at most. -/
theorem length_created_run_le (operations : List Operation) :
    (run operations).created.length ≤ operations.length := by
  unfold run
  induction operations using List.reverseRecOn with
  | nil => exact Nat.le_refl 0
  | append_singleton operations operation ih =>
      rw [List.foldl_append, List.length_append]
      rcases (operations.foldl perform start).perform_cases operation with
        ⟨-, created⟩ | ⟨grammar, -, -, -, created⟩
      · rw [List.foldl_cons, List.foldl_nil, created]
        exact Nat.le_add_right_of_le ih
      · rw [List.foldl_cons, List.foldl_nil, created, List.length_append]
        exact Nat.add_le_add_right ih _

/-- **References stay at home.** Take any run that creates at most 2^32 grammars, and any grammar of the
run. Wherever in its rules a reference stands, it belongs to the grammar; the grammar resolves it to the
rule of its name, and no other grammar of the run resolves it at all. Unresolved are exactly those
references, in rule order and depth first within a rule, whose name no rule of the grammar has; so none
is unresolved exactly if every name that is mentioned is defined. -/
theorem run_references (operations : List Operation)
    (few : (run operations).created.length ≤ 2 ^ 32) (n : Nat) (grammar : Grammar)
    (created : (run operations).created[n]? = some grammar) :
    (∀ rule ∈ grammar.rules, ∀ target, rule.2.Mentions target →
        target.grammar = grammar.id ∧ grammar.resolve? target = grammar.get? target.name ∧
          ∀ (m : Nat) (other : Grammar), (run operations).created[m]? = some other → m ≠ n →
            other.resolve? target = none) ∧
      grammar.unresolved = ((grammar.rules.flatMap (·.2.preorder)).filterMap Expr.reference?).filter
        (·.name ∉ grammar.ruleNames) ∧
      (grammar.unresolved = [] ↔ ∀ rule ∈ grammar.rules, ∀ target, rule.2.Mentions target →
        target.name ∈ grammar.ruleNames) := by
  have numbered := Numbered.run operations
  have contained := numbered.contained grammar (List.mem_of_getElem? created)
  have bound {m : Nat} {other : Grammar} (found : (run operations).created[m]? = some other) :
      m < 2 ^ 32 :=
    Nat.lt_of_lt_of_le (List.getElem?_eq_some_iff.mp found).1 few
  refine ⟨fun rule member target mentions => ?_, ?_, contained.unresolved_eq_nil_iff⟩
  · have own := contained.own rule member target mentions
    refine ⟨own, Grammar.resolve?_of_own own, fun m other found differs => ?_⟩
    apply Grammar.resolve?_of_foreign
    intro same
    apply differs
    apply GrammarId.nth_injective (bound found) (bound created)
    rw [← numbered.ids m other found, ← numbered.ids n grammar created, ← own, same]
  · rw [← Grammar.references_eq_preorder]
    exact contained.unresolved_eq

/-- A grammar is compiled that mentions a rule it does not have. Then one that has a rule of this name is
loaded twice, the second time from the cache. The rule is not taken for the one that is missing. -/
theorem run_references_same_name :
    let reader (statement : Draft.Statement) : Loader :=
      ⟨fun _ => Draft.parse [statement], ⟨⟨[]⟩, ⟨"/"⟩, none, ⟨"/p"⟩⟩⟩
    let mentions := reader (.rule "A" [.leaf (.name "B")])
    let defines := reader (.rule "B" [.leaf .any])
    let request : Request := .source "B = ." ⟨.full, none, .utf8, none, []⟩ none
    let operations : List Operation :=
      [.compile 0 mentions "A = B" "g" .full, .load 0 defines request, .load 0 defines request]
    let mention : Reference := ⟨.first, "B", ⟨4, 5⟩⟩
    ∃ first second, (run operations).created = [first, second] ∧
      first.unresolved = [mention] ∧
      second.get? "B" = some .any ∧ second.resolve? mention = none := by
  intro reader mentions defines request operations mention
  let first : Grammar := ⟨.first, "g", [("A", .ref mention)], [], false, []⟩
  let second : Grammar := ⟨⟨2⟩, "<inline>", [("B", .any)], [], false, []⟩
  have created : (run operations).created = [first, second] := by
    dsimp only [operations, mentions, defines, reader, request, first, second, mention]
    rfl
  have few : (run operations).created.length ≤ 2 ^ 32 :=
    Nat.le_trans (length_created_run_le operations) (by decide)
  have isFirst : (run operations).created[0]? = some first := congrArg (·[0]?) created
  have isSecond : (run operations).created[1]? = some second := congrArg (·[1]?) created
  obtain ⟨mentioned, unresolved, -⟩ := run_references operations few 0 first isFirst
  obtain ⟨-, -, foreign⟩ := mentioned ("A", .ref mention) (List.mem_singleton_self _) mention .ref
  exact ⟨first, second, created, unresolved, rfl, foreign 1 second isSecond Nat.one_ne_zero⟩

end Process

end Peg
