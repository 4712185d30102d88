import Peg.LineNotation
import Peg.Proofs.Grammar.Registration
import Peg.Proofs.Load.Runs

/-!
# Grammar text in a session

Loaders of any kind share one cache. A grammar text is compiled, in either mode, by the first load that
asks for it; all other loads of the text get the grammar of the first one, under the name that the first
one gave it.

* `Request.inline?`, `Request.urn`: the text that a request asks for, and the name for it.
* `Session`: the loads that leave a given cache behind, by any loaders.
* `Loader.load_inline_cases`: what a load does to the grammars that are kept for texts.
* `Session.Remembers`: the invariant, that a cache keeps for every text what the first load of it
  compiled.
* `Session.urn_eq_of_first`: the name of the grammar that a load of a text returns.
-/

namespace Peg

/-! ## Requests for grammar text -/

namespace Request

/-- The calling file, if the request names one. -/
def caller? : Request → Option Path
  | .source _ _ caller => caller
  | .path _ _ => none

/-- The grammar text that is asked for, with the mode; a file is no grammar text. -/
def inline? : Request → Option (String × Mode)
  | .source written options _ =>
    if isInlineSource written then some (written, options.mode) else none
  | .path _ _ => none

theorem exists_source_of_inline? {request : Request} {text : String} {mode : Mode}
    (asked : request.inline? = some (text, mode)) :
    ∃ options caller, request = .source text options caller := by
  cases request with
  | path => cases asked
  | source written options caller =>
      rw [inline?] at asked
      split at asked
      · cases asked
        exact ⟨options, caller, rfl⟩
      · cases asked

/-- The name under which grammar text is asked for. -/
def urn (request : Request) : String :=
  urnOf request.options request.caller?

end Request

/-- Everything that a load does to the grammars that are kept for texts. A load of a text finds a grammar
for it, or compiles and keeps one; the load of a file leaves them as they are. -/
theorem Loader.load_inline_cases (loader : Loader) (request : Request) (store : Store) :
    (∃ text mode grammar, request.inline? = some (text, mode) ∧
        store.cache.get? (.inline text mode) = some grammar ∧
        loader.load request store = (.ok grammar, store)) ∨
      (∃ text mode, request.inline? = some (text, mode) ∧
        store.cache.get? (.inline text mode) = none ∧
        let grammar := loader.grammarOf text request.urn mode store.supply
        loader.load request store =
          (.ok grammar, ⟨⟨store.cache.entries ++ [(.inline text mode, grammar)]⟩,
            store.supply.next⟩)) ∨
      (request.inline? = none ∧ ∀ text mode, (loader.load request store).2.cache.get? (.inline text mode) =
        store.cache.get? (.inline text mode)) := by
  have named (search : SearchPath) (name : String) (options : Options) (text : String) (mode : Mode) :
      (loader.loadNamed search name options store).2.cache.get? (.inline text mode) =
        store.cache.get? (.inline text mode) := by
    rw [loadNamed]
    cases search.find loader.host name with
    | error error => rfl
    | ok found =>
        show (loader.loadFound found options store).2.cache.get? _ = _
        rw [loadFound]
        rcases store.fetch_cases (.ofFound found options.mode) _ with
          ⟨_, -, eq⟩ | ⟨grammar, -, -, eq⟩ | ⟨_, -, -, eq⟩
        · rw [eq]
        · rw [eq]
          have differs : (Key.inline text mode).identity ≠ (Key.ofFound found options.mode).identity :=
            nofun
          exact Cache.get?_concat_of_ne differs grammar
        · rw [eq]
  cases request with
  | path path options =>
      rw [load, loadPath]
      exact Or.inr (Or.inr ⟨rfl, named _ _ options⟩)
  | source source options caller =>
      rw [load, loadFrom, Request.inline?]
      split
      · rw [loadInline]
        rcases store.fetch_cases (.inline source options.mode) _ with
          ⟨grammar, kept, eq⟩ | ⟨grammar, absent, built, eq⟩ | ⟨_, -, built, -⟩
        · exact Or.inl ⟨source, options.mode, grammar, rfl, kept, eq⟩
        · cases built
          exact Or.inr (Or.inl ⟨source, options.mode, rfl, absent, eq⟩)
        · cases built
      · exact Or.inr (Or.inr ⟨rfl, named _ _ options⟩)

/-! ## Sessions -/

/-- A load that took place: by which loader, what was requested, and with which result. -/
structure Visit where
  loader : Loader
  request : Request
  result : Except LoadError Grammar

/-- The loads that leave a cache behind, one after the other; the first of them finds it empty. Every
load may have a loader of its own, with another way of reading text and other files, and grammars that
are made elsewhere may take identities in between. -/
inductive Session : List Visit → Cache Grammar → Prop
  | start : Session [] .empty
  | load {visits : List Visit} {cache : Cache Grammar} {loader : Loader} {id : GrammarId}
    {request : Request} {result : Except LoadError Grammar} {store : Store} :
    Session visits cache →
    loader.load request ⟨cache, id⟩ = (result, store) →
    Session (visits ++ [⟨loader, request, result⟩]) store.cache

namespace Session

variable {visits : List Visit} {cache : Cache Grammar} {text : String} {mode : Mode} {first : Visit}

/-- The first load that asked for a text in a mode. -/
def firstFor? (visits : List Visit) (text : String) (mode : Mode) : Option Visit :=
  visits.find? (·.request.inline? = some (text, mode))

theorem inline?_of_firstFor? (found : firstFor? visits text mode = some first) :
    first ∈ visits ∧ first.request.inline? = some (text, mode) := by
  have asked := List.find?_some found
  exact ⟨List.mem_of_find?_eq_some found, of_decide_eq_true asked⟩

theorem exists_firstFor? {visit : Visit} (member : visit ∈ visits)
    (asked : visit.request.inline? = some (text, mode)) :
    ∃ first, firstFor? visits text mode = some first := by
  rw [← Option.isSome_iff_exists, firstFor?, List.find?_isSome]
  exact ⟨visit, member, decide_eq_true asked⟩

/-- A load that comes later is the first for a text if it asks for the text and no load did so before. -/
theorem firstFor?_concat (visit : Visit) : firstFor? (visits ++ [visit]) text mode =
    (firstFor? visits text mode).or
      (if visit.request.inline? = some (text, mode) then some visit else none) := by
  rw [firstFor?, firstFor?, List.find?_append, List.find?_singleton]
  simp only [decide_eq_true_eq]

/-- For every text that a load asked for, the cache keeps what the first such load compiled, and this is
what all loads of the text returned. For other texts it keeps nothing. -/
structure Remembers (visits : List Visit) (cache : Cache Grammar) : Prop where
  absent : ∀ text mode, firstFor? visits text mode = none → cache.get? (.inline text mode) = none
  first : ∀ text mode first, firstFor? visits text mode = some first →
    ∃ id, cache.get? (.inline text mode) =
      some (first.loader.grammarOf text first.request.urn mode id)
  answers : ∀ visit ∈ visits, ∀ text mode, visit.request.inline? = some (text, mode) →
    ∃ grammar, cache.get? (.inline text mode) = some grammar ∧ visit.result = .ok grammar

theorem Remembers.start : Remembers [] .empty where
  absent _ _ _ := rfl
  first := by
    intro text mode first found
    cases List.find?_nil.symm.trans found
  answers := List.forall_mem_nil _

/-- The invariant is kept by a load that changes nothing and returns what is kept, if it asks for a
text. -/
theorem Remembers.unchanged (remembers : Remembers visits cache) {visit : Visit} {after : Cache Grammar}
    (same : ∀ text mode, after.get? (.inline text mode) = cache.get? (.inline text mode))
    (answer : ∀ text mode, visit.request.inline? = some (text, mode) →
      ∃ grammar, cache.get? (.inline text mode) = some grammar ∧ visit.result = .ok grammar) :
    Remembers (visits ++ [visit]) after := by
  -- What the load asks for is kept, so an earlier load was the first to ask for it.
  have earlier : ∀ text mode, firstFor? (visits ++ [visit]) text mode = firstFor? visits text mode := by
    intro text mode
    rw [firstFor?_concat]
    split
    · next asked =>
      obtain ⟨grammar, kept, -⟩ := answer text mode asked
      cases found : firstFor? visits text mode with
      | none => cases (remembers.absent text mode found).symm.trans kept
      | some first => rfl
    · exact Option.or_none
  constructor
  · intro text mode none
    rw [same]
    exact remembers.absent text mode (earlier text mode ▸ none)
  · intro text mode first found
    rw [same]
    exact remembers.first text mode first (earlier text mode ▸ found)
  · rw [List.forall_mem_append, List.forall_mem_singleton]
    simp only [same]
    exact ⟨remembers.answers, answer⟩

/-- The invariant is kept by a load that asks for a new text and keeps what it compiles. -/
theorem Remembers.compiled (remembers : Remembers visits cache) {loader : Loader} {request : Request}
    {id : GrammarId} (asked : request.inline? = some (text, mode))
    (absent : cache.get? (.inline text mode) = none) :
    let grammar := loader.grammarOf text request.urn mode id
    Remembers (visits ++ [⟨loader, request, .ok grammar⟩])
      ⟨cache.entries ++ [(.inline text mode, grammar)]⟩ := by
  intro grammar
  have kept := @Cache.get?_of_built _ _ _ grammar absent
  have isFirst : firstFor? visits text mode = none := by
    cases found : firstFor? visits text mode with
    | none => rfl
    | some first =>
        obtain ⟨id, kept⟩ := remembers.first text mode first found
        cases absent.symm.trans kept
  constructor
  · intro text' mode' none
    rw [firstFor?_concat, Option.or_eq_none_iff] at none
    rw [Cache.get?_concat_of_ne]
    · exact remembers.absent text' mode' none.1
    · intro same
      cases same
      rw [if_pos asked] at none
      cases none.2
  · intro text' mode' first found
    rw [firstFor?_concat, Option.or_eq_some_iff] at found
    rcases found with before | ⟨-, now⟩
    · obtain ⟨id, kept⟩ := remembers.first text' mode' first before
      exact ⟨id, Cache.get?_append _ kept⟩
    · split at now
      · next same =>
        cases now
        cases asked.symm.trans same
        exact ⟨id, kept⟩
      · cases now
  · rw [List.forall_mem_append, List.forall_mem_singleton]
    refine ⟨fun visit member text' mode' asked' => ?_, fun text' mode' same => ?_⟩
    · obtain ⟨grammar, kept, answered⟩ := remembers.answers visit member text' mode' asked'
      exact ⟨grammar, Cache.get?_append _ kept, answered⟩
    · cases asked.symm.trans same
      exact ⟨grammar, kept, rfl⟩

theorem Remembers.load (remembers : Remembers visits cache) (loader : Loader) (request : Request)
    (id : GrammarId) :
    Remembers (visits ++ [⟨loader, request, (loader.load request ⟨cache, id⟩).1⟩])
      (loader.load request ⟨cache, id⟩).2.cache := by
  rcases loader.load_inline_cases request ⟨cache, id⟩ with
    ⟨text, mode, grammar, asked, kept, eq⟩ | ⟨text, mode, asked, absent, eq⟩ | ⟨other, same⟩
  · rw [eq]
    refine remembers.unchanged (fun _ _ => rfl) fun text' mode' same => ?_
    cases asked.symm.trans same
    exact ⟨grammar, kept, rfl⟩
  · rw [eq]
    exact remembers.compiled asked absent
  · refine remembers.unchanged same fun text mode asked => ?_
    cases other.symm.trans asked

theorem remembers (session : Session visits cache) : Remembers visits cache := by
  induction session with
  | start => exact .start
  | @load _ _ loader id request _ _ _ answer ih =>
      have kept := ih.load loader request id
      rwa [answer] at kept

/-- What a load of a text returns, the first load of this text in this mode has compiled. -/
theorem exists_first (session : Session visits cache) {visit : Visit} (member : visit ∈ visits)
    (asked : visit.request.inline? = some (text, mode)) :
    ∃ first id, firstFor? visits text mode = some first ∧
      ∀ visit ∈ visits, visit.request.inline? = some (text, mode) →
        visit.result = .ok (first.loader.grammarOf text first.request.urn mode id) := by
  have remembers := session.remembers
  obtain ⟨first, found⟩ := exists_firstFor? member asked
  obtain ⟨id, kept⟩ := remembers.first text mode first found
  refine ⟨first, id, found, fun visit member asked => ?_⟩
  obtain ⟨grammar, same, answered⟩ := remembers.answers visit member text mode asked
  cases kept.symm.trans same
  exact answered

/-- **The first load of a text names its grammar.** Every load of a grammar text returns a grammar. It is
the one that the first load of this text in this mode returned, and its name is the one that this first
load asked for. -/
theorem urn_eq_of_first (session : Session visits cache) {visit : Visit} (member : visit ∈ visits)
    (asked : visit.request.inline? = some (text, mode)) :
    ∃ first grammar, firstFor? visits text mode = some first ∧ first.result = .ok grammar ∧
      visit.result = .ok grammar ∧ grammar.urn = first.request.urn := by
  obtain ⟨first, id, found, returned⟩ := session.exists_first member asked
  obtain ⟨earlier, asks⟩ := inline?_of_firstFor? found
  exact ⟨first, _, found, returned first earlier asks, returned visit member asked,
    Parse.urn_compile _ id first.request.urn mode⟩

/-- Two loaders are asked for one text: the first under a name, the second under its base path. -/
def twiceNamed : List Visit :=
  let loader (workDir : Path) : Loader := ⟨LineNotation.parse, ⟨⟨[]⟩, workDir, none, ⟨"/p"⟩⟩⟩
  let grammar := (LineNotation.parse "A = 'a'").compile .first "mem:1" .full
  [⟨loader ⟨"/"⟩, .source "A = 'a'" ⟨.full, none, .utf8Sig, some "mem:1", []⟩ none, .ok grammar⟩,
    ⟨loader ⟨"/g"⟩, .source "A = 'a'" ⟨.full, some ⟨"/g/main.tpeg"⟩, .utf8Sig, none, []⟩
      (some ⟨"/src/x"⟩), .ok grammar⟩]

theorem exists_session_twiceNamed : ∃ cache, Session twiceNamed cache := by
  let grammar := (LineNotation.parse "A = 'a'").compile .first "mem:1" .full
  let cache : Cache Grammar := ⟨[(.inline "A = 'a'" .full, grammar)]⟩
  have first : (Loader.mk LineNotation.parse ⟨⟨[]⟩, ⟨"/"⟩, none, ⟨"/p"⟩⟩).load
        (.source "A = 'a'" ⟨.full, none, .utf8Sig, some "mem:1", []⟩ none) .new =
      (.ok grammar, ⟨cache, ⟨2⟩⟩) := by
    rfl
  have second : (Loader.mk LineNotation.parse ⟨⟨[]⟩, ⟨"/g"⟩, none, ⟨"/p"⟩⟩).load
        (.source "A = 'a'" ⟨.full, some ⟨"/g/main.tpeg"⟩, .utf8Sig, none, []⟩ (some ⟨"/src/x"⟩))
        ⟨cache, ⟨2⟩⟩ =
      (.ok grammar, ⟨cache, ⟨2⟩⟩) := by
    rfl
  have session := (Session.start.load first).load second
  exact ⟨cache, session⟩

/-- Both loads of the text return its grammar under the name that the first of them gave it. -/
theorem urn_eq_of_first_twiceNamed : (∃ cache, Session twiceNamed cache) ∧
    ∀ visit ∈ twiceNamed, ∃ grammar, visit.result = .ok grammar ∧ grammar.urn = "mem:1" := by
  obtain ⟨cache, session⟩ := exists_session_twiceNamed
  refine ⟨⟨cache, session⟩, fun visit member => ?_⟩
  have asked : ∀ visit ∈ twiceNamed, visit.request.inline? = some ("A = 'a'", .full) := by
    simp only [twiceNamed, List.forall_mem_cons]
    exact ⟨rfl, rfl, List.forall_mem_nil _⟩
  obtain ⟨first, grammar, found, -, returned, named⟩ :=
    session.urn_eq_of_first member (asked visit member)
  cases found
  exact ⟨grammar, returned, named⟩

/-- The second load of the text returns its grammar under another name than it asks for. -/
theorem urn_ne_of_second : (∃ cache, Session twiceNamed cache) ∧
    ¬∀ visit ∈ twiceNamed, visit.request.inline?.isSome →
      ∃ grammar, visit.result = .ok grammar ∧ grammar.urn = visit.request.urn := by
  refine ⟨exists_session_twiceNamed, fun named => ?_⟩
  obtain ⟨grammar, returned, name⟩ := named _ (List.mem_cons_of_mem _ List.mem_cons_self) rfl
  cases returned
  rw [Parse.urn_compile] at name
  have differs : "mem:1" ≠ "/g/main.tpeg" := by decide
  exact differs name

end Session

end Peg
