import Typings.Proofs.Session

/-!
# Calls for symbols

Symbols are asked for one after the other: those of entities, those of generated declarations, and
those with a longer suffix than another symbol, which need not have been issued. Whatever is asked
for and in whatever order, the index of a table has the pairs that its list of origins has, so
symbols and origins stay in one-to-one correspondence, and a symbol that was issued keeps its
origin. Symbols are stored in 32 bits, which tell them apart as long as the table is no larger.

## Main definitions

* `Symbol.word`: the 32 bits of a symbol.
* `SymbolTable.listed`: the pairs that the list of origins stands for.
* `SymbolRequest`: what is asked for.
* `SymbolCall`: a request with its answer and with the tables before and after it.
* `symbolCalls`: the calls on a new table, and the table that they lead to.
* `Coherent`: calls agree with each other and with the table that they lead to.

## Main results

* `SymbolRequest.run_call`: what one call does.
* `coherent_symbolCalls`: calls are coherent, whatever they are for.
-/

namespace Typings

/-- The 32 bits that a symbol is stored in. -/
def Symbol.word (s : Symbol) : UInt32 :=
  .ofNat s.id

theorem Symbol.toNat_word {s : Symbol} (h : s.id < UInt32.size) : s.word.toNat = s.id :=
  Nat.mod_eq_of_lt h

namespace SymbolTable

/-- The origins of a table with their symbols, in the order in which they were issued. -/
def listed (table : SymbolTable) : List (Origin × Symbol) :=
  table.origins.zipIdx.map fun entry => (entry.1, ⟨entry.2⟩)

theorem listed_push (table : SymbolTable) (origin : Origin) (new : table.find? origin = none) :
    (table.push origin new).listed = table.listed ++ [(origin, ⟨table.size⟩)] := by
  simp [listed, push, size, List.zipIdx_append]

/-- Interning puts the same pair into the list and into the index, or none at all. -/
theorem index_intern {table : SymbolTable} (h : table.index = table.listed.reverse)
    (origin : Origin) :
    (table.intern origin).2.index = (table.intern origin).2.listed.reverse := by
  cases hfound : table.find? origin with
  | some symbol => rwa [intern_of_find? hfound]
  | none =>
    rw [intern_of_new hfound, listed_push, List.reverse_append, ← h]
    rfl

theorem id_lt_size {table : SymbolTable} {s : Symbol} (h : table.Issues s) :
    s.id < table.size := by
  obtain ⟨origin, horigin⟩ := h
  exact (List.getElem?_eq_some_iff.mp horigin).1

end SymbolTable

/-- A request for a symbol. -/
inductive SymbolRequest where
  /-- For the symbol of an entity, with a suffix. -/
  | entity (name suffix : String)
  /-- For the symbol of a generated declaration, whose name is put together. -/
  | synthetic (name suffix : String)
  /-- For the symbol with the origin of another one and a longer suffix. -/
  | suffixed (base : Symbol) (suffix : String)

/-- A request that was answered. -/
structure SymbolCall where
  request : SymbolRequest
  answer : Symbol
  before : SymbolTable
  after : SymbolTable

namespace SymbolRequest

def answer : SymbolRequest → Work Symbol
  | entity name suffix => Work.entitySymbol name suffix
  | synthetic name suffix => Work.syntheticSymbol (name ++ suffix)
  | suffixed base suffix => Work.suffixedSymbol base suffix

def origin (table : SymbolTable) : SymbolRequest → Origin
  | entity name suffix => .entity name suffix
  | synthetic name suffix => .synthetic (name ++ suffix)
  | suffixed base suffix => table.suffixedOrigin base suffix

/-- Answers a request and keeps a record of it. -/
def call (request : SymbolRequest) : Work SymbolCall := do
  let before := (← get).symbols
  let answer ← request.answer
  let after := (← get).symbols
  pure { request, answer, before, after }

end SymbolRequest

def SymbolCall.origin (c : SymbolCall) : Origin :=
  c.request.origin c.before

/-- The calls that answer requests of a new table, and the table that they lead to. -/
def symbolCalls (requests : List SymbolRequest) : List SymbolCall × SymbolTable :=
  let run := (requests.mapM SymbolRequest.call).run {}
  (run.1, run.2.symbols)

/-! ## One call -/

theorem SymbolRequest.run_answer (request : SymbolRequest) (s : Session) :
    (request.answer.run s).1 = (s.symbols.intern (request.origin s.symbols)).1 ∧
      (request.answer.run s).2.symbols = (s.symbols.intern (request.origin s.symbols)).2 := by
  cases request with
  | entity name suffix => exact Work.run_symbol _ s
  | synthetic name suffix => exact Work.run_symbol _ s
  | suffixed base suffix => exact Work.run_symbol (s.symbols.suffixedOrigin base suffix) s

/-- A call interns the origin that it is for. -/
theorem SymbolRequest.run_call (request : SymbolRequest) (s : Session) :
    let interned := s.symbols.intern (request.origin s.symbols)
    (request.call.run s).1 =
        { request, answer := interned.1, before := s.symbols, after := interned.2 } ∧
      (request.call.run s).2.symbols = interned.2 := by
  obtain ⟨hanswer, htable⟩ := request.run_answer s
  have hrun : request.call.run s =
      ({ request, answer := (request.answer.run s).1, before := s.symbols
         after := (request.answer.run s).2.symbols }, (request.answer.run s).2) := rfl
  rw [hrun, hanswer, htable]
  exact ⟨rfl, rfl⟩

/-- What stays true of a call, whatever is asked for later. -/
structure SymbolCall.Settled (table : SymbolTable) (c : SymbolCall) : Prop where
  grows : c.before ≤ c.after
  kept : c.after ≤ table
  found : c.after.find? c.origin = some c.answer

theorem SymbolRequest.settled_call (request : SymbolRequest) (s : Session) {table : SymbolTable}
    (h : (request.call.run s).2.symbols ≤ table) : (request.call.run s).1.Settled table := by
  obtain ⟨hcall, htable⟩ := request.run_call s
  rw [htable] at h
  rw [hcall]
  exact ⟨s.symbols.le_intern _, h, s.symbols.find?_intern _⟩

/-! ## Calls one after the other -/

section Runs

variable (requests : List SymbolRequest) (s : Session)

theorem run_mapM_call_cons (request : SymbolRequest) :
    ((request :: requests).mapM SymbolRequest.call).run s =
      ((request.call.run s).1 ::
          ((requests.mapM SymbolRequest.call).run (request.call.run s).2).1,
        ((requests.mapM SymbolRequest.call).run (request.call.run s).2).2) := by
  rw [List.mapM_cons]
  rfl

theorem le_run_calls :
    s.symbols ≤ ((requests.mapM SymbolRequest.call).run s).2.symbols := by
  induction requests generalizing s with
  | nil => exact le_refl s.symbols
  | cons request requests ih =>
    rw [run_mapM_call_cons]
    refine le_trans ?_ (ih (request.call.run s).2)
    rw [(request.run_call s).2]
    exact s.symbols.le_intern _

/-- Every call is settled in the table at the end. -/
theorem settled_of_mem_calls :
    ∀ c ∈ ((requests.mapM SymbolRequest.call).run s).1,
      c.Settled ((requests.mapM SymbolRequest.call).run s).2.symbols := by
  induction requests generalizing s with
  | nil => exact fun c hc => absurd hc List.not_mem_nil
  | cons request requests ih =>
    rw [run_mapM_call_cons, List.forall_mem_cons]
    exact ⟨request.settled_call s (le_run_calls requests _), ih _⟩

/-- The index has the pairs of the list after all calls if it has them before. -/
theorem index_run_calls (h : s.symbols.index = s.symbols.listed.reverse) :
    ((requests.mapM SymbolRequest.call).run s).2.symbols.index =
      ((requests.mapM SymbolRequest.call).run s).2.symbols.listed.reverse := by
  induction requests generalizing s with
  | nil => exact h
  | cons request requests ih =>
    rw [run_mapM_call_cons]
    apply ih
    rw [(request.run_call s).2]
    exact SymbolTable.index_intern h _

/-- No origin gets a symbol but those that calls are for. -/
theorem mem_origins_run_calls (origin : Origin) :
    origin ∈ ((requests.mapM SymbolRequest.call).run s).2.symbols.origins ↔
      origin ∈ s.symbols.origins ∨
        ∃ c ∈ ((requests.mapM SymbolRequest.call).run s).1, c.origin = origin := by
  induction requests generalizing s with
  | nil => exact ⟨.inl, fun h => h.resolve_right fun ⟨c, hc, _⟩ => absurd hc List.not_mem_nil⟩
  | cons request requests ih =>
    obtain ⟨hcall, htable⟩ := request.run_call s
    have horigin : (request.call.run s).1.origin = request.origin s.symbols := by rw [hcall]; rfl
    rw [run_mapM_call_cons, ih, htable, SymbolTable.mem_origins_intern, or_assoc]
    simp only [List.mem_cons, exists_eq_or_imp, horigin, eq_comm]

end Runs

/-! ## Coherence -/

/-- Whether calls agree with each other and with the table that they lead to. -/
structure Coherent (calls : List SymbolCall) (table : SymbolTable) : Prop where
  /-- No origin is listed twice. -/
  nodup : table.origins.Nodup
  /-- The index has the symbols of the listed origins, each once, the last one first. -/
  index_eq : table.index = table.listed.reverse
  /-- What the index has for an origin is the position of the origin in the list. -/
  lookup_index_iff : ∀ origin position,
    table.index.lookup origin = some ⟨position⟩ ↔ table.origins[position]? = some origin
  /-- What is found for an origin is the symbol that has this origin. -/
  find?_iff : ∀ origin symbol,
    table.find? origin = some symbol ↔ table.origin? symbol = some origin
  /-- The origins with symbols are those that calls are for. -/
  mem_iff : ∀ origin, origin ∈ table.origins ↔ ∃ c ∈ calls, c.origin = origin
  /-- A call only adds to the list of origins, and so do later calls. -/
  grows : ∀ c ∈ calls, c.before.origins <+: c.after.origins ∧ c.after.origins <+: table.origins
  /-- What a call answers is found for its origin ever after. -/
  found : ∀ c ∈ calls, table.find? c.origin = some c.answer
  /-- Two calls have one answer exactly if they are for one origin. -/
  answer_eq_iff : ∀ c ∈ calls, ∀ c' ∈ calls, c.answer = c'.answer ↔ c.origin = c'.origin
  /-- As long as the table has room for them, the 32 bits of an answer are the position of its
  origin in the list, so they tell answers apart. -/
  word : table.size ≤ UInt32.size → ∀ c ∈ calls,
    table.origins[c.answer.word.toNat]? = some c.origin ∧
      ∀ c' ∈ calls, c.answer.word = c'.answer.word ↔ c.origin = c'.origin
  /-- Two suffixes one after the other lead to the symbol of both at once. -/
  suffixes : ∀ first ∈ calls, ∀ second ∈ calls, ∀ direct ∈ calls, ∀ base a b,
    first.request = .suffixed base a → first.before.Issues base →
    second.request = .suffixed first.answer b → second.before.Issues first.answer →
    direct.request = .suffixed base (a ++ b) → direct.before.Issues base →
      second.answer = direct.answer

namespace SymbolCall.Settled

variable {table : SymbolTable} {c c' : SymbolCall} (h : c.Settled table)

include h

theorem find? : table.find? c.origin = some c.answer :=
  SymbolTable.find?_mono h.kept h.found

theorem answer_eq_iff (h' : c'.Settled table) : c.answer = c'.answer ↔ c.origin = c'.origin := by
  constructor
  · intro hanswer
    have hfound := h'.find?
    rw [← hanswer] at hfound
    exact SymbolTable.find?_injective h.find? hfound
  · intro horigin
    have hfound := h'.find?
    rw [← horigin] at hfound
    exact Option.some.inj (h.find?.symm.trans hfound)

theorem issues : table.Issues c.answer :=
  SymbolTable.issues_of_find? h.find?

theorem toNat_word (hsize : table.size ≤ UInt32.size) : c.answer.word.toNat = c.answer.id :=
  Symbol.toNat_word (Nat.lt_of_lt_of_le (SymbolTable.id_lt_size h.issues) hsize)

theorem word_eq_iff (h' : c'.Settled table) (hsize : table.size ≤ UInt32.size) :
    c.answer.word = c'.answer.word ↔ c.answer = c'.answer := by
  rw [← UInt32.toNat_inj, h.toNat_word hsize, h'.toNat_word hsize]
  exact ⟨congrArg Symbol.mk, congrArg Symbol.id⟩

/-- The origin of a call for a longer suffix, in terms of the last table. -/
theorem origin_eq {base : Symbol} {suffix : String} (hrequest : c.request = .suffixed base suffix)
    (hissued : c.before.Issues base) {origin : Origin} (hbase : table.origin? base = some origin) :
    c.origin = origin.addSuffix suffix := by
  obtain ⟨origin', hbefore⟩ := hissued
  have hafter := SymbolTable.origin?_mono (le_trans h.grows h.kept) hbefore
  obtain rfl : origin' = origin := Option.some.inj (hafter.symm.trans hbase)
  rw [SymbolCall.origin, hrequest, SymbolRequest.origin, SymbolTable.suffixedOrigin, hbefore,
    Option.getD_some]

end SymbolCall.Settled

/-- Whatever symbols are asked for, in whatever order, the calls are coherent. -/
theorem coherent_symbolCalls (requests : List SymbolRequest) :
    Coherent (symbolCalls requests).1 (symbolCalls requests).2 := by
  have hsettled : ∀ c ∈ (symbolCalls requests).1, c.Settled (symbolCalls requests).2 :=
    settled_of_mem_calls requests {}
  refine
    { nodup := SymbolTable.nodup_origins _
      index_eq := index_run_calls requests {} rfl
      lookup_index_iff := fun origin position => SymbolTable.find?_eq_some_iff
      find?_iff := fun origin symbol => SymbolTable.find?_eq_some_iff
      mem_iff := fun origin => ?_
      grows := fun c hc => ⟨(hsettled c hc).grows, (hsettled c hc).kept⟩
      found := fun c hc => (hsettled c hc).find?
      answer_eq_iff := fun c hc c' hc' => (hsettled c hc).answer_eq_iff (hsettled c' hc')
      word := fun hsize c hc => ⟨?_, fun c' hc' => ?_⟩
      suffixes := ?_ }
  · refine (mem_origins_run_calls requests {} origin).trans (or_iff_right ?_)
    exact List.not_mem_nil
  · rw [(hsettled c hc).toNat_word hsize]
    exact SymbolTable.origin?_of_find? (hsettled c hc).find?
  · rw [(hsettled c hc).word_eq_iff (hsettled c' hc') hsize]
    exact (hsettled c hc).answer_eq_iff (hsettled c' hc')
  · intro first hfirst second hsecond direct hdirect base a b hrequest hissued hrequest' hissued'
      hrequest'' hissued''
    rw [(hsettled second hsecond).answer_eq_iff (hsettled direct hdirect)]
    obtain ⟨origin, hbefore⟩ := hissued
    have hbase : (symbolCalls requests).2.origin? base = some origin :=
      SymbolTable.origin?_mono
        (le_trans (hsettled first hfirst).grows (hsettled first hfirst).kept) hbefore
    have hfirst' : first.origin = origin.addSuffix a :=
      (hsettled first hfirst).origin_eq hrequest ⟨origin, hbefore⟩ hbase
    have hanswer : (symbolCalls requests).2.origin? first.answer = some (origin.addSuffix a) :=
      hfirst' ▸ SymbolTable.origin?_of_find? (hsettled first hfirst).find?
    rw [(hsettled second hsecond).origin_eq hrequest' hissued' hanswer,
      (hsettled direct hdirect).origin_eq hrequest'' hissued'' hbase, Origin.addSuffix_addSuffix]

/-- Suffixes are added one after the other and at once, and to a symbol that was not issued. -/
example : ((symbolCalls [.entity "Shape" "", .suffixed ⟨0⟩ "Union", .suffixed ⟨1⟩ "Client",
    .suffixed ⟨0⟩ "UnionClient", .suffixed ⟨9⟩ "Client", .synthetic "$unknown9$" "Client"]).1.map
      (·.answer.id)) = [0, 1, 2, 2, 3, 3] := by
  rfl

end Typings
