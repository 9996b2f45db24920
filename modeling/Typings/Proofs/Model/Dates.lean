import Typings.Model.Dates

/-!
# Replacing dates in a traversal

A traversal that meets dates issues the symbol of the alias at the first one and uses it for all of
them; a traversal that meets none does nothing. So replacing dates one by one has the outcome of
counting them, issuing the symbol if there are any, and replacing them all.

## Main definitions

* `Model.dateCount`: how many dates occur.
* `Model.replaceDates`: a model with its dates replaced.
* `DateWork.Replaces`: what a computation that replaces a number of dates does.

## Main results

* `DateWork.Replaces.bind`: one computation after the other replaces the dates of both.
* `Model.representDates_eq`: the dates are counted and replaced.
-/

namespace Typings

namespace TypeExpr

/-- A date becomes a reference to a symbol. -/
def orAlias (symbol : Symbol) (t : TypeExpr) : TypeExpr :=
  if t.isTemporal then .bare symbol else t

/-- How many dates occur in types. -/
def dateCount (ts : List TypeExpr) : Nat :=
  (ts.flatMap (·.nodes)).countP (·.isTemporal)

theorem dateCount_singleton (t : TypeExpr) : dateCount [t] = t.nodes.countP (·.isTemporal) := by
  rw [dateCount, List.flatMap_singleton]

theorem dateCount_append (ts us : List TypeExpr) :
    dateCount (ts ++ us) = dateCount ts + dateCount us := by
  rw [dateCount, List.flatMap_append, List.countP_append]
  rfl

end TypeExpr

namespace Model

/-- How many dates occur in the selected declarations. -/
def dateCount (model : Model) (selects : DataDeclaration → Bool) : Nat :=
  ((model.data.filter selects).flatMap fun d => d.types.flatMap (·.nodes)).countP (·.isTemporal)

/-- Replaces the dates in the selected declarations by references to a symbol. -/
def replaceDates (model : Model) (selects : DataDeclaration → Bool) (symbol : Symbol) : Model :=
  model.mapDataTypes selects (·.transform fun t => if t.isTemporal then .bare symbol else t)

end Model

namespace DateWork

open TypeExpr

variable {α β : Type} {name : String}

/-- A computation replaces a number of dates. If there are none, it keeps what was there; otherwise
the symbol is known or issued, and the result depends on nothing else. -/
structure Replaces (name : String) (work : DateWork α) (count : Nat) (kept : α)
    (result : Symbol → α) : Prop where
  run_eq : ∀ alias? n, work.run (alias?, n) =
    if count = 0 then pure (kept, alias?, n)
    else do
      let symbol ← aliasSymbol name alias?
      pure (result symbol, some symbol, n + count)
  result_eq : count = 0 → ∀ s, result s = kept

namespace Replaces

variable {work : DateWork α} {n m : Nat} {kept : α} {result : Symbol → α}

theorem pure (a : α) : Replaces name (pure a) 0 a fun _ => a :=
  ⟨fun _ _ => rfl, fun _ _ => rfl⟩

theorem bind {next : α → DateWork β} {keptLast : α → β} {last : α → Symbol → β}
    (hwork : Replaces name work n kept result)
    (hnext : ∀ a, Replaces name (next a) m (keptLast a) (last a)) :
    Replaces name (work >>= next) (n + m) (keptLast kept) fun s => last (result s) s := by
  refine ⟨fun alias? k => ?_, fun hzero s => ?_⟩
  · rw [StateT.run_bind, hwork.run_eq]
    by_cases hn : n = 0 <;> by_cases hm : m = 0
    · simp [hn, hm, (hnext _).run_eq]
    · simp [hn, hm, (hnext _).run_eq, hwork.result_eq hn]
    · simp [hn, hm, (hnext _).run_eq, (hnext _).result_eq hm]
    · simp [hn, hm, (hnext _).run_eq, aliasSymbol, Nat.add_assoc]
  · obtain ⟨hn, hm⟩ := Nat.add_eq_zero_iff.mp hzero
    rw [hwork.result_eq hn s, (hnext _).result_eq hm s]

theorem congr (h : Replaces name work n kept result) (hcount : n = m) :
    Replaces name work m kept result :=
  hcount ▸ h

theorem map (h : Replaces name work n kept result) (f : α → β) :
    Replaces name (work >>= fun a => Pure.pure (f a)) n (f kept) fun s => f (result s) :=
  h.bind fun a => pure (f a)

theorem mapM {f : α → DateWork α} {types : α → List TypeExpr} {result : α → Symbol → α}
    (h : ∀ a, Replaces name (f a) (dateCount (types a)) a (result a)) (as : List α) :
    Replaces name (as.mapM f) (dateCount (as.flatMap types)) as fun s => as.map (result · s) := by
  induction as with
  | nil => exact pure []
  | cons a as ih =>
    rw [List.mapM_cons, List.flatMap_cons, dateCount_append]
    exact (h a).bind fun b => ih.map (b :: ·)

end Replaces

theorem replaces_replace (t : TypeExpr) :
    Replaces name (replace name t) (if t.isTemporal then 1 else 0) t fun s => t.orAlias s := by
  cases hdate : t.isTemporal with
  | false => exact ⟨fun _ _ => by simp [replace, hdate], by simp [TypeExpr.orAlias, hdate]⟩
  | true => exact ⟨fun _ _ => by simp [replace, TypeExpr.orAlias, hdate], by simp⟩

mutual

theorem replaces_transformM : ∀ t : TypeExpr,
    Replaces name (t.transformM (replace name)) (t.nodes.countP (·.isTemporal)) t
      fun s => t.transform (orAlias s)
  | .reference symbol args =>
    (replaces_transformAllM args).bind fun args => replaces_replace (.reference symbol args)
  | .union members =>
    (replaces_transformAllM members).bind fun members => replaces_replace (.union members)
  | .intersection members =>
    (replaces_transformAllM members).bind fun members => replaces_replace (.intersection members)
  | .optional inner =>
    (replaces_transformM inner).bind fun inner => replaces_replace (.optional inner)
  | .array element =>
    (replaces_transformM element).bind fun element => replaces_replace (.array element)
  | .indexed key value =>
    ((replaces_transformM key).bind fun key => (replaces_transformM value).bind fun value =>
      replaces_replace (.indexed key value)).congr List.countP_append.symm
  | .shape fields =>
    (replaces_transformFieldsM fields).bind fun fields => replaces_replace (.shape fields)
  | .function params result =>
    ((replaces_transformFieldsM params).bind fun params => (replaces_transformM result).bind
      fun result => replaces_replace (.function params result)).congr List.countP_append.symm
  | .literal _ | .var _ | .verbatim _ | .any => replaces_replace _
  | .primitive _ => (replaces_replace _).congr List.countP_singleton.symm
termination_by structural t => t

theorem replaces_transformAllM : ∀ ts : List TypeExpr,
    Replaces name (transformAllM (replace name) ts) ((nodesAll ts).countP (·.isTemporal)) ts
      fun s => transformAll (orAlias s) ts
  | [] => .pure []
  | t :: rest =>
    ((replaces_transformM t).bind fun t => (replaces_transformAllM rest).map (t :: ·)).congr
      List.countP_append.symm

theorem replaces_transformFieldsM : ∀ fields : List (String × TypeExpr),
    Replaces name (transformFieldsM (replace name) fields)
      ((nodesFields fields).countP (·.isTemporal)) fields
      fun s => transformFields (orAlias s) fields
  | [] => .pure []
  | (field, t) :: rest =>
    ((replaces_transformM t).bind fun t => (replaces_transformFieldsM rest).map
      ((field, t) :: ·)).congr List.countP_append.symm

end

/-- The types of members, one after the other. -/
theorem replaces_mapM_type (type : α → TypeExpr) (withType : α → TypeExpr → α)
    (h : ∀ a, withType a (type a) = a) (as : List α) :
    Replaces name (as.mapM fun a => do pure (withType a (← (type a).transformM (replace name))))
      (dateCount (as.map type)) as fun s =>
        as.map fun a => withType a ((type a).transform (orAlias s)) := by
  have hmember : ∀ a, Replaces name (do pure (withType a (← (type a).transformM (replace name))))
      (dateCount [type a]) a fun s => withType a ((type a).transform (orAlias s)) := by
    intro a
    have hmap := (@replaces_transformM name (type a)).map (withType a)
    rwa [h, ← dateCount_singleton] at hmap
  rw [List.map_eq_flatMap]
  exact .mapM hmember as

theorem replaces_method (m : Method) :
    Replaces name (do
        let parameters ← m.parameters.mapM fun p => do
          pure { p with type := ← p.type.transformM (replace name) }
        pure { m with parameters, result := ← m.result.transformM (replace name) })
      (dateCount (m.parameters.map (·.type) ++ [m.result])) m fun s =>
        { m with
          parameters := m.parameters.map fun p => { p with type := p.type.transform (orAlias s) }
          result := m.result.transform (orAlias s) } := by
  rw [dateCount_append, dateCount_singleton]
  exact (replaces_mapM_type (·.type) (fun p type => { p with type })
    (fun _ => rfl) m.parameters).bind
    fun parameters => (replaces_transformM m.result).map fun result => { m with parameters, result }

theorem replaces_constructor (ctor : Option Constructor) :
    Replaces name (ctor.mapM fun c => do
        let parameters ← c.parameters.mapM fun p => do
          pure { p with type := ← p.type.transformM (replace name) }
        pure { c with parameters })
      (dateCount (ctor.toList.flatMap fun c => c.parameters.map (·.type))) ctor fun s =>
        ctor.map fun c =>
          { c with
            parameters := c.parameters.map fun p =>
              { p with type := p.type.transform (orAlias s) } } := by
  cases ctor with
  | none => exact .pure none
  | some c =>
    rw [Option.toList_some, List.flatMap_singleton]
    refine .map (.map ?_ fun parameters => { c with parameters }) some
    exact replaces_mapM_type (·.type) (fun p type => { p with type }) (fun _ => rfl) c.parameters

theorem replaces_mapTypesM (d : DataDeclaration) :
    Replaces name (d.mapTypesM (·.transformM (replace name))) (dateCount d.types) d
      fun s => d.mapTypes (·.transform (orAlias s)) := by
  refine ((replaces_mapM_type (·.type) (fun p type => { p with type }) (fun _ => rfl)
    d.properties).bind fun properties => (Replaces.mapM replaces_method d.methods).bind
      fun methods => (replaces_constructor d.ctor).map
        fun ctor => { d with properties, methods, ctor }).congr ?_
  rw [DataDeclaration.types, dateCount_append, dateCount_append, Nat.add_assoc]

end DateWork

namespace Model

open DateWork TypeExpr

variable (model : Model) (selects : DataDeclaration → Bool)

theorem replaces_mapDataTypesM (name : String) :
    Replaces name (model.mapDataTypesM (·.transformM (replace name)) selects)
      (model.dateCount selects) model (model.replaceDates selects) := by
  have hdata : ∀ d : DataDeclaration,
      Replaces name (if selects d then d.mapTypesM (·.transformM (replace name)) else pure d)
        (TypeExpr.dateCount (if selects d then d.types else [])) d
        fun s => if selects d then d.mapTypes (·.transform (orAlias s)) else d := by
    intro d
    cases selects d with
    | false => exact .pure d
    | true => exact replaces_mapTypesM d
  refine ((Replaces.mapM hdata model.data).map fun data => { model with data }).congr ?_
  have hselected : (model.data.flatMap fun d => if selects d then d.types else []) =
      (model.data.filter selects).flatMap (·.types) := by
    induction model.data with
    | nil => rfl
    | cons d ds ih => cases hd : selects d <;> simp [hd, ih]
  rw [hselected, TypeExpr.dateCount, List.flatMap_assoc, dateCount]

/-- Counts the dates of the selected declarations and then replaces them all. -/
def countAndReplaceDates (mapping : DateMapping) (selects : DataDeclaration → Bool)
    (model : Model) : Work Model := do
  match mapping.alias? with
  | none => pure model
  | some (name, definition) =>
    let count := model.dateCount selects
    if count = 0 then pure model
    else
      let symbol ← Work.syntheticSymbol name
      let replaced := model.replaceDates selects symbol
      if (model.findAlias? symbol).isSome then pure replaced
      else
        Work.report .debug .dates
          ("declaring " ++ name ++ " for " ++ toString count ++ " date occurrence(s)")
        pure { replaced with aliases := replaced.aliases ++ [{ symbol, definition }] }

/-- The dates can be counted first. -/
theorem representDates_eq (mapping : DateMapping) :
    model.representDates mapping selects = model.countAndReplaceDates mapping selects := by
  unfold representDates countAndReplaceDates
  cases mapping.alias? with
  | none => rfl
  | some entry =>
    obtain ⟨name, definition⟩ := entry
    have hrun := (model.replaces_mapDataTypesM selects name).run_eq none 0
    by_cases hzero : model.dateCount selects = 0
    · simp [hrun, hzero]
    · simp only [hrun, hzero, if_false, bind_assoc, pure_bind, Nat.zero_add]
      rfl

end Model

end Typings
