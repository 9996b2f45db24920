import Typings.Mapping.Basic
import Typings.Proofs.Session
import Typings.Proofs.Type.Vocabulary

/-!
# Mapped types as values

Mapping a source type issues symbols on the way. Once the final table is known, the result is a
plain function of the source type: every declared name stands for the symbol that the final table
has for it.

## Main definitions

* `SymbolTable.symbolOf`: the symbol of an entity.
* `SymbolTable.NamedBy`: a function has the symbols of the entities that a table issued.
* `Mapper.image`: what a source type is mapped to, given the symbols of entities.
* `SourceType.vars`: the type variables of a source type.
* `Mapper.Planned`: the plans that resolvers can have for a name.
* `Mapper.Keeps`: a property of types is kept by all that a mapper builds types with.

## Main results

* `Mapper.yields_image`, `Mapper.yields_map`: mapping a source type yields its image.
* `Mapper.Keeps.holds_image`: such a property holds of images.
* `Mapper.within_image`: what may occur in an image.
-/

namespace Typings

/-- The symbol of an entity, which any symbol stands in for if none was issued. -/
def SymbolTable.symbolOf (table : SymbolTable) (name : String) : Symbol :=
  (table.find? (.entity name "")).getD default

theorem SymbolTable.symbolOf_eq {table : SymbolTable} {name : String} {symbol : Symbol}
    (h : table.find? (.entity name "") = some symbol) : table.symbolOf name = symbol := by
  rw [symbolOf, h, Option.getD_some]

/-- Whether a function has the symbols of the entities that a table issued; what it has for others
is left open. -/
def SymbolTable.NamedBy (table : SymbolTable) (symbolOf : String → Symbol) : Prop :=
  ∀ name symbol, table.find? (.entity name "") = some symbol → symbolOf name = symbol

theorem SymbolTable.namedBy_symbolOf (table : SymbolTable) : table.NamedBy table.symbolOf :=
  fun _ _ => symbolOf_eq

namespace Mapper

variable (mapper : Mapper) (symbolOf : String → Symbol)

mutual

def image : SourceType → Except Unresolved TypeExpr
  | .named name args =>
    match mapper.firstPlan? name with
    | none => .error ⟨(SourceType.named name args).shown⟩
    | some (_, .fixed type) => .ok type
    | some (_, .argument position build) => (imageNth args position).map build
    | some (_, .reference) => (imageAll args).map (.reference (symbolOf name))
  | .nullable inner =>
    if mapper.chain.contains .optional then (image inner).map .orAbsent
    else .error ⟨(SourceType.nullable inner).shown⟩
  | .array element =>
    if mapper.chain.contains .array then (image element).map .array
    else .error ⟨(SourceType.array element).shown⟩
  | .var name =>
    if mapper.chain.contains .var then .ok (.var name) else .error ⟨(SourceType.var name).shown⟩
  | .union types =>
    if mapper.chain.contains .union then (imageAll types).map .union
    else .error ⟨(SourceType.union types).shown⟩

/-- What the type at a position is mapped to. -/
def imageNth : List SourceType → Nat → Except Unresolved TypeExpr
  | [], _ => .ok .any
  | source :: _, 0 => image source
  | _ :: rest, position + 1 => imageNth rest position

def imageAll : List SourceType → Except Unresolved (List TypeExpr)
  | [] => .ok []
  | source :: rest =>
    match image source with
    | .error e => .error e
    | .ok type => (imageAll rest).map (type :: ·)

end

end Mapper

namespace Mapper

open Work

variable {mapper : Mapper} {lo hi : SymbolTable} {symbolOf : String → Symbol}

theorem yields_unresolved (source : SourceType) :
    Yields lo hi (unresolved source) (· = .error ⟨source.shown⟩) :=
  .bind (yields_report _ _ _) fun _ => .pure fun _ => rfl

theorem yields_refer (hnamed : hi.NamedBy symbolOf) (name : String)
    (args : Except Unresolved (List TypeExpr)) :
    Yields lo hi (refer name args) (· = args.map (.reference (symbolOf name))) := by
  cases args with
  | error e => exact .pure rfl
  | ok args =>
    refine .bind (yields_entitySymbol name "") fun symbol => .pure fun h => ?_
    rw [hnamed name symbol h]
    rfl

theorem yields_reported {α : Type} (resolver : Resolver) (source : SourceType) (result : α) :
    Yields lo hi (do reportResolved resolver source; pure result) (· = result) :=
  .bind (yields_report _ _ _) fun _ => .pure fun _ => rfl

/-- A type is built from what its parts are mapped to, unless mapping them failed. -/
theorem yields_built {α : Type} {parts : Work (Except Unresolved α)}
    {expected : Except Unresolved α}
    (h : Yields lo hi parts (· = expected)) (build : α → TypeExpr) (resolver : Resolver)
    (source : SourceType) :
    Yields lo hi
      (do
        let mapped ← parts
        reportResolved resolver source
        pure (mapped.map build))
      (· = expected.map build) := by
  refine .bind h fun mapped => (yields_reported _ _ _).mono fun result hresult hmapped => ?_
  rw [hresult, hmapped]

mutual

/-- Mapping a source type yields its image, whatever stands for names without symbols. -/
theorem yields_image (hnamed : hi.NamedBy symbolOf) (source : SourceType) :
    Yields lo hi (mapper.map source) (· = mapper.image symbolOf source) := by
  cases source with
  | named name args =>
    rw [map, image]
    cases hplan : mapper.firstPlan? name with
    | none => exact yields_unresolved _
    | some found =>
      obtain ⟨resolver, plan⟩ := found
      cases plan with
      | fixed type => exact yields_reported _ _ _
      | argument position build =>
        exact yields_built (yields_imageNth hnamed args position) build _ _
      | reference =>
        refine .bind (yields_imageAll hnamed args) fun mapped =>
          .bind (yields_refer hnamed name mapped) fun _ =>
            (yields_reported _ _ _).mono fun result hresult href h => ?_
        rw [hresult, href, h]
  | nullable inner =>
    rw [map, image]
    split
    · exact yields_built (yields_image hnamed inner) .orAbsent _ _
    · exact yields_unresolved _
  | array element =>
    rw [map, image]
    split
    · exact yields_built (yields_image hnamed element) .array _ _
    · exact yields_unresolved _
  | var name =>
    rw [map, image]
    split
    · exact yields_reported _ _ _
    · exact yields_unresolved _
  | union types =>
    rw [map, image]
    split
    · exact yields_built (yields_imageAll hnamed types) .union _ _
    · exact yields_unresolved _

theorem yields_imageNth (hnamed : hi.NamedBy symbolOf) (sources : List SourceType)
    (position : Nat) : Yields lo hi (mapper.mapNth sources position)
      (· = mapper.imageNth symbolOf sources position) := by
  cases sources with
  | nil => exact .pure (by rw [imageNth])
  | cons source rest =>
    cases position with
    | zero => simpa only [mapNth, imageNth] using yields_image hnamed source
    | succ position => simpa only [mapNth, imageNth] using yields_imageNth hnamed rest position

theorem yields_imageAll (hnamed : hi.NamedBy symbolOf) (sources : List SourceType) :
    Yields lo hi (mapper.mapAll sources) (· = mapper.imageAll symbolOf sources) := by
  cases sources with
  | nil => exact .pure (by rw [imageAll])
  | cons source rest =>
    rw [mapAll, imageAll]
    refine .bind (yields_image hnamed source) fun first => ?_
    cases first with
    | error e => exact .pure fun h => by rw [← h]
    | ok type =>
      refine .bind (yields_imageAll hnamed rest) fun others => ?_
      cases others with
      | error e => exact .pure fun hrest hfirst => by rw [← hfirst, ← hrest]; rfl
      | ok types => exact .pure fun hrest hfirst => by rw [← hfirst, ← hrest]; rfl

end

/-- Mapping a source type yields its image by the symbols of the final table. -/
theorem yields_map (source : SourceType) :
    Yields lo hi (mapper.map source) (· = mapper.image hi.symbolOf source) :=
  yields_image hi.namedBy_symbolOf source

end Mapper

/-! ## What occurs in images -/

mutual

def SourceType.vars : SourceType → List String
  | .named _ args => SourceType.varsAll args
  | .var name => [name]
  | .array element => element.vars
  | .union types => SourceType.varsAll types
  | .nullable inner => inner.vars

def SourceType.varsAll : List SourceType → List String
  | [] => []
  | source :: rest => source.vars ++ SourceType.varsAll rest

end

namespace Mapper

variable {mapper : Mapper} {symbolOf : String → Symbol} {name : String} {resolver : Resolver}
  {plan : Plan}

/-- The plans that resolvers can have for a name. -/
inductive Planned (mapper : Mapper) (name : String) : Plan → Prop where
  | custom (text : String) : Planned mapper name (.fixed (.verbatim text))
  | primitive (kind : Primitive) : Planned mapper name (.fixed (.primitive kind))
  | any : Planned mapper name (.fixed .any)
  | optional : Planned mapper name (.argument 0 .orAbsent)
  | wrapper : Planned mapper name (.argument 0 id)
  | sequence : Planned mapper name (.argument 0 .array)
  | map : Planned mapper name (.argument 1 .stringMap)
  | declared (h : name ∈ mapper.declaredNames) : Planned mapper name .reference

theorem planned_of_primitive? {type : TypeExpr} (h : mapper.primitive? name = some type) :
    Planned mapper name (.fixed type) := by
  unfold primitive? at h
  dsimp only at h
  split_ifs at h <;> obtain rfl := Option.some.inj h
  · exact .primitive .string
  · exact .primitive .number
  · exact .primitive .boolean
  · exact .primitive .temporal
  · exact .primitive .void
  · exact .any

theorem planned_of_plan? (h : mapper.plan? name resolver = some plan) :
    Planned mapper name plan := by
  cases resolver with
  | custom =>
    obtain ⟨text, -, rfl⟩ := Option.map_eq_some_iff.mp h
    exact .custom text
  | primitive =>
    obtain ⟨type, htype, rfl⟩ := Option.map_eq_some_iff.mp h
    exact planned_of_primitive? htype
  | optional =>
    obtain ⟨-, hplan⟩ := Option.ite_none_right_eq_some.mp h
    obtain rfl := Option.some.inj hplan
    exact .optional
  | wrapper =>
    obtain ⟨-, hplan⟩ := Option.ite_none_right_eq_some.mp h
    obtain rfl := Option.some.inj hplan
    exact .wrapper
  | container =>
    simp only [plan?] at h
    split_ifs at h <;> obtain rfl := Option.some.inj h
    · exact .sequence
    · exact .map
  | declared =>
    obtain ⟨hname, hplan⟩ := Option.ite_none_right_eq_some.mp h
    obtain rfl := Option.some.inj hplan
    exact .declared (List.contains_iff_mem.mp hname)
  | array | var | union => simp [plan?] at h

theorem planned_of_firstPlan? (h : mapper.firstPlan? name = some (resolver, plan)) :
    Planned mapper name plan := by
  obtain ⟨_, -, hfirst⟩ := List.exists_of_findSome?_eq_some h
  obtain ⟨plan', hplan', heq⟩ := Option.map_eq_some_iff.mp hfirst
  obtain rfl : plan' = plan := congrArg Prod.snd heq
  exact planned_of_plan? hplan'

theorem map_eq_ok {α β ε : Type} {f : α → β} {result : Except ε α} {b : β}
    (h : result.map f = .ok b) : ∃ a, result = .ok a ∧ f a = b := by
  cases result with
  | error e => exact nomatch h
  | ok a => exact ⟨a, rfl, Except.ok.inj h⟩

/-- Whether a property of types is kept by all that a mapper builds types with; what it says of type
variables is left open. -/
structure Keeps (mapper : Mapper) (symbolOf : String → Symbol) (P : TypeExpr → Prop) : Prop where
  any : P .any
  verbatim : ∀ text, P (.verbatim text)
  primitive : ∀ kind, P (.primitive kind)
  orAbsent : ∀ t : TypeExpr, P t → P t.orAbsent
  array : ∀ t, P t → P (.array t)
  stringMap : ∀ t, P t → P (.stringMap t)
  union : ∀ ts, (∀ t ∈ ts, P t) → P (.union ts)
  reference : ∀ name ∈ mapper.declaredNames, ∀ args, (∀ t ∈ args, P t) →
    P (.reference (symbolOf name) args)

namespace Keeps

variable {P : TypeExpr → Prop}

theorem fixed (h : mapper.Keeps symbolOf P) {type : TypeExpr}
    (hplan : Planned mapper name (.fixed type)) : P type := by
  cases hplan with
  | custom text => exact h.verbatim text
  | primitive kind => exact h.primitive kind
  | any => exact h.any

theorem argument (h : mapper.Keeps symbolOf P) {position : Nat} {build : TypeExpr → TypeExpr}
    {t : TypeExpr} (hplan : Planned mapper name (.argument position build)) (ht : P t) :
    P (build t) := by
  cases hplan with
  | optional => exact h.orAbsent t ht
  | wrapper => exact ht
  | sequence => exact h.array t ht
  | map => exact h.stringMap t ht

mutual

/-- A property that is kept holds of an image if it holds of the variables of the source type. -/
theorem holds_image (h : mapper.Keeps symbolOf P) (source : SourceType)
    (hvars : ∀ v ∈ source.vars, P (.var v)) {t : TypeExpr}
    (himage : mapper.image symbolOf source = .ok t) : P t := by
  cases source with
  | named name args =>
    rw [image] at himage
    rw [SourceType.vars] at hvars
    cases hplan : mapper.firstPlan? name with
    | none =>
      rw [hplan] at himage
      exact nomatch himage
    | some found =>
      obtain ⟨resolver, plan⟩ := found
      have hplanned := planned_of_firstPlan? hplan
      rw [hplan] at himage
      cases plan with
      | fixed type =>
        obtain rfl := Except.ok.inj himage
        exact h.fixed hplanned
      | argument position build =>
        obtain ⟨inner, hinner, rfl⟩ := map_eq_ok himage
        exact h.argument hplanned (holds_imageNth h args position hvars hinner)
      | reference =>
        cases hplanned with
        | declared hname =>
          obtain ⟨types, htypes, rfl⟩ := map_eq_ok himage
          exact h.reference name hname types (holds_imageAll h args hvars htypes)
  | nullable inner =>
    rw [image] at himage
    rw [SourceType.vars] at hvars
    split at himage
    · obtain ⟨type, htype, rfl⟩ := map_eq_ok himage
      exact h.orAbsent type (holds_image h inner hvars htype)
    · exact nomatch himage
  | array element =>
    rw [image] at himage
    rw [SourceType.vars] at hvars
    split at himage
    · obtain ⟨type, htype, rfl⟩ := map_eq_ok himage
      exact h.array type (holds_image h element hvars htype)
    · exact nomatch himage
  | var name =>
    rw [image] at himage
    split at himage
    · obtain rfl := Except.ok.inj himage
      exact hvars name (by simp [SourceType.vars])
    · exact nomatch himage
  | union types =>
    rw [image] at himage
    rw [SourceType.vars] at hvars
    split at himage
    · obtain ⟨members, hmembers, rfl⟩ := map_eq_ok himage
      exact h.union members (holds_imageAll h types hvars hmembers)
    · exact nomatch himage

theorem holds_imageNth (h : mapper.Keeps symbolOf P) (sources : List SourceType) (position : Nat)
    (hvars : ∀ v ∈ SourceType.varsAll sources, P (.var v)) {t : TypeExpr}
    (himage : mapper.imageNth symbolOf sources position = .ok t) : P t := by
  cases sources with
  | nil =>
    rw [imageNth] at himage
    obtain rfl := Except.ok.inj himage
    exact h.any
  | cons source rest =>
    rw [SourceType.varsAll, List.forall_mem_append] at hvars
    cases position with
    | zero =>
      rw [imageNth] at himage
      exact holds_image h source hvars.1 himage
    | succ position =>
      rw [imageNth] at himage
      exact holds_imageNth h rest position hvars.2 himage

theorem holds_imageAll (h : mapper.Keeps symbolOf P) (sources : List SourceType)
    (hvars : ∀ v ∈ SourceType.varsAll sources, P (.var v)) {ts : List TypeExpr}
    (himage : mapper.imageAll symbolOf sources = .ok ts) : ∀ t ∈ ts, P t := by
  cases sources with
  | nil =>
    rw [imageAll] at himage
    obtain rfl := Except.ok.inj himage
    simp
  | cons source rest =>
    rw [SourceType.varsAll, List.forall_mem_append] at hvars
    rw [imageAll] at himage
    cases hfirst : mapper.image symbolOf source with
    | error e =>
      rw [hfirst] at himage
      exact nomatch himage
    | ok type =>
      rw [hfirst] at himage
      obtain ⟨types, htypes, rfl⟩ := map_eq_ok himage
      rw [List.forall_mem_cons]
      exact ⟨holds_image h source hvars.1 hfirst, holds_imageAll h rest hvars.2 htypes⟩

end

end Keeps

variable {voc : Vocabulary}

/-- Whether a vocabulary has the symbols of all declared names and all built-in types. -/
structure Covered (mapper : Mapper) (symbolOf : String → Symbol) (voc : Vocabulary) : Prop where
  symbol : ∀ name ∈ mapper.declaredNames, ∀ n, voc.symbol (symbolOf name) n
  primitive : ∀ k, voc.primitive k

theorem Covered.keeps (h : Covered mapper symbolOf voc) : mapper.Keeps symbolOf (·.Within voc) where
  any := TypeExpr.within_any
  verbatim _ := TypeExpr.within_verbatim
  primitive kind := TypeExpr.within_primitive.mpr (h.primitive kind)
  orAbsent _ ht := TypeExpr.within_orAbsent.mpr ht
  array _ ht := TypeExpr.within_array.mpr ht
  stringMap _ ht := TypeExpr.within_indexed.mpr ⟨TypeExpr.within_primitive.mpr (h.primitive _), ht⟩
  union _ hts := TypeExpr.within_union.mpr hts
  reference name hname _ hargs := TypeExpr.within_reference.mpr ⟨h.symbol name hname _, hargs⟩

/-- An image refers to declared names only, and its variables are those of the source type. -/
theorem within_image (hvoc : Covered mapper symbolOf voc) (source : SourceType)
    (hvars : ∀ v ∈ source.vars, voc.var v) {t : TypeExpr}
    (h : mapper.image symbolOf source = .ok t) : t.Within voc :=
  hvoc.keeps.holds_image source (fun v hv => TypeExpr.within_var.mpr (hvars v hv)) h

end Mapper

end Typings
