import Typings.Proofs.Mapping.Image

/-!
# The steps that mapping is made of

Mapping a source type only reports what it recognises and asks for the symbols of declared names.
What holds of these steps and of work that is put together from such work therefore holds of
mapping, whatever the chain of resolvers is and whether a type is recognised or not. There is one
report for every type that is looked at, so properties may count them.

## Main definitions

* `SourceType.size`: the number of types that a source type is made of.
* `Work.Composed`: a property of work that is kept when work is put together.
* `Mapper.Asked`: the origins that mapping may ask for.

## Main results

* `Mapper.composed_map`: such a property holds of mapping.
-/

namespace Typings

mutual

/-- The number of types that a source type is made of, itself included. -/
def SourceType.size : SourceType → Nat
  | .named _ args => SourceType.sizeAll args + 1
  | .var _ => 1
  | .array element => element.size + 1
  | .union types => SourceType.sizeAll types + 1
  | .nullable inner => inner.size + 1

/-- The number of types that the types of a list are made of. -/
def SourceType.sizeAll : List SourceType → Nat
  | [] => 0
  | source :: rest => source.size + SourceType.sizeAll rest

end

/-- Whether a property of work that looks at a number of types holds of the steps of mapping, which
are its reports and requests for some origins, and of all work that is put together from them. -/
structure Work.Composed (P : Nat → (α : Type) → Work α → Prop) (asked : Origin → Prop) : Prop where
  mono {α : Type} {m n : Nat} {work : Work α} (h : P m α work) (hle : m ≤ n) : P n α work
  pure {α : Type} (a : α) : P 0 α (pure a)
  bind {α β : Type} {m n : Nat} {work : Work α} {next : α → Work β} (first : P m α work)
    (rest : ∀ a, P n β (next a)) : P (m + n) β (work >>= next)
  report (message : String) : P 1 Unit (Work.report .trace .mapping message)
  symbol (origin : Origin) (h : asked origin) : P 0 Symbol (Work.symbol origin)

namespace Mapper

/-- Whether an origin is that of a declared name, without suffix. -/
def Asked (mapper : Mapper) (origin : Origin) : Prop :=
  ∃ name ∈ mapper.declaredNames, origin = .entity name ""

/-- Only declared names are referred to. -/
theorem mem_declaredNames_of_firstPlan? {mapper : Mapper} {name : String} {resolver : Resolver}
    (h : mapper.firstPlan? name = some (resolver, .reference)) : name ∈ mapper.declaredNames := by
  cases planned_of_firstPlan? h with
  | declared hname => exact hname

variable {mapper : Mapper} {P : Nat → (α : Type) → Work α → Prop}

section Parts

variable {asked : Origin → Prop} (h : Work.Composed P asked)

include h

theorem composed_unresolved (source : SourceType) : P 1 _ (unresolved source) :=
  h.bind (h.report _) fun _ => h.pure _

theorem composed_reported {α : Type} (resolver : Resolver) (source : SourceType) (result : α) :
    P 1 _ (do reportResolved resolver source; pure result) :=
  h.bind (h.report _) fun _ => h.pure _

theorem composed_refer {name : String} (hname : asked (.entity name ""))
    (args : Except Unresolved (List TypeExpr)) : P 0 _ (refer name args) := by
  cases args with
  | error e => exact h.pure _
  | ok args => exact h.bind (h.symbol _ hname) fun _ => h.pure _

end Parts

variable (h : Work.Composed P mapper.Asked)

include h

mutual

/-- What holds of the steps and is kept when they are put together holds of mapping, which looks at
every part of a type at most once. -/
theorem composed_map (source : SourceType) : P source.size _ (mapper.map source) := by
  have hunrecognised : ∀ n, P (n + 1) _ (unresolved source) := fun n =>
    h.mono (composed_unresolved h source) (Nat.le_add_left 1 n)
  cases source with
  | named name args =>
    rw [map, SourceType.size]
    split
    · exact hunrecognised _
    case h_2 resolver plan hplan =>
      cases plan with
      | fixed type => exact h.mono (composed_reported h _ _ _) (Nat.le_add_left 1 _)
      | argument position build =>
        exact h.bind (composed_mapNth args position) fun _ => composed_reported h _ _ _
      | reference =>
        have hname := mem_declaredNames_of_firstPlan? hplan
        exact h.bind (composed_mapAll args) fun mapped =>
          h.bind (composed_refer h ⟨name, hname, rfl⟩ mapped) fun _ => composed_reported h _ _ _
  | nullable inner =>
    rw [map, SourceType.size]
    split
    · exact h.bind (composed_map inner) fun _ => composed_reported h _ _ _
    · exact hunrecognised _
  | array element =>
    rw [map, SourceType.size]
    split
    · exact h.bind (composed_map element) fun _ => composed_reported h _ _ _
    · exact hunrecognised _
  | var name =>
    rw [map, SourceType.size]
    split
    · exact composed_reported h _ _ _
    · exact hunrecognised 0
  | union types =>
    rw [map, SourceType.size]
    split
    · exact h.bind (composed_mapAll types) fun _ => composed_reported h _ _ _
    · exact hunrecognised _

theorem composed_mapNth (sources : List SourceType) (position : Nat) :
    P (SourceType.sizeAll sources) _ (mapper.mapNth sources position) := by
  cases sources with
  | nil => exact h.pure _
  | cons source rest =>
    rw [SourceType.sizeAll]
    cases position with
    | zero =>
      rw [mapNth]
      exact h.mono (composed_map source) (Nat.le_add_right _ _)
    | succ position =>
      rw [mapNth]
      exact h.mono (composed_mapNth rest position) (Nat.le_add_left _ _)

theorem composed_mapAll (sources : List SourceType) :
    P (SourceType.sizeAll sources) _ (mapper.mapAll sources) := by
  cases sources with
  | nil => exact h.pure _
  | cons source rest =>
    rw [mapAll, SourceType.sizeAll]
    refine h.bind (composed_map source) fun first => ?_
    cases first with
    | error e => exact h.mono (h.pure _) (Nat.zero_le _)
    | ok type =>
      refine h.bind (n := 0) (composed_mapAll rest) fun others => ?_
      cases others with
      | error e => exact h.pure _
      | ok types => exact h.pure _

end

end Mapper

end Typings
