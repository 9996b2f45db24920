import Mathlib.Data.List.Pairwise
import Typings.Mapping.Basic

/-!
# The order of resolvers

The first resolver of a chain that recognises a type decides what becomes of it. Types without a
name are each recognised by one resolver, and a named type by those that know its name. So the order
of a chain makes no difference if no name is known to two resolvers: not to the result, and not to
the symbols that are issued and the events that are reported on the way.

## Main definitions

* `Resolver.names`: the names that a resolver knows.
* `Mapper.PlansAlike`: two mappers differ in the order of their resolvers only, and this does not
  matter for names.

## Main results

* `Mapper.isSome_plan?_iff`: a resolver recognises the names that it knows.
* `Mapper.firstPlan?_eq_of_perm`: names that are not shared are recognised alike in any order.
* `Mapper.map_congr`: mappers that plan alike do the same work for every type.
* `Mapper.map_eq_of_perm`: where names are not shared, all orders of resolvers map alike.
-/

namespace Typings

/-- The value that is found first is the same in another order if all that can be found is the
same. -/
theorem findSome?_eq_of_perm {α β : Type} {f : α → Option β} {as bs : List α} (hperm : as.Perm bs)
    (hsame : ∀ a ∈ as, ∀ b ∈ as, ∀ x y, f a = some x → f b = some y → x = y) :
    as.findSome? f = bs.findSome? f := by
  cases has : as.findSome? f with
  | none =>
    rw [List.findSome?_eq_none_iff] at has
    exact (List.findSome?_eq_none_iff.mpr fun b hb => has b (hperm.mem_iff.mpr hb)).symm
  | some x =>
    obtain ⟨a, ha, hx⟩ := List.exists_of_findSome?_eq_some has
    cases hbs : bs.findSome? f with
    | none =>
      rw [List.findSome?_eq_none_iff] at hbs
      exact absurd (hx.symm.trans (hbs a (hperm.mem_iff.mp ha))) (Option.some_ne_none x)
    | some y =>
      obtain ⟨b, hb, hy⟩ := List.exists_of_findSome?_eq_some hbs
      exact congrArg some (hsame a ha b (hperm.mem_iff.mpr hb) x y hx hy)

/-- The names that a resolver knows, by the settings and the declarations of a graph. -/
def Resolver.names (settings : Settings) (graph : SourceGraph) : Resolver → List String
  | .custom => settings.customTypeMappings.map (·.1)
  | .primitive =>
    settings.knownTypes.strings ++ settings.knownTypes.numbers ++ settings.knownTypes.booleans ++
      settings.knownTypes.dates ++ settings.knownTypes.voids ++ settings.knownTypes.any
  | .optional => settings.knownTypes.optionals
  | .wrapper => settings.knownTypes.wrappers
  | .container => settings.knownTypes.sequences ++ settings.knownTypes.maps
  | .declared => graph.classes.map (·.name) ++ graph.enums.map (·.name)
  | .array | .var | .union => []

theorem Resolver.mem_builtIn (resolver : Resolver) : resolver ∈ Resolver.builtIn := by
  cases resolver <;> decide

namespace Mapper

section Plans

variable {chain : List Resolver} {settings : Settings} {graph : SourceGraph} {name : String}

theorem isSome_ite_iff {α : Type} {p : Prop} [Decidable p] {a : α} {rest : Option α} :
    (if p then some a else rest).isSome = true ↔ p ∨ rest.isSome = true := by
  split
  case isTrue hp => simp [hp]
  case isFalse hp => simp [hp]

/-- A resolver recognises exactly the names that it knows. -/
theorem isSome_plan?_iff (resolver : Resolver) :
    ((ofChain chain settings graph).plan? name resolver).isSome = true ↔
      name ∈ resolver.names settings graph := by
  cases resolver with
  | custom =>
    rw [plan?, Option.isSome_map, List.lookup_isSome_iff, Resolver.names, List.mem_map]
    exact exists_congr fun pair => and_congr_right fun _ => by rw [beq_iff_eq, eq_comm]
  | primitive =>
    simp only [plan?, Option.isSome_map, primitive?, isSome_ite_iff, List.contains_iff_mem,
      Option.isSome_none, Bool.false_eq_true, or_false, Resolver.names, List.mem_append,
      or_assoc, ofChain]
  | optional | wrapper | container | declared =>
    simp only [plan?, isSome_ite_iff, List.contains_iff_mem, Option.isSome_none, Bool.false_eq_true,
      or_false, Resolver.names, List.mem_append, ofChain, SourceGraph.declaredNames]
  | array | var | union => simp [plan?, Resolver.names]

/-- Where no name is known to two resolvers, a name is recognised alike in any order. -/
theorem firstPlan?_eq_of_perm (hperm : chain.Perm Resolver.builtIn)
    (hdisjoint : Resolver.builtIn.Pairwise fun r r' =>
      (r.names settings graph).Disjoint (r'.names settings graph)) (name : String) :
    (ofChain chain settings graph).firstPlan? name = (builtIn settings graph).firstPlan? name := by
  have hknown : ∀ {r : Resolver} {x : Resolver × Plan},
      ((ofChain chain settings graph).plan? name r).map (r, ·) = some x →
        name ∈ r.names settings graph := by
    intro r x hx
    obtain ⟨plan, hplan, -⟩ := Option.map_eq_some_iff.mp hx
    exact (isSome_plan?_iff r).mp (Option.isSome_iff_exists.mpr ⟨plan, hplan⟩)
  refine findSome?_eq_of_perm hperm fun r _ r' _ x y hx hy => ?_
  have hsame : r = r' := by
    by_contra hne
    have hsymm : Std.Symm fun r r' : Resolver =>
        (r.names settings graph).Disjoint (r'.names settings graph) :=
      ⟨fun _ _ h _ hname hname' => h hname' hname⟩
    exact hdisjoint.forall r.mem_builtIn r'.mem_builtIn hne (hknown hx) (hknown hy)
  subst hsame
  exact Option.some.inj (hx.symm.trans hy)

end Plans

/-! ## Mappers that plan alike -/

/-- Whether two mappers have the same plans for names and the same resolvers, in whatever order. -/
structure PlansAlike (mapper mapper' : Mapper) : Prop where
  firstPlan? (name : String) : mapper.firstPlan? name = mapper'.firstPlan? name
  contains (resolver : Resolver) : mapper.chain.contains resolver = mapper'.chain.contains resolver

variable {mapper mapper' : Mapper}

mutual

/-- Mappers that plan alike do the same work for every type. -/
theorem map_congr (h : PlansAlike mapper mapper') (source : SourceType) :
    mapper.map source = mapper'.map source := by
  cases source with
  | named name args =>
    rw [map, map, h.firstPlan?]
    split
    · rfl
    case h_2 resolver plan _ =>
      cases plan with
      | fixed type => rfl
      | argument position build => simp only [mapNth_congr h args position]
      | reference => simp only [mapAll_congr h args]
  | nullable inner => rw [map, map, h.contains, map_congr h inner]
  | array element => rw [map, map, h.contains, map_congr h element]
  | var name => rw [map, map, h.contains]
  | union types => rw [map, map, h.contains, mapAll_congr h types]

theorem mapNth_congr (h : PlansAlike mapper mapper') (sources : List SourceType) (position : Nat) :
    mapper.mapNth sources position = mapper'.mapNth sources position := by
  cases sources with
  | nil => rfl
  | cons source rest =>
    cases position with
    | zero => rw [mapNth, mapNth, map_congr h source]
    | succ position => rw [mapNth, mapNth, mapNth_congr h rest position]

theorem mapAll_congr (h : PlansAlike mapper mapper') (sources : List SourceType) :
    mapper.mapAll sources = mapper'.mapAll sources := by
  cases sources with
  | nil => rfl
  | cons source rest => simp only [mapAll, map_congr h source, mapAll_congr h rest]

end

/-- Where no name is known to two resolvers, every order of the resolvers maps every type alike:
with the same result, the same symbols and the same events. -/
theorem map_eq_of_perm {settings : Settings} {graph : SourceGraph}
    (hdisjoint : Resolver.builtIn.Pairwise fun r r' =>
      (r.names settings graph).Disjoint (r'.names settings graph))
    {chain : List Resolver} (hperm : chain.Perm Resolver.builtIn) (source : SourceType)
    (session : Session) :
    ((ofChain chain settings graph).map source).run session =
      ((builtIn settings graph).map source).run session := by
  have halike : PlansAlike (ofChain chain settings graph) (builtIn settings graph) :=
    ⟨firstPlan?_eq_of_perm hperm hdisjoint, fun _ => hperm.contains_eq⟩
  rw [map_congr halike source]

/-- With the known types of the default settings, one type mapped as configured and one class, a
list of optional classes is mapped alike by the reversed chain. -/
theorem map_eq_pets :
    let settings : Settings := { customTypeMappings := [("Money", "Decimal")] }
    let graph : SourceGraph := { classes := [{ name := "Pet" }] }
    let pets := SourceType.named "java.util.List" [.nullable (.named "Pet" [.named "Money" []])]
    (Resolver.builtIn.Pairwise fun r r' =>
      (r.names settings graph).Disjoint (r'.names settings graph)) ∧
    Resolver.builtIn.reverse.Perm Resolver.builtIn ∧
    (((builtIn settings graph).map pets).run {}).1 =
      .ok (.array (.optional (.reference ⟨0⟩ [.verbatim "Decimal"]))) ∧
    ((ofChain Resolver.builtIn.reverse settings graph).map pets).run {} =
      ((builtIn settings graph).map pets).run {} := by
  intro settings graph pets
  have hdisjoint : Resolver.builtIn.Pairwise fun r r' =>
      (r.names settings graph).Disjoint (r'.names settings graph) := by
    simp only [List.disjoint_left]
    decide +kernel
  exact ⟨hdisjoint, Resolver.builtIn.reverse_perm, rfl,
    map_eq_of_perm hdisjoint Resolver.builtIn.reverse_perm pets {}⟩

/-- A declared class that is known as a wrapper is mapped by the resolver that comes first. -/
example :
    let settings : Settings := { knownTypes := { wrappers := ["Box"] } }
    let graph : SourceGraph := { classes := [{ name := "Box" }] }
    (((builtIn settings graph).map (.named "Box" [])).run {}).1 = .ok .any ∧
    (((ofChain Resolver.builtIn.reverse settings graph).map (.named "Box" [])).run {}).1 =
      .ok (.bare ⟨0⟩) :=
  ⟨rfl, rfl⟩

end Mapper

end Typings
