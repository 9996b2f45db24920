import Typings.Proofs.Code.Vocabulary
import Typings.Proofs.Model.Frame

/-!
# Declarations within vocabularies

## Main definitions

* `DataDeclaration.PropertiesWithin`, `DataDeclaration.MembersWithin`: the properties, and the
  methods and the constructor of a declaration are within a vocabulary.
* `DataDeclaration.Rewrites`, `Model.Rewritten`: a declaration is another one with its types
  rewritten, and the declarations of a model are.
* `Model.PropertiesWithin`, `Model.MembersWithin`, `Model.CodeWithin`: the same for all declarations
  of a model.

## Main results

* `DataDeclaration.Rewrites.mapTypes`: changing all types rewrites a declaration.
* `DataDeclaration.forall_types`: all types of a declaration.
-/

namespace Typings

variable {voc voc' : Vocabulary}

/-- Whether the parameters and the result of a method are within a vocabulary and its own type
parameters. -/
structure Method.Within (voc : Vocabulary) (m : Method) : Prop where
  parameters : ∀ p ∈ m.parameters, p.type.Within (voc.binding m.typeParameters)
  result : m.result.Within (voc.binding m.typeParameters)

theorem Method.Within.mono {m : Method} (h : m.Within voc) (hle : voc.Le voc') : m.Within voc' where
  parameters p hp := (h.parameters p hp).mono (hle.binding _)
  result := h.result.mono (hle.binding _)

namespace DataDeclaration

variable {d : DataDeclaration} {f : TypeExpr → TypeExpr}

def PropertiesWithin (voc : Vocabulary) (d : DataDeclaration) : Prop :=
  ∀ p ∈ d.properties, p.type.Within voc

/-- Whether the methods and the constructor are within a vocabulary. -/
structure MembersWithin (voc : Vocabulary) (d : DataDeclaration) : Prop where
  methods : ∀ m ∈ d.methods, m.Within voc
  ctor : ∀ c ∈ d.ctor, ∀ p ∈ c.parameters, p.type.Within voc

theorem PropertiesWithin.mono (h : d.PropertiesWithin voc) (hle : voc.Le voc') :
    d.PropertiesWithin voc' :=
  fun p hp => (h p hp).mono hle

theorem MembersWithin.mono (h : d.MembersWithin voc) (hle : voc.Le voc') :
    d.MembersWithin voc' where
  methods m hm := (h.methods m hm).mono hle
  ctor c hc p hp := (h.ctor c hc p hp).mono hle

theorem MembersWithin.of_empty (hmethods : d.methods = []) (hctor : d.ctor = none) :
    d.MembersWithin voc where
  methods m hm := absurd (hmethods ▸ hm) List.not_mem_nil
  ctor c hc := absurd (hctor ▸ hc) (by simp)

theorem PropertiesWithin.mapTypes (h : d.PropertiesWithin voc)
    (hf : ∀ t : TypeExpr, t.Within voc → (f t).Within voc') :
    (d.mapTypes f).PropertiesWithin voc' := by
  intro p hp
  obtain ⟨q, hq, rfl⟩ := List.mem_map.mp hp
  exact hf _ (h q hq)

/-- A change of types that respects further variables keeps methods and constructors within a
vocabulary. -/
theorem MembersWithin.mapTypes (h : d.MembersWithin voc)
    (hf : ∀ names (t : TypeExpr), t.Within (voc.binding names) →
      (f t).Within (voc'.binding names)) : (d.mapTypes f).MembersWithin voc' where
  methods m hm := by
    obtain ⟨m', hm', rfl⟩ := List.mem_map.mp hm
    refine ⟨fun p hp => ?_, hf _ _ (h.methods m' hm').result⟩
    obtain ⟨q, hq, rfl⟩ := List.mem_map.mp hp
    exact hf _ _ ((h.methods m' hm').parameters q hq)
  ctor c hc p hp := by
    obtain ⟨c', hc', rfl⟩ := Option.map_eq_some_iff.mp hc
    obtain ⟨q, hq, rfl⟩ := List.mem_map.mp hp
    exact (hf [] _ ((h.ctor c' hc' q hq).mono (voc.le_binding []))).mono voc'.binding_nil_le

theorem mem_types {t : TypeExpr} :
    t ∈ d.types ↔ (∃ p ∈ d.properties, p.type = t) ∨
      (∃ m ∈ d.methods, (∃ p ∈ m.parameters, p.type = t) ∨ t = m.result) ∨
      ∃ c ∈ d.ctor, ∃ p ∈ c.parameters, p.type = t := by
  simp [types]

/-- Where variables do not matter, all types are within a vocabulary as soon as properties and
members are. -/
theorem forall_types (hvar : ∀ v, voc.var v) (hproperties : d.PropertiesWithin voc)
    (hmembers : d.MembersWithin voc) : ∀ t ∈ d.types, t.Within voc := by
  have hle : ∀ names, (voc.binding names).Le voc := fun names =>
    ⟨fun _ _ hs => hs, fun v _ => hvar v, fun _ hk => hk⟩
  intro t ht
  rcases mem_types.mp ht with ⟨p, hp, rfl⟩ | ⟨m, hm, ⟨p, hp, rfl⟩ | rfl⟩ | ⟨c, hc, p, hp, rfl⟩
  · exact hproperties p hp
  · exact ((hmembers.methods m hm).parameters p hp).mono (hle _)
  · exact (hmembers.methods m hm).result.mono (hle _)
  · exact hmembers.ctor c hc p hp

/-! ## Rewriting -/

/-- Whether the second declaration is the first one with its types rewritten, in a way that leads
from one vocabulary to another one. -/
structure Rewrites (voc voc' : Vocabulary) (d d' : DataDeclaration) : Prop where
  frame : d'.frame = d.frame
  code : d'.codeNodes = d.codeNodes
  unionAlias : d'.unionAlias = d.unionAlias
  properties : d.PropertiesWithin voc → d'.PropertiesWithin voc'
  members : d.MembersWithin voc → d'.MembersWithin voc'

theorem Rewrites.refl (hle : voc.Le voc') : Rewrites voc voc' d d where
  frame := rfl
  code := rfl
  unionAlias := rfl
  properties h := h.mono hle
  members h := h.mono hle

/-- A declaration counts as rewritten as it is if its types lead from one vocabulary to the
other. -/
theorem Rewrites.of_types (h : ∀ t ∈ d.types, ∀ names,
    t.Within (voc.binding names) → t.Within (voc'.binding names)) : Rewrites voc voc' d d where
  frame := rfl
  code := rfl
  unionAlias := rfl
  properties hproperties p hp :=
    (h _ (mem_types.mpr (Or.inl ⟨p, hp, rfl⟩)) []
      ((hproperties p hp).mono (voc.le_binding []))).mono voc'.binding_nil_le
  members hmembers :=
    { methods := fun m hm =>
        { parameters := fun p hp =>
            h _ (mem_types.mpr (Or.inr (.inl ⟨m, hm, .inl ⟨p, hp, rfl⟩⟩))) _
              ((hmembers.methods m hm).parameters p hp)
          result :=
            h _ (mem_types.mpr (Or.inr (.inl ⟨m, hm, .inr rfl⟩))) _
              (hmembers.methods m hm).result }
      ctor := fun c hc p hp =>
        (h _ (mem_types.mpr (Or.inr (.inr ⟨c, hc, p, hp, rfl⟩))) []
          ((hmembers.ctor c hc p hp).mono (voc.le_binding []))).mono voc'.binding_nil_le }

theorem Rewrites.trans {voc'' : Vocabulary} {d' d'' : DataDeclaration}
    (h : Rewrites voc voc' d d') (h' : Rewrites voc' voc'' d' d'') : Rewrites voc voc'' d d'' where
  frame := h'.frame.trans h.frame
  code := h'.code.trans h.code
  unionAlias := h'.unionAlias.trans h.unionAlias
  properties hp := h'.properties (h.properties hp)
  members hm := h'.members (h.members hm)

theorem Rewrites.mapTypes
    (hf : ∀ names (t : TypeExpr), t.Within (voc.binding names) →
      (f t).Within (voc'.binding names)) : Rewrites voc voc' d (d.mapTypes f) where
  frame := rfl
  code := codeNodes_mapTypes f d
  unionAlias := rfl
  properties h := h.mapTypes fun t ht =>
    (hf [] t (ht.mono (voc.le_binding []))).mono voc'.binding_nil_le
  members h := h.mapTypes hf

end DataDeclaration

namespace Model

variable {model model' : Model}

theorem mem_mapDataTypes {selects : DataDeclaration → Bool} {f : TypeExpr → TypeExpr}
    {d : DataDeclaration} :
    d ∈ (model.mapDataTypes selects f).data ↔
      ∃ d' ∈ model.data, (if selects d' then d'.mapTypes f else d') = d :=
  List.mem_map

@[simp] theorem frames_mapDataTypes (selects : DataDeclaration → Bool) (f : TypeExpr → TypeExpr) :
    (model.mapDataTypes selects f).frames = model.frames :=
  frames_map fun d => by split <;> rfl

/-! ## Models

What may occur in a declaration depends on its frame only, since its type parameters bind
variables. -/

variable {scope scope' scope'' : DataDeclaration → Vocabulary} {voc : CodeVocabulary}

/-- Whether all properties are within the vocabularies of their declarations. -/
def PropertiesWithin (scope : DataDeclaration → Vocabulary) (model : Model) : Prop :=
  ∀ d ∈ model.data, d.PropertiesWithin (scope d.frame)

/-- Whether all methods and constructors are within the vocabularies of their declarations. -/
def MembersWithin (scope : DataDeclaration → Vocabulary) (model : Model) : Prop :=
  ∀ d ∈ model.data, d.MembersWithin (scope d.frame)

/-- Whether all code keeps to a vocabulary. -/
def CodeWithin (voc : CodeVocabulary) (model : Model) : Prop :=
  ∀ d ∈ model.data, d.CodeWithin voc

/-- Whether the aliases of unions are aliases of the model. -/
def UnionsDeclared (model : Model) : Prop :=
  ∀ d ∈ model.data, ∀ s ∈ d.unionAlias, s ∈ model.aliases.map (·.symbol)

/-- Whether the declarations of the second model are those of the first one with their types
rewritten. -/
def Rewritten (scope scope' : DataDeclaration → Vocabulary) (model model' : Model) : Prop :=
  ∀ d' ∈ model'.data, ∃ d ∈ model.data, d.Rewrites (scope d.frame) (scope' d.frame) d'

namespace Rewritten

theorem of_data_eq (h : model'.data = model.data) (hle : ∀ d, (scope d).Le (scope' d)) :
    Rewritten scope scope' model model' :=
  fun d hd => ⟨d, h ▸ hd, .refl (hle d.frame)⟩

theorem congr_data {other : Model} (h : Rewritten scope scope' model model')
    (hdata : other.data = model'.data) : Rewritten scope scope' model other :=
  fun d hd => h d (hdata ▸ hd)

theorem congr_scope (h : Rewritten scope scope' model model') (hscope : ∀ d, scope' d = scope'' d) :
    Rewritten scope scope'' model model' := by
  rwa [← funext hscope]

theorem mapDataTypes {selects : DataDeclaration → Bool} {f : TypeExpr → TypeExpr}
    (hselects : ∀ d, selects d.frame = selects d)
    (hf : ∀ d, selects d = true → ∀ names (t : TypeExpr),
      t.Within ((scope d).binding names) → (f t).Within ((scope' d).binding names))
    (hle : ∀ d, selects d = false → (scope d).Le (scope' d)) :
    Rewritten scope scope' model (model.mapDataTypes selects f) := by
  intro d' hd'
  obtain ⟨d, hd, rfl⟩ := mem_mapDataTypes.mp hd'
  refine ⟨d, hd, ?_⟩
  split
  case isTrue hsel => exact .mapTypes (hf d.frame ((hselects d).trans hsel))
  case isFalse hsel => exact .refl (hle d.frame ((hselects d).trans (by simpa using hsel)))

variable (h : Rewritten scope scope' model model')

include h

theorem trans {model'' : Model} (h' : Rewritten scope' scope'' model' model'') :
    Rewritten scope scope'' model model'' := by
  intro d'' hd''
  obtain ⟨d', hd', hrewrites'⟩ := h' d'' hd''
  obtain ⟨d, hd, hrewrites⟩ := h d' hd'
  rw [hrewrites.frame] at hrewrites'
  exact ⟨d, hd, hrewrites.trans hrewrites'⟩

theorem properties (hproperties : model.PropertiesWithin scope) :
    model'.PropertiesWithin scope' := by
  intro d' hd'
  obtain ⟨d, hd, hrewrites⟩ := h d' hd'
  rw [hrewrites.frame]
  exact hrewrites.properties (hproperties d hd)

theorem members (hmembers : model.MembersWithin scope) : model'.MembersWithin scope' := by
  intro d' hd'
  obtain ⟨d, hd, hrewrites⟩ := h d' hd'
  rw [hrewrites.frame]
  exact hrewrites.members (hmembers d hd)

theorem code (hcode : model.CodeWithin voc) : model'.CodeWithin voc := by
  intro d' hd' n hn
  obtain ⟨d, hd, hrewrites⟩ := h d' hd'
  exact hcode d hd n (hrewrites.code ▸ hn)

theorem unionsDeclared (hunions : model.UnionsDeclared)
    (hsub : model.aliases ⊆ model'.aliases) : model'.UnionsDeclared := by
  intro d' hd' s hs
  obtain ⟨d, hd, hrewrites⟩ := h d' hd'
  exact List.map_subset _ hsub (hunions d hd s (hrewrites.unionAlias ▸ hs))

end Rewritten

end Model

end Typings
