import Mathlib.Data.List.Basic
import Typings.Model.Basic

/-!
# Frames of declarations

The steps between building and ordering a model change the properties, the methods and the
constructors of declarations. All else is settled when a declaration is made. Its frame is the
declaration without what may change, so a step keeps what is settled if it keeps the frames.

## Main definitions

* `DataDeclaration.frame`, `Model.frames`: what is settled when declarations are made.
-/

namespace Typings

namespace DataDeclaration

/-- The declaration without what later steps change. -/
def frame (d : DataDeclaration) : DataDeclaration :=
  { d with properties := [], ctor := none, methods := [], unionAlias := none }

variable (d : DataDeclaration)

@[simp] theorem frame_symbol : d.frame.symbol = d.symbol := rfl

@[simp] theorem frame_origin : d.frame.origin = d.origin := rfl

@[simp] theorem frame_category : d.frame.category = d.category := rfl

@[simp] theorem frame_isClass : d.frame.isClass = d.isClass := rfl

@[simp] theorem frame_typeParameters : d.frame.typeParameters = d.typeParameters := rfl

@[simp] theorem frame_parent : d.frame.parent = d.parent := rfl

@[simp] theorem frame_interfaces : d.frame.interfaces = d.interfaces := rfl

@[simp] theorem frame_supertypes : d.frame.supertypes = d.supertypes := rfl

@[simp] theorem frame_mapTypes (f : TypeExpr → TypeExpr) (d : DataDeclaration) :
    (d.mapTypes f).frame = d.frame := rfl

end DataDeclaration

namespace Model

/-- The frames of the interfaces and classes. -/
def frames (model : Model) : List DataDeclaration :=
  model.data.map (·.frame)

variable {model model' : Model}

/-- Changing each declaration within its frame keeps the frames. -/
theorem frames_map {f : DataDeclaration → DataDeclaration} (h : ∀ d, (f d).frame = d.frame) :
    (model.data.map f).map (·.frame) = model.frames := by
  rw [List.map_map]
  exact List.map_congr_left fun d _ => h d

theorem symbols_eq_of_frames (h : model.frames = model'.frames) :
    model.data.map (·.symbol) = model'.data.map (·.symbol) := by
  have hmap := congrArg (List.map (·.symbol)) h
  rw [frames, frames, List.map_map, List.map_map] at hmap
  exact hmap

/-- A declaration of a model with the same frames as another one has its frame there. -/
theorem exists_mem_of_frames (h : model.frames = model'.frames) {d : DataDeclaration}
    (hd : d ∈ model.data) : ∃ d' ∈ model'.data, d'.frame = d.frame := by
  have hmem : d.frame ∈ model'.frames := h ▸ List.mem_map_of_mem hd
  exact List.mem_map.mp hmem

theorem isSome_findAlias? {s : Symbol} :
    (model.findAlias? s).isSome = true ↔ s ∈ model.aliases.map (·.symbol) := by
  simp [findAlias?, List.find?_isSome]

end Model

end Typings
