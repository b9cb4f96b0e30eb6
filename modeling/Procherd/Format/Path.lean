-- SUMMARY: Unix paths as byte strings: their components, and joining a path with a name.
import Mathlib.Data.Bool.AllAny
import Mathlib.Data.List.Basic

/-!
# Paths

A path is a byte string. Its components are what lies between the separators,
without empty pieces and without the dots that change nothing. A name that is
one ordinary component stays one when it is joined to a path.
-/

namespace Path

def separator : UInt8 := 47

inductive Component where
  | root
  | current
  | parent
  | normal (name : List UInt8)
deriving DecidableEq

/-- The component of a piece between two separators. -/
def component : List UInt8 → Option Component
  | [] => none
  | [46] => none
  | [46, 46] => some .parent
  | name => some (.normal name)

/-- The components of the pieces of a path, of which the first one may say that
    the path is absolute, or begin it with a dot. -/
def ofPieces : List (List UInt8) → List Component
  | [] :: pieces => .root :: pieces.filterMap component
  | [46] :: pieces => .current :: pieces.filterMap component
  | pieces => pieces.filterMap component

def components (path : List UInt8) : List Component :=
  if path = [] then [] else ofPieces (path.splitOn separator)

/-- An absolute name replaces the path. -/
def join (path name : List UInt8) : List UInt8 :=
  if name.head? = some separator then name
  else if path = [] ∨ path.getLast? = some separator then path ++ name
  else path ++ separator :: name

/-- A name that stands for itself in a directory, on every platform: it has no
    separator and no drive, and is not a dot component. -/
structure Ordinary (name : List UInt8) : Prop where
  ne_nil : name ≠ []
  ne_current : name ≠ [46]
  ne_parent : name ≠ [46, 46]
  bytes : ∀ b ∈ name, b ≠ 47 ∧ b ≠ 92 ∧ b ≠ 58

instance (name : List UInt8) : Decidable (Ordinary name) :=
  decidable_of_iff (name ≠ [] ∧ name ≠ [46] ∧ name ≠ [46, 46] ∧
      name.all fun b => b ≠ 47 ∧ b ≠ 92 ∧ b ≠ 58)
    ⟨fun ⟨h₁, h₂, h₃, h₄⟩ => ⟨h₁, h₂, h₃, List.all_iff_forall_prop.mp h₄⟩,
      fun h => ⟨h.1, h.2, h.3, List.all_iff_forall_prop.mpr h.4⟩⟩

namespace Ordinary

variable {name : List UInt8}

theorem separator_not_mem (h : Ordinary name) : separator ∉ name :=
  fun hmem => (h.bytes _ hmem).1 rfl

theorem component_eq (h : Ordinary name) : component name = some (.normal name) := by
  unfold component
  split
  · exact absurd rfl h.ne_nil
  · exact absurd rfl h.ne_current
  · exact absurd rfl h.ne_parent
  · rfl

end Ordinary

theorem ofPieces_append {pieces : List (List UInt8)} {piece : List UInt8} (h : pieces ≠ []) :
    ofPieces (pieces ++ [piece]) = ofPieces pieces ++ (component piece).toList := by
  have hlast (ps : List (List UInt8)) :
      (ps ++ [piece]).filterMap component = ps.filterMap component ++ (component piece).toList := by
    rw [List.filterMap_append]
    cases hpiece : component piece <;> simp [hpiece]
  obtain ⟨first, rest, rfl⟩ := List.exists_cons_of_ne_nil h
  rw [List.cons_append]
  unfold ofPieces
  split
  · rename_i heq
    obtain ⟨rfl, rfl⟩ := List.cons.inj heq
    exact congrArg _ (hlast rest)
  · rename_i heq
    obtain ⟨rfl, rfl⟩ := List.cons.inj heq
    exact congrArg _ (hlast rest)
  · rename_i hroot hcurrent
    split
    · rename_i heq
      obtain ⟨rfl, rfl⟩ := List.cons.inj heq
      exact absurd rfl (hroot _)
    · rename_i heq
      obtain ⟨rfl, rfl⟩ := List.cons.inj heq
      exact absurd rfl (hcurrent _)
    · exact hlast (first :: rest)

/-- An ordinary name is a direct child of the path it is joined to. -/
theorem components_join {path name : List UInt8} (h : Ordinary name) :
    components (join path name) = components path ++ [.normal name] := by
  have hhead : name.head? ≠ some separator := fun hhead =>
    h.separator_not_mem (List.mem_of_mem_head? hhead)
  have hname : name.splitOn separator = [name] := List.splitOn_eq_singleton h.separator_not_mem
  have hjoin (p : List UInt8) : components (p ++ separator :: name) =
      ofPieces (p.splitOn separator) ++ [.normal name] := by
    rw [components, if_neg (by simp), List.splitOn_append_cons_self, hname,
      ofPieces_append (List.splitOn_ne_nil _ _), h.component_eq]
    rfl
  rw [join, if_neg hhead]
  by_cases hpath : path = []
  · subst hpath
    rw [if_pos (.inl rfl), List.nil_append, components, if_neg h.ne_nil, hname]
    rw [ofPieces]
    · simp [h.component_eq, components]
    · rintro _ heq
      exact h.ne_nil (List.cons.inj heq).1
    · rintro _ heq
      exact h.ne_current (List.cons.inj heq).1
  rw [show components path = ofPieces (path.splitOn separator) from if_neg hpath]
  by_cases hend : path.getLast? = some separator
  · obtain ⟨front, rfl⟩ := List.getLast?_eq_some_iff.mp hend
    rw [if_pos (.inr hend), List.append_assoc, List.singleton_append, hjoin,
      List.splitOn_append_cons_self, List.splitOn_nil,
      ofPieces_append (List.splitOn_ne_nil _ _)]
    simp [component]
  · rw [if_neg (not_or.mpr ⟨hpath, hend⟩), hjoin]

end Path
