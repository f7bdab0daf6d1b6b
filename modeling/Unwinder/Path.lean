/-!
# `Unwinder.Path` — file names as written, compared by their components

A module is known by its path. Two spellings name the same module when they have the same components, and
each is reported the way it was written.

## Contents
- **Components.** `Path.components` drops what does not change where a path leads: empty components, and
  every `.` but a leading one.
- **Sameness.** `Path.Same`, the equivalence of equal components, is what module lookups use.
-/

namespace Unwinder

/-- A path as it was written. -/
structure Path where
  text : String
  deriving DecidableEq, Inhabited

/-- One step of a path. -/
inductive Component where
  | root
  | here
  | up
  | name (text : List Char)
  deriving DecidableEq

namespace Path

/-! ## Components -/

/-- The stretches between the slashes of a text, empty ones included. -/
def segments : List Char → List (List Char)
  | [] => [[]]
  | c :: rest =>
      if c = '/' then [] :: segments rest
      else match segments rest with
        | [] => [[c]]
        | s :: ss => (c :: s) :: ss

/-- The step that a stretch stands for, when something came before it on the path. -/
def step? : List Char → Option Component
  | [] => none
  | ['.'] => none
  | ['.', '.'] => some .up
  | s => some (.name s)

/-- The steps of a path. A leading slash is a step of its own, and so is a leading `.` without one. -/
def components (path : Path) : List Component :=
  match segments path.text.toList with
  | [] => []
  | [[]] => []
  | [] :: rest => .root :: rest.filterMap step?
  | ['.'] :: rest => .here :: rest.filterMap step?
  | first :: rest => (first :: rest).filterMap step?

/-! ## Sameness -/

/-- Two paths with the same components. -/
def Same (p q : Path) : Prop := p.components = q.components

instance (p q : Path) : Decidable (Same p q) := inferInstanceAs (Decidable (_ = _))

@[refl] theorem Same.refl (p : Path) : Same p p := rfl

theorem Same.symm {p q : Path} (h : Same p q) : Same q p := Eq.symm h

theorem Same.trans {p q r : Path} (hpq : Same p q) (hqr : Same q r) : Same p r := Eq.trans hpq hqr

/-- A path without any text. -/
def isEmpty (path : Path) : Bool := path.text.isEmpty

end Path

end Unwinder
