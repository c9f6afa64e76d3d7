import AccessibleMarkup.Files.Path

/-!
Places, and how a written path leads to one. A place is known by the names below the root or below
a directory at or above the one that paths start from, so that one place has one form. A path as it
is written is a route to a place, step by step; unlike `Path` it keeps the steps that stay where
they are, since only a directory can be stayed in.
-/
namespace AccessibleMarkup.Files

/-- A directory whose place is known without names. -/
inductive Base where
  | root
  /-- So many levels above the directory that paths start from. -/
  | above (levels : Nat)
  deriving DecidableEq

/-- A place where a file or a directory can be. -/
structure Place where
  base : Base
  names : List (List Char)
  deriving DecidableEq

namespace Place

/-- The directory that paths start from. -/
def start : Place := ⟨.above 0, []⟩

def child (place : Place) (name : List Char) : Place :=
  { place with names := place.names ++ [name] }

/-- The directory above a place. The root is above itself. -/
def parent (place : Place) : Place :=
  match place.names, place.base with
  | [], .root => place
  | [], .above levels => ⟨.above (levels + 1), []⟩
  | _ :: _, base => ⟨base, place.names.dropLast⟩

/-- The place lies inside another one or is that one. -/
def isWithin (place outer : Place) : Bool :=
  place.base = outer.base && outer.names.isPrefixOf place.names

def path (place : Place) : Path :=
  match place.base with
  | .root => ⟨.single, place.names⟩
  | .above levels => ⟨.here, List.replicate levels ['.', '.'] ++ place.names⟩

end Place

inductive Step where
  | stay
  | up
  | down (name : List Char)
  deriving DecidableEq

/-- The step that a piece of a written path asks for. -/
def Step.ofPiece (piece : List Char) : Step :=
  if piece = ['.'] then .stay else if piece = ['.', '.'] then .up else .down piece

/-- Where a step leads from a directory. -/
def Place.step (place : Place) : Step → Place
  | .stay => place
  | .up => place.parent
  | .down name => place.child name

/-- The places that steps pass, if all but the last of them are directories. -/
def Place.trail (place : Place) : List Step → List Place
  | [] => [place]
  | step :: rest => place :: (place.step step).trail rest

/-- A path as it is written. -/
structure Route where
  base : Base
  steps : List Step
  /-- A slash is at its end. -/
  closed : Bool

namespace Route

def ofString (text : String) : Route :=
  { base := if text.toList.head? = some '/' then .root else .above 0
    steps := ((pieces text.toList).filter (!·.isEmpty)).map .ofPiece
    closed := text.toList.getLast? = some '/' }

def start (route : Route) : Place := ⟨route.base, []⟩

def destination (route : Route) : Place :=
  route.steps.foldl .step route.start

/-- The steps of the route; the slash at its end is one that stays. -/
def stepsInto (route : Route) : List Step :=
  route.steps ++ if route.closed then [.stay] else []

end Route

/-- The place that a text leads to if all that it passes are directories. -/
def Place.ofString (text : String) : Place :=
  (Route.ofString text).destination

end AccessibleMarkup.Files
