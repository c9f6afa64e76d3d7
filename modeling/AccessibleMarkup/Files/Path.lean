/-!
Paths. A path is a sequence of names; empty names and single points between slashes mean nothing.
The path without names is the directory that all others start from.
-/
namespace AccessibleMarkup.Files

/-- Where a path starts. Two slashes are another root than one; more than two are one. -/
inductive Root where
  | here
  | single
  | double
  deriving DecidableEq

namespace Root

/-- The start of a path of that many slashes at its front. -/
def ofSlashes : Nat → Root
  | 0 => .here
  | 2 => .double
  | _ => .single

def text : Root → List Char
  | .here => []
  | .single => ['/']
  | .double => ['/', '/']

end Root

structure Path where
  root : Root
  names : List (List Char)
  deriving DecidableEq

/-- `pieces` behind the pieces already complete, last first, and the characters of the current
one, last first. -/
def piecesOnto (done : List (List Char)) (piece : List Char) : List Char → List (List Char)
  | [] => (piece.reverse :: done).reverse
  | c :: rest =>
    if c = '/' then piecesOnto (piece.reverse :: done) [] rest
    else piecesOnto done (c :: piece) rest

def pieces (text : List Char) : List (List Char) :=
  piecesOnto [] [] text

namespace Path

def ofString (text : String) : Path :=
  { root := .ofSlashes (text.toList.takeWhile (· = '/')).length
    names := (pieces text.toList).filter fun name => !(name.isEmpty || name = ['.']) }

def toString (path : Path) : String :=
  String.ofList <|
    if path.root = .here ∧ path.names = [] then ['.']
    else path.root.text ++ ['/'].intercalate path.names

/-- The end of a name from its last point on. A point at either end of the name does not count. -/
def suffix (name : List Char) : List Char :=
  let behind := name.reverse.takeWhile (· ≠ '.')
  if behind.isEmpty || name.length ≤ behind.length + 1 then []
  else '.' :: behind.reverse

def renameSuffix (name ending : List Char) : List Char :=
  name.take (name.length - (suffix name).length) ++ ending

/-- The path with the suffix of its last name replaced. A path without names has none. -/
def withSuffix? (path : Path) (ending : List Char) : Option Path :=
  match path.names.getLast? with
  | none => none
  | some name => some { path with names := path.names.dropLast ++ [renameSuffix name ending] }

end Path

end AccessibleMarkup.Files
