/-!
# Paths

Paths are texts with names between slashes. They are kept without empty names and without names that
are a single point, so that each place has one spelling; the present directory is `.`.
-/

namespace Spreadsheet.Path

/-- The names of a path, from the outermost one on. -/
def parts (path : String) : List (List Char) :=
  (path.toList.splitOn '/').filter fun name => name ≠ [] && name ≠ ['.']

/-- What stands before the first name of a path: a slash for the root, and two for a path that starts
with just two. -/
def root (path : String) : List Char :=
  let slashes := path.toList.takeWhile (· = '/')
  if slashes.length = 2 then slashes else slashes.take 1

/-- The path of a root and names. -/
def ofParts (root : List Char) (parts : List (List Char)) : String :=
  let cs := root ++ ['/'].intercalate parts
  if cs.isEmpty then "." else String.ofList cs

/-- The one spelling of a path. -/
def normalize (path : String) : String :=
  ofParts (root path) (parts path)

/-- A name in a directory. -/
def join (directory name : String) : String :=
  ofParts (root directory) (parts directory ++ parts name)

/-- The directories that a path lies in, the outermost first, and the path itself. -/
def ancestors (path : String) : List String :=
  (List.range (parts path).length).map fun n => ofParts (root path) ((parts path).take (n + 1))

/-- The path without names that are two points, each of which leads back out of the name before it.
It leads to the same place if no directory is a link. -/
def straight (path : String) : String :=
  ofParts (root path) ((parts path).foldl (fun names name =>
    if name = ['.', '.'] then names.dropLast else names ++ [name]) [])

/-- The ending of the last name from its last point on; nothing if the point is first or last in the
name. -/
def suffix (path : String) : List Char :=
  let name := ((parts path).getLast?).getD []
  let ending := (name.reverse.takeWhile (· ≠ '.')).reverse
  if ending.isEmpty || name.length ≤ ending.length + 1 then [] else '.' :: ending

end Spreadsheet.Path
