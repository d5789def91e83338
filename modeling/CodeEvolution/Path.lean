/-!
# File paths

Paths are texts with `/` between segments. Empty segments and `.` say nothing;
a leading `/` makes a path absolute. The extension is a property of the last segment.
-/
namespace CodeEvolution.Path

variable (directory path : String)

def pieces : List String :=
  path.splitOn "/"

def isIdle (segment : String) : Bool :=
  segment == "" || segment == "."

def segments : List String :=
  (pieces path).filter fun segment => !isIdle segment

def isAbsolute : Bool :=
  path.toList.head? == some '/'

def join : String :=
  if isAbsolute path || directory = "" then path
  else if directory.toList.getLast? = some '/' then directory ++ path
  else directory ++ "/" ++ path

/-- The beginnings that lie before each segment of a path. The argument holds the pieces of the path,
the last one first, and so does each beginning; none ends with pieces that say nothing. -/
def beginnings : List String → List (List String)
  | [] => []
  | segment :: outer =>
    if isIdle segment then beginnings outer else outer.dropWhile isIdle :: beginnings outer

def ancestors : List String :=
  let outermost := if isAbsolute path then "/" else ""
  (beginnings (pieces path).reverse).map fun outer =>
    if outer.isEmpty then outermost else String.intercalate "/" outer.reverse

def after? : List String → List String → Option (List String)
  | [], rest => some (rest.dropWhile isIdle)
  | _ :: _, [] => none
  | segment :: segments, piece :: rest =>
    if isIdle piece then after? (segment :: segments) rest
    else if piece = segment then after? segments rest
    else none

def relativeTo? : Option String :=
  if isAbsolute directory = isAbsolute path then
    (after? (segments directory) (pieces path)).map (String.intercalate "/")
  else none

def fileName? : Option String :=
  match (segments path).getLast? with
  | some ".." => none
  | name => name

/-- The stem and the extension of a file name, split at the last point. A name whose only point
comes first has no extension. -/
def splitName (name : String) : String × Option String :=
  let reversed := name.toList.reverse
  let extension := reversed.takeWhile (· != '.')
  match reversed.drop extension.length with
  | _ :: stem@(_ :: _) => (String.ofList stem.reverse, some (String.ofList extension.reverse))
  | _ => (name, none)

def extension? : Option String :=
  (fileName? path).bind fun name => (splitName name).2

def stems : List String :=
  match (segments path).reverse with
  | [] => []
  | last :: before =>
    (if last = ".." then last :: before else (splitName last).1 :: before).reverse

/-- The dotted module name of a path: its segments without extension, without `.` and `..`, the
root standing for itself. -/
def moduleName : String :=
  let names := (stems path).filter fun s => s != "." && s != ".."
  String.intercalate "." (if isAbsolute path then "/" :: names else names)

end CodeEvolution.Path
