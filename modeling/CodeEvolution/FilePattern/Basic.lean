/-!
# File patterns

A file pattern is a sequence of pieces that a path is matched with, byte by byte and as a whole. A
piece matches the start of a path in several ways, so matching a piece gives all rests of the path
that it leaves.
-/
namespace CodeEvolution

inductive FilePattern.Piece where
  | literal (bytes : List UInt8)
  | anyByte
  | anyRun
  | leadingDirectories
  | innerDirectories
  | trailingPath
  | byteClass (negated : Bool) (ranges : List (UInt8 × UInt8))
  | choice (branches : List (List Piece))
deriving Repr

structure FilePattern where
  pieces : List FilePattern.Piece
deriving Repr

namespace FilePattern

def slash : UInt8 := 47

def ends {α : Type} : List α → List (List α)
  | [] => [[]]
  | a :: rest => (a :: rest) :: ends rest

def afterSlashes : List UInt8 → List (List UInt8)
  | [] => []
  | b :: rest => if b = slash then rest :: afterSlashes rest else afterSlashes rest

def distinct : List (List UInt8) → List (List UInt8)
  | [] => []
  | path :: rest => path :: (distinct rest).filter fun other => other.length != path.length

mutual

def isVoid : List Piece → Bool
  | [] => true
  | .choice branches :: rest => allVoid branches && isVoid rest
  | _ :: _ => false

def allVoid : List (List Piece) → Bool
  | [] => true
  | branch :: rest => isVoid branch && allVoid rest

end

def Piece.size : Piece → Nat
  | .literal bytes => bytes.length
  | .trailingPath => 2
  | .choice branches => if allVoid branches then 0 else 1
  | _ => 1

/-- What a sequence adds to the nesting of its pieces: it is a level if it has several parts. -/
def sequenceLevel (pieces : List Piece) : Nat :=
  if 1 < pieces.foldl (fun size piece => size + piece.size) 0 then 1 else 0

/-- What a choice adds to the nesting of its branches: a level, and a further one if several of its
branches are not void. -/
def choiceLevels (branches : List (List Piece)) : Nat :=
  if 1 < (branches.filter fun branch => !isVoid branch).length then 2 else 1

mutual

/-- How many sequences, alternatives, classes and repetitions stand in each other in a piece. -/
def Piece.nesting : Piece → Nat
  | .literal _ => 0
  | .anyByte => 0
  | .anyRun => 1
  | .leadingDirectories => 4
  | .innerDirectories => 4
  | .trailingPath => 1
  | .byteClass _ ranges => if 1 < ranges.length then 2 else 1
  | .choice branches =>
    if allVoid branches then 0 else choiceLevels branches + nestingOfBranches branches

def nestingOfPieces : List Piece → Nat
  | [] => 0
  | piece :: rest => max piece.nesting (nestingOfPieces rest)

def nestingOfBranches : List (List Piece) → Nat
  | [] => 0
  | branch :: rest =>
    max (sequenceLevel branch + nestingOfPieces branch) (nestingOfBranches rest)

end

def nesting (pattern : FilePattern) : Nat :=
  1 + nestingOfPieces pattern.pieces

mutual

def rests (path : List UInt8) : Piece → List (List UInt8)
  | .literal bytes => if bytes.isPrefixOf path then [path.drop bytes.length] else []
  | .anyByte => if path.isEmpty then [] else [path.drop 1]
  | .anyRun => ends path
  | .leadingDirectories => path :: afterSlashes path
  | .innerDirectories =>
    if path.head? = some slash then path.drop 1 :: afterSlashes (path.drop 1) else []
  | .trailingPath => if path.head? = some slash then ends (path.drop 1) else []
  | .byteClass negated ranges =>
    match path with
    | b :: rest =>
      if (ranges.any fun range => decide (range.1 ≤ b) && decide (b ≤ range.2)) != negated
      then [rest] else []
    | [] => []
  | .choice branches => if allVoid branches then [path] else restsOfAny path branches

def restsAfter (paths : List (List UInt8)) : List Piece → List (List UInt8)
  | [] => paths
  | piece :: rest => restsAfter (distinct (paths.flatMap fun path => rests path piece)) rest

def restsOfAny (path : List UInt8) : List (List Piece) → List (List UInt8)
  | [] => []
  | branch :: rest =>
    (if isVoid branch then [] else restsAfter [path] branch) ++ restsOfAny path rest

end

def accepts (pattern : FilePattern) (path : String) : Bool :=
  match pattern.pieces with
  | [.leadingDirectories] => true
  | pieces => (restsAfter [path.toUTF8.toList] pieces).any List.isEmpty

end FilePattern

end CodeEvolution
