import CodeEvolution.Node.Render
/-!
# Declared types

The type of a variable, a parameter or a result as it is written: a name with type arguments, or
nothing at all.
-/
namespace CodeEvolution

inductive TypeInfo where
  | untyped
  | named (name : String) (arguments : List TypeInfo)
deriving Repr

namespace TypeInfo

mutual

/-- The type written by a node. An empty slot is untyped, and an expression in the place of a
type goes by its text. -/
def ofNode : Node → TypeInfo
  | ⟨.typeRef name, _, arguments⟩ => .named name (ofNodes arguments)
  | ⟨.absent, _, _⟩ => .untyped
  | node => .named node.render []

def ofNodes : List Node → List TypeInfo
  | [] => []
  | node :: rest => ofNode node :: ofNodes rest

end

def ofSlot : Option Node → TypeInfo
  | some node => ofNode node
  | none => .untyped

def isUntyped : TypeInfo → Bool
  | .untyped => true
  | .named _ _ => false

def baseName? : TypeInfo → Option String
  | .untyped => none
  | .named name _ => some name

mutual

def text : TypeInfo → String
  | .untyped => "_"
  | .named name [] => name
  | .named name (first :: rest) =>
    name ++ "<" ++ String.intercalate ", " (text first :: texts rest) ++ ">"

def texts : List TypeInfo → List String
  | [] => []
  | type :: rest => text type :: texts rest

end

mutual

def beq : TypeInfo → TypeInfo → Bool
  | .untyped, .untyped => true
  | .named name arguments, .named name' arguments' =>
    name == name' && beqAll arguments arguments'
  | _, _ => false

def beqAll : List TypeInfo → List TypeInfo → Bool
  | [], [] => true
  | type :: rest, type' :: rest' => beq type type' && beqAll rest rest'
  | _, _ => false

end

instance : BEq TypeInfo := ⟨beq⟩

end TypeInfo

end CodeEvolution
