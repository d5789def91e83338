import CodeEvolution.Yaml.Token
/-!
# Nodes of a document

A document is a tree of scalars, sequences and mappings. A node may carry an anchor, and an alias
stands for the node at an anchor.
-/
namespace CodeEvolution.Yaml

inductive Node where
  | scalar (anchor : Option Nat) (tag : Option String) (text : String) (style : ScalarStyle)
  | sequence (anchor : Option Nat) (items : List Node)
  | mapping (anchor : Option Nat) (entries : List (Node × Node))
  | reference (target : Nat)
deriving Repr

namespace Node

def empty : Node := .scalar none none "" .plain

def anchor? : Node → Option Nat
  | .scalar anchor _ _ _ => anchor
  | .sequence anchor _ => anchor
  | .mapping anchor _ => anchor
  | .reference _ => none

def marked (node : Node) : List (Nat × Node) :=
  match node.anchor? with
  | some anchor => [(anchor, node)]
  | none => []

mutual

def anchored : Node → List (Nat × Node)
  | .sequence anchor items => (Node.sequence anchor items).marked ++ anchoredItems items
  | .mapping anchor entries => (Node.mapping anchor entries).marked ++ anchoredEntries entries
  | node => node.marked

def anchoredItems : List Node → List (Nat × Node)
  | [] => []
  | item :: rest => item.anchored ++ anchoredItems rest

def anchoredEntries : List (Node × Node) → List (Nat × Node)
  | [] => []
  | (key, value) :: rest => key.anchored ++ value.anchored ++ anchoredEntries rest

end

def resolve (document : Node) : Node → Node
  | .reference target =>
    match (document.anchored.reverse.find? fun entry => entry.1 == target) with
    | some (_, node) => node
    | none => empty
  | node => node

end Node

end CodeEvolution.Yaml
