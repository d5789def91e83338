import CodeEvolution.Language
import CodeEvolution.Lowering.Java.Statement
import CodeEvolution.Lowering.Python.Statement
/-!
# Compilation units

A source file together with the tree it was lowered to.
-/
namespace CodeEvolution

structure CompilationUnit where
  path : String
  language : Language
  root : Node

namespace CompilationUnit

def lower (language : Language) (tree : Syntax.Tree) : Option Node :=
  match language with
  | .python => Lowering.Python.lower tree
  | .java => Lowering.Java.lower tree

/-- The unit of a file from its syntax tree, in the language of its extension. A file of no
known language is refused first, then a faulty tree. -/
def ofTree (path : String) (tree : Syntax.Tree) : Except Failure CompilationUnit :=
  match Language.ofPath? path with
  | none => .error (.unsupportedLanguage path)
  | some language =>
    match tree.check path with
    | .error failure => .error failure
    | .ok _ =>
      match lower language tree with
      | some root => .ok ⟨path, language, root⟩
      | none => .error (.unsettled path)

def ofOutline (path text : String) (outline : Syntax.Outline) : Except Failure CompilationUnit :=
  ofTree path (outline.resolve (Syntax.Source.ofText text))

end CompilationUnit

abbrev Grammar := Language → String → Syntax.Outline

namespace CompilationUnit

def ofSource (grammar : Grammar) (path text : String) : Except Failure CompilationUnit :=
  match Language.ofPath? path with
  | none => .error (.unsupportedLanguage path)
  | some language => ofOutline path text (grammar language text)

end CompilationUnit

end CodeEvolution
