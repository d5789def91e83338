/-!
# Spans of source text

Lines and columns are zero-based, columns count characters and offsets count UTF-8 bytes.
Two spans are compared by offsets only within one file.
-/
namespace CodeEvolution

structure Span where
  startLine : Nat := 0
  startColumn : Nat := 0
  endLine : Nat := 0
  endColumn : Nat := 0
  startOffset : Nat := 0
  endOffset : Nat := 0
deriving DecidableEq, Repr, Inhabited

variable (s t : Span)

namespace Span

def emptyAt (offset line column : Nat) : Span :=
  ⟨line, column, line, column, offset, offset⟩

def endPoint : Span :=
  emptyAt s.endOffset s.endLine s.endColumn

def startPoint : Span :=
  emptyAt s.startOffset s.startLine s.startColumn

def through : Span :=
  { s with endLine := t.endLine, endColumn := t.endColumn, endOffset := t.endOffset }

def contains : Bool :=
  decide (s.startOffset ≤ t.startOffset) && decide (t.endOffset ≤ s.endOffset)

def length : Nat :=
  s.endOffset - s.startOffset

def isEmpty : Bool :=
  s.startOffset == s.endOffset

def fields : List Nat :=
  [s.startLine, s.startColumn, s.endLine, s.endColumn, s.startOffset, s.endOffset]

def order : Ordering :=
  compare s.fields t.fields

end Span

end CodeEvolution
