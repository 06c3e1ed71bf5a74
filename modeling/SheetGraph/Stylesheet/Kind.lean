import SheetGraph.Path.Location

/-!
# Kinds of stylesheets

What the name of a file says about it: whether it is a stylesheet source at all, in which syntax it
is written, and whether it is a partial that is only there to be imported.
-/

namespace SheetGraph

/-- How the directives of a stylesheet end. -/
inductive SyntaxMode where
  | braces
  | indented
  deriving DecidableEq

/-- The extensions of stylesheet sources, in order of preference. -/
def sourceExtensions : List String :=
  ["scss", "sass", "css"]

/-- Whether an extension is one of a stylesheet source, in either case. -/
def isSourceExtension (ext : List Char) : Bool :=
  sourceExtensions.any fun known => Text.sameLetters known.toList ext

namespace Name

/-- Whether the name is one of a stylesheet source: it has the extension of one, and no `.part`
stands in front of that. -/
def isStylesheet (n : Name) : Bool :=
  (extension? n.chars).any isSourceExtension &&
    !(extension? (stem n.chars)).any (Text.sameLetters "part".toList)

/-- Whether the name is one of a partial: it starts with an underscore. -/
def isPartial (n : Name) : Bool :=
  n.chars.head? == some '_'

end Name

namespace Path

/-- The syntax of a stylesheet, which its extension tells. -/
def syntaxMode (p : Path) : SyntaxMode :=
  if p.hasExtension "sass" then .indented else .braces

/-- Whether the path ends in the name of a stylesheet source. -/
def isStylesheet (p : Path) : Bool :=
  p.fileName?.any Name.isStylesheet

/-- Whether the path ends in the name of a partial. -/
def isPartial (p : Path) : Bool :=
  p.fileName?.any Name.isPartial

end Path

namespace Location

/-- Whether the location has the name of a stylesheet source. -/
def isStylesheet (l : Location) : Bool :=
  l.fileName?.any Name.isStylesheet

/-- Whether the location has the name of a partial. -/
def isPartial (l : Location) : Bool :=
  l.fileName?.any Name.isPartial

end Location

end SheetGraph
