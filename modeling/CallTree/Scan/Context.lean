/-!
# Scan contexts

The lexical state that a scan carries from one line of a source to the next.
-/

namespace CallTree
namespace Scan

/-- What is open at a position of a source: literals, comments, annotation
arguments, type argument lists, and a backslash waiting for its character. -/
structure Context where
  inString : Bool := false
  inCharacter : Bool := false
  inTextBlock : Bool := false
  inArguments : Bool := false
  argumentLevel : Int := 0
  inGeneric : Bool := false
  genericLevel : Int := 0
  inLineComment : Bool := false
  inBlockComment : Bool := false
  inPattern : Bool := false
  escaped : Bool := false
  deriving DecidableEq, Repr, Inhabited

namespace Context

/-- Nothing is open, as at the start of a source. -/
def fresh : Context := {}

/-- No context other than code is open. -/
def inCode (context : Context) : Bool :=
  !(context.inString || context.inCharacter || context.inTextBlock ||
    context.inArguments || context.inGeneric || context.inLineComment ||
    context.inBlockComment || context.inPattern)

/-- What the next line starts with.  Line comments, pattern literals, ordinary
literals and pending escapes end with their line; block comments, text blocks,
annotation arguments and type argument lists continue. -/
def carry (context : Context) : Context :=
  { context with
    inLineComment := false
    inPattern := false
    escaped := false
    inString := false
    inCharacter := false }

end Context
end Scan
end CallTree
