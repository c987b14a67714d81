import TriggerLang.Parse.State

/-!
# Parsing a line

A text is parsed from its significant tokens.  What is refused is refused with a region
of the text, which for an undefined name is that of its first occurrence.
-/

namespace TriggerLang

/-- The fragment that a text stands for. -/
def parseLine (scope : Parse.Scope) (source : List Char) : Except Parse.Failure Fragment :=
  Parse.State.start.run scope (significantTokens source)

/-- Why a text does not stand for a fragment, and where. -/
inductive Rejection where
  /-- The text is malformed at a region, if one is known. -/
  | malformed (message : String) (region : Option Text.Region)
  /-- The text holds a name that is not known. -/
  | undefined (name : String)
deriving DecidableEq, Repr

/-- A failure to parse `source` as a rejection. -/
def Parse.Failure.rejection (source : List Char) : Parse.Failure → Rejection
  | .unexpected token expected =>
    let e := Parse.Unexpected.of source token expected
    .malformed e.message (some e.region)
  | .undefined name => .undefined name.word

end TriggerLang
