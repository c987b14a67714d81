import TriggerLang.Script.Build

/-!
# Inline expressions

An inline expression is a script of a single line that stands for a value.  The first
line that is not blank counts, and every other one is reported.  A value that does not
have the type it should have is kept all the same.
-/

namespace TriggerLang

/-- An inline expression that has been evaluated. -/
structure InlineResult where
  /-- The value, if the expression could be parsed. -/
  output : Option Fragment
  diagnostics : List Diagnostic
  /-- The text that stands for the value. -/
  text : List Char

/-- The lines of a text that are not blank. -/
def nonBlankLines (text : List Char) : List Text.Line :=
  (Text.numberedLines text).filter fun line => !line.text.all Text.isBlank

/-- The diagnostic of a line beyond the first one. -/
def extraLine (line : Text.Line) : Diagnostic :=
  .of .multipleLines (.onLine line.number line.number_pos 0 line.text.length)

/-- Evaluates an inline expression. -/
def evaluateInline (toolkit : Toolkit) (context : Context) (text : List Char) :
    Except RenderError InlineResult :=
  match nonBlankLines text with
  | [] => .ok ⟨none, [], []⟩
  | line :: others =>
    let outcome := evaluate toolkit context (Text.trim line.text) context.defaultReturnType
    let diagnostics :=
      placeAll line (Text.indent line.text) outcome.diagnostics ++ others.map extraLine
    match outcome.fragment with
    | none => .ok ⟨none, diagnostics, []⟩
    | some fragment =>
      ((toolkit.renderer context).render fragment).map fun text =>
        ⟨some fragment, diagnostics, text⟩

end TriggerLang
