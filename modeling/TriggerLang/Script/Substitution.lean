import TriggerLang.Table
import TriggerLang.Token.Lexeme
import TriggerLang.Token.Quoted

/-!
# Substitutions

A substitution makes a bare word of a script stand for a string.  The words are replaced
by literals everywhere but in the string literals of the text, whether or not these are
closed, and only where they stand as whole words: there is a change between word
characters and others at either end.  At one place the longest word that fits counts, and
of two substitutions of one word the first one.  What has been put in is not looked at
again.
-/

namespace TriggerLang

/-- The bare word `matchToken` stands for the string `replacement`. -/
structure Substitution where
  matchToken : String
  replacement : String
deriving DecidableEq, Repr

namespace Substitution

/-- The words that are replaced and their literals, the longest word first, and none of them
twice. -/
def literals (substitutions : List Substitution) : List (List Char × List Char) :=
  let entries := substitutions.foldl
    (fun entries s =>
      if s.matchToken = "" ∨ (entries.lookup s.matchToken).isSome then
        entries
      else
        entries ++ [(s.matchToken, quote s.replacement.toList)])
    []
  (entries.map fun entry => (entry.1.toList, entry.2)).mergeSort fun a b =>
    decide (b.1.length ≤ a.1.length)

/-- The text starts with a word character. -/
def startsWithWord (text : List Char) : Bool :=
  text.head?.any Text.isWordPart

/-- The first of the words that the text starts with as a whole word; `afterWord` tells
whether a word character comes before the text. -/
def wholeWord? (literals : List (List Char × List Char)) (afterWord : Bool)
    (text : List Char) : Option (List Char × List Char) :=
  if startsWithWord text == afterWord then
    none
  else
    literals.find? fun entry =>
      entry.1.isPrefixOf text &&
        entry.1.getLast?.any Text.isWordPart != startsWithWord (text.drop entry.1.length)

/-- The text with words replaced, but for its first `skip` characters, which are dropped
because they belong to a replaced word. -/
def replaceWords (literals : List (List Char × List Char)) (afterWord : Bool) :
    Nat → List Char → List Char
  | _, [] => []
  | skip + 1, c :: rest => replaceWords literals (Text.isWordPart c) skip rest
  | 0, c :: rest =>
    match wholeWord? literals afterWord (c :: rest) with
    | some (word, literal) =>
      literal ++ replaceWords literals (Text.isWordPart c) (word.length - 1) rest
    | none => c :: replaceWords literals (Text.isWordPart c) 0 rest

/-- The text of lexemes with words replaced outside string literals; `pending` is the text
since the last one. -/
def replaceBetween (literals : List (List Char × List Char)) (pending : List Char) :
    List Lexeme → List Char
  | [] => replaceWords literals false 0 pending
  | lexeme :: rest =>
    if lexeme.kind = .string then
      replaceWords literals false 0 pending ++ lexeme.text ++ replaceBetween literals [] rest
    else
      replaceBetween literals (pending ++ lexeme.text) rest

/-- The text with every word replaced by its literal. -/
def applyAll (substitutions : List Substitution) (text : List Char) : List Char :=
  replaceBetween (literals substitutions) [] (lexemes text)

end Substitution

end TriggerLang
