import TriggerLang.Json.Token

/-!
# Reading JSON

The tokens of a JSON text are read one after another.  The lists and mappings that are
still open stand on a stack, the innermost one first, with what they hold so far; the
state says what may come next.  Of two fields with one name the later one counts, at the
place of the earlier one.
-/

namespace TriggerLang.Json

/-- A list or a mapping that is still open. -/
inductive Container where
  /-- The items of a list, the last one first. -/
  | list (items : List Fragment)
  /-- The fields of a mapping, and the name of the next one. -/
  | mapping (fields : Fragment.Fields) (name : String)

/-- What may come next. -/
inductive State where
  /-- A value. -/
  | value (stack : List Container)
  /-- The first item of a list, or its end. -/
  | firstItem (stack : List Container)
  /-- The first name of a mapping, or its end. -/
  | firstName (stack : List Container)
  /-- A name of a mapping. -/
  | name (stack : List Container) (fields : Fragment.Fields)
  /-- The colon after a name. -/
  | colon (stack : List Container) (fields : Fragment.Fields) (name : String)
  /-- What follows a value: a comma, or the end of the container. -/
  | after (stack : List Container) (value : Fragment)

namespace State

/-- The state after the first token of a value. -/
def begin (stack : List Container) : Token → Option State
  | .openList => some (.firstItem stack)
  | .openMapping => some (.firstName stack)
  | .string s => some (.after stack (.string s))
  | .scalar v => some (.after stack v)
  | _ => none

/-- The state after the value `v` and the token that follows it. -/
def finish (stack : List Container) (v : Fragment) (token : Token) : Option State :=
  match stack, token with
  | .list items :: rest, .comma => some (.value (.list (v :: items) :: rest))
  | .list items :: rest, .closeList => some (.after rest (.list (v :: items).reverse))
  | .mapping fields key :: rest, .comma => some (.name rest (Table.set key v fields))
  | .mapping fields key :: rest, .closeMapping =>
    some (.after rest (.mapping (Table.set key v fields)))
  | _, _ => none

/-- The state after the next token. -/
def next : State → Token → Option State
  | .value stack, token => begin stack token
  | .firstItem stack, .closeList => some (.after stack (.list []))
  | .firstItem stack, token => begin (.list [] :: stack) token
  | .firstName stack, .closeMapping => some (.after stack (.mapping []))
  | .firstName stack, .string key => some (.colon stack [] key)
  | .name stack fields, .string key => some (.colon stack fields key)
  | .colon stack fields key, .colon => some (.value (.mapping fields key :: stack))
  | .after stack v, token => finish stack v token
  | _, _ => none

/-- The value that has been read, if nothing is open. -/
def result? : State → Option Fragment
  | .after [] v => some v
  | _ => none

end State

/-- The value that a JSON text stands for. -/
def read? (text : List Char) : Option Fragment := do
  let tokens ← scan? text
  let state ← tokens.foldlM State.next (.value [])
  state.result?

end TriggerLang.Json
