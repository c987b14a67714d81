import TriggerLang.Number.Binary64
import TriggerLang.Table

/-!
# Fragments

A fragment is what a line of script stands for: a primitive value, a list, or a mapping
from field names to fragments.  A call is a mapping with the called function under
`function`, a condition a list of three with an operator header, and the absence of a
value is `null`.  Fields whose names start with an underscore are reserved for
bookkeeping and never leave the program.
-/

namespace TriggerLang

/-- A value of the script language. -/
inductive Fragment where
  | null
  | boolean (value : Bool)
  | integer (value : Int)
  | float (value : Binary64)
  | string (value : String)
  | list (items : List Fragment)
  | mapping (fields : List (String × Fragment))

namespace Fragment

instance : Inhabited Fragment :=
  ⟨.null⟩

/-- The fields of a mapping, in order. -/
abbrev Fields :=
  List (String × Fragment)

/-- The value of a field, if the fragment is a mapping that has it. -/
def get? (field : String) : Fragment → Option Fragment
  | .mapping fields => fields.lookup field
  | _ => none

theorem sizeOf_lt_of_lookup
    {fields : Fields} {field : String} {value : Fragment}
    (h : fields.lookup field = some value) :
  sizeOf value < sizeOf fields
  := by
  induction fields with
  | nil => simp at h
  | cons entry rest ih =>
    obtain ⟨key, first⟩ := entry
    rw [List.lookup_cons] at h
    split at h
    · cases h
      simp only [List.cons.sizeOf_spec, Prod.mk.sizeOf_spec]
      omega
    · have := ih h
      simp only [List.cons.sizeOf_spec]
      omega

/-- The fragment is a boolean, a number or a string. -/
def isPrimitive : Fragment → Bool
  | .boolean _ | .integer _ | .float _ | .string _ => true
  | _ => false

/-- The fragment is a mapping. -/
def isMapping : Fragment → Bool
  | .mapping _ => true
  | _ => false

/-- The name of the called function, if the fragment is a call. -/
def functionName? (fragment : Fragment) : Option String :=
  match fragment.get? "function" with
  | some (.string name) => some name
  | _ => none

/-- The field is reserved for bookkeeping. -/
def isReserved (field : String) : Bool :=
  field.toList.head? == some '_'

/-- The fragment with `value` under `field`, if it is a mapping. -/
def setField (fragment : Fragment) (field : String) (value : Fragment) : Fragment :=
  match fragment with
  | .mapping fields => .mapping (Table.set field value fields)
  | _ => fragment

/-- The call of `name` with no arguments. -/
def call (name : String) : Fragment :=
  .mapping [("function", .string name)]

end Fragment

end TriggerLang
