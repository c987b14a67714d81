import TriggerLang.Fragment.Basic

/-!
# Blocks

A block is built over several lines: first its condition, then the actions of its first
branch, then those of its second one.  These slots are filled one after another.  The
condition takes a single fragment, the branches any number.
-/

namespace TriggerLang

/-- A part of a block. -/
inductive Slot where
  | conditions
  | thenBranch
  | elseBranch
deriving DecidableEq, Repr

namespace Slot

/-- The name of a slot, which is also the field that holds it. -/
def name : Slot → String
  | .conditions => "conditions"
  | .thenBranch => "then"
  | .elseBranch => "else"

/-- The slot after a slot. -/
def next? : Slot → Option Slot
  | .conditions => some .thenBranch
  | .thenBranch => some .elseBranch
  | .elseBranch => none

end Slot

/-- The kind of structure that a block is. -/
def blockKind : String := "if"

/-- There is no structure of this kind. -/
structure UnknownKind where
  kind : String
deriving DecidableEq, Repr

/-- The wording of an unknown kind of structure. -/
def UnknownKind.message (e : UnknownKind) : String :=
  "Unknown structure kind `" ++ e.kind ++ "`; expected one of ['" ++ blockKind ++ "']"

/-- A block that is being built. -/
structure Block where
  conditions : Fragment := .null
  thenActions : List Fragment := []
  elseActions : List Fragment := []
  /-- The slot to be filled next, unless all have been passed. -/
  slot : Option Slot := some .conditions

namespace Block

/-- An empty structure of a kind. -/
def ofKind? (kind : String) : Except UnknownKind Block :=
  if kind = blockKind then .ok {} else .error ⟨kind⟩

/-- A slot comes after the active one. -/
def hasNext (block : Block) : Bool :=
  (block.slot.bind Slot.next?).isSome

/-- The block with the next slot active, or none after the last one. -/
def advance (block : Block) : Block :=
  { block with slot := block.slot.bind Slot.next? }

/-- The block with a fragment in its active slot, unless the slot is full or there is
none. -/
def insert? (block : Block) (fragment : Fragment) : Option Block :=
  match block.slot with
  | some .conditions =>
    match block.conditions with
    | .null => some { block with conditions := fragment }
    | _ => none
  | some .thenBranch => some { block with thenActions := block.thenActions ++ [fragment] }
  | some .elseBranch => some { block with elseActions := block.elseActions ++ [fragment] }
  | none => none

/-- The action that the block makes. -/
def build (block : Block) : Fragment :=
  .mapping [("type", .string "condition"), (Slot.conditions.name, block.conditions),
    (Slot.thenBranch.name, .list block.thenActions),
    (Slot.elseBranch.name, .list block.elseActions)]

end Block

end TriggerLang
