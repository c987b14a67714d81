import TriggerLang.Document.Basic
import TriggerLang.Document.Block

/-!
# Assembling documents

An assembler takes the parts of a script in the order of its lines.  An action goes into
the active slot of the innermost open block, or to the end of the document if no block is
open, and so does a block when it is closed.  A comment waits for the next mapping that
is put at the end of the document.  A step that does not fit is noted as a warning and
otherwise ignored.
-/

namespace TriggerLang

/-- Why a step is ignored. -/
inductive Warning where
  /-- No block is open whose next slot could be opened. -/
  | advanceOutside
  /-- The innermost block has no slot after its active one. -/
  | noNextSlot (slot : Option Slot)
  /-- The active slot takes no further action. -/
  | slotFilled (slot : Option Slot)
  /-- No block is open that could be closed. -/
  | closeOutside
  /-- The active slot of the enclosing block takes no block. -/
  | blockRefused (slot : Option Slot)
deriving DecidableEq, Repr

namespace Warning

/-- The name of a slot in a warning. -/
def slotName (slot : Option Slot) : String :=
  (slot.map Slot.name).getD "None"

/-- The wording of a warning. -/
def message : Warning → String
  | .advanceOutside => "advance_slot called with no open structure; ignored"
  | .noNextSlot slot =>
    "`" ++ blockKind ++ "` structure has no slot after `" ++ slotName slot ++ "`; ignored"
  | .slotFilled slot =>
    "`" ++ slotName slot ++ "` slot of `" ++ blockKind ++
      "` structure is already filled; action ignored"
  | .closeOutside => "close_structure called with no open structure; ignored"
  | .blockRefused slot =>
    "`" ++ slotName slot ++ "` slot of enclosing `" ++ blockKind ++
      "` structure cannot take a nested structure; dropped"

end Warning

/-- A document that is being assembled. -/
structure Assembler where
  identity : Identity
  triggers : List Fragment := []
  actions : List Fragment := []
  /-- The open blocks, the innermost one first. -/
  blocks : List Block := []
  /-- The comment that waits for an action; empty if there is none. -/
  pendingComment : String := ""
  /-- The warnings so far, the first one first. -/
  warnings : List Warning := []

namespace Assembler

/-- The number of open blocks. -/
def depth (assembler : Assembler) : Nat :=
  assembler.blocks.length

/-- The active slot of the innermost open block. -/
def activeSlot? (assembler : Assembler) : Option Slot :=
  assembler.blocks.head?.bind (·.slot)

/-- The assembler with one more warning. -/
def warn (assembler : Assembler) (warning : Warning) : Assembler :=
  { assembler with warnings := assembler.warnings ++ [warning] }

/-- The assembler with a trigger added. -/
def insertTrigger (assembler : Assembler) (trigger : Fragment) : Assembler :=
  { assembler with triggers := assembler.triggers ++ [trigger] }

/-- The assembler with a comment waiting, after a comment that waits already. -/
def insertComment (assembler : Assembler) (comment : String) : Assembler :=
  if comment = "" then
    assembler
  else if assembler.pendingComment = "" then
    { assembler with pendingComment := comment }
  else
    { assembler with pendingComment := assembler.pendingComment ++ "\n" ++ comment }

/-- The assembler with a block opened. -/
def openBlock (assembler : Assembler) : Assembler :=
  { assembler with blocks := {} :: assembler.blocks }

/-- The assembler with a structure of a kind opened. -/
def openStructure (assembler : Assembler) (kind : String) : Except UnknownKind Assembler :=
  (Block.ofKind? kind).map fun block => { assembler with blocks := block :: assembler.blocks }

/-- The assembler with the next slot of the innermost block active. -/
def advance (assembler : Assembler) : Assembler :=
  match assembler.blocks with
  | [] => assembler.warn .advanceOutside
  | block :: rest =>
    if block.hasNext then
      { assembler with blocks := block.advance :: rest }
    else
      assembler.warn (.noNextSlot block.slot)

/-- The assembler with an action at the end of the document, which takes the waiting comment
if it is a mapping. -/
def appendAction (assembler : Assembler) (action : Fragment) : Assembler :=
  if action.isMapping && assembler.pendingComment != "" then
    { assembler with
      actions := assembler.actions ++
        [action.setField "comment" (.string assembler.pendingComment)]
      pendingComment := "" }
  else
    { assembler with actions := assembler.actions ++ [action] }

/-- The assembler with an action in its place. -/
def insertAction (assembler : Assembler) (action : Fragment) : Assembler :=
  match assembler.blocks with
  | [] => assembler.appendAction action
  | block :: rest =>
    match block.insert? action with
    | some block => { assembler with blocks := block :: rest }
    | none => assembler.warn (.slotFilled block.slot)

/-- The assembler with the innermost block closed. -/
def closeBlock (assembler : Assembler) : Assembler :=
  match assembler.blocks with
  | [] => assembler.warn .closeOutside
  | [block] => { assembler with blocks := [], actions := assembler.actions ++ [block.build] }
  | block :: parent :: rest =>
    match parent.insert? block.build with
    | some parent => { assembler with blocks := parent :: rest }
    | none => { assembler with blocks := parent :: rest }.warn (.blockRefused parent.slot)

/-- The document assembled so far, without reserved fields. -/
def document (assembler : Assembler) : Document where
  identity := assembler.identity
  triggers := assembler.triggers.map Fragment.stripReserved
  conditions := Document.defaultConditions.stripReserved
  actions := assembler.actions.map Fragment.stripReserved

/-- A step of assembling. -/
inductive Step where
  | trigger (fragment : Fragment)
  | comment (text : String)
  | open (kind : String)
  | advance
  | insert (fragment : Fragment)
  | close

/-- The assembler after a step. -/
def perform (assembler : Assembler) : Step → Except UnknownKind Assembler
  | .trigger fragment => .ok (assembler.insertTrigger fragment)
  | .comment text => .ok (assembler.insertComment text)
  | .open kind => assembler.openStructure kind
  | .advance => .ok assembler.advance
  | .insert fragment => .ok (assembler.insertAction fragment)
  | .close => .ok assembler.closeBlock

end Assembler

end TriggerLang
