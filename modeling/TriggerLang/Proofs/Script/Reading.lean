import Mathlib.Tactic.Common
import TriggerLang.Script.Build

/-!
# Reading scripts by recursive descent

A script is read here as a tree: a line that opens a block is followed by the lines of its
first branch, those of its second one if an `else` line ends the first, and the `end` line
that closes it.  Reading a part of a script stops before the line that ends the part, so a
part without lines left is one that nothing ended.

The reading knows of lines only what matters for their places (`Item`), and it carries no
stack: the blocks around a part are those that called for it.
-/

namespace TriggerLang.Script

/-! ### Lines and trees -/

/-- A line that is neither blank nor a comment, with what it was evaluated to if that was
accepted. -/
inductive Item where
  | trigger (accepted : Option Fragment)
  | action (accepted : Option Fragment)
  /-- A line that opens a block, with its keyword and its condition. -/
  | opening (keyword : Text.Region) (condition : Option Fragment)
  | elseLine (keyword : Text.Region)
  | endLine (keyword : Text.Region)

namespace Item

/-- The item of a line. -/
def ofLine? (toolkit : Toolkit) (context : Context) (line : Text.Line) : Option Item :=
  let classified := classifyLine (Text.trim line.text)
  let keyword := Progress.keywordRegion line (Text.indent line.text) classified
  match classified.kind with
  | .blank | .comment => none
  | .trigger => some (.trigger (evaluateSource toolkit context classified.body "").accepted?)
  | .action =>
    some (.action
      (evaluate toolkit context classified.body context.defaultReturnType).accepted?)
  | .blockStart =>
    some (.opening keyword (evaluate toolkit context classified.body booleanType).accepted?)
  | .blockElse => some (.elseLine keyword)
  | .blockEnd => some (.endLine keyword)

/-- A line is read as an item of its kind. -/
theorem of_ofLine? {toolkit : Toolkit} {context : Context} {line : Text.Line} {item : Item}
    (h : ofLine? toolkit context line = some item) :
  let classified := classifyLine (Text.trim line.text)
  (classified.kind = .trigger
      ∧ item = .trigger (evaluateSource toolkit context classified.body "").accepted?)
    ∨ (classified.kind = .action
      ∧ item = .action
        (evaluate toolkit context classified.body context.defaultReturnType).accepted?)
    ∨ (classified.kind = .blockStart
      ∧ ∃ keyword, item = .opening keyword
        (evaluate toolkit context classified.body booleanType).accepted?)
    ∨ (∃ keyword, item = .elseLine keyword)
    ∨ ∃ keyword, item = .endLine keyword
  := by
  simp only [ofLine?] at h ⊢
  cases hkind : (classifyLine (Text.trim line.text)).kind with
  | blank | comment =>
    rw [hkind] at h
    cases h
  | trigger | action | blockStart | blockElse | blockEnd =>
    rw [hkind] at h
    cases h
    simp

/-- The trigger that a line declares. -/
def trigger? : Item → Option Fragment
  | .trigger accepted => accepted
  | _ => none

end Item

/-- The items of a script. -/
def items (toolkit : Toolkit) (context : Context) (script : List Char) : List Item :=
  (Text.numberedLines script).filterMap (Item.ofLine? toolkit context)

/-- A part of a script as the reading understands it. -/
inductive Tree where
  | action (fragment : Fragment)
  /-- A closed block; without a condition, if that was rejected. -/
  | block (condition : Option Fragment) (thenTrees elseTrees : List Tree)

namespace Tree

mutual

/-- The action that a tree stands for. -/
def fragment : Tree → Fragment
  | .action fragment => fragment
  | .block condition thenTrees elseTrees =>
    .mapping [("type", .string "condition"), ("conditions", condition.getD .null),
      ("then", .list (fragments thenTrees)), ("else", .list (fragments elseTrees))]

/-- The actions that trees stand for. -/
def fragments : List Tree → List Fragment
  | [] => []
  | tree :: rest => tree.fragment :: fragments rest

end

theorem fragments_eq_map (trees : List Tree) :
  fragments trees = trees.map fragment
  := by
  induction trees with
  | nil => rfl
  | cons tree rest ih => rw [fragments, ih, List.map_cons]

end Tree

/-! ### The reading -/

/-- Where a part of a script stands. -/
inductive Place where
  /-- Outside any block. -/
  | outside
  | thenBranch
  | elseBranch
deriving DecidableEq, Repr

/-- What the items from a place on are read as. -/
structure Part (items : List Item) where
  trees : List Tree := []
  /-- What is wrong with the structure of the part. -/
  issues : List Diagnostic := []
  /-- The line that ends the part, with all lines after it. -/
  rest : List Item
  rest_le : rest.length ≤ items.length

namespace Part

/-- The part after a tree. -/
def after {items : List Item} (part : Part items) (trees : List Tree) (issues : List Diagnostic)
    {items' : List Item} (h : items.length ≤ items'.length) : Part items' where
  trees := trees ++ part.trees
  issues := issues ++ part.issues
  rest := part.rest
  rest_le := Nat.le_trans part.rest_le h

/-- A block that nothing closes: it leaves no tree, and there are no lines after it. -/
def unclosed {items : List Item} (keyword : Text.Region) (issues : List Diagnostic) :
    Part items where
  issues := .of .unclosedBlock keyword :: issues
  rest := []
  rest_le := Nat.zero_le _

end Part

/-- The part of a script that stands at a place. -/
def readPart (place : Place) (items : List Item) : Part items :=
  match items with
  | [] => { rest := [], rest_le := Nat.le_refl _ }
  | .trigger _ :: items => (readPart place items).after [] [] (Nat.le_succ _)
  | .action accepted :: items =>
    (readPart place items).after (accepted.toList.map .action) [] (Nat.le_succ _)
  | .elseLine keyword :: items =>
    match place with
    | .outside =>
      (readPart place items).after [] [.of .unmatchedElse keyword] (Nat.le_succ _)
    | .thenBranch => { rest := .elseLine keyword :: items, rest_le := Nat.le_refl _ }
    | .elseBranch =>
      (readPart place items).after [] [.of .duplicateElse keyword] (Nat.le_succ _)
  | .endLine keyword :: items =>
    match place with
    | .outside =>
      (readPart place items).after [] [.of .unmatchedEnd keyword] (Nat.le_succ _)
    | _ => { rest := .endLine keyword :: items, rest_le := Nat.le_refl _ }
  | .opening keyword condition :: items =>
    let first := readPart .thenBranch items
    match hfirst : first.rest with
    | [] => .unclosed keyword first.issues
    | .elseLine _ :: others =>
      have hothers : others.length + 1 ≤ items.length := by
        simpa only [hfirst, List.length_cons] using first.rest_le
      let second := readPart .elseBranch others
      match hsecond : second.rest with
      | [] => .unclosed keyword (first.issues ++ second.issues)
      | _ :: following =>
        have hfollowing : following.length + 1 ≤ others.length := by
          simpa only [hsecond, List.length_cons] using second.rest_le
        (readPart place following).after [.block condition first.trees second.trees]
          (first.issues ++ second.issues) (by simp only [List.length_cons]; omega)
    | _ :: following =>
      have hfollowing : following.length + 1 ≤ items.length := by
        simpa only [hfirst, List.length_cons] using first.rest_le
      (readPart place following).after [.block condition first.trees []] first.issues
        (by simp only [List.length_cons]; omega)
termination_by items.length
decreasing_by
  all_goals simp only [List.length_cons]; omega

end TriggerLang.Script
