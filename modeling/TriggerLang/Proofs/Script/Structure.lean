import Mathlib.Data.List.Forall2
import TriggerLang.Proofs.Document.Comment
import TriggerLang.Proofs.Document.Reserved
import TriggerLang.Proofs.Script.Classification
import TriggerLang.Proofs.Script.Comments
import TriggerLang.Proofs.Script.Invariant
import TriggerLang.Proofs.Script.Lockstep

/-!
# Building scripts and reading them

What building a script keeps from line to line shows the outline of the lines so far: the
same blocks are open with the same actions in them, and the actions at the end of the document
are those of the trees, but for the comments that have been attached to them (`Shows`).  So
the document that is built is the one that the script is read as by recursive descent.
-/

namespace TriggerLang

/-- The issue is about the structure of a script. -/
def Issue.isStructural : Issue → Bool
  | .unmatchedElse | .duplicateElse | .unmatchedEnd | .unclosedBlock => true
  | _ => false

/-- The diagnostic is about the structure of a script. -/
def Diagnostic.isStructural (d : Diagnostic) : Bool :=
  Issue.all.any fun issue => issue.isStructural && issue.code == d.code

@[simp]
theorem Diagnostic.isStructural_saying (issue : Issue) (region : Text.Region) (message : String) :
  (Diagnostic.saying issue region message).isStructural = issue.isStructural
  := by
  cases issue <;> simp [isStructural, saying, Issue.all, Issue.isStructural, Issue.code]

namespace Script

/-! ### Blocks -/

namespace OpenPart

/-- The block as it is built. -/
def block (part : OpenPart) : Block where
  conditions := part.condition.getD .null
  thenActions := Tree.fragments part.thenTrees
  elseActions := Tree.fragments part.elseTrees
  slot := some (if part.hasElse then .elseBranch else .thenBranch)

/-- The block as it is kept to be closed. -/
def openBlock (part : OpenPart) : OpenBlock :=
  ⟨part.keyword, part.hasElse⟩

theorem block_build (part : OpenPart) :
  part.block.build = part.tree.fragment
  := by
  rw [tree, Tree.fragment]
  rfl

/-- A tree is inserted in the last branch of a block. -/
theorem block_insert? (part : OpenPart) (tree : Tree) :
  part.block.insert? tree.fragment = some (part.put [tree]).block
  := by
  cases h : part.hasElse <;> simp [Block.insert?, block, put, h, Tree.fragments_eq_map]

@[simp]
theorem put_openBlock (part : OpenPart) (trees : List Tree) :
  (part.put trees).openBlock = part.openBlock
  := by
  unfold put
  split <;> rfl

end OpenPart

/-- The progress once a block has been opened in which the lines of the part have been read. -/
def inside (progress : Progress) (part : OpenPart) : Progress where
  assembler := { progress.assembler with blocks := part.block :: progress.assembler.blocks }
  openBlocks := part.openBlock :: progress.openBlocks
  diagnostics := progress.diagnostics

/-- A line that opens a block leads into it. -/
theorem openBlock_eq_inside (progress : Progress) (keyword : Text.Region) (outcome : Outcome) :
  progress.openBlock keyword outcome
    = inside progress { keyword, condition := outcome.accepted? }
  := by
  rw [Progress.openBlock, Progress.addAction]
  cases outcome.accepted? with
  | none =>
    simp [inside, Assembler.openBlock, Assembler.advance, Block.hasNext, Block.advance,
      Slot.next?, OpenPart.block, OpenPart.openBlock, Tree.fragments]
  | some condition =>
    simp [inside, Assembler.openBlock, Assembler.insertAction, Block.insert?,
      Assembler.advance, Block.hasNext, Block.advance, Slot.next?, OpenPart.block,
      OpenPart.openBlock, Tree.fragments]

/-- The action is that of the tree, with a comment attached to it or without one. -/
inductive Carries : Fragment → Tree → Prop
  | bare (tree : Tree) : Carries tree.fragment tree
  | commented {f : Fragment} {comment : String} (hmapping : f.isMapping = true)
      (hcomment : IsComment comment) :
      Carries (f.setField "comment" (.string comment)) (.action f)

theorem Carries.withoutComment_eq {action : Fragment} {tree : Tree} (h : Carries action tree) :
  action.withoutComment = tree.fragment.withoutComment
  := by
  cases h with
  | bare => rfl
  | commented => rw [Fragment.withoutComment_setField, Tree.fragment]

/-- What is known of a script is its outline, but for comments, triggers, and diagnostics of
single lines. -/
structure Shows (progress : Progress) (outline : Outline) : Prop where
  actions : List.Forall₂ Carries progress.assembler.actions outline.trees
  waits : progress.assembler.Waits
  blocks : progress.assembler.blocks = outline.openParts.map OpenPart.block
  openBlocks : progress.openBlocks = outline.openParts.map OpenPart.openBlock
  issues : progress.diagnostics.filter Diagnostic.isStructural = outline.issues

namespace Shows

variable {progress : Progress} {outline : Outline}

/-- Diagnostics of a line change nothing of the structure. -/
theorem report_of_not_isStructural (h : Shows progress outline) {ds : List Diagnostic}
    (hds : ∀ d ∈ ds, d.isStructural = false) :
  Shows (progress.report ds) outline
  := by
  have hfilter : ds.filter Diagnostic.isStructural = [] := by
    simpa [List.filter_eq_nil_iff] using hds
  refine ⟨h.actions, h.waits, h.blocks, h.openBlocks, ?_⟩
  rw [Progress.report, List.filter_append, hfilter, List.append_nil, h.issues]

/-- A diagnostic of the structure is an issue. -/
theorem report (h : Shows progress outline) {d : Diagnostic} (hd : d.isStructural = true) :
  Shows (progress.report [d]) (outline.grow [] [d])
  := by
  obtain ⟨trees, parts, issues⟩ := outline
  have hissues : (progress.report [d]).diagnostics.filter Diagnostic.isStructural = issues ++ [d] := by
    simp [Progress.report, h.issues, hd]
  cases parts with
  | nil =>
    refine ⟨?_, h.waits, h.blocks, h.openBlocks, hissues⟩
    rw [Outline.grow, List.append_nil]
    exact h.actions
  | cons part rest =>
    refine ⟨h.actions, h.waits, ?_, ?_, hissues⟩
    · simpa [Outline.grow, Progress.report] using h.blocks
    · simpa [Outline.grow, Progress.report] using h.openBlocks

/-- An action is put in its place. -/
theorem insertAction (h : Shows progress outline) (action : Fragment) :
  Shows { progress with assembler := progress.assembler.insertAction action }
    (outline.grow [.action action] [])
  := by
  obtain ⟨trees, parts, issues⟩ := outline
  cases parts with
  | nil =>
    have hblocks : progress.assembler.blocks = [] := h.blocks
    have happend : progress.assembler.insertAction action
        = progress.assembler.appendAction action := by
      rw [Assembler.insertAction, hblocks]
    rw [happend]
    constructor
    · change List.Forall₂ Carries (progress.assembler.appendAction action).actions _
      rw [Assembler.appendAction]
      split
      · rename_i hattach
        rw [Bool.and_eq_true, bne_iff_ne] at hattach
        have hcomment := h.waits.resolve_left hattach.2
        exact List.rel_append h.actions (.cons (.commented hattach.1 hcomment) .nil)
      · exact List.rel_append h.actions (.cons (Carries.bare (.action action)) .nil)
    · change (progress.assembler.appendAction action).Waits
      rw [Assembler.appendAction]
      split
      · exact .inl rfl
      · exact h.waits
    · change (progress.assembler.appendAction action).blocks = []
      rw [Assembler.appendAction]
      split <;> exact hblocks
    · exact h.openBlocks
    · rw [Outline.grow, List.append_nil]
      exact h.issues
  | cons part rest =>
    have hblocks : progress.assembler.blocks = part.block :: rest.map OpenPart.block := h.blocks
    have hinsert : part.block.insert? action = some (part.put [.action action]).block :=
      part.block_insert? (.action action)
    rw [Assembler.insertAction, hblocks]
    simp only [hinsert]
    refine ⟨h.actions, h.waits, rfl, ?_, ?_⟩
    · simpa [Outline.grow] using h.openBlocks
    · rw [Outline.grow, List.append_nil]
      exact h.issues

/-- A block is closed and put in its place. -/
theorem closeBlock {part : OpenPart} {rest : List OpenPart} {trees : List Tree}
    {issues : List Diagnostic} (h : Shows progress ⟨trees, part :: rest, issues⟩)
    (keyword : Text.Region) :
  Shows (progress.closeBlock keyword) (Outline.grow ⟨trees, rest, issues⟩ [part.tree] [])
  := by
  have hopen : progress.openBlocks = part.openBlock :: rest.map OpenPart.openBlock := h.openBlocks
  rw [Progress.closeBlock, hopen]
  cases rest with
  | nil =>
    have hblocks : progress.assembler.blocks = [part.block] := h.blocks
    simp only [Assembler.closeBlock, hblocks]
    refine ⟨?_, h.waits, rfl, rfl, ?_⟩
    · rw [part.block_build]
      exact List.rel_append h.actions (.cons (.bare part.tree) .nil)
    · simpa [Outline.grow] using h.issues
  | cons parent rest =>
    have hblocks : progress.assembler.blocks
      = part.block :: parent.block :: rest.map OpenPart.block := h.blocks
    simp only [Assembler.closeBlock, hblocks, part.block_build, parent.block_insert?]
    refine ⟨h.actions, h.waits, rfl, ?_, ?_⟩
    · simp [Outline.grow]
    · simpa [Outline.grow] using h.issues

/-- A block is opened, with its condition if that was accepted. -/
theorem openBlock (h : Shows progress outline) (keyword : Text.Region) (outcome : Outcome) :
  Shows (progress.openBlock keyword outcome) (outline.enter keyword outcome.accepted?)
  := by
  rw [openBlock_eq_inside]
  refine ⟨h.actions, h.waits, ?_, ?_, h.issues⟩
  · simp [inside, Outline.enter, h.blocks]
  · simp [inside, Outline.enter, h.openBlocks]

/-- The second branch of the innermost block is begun, or the line is reported. -/
theorem beginElse (h : Shows progress outline) (keyword : Text.Region) :
  Shows (progress.beginElse keyword) (outline.add (.elseLine keyword))
  := by
  obtain ⟨trees, parts, issues⟩ := outline
  cases parts with
  | nil =>
    have hopen : progress.openBlocks = [] := h.openBlocks
    rw [Progress.beginElse, hopen]
    exact h.report (Diagnostic.isStructural_saying _ _ _)
  | cons part rest =>
    have hblocks : progress.assembler.blocks = part.block :: rest.map OpenPart.block := h.blocks
    have hopen : progress.openBlocks = part.openBlock :: rest.map OpenPart.openBlock :=
      h.openBlocks
    rw [Progress.beginElse, hopen]
    cases helse : part.hasElse with
    | true =>
      simp only [OpenPart.openBlock, helse, if_true, Outline.add]
      exact h.report (Diagnostic.isStructural_saying _ _ _)
    | false =>
      simp only [OpenPart.openBlock, helse, Outline.add, Bool.false_eq_true, if_false]
      have hadvance : progress.assembler.advance = { progress.assembler with
          blocks := { part with hasElse := true }.block :: rest.map OpenPart.block } := by
        simp [Assembler.advance, hblocks, OpenPart.block, helse, Block.hasNext, Block.advance,
          Slot.next?]
      rw [hadvance]
      exact ⟨h.actions, h.waits, rfl, rfl, h.issues⟩

/-- The innermost block is closed, or the line is reported. -/
theorem endLine (h : Shows progress outline) (keyword : Text.Region) :
  Shows (progress.closeBlock keyword) (outline.add (.endLine keyword))
  := by
  obtain ⟨trees, parts, issues⟩ := outline
  cases parts with
  | nil =>
    have hopen : progress.openBlocks = [] := h.openBlocks
    rw [Progress.closeBlock, hopen]
    exact h.report (Diagnostic.isStructural_saying _ _ _)
  | cons part rest => exact h.closeBlock keyword

/-- An action is put in its place, if it was accepted. -/
theorem addAction (h : Shows progress outline) (outcome : Outcome) :
  Shows (progress.addAction outcome) (outline.add (.action outcome.accepted?))
  := by
  rw [Progress.addAction, Outline.add]
  cases outcome.accepted? with
  | none => simpa using h
  | some action => exact h.insertAction action

/-- A trigger changes nothing of the structure. -/
theorem addTrigger (h : Shows progress outline) (outcome : Outcome) :
  Shows (progress.addTrigger outcome) outline
  := by
  rw [Progress.addTrigger]
  split
  · split
    · exact ⟨h.actions, h.waits, h.blocks, h.openBlocks, h.issues⟩
    · exact h
  · exact h

end Shows

/-! ### Lines -/

/-- What is wrong with an expression is nothing of the structure. -/
theorem not_isStructural_of_mem_evaluateSource
    {scope : Parse.Scope} {context : Context} {source : List Char} {expected : String}
    {d : Diagnostic} (h : d ∈ (evaluateSource (.ofScope scope) context source expected).diagnostics) :
  d.isStructural = false
  := by
  unfold evaluateSource at h
  split at h
  · rename_i rejection _
    obtain rfl := List.mem_singleton.mp h
    cases rejection <;> exact Diagnostic.isStructural_saying _ _ _
  · split at h
    · simp only [checkPrimitive] at h
      split at h
      · cases h
      · obtain rfl := List.mem_singleton.mp h
        exact Diagnostic.isStructural_saying _ _ _
    · obtain ⟨mismatch, -, rfl⟩ := List.mem_map.mp h
      cases mismatch <;> exact Diagnostic.isStructural_saying _ _ _

theorem not_isStructural_of_mem_placeAll
    {line : Text.Line} {indent : Nat} {ds : List Diagnostic}
    (hds : ∀ d ∈ ds, d.isStructural = false) :
  ∀ d ∈ placeAll line indent ds, d.isStructural = false
  := by
  intro d hd
  obtain ⟨d', hd', rfl⟩ := List.mem_map.mp hd
  exact hds d' hd'

/-- A line changes what is known of a script as its item changes the outline. -/
theorem Shows.addLine {progress : Progress} {outline : Outline} (h : Shows progress outline)
    (scope : Parse.Scope) (context : Context) {line : Text.Line}
    (hunbroken : Text.Unbroken line.text) :
  Shows (progress.addLine (.ofScope scope) context line)
    ((Item.ofLine? (.ofScope scope) context line).elim outline outline.add)
  := by
  simp only [Progress.addLine, Item.ofLine?]
  have hcomment := @of_classifyLine_kind_comment (Text.trim line.text)
  generalize classifyLine (Text.trim line.text) = classified at hcomment
  have hreport : ∀ indent source expected, Shows (progress.report (placeAll line indent
      (evaluateSource (.ofScope scope) context source expected).diagnostics)) outline := by
    intro indent source expected
    apply h.report_of_not_isStructural
    apply not_isStructural_of_mem_placeAll
    exact fun _ => not_isStructural_of_mem_evaluateSource
  cases hkind : classified.kind with
  | blank => exact h
  | comment =>
    refine ⟨?_, ?_, ?_, h.openBlocks, h.issues⟩
    · simp only [Assembler.insertComment]
      split
      · exact h.actions
      · split <;> exact h.actions
    · rw [hcomment hkind]
      apply h.waits.insertComment
      exact fun c hc => hunbroken.trimmed c (List.mem_of_mem_drop hc)
    · simp only [Assembler.insertComment]
      split
      · exact h.blocks
      · split <;> exact h.blocks
  | trigger => exact (hreport _ _ _).addTrigger _
  | blockStart => exact (hreport _ _ _).openBlock _ _
  | blockElse => exact h.beginElse _
  | blockEnd => exact h.endLine _
  | action => exact (hreport _ _ _).addAction _

/-- The lines of a script change what is known of it as its items change the outline. -/
theorem Shows.addLines {progress : Progress} {outline : Outline} (h : Shows progress outline)
    (scope : Parse.Scope) (context : Context) {lines : List Text.Line}
    (hunbroken : ∀ line ∈ lines, Text.Unbroken line.text) :
  Shows (progress.addLines (.ofScope scope) context lines)
    ((lines.filterMap (Item.ofLine? (.ofScope scope) context)).foldl Outline.add outline)
  := by
  induction lines generalizing progress outline with
  | nil => exact h
  | cons line rest ih =>
    obtain ⟨hline, hlines⟩ := List.forall_mem_cons.mp hunbroken
    have hrest := ih (h.addLine scope context hline) hlines
    rw [List.filterMap_cons, Progress.addLines, List.foldl_cons]
    cases hline : Item.ofLine? (.ofScope scope) context line with
    | none =>
      rw [hline] at hrest
      exact hrest
    | some item =>
      rw [hline] at hrest
      exact hrest

/-! ### Triggers -/

/-- A line adds the trigger that it declares, if that was accepted. -/
theorem addLine_triggers (scope : Parse.Scope) (context : Context) (progress : Progress)
    (line : Text.Line) :
  (progress.addLine (.ofScope scope) context line).assembler.triggers
    = progress.assembler.triggers
      ++ ((Item.ofLine? (.ofScope scope) context line).bind Item.trigger?).toList
  := by
  rw [Progress.addLine_eq, Assembler.triggers_foldl]
  congr 1
  simp only [Progress.steps, Item.ofLine?]
  cases hkind : (classifyLine (Text.trim line.text)).kind with
  | blank => rfl
  | comment => rfl
  | trigger =>
    simp only [Option.bind_some, Item.trigger?]
    cases haccepted : (evaluateSource (.ofScope scope) context
        (classifyLine (Text.trim line.text)).body "").accepted? with
    | none => rfl
    | some f =>
      obtain ⟨name, rfl⟩ := eq_of_accepted_trigger hkind haccepted
      rfl
  | blockStart =>
    cases (evaluate (.ofScope scope) context (classifyLine (Text.trim line.text)).body
      booleanType).accepted? <;> rfl
  | blockElse =>
    cases progress.openBlocks with
    | nil => rfl
    | cons block rest =>
      obtain ⟨region, hasElse⟩ := block
      cases hasElse <;> rfl
  | blockEnd => cases progress.openBlocks <;> rfl
  | action =>
    cases (evaluate (.ofScope scope) context (classifyLine (Text.trim line.text)).body
      context.defaultReturnType).accepted? <;> rfl

/-- The lines of a script add the triggers that they declare. -/
theorem addLines_triggers (scope : Parse.Scope) (context : Context) (progress : Progress)
    (lines : List Text.Line) :
  (progress.addLines (.ofScope scope) context lines).assembler.triggers
    = progress.assembler.triggers
      ++ (lines.filterMap (Item.ofLine? (.ofScope scope) context)).filterMap Item.trigger?
  := by
  induction lines generalizing progress with
  | nil => exact (List.append_nil _).symm
  | cons line rest ih =>
    change (Progress.addLines _ _ (progress.addLine _ _ line) rest).assembler.triggers = _
    rw [ih, addLine_triggers, List.filterMap_cons]
    cases hitem : Item.ofLine? (.ofScope scope) context line with
    | none => simp
    | some item => cases htrigger : item.trigger? <;> simp [htrigger]

/-! ### The identity -/

/-- Lines do not change the identity of the document. -/
theorem addLines_identity (toolkit : Toolkit) (context : Context) (progress : Progress)
    (lines : List Text.Line) :
  (progress.addLines toolkit context lines).assembler.identity = progress.assembler.identity
  := by
  have hsteps : (progress.addLines toolkit context lines).assembler = _ :=
    Progress.assembler_addLinesWith (fun _ => toolkit) context progress lines
  rw [hsteps, Assembler.identity_foldl]

/-! ### Accepted lines -/

/-- What an expression is accepted as has no reserved fields. -/
theorem unreserved_of_accepted {scope : Parse.Scope} {context : Context} {source : List Char}
    {expected : String} {f : Fragment}
    (h : (evaluateSource (.ofScope scope) context source expected).accepted? = some f) :
  f.Unreserved
  := by
  rw [Outcome.accepted?] at h
  split at h
  · unfold evaluateSource at h
    split at h
    · cases h
    · split at h
      · rename_i hprimitive
        cases h
        exact Fragment.unreserved_of_isPrimitive hprimitive
      · cases h
        exact Fragment.postProcess_unreserved _ _
  · cases h

/-- What an item holds has no reserved fields. -/
theorem Item.unreserved_of_ofLine? {scope : Parse.Scope} {context : Context} {line : Text.Line}
    {item : Item} (h : Item.ofLine? (.ofScope scope) context line = some item) :
  item.All Fragment.Unreserved (fun c => ∀ f ∈ c, f.Unreserved)
    ∧ ∀ f ∈ item.trigger?, f.Unreserved
  := by
  rcases Item.of_ofLine? h with ⟨-, rfl⟩ | ⟨-, rfl⟩ | ⟨-, keyword, rfl⟩ | ⟨keyword, rfl⟩ |
    ⟨keyword, rfl⟩
  · exact ⟨trivial, fun _ => unreserved_of_accepted⟩
  · exact ⟨fun _ => unreserved_of_accepted, nofun⟩
  · exact ⟨fun _ => unreserved_of_accepted, nofun⟩
  · exact ⟨trivial, nofun⟩
  · exact ⟨trivial, nofun⟩

/-- A tree has no reserved fields if its actions and conditions have none. -/
theorem Tree.All.unreserved {tree : Tree}
    (h : tree.All Fragment.Unreserved (fun c => ∀ f ∈ c, f.Unreserved)) :
  tree.fragment.Unreserved
  := by
  induction h with
  | action h =>
    rw [Tree.fragment]
    exact h
  | @block c thenTrees elseTrees hcondition _ _ ihthen ihelse =>
    have hc : (c.getD .null).Unreserved := by
      cases c with
      | none => trivial
      | some f => exact hcondition f rfl
    rw [Tree.fragment]
    simpa [Fragment.Unreserved, Fragment.UnreservedFields, Fragment.unreservedItems_iff,
      Fragment.isReserved, Tree.fragments_eq_map, hc] using ⟨ihthen, ihelse⟩

theorem Carries.unreserved {action : Fragment} {tree : Tree} (h : Carries action tree)
    (htree : tree.fragment.Unreserved) :
  action.Unreserved
  := by
  cases h with
  | bare => exact htree
  | commented => exact htree.setField (by simp [Fragment.isReserved]) _

theorem exists_tree_of_mem {actions : List Fragment} {trees : List Tree}
    (h : List.Forall₂ Carries actions trees) {action : Fragment} (haction : action ∈ actions) :
  ∃ tree ∈ trees, Carries action tree
  := by
  induction h with
  | nil => cases haction
  | cons hfirst _ ih =>
    rcases List.mem_cons.mp haction with rfl | haction
    · exact ⟨_, List.mem_cons_self, hfirst⟩
    · obtain ⟨tree, htree, hcarries⟩ := ih haction
      exact ⟨tree, List.mem_cons_of_mem _ htree, hcarries⟩

/-- The document of fragments without reserved fields holds the fragments as they are. -/
theorem publish_document {assembler : Assembler}
    (htriggers : ∀ f ∈ assembler.triggers, f.Unreserved)
    (hactions : ∀ f ∈ assembler.actions, f.Unreserved) :
  assembler.document.publish = {
    identity := assembler.identity
    triggers := assembler.triggers
    conditions := Document.defaultConditions.stripReserved
    actions := Fragment.publishAll assembler.actions }
  := by
  have hall : ∀ fs : List Fragment, (∀ f ∈ fs, f.Unreserved) →
      fs.map Fragment.stripReserved = fs := by
    intro fs hfs
    conv_rhs => rw [← List.map_id fs]
    exact List.map_congr_left fun f hf => Fragment.stripReserved_of_unreserved (hfs f hf)
  rw [Assembler.document, Document.publish, hall _ htriggers, hall _ hactions]

/-! ### What is known at the end -/

section

variable (scope : Parse.Scope) (context : Context) (identity : Identity) (script : List Char)

/-- What is known at the end of a script is the outline of its items. -/
theorem shows_readScript :
  Shows (readScript (.ofScope scope) context identity script)
    ((items (.ofScope scope) context script).foldl Outline.add {})
  := Shows.addLines ⟨.nil, .inl rfl, rfl, rfl, rfl⟩ _ _ fun _ => Text.unbroken_of_mem_numberedLines

theorem triggers_readScript :
  (readScript (.ofScope scope) context identity script).assembler.triggers
    = (items (.ofScope scope) context script).filterMap Item.trigger?
  := addLines_triggers scope context _ _

/-- What holds of all items of a script holds of the trees that its document carries. -/
theorem exists_trees_of_items {action : Fragment → Prop} {condition : Option Fragment → Prop}
    (h : ∀ item ∈ items (.ofScope scope) context script, item.All action condition) :
  ∃ trees, List.Forall₂ Carries
      (readScript (.ofScope scope) context identity script).assembler.actions trees
    ∧ ∀ tree ∈ trees, tree.All action condition
  := ⟨_, (shows_readScript scope context identity script).actions,
      (Outline.All.empty.foldl fun item => h item).trees⟩

/-- The document of a script holds what has been assembled as it is. -/
theorem publish_readScript :
  (readScript (.ofScope scope) context identity script).assembler.document.publish = {
    identity := (readScript (.ofScope scope) context identity script).assembler.identity
    triggers := (readScript (.ofScope scope) context identity script).assembler.triggers
    conditions := Document.defaultConditions.stripReserved
    actions := Fragment.publishAll
      (readScript (.ofScope scope) context identity script).assembler.actions }
  := by
  have hitems : ∀ item ∈ items (.ofScope scope) context script,
      item.All Fragment.Unreserved (fun c => ∀ f ∈ c, f.Unreserved)
        ∧ ∀ f ∈ item.trigger?, f.Unreserved := by
    intro item hitem
    obtain ⟨line, -, hline⟩ := List.mem_filterMap.mp hitem
    exact Item.unreserved_of_ofLine? hline
  apply publish_document
  · intro f hf
    rw [triggers_readScript] at hf
    obtain ⟨item, hitem, hf⟩ := List.mem_filterMap.mp hf
    exact (hitems item hitem).2 f hf
  · obtain ⟨trees, hcarries, htrees⟩ :=
      exists_trees_of_items scope context identity script fun item hitem => (hitems item hitem).1
    intro f hf
    obtain ⟨tree, htree, hcarried⟩ := exists_tree_of_mem hcarries hf
    exact hcarried.unreserved (htrees tree htree).unreserved

end

/-! ### Whole scripts -/

/-- A script that can be built is built as it is read by recursive descent.  Its actions are
the published trees of the reading, comments aside, its triggers those of the lines that
declare one, and what is reported of its structure is what is wrong with the reading. -/
theorem buildScript_eq_reading {scope : Parse.Scope} {context : Context} {identity : Identity}
    {script : List Char} {build : Build}
    (h : buildScript (.ofScope scope) context identity script = .ok build) :
  build.document.actions.map Fragment.withoutComment
      = (readPart .outside (items (.ofScope scope) context script)).trees.map
        (·.fragment.publish.withoutComment)
    ∧ build.document.triggers
      = (items (.ofScope scope) context script).filterMap Item.trigger?
    ∧ (build.diagnostics.filter Diagnostic.isStructural).Perm
      (readPart .outside (items (.ofScope scope) context script)).issues
  := by
  obtain ⟨hdocument, hdiagnostics⟩ := eq_of_buildScript h
  rw [hdocument, hdiagnostics]
  have hshows : Shows (readScript (.ofScope scope) context identity script)
      ((items (.ofScope scope) context script).foldl Outline.add {}) :=
    Shows.addLines ⟨.nil, .inl rfl, rfl, rfl, rfl⟩ _ _ fun _ => Text.unbroken_of_mem_numberedLines
  have htriggers : (readScript (.ofScope scope) context identity script).assembler.triggers
      = (items (.ofScope scope) context script).filterMap Item.trigger? :=
    addLines_triggers scope context _ _
  have hitems : ∀ item ∈ items (.ofScope scope) context script,
      item.All Fragment.Unreserved (fun c => ∀ f ∈ c, f.Unreserved)
        ∧ ∀ f ∈ item.trigger?, f.Unreserved := by
    intro item hitem
    obtain ⟨line, -, hline⟩ := List.mem_filterMap.mp hitem
    exact Item.unreserved_of_ofLine? hline
  have hfollows := follows_readPart .outside (items (.ofScope scope) context script) {} rfl
  have hstops := readPart_stops .outside (items (.ofScope scope) context script)
  revert hshows htriggers hitems hfollows hstops
  generalize readScript (.ofScope scope) context identity script = progress
  generalize items (.ofScope scope) context script = lines
  intro hshows htriggers hitems hfollows hstops
  -- outside any block nothing ends a part, so all lines are read
  have hrest : (readPart .outside lines).rest = [] := by
    unfold Stops at hstops
    split at hstops <;> simp_all
  have htrees : (lines.foldl Outline.add {}).trees = (readPart .outside lines).trees :=
    hfollows.trees hrest
  refine ⟨?_, ?_, ?_⟩
  · have hunreserved := (Outline.All.empty.foldl fun item hitem => (hitems item hitem).1).trees
    have hactions : progress.assembler.actions.map Fragment.withoutComment
        = (lines.foldl Outline.add {}).trees.map (·.fragment.withoutComment) := by
      rw [← List.forall₂_eq_eq_eq, List.forall₂_map_left_iff, List.forall₂_map_right_iff]
      exact hshows.actions.imp fun _ _ => Carries.withoutComment_eq
    replace hactions := congrArg (List.map fun f => f.stripReserved.publish) hactions
    rw [htrees] at hunreserved hactions
    rw [List.map_map, List.map_map] at hactions
    rw [Document.publish, Assembler.document, Fragment.publishAll_eq_map, List.map_map,
      List.map_map]
    simp only [Function.comp_def, ← Fragment.withoutComment_stripReserved,
      ← Fragment.withoutComment_publish] at hactions ⊢
    rw [hactions]
    apply List.map_congr_left
    intro tree htree
    rw [Fragment.stripReserved_of_unreserved (hunreserved tree htree).unreserved]
  · rw [Document.publish, Assembler.document, htriggers]
    change List.map Fragment.stripReserved _ = _
    conv_rhs => rw [← List.map_id (lines.filterMap Item.trigger?)]
    apply List.map_congr_left
    intro f hf
    obtain ⟨item, hitem, hf⟩ := List.mem_filterMap.mp hf
    exact Fragment.stripReserved_of_unreserved ((hitems item hitem).2 f hf)
  · have hblocks : (progress.openBlocks.reverse.map fun block =>
          Diagnostic.of .unclosedBlock block.region).Perm
        ((lines.foldl Outline.add {}).openParts.map OpenPart.unclosed) := by
      rw [hshows.openBlocks, ← List.map_reverse, List.map_map]
      exact (List.reverse_perm _).map _
    have hunclosed : ((lines.foldl Outline.add {}).openParts.map OpenPart.unclosed).filter
        Diagnostic.isStructural = (lines.foldl Outline.add {}).openParts.map OpenPart.unclosed := by
      apply List.filter_eq_self.mpr
      intro d hd
      obtain ⟨part, -, rfl⟩ := List.mem_map.mp hd
      exact Diagnostic.isStructural_saying _ _ _
    have hsort := (List.mergeSort_perm (progress.diagnostics ++ progress.openBlocks.reverse.map
      fun block => Diagnostic.of .unclosedBlock block.region) Diagnostic.le).filter
        Diagnostic.isStructural
    apply hsort.trans
    rw [List.filter_append, hshows.issues]
    have hfilter := (hblocks.filter Diagnostic.isStructural).append_left
      (lines.foldl Outline.add {}).issues
    rw [hunclosed] at hfilter
    exact hfilter.trans (hfollows.issues hrest)

/-- A script with a rejected condition, an `else` too many, and lines that belong to no block is
built as it is read. -/
theorem buildScript_eq_reading_of_strays :
  ∃ build, buildScript (.ofScope {}) {} ⟨"", "", 0, .null, false⟩
      "if (\n else\n else\nend\nend\n1\nif 2".toList = .ok build
    ∧ build.document.actions.map Fragment.withoutComment
      = (readPart .outside (items (.ofScope {}) {}
          "if (\n else\n else\nend\nend\n1\nif 2".toList)).trees.map
        (·.fragment.publish.withoutComment)
    ∧ build.document.triggers
      = (items (.ofScope {}) {}
          "if (\n else\n else\nend\nend\n1\nif 2".toList).filterMap Item.trigger?
    ∧ (build.diagnostics.filter Diagnostic.isStructural).Perm
      (readPart .outside (items (.ofScope {}) {}
        "if (\n else\n else\nend\nend\n1\nif 2".toList)).issues
  := by
  have hsome : (buildScript (.ofScope {}) {} ⟨"", "", 0, .null, false⟩
      "if (\n else\n else\nend\nend\n1\nif 2".toList).toOption.isSome = true := by
    decide +kernel
  cases hbuild : buildScript (.ofScope {}) {} ⟨"", "", 0, .null, false⟩
      "if (\n else\n else\nend\nend\n1\nif 2".toList with
  | error e =>
    rw [hbuild] at hsome
    cases hsome
  | ok build => exact ⟨build, rfl, buildScript_eq_reading hbuild⟩

end Script

end TriggerLang
