import TriggerLang.Proofs.Script.Rereading

/-!
# Rereading blocks

The first line of a block leads into it, the lines of its branches fill it, and its last line
puts it where it stands.  While its lines are read, the block is open inside of what had been
read before it.
-/

namespace TriggerLang.Script

variable {scope : Parse.Scope} {context : Context} {inOrder : Prop}

/-! ### Inside a block -/

theorem ready_inside {progress : Progress} (h : Ready progress.assembler) (part : OpenPart) :
  Ready (inside progress part).assembler
  := by
  refine ⟨h.pendingComment, ?_⟩
  rintro block ⟨⟩
  cases hbranch : part.hasElse
  · exact .inl (by simp [OpenPart.block, hbranch])
  · exact .inr (by simp [OpenPart.block, hbranch])

/-- The assembler with actions in their place. -/
def insertActions (actions : List Fragment) (assembler : Assembler) : Assembler :=
  actions.foldl Assembler.insertAction assembler

/-- What is inserted inside a block is put in the last branch of the block. -/
theorem insertActions_inside (progress : Progress) (part : OpenPart) (trees : List Tree) :
  { inside progress part with
      assembler := insertActions (Tree.fragments trees) (inside progress part).assembler }
    = inside progress (part.put trees)
  := by
  induction trees generalizing part with
  | nil =>
    rw [OpenPart.put_nil]
    rfl
  | cons tree rest ih =>
    have hinsert : (inside progress part).assembler.insertAction tree.fragment
        = (inside progress (part.put [tree])).assembler := by
      simp only [Assembler.insertAction, inside, part.block_insert?]
    have hrest := ih (part.put [tree])
    rw [OpenPart.put_put, List.singleton_append] at hrest
    rw [Tree.fragments, insertActions, List.foldl_cons, hinsert, ← hrest]
    simp only [insertActions, inside, OpenPart.put_openBlock]

/-- Lines that insert trees insert them in the block that they are read in. -/
theorem Rereads.addLines_inside {lines : List (List Char)} {trees : List Tree}
    (h : Rereads scope context inOrder Ready lines (insertActions (Tree.fragments trees)))
    {progress : Progress} (hready : Ready progress.assembler) (part : OpenPart) (number : Nat) :
  ∃ diagnostics, (inOrder → diagnostics = [])
    ∧ (inside progress part).addLines (.ofScope scope) context (Text.numberFrom number lines)
      = inside (progress.report diagnostics) (part.put trees)
  := by
  obtain ⟨ds, hds, hlines⟩ := h _ number (ready_inside hready part)
  refine ⟨ds, hds, ?_⟩
  rw [hlines, insertActions_inside]
  rfl

/-! ### Single lines of blocks -/

/-- The line goes on with the second branch of the block that it is read in. -/
theorem addLine_else {line : Text.Line} {depth : Nat}
    (hline : line.text = Renderer.indentation depth ++ "else".toList) (progress : Progress)
    {part : OpenPart} (helse : part.hasElse = false) :
  (inside progress part).addLine (.ofScope scope) context line
    = inside progress { part with hasElse := true }
  := by
  have htrim : Text.trim line.text = "else".toList :=
    hline ▸ trim_indentation ⟨⟨'e', _, rfl, by decide⟩, ⟨['e', 'l', 's'], 'e', rfl, by decide⟩⟩ depth
  have hkind : (classifyLine "else".toList).kind = .blockElse := by decide +kernel
  simp only [Progress.addLine, htrim, hkind]
  simp [Progress.beginElse, inside, OpenPart.openBlock, OpenPart.block, helse, Assembler.advance,
    Block.hasNext, Block.advance, Slot.next?]

/-- The line closes the block that it is read in. -/
theorem addLine_end {line : Text.Line} {depth : Nat}
    (hline : line.text = Renderer.indentation depth ++ "end".toList) {progress : Progress}
    (hready : Ready progress.assembler) (part : OpenPart) :
  (inside progress part).addLine (.ofScope scope) context line
    = { progress with assembler := progress.assembler.insertAction part.tree.fragment }
  := by
  have htrim : Text.trim line.text = "end".toList :=
    hline ▸ trim_indentation ⟨⟨'e', _, rfl, by decide⟩, ⟨['e', 'n'], 'd', rfl, by decide⟩⟩ depth
  have hkind : (classifyLine "end".toList).kind = .blockEnd := by decide +kernel
  simp only [Progress.addLine, htrim, hkind]
  rw [Progress.closeBlock]
  simp only [inside]
  cases hblocks : progress.assembler.blocks with
  | nil =>
    rw [Outside.insertAction_eq ⟨hready.pendingComment, hblocks⟩]
    simp only [Assembler.closeBlock, part.block_build, hblocks]
  | cons parent rest =>
    have hbranch := hready.branch
    rw [hblocks] at hbranch
    obtain ⟨filled, hfilled⟩ : ∃ filled, parent.insert? part.tree.fragment = some filled := by
      rcases hbranch parent rfl with hslot | hslot <;> simp [Block.insert?, hslot]
    simp only [Assembler.closeBlock, part.block_build, Assembler.insertAction, hblocks, hfilled]

/-- The line opens a block, with its condition if that is accepted. -/
theorem addLine_if {rest : List Char} (htrimmed : Text.Trimmed ('i' :: 'f' :: rest))
    (hrest : ∀ c ∈ rest.head?, Text.isWordPart c = false) {condition : Option Fragment}
    (haccepted : (evaluate (.ofScope scope) context rest booleanType).accepted? = condition)
    {line : Text.Line} {depth : Nat}
    (hline : line.text = Renderer.indentation depth ++ 'i' :: 'f' :: rest) (progress : Progress) :
  ∃ diagnostics keyword, (condition.isSome → diagnostics = [])
    ∧ progress.addLine (.ofScope scope) context line
      = inside (progress.report diagnostics) { keyword, condition }
  := by
  have htrim : Text.trim line.text = 'i' :: 'f' :: rest := hline ▸ trim_indentation htrimmed depth
  refine ⟨placeAll line (Text.indent line.text + 2)
      (evaluate (.ofScope scope) context rest booleanType).diagnostics,
    Progress.keywordRegion line (Text.indent line.text) (classifyLine (Text.trim line.text)),
    ?_, ?_⟩
  · intro hsome
    obtain ⟨f, rfl⟩ := Option.isSome_iff_exists.mp hsome
    rw [diagnostics_of_accepted haccepted]
    rfl
  · simp only [Progress.addLine, htrim, classifyLine_if hrest]
    rw [openBlock_eq_inside, haccepted]

/-- A block whose condition lasts is opened again by the line that it is rendered with. -/
theorem exists_blockLine {condition : Option Fragment}
    (h : ∀ f ∈ condition, ∃ text, Lasts scope context booleanType f text) (depth : Nat) :
  ∃ text, ((Toolkit.ofScope scope).renderer context).blockLine depth (condition.getD .null)
      = .ok text
    ∧ Text.Unbroken text
    ∧ ∀ (line : Text.Line) (progress : Progress), line.text = text →
      ∃ diagnostics keyword, (condition.isSome → diagnostics = [])
        ∧ progress.addLine (.ofScope scope) context line
          = inside (progress.report diagnostics) { keyword, condition }
  := by
  have hkeyword : Text.Unbroken ['i', 'f'] := by simp [Text.Unbroken, Text.isLineBreak]
  cases condition with
  | none =>
    have hrender : ((Toolkit.ofScope scope).renderer context).render .null = .ok [] := by
      rw [Renderer.render, Renderer.rendered]
      rfl
    refine ⟨Renderer.indentation depth ++ ['i', 'f'], ?_, ?_, ?_⟩
    · rw [Option.getD_none, Renderer.blockLine, hrender]
      rfl
    · exact (unbroken_indentation depth).append hkeyword
    · intro line progress hline
      refine addLine_if ⟨⟨'i', _, rfl, by decide⟩, ⟨['i'], 'f', rfl, by decide⟩⟩ (by simp)
        accepted?_evaluate_nil hline progress
  | some f =>
    obtain ⟨text, htext⟩ := h f rfl
    have hne : text.isEmpty = false := by simp [htext.trimmed.ne_nil]
    refine ⟨Renderer.indentation depth ++ 'i' :: 'f' :: ' ' :: text, ?_, ?_, ?_⟩
    · rw [Option.getD_some, Renderer.blockLine, htext.render]
      simp [Except.map, hne]
    · apply (unbroken_indentation depth).append
      have hspace : Text.Unbroken ['i', 'f', ' '] := by simp [Text.Unbroken, Text.isLineBreak]
      exact hspace.append htext.unbroken
    · intro line progress hline
      obtain ⟨start, c, hend, hc⟩ := htext.trimmed.ends
      refine addLine_if ⟨⟨'i', _, rfl, by decide⟩, ⟨'i' :: 'f' :: ' ' :: start, c, ?_, hc⟩⟩ ?_
        (htext.accepted _ (meaning_space text)) hline progress
      · rw [hend]
        rfl
      · rintro _ ⟨⟩
        decide

/-! ### Whole blocks -/

/-- The lines fill the second branch of the block that they are read in. -/
def FillsElse (scope : Parse.Scope) (context : Context) (inOrder : Prop)
    (lines : List (List Char)) (trees : List Tree) : Prop :=
  ∀ (progress : Progress) (part : OpenPart) (number : Nat), Ready progress.assembler →
    part.hasElse = false → part.elseTrees = [] →
    ∃ diagnostics filled, (inOrder → diagnostics = [])
      ∧ (inside progress part).addLines (.ofScope scope) context (Text.numberFrom number lines)
        = inside (progress.report diagnostics) filled
      ∧ filled.tree = .block part.condition part.thenTrees trees

theorem FillsElse.empty :
  FillsElse scope context inOrder [] []
  := by
  intro progress part number _ _ helse
  refine ⟨[], part, fun _ => rfl, ?_, ?_⟩
  · rw [Progress.report, List.append_nil]
    rfl
  · rw [OpenPart.tree, helse]

theorem Rereads.fillsElse {lines : List (List Char)} {trees : List Tree}
    (h : Rereads scope context inOrder Ready lines (insertActions (Tree.fragments trees)))
    (depth : Nat) :
  FillsElse scope context inOrder ((Renderer.indentation depth ++ "else".toList) :: lines) trees
  := by
  intro progress part number hready hbranch helse
  obtain ⟨ds, hds, hlines⟩ := h.addLines_inside hready { part with hasElse := true } (number + 1)
  refine ⟨ds, OpenPart.put { part with hasElse := true } trees, hds, ?_, ?_⟩
  · rw [addLines_cons, addLine_else rfl progress hbranch, hlines]
  · simp [OpenPart.put, OpenPart.tree, helse]

/-- The lines of a block insert the block. -/
theorem rereads_block {condition : Option Fragment} {first : List Char}
    (hfirst : ∀ (line : Text.Line) (progress : Progress), line.text = first →
      ∃ diagnostics keyword, (condition.isSome → diagnostics = [])
        ∧ progress.addLine (.ofScope scope) context line
          = inside (progress.report diagnostics) { keyword, condition })
    (hcondition : inOrder → condition.isSome)
    {thenLines elseLines : List (List Char)} {thenTrees elseTrees : List Tree}
    (hthen : Rereads scope context inOrder Ready thenLines (insertActions (Tree.fragments thenTrees)))
    (helse : FillsElse scope context inOrder elseLines elseTrees) (depth : Nat) :
  Rereads scope context inOrder Ready
    (first :: (thenLines ++ (elseLines ++ [Renderer.indentation depth ++ "end".toList])))
    (·.insertAction (Tree.block condition thenTrees elseTrees).fragment)
  := by
  intro progress number hready
  obtain ⟨ds, keyword, hds, hopen⟩ := hfirst ⟨number + 1, first, Nat.succ_pos number⟩ progress rfl
  have hbegin : Ready (progress.report ds).assembler := hready
  obtain ⟨ds', hds', hfill⟩ := hthen.addLines_inside hbegin { keyword, condition } (number + 1)
  obtain ⟨ds'', filled, hds'', hfill', htree⟩ := helse ((progress.report ds).report ds')
    (OpenPart.put { keyword, condition } thenTrees) (number + 1 + thenLines.length) hready rfl rfl
  have hend : Ready (((progress.report ds).report ds').report ds'').assembler := hready
  refine ⟨ds ++ ds' ++ ds'', ?_, ?_⟩
  · intro hin
    rw [hds (hcondition hin), hds' hin, hds'' hin]
    rfl
  · rw [addLines_cons, hopen, addLines_append, hfill, addLines_append, hfill', addLines_cons,
      addLine_end rfl hend, htree]
    simp [Progress.report, Progress.addLines, Text.numberFrom, OpenPart.put]

end TriggerLang.Script
