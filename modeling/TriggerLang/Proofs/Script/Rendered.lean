import TriggerLang.Proofs.Script.Blocks

/-!
# Rendering trees

If the actions and the conditions of a tree last, its published fragment can be rendered, and
the lines insert the tree again wherever they are read.  This follows the tree: the lines of a
block are those of its condition and of its branches.
-/

namespace TriggerLang.Script

variable {scope : Parse.Scope} {context : Context} {inOrder : Prop}

/-- The rendering succeeds, and its lines change the assembler in one way wherever they are
read at a place. -/
def Restores (scope : Parse.Scope) (context : Context) (inOrder : Prop)
    (place : Assembler → Prop) (rendering : Except RenderError (List (List Char)))
    (change : Assembler → Assembler) : Prop :=
  ∃ lines, rendering = .ok lines ∧ (∀ line ∈ lines, Text.Unbroken line)
    ∧ Rereads scope context inOrder place lines change

/-- Actions that are restored one by one are restored in a row. -/
theorem restores_listLines {place : Assembler → Prop}
    (hplace : ∀ assembler action, place assembler → place (assembler.insertAction action))
    {depth : Nat} {actions : List Fragment}
    (h : ∀ action ∈ actions, Restores scope context inOrder place
      (((Toolkit.ofScope scope).renderer context).actionLines depth action.publish)
      (·.insertAction action)) :
  Restores scope context inOrder place
    (((Toolkit.ofScope scope).renderer context).listLines depth (Fragment.publishAll actions))
    (insertActions actions)
  := by
  induction actions with
  | nil =>
    refine ⟨[], ?_, by simp, .nil⟩
    rw [Fragment.publishAll, Renderer.listLines]
  | cons action rest ih =>
    obtain ⟨haction, hrest⟩ := List.forall_mem_cons.mp h
    obtain ⟨lines, hlines, hunbroken, hrereads⟩ := haction
    obtain ⟨others, hothers, hunbroken', hrereads'⟩ := ih hrest
    refine ⟨lines ++ others, ?_, List.forall_mem_append.mpr ⟨hunbroken, hunbroken'⟩,
      hrereads.append hrereads' fun assembler => hplace assembler action⟩
    rw [Fragment.publishAll, Renderer.listLines, hlines, hothers]
    rfl

/-! ### Actions -/

/-- An action that lasts is rendered as its line. -/
theorem actionLines_of_lasting {p : Fragment} {text : List Char}
    (h : LastingAction scope context p text) (depth : Nat) :
  ((Toolkit.ofScope scope).renderer context).actionLines depth p.publish
    = .ok [Renderer.indentation depth ++ text]
  := by
  have hbare : p.Bare := h.unadorned
  rw [hbare.actionLines_eq, Renderer.actionLine, h.render]
  rfl

theorem restores_action {p : Fragment} {text : List Char}
    (h : LastingAction scope context p text) (depth : Nat) :
  Restores scope context inOrder Ready
    (((Toolkit.ofScope scope).renderer context).actionLines depth p.publish) (·.insertAction p)
  := by
  refine ⟨_, actionLines_of_lasting h depth, ?_, ?_⟩
  · intro line hline
    rw [List.mem_singleton.mp hline]
    exact (unbroken_indentation depth).append h.unbroken
  · exact (rereads_action h depth).imp (fun _ _ => trivial) fun _ _ => rfl

/-- The lines of a comment are rendered above its action. -/
theorem commentLines_of_isComment {fields : Fragment.Fields} (h : Fragment.Unadorned fields)
    {comment : String} {pieces : List (List Char)} (hne : pieces ≠ [])
    (hpieces : ∀ piece ∈ pieces, Text.Trimmed piece ∧ Text.Unbroken piece)
    (htext : comment.toList = ['\n'].intercalate pieces) (depth : Nat) :
  Renderer.commentLines depth (fields ++ [("comment", .string comment)])
    = pieces.map fun piece => Renderer.indentation depth ++ '/' :: '/' :: ' ' :: piece
  := by
  have hlookup : (fields ++ [("comment", Fragment.string comment)]).lookup "comment"
      = some (.string comment) := by
    rw [List.lookup_append, Table.lookup_eq_none_of_notMem h.uncommented]
    rfl
  have htruthy : (Fragment.string comment).isTruthy = true := by
    have hcomment : IsComment comment := ⟨pieces, hne, hpieces, htext⟩
    simp [Fragment.isTruthy, hcomment.ne_empty]
  have hbreak : ∀ piece ∈ pieces, '\n' ∉ piece := by
    intro piece hpiece hmem
    exact absurd ((hpieces piece hpiece).2 _ hmem) (by decide)
  rw [Renderer.commentLines, hlookup]
  simp only [htruthy, if_true, Fragment.plain, htext, Text.splitAt_intercalate hne hbreak]

/-- An action that lasts is restored outside any block with the comment that is attached to
it. -/
theorem restores_commented (hcatalog : scope.catalog.Publishable) {fields : Fragment.Fields}
    {text : List Char} (h : LastingAction scope context (.mapping fields) text) {comment : String}
    (hcomment : IsComment comment) :
  Restores scope context inOrder Outside
    (((Toolkit.ofScope scope).renderer context).actionLines 0
      ((Fragment.mapping fields).setField "comment" (.string comment)).publish)
    (·.insertAction ((Fragment.mapping fields).setField "comment" (.string comment)))
  := by
  have hunadorned := h.unadorned fields rfl
  obtain ⟨pieces, hne, hpieces, htext⟩ := hcomment
  have hset : (Fragment.mapping fields).setField "comment" (.string comment)
      = .mapping (fields ++ [("comment", .string comment)]) := by
    rw [Fragment.setField, Table.set_of_notMem hunadorned.uncommented]
  have hfield : ∀ entry ∈ ((Toolkit.ofScope scope).renderer context).catalog.functions,
      ∀ p ∈ entry.2.parameters, p.field ≠ "comment" := by
    rw [Toolkit.renderer_ofScope]
    intro entry hentry p hp heq
    exact hcatalog.noDocumentField entry hentry p hp (by simp [heq])
  have hline : ((Toolkit.ofScope scope).renderer context).actionLine 0
      (.mapping (fields ++ [("comment", .string comment)]))
        = .ok (Renderer.indentation 0 ++ text) := by
    rw [Renderer.actionLine, Renderer.render_comment hfield h.render]
    rfl
  refine ⟨(pieces.map fun piece => Renderer.indentation 0 ++ '/' :: '/' :: ' ' :: piece)
    ++ [Renderer.indentation 0 ++ text], ?_, ?_, ?_⟩
  · rw [hset, Renderer.actionLines_published (hunadorned.comment _), hline,
      commentLines_of_isComment hunadorned hne hpieces htext]
    rfl
  · intro line hline
    rcases List.mem_append.mp hline with hline | hline
    · obtain ⟨piece, hpiece, rfl⟩ := List.mem_map.mp hline
      have hslashes : Text.Unbroken ['/', '/', ' '] := by simp [Text.Unbroken, Text.isLineBreak]
      exact (unbroken_indentation 0).append (hslashes.append (hpieces piece hpiece).2)
    · rw [List.mem_singleton.mp hline]
      exact (unbroken_indentation 0).append h.unbroken
  · have hcomment : comment = String.ofList (['\n'].intercalate pieces) := by
      rw [← htext, String.ofList_toList]
    rw [hcomment]
    exact rereads_commented h hne (fun piece hpiece => (hpieces piece hpiece).1) 0

/-! ### Trees -/

/-- What lasts of a tree: its actions on lines of their own, and the conditions of its blocks,
none of which is missing if everything is in order. -/
def Lasting (scope : Parse.Scope) (context : Context) (inOrder : Prop) (tree : Tree) : Prop :=
  tree.All (fun p => ∃ text, LastingAction scope context p text)
    (fun c => (∀ f ∈ c, ∃ text, Lasts scope context booleanType f text) ∧ (inOrder → c.isSome))

/-- The second branch of a block is rendered as lines that fill it. -/
theorem Restores.exists_elseLines {trees : List Tree} {depth : Nat}
    (h : Restores scope context inOrder Ready
      (((Toolkit.ofScope scope).renderer context).listLines (depth + 1)
        (Fragment.publishAll (Tree.fragments trees)))
      (insertActions (Tree.fragments trees))) :
  ∃ lines, ((Toolkit.ofScope scope).renderer context).elseLines depth
      (Fragment.publishAll (Tree.fragments trees)) = .ok lines
    ∧ (∀ line ∈ lines, Text.Unbroken line) ∧ FillsElse scope context inOrder lines trees
  := by
  cases trees with
  | nil => exact ⟨[], rfl, by simp, .empty⟩
  | cons tree rest =>
    obtain ⟨lines, hlines, hunbroken, hrereads⟩ := h
    refine ⟨(Renderer.indentation depth ++ "else".toList) :: lines, ?_, ?_,
      hrereads.fillsElse depth⟩
    · rw [Renderer.elseLines, if_neg (by simp [Tree.fragments, Fragment.publishAll]), hlines]
      rfl
    · have helse : Text.Unbroken "else".toList := by simp [Text.Unbroken, Text.isLineBreak]
      exact List.forall_mem_cons.mpr ⟨(unbroken_indentation depth).append helse, hunbroken⟩

/-- A tree is rendered as lines that insert it. -/
theorem restores_tree {tree : Tree} (h : Lasting scope context inOrder tree) (depth : Nat) :
  Restores scope context inOrder Ready
    (((Toolkit.ofScope scope).renderer context).actionLines depth tree.fragment.publish)
    (·.insertAction tree.fragment)
  := by
  induction h generalizing depth with
  | @action f h =>
    obtain ⟨text, htext⟩ := h
    rw [Tree.fragment]
    exact restores_action htext depth
  | @block c thenTrees elseTrees hcondition hthen helse ihthen ihelse =>
    have hbranch : ∀ trees : List Tree,
        (∀ tree ∈ trees, ∀ depth, Restores scope context inOrder Ready
          (((Toolkit.ofScope scope).renderer context).actionLines depth tree.fragment.publish)
          (·.insertAction tree.fragment)) →
        Restores scope context inOrder Ready
          (((Toolkit.ofScope scope).renderer context).listLines (depth + 1)
            (Fragment.publishAll (Tree.fragments trees)))
          (insertActions (Tree.fragments trees)) := by
      intro trees htrees
      apply restores_listLines fun _ action hready => hready.insertAction action
      intro action haction
      rw [Tree.fragments_eq_map] at haction
      obtain ⟨tree, htree, rfl⟩ := List.mem_map.mp haction
      exact htrees tree htree (depth + 1)
    obtain ⟨first, hfirst, hunbroken, hopens⟩ := exists_blockLine hcondition.1 depth
    obtain ⟨thenLines, hthenLines, hunbroken', hrereads⟩ := hbranch thenTrees ihthen
    obtain ⟨elseLines, helseLines, hunbroken'', hfills⟩ := (hbranch elseTrees ihelse).exists_elseLines
    have hend : Text.Unbroken "end".toList := by simp [Text.Unbroken, Text.isLineBreak]
    refine ⟨_, ?_, ?_, rereads_block hopens hcondition.2 hrereads hfills depth⟩
    · have hlines := Renderer.actionLines_block ((Toolkit.ofScope scope).renderer context) depth
        (c.getD .null) (Fragment.publishAll (Tree.fragments thenTrees))
        (Fragment.publishAll (Tree.fragments elseTrees))
      rw [hfirst, hthenLines, helseLines] at hlines
      rw [Tree.fragment]
      exact (congrArg _ (Fragment.publish_block _ _ _)).trans hlines
    · simp only [List.forall_mem_cons, List.forall_mem_append]
      exact ⟨hunbroken, hunbroken', hunbroken'', (unbroken_indentation depth).append hend, by simp⟩

/-- Trees are rendered outside any block as lines that insert them, with the comments that are
attached to them. -/
theorem restores_trees (hcatalog : scope.catalog.Publishable) {actions : List Fragment}
    {trees : List Tree} (hcarries : List.Forall₂ Carries actions trees)
    (h : ∀ tree ∈ trees, Lasting scope context inOrder tree) :
  Restores scope context inOrder Outside
    (((Toolkit.ofScope scope).renderer context).listLines 0 (Fragment.publishAll actions))
    (insertActions actions)
  := by
  apply restores_listLines fun _ action houtside => houtside.insertAction action
  intro action haction
  obtain ⟨tree, htree, hcarries⟩ := exists_tree_of_mem hcarries haction
  cases hcarries with
  | bare =>
    obtain ⟨lines, hlines, hunbroken, hrereads⟩ := restores_tree (h tree htree) 0
    exact ⟨lines, hlines, hunbroken, hrereads.imp (fun _ => Outside.ready) fun _ _ => rfl⟩
  | @commented f comment hmapping hcomment =>
    cases h _ htree with
    | action haction =>
      obtain ⟨text, htext⟩ := haction
      obtain ⟨fields, rfl⟩ : ∃ fields, f = .mapping fields := by
        cases f <;> first | exact ⟨_, rfl⟩ | cases hmapping
      exact restores_commented hcatalog htext hcomment

end TriggerLang.Script
