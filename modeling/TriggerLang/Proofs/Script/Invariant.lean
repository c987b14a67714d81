import TriggerLang.Proofs.Script.Outline

/-!
# Properties of all parts of a script

What holds of every action and every condition that is accepted while a script is read holds
of those in the trees that it is read as.
-/

namespace TriggerLang.Script

/-- All actions of the tree have a property, and the conditions of its blocks have one. -/
inductive Tree.All (action : Fragment → Prop) (condition : Option Fragment → Prop) : Tree → Prop
  | action {f : Fragment} (h : action f) : All action condition (.action f)
  | block {c : Option Fragment} {thenTrees elseTrees : List Tree} (hcondition : condition c)
      (hthen : ∀ tree ∈ thenTrees, All action condition tree)
      (helse : ∀ tree ∈ elseTrees, All action condition tree) :
      All action condition (.block c thenTrees elseTrees)

variable {action : Fragment → Prop} {condition : Option Fragment → Prop}

theorem Tree.All.imp {tree : Tree} {action' : Fragment → Prop} {condition' : Option Fragment → Prop}
    (h : tree.All action condition) (haction : ∀ f, action f → action' f)
    (hcondition : ∀ c, condition c → condition' c) :
  tree.All action' condition'
  := by
  induction h with
  | action h => exact .action (haction _ h)
  | block h _ _ ihthen ihelse => exact .block (hcondition _ h) ihthen ihelse

/-- The action or the condition that the item holds has its property. -/
def Item.All (action : Fragment → Prop) (condition : Option Fragment → Prop) : Item → Prop
  | .action accepted => ∀ f ∈ accepted, action f
  | .opening _ c => condition c
  | _ => True

theorem OpenPart.put_all {part : OpenPart} {trees : List Tree}
    (h : part.tree.All action condition) (htrees : ∀ tree ∈ trees, tree.All action condition) :
  (part.put trees).tree.All action condition
  := by
  rw [tree] at h
  cases h with
  | block hcondition hthen helse =>
    rw [tree, put]
    split
    · refine .block hcondition hthen ?_
      rw [List.forall_mem_append]
      exact ⟨helse, htrees⟩
    · refine .block hcondition ?_ helse
      rw [List.forall_mem_append]
      exact ⟨hthen, htrees⟩

namespace Outline

/-- All actions and conditions of the outline have their properties. -/
structure All (action : Fragment → Prop) (condition : Option Fragment → Prop)
    (outline : Outline) : Prop where
  trees : ∀ tree ∈ outline.trees, tree.All action condition
  openParts : ∀ part ∈ outline.openParts, part.tree.All action condition

theorem All.empty :
  All action condition {}
  := by
  constructor
  · intro tree htree
    cases htree
  · intro part hpart
    cases hpart

theorem All.grow {outline : Outline} (h : outline.All action condition) {trees : List Tree}
    (htrees : ∀ tree ∈ trees, tree.All action condition) (issues : List Diagnostic) :
  (outline.grow trees issues).All action condition
  := by
  obtain ⟨outer, parts, others⟩ := outline
  cases parts with
  | nil =>
    refine ⟨?_, h.openParts⟩
    exact List.forall_mem_append.mpr ⟨h.trees, htrees⟩
  | cons part rest =>
    have hopen := List.forall_mem_cons.mp h.openParts
    exact ⟨h.trees, List.forall_mem_cons.mpr ⟨OpenPart.put_all hopen.1 htrees, hopen.2⟩⟩

theorem All.add {outline : Outline} (h : outline.All action condition) {item : Item}
    (hitem : item.All action condition) :
  (outline.add item).All action condition
  := by
  have hnil : ∀ tree ∈ ([] : List Tree), tree.All action condition := by simp
  cases item with
  | trigger accepted => exact h
  | action accepted =>
    apply h.grow
    intro tree htree
    obtain ⟨f, hf, rfl⟩ := List.mem_map.mp htree
    exact .action (hitem f (Option.mem_toList.mp hf))
  | opening keyword c =>
    exact ⟨h.trees, List.forall_mem_cons.mpr ⟨.block hitem hnil hnil, h.openParts⟩⟩
  | elseLine keyword =>
    obtain ⟨trees, parts, issues⟩ := outline
    cases parts with
    | nil => exact h.grow hnil _
    | cons part rest =>
      have hopen := List.forall_mem_cons.mp h.openParts
      simp only [Outline.add]
      split
      · exact h.grow hnil _
      · exact ⟨h.trees, List.forall_mem_cons.mpr ⟨hopen.1, hopen.2⟩⟩
  | endLine keyword =>
    obtain ⟨trees, parts, issues⟩ := outline
    cases parts with
    | nil => exact h.grow hnil _
    | cons part rest =>
      have hopen := List.forall_mem_cons.mp h.openParts
      have hrest : All action condition ⟨trees, rest, issues⟩ := ⟨h.trees, hopen.2⟩
      apply hrest.grow
      intro tree htree
      obtain rfl := List.mem_singleton.mp htree
      exact hopen.1

theorem All.foldl {outline : Outline} (h : outline.All action condition) {lines : List Item}
    (hlines : ∀ item ∈ lines, item.All action condition) :
  (lines.foldl Outline.add outline).All action condition
  := by
  induction lines generalizing outline with
  | nil => exact h
  | cons item rest ih =>
    obtain ⟨hitem, hrest⟩ := List.forall_mem_cons.mp hlines
    exact ih (h.add hitem) hrest

end Outline

end TriggerLang.Script
