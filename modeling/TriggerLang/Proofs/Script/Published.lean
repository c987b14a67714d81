import TriggerLang.Proofs.Script.Rebuild
import TriggerLang.Proofs.Script.Total

/-!
# Rendering documents before they are published

Publishing a document renames the field of the function of every action, down through the branches
of its blocks, but not in arguments and conditions; rendering renames it back.  So a document is
rendered to the same text before its actions are published and afterwards.  Whether an action is
published is told from its fields, so that no argument may stand under the name of one of these.
-/

namespace TriggerLang

open Fragment (Bare)

/-- The document is rendered to a text, and to the same text once its actions are published. -/
def Document.RendersAsPublished (document : Document) (renderer : Renderer) : Prop :=
  ∃ text, renderer.renderDocument document.toFragment = .ok text
    ∧ renderer.renderDocument document.publish.toFragment = .ok text

/-! ### Rows of actions -/

namespace Renderer

variable (renderer : Renderer)

/-- Actions that are rendered alike one by one are rendered alike in a row. -/
theorem listLines_publishAll {depth : Nat} {actions : List Fragment}
    (h : ∀ action ∈ actions,
      renderer.actionLines depth action.publish = renderer.actionLines depth action) :
  renderer.listLines depth (Fragment.publishAll actions) = renderer.listLines depth actions
  := by
  induction actions with
  | nil => rw [Fragment.publishAll]
  | cons action rest ih =>
    obtain ⟨haction, hrest⟩ := List.forall_mem_cons.mp h
    rw [Fragment.publishAll, listLines, listLines, haction, ih hrest]

theorem elseLines_publishAll {depth : Nat} {actions : List Fragment}
    (h : renderer.listLines (depth + 1) (Fragment.publishAll actions)
      = renderer.listLines (depth + 1) actions) :
  renderer.elseLines depth (Fragment.publishAll actions) = renderer.elseLines depth actions
  := by
  rw [elseLines, elseLines, h]
  cases actions <;> rfl

/-- A document of actions that are rendered alike is rendered alike. -/
theorem renderDocument_publish {document : Document}
    (h : ∀ action ∈ document.actions,
      renderer.actionLines 0 action.publish = renderer.actionLines 0 action) :
  renderer.renderDocument document.publish.toFragment = renderer.renderDocument document.toFragment
  := by
  rw [renderDocument, renderDocument, documentLines_toFragment, documentLines_toFragment]
  simp only [Document.publish, renderer.listLines_publishAll h]

end Renderer

/-! ### Trees -/

namespace Script

variable {renderer : Renderer}

/-- A tree of actions without fields of documents is rendered alike, however deep its blocks are. -/
theorem Tree.All.actionLines_publish {condition : Option Fragment → Prop} {tree : Tree}
    (h : tree.All Bare condition) (depth : Nat) :
  renderer.actionLines depth tree.fragment.publish = renderer.actionLines depth tree.fragment
  := by
  induction h generalizing depth with
  | action h =>
    rw [Tree.fragment]
    exact h.actionLines_publish renderer depth
  | @block c thenTrees elseTrees _ _ _ ihthen ihelse =>
    have hbranch : ∀ trees : List Tree,
        (∀ tree ∈ trees, ∀ depth, renderer.actionLines depth tree.fragment.publish
          = renderer.actionLines depth tree.fragment) →
        renderer.listLines (depth + 1) (Fragment.publishAll (Tree.fragments trees))
          = renderer.listLines (depth + 1) (Tree.fragments trees) := by
      intro trees htrees
      apply renderer.listLines_publishAll
      intro action haction
      rw [Tree.fragments_eq_map] at haction
      obtain ⟨tree, htree, rfl⟩ := List.mem_map.mp haction
      exact htrees tree htree (depth + 1)
    rw [Tree.fragment, ← Fragment.blockFields, Fragment.publish_block,
      renderer.actionLines_block, renderer.actionLines_block, hbranch thenTrees ihthen,
      renderer.elseLines_publishAll (hbranch elseTrees ihelse)]

/-- So is an action that carries a comment. -/
theorem Carries.actionLines_publish {condition : Option Fragment → Prop} {action : Fragment}
    {tree : Tree} (hcarries : Carries action tree) (h : tree.All Bare condition) (depth : Nat) :
  renderer.actionLines depth action.publish = renderer.actionLines depth action
  := by
  cases hcarries with
  | bare => exact h.actionLines_publish depth
  | @commented f comment hmapping =>
    cases h with
    | action h =>
      cases f with
      | mapping fields =>
        have hunadorned := h fields rfl
        rw [Fragment.setField, Table.set_of_notMem hunadorned.uncommented]
        exact renderer.actionLines_publish (hunadorned.comment _) depth
      | _ => cases hmapping

end Script

/-! ### Scripts -/

/-- A catalog that leaves alone what documents are written with is harmless. -/
theorem Catalog.Publishable.harmless {catalog : Catalog} (h : catalog.Publishable) :
  catalog.Harmless
  := by
  constructor
  · exact h.noCalculate
  · intro entry hentry p hp hmem
    simp only [List.mem_cons, List.not_mem_nil, or_false] at hmem
    rcases hmem with hfunction | htype
    · exact h.noFunctionField entry hentry p hp hfunction
    · exact h.noDocumentField entry hentry p hp (by simp [htype])
  · intro entry hentry _ p hp hthen
    exact h.noDocumentField entry hentry p hp (by simp [hthen])

namespace Script

variable {scope : Parse.Scope} {context : Context}

/-- What the line of an action is accepted as has no fields of documents. -/
theorem bare_of_accepted (hcatalog : scope.catalog.Publishable) {line : List Char}
    {expected : String} {p : Fragment} (htrimmed : Text.Trimmed line)
    (hkind : (classifyLine line).kind = .action)
    (h : (evaluate (.ofScope scope) context (classifyLine line).body expected).accepted?
      = some p) :
  Bare p
  := by
  obtain ⟨f, ts, hderives, hkeeps⟩ := exists_derives_of_accepted htrimmed hkind h
  exact hkeeps.unadorned (hderives.unadorned hcatalog)

/-- What an item holds has no reserved fields, and its action has none of documents. -/
theorem Item.all_bare_of_ofLine? (hcatalog : scope.catalog.Publishable) {line : Text.Line}
    {item : Item} (h : Item.ofLine? (.ofScope scope) context line = some item) :
  item.All (fun f => f.Unreserved ∧ Bare f) fun c => ∀ f ∈ c, f.Unreserved
  := by
  rcases Item.of_ofLine? h with ⟨-, rfl⟩ | ⟨hkind, rfl⟩ | ⟨-, keyword, rfl⟩ | ⟨keyword, rfl⟩ |
    ⟨keyword, rfl⟩
  · trivial
  · intro f hf
    exact ⟨unreserved_of_accepted hf,
      bare_of_accepted hcatalog (trimmed_of_kind (by simp [hkind])) hkind hf⟩
  · exact fun f hf => unreserved_of_accepted hf
  · trivial
  · trivial

variable {identity : Identity} {script : List Char}

/-- The actions of a script's document are rendered alike before they are published and
afterwards. -/
theorem actionLines_publish_of_mem (hcatalog : scope.catalog.Publishable) {action : Fragment}
    (h : action
      ∈ (readScript (.ofScope scope) context identity script).assembler.document.actions)
    (renderer : Renderer) (depth : Nat) :
  renderer.actionLines depth action.publish = renderer.actionLines depth action
  := by
  obtain ⟨assembled, hassembled, rfl⟩ := List.mem_map.mp h
  have hitems : ∀ item ∈ items (.ofScope scope) context script,
      item.All (fun f => f.Unreserved ∧ Bare f) fun c => ∀ f ∈ c, f.Unreserved := by
    intro item hitem
    obtain ⟨line, -, hline⟩ := List.mem_filterMap.mp hitem
    exact Item.all_bare_of_ofLine? hcatalog hline
  obtain ⟨trees, hcarries, htrees⟩ := exists_trees_of_items scope context identity script hitems
  obtain ⟨tree, htree, hcarried⟩ := exists_tree_of_mem hcarries hassembled
  have hunreserved := ((htrees tree htree).imp (fun _ h => h.1) fun _ h => h).unreserved
  have hbare : tree.All Bare fun c => ∀ f ∈ c, f.Unreserved :=
    (htrees tree htree).imp (fun _ h => h.2) fun _ h => h
  rw [Fragment.stripReserved_of_unreserved (hcarried.unreserved hunreserved)]
  exact hcarried.actionLines_publish hbare depth

/-- The document of a script is rendered to a text, by any renderer and however deep its blocks
are, and to the same text once its actions are published. -/
theorem renderDocument_readScript (hcatalog : scope.catalog.Publishable) (renderer : Renderer)
    (context : Context) (identity : Identity) (script : List Char) :
  (readScript (.ofScope scope) context identity script).assembler.document.RendersAsPublished renderer
  := by
  obtain ⟨lines, hlines⟩ :=
    exists_documentLines_of_renderer hcatalog.harmless renderer context identity script
  refine ⟨['\n'].intercalate lines, ?_⟩
  have halike := renderer.renderDocument_publish fun action haction =>
    @actionLines_publish_of_mem scope context identity script hcatalog action haction renderer 0
  rw [← halike, and_self, Renderer.renderDocument, hlines]
  rfl

/-- A script with a block in the second branch of another one, and with a comment. -/
def nestedScript : List Char :=
  "@gameStart\n//go\nrunScript(Knight)\nif true\nelse\nif 1<2\nrunScript(Knight)\nend\nend".toList

/-- The document of a nested script is rendered to the same text once its actions are published. -/
theorem renderDocument_readScript_nestedScript :
  (readScript (.ofScope {}) knightContext ⟨"", "", 0, .null, false⟩
    nestedScript).assembler.document.RendersAsPublished ⟨.builtin, knightContext.bareWords⟩
  := by
  have hcatalog : Catalog.builtin.Publishable :=
    ⟨⟨by decide, by decide, by decide⟩, by decide, by decide, by decide⟩
  exact @renderDocument_readScript {} hcatalog _ _ _ nestedScript

end Script

end TriggerLang
