import TriggerLang.Catalog.Reader
import TriggerLang.Proofs.Catalog.Harmless
import TriggerLang.Proofs.Script.Accepted
import TriggerLang.Proofs.Script.Structure

/-!
# Building cannot fail

A script can be built with any catalog that leaves alone the names by which fragments are told
apart, whatever the script and its context: a line with which something is wrong is reported,
and everything else in the document can be rendered.
-/

namespace TriggerLang

/-! ### Accepted lines -/

/-- No literal that is put into an action makes it a trigger. -/
theorem derives_of_upToLiteral {scope : Parse.Scope} {line source : List Char} {f : Fragment}
    (hkind : (classifyLine line).kind = .action) (htrimmed : Text.Trimmed line)
    (hsource : Substitution.UpToLiteral line source) (h : parseLine scope source = .ok f) :
  Grammar.Derives scope (.value .expression f) ((significantTokens source).map Token.terminal)
  := by
  obtain ⟨hcomment, hat, -⟩ := of_classifyLine_kind_action hkind
  obtain ⟨c, others, rfl, hblank⟩ := htrimmed.starts
  obtain ⟨d, rest, rfl, hsignificant, hd⟩ : ∃ d rest, source = d :: rest
      ∧ (Lexeme.first d rest).kind.isSignificant = true ∧ d ≠ '@' := by
    have hsign : c ≠ '@' := by
      rintro rfl
      exact hat rfl
    rcases hsource with rfl | ⟨before, after, hbefore, rfl⟩
    · exact ⟨c, others, rfl,
        Lexeme.isSignificant_first hblank fun h => hcomment (isPrefixOf_slashes h), hsign⟩
    · -- the kept text starts neither like a trigger nor like a comment, nor does a literal
      cases before with
      | nil =>
        exact ⟨'"', after, rfl, Lexeme.isSignificant_first (by decide) (by simp), by decide⟩
      | cons first kept =>
        obtain ⟨rfl, hkept⟩ := List.cons_prefix_cons.mp hbefore
        refine ⟨first, kept ++ '"' :: after, rfl, Lexeme.isSignificant_first hblank ?_, hsign⟩
        rintro ⟨rfl, hslash⟩
        cases kept with
        | nil => cases hslash
        | cons second kept =>
          cases hslash
          obtain ⟨more, rfl⟩ := hkept
          exact hcomment (isPrefixOf_slashes ⟨rfl, rfl⟩)
  have hline := Grammar.derivesLine_of_parseLine h
  obtain ⟨tokens, htokens⟩ := exists_significantTokens_cons hsignificant
  rw [htokens, List.map_cons] at hline ⊢
  generalize htail : tokens.map Token.terminal = tail at hline ⊢
  cases hline with
  | expression hderives => exact hderives
  | trigger hat => exact absurd (Lexeme.eq_of_first_kind_at hat) hd

/-- What is accepted is what the expression is evaluated to. -/
theorem Outcome.fragment_of_accepted? {outcome : Outcome} {f : Fragment}
    (h : outcome.accepted? = some f) :
  outcome.fragment = some f
  := by
  rw [accepted?] at h
  split at h
  · exact h
  · cases h

/-- What processing keeps of a fragment holds of what the fragment is kept as. -/
theorem Keeps.preserves {scope : Parse.Scope} {context : Context} {expected : String}
    {f p : Fragment} {q : Fragment → Prop} (hkeeps : Keeps scope context expected f p) (h : q f)
    (hprocess : q f → q (f.postProcess context.sideTable)) :
  q p
  := by
  cases hkeeps with
  | primitive => exact h
  | processed => exact hprocess h

namespace Script

open Fragment (Performable Renderable)

variable {scope : Parse.Scope} {context : Context}

/-- What the line of an action is accepted as is kept of an expression. -/
theorem exists_derives_of_accepted {line : List Char} {expected : String} {p : Fragment}
    (htrimmed : Text.Trimmed line) (hkind : (classifyLine line).kind = .action)
    (h : (evaluate (.ofScope scope) context (classifyLine line).body expected).accepted?
      = some p) :
  ∃ f ts, Grammar.Derives scope (.value .expression f) ts ∧ Keeps scope context expected f p
  := by
  rw [(of_classifyLine_kind_action hkind).2.2, evaluate, accepted?_evaluateSource_iff] at h
  obtain ⟨f, hparse, hkeeps⟩ := h
  exact ⟨f, _, derives_of_upToLiteral hkind htrimmed
    (Substitution.upToLiteral_applyAll context.substitutions line) hparse, hkeeps⟩

section

variable (hcatalog : scope.catalog.Harmless)

include hcatalog

/-- What an expression is evaluated to can be rendered, also if it does not have the type that it
should have. -/
theorem renderable_of_fragment {source : List Char} {expected : String} {f : Fragment}
    (h : (evaluate (.ofScope scope) context source expected).fragment = some f) :
  f.Renderable
  := by
  rw [evaluate] at h
  cases hparse : parseLine scope (Substitution.applyAll context.substitutions source) with
  | error e =>
    simp only [evaluateSource, Toolkit.ofScope, hparse, Except.mapError] at h
    cases h
  | ok parsed =>
    have hrenderable := (Grammar.derivesLine_of_parseLine hparse).renderable hcatalog
    rw [evaluateSource_of_ok hparse] at h
    split at h
    · cases h
      exact hrenderable
    · cases h
      exact hrenderable.strip context.sideTable ""

/-- What is accepted can be rendered. -/
theorem renderable_of_accepted {source : List Char} {expected : String} {p : Fragment}
    (h : (evaluate (.ofScope scope) context source expected).accepted? = some p) :
  p.Renderable
  := renderable_of_fragment hcatalog (Outcome.fragment_of_accepted? h)

/-- What the line of an action is accepted as can be performed. -/
theorem performable_of_accepted {line : List Char} {expected : String} {p : Fragment}
    (htrimmed : Text.Trimmed line) (hkind : (classifyLine line).kind = .action)
    (h : (evaluate (.ofScope scope) context (classifyLine line).body expected).accepted?
      = some p) :
  p.Performable
  := by
  obtain ⟨f, ts, hderives, hkeeps⟩ := exists_derives_of_accepted htrimmed hkind h
  have hperformable : f.Performable := hderives.performable hcatalog
  exact hkeeps.preserves hperformable fun h => h.strip context.sideTable ""

/-- The trigger and the condition of a line can be rendered, and its action can be performed. -/
theorem Item.performable_of_ofLine? {line : Text.Line} {item : Item}
    (h : Item.ofLine? (.ofScope scope) context line = some item) :
  item.All Performable (fun c => ∀ f ∈ c, f.Renderable)
    ∧ ∀ f ∈ item.trigger?, ∃ text, Renderer.triggerLine f = .ok text
  := by
  rcases Item.of_ofLine? h with ⟨hkind, rfl⟩ | ⟨hkind, rfl⟩ | ⟨-, keyword, rfl⟩ | ⟨keyword, rfl⟩ |
    ⟨keyword, rfl⟩
  · refine ⟨trivial, fun f hf => ?_⟩
    obtain ⟨name, rfl⟩ := eq_of_accepted_trigger hkind hf
    exact ⟨_, rfl⟩
  · have htrimmed : Text.Trimmed (Text.trim line.text) := trimmed_of_kind (by simp [hkind])
    exact ⟨fun f hf => performable_of_accepted hcatalog htrimmed hkind hf, nofun⟩
  · exact ⟨fun f hf => renderable_of_accepted hcatalog hf, nofun⟩
  · exact ⟨trivial, nofun⟩
  · exact ⟨trivial, nofun⟩

end

/-! ### Trees -/

variable (renderer : Renderer)

theorem exists_listLines {depth : Nat} {actions : List Fragment}
    (h : ∀ action ∈ actions, ∃ lines, renderer.actionLines depth action.publish = .ok lines) :
  ∃ lines, renderer.listLines depth (Fragment.publishAll actions) = .ok lines
  := by
  induction actions with
  | nil => exact ⟨[], by rw [Fragment.publishAll, Renderer.listLines]⟩
  | cons action rest ih =>
    obtain ⟨⟨lines, hlines⟩, hrest⟩ := List.forall_mem_cons.mp h
    obtain ⟨others, hothers⟩ := ih hrest
    rw [Fragment.publishAll, Renderer.listLines, hlines, hothers]
    exact ⟨_, rfl⟩

theorem exists_elseLines {depth : Nat} {actions : List Fragment}
    (h : ∃ lines, renderer.listLines (depth + 1) actions = .ok lines) :
  ∃ lines, renderer.elseLines depth actions = .ok lines
  := by
  obtain ⟨lines, hlines⟩ := h
  rw [Renderer.elseLines, hlines]
  split
  · exact ⟨[], rfl⟩
  · exact ⟨_, rfl⟩

/-- A block is rendered with any condition that can be rendered, and without one. -/
theorem exists_blockLine_of_renderable {condition : Option Fragment}
    (h : ∀ f ∈ condition, f.Renderable) (depth : Nat) :
  ∃ line, renderer.blockLine depth (condition.getD .null) = .ok line
  := by
  have hrender : ∃ text, renderer.render (condition.getD .null) = .ok text := by
    cases condition with
    | none =>
      rw [Option.getD_none, Renderer.render, Renderer.rendered]
      exact ⟨_, rfl⟩
    | some f => exact (h f rfl).exists_render renderer
  obtain ⟨text, htext⟩ := hrender
  rw [Renderer.blockLine, htext]
  exact ⟨_, rfl⟩

/-- A tree of such actions and conditions is rendered. -/
theorem Tree.All.exists_actionLines {tree : Tree}
    (h : tree.All Performable (fun c => ∀ f ∈ c, f.Renderable)) (depth : Nat) :
  ∃ lines, renderer.actionLines depth tree.fragment.publish = .ok lines
  := by
  induction h generalizing depth with
  | action h =>
    rw [Tree.fragment]
    exact h.exists_actionLines renderer depth
  | @block c thenTrees elseTrees hcondition _ _ ihthen ihelse =>
    have hbranch : ∀ trees : List Tree,
        (∀ tree ∈ trees, ∀ depth,
          ∃ lines, renderer.actionLines depth tree.fragment.publish = .ok lines) →
        ∃ lines, renderer.listLines (depth + 1) (Fragment.publishAll (Tree.fragments trees))
          = .ok lines := by
      intro trees htrees
      apply exists_listLines
      intro action haction
      rw [Tree.fragments_eq_map] at haction
      obtain ⟨tree, htree, rfl⟩ := List.mem_map.mp haction
      exact htrees tree htree (depth + 1)
    obtain ⟨first, hfirst⟩ := exists_blockLine_of_renderable renderer hcondition depth
    obtain ⟨thenLines, hthenLines⟩ := hbranch thenTrees ihthen
    obtain ⟨elseLines, helseLines⟩ := exists_elseLines renderer (hbranch elseTrees ihelse)
    have hlines := renderer.actionLines_block depth (c.getD .null)
      (Fragment.publishAll (Tree.fragments thenTrees))
      (Fragment.publishAll (Tree.fragments elseTrees))
    rw [hfirst, hthenLines, helseLines] at hlines
    rw [Tree.fragment]
    exact ⟨_, (congrArg _ (Fragment.publish_block _ _ _)).trans hlines⟩

/-- An action of a document is rendered, with the comment that may be attached to it. -/
theorem Carries.exists_actionLines {action : Fragment} {tree : Tree}
    (hcarries : Carries action tree) (h : tree.All Performable (fun c => ∀ f ∈ c, f.Renderable))
    (depth : Nat) :
  ∃ lines, renderer.actionLines depth action.publish = .ok lines
  := by
  cases hcarries with
  | bare => exact h.exists_actionLines renderer depth
  | @commented f comment =>
    cases h with
    | action h => exact (h.setField (by decide) comment).exists_actionLines renderer depth

/-! ### Whole scripts -/

/-- What is found wrong with a line is reported at the end. -/
theorem found_subset_allDiagnostics {toolkit : Toolkit} {identity : Identity} {script : List Char}
    {before after : List Text.Line} {line : Text.Line}
    (hlines : Text.numberedLines script = before ++ line :: after) :
  Progress.found toolkit context
      (Progress.addLines toolkit context { assembler := { identity } } before).openBlocks line
    ⊆ (readScript toolkit context identity script).allDiagnostics
  := by
  let reached : Progress := Progress.addLines toolkit context { assembler := { identity } } before
  let past := reached.addLine toolkit context line
  have hread : readScript toolkit context identity script
      = past.addLines toolkit context after := by
    rw [readScript, hlines, Progress.addLines, List.foldl_append]
    rfl
  obtain ⟨es, -, hrest⟩ := Progress.exists_addLines_withDiagnostics toolkit context past after
  have hdiagnostics : (readScript toolkit context identity script).diagnostics
      = reached.diagnostics ++ Progress.found toolkit context reached.openBlocks line ++ es := by
    rw [hread, ← Progress.diagnostics_addLine]
    exact congrArg Progress.diagnostics (hrest past.diagnostics)
  intro d hd
  apply (List.mergeSort_perm _ _).mem_iff.mpr
  apply List.mem_append_left
  rw [hdiagnostics]
  exact List.mem_append_left es (List.mem_append_right _ hd)

/-- What has been read of a script with a harmless catalog can be rendered, by any renderer. -/
theorem exists_documentLines_of_renderer (hcatalog : scope.catalog.Harmless) (renderer : Renderer)
    (context : Context) (identity : Identity) (script : List Char) :
  ∃ lines, renderer.documentLines
    (readScript (.ofScope scope) context identity script).assembler.document.publish.toFragment
      = .ok lines
  := by
  have hitems : ∀ item ∈ items (.ofScope scope) context script,
      item.All Performable (fun c => ∀ f ∈ c, f.Renderable)
        ∧ ∀ f ∈ item.trigger?, ∃ text, Renderer.triggerLine f = .ok text := by
    intro item hitem
    obtain ⟨line, -, hline⟩ := List.mem_filterMap.mp hitem
    exact Item.performable_of_ofLine? hcatalog hline
  have htriggers : ∀ f ∈ (readScript (.ofScope scope) context identity script).assembler.triggers,
      ∃ text, Renderer.triggerLine f = .ok text := by
    intro f hf
    rw [triggers_readScript] at hf
    obtain ⟨item, hitem, hf⟩ := List.mem_filterMap.mp hf
    exact (hitems item hitem).2 f hf
  have hactions : ∀ f ∈ (readScript (.ofScope scope) context identity script).assembler.actions,
      ∃ lines, renderer.actionLines 0 f.publish = .ok lines := by
    obtain ⟨trees, hcarries, htrees⟩ :=
      exists_trees_of_items scope context identity script fun item hitem => (hitems item hitem).1
    intro f hf
    obtain ⟨tree, htree, hcarried⟩ := exists_tree_of_mem hcarries hf
    exact hcarried.exists_actionLines _ (htrees tree htree) 0
  obtain ⟨triggerLines, htriggerLines⟩ := Renderer.exists_mapM htriggers
  obtain ⟨actionLines, hactionLines⟩ := exists_listLines _ hactions
  refine ⟨triggerLines ++ actionLines, ?_⟩
  rw [Renderer.documentLines_eq_ok_iff, publish_readScript]
  exact ⟨triggerLines, htriggerLines, actionLines, hactionLines, rfl⟩

theorem exists_documentLines (hcatalog : scope.catalog.Harmless) (context : Context)
    (identity : Identity) (script : List Char) :
  ∃ lines, ((Toolkit.ofScope scope).renderer context).documentLines
    (readScript (.ofScope scope) context identity script).assembler.document.publish.toFragment
      = .ok lines
  := exists_documentLines_of_renderer hcatalog _ context identity script

/-- Any script can be built with a harmless catalog, and what is found wrong with its lines is
reported. -/
theorem exists_buildScript (hcatalog : scope.catalog.Harmless) (context : Context)
    (identity : Identity) (script : List Char) :
  ∃ build, buildScript (.ofScope scope) context identity script = .ok build
    ∧ ∀ before line after, Text.numberedLines script = before ++ line :: after →
      Progress.found (.ofScope scope) context
          (Progress.addLines (.ofScope scope) context { assembler := { identity } }
            before).openBlocks line
        ⊆ build.diagnostics
  := by
  obtain ⟨lines, hlines⟩ := exists_documentLines hcatalog context identity script
  refine ⟨_, buildScript_eq_ok_iff.mpr ⟨lines, hlines, rfl⟩, ?_⟩
  intro before line after hscript
  exact found_subset_allDiagnostics hscript

/-- A catalog with names that the program uses itself: a function called like the one that reads
variables, and arguments under the names of other fields of actions. -/
def notes : Catalog where
  functions := [("getVariable", { key := "getVariable" }),
    ("note", {
      key := "note"
      parameters := [⟨"comment", anyType⟩, ⟨"then", anyType⟩, ⟨"items", anyType⟩,
        ⟨"key", anyType⟩] })]

/-- A script with a commented note, and with a line in a block that cannot be read, is built. -/
theorem exists_buildScript_notes :
  notes.Harmless
    ∧ ∃ build, buildScript (.ofScope ⟨notes, {}⟩) {} ⟨"", "", 0, .null, false⟩
        "@start\n// note\nnote(1, 2 == 3, 1 + 2, getVariable)\nif getVariable\nghost\nend".toList
          = .ok build
      ∧ ∀ before line after, Text.numberedLines
          "@start\n// note\nnote(1, 2 == 3, 1 + 2, getVariable)\nif getVariable\nghost\nend".toList
            = before ++ line :: after →
        Progress.found (.ofScope ⟨notes, {}⟩) {}
            (Progress.addLines (.ofScope ⟨notes, {}⟩) {}
              { assembler := { identity := ⟨"", "", 0, .null, false⟩ } } before).openBlocks line
          ⊆ build.diagnostics
  := by
  have hcatalog : notes.Harmless := ⟨by decide, by decide, by decide⟩
  exact ⟨hcatalog, @exists_buildScript ⟨notes, {}⟩ hcatalog {} _ _⟩

/-- The data of a catalog with one function, whose arguments stand under the fields. -/
def catalogData (name : String) (fields : List String) : Fragment :=
  .mapping [("functions", .mapping [(name,
    .mapping [("params", .list (fields.map fun field => .mapping [("field", .string field)]))])])]

/-- The data is that of a catalog with which the script cannot be built. -/
def Breaks (data : Fragment) (script : List Char) : Prop :=
  ∃ catalog, Catalog.ofFragment? data = .ok catalog
    ∧ ∃ e, buildScript (.ofScope ⟨catalog, {}⟩) {} ⟨"", "", 0, .null, false⟩ script = .error e

theorem breaks_of_any {data : Fragment} {script : List Char}
    (h : ((Catalog.ofFragment? data).toOption.any fun catalog =>
      !(buildScript (.ofScope ⟨catalog, {}⟩) {} ⟨"", "", 0, .null, false⟩ script).isOk) = true) :
  Breaks data script
  := by
  cases hcatalog : Catalog.ofFragment? data with
  | error e => simp [hcatalog, Except.toOption] at h
  | ok catalog =>
    refine ⟨catalog, hcatalog, ?_⟩
    rw [hcatalog] at h
    cases hbuild : buildScript (.ofScope ⟨catalog, {}⟩) {} ⟨"", "", 0, .null, false⟩ script with
    | error e => exact ⟨e, rfl⟩
    | ok build => simp [hbuild, Except.toOption, Except.isOk, Except.toBool] at h

/-- Not every catalog that can be read is harmless: whichever condition is dropped, there is one
with which a script cannot be built. -/
theorem breaks_reservedNames :
  Breaks (catalogData "calculate" []) "calculate".toList
    ∧ Breaks (catalogData "f" ["function"]) "f(1)".toList
    ∧ Breaks (catalogData "f" ["type"]) "f(1)".toList
    ∧ Breaks (catalogData "condition" ["then"]) "condition(1)".toList
  := ⟨breaks_of_any (by decide +kernel), breaks_of_any (by decide +kernel),
    breaks_of_any (by decide +kernel), breaks_of_any (by decide +kernel)⟩

end Script

end TriggerLang
