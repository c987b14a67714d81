import TriggerLang.Proofs.Grammar.Shape
import TriggerLang.Proofs.Script.Location
import TriggerLang.Proofs.Script.Total
import TriggerLang.Proofs.Typing.Processed

/-!
# Conditions and triggers

A trigger is declared on a line that starts with the sign `@`.  Anywhere else the sign is out of
place, and a line with such a sign is reported, with one exception: where nothing but a trigger
follows the keyword `if`, it is read like a trigger on a line of its own.  It has no type, so it
is accepted as the condition of the block.  Every other condition in a document is a truth value,
a condition with an operator, or a call, or it is missing because it was refused.
-/

namespace TriggerLang

open Grammar (Shape triggerOf)

/-! ### Conditions in documents -/

/-- The fragment has the form of a condition. -/
inductive IsCondition : Fragment → Prop
  | missing : IsCondition .null
  | boolean (value : Bool) : IsCondition (.boolean value)
  | operator (op : Operator) (operandType : String) (left right : Fragment) :
      IsCondition (.list [op.header operandType, left, right])
  | call {f : Fragment} {name : String} (hname : f.functionName? = some name) : IsCondition f

/-- The published action is a block with the condition, or has such a block in one of its branches,
at any depth. -/
inductive HasCondition (condition : Fragment) : Fragment → Prop
  | here {fields : Fragment.Fields} (htype : fields.lookup "type" = some (.string "condition"))
      (hcondition : fields.lookup "conditions" = some condition) :
      HasCondition condition (.mapping fields)
  | inside {fields : Fragment.Fields} {branch : String} {actions : List Fragment}
      {action : Fragment} (hbranch : branch ∈ ["then", "else"])
      (hactions : fields.lookup branch = some (.list actions)) (haction : action ∈ actions)
      (h : HasCondition condition action) :
      HasCondition condition (.mapping fields)

/-- The action is none that could be taken for a block once it is published. -/
def Plain (action : Fragment) : Prop :=
  ∀ fields, action = .mapping fields →
    Fragment.Unadorned fields ∧ action.functionName? ≠ some "condition"

section

variable {condition : Fragment} {fields : Fragment.Fields}

theorem not_hasCondition_of_publishable (h : Fragment.Publishable fields)
    (hname : (Fragment.mapping fields).functionName? ≠ some "condition") :
  ¬ HasCondition condition (Fragment.mapping fields).publish
  := by
  rw [h.publish_eq]
  intro hcondition
  cases hcondition with
  | here htype =>
    rw [h.toUntyped.lookup_type_published] at htype
    exact hname (Fragment.functionName?_eq_some_iff.mpr htype)
  | @inside _ branch _ _ hbranch hactions =>
    have hne : branch ≠ "function" ∧ branch ≠ "type" := by
      constructor <;> rintro rfl <;> simp at hbranch
    rw [Fragment.Publishable.lookup_published hne.1 hne.2] at hactions
    have hkey : branch ∈ Table.keys fields :=
      List.mem_map_of_mem (Table.mem_of_lookup hactions)
    exact h.unpublished branch hkey (List.mem_cons_of_mem _ hbranch)

/-- There are no conditions in the action of a line. -/
theorem Plain.not_hasCondition {action : Fragment} (h : Plain action) :
  ¬ HasCondition condition action.publish
  := by
  cases action with
  | mapping fields =>
    obtain ⟨hunadorned, hname⟩ := h fields rfl
    exact not_hasCondition_of_publishable hunadorned.toPublishable hname
  | _ => rintro ⟨⟩

/-- Nor are there any if a comment is attached to the action. -/
theorem Plain.not_hasCondition_comment {action : Fragment} (h : Plain action) (comment : String) :
  ¬ HasCondition condition (action.setField "comment" (.string comment)).publish
  := by
  cases action with
  | mapping fields =>
    obtain ⟨hunadorned, hname⟩ := h fields rfl
    rw [Fragment.setField, Table.set_of_notMem hunadorned.uncommented]
    apply not_hasCondition_of_publishable (hunadorned.comment _)
    rwa [Fragment.functionName?, Fragment.get?, Renderer.lookup_comment (by decide)]
  | _ => rintro ⟨⟩

end

namespace Script

/-- The conditions in a published tree are those of its blocks. -/
theorem Tree.All.of_hasCondition {p : Fragment → Prop} {tree : Tree}
    (h : tree.All Plain (fun c => p (c.getD .null))) {condition : Fragment}
    (hcondition : HasCondition condition tree.fragment.publish) :
  p condition
  := by
  induction h with
  | action h =>
    rw [Tree.fragment] at hcondition
    exact absurd hcondition h.not_hasCondition
  | @block c thenTrees elseTrees hc _ _ ihthen ihelse =>
    have hbranch : ∀ {trees : List Tree} {action : Fragment},
        (∀ tree ∈ trees, HasCondition condition tree.fragment.publish → p condition) →
        action ∈ Fragment.publishAll (Tree.fragments trees) → HasCondition condition action →
        p condition := by
      intro trees action ih haction h
      rw [Fragment.publishAll_eq_map, Tree.fragments_eq_map, List.map_map] at haction
      obtain ⟨tree, htree, rfl⟩ := List.mem_map.mp haction
      exact ih tree htree h
    rw [Tree.fragment, ← Fragment.blockFields, Fragment.publish_block] at hcondition
    cases hcondition with
    | here _ hlookup =>
      obtain rfl := Option.some.inj hlookup
      exact hc
    | inside hname hactions haction h =>
      rcases List.mem_pair.mp hname with rfl | rfl
      · obtain rfl := Fragment.list.inj (Option.some.inj hactions)
        exact hbranch ihthen haction h
      · obtain rfl := Fragment.list.inj (Option.some.inj hactions)
        exact hbranch ihelse haction h

theorem Carries.of_hasCondition {p : Fragment → Prop} {action : Fragment} {tree : Tree}
    (hcarries : Carries action tree) (h : tree.All Plain (fun c => p (c.getD .null)))
    {condition : Fragment} (hcondition : HasCondition condition action.publish) :
  p condition
  := by
  cases hcarries with
  | bare => exact h.of_hasCondition hcondition
  | @commented f comment =>
    cases h with
    | action h => exact absurd hcondition (h.not_hasCondition_comment comment)

end Script

/-! ### Accepted lines -/

section

variable {scope : Parse.Scope} {context : Context}

/-- The line opens a block and asks for a trigger in place of a condition: nothing but the sign and
the name of the trigger follow the keyword. -/
structure Text.Line.AsksTrigger (scope : Parse.Scope) (context : Context) (line : Line)
    (name : String) : Prop where
  opens : (classifyLine (trim line.text)).kind = .blockStart
  asked : ∃ sign token, significantTokens (line.evaluated context) = [sign, token]
    ∧ sign.kind = .symbol .at ∧ token.kind = .identifier ∧ token.word = name
  known : scope.knowsTrigger name = true

/-- A line is an expression without signs of triggers, or a trigger alone. -/
theorem derives_or_of_parseLine {source : List Char} {f : Fragment}
    (h : parseLine scope source = .ok f) :
  Grammar.Derives scope (.value .expression f) ((significantTokens source).map Token.terminal)
    ∨ ∃ sign token, significantTokens source = [sign, token] ∧ sign.kind = .symbol .at
      ∧ token.kind = .identifier ∧ scope.knowsTrigger token.word = true
      ∧ f = triggerOf token.word
  := by
  have hline := Grammar.derivesLine_of_parseLine h
  generalize hts : (significantTokens source).map Token.terminal = ts at hline ⊢
  cases hline with
  | expression hderives => exact .inl hderives
  | trigger hsign hname hknown =>
    right
    obtain ⟨sign, rest, htokens, rfl, hrest⟩ := List.map_eq_cons_iff.mp hts
    obtain ⟨token, rest, rfl, rfl, hnil⟩ := List.map_eq_cons_iff.mp hrest
    obtain rfl := List.map_eq_nil_iff.mp hnil
    exact ⟨sign, token, htokens, hsign, hname, hknown, rfl⟩

/-- What an expression is accepted as where a truth value should stand has the form of a
condition. -/
theorem Keeps.isCondition {f c : Fragment} (hshape : Shape scope.catalog f)
    (hkeeps : Keeps scope context booleanType f c) :
  IsCondition c
  := by
  cases hkeeps with
  | primitive hprimitive haccepts =>
    cases f with
    | boolean value => exact .boolean value
    | integer | float =>
      have hnumber : isAssignable numberType booleanType = true := haccepts
      exact absurd hnumber (by decide)
    | string =>
      have hstring : isAssignable stringType booleanType = true := haccepts
      exact absurd hstring (by decide)
    | null | list | mapping => cases hprimitive
  | processed hprimitive =>
    cases hshape with
    | primitive h => exact absurd h (by simp [hprimitive])
    | condition op operandType left right =>
      obtain ⟨l, r, hstrip⟩ := Fragment.exists_strip_condition op operandType context.sideTable
        left right ""
      rw [Fragment.postProcess, hstrip]
      exact .operator op operandType _ _
    | call hname =>
      apply IsCondition.call
      rw [Fragment.postProcess, Fragment.functionName?_strip, hname]

/-- The condition of a block has the form of one, or it is the trigger that the line asks for. -/
theorem isCondition_or_of_accepted (hcatalog : scope.catalog.Writable) {line : Text.Line}
    (hkind : (classifyLine (Text.trim line.text)).kind = .blockStart) {c : Fragment}
    (h : (evaluate (.ofScope scope) context line.body booleanType).accepted? = some c) :
  IsCondition c ∨ ∃ name, line.AsksTrigger scope context name ∧ c = triggerOf name
  := by
  rw [evaluate, ← Text.Line.evaluated_of_ne (by simp [hkind]), accepted?_evaluateSource_iff] at h
  obtain ⟨f, hparse, hkeeps⟩ := h
  rcases derives_or_of_parseLine hparse with
    hderives | ⟨sign, token, htokens, hsign, hname, hknown, rfl⟩
  · exact .inl (hkeeps.isCondition (hderives.shape hcatalog))
  · right
    refine ⟨token.word, ⟨hkind, ⟨sign, token, htokens, hsign, hname, rfl⟩, hknown⟩, ?_⟩
    cases hkeeps with
    | primitive hprimitive => cases hprimitive
    | processed => exact postProcess_trigger _ _

/-- A trigger has no type, so it may stand wherever a truth value should. -/
theorem mismatches_trigger (catalog : Catalog) (name : String) :
  mismatches catalog (.mapping [("type", .string name)]) booleanType = []
  := by
  have hname : (Fragment.mapping [("type", .string name)]).functionName? = none := rfl
  rw [mismatches, argumentMismatches, hname]
  rfl

/-- A trigger that a line asks for is accepted as the condition of the block. -/
theorem Text.Line.AsksTrigger.evaluate_eq {line : Line} {name : String}
    (h : line.AsksTrigger scope context name) :
  evaluate (.ofScope scope) context line.body booleanType = ⟨some (triggerOf name), []⟩
  := by
  obtain ⟨hkind, ⟨sign, token, htokens, hsign, hname, rfl⟩, hknown⟩ := h
  have hparse : parseLine scope (line.evaluated context) = .ok (triggerOf token.word) := by
    apply Grammar.parseLine_of_derivesLine
    rw [htokens]
    exact @Grammar.DerivesLine.trigger scope sign.terminal token.terminal hsign hname hknown
  rw [evaluate, ← evaluated_of_ne (by simp [hkind]), evaluateSource_of_ok hparse, triggerOf,
    postProcess_trigger, checkType, mismatches_trigger]
  rfl

variable (hcatalog : scope.catalog.Publishable)

include hcatalog

/-- What the line of an action is accepted as could not be taken for a block. -/
theorem plain_of_accepted (hcondition : scope.catalog.contains "condition" = false)
    {line : List Char} {expected : String} {p : Fragment} (htrimmed : Text.Trimmed line)
    (hkind : (classifyLine line).kind = .action)
    (h : (evaluate (.ofScope scope) context (classifyLine line).body expected).accepted?
      = some p) :
  Plain p
  := by
  obtain ⟨f, ts, hderives, hkeeps⟩ := Script.exists_derives_of_accepted htrimmed hkind h
  intro fields hfields
  refine ⟨hkeeps.unadorned (hderives.unadorned hcatalog) fields hfields, ?_⟩
  have hname : f.functionName? ≠ some "condition" :=
    (hderives.shape hcatalog.toWritable).functionName?_ne hcondition (by decide)
  apply hkeeps.preserves hname
  intro hname
  rwa [Fragment.postProcess, Fragment.functionName?_strip]

end

/-! ### Stray signs -/

section

variable {scope : Parse.Scope} {context : Context} {line : Text.Line}

/-- The sign of a trigger stands in the text of a line of a kind where it is out of place: not in
a comment, nor at the start of a trigger. -/
def HasStraySign (kind : LineKind) (source : List Char) : Prop :=
  match kind with
  | .comment => False
  | .trigger => ∃ t ∈ (significantTokens source).tail, t.kind = .symbol .at
  | _ => ∃ t ∈ significantTokens source, t.kind = .symbol .at

instance (kind : LineKind) (source : List Char) : Decidable (HasStraySign kind source) :=
  match kind with
  | .comment => inferInstanceAs (Decidable False)
  | .trigger => inferInstanceAs (Decidable (∃ t ∈ (significantTokens source).tail, _))
  | .blank | .blockStart | .blockElse | .blockEnd | .action =>
    inferInstanceAs (Decidable (∃ t ∈ significantTokens source, _))

theorem HasStraySign.exists_mem {kind : LineKind} {source : List Char}
    (h : HasStraySign kind source) :
  kind ≠ .comment ∧ ∃ t ∈ significantTokens source, t.kind = .symbol .at
  := by
  cases kind with
  | comment => exact h.elim
  | trigger =>
    obtain ⟨t, ht, hsign⟩ := h
    exact ⟨nofun, t, List.mem_of_mem_tail ht, hsign⟩
  | _ => exact ⟨nofun, h⟩

theorem mem_terminals_of_mem_significantTokens {source : List Char} {t : Token}
    (h : t ∈ significantTokens source) :
  t.terminal ∈ terminals source
  := by
  have hterminal : t.terminal ∈ (significantTokens source).map Token.terminal :=
    List.mem_map_of_mem h
  rw [map_terminal_significantTokens] at hterminal
  exact (List.mem_filter.mp hterminal).1

theorem not_hasStraySign_nil (kind : LineKind) :
  ¬ HasStraySign kind []
  := by
  intro h
  obtain ⟨-, t, ht, -⟩ := h.exists_mem
  have hterminal : t.terminal ∈ terminals [] := mem_terminals_of_mem_significantTokens ht
  rw [terminals_nil] at hterminal
  cases hterminal

/-- A line in whose text a sign is out of place is one that is evaluated. -/
theorem Text.Line.kind_of_hasStraySign
    (h : HasStraySign (classifyLine (trim line.text)).kind (line.evaluated context)) :
  (classifyLine (trim line.text)).kind ∈ [.trigger, .blockStart, .action]
  := by
  cases hkind : (classifyLine (trim line.text)).kind with
  | comment => exact absurd hkind h.exists_mem.1
  | trigger | blockStart | action => simp
  | blank | blockElse | blockEnd =>
    exfalso
    have hbody : line.body = [] := body_of_classifyLine_kind (by simp [hkind])
    rw [evaluated_of_ne (by simp [hkind]), hbody, Substitution.applyAll_empty] at h
    exact not_hasStraySign_nil _ h

/-- A sign is no bare word, so it stays when these are replaced. -/
theorem exists_sign_applyAll {substitutions : List Substitution}
    (hname : ∀ s ∈ substitutions, Text.IsName s.matchToken.toList) {source : List Char}
    {t : Terminal} (ht : t ∈ terminals source) (hsign : t.kind = .symbol .at) :
  ∃ u ∈ significantTokens (Substitution.applyAll substitutions source), u.kind = .symbol .at
  := by
  have hsignificant : t.isSignificant = true := by
    rw [Terminal.isSignificant, hsign]
    rfl
  have hmem : t ∈ meaning (Substitution.literals substitutions) source :=
    mem_meaning_of_mem_terminals ht (by simp [hsign]) hsignificant
  rw [← Substitution.significantTokens_applyAll (Substitution.areBareWords_literals hname)] at hmem
  obtain ⟨u, hu, rfl⟩ := List.mem_map.mp hmem
  exact ⟨u, hu, hsign⟩

/-- A sign that is out of place in a line as it is written is out of place in what is evaluated
for the line, if all words that are replaced are names. -/
theorem Text.Line.hasStraySign_evaluated
    (hname : ∀ s ∈ context.substitutions, IsName s.matchToken.toList)
    (h : HasStraySign (classifyLine (trim line.text)).kind (trim line.text)) :
  HasStraySign (classifyLine (trim line.text)).kind (line.evaluated context)
  := by
  obtain ⟨hcomment, t, ht, hsign⟩ := h.exists_mem
  have hterminal : t.terminal ∈ terminals (trim line.text) :=
    mem_terminals_of_mem_significantTokens ht
  rw [evaluated, body]
  cases hkind : (classifyLine (trim line.text)).kind with
  | comment => exact absurd hkind hcomment
  | trigger =>
    rw [hkind] at h
    rwa [if_pos rfl, (of_classifyLine_kind_trigger hkind).2]
  | action =>
    rw [if_neg (by simp), (of_classifyLine_kind_action hkind).2.2]
    exact exists_sign_applyAll hname hterminal hsign
  | blockStart =>
    have htrimmed : Trimmed (trim line.text) := trimmed_of_kind (by simp [hkind])
    obtain ⟨keyword, hword, hterminals⟩ := exists_terminals_of_kind_blockStart hkind htrimmed
    rw [hterminals] at hterminal
    rw [if_neg (by simp)]
    rcases List.mem_cons.mp hterminal with rfl | hbody
    · cases hsign.symm.trans hword
    · exact exists_sign_applyAll hname hbody hsign
  | blockElse | blockEnd =>
    -- the keyword stands alone, and it is a word
    exfalso
    obtain ⟨-, stop, hkeyword, -⟩ := of_classifyLine_kind_keyword (by rw [hkind]; simp)
    obtain ⟨keyword, others, htokens, hword, halone⟩ := exists_of_leadingKeyword? hkeyword
    rw [htokens, halone (by simp [hkind])] at ht
    rw [List.mem_singleton.mp ht, hword] at hsign
    cases hsign
  | blank =>
    rw [trim_of_kind_blank hkind] at h
    exact absurd h (not_hasStraySign_nil _)

/-- A line with a stray sign cannot be parsed, unless it asks for a trigger. -/
theorem Text.Line.exists_error_or_of_hasStraySign
    (h : HasStraySign (classifyLine (trim line.text)).kind (line.evaluated context)) :
  (∃ failure, parseLine scope (line.evaluated context) = .error failure)
    ∨ ∃ name, line.AsksTrigger scope context name
  := by
  cases hparse : parseLine scope (line.evaluated context) with
  | error failure => exact .inl ⟨failure, rfl⟩
  | ok f =>
    right
    obtain ⟨-, t, ht, hat⟩ := h.exists_mem
    have hnot : ¬ Grammar.Derives scope (.value .expression f)
        ((significantTokens (line.evaluated context)).map Token.terminal) :=
      fun hderives => hderives.kind_ne_at t.terminal (List.mem_map_of_mem ht) hat
    rcases derives_or_of_parseLine hparse with
      hderives | ⟨sign, token, htokens, hsign, hname, hknown, -⟩
    · exact absurd hderives hnot
    · have hkinds := kind_of_hasStraySign h
      simp only [List.mem_cons, List.not_mem_nil, or_false] at hkinds
      rcases hkinds with hkind | hkind | hkind
      · -- only the name of a trigger comes after its first sign
        rw [hkind, HasStraySign, htokens] at h
        obtain ⟨other, hother, hotherKind⟩ := h
        rw [List.mem_singleton.mp hother, hname] at hotherKind
        cases hotherKind
      · exact ⟨token.word, hkind, ⟨sign, token, htokens, hsign, hname, rfl⟩, hknown⟩
      · have htrimmed : Trimmed (trim line.text) := trimmed_of_kind (by simp [hkind])
        have hevaluated : line.evaluated context
            = Substitution.applyAll context.substitutions (trim line.text) := by
          rw [evaluated_of_ne (by simp [hkind]), body, (of_classifyLine_kind_action hkind).2.2]
        rw [hevaluated] at hparse hnot
        exact absurd (derives_of_upToLiteral hkind htrimmed
          (Substitution.upToLiteral_applyAll _ _) hparse) hnot

/-- What a line that is evaluated is found wrong with is what its text is found wrong with. -/
theorem exists_found_eq
    (hkind : (classifyLine (Text.trim line.text)).kind ∈ [.trigger, .blockStart, .action])
    (openBlocks : List OpenBlock) :
  ∃ indent expected, Progress.found (.ofScope scope) context openBlocks line
    = placeAll line indent
      (evaluateSource (.ofScope scope) context (line.evaluated context) expected).diagnostics
  := by
  simp only [List.mem_cons, List.not_mem_nil, or_false] at hkind
  rcases hkind with hkind | hkind | hkind
  · rw [Text.Line.evaluated, if_pos hkind]
    simp only [Progress.found, hkind]
    exact ⟨_, _, rfl⟩
  · rw [Text.Line.evaluated_of_ne (by simp [hkind])]
    simp only [Progress.found, hkind]
    exact ⟨_, _, rfl⟩
  · rw [Text.Line.evaluated_of_ne (by simp [hkind])]
    simp only [Progress.found, hkind]
    exact ⟨_, _, rfl⟩

/-- A stray sign is reported, unless the line asks for a trigger. -/
theorem exists_mem_found_of_hasStraySign
    (h : HasStraySign (classifyLine (Text.trim line.text)).kind (line.evaluated context))
    (openBlocks : List OpenBlock) :
  (∃ d ∈ Progress.found (.ofScope scope) context openBlocks line, d.category = some "parser")
    ∨ ∃ name, line.AsksTrigger scope context name
  := by
  rcases @Text.Line.exists_error_or_of_hasStraySign scope context line h with
    ⟨failure, hparse⟩ | hasks
  · left
    obtain ⟨indent, expected, hfound⟩ :=
      @exists_found_eq scope context line (Text.Line.kind_of_hasStraySign h) openBlocks
    have hdiagnostics : (evaluateSource (.ofScope scope) context (line.evaluated context)
        expected).diagnostics
          = [(failure.rejection (line.evaluated context)).diagnostic (line.evaluated context)] := by
      simp only [evaluateSource, Toolkit.ofScope, hparse, Except.mapError]
    rw [hfound, hdiagnostics]
    refine ⟨_, List.mem_singleton.mpr rfl, ?_⟩
    cases failure <;> rfl
  · exact .inr hasks

/-- Nothing is found wrong with a line that asks for a trigger. -/
theorem Text.Line.AsksTrigger.found_eq {name : String} (h : line.AsksTrigger scope context name)
    (openBlocks : List OpenBlock) :
  Progress.found (.ofScope scope) context openBlocks line = []
  := by
  have hevaluate := h.evaluate_eq
  rw [body] at hevaluate
  simp only [Progress.found, h.opens, hevaluate]
  rfl

end

/-! ### Whole scripts -/

section

variable (scope : Parse.Scope) (context : Context) (script : List Char)

/-- The fragment has the form of a condition, or it is a trigger that a line of the script asks
for. -/
def Script.ConditionOf (c : Fragment) : Prop :=
  IsCondition c ∨ ∃ line ∈ Text.numberedLines script, ∃ name,
    line.AsksTrigger scope context name ∧ c = triggerOf name

/-- The text of the line is reported as one that cannot be parsed, or it asks for a trigger. -/
def Build.ReportsOrAsks (build : Build) (line : Text.Line) : Prop :=
  (∃ d ∈ build.diagnostics, d.region.start.line = line.number ∧ d.category = some "parser")
    ∨ ∃ name, line.AsksTrigger scope context name

/-- The triggers of a script stay out of the conditions of its document, and signs of triggers
that are out of place are reported, but for lines that ask for a trigger. -/
structure Build.KeepsTriggers (build : Build) : Prop where
  conditions : ∀ action ∈ build.document.actions, ∀ c, HasCondition c action →
    Script.ConditionOf scope context script c
  reported : ∀ line ∈ Text.numberedLines script,
    HasStraySign (classifyLine (Text.trim line.text)).kind (line.evaluated context) →
      build.ReportsOrAsks scope context line
  /-- So are those that are out of place in a line as it is written, if all words that are
  replaced are names. -/
  reportedAsWritten : (∀ s ∈ context.substitutions, Text.IsName s.matchToken.toList) →
    ∀ line ∈ Text.numberedLines script,
      HasStraySign (classifyLine (Text.trim line.text)).kind (Text.trim line.text) →
        build.ReportsOrAsks scope context line
  /-- Where a line asks for a trigger, nothing but a missing end of the block is reported. -/
  unreported : ∀ line ∈ Text.numberedLines script, ∀ name, line.AsksTrigger scope context name →
    ∀ d ∈ build.diagnostics, d.region.start.line = line.number →
      d.code = Issue.unclosedBlock.code

end

section

variable {scope : Parse.Scope} {context : Context} {identity : Identity} {script : List Char}
  {build : Build}

/-- The condition of a line is one of the script's, and its action is none that could be taken for
a block. -/
theorem Script.Item.all_plain_of_ofLine? (hcatalog : scope.catalog.Publishable)
    (hcondition : scope.catalog.contains "condition" = false) {line : Text.Line}
    (hline : line ∈ Text.numberedLines script) {item : Item}
    (h : ofLine? (.ofScope scope) context line = some item) :
  item.All Plain (fun c => ConditionOf scope context script (c.getD .null))
  := by
  rcases of_ofLine? h with ⟨-, rfl⟩ | ⟨hkind, rfl⟩ | ⟨hkind, keyword, rfl⟩ | ⟨keyword, rfl⟩ |
    ⟨keyword, rfl⟩
  · trivial
  · intro f hf
    exact plain_of_accepted hcatalog hcondition (trimmed_of_kind (by simp [hkind])) hkind hf
  · change ConditionOf _ _ _ (Option.getD _ _)
    cases haccepted : (evaluate (.ofScope scope) context
        (classifyLine (Text.trim line.text)).body booleanType).accepted? with
    | none => exact .inl .missing
    | some c =>
      rcases isCondition_or_of_accepted hcatalog.toWritable hkind haccepted with
        hform | ⟨name, hasks, htrigger⟩
      · exact .inl hform
      · exact .inr ⟨line, hline, name, hasks, htrigger⟩
  · trivial
  · trivial

/-- The conditions of a document are those of the lines of its script. -/
theorem conditionOf_of_hasCondition (hcatalog : scope.catalog.Publishable)
    (hcondition : scope.catalog.contains "condition" = false)
    (hbuild : buildScript (.ofScope scope) context identity script = .ok build)
    {action c : Fragment} (haction : action ∈ build.document.actions)
    (h : HasCondition c action) :
  Script.ConditionOf scope context script c
  := by
  rw [(eq_of_buildScript hbuild).1, Script.publish_readScript, Fragment.publishAll_eq_map]
    at haction
  obtain ⟨assembled, hassembled, rfl⟩ := List.mem_map.mp haction
  obtain ⟨trees, hcarries, htrees⟩ :=
    @Script.exists_trees_of_items scope context identity script Plain
      (fun c => Script.ConditionOf scope context script (c.getD .null)) fun item hitem => by
        obtain ⟨line, hline, hitem⟩ := List.mem_filterMap.mp hitem
        exact Script.Item.all_plain_of_ofLine? hcatalog hcondition hline hitem
  obtain ⟨tree, htree, hcarried⟩ := Script.exists_tree_of_mem hcarries hassembled
  exact hcarried.of_hasCondition (htrees tree htree) h

theorem keepsTriggers_of_buildScript (hcatalog : scope.catalog.Publishable)
    (hcondition : scope.catalog.contains "condition" = false)
    (hbuild : buildScript (.ofScope scope) context identity script = .ok build) :
  build.KeepsTriggers scope context script
  := by
  have hreported : ∀ line ∈ Text.numberedLines script,
      HasStraySign (classifyLine (Text.trim line.text)).kind (line.evaluated context) →
        build.ReportsOrAsks scope context line := by
    intro line hline hstray
    obtain ⟨before, after, hlines⟩ := List.append_of_mem hline
    let reached := Progress.addLines (.ofScope scope) context { assembler := { identity } } before
    have hsubset : Progress.found (.ofScope scope) context reached.openBlocks line
        ⊆ build.diagnostics := by
      rw [diagnostics_of_buildScript hbuild]
      exact Script.found_subset_allDiagnostics hlines
    rcases exists_mem_found_of_hasStraySign hstray reached.openBlocks with
      ⟨d, hd, hcategory⟩ | hasks
    · exact .inl ⟨d, hsubset hd, Progress.start_line_of_mem_found _ _ hd, hcategory⟩
    · exact .inr hasks
  refine ⟨?_, hreported, ?_, ?_⟩
  · intro action haction c
    exact conditionOf_of_hasCondition hcatalog hcondition hbuild haction
  · intro hname line hline hstray
    exact hreported line hline (Text.Line.hasStraySign_evaluated hname hstray)
  · intro line hline name hasks d hd hstart
    rw [diagnostics_of_buildScript hbuild] at hd
    rcases Progress.of_mem_allDiagnostics hd with ⟨other, hother, openBlocks, hfound⟩ |
      ⟨other, -, -, rfl⟩
    · have hnumber : other.number = line.number :=
        (Progress.start_line_of_mem_found _ _ hfound).symm.trans hstart
      obtain rfl := Text.eq_of_mem_numberedLines hother hline hnumber
      rw [hasks.found_eq] at hfound
      cases hfound
    · rfl

/-- Every script for the game is built, and its triggers stay out of the conditions of its document,
but for those that lines ask for. -/
theorem exists_buildScript_keepsTriggers (declarations : Parse.Declarations) (context : Context)
    (identity : Identity) (script : List Char) :
  ∃ build, buildScript (.ofScope ⟨.builtin, declarations⟩) context identity script = .ok build
    ∧ build.KeepsTriggers ⟨.builtin, declarations⟩ context script
  := by
  have hharmless : Catalog.builtin.Harmless := ⟨by decide, by decide, by decide⟩
  have hcatalog : Catalog.builtin.Publishable :=
    ⟨⟨by decide, by decide, by decide⟩, by decide, by decide, by decide⟩
  have hcondition : Catalog.builtin.contains "condition" = false := by decide
  obtain ⟨lines, hlines⟩ :=
    @Script.exists_documentLines ⟨.builtin, declarations⟩ hharmless context identity script
  have hbuild := buildScript_eq_ok_iff.mpr ⟨lines, hlines, rfl⟩
  exact ⟨_, hbuild, keepsTriggers_of_buildScript hcatalog hcondition hbuild⟩

/-- A trigger is accepted as the condition of a block, and the sign that is out of place there is
not reported. -/
theorem not_isCondition_gameStart :
  ∃ build, buildScript (.ofScope ⟨.builtin, {}⟩) {} ⟨"k1", "Script", 0, .null, false⟩
      "if @gameStart\nend".toList = .ok build
    ∧ build.diagnostics = []
    ∧ (∃ action ∈ build.document.actions, HasCondition (triggerOf "gameStart") action)
    ∧ ¬ IsCondition (triggerOf "gameStart")
    ∧ HasStraySign (classifyLine "if @gameStart".toList).kind "if @gameStart".toList
  := by
  have hbuilt : (buildScript (.ofScope ⟨.builtin, {}⟩) {} ⟨"k1", "Script", 0, .null, false⟩
      "if @gameStart\nend".toList).toOption.any (fun build => build.diagnostics.isEmpty
        && build.document.actions == [.mapping [("type", .string "condition"),
          ("conditions", triggerOf "gameStart"), ("then", .list []), ("else", .list [])]]) = true := by
    decide +kernel
  obtain ⟨build, hbuild, hany⟩ := exists_build_of_any hbuilt
  rw [Bool.and_eq_true, List.isEmpty_iff, beq_iff_eq] at hany
  refine ⟨build, hbuild, hany.1, ?_, ?_, by decide +kernel⟩
  · rw [hany.2]
    exact ⟨_, List.mem_singleton.mpr rfl, .here rfl rfl⟩
  · intro hcondition
    cases hcondition with
    | call hname => cases hname

end

end TriggerLang
