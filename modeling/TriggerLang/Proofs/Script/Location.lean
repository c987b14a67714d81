import TriggerLang.Proofs.Script.Found
import TriggerLang.Proofs.Script.Keyword
import TriggerLang.Proofs.Script.Literals
import TriggerLang.Proofs.Script.Pointing
import TriggerLang.Proofs.Script.Structure

/-!
# Where diagnostics land

The diagnostics of a script land on the text that they are about.  A line is evaluated with
its bare words replaced, so a diagnostic of a line marks characters of the line as it is
rewritten; where no words are replaced, that is the line itself.  Diagnostics of an expression
point at parts of it, which stand in the line behind its indent and its keyword, and those
of the structure mark the keyword.
-/

namespace TriggerLang

/-! ### Lines as they are evaluated -/

namespace Text.Line

/-- The text that is evaluated for a line, as it stands there. -/
def body (line : Line) : List Char :=
  (classifyLine (trim line.text)).body

/-- The offset of the body in the line. -/
def bodyStart (line : Line) : Nat :=
  indent line.text + (classifyLine (trim line.text)).bodyOffset

/-- The text that is evaluated for a line: bare words are replaced, but not in triggers. -/
def evaluated (context : Context) (line : Line) : List Char :=
  if (classifyLine (trim line.text)).kind = .trigger then
    line.body
  else
    Substitution.applyAll context.substitutions line.body

/-- Bare words are replaced in all lines but triggers. -/
theorem evaluated_of_ne {line : Line} (h : (classifyLine (trim line.text)).kind ≠ .trigger)
    (context : Context) :
  line.evaluated context = Substitution.applyAll context.substitutions line.body
  := if_neg h

/-- The text of a line with what is evaluated in place of its body. -/
def rewritten (context : Context) (line : Line) : List Char :=
  line.text.take line.bodyStart ++ line.evaluated context
    ++ line.text.drop (line.bodyStart + line.body.length)

end Text.Line

/-! ### Marked characters -/

/-- The region is a part of one line, which has a number and a text. -/
structure Text.Region.Within (region : Region) (number : Nat) (shown : List Char) : Prop where
  start_line : region.start.line = number
  stop_line : region.stop.line = number
  one_le_start : 1 ≤ region.start.column
  start_le_stop : region.start.column ≤ region.stop.column
  stop_le : region.stop.column ≤ shown.length + 1

/-- The characters of `shown` at the region, from an offset on, are `covered`. -/
structure Text.Region.Marks (region : Region) (shown : List Char) (offset : Nat)
    (covered : List Char) : Prop where
  start_column : region.start.column = offset + 1
  slice_eq : (shown.drop (region.start.column - 1)).take
    (region.stop.column - region.start.column) = covered

/-- The diagnostic lands on what it is about: a line with the text `shown`, in which
`expression` is evaluated. -/
structure Diagnostic.LandsOn (d : Diagnostic) (line : Text.Line)
    (shown expression : List Char) : Prop where
  within : d.region.Within line.number shown
  /-- An unexpected token is quoted in the message, and so is the end of an expression that is
  not complete. -/
  unexpected : d.code = Issue.unexpectedToken.code → ∃ expected : String,
    (∃ token ∈ properTokens expression,
      d.region.Marks shown (line.bodyStart + token.start) token.text
        ∧ d.message = "expect " ++ expected ++ " here, but got " ++ token.word)
    ∨ d.region.Marks shown (line.bodyStart + expression.length) []
      ∧ d.message = "expect " ++ expected ++ " here, but got " ++ "end of line"
  undefined : d.code = Issue.undefinedName.code → ∃ name ∈ properTokens expression,
    name.kind = .identifier
      ∧ d.region.Marks shown (line.bodyStart + name.start) name.text
      ∧ d.message = Parse.undefinedMessage name.word
  structural : d.isStructural = true →
    (classifyLine (Text.trim line.text)).kind ∈ [.blockStart, .blockElse, .blockEnd]
      ∧ d.region.Marks shown (Text.indent line.text)
        (classifyLine (Text.trim line.text)).kind.keyword
  mismatch : d.code ∈ [Issue.returnTypeMismatch.code, Issue.argumentTypeMismatch.code] →
    (∃ name ∈ properTokens expression, name.kind = .identifier
      ∧ d.region.Marks shown (line.bodyStart + name.start) name.text)
    ∨ d.region.Marks shown line.bodyStart expression

/-- Issues have different codes. -/
theorem Issue.code_inj {a b : Issue} :
  a.code = b.code ↔ a = b
  := by
  cases a <;> cases b <;> simp [code]

/-- What the diagnostic of an issue has to land on. -/
theorem Diagnostic.LandsOn.saying {line : Text.Line} {shown expression : List Char}
    {issue : Issue} {region : Text.Region} {message : String}
    (within : region.Within line.number shown)
    (unexpected : issue = .unexpectedToken → ∃ expected : String,
      (∃ token ∈ properTokens expression,
        region.Marks shown (line.bodyStart + token.start) token.text
          ∧ message = "expect " ++ expected ++ " here, but got " ++ token.word)
      ∨ region.Marks shown (line.bodyStart + expression.length) []
        ∧ message = "expect " ++ expected ++ " here, but got " ++ "end of line")
    (undefined : issue = .undefinedName → ∃ name ∈ properTokens expression,
      name.kind = .identifier ∧ region.Marks shown (line.bodyStart + name.start) name.text
        ∧ message = Parse.undefinedMessage name.word)
    (structural : issue.isStructural = true →
      (classifyLine (Text.trim line.text)).kind ∈ [.blockStart, .blockElse, .blockEnd]
        ∧ region.Marks shown (Text.indent line.text)
          (classifyLine (Text.trim line.text)).kind.keyword)
    (mismatch : issue.isMismatch = true →
      (∃ name ∈ properTokens expression, name.kind = .identifier
        ∧ region.Marks shown (line.bodyStart + name.start) name.text)
      ∨ region.Marks shown line.bodyStart expression) :
  (Diagnostic.saying issue region message).LandsOn line shown expression
  := by
  refine ⟨within, ?_, ?_, ?_, ?_⟩
  · exact fun hcode => unexpected (Issue.code_inj.mp hcode)
  · exact fun hcode => undefined (Issue.code_inj.mp hcode)
  · rw [isStructural_saying]
    exact structural
  · intro hcode
    apply mismatch
    simp only [Diagnostic.saying, List.mem_cons, List.not_mem_nil, or_false, Issue.code_inj]
      at hcode
    rcases hcode with rfl | rfl <;> rfl

theorem Diagnostic.place_saying {number : Nat} (number_pos : 0 < number) (indent : Nat)
    (issue : Issue) (region : Text.Region) (message : String) :
  (saying issue region message).place number number_pos indent
    = saying issue (region.place number number_pos indent) message
  := rfl

/-- A region on a line marks the characters that it spans. -/
theorem Text.Region.within_and_marks {number : Nat} (number_pos : 0 < number)
    {shown before covered after : List Char} (hshown : shown = before ++ covered ++ after) :
  (onLine number number_pos before.length covered.length).Within number shown
    ∧ (onLine number number_pos before.length covered.length).Marks shown before.length covered
  := by
  subst hshown
  refine ⟨⟨rfl, rfl, Nat.succ_pos _, ?_, ?_⟩, rfl, ?_⟩
  · simp only [onLine]
    omega
  · simp only [onLine, List.length_append]
    omega
  · have hlength : before.length + covered.length + 1 - (before.length + 1) = covered.length := by
      omega
    simp only [onLine, Nat.add_sub_cancel, hlength]
    rw [List.append_assoc, List.drop_left, List.take_left]

/-! ### Expressions -/

section

variable {line : Text.Line} {shown expression margin rest : List Char}
  (hshown : shown = margin ++ expression ++ rest) (hmargin : margin.length = line.bodyStart)

include hshown hmargin

/-- What a region marks of an expression it marks of the line. -/
theorem place_within_and_marks {before covered after : List Char}
    (hexpression : expression = before ++ covered ++ after) {region : Text.Region}
    (hregion : region = .onLine 1 Nat.one_pos before.length covered.length) :
  (region.place line.number line.number_pos line.bodyStart).Within line.number shown
    ∧ (region.place line.number line.number_pos line.bodyStart).Marks shown
      (line.bodyStart + before.length) covered
  := by
  have hsplit : shown = (margin ++ before) ++ covered ++ (after ++ rest) := by
    rw [hshown, hexpression]
    simp only [List.append_assoc]
  rw [hregion, Text.Region.place_onLine, ← hmargin, ← List.length_append]
  exact Text.Region.within_and_marks line.number_pos hsplit

/-- A token of an expression is marked where it stands in the line. -/
theorem place_token_region (hunbroken : Text.Unbroken expression) {token : Token}
    (htoken : token ∈ properTokens expression) :
  ((token.region expression).place line.number line.number_pos line.bodyStart).Within
      line.number shown
    ∧ ((token.region expression).place line.number line.number_pos line.bodyStart).Marks shown
      (line.bodyStart + token.start) token.text
  := by
  obtain ⟨before, after, hexpression, hstart, hregion⟩ :=
    exists_region_eq_onLine hunbroken htoken
  rw [hstart]
  exact place_within_and_marks hshown hmargin hexpression hregion

/-- What points at a part of an expression lands on that part of the line. -/
theorem landsOn_of_points (hunbroken : Text.Unbroken expression) {d : Diagnostic}
    (h : d.Points expression) :
  (d.place line.number line.number_pos line.bodyStart).LandsOn line shown expression
  := by
  cases h with
  | unexpected htoken expected =>
    obtain ⟨hwithin, hmarks⟩ := place_token_region hshown hmargin hunbroken htoken
    rw [Diagnostic.place_saying]
    apply Diagnostic.LandsOn.saying hwithin
    · exact fun _ => ⟨expected, .inl ⟨_, htoken, hmarks, rfl⟩⟩
    all_goals rintro ⟨⟩
  | incomplete expected =>
    have hend : expression = expression ++ [] ++ [] := by simp
    obtain ⟨hwithin, hmarks⟩ :=
      place_within_and_marks hshown hmargin hend (endToken_region hunbroken)
    rw [Diagnostic.place_saying]
    apply Diagnostic.LandsOn.saying hwithin
    · exact fun _ => ⟨expected, .inr ⟨hmarks, rfl⟩⟩
    all_goals rintro ⟨⟩
  | undefined hname hkind =>
    obtain ⟨hwithin, hmarks⟩ := place_token_region hshown hmargin hunbroken hname
    rw [Diagnostic.place_saying]
    apply Diagnostic.LandsOn.saying hwithin
    · rintro ⟨⟩
    · exact fun _ => ⟨_, hname, hkind, hmarks, rfl⟩
    all_goals rintro ⟨⟩
  | @mismatch issue hissue _ hname hkind message =>
    obtain ⟨hwithin, hmarks⟩ := place_token_region hshown hmargin hunbroken hname
    rw [Diagnostic.place_saying]
    apply Diagnostic.LandsOn.saying hwithin
    case mismatch => exact fun _ => .inl ⟨_, hname, hkind, hmarks⟩
    all_goals
      intro hother
      cases issue <;> cases hissue <;> cases hother
  | @whole issue hissue message =>
    have hall : expression = [] ++ expression ++ [] := by simp
    obtain ⟨hwithin, hmarks⟩ := place_within_and_marks hshown hmargin hall rfl
    rw [Diagnostic.place_saying]
    apply Diagnostic.LandsOn.saying hwithin
    case mismatch => exact fun _ => .inr hmarks
    all_goals
      intro hother
      cases issue <;> cases hissue <;> cases hother

end

/-! ### Lines -/

/-- A line that is neither blank nor a comment starts with its indent, its keyword and its
body. -/
theorem Text.Line.exists_keyword_append {line : Line}
    (hkind : (classifyLine (trim line.text)).kind ∉ [.blank, .comment]) :
  ∃ margin rest,
    line.text = margin ++ (classifyLine (trim line.text)).kind.keyword ++ rest
    ∧ margin.length = indent line.text
    ∧ (classifyLine (trim line.text)).bodyOffset
      = (classifyLine (trim line.text)).kind.keyword.length
    ∧ line.body <+: rest
  := by
  have hne : trim line.text ≠ [] := by
    intro hnil
    rw [hnil] at hkind
    exact hkind List.mem_cons_self
  have hcomment : (classifyLine (trim line.text)).kind ≠ .comment := by
    intro hcomment
    rw [hcomment] at hkind
    exact hkind (.tail _ List.mem_cons_self)
  obtain ⟨inner, hinner, hoffset, hbody⟩ :=
    TriggerLang.exists_keyword_append (trimmed_trim hne) hcomment
  obtain ⟨margin, after, htext, hmargin⟩ := exists_trim_append line.text
  refine ⟨margin, inner ++ after, ?_, hmargin, hoffset, hbody.trans (List.prefix_append _ _)⟩
  rw [← List.append_assoc, List.append_assoc margin, ← hinner]
  exact htext

/-- What comes before the body of a line is its indent and its keyword, and it stays when the
line is rewritten. -/
theorem Text.Line.exists_rewritten_append {line : Line}
    (hkind : (classifyLine (trim line.text)).kind ∉ [.blank, .comment]) (context : Context) :
  ∃ margin rest,
    line.rewritten context = margin ++ (classifyLine (trim line.text)).kind.keyword
      ++ line.evaluated context ++ rest
    ∧ margin.length = indent line.text
    ∧ margin.length + (classifyLine (trim line.text)).kind.keyword.length = line.bodyStart
  := by
  obtain ⟨margin, after, htext, hmargin, hoffset, -⟩ := exists_keyword_append hkind
  have hstart : margin.length + (classifyLine (trim line.text)).kind.keyword.length
      = line.bodyStart := by
    rw [hmargin, bodyStart, hoffset]
  have htake := congrArg (List.take line.bodyStart) htext
  rw [List.take_left' (by rw [List.length_append, hstart])] at htake
  exact ⟨margin, _, congrArg (· ++ _ ++ _) htake, hmargin, hstart⟩

/-- A line in which nothing is replaced stays as it is. -/
theorem Text.Line.rewritten_of_evaluated {line : Line}
    (hkind : (classifyLine (trim line.text)).kind ∉ [.blank, .comment]) {context : Context}
    (h : line.evaluated context = line.body) :
  line.rewritten context = line.text
  := by
  obtain ⟨margin, rest, htext, hmargin, hoffset, after, rfl⟩ := exists_keyword_append hkind
  have hbody : (line.text.drop line.bodyStart).take line.body.length = line.body := by
    have hdrop := congrArg (List.drop line.bodyStart) htext
    rw [List.drop_left' (by rw [List.length_append, hmargin, bodyStart, hoffset])] at hdrop
    rw [hdrop, List.take_left]
  calc line.rewritten context
      = line.text.take line.bodyStart ++ (line.text.drop line.bodyStart).take line.body.length
          ++ line.text.drop (line.bodyStart + line.body.length) := by
        rw [rewritten, h, hbody]
    _ = line.text.take (line.bodyStart + line.body.length)
          ++ line.text.drop (line.bodyStart + line.body.length) := by
        rw [List.take_add]
    _ = line.text := List.take_append_drop _ _

theorem Text.Line.unbroken_evaluated {line : Line} (h : Unbroken line.body)
    (context : Context) :
  Unbroken (line.evaluated context)
  := by
  rw [evaluated]
  split
  · exact h
  · exact Substitution.unbroken_applyAll h _

/-- What is wrong with the expression of a line lands on the line as it is rewritten. -/
theorem landsOn_of_evaluateSource {scope : Parse.Scope} {context : Context} {line : Text.Line}
    (hunbroken : Text.Unbroken line.text)
    (hread : (classifyLine (Text.trim line.text)).kind ∉ [.blank, .comment])
    {expected : String} {d : Diagnostic}
    (h : d ∈ placeAll line line.bodyStart
      (evaluateSource (.ofScope scope) context (line.evaluated context) expected).diagnostics) :
  d.LandsOn line (line.rewritten context) (line.evaluated context)
  := by
  have hbody : Text.Unbroken line.body := by
    obtain ⟨margin, rest, htext, -, -, after, hafter⟩ := Text.Line.exists_keyword_append hread
    rw [htext, ← hafter] at hunbroken
    exact hunbroken.of_append.2.of_append.1
  obtain ⟨margin, rest, hrewritten, -, hstart⟩ :=
    Text.Line.exists_rewritten_append hread context
  obtain ⟨e, he, rfl⟩ := List.mem_map.mp h
  rw [← List.length_append] at hstart
  exact landsOn_of_points hrewritten hstart (Text.Line.unbroken_evaluated hbody context)
    (points_of_mem_evaluateSource he)

/-- What is wrong with the structure at a line lands on its keyword. -/
theorem landsOn_of_keywordRegion {line : Text.Line}
    (hkind : (classifyLine (Text.trim line.text)).kind ∈ [.blockStart, .blockElse, .blockEnd])
    {issue : Issue} (hissue : issue.isStructural = true) (context : Context) :
  (Diagnostic.of issue (Progress.keywordRegion line (Text.indent line.text)
    (classifyLine (Text.trim line.text)))).LandsOn line (line.rewritten context)
      (line.evaluated context)
  := by
  have hread : (classifyLine (Text.trim line.text)).kind ∉ [.blank, .comment] := by
    simp only [List.mem_cons, List.not_mem_nil, or_false] at hkind ⊢
    rcases hkind with hkind | hkind | hkind <;> simp [hkind]
  obtain ⟨margin, rest, hrewritten, hmargin, hstart⟩ :=
    Text.Line.exists_rewritten_append hread context
  have hoffset : (classifyLine (Text.trim line.text)).bodyOffset
      = (classifyLine (Text.trim line.text)).kind.keyword.length := by
    rw [hmargin, Text.Line.bodyStart] at hstart
    exact (Nat.add_left_cancel hstart).symm
  rw [List.append_assoc] at hrewritten
  obtain ⟨hwithin, hmarks⟩ := Text.Region.within_and_marks line.number_pos hrewritten
  rw [hmargin] at hwithin hmarks
  rw [Progress.keywordRegion, hoffset, Diagnostic.of]
  apply Diagnostic.LandsOn.saying hwithin
  case structural => exact fun _ => ⟨hkind, hmarks⟩
  all_goals
    intro hother
    cases issue <;> cases hissue <;> cases hother

/-- What is found wrong with a line lands on the line as it is rewritten. -/
theorem landsOn_of_mem_found {scope : Parse.Scope} {context : Context} {line : Text.Line}
    (hunbroken : Text.Unbroken line.text) {openBlocks : List OpenBlock} {d : Diagnostic}
    (h : d ∈ Progress.found (.ofScope scope) context openBlocks line) :
  d.LandsOn line (line.rewritten context) (line.evaluated context)
  := by
  have hindent : (classifyLine (Text.trim line.text)).kind.keyword = [] →
      (classifyLine (Text.trim line.text)).kind ∉ [.blank, .comment] →
      Text.indent line.text = line.bodyStart := by
    intro hnil hread
    obtain ⟨margin, rest, -, hmargin, hstart⟩ :=
      Text.Line.exists_rewritten_append hread context
    rw [← hmargin, ← hstart, hnil]
    rfl
  unfold Progress.found at h
  cases hkind : (classifyLine (Text.trim line.text)).kind with
  | blank =>
    simp only [hkind] at h
    cases h
  | comment =>
    simp only [hkind] at h
    cases h
  | trigger =>
    simp only [hkind] at h
    apply landsOn_of_evaluateSource hunbroken (by simp [hkind])
    rw [← hindent (by rw [hkind]; rfl) (by simp [hkind]), Text.Line.evaluated, if_pos hkind]
    exact h
  | action =>
    simp only [hkind] at h
    apply landsOn_of_evaluateSource hunbroken (by simp [hkind])
    rw [← hindent (by rw [hkind]; rfl) (by simp [hkind]), Text.Line.evaluated_of_ne (by simp [hkind])]
    exact h
  | blockStart =>
    simp only [hkind] at h
    apply landsOn_of_evaluateSource hunbroken (by simp [hkind])
    rw [Text.Line.evaluated_of_ne (by simp [hkind])]
    exact h
  | blockElse =>
    simp only [hkind] at h
    have hkeyword := fun issue hissue =>
      @landsOn_of_keywordRegion line (by simp [hkind]) issue hissue context
    split at h
    · rw [List.mem_singleton.mp h]
      exact hkeyword _ rfl
    · split at h
      · rw [List.mem_singleton.mp h]
        exact hkeyword _ rfl
      · cases h
  | blockEnd =>
    simp only [hkind] at h
    split at h
    · rw [List.mem_singleton.mp h]
      exact landsOn_of_keywordRegion (by simp [hkind]) rfl context
    · cases h

/-- What is reported for a script lands on one of its lines as that is rewritten. -/
theorem exists_landsOn_of_mem_allDiagnostics {scope : Parse.Scope} {context : Context}
    {identity : Identity} {script : List Char} {d : Diagnostic}
    (h : d ∈ (readScript (.ofScope scope) context identity script).allDiagnostics) :
  ∃ line ∈ Text.numberedLines script,
    (classifyLine (Text.trim line.text)).kind ∉ [.blank, .comment]
      ∧ d.LandsOn line (line.rewritten context) (line.evaluated context)
  := by
  rcases Progress.of_mem_allDiagnostics h with ⟨line, hline, openBlocks, hfound⟩ |
    ⟨line, hline, hkind, rfl⟩
  · refine ⟨line, hline, Progress.kind_of_mem_found hfound, ?_⟩
    exact landsOn_of_mem_found (Text.unbroken_of_mem_numberedLines hline) hfound
  · exact ⟨line, hline, by simp [hkind], landsOn_of_keywordRegion (by simp [hkind]) rfl context⟩

/-- Where no words are replaced, the diagnostics of a script land on the text that they are
about. -/
theorem landsOn_of_mem_diagnostics {scope : Parse.Scope} {context : Context}
    {identity : Identity} {script : List Char} {build : Build}
    (hsubstitutions : context.substitutions = [])
    (hbuild : buildScript (.ofScope scope) context identity script = .ok build) {d : Diagnostic}
    (h : d ∈ build.diagnostics) :
  ∃ line ∈ Text.numberedLines script, d.LandsOn line line.text line.body
  := by
  rw [diagnostics_of_buildScript hbuild] at h
  obtain ⟨line, hline, hkind, hlands⟩ := exists_landsOn_of_mem_allDiagnostics h
  have hevaluated : line.evaluated context = line.body := by
    rw [Text.Line.evaluated, hsubstitutions, Substitution.applyAll_nil, ite_self]
  rw [Text.Line.rewritten_of_evaluated hkind hevaluated, hevaluated] at hlands
  exact ⟨line, hline, hlands⟩

/-- The unknown name in a condition is marked behind the indent and the keyword. -/
theorem landsOn_of_mem_diagnostics_ghost :
  ∃ build d, ({} : Context).substitutions = []
    ∧ buildScript (.ofScope {}) {} ⟨"", "", 0, .null, false⟩
        "// note\n\t if ghost > 1 +\n  end // north".toList = .ok build
    ∧ d ∈ build.diagnostics
    ∧ ∃ line ∈ Text.numberedLines "// note\n\t if ghost > 1 +\n  end // north".toList,
      d.LandsOn line line.text line.body
  := by
  have hfound : ((buildScript (.ofScope {}) {} ⟨"", "", 0, .null, false⟩
      "// note\n\t if ghost > 1 +\n  end // north".toList).toOption.any
        fun build => !build.diagnostics.isEmpty) = true := by
    decide +kernel
  obtain ⟨build, hbuild, hany⟩ := exists_build_of_any hfound
  obtain ⟨d, ds, hdiagnostics⟩ := List.exists_cons_of_ne_nil
    (fun hnil : build.diagnostics = [] => by simp [hnil] at hany)
  have hd : d ∈ build.diagnostics := hdiagnostics ▸ List.mem_cons_self
  exact ⟨build, d, rfl, hbuild, hd, landsOn_of_mem_diagnostics rfl hbuild hd⟩

/-- In the actions of a script the word `Knight` stands for a longer string. -/
def replacedKnight : Context where
  defaultReturnType := "action"
  typeSubstitutions := [("action", [⟨"Knight", "Knight Unit"⟩])]

/-- A line with an unknown name to the right of a word that is replaced. -/
def ghostAfterKnight : List Char :=
  "createUnitForPlayerAtPosition(Knight, ghost)".toList

theorem reported_ghostAfterKnight :
  (buildScript (.ofScope {}) replacedKnight ⟨"", "", 0, .null, false⟩
    ghostAfterKnight).toOption.any (fun build => build.diagnostics.any fun d =>
      d.code == Issue.undefinedName.code && d.region.stop.column == 51) = true
  := by decide +kernel

/-- The diagnostics of a script land on its lines as these are rewritten, and so on the lines
in which no word is replaced. -/
theorem landsOn_rewritten_of_mem_diagnostics {scope : Parse.Scope} {context : Context}
    {identity : Identity} {script : List Char} {build : Build}
    (hbuild : buildScript (.ofScope scope) context identity script = .ok build) {d : Diagnostic}
    (h : d ∈ build.diagnostics) :
  ∃ line ∈ Text.numberedLines script,
    d.LandsOn line (line.rewritten context) (line.evaluated context)
      ∧ (line.evaluated context = line.body → d.LandsOn line line.text line.body)
  := by
  rw [diagnostics_of_buildScript hbuild] at h
  obtain ⟨line, hline, hkind, hlands⟩ := exists_landsOn_of_mem_allDiagnostics h
  refine ⟨line, hline, hlands, fun hevaluated => ?_⟩
  rwa [Text.Line.rewritten_of_evaluated hkind hevaluated, hevaluated] at hlands

/-- A name to the right of a replaced word is marked where it stands in the rewritten line. -/
theorem landsOn_rewritten_of_replaced_knight :
  ∃ build d, buildScript (.ofScope {}) replacedKnight ⟨"", "", 0, .null, false⟩
      ghostAfterKnight = .ok build
    ∧ d ∈ build.diagnostics
    ∧ ∃ line ∈ Text.numberedLines ghostAfterKnight,
      d.LandsOn line (line.rewritten replacedKnight) (line.evaluated replacedKnight)
        ∧ (line.evaluated replacedKnight = line.body → d.LandsOn line line.text line.body)
  := by
  obtain ⟨build, hbuild, hany⟩ := exists_build_of_any reported_ghostAfterKnight
  obtain ⟨d, hd, -⟩ := List.any_eq_true.mp hany
  exact ⟨build, d, hbuild, hd, landsOn_rewritten_of_mem_diagnostics hbuild hd⟩

/-- A name to the right of a replaced word is marked beyond the end of its line. -/
theorem not_within_of_replaced_knight :
  ∃ build, buildScript (.ofScope {}) replacedKnight ⟨"", "", 0, .null, false⟩
      ghostAfterKnight = .ok build
    ∧ ∃ d ∈ build.diagnostics, d.code = Issue.undefinedName.code
      ∧ ∀ line ∈ Text.numberedLines ghostAfterKnight, ¬ d.region.Within line.number line.text
  := by
  obtain ⟨build, hbuild, hany⟩ := exists_build_of_any reported_ghostAfterKnight
  obtain ⟨d, hd, hreported⟩ := List.any_eq_true.mp hany
  rw [Bool.and_eq_true, beq_iff_eq, beq_iff_eq] at hreported
  refine ⟨build, hbuild, d, hd, hreported.1, ?_⟩
  intro line hline hwithin
  have hlength : line.text.length = 44 := by
    rw [List.mem_singleton.mp hline]
    decide
  have hstop := hwithin.stop_le
  omega

end TriggerLang
