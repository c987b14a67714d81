import TriggerLang.Proofs.Script.Vocabulary
import TriggerLang.Script.Build

/-!
# What a bare word stands for

A context writes a string as the bare word of a substitution that has the string, and reads a
word as the string of the first substitution that has the word.  So a string that is written
as a bare word is read again exactly if the first substitution of the word has the string.
Where no word is substituted twice that is always so; otherwise another string may come back.
-/

namespace TriggerLang

/-- A string is determined by its literal. -/
theorem quote_injective :
  Function.Injective quote
  := by
  intro value other h
  rw [← unquote_quote value, h, unquote_quote]

namespace Substitution

variable {substitutions : List Substitution}

/-- A text that is one word is replaced by the literal that the word stands for. -/
theorem applyAll_name (hbare : AreBareWords (literals substitutions)) {w : List Char}
    (hw : Text.IsName w) :
  applyAll substitutions w = ((literals substitutions).lookup w).getD w
  := by
  have hend : ∀ c ∈ ([] : List Char).head?, Text.isWordPart c = false := by rintro c ⟨⟩
  have hfirst := hw.firstTerminal? hend
  obtain ⟨c, others, rfl, -⟩ := id hw
  rw [List.append_nil, firstTerminal?, Option.some_inj] at hfirst
  have hkind : (Lexeme.first c others).kind = .identifier := congrArg Terminal.kind hfirst
  have htext : (Lexeme.first c others).text = c :: others := congrArg Terminal.text hfirst
  have hlexemes : lexemes (c :: others) = Lexeme.first c others :: lexemes [] :=
    lexemes_of_first_append (by rw [htext, List.append_nil])
  have hreplaced := replaceFrom_name hbare (by simp [hkind]) (htext ▸ hw) hend
  rw [applyAll, replaceBetween_nil, hlexemes, hreplaced, htext, lexemes]
  simp [replaceFrom, leadingRun, afterRun, replaceWords]

end Substitution

namespace Context

/-- The word is rewritten to the literal of the string, and that is read as the string. -/
structure StandsFor (context : Context) (w s : String) : Prop where
  rewritten : Substitution.applyAll context.substitutions w.toList = quote s.toList
  read : ∀ scope,
    parseLine scope (Substitution.applyAll context.substitutions w.toList) = .ok (.string s)

variable {context : Context}

/-- A word stands for one string at most. -/
theorem StandsFor.unique {w s r : String} (hs : context.StandsFor w s)
    (hr : context.StandsFor w r) :
  s = r
  := by
  have hquote := hs.rewritten.symm.trans hr.rewritten
  exact String.toList_inj.mp (quote_injective hquote)

/-- A word stands for the string of its first substitution. -/
theorem standsFor_of_replacement?
    (hname : ∀ s ∈ context.substitutions, Text.IsName s.matchToken.toList) {w r : String}
    (hw : Text.IsName w.toList) (h : Substitution.replacement? context.substitutions w = some r) :
  context.StandsFor w r
  := by
  have hbare := Substitution.areBareWords_literals hname
  have hliteral : (Substitution.literals context.substitutions).lookup w.toList
      = some (quote r.toList) := by
    rw [Substitution.lookup_literals_of_isName hname, h]
    rfl
  constructor
  · rw [Substitution.applyAll_name hbare hw, hliteral]
    rfl
  · intro scope
    have htokens := Substitution.significantTokens_applyAll hbare w.toList
    rw [(Means.bareWord hw hliteral).meaning_eq] at htokens
    have hstring := @Grammar.Derives.string scope ⟨.string, quote r.toList, false⟩ rfl rfl
    rw [unquote_quote, String.ofList_toList] at hstring
    apply Grammar.parseLine_of_derivesLine
    rw [htokens]
    exact .expression (.loosen (by decide) hstring)

/-- If no word is substituted twice, a string that is written as a bare word is what the word
stands for. -/
theorem standsFor_of_nodup
    (hname : ∀ s ∈ context.substitutions, Text.IsName s.matchToken.toList)
    (hnodup : (context.substitutions.map Substitution.matchToken).Nodup) {s w : String}
    (h : context.bareWords.lookup s = some w) :
  context.StandsFor w s
  := by
  obtain ⟨substitution, hmem, rfl, rfl⟩ := mem_of_lookup_bareWords h
  exact standsFor_of_replacement? hname (hname _ hmem)
    (Substitution.replacement?_of_nodup hnodup hmem)

/-- A string that is written as a bare word comes back as the string of the first substitution
of the word, and so as the same string exactly if that substitution has it. -/
theorem standsFor_of_lookup_bareWords
    (hname : ∀ s ∈ context.substitutions, Text.IsName s.matchToken.toList) {s w : String}
    (h : context.bareWords.lookup s = some w) :
  (∀ scope, ((Toolkit.ofScope scope).renderer context).rendered (.string s)
      = .ok (.atom w.toList))
    ∧ ∃ r, Substitution.replacement? context.substitutions w = some r
      ∧ context.StandsFor w r
      ∧ (context.StandsFor w s ↔ r = s)
  := by
  constructor
  · intro scope
    rw [Toolkit.renderer_ofScope, Renderer.rendered, Renderer.stringText, h]
  · obtain ⟨substitution, hmem, -, rfl⟩ := mem_of_lookup_bareWords h
    obtain ⟨first, -, -, hfirst⟩ := Substitution.exists_replacement? hmem
    have hstands := standsFor_of_replacement? hname (hname _ hmem) hfirst
    refine ⟨first.replacement, hfirst, hstands, ?_⟩
    constructor
    · exact fun hs => hstands.unique hs
    · rintro rfl
      exact hstands

/-- Two strings share one word. -/
def twoKnights : Context where
  defaultReturnType := "action"
  typeSubstitutions := [("action", [⟨"Knight", "White Knight"⟩, ⟨"Knight", "Black Knight"⟩])]

theorem isName_twoKnights :
  ∀ s ∈ twoKnights.substitutions, Text.IsName s.matchToken.toList
  := by
  intro s hs
  have hword : s.matchToken = "Knight" := by
    rcases List.mem_cons.mp hs with rfl | hs
    · rfl
    · exact congrArg Substitution.matchToken (List.mem_singleton.mp hs)
  rw [hword]
  exact ⟨'K', "night".toList, rfl, by decide, List.all_eq_true.mp (by decide)⟩

/-- The second string is written as the word and comes back as the first one. -/
theorem standsFor_of_lookup_bareWords_twoKnights :
  twoKnights.bareWords.lookup "Black Knight" = some "Knight"
    ∧ (∀ scope, ((Toolkit.ofScope scope).renderer twoKnights).rendered (.string "Black Knight")
      = .ok (.atom "Knight".toList))
    ∧ ∃ r, Substitution.replacement? twoKnights.substitutions "Knight" = some r
      ∧ twoKnights.StandsFor "Knight" r
      ∧ (twoKnights.StandsFor "Knight" "Black Knight" ↔ r = "Black Knight")
  := by
  have hlookup : twoKnights.bareWords.lookup "Black Knight" = some "Knight" := by decide
  exact ⟨hlookup, standsFor_of_lookup_bareWords isName_twoKnights hlookup⟩

/-- Reading a word back need not give the string that was written as the word. -/
theorem not_rewritten_twoKnights :
  ¬ ∀ context : Context,
    (∀ s ∈ context.substitutions, Text.IsName s.matchToken.toList) →
    ∀ s w, context.bareWords.lookup s = some w →
      Substitution.applyAll context.substitutions w.toList = quote s.toList
  := by
  intro h
  have hblack := h twoKnights isName_twoKnights "Black Knight" "Knight" (by decide)
  have hwhite : twoKnights.StandsFor "Knight" "White Knight" :=
    standsFor_of_replacement? isName_twoKnights
      (isName_twoKnights ⟨"Knight", "White Knight"⟩ (by decide)) (by decide)
  rw [hwhite.rewritten] at hblack
  exact absurd hblack (by decide)

end Context

end TriggerLang
