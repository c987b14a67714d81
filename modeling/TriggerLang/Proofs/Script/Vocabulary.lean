import TriggerLang.Proofs.Grammar.Completeness
import TriggerLang.Proofs.Grammar.Soundness
import TriggerLang.Proofs.Render.Written
import TriggerLang.Proofs.Script.Literals
import TriggerLang.Script.Context

/-!
# The vocabulary of a context

If the bare words of a context are different identifiers and no keywords, every word stands
for the literal of its string, and a string that is written as a bare word is read as the
literal again.
-/

namespace TriggerLang

namespace Substitution

/-- The words are different identifiers, and none of them is a keyword. -/
structure AreProper (substitutions : List Substitution) : Prop where
  nodup : (substitutions.map matchToken).Nodup
  isName : ∀ s ∈ substitutions, Text.IsName s.matchToken.toList
  notKeyword : ∀ s ∈ substitutions, ¬ Grammar.isKeyword s.matchToken

namespace AreProper

variable {substitutions : List Substitution} (h : AreProper substitutions)

include h

theorem matchToken_ne_empty {s : Substitution} (hs : s ∈ substitutions) :
  s.matchToken ≠ ""
  := by
  intro hempty
  apply (h.isName s hs).ne_nil
  rw [hempty]
  rfl

theorem areBareWords :
  AreBareWords (literals substitutions)
  := areBareWords_literals h.isName

/-- Every word stands for its literal. -/
theorem lookup_literals {s : Substitution} (hs : s ∈ substitutions) :
  (literals substitutions).lookup s.matchToken.toList = some (quote s.replacement.toList)
  := by
  rw [Substitution.lookup_literals substitutions (h.matchToken_ne_empty hs),
    replacement?_of_nodup h.nodup hs]
  rfl

theorem lookup_literals_keyword {w : String} (hw : Grammar.isKeyword w) :
  (literals substitutions).lookup w.toList = none
  := by
  rw [List.lookup_eq_none_iff]
  intro e he
  obtain ⟨s, hs, rfl⟩ := exists_of_mem_literals he
  rw [bne_iff_ne]
  intro heq
  exact h.notKeyword s hs (String.toList_inj.mp heq ▸ hw)

end AreProper

end Substitution

namespace Context

/-- A bare word of a context is one of its substitutions. -/
theorem mem_of_lookup_bareWords {context : Context} {s w : String}
    (h : context.bareWords.lookup s = some w) :
  ∃ substitution ∈ context.substitutions,
    substitution.replacement = s ∧ substitution.matchToken = w
  := by
  rcases Table.mem_setAll (Table.mem_of_lookup h) with hmem | hmem
  · cases hmem
  · obtain ⟨substitution, hsubstitution, heq⟩ := List.mem_map.mp hmem
    cases heq
    exact ⟨substitution, hsubstitution, rfl, rfl⟩

/-- The bare words of a context with the literals that they stand for. -/
def vocabulary (context : Context) (h : Substitution.AreProper context.substitutions) :
    Vocabulary where
  bareWords := context.bareWords
  literals := Substitution.literals context.substitutions
  isName := by
    intro s w hlookup
    obtain ⟨substitution, hmem, -, rfl⟩ := mem_of_lookup_bareWords hlookup
    exact h.isName _ hmem
  literal := by
    intro s w hlookup
    obtain ⟨substitution, hmem, rfl, rfl⟩ := mem_of_lookup_bareWords hlookup
    exact h.lookup_literals hmem
  keyword := fun _ => h.lookup_literals_keyword

end Context

end TriggerLang
