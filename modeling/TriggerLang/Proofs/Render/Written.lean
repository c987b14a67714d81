import TriggerLang.Proofs.Grammar.Derivation
import TriggerLang.Proofs.Lexing.Meaning
import TriggerLang.Proofs.Number.Reading
import TriggerLang.Proofs.Text.Line
import TriggerLang.Render.Fragment

/-!
# Texts of operands

A rendered text stands for a fragment if the terminals that the grammar sees of it derive the
fragment, and do so at a level that is as tight as the text is said to bind.  Operands in
brackets are of the tightest level, so an operator between two operands is read back as that
operator with those operands.
-/

namespace TriggerLang

/-! ### The look of a text -/

/-- A text that starts and ends like an operand, on a single line. -/
structure Neat (text : List Char) : Prop where
  starts : ∃ c rest, text = c :: rest ∧ (c = '(' ∨ c = '-' ∨ c = '"' ∨ Text.isWordPart c = true)
  ends : ∃ rest c, text = rest ++ [c] ∧ (c = ')' ∨ c = '"' ∨ Text.isWordPart c = true)
  unbroken : ∀ c ∈ text, Text.isLineBreak c = false

namespace Neat

theorem word {text : List Char} (hne : text ≠ []) (h : ∀ c ∈ text, Text.isWordPart c = true) :
  Neat text
  := by
  constructor
  · obtain ⟨c, rest, rfl⟩ := List.exists_cons_of_ne_nil hne
    exact ⟨c, rest, rfl, .inr (.inr (.inr (h c List.mem_cons_self)))⟩
  · rw [← List.dropLast_concat_getLast hne]
    exact ⟨_, _, rfl, .inr (.inr (h _ (List.getLast_mem hne)))⟩
  · exact fun c hc => Text.isLineBreak_of_isWordPart (h c hc)

/-- A text between the texts that it starts and ends with. -/
theorem between {text other middle : List Char} (h : Neat text)
    (hmiddle : middle.any Text.isLineBreak = false) (hother : Neat other) :
  Neat (text ++ middle ++ other)
  := by
  constructor
  · obtain ⟨c, rest, rfl, hc⟩ := h.starts
    exact ⟨c, rest ++ middle ++ other, rfl, hc⟩
  · obtain ⟨rest, c, rfl, hc⟩ := hother.ends
    exact ⟨text ++ middle ++ rest, c, by simp, hc⟩
  · intro c hc
    rcases List.mem_append.mp hc with hc | hc
    · exact (List.mem_append.mp hc).elim (h.unbroken c)
        fun hc => Bool.eq_false_iff.mpr (List.any_eq_false.mp hmiddle c hc)
    · exact hother.unbroken c hc

theorem bracketed {text : List Char} (h : ∀ c ∈ text, Text.isLineBreak c = false) :
  Neat ('(' :: text ++ [')'])
  := by
  constructor
  · exact ⟨'(', text ++ [')'], rfl, .inl rfl⟩
  · exact ⟨'(' :: text, ')', rfl, .inl rfl⟩
  · intro c hc
    simp only [List.cons_append, List.mem_cons, List.mem_append, List.not_mem_nil, or_false] at hc
    rcases hc with rfl | hc | rfl
    · rfl
    · exact h c hc
    · rfl

theorem call {name text : List Char} (hname : Neat name)
    (h : ∀ c ∈ text, Text.isLineBreak c = false) :
  Neat (name ++ '(' :: text ++ [')'])
  := by
  have hcall : Neat (name ++ [] ++ ('(' :: text ++ [')'])) :=
    hname.between rfl (bracketed h)
  simpa using hcall

theorem minus {text : List Char} (h : Neat text) :
  Neat ('-' :: text)
  := by
  constructor
  · exact ⟨'-', text, rfl, .inr (.inl rfl)⟩
  · obtain ⟨rest, c, rfl, hc⟩ := h.ends
    exact ⟨'-' :: rest, c, rfl, hc⟩
  · intro c hc
    rcases List.mem_cons.mp hc with rfl | hc
    · rfl
    · exact h.unbroken c hc

theorem quote (value : List Char) :
  Neat (quote value)
  := by
  constructor
  · exact ⟨'"', value.flatMap escape ++ ['"'], rfl, .inr (.inr (.inl rfl))⟩
  · exact ⟨'"' :: value.flatMap escape, '"', rfl, .inr (.inl rfl)⟩
  · exact fun c => isLineBreak_of_mem_quote

/-- No operand starts or ends with white space. -/
theorem trimmed {text : List Char} (h : Neat text) :
  Text.Trimmed text
  := by
  constructor
  · obtain ⟨c, rest, rfl, hc⟩ := h.starts
    refine ⟨c, rest, rfl, ?_⟩
    rcases hc with rfl | rfl | rfl | hc
    · decide
    · decide
    · decide
    · exact Text.isBlank_of_isWordPart hc
  · obtain ⟨rest, c, rfl, hc⟩ := h.ends
    refine ⟨rest, c, rfl, ?_⟩
    rcases hc with rfl | rfl | hc
    · decide
    · decide
    · exact Text.isBlank_of_isWordPart hc

end Neat

theorem Text.IsName.neat {w : List Char} (h : IsName w) :
  Neat w
  := Neat.word h.ne_nil h.isWordPart

/-! ### Vocabularies -/

/-- The bare words that strings are written as, and the literals that they are read as. -/
structure Vocabulary where
  bareWords : List (String × String) := []
  literals : List (List Char × List Char) := []
  isName : ∀ s w, bareWords.lookup s = some w → Text.IsName w.toList
  literal : ∀ s w, bareWords.lookup s = some w → literals.lookup w.toList = some (quote s.toList)
  keyword : ∀ w, Grammar.isKeyword w → literals.lookup w.toList = none

namespace Vocabulary

/-- The vocabulary without bare words. -/
def plain : Vocabulary where
  isName := by simp
  literal := by simp
  keyword := by simp

/-- The renderer that writes the bare words. -/
def renderer (v : Vocabulary) (catalog : Catalog) : Renderer :=
  ⟨catalog, v.bareWords⟩

theorem isName_of_isKeyword {w : String} (h : Grammar.isKeyword w) :
  Text.IsName w.toList
  := by
  simp only [Grammar.isKeyword, List.mem_cons, List.not_mem_nil, or_false] at h
  rcases h with rfl | rfl | rfl | rfl | rfl | rfl | rfl <;>
    exact ⟨_, _, rfl, by decide, List.all_eq_true.mp (by decide)⟩

/-- A keyword stands for itself. -/
theorem means_keyword (v : Vocabulary) {w : String} (h : Grammar.isKeyword w) :
  Means v.literals w.toList [⟨.identifier, w.toList, false⟩]
  := Means.word (isName_of_isKeyword h) (v.keyword w h)

/-- The spelling of an operator stands for it. -/
theorem means_spelling (v : Vocabulary) (op : Operator) :
  ∃ t : Terminal, t.operator? = some op ∧ Means v.literals op.spelling.toList [t]
  := by
  cases op with
  | or => exact ⟨_, by decide, v.means_keyword (w := "or") (by decide)⟩
  | and => exact ⟨_, by decide, v.means_keyword (w := "and") (by decide)⟩
  | equal => exact ⟨.ofSymbol .equalEqual, rfl, Means.symbol .equalEqual⟩
  | notEqual => exact ⟨.ofSymbol .notEqual, rfl, Means.symbol .notEqual⟩
  | lessEqual => exact ⟨.ofSymbol .lessEqual, rfl, Means.symbol .lessEqual⟩
  | greaterEqual => exact ⟨.ofSymbol .greaterEqual, rfl, Means.symbol .greaterEqual⟩
  | less => exact ⟨.ofSymbol .less, rfl, Means.symbol .less⟩
  | greater => exact ⟨.ofSymbol .greater, rfl, Means.symbol .greater⟩
  | add => exact ⟨.ofSymbol .plus, rfl, Means.symbol .plus⟩
  | subtract => exact ⟨.ofSymbol .minus, rfl, Means.symbol .minus⟩
  | multiply => exact ⟨.ofSymbol .star, rfl, Means.symbol .star⟩
  | divide => exact ⟨.ofSymbol .slash, rfl, Means.symbol .slash⟩
  | remainder => exact ⟨.ofSymbol .percent, rfl, Means.symbol .percent⟩

end Vocabulary

/-! ### Texts that stand for a fragment -/

/-- A left operand without brackets is of the level of its place. -/
theorem Operator.leftLevel_le_of_bare (op : Operator) (p : Nat)
    (h : (p < op.precedence || op.isComparison && p == op.precedence) = false) :
  op.leftLevel.rank ≤ min p Level.unary.rank
  := by
  simp only [Bool.or_eq_false_iff, decide_eq_false_iff_not, Bool.and_eq_false_iff,
    beq_eq_false_iff_ne] at h
  cases op <;> simp_all [leftLevel, level, Level.rank, isComparison, precedence] <;> omega

/-- A right operand without brackets is of the level of its place. -/
theorem Operator.rightLevel_le_of_bare (op : Operator) (p : Nat)
    (h : decide (p ≤ op.precedence) = false) :
  op.rightLevel.rank ≤ min p Level.unary.rank
  := by
  rw [decide_eq_false_iff_not] at h
  rw [op.rightLevel_rank]
  cases op <;> simp_all [Level.rank, precedence] <;> omega

namespace Grammar

/-- The rendered text stands for a fragment, at a level that is as tight as the text binds;
no level of an operand is tighter than that of a unary expression. -/
structure Written (v : Vocabulary) (scope : Parse.Scope) (r : Rendered) (f : Fragment) : Prop where
  neat : Neat r.text
  derives : ∃ ts level, Means v.literals r.text ts ∧ Derives scope (.value level f) ts
    ∧ min r.precedence Level.unary.rank ≤ level.rank

namespace Written

variable {v : Vocabulary} {scope : Parse.Scope}

theorem atom {text : List Char} {f : Fragment} {ts : List Terminal} {level : Level}
    (hneat : Neat text) (hmeans : Means v.literals text ts)
    (hderives : Derives scope (.value level f) ts) (hlevel : Level.unary.rank ≤ level.rank) :
  Written v scope (.atom text) f
  := ⟨hneat, ts, level, hmeans, hderives, (Nat.min_le_right _ _).trans hlevel⟩

variable {r left right : Rendered} {f g : Fragment}

/-- An operand, in brackets if it may bind too loosely, is of the level of its place. -/
theorem textIn (h : Written v scope r f) {wrap : Bool} {level : Level}
    (hlevel : wrap = false → level.rank ≤ min r.precedence Level.unary.rank) :
  Neat (r.textIn wrap)
    ∧ ∃ ts, Means v.literals (r.textIn wrap) ts ∧ Derives scope (.value level f) ts
  := by
  obtain ⟨ts, own, hmeans, hderives, hown⟩ := h.derives
  cases wrap with
  | true =>
    constructor
    · exact Neat.bracketed h.neat.unbroken
    · refine ⟨_, hmeans.bracketed, ?_⟩
      have hgroup : Derives scope (.value .primary f)
          (.ofSymbol .openParen :: ts ++ [.ofSymbol .closeParen]) :=
        .group rfl rfl (.loosen (by cases own <;> decide) hderives)
      exact .loosen (by cases level <;> decide) hgroup
  | false =>
    exact ⟨h.neat, ts, hmeans, .loosen ((hlevel rfl).trans hown) hderives⟩

/-- An operator between operands stands for its fragment. -/
theorem binary {op : Operator} {spelling : String} (hspelling : spelling = op.spelling)
    (hleft : Written v scope left f) (hright : Written v scope right g) :
  Written v scope (.binary op spelling left right) (op.apply scope.catalog f g)
  := by
  obtain ⟨t, hop, hmeans⟩ := v.means_spelling op
  obtain ⟨hleftNeat, ts, hleftMeans, hleftDerives⟩ :=
    hleft.textIn (op.leftLevel_le_of_bare left.precedence)
  obtain ⟨hrightNeat, us, hrightMeans, hrightDerives⟩ :=
    hright.textIn (op.rightLevel_le_of_bare right.precedence)
  have hbreak : (' ' :: op.spelling.toList ++ [' ']).any Text.isLineBreak = false := by
    cases op <;> decide
  subst hspelling
  constructor
  · have hneat := hleftNeat.between hbreak hrightNeat
    simpa [Rendered.binary] using hneat
  · refine ⟨_, op.level, hleftMeans.between hmeans hrightMeans,
      .binary hop hleftDerives hrightDerives, ?_⟩
    rw [op.level_rank]
    exact Nat.min_le_left _ _

end Written

end Grammar

end TriggerLang
