import Mathlib.Data.List.Chain
import TriggerLang.Proofs.Lexing.Stability
import TriggerLang.Proofs.Render.RoundTrip

/-!
# Words and numbers of accepted lines

A bare word stands for itself where a word character comes before it, as in `2or`.  The lexer
only leaves such a word after a number or a character that it skips.  Nothing that the grammar
accepts has skipped characters, and of words it accepts only operators after a number, which
are keywords.  So the words of an accepted line are never bare words that were left alone.

The numbers of what a line is read as are those that are written in it, up to their signs.
-/

namespace TriggerLang

namespace Terminal

/-- The terminal is a number or has been skipped. -/
def LeavesWord (t : Terminal) : Prop :=
  t.kind ∈ [.integer, .float, .skipped]

/-- A word after a number is an operator. -/
def Agrees (t u : Terminal) : Prop :=
  t.LeavesWord → u.kind = .identifier → u.operator?.isSome = true

/-- A word directly after a word character is left there by a number or a skipped character. -/
def Touches (t u : Terminal) : Prop :=
  t.endsWord = true → u.kind = .identifier → t.LeavesWord

theorem not_leavesWord_of_operator? {t : Terminal} {op : Operator}
    (h : t.operator? = some op) :
  ¬ t.LeavesWord
  := by
  cases hkind : t.kind <;> simp_all [operator?, LeavesWord]

end Terminal

namespace Grammar

variable {scope : Parse.Scope}

/-- A terminal that goes with all others stands between two parts. -/
theorem isChain_append_cons {ts us : List Terminal} {t : Terminal}
    (hts : ts.IsChain Terminal.Agrees) (hus : us.IsChain Terminal.Agrees)
    (hbefore : ∀ u, Terminal.Agrees u t) (hafter : ¬ t.LeavesWord) :
  (ts ++ t :: us).IsChain Terminal.Agrees
  := by
  rw [List.isChain_append, List.isChain_cons]
  refine ⟨hts, ⟨?_, hus⟩, ?_⟩
  · intro u _ hleaves
    exact absurd hleaves hafter
  · rintro u _ v hv
    cases hv
    exact hbefore u

/-- What is derived has only operators among the words after a number. -/
theorem Derives.isChain {phrase : Phrase} {ts : List Terminal} (h : Derives scope phrase ts) :
  ts.IsChain Terminal.Agrees
  := by
  have symbol : ∀ {t : Terminal} {s : Symbol}, t.kind = .symbol s →
      (∀ u, Terminal.Agrees u t) ∧ ¬ t.LeavesWord := by
    intro t s ht
    simp [Terminal.Agrees, Terminal.LeavesWord, ht]
  induction h with
  | loosen _ _ ih => exact ih
  | binary hop _ _ ihleft ihright =>
    apply isChain_append_cons ihleft ihright
    · intro u _ _
      rw [hop]
      rfl
    · exact Terminal.not_leavesWord_of_operator? hop
  | negative hminus _ ih =>
    exact isChain_append_cons .nil ih (symbol hminus).1 (symbol hminus).2
  | group hopen hclose _ ih =>
    have hopened := isChain_append_cons .nil ih (symbol hopen).1 (symbol hopen).2
    exact isChain_append_cons hopened .nil (symbol hclose).1 (symbol hclose).2
  | @call _ _ _ name _ _ hname _ _ _ hopen hclose _ ih =>
    have hopened := isChain_append_cons (.singleton name) ih (symbol hopen).1 (symbol hopen).2
    exact isChain_append_cons hopened .nil (symbol hclose).1 (symbol hclose).2
  | @emptyCall _ name _ _ hname _ _ _ hopen hclose =>
    have hclosed := isChain_append_cons .nil .nil (symbol hclose).1 (symbol hclose).2
    exact isChain_append_cons (.singleton name) hclosed (symbol hopen).1 (symbol hopen).2
  | first _ ih => exact ih
  | further hcomma _ _ ihs ih =>
    exact isChain_append_cons ihs ih (symbol hcomma).1 (symbol hcomma).2
  | _ => exact .singleton _

theorem DerivesLine.isChain {f : Fragment} {ts : List Terminal} (h : DerivesLine scope f ts) :
  ts.IsChain Terminal.Agrees
  := by
  cases h with
  | trigger hsign =>
    apply isChain_append_cons .nil (.singleton _)
    · simp [Terminal.Agrees, hsign]
    · simp [Terminal.LeavesWord, hsign]
  | expression h => exact h.isChain

end Grammar

/-! ### Words in a text -/

/-- Words of a text touch only numbers and skipped characters before them. -/
theorem terminals_isChain (source : List Char) :
  (terminals source).IsChain Terminal.Touches
  := by
  induction source using lexemes_induction with
  | nil =>
    rw [terminals_nil]
    exact .nil
  | cons c others rest htext ih =>
    rw [terminals_of_first_append htext, List.isChain_cons]
    refine ⟨?_, ih⟩
    intro u hu hends hidentifier
    obtain ⟨d, hd, hstart⟩ : ∃ d ∈ rest.head?, Text.isWordStart d = true := by
      cases rest with
      | nil =>
        rw [terminals_nil] at hu
        cases hu
      | cons d rest =>
        rw [terminals, lexemes] at hu
        cases hu
        exact ⟨d, rfl, Lexeme.isWordStart_of_first_kind hidentifier⟩
    by_cases hstring : (Lexeme.first c others).kind = .string
    · rw [Terminal.endsWord_string hstring] at hends
      cases hends
    by_cases hword : (Lexeme.first c others).kind = .identifier
    · have hpart := Lexeme.isWordPart_of_first_identifier hword htext d hd
      rw [Text.isWordPart_of_isWordStart hstart] at hpart
      cases hpart
    by_cases hcomment : (Lexeme.first c others).kind = .comment
    · obtain ⟨line, -, -, hbreak⟩ := Lexeme.exists_first_comment hcomment htext
      have hbreak := hbreak d hd
      rw [Text.isLineBreak_of_isWordPart (Text.isWordPart_of_isWordStart hstart)] at hbreak
      cases hbreak
    rw [Terminal.endsWord_of_ne_string hstring, Option.any_eq_true] at hends
    obtain ⟨e, he, hpart⟩ := hends
    rcases Lexeme.isWordPart_of_first hstring hword hcomment (List.mem_of_getLast? he) with
      hnot | ⟨hkind, -⟩
    · rw [hpart] at hnot
      cases hnot
    · exact hkind

variable {literals : List (List Char × List Char)}
  (hkeyword : ∀ w, Grammar.isKeyword w → literals.lookup w.toList = none)

include hkeyword

/-- A word that is left by the replacement is no bare word, if it is an operator where a word
character comes before it. -/
theorem Terminal.lookup_substituted_eq_none {t : Terminal} {afterWord : Bool}
    (hafter : afterWord = true → t.kind = .identifier → t.operator?.isSome = true)
    (hkind : (t.substituted literals afterWord).kind = .identifier) :
  literals.lookup (t.substituted literals afterWord).text = none
  := by
  by_cases hidentifier : t.kind = .identifier
  · cases hlookup : literals.lookup t.text with
    | none => rw [substituted_of_lookup_none hlookup, hlookup]
    | some literal =>
      cases afterWord with
      | false =>
        rw [substituted_of_lookup_some hidentifier hlookup] at hkind
        cases hkind
      | true =>
        have hword := hkeyword _ (Grammar.isKeyword_of_operator? hidentifier (hafter rfl hidentifier))
        rw [word, String.toList_ofList, hlookup] at hword
        cases hword
  · rw [substituted_of_ne hidentifier] at hkind
    exact absurd hkind hidentifier

/-- The words that are left by the replacement are no bare words, if those after a number are
operators. -/
theorem lookup_eq_none_of_isChain {ts : List Terminal} {afterWord : Bool}
    (htouches : ts.IsChain Terminal.Touches)
    (hafter : afterWord = true → ∀ u ∈ ts.head?, u.kind = .identifier →
      u.operator?.isSome = true)
    (hagrees : ((substituteAll literals afterWord ts).filter Terminal.isSignificant).IsChain
      Terminal.Agrees) :
  ∀ t ∈ substituteAll literals afterWord ts, t.kind = .identifier →
    literals.lookup t.text = none
  := by
  induction ts generalizing afterWord with
  | nil =>
    intro t ht
    cases ht
  | cons t rest ih =>
    obtain ⟨hnext, htouches⟩ := List.isChain_cons.mp htouches
    rw [substituteAll, ← List.singleton_append, List.filter_append] at hagrees
    rw [substituteAll, List.forall_mem_cons]
    constructor
    · exact Terminal.lookup_substituted_eq_none hkeyword fun h => hafter h t rfl
    · apply ih htouches _ hagrees.right_of_append
      -- a word that is left alone comes directly after the number in what is agreed on
      intro hends u hu hidentifier
      have hleaves : t.LeavesWord := hnext u hu hends hidentifier
      have hne : t.kind ≠ .identifier := by
        intro hkind
        simp [Terminal.LeavesWord, hkind] at hleaves
      have hsignificant : t.isSignificant = true := by
        simp only [Terminal.LeavesWord, List.mem_cons, List.not_mem_nil, or_false] at hleaves
        rcases hleaves with hkind | hkind | hkind <;>
          simp [Terminal.isSignificant, hkind, TokenKind.isSignificant]
      obtain ⟨others, rfl⟩ := List.head?_eq_some_iff.mp hu
      have hu' : u.substituted literals true = u := by simp [Terminal.substituted]
      have hsignificant' : u.isSignificant = true := by
        simp [Terminal.isSignificant, hidentifier, TokenKind.isSignificant]
      rw [Terminal.substituted_of_ne hne, hends, substituteAll, hu',
        List.filter_cons_of_pos hsignificant, List.filter_cons_of_pos hsignificant'] at hagrees
      exact (List.isChain_cons.mp hagrees).1 u rfl hleaves hidentifier

/-- The words in the meaning of a text are no bare words, if those after a number are
operators. -/
theorem lookup_eq_none_of_mem_meaning {source : List Char}
    (h : (meaning literals source).IsChain Terminal.Agrees) :
  ∀ t ∈ meaning literals source, t.kind = .identifier → literals.lookup t.text = none
  := by
  intro t ht
  have hnot : false = true → ∀ u ∈ (terminals source).head?, u.kind = .identifier →
      u.operator?.isSome = true := by
    intro h
    cases h
  exact lookup_eq_none_of_isChain hkeyword (terminals_isChain source) hnot h t
    (List.mem_filter.mp ht).1

omit hkeyword

/-- A terminal of the meaning of a text that is no string is one of the text. -/
theorem mem_terminals_of_mem_meaning {source : List Char} {t : Terminal}
    (ht : t ∈ meaning literals source) (hkind : t.kind ≠ .string) :
  t ∈ terminals source
  := by
  obtain ⟨ht, -⟩ := List.mem_filter.mp ht
  generalize false = afterWord at ht
  generalize terminals source = ts at ht ⊢
  induction ts generalizing afterWord with
  | nil => cases ht
  | cons u rest ih =>
    rw [substituteAll] at ht
    rcases List.mem_cons.mp ht with rfl | ht
    · rcases u.substituted_eq_or literals afterWord with hself | hstring
      · rw [hself]
        exact List.mem_cons_self
      · exact absurd hstring hkind
    · exact List.mem_cons_of_mem _ (ih _ ht)

/-- A terminal of a text that means something and is no word is in the meaning of the text. -/
theorem mem_meaning_of_mem_terminals {source : List Char} {t : Terminal}
    (ht : t ∈ terminals source) (hkind : t.kind ≠ .identifier)
    (hsignificant : t.isSignificant = true) :
  t ∈ meaning literals source
  := by
  apply List.mem_filter.mpr ⟨?_, hsignificant⟩
  generalize false = afterWord
  generalize terminals source = ts at ht ⊢
  induction ts generalizing afterWord with
  | nil => cases ht
  | cons u rest ih =>
    rw [substituteAll]
    rcases List.mem_cons.mp ht with rfl | ht
    · rw [Terminal.substituted_of_ne hkind]
      exact List.mem_cons_self
    · exact List.mem_cons_of_mem _ (ih _ ht)

/-- The words of an accepted line are written as themselves. -/
theorem Vocabulary.admits_of_derivesLine (v : Vocabulary) {scope : Parse.Scope} {f : Fragment}
    {source : List Char} (h : Grammar.DerivesLine scope f (meaning v.literals source)) :
  ∀ t ∈ meaning v.literals source, v.Admits t
  := by
  intro t ht hkind
  constructor
  · exact isName_of_mem_terminals (mem_terminals_of_mem_meaning ht (by simp [hkind])) hkind
  · exact lookup_eq_none_of_mem_meaning v.keyword h.isChain t ht hkind

/-! ### Numbers -/

namespace Fragment

theorem FiniteFloats.apply {left right : Fragment} (catalog : Catalog) (op : Operator)
    (hleft : left.FiniteFloats) (hright : right.FiniteFloats) :
  (op.apply catalog left right).FiniteFloats
  := by
  obtain ⟨operandType, heq⟩ | heq := op.apply_eq_or catalog left right
  · rw [heq]
    exact ⟨⟨trivial, trivial, trivial⟩, hleft, hright, trivial⟩
  · rw [heq]
    exact ⟨trivial, ⟨⟨trivial, trivial⟩, hleft, hright, trivial⟩, trivial⟩

theorem FiniteFloats.negate {f : Fragment} (h : f.FiniteFloats) :
  (negate f).FiniteFloats
  := by
  cases f with
  | integer n => trivial
  | float x => exact h
  | _ => exact .apply {} .multiply trivial h

theorem FiniteFloats.labelled {f : Fragment} (h : f.FiniteFloats) (label : Option String) :
  (f.labelled label).FiniteFloats
  := by
  cases label with
  | none => exact h
  | some dataType =>
    rw [Fragment.labelled]
    split
    · cases f with
      | mapping fields =>
        rw [Fragment.setField, FiniteFloats, finiteFloatsOfFields_iff]
        intro entry hentry
        rcases Table.mem_set hentry with rfl | hentry
        · trivial
        · exact finiteFloatsOfFields_iff.mp h entry hentry
      | _ => exact h
    · exact h

end Fragment

namespace Grammar

/-- All numbers of the phrase are finite. -/
def Phrase.FiniteFloats : Phrase → Prop
  | .value _ f => f.FiniteFloats
  | .arguments fs => ∀ f ∈ fs, f.FiniteFloats

theorem finiteFloats_callOf {signature : Signature} {fs : List Fragment}
    (h : ∀ f ∈ fs, f.FiniteFloats) :
  (callOf signature fs).FiniteFloats
  := by
  rw [callOf, fieldsOf_eq, Fragment.FiniteFloats, Fragment.finiteFloatsOfFields_iff]
  intro entry hentry
  rcases Table.mem_setAll hentry with hentry | hentry
  · obtain rfl := List.mem_singleton.mp hentry
    trivial
  · obtain ⟨argument, hargument, rfl⟩ := List.mem_map.mp hentry
    exact (h argument.2 (List.of_mem_zip hargument).2).labelled (some argument.1.dataType)

/-- What is derived has finite numbers if those that are written are finite. -/
theorem Derives.finiteFloats {phrase : Phrase} {ts : List Terminal}
    (h : Derives scope phrase ts)
    (hfinite : ∀ t ∈ ts, t.kind = .float → (floatValue t.text).isFinite = true) :
  phrase.FiniteFloats
  := by
  induction h with
  | loosen _ _ ih => exact ih hfinite
  | binary _ _ _ ihleft ihright =>
    exact .apply _ _ (ihleft fun t ht => hfinite t (by simp [ht]))
      (ihright fun t ht => hfinite t (by simp [ht]))
  | negative _ _ ih => exact (ih fun t ht => hfinite t (by simp [ht])).negate
  | float hkind => exact hfinite _ List.mem_cons_self hkind
  | group _ _ _ ih => exact ih fun t ht => hfinite t (by simp [ht])
  | call _ _ _ _ _ _ _ ih =>
    exact finiteFloats_callOf (ih fun t ht => hfinite t (by simp [ht]))
  | first _ ih =>
    intro f hf
    rw [List.mem_singleton.mp hf]
    exact ih hfinite
  | further _ _ _ ihs ih =>
    intro f hf
    rcases List.mem_append.mp hf with hf | hf
    · exact ihs (fun t ht => hfinite t (by simp [ht])) f hf
    · rw [List.mem_singleton.mp hf]
      exact ih fun t ht => hfinite t (by simp [ht])
  | emptyCall | constant => exact finiteFloats_callOf (by simp)
  | declared => exact ⟨trivial, trivial, trivial, trivial⟩
  | integer | string | trueWord | falseWord => trivial

end Grammar

end TriggerLang
