import Mathlib.Data.List.Nodup
import TriggerLang.Proofs.Script.Replacement
import TriggerLang.Proofs.Text.Line

/-!
# The literals of substitutions

The literals of substitutions are collected with the first substitution of every word and
then ordered by the length of the words.  The order does not matter to what a word stands
for, since no word is collected twice.  Without literals a text stays as it is, and the
literals bring no line breaks into it.
-/

namespace TriggerLang

/-- The order of a table without repeated keys does not matter. -/
theorem Table.lookup_of_perm {α β : Type} [BEq α] [LawfulBEq α] {table other : List (α × β)}
    (h : table.Perm other) (hnodup : (table.map Prod.fst).Nodup) (key : α) :
  table.lookup key = other.lookup key
  := by
  induction h with
  | nil => rfl
  | cons entry _ ih =>
    rw [List.map_cons, List.nodup_cons] at hnodup
    rw [List.lookup_cons, List.lookup_cons, ih hnodup.2]
  | swap first second rest =>
    have hne : second.1 ≠ first.1 := by
      rintro heq
      simp [heq] at hnodup
    rw [List.lookup_cons, List.lookup_cons, List.lookup_cons, List.lookup_cons]
    by_cases hsecond : key = second.1
    · subst hsecond
      rw [beq_self_eq_true, beq_eq_false_iff_ne.mpr hne]
    · rw [beq_eq_false_iff_ne.mpr hsecond]
  | trans hleft _ ihleft ihright =>
    rw [ihleft hnodup, ihright ((hleft.map Prod.fst).nodup_iff.mp hnodup)]

namespace Substitution

/-- The string that the first substitution of a word makes it stand for. -/
def replacement? (substitutions : List Substitution) (word : String) : Option String :=
  (substitutions.find? (·.matchToken == word)).map replacement

/-- A word that is substituted stands for some string. -/
theorem exists_replacement? {substitutions : List Substitution} {s : Substitution}
    (h : s ∈ substitutions) :
  ∃ first ∈ substitutions, first.matchToken = s.matchToken
    ∧ replacement? substitutions s.matchToken = some first.replacement
  := by
  have hfound : (substitutions.find? (·.matchToken == s.matchToken)).isSome :=
    List.find?_isSome.mpr ⟨s, h, beq_self_eq_true s.matchToken⟩
  obtain ⟨first, hfirst⟩ := Option.isSome_iff_exists.mp hfound
  have hsame := List.find?_some hfirst
  exact ⟨first, List.mem_of_find?_eq_some hfirst, beq_iff_eq.mp hsame,
    congrArg (Option.map replacement) hfirst⟩

/-- If no word is substituted twice, every word stands for its own string. -/
theorem replacement?_of_nodup {substitutions : List Substitution}
    (hnodup : (substitutions.map matchToken).Nodup) {s : Substitution} (h : s ∈ substitutions) :
  replacement? substitutions s.matchToken = some s.replacement
  := by
  obtain ⟨first, hmem, hsame, hreplacement⟩ := exists_replacement? h
  obtain rfl := List.inj_on_of_nodup_map hnodup hmem h hsame
  exact hreplacement

/-- The words with their literals after one more substitution. -/
def collect (entries : List (String × List Char)) (s : Substitution) :
    List (String × List Char) :=
  if s.matchToken = "" ∨ (entries.lookup s.matchToken).isSome then
    entries
  else
    entries ++ [(s.matchToken, quote s.replacement.toList)]

/-- What was collected stays, and a new word is appended. -/
theorem lookup_collect {word : String} (hword : word ≠ "") (entries : List (String × List Char))
    (s : Substitution) :
  (collect entries s).lookup word = (entries.lookup word).or
    (if s.matchToken = word then some (quote s.replacement.toList) else none)
  := by
  rw [collect]
  by_cases hs : s.matchToken = word
  · rw [if_pos hs, hs]
    cases hlookup : entries.lookup word with
    | none => simp [hword, List.lookup_append, hlookup]
    | some literal => simp [hlookup]
  · have hne : (word == s.matchToken) = false := by simpa using Ne.symm hs
    rw [if_neg hs, Option.or_none]
    split
    · rfl
    · rw [List.lookup_append, List.lookup_cons, hne]
      exact Option.or_none

theorem nodup_keys_collect {entries : List (String × List Char)}
    (h : (Table.keys entries).Nodup) (s : Substitution) :
  (Table.keys (collect entries s)).Nodup
  := by
  rw [collect]
  split
  · exact h
  · rename_i hnew
    rw [Table.keys, List.map_append, List.nodup_append]
    refine ⟨h, List.nodup_singleton _, ?_⟩
    rintro word hmem _ hs rfl
    obtain rfl := List.mem_singleton.mp hs
    obtain ⟨entry, hentry, heq⟩ := List.mem_map.mp hmem
    refine hnew (.inr (List.lookup_isSome_iff.mpr ⟨entry, hentry, ?_⟩))
    rw [heq]
    exact beq_self_eq_true _

theorem mem_collect {entries : List (String × List Char)} {s : Substitution}
    {entry : String × List Char} (h : entry ∈ collect entries s) :
  entry ∈ entries ∨ entry = (s.matchToken, quote s.replacement.toList)
  := by
  rw [collect] at h
  split at h
  · exact .inl h
  · exact (List.mem_append.mp h).imp_right List.mem_singleton.mp

/-- The first substitution of a word counts. -/
theorem lookup_foldl_collect {word : String} (hword : word ≠ "")
    (substitutions : List Substitution) (entries : List (String × List Char)) :
  (substitutions.foldl collect entries).lookup word = (entries.lookup word).or
    ((replacement? substitutions word).map fun r => quote r.toList)
  := by
  induction substitutions generalizing entries with
  | nil => exact Option.or_none.symm
  | cons s rest ih =>
    rw [List.foldl_cons, ih, lookup_collect hword, Option.or_assoc, replacement?, replacement?,
      List.find?_cons]
    by_cases hs : s.matchToken = word
    · simp [hs]
    · simp [beq_eq_false_iff_ne.mpr hs, hs]

theorem nodup_keys_foldl_collect {entries : List (String × List Char)}
    (h : (Table.keys entries).Nodup) (substitutions : List Substitution) :
  (Table.keys (substitutions.foldl collect entries)).Nodup
  := by
  induction substitutions generalizing entries with
  | nil => exact h
  | cons s rest ih => exact ih (nodup_keys_collect h s)

theorem mem_foldl_collect {substitutions : List Substitution}
    {entries : List (String × List Char)} {entry : String × List Char}
    (h : entry ∈ substitutions.foldl collect entries) :
  entry ∈ entries
    ∨ ∃ s ∈ substitutions, entry = (s.matchToken, quote s.replacement.toList)
  := by
  induction substitutions generalizing entries with
  | nil => exact .inl h
  | cons s rest ih =>
    rcases ih h with h | ⟨s', hs', heq⟩
    · rcases mem_collect h with h | heq
      · exact .inl h
      · exact .inr ⟨s, List.mem_cons_self, heq⟩
    · exact .inr ⟨s', List.mem_cons_of_mem s hs', heq⟩

/-- The literals are what is collected, in another order. -/
theorem perm_literals (substitutions : List Substitution) :
  (literals substitutions).Perm
    ((substitutions.foldl collect []).map fun entry => (entry.1.toList, entry.2))
  := List.mergeSort_perm _ _

theorem lookup_map_toList (entries : List (String × List Char)) (word : String) :
  (entries.map fun entry => (entry.1.toList, entry.2)).lookup word.toList = entries.lookup word
  := by
  induction entries with
  | nil => rfl
  | cons entry rest ih =>
    rw [List.map_cons, List.lookup_cons, List.lookup_cons, ih]
    by_cases h : word = entry.1
    · simp [h]
    · rw [beq_eq_false_iff_ne.mpr h, beq_eq_false_iff_ne.mpr (mt String.toList_inj.mp h)]

/-- A word stands for the literal of the first substitution of it. -/
theorem lookup_literals (substitutions : List Substitution) {word : String} (hword : word ≠ "") :
  (literals substitutions).lookup word.toList
    = (replacement? substitutions word).map fun r => quote r.toList
  := by
  have hkeys : (Table.keys (substitutions.foldl collect [])).Nodup :=
    nodup_keys_foldl_collect (by exact List.nodup_nil) substitutions
  have hnodup : (((substitutions.foldl collect []).map fun entry =>
      (entry.1.toList, entry.2)).map Prod.fst).Nodup := by
    rw [List.map_map]
    change ((substitutions.foldl collect []).map (String.toList ∘ Prod.fst)).Nodup
    rw [← List.map_map]
    exact hkeys.map fun _ _ => String.toList_inj.mp
  rw [Table.lookup_of_perm (perm_literals substitutions)
    (((perm_literals substitutions).map Prod.fst).nodup_iff.mpr hnodup), lookup_map_toList,
    lookup_foldl_collect hword]
  rfl

/-- The words of the literals are those of the substitutions. -/
theorem exists_of_mem_literals {substitutions : List Substitution}
    {entry : List Char × List Char} (h : entry ∈ literals substitutions) :
  ∃ s ∈ substitutions, entry = (s.matchToken.toList, quote s.replacement.toList)
  := by
  obtain ⟨collected, hcollected, rfl⟩ :=
    List.mem_map.mp ((perm_literals substitutions).mem_iff.mp h)
  rcases mem_foldl_collect hcollected with hnil | ⟨s, hs, rfl⟩
  · cases hnil
  · exact ⟨s, hs, rfl⟩

/-- Substitutions of identifiers replace words by literals. -/
theorem areBareWords_literals {substitutions : List Substitution}
    (h : ∀ s ∈ substitutions, Text.IsName s.matchToken.toList) :
  AreBareWords (literals substitutions)
  := by
  constructor
  · intro entry hentry
    obtain ⟨s, hs, rfl⟩ := exists_of_mem_literals hentry
    exact h s hs
  · intro entry hentry
    obtain ⟨s, hs, rfl⟩ := exists_of_mem_literals hentry
    exact ⟨_, rfl⟩

/-- A word stands for the literal of the first substitution of it, if only identifiers are
replaced. -/
theorem lookup_literals_of_isName {substitutions : List Substitution}
    (h : ∀ s ∈ substitutions, Text.IsName s.matchToken.toList) (word : String) :
  (literals substitutions).lookup word.toList
    = (replacement? substitutions word).map fun r => quote r.toList
  := by
  by_cases hword : word = ""
  · have hno : ∀ s ∈ substitutions, s.matchToken ≠ word := by
      intro s hs heq
      exact (h s hs).ne_nil (by rw [heq, hword]; rfl)
    have hnone : (literals substitutions).lookup word.toList = none := by
      rw [List.lookup_eq_none_iff]
      intro entry hentry
      obtain ⟨s, hs, rfl⟩ := exists_of_mem_literals hentry
      rw [bne_iff_ne]
      exact fun heq => hno s hs (String.toList_inj.mp heq.symm)
    have hfind : replacement? substitutions word = none := by
      rw [replacement?, Option.map_eq_none_iff, List.find?_eq_none]
      intro s hs
      rw [beq_iff_eq]
      exact hno s hs
    rw [hnone, hfind]
    rfl
  · exact lookup_literals substitutions hword

/-! ### The characters that come out -/

theorem mem_replaceWords {entries : List (List Char × List Char)} {afterWord : Bool} {skip : Nat}
    {text : List Char} {c : Char} (h : c ∈ replaceWords entries afterWord skip text) :
  c ∈ text ∨ ∃ entry ∈ entries, c ∈ entry.2
  := by
  induction text generalizing afterWord skip with
  | nil =>
    cases skip <;>
    · rw [replaceWords] at h
      cases h
  | cons d rest ih =>
    cases skip with
    | succ skip =>
      rw [replaceWords] at h
      exact (ih h).imp_left (List.mem_cons_of_mem d)
    | zero =>
      cases hwhole : wholeWord? entries afterWord (d :: rest) with
      | none =>
        rw [replaceWords_cons hwhole] at h
        rcases List.mem_cons.mp h with rfl | h
        · exact .inl List.mem_cons_self
        · exact (ih h).imp_left (List.mem_cons_of_mem d)
      | some entry =>
        rw [replaceWords, hwhole] at h
        rcases List.mem_append.mp h with h | h
        · exact .inr ⟨entry, (of_wholeWord? hwhole).1, h⟩
        · exact (ih h).imp_left (List.mem_cons_of_mem d)

theorem mem_replaceBetween {entries : List (List Char × List Char)} {pending : List Char}
    {ls : List Lexeme} {c : Char} (h : c ∈ replaceBetween entries pending ls) :
  c ∈ pending ++ ls.flatMap Lexeme.text ∨ ∃ entry ∈ entries, c ∈ entry.2
  := by
  induction ls generalizing pending with
  | nil => exact (mem_replaceWords h).imp_left (List.mem_append_left _)
  | cons lexeme rest ih =>
    rw [replaceBetween] at h
    rw [List.flatMap_cons]
    split at h
    · rcases List.mem_append.mp h with h | h
      · rcases List.mem_append.mp h with h | h
        · exact (mem_replaceWords h).imp_left (List.mem_append_left _)
        · exact .inl (List.mem_append_right _ (List.mem_append_left _ h))
      · exact (ih h).imp_left fun h =>
          List.mem_append_right _ (List.mem_append_right lexeme.text h)
    · rw [← List.append_assoc]
      exact ih h

/-- What is put in brings no line breaks. -/
theorem unbroken_applyAll {text : List Char} (h : Text.Unbroken text)
    (substitutions : List Substitution) :
  Text.Unbroken (applyAll substitutions text)
  := by
  intro c hc
  rcases mem_replaceBetween hc with hc | ⟨entry, hentry, hc⟩
  · rw [List.nil_append, flatMap_text_lexemes] at hc
    exact h c hc
  · obtain ⟨s, -, rfl⟩ := exists_of_mem_literals hentry
    exact isLineBreak_of_mem_quote hc

/-! ### The text before the first literal -/

/-- The text is kept up to the first literal that is put in. -/
def UpToLiteral (text output : List Char) : Prop :=
  output = text ∨ ∃ before after, before <+: text ∧ output = before ++ '"' :: after

theorem UpToLiteral.append {text output rest others : List Char} (h : UpToLiteral text output)
    (hrest : UpToLiteral rest others) :
  UpToLiteral (text ++ rest) (output ++ others)
  := by
  rcases h with rfl | ⟨before, after, hbefore, rfl⟩
  · rcases hrest with rfl | ⟨before, after, hbefore, rfl⟩
    · exact .inl rfl
    · refine .inr ⟨output ++ before, after, (List.prefix_append_right_inj output).mpr hbefore, ?_⟩
      rw [List.append_assoc]
  · refine .inr ⟨before, after ++ others, hbefore.trans (List.prefix_append text rest), ?_⟩
    rw [List.append_assoc, List.cons_append]

theorem upToLiteral_replaceWords {entries : List (List Char × List Char)}
    (hquoted : ∀ entry ∈ entries, entry.2.head? = some '"') (afterWord : Bool) (text : List Char) :
  UpToLiteral text (replaceWords entries afterWord 0 text)
  := by
  induction text generalizing afterWord with
  | nil => exact .inl rfl
  | cons c rest ih =>
    cases hwhole : wholeWord? entries afterWord (c :: rest) with
    | none =>
      rw [replaceWords_cons hwhole]
      have hfirst : UpToLiteral [c] [c] := .inl rfl
      exact hfirst.append (ih _)
    | some entry =>
      obtain ⟨word, literal⟩ := entry
      obtain ⟨others, rfl⟩ := List.head?_eq_some_iff.mp (hquoted _ (of_wholeWord? hwhole).1)
      rw [replaceWords, hwhole]
      exact .inr ⟨[], _, List.nil_prefix, rfl⟩

theorem upToLiteral_replaceBetween {entries : List (List Char × List Char)}
    (hquoted : ∀ entry ∈ entries, entry.2.head? = some '"') (pending : List Char)
    (ls : List Lexeme) :
  UpToLiteral (pending ++ ls.flatMap Lexeme.text) (replaceBetween entries pending ls)
  := by
  induction ls generalizing pending with
  | nil =>
    rw [List.flatMap_nil, List.append_nil]
    exact upToLiteral_replaceWords hquoted false pending
  | cons lexeme rest ih =>
    rw [List.flatMap_cons, ← List.append_assoc, replaceBetween]
    split
    · exact ((upToLiteral_replaceWords hquoted false pending).append (.inl rfl)).append (ih [])
    · exact ih (pending ++ lexeme.text)

/-- Whatever words are replaced, the text is kept up to the first literal. -/
theorem upToLiteral_applyAll (substitutions : List Substitution) (text : List Char) :
  UpToLiteral text (applyAll substitutions text)
  := by
  have hquoted : ∀ entry ∈ literals substitutions, entry.2.head? = some '"' := by
    intro entry hentry
    obtain ⟨s, -, rfl⟩ := exists_of_mem_literals hentry
    rfl
  have hkept := upToLiteral_replaceBetween hquoted [] (lexemes text)
  rwa [List.nil_append, flatMap_text_lexemes] at hkept

/-! ### Texts without substitutions -/

theorem replaceWords_nil (afterWord : Bool) (text : List Char) :
  replaceWords [] afterWord 0 text = text
  := by
  induction text generalizing afterWord with
  | nil => rfl
  | cons c rest ih =>
    have hwhole : wholeWord? [] afterWord (c :: rest) = none := by
      rw [wholeWord?]
      split <;> rfl
    rw [replaceWords_cons hwhole, ih]

theorem replaceBetween_of_nil (pending : List Char) (ls : List Lexeme) :
  replaceBetween [] pending ls = pending ++ ls.flatMap Lexeme.text
  := by
  induction ls generalizing pending with
  | nil => rw [replaceBetween, replaceWords_nil, List.flatMap_nil, List.append_nil]
  | cons lexeme rest ih =>
    rw [replaceBetween, List.flatMap_cons]
    split
    · rw [replaceWords_nil, ih, List.nil_append, List.append_assoc]
    · rw [ih, List.append_assoc]

/-- Without substitutions a text stays as it is. -/
theorem applyAll_nil (text : List Char) :
  applyAll [] text = text
  := by
  have hliterals : literals [] = [] := by simp [literals]
  rw [applyAll, hliterals, replaceBetween_of_nil, List.nil_append, flatMap_text_lexemes]

/-- There is nothing to replace in an empty text. -/
theorem applyAll_empty (substitutions : List Substitution) :
  applyAll substitutions [] = []
  := by
  rw [applyAll, lexemes]
  rfl

end Substitution

end TriggerLang
