import TriggerLang.Proofs.Render.Written

/-!
# Printed fragments

A fragment is printed as another one if it is rendered as a text that stands for the other
one.  What is built of fragments that are printed as themselves is printed as itself.
-/

namespace TriggerLang

namespace Renderer

variable {renderer : Renderer}

theorem operatorNamed_headerOperator (op : Operator) (rest : Fragment.Fields) :
  operatorNamed (headerOperator (("operator", .string op.name) :: rest)) = .ok op
  := by
  simp [headerOperator, Fragment.plainField, Fragment.plain, operatorNamed, op.ofName?_name]

/-- A condition is rendered as its operator between its operands. -/
theorem rendered_condition (op : Operator) (rest : Fragment.Fields) (left right : Fragment) :
  renderer.rendered (.list [.mapping (("operator", .string op.name) :: rest), left, right])
    = do
      let l ← renderer.rendered left
      let r ← renderer.rendered right
      return .binary op op.spelling l r
  := by
  rw [rendered, operatorNamed_headerOperator]
  rfl

/-- A calculation is rendered as its operator between its operands, whatever other fields it
has. -/
theorem rendered_items {fields : Fragment.Fields} {op : Operator} {left right : Fragment}
    (hfunction : fields.lookup "function" = some (.string calculateFunction))
    (hitems : fields.lookup "items"
      = some (.list [.mapping [("operator", .string op.name)], left, right])) :
  renderer.rendered (.mapping fields)
    = do
      let l ← renderer.rendered left
      let r ← renderer.rendered right
      return .binary op op.name l r
  := by
  rw [rendered]
  simp only [hfunction]
  rw [renderedCall, if_pos rfl]
  split
  · rename_i header left' right' heq
    rw [hitems] at heq
    cases heq
    rw [operatorNamed_headerOperator]
    rfl
  · rename_i hother
    exact absurd hitems (hother _ _ _)

theorem rendered_calculation (op : Operator) (left right : Fragment) :
  renderer.rendered (op.calculation left right)
    = do
      let l ← renderer.rendered left
      let r ← renderer.rendered right
      return .binary op op.name l r
  := rendered_items rfl rfl

/-- The fragment of an operator is rendered as that operator between its operands. -/
theorem rendered_apply {op : Operator} {left right : Fragment} {l r : Rendered}
    (catalog : Catalog) (hleft : renderer.rendered left = .ok l)
    (hright : renderer.rendered right = .ok r) :
  renderer.rendered (op.apply catalog left right) = .ok (.binary op op.spelling l r)
  := by
  have hcondition : ∀ operandType, renderer.rendered (.list [op.header operandType, left, right])
      = .ok (.binary op op.spelling l r) := by
    intro operandType
    rw [Operator.header, rendered_condition, hleft, hright]
    rfl
  rw [Operator.apply]
  split
  · exact hcondition _
  · split
    · exact hcondition _
    · have hspelling : op.name = op.spelling := by
        cases op <;> simp_all [Operator.isConnective, Operator.isComparison, Operator.precedence,
          Operator.spelling]
      rw [rendered_calculation, hleft, hright, ← hspelling]
      rfl

end Renderer

namespace Fragment

mutual

/-- All numbers of the fragment are finite. -/
def FiniteFloats : Fragment → Prop
  | .float x => x.isFinite = true
  | .list items => FiniteFloatsOfItems items
  | .mapping fields => FiniteFloatsOfFields fields
  | _ => True

/-- All numbers of the fragments are finite. -/
def FiniteFloatsOfItems : List Fragment → Prop
  | [] => True
  | item :: rest => item.FiniteFloats ∧ FiniteFloatsOfItems rest

/-- All numbers of the fields are finite. -/
def FiniteFloatsOfFields : Fields → Prop
  | [] => True
  | (_, value) :: rest => value.FiniteFloats ∧ FiniteFloatsOfFields rest

end

theorem finiteFloatsOfFields_iff {fields : Fields} :
  FiniteFloatsOfFields fields ↔ ∀ entry ∈ fields, entry.2.FiniteFloats
  := by
  induction fields with
  | nil => simp [FiniteFloatsOfFields]
  | cons entry rest ih =>
    obtain ⟨field, value⟩ := entry
    simp [FiniteFloatsOfFields, ih]

/-- The operands of an operator have finite numbers if its fragment has. -/
theorem FiniteFloats.of_apply {catalog : Catalog} {op : Operator} {left right : Fragment}
    (h : (op.apply catalog left right).FiniteFloats) :
  left.FiniteFloats ∧ right.FiniteFloats
  := by
  obtain ⟨operandType, heq⟩ | heq := op.apply_eq_or catalog left right
  · rw [heq] at h
    exact ⟨h.2.1, h.2.2.1⟩
  · rw [heq] at h
    exact ⟨h.2.1.2.1, h.2.1.2.2.1⟩

end Fragment

namespace Grammar

/-- The number that is written around a point is the one that its literal stands for. -/
theorem floatValue_of_writesFloat {text whole fraction : List Char} {x : Binary64}
    (h : WritesFloat text x whole fraction) :
  floatValue text = x
  := by
  have hpoint : ∀ c ∈ ('.' :: fraction).head?, Text.isDigit c = false := by
    rintro c ⟨⟩
    decide
  rw [floatValue, h.text_eq, List.takeWhile_append_of_head h.whole_digits hpoint]
  simpa using h.value_eq

/-- The value is rendered as a text that stands for the fragment. -/
def Prints (v : Vocabulary) (scope : Parse.Scope) (value f : Fragment) : Prop :=
  ∃ r, (v.renderer scope.catalog).rendered value = .ok r ∧ Written v scope r f

namespace Prints

variable {v : Vocabulary} {scope : Parse.Scope}

theorem boolean (b : Bool) :
  Prints v scope (.boolean b) (.boolean b)
  := by
  cases b with
  | true =>
    have hkeyword : isKeyword "true" := by decide
    refine ⟨.atom "true".toList, by rw [Renderer.rendered], ?_⟩
    exact .atom (Vocabulary.isName_of_isKeyword hkeyword).neat (v.means_keyword hkeyword)
      (.trueWord rfl rfl) (by decide)
  | false =>
    have hkeyword : isKeyword "false" := by decide
    refine ⟨.atom "false".toList, by rw [Renderer.rendered], ?_⟩
    exact .atom (Vocabulary.isName_of_isKeyword hkeyword).neat (v.means_keyword hkeyword)
      (.falseWord rfl rfl) (by decide)

/-- An integer is printed with its sign, which is read as an operator. -/
theorem integer (n : Int) :
  Prints v scope (.integer n) (.integer n)
  := by
  refine ⟨.atom (integerText n), by rw [Renderer.rendered], ?_⟩
  have hdigits : ∀ c ∈ Nat.toDigits 10 n.natAbs, Text.isDigit c = true :=
    fun c => isDigit_of_mem_toDigits
  have hmeans : Means v.literals (Nat.toDigits 10 n.natAbs)
      [⟨.integer, Nat.toDigits 10 n.natAbs, false⟩] := .integer Nat.toDigits_ne_nil hdigits
  have hneat : Neat (Nat.toDigits 10 n.natAbs) :=
    .word Nat.toDigits_ne_nil fun c hc => Text.isWordPart_of_isDigit (hdigits c hc)
  have hderives : Derives scope (.value .primary (.integer n.natAbs))
      [⟨.integer, Nat.toDigits 10 n.natAbs, false⟩] := by
    have hvalue := @Derives.integer scope ⟨.integer, Nat.toDigits 10 n.natAbs, false⟩ rfl
    rwa [readDigits_toDigits] at hvalue
  rw [integerText]
  split
  · rename_i hnegative
    have hnegate : negate (.integer n.natAbs) = .integer n := by
      rw [negate]
      congr 1
      omega
    rw [← hnegate]
    exact .atom hneat.minus (hmeans.symbol_append (s := .minus) rfl)
      (.negative rfl (.loosen (by decide) hderives)) (Nat.le_refl _)
  · rename_i hnonnegative
    have hvalue : (n.natAbs : Int) = n := by omega
    rw [hvalue] at hderives
    exact .atom hneat hmeans hderives (by decide)

/-- A finite number is printed with its sign, which is read as an operator. -/
theorem float {x : Binary64} (hfinite : x.isFinite = true) :
  Prints v scope (.float x) (.float x)
  := by
  refine ⟨.atom x.positional, by rw [Renderer.rendered], ?_⟩
  have hpositive : ∀ y : Binary64, y.isFinite = true → y.negative = false →
      Neat y.positional ∧ Means v.literals y.positional [⟨.float, y.positional, false⟩]
        ∧ Derives scope (.value .primary (.float y)) [⟨.float, y.positional, false⟩] := by
    intro y hy hsign
    obtain ⟨whole, fraction, h⟩ := Binary64.writesFloat_positional hy hsign
    have hneat : Neat (whole ++ ['.'] ++ fraction) := by
      apply Neat.between
      · exact .word h.whole_ne_nil fun c hc => Text.isWordPart_of_isDigit (h.whole_digits c hc)
      · rfl
      · exact .word h.fraction_ne_nil fun c hc =>
          Text.isWordPart_of_isDigit (h.fraction_digits c hc)
    have hmeans : Means v.literals (whole ++ '.' :: fraction)
        [⟨.float, whole ++ '.' :: fraction, false⟩] :=
      .float h.whole_ne_nil h.fraction_ne_nil h.whole_digits h.fraction_digits
    have hderives := @Derives.float scope ⟨.float, y.positional, false⟩ rfl
    rw [floatValue_of_writesFloat h] at hderives
    rw [← h.text_eq] at hmeans
    rw [List.append_assoc, List.singleton_append, ← h.text_eq] at hneat
    exact ⟨hneat, hmeans, hderives⟩
  cases hsign : x.negative with
  | false =>
    obtain ⟨hneat, hmeans, hderives⟩ := hpositive x hfinite hsign
    exact .atom hneat hmeans hderives (by decide)
  | true =>
    obtain ⟨hneat, hmeans, hderives⟩ := hpositive (-x) hfinite (by simp [Neg.neg, Binary64.neg, hsign])
    have hnegate : negate (.float (-x)) = .float x := congrArg _ x.neg_neg
    rw [Binary64.positional_of_negative hsign, ← hnegate]
    exact .atom hneat.minus (hmeans.symbol_append (s := .minus) rfl)
      (.negative rfl (.loosen (by decide) hderives)) (Nat.le_refl _)

/-- A string is printed as the bare word that stands for it, or as a literal. -/
theorem string (s : String) :
  Prints v scope (.string s) (.string s)
  := by
  refine ⟨.atom ((v.renderer scope.catalog).stringText s), by rw [Renderer.rendered], ?_⟩
  have hderives : Derives scope (.value .primary (.string s))
      [⟨.string, quote s.toList, false⟩] := by
    have hvalue := @Derives.string scope ⟨.string, quote s.toList, false⟩ rfl rfl
    rwa [unquote_quote, String.ofList_toList] at hvalue
  rw [Renderer.stringText]
  split
  · rename_i w hword
    exact .atom (v.isName s w hword).neat (.bareWord (v.isName s w hword) (v.literal s w hword))
      hderives (by decide)
  · exact .atom (.quote _) (.quote _) hderives (by decide)

/-- What an operator makes of fragments that are printed as themselves is printed as itself. -/
theorem apply {left right : Fragment} (op : Operator) (hleft : Prints v scope left left)
    (hright : Prints v scope right right) :
  Prints v scope (op.apply scope.catalog left right) (op.apply scope.catalog left right)
  := by
  obtain ⟨l, hl, hleft⟩ := hleft
  obtain ⟨r, hr, hright⟩ := hright
  exact ⟨_, Renderer.rendered_apply _ hl hr, hleft.binary rfl hright⟩

end Prints

end Grammar

end TriggerLang
