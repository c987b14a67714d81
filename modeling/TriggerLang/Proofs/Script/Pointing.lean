import TriggerLang.Proofs.Lexing.Place
import TriggerLang.Proofs.Parse.Failure
import TriggerLang.Script.Outcome

/-!
# What the diagnostics of an expression point at

Every diagnostic of an expression points at a token of its text, at its end, or at all of it.
A token that could not stand in its place is quoted in the message, and so is a name that is
not known.
-/

namespace TriggerLang

/-- The issue is that a value does not have the type that its place asks for. -/
def Issue.isMismatch : Issue → Bool
  | .returnTypeMismatch | .argumentTypeMismatch => true
  | _ => false

/-- What a diagnostic of a text can point at. -/
inductive Diagnostic.Points (source : List Char) : Diagnostic → Prop
  /-- The token that could not stand in its place. -/
  | unexpected {token : Token} (h : token ∈ properTokens source) (expected : String) :
      Points source (.saying .unexpectedToken (token.region source)
        ("expect " ++ expected ++ " here, but got " ++ token.word))
  /-- The end of a text that is not complete. -/
  | incomplete (expected : String) :
      Points source (.saying .unexpectedToken ((endToken source).region source)
        ("expect " ++ expected ++ " here, but got " ++ "end of line"))
  /-- A name that is not known. -/
  | undefined {name : Token} (h : name ∈ properTokens source) (hkind : name.kind = .identifier) :
      Points source (.saying .undefinedName (name.region source)
        (Parse.undefinedMessage name.word))
  /-- A name in a value that has the wrong type. -/
  | mismatch {issue : Issue} (hissue : issue.isMismatch = true) {name : Token}
      (h : name ∈ properTokens source) (hkind : name.kind = .identifier) (message : String) :
      Points source (.saying issue (name.region source) message)
  /-- All of a text that has the wrong type. -/
  | whole {issue : Issue} (hissue : issue.isMismatch = true) (message : String) :
      Points source (.saying issue (.ofLine source) message)

theorem mem_properTokens_of_mem_significantTokens {source : List Char} {token : Token}
    (h : token ∈ significantTokens source) :
  token ∈ properTokens source
  := (List.mem_filter.mp h).1

/-- A text that cannot be parsed is reported where it was refused. -/
theorem points_of_isAbout {source : List Char} {failure : Parse.Failure}
    (h : failure.IsAbout (significantTokens source)) :
  ((failure.rejection source).diagnostic source).Points source
  := by
  cases h with
  | unexpected h expected =>
    exact .unexpected (mem_properTokens_of_mem_significantTokens h) _
  | incomplete expected => exact .incomplete _
  | @undefined name h hkind =>
    have hmem := mem_properTokens_of_mem_significantTokens h
    obtain ⟨found, hfound⟩ := exists_findIdentifier? hmem hkind
    obtain ⟨hfound_mem, hfound_kind, hword⟩ := of_findIdentifier? hfound
    rw [Parse.Failure.rejection, Rejection.diagnostic, hfound, ← hword]
    exact .undefined hfound_mem hfound_kind

/-- A mismatch is reported at a name that the text holds, or for all of the text. -/
theorem Mismatch.points (mismatch : Mismatch) (source : List Char) :
  (mismatch.diagnostic source).Points source
  := by
  have hissue : mismatch.issue.isMismatch = true := by cases mismatch <;> rfl
  rw [diagnostic, region]
  cases hname : mismatch.candidates.findSome? (findIdentifier? source) with
  | none => exact .whole hissue _
  | some token =>
    obtain ⟨name, -, hfound⟩ := List.exists_of_findSome?_eq_some hname
    obtain ⟨hmem, hkind, -⟩ := of_findIdentifier? hfound
    exact .mismatch hissue hmem hkind _

/-- Whatever is wrong with a text points at a part of it. -/
theorem points_of_mem_evaluateSource {scope : Parse.Scope} {context : Context}
    {source : List Char} {expected : String} {d : Diagnostic}
    (h : d ∈ (evaluateSource (.ofScope scope) context source expected).diagnostics) :
  d.Points source
  := by
  rw [evaluateSource] at h
  cases hparse : parseLine scope source with
  | error failure =>
    simp only [Toolkit.ofScope, hparse, Except.mapError, List.mem_singleton] at h
    rw [h]
    exact points_of_isAbout (isAbout_of_parseLine hparse)
  | ok fragment =>
    simp only [Toolkit.ofScope, hparse, Except.mapError] at h
    split at h
    · simp only [checkPrimitive] at h
      split at h
      · cases h
      · rw [List.mem_singleton.mp h]
        exact Mismatch.points _ source
    · obtain ⟨mismatch, -, rfl⟩ := List.mem_map.mp h
      exact mismatch.points source

end TriggerLang
