import TriggerLang.Proofs.Grammar.Soundness

/-!
# Known names

The identifiers of what has been read are keywords, functions of the catalog or declared
variables, but for a name that is kept until the next token.
-/

namespace TriggerLang.Grammar

open Parse

/-- The word is a keyword, a function or a declared variable. -/
def Known (scope : Scope) (word : String) : Prop :=
  isKeyword word ∨ (scope.catalog.get? word).isSome
    ∨ (scope.declarations.variableType? word).isSome

/-- The terminal is no identifier that stands for nothing. -/
def IsKnown (scope : Scope) (t : Terminal) : Prop :=
  t.kind = .identifier → Known scope t.word

variable {scope : Scope}

theorem isKnown_of_kind {t : Terminal} {kind : TokenKind} (h : t.kind = kind)
    (hne : kind ≠ .identifier) :
  IsKnown scope t
  := fun hkind => absurd (h.symm.trans hkind) hne

theorem isKnown_of_get? {t : Terminal} {signature : Signature}
    (h : scope.catalog.get? t.word = some signature) :
  IsKnown scope t
  := fun _ => .inr (.inl (Option.isSome_of_eq_some h))

theorem isKnown_of_operator? {t : Terminal} {op : Operator} (h : t.operator? = some op) :
  IsKnown scope t
  := fun hkind => .inl (isKeyword_of_operator? hkind (Option.isSome_of_eq_some h))

/-- The identifiers of a phrase are known. -/
theorem Derives.isKnown {phrase : Phrase} {ts : List Terminal} (h : Derives scope phrase ts) :
  ∀ t ∈ ts, IsKnown scope t
  := by
  induction h with
  | loosen _ _ ih => exact ih
  | binary hop _ _ ihleft ihright =>
    rw [List.forall_mem_append, List.forall_mem_cons]
    exact ⟨ihleft, isKnown_of_operator? hop, ihright⟩
  | negative hminus _ ih =>
    rw [List.forall_mem_cons]
    exact ⟨isKnown_of_kind hminus nofun, ih⟩
  | integer hkind => exact List.forall_mem_singleton.mpr (isKnown_of_kind hkind nofun)
  | float hkind => exact List.forall_mem_singleton.mpr (isKnown_of_kind hkind nofun)
  | string hkind => exact List.forall_mem_singleton.mpr (isKnown_of_kind hkind nofun)
  | trueWord _ hword =>
    rw [List.forall_mem_singleton]
    intro _
    rw [hword]
    exact .inl (by decide)
  | falseWord _ hword =>
    rw [List.forall_mem_singleton]
    intro _
    rw [hword]
    exact .inl (by decide)
  | group hopen hclose _ ih =>
    rw [List.forall_mem_append, List.forall_mem_cons, List.forall_mem_singleton]
    exact ⟨⟨isKnown_of_kind hopen nofun, ih⟩, isKnown_of_kind hclose nofun⟩
  | call _ _ hfunction _ hopen hclose _ ih =>
    rw [List.forall_mem_append, List.forall_mem_cons, List.forall_mem_cons,
      List.forall_mem_singleton]
    exact ⟨⟨isKnown_of_get? hfunction, isKnown_of_kind hopen nofun, ih⟩,
      isKnown_of_kind hclose nofun⟩
  | emptyCall _ _ hfunction _ hopen hclose =>
    rw [List.forall_mem_cons, List.forall_mem_cons, List.forall_mem_singleton]
    exact ⟨isKnown_of_get? hfunction, isKnown_of_kind hopen nofun, isKnown_of_kind hclose nofun⟩
  | constant _ _ hfunction => exact List.forall_mem_singleton.mpr (isKnown_of_get? hfunction)
  | declared _ _ _ htype =>
    rw [List.forall_mem_singleton]
    exact fun _ => .inr (.inr (Option.isSome_of_eq_some htype))
  | first _ ih => exact ih
  | further hcomma _ _ ihargs ih =>
    rw [List.forall_mem_append, List.forall_mem_cons]
    exact ⟨ihargs, isKnown_of_kind hcomma nofun, ih⟩

theorem Passed.isKnown {fs : List Fragment} {ts : List Terminal} (h : Passed scope fs ts) :
  ∀ t ∈ ts, IsKnown scope t
  := by
  cases h with
  | none => rintro t ⟨⟩
  | some hcomma h =>
    rw [List.forall_mem_append, List.forall_mem_singleton]
    exact ⟨h.isKnown, isKnown_of_kind hcomma nofun⟩

/-- The identifiers of the terminals that open frames are known. -/
theorem Opened.isKnown {stack : List Frame} {ts : List Terminal} (h : Opened scope stack ts) :
  ∀ t ∈ ts, IsKnown scope t
  := by
  induction h with
  | nil => rintro t ⟨⟩
  | binary _ _ hleft hop ih =>
    rw [List.forall_mem_append, List.forall_mem_append, List.forall_mem_singleton]
    exact ⟨ih, hleft.isKnown, isKnown_of_operator? hop⟩
  | negative _ hminus ih =>
    rw [List.forall_mem_append, List.forall_mem_singleton]
    exact ⟨ih, isKnown_of_kind hminus nofun⟩
  | group _ hopen ih =>
    rw [List.forall_mem_append, List.forall_mem_singleton]
    exact ⟨ih, isKnown_of_kind hopen nofun⟩
  | argument _ _ _ hfunction _ _ hopen hpassed ih =>
    rw [List.forall_mem_append, List.forall_mem_cons, List.forall_mem_cons]
    exact ⟨ih, isKnown_of_get? hfunction, isKnown_of_kind hopen nofun, hpassed.isKnown⟩

/-- A name that is kept and stands for nothing is not known. -/
theorem of_resolveName_eq_undefined {head name : Token} {following : Option Token}
    (hword : ¬ isKeyword head.word)
    (h : resolveName scope head following = .error (.undefined name)) :
  name = head ∧ ¬ Known scope head.word
  := by
  rw [resolveName] at h
  split at h
  · split at h <;> cases h
  · rename_i hfunction
    split at h
    · cases h
    · rename_i htype
      cases h
      refine ⟨rfl, ?_⟩
      rintro (hkeyword | hknown | hknown)
      · exact hword hkeyword
      · simp [hfunction] at hknown
      · simp [htype] at hknown

end TriggerLang.Grammar
