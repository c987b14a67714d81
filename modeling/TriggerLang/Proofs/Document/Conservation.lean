import TriggerLang.Proofs.Document.Reserved
import TriggerLang.Proofs.Document.Steps

/-!
# What becomes of comments

A comment that is handed to an assembler waits until a mapping is put at the end of the
document, which takes it.  No other step touches it, so the comments of the actions and the
waiting one, put together, are always the comments that have been handed over.
-/

namespace TriggerLang

/-- The comment that the fragment carries. -/
def Fragment.comment? (fragment : Fragment) : Option String :=
  match fragment.get? "comment" with
  | some (.string comment) => some comment
  | _ => none

/-- Comments one below the other, without the empty ones. -/
def joinComments (comments : List String) : String :=
  "\n".intercalate (comments.filter (· ≠ ""))

/-! ### Comments one below the other -/

@[simp]
theorem joinComments_nil :
  joinComments [] = ""
  := rfl

@[simp]
theorem joinComments_cons_empty (comments : List String) :
  joinComments ("" :: comments) = joinComments comments
  := by
  simp [joinComments]

@[simp]
theorem joinComments_singleton (comment : String) :
  joinComments [comment] = comment
  := by
  by_cases h : comment = "" <;> simp [joinComments, h]

theorem joinComments_pair (comment other : String) :
  joinComments [comment, other]
    = if comment = "" then other else if other = "" then comment else comment ++ "\n" ++ other
  := by
  by_cases hcomment : comment = ""
  · simp [hcomment]
  · by_cases hother : other = "" <;> simp [joinComments, hcomment, hother]

theorem joinComments_assoc (first second third : String) :
  joinComments [joinComments [first, second], third]
    = joinComments [first, joinComments [second, third]]
  := by
  by_cases hfirst : first = ""
  · simp [hfirst]
  by_cases hsecond : second = ""
  · simp [joinComments_pair first, hsecond, hfirst]
  by_cases hthird : third = ""
  · simp [joinComments_pair, hthird, hsecond]
  simp [joinComments_pair, hfirst, hsecond, hthird, String.append_assoc]

theorem joinComments_eq_empty_iff {comments : List String} :
  joinComments comments = "" ↔ ∀ comment ∈ comments, comment = ""
  := by
  constructor
  · intro h comment hcomment
    by_contra hne
    have hmem : comment ∈ comments.filter (· ≠ "") := by simpa [hcomment] using hne
    obtain ⟨first, rest, hfirst⟩ := List.exists_cons_of_ne_nil (List.ne_nil_of_mem hmem)
    have hfirstne : first ≠ "" := by
      have hmem : first ∈ comments.filter (· ≠ "") := hfirst ▸ List.mem_cons_self
      simpa using (List.mem_filter.mp hmem).2
    rw [joinComments, hfirst] at h
    cases rest <;> simp [hfirstne] at h
  · intro h
    rw [joinComments, List.filter_eq_nil_iff.mpr (by simpa using h), String.intercalate_nil]

/-- The first comment stands above the other ones. -/
theorem joinComments_cons (comment : String) (comments : List String) :
  joinComments (comment :: comments) = joinComments [comment, joinComments comments]
  := by
  by_cases hcomment : comment = ""
  · simp [hcomment]
  rw [joinComments_pair, if_neg hcomment]
  by_cases hcomments : comments.filter (· ≠ "") = []
  · rw [joinComments, List.filter_cons_of_pos (by simpa using hcomment), joinComments, hcomments]
    simp
  · have hjoined : joinComments comments ≠ "" := by
      intro hempty
      apply hcomments
      rw [List.filter_eq_nil_iff]
      simpa using joinComments_eq_empty_iff.mp hempty
    rw [if_neg hjoined, joinComments, List.filter_cons_of_pos (by simpa using hcomment),
      String.intercalate_cons_of_ne_nil hcomments, joinComments]

/-- Comments may be put together in two parts. -/
theorem joinComments_append (comments others : List String) :
  joinComments (comments ++ others) = joinComments [joinComments comments, joinComments others]
  := by
  induction comments with
  | nil => exact ((joinComments_cons_empty _).trans (joinComments_singleton _)).symm
  | cons comment rest ih =>
    rw [List.cons_append, joinComments_cons, ih, ← joinComments_assoc,
      ← joinComments_cons comment rest]

/-- Comments that have been put together may stand among others. -/
theorem joinComments_append_join (comments others rest : List String) :
  joinComments (comments ++ joinComments others :: rest)
    = joinComments (comments ++ others ++ rest)
  := by
  rw [List.append_assoc, joinComments_append, joinComments_cons (joinComments others),
    ← joinComments_append others, ← joinComments_append]

theorem Fragment.comment?_setField {fragment : Fragment} (h : fragment.isMapping = true)
    (comment : String) :
  (fragment.setField "comment" (.string comment)).comment? = some comment
  := by
  cases fragment with
  | mapping fields => simp [comment?, setField, get?]
  | _ => cases h

theorem Fragment.comment?_of_not_isMapping {fragment : Fragment}
    (h : fragment.isMapping = false) :
  fragment.comment? = none
  := by
  cases fragment with
  | mapping fields => cases h
  | _ => rfl

theorem Fragment.comment?_of_get? {fragment : Fragment} (h : fragment.get? "comment" = none) :
  fragment.comment? = none
  := by
  rw [comment?, h]

/-- Stripping leaves comments where they are. -/
theorem Fragment.comment?_stripReserved (fragment : Fragment) :
  fragment.stripReserved.comment? = fragment.comment?
  := by
  cases fragment with
  | mapping fields =>
    have hlookup : (mapping fields).stripReserved.get? "comment"
        = (fields.lookup "comment").map fun value => (strip [] "comment" value).value := by
      change ((stripFields [] [] fields).value ++ []).lookup "comment" = _
      rw [List.append_nil, lookup_stripFields (by decide) rfl]
    rw [comment?, comment?, hlookup, get?]
    cases hcomment : fields.lookup "comment" with
    | none => rfl
    | some value => cases value <;> rfl
  | _ => rfl

theorem Block.comment?_build (block : Block) :
  block.build.comment? = none
  := by
  simp [Fragment.comment?, build, Fragment.get?, Slot.name, List.lookup_cons]

namespace Assembler

/-! ### What a step does to the waiting comment -/

/-- The comment that a step hands over. -/
def Step.comment? : Step → Option String
  | .comment text => some text
  | _ => none

/-- The step puts a mapping at the end of the document, which takes the waiting comment. -/
def Takes (assembler : Assembler) (step : Step) : Prop :=
  assembler.depth = 0 ∧ ∃ action, step = .insert action ∧ action.isMapping = true

/-- None of the steps puts a mapping at the end of the document. -/
def TakesNone (assembler : Assembler) : List Step → Prop
  | [] => True
  | step :: rest => ¬ assembler.Takes step ∧ (assembler.performed step).TakesNone rest

/-- The comments of the actions, and the waiting one. -/
def comments (assembler : Assembler) : List String :=
  assembler.actions.filterMap Fragment.comment? ++ [assembler.pendingComment]

theorem pendingComment_insertComment (assembler : Assembler) (comment : String) :
  (assembler.insertComment comment).pendingComment
    = joinComments [assembler.pendingComment, comment]
  := by
  rw [joinComments_pair, insertComment]
  by_cases hcomment : comment = ""
  · by_cases hpending : assembler.pendingComment = "" <;> simp [hcomment, hpending]
  · by_cases hpending : assembler.pendingComment = "" <;> simp [hcomment, hpending]

/-- Comments are kept. -/
theorem Effect.joinComments_comments {before after : Assembler} {step : Step}
    (h : Effect before step after)
    (hinsert : ∀ action, step = .insert action → action.get? "comment" = none) :
  joinComments after.comments = joinComments (before.comments ++ step.comment?.toList)
  := by
  cases h with
  | comment text =>
    rw [comments, pendingComment_insertComment, joinComments_append_join]
    simp [comments, Step.comment?]
  | @appended action hblocks hbare =>
    have hnone := Fragment.comment?_of_get? (hinsert action rfl)
    simp [comments, Step.comment?, hnone]
  | @commented action hblocks hmapping hwaits =>
    have hempty := joinComments_append_join before.comments [] []
    simpa [comments, Step.comment?, Fragment.comment?_setField hmapping] using hempty
  | closedOutermost hblocks => simp [comments, Step.comment?, Block.comment?_build]
  | _ => simp [comments, Step.comment?, warn]

/-- A comment waits on unless a mapping takes it. -/
theorem Effect.pendingComment_eq {before after : Assembler} {step : Step}
    (h : Effect before step after) (htakes : ¬ before.Takes step) :
  after.pendingComment = joinComments (before.pendingComment :: step.comment?.toList)
  := by
  cases h with
  | comment text => exact pendingComment_insertComment before text
  | commented hblocks hmapping => exact absurd ⟨by simp [depth, hblocks], _, rfl, hmapping⟩ htakes
  | _ => simp [Step.comment?, warn]

/-- A step that does not take the waiting comment does what it does without one. -/
theorem performed_of_not_takes {before : Assembler} {step : Step} (htakes : ¬ before.Takes step) :
  before.performed step
    = { { before with pendingComment := "" }.performed step with
        pendingComment := joinComments (before.pendingComment :: step.comment?.toList) }
  := by
  obtain ⟨identity, triggers, actions, blocks, pending, warnings⟩ := before
  cases step with
  | trigger trigger => simp [insertTrigger, Step.comment?]
  | comment text =>
    rw [performed_comment, performed_comment, Step.comment?, Option.toList_some,
      ← pendingComment_insertComment ⟨identity, triggers, actions, blocks, pending, warnings⟩]
    simp only [insertComment]
    split
    · rfl
    · split <;> rfl
  | «open» kind =>
    by_cases hkind : kind = blockKind <;>
      simp [performed, perform, openStructure, Block.ofKind?, hkind, Except.map, Step.comment?]
  | advance =>
    cases blocks with
    | nil => simp [advance, warn, Step.comment?]
    | cons block rest =>
      by_cases hnext : block.hasNext <;> simp [advance, warn, hnext, Step.comment?]
  | insert action =>
    cases blocks with
    | nil =>
      have hmapping : action.isMapping = false := by
        apply Bool.eq_false_iff.mpr
        intro hmapping
        exact htakes ⟨rfl, action, rfl, hmapping⟩
      simp [insertAction, appendAction, hmapping, Step.comment?]
    | cons block rest =>
      cases hinsert : block.insert? action <;> simp [insertAction, hinsert, warn, Step.comment?]
  | close =>
    cases blocks with
    | nil => simp [closeBlock, warn, Step.comment?]
    | cons block rest =>
      cases rest with
      | nil => simp [closeBlock, Step.comment?]
      | cons parent rest =>
        cases hinsert : parent.insert? block.build <;>
          simp [closeBlock, hinsert, warn, Step.comment?]

/-- Nothing that a step appends carries a comment, unless it takes the waiting one. -/
theorem Effect.exists_actions {before after : Assembler} {step : Step}
    (h : Effect before step after) (htakes : ¬ before.Takes step) :
  ∃ more, after.actions = before.actions ++ more ∧ ∀ action ∈ more, action.comment? = none
  := by
  cases h with
  | @appended action hblocks hbare =>
    refine ⟨[action], rfl, ?_⟩
    have hmapping : action.isMapping = false := by
      apply Bool.eq_false_iff.mpr
      intro hmapping
      exact htakes ⟨by simp [depth, hblocks], action, rfl, hmapping⟩
    simpa using Fragment.comment?_of_not_isMapping hmapping
  | commented hblocks hmapping => exact absurd ⟨by simp [depth, hblocks], _, rfl, hmapping⟩ htakes
  | @closedOutermost block hblocks =>
    exact ⟨[block.build], rfl, by simpa using block.comment?_build⟩
  | _ => exact ⟨[], (List.append_nil _).symm, by simp⟩

/-- A mapping at the end of the document takes the waiting comment. -/
theorem performed_of_takes {before : Assembler} {action : Fragment}
    (htakes : before.Takes (.insert action)) (hwaits : before.pendingComment ≠ "") :
  before.performed (.insert action)
    = { before with
        actions := before.actions ++
          [action.setField "comment" (.string before.pendingComment)]
        pendingComment := "" }
  := by
  obtain ⟨hdepth, _, hinsert, hmapping⟩ := htakes
  cases hinsert
  simp [insertAction, List.eq_nil_of_length_eq_zero hdepth, appendAction, hmapping, hwaits]

/-! ### What steps do to comments -/

/-- Comments are kept, and those that are handed over added. -/
theorem joinComments_comments_foldl (assembler : Assembler) {steps : List Step}
    (hinsert : ∀ action, .insert action ∈ steps → action.get? "comment" = none) :
  joinComments (steps.foldl performed assembler).comments
    = joinComments (assembler.comments ++ steps.filterMap Step.comment?)
  := by
  induction steps generalizing assembler with
  | nil => simp
  | cons step rest ih =>
    rw [List.foldl_cons, ih _ fun action h => hinsert action (List.mem_cons_of_mem _ h),
      joinComments_append, (assembler.effect_performed step).joinComments_comments,
      ← joinComments_append, List.append_assoc]
    · cases hcomment : step.comment? <;> simp [hcomment]
    · rintro action rfl
      exact hinsert action List.mem_cons_self

/-- A comment waits on while no mapping is put at the end of the document. -/
theorem pendingComment_foldl {assembler : Assembler} {steps : List Step}
    (h : assembler.TakesNone steps) :
  (steps.foldl performed assembler).pendingComment
    = joinComments (assembler.pendingComment :: steps.filterMap Step.comment?)
  := by
  induction steps generalizing assembler with
  | nil => simp
  | cons step rest ih =>
    obtain ⟨hstep, hrest⟩ := h
    rw [List.foldl_cons, ih hrest, (assembler.effect_performed step).pendingComment_eq hstep]
    cases hcomment : step.comment? with
    | none => simp [hcomment]
    | some comment =>
      have hjoin := joinComments_append_join [] [assembler.pendingComment, comment]
        (rest.filterMap Step.comment?)
      simpa [hcomment] using hjoin

/-- Actions stay where they are. -/
theorem exists_actions_foldl (assembler : Assembler) (steps : List Step) :
  ∃ more, (steps.foldl performed assembler).actions = assembler.actions ++ more
  := by
  induction steps generalizing assembler with
  | nil => exact ⟨[], (List.append_nil _).symm⟩
  | cons step rest ih =>
    obtain ⟨more, hmore⟩ := ih (assembler.performed step)
    obtain hactions | ⟨action, hactions, -⟩ := (assembler.effect_performed step).actions_eq
    · exact ⟨more, hmore.trans (by rw [hactions])⟩
    · refine ⟨action :: more, hmore.trans ?_⟩
      rw [hactions, List.append_assoc, List.singleton_append]

/-- Steps put no mapping at the end of the document, or there is a first one that does. -/
theorem takesNone_or_exists (assembler : Assembler) (steps : List Step) :
  assembler.TakesNone steps
    ∨ ∃ between action rest, steps = between ++ .insert action :: rest
      ∧ assembler.TakesNone between
      ∧ (between.foldl performed assembler).Takes (.insert action)
  := by
  induction steps generalizing assembler with
  | nil => exact .inl trivial
  | cons step rest ih =>
    by_cases htakes : assembler.Takes step
    · obtain ⟨action, rfl, hmapping⟩ := htakes.2
      exact .inr ⟨[], action, rest, rfl, trivial, htakes⟩
    · obtain hnone | ⟨between, action, after, rfl, hnone, hfirst⟩ := ih (assembler.performed step)
      · exact .inl ⟨htakes, hnone⟩
      · exact .inr ⟨step :: between, action, after, rfl, ⟨htakes, hnone⟩, hfirst⟩

theorem run_append (identity : Identity) (steps others : List Step) :
  run identity (steps ++ others) = others.foldl performed (run identity steps)
  := List.foldl_append

/-- The waiting comment, which consists of `comments`, is taken together with the ones that
`steps` add to it by the first mapping that they put at the end of the document, or still waits
after them if there is none. -/
def Delivers (queued : Assembler) (comments : List String) (steps : List Step) : Prop :=
  (∃ between action rest, steps = between ++ .insert action :: rest
    ∧ queued.TakesNone between
    ∧ (between.foldl performed queued).Takes (.insert action)
    ∧ (steps.foldl performed queued).actions[(between.foldl performed queued).actions.length]?
      = some (action.setField "comment" (.string
          (joinComments (comments ++ between.filterMap Step.comment?)))))
  ∨ (queued.TakesNone steps
    ∧ (steps.foldl performed queued).pendingComment
      = joinComments (comments ++ steps.filterMap Step.comment?))

theorem delivers {queued : Assembler} {comments : List String}
    (hqueued : queued.pendingComment = joinComments comments) (hwaits : queued.pendingComment ≠ "")
    (steps : List Step) :
  Delivers queued comments steps
  := by
  have hpending : ∀ {others : List Step}, queued.TakesNone others →
      (others.foldl performed queued).pendingComment
        = joinComments (comments ++ others.filterMap Step.comment?) := by
    intro others hnone
    rw [pendingComment_foldl hnone, hqueued]
    exact joinComments_append_join [] comments _
  obtain hnone | ⟨between, action, rest, rfl, hnone, htakes⟩ := takesNone_or_exists queued steps
  · exact .inr ⟨hnone, hpending hnone⟩
  · apply Or.inl
    refine ⟨between, action, rest, rfl, hnone, htakes, ?_⟩
    have hstill : (between.foldl performed queued).pendingComment ≠ "" := by
      rw [pendingComment_foldl hnone, Ne, joinComments_eq_empty_iff]
      exact fun hempty => hwaits (hempty _ List.mem_cons_self)
    obtain ⟨more, hmore⟩ := exists_actions_foldl
      ((between.foldl performed queued).performed (.insert action)) rest
    rw [List.foldl_append, List.foldl_cons, hmore, performed_of_takes htakes hstill,
      List.append_assoc, List.getElem?_append_right (Nat.le_refl _), Nat.sub_self, hpending hnone]
    rfl

/-- What becomes of comments when steps are taken on a new document.  The comments of the
actions and the waiting one are those that have been handed over, in this order, and the
document has them as well.  Every comment is delivered.  A step that does not take the waiting
comment does what it does when none waits. -/
structure Conserves (identity : Identity) (steps : List Step) : Prop where
  conserved : joinComments ((run identity steps).actions.filterMap Fragment.comment?
      ++ [(run identity steps).pendingComment])
    = joinComments (steps.filterMap Step.comment?)
  documented : (run identity steps).document.actions.map Fragment.comment?
    = (run identity steps).actions.map Fragment.comment?
  delivered : ∀ before text after, steps = before ++ .comment text :: after → text ≠ "" →
    Delivers (run identity (before ++ [.comment text])) [(run identity before).pendingComment, text]
      after
  untaken : ∀ before step after, steps = before ++ step :: after →
    ¬ (run identity before).Takes step →
    run identity (before ++ [step])
      = { { run identity before with pendingComment := "" }.performed step with
          pendingComment := joinComments
            ((run identity before).pendingComment :: step.comment?.toList) }
    ∧ ∃ more, (run identity (before ++ [step])).actions = (run identity before).actions ++ more
      ∧ ∀ action ∈ more, action.comment? = none

/-- Comments are neither lost nor taken twice, as long as no inserted fragment brings one of
its own. -/
theorem conserves_run (identity : Identity) {steps : List Step}
    (hinsert : ∀ action, .insert action ∈ steps → action.get? "comment" = none) :
  Conserves identity steps
  where
  conserved := by
    have hjoin := joinComments_comments_foldl { identity } hinsert
    simpa [comments, run] using hjoin
  documented := by
    rw [document, List.map_map]
    apply List.map_congr_left
    intro action _
    exact action.comment?_stripReserved
  delivered := by
    rintro before text after - htext
    have hqueued := pendingComment_insertComment (run identity before) text
    rw [run_append]
    apply delivers hqueued
    rw [hqueued, Ne, joinComments_eq_empty_iff]
    exact fun hempty => htext (hempty text (by simp))
  untaken := by
    rintro before step after - htakes
    rw [run_append]
    exact ⟨performed_of_not_takes htakes, (effect_performed _ step).exists_actions htakes⟩

/-- A comment that waits over a block and a number before a greeting takes it. -/
def greetingSteps : List Step :=
  [.comment "note", .open "if", .insert (.boolean true), .close, .insert (.integer 5),
    .comment "guard", .insert (.call "greet"), .insert (.call "leave")]

/-- No inserted fragment has a comment of its own, and the greeting gets all comments. -/
theorem conserves_run_greetingSteps :
  (∀ action, .insert action ∈ greetingSteps → action.get? "comment" = none)
    ∧ (run ⟨"", "", 0, .null, false⟩ greetingSteps).actions.map Fragment.comment?
      = [none, none, some "note\nguard", none]
    ∧ Conserves ⟨"", "", 0, .null, false⟩ greetingSteps
  := by
  have hinsert : ∀ action, .insert action ∈ greetingSteps → action.get? "comment" = none := by
    simp [greetingSteps, Fragment.call, Fragment.get?]
  exact ⟨hinsert, by decide +kernel, conserves_run _ hinsert⟩

end Assembler

end TriggerLang
