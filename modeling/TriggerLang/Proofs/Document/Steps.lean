import Mathlib.Tactic.Common
import TriggerLang.Document.Assembler

/-!
# Assembling step by step

A step of assembling is accepted, or it is refused with a warning and leaves everything as it
was, except that a block that the enclosing one refuses is lost.  `Effect` lists what can
happen at a step; whatever steps are taken on a new document, the open blocks keep their
active slots and every step keeps to its own part of the document (`Orderly`).
-/

namespace TriggerLang

namespace Block

/-- The second block is the first one with a fragment more: as its only condition, or at the
end of the branch that is being filled. -/
inductive Gains (fragment : Fragment) (block : Block) : Block → Prop
  | condition (hslot : block.slot = some .conditions) (hempty : block.conditions = .null) :
      Gains fragment block { block with conditions := fragment }
  | thenAction (hslot : block.slot = some .thenBranch) :
      Gains fragment block { block with thenActions := block.thenActions ++ [fragment] }
  | elseAction (hslot : block.slot = some .elseBranch) :
      Gains fragment block { block with elseActions := block.elseActions ++ [fragment] }

variable {fragment : Fragment} {block after : Block}

/-- Inserting a fragment is gaining it. -/
theorem insert?_eq_some_iff :
  block.insert? fragment = some after ↔ block.Gains fragment after
  := by
  constructor
  · intro h
    unfold insert? at h
    split at h
    · rename_i hslot
      split at h
      · rename_i hempty
        cases h
        exact .condition hslot hempty
      · cases h
    · rename_i hslot
      cases h
      exact .thenAction hslot
    · rename_i hslot
      cases h
      exact .elseAction hslot
    · cases h
  · intro h
    cases h with
    | condition hslot hempty => simp [insert?, hslot, hempty]
    | thenAction hslot => simp [insert?, hslot]
    | elseAction hslot => simp [insert?, hslot]

theorem Gains.slot_eq (h : block.Gains fragment after) :
  after.slot = block.slot
  := by
  cases h <;> rfl

theorem hasNext_iff :
  block.hasNext = true ↔ ∃ slot next, block.slot = some slot ∧ slot.next? = some next
  := by
  rw [hasNext, Option.isSome_iff_exists]
  simp only [Option.bind_eq_some_iff]
  exact exists_comm

end Block

namespace Assembler

/-- The assembler after a step, which is the one before it if there is no such step. -/
def performed (assembler : Assembler) (step : Step) : Assembler :=
  match assembler.perform step with
  | .ok next => next
  | .error _ => assembler

@[simp]
theorem performed_trigger (assembler : Assembler) (trigger : Fragment) :
  assembler.performed (.trigger trigger) = assembler.insertTrigger trigger
  := rfl

@[simp]
theorem performed_comment (assembler : Assembler) (text : String) :
  assembler.performed (.comment text) = assembler.insertComment text
  := rfl

@[simp]
theorem performed_open_block (assembler : Assembler) :
  assembler.performed (.open blockKind) = assembler.openBlock
  := rfl

@[simp]
theorem performed_advance (assembler : Assembler) :
  assembler.performed .advance = assembler.advance
  := rfl

@[simp]
theorem performed_insert (assembler : Assembler) (action : Fragment) :
  assembler.performed (.insert action) = assembler.insertAction action
  := rfl

@[simp]
theorem performed_close (assembler : Assembler) :
  assembler.performed .close = assembler.closeBlock
  := rfl

/-- A new document after steps. -/
def run (identity : Identity) (steps : List Step) : Assembler :=
  steps.foldl performed { identity }

theorem blocks_insertComment (assembler : Assembler) (comment : String) :
  (assembler.insertComment comment).blocks = assembler.blocks
  := by
  unfold insertComment
  split
  · rfl
  · split <;> rfl

/-- Outside any block an action leaves it so. -/
theorem blocks_insertAction_of_nil {assembler : Assembler} (hblocks : assembler.blocks = [])
    (action : Fragment) :
  (assembler.insertAction action).blocks = []
  := by
  rw [insertAction, hblocks]
  simp only [appendAction]
  split <;> exact hblocks

/-- A block that can gain an action takes it. -/
theorem insertAction_of_gains {assembler : Assembler} {block after : Block} {rest : List Block}
    {action : Fragment} (hblocks : assembler.blocks = block :: rest)
    (hgains : block.Gains action after) :
  assembler.insertAction action = { assembler with blocks := after :: rest }
  := by
  rw [insertAction, hblocks]
  simp only [Block.insert?_eq_some_iff.mpr hgains]

/-- A block that can gain the one within it takes it when that is closed. -/
theorem closeBlock_of_gains {assembler : Assembler} {block parent after : Block}
    {rest : List Block} (hblocks : assembler.blocks = block :: parent :: rest)
    (hgains : parent.Gains block.build after) :
  assembler.closeBlock = { assembler with blocks := after :: rest }
  := by
  rw [closeBlock, hblocks]
  simp only [Block.insert?_eq_some_iff.mpr hgains]

theorem closeBlock_of_outermost {assembler : Assembler} {block : Block}
    (hblocks : assembler.blocks = [block]) :
  assembler.closeBlock
    = { assembler with blocks := [], actions := assembler.actions ++ [block.build] }
  := by
  rw [closeBlock, hblocks]

theorem advance_of_next {assembler : Assembler} {block : Block} {rest : List Block}
    {slot next : Slot} (hblocks : assembler.blocks = block :: rest)
    (hslot : block.slot = some slot) (hnext : slot.next? = some next) :
  assembler.advance
    = { assembler with blocks := { block with slot := some next } :: rest }
  := by
  have hhas : block.hasNext = true := Block.hasNext_iff.mpr ⟨slot, next, hslot, hnext⟩
  rw [advance, hblocks]
  simp only [if_pos hhas, Block.advance, hslot, Option.bind_some, hnext]

/-- What can happen at a step. -/
inductive Effect (before : Assembler) : Step → Assembler → Prop
  | trigger (trigger : Fragment) :
      Effect before (.trigger trigger) { before with triggers := before.triggers ++ [trigger] }
  | comment (text : String) :
      Effect before (.comment text)
        { before with pendingComment := (before.insertComment text).pendingComment }
  | opened :
      Effect before (.open blockKind) { before with blocks := {} :: before.blocks }
  | unknown {kind : String} (hkind : kind ≠ blockKind)
      (herror : before.perform (.open kind) = .error ⟨kind⟩) :
      Effect before (.open kind) before
  | advanced {block : Block} {rest : List Block} {slot next : Slot}
      (hblocks : before.blocks = block :: rest) (hslot : block.slot = some slot)
      (hnext : slot.next? = some next) :
      Effect before .advance { before with blocks := { block with slot := some next } :: rest }
  | advanceOutside (hblocks : before.blocks = []) :
      Effect before .advance (before.warn .advanceOutside)
  | noNextSlot {block : Block} {rest : List Block} (hblocks : before.blocks = block :: rest)
      (hlast : block.hasNext = false) :
      Effect before .advance (before.warn (.noNextSlot block.slot))
  | appended {action : Fragment} (hblocks : before.blocks = [])
      (hbare : action.isMapping = false ∨ before.pendingComment = "") :
      Effect before (.insert action) { before with actions := before.actions ++ [action] }
  | commented {action : Fragment} (hblocks : before.blocks = [])
      (hmapping : action.isMapping = true) (hwaits : before.pendingComment ≠ "") :
      Effect before (.insert action)
        { before with
          actions := before.actions ++
            [action.setField "comment" (.string before.pendingComment)]
          pendingComment := "" }
  | inserted {action : Fragment} {block after : Block} {rest : List Block}
      (hblocks : before.blocks = block :: rest) (hgains : block.Gains action after) :
      Effect before (.insert action) { before with blocks := after :: rest }
  | slotFilled {action : Fragment} {block : Block} {rest : List Block}
      (hblocks : before.blocks = block :: rest) (hfull : block.insert? action = none) :
      Effect before (.insert action) (before.warn (.slotFilled block.slot))
  | closedOutermost {block : Block} (hblocks : before.blocks = [block]) :
      Effect before .close
        { before with blocks := [], actions := before.actions ++ [block.build] }
  | closedWithin {block parent after : Block} {rest : List Block}
      (hblocks : before.blocks = block :: parent :: rest)
      (hgains : parent.Gains block.build after) :
      Effect before .close { before with blocks := after :: rest }
  | closeOutside (hblocks : before.blocks = []) :
      Effect before .close (before.warn .closeOutside)
  | blockRefused {block parent : Block} {rest : List Block}
      (hblocks : before.blocks = block :: parent :: rest)
      (hfull : parent.insert? block.build = none) :
      Effect before .close
        ({ before with blocks := parent :: rest }.warn (.blockRefused parent.slot))

theorem effect_comment (before : Assembler) (text : String) :
  Effect before (.comment text) (before.insertComment text)
  := by
  have h : before.insertComment text
      = { before with pendingComment := (before.insertComment text).pendingComment } := by
    unfold insertComment
    split
    · rfl
    · split <;> rfl
  rw [h]
  exact .comment text

theorem effect_advance (before : Assembler) :
  Effect before .advance before.advance
  := by
  unfold advance
  split
  · rename_i hblocks
    exact .advanceOutside hblocks
  · rename_i block rest hblocks
    split
    · rename_i hnext
      obtain ⟨slot, next, hslot, hnext⟩ := Block.hasNext_iff.mp hnext
      rw [Block.advance, hslot, Option.bind_some, hnext]
      exact .advanced hblocks hslot hnext
    · rename_i hlast
      exact .noNextSlot hblocks (Bool.eq_false_iff.mpr hlast)

theorem effect_insertAction (before : Assembler) (action : Fragment) :
  Effect before (.insert action) (before.insertAction action)
  := by
  unfold insertAction
  split
  · rename_i hblocks
    unfold appendAction
    split
    · rename_i hattach
      rw [Bool.and_eq_true, bne_iff_ne] at hattach
      exact .commented hblocks hattach.1 hattach.2
    · rename_i hbare
      apply Effect.appended hblocks
      simpa [Bool.and_eq_true, or_iff_not_imp_left] using hbare
  · rename_i block rest hblocks
    split
    · rename_i after hinsert
      exact .inserted hblocks (Block.insert?_eq_some_iff.mp hinsert)
    · rename_i hfull
      exact .slotFilled hblocks hfull

theorem effect_closeBlock (before : Assembler) :
  Effect before .close before.closeBlock
  := by
  unfold closeBlock
  split
  · rename_i hblocks
    exact .closeOutside hblocks
  · rename_i block hblocks
    exact .closedOutermost hblocks
  · rename_i block parent rest hblocks
    split
    · rename_i after hinsert
      exact .closedWithin hblocks (Block.insert?_eq_some_iff.mp hinsert)
    · rename_i hfull
      exact .blockRefused hblocks hfull

/-- What a step does is listed. -/
theorem effect_performed (before : Assembler) (step : Step) :
  Effect before step (before.performed step)
  := by
  cases step with
  | trigger trigger => exact .trigger trigger
  | comment text => exact effect_comment before text
  | «open» kind =>
    by_cases hkind : kind = blockKind
    · subst hkind
      exact .opened
    · have herror : before.perform (.open kind) = .error ⟨kind⟩ := by
        rw [perform, openStructure, Block.ofKind?, if_neg hkind]
        rfl
      rw [performed, herror]
      exact .unknown hkind herror
  | advance => exact effect_advance before
  | insert action => exact effect_insertAction before action
  | close => exact effect_closeBlock before

/-! ### Steps that are accepted -/

/-- The step is one that the assembler takes without a warning. -/
def Accepts (assembler : Assembler) : Step → Prop
  | .trigger _ | .comment _ => True
  | .open kind => kind = blockKind
  | .advance => ∃ block ∈ assembler.blocks.head?, block.hasNext = true
  | .insert action => ∀ block ∈ assembler.blocks.head?, ∃ after, block.Gains action after
  | .close =>
    ∃ block rest, assembler.blocks = block :: rest
      ∧ ∀ parent ∈ rest.head?, ∃ after, parent.Gains block.build after

theorem warnings_warn_ne (assembler : Assembler) (warning : Warning) :
  (assembler.warn warning).warnings ≠ assembler.warnings
  := by
  simp [warn]

/-- A step is accepted if it is one and notes no warning. -/
theorem accepts_iff (assembler : Assembler) (step : Step) :
  assembler.Accepts step
    ↔ (∀ e, assembler.perform step ≠ .error e)
      ∧ (assembler.performed step).warnings = assembler.warnings
  := by
  have heffect := assembler.effect_performed step
  have hnot : ∀ {block : Block} {action : Fragment}, block.insert? action = none →
      ¬ ∃ after, block.Gains action after := by
    rintro block action hfull ⟨after, hgains⟩
    rw [Block.insert?_eq_some_iff.mpr hgains] at hfull
    cases hfull
  generalize assembler.performed step = after at heffect
  cases heffect with
  | trigger => simp [Accepts, perform]
  | comment => simp [Accepts, perform]
  | opened => simp [Accepts, perform, openStructure, Block.ofKind?, Except.map]
  | unknown hkind herror => simp [Accepts, hkind, herror]
  | advanced hblocks hslot hnext =>
    simp [Accepts, perform, hblocks, Block.hasNext_iff, hslot, hnext]
  | advanceOutside hblocks => simp [Accepts, hblocks, warnings_warn_ne]
  | noNextSlot hblocks hlast => simp [Accepts, hblocks, hlast, warnings_warn_ne]
  | appended hblocks => simp [Accepts, perform, hblocks]
  | commented hblocks => simp [Accepts, perform, hblocks]
  | inserted hblocks hgains => simpa [Accepts, perform, hblocks] using ⟨_, hgains⟩
  | slotFilled hblocks hfull =>
    simpa [Accepts, hblocks, warnings_warn_ne] using hnot hfull
  | closedOutermost hblocks => simp [Accepts, perform, hblocks]
  | closedWithin hblocks hgains => simpa [Accepts, perform, hblocks] using ⟨_, hgains⟩
  | closeOutside hblocks => simp [Accepts, hblocks, warnings_warn_ne]
  | blockRefused hblocks hfull =>
    simpa [Accepts, hblocks, warn] using hnot hfull

/-- The steps are accepted one after another. -/
def AcceptsAll (assembler : Assembler) : List Step → Prop
  | [] => True
  | step :: rest => assembler.Accepts step ∧ (assembler.performed step).AcceptsAll rest

theorem acceptsAll_append (assembler : Assembler) (steps others : List Step) :
  assembler.AcceptsAll (steps ++ others)
    ↔ assembler.AcceptsAll steps ∧ (steps.foldl performed assembler).AcceptsAll others
  := by
  induction steps generalizing assembler with
  | nil => simp [AcceptsAll]
  | cons step rest ih => simp [AcceptsAll, ih, and_assoc]

/-- Steps that are accepted note no warning. -/
theorem warnings_of_acceptsAll {assembler : Assembler} {steps : List Step}
    (h : assembler.AcceptsAll steps) :
  (steps.foldl performed assembler).warnings = assembler.warnings
  := by
  induction steps generalizing assembler with
  | nil => rfl
  | cons step rest ih =>
    obtain ⟨hstep, hrest⟩ := h
    exact (ih hrest).trans ((accepts_iff assembler step).mp hstep).2

/-! ### What every step keeps to -/

/-- The trigger that a step brings. -/
def Step.trigger? : Step → Option Fragment
  | .trigger fragment => some fragment
  | _ => none

/-- By how much a step changes the number of open blocks. -/
def depthChange (assembler : Assembler) : Step → Int
  | .open kind => if kind = blockKind then 1 else 0
  | .close => if assembler.depth = 0 then 0 else -1
  | _ => 0

/-- What a step keeps to.  Blocks are opened and closed one at a time.  The actions of the
document only grow at their end, by an action outside any block or by the outermost block when
it is closed.  No block but the innermost one is changed, except that the one around a block
can gain it when it is closed.  A step with a warning changes nothing else, except that a
block is lost if the one around it refuses it. -/
structure Orderly (before : Assembler) (step : Step) (after : Assembler) : Prop where
  depth : (after.depth : Int) = before.depth + before.depthChange step
  actions : after.actions = before.actions
    ∨ ∃ action, after.actions = before.actions ++ [action]
      ∧ ((∃ f, step = .insert f) ∧ before.depth = 0 ∨ step = .close ∧ before.depth = 1)
  opening : step = .open blockKind → after.blocks = {} :: before.blocks
  unknown : ∀ kind, step = .open kind → kind ≠ blockKind →
    before.perform step = .error ⟨kind⟩ ∧ after = before
  insertion : ∀ action top rest, step = .insert action → before.blocks = top :: rest →
    ∃ block, after.blocks = block :: rest ∧ (block = top ∨ top.Gains action block)
  advance : ∀ top rest, step = .advance → before.blocks = top :: rest →
    ∃ slot, after.blocks = { top with slot } :: rest
  closing : ∀ top parent rest, step = .close → before.blocks = top :: parent :: rest →
    ∃ block, after.blocks = block :: rest ∧ (block = parent ∨ parent.Gains top.build block)
  warned : after.warnings ≠ before.warnings →
    after.triggers = before.triggers ∧ after.actions = before.actions
      ∧ after.pendingComment = before.pendingComment
      ∧ (after.blocks = before.blocks
        ∨ ∃ top parent rest, step = .close ∧ before.blocks = top :: parent :: rest
          ∧ parent.insert? top.build = none ∧ after.blocks = parent :: rest)

namespace Effect

variable {before after : Assembler} {step : Step}

theorem depth_eq (h : Effect before step after) :
  (after.depth : Int) = before.depth + before.depthChange step
  := by
  cases h with
  | trigger => simp [depthChange, depth]
  | comment => simp [depthChange, depth]
  | opened => simp [depthChange, depth]
  | unknown hkind => simp [depthChange, hkind]
  | advanced hblocks => simp [depthChange, depth, hblocks]
  | advanceOutside => simp [depthChange, depth, warn]
  | noNextSlot => simp [depthChange, depth, warn]
  | appended => simp [depthChange, depth]
  | commented => simp [depthChange, depth]
  | inserted hblocks => simp [depthChange, depth, hblocks]
  | slotFilled => simp [depthChange, depth, warn]
  | closedOutermost hblocks => simp [depthChange, depth, hblocks]
  | closedWithin hblocks =>
    simp only [depthChange, depth, hblocks, List.length_cons]
    omega
  | closeOutside hblocks => simp [depthChange, depth, hblocks, warn]
  | blockRefused hblocks =>
    simp only [depthChange, depth, hblocks, warn, List.length_cons]
    omega

/-- The actions of the document grow at their end, if at all. -/
theorem actions_eq (h : Effect before step after) :
  after.actions = before.actions
    ∨ ∃ action, after.actions = before.actions ++ [action]
      ∧ ((∃ f, step = .insert f) ∧ before.depth = 0 ∨ step = .close ∧ before.depth = 1)
  := by
  cases h with
  | appended hblocks => exact .inr ⟨_, rfl, .inl ⟨⟨_, rfl⟩, by simp [depth, hblocks]⟩⟩
  | commented hblocks => exact .inr ⟨_, rfl, .inl ⟨⟨_, rfl⟩, by simp [depth, hblocks]⟩⟩
  | closedOutermost hblocks => exact .inr ⟨_, rfl, .inr ⟨rfl, by simp [depth, hblocks]⟩⟩
  | _ => exact .inl rfl

/-- A warning comes with no change, unless a block is lost. -/
theorem of_warnings_ne (h : Effect before step after) (hwarned : after.warnings ≠ before.warnings) :
  after.triggers = before.triggers ∧ after.actions = before.actions
    ∧ after.pendingComment = before.pendingComment
    ∧ (after.blocks = before.blocks
      ∨ ∃ top parent rest, step = .close ∧ before.blocks = top :: parent :: rest
        ∧ parent.insert? top.build = none ∧ after.blocks = parent :: rest)
  := by
  cases h with
  | advanceOutside => exact ⟨rfl, rfl, rfl, .inl rfl⟩
  | noNextSlot => exact ⟨rfl, rfl, rfl, .inl rfl⟩
  | slotFilled => exact ⟨rfl, rfl, rfl, .inl rfl⟩
  | closeOutside => exact ⟨rfl, rfl, rfl, .inl rfl⟩
  | blockRefused hblocks hfull =>
    exact ⟨rfl, rfl, rfl, .inr ⟨_, _, _, rfl, hblocks, hfull, rfl⟩⟩
  | _ => exact absurd rfl hwarned

theorem orderly (h : Effect before step after) :
  Orderly before step after
  where
  depth := h.depth_eq
  actions := h.actions_eq
  warned := h.of_warnings_ne
  opening := by
    rintro rfl
    cases h with
    | opened => rfl
    | unknown hkind => exact absurd rfl hkind
  unknown := by
    rintro kind rfl hkind
    cases h with
    | opened => exact absurd rfl hkind
    | unknown _ herror => exact ⟨herror, rfl⟩
  insertion := by
    rintro action top rest rfl htop
    cases h with
    | appended hblocks => simp [hblocks] at htop
    | commented hblocks => simp [hblocks] at htop
    | inserted hblocks hgains =>
      rw [hblocks] at htop
      cases htop
      exact ⟨_, rfl, .inr hgains⟩
    | slotFilled => exact ⟨top, htop, .inl rfl⟩
  advance := by
    rintro top rest rfl htop
    cases h with
    | advanced hblocks =>
      rw [hblocks] at htop
      cases htop
      exact ⟨_, rfl⟩
    | advanceOutside => exact ⟨top.slot, htop⟩
    | noNextSlot => exact ⟨top.slot, htop⟩
  closing := by
    rintro top parent rest rfl htop
    cases h with
    | closedOutermost hblocks => simp [hblocks] at htop
    | closedWithin hblocks hgains =>
      rw [hblocks] at htop
      cases htop
      exact ⟨_, rfl, .inr hgains⟩
    | closeOutside hblocks => simp [hblocks] at htop
    | blockRefused hblocks =>
      rw [hblocks] at htop
      cases htop
      exact ⟨_, rfl, .inl rfl⟩

theorem identity_eq (h : Effect before step after) :
  after.identity = before.identity
  := by
  cases h <;> rfl

/-- A step adds the trigger that it brings, if any. -/
theorem triggers_eq (h : Effect before step after) :
  after.triggers = before.triggers ++ step.trigger?.toList
  := by
  cases h with
  | trigger => rfl
  | _ => exact (List.append_nil _).symm

/-- A step leaves every open block with an active slot. -/
theorem exists_slot (h : Effect before step after)
    (hslots : ∀ block ∈ before.blocks, ∃ slot, block.slot = some slot) :
  ∀ block ∈ after.blocks, ∃ slot, block.slot = some slot
  := by
  cases h with
  | opened => exact List.forall_mem_cons.mpr ⟨⟨.conditions, rfl⟩, hslots⟩
  | advanced hblocks =>
    rw [hblocks, List.forall_mem_cons] at hslots
    exact List.forall_mem_cons.mpr ⟨⟨_, rfl⟩, hslots.2⟩
  | inserted hblocks hgains =>
    rw [hblocks, List.forall_mem_cons] at hslots
    exact List.forall_mem_cons.mpr ⟨hgains.slot_eq ▸ hslots.1, hslots.2⟩
  | closedOutermost => simp
  | closedWithin hblocks hgains =>
    rw [hblocks, List.forall_mem_cons, List.forall_mem_cons] at hslots
    exact List.forall_mem_cons.mpr ⟨hgains.slot_eq ▸ hslots.2.1, hslots.2.2⟩
  | blockRefused hblocks =>
    rw [hblocks, List.forall_mem_cons] at hslots
    exact hslots.2
  | _ => exact hslots

end Effect

theorem identity_foldl (assembler : Assembler) (steps : List Step) :
  (steps.foldl performed assembler).identity = assembler.identity
  := by
  induction steps generalizing assembler with
  | nil => rfl
  | cons step rest ih => exact (ih _).trans (assembler.effect_performed step).identity_eq

/-- Steps add the triggers that they bring. -/
theorem triggers_foldl (assembler : Assembler) (steps : List Step) :
  (steps.foldl performed assembler).triggers
    = assembler.triggers ++ steps.filterMap Step.trigger?
  := by
  induction steps generalizing assembler with
  | nil => exact (List.append_nil _).symm
  | cons step rest ih =>
    rw [List.foldl_cons, ih, (assembler.effect_performed step).triggers_eq, List.append_assoc]
    cases htrigger : step.trigger? <;> simp [htrigger]

/-- Steps leave every open block with an active slot. -/
theorem exists_slot_foldl (assembler : Assembler) (steps : List Step)
    (hslots : ∀ block ∈ assembler.blocks, ∃ slot, block.slot = some slot) :
  ∀ block ∈ (steps.foldl performed assembler).blocks, ∃ slot, block.slot = some slot
  := by
  induction steps generalizing assembler with
  | nil => exact hslots
  | cons step rest ih => exact ih _ ((assembler.effect_performed step).exists_slot hslots)

/-- Whatever steps have been taken on a new document, every open block has an active slot, and
the next step keeps to its part. -/
theorem orderly_run (identity : Identity) (steps : List Step) (step : Step) :
  (∀ block ∈ (run identity steps).blocks, ∃ slot, block.slot = some slot)
    ∧ Orderly (run identity steps) step (run identity (steps ++ [step]))
  := by
  constructor
  · apply exists_slot_foldl
    simp
  · rw [run, run, List.foldl_append]
    exact (effect_performed _ step).orderly

end Assembler

end TriggerLang
