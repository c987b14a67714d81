import TriggerLang.Proofs.Script.Reading

/-!
# Reading scripts with a stack

An outline reads a script item by item and keeps the blocks that are open on a stack.  It is
a document that is being built without what a comment or a rejected line adds.  Reading all
items of a part changes an outline by what the part is read as (`Outline.grow`): by its trees
in the innermost open block, and by its issues.  If nothing ends the part, a block may be
left open in it.
-/

namespace TriggerLang.Script

/-- A block whose end has not been read. -/
structure OpenPart where
  keyword : Text.Region
  condition : Option Fragment
  thenTrees : List Tree := []
  elseTrees : List Tree := []
  hasElse : Bool := false

namespace OpenPart

/-- The place that the lines of the block stand at. -/
def place (part : OpenPart) : Place :=
  if part.hasElse then .elseBranch else .thenBranch

/-- The block with more trees in its last branch. -/
def put (part : OpenPart) (trees : List Tree) : OpenPart :=
  if part.hasElse then
    { part with elseTrees := part.elseTrees ++ trees }
  else
    { part with thenTrees := part.thenTrees ++ trees }

/-- The tree of the block, if it is closed here. -/
def tree (part : OpenPart) : Tree :=
  .block part.condition part.thenTrees part.elseTrees

/-- The block is reported if it is never closed. -/
def unclosed (part : OpenPart) : Diagnostic :=
  .of .unclosedBlock part.keyword

@[simp]
theorem put_unclosed (part : OpenPart) (trees : List Tree) :
  (part.put trees).unclosed = part.unclosed
  := by
  unfold put
  split <;> rfl

@[simp]
theorem put_place (part : OpenPart) (trees : List Tree) :
  (part.put trees).place = part.place
  := by
  unfold put
  split <;> rfl

@[simp]
theorem put_put (part : OpenPart) (trees more : List Tree) :
  (part.put trees).put more = part.put (trees ++ more)
  := by
  cases h : part.hasElse <;> simp [put, h]

@[simp]
theorem put_nil (part : OpenPart) :
  part.put [] = part
  := by
  obtain ⟨_, _, _, _, hasElse⟩ := part
  cases hasElse <;> simp [put]

end OpenPart

/-- What a script has been read as so far. -/
structure Outline where
  trees : List Tree := []
  /-- The open blocks, the innermost one first. -/
  openParts : List OpenPart := []
  issues : List Diagnostic := []

namespace Outline

/-- The place that the next line stands at. -/
def place (outline : Outline) : Place :=
  match outline.openParts with
  | [] => .outside
  | part :: _ => part.place

/-- The outline with more trees at its place, and more issues. -/
def grow (outline : Outline) (trees : List Tree) (issues : List Diagnostic) : Outline :=
  match outline.openParts with
  | [] => { outline with trees := outline.trees ++ trees, issues := outline.issues ++ issues }
  | part :: rest =>
    { outline with openParts := part.put trees :: rest, issues := outline.issues ++ issues }

/-- The outline with a block opened. -/
def enter (outline : Outline) (keyword : Text.Region) (condition : Option Fragment) : Outline :=
  { outline with openParts := { keyword, condition } :: outline.openParts }

/-- The outline after one more item. -/
def add (outline : Outline) : Item → Outline
  | .trigger _ => outline
  | .action accepted => outline.grow (accepted.toList.map .action) []
  | .opening keyword condition => outline.enter keyword condition
  | .elseLine keyword =>
    match outline.openParts with
    | [] => outline.grow [] [.of .unmatchedElse keyword]
    | part :: rest =>
      if part.hasElse then
        outline.grow [] [.of .duplicateElse keyword]
      else
        { outline with openParts := { part with hasElse := true } :: rest }
  | .endLine keyword =>
    match outline.openParts with
    | [] => outline.grow [] [.of .unmatchedEnd keyword]
    | part :: rest => { outline with openParts := rest }.grow [part.tree] []

/-- All that is wrong with the structure of a script that ends here. -/
def allIssues (outline : Outline) : List Diagnostic :=
  outline.issues ++ outline.openParts.map OpenPart.unclosed

theorem add_elseLine_of_outside {outline : Outline} (h : outline.place = .outside)
    (keyword : Text.Region) :
  outline.add (.elseLine keyword) = outline.grow [] [.of .unmatchedElse keyword]
  := by
  unfold place at h
  split at h
  · rename_i hparts
    rw [add, hparts]
  · rename_i part _ _
    cases helse : part.hasElse <;> simp [OpenPart.place, helse] at h

theorem add_endLine_of_outside {outline : Outline} (h : outline.place = .outside)
    (keyword : Text.Region) :
  outline.add (.endLine keyword) = outline.grow [] [.of .unmatchedEnd keyword]
  := by
  unfold place at h
  split at h
  · rename_i hparts
    rw [add, hparts]
  · rename_i part _ _
    cases helse : part.hasElse <;> simp [OpenPart.place, helse] at h

theorem add_elseLine_of_elseBranch {outline : Outline} (h : outline.place = .elseBranch)
    (keyword : Text.Region) :
  outline.add (.elseLine keyword) = outline.grow [] [.of .duplicateElse keyword]
  := by
  unfold place at h
  split at h
  · cases h
  · rename_i part rest hparts
    cases helse : part.hasElse
    · simp [OpenPart.place, helse] at h
    · rw [add, hparts]
      simp [helse]

@[simp]
theorem grow_place (outline : Outline) (trees : List Tree) (issues : List Diagnostic) :
  (outline.grow trees issues).place = outline.place
  := by
  cases h : outline.openParts <;> simp [place, grow, h]

@[simp]
theorem grow_grow (outline : Outline) (trees more : List Tree) (issues others : List Diagnostic) :
  (outline.grow trees issues).grow more others = outline.grow (trees ++ more) (issues ++ others)
  := by
  cases h : outline.openParts <;> simp [grow, h]

@[simp]
theorem grow_nil (outline : Outline) :
  outline.grow [] [] = outline
  := by
  obtain ⟨trees, parts, issues⟩ := outline
  cases parts <;> simp [grow]

theorem grow_allIssues (outline : Outline) (trees : List Tree) (issues : List Diagnostic) :
  ((outline.grow trees issues).allIssues).Perm (outline.allIssues ++ issues)
  := by
  have hunclosed : (outline.grow trees issues).openParts.map OpenPart.unclosed
      = outline.openParts.map OpenPart.unclosed := by
    cases h : outline.openParts <;> simp [grow, h]
  have hissues : (outline.grow trees issues).issues = outline.issues ++ issues := by
    cases h : outline.openParts <;> simp [grow, h]
  rw [allIssues, allIssues, hunclosed, hissues, List.append_assoc, List.append_assoc]
  exact List.perm_append_comm.append_left _

/-- The outline once a block with these issues has been opened in `outline`. -/
structure Within (outline : Outline) (part : OpenPart) (issues : List Diagnostic)
    (inside : Outline) : Prop where
  trees : inside.trees = outline.trees
  openParts : inside.openParts = part :: outline.openParts
  issues : inside.issues = outline.issues ++ issues

/-- A line that closes a block puts its tree where the block stands. -/
theorem Within.close {outline inside : Outline} {part : OpenPart} {issues : List Diagnostic}
    (h : outline.Within part issues inside) (keyword : Text.Region) :
  inside.add (.endLine keyword) = outline.grow [part.tree] issues
  := by
  obtain ⟨trees, parts, _⟩ := inside
  obtain ⟨rfl, rfl, rfl⟩ := h
  obtain ⟨trees, parts, issues⟩ := outline
  cases parts <;> simp [add, grow]

/-- Without trees, an outline grows by no tree. -/
theorem grow_nil_trees (outline : Outline) (issues : List Diagnostic) :
  (outline.grow [] issues).trees = outline.trees
  := by
  cases h : outline.openParts <;> simp [grow, h]

end Outline

/-! ### Parts and outlines -/

/-- A part at the place ends before these lines. -/
def Stops : Place → List Item → Prop
  | _, [] => True
  | .thenBranch, .elseLine _ :: _ => True
  | .thenBranch, .endLine _ :: _ => True
  | .elseBranch, .endLine _ :: _ => True
  | _, _ => False

/-- A part ends before a line that ends it. -/
theorem readPart_stops (place : Place) (items : List Item) :
  Stops place (readPart place items).rest
  := by
  fun_induction readPart place items with
  | case1 place => cases place <;> trivial
  | case2 place accepted items ih => exact ih
  | case3 place accepted items ih => exact ih
  | case4 keyword items ih => exact ih
  | case5 keyword items => trivial
  | case6 keyword items ih => exact ih
  | case7 keyword items ih => exact ih
  | case8 place keyword items hplace => cases place <;> trivial
  | case9 place => cases place <;> trivial
  | case10 place => cases place <;> trivial
  | case11 => assumption
  | case12 => assumption

/-- Apart from the `else` line after a first branch, nothing ends a branch but `end`. -/
theorem Stops.exists_endLine {place : Place} {line : Item} {following : List Item}
    (h : Stops place (line :: following))
    (helse : place = .thenBranch → ∀ keyword, line ≠ .elseLine keyword) :
  ∃ keyword, line = .endLine keyword
  := by
  cases line with
  | trigger | action | opening => cases place <;> cases h
  | elseLine keyword =>
    cases place with
    | outside | elseBranch => cases h
    | thenBranch => exact absurd rfl (helse rfl keyword)
  | endLine keyword => exact ⟨keyword, rfl⟩

/-- What reading the items of a part makes of an outline.  If a line ends the part, the outline
grows by the part, and that line is read next.  If nothing ends it, what it grows by at the
end are the trees of the part, unless a block is open, and its issues. -/
structure Follows (outline : Outline) {items : List Item} (part : Part items) : Prop where
  ended : part.rest ≠ [] →
    items.foldl Outline.add outline
      = part.rest.foldl Outline.add (outline.grow part.trees part.issues)
  trees : part.rest = [] →
    (items.foldl Outline.add outline).trees = (outline.grow part.trees part.issues).trees
  issues : part.rest = [] →
    ((items.foldl Outline.add outline).allIssues).Perm (outline.allIssues ++ part.issues)

namespace Follows

/-- Items that only let the outline grow keep it following. -/
theorem after {outline : Outline} {items items' : List Item} {part : Part items}
    {trees : List Tree} {issues : List Diagnostic} (h : Follows (outline.grow trees issues) part)
    (hfold : items'.foldl Outline.add outline
      = items.foldl Outline.add (outline.grow trees issues))
    (hle : items.length ≤ items'.length) :
  Follows outline (part.after trees issues hle)
  := by
  constructor
  · intro hrest
    rw [hfold, h.ended hrest, Outline.grow_grow]
    rfl
  · intro hrest
    rw [hfold, h.trees hrest, Outline.grow_grow]
    rfl
  · intro hrest
    rw [hfold]
    apply (h.issues hrest).trans
    apply ((outline.grow_allIssues trees issues).append_right _).trans
    rw [List.append_assoc]
    rfl

/-- A part that ends before its first line leaves the outline as it is. -/
theorem stopped (outline : Outline) (items : List Item) :
  Follows outline ({ rest := items, rest_le := Nat.le_refl _ } : Part items)
  := by
  constructor
  · intro _
    rw [Outline.grow_nil]
  · rintro rfl
    rw [Outline.grow_nil]
    rfl
  · rintro rfl
    simp

/-- The line that ends a part is added once the outline has grown by the part. -/
theorem foldl_add {outline : Outline} {items following : List Item} {part : Part items}
    {line : Item} (h : Follows outline part) (hrest : part.rest = line :: following) :
  items.foldl Outline.add outline
    = following.foldl Outline.add ((outline.grow part.trees part.issues).add line)
  := by
  rw [h.ended (hrest ▸ List.cons_ne_nil _ _), hrest, List.foldl_cons]

/-- An outline in which a block has been opened that `end` closes grows by its tree. -/
theorem closed {outline inside : Outline} {part : OpenPart} {items following : List Item}
    {last : Part following} {issues : List Diagnostic} {keyword : Text.Region}
    (h : Follows (outline.grow [part.tree] issues) last)
    (hinside : outline.Within part issues inside)
    (hfold : items.foldl Outline.add outline
      = following.foldl Outline.add (inside.add (.endLine keyword)))
    (hle : following.length ≤ items.length) :
  Follows outline (last.after [part.tree] issues hle)
  := by
  apply h.after
  rw [hfold, hinside.close]

/-- An outline in which a block has been opened that nothing closes follows that block. -/
theorem unclosed {outline inside : Outline} {part : OpenPart} {items items' : List Item}
    {last : Part items} {issues : List Diagnostic} (h : Follows inside last)
    (hinside : outline.Within part issues inside) (hrest : last.rest = [])
    (hfold : items'.foldl Outline.add outline = items.foldl Outline.add inside) :
  @Follows outline items' (.unclosed part.keyword (issues ++ last.issues))
  := by
  constructor
  · intro hne
    exact absurd rfl hne
  · intro _
    rw [hfold, h.trees hrest, Part.unclosed, Outline.grow_nil_trees, ← hinside.trees,
      Outline.grow, hinside.openParts]
  · intro _
    rw [hfold]
    apply (h.issues hrest).trans
    rw [Outline.allIssues, Outline.allIssues, hinside.openParts, hinside.issues, Part.unclosed,
      List.perm_iff_count]
    intro issue
    simp only [List.map_cons, List.count_append, List.count_cons, OpenPart.unclosed]
    omega

end Follows

/-- Reading the items of a part makes of an outline at its place what follows the part. -/
theorem follows_readPart (place : Place) (items : List Item) (outline : Outline)
    (hplace : outline.place = place) :
  Follows outline (readPart place items)
  := by
  fun_induction readPart place items generalizing outline with
  | case1 place => exact .stopped outline []
  | case2 place accepted items ih =>
    apply (ih _ (outline.grow_place [] [] ▸ hplace)).after
    rw [Outline.grow_nil]
    rfl
  | case3 place accepted items ih =>
    apply (ih _ (outline.grow_place _ [] ▸ hplace)).after
    rfl
  | case4 keyword items ih =>
    apply (ih _ (outline.grow_place [] _ ▸ hplace)).after
    rw [List.foldl_cons, Outline.add_elseLine_of_outside hplace]
  | case5 keyword items => exact .stopped outline _
  | case6 keyword items ih =>
    apply (ih _ (outline.grow_place [] _ ▸ hplace)).after
    rw [List.foldl_cons, Outline.add_elseLine_of_elseBranch hplace]
  | case7 keyword items ih =>
    apply (ih _ (outline.grow_place [] _ ▸ hplace)).after
    rw [List.foldl_cons, Outline.add_endLine_of_outside hplace]
  | case8 place keyword items houtside => exact .stopped outline _
  | case9 place keyword condition items first hfirst ihfirst =>
    have hinside : outline.Within ⟨keyword, condition, [], [], false⟩ []
        (outline.enter keyword condition) := ⟨rfl, rfl, (List.append_nil _).symm⟩
    apply (ihfirst _ rfl).unclosed hinside hfirst
    rfl
  | case10 place keyword condition items first keyword' others hfirst _ second hsecond ihfirst
      ihsecond =>
    have hinside : outline.Within ⟨keyword, condition, first.trees, [], true⟩ first.issues
        (((outline.enter keyword condition).grow first.trees first.issues).add
          (.elseLine keyword')) := ⟨rfl, rfl, rfl⟩
    apply (ihsecond _ rfl).unclosed hinside hsecond
    exact (ihfirst (outline.enter keyword condition) rfl).foldl_add hfirst
  | case11 place keyword condition items first keyword' others hfirst _ second last following
      hsecond _ ihfirst ihsecond ihfollowing =>
    obtain ⟨keyword'', rfl⟩ :=
      (hsecond ▸ readPart_stops .elseBranch others).exists_endLine nofun
    have hinside : outline.Within ⟨keyword, condition, first.trees, second.trees, true⟩
        (first.issues ++ second.issues)
        ((((outline.enter keyword condition).grow first.trees first.issues).add
          (.elseLine keyword')).grow second.trees second.issues) :=
      ⟨rfl, rfl, List.append_assoc _ _ _⟩
    apply (ihfollowing _ (outline.grow_place _ _ ▸ hplace)).closed hinside
    calc
      items.foldl Outline.add (outline.enter keyword condition)
        = others.foldl Outline.add (((outline.enter keyword condition).grow first.trees
            first.issues).add (.elseLine keyword')) :=
          (ihfirst (outline.enter keyword condition) rfl).foldl_add hfirst
      _ = following.foldl Outline.add _ := (ihsecond _ rfl).foldl_add hsecond
  | case12 place keyword condition items first last following hlast hfirst _ ihfirst ihfollowing =>
    obtain ⟨keyword', rfl⟩ :=
      (hfirst ▸ readPart_stops .thenBranch items).exists_endLine fun _ => hlast
    have hinside : outline.Within ⟨keyword, condition, first.trees, [], false⟩ first.issues
        ((outline.enter keyword condition).grow first.trees first.issues) := ⟨rfl, rfl, rfl⟩
    apply (ihfollowing _ (outline.grow_place _ _ ▸ hplace)).closed hinside
    exact (ihfirst (outline.enter keyword condition) rfl).foldl_add hfirst

end TriggerLang.Script
