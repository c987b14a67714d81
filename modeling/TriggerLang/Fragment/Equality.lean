import TriggerLang.Fragment.Basic

/-!
# Equality of fragments

Fragments are equal if they have the same shape, the same primitives at the leaves, and
the same fields in the same order.  An integer never equals a floating-point number.
-/

namespace TriggerLang.Fragment

mutual

/-- The two fragments are equal. -/
def beq : Fragment → Fragment → Bool
  | .null, .null => true
  | .boolean a, .boolean b => a == b
  | .integer a, .integer b => a == b
  | .float a, .float b => a == b
  | .string a, .string b => a == b
  | .list a, .list b => beqItems a b
  | .mapping a, .mapping b => beqFields a b
  | _, _ => false

/-- The two lists hold equal fragments. -/
def beqItems : List Fragment → List Fragment → Bool
  | [], [] => true
  | f :: fs, g :: gs => beq f g && beqItems fs gs
  | _, _ => false

/-- The two lists of fields have equal names and fragments. -/
def beqFields : Fields → Fields → Bool
  | [], [] => true
  | (k, f) :: fs, (l, g) :: gs => k == l && beq f g && beqFields fs gs
  | _, _ => false

end

mutual

theorem beq_iff (f g : Fragment) :
  beq f g = true ↔ f = g
  := by
  match f with
  | .list a =>
    cases g <;> simp [beq, beqItems_iff a]
  | .mapping a =>
    cases g <;> simp [beq, beqFields_iff a]
  | .null | .boolean _ | .integer _ | .float _ | .string _ =>
    cases g <;> simp [beq]

theorem beqItems_iff (fs gs : List Fragment) :
  beqItems fs gs = true ↔ fs = gs
  := by
  match fs with
  | [] => cases gs <;> simp [beqItems]
  | f :: fs => cases gs <;> simp [beqItems, beq_iff f, beqItems_iff fs]

theorem beqFields_iff (fs gs : Fields) :
  beqFields fs gs = true ↔ fs = gs
  := by
  match fs with
  | [] => cases gs <;> simp [beqFields]
  | (k, f) :: fs =>
    match gs with
    | [] => simp [beqFields]
    | (l, g) :: gs => simp [beqFields, beq_iff f, beqFields_iff fs]

end

instance : DecidableEq Fragment :=
  fun f g => decidable_of_iff _ (beq_iff f g)

end TriggerLang.Fragment
