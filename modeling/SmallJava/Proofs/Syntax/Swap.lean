/-
Statements in which class declarations have changed places. Main statement:
`SwapsClasses.reordered`, one swap anywhere is a special case of swaps at many places at once, which
is the relation that runs preserve.
-/
import SmallJava.Syntax.Basic

namespace SmallJava

/-! ## One swap -/

mutual

/-- The second list is the first after one swap of two class declarations that have different names
and stand next to each other, in the list itself or in the body of a method at any depth. -/
inductive SwapsClasses : List Statement → List Statement → Prop
  | here {name other : String} (h : name ≠ other) (methods others : List MethodDecl)
      (line otherLine : Nat) (rest : List Statement) :
      SwapsClasses
        (.declareClass name methods line :: .declareClass other others otherLine :: rest)
        (.declareClass other others otherLine :: .declareClass name methods line :: rest)
  | later (s : Statement) {ss ts : List Statement} :
      SwapsClasses ss ts → SwapsClasses (s :: ss) (s :: ts)
  | inside (name : String) (line : Nat) (rest : List Statement) {ms ns : List MethodDecl} :
      SwapsClassesIn ms ns →
      SwapsClasses (.declareClass name ms line :: rest) (.declareClass name ns line :: rest)

/-- The same for the body of one of the methods of a class. -/
inductive SwapsClassesIn : List MethodDecl → List MethodDecl → Prop
  | here (signature : Signature) (rest : List MethodDecl) {ss ts : List Statement} :
      SwapsClasses ss ts → SwapsClassesIn (.mk signature ss :: rest) (.mk signature ts :: rest)
  | later (m : MethodDecl) {ms ns : List MethodDecl} :
      SwapsClassesIn ms ns → SwapsClassesIn (m :: ms) (m :: ns)

end

/-! ## Swaps at many places -/

mutual

/-- The second list is the first after any number of such swaps, none of which overlap. -/
inductive Reordered : List Statement → List Statement → Prop
  | nil : Reordered [] []
  | same (s : Statement) {ss ts : List Statement} : Reordered ss ts → Reordered (s :: ss) (s :: ts)
  | inside (name : String) (line : Nat) {ms ns : List MethodDecl} {ss ts : List Statement} :
      ReorderedIn ms ns → Reordered ss ts →
      Reordered (.declareClass name ms line :: ss) (.declareClass name ns line :: ts)
  | swap {name other : String} (h : name ≠ other) (line otherLine : Nat)
      {ms ns ms' ns' : List MethodDecl} {ss ts : List Statement} :
      ReorderedIn ms ms' → ReorderedIn ns ns' → Reordered ss ts →
      Reordered (.declareClass name ms line :: .declareClass other ns otherLine :: ss)
        (.declareClass other ns' otherLine :: .declareClass name ms' line :: ts)

/-- The same for the bodies of the methods of a class. -/
inductive ReorderedIn : List MethodDecl → List MethodDecl → Prop
  | nil : ReorderedIn [] []
  | cons (signature : Signature) {ss ts : List Statement} {ms ns : List MethodDecl} :
      Reordered ss ts → ReorderedIn ms ns →
      ReorderedIn (.mk signature ss :: ms) (.mk signature ts :: ns)

end

theorem Reordered.refl (ss : List Statement) : Reordered ss ss := by
  induction ss with
  | nil => exact .nil
  | cons s ss ih => exact .same s ih

theorem ReorderedIn.refl (ms : List MethodDecl) : ReorderedIn ms ms := by
  induction ms with
  | nil => exact .nil
  | cons m ms ih =>
    obtain ⟨signature, body⟩ := m
    exact .cons signature (.refl body) ih

mutual

/-- One swap is one of many. -/
theorem SwapsClasses.reordered : ∀ {ss ts : List Statement}, SwapsClasses ss ts → Reordered ss ts
  | _, _, .here h ms ns line otherLine rest =>
    .swap h line otherLine (.refl ms) (.refl ns) (.refl rest)
  | _, _, .later s h => .same s h.reordered
  | _, _, .inside name line rest h => .inside name line h.reordered (.refl rest)

theorem SwapsClassesIn.reordered :
    ∀ {ms ns : List MethodDecl}, SwapsClassesIn ms ns → ReorderedIn ms ns
  | _, _, .here signature rest h => .cons signature h.reordered (.refl rest)
  | _, _, .later (.mk signature body) h => .cons signature (.refl body) h.reordered

end

end SmallJava
