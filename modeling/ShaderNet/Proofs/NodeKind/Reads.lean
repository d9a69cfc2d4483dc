import ShaderNet.NodeKind.Recipes
import ShaderNet.Proofs.Table

/-! What recipes read. Of a node that is its identifier and its parameters, less the numbers of a
vector and the text of a path; of the surroundings, one uniform or the exports. -/
namespace ShaderNet

namespace Number.Binary

variable {f : Format}

def isNegativeZero : Binary f → Bool
  | .finite negative word => negative && word.val = 0
  | _ => false

/- Other numbers are the same only if they are equal. -/
theorem sameEq {x y : Binary f} (same : x.same y = true) (left : x.isNegativeZero = false)
    (right : y.isNegativeZero = false) : x = y := by
  cases x <;> cases y <;> simp only [Binary.same, Bool.false_eq_true, decide_eq_true_eq] at same
  · rw [same]
  · rename_i s w t v
    simp only [Bool.and_eq_true, Bool.or_eq_true, decide_eq_true_eq] at same
    obtain ⟨rfl, same | zero⟩ := same
    · rw [same]
    · simp only [isNegativeZero, zero, decide_true, Bool.and_true] at left right
      rw [left, right]

end Number.Binary

namespace Parameter

def hasNegativeZero : Parameter → Bool
  | number x => x.isNegativeZero
  | color c => c.channels.any (·.isNegativeZero)
  | floatVector xs => xs.any (·.isNegativeZero)
  | _ => false

def essence : Parameter → Parameter
  | floatVector _ => floatVector []
  | path _ => path ⟨[]⟩
  | p => p

theorem essenceKind (p : Parameter) : p.essence.kind = p.kind := by cases p <;> rfl
theorem essenceNumber (p : Parameter) : p.essence.number? = p.number? := by cases p <;> rfl
theorem essenceBoolean (p : Parameter) : p.essence.boolean? = p.boolean? := by cases p <;> rfl
theorem essenceText (p : Parameter) : p.essence.text? = p.text? := by cases p <;> rfl
theorem essenceColor (p : Parameter) : p.essence.color? = p.color? := by cases p <;> rfl

theorem sameNumbersEq {xs ys : List Number.Single} (same : sameNumbers xs ys = true)
    (left : xs.any (·.isNegativeZero) = false) (right : ys.any (·.isNegativeZero) = false) :
    xs = ys := by
  induction xs generalizing ys with
  | nil =>
    cases ys with
    | nil => rfl
    | cons y ys => cases same
  | cons x xs ih =>
    cases ys with
    | nil => cases same
    | cons y ys =>
      simp only [sameNumbers, Bool.and_eq_true] at same
      simp only [List.any_cons, Bool.or_eq_false_iff] at left right
      rw [Number.Binary.sameEq same.1 left.1 right.1, ih same.2 left.2 right.2]

theorem sameEssence {p q : Parameter} (same : p.same q = true) (left : p.hasNegativeZero = false)
    (right : q.hasNegativeZero = false) : p.essence = q.essence := by
  cases p <;> cases q <;> simp only [Parameter.same, Bool.false_eq_true, decide_eq_true_eq] at same
  · rw [Number.Binary.sameEq same left right]
  · rw [same]
  · rw [same]
  · rename_i c d
    have channels := sameNumbersEq same left right
    cases c
    cases d
    simp only [Color.channels, List.cons.injEq, and_true] at channels
    obtain ⟨rfl, rfl, rfl, rfl⟩ := channels
    rfl
  · rfl
  · rfl

end Parameter

namespace Node

def hasNegativeZero (node : Node) : Bool := node.parameters.values.any Parameter.hasNegativeZero

structure Alike (n m : Node) : Prop where
  id : n.id = m.id
  type : n.type = m.type
  parameters : ∀ name,
    (n.parameters.get? name).map Parameter.essence = (m.parameters.get? name).map Parameter.essence

theorem plainParameter {n : Node} (plain : n.hasNegativeZero = false) {name : String} {p : Parameter}
    (found : n.parameters.get? name = some p) : p.hasNegativeZero = false :=
  Bool.not_eq_true _ ▸ List.any_eq_false.mp plain p (Table.memValues.mpr ⟨name, found⟩)

theorem contentAlike {n m : Node} (id : n.id = m.id) (content : n.sameContent m = true)
    (left : n.hasNegativeZero = false) (right : m.hasNegativeZero = false) : n.Alike m := by
  simp only [sameContent, Bool.and_eq_true, decide_eq_true_eq] at content
  refine ⟨id, content.1, fun name => ?_⟩
  cases Table.related content.2 name with
  | inl absent => rw [absent.1, absent.2]
  | inr present =>
    obtain ⟨p, q, found, found', same⟩ := present
    rw [found, found']
    exact congrArg some
      (Parameter.sameEssence same (plainParameter left found) (plainParameter right found'))

end Node

namespace Recipe

variable {n m : Node}

theorem parameterAlike {α : Type} (alike : n.Alike m) (name : String) (kind : ParameterKind)
    {read : Parameter → Option α} (reads : ∀ p, read p.essence = read p) (default : α) :
    parameter n name kind read default = parameter m name kind read default := by
  have same := alike.parameters name
  unfold parameter
  cases left : n.parameters.get? name with
  | none =>
    rw [left] at same
    rw [Option.map_eq_none_iff.mp same.symm]
  | some p =>
    rw [left] at same
    obtain ⟨q, right, essence⟩ := Option.map_eq_some_iff.mp same.symm
    rw [right]
    dsimp only
    rw [← reads p, ← reads q, ← essence, alike.id, ← p.essenceKind, ← q.essenceKind, essence]

theorem textAlike (alike : n.Alike m) (name default : String) :
    text n name default = text m name default :=
  parameterAlike alike name _ Parameter.essenceText default

theorem numberAlike (alike : n.Alike m) (name : String) : number n name = number m name :=
  parameterAlike alike name _ Parameter.essenceNumber _

end Recipe

namespace NodeKind
open Recipe

theorem compileAlike (kind : NodeKind) (s : Surroundings) {n m : Node} (alike : n.Alike m) :
    kind.compile s n = kind.compile s m := by
  cases kind with
  | literal base => simp only [compile, literalText, numberAlike alike,
      parameterAlike alike _ _ Parameter.essenceBoolean]
  | color => simp only [compile, compileColor, parameterAlike alike _ _ Parameter.essenceColor]
  | uniform => simp only [compile, uniformOf, textAlike alike]
  | operator op => simp only [compile, compileOperator, operand, alike.id]
  | negate => simp only [compile, compileNegate, operand, alike.id]
  | cast => simp only [compile, compileCast, castTarget, textAlike alike]
  | compose size =>
    have parts : componentOf size n = componentOf size m := by
      funext name
      simp only [componentOf, numberAlike alike]
    simp only [compile, compileCompose, parts]
  | split => simp only [compile, compileSplit, splitParts, alike.id]
  | swizzle => simp only [compile, compileSwizzle, textAlike alike]
  | function => simp only [compile, compileFunction, functionOf, textAlike alike]
  | ambient | builtin | texture | sink => rfl

def shown (node : Node) : Option String :=
  match node.parameters.get? "uniform" with
  | none => some ""
  | some p => p.text?

theorem uniformOfText (s : Surroundings) {node : Node} {id : String} (shows : shown node = some id) :
    uniformOf s node =
      (s.uniforms.get? id).elim (.fail (.uniformMissing id)) fun u => .done (id, u.type) := by
  have read : text node "uniform" "" = .done id := by
    unfold shown at shows
    unfold text parameter
    cases found : node.parameters.get? "uniform" with
    | none =>
      rw [found] at shows
      cases shows
      rfl
    | some p =>
      rw [found] at shows
      dsimp only at shows ⊢
      rw [shows]
  rw [uniformOf, read]
  cases stored : s.uniforms.get? id with
  | none =>
    simp only [Bind.bind, Recipe.bind, stored]
    rfl
  | some u =>
    simp only [Bind.bind, Recipe.bind, stored]
    rfl

theorem uniformOfShown {s t : Surroundings} {node : Node}
    (same : ∀ id, shown node = some id → s.uniforms.get? id = t.uniforms.get? id) :
    uniformOf s node = uniformOf t node := by
  cases shows : shown node with
  | some id => rw [uniformOfText s shows, uniformOfText t shows, same id shows]
  | none =>
    unfold shown at shows
    unfold uniformOf text parameter
    cases found : node.parameters.get? "uniform" with
    | none =>
      rw [found] at shows
      cases shows
    | some p =>
      rw [found] at shows
      dsimp only at shows ⊢
      rw [shows]
      rfl

theorem compileSurroundings {kind : NodeKind} {s t : Surroundings} {node : Node}
    (uniforms : kind = .uniform → ∀ id, shown node = some id → s.uniforms.get? id = t.uniforms.get? id)
    (exports : kind = .function → s.exports = t.exports) :
    kind.compile s node = kind.compile t node := by
  cases kind with
  | uniform => simp only [compile, uniformOfShown (uniforms rfl)]
  | function => simp only [compile, compileFunction, functionOf, exports rfl]
  | _ => rfl

def LooksUp (kind : NodeKind) (node : Node) (id : String) : Prop :=
  ∃ s t : Surroundings, s.exports = t.exports ∧
    (∀ k, k ≠ id → s.uniforms.get? k = t.uniforms.get? k) ∧ kind.compile s node ≠ kind.compile t node

theorem compilePresent {s : Surroundings} {node : Node} {id : String} {u : Uniform}
    (shows : shown node = some id) (present : s.uniforms.get? id = some u) :
    compile .uniform s node = .done (.single "out" (.simple u.type (Identifier.uniform id))) := by
  simp only [compile, uniformOfText s shows, present]
  rfl

theorem compileAbsent {s : Surroundings} {node : Node} {id : String} (shows : shown node = some id)
    (absent : s.uniforms.get? id = none) :
    compile .uniform s node = .fail (.uniformMissing id) := by
  simp only [compile, uniformOfText s shows, absent]
  rfl

theorem looksUpIff {kind : NodeKind} {node : Node} {id : String} :
    kind.LooksUp node id ↔ kind = .uniform ∧ shown node = some id := by
  constructor
  · rintro ⟨s, t, exports, others, different⟩
    refine Classical.byContradiction fun unread => different ?_
    refine compileSurroundings (fun shows k shown => others k fun same => ?_) fun _ => exports
    exact unread ⟨shows, same ▸ shown⟩
  · rintro ⟨rfl, shows⟩
    refine ⟨⟨Table.ofList [(id, ⟨id, .float, none⟩)], ∅⟩, ⟨∅, ∅⟩, rfl, fun k other => ?_, fun same => ?_⟩
    · exact (Table.getInsert ..).trans (if_neg other.symm)
    · have present : (Table.ofList [(id, (⟨id, .float, none⟩ : Uniform))]).get? id = some _ :=
        (Table.getInsert ..).trans (if_pos rfl)
      rw [compilePresent shows present, compileAbsent shows rfl] at same
      cases same

/- The text of the parameter and the default of the kind differ only where the parameter is left out. -/
theorem shownNamed {node : Node} {id : String} (shows : shown node = some id)
    (given : id = "" → node.parameters.get? "uniform" ≠ none) :
    (node.parameters.get? "uniform").bind Parameter.text? = some id := by
  unfold shown at shows
  cases found : node.parameters.get? "uniform" with
  | none =>
    rw [found] at shows
    exact absurd found (given (Option.some.inj shows).symm)
  | some p =>
    rw [found] at shows
    exact shows

end NodeKind

namespace Registry

/- Of the standard node types only these read their surroundings. -/
theorem standardTypes {type : String} {kind : NodeKind} (known : standard.kind type = .ok kind) :
    (kind = .uniform → type = "custom_uniform") ∧ (kind = .function → type = "function") := by
  have only : ∀ p ∈ standard.entries,
      (p.2 = .uniform → p.1 = "custom_uniform") ∧ (p.2 = .function → p.1 = "function") := by
    decide +kernel
  unfold Registry.kind at known
  split at known <;> cases known
  rename_i found
  exact only _ (Table.getMember found)

end Registry
end ShaderNet
