import ShaderNet.Proofs.NodeKind.Ensures
import ShaderNet.Proofs.Template.Calls

/-! All that nodes of every kind may yield. Each kind has few forms of expressions, made from what feeds
the node; whatever is to be known of compiled expressions is known once it holds of these forms. -/
namespace ShaderNet

inductive Narrowing.Reached (s : Signature) : Narrowing → Prop
  | start : Reached s (.start s)
  | narrow {n m slot type} (before : Reached s n) (ok : n.narrow slot type = .ok m) : Reached s m

namespace NodeKind
open Recipe
open Number (Double)

def Argument (given : Expression → Prop) (text : String) : Prop :=
  (∃ e, given e ∧ e.text = text) ∨ ∃ type : ValueType, type.zero = .ok text

def Component (given : Expression → Prop) (part : String × Bool) : Prop :=
  (∃ e, given e ∧ part = (e.text, e.trivial)) ∨ ∃ x : Double, part = (floatText x, true)

def Target (type : ValueType) : Prop :=
  (∃ name, ValueType.ofName? name = some type) ∧ (type.isScalar = true ∨ type.isVector = true)

def wholeOf (node : Node) (e : Expression) : Expression :=
  (Compiled.empty.hoist (Identifier.binding node.id "vector") e).2

/-- The expressions that a node may yield, by its kind and by what may feed it. -/
inductive Yields (s : Surroundings) (node : Node) (given : Expression → Prop) :
    NodeKind → Expression → Prop
  | truth (b : Bool) : Yields s node given (.literal .bool) (.simple (.scalar .bool) (boolText b))
  | number (base : Scalar) {x : Double} (finite : x.isFinite = true) :
      Yields s node given (.literal base) (.simple (.scalar base) (numberText base x))
  | color (c : Color) : Yields s node given .color (.simple (.vec 4) (colorText c))
  | ambient (value : Ambient) :
      Yields s node given (.ambient value) (.simple value.type value.identifier)
  | uniform {id u} (found : s.uniforms.get? id = some u) :
      Yields s node given .uniform (.simple u.type (Identifier.uniform id))
  | operator {op a b} (left : given a) (right : given b) : Yields s node given (.operator op)
      (.compound a.type ("(" ++ a.text ++ " " ++ op.symbol ++ " " ++ b.text ++ ")"))
  | negate {a} (operand : given a) :
      Yields s node given .negate (.compound a.type ("(-" ++ a.text ++ ")"))
  | zero {type text} (target : Target type) (zero : type.zero = .ok text) :
      Yields s node given .cast (.simple type text)
  | cast {type e d} (target : Target type) (fed : given e) (ok : castFrom type e = .ok d) :
      Yields s node given .cast d
  | compose {size} {parts : List (String × Bool)} (each : ∀ p ∈ parts, Component given p) :
      Yields s node given (.compose size) ⟨.vec size,
        call (ValueType.vec size).name (parts.map Prod.fst), parts.all Prod.snd⟩
  | nothing : Yields s node given .split (.simple .float "0.0")
  | scalar {e} (fed : given e) (scalar : e.type.isScalar = true) :
      Yields s node given .split (wholeOf node e)
  | component {e size type name} (fed : given e) (scalar : e.type.isScalar = false)
      (sized : e.type.size? = some size) (parted : e.type.component? = some type)
      (listed : name ∈ components.take size) :
      Yields s node given .split (.simple type (selectFrom (wholeOf node e) name))
  | unselected {member type text} (ok : openSelection member = .ok type)
      (zero : type.zero = .ok text) : Yields s node given .swizzle (.simple type text)
  | unchanged {member type e} (fed : given e) (ok : selectedType member e.type = .ok type)
      (scalar : e.type.isScalar = true) : Yields s node given .swizzle e
  | selected {member type e} (fed : given e) (ok : selectedType member e.type = .ok type)
      (scalar : e.type.isScalar = false) : Yields s node given .swizzle
        ⟨type, (if e.trivial then e.text else "(" ++ e.text ++ ")") ++ "." ++ member, e.trivial⟩
  | builtin {signature n type texts} (reached : Narrowing.Reached signature n)
      (ok : n.collapse.resolve signature.output = .ok type) (each : ∀ text ∈ texts, Argument given text) :
      Yields s node given (.builtin signature) (.compound type (call signature.name texts))
  | function {name f type texts} (found : s.exports.get? name = some f) (output : f.output = some type)
      (each : ∀ text ∈ texts, Argument given text) :
      Yields s node given .function (.compound type (call f.name texts))
  | texture {sampler coordinates} (fed : given sampler)
      (placed : coordinates = "v_uv" ∨ ∃ e, given e ∧ coordinates = e.text) :
      Yields s node given .texture (.compound (.vec 4) (call "texture" [sampler.text, coordinates]))
  | black (label : String) :
      Yields s node given (.sink label) (.simple (.vec 4) "vec4(0.0, 0.0, 0.0, 1.0)")
  | displayed {label e d} (fed : given e) (ok : e.displayed = .ok d) :
      Yields s node given (.sink label) d

def BindsFed (node : Node) (given : Expression → Prop) (b : Binding) : Prop :=
  ∃ e size, given e ∧ e.trivial = false ∧ e.type.size? = some size ∧
    b = ⟨Identifier.binding node.id "vector", e.type, e.text⟩

variable {s : Surroundings} {node : Node} {given : Expression → Prop}

theorem operandGiven (name : String) : (operand node name).Ensures given given :=
  ensuresInput trivial fun _ fed => fed

theorem targetGiven : (castTarget node).Ensures given Target := by
  refine ensuresBind (ensuresNothing _ _) fun name _ => ?_
  split
  · trivial
  · rename_i type found
    split
    · rename_i shape
      exact ⟨⟨name, found⟩, by simpa using shape⟩
    · trivial

theorem componentGiven (size : Nat) (name : String) :
    (componentOf size node name).Ensures given (Component given) := by
  refine ensuresInput ?_ fun e fed => ?_
  · exact ensuresBind (ensuresNothing _ _) fun x _ => .inr ⟨x, rfl⟩
  · dsimp only
    split
    · exact .inl ⟨e, fed, rfl⟩
    · trivial

theorem argumentGiven (function name : String) (type : ValueType) :
    (argument function name type).Ensures given (Argument given) := by
  refine ensuresInput (ensuresOfExcept fun text ok => .inr ⟨type, ok⟩) fun e fed => ?_
  dsimp only
  split
  · exact .inl ⟨e, fed, rfl⟩
  · trivial

theorem narrowedReached (signature : Signature) :
    (narrowed signature).Ensures given (Narrowing.Reached signature) := by
  have general : ∀ (rest : List (String × Slot)) (n : Narrowing), Narrowing.Reached signature n →
      (rest.foldlM narrowedBy n).Ensures given (Narrowing.Reached signature) := by
    intro rest
    induction rest with
    | nil => exact fun _ reached => reached
    | cons p rest ih =>
      intro n reached
      rw [List.foldlM_cons]
      refine ensuresBind ?_ ih
      refine ensuresBind (ensuresNothing _ _) fun type _ => ?_
      cases type with
      | none => exact reached
      | some type => exact ensuresOfExcept fun m ok => .narrow reached ok
  exact general signature.parameters _ .start

theorem literalYields (base : Scalar) : (literalText base node).Ensures given
    fun text => Yields s node given (.literal base) (.simple (.scalar base) text) := by
  unfold literalText
  split
  · rename_i bool
    rw [bool]
    exact ensuresBind (ensuresNothing _ _) fun b _ => .truth b
  · refine ensuresBind (ensuresNothing _ _) fun x _ => ?_
    split
    · rename_i finite
      exact .number base finite
    · trivial

variable {c : Compiled}

theorem hoistBinds {e : Expression} {size : Nat} (fed : given e) (sized : e.type.size? = some size) :
    (Compiled.empty.hoist (Identifier.binding node.id "vector") e).1.All (BindsFed node given)
      (Yields s node given .split) := by
  unfold Compiled.hoist
  split
  · exact Compiled.emptyAll
  · rename_i compound
    refine ⟨?_, fun _ _ found => by cases found⟩
    refine List.forall_mem_singleton.mpr ⟨e, size, fed, by simpa using compound, sized, rfl⟩

theorem splitYields {e : Expression} (fed : given e) (splits : Splits node e c) :
    c.All (BindsFed node given) (Yields s node given .split) := by
  cases splits with
  | scalar sized parted scalar =>
    exact Compiled.withOutputAll (hoistBinds fed sized) "x" (.scalar fed scalar)
  | vector sized parted vector _ =>
    refine Compiled.eachAll (hoistBinds fed sized) fun name listed => ?_
    exact .component fed vector sized parted listed

theorem textureYields : compileTexture.Ensures given
    (Compiled.All (BindsFed node given) (Yields s node given .texture)) := by
  refine ensuresInput trivial fun sampler fed => ?_
  dsimp only
  split
  · refine ensuresInput (Compiled.singleAll "color" (.texture fed (.inl rfl))) fun e placed => ?_
    dsimp only
    split
    · exact Compiled.singleAll "color" (.texture fed (.inr ⟨e, placed, rfl⟩))
    · trivial
  · trivial

theorem compileYields (kind : NodeKind) (s : Surroundings) (node : Node) :
    (kind.compile s node).Ensures given
      (Compiled.All (BindsFed node given) (Yields s node given kind)) := by
  cases kind with
  | literal base =>
    exact ensuresBind (literalYields base) fun text yields => Compiled.singleAll "out" yields
  | color => exact ensuresBind (ensuresNothing _ _) fun c _ => Compiled.singleAll "out" (.color c)
  | ambient value => exact Compiled.singleAll "out" (.ambient value)
  | uniform =>
    have known : (uniformOf s node).Ensures given fun p => ∃ u, s.uniforms.get? p.1 = some u ∧
        p.2 = u.type := by
      refine ensuresBind (ensuresNothing _ _) fun id _ => ?_
      split
      · rename_i u found
        exact ⟨u, found, rfl⟩
      · trivial
    refine ensuresBind known ?_
    rintro ⟨id, type⟩ ⟨u, found, rfl⟩
    exact Compiled.singleAll "out" (.uniform found)
  | operator op =>
    refine ensuresBind (operandGiven "a") fun a left => ?_
    refine ensuresBind (operandGiven "b") fun b right => ?_
    exact Compiled.singleAll "out" (.operator left right)
  | negate =>
    exact ensuresBind (operandGiven "a") fun a fed => Compiled.singleAll "out" (.negate fed)
  | cast =>
    refine ensuresBind targetGiven fun type target => ensuresInput ?_ fun e fed => ?_
    · refine ensuresBind (ensuresOfExcept fun _ ok => ok) fun text zero => ?_
      exact Compiled.singleAll "out" (.zero target zero)
    · refine ensuresBind (ensuresOfExcept fun _ ok => ok) fun d ok => ?_
      exact Compiled.singleAll "out" (.cast target fed ok)
  | compose size =>
    refine ensuresBind (ensuresMapM fun name _ => componentGiven size name) fun parts each => ?_
    exact Compiled.singleAll "out" (.compose each)
  | split =>
    refine ensuresInput ?_ fun e fed => ensuresSplitParts fun c splits => splitYields fed splits
    exact Compiled.eachAll Compiled.emptyAll fun _ _ => .nothing
  | swizzle =>
    refine ensuresBind (ensuresNothing _ _) fun member _ => ensuresInput ?_ fun e fed => ?_
    · refine ensuresBind (ensuresOfExcept fun _ ok => ok) fun type ok => ?_
      refine ensuresBind (ensuresOfExcept fun _ zero => zero) fun text zero => ?_
      exact Compiled.singleAll "out" (.unselected ok zero)
    · refine ensuresBind (ensuresOfExcept fun _ ok => ok) fun type ok => ?_
      dsimp only
      split
      · rename_i scalar
        exact Compiled.singleAll "out" (.unchanged fed ok scalar)
      · rename_i vector
        exact Compiled.singleAll "out" (.selected fed ok (by simpa using vector))
  | builtin signature =>
    refine ensuresBind (narrowedReached signature) fun n reached => ?_
    have each : ∀ p ∈ signature.parameters, Recipe.Ensures given (Argument given)
        (do argument signature.name p.1 (← Recipe.ofExcept (n.collapse.resolve p.2))) :=
      fun p _ => ensuresBind (ensuresNothing _ _) fun type _ => argumentGiven _ _ type
    refine ensuresBind (ensuresMapM each) fun texts written => ?_
    refine ensuresBind (ensuresOfExcept fun _ ok => ok) fun type ok => ?_
    exact Compiled.singleAll "out" (.builtin reached ok written)
  | function =>
    have known : (functionOf s node).Ensures given fun f => ∃ name, s.exports.get? name = some f := by
      refine ensuresBind (ensuresNothing _ _) fun name _ => ?_
      split
      · rename_i f found
        exact ⟨name, found⟩
      · trivial
    refine ensuresBind known ?_
    rintro f ⟨name, found⟩
    refine ensuresBind (ensuresMapM fun p _ => argumentGiven f.name p.1 p.2) fun texts written => ?_
    split
    · exact Compiled.emptyAll
    · rename_i type output
      exact Compiled.singleAll "out" (.function found output written)
  | texture => exact textureYields
  | sink label =>
    refine ensuresInput (Compiled.singleAll "color" (.black label)) fun e fed => ?_
    refine ensuresBind (ensuresOfExcept fun _ ok => ok) fun d ok => ?_
    exact Compiled.singleAll "color" (.displayed fed ok)

/- What every form of expression keeps of what it is made from, every recipe does. -/
theorem compileAll {kind : NodeKind} {bound : Binding → Prop}
    (forms : ∀ e, Yields s node given kind e → given e) (binds : ∀ b, BindsFed node given b → bound b) :
    (kind.compile s node).Ensures given (Compiled.All bound given) :=
  ensuresMono (kind.compileYields s node) fun _ all => all.mono binds forms

end NodeKind
end ShaderNet
