import ShaderNet.NodeKind.Recipes
import ShaderNet.Proofs.Evaluate.Follow
import ShaderNet.Proofs.Table

/-! Nodes that differ in their names. Their recipes ask the same questions and come to results of the
same shape: a name shows in no text but that of a variable. -/
namespace ShaderNet

structure Expression.Alike (texts : Prop) (e d : Expression) : Prop where
  type : e.type = d.type
  trivial : e.trivial = d.trivial
  text : texts → e.text = d.text

theorem Expression.Alike.eq {texts : Prop} {e d : Expression} (same : e.Alike texts d) (asked : texts) :
    e = d := by
  obtain ⟨type, text, trivial⟩ := e
  obtain ⟨rfl, rfl, shown⟩ := same
  rw [show text = d.text from shown asked]

namespace Compiled

def shape (c : Compiled) : List ValueType × Table String (ValueType × Bool) :=
  (c.bindings.map Binding.type, c.outputs.mapValues fun _ e => (e.type, e.trivial))

structure Alike (texts : Prop) (c d : Compiled) : Prop where
  shape : c.shape = d.shape
  outputs : texts → c.bindings = [] → c.outputs = d.outputs

variable {texts : Prop} {c d : Compiled}

theorem alikeRefl (c : Compiled) : c.Alike texts c := ⟨rfl, fun _ _ => rfl⟩

theorem Alike.withOutput (alike : c.Alike texts d) (socket : String) {e e' : Expression}
    (same : e.Alike (texts ∧ c.bindings = []) e') :
    (c.withOutput socket e).Alike texts (d.withOutput socket e') := by
  obtain ⟨types, outputs⟩ := Prod.mk.inj alike.shape
  refine ⟨Prod.ext types ?_, fun asked free => ?_⟩
  · simp only [Compiled.shape, Compiled.withOutput, Table.mapValuesInsert, outputs, same.type,
      same.trivial]
  · have equal := same.eq ⟨asked, free⟩
    simp only [Compiled.withOutput, equal, alike.outputs asked free]

theorem singleAlike (socket : String) {e e' : Expression} (same : e.Alike texts e') :
    (single socket e).Alike texts (single socket e') :=
  (alikeRefl empty).withOutput socket ⟨same.type, same.trivial, fun asked => same.text asked.1⟩

theorem Alike.each (alike : c.Alike texts d) {f g : String → Expression} {names : List String}
    (same : ∀ name ∈ names, (f name).Alike (texts ∧ c.bindings = []) (g name)) :
    (names.foldl (fun c name => c.withOutput name (f name)) c).Alike texts
      (names.foldl (fun c name => c.withOutput name (g name)) d) := by
  induction names generalizing c d with
  | nil => exact alike
  | cons name rest ih =>
    obtain ⟨first, others⟩ := List.forall_mem_cons.mp same
    exact ih (alike.withOutput name first) others

/- A variable takes the text out of what refers to it; where there is none, nothing was bound. -/
theorem Alike.hoist (alike : c.Alike texts d) (name name' : String) {e e' : Expression}
    (same : e.Alike texts e') :
    (c.hoist name e).1.Alike texts (d.hoist name' e').1 ∧
      (c.hoist name e).2.Alike (texts ∧ (c.hoist name e).1.bindings = []) (d.hoist name' e').2 := by
  unfold Compiled.hoist
  rw [same.trivial]
  split
  · exact ⟨alike, same.type, same.trivial, fun asked => same.text asked.1⟩
  · obtain ⟨types, outputs⟩ := Prod.mk.inj alike.shape
    have bound : c.bindings ++ [⟨name, e.type, e.text⟩] ≠ [] :=
      List.append_ne_nil_of_right_ne_nil _ (List.cons_ne_nil _ _)
    refine ⟨⟨Prod.ext ?_ outputs, fun _ free => absurd free bound⟩, same.type, rfl,
      fun asked => absurd asked.2 bound⟩
    simp only [Compiled.shape, List.map_append, types, List.map_cons, List.map_nil, same.type]

theorem Alike.output (alike : c.Alike texts d) (free : texts → c.bindings = []) (socket : String) :
    Option.Rel (Expression.Alike texts) (c.outputs.get? socket) (d.outputs.get? socket) := by
  have shown := congrArg (fun s => s.2.get? socket) alike.shape
  simp only [Compiled.shape, Table.getMapValues] at shown
  cases left : c.outputs.get? socket with
  | none =>
    rw [left] at shown
    rw [Option.map_eq_none_iff.mp shown.symm]
    exact .none
  | some e =>
    rw [left] at shown
    obtain ⟨e', right, same⟩ := Option.map_eq_some_iff.mp shown.symm
    rw [right]
    obtain ⟨type, trivial⟩ := Prod.mk.inj same
    refine .some ⟨type.symm, trivial.symm, fun asked => ?_⟩
    rw [alike.outputs asked (free asked), right] at left
    cases left
    rfl

end Compiled

namespace Recipe

variable {α β γ δ : Type} {texts : Prop} {R : α → β → Prop} {S : γ → δ → Prop}

inductive Alike (texts : Prop) (R : α → β → Prop) : Recipe α → Recipe β → Prop
  | done {a b} (same : R a b) : Alike texts R (.done a) (.done b)
  | fail {e e'} : Alike texts R (.fail e) (.fail e')
  | ask {name next next'} (same : ∀ x y, Option.Rel (Expression.Alike texts) x y →
      Alike texts R (next x) (next' y)) : Alike texts R (.ask name next) (.ask name next')

theorem alikeBind {r : Recipe α} {r' : Recipe β} {f : α → Recipe γ} {g : β → Recipe δ}
    (first : Alike texts R r r') (second : ∀ a b, R a b → Alike texts S (f a) (g b)) :
    Alike texts S (r >>= f) (r' >>= g) := by
  change Alike texts S (r.bind f) (r'.bind g)
  induction first with
  | done same => exact second _ _ same
  | fail => exact .fail
  | ask _ ih => exact .ask ih

theorem alikeInput {f : Option Expression → Recipe γ} {g : Option Expression → Recipe δ} {name : String}
    (opened : Alike texts S (f none) (g none))
    (fed : ∀ e d, e.Alike texts d → Alike texts S (f (some e)) (g (some d))) :
    Alike texts S (input name >>= f) (input name >>= g) := by
  refine .ask fun x y same => ?_
  cases same with
  | none => exact opened
  | some same => exact fed _ _ same

theorem alikeInputType (name : String) : Alike texts Eq (inputType name) (inputType name) :=
  alikeInput (.done rfl) fun _ _ same => .done (congrArg some same.type)

theorem alikeOfExcept (x : Except Unsupported α) : Alike texts Eq (ofExcept x) (ofExcept x) := by
  cases x with
  | error e => exact .fail
  | ok a => exact .done rfl

theorem alikeParameter {n m : Node} (same : n.parameters = m.parameters) (name : String)
    (kind : ParameterKind) (read : Parameter → Option α) (default : α) :
    Alike texts Eq (parameter n name kind read default) (parameter m name kind read default) := by
  unfold parameter
  rw [same]
  split
  · exact .done rfl
  · split
    · exact .done rfl
    · exact .fail

theorem alikeMapM {f : γ → Recipe α} {g : γ → Recipe β} {l : List γ}
    (each : ∀ a ∈ l, Alike texts R (f a) (g a)) :
    Alike texts (List.Forall₂ R) (l.mapM f) (l.mapM g) := by
  induction l with
  | nil => exact .done .nil
  | cons a rest ih =>
    obtain ⟨first, others⟩ := List.forall_mem_cons.mp each
    rw [List.mapM_cons, List.mapM_cons]
    refine alikeBind first fun b b' same => alikeBind (ih others) fun bs bs' rest => ?_
    exact .done (.cons same rest)

theorem alikeFoldlM {f : α → γ → Recipe α} (each : ∀ b a, Alike texts Eq (f b a) (f b a)) (l : List γ)
    (b : α) : Alike texts Eq (l.foldlM f b) (l.foldlM f b) := by
  induction l generalizing b with
  | nil => exact .done rfl
  | cons a rest ih =>
    rw [List.foldlM_cons]
    refine alikeBind (each b a) fun b' b'' same => ?_
    subst same
    exact ih b'

/- Equal results leave equal work. -/
theorem alikeSame {r r' : Recipe α} {f : α → Recipe γ} {g : α → Recipe δ}
    (first : Alike texts Eq r r') (second : ∀ a, Alike texts S (f a) (g a)) :
    Alike texts S (r >>= f) (r' >>= g) := by
  refine alikeBind first fun a b same => ?_
  subst same
  exact second a

end Recipe

namespace NodeKind
open Recipe

def Agree (texts : Prop) (s t : String) : Prop := texts → s = t

variable {texts : Prop} {n m : Node}

theorem operandRenamed (n m : Node) (name : String) :
    Alike texts (Expression.Alike texts) (operand n name) (operand m name) :=
  alikeInput .fail fun _ _ same => .done same

theorem operatorRenamed (op : Operator) (n m : Node) :
    Alike texts (Compiled.Alike texts) (compileOperator op n) (compileOperator op m) := by
  refine alikeBind (operandRenamed n m "a") fun a a' left => ?_
  refine alikeBind (operandRenamed n m "b") fun b b' right => .done (Compiled.singleAlike "out" ?_)
  refine ⟨left.type, rfl, fun asked => ?_⟩
  simp only [Expression.compound, left.text asked, right.text asked]

theorem negateRenamed (n m : Node) :
    Alike texts (Compiled.Alike texts) (compileNegate n) (compileNegate m) := by
  refine alikeBind (operandRenamed n m "a") fun a a' same => .done (Compiled.singleAlike "out" ?_)
  refine ⟨same.type, rfl, fun asked => ?_⟩
  simp only [Expression.compound, same.text asked]

theorem argumentRenamed (function name : String) (type : ValueType) :
    Alike texts (Agree texts) (argument function name type) (argument function name type) := by
  refine alikeInput ?_ fun e d same => ?_
  · cases type.zero with
    | error cause => exact .fail
    | ok zero => exact .done fun _ => rfl
  · dsimp only
    rw [same.type]
    split
    · exact .done same.text
    · exact .fail

/- Arguments of one text each make calls of one text. -/
theorem callRenamed (name : String) (type : ValueType) {arguments arguments' : List String}
    (same : List.Forall₂ (Agree texts) arguments arguments') :
    (Expression.compound type (call name arguments)).Alike texts
      (.compound type (call name arguments')) := by
  refine ⟨rfl, rfl, fun asked => ?_⟩
  have equal : arguments = arguments' :=
    List.forall₂_eq_eq_eq ▸ same.imp fun s t shown => shown asked
  rw [equal]

theorem narrowedRenamed (s : Signature) : Alike texts Eq (narrowed s) (narrowed s) := by
  refine alikeFoldlM (fun b p => alikeSame (alikeInputType p.1) fun type => ?_) _ _
  cases type with
  | none => exact .done rfl
  | some type => exact alikeOfExcept _

theorem builtinRenamed (s : Signature) :
    Alike texts (Compiled.Alike texts) (compileBuiltin s) (compileBuiltin s) := by
  refine alikeSame (narrowedRenamed s) fun b => alikeBind (alikeMapM fun p _ => ?_)
    fun arguments arguments' (same : List.Forall₂ (Agree texts) arguments arguments') =>
      alikeSame (alikeOfExcept _) fun type => ?_
  · exact alikeSame (alikeOfExcept _) fun type => argumentRenamed s.name p.1 type
  · exact .done (Compiled.singleAlike "out" (callRenamed s.name type same))

theorem textureRenamed : Alike texts (Compiled.Alike texts) compileTexture compileTexture := by
  have finish {sampler sampler' : String} (same : Agree texts sampler sampler') :
      ∀ uv uv', Agree texts uv uv' → Alike texts (Compiled.Alike texts)
        (pure (.single "color" (.compound (.vec 4) (call "texture" [sampler, uv]))))
        (pure (.single "color" (.compound (.vec 4) (call "texture" [sampler', uv'])))) :=
    fun uv uv' shown => .done (Compiled.singleAlike "color"
      (callRenamed "texture" (.vec 4) (.cons same (.cons shown .nil))))
  refine alikeInput .fail fun e d sampled => ?_
  dsimp only
  rw [sampled.type]
  split
  · refine alikeBind (R := Agree texts) (.done sampled.text) fun sampler sampler' same => ?_
    refine alikeInput ?_ fun c b placed => ?_
    · exact alikeBind (.done fun _ => rfl) (finish same)
    · dsimp only
      rw [placed.type]
      split
      · exact alikeBind (.done placed.text) (finish same)
      · exact .fail
  · exact .fail

theorem displayedRenamed {e d : Expression} (same : e.Alike texts d) :
    Alike texts (Expression.Alike texts) (ofExcept e.displayed) (ofExcept d.displayed) := by
  unfold Expression.displayed
  rw [same.type]
  split
  · rename_i base size _ _
    split
    · exact .done ⟨rfl, rfl, fun asked => by simp only [Expression.compound, same.text asked]⟩
    · exact .done ⟨rfl, rfl, fun asked => by simp only [Expression.compound, same.text asked]⟩
    · exact .done ⟨rfl, rfl, fun asked => by simp only [Expression.compound, same.text asked]⟩
    · split
      · exact .done same
      · exact .done ⟨rfl, rfl, fun asked => by simp only [Expression.compound, same.text asked]⟩
  · exact .fail

theorem sinkRenamed : Alike texts (Compiled.Alike texts) compileSink compileSink := by
  refine alikeInput (.done (Compiled.alikeRefl _)) fun e d same => ?_
  exact alikeBind (displayedRenamed same) fun e d same => .done (Compiled.singleAlike "color" same)

theorem splitPartsRenamed (n m : Node) {e d : Expression} (fed : e.Alike texts d) :
    Alike texts (Compiled.Alike texts) (splitParts n e) (splitParts m d) := by
  have hoisted := (Compiled.alikeRefl .empty).hoist (Identifier.binding n.id "vector")
    (Identifier.binding m.id "vector") fed
  unfold splitParts
  rcases left : Compiled.empty.hoist (Identifier.binding n.id "vector") e with ⟨c, whole⟩
  rcases right : Compiled.empty.hoist (Identifier.binding m.id "vector") d with ⟨c', whole'⟩
  rw [left, right] at hoisted
  obtain ⟨bound, same⟩ := hoisted
  rw [fed.type]
  split
  · dsimp only
    split
    · exact .done (bound.withOutput "x" same)
    · unfold slice
      split
      · refine .done (bound.each fun name _ => ⟨rfl, rfl, fun asked => ?_⟩)
        exact congrArg (· ++ "." ++ name) (same.text asked)
      · exact .fail
  · exact .fail

theorem splitRenamed (n m : Node) :
    Alike texts (Compiled.Alike texts) (compileSplit n) (compileSplit m) :=
  alikeInput (.done (Compiled.alikeRefl _)) fun _ _ fed => splitPartsRenamed n m fed

section
variable (same : n.parameters = m.parameters)
include same

theorem literalRenamed (base : Scalar) :
    Alike texts Eq (literalText base n) (literalText base m) := by
  unfold literalText
  split
  · exact alikeSame (alikeParameter same ..) fun b => .done rfl
  · refine alikeSame (alikeParameter same ..) fun x => ?_
    split
    · exact .done rfl
    · exact .fail

theorem uniformRenamed (s : Surroundings) : Alike texts Eq (uniformOf s n) (uniformOf s m) := by
  refine alikeSame (alikeParameter same ..) fun id => ?_
  split
  · exact .done rfl
  · exact .fail

theorem castTargetRenamed : Alike texts Eq (castTarget n) (castTarget m) := by
  refine alikeSame (alikeParameter same ..) fun name => ?_
  split
  · exact .fail
  · split
    · exact .done rfl
    · exact .fail

theorem castRenamed : Alike texts (Compiled.Alike texts) (compileCast n) (compileCast m) := by
  refine alikeSame (castTargetRenamed same) fun target => alikeInput ?_ fun e d fed => ?_
  · exact alikeSame (alikeOfExcept _) fun zero => .done (Compiled.alikeRefl _)
  · refine alikeBind (R := Expression.Alike texts) ?_ fun e d alike =>
      .done (Compiled.singleAlike "out" alike)
    unfold castFrom
    rw [fed.type]
    split
    · split
      · exact .fail
      · split
        · exact .done fed
        · refine .done ⟨rfl, rfl, fun asked => ?_⟩
          simp only [Expression.compound, fed.text asked]
    · exact .fail

theorem componentRenamed (size : Nat) (name : String) :
    Alike texts (fun a b => (texts → a.1 = b.1) ∧ a.2 = b.2) (componentOf size n name)
      (componentOf size m name) := by
  refine alikeInput ?_ fun e d fed => ?_
  · exact alikeSame (alikeParameter same ..) fun x => .done ⟨fun _ => rfl, rfl⟩
  · dsimp only
    rw [fed.type]
    split
    · exact .done ⟨fed.text, fed.trivial⟩
    · exact .fail

theorem composeRenamed (size : Nat) :
    Alike texts (Compiled.Alike texts) (compileCompose size n) (compileCompose size m) := by
  refine alikeBind (alikeMapM fun name _ => componentRenamed same size name) fun parts parts' alike => ?_
  have shown : texts → parts.map Prod.fst = parts'.map Prod.fst := fun asked =>
    mapAgree (alike.imp fun _ _ each => each.1 asked)
  have trivial : parts.map Prod.snd = parts'.map Prod.snd := mapAgree (alike.imp fun _ _ each => each.2)
  refine .done (Compiled.singleAlike "out" ⟨rfl, ?_, fun asked => by rw [shown asked]⟩)
  simpa only [List.all_map, Function.id_comp] using congrArg (List.all · id) trivial

theorem swizzleRenamed : Alike texts (Compiled.Alike texts) (compileSwizzle n) (compileSwizzle m) := by
  refine alikeSame (alikeParameter same ..) fun member => alikeInput ?_ fun e d fed => ?_
  · exact alikeSame (alikeOfExcept _) fun type => alikeSame (alikeOfExcept _) fun zero =>
      .done (Compiled.alikeRefl _)
  · dsimp only
    rw [fed.type, fed.trivial]
    refine alikeSame (alikeOfExcept _) fun type => ?_
    split
    · exact .done (Compiled.singleAlike "out" fed)
    · exact .done (Compiled.singleAlike "out" ⟨rfl, rfl, fun asked => by rw [fed.text asked]⟩)

theorem functionOfRenamed (s : Surroundings) : Alike texts Eq (functionOf s n) (functionOf s m) := by
  refine alikeSame (alikeParameter same ..) fun name => ?_
  split
  · exact .done rfl
  · exact .fail

theorem functionRenamed (s : Surroundings) :
    Alike texts (Compiled.Alike texts) (compileFunction s n) (compileFunction s m) := by
  refine alikeSame (functionOfRenamed same s) fun f => ?_
  refine alikeBind (alikeMapM fun p _ => argumentRenamed f.name p.1 p.2)
    fun arguments arguments' alike => ?_
  split
  · exact .done (Compiled.alikeRefl _)
  · exact .done (Compiled.singleAlike "out" (callRenamed f.name _ alike))

/- What a node compiles to depends on its name in its variables only. -/
theorem compileRenamed (kind : NodeKind) (s : Surroundings) :
    Alike texts (Compiled.Alike texts) (kind.compile s n) (kind.compile s m) := by
  cases kind with
  | literal base => exact alikeSame (literalRenamed same base) fun text => .done (Compiled.alikeRefl _)
  | color => exact alikeSame (alikeParameter same ..) fun c => .done (Compiled.alikeRefl _)
  | ambient value => exact .done (Compiled.alikeRefl _)
  | uniform => exact alikeSame (uniformRenamed same s) fun u => .done (Compiled.alikeRefl _)
  | operator op => exact operatorRenamed op n m
  | negate => exact negateRenamed n m
  | cast => exact castRenamed same
  | compose size => exact composeRenamed same size
  | split => exact splitRenamed n m
  | swizzle => exact swizzleRenamed same
  | builtin signature => exact builtinRenamed signature
  | function => exact functionRenamed same s
  | texture => exact textureRenamed
  | sink label => exact sinkRenamed

end
end NodeKind
end ShaderNet
