import ShaderNet.NodeKind.Recipes
import ShaderNet.Proofs.Evaluate.Follow
import ShaderNet.Proofs.Table

/-! What recipes ensure of all they come to, from what is known of their inputs. -/
namespace ShaderNet

namespace Recipe

variable {α β : Type} {given : Expression → Prop} {middle : α → Prop} {good : β → Prop}

/-- Whatever expressions a recipe is given for its inputs, as long as they are as they should be, so is
what it comes to. -/
def Ensures (given : Expression → Prop) (good : α → Prop) : Recipe α → Prop
  | .done a => good a
  | .fail _ => True
  | .ask _ next =>
    ∀ answer, (∀ e, answer = some e → given e) → (next answer).Ensures given good

theorem ensuresBind {r : Recipe α} {f : α → Recipe β} (first : r.Ensures given middle)
    (second : ∀ a, middle a → (f a).Ensures given good) : (r >>= f).Ensures given good := by
  change (r.bind f).Ensures given good
  induction r with
  | done a => exact second a first
  | fail e => trivial
  | ask name next ih => exact fun answer known => ih answer (first answer known)

theorem ensuresMono {r : Recipe α} {better : α → Prop} (ensures : r.Ensures given middle)
    (stronger : ∀ a, middle a → better a) : r.Ensures given better := by
  induction r with
  | done a => exact stronger a ensures
  | fail e => trivial
  | ask name next ih => exact fun answer known => ih answer (ensures answer known)

theorem ensuresNothing (given : Expression → Prop) (r : Recipe α) : r.Ensures given fun _ => True := by
  induction r with
  | done a => trivial
  | fail e => trivial
  | ask name next ih => exact fun answer _ => ih answer

theorem ensuresOfExcept {x : Except Unsupported β} (ok : ∀ b, x = .ok b → good b) :
    (ofExcept x).Ensures given good := by
  cases x with
  | error e => trivial
  | ok b => exact ok b rfl

theorem ensuresInput {f : Option Expression → Recipe β} {name : String}
    (opened : (f none).Ensures given good) (fed : ∀ e, given e → (f (some e)).Ensures given good) :
    (input name >>= f).Ensures given good := by
  have answered : (input name).Ensures given fun answer => ∀ e, answer = some e → given e :=
    fun _ known => known
  refine ensuresBind answered fun answer known => ?_
  cases answer with
  | none => exact opened
  | some e => exact fed e (known e rfl)

theorem ensuresMapM {f : α → Recipe β} {l : List α} (each : ∀ a ∈ l, (f a).Ensures given good) :
    (l.mapM f).Ensures given fun results => ∀ b ∈ results, good b := by
  induction l with
  | nil => exact fun _ member => nomatch member
  | cons a rest ih =>
    rw [List.mapM_cons]
    refine ensuresBind (each a List.mem_cons_self) fun b here => ?_
    refine ensuresBind (ih fun c member => each c (List.mem_cons_of_mem _ member)) fun bs others => ?_
    intro c member
    rcases List.mem_cons.mp member with rfl | member
    · exact here
    · exact others c member

theorem followEnsures {g : String → Except Failure (Option Expression)} {r : Recipe β} {b : β}
    (ensures : r.Ensures given good) (answers : ∀ name e, g name = .ok (some e) → given e)
    (ok : r.follow g = .ok b) : good b := by
  induction r with
  | done c =>
    cases ok
    exact ensures
  | fail e => cases ok
  | ask name next ih =>
    obtain ⟨answer, told, ok⟩ := inputOk (f := next) ok
    refine ih answer (ensures answer fun e given => ?_) ok
    cases given
    exact answers name e told

end Recipe

namespace Compiled

structure All (bound : Binding → Prop) (given : Expression → Prop) (c : Compiled) : Prop where
  bindings : ∀ b ∈ c.bindings, bound b
  outputs : ∀ socket e, c.outputs.get? socket = some e → given e

variable {bound : Binding → Prop} {given : Expression → Prop} {c : Compiled}

theorem All.mono {bound' : Binding → Prop} {given' : Expression → Prop} (all : c.All bound given)
    (bindings : ∀ b, bound b → bound' b) (outputs : ∀ e, given e → given' e) : c.All bound' given' :=
  ⟨fun b member => bindings b (all.bindings b member),
    fun socket e found => outputs e (all.outputs socket e found)⟩

theorem emptyAll : empty.All bound given :=
  ⟨List.forall_mem_nil _, fun _ _ found => by cases found⟩

theorem withOutputAll (all : c.All bound given) (socket : String) {e : Expression} (good : given e) :
    (c.withOutput socket e).All bound given := by
  refine ⟨all.bindings, fun name e' found => ?_⟩
  rw [withOutput, Table.getInsert] at found
  split at found
  · cases found
    exact good
  · exact all.outputs name e' found

theorem singleAll (socket : String) {e : Expression} (good : given e) :
    (single socket e).All bound given := withOutputAll emptyAll socket good

theorem outputsBindings {names : List String} {f : String → Expression} (c : Compiled) :
    (names.foldl (fun c name => c.withOutput name (f name)) c).bindings = c.bindings := by
  induction names generalizing c with
  | nil => rfl
  | cons name rest ih => exact ih (c.withOutput name (f name))

theorem eachOutput {names : List String} {f : String → Expression} {name : String} {e : Expression}
    (found : (names.foldl (fun c name => c.withOutput name (f name)) c).outputs.get? name = some e) :
    (name ∈ names ∧ e = f name) ∨ c.outputs.get? name = some e := by
  induction names generalizing c with
  | nil => exact .inr found
  | cons other rest ih =>
    rcases ih found with ⟨listed, same⟩ | before
    · exact .inl ⟨List.mem_cons_of_mem _ listed, same⟩
    · dsimp only [withOutput] at before
      rw [Table.getInsert] at before
      split at before
      · rename_i here
        cases before
        exact .inl ⟨here ▸ List.mem_cons_self, congrArg f here⟩
      · exact .inr before

theorem eachAll {names : List String} {f : String → Expression} (all : c.All bound given)
    (each : ∀ name ∈ names, given (f name)) :
    (names.foldl (fun c name => c.withOutput name (f name)) c).All bound given := by
  refine ⟨?_, fun socket e found => ?_⟩
  · rw [outputsBindings]
    exact all.bindings
  · rcases eachOutput found with ⟨listed, rfl⟩ | before
    · exact each socket listed
    · exact all.outputs socket e before

end Compiled

namespace NodeKind
open Recipe

variable {node : Node} {e : Expression} {c : Compiled}

/-- What an expression is split into: a scalar is handed on whole, a vector by its components. -/
inductive Splits (node : Node) (e : Expression) : Compiled → Prop
  | scalar {size : Nat} {component : ValueType} (sized : e.type.size? = some size)
      (parted : e.type.component? = some component) (scalar : e.type.isScalar = true) :
      Splits node e ((Compiled.empty.hoist (Identifier.binding node.id "vector") e).1.withOutput "x"
        (Compiled.empty.hoist (Identifier.binding node.id "vector") e).2)
  | vector {size : Nat} {component : ValueType} (sized : e.type.size? = some size)
      (parted : e.type.component? = some component) (vector : e.type.isScalar = false)
      (within : size ≤ 4) :
      Splits node e ((components.take size).foldl (fun c name => c.withOutput name (.simple component
        (selectFrom (Compiled.empty.hoist (Identifier.binding node.id "vector") e).2 name)))
        (Compiled.empty.hoist (Identifier.binding node.id "vector") e).1)

theorem sliceWithin {size : Nat} (within : size ≤ 4) : slice size = .done (components.take size) :=
  if_pos within

theorem sliceBeyond {size : Nat} (beyond : ¬ size ≤ 4) : slice size = .fail (.outOfRange size 4) :=
  if_neg beyond

theorem ensuresSlice {given : Expression → Prop} (size : Nat) :
    (slice size).Ensures given (· = components.take size) := by
  unfold slice
  split
  · rfl
  · trivial

theorem splitPartsCases (node : Node) (e : Expression) :
    (∃ c, splitParts node e = .done c ∧ Splits node e c) ∨ ∃ f, splitParts node e = .fail f := by
  unfold splitParts
  split
  · rename_i size component sized parted
    dsimp only
    cases scalar : e.type.isScalar with
    | true => exact .inl ⟨_, rfl, .scalar sized parted scalar⟩
    | false =>
      by_cases within : size ≤ 4
      · rw [if_neg Bool.false_ne_true, sliceWithin within]
        exact .inl ⟨_, rfl, .vector sized parted scalar within⟩
      · rw [if_neg Bool.false_ne_true, sliceBeyond within]
        exact .inr ⟨_, rfl⟩
  · exact .inr ⟨_, rfl⟩

theorem splitPartsOk {g : String → Except Failure (Option Expression)}
    (ok : (splitParts node e).follow g = .ok c) : Splits node e c := by
  rcases splitPartsCases node e with ⟨d, done, splits⟩ | ⟨f, failed⟩
  · rw [done] at ok
    cases ok
    exact splits
  · rw [failed] at ok
    cases ok

theorem ensuresSplitParts {given : Expression → Prop} {good : Compiled → Prop}
    (each : ∀ c, Splits node e c → good c) : (splitParts node e).Ensures given good := by
  rcases splitPartsCases node e with ⟨c, done, splits⟩ | ⟨f, failed⟩
  · rw [done]
    exact each c splits
  · rw [failed]
    trivial

end NodeKind
end ShaderNet
