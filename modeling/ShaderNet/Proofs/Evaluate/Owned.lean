import ShaderNet.Proofs.Evaluate.Each

/-! Variables of nodes. A node binds at most one, and it is called after the node, whatever the names in
the registry and whichever inputs it is given. -/
namespace ShaderNet

def Compiled.Binds (id : String) (c : Compiled) : Prop :=
  c.bindings = [] ∨ ∃ type text, c.bindings = [⟨Identifier.binding id "vector", type, text⟩]

theorem Compiled.Binds.name {id : String} {c : Compiled} (binds : c.Binds id) {b : Binding}
    (member : b ∈ c.bindings) : b.name = Identifier.binding id "vector" := by
  rcases binds with none | ⟨type, text, one⟩
  · rw [none] at member
    cases member
  · rw [one] at member
    rw [List.mem_singleton.mp member]

theorem Compiled.Refers.binds {known : String → Prop} {id : String} {c : Compiled}
    (refers : c.Refers known id) : c.Binds id := by
  rcases refers.bindings with none | ⟨type, text, _, same⟩
  · exact .inl none
  · exact .inr ⟨type, text, same⟩

namespace NodeKind
open Recipe

variable {given : Expression → Prop}

theorem splitBinds {node : Node} {e : Expression} {c : Compiled} (splits : Splits node e c) :
    c.Binds node.id := by
  have bound : (Compiled.empty.hoist (Identifier.binding node.id "vector") e).1.Binds node.id := by
    unfold Compiled.hoist
    split
    · exact .inl rfl
    · exact .inr ⟨e.type, e.text, rfl⟩
  cases splits with
  | scalar => exact bound
  | vector =>
    rw [Compiled.Binds, Compiled.outputsBindings]
    exact bound

theorem compileBinds (kind : NodeKind) (s : Surroundings) (node : Node) :
    (kind.compile s node).Ensures given (Compiled.Binds node.id) := by
  have free : ∀ {α : Type} (r : Recipe α) {f : α → Recipe Compiled},
      (∀ a, (f a).Ensures given (Compiled.Binds node.id)) →
      (r >>= f).Ensures given (Compiled.Binds node.id) :=
    fun r _ rest => ensuresBind (ensuresNothing given r) fun a _ => rest a
  have single : ∀ socket e, (Recipe.done (Compiled.single socket e)).Ensures given
      (Compiled.Binds node.id) := fun _ _ => .inl rfl
  cases kind with
  | literal base => exact free _ fun _ => single _ _
  | color => exact free _ fun _ => single _ _
  | ambient value => exact single _ _
  | uniform => exact free _ fun _ => single _ _
  | operator op => exact free _ fun _ => free _ fun _ => single _ _
  | negate => exact free _ fun _ => single _ _
  | cast =>
    refine free _ fun target => ensuresInput ?_ fun e _ => ?_
    · exact free _ fun _ => single _ _
    · exact free _ fun _ => single _ _
  | compose size => exact free _ fun _ => single _ _
  | split =>
    refine ensuresInput ?_ fun e _ => ensuresSplitParts fun c splits => splitBinds splits
    exact .inl (Compiled.outputsBindings _)
  | swizzle =>
    refine free _ fun member => ensuresInput ?_ fun e _ => ?_
    · exact free _ fun _ => free _ fun _ => single _ _
    · refine free _ fun type => ?_
      dsimp only
      split <;> exact single _ _
  | builtin signature => exact free _ fun _ => free _ fun _ => free _ fun _ => single _ _
  | function =>
    refine free _ fun f => free _ fun _ => ?_
    split
    · exact .inl rfl
    · exact single _ _
  | texture =>
    refine ensuresInput trivial fun sampler _ => ?_
    dsimp only
    split
    · refine ensuresInput (single _ _) fun coordinates _ => ?_
      dsimp only
      split
      · exact single _ _
      · trivial
    · trivial
  | sink label =>
    refine ensuresInput (single _ _) fun e _ => ?_
    exact free _ fun _ => single _ _

end NodeKind

namespace Scene

def Owned (results : Table String Compiled) : Prop :=
  ∀ id c, results.get? id = some c → c.Binds id

theorem containedOwned {net : Net} {results : Table String Compiled} (contained : SelfContained net results) :
    Owned results := fun id c found => (contained id c found).binds

theorem ownedPasses {scene : Scene} (sound : scene.net.Sound) :
    scene.Passes (fun _ _ => True) fun id c => c.Binds id where
  made := fun id node kind found _ => by
    obtain ⟨rfl, _⟩ := Net.nodePresent sound found
    exact kind.compileBinds scene.surroundings node
  delivered := fun _ _ _ _ _ _ _ _ => trivial

end Scene
end ShaderNet
