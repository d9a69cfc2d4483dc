import ShaderNet.Proofs.Evaluate.Upstream
import ShaderNet.Proofs.NodeKind.Renamed

/-! Nets in which nodes stand twice under different names. What is made of a node and of its namesake
ends alike, and in results of one shape. -/
namespace ShaderNet

inductive Ends {α β : Type} (R : α → β → Prop) : Except Failure α → Except Failure β → Prop
  | error {e e'} : Ends R (.error e) (.error e')
  | ok {a b} (same : R a b) : Ends R (.ok a) (.ok b)

theorem Ends.inverted {α β : Type} {R : α → β → Prop} {x : Except Failure α} {y : Except Failure β}
    (ends : Ends R x y) :
    (∃ e e', x = .error e ∧ y = .error e') ∨ ∃ a b, x = .ok a ∧ y = .ok b ∧ R a b := by
  cases ends with
  | error => exact .inl ⟨_, _, rfl, rfl⟩
  | ok same => exact .inr ⟨_, _, rfl, rfl, same⟩

section
variable {texts : Prop} {x y : Except Failure Compiled} (ends : Ends (Compiled.Alike texts) x y)
include ends

theorem Ends.shape : x.toOption.map Compiled.shape = y.toOption.map Compiled.shape := by
  cases ends with
  | error => rfl
  | ok alike => exact congrArg some alike.shape

theorem Ends.outputs (asked : texts) (free : ∀ c, x = .ok c → c.bindings = []) :
    x.toOption.map Compiled.outputs = y.toOption.map Compiled.outputs := by
  cases ends with
  | error => rfl
  | ok alike => exact congrArg some (alike.outputs asked (free _ rfl))

end

theorem Recipe.followAlike {α β : Type} {texts : Prop} {R : α → β → Prop} {r : Recipe α} {r' : Recipe β}
    {f g : String → Except Failure (Option Expression)}
    (answers : ∀ name, Ends (Option.Rel (Expression.Alike texts)) (f name) (g name))
    (alike : r.Alike texts R r') : Ends R (r.follow f) (r'.follow g) := by
  induction alike with
  | done same => exact .ok same
  | fail => exact .error
  | @ask name next next' _ ih =>
    simp only [follow]
    rcases (answers name).inverted with ⟨e, e', left, right⟩ | ⟨a, b, left, right, same⟩
    · rw [left, right]
      exact .error
    · rw [left, right]
      exact ih a b same

structure Net.Renaming (n : Net) (inside : String → Prop) (name : String → String) : Prop where
  distinct : ∀ a b, inside a → inside b → name a = name b → a = b
  nodes : ∀ id, inside id → ∃ node copy, n.node id = .ok node ∧ n.node (name id) = .ok copy ∧
    node.id = id ∧ copy.id = name id ∧ node.type = copy.type ∧ node.parameters = copy.parameters
  within : n.FedWithin inside
  sources : ∀ id socket, inside id → (n.feeder? ⟨name id, socket⟩).map Connection.source =
    (n.feeder? ⟨id, socket⟩).map fun c => ⟨name c.source.node, c.source.name⟩

namespace Scene

variable {scene : Scene} {inside : String → Prop} {name : String → String}

def Unbound (scene : Scene) (inside : String → Prop) : Prop :=
  ∀ id c, inside id → scene.evaluate [] id = .ok c → c.bindings = []

theorem evaluateIdle {path : List String} {id : String} {c : Compiled}
    (ok : scene.evaluate path id = .ok c) : scene.evaluate [] id = .ok c :=
  evaluateIff.mpr ⟨_, attemptOfEvaluate ok⟩

section Renaming

variable (sound : scene.net.Sound) (renamed : scene.net.Renaming inside name)
include sound renamed

theorem inputRenamed {texts : Prop} {p q : String → Except Failure Compiled}
    (produced : ∀ id, inside id → Ends (Compiled.Alike texts) (p id) (q (name id)))
    (free : ∀ id c, inside id → p id = .ok c → texts → c.bindings = []) {node copy : Node}
    (here : inside node.id) (called : copy.id = name node.id) (socket : String) :
    Ends (Option.Rel (Expression.Alike texts)) (scene.input p node none socket)
      (scene.input q copy none socket) := by
  have sources := renamed.sources node.id socket here
  unfold input
  rw [if_neg (by simp), if_neg (by simp), called]
  cases fed : scene.net.feeder? ⟨node.id, socket⟩ with
  | none =>
    rw [fed, Option.map_none, Option.map_eq_none_iff] at sources
    rw [sources]
    exact .ok .none
  | some c =>
    rw [fed, Option.map_some] at sources
    obtain ⟨c', fed', same⟩ := Option.map_eq_some_iff.mp sources
    obtain ⟨member, target⟩ := (Net.feederIff sound.toIndexed).mp fed
    have source : inside c.source.node := renamed.within c member (by rw [target]; exact here)
    rw [fed']
    dsimp only
    rw [same]
    rcases (produced _ source).inverted with ⟨e, e', left, right⟩ | ⟨result, result', left, right, alike⟩
    · rw [left, right]
      exact .error
    · rw [left, right]
      dsimp only
      have output := alike.output (free _ _ source left) c.source.name
      generalize result.outputs.get? c.source.name = e, result'.outputs.get? c.source.name = e' at output
      cases output with
      | none => exact .error
      | some same => exact .ok (.some same)

/- The nodes that wait are called otherwise as well, so that one of them is met again at the same time. -/
theorem evaluateRenamed (path : List String) (id : String) (here : inside id)
    (stack : ∀ k ∈ path, inside k) :
    Ends (Compiled.Alike (scene.Unbound inside)) (scene.evaluate path id)
      (scene.evaluate (path.map name) (name id)) := by
  induction rest : scene.idle path using Nat.strongRecOn generalizing path id with
  | ind count ih =>
    obtain ⟨node, copy, found, found', rfl, called, type, parameters⟩ := renamed.nodes id here
    by_cases waits : node.id ∈ path
    · rw [evaluateStack found waits, evaluateStack found' (List.mem_map_of_mem waits)]
      exact .error
    · have fresh : name node.id ∉ path.map name := by
        intro member
        obtain ⟨k, stack', same⟩ := List.mem_map.mp member
        exact waits (renamed.distinct _ _ (stack k stack') here same ▸ stack')
      rw [evaluateMade waits, evaluateMade fresh]
      simp only [made, found, found', type]
      cases known : scene.registry.kind copy.type with
      | error e => exact .error
      | ok kind =>
        refine Recipe.followAlike (fun socket => ?_) (NodeKind.compileRenamed parameters kind _)
        refine inputRenamed sound renamed (fun k inside' => ?_)
          (fun k c inside' ok unbound => unbound k c inside' (evaluateIdle ok)) here called socket
        have next := ih _ (rest ▸ idleFewer found waits) (path ++ [node.id]) k inside'
          (fun j member => ?_) rfl
        · rwa [List.map_append] at next
        · rcases List.mem_append.mp member with earlier | last
          · exact stack j earlier
          · exact List.mem_singleton.mp last ▸ here

end Renaming

end Scene
end ShaderNet
