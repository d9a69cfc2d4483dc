import ShaderNet.Proofs.Evaluate.Queries
import ShaderNet.Proofs.Evaluate.Renewal
import ShaderNet.Proofs.Evaluate.Rewire
import ShaderNet.Proofs.Template.Calls
import ShaderNet.Proofs.Workspace.Shader
import ShaderNet.Proofs.Workspace.Upstream
import ShaderNet.Workspace.Edit

/-! Whether a connection to a function would be a good one. The question is answered from the types that
the other inputs leave to this one; the function is called, once connected, with the types of all
inputs. Both come down to one instance that takes all of them. -/
namespace ShaderNet
open Relation (ReflTransGen)

namespace Scene

variable {scene : Scene}

def Delivers (scene : Scene) (s : Socket) (e : Expression) : Prop :=
  ∃ result, scene.evaluate [] s.node = .ok result ∧ result.outputs.get? s.name = some e

def fed (scene : Scene) (id name : String) : Option Expression :=
  (scene.net.feeder? ⟨id, name⟩).bind fun c =>
    (scene.evaluate [] c.source.node).toOption.bind fun result => result.outputs.get? c.source.name

def fedBut (scene : Scene) (input : Socket) (e : Option Expression) (name : String) :
    Option Expression :=
  if input.name = name then e else scene.fed input.node name

theorem fedBy {id name : String} {c : Connection} {e : Expression}
    (found : scene.net.feeder? ⟨id, name⟩ = some c) (delivers : scene.Delivers c.source e) :
    scene.fed id name = some e := by
  obtain ⟨result, made, output⟩ := delivers
  simp [fed, found, made, output, Except.toOption]

theorem fedOpen {id name : String} (free : scene.net.feeder? ⟨id, name⟩ = none) :
    scene.fed id name = none := by
  simp [fed, free]

theorem inputDelivered {node : Node} {name : String} {c : Connection} {e : Expression}
    (found : scene.net.feeder? ⟨node.id, name⟩ = some c) (delivers : scene.Delivers c.source e) :
    scene.input (scene.evaluate []) node none name = .ok (some e) := by
  obtain ⟨result, made, output⟩ := delivers
  simp [input, found, made, output]

theorem inputOpen {node : Node} {name : String}
    (free : scene.net.feeder? ⟨node.id, name⟩ = none) :
    scene.input (scene.evaluate []) node none name = .ok none := by
  simp [input, free]

theorem inputDetached {produce : String → Except Failure Compiled} {node : Node} {detached : String}
    (name : String) : scene.input produce node (some detached) name =
      if detached = name then .ok none else scene.input produce node none name := by
  simp [input]

theorem typeOfOutputs {result : Compiled} {s : Socket} {e : Expression}
    (output : result.outputs.get? s.name = some e) :
    typeOf (result.outputs.entries.map fun p => (p.1, p.2.type)) s = .ok e.type := by
  have general : ∀ entries : List (String × Expression), Table.find s.name entries = some e →
      typeOf (entries.map fun p => (p.1, p.2.type)) s = .ok e.type := by
    intro entries
    induction entries with
    | nil => exact fun found => nomatch found
    | cons head rest ih =>
      intro found
      rw [Table.find] at found
      split at found
      · rename_i same
        cases found
        simp [typeOf, same]
      · rename_i other
        have later := ih found
        simp only [typeOf, List.map_cons] at later ⊢
        rw [List.find?_cons_of_neg (by simpa using other)]
        exact later
  exact general _ output

theorem outputTypeDelivers {cache : Cache} {s : Socket}
    (right : (scene.compile s.node cache).1 = scene.evaluate [] s.node) {e : Expression}
    (delivers : scene.Delivers s e) : (scene.outputType s cache).1 = .ok e.type := by
  obtain ⟨result, made, output⟩ := delivers
  obtain ⟨node, found⟩ := (evaluateFound made).1
  have compiled := right.trans made
  unfold outputType
  rw [found]
  dsimp only
  cases answered : scene.compile s.node cache with
  | mk answer later =>
    rw [answered] at compiled
    dsimp only at compiled
    rw [compiled]
    exact typeOfOutputs output

theorem inputTypeFollows {cache : Cache} {s : Socket} {node : Node} {kind : NodeKind}
    (found : scene.net.node s.node = .ok node) (known : scene.registry.kind node.type = .ok kind)
    (told : (scene.sockets kind node (some s.name) cache).1 =
      (kind.sockets scene.surroundings node).follow
        (scene.input (scene.evaluate []) node (some s.name))) :
    (scene.inputType s cache).1 = ((kind.sockets scene.surroundings node).follow
      (scene.input (scene.evaluate []) node (some s.name)) >>= fun sockets =>
        typeOf sockets.inputs s) := by
  unfold inputType
  rw [found]
  dsimp only
  rw [known]
  dsimp only
  rw [← told]
  cases scene.sockets kind node (some s.name) cache with
  | mk answer later => cases answer <;> rfl

end Scene

section Suits

variable {s : Signature} {x : String} {slot : Slot} {a b : String → Option Expression}

/- One more type connected is one more for an instance to take. -/
theorem Instance.suitsMore (names : (s.parameters.map Prod.fst).Nodup)
    (declared : (x, slot) ∈ s.parameters) (i : Instance) {e : Expression}
    (free : a x = none) (here : b x = some e) (others : ∀ name, name ≠ x → b name = a name) :
    i.Suits s (NodeKind.typeAt b) ↔ i.Suits s (NodeKind.typeAt a) ∧ slot.Takes i e.type :=
  NodeKind.connectedMore names declared free here others (Slot.Takes i)

/- A parameter takes the types that some instance takes there together with all that is connected. -/
theorem NodeKind.offerIff {g : String → Except Failure (Option Expression)} (callable : s.Callable)
    (answers : ∀ p ∈ s.parameters, g p.1 = .ok (a p.1))
    (concrete : ∀ p ∈ s.parameters, ∀ e, a p.1 = some e → e.type.isShape = true) {target : Socket}
    (declared : (target.name, slot) ∈ s.parameters) {type : ValueType}
    (shape : type.isShape = true) :
    ((builtinSockets s).follow g >>= fun sockets =>
        Scene.typeOf sockets.inputs target).map type.toStrictly = .ok true ↔
      ∃ i, s.Allows i ∧ i.Suits s (typeAt a) ∧ slot.Takes i type := by
  cases offered : (builtinSockets s).follow g with
  | error cause =>
    constructor
    · intro impossible
      cases impossible
    · rintro ⟨i, allows, suits, _⟩
      obtain ⟨sockets, ok⟩ := (builtinSocketsSome callable answers concrete).mpr ⟨i, allows, suits⟩
      cases offered.symm.trans ok
  | ok sockets =>
    obtain ⟨input, listed, types⟩ := builtinSocketsTypes callable answers concrete offered declared
    have flat : ∀ u ∈ input.alternatives, u.isVariant = false := by
      intro u among
      obtain ⟨j, _, _, takes⟩ := (types u).mp among
      have template := callable.templates _ declared
      cases slot with
      | fixed t => cases template
      | template name role => exact (Role.takesPlain takes).1
    rw [Recipe.okBind, Scene.typeOf, listed, ← types,
      ← ValueType.toStrictlyIff (ValueType.shapePlain shape) flat]
    exact ⟨fun same => Except.ok.inj same, fun same => congrArg Except.ok same⟩

end Suits

namespace Workspace

variable {w after : Workspace}

def Connects (w : Workspace) (source target : Socket) (after : Workspace) : Prop :=
  (∃ changes, w.addConnection source target = (.ok changes, after)) ∨
  after = w ∧ ∃ c, w.net.feeder? target = some c ∧ c.source = source

/- What is kept was kept before, and is as right as it was. -/
theorem connectsRewired (sound : w.net.Sound) {source target : Socket}
    (connects : w.Connects source target after) :
    ∃ c : Connection, c.source = source ∧ c.target = target ∧ w.net.Rewired c after.net ∧
      after.scene = ⟨after.net, w.registry, w.exports⟩ ∧ after.cache.stack = w.cache.stack ∧
      ∀ id d, after.cache.results.get? id = some d → w.cache.results.get? id = some d ∧
        (w.scene.evaluate [] id = .ok d → after.scene.evaluate [] id = .ok d) := by
  rcases connects with ⟨changes, added⟩ | ⟨rfl, c, fed, source⟩
  · unfold addConnection at added
    split at added
    · rename_i told net done
      cases added
      obtain ⟨rewired, stable⟩ := Net.connectRewired sound done
      refine ⟨_, rfl, rfl, rewired, rfl, rfl, fun id d found => ?_⟩
      rw [commit, Cache.drop, Table.getFilter] at found
      obtain ⟨found, kept⟩ := Option.filter_eq_some_iff.mp found
      exact ⟨found, stable _ _ id d (by simpa using kept)⟩
    · cases added
  · have target := ((Net.feederIff sound.toIndexed).mp fed).2
    exact ⟨c, source, target, ⟨sound, rfl, rfl, target ▸ fed, fun _ _ => rfl⟩, rfl, rfl,
      fun _ _ found => ⟨found, fun made => made⟩⟩

theorem canConnectAnswer (sound : w.net.Sound) (idle : w.cache.stack = []) {source target : Socket}
    (rightSource : w.RightAbove source.node) (rightTarget : w.RightAbove target.node) {node : Node}
    {kind : NodeKind} (found : w.net.node target.node = .ok node)
    (known : w.registry.kind node.type = .ok kind) (apart : source.node ≠ target.node)
    (free : (w.net.downstreamClosure [target.node]).contains source.node = false) {e : Expression}
    (delivers : w.scene.Delivers source e) :
    (w.canConnect source target).1 = ((kind.sockets w.scene.surroundings node).follow
      (w.scene.input (w.scene.evaluate []) node (some target.name)) >>= fun sockets =>
        Scene.typeOf sockets.inputs target).map fun input =>
          if kind.promotesInputs then e.type.toImplicitly input else e.type.toStrictly input := by
  have sourceRight := Scene.upstreamCompile sound idle (rightAboveKeeps.mp rightSource)
  have output := Scene.outputTypeDelivers sourceRight delivers
  -- what is kept above the target is still right after the source is compiled
  have stack := @Scene.outputTypeKeeps w.scene (fun s => s.stack = []) w.cache
    (fun k s idle => (Scene.compileRemade w.scene k idle).stack.trans idle) source idle
  have keeps := @Scene.outputTypeKeeps w.scene
    (fun s => w.scene.KeepsOn (ReflTransGen w.net.Feeds · target.node) s.results) w.cache
    (fun k s good =>
      (Scene.compileWithinKeepsOn sound (w.net.upstreamFedWithin target.node) _ k s good).1)
    source (rightAboveKeeps.mp rightTarget)
  have told := (Scene.upstreamSockets sound stack keeps kind (some target.name) found).1
  obtain ⟨result, made, _⟩ := delivers
  obtain ⟨other, present⟩ := (Scene.evaluateFound made).1
  unfold canConnect
  rw [found, show w.net.node source.node = .ok other from present]
  dsimp only
  rw [if_neg (by simp [apart, free])]
  cases answered : w.scene.outputType source w.cache with
  | mk answer cache =>
    rw [answered] at output told
    dsimp only at output
    rw [output, ← Scene.inputTypeFollows found known told]
    dsimp only
    cases w.scene.inputType target cache with
    | mk answer cache =>
      cases answer with
      | error cause => rfl
      | ok input =>
        rw [known]
        rfl

section Function

variable {source target : Socket} {node : Node} {s : Signature} {slot : Slot} {e : Expression}
  (sound : w.net.Sound) (found : w.net.node target.node = .ok node)
  (known : w.registry.kind node.type = .ok (.builtin s))
  (others : ∀ p ∈ s.parameters, p.1 ≠ target.name → ∀ c,
    w.net.feeder? ⟨target.node, p.1⟩ = some c → ∃ e, w.scene.Delivers c.source e ∧
      e.type.isShape = true)
include others

theorem fedShape : ∀ p ∈ s.parameters, p.1 ≠ target.name →
    ∀ e, w.scene.fed target.node p.1 = some e → e.type.isShape = true := by
  intro p member other e given
  cases fed : w.net.feeder? ⟨target.node, p.1⟩ with
  | none =>
    rw [Scene.fedOpen fed] at given
    cases given
  | some c =>
    obtain ⟨e', delivers, shape⟩ := others p member other c fed
    rw [Scene.fedBy fed delivers] at given
    cases given
    exact shape

include sound found

theorem detachedAnswers : ∀ p ∈ s.parameters,
    w.scene.input (w.scene.evaluate []) node (some target.name) p.1 =
      .ok (w.scene.fedBut target none p.1) := by
  intro p member
  rw [Scene.inputDetached, Scene.fedBut]
  split
  · rfl
  · rename_i other
    obtain ⟨same, _⟩ := Net.nodePresent sound found
    cases fed : w.net.feeder? ⟨target.node, p.1⟩ with
    | none => rw [Scene.fedOpen fed, Scene.inputOpen (by rw [same]; exact fed)]
    | some c =>
      obtain ⟨e', delivers, _⟩ := others p member (Ne.symm other) c fed
      rw [Scene.fedBy fed delivers, Scene.inputDelivered (by rw [same]; exact fed) delivers]

include known

theorem connectedAnswers {net : Net} {c : Connection} (starts : c.source = source)
    (ends : c.target = target) (rewired : w.net.Rewired c net)
    (free : (w.net.downstreamClosure [target.node]).contains source.node = false)
    (delivers : w.scene.Delivers source e) : ∀ p ∈ s.parameters,
    (Scene.mk net w.registry w.exports).input
        ((Scene.mk net w.registry w.exports).evaluate []) node none p.1 =
      .ok (w.scene.fedBut target (some e) p.1) := by
  subst starts ends
  obtain ⟨same, _⟩ := Net.nodePresent sound found
  intro p member
  rw [Scene.fedBut]
  split
  · rename_i here
    obtain ⟨result, made, output⟩ := delivers
    refine Scene.inputDelivered (c := c) ?_ ⟨result, Scene.rewiredSource sound rewired free made, output⟩
    rw [same, ← here]
    exact rewired.here
  · rename_i other
    have told := detachedAnswers sound found others p member
    rw [Scene.inputDetached, if_neg other, Scene.fedBut, if_neg other] at told
    have listed : p.1 ∈ s.parameters.map Prod.fst ++ s.parameters.map Prod.fst :=
      List.mem_append_left _ (List.mem_map_of_mem member)
    exact Scene.rewiredAnswer sound rewired found known (NodeKind.compileBuiltinAsks s) listed
      (Ne.symm other) told

theorem connectable (working : w.scene.Working [] w.cache) (callable : s.Callable)
    (declared : (target.name, slot) ∈ s.parameters)
    (free : (w.net.downstreamClosure [target.node]).contains source.node = false)
    (delivers : w.scene.Delivers source e) (shape : e.type.isShape = true)
    (connects : w.Connects source target after) :
    (w.canConnect source target).1 = .ok true ↔ ∃ c, (after.compile target.node).1 = .ok c := by
  obtain ⟨c, starts, ends, rewired, scene, stack, carried⟩ := connectsRewired sound connects
  have workingAfter : after.scene.Working [] after.cache :=
    ⟨stack.trans working.stack, fun id d found =>
      (carried id d found).2 (working.keeps id d (carried id d found).1)⟩
  have apart : source.node ≠ target.node := fun same =>
    Net.unaffected sound.toIndexed free (by simp [same])
  have fedShapes := fedShape others
  -- the function before, with the input detached, and after, with the input connected
  have before := detachedAnswers sound found others
  have later := connectedAnswers sound found known others starts ends rewired free delivers
  have called : (∃ c, (after.compile target.node).1 = .ok c) ↔ ∃ c, (NodeKind.compileBuiltin s).follow
      ((Scene.mk after.net w.registry w.exports).input
        ((Scene.mk after.net w.registry w.exports).evaluate []) node none) = .ok c := by
    refine exists_congr fun d => ?_
    subst ends
    rw [compileAnswer, (Scene.compileMatches workingAfter c.target.node).1, scene]
    exact Scene.rewiredMade rewired found known
  rw [canConnectAnswer sound working.stack (workingRight working _) (workingRight working _) found known
    apart free delivers, called, NodeKind.compileBuiltinIff callable later fun p member e' given => ?_]
  · refine (NodeKind.offerIff callable before (fun p member e' given => ?_) declared shape).trans ?_
    · rw [Scene.fedBut] at given
      split at given
      · cases given
      · rename_i other
        exact fedShapes p member (Ne.symm other) e' given
    · refine exists_congr fun i => and_congr_right fun _ => Iff.symm ?_
      exact i.suitsMore callable.names declared (if_pos rfl) (if_pos rfl) fun name other => by
        rw [Scene.fedBut, Scene.fedBut, if_neg (Ne.symm other), if_neg (Ne.symm other)]
  · rw [Scene.fedBut] at given
    split at given
    · cases given
      exact shape
    · rename_i other
      exact fedShapes p member (Ne.symm other) e' given

end Function
end Workspace
end ShaderNet
