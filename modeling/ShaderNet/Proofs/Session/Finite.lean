import ShaderNet.Proofs.Evaluate.Offered
import ShaderNet.Proofs.NodeKind.Finite
import ShaderNet.Proofs.Session.Connectable
import ShaderNet.Proofs.Session.Each
import ShaderNet.Proofs.Session.Readers
import ShaderNet.Proofs.Workspace.Upstream

/-! Numbers that are not finite, in sessions. Literals refuse them; colors and vectors write them, and they
stand in nothing that is made from neither. -/
namespace ShaderNet
open Fragment (Fractioned)
open Relation (ReflTransGen)

namespace Scene

variable {scene : Scene}

def WritesNonFinite (scene : Scene) (id : String) (kind : NodeKind) : Prop :=
  ∃ node, scene.net.node id = .ok node ∧ scene.registry.kind node.type = .ok kind ∧
    kind.WritesNonFinite node fun name => scene.net.feeder? ⟨id, name⟩ = none

theorem writesFound (scene : Scene) {id : String} {node : Node} {kind : NodeKind}
    (found : scene.net.nodes.get? id = some node) (known : scene.registry.get? node.type = some kind)
    (writes : kind.WritesNonFinite node fun name => scene.net.feeder? ⟨id, name⟩ = none) :
    scene.WritesNonFinite id kind :=
  ⟨node, Net.nodeFound.mpr found, Registry.kindFound.mpr known, writes⟩

theorem inputUnfed {produce : String → Except Failure Compiled} {node : Node} {name : String} :
    scene.input produce node none name = .ok none ↔ scene.net.feeder? ⟨node.id, name⟩ = none := by
  cases fed : scene.net.feeder? ⟨node.id, name⟩ with
  | none => simp [input, fed]
  | some c =>
    refine iff_of_false (fun told => ?_) (by simp)
    simp only [input, fed, reduceCtorEq, if_false] at told
    split at told
    · cases told
    · split at told <;> cases told

theorem inputFedIff {node : Node} {name : String} {c : Connection} {e : Expression}
    (fed : scene.net.feeder? ⟨node.id, name⟩ = some c) :
    scene.input (scene.evaluate []) node none name = .ok (some e) ↔ scene.Delivers c.source e := by
  refine ⟨fun told => ?_, inputDelivered fed⟩
  obtain ⟨d, result, fed', made, output⟩ := inputFed told
  cases fed.symm.trans fed'
  exact ⟨result, made, output⟩

/- By the depth that a node is made at: all its sources are made at a smaller one. -/
theorem attemptFractioned (sound : scene.net.Sound) (registry : scene.registry.Named)
    (exports : scene.exports.Named) {depth : Nat} {id : String} {c : Compiled}
    (ok : scene.attempt depth id = .ok c)
    (finite : ∀ k kind d, ReflTransGen scene.net.Feeds k id → scene.evaluate [] k = .ok d →
      ¬ scene.WritesNonFinite k kind) :
    c.All (fun b => Fractioned b.text.toList) fun e => Fractioned e.text.toList := by
  induction depth generalizing id c with
  | zero => cases ok
  | succ depth ih =>
    obtain ⟨node, kind, found, known, followed⟩ := madeParts ok
    obtain ⟨rfl, _⟩ := Net.nodePresent sound found
    refine NodeKind.compileFractioned (registry _ kind known) exports (fun name => inputUnfed.mp)
      (fun writes => ?_) (fun name e told => ?_) followed
    · exact finite node.id kind c .refl (evaluateIff.mpr ⟨depth + 1, ok⟩) ⟨node, found, known, writes⟩
    · obtain ⟨d, result, fed, made, output⟩ := inputFed told
      obtain ⟨listed, target⟩ := (Net.feederIff sound.toIndexed).mp fed
      have feeds : scene.net.Feeds d.source.node node.id := ⟨d, listed, rfl, by rw [target]⟩
      exact (ih made fun k kind d above => finite k kind d (above.tail feeds)).outputs _ e output

theorem writesMade (sound : scene.net.Sound) {id : String} {kind : NodeKind} {c : Compiled}
    (writes : scene.WritesNonFinite id kind) (made : scene.evaluate [] id = .ok c) : c.HoldsNonFinite := by
  obtain ⟨node, found, known, writes⟩ := writes
  obtain ⟨rfl, _⟩ := Net.nodePresent sound found
  rw [evaluateMade List.not_mem_nil, Scene.made, found] at made
  simp only [known] at made
  exact NodeKind.compileNonFinite (fun name => inputUnfed.mpr) writes made

def Composes (scene : Scene) (delivers : Socket → Expression → Prop) (id : String) (size : Nat) : Prop :=
  ∃ node, scene.net.node id = .ok node ∧ ∀ name ∈ NodeKind.components.take size,
    (∀ c, scene.net.feeder? ⟨id, name⟩ = some c →
      ∃ e, delivers c.source e ∧ e.type.toImplicitly .float = true) ∧
    (scene.net.feeder? ⟨id, name⟩ = none → NodeKind.Readable node name Parameter.number?)

theorem Composes.mono {delivers more : Socket → Expression → Prop} {id : String} {size : Nat}
    (wider : ∀ name c e, scene.net.feeder? ⟨id, name⟩ = some c → delivers c.source e → more c.source e)
    (composes : scene.Composes delivers id size) : scene.Composes more id size := by
  obtain ⟨node, found, each⟩ := composes
  refine ⟨node, found, fun name listed => ⟨fun c fed => ?_, (each name listed).2⟩⟩
  obtain ⟨e, delivered, fits⟩ := (each name listed).1 c fed
  exact ⟨e, wider name c e fed delivered, fits⟩

theorem composesMade (sound : scene.net.Sound) {id : String} {node : Node} {size : Nat}
    (found : scene.net.node id = .ok node) (known : scene.registry.kind node.type = .ok (.compose size)) :
    (∃ c, scene.evaluate [] id = .ok c) ↔ scene.Composes scene.Delivers id size := by
  obtain ⟨rfl, _⟩ := Net.nodePresent sound found
  have component (name : String) :
      (∃ e, scene.input (scene.evaluate []) node none name = .ok (some e) ∧
          e.type.toImplicitly .float = true) ∨
        scene.input (scene.evaluate []) node none name = .ok none ∧
          NodeKind.Readable node name Parameter.number? ↔
      (∀ c, scene.net.feeder? ⟨node.id, name⟩ = some c →
        ∃ e, scene.Delivers c.source e ∧ e.type.toImplicitly .float = true) ∧
      (scene.net.feeder? ⟨node.id, name⟩ = none → NodeKind.Readable node name Parameter.number?) := by
    rw [inputUnfed]
    cases fed : scene.net.feeder? ⟨node.id, name⟩ with
    | none => simp [inputOpen fed]
    | some c => simp [inputFedIff fed]
  have followed : (∃ c, scene.evaluate [] node.id = .ok c) ↔
      ∃ c, (NodeKind.compileCompose size node).follow (scene.input (scene.evaluate []) node none) =
        .ok c := by
    simp only [evaluateIffMade, made, found, known]
    rfl
  rw [followed, NodeKind.composeMade]
  constructor
  · exact fun each => ⟨node, found, fun name listed => (component name).mp (each name listed)⟩
  · rintro ⟨other, found', each⟩ name listed
    cases found.symm.trans found'
    exact (component name).mpr (each name listed)

/- Of the kinds that write numbers, one refuses those that are not finite and one always writes them. A
vector is made or not whatever its numbers are. -/
theorem writesKinds (sound : scene.net.Sound) {id : String} {kind : NodeKind}
    (writes : scene.WritesNonFinite id kind) :
    (∃ base x, kind = .literal base ∧ x.isFinite = false ∧
      scene.evaluate [] id = .error (.unsupported (.literal x base))) ∨
    (kind = .color ∧ ∃ c, scene.evaluate [] id = .ok c) ∨
    ∃ size, kind = .compose size ∧
      ((∃ c, scene.evaluate [] id = .ok c) ↔ scene.Composes scene.Delivers id size) := by
  obtain ⟨node, found, known, writes⟩ := writes
  have made : scene.evaluate [] id = (kind.compile scene.surroundings node).follow
      (scene.input (scene.evaluate ([] ++ [id])) node none) := by
    rw [evaluateMade List.not_mem_nil, Scene.made, found]
    simp only [known]
  cases kind with
  | literal base =>
    exact .inl ⟨base, _, rfl, writes.2, made.trans (NodeKind.literalRefused writes.1 writes.2)⟩
  | color => exact .inr (.inl ⟨rfl, _, made.trans (NodeKind.colorMade writes)⟩)
  | compose size => exact .inr (.inr ⟨size, rfl, composesMade sound found known⟩)
  | _ => cases writes

end Scene

theorem Workspace.RightAbove.composes {w : Workspace} {id : String} (right : w.RightAbove id)
    (sound : w.net.Sound) (idle : w.cache.stack = []) (size : Nat) :
    w.scene.Composes w.Delivers id size ↔ w.scene.Composes w.scene.Delivers id size := by
  have same (name : String) (c : Connection) (e : Expression)
      (fed : w.net.feeder? ⟨id, name⟩ = some c) : w.Delivers c.source e ↔ w.scene.Delivers c.source e := by
    obtain ⟨listed, target⟩ := (Net.feederIff sound.toIndexed).mp fed
    exact right.delivers sound idle (.single ⟨c, listed, rfl, by rw [target]⟩)
  exact ⟨Scene.Composes.mono fun name c e fed => (same name c e fed).mp,
    Scene.Composes.mono fun name c e fed => (same name c e fed).mpr⟩

namespace Session
open Workspace

theorem literalsAloneRefuse (requests : List Request)
    (standard : ((start .empty).run requests).workspace.registry = .standard) :
    let w := ((start .empty).run requests).workspace
    ∀ id, w.RightAbove id →
      (∀ kind, w.scene.WritesNonFinite id kind →
        (∃ base x, kind = .literal base ∧ x.isFinite = false ∧
          (w.compile id).1 = .error (.unsupported (.literal x base))) ∨
        (kind = .color ∧ ∃ c, (w.compile id).1 = .ok c ∧ c.HoldsNonFinite) ∨
        ∃ size, kind = .compose size ∧
          ((∃ c, (w.compile id).1 = .ok c) ↔ w.scene.Composes w.Delivers id size) ∧
          ∀ c, (w.compile id).1 = .ok c → c.HoldsNonFinite) ∧
      ((∃ k c, ReflTransGen w.net.Feeds k id ∧ (w.compile k).1 = .ok c ∧ c.HoldsNonFinite) ↔
        ∃ k kind c, ReflTransGen w.net.Feeds k id ∧ (w.compile k).1 = .ok c ∧
          w.scene.WritesNonFinite k kind) := by
  have exports : ((start .empty).run requests).workspace.exports.Named :=
    runExported (s := start .empty) (fun _ _ _ => Fragment.exportsWordy)
      (fun _ _ found => by cases found) requests
  have sound : ((start .empty).run requests).workspace.net.Sound := runSound Net.emptySound requests
  have idle := runIdle (s := start .empty) rfl requests
  generalize ((start .empty).run requests).workspace = w at standard exports sound idle ⊢
  dsimp only
  intro id right
  have registry : w.scene.registry.Named := by
    change w.registry.Named
    rw [standard]
    exact Registry.standardNamed
  refine ⟨fun kind writes => ?_, ⟨?_, ?_⟩⟩
  · rw [right.compile sound idle]
    rcases Scene.writesKinds sound writes with refused | ⟨color, c, made⟩ | ⟨size, compose, composes⟩
    · exact .inl refused
    · exact .inr (.inl ⟨color, c, made, Scene.writesMade sound writes made⟩)
    · refine .inr (.inr ⟨size, compose, ?_, fun c => Scene.writesMade sound writes⟩)
      exact composes.trans (right.composes sound idle size).symm
  · rintro ⟨k, c, above, compiled, holds⟩
    rw [(right.source above).compile sound idle] at compiled
    obtain ⟨depth, made⟩ := Scene.evaluateIff.mp compiled
    by_contra none
    refine Compiled.fractionedFinite (Scene.attemptFractioned sound registry exports made ?_) holds
    intro j kind d first made writes
    have path := first.trans above
    exact none ⟨j, kind, d, path, ((right.source path).compile sound idle).trans made, writes⟩
  · rintro ⟨k, kind, c, above, compiled, writes⟩
    refine ⟨k, c, above, compiled, Scene.writesMade sound writes ?_⟩
    rw [← (right.source above).compile sound idle]
    exact compiled

def glareRequests : List Request := [
  .insertNodes [⟨"f", "float", .origin, Table.ofList [("value", .number (.infinite true))]⟩,
    ⟨"c", "color", .origin, Table.ofList [("color", .color ⟨.infinite false, .zero, .zero, .ofInt 1⟩)]⟩,
    .named "v" "vec2", .named "n" "negate"],
  .setParameter "v" "x" (.number .nan), .addConnection ⟨"v", "out"⟩ ⟨"n", "a"⟩, .compile "v"]

theorem glareCompiled :
    let w := ((start .empty).run glareRequests).workspace
    w.cache.results.keys = ["v"] ∧
    (w.net.nodes.get? "f" =
        some ⟨"f", "float", .origin, Table.ofList [("value", .number (.infinite true))]⟩ ∧
      w.net.nodes.get? "c" = some ⟨"c", "color", .origin,
        Table.ofList [("color", .color ⟨.infinite false, .zero, .zero, .ofInt 1⟩)]⟩ ∧
      w.net.nodes.get? "v" = some ⟨"v", "vec2", .origin, Table.ofList [("x", .number .nan)]⟩ ∧
      w.net.feeder? ⟨"v", "x"⟩ = none) ∧
    (w.registry.get? "float" = some (.literal .float) ∧ w.registry.get? "color" = some .color ∧
      w.registry.get? "vec2" = some (.compose 2)) ∧
    ((w.compile "c").1 = .ok (.single "out" (.simple (.vec 4) "vec4(inf.0, 0.0, 0.0, 1.0)")) ∧
      (w.compile "v").1 = .ok (.single "out" (.simple (.vec 2) "vec2(NaN.0, 0.0)")) ∧
      (w.compile "n").1 = .ok (.single "out" (.compound (.vec 2) "(-vec2(NaN.0, 0.0))"))) ∧
    ∀ p ∈ w.cache.results.entries, (w.scene.compile p.1 .empty).1 = .ok p.2 := by
  decide +kernel

theorem literalsAloneRefuseGlare :
    let w := ((start .empty).run glareRequests).workspace
    (w.registry = .standard ∧ w.cache.results.keys = ["v"]) ∧
    (w.scene.WritesNonFinite "f" (.literal .float) ∧
      ∃ x, x.isFinite = false ∧ (w.compile "f").1 = .error (.unsupported (.literal x .float))) ∧
    (w.scene.WritesNonFinite "c" .color ∧ ∃ c, (w.compile "c").1 = .ok c ∧ c.HoldsNonFinite) ∧
    (w.scene.WritesNonFinite "v" (.compose 2) ∧ w.scene.Composes w.Delivers "v" 2) ∧
    ∃ k kind c, ReflTransGen w.net.Feeds k "n" ∧ (w.compile k).1 = .ok c ∧
      w.scene.WritesNonFinite k kind := by
  have refuse := literalsAloneRefuse glareRequests
  have facts := glareCompiled
  have standard : ((start .empty).run glareRequests).workspace.registry = .standard := runRegistry rfl
  -- from here on nothing has to be run
  generalize ((start .empty).run glareRequests).workspace = w at refuse facts standard ⊢
  obtain ⟨keys, ⟨literal, color, vector, isOpen⟩, ⟨float, tint, pair⟩, ⟨_, made, negated⟩, kept⟩ := facts
  have right (id : String) : w.RightAbove id := fun k c _ found => kept _ (Table.getMember found)
  have literal := w.scene.writesFound literal float ⟨by decide, rfl⟩
  have color := w.scene.writesFound color tint ⟨.infinite false, .head _, rfl⟩
  have vector := w.scene.writesFound vector pair ⟨"x", by decide, isOpen, rfl⟩
  refine ⟨⟨standard, keys⟩, ⟨literal, ?_⟩, ⟨color, ?_⟩, ⟨vector, ?_⟩, ?_⟩
  · rcases (refuse standard "f" (right "f")).1 _ literal with
      ⟨_, x, same, other, refused⟩ | ⟨no, _⟩ | ⟨_, no, _⟩
    · cases same
      exact ⟨x, other, refused⟩
    · cases no
    · cases no
  · rcases (refuse standard "c" (right "c")).1 _ color with ⟨_, _, no, _⟩ | ⟨_, holds⟩ | ⟨_, no, _⟩
    · cases no
    · exact holds
    · cases no
  · rcases (refuse standard "v" (right "v")).1 _ vector with
      ⟨_, _, no, _⟩ | ⟨no, _⟩ | ⟨_, same, composes, _⟩
    · cases no
    · cases no
    · cases same
      exact composes.mp ⟨_, made⟩
  · refine (refuse standard "n" (right "n")).2.mp ⟨"n", _, .refl, negated, .inr ⟨"out", _, rfl, "NaN.0", ?_⟩⟩
    exact ⟨List.mem_cons_self, "(-vec2(".toList, ", 0.0))".toList, by decide⟩

theorem infiniteChannelWritten :
    let w := ((start .empty).run glareRequests).workspace
    let channel := Compiled.single "out" (.simple (.vec 4) "vec4(inf.0, 0.0, 0.0, 1.0)")
    let component := Compiled.single "out" (.simple (.vec 2) "vec2(NaN.0, 0.0)")
    ((w.compile "c").1 = .ok channel ∧ channel.HoldsNonFinite) ∧
      (w.compile "v").1 = .ok component ∧ component.HoldsNonFinite := by
  have facts := glareCompiled
  generalize ((start .empty).run glareRequests).workspace = w at facts ⊢
  obtain ⟨_, _, _, ⟨tinted, made, _⟩, _⟩ := facts
  refine ⟨⟨tinted, .inr ⟨"out", _, rfl, "inf.0", by simp, ?_⟩⟩, made,
    .inr ⟨"out", _, rfl, "NaN.0", by simp, ?_⟩⟩
  · exact ⟨"vec4(".toList, ", 0.0, 0.0, 1.0)".toList, by decide⟩
  · exact ⟨"vec2(".toList, ", 0.0)".toList, by decide⟩

end Session
end ShaderNet
