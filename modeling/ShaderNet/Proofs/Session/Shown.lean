import ShaderNet.Proofs.Evaluate.Offered
import ShaderNet.Proofs.NodeKind.Outlets
import ShaderNet.Proofs.Session.Connectable
import ShaderNet.Proofs.Session.Each
import ShaderNet.Proofs.Session.Readers
import ShaderNet.Proofs.Workspace.Traced

/-! Outputs that shaders show. A shader shows the output of its node that comes first by name. That is the
value of the output which the node declares first, unless the node takes a vector of four components
apart. -/
namespace ShaderNet
open NodeKind (Quartered)
open Relation (ReflTransGen)
open Scene (Each)

/-! Colors in a text -/

/- Colors of expressions of one type are the same only if the expressions are. -/
theorem Expression.displayedInj {d e : Expression} (type : d.type = e.type) {a b : Expression}
    (left : d.displayed = .ok a) (right : e.displayed = .ok b) (same : a.text = b.text) :
    d.text = e.text := by
  unfold displayed at left right
  rw [type] at left
  cases based : e.type.base? with
  | none =>
    rw [based] at left
    cases left
  | some base =>
    cases sized : e.type.size? with
    | none =>
      rw [based, sized] at left
      cases left
    | some size =>
      rw [based, sized] at left right
      -- sizes other than one, two and three are shown by their base
      by_cases float : base = .float
      all_goals
        rcases size with _ | _ | _ | _ | size <;> cases left <;> cases right <;>
          simpa [compound, float] using same

namespace Workspace

variable {w : Workspace} {id text : String}

theorem shaderTextInj {a b : String} {bindings : List Binding}
    (same : w.shaderText id a bindings = w.shaderText id b bindings) : a = b := by
  have some (color : String) : w.closing color ≠ [] := List.cons_ne_nil _ _
  have front : w.preamble (w.net.upstreamOrder id) ++ bindings.map bindingLine ≠ [] := by simp [preamble]
  simp only [shaderText, textOf, String.intercalate_append_of_ne_nil front (some _)] at same
  simpa [closing] using same

def Shows (w : Workspace) (id text : String) (e : Expression) : Prop :=
  ∃ color, e.displayed = .ok color ∧ text = w.shaderText id color.text (w.declaredAfter w id)

theorem showsSame {d e : Expression} (type : d.type = e.type) (left : w.Shows id text d)
    (right : w.Shows id text e) : d.text = e.text := by
  obtain ⟨a, shown, rfl⟩ := left
  obtain ⟨b, shown', same⟩ := right
  exact Expression.displayedInj type shown shown' (shaderTextInj same)

theorem shownLeast (shown : (w.shader id).1 = .ok text) : ∃ c least e, (w.compile id).1 = .ok c ∧
    c.outputs.entries.head? = some (least, e) ∧ w.Shows id text e := by
  obtain ⟨c, color, compiled, first, same⟩ := shownParts shown
  unfold firstColor at first
  cases head : c.outputs.entries.head? with
  | none =>
    simp only [Table.values, List.head?_map, head, Option.map_none] at first
    cases first
  | some p =>
    simp only [Table.values, List.head?_map, head, Option.map_some] at first
    cases displayed : p.2.displayed with
    | error cause =>
      rw [displayed] at first
      cases first
    | ok shade =>
      rw [displayed] at first
      cases first
      exact ⟨c, p.1, p.2, compiled, head, color, displayed, same⟩

/-! Kept results and kinds -/

end Workspace

namespace Net

theorem Traced.types {n after : Net} {invalidated : KeySet String}
    (traced : Traced (fun _ => True) n after invalidated) {id : String}
    (safe : invalidated.contains id = false) :
    (after.nodes.get? id).map Node.type = (n.nodes.get? id).map Node.type := by
  have becomes := traced.nodes id safe
  generalize n.nodes.get? id = old, after.nodes.get? id = new at becomes
  cases becomes with
  | none => rfl
  | some becomes => exact congrArg some becomes.type

theorem moveNodeTypes {n after : Net} (sound : n.Sound) {id : String} {dx dy : Number.Double}
    {changes : Changes} (ok : n.moveNode id dx dy = .ok (after, changes)) (k : String) :
    (after.nodes.get? k).map Node.type = (n.nodes.get? k).map Node.type := by
  obtain ⟨node, found, rfl, _⟩ := moveNodeCases ok
  obtain ⟨rfl, _⟩ := nodePresent sound found
  rw [setNode, Table.getInsert]
  split
  · rename_i same
    rw [← same, nodeFound.mp found]
    rfl
  · rfl

theorem removeConnectionNodes (n : Net) (id : String) : (n.removeConnection id).1.nodes = n.nodes := by
  unfold removeConnection
  split <;> rfl

end Net

namespace Scene

def Fits (scene : Scene) (id : String) (c : Compiled) : Prop :=
  ∀ node, scene.net.node id = .ok node →
    ∃ kind, scene.registry.kind node.type = .ok kind ∧ kind.Outlets c.outputs

theorem fitsPasses (scene : Scene) : scene.Passes (fun _ _ => True) scene.Fits where
  made := fun id node kind found known => by
    refine Recipe.ensuresMono (kind.compileOutlets scene.surroundings node) fun c outlets node' found' => ?_
    cases found.symm.trans found'
    exact ⟨kind, known, outlets⟩
  delivered := fun _ _ _ _ _ _ _ _ => trivial

/- Sockets are listed in the order of their kind, whatever is kept. -/
theorem socketsListed {scene : Scene} {kind : NodeKind} {node : Node} {detached : Option String}
    {cache : Cache} {sockets : Sockets} (ok : (scene.sockets kind node detached cache).1 = .ok sockets) :
    sockets.outputs.map Prod.fst <+: kind.outlets := by
  have passes : scene.Passes (fun _ _ => True) fun _ _ => True :=
    ⟨fun _ _ _ _ _ => Recipe.ensuresNothing _ _, fun _ _ _ _ _ _ _ _ => trivial⟩
  have kept : Each (fun _ _ => True) cache.results := fun _ _ _ => trivial
  have run := (runEach passes (fun id cache each => compileEach passes id cache each) node detached
    (kind.sockets scene.surroundings node) kept).2
  exact run sockets _ ok (kind.socketsOutlets scene.surroundings node)

theorem describeListed {scene : Scene} {id : String} {node : Node} {kind : NodeKind} {cache : Cache}
    {sockets : Sockets} (found : scene.net.node id = .ok node)
    (known : scene.registry.kind node.type = .ok kind)
    (declared : (scene.sockets kind node none cache).1 = .ok sockets) :
    ∃ d, (scene.describe id cache).1 = .ok d ∧ sockets.outputs <+: d.outputs := by
  have orphans (d : Description) : d.outputs <+: (scene.withOrphans d).outputs := by
    unfold withOrphans
    split
    · exact List.prefix_refl _
    · exact List.prefix_append _ _
  unfold describe
  rw [found]
  dsimp only
  rw [known]
  dsimp only
  cases ran : scene.sockets kind node none cache with
  | mk answer after =>
    rw [ran] at declared
    cases declared
    dsimp only
    cases scene.compile id after with
    | mk result last =>
      cases result with
      | error e => exact ⟨_, rfl, orphans { id := id, .. }⟩
      | ok c => exact ⟨_, rfl, orphans { id := id, .. }⟩

end Scene

namespace Workspace

variable {links : Connection → Prop} {w after : Workspace} {changes : Changes} {id text : String}

def Fitting (w : Workspace) : Prop := Each w.scene.Fits w.cache.results

theorem partTypes (part : Part links w after changes) (sound : w.net.Sound)
    (safe : changes.invalidated.contains id = false) :
    (after.net.nodes.get? id).map Node.type = (w.net.nodes.get? id).map Node.type := by
  cases part with
  | insertNode ok => exact Net.Traced.types (Net.insertNodeTraced sound ok) safe
  | removeNode ok => exact Net.Traced.types (Net.removeNodeTraced sound ok) safe
  | setParameter ok => exact Net.Traced.types (Net.setParameterTraced sound ok) safe
  | moveNode ok => exact Net.moveNodeTypes sound ok id
  | patchNode ok => exact Net.Traced.types (Net.patchNodeTraced sound trivial ok) safe
  | insertConnection link ok => exact Net.Traced.types (Net.insertConnectionTraced sound ok) safe
  | removeConnection k => exact Net.Traced.types (Net.removeConnectionTraced sound k) safe
  | @refusedConnection c e net link refused message =>
    -- nothing is told of the connection that is lost, and no node is
    rcases Net.connectCases w.net c with
      ⟨e, same⟩ | ⟨_, _, _, accepted⟩ | ⟨old, _, _, _, ⟨_, _, _, accepted⟩ | ⟨e, _, same⟩⟩
    · cases same.symm.trans refused
      rfl
    · cases accepted.symm.trans refused
    · cases accepted.symm.trans refused
    · cases same.symm.trans refused
      exact congrArg (fun nodes => (Table.get? nodes id).map Node.type) (w.net.removeConnectionNodes old.id)
  | setUniform u =>
    exact Net.Traced.types ((evictsSettingUniform u w sound).traced sound).toTraced safe
  | removeUniform k =>
    exact Net.Traced.types ((evictsRemovingUniform k w sound).traced sound).toTraced safe
  | addInclude path => exact Net.Traced.types (tracesIncluding path w sound).toTraced safe
  | removeInclude path => exact Net.Traced.types (tracesRemoveInclude path w sound).toTraced safe
  | collectExports => rfl

theorem partsTypes (parts : Parts links w after changes) (sound : w.net.Sound)
    (safe : changes.invalidated.contains id = false) :
    (after.net.nodes.get? id).map Node.type = (w.net.nodes.get? id).map Node.type := by
  induction parts with
  | nothing => rfl
  | one part => exact partTypes part sound safe
  | append first _ before behind =>
    obtain ⟨safe, safe'⟩ := Changes.invalidatedAppendFalse.mp safe
    exact (behind (partsSound first sound) safe').trans (before sound safe)

/- Whoever is not told of keeps its kind. -/
theorem committedFitting (committed : Committed links w after) (sound : w.net.Sound)
    (fitting : w.Fitting) : after.Fitting := by
  obtain ⟨mid, changes, parts, rfl⟩ := committed
  intro id c kept node found
  have dropped : (mid.cache.drop changes.invalidated).results.get? id = some c := kept
  rw [Cache.drop, Table.getFilter, Option.filter_eq_some_iff, partsCache parts] at dropped
  obtain ⟨kept, safe⟩ := dropped
  have outside : changes.invalidated.contains id = false := by simpa using safe
  have types := partsTypes parts sound outside
  have present : mid.net.nodes.get? id = some node := Net.nodeFound.mp found
  rw [present] at types
  obtain ⟨old, before, same⟩ := Option.map_eq_some_iff.mp types.symm
  obtain ⟨kind, known, outlets⟩ := fitting id c kept old (Net.nodeFound.mpr before)
  refine ⟨kind, ?_, outlets⟩
  change mid.registry.kind node.type = .ok kind
  rw [partsRegistry parts, ← same]
  exact known

/-! What a node declares first -/

def ListsFirst (w : Workspace) (id first : String) : Prop :=
  ∃ node kind sockets, w.net.node id = .ok node ∧ w.registry.kind node.type = .ok kind ∧
    (w.scene.sockets kind node none w.cache).1 = .ok sockets ∧
    (sockets.outputs.map Prod.fst).head? = some first

def Quarters (w : Workspace) (id : String) : Prop :=
  ∃ node link e size, w.net.node id = .ok node ∧ w.registry.kind node.type = .ok .split ∧
    w.net.feeder? ⟨id, "vector"⟩ = some link ∧ w.Delivers link.source e ∧
    e.type.size? = some size ∧ 4 ≤ size

variable {first : String}

theorem ListsFirst.outlet (lists : w.ListsFirst id first) {c : Compiled} (fits : w.scene.Fits id c) :
    ∃ kind : NodeKind, kind.Outlets c.outputs ∧ kind.outlets.head? = some first := by
  obtain ⟨node, kind, sockets, found, known, declared, head⟩ := lists
  obtain ⟨kind', known', outlets⟩ := fits node found
  cases known.symm.trans known'
  obtain ⟨rest, same⟩ := Scene.socketsListed declared
  refine ⟨kind, outlets, ?_⟩
  rw [← same, List.head?_append, head]
  rfl

theorem ListsFirst.described (lists : w.ListsFirst id first) :
    ∃ d, (w.describe [id]).1 = .ok [d] ∧ (d.outputs.map Prod.fst).head? = some first := by
  obtain ⟨node, kind, sockets, found, known, declared, head⟩ := lists
  obtain ⟨d, told, listed⟩ := Scene.describeListed found known declared
  obtain ⟨rest, same⟩ := listed
  refine ⟨d, ?_, ?_⟩
  · unfold Workspace.describe Scene.describeAll Scene.describeAll
    rcases answered : w.scene.describe id w.cache with ⟨answer, after⟩
    rw [answered] at told
    cases told
    rfl
  · rw [← same, List.map_append, List.head?_append, head]
    rfl

section Right

variable (right : w.RightAbove id) (sound : w.net.Sound) (idle : w.cache.stack = [])
include right sound idle

theorem RightAbove.listsFirst (decided : ∀ type kind, w.registry.kind type = .ok kind → kind.isDecided = true)
    {c : Compiled} (compiled : (w.compile id).1 = .ok c) (some : c.outputs ≠ ∅) :
    ∃ first, w.ListsFirst id first := by
  rw [right.compile sound idle] at compiled
  obtain ⟨node, kind, found, known, followed⟩ := Scene.madeParts (Scene.evaluateIffMade.mp compiled)
  obtain ⟨sockets, declared, listed⟩ := NodeKind.compileDeclares (decided _ kind known) followed
  have shown := (Scene.upstreamSockets sound idle (rightAboveKeeps.mp right) kind none found).1.trans declared
  cases outputs : sockets.outputs with
  | nil => exact absurd (listed outputs) some
  | cons p rest => exact ⟨p.1, node, kind, sockets, found, known, shown, by rw [outputs]; rfl⟩

theorem RightAbove.quarters {c : Compiled} (compiled : (w.compile id).1 = .ok c) :
    Quartered c.outputs ↔ w.Quarters id := by
  rw [right.compile sound idle] at compiled
  obtain ⟨node, kind, found, known, followed⟩ := Scene.madeParts (Scene.evaluateIffMade.mp compiled)
  obtain ⟨rfl, _⟩ := Net.nodePresent sound found
  have delivers {link : Connection} (fed : w.net.feeder? ⟨node.id, "vector"⟩ = some link) {e : Expression} :
      w.Delivers link.source e ↔ w.scene.Delivers link.source e := by
    obtain ⟨listed, target⟩ := (Net.feederIff sound.toIndexed).mp fed
    exact right.delivers sound idle (.single ⟨link, listed, rfl, by rw [target]⟩)
  constructor
  · intro quartered
    have outlets := Recipe.followEnsures (kind.compileOutlets w.scene.surroundings node)
      (fun _ _ _ => trivial) followed
    cases outlets.quartered quartered
    obtain ⟨answer, told, parts⟩ := Recipe.inputOk followed
    cases answer with
    | none =>
      cases parts
      rw [NodeKind.eachOutputs] at quartered
      exact absurd quartered NodeKind.zerosUnquartered
    | some e =>
      obtain ⟨link, result, fed, made, output⟩ := Scene.inputFed told
      obtain ⟨size, sized, all⟩ := (NodeKind.splitQuartered (NodeKind.splitPartsOk parts)).mp quartered
      exact ⟨node, link, e, size, found, known, fed, (delivers fed).mpr ⟨result, made, output⟩, sized, all⟩
  · rintro ⟨node', link, e, size, found', known', fed, delivered, sized, all⟩
    cases found.symm.trans found'
    cases known.symm.trans known'
    obtain ⟨answer, told, parts⟩ := Recipe.inputOk followed
    cases told.symm.trans (Scene.inputDelivered fed ((delivers fed).mp delivered))
    exact (NodeKind.splitQuartered (NodeKind.splitPartsOk parts)).mpr ⟨size, sized, all⟩

end Right
end Workspace

namespace Session
open Workspace

theorem answerFitting {s : Session} (sound : s.workspace.net.Sound) (fitting : s.workspace.Fitting)
    (request : Request) : (s.answer request).2.workspace.Fitting := by
  rcases s.answerCases request with
    committed | question | ⟨options, sources, same⟩ | ⟨_, _, registry, _, _, same⟩
  · exact committedFitting committed sound fitting
  · have asked := answerAsked (eachLasting (Scene.fitsPasses s.workspace.scene)) (askedRefl fitting) question
    obtain ⟨links, net, _⟩ := asked.net
    intro id c kept node found
    change Net.node (s.answer request).2.workspace.net id = .ok node at found
    rw [net] at found
    obtain ⟨kind, known, outlets⟩ := asked.kept id c kept node found
    refine ⟨kind, ?_, outlets⟩
    change Registry.kind (s.answer request).2.workspace.registry node.type = .ok kind
    rw [asked.registry]
    exact known
  · rw [same]
    exact fitting
  · rw [same]
    exact Scene.emptyEach

theorem runFitting (requests : List Request) : ((start .empty).run requests).workspace.Fitting := by
  induction requests using List.reverseRecOn with
  | nil => exact Scene.emptyEach
  | append_singleton past request ih =>
    rw [runThen]
    exact answerFitting (runSound Net.emptySound past) ih request

theorem leastOutputShown (requests : List Request)
    (standard : ((start .empty).run requests).workspace.registry = .standard) {id text : String}
    (shown : (((start .empty).run requests).workspace.shader id).1 = .ok text) :
    let w := ((start .empty).run requests).workspace
    ∃ c least e, (w.compile id).1 = .ok c ∧ c.outputs.entries.head? = some (least, e) ∧
      w.Shows id text e ∧
      (∀ first, w.ListsFirst id first →
        (∃ d, (w.describe [id]).1 = .ok [d] ∧ (d.outputs.map Prod.fst).head? = some first) ∧
        (least = first ∨ least = "w" ∧ first = "x") ∧
        ∃ d, c.outputs.get? first = some d ∧ (w.Shows id text d ↔ ¬ Quartered c.outputs)) ∧
      (w.RightAbove id → (∃ first, w.ListsFirst id first) ∧ (Quartered c.outputs ↔ w.Quarters id)) := by
  have sound : ((start .empty).run requests).workspace.net.Sound := runSound Net.emptySound requests
  have idle := runIdle (s := start .empty) rfl requests
  have fitting := runFitting requests
  generalize ((start .empty).run requests).workspace = w at standard shown sound idle fitting ⊢
  obtain ⟨c, least, e, compiled, head, shows⟩ := shownLeast shown
  have some : c.outputs ≠ ∅ := fun none => by
    rw [none] at head
    cases head
  refine ⟨c, least, e, compiled, head, shows, fun first lists => ⟨lists.described, ?_⟩, fun right => ⟨?_, ?_⟩⟩
  · have fits := compileEach (Scene.fitsPasses w.scene) fitting compiled
    obtain ⟨kind, outlets, lead⟩ := lists.outlet fits
    rcases outlets.least head lead with
      ⟨rfl, output, single⟩ | ⟨rfl, rfl, ⟨output, single⟩ | quartered⟩
    · exact ⟨.inl rfl, e, output, iff_of_true shows single⟩
    · exact ⟨.inr ⟨rfl, rfl⟩, e, output, iff_of_true shows single⟩
    · obtain ⟨last, d, there, output, type, differ⟩ := quartered.different
      cases there.symm.trans (Table.getIff.mpr (List.mem_of_head? head))
      refine ⟨.inr ⟨rfl, rfl⟩, d, output, iff_of_false (fun shows' => ?_) (not_not_intro quartered)⟩
      exact differ (showsSame type shows shows')
  · refine right.listsFirst sound idle (fun type kind known => ?_) compiled some
    rw [standard] at known
    exact Registry.standardDecided known
  · exact right.quarters sound idle compiled

def partedRequests : List Request := [
  .insertNodes [.named "p" "frag_coord", .named "s" "split"],
  .addConnection ⟨"p", "out"⟩ ⟨"s", "vector"⟩, .compile "p"]

theorem partedCompiled :
    let w := ((start .empty).run partedRequests).workspace
    (w.cache.results.keys = ["p"] ∧
      (w.shader "s").1 = .ok (w.shaderText "s" "vec4(vec3(gl_FragCoord.w), 1.0)" [])) ∧
    (w.compile "s").1 = .ok (NodeKind.components.foldl (fun c name =>
      c.withOutput name (.simple .float (NodeKind.selectFrom (.simple (.vec 4) "gl_FragCoord") name)))
        .empty) ∧
    ((w.describe ["s"]).1.toOption.map fun ds => ds.map fun d => d.outputs.map Prod.fst) =
      some [["x", "y", "z", "w"]] ∧
    ∀ p ∈ w.cache.results.entries, (w.scene.compile p.1 .empty).1 = .ok p.2 := by
  decide +kernel

theorem leastOutputShownParted :
    let w := ((start .empty).run partedRequests).workspace
    let text := w.shaderText "s" "vec4(vec3(gl_FragCoord.w), 1.0)" []
    (w.registry = .standard ∧ w.cache.results.keys = ["p"] ∧ (w.shader "s").1 = .ok text) ∧
    ∃ d, (w.describe ["s"]).1 = .ok [d] ∧ (d.outputs.map Prod.fst).head? = some "x" ∧ w.Quarters "s" ∧
      ∃ c e, (w.compile "s").1 = .ok c ∧ c.outputs.get? "x" = some e ∧ ¬ w.Shows "s" text e := by
  have shows := @leastOutputShown partedRequests
  have facts := partedCompiled
  have standard : ((start .empty).run partedRequests).workspace.registry = .standard := runRegistry rfl
  -- from here on nothing has to be run
  generalize ((start .empty).run partedRequests).workspace = w at shows facts standard ⊢
  obtain ⟨⟨keys, shown⟩, compiled, listed, made⟩ := facts
  have right : w.RightAbove "s" := fun k c _ kept => made _ (Table.getMember kept)
  obtain ⟨c, least, e, compiled', _, _, each, above⟩ := shows standard shown
  cases compiled.symm.trans compiled'
  obtain ⟨⟨first, lists⟩, quarters⟩ := above right
  obtain ⟨⟨d, told, lead⟩, _, e', output, same⟩ := each first lists
  have x : first = "x" := by
    rw [told] at listed
    have names : d.outputs.map Prod.fst = ["x", "y", "z", "w"] := by simpa [Except.toOption] using listed
    rw [names] at lead
    exact (Option.some.inj lead).symm
  have quartered : Quartered (NodeKind.components.foldl (fun c name => c.withOutput name
      (.simple .float (NodeKind.selectFrom (.simple (.vec 4) "gl_FragCoord") name)))
        Compiled.empty).outputs := by
    rw [NodeKind.eachOutputs]
    exact (@NodeKind.partsQuartered 4 _ _).mpr le_rfl
  exact ⟨⟨standard, keys, shown⟩, d, told, x ▸ lead, quarters.mp quartered, _, e', compiled, x ▸ output,
    fun shows' => same.mp shows' quartered⟩

theorem lastComponentShown :
    let w := ((start .empty).run partedRequests).workspace
    ((w.describe ["s"]).1.toOption.map fun ds => ds.map fun d => d.outputs.map Prod.fst) =
      some [["x", "y", "z", "w"]] ∧
    (w.compile "s").1.toOption.bind (fun c => c.outputs.get? "x") =
      some (.simple .float "gl_FragCoord.x") ∧
    (w.shader "s").1 = .ok (w.shaderText "s" "vec4(vec3(gl_FragCoord.w), 1.0)" []) := by
  obtain ⟨⟨_, shown⟩, compiled, listed, _⟩ := partedCompiled
  refine ⟨listed, ?_, shown⟩
  rw [compiled]
  decide

end Session
end ShaderNet
