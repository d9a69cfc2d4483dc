import ShaderNet.Proofs.Evaluate.Kept
import ShaderNet.Proofs.Net.UpstreamKept
import ShaderNet.Proofs.Net.Traced
import ShaderNet.Proofs.Workspace.Readers

/-! Loading a document and editing a parameter, node by node. A node that is not told of is compiled to
the same end, unless it is made from a node in which an overlooked zero or the uniform without a name
has changed. -/
namespace ShaderNet
open Relation (ReflTransGen)

namespace Workspace

variable {patches : Node → Prop} {w mid after : Workspace} {c d changes : Changes}

structure Traced (patches : Node → Prop) (w after : Workspace) (changes : Changes) : Prop
    extends Net.Traced patches w.net after.net changes.invalidated where
  registry : after.registry = w.registry
  exports : after.exports = w.exports ∨ ∀ k a, changes.invalidated.contains k = false →
    w.net.nodes.get? k = some a → a.type ≠ "function"

theorem Traced.append (first : Traced patches w mid c) (second : Traced patches mid after d) :
    Traced patches w after (c ++ d) := by
  refine ⟨first.toTraced.append second.toTraced, second.registry.trans first.registry, ?_⟩
  rcases first.exports with same | uncalled
  · rcases second.exports with same' | uncalled
    · exact .inl (same'.trans same)
    · refine .inr fun k a safe found => ?_
      obtain ⟨safe, safe'⟩ := Changes.invalidatedAppendFalse.mp safe
      obtain ⟨b, found', becomes⟩ := first.becomes safe found
      rw [← becomes.type]
      exact uncalled k b safe' found'
  · exact .inr fun k a safe => uncalled k a (Changes.invalidatedAppendFalse.mp safe).1

theorem tracedNet {net : Net} (traced : Net.Traced patches w.net net changes.invalidated) :
    Traced patches w { w with net := net } changes := ⟨traced, rfl, .inl rfl⟩

theorem tracedUntold (sound : w.net.Sound) (untold : changes.invalidated = ∅) : Traced patches w w changes :=
  tracedNet (Net.tracedNothing sound untold)

/-! Actions -/

def Action.Traces (patches : Node → Prop) (a : Action) : Prop :=
  ∀ w, w.net.Sound → Traced patches w (a w).1 (a w).2

namespace Action

theorem tracesNothing : Traces patches nothing := fun _ sound => tracedUntold sound rfl

theorem tracesAndThen (a b : Action) (first : Traces patches a) (second : Traces patches b) :
    Traces patches (a.andThen b) :=
  fun w sound => (first w sound).append (second _ (first w sound).sound)

theorem tracesAll {actions : List Action} (each : ∀ a ∈ actions, Traces patches a) :
    Traces patches (all actions) := allInduct tracesNothing tracesAndThen each

theorem tracesEach {α : Type} {items : List α} {action : α → Action}
    (each : ∀ i ∈ items, Traces patches (action i)) : Traces patches (Action.each items action) :=
  eachInduct tracesNothing tracesAndThen each

theorem tracesOrWarn {edit : Net → Except Failure (Net × Changes)} (wording : Failure → String)
    (edits : ∀ n after changes, n.Sound → edit n = .ok (after, changes) →
      Net.Traced patches n after changes.invalidated) : Traces patches (orWarn edit wording) := by
  intro w sound
  unfold orWarn
  split
  · rename_i ok
    exact tracedNet (edits _ _ _ sound ok)
  · exact tracedUntold sound rfl

end Action

theorem Evicted.traced (evicted : Evicted w after changes) (sound : w.net.Sound) :
    Traced patches w after changes := by
  obtain ⟨sound', only, closed, told⟩ := evicted
  rw [only] at sound' ⊢
  refine tracedNet ⟨sound', closed, fun _ _ => Net.becomesRefl _, fun _ _ _ => rfl, ?_⟩
  intro id changed k a safe found type names
  rw [told id changed k (memNamers sound (Net.nodeFound.mpr found) type names)] at safe
  cases safe

theorem tracedIncludes {net : Net} {includes : List Include} (sound : net.Sound)
    (only : net = { w.net with includes := includes }) (untold : changes.invalidated = ∅) :
    Traced patches w { w with net := net } changes := by
  subst only
  refine tracedNet ⟨sound, ?_, fun _ _ => Net.becomesRefl _, fun _ _ _ => rfl, ?_⟩
  · rw [untold]
    exact Net.closedEmpty _
  · exact fun _ changed => absurd rfl changed

theorem tracesIncluding (path : String) : (including path).Traces patches := by
  intro w sound
  refine tracedIncludes (Net.addIncludeSound sound path (w.sources path)) (Net.addIncludeNet ..) ?_
  exact (w.net.addIncludeQuiet path (w.sources path)).2

theorem tracesRemoveInclude (path : String) : Action.Traces patches (.onNet (·.removeInclude path)) := by
  intro w sound
  refine tracedIncludes (Net.removeIncludeSound sound path) (Net.removeIncludeNet ..) ?_
  exact (w.net.removeIncludeQuiet path).2

theorem tracesWarningUnresolved (path : String) : (warningUnresolved path).Traces patches := by
  intro w sound
  unfold warningUnresolved
  split <;> exact tracedUntold sound rfl

theorem tracesCollectingExports : collectingExports.Traces patches := by
  intro w sound
  refine ⟨Net.tracedSame sound (Net.downstreamClosed sound.toIndexed _), rfl, .inr ?_⟩
  intro k a safe found type
  refine Net.unaffected sound.toIndexed safe (List.mem_map.mpr ⟨a, List.mem_filter.mpr ⟨?_, ?_⟩, ?_⟩)
  · cases sound.nodeKeys k a found
    exact (Net.memNodeList sound).mpr found
  · exact decide_eq_true type
  · exact sound.nodeKeys k a found

theorem followingTraces (plan : Plan) : (following plan).Traces (· ∈ plan.modifiedNodes) := by
  have clears : ∀ a ∈ clearing plan, Action.Traces (· ∈ plan.modifiedNodes) a := by
    intro a member
    simp only [clearing, List.mem_cons, List.not_mem_nil, or_false] at member
    rcases member with rfl | rfl | rfl | rfl | rfl
    · exact Action.tracesEach fun id _ w sound => tracedNet (Net.removeConnectionTraced sound id)
    · exact Action.tracesEach fun id _ =>
        Action.tracesOrWarn _ fun _ _ _ sound => Net.removeNodeTraced sound
    · exact Action.tracesEach fun id _ w sound => (evictsRemovingUniform id w sound).traced sound
    · exact Action.tracesEach fun path _ => tracesRemoveInclude path
    · exact Action.tracesEach fun path _ =>
        Action.tracesAndThen _ _ (tracesWarningUnresolved path) (tracesIncluding path)
  have fills : ∀ a ∈ filling plan, Action.Traces (· ∈ plan.modifiedNodes) a := by
    intro a member
    simp only [filling, List.mem_cons, List.not_mem_nil, or_false] at member
    rcases member with rfl | rfl | rfl | rfl
    · exact Action.tracesEach fun u _ w sound => (evictsSettingUniform u w sound).traced sound
    · exact Action.tracesEach fun node _ =>
        Action.tracesOrWarn _ fun _ _ _ sound => Net.insertNodeTraced sound
    · exact Action.tracesEach fun c _ =>
        Action.tracesOrWarn _ fun _ _ _ sound => Net.insertConnectionTraced sound
    · exact Action.tracesEach fun node listed =>
        Action.tracesOrWarn _ fun _ _ _ sound => Net.patchNodeTraced sound listed
  unfold following
  split
  · exact Action.tracesAll fun a member => (List.mem_append.mp member).elim (clears a) (fills a)
  · refine Action.tracesAll fun a member => ?_
    rcases List.mem_append.mp member with cleared | member
    · exact clears a cleared
    · rcases List.mem_cons.mp member with rfl | filled
      · exact tracesCollectingExports
      · exact fills a filled

/-! What is overlooked -/

def FallsBack (w after : Workspace) (j : String) : Prop :=
  w.net.uniforms.get? "" ≠ after.net.uniforms.get? "" ∧ w.scene.LooksUp j "" ∧
    w.net.Omits j "uniform"

theorem Traced.surroundings (traced : Traced patches w after changes) (standard : w.registry = .standard)
    {j : String} (safe : changes.invalidated.contains j = false) (named : ¬ w.FallsBack after j) {a : Node}
    (found : w.net.nodes.get? j = some a) {kind : NodeKind} (known : w.registry.kind a.type = .ok kind) :
    kind.compile after.scene.surroundings a = kind.compile w.scene.surroundings a := by
  have types := Registry.standardTypes (standard ▸ known)
  have present : w.net.node j = .ok a := Net.nodeFound.mpr found
  refine NodeKind.compileSurroundings (fun shows id shown => ?_) fun calls => ?_
  · refine Classical.byContradiction fun changed => ?_
    have changed : w.net.uniforms.get? id ≠ after.net.uniforms.get? id := Ne.symm changed
    refine traced.uniforms id changed j a safe found (types.1 shows) (NodeKind.shownNamed shown ?_)
    rintro rfl omitted
    have looksUp : w.scene.LooksUp j "" :=
      ⟨a, kind, present, known, NodeKind.looksUpIff.mpr ⟨shows, shown⟩⟩
    exact named ⟨changed, looksUp, a, present, omitted⟩
  · exact traced.exports.elim id fun uncalled => absurd (types.2 calls) (uncalled j a safe found)

theorem Traced.kept (traced : Traced patches w after changes) (standard : w.registry = .standard)
    {j : String} (safe : changes.invalidated.contains j = false) (named : ¬ w.FallsBack after j)
    (alike : ∀ a b, w.net.nodes.get? j = some a → after.net.nodes.get? j = some b →
      a.Becomes patches b → a.Alike b) : Scene.Kept w.scene after.scene j := by
  have related := traced.nodes j safe
  refine ⟨(Table.relatedSome related).symm, ?_, traced.sources j safe⟩
  cases found : w.net.nodes.get? j with
  | none =>
    rw [found] at related
    have absent : after.net.nodes.get? j = none := by
      generalize after.net.nodes.get? j = node at related ⊢
      cases related
      rfl
    have missing := Scene.nodeAbsent (Table.containsFalse.mpr found)
    have missing' := Scene.nodeAbsent (Table.containsFalse.mpr absent)
    simp only [Scene.recipe, scene, missing, missing']
  | some a =>
    obtain ⟨b, found', becomes⟩ := traced.becomes safe found
    have same := alike a b found found' becomes
    have present : w.net.node j = .ok a := Net.nodeFound.mpr found
    have present' : after.net.node j = .ok b := Net.nodeFound.mpr found'
    cases known : w.registry.kind a.type with
    | error e =>
      simp only [Scene.recipe, scene, present, present', becomes.type, traced.registry, known]
    | ok kind =>
      have recipe := (kind.compileAlike after.scene.surroundings same).symm.trans
        (traced.surroundings standard safe named found known)
      simp only [Scene.recipe, scene, present, present', becomes.type, traced.registry, known]
      exact congrArg Except.ok recipe

/- A node that ends otherwise than before is made from one that was overlooked. -/
theorem Traced.overlooked (traced : Traced patches w after changes) (sound : w.net.Sound)
    (standard : w.registry = .standard) {k : String} (safe : changes.invalidated.contains k = false)
    (differs : (w.scene.compile k .empty).1 ≠ (after.scene.compile k .empty).1) :
    ∃ j, ReflTransGen after.net.Feeds j k ∧ (w.FallsBack after j ∨
      ∃ a b, w.net.nodes.get? j = some a ∧ after.net.nodes.get? j = some b ∧
        a.Becomes patches b ∧ ¬ a.Alike b) := by
  refine Classical.byContradiction fun none => differs ?_
  rw [(Scene.compileMatches (Scene.emptyWorking _) k).1, (Scene.compileMatches (Scene.emptyWorking _) k).1]
  have outside : ∀ j, ReflTransGen after.net.Feeds j k → changes.invalidated.contains j = false := by
    intro j path
    refine Bool.not_eq_true _ ▸ fun told => ?_
    rw [Net.closedPath traced.closed path told] at safe
    cases safe
  refine (@Scene.evaluateKept w.scene after.scene sound traced.sound
    (ReflTransGen after.net.Feeds · k) (fun j path => ?_) (fun c member path => ?_) [] k .refl).symm
  · refine traced.kept standard (outside j path) (fun falls => none ⟨j, path, .inl falls⟩) ?_
    intro a b found found' becomes
    exact Classical.byContradiction fun unlike =>
      none ⟨j, path, .inr ⟨a, b, found, found', becomes, unlike⟩⟩
  · exact .head ⟨c, member, rfl, rfl⟩ path

end Workspace
end ShaderNet
