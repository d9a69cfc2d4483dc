import Mathlib.Logic.Relation
import ShaderNet.Proofs.Evaluate.Renewal
import ShaderNet.Proofs.Workspace.Covered
import ShaderNet.Proofs.Workspace.Shader

/-! Edits of uniforms. They tell of every node that names what they change, with all that is fed by it,
and what is compiled next is made without the results of before. -/
namespace ShaderNet
open Relation (ReflTransGen)

def Scene.LooksUp (scene : Scene) (k id : String) : Prop :=
  ∃ node kind, scene.net.node k = .ok node ∧ scene.registry.kind node.type = .ok kind ∧
    kind.LooksUp node id

def Net.Omits (n : Net) (k parameter : String) : Prop :=
  ∃ node, n.node k = .ok node ∧ node.parameters.get? parameter = none

theorem Net.closedPath {n : Net} {s : KeySet String} (closed : n.Closed s) {k j : String}
    (path : ReflTransGen n.Feeds k j) (start : s.contains k = true) : s.contains j = true := by
  induction path with
  | refl => exact start
  | tail _ step ih =>
    obtain ⟨c, member, rfl, rfl⟩ := step
    exact closed c member ih

namespace Workspace

variable {w mid after : Workspace} {changes c d : Changes}

structure Evicted (w after : Workspace) (changes : Changes) : Prop where
  sound : after.net.Sound
  only : after = { w with net := { w.net with uniforms := after.net.uniforms } }
  closed : w.net.Closed changes.invalidated
  namers : ∀ id, w.net.uniforms.get? id ≠ after.net.uniforms.get? id →
    ∀ k ∈ namers w.net "custom_uniform" "uniform" id, changes.invalidated.contains k = true

theorem evictedSame (sound : w.net.Sound) : Evicted w w .empty :=
  ⟨sound, rfl, fun _ _ impossible => (nomatch impossible), fun _ changed => absurd rfl changed⟩

theorem Evicted.append (first : Evicted w mid c) (second : Evicted mid after d) :
    Evicted w after (c ++ d) := by
  obtain ⟨sound, only, closed, namers⟩ := second
  rw [first.only] at only closed namers
  refine ⟨sound, only, fun link member start => ?_, fun id changed k named => ?_⟩
  · exact Changes.invalidatedAppend.mpr
      ((Changes.invalidatedAppend.mp start).imp (first.closed link member) (closed link member))
  · refine Changes.invalidatedAppend.mpr ?_
    by_cases same : w.net.uniforms.get? id = mid.net.uniforms.get? id
    · exact .inr (namers id (same ▸ changed) k named)
    · exact .inl (first.namers id same k named)

theorem evictedUniforms {uniforms : Table String Uniform}
    (sound : Net.Sound { w.net with uniforms := uniforms }) {id : String}
    (others : ∀ k, k ≠ id → uniforms.get? k = w.net.uniforms.get? k) (changes : Changes) :
    Evicted w { w with net := { w.net with uniforms := uniforms } } { changes with
      invalidated := Net.downstreamClosure { w.net with uniforms := uniforms }
        (namers w.net "custom_uniform" "uniform" id) } := by
  refine ⟨sound, rfl, Net.downstreamClosed sound.toIndexed _, fun k changed j named => ?_⟩
  refine Net.downstreamSeed sound.toIndexed ?_
  by_cases same : k = id
  · exact same ▸ named
  · exact absurd (others k same).symm changed

def Action.Evicts (a : Action) : Prop := ∀ w, w.net.Sound → Evicted w (a w).1 (a w).2

theorem evictsSettingUniform (u : Uniform) : (settingUniform u).Evicts := by
  intro w sound
  have sound' := Net.setUniformSound sound u
  cases same : (w.net.uniform? u.id).any (fun v => v.same u) with
  | true =>
    simp only [settingUniform, Net.setUniform, same, if_true]
    exact evictedSame sound
  | false =>
    simp only [Net.setUniform, same] at sound'
    simp only [settingUniform, Net.setUniform, same]
    refine evictedUniforms sound' (fun k other => ?_) _
    exact (Table.getInsert ..).trans (if_neg other.symm)

theorem evictsRemovingUniform (id : String) : (removingUniform id).Evicts := by
  intro w sound
  have sound' := Net.removeUniformSound sound id
  cases present : w.net.uniforms.contains id with
  | false =>
    simp only [removingUniform, Net.removeUniform, present]
    exact evictedSame sound
  | true =>
    simp only [Net.removeUniform, present, if_true] at sound'
    simp only [removingUniform, Net.removeUniform, present, if_true]
    refine evictedUniforms sound' (fun k other => ?_) { Changes.empty with removedUniforms := [id] }
    exact (Table.getErase ..).trans (if_neg other.symm)

theorem evictsEach {α : Type} {items : List α} {action : α → Action}
    (each : ∀ i ∈ items, (action i).Evicts) : (Action.each items action).Evicts := by
  refine Action.eachInduct (fun w => evictedSame) (fun a b first second w sound => ?_) each
  exact (first w sound).append (second _ (first w sound).sound)

/-! Readers -/

theorem readerNames (sound : w.net.Sound) (registry : w.registry = .standard) {id k : String}
    (reads : w.scene.LooksUp k id) (given : id = "" → ¬ w.net.Omits k "uniform") :
    k ∈ namers w.net "custom_uniform" "uniform" id := by
  obtain ⟨node, kind, found, known, reads⟩ := reads
  obtain ⟨shows, shown⟩ := NodeKind.looksUpIff.mp reads
  rw [scene, registry] at known
  refine memNamers sound found ((Registry.standardTypes known).1 shows) ?_
  exact NodeKind.shownNamed shown fun unnamed omitted => given unnamed ⟨node, found, omitted⟩

theorem looksUpShown (registry : w.registry = .standard) {id k : String} {node : Node}
    (found : w.net.nodes.get? k = some node) (type : node.type = "custom_uniform")
    (shows : NodeKind.shown node = some id) : w.scene.LooksUp k id := by
  have known : Registry.standard.kind "custom_uniform" = .ok .uniform := by decide +kernel
  rw [← registry, ← type] at known
  exact ⟨node, .uniform, Net.nodeFound.mpr found, known, NodeKind.looksUpIff.mpr ⟨rfl, shows⟩⟩

theorem Evicted.told (evicted : Evicted w after changes) (sound : w.net.Sound)
    (registry : w.registry = .standard) {id k j : String}
    (changed : w.net.uniforms.get? id ≠ after.net.uniforms.get? id) (reads : w.scene.LooksUp k id)
    (given : id = "" → ¬ w.net.Omits k "uniform") (path : ReflTransGen after.net.Feeds k j) :
    changes.invalidated.contains j = true := by
  rw [evicted.only] at path
  have named := readerNames sound registry reads given
  exact Net.closedPath evicted.closed path (evicted.namers id changed k named)

theorem Evicted.stable (evicted : Evicted w after changes) (sound : w.net.Sound)
    (registry : w.registry = .standard)
    (given : w.net.uniforms.get? "" ≠ after.net.uniforms.get? "" →
      ∀ k, w.scene.LooksUp k "" → ¬ w.net.Omits k "uniform") :
    Scene.Stable w.scene after.scene changes.invalidated := by
  obtain ⟨sound', only, closed, told⟩ := evicted
  rw [only] at sound' ⊢
  refine Scene.stableClosedBefore sound sound' closed fun k safe => ⟨?_, fun _ => rfl⟩
  intro node kind found known
  refine ⟨node, found, known, NodeKind.compileSurroundings (fun shows id shown => ?_) fun _ => rfl⟩
  -- a node that is not told of looks up nothing that differs
  refine Classical.byContradiction fun differs => ?_
  have reads : w.scene.LooksUp k id :=
    ⟨node, kind, found, known, NodeKind.looksUpIff.mpr ⟨shows, shown⟩⟩
  have changed := Ne.symm differs
  have named := readerNames sound registry reads fun unnamed =>
    given (unnamed ▸ changed) k (unnamed ▸ reads)
  rw [told id changed k named] at safe
  cases safe

/-! Compiling next -/

structure Renews (w : Workspace) (k : String) : Prop where
  dropped : w.cache.results.get? k = none
  kept : ∀ c, (w.compile k).1 = .ok c → (w.compile k).2.cache.results.get? k = some c
  made : ∀ asked c, (w.compile asked).2.cache.results.get? k = some c →
    w.scene.made (Scene.fromKept (w.compile asked).2.cache.results) k = .ok c

theorem renewsDropped (idle : w.cache.stack = []) {k : String}
    (dropped : w.cache.results.get? k = none) : w.Renews k := by
  refine ⟨dropped, fun c ok => ?_, fun asked c found => ?_⟩
  · rw [compileAnswer] at ok
    rw [compileResults]
    exact (w.scene.compileRemade k idle).kept c ok
  · rw [compileResults] at found ⊢
    exact (w.scene.compileRemade asked idle).renewed.made k c found dropped

def shownAs (id : String) : Option Uniform → Except Failure Compiled
  | some u => .ok (.single "out" (.simple u.type (Identifier.uniform id)))
  | none => .error (.uniformMissing id)

theorem compileReader (idle : w.cache.stack = []) {id k : String}
    (dropped : w.cache.results.get? k = none) (reads : w.scene.LooksUp k id) :
    (w.compile k).1 = shownAs id (w.net.uniforms.get? id) := by
  obtain ⟨node, kind, found, known, reads⟩ := reads
  obtain ⟨rfl, shown⟩ := NodeKind.looksUpIff.mp reads
  have entry := List.length_pos_of_mem (Table.getMember (Net.nodeFound.mp found))
  obtain ⟨budget, size⟩ := Nat.exists_eq_succ_of_ne_zero (Nat.ne_of_gt entry)
  have size : w.scene.net.nodes.size = budget + 1 := size
  have free : k ∉ w.cache.stack := by simp [idle]
  rw [compileAnswer, Scene.compile, size]
  simp only [Scene.compileWithin, found, dropped, known, if_neg free]
  cases stored : w.net.uniforms.get? id with
  | some u =>
    rw [NodeKind.compilePresent shown stored]
    rfl
  | none =>
    rw [NodeKind.compileAbsent shown stored]
    rfl

end Workspace
end ShaderNet
