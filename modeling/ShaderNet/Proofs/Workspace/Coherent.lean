import ShaderNet.Proofs.Evaluate.Queries
import ShaderNet.Proofs.Workspace.Covered
import ShaderNet.Workspace.Compile

/-! Coherence: every result that a workspace keeps is the one its node would be compiled to now, and its
exports are those of its includes. No edit and no question breaks it. -/
namespace ShaderNet.Workspace
open Number (Double)

variable {used : List Connection} {w : Workspace}

/-! Uniforms and includes -/

theorem setUniformEdited {n : Net} (unambiguous : n.Unambiguous used) {u : Uniform} (named : u.id ≠ "")
    (different : (n.uniform? u.id).any (fun v => v.same u) = false) (changes : Changes) :
    Net.Edited used n { n with uniforms := n.uniforms.insert u.id u } { changes with
      invalidated := Net.downstreamClosure { n with uniforms := n.uniforms.insert u.id u }
        (namers n "custom_uniform" "uniform" u.id) } := by
  have sound : Net.Sound { n with uniforms := n.uniforms.insert u.id u } := by
    have sound := Net.setUniformSound unambiguous.toSound u
    rw [Net.setUniform, different] at sound
    exact sound
  refine ⟨⟨sound, unambiguous.listed, ?_, unambiguous.plain⟩, rfl, fun x => ?_⟩
  · exact (Table.getInsert ..).trans ((if_neg named).trans unambiguous.unnamed)
  · refine uniformStable unambiguous.toSound sound named (fun k other => ?_) x
    exact (Table.getInsert ..).trans (if_neg other.symm)

theorem steadiesSettingUniform {u : Uniform} (named : u.id ≠ "") :
    Action.Steadies used (settingUniform u) := by
  intro w good
  cases same : (w.net.uniform? u.id).any (fun v => v.same u) with
  | true =>
    simp only [settingUniform, Net.setUniform, same, if_true]
    exact steadySame good _
  | false =>
    simp only [settingUniform, Net.setUniform, same]
    exact steadyEdited good (setUniformEdited good.unambiguous named same _)

theorem removeUniformEdited {n : Net} (unambiguous : n.Unambiguous used) {id : String}
    (present : n.uniforms.contains id = true) (changes : Changes) :
    Net.Edited used n { n with uniforms := n.uniforms.erase id } { changes with
      invalidated := Net.downstreamClosure { n with uniforms := n.uniforms.erase id }
        (namers n "custom_uniform" "uniform" id) } := by
  have named : id ≠ "" := by
    intro same
    rw [same, Table.contains, unambiguous.unnamed] at present
    cases present
  have sound : Net.Sound { n with uniforms := n.uniforms.erase id } :=
    Net.removeUniformNet n id ▸ Net.removeUniformSound unambiguous.toSound id
  refine ⟨⟨sound, unambiguous.listed, ?_, unambiguous.plain⟩, rfl, fun x => ?_⟩
  · exact (Table.getErase ..).trans ((if_neg named).trans unambiguous.unnamed)
  · refine uniformStable unambiguous.toSound sound named (fun k other => ?_) x
    exact (Table.getErase ..).trans (if_neg other.symm)

theorem steadiesRemovingUniform (id : String) : Action.Steadies used (removingUniform id) := by
  intro w good
  cases present : w.net.uniforms.contains id with
  | false =>
    simp only [removingUniform, Net.removeUniform, present]
    exact steadySame good _
  | true =>
    simp only [removingUniform, Net.removeUniform, present, if_true]
    exact steadyEdited good
      (removeUniformEdited good.unambiguous present { Changes.empty with removedUniforms := [id] })

theorem coveredIncludes (good : Good used w) {net : Net} (sound : net.Sound) {includes : List Include}
    (only : net = { w.net with includes := includes }) (changes : Changes) :
    Covered used w { w with net := net } changes := by
  subst only
  have kept := good.unambiguous
  refine ⟨⟨good.registry, sound, kept.listed, kept.unnamed, kept.plain⟩, rfl, ?_⟩
  refine Scene.stableMore (s := ∅) ?_ fun _ impossible => nomatch impossible
  refine Scene.stableClosedBefore good.unambiguous.toSound sound (fun _ _ impossible => nomatch impossible) ?_
  exact fun _ _ => Scene.unchangedNode rfl rfl rfl fun _ => rfl

theorem coversIncluding (path : String) : Action.Covers used (including path) := by
  intro w good
  have sound := Net.addIncludeSound good.unambiguous.toSound path (w.sources path)
  exact coveredIncludes good sound (Net.addIncludeNet ..) _

theorem coversRemoveInclude (path : String) :
    Action.Covers used (.onNet (·.removeInclude path)) := by
  intro w good
  have sound := Net.removeIncludeSound good.unambiguous.toSound path
  exact coveredIncludes good sound (Net.removeIncludeNet ..) _

theorem coversCollectingExports : Action.Covers used collectingExports := by
  intro w good
  refine ⟨⟨good.registry, good.unambiguous⟩, rfl, ?_⟩
  have stable := exportsStable good.unambiguous.toSound w.exports (Exports.collect w.net.includes).1
  rw [← good.registry] at stable
  exact stable

theorem steadiesWarningUnresolved (path : String) :
    Action.Steadies used (warningUnresolved path) := by
  intro w good
  unfold warningUnresolved
  split <;> exact steadySame good _

/-! Coherence -/

def Fresh (w : Workspace) : Prop := w.exports = (Exports.collect w.net.includes).1

structure Coherent (used : List Connection) (w : Workspace) : Prop extends Good used w where
  working : w.scene.Working [] w.cache
  fresh : w.Fresh

theorem emptyCoherent (used : List Connection) : Coherent used empty where
  registry := rfl
  unambiguous := Net.emptyUnambiguous used
  working := Scene.emptyWorking _
  fresh := rfl

theorem Steady.fresh {after : Workspace} {changes : Changes} (steady : Steady used w after changes)
    (fresh : w.Fresh) : after.Fresh := by
  rw [Fresh, steady.exports, steady.includes]
  exact fresh

/- What is left of the results after an edit are those that the edit does not affect. -/
theorem committedWorking {after : Workspace} {changes : Changes} (cache : after.cache = w.cache)
    (stable : Scene.Stable w.scene after.scene changes.invalidated) (working : w.scene.Working [] w.cache) :
    (after.commit changes).scene.Working [] (after.commit changes).cache := by
  refine ⟨(congrArg Cache.stack cache).trans working.stack, fun id c found => ?_⟩
  rw [commit, Cache.drop, cache, Table.getFilter] at found
  obtain ⟨found, kept⟩ := Option.filter_eq_some_iff.mp found
  exact stable id c (by simpa using kept) (working.keeps id c found)

theorem committed {after : Workspace} {changes : Changes} (coherent : Coherent used w)
    (covered : Covered used w after changes) (fresh : after.Fresh) :
    Coherent used (after.commit changes) where
  registry := covered.good.registry
  unambiguous := covered.good.unambiguous
  working := committedWorking covered.cache covered.stable coherent.working
  fresh := fresh

theorem performCovered (coherent : Coherent used w) {action : Action}
    (covered : Covered used w (action w).1 (action w).2) (fresh : (action w).1.Fresh) :
    Coherent used (w.perform action).1 := committed coherent covered fresh

theorem performSteady (coherent : Coherent used w) {action : Action}
    (steadies : action.Steadies used) : Coherent used (w.perform action).1 :=
  have steady := steadies w coherent.toGood
  performCovered coherent steady.toCovered (steady.fresh coherent.fresh)

theorem tryNetCoherent (coherent : Coherent used w) {edit : Net → Except Failure (Net × Changes)}
    (edits : ∀ net changes, edit w.net = .ok (net, changes) → Net.Edited used w.net net changes) :
    Coherent used (w.tryNet edit).2 := by
  unfold tryNet
  split
  · rename_i net changes ok
    have steady := steadyEdited coherent.toGood (edits net changes ok)
    exact committed coherent steady.toCovered (steady.fresh coherent.fresh)
  · exact coherent

end ShaderNet.Workspace
