import Mathlib.Tactic.Tauto
import ShaderNet.Proofs.Net.Reload
import ShaderNet.Proofs.Workspace.Load

/-! Every step of a plan says something, so that only a plan without steps is carried out in silence. -/
namespace ShaderNet

namespace Changes

theorem overlayNone {t u : Table String Uniform} : t.overlay u.entries = ∅ ↔ t = ∅ ∧ u = ∅ := by
  constructor
  · intro none
    have both : ∀ k, u.get? k = .none ∧ t.get? k = .none := by
      intro k
      rw [← Option.or_eq_none_iff, ← Table.getOverlayTable, none]
      rfl
    exact ⟨Table.ext fun k => (both k).2, Table.ext fun k => (both k).1⟩
  · rintro ⟨rfl, rfl⟩
    rfl

theorem addAllNone {s t : KeySet String} : s.addAll t.keys = ∅ ↔ s = ∅ ∧ t = ∅ := by
  constructor
  · intro none
    have neither : ∀ k, ¬ (k ∈ t.keys ∨ s.contains k = true) := by
      intro k
      rw [← KeySet.containsAddAll, none]
      exact Bool.false_ne_true
    constructor <;> refine KeySet.ext fun k => iff_of_false (fun held => neither k ?_) Bool.false_ne_true
    · exact .inr held
    · exact .inl (Table.memKeysContains.mpr held)
  · rintro ⟨rfl, rfl⟩
    rfl

theorem appendUntold {c d : Changes} : c ++ d = .empty ↔ c = .empty ∧ d = .empty := by
  show merge c d = _ ↔ _
  simp only [Changes.ext_iff, merge, empty, List.append_eq_nil_iff, overlayNone, addAllNone]
  tauto

end Changes

namespace Workspace

variable {w : Workspace} {d : Document}

theorem eachUntold {α : Type} {items : List α} {action : α → Action} {rest : List Action}
    (tells : ∀ i ∈ items, (action i w).2 ≠ .empty)
    (untold : (Action.all (.each items action :: rest) w).2 = .empty) :
    items = [] ∧ (Action.all rest w).2 = .empty := by
  rw [Action.allCons] at untold
  obtain ⟨first, later⟩ := Changes.appendUntold.mp untold
  cases items with
  | nil => exact ⟨rfl, later⟩
  | cons i others =>
    have both : (Action.each (i :: others) action w).2 =
        (action i w).2 ++ (Action.each others action (action i w).1).2 :=
      congrArg (fun a : Action => (a w).2) (Action.allCons _ _)
    exact absurd (Changes.appendUntold.mp (both.symm.trans first)).1 (tells i List.mem_cons_self)

/-! What the steps say -/

theorem orWarnTells {edit : Net → Except Failure (Net × Changes)} {wording : Failure → String}
    (tells : ∀ after, edit w.net ≠ .ok (after, .empty)) : (Action.orWarn edit wording w).2 ≠ .empty := by
  unfold Action.orWarn
  cases tried : edit w.net with
  | error e => exact fun none => List.cons_ne_nil _ _ (congrArg Changes.warnings none)
  | ok r =>
    obtain ⟨after, changes⟩ := r
    exact fun none => tells after (none ▸ tried)

theorem removeConnectionTells (sound : w.net.Sound) :
    ∀ id ∈ (w.net.reconcile d).removedConnections,
      (Action.onNet (·.removeConnection id) w).2 ≠ .empty := by
  intro id member none
  obtain ⟨c, listed, rfl⟩ := List.mem_map.mp (List.mem_filter.mp member).1
  have found := (Net.memConnections sound.toIndexed).mp listed
  have told : (w.net.removeConnection c.id).2.removedConnections = [] :=
    congrArg Changes.removedConnections none
  rw [Net.removeConnection, found] at told
  cases told

theorem removeNodeTells : ∀ id ∈ (w.net.reconcile d).removedNodes,
    (Action.orWarn (·.removeNode id) Failure.message w).2 ≠ .empty := by
  refine fun id _ => orWarnTells fun after ok => ?_
  have told := congrArg (fun r : Net × Changes => r.2.removedNodes) (Net.removeNodeIff.mp ok).2
  exact List.cons_ne_nil _ _ (List.append_eq_nil_iff.mp told.symm).2

theorem removingUniformTells : ∀ id ∈ (w.net.reconcile d).removedUniforms,
    (removingUniform id w).2 ≠ .empty := by
  intro id member none
  have present := Table.memKeysContains.mp (List.mem_filter.mp member).1
  have told : (removingUniform id w).2.removedUniforms = [] := congrArg Changes.removedUniforms none
  simp only [removingUniform, Net.removeUniform, present, if_true] at told
  cases told

theorem removeIncludeTells : ∀ path ∈ (w.net.reconcile d).removedIncludes,
    (Action.onNet (·.removeInclude path) w).2 ≠ .empty := by
  intro path member none
  have present := Net.includesIff.mpr (List.mem_filter.mp member).1
  have told : (w.net.removeInclude path).2.removedIncludes = [] :=
    congrArg Changes.removedIncludes none
  rw [Net.removeInclude, present] at told
  cases told

theorem includingTells : ∀ path ∈ (w.net.reconcile d).addedIncludes,
    (Action.andThen (warningUnresolved path) (including path) w).2 ≠ .empty := by
  intro path member none
  have absent : w.net.includes? path = false := by simpa using (List.mem_filter.mp member).2
  have same : (warningUnresolved path w).1 = w := by
    unfold warningUnresolved
    split <;> rfl
  have told : (including path (warningUnresolved path w).1).2.addedIncludes = [] :=
    congrArg Changes.addedIncludes (Changes.appendUntold.mp none).2
  rw [same, including, Action.onNet, Net.addInclude, absent] at told
  cases told

theorem settingUniformTells : ∀ u ∈ (w.net.reconcile d).updatedUniforms,
    (settingUniform u w).2 ≠ .empty := by
  intro u member none
  have other : (w.net.uniform? u.id).any (fun v => v.same u) = false := by
    simpa using (List.mem_filter.mp member).2
  have told : (settingUniform u w).2.updatedUniforms = ∅ := congrArg Changes.updatedUniforms none
  simp only [settingUniform, Net.setUniform, other] at told
  cases told

theorem insertNodeTells : ∀ node ∈ (w.net.reconcile d).addedNodes,
    (Action.orWarn (·.insertNode node) Failure.message w).2 ≠ .empty := by
  refine fun node _ => orWarnTells fun after ok => ?_
  have told := congrArg (fun r : Net × Changes => r.2.addedNodes) (Net.insertNodeIff.mp ok).2
  cases told

theorem insertConnectionTells : ∀ c ∈ (w.net.reconcile d).addedConnections,
    (Action.orWarn (·.insertConnection c) (labelled c.id) w).2 ≠ .empty := by
  refine fun c _ => orWarnTells fun after ok => ?_
  have told := congrArg (fun r : Net × Changes => r.2.addedConnections)
    (Net.insertConnectionIff.mp ok).2
  cases told

theorem patchNodeTells : ∀ node ∈ (w.net.reconcile d).modifiedNodes,
    (Action.orWarn (·.patchNode node) Failure.message w).2 ≠ .empty := by
  intro node member
  refine orWarnTells fun after ok => ?_
  obtain ⟨_, old, found, other⟩ := Plan.memModified.mp member
  simp only [Net.patchNode, Net.nodeFound.mpr found, bind, Except.bind, other] at ok
  cases ok

theorem clearingUntold (sound : w.net.Sound) {rest : List Action}
    (untold : (Action.all (clearing (w.net.reconcile d) ++ rest) w).2 = .empty) :
    (w.net.reconcile d).removedConnections = [] ∧ (w.net.reconcile d).removedNodes = [] ∧
      (w.net.reconcile d).removedUniforms = [] ∧ (w.net.reconcile d).removedIncludes = [] ∧
      (w.net.reconcile d).addedIncludes = [] ∧ (Action.all rest w).2 = .empty := by
  obtain ⟨links, untold⟩ := eachUntold (removeConnectionTells sound) untold
  obtain ⟨nodes, untold⟩ := eachUntold removeNodeTells untold
  obtain ⟨uniforms, untold⟩ := eachUntold removingUniformTells untold
  obtain ⟨fewer, untold⟩ := eachUntold removeIncludeTells untold
  obtain ⟨more, untold⟩ := eachUntold includingTells untold
  exact ⟨links, nodes, uniforms, fewer, more, untold⟩

theorem loadUntold (sound : w.net.Sound) :
    (w.load d).2 = .empty ↔ (w.net.reconcile d).isEmpty = true := by
  unfold load
  dsimp only
  split
  · rename_i empty
    exact iff_of_true rfl empty
  · rename_i steps
    refine iff_of_false (fun untold => steps ?_) steps
    change (following _ w).2 = .empty at untold
    unfold following at untold
    split at untold
    · obtain ⟨links, nodes, uniforms, fewer, more, untold⟩ := clearingUntold sound untold
      obtain ⟨set, untold⟩ := eachUntold settingUniformTells untold
      obtain ⟨added, untold⟩ := eachUntold insertNodeTells untold
      obtain ⟨connected, untold⟩ := eachUntold insertConnectionTells untold
      obtain ⟨patches, _⟩ := eachUntold patchNodeTells untold
      simp [Plan.isEmpty, links, nodes, uniforms, fewer, more, set, added, connected, patches]
    · rename_i includes
      obtain ⟨_, _, _, fewer, more, _⟩ := clearingUntold sound untold
      exact absurd (by simp [fewer, more]) includes

/- What a second load of a document has to say. -/
theorem reloadUntold (sound : w.net.Sound) (orderly : d.Orderly) (own : Net.Apart d.connections)
    (sound' : (w.load d).1.net.Sound) :
    ((w.load d).1.load d).2 = .empty ↔ d.UniformsAgree ∧ w.net.Admits d := by
  have cleared := Plan.clearedNet (d := d) sound w.sources
  have filled := Plan.filledNet sound orderly own cleared
  rw [← (loadNet sound orderly own).1] at filled
  exact (loadUntold sound').trans (Plan.settledIff sound sound' orderly own cleared filled)

theorem loadSilent (sound : w.net.Sound) (untold : (w.load d).2 = .empty) : w.load d = (w, .empty) :=
  if_pos ((loadUntold sound).mp untold)

end Workspace
end ShaderNet
