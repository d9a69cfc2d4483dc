import ShaderNet.Proofs.Session.Sound
import ShaderNet.Proofs.Workspace.Readers

/-! Readers of uniforms along a session. Whoever looks a uniform up is compiled anew after an edit of
it, unless it looks up the one without a name only because it names none. -/
namespace ShaderNet
open Relation (ReflTransGen)

namespace Workspace

variable {links : Connection → Prop} {w after : Workspace} {changes : Changes}

def Right (w : Workspace) : Prop :=
  ∀ k c, w.cache.results.get? k = some c → (w.scene.compile k .empty).1 = .ok c

theorem rightWorking (idle : w.cache.stack = []) (right : w.Right) :
    w.scene.Working [] w.cache := by
  refine ⟨idle, fun k c found => ?_⟩
  rw [← (Scene.compileMatches (Scene.emptyWorking _) k).1]
  exact right k c found

theorem workingCompile (working : w.scene.Working [] w.cache) (k : String) :
    (w.compile k).1 = (w.scene.compile k .empty).1 := by
  rw [compileAnswer, (Scene.compileMatches working k).1]
  exact (Scene.compileMatches (Scene.emptyWorking _) k).1.symm

theorem commitDropped (w : Workspace) {k : String} (invalidated : changes.invalidated.contains k = true) :
    (w.commit changes).cache.results.get? k = none := by
  rw [commit, Cache.drop, Table.getFilter]
  simp only [invalidated]
  cases w.cache.results.get? k <;> rfl

end Workspace

def Request.editsUniforms : Request → Bool
  | .setUniform _ | .setUniforms _ | .removeUniform _ | .removeUniforms _ => true
  | _ => false

namespace Session
open Workspace

variable {s : Session}

theorem answerIdle (idle : s.workspace.cache.stack = []) (request : Request) :
    (s.answer request).2.workspace.cache.stack = [] := by
  rcases s.answerCases request with
    ⟨mid, changes, parts, same⟩ | question | ⟨options, sources, same⟩ | ⟨_, _, registry, _, _, same⟩
  · rw [same]
    exact (congrArg Cache.stack (partsCache parts)).trans idle
  · have lasting : s.workspace.Lasting fun cache => cache.stack = [] :=
      ⟨fun id cache idle => (Scene.compileRemade _ id idle).stack.trans idle, fun _ idle => idle⟩
    exact (answerAsked lasting (askedRefl idle) question).kept
  · rw [same]
    exact idle
  · rw [same]
    exact idle

theorem runIdle (idle : s.workspace.cache.stack = []) (requests : List Request) :
    (s.run requests).workspace.cache.stack = [] := by
  induction requests generalizing s with
  | nil => exact idle
  | cons request rest ih => exact ih (answerIdle idle request)

theorem answerEvicts (s : Session) {request : Request} (edits : request.editsUniforms = true) :
    ∃ action : Action, action.Evicts ∧
      s.answer request = s.afterChange (s.workspace.perform action) := by
  cases request with
  | setUniform u => exact ⟨_, evictsSettingUniform u, rfl⟩
  | setUniforms us => exact ⟨_, evictsEach fun u _ => evictsSettingUniform u, rfl⟩
  | removeUniform id => exact ⟨_, evictsRemovingUniform id, rfl⟩
  | removeUniforms ids => exact ⟨_, evictsEach fun id _ => evictsRemovingUniform id, rfl⟩
  | _ => cases edits

theorem compileReply (s : Session) {k : String}
    (dropped : s.workspace.cache.results.get? k = none) :
    (s.forgetDropped.handle (.compile k)).1 =
      (s.workspace.compile k).1.map fun c => .compiled c false := by
  have forgotten : s.forgetDropped.delivered.contains k = false := by
    rw [Table.containsFalse, forgetDropped, Table.getFilter]
    simp only [Table.containsFalse.mpr dropped]
    cases s.delivered.get? k <;> rfl
  unfold handle answer
  dsimp only
  split <;> rename_i answered
  · have told : (s.workspace.compile k).1 = .ok _ := congrArg Prod.fst answered
    rw [forgotten, told]
    rfl
  · have told : (s.workspace.compile k).1 = .error _ := congrArg Prod.fst answered
    rw [told]
    rfl

theorem uniformReadersEvicted (requests : List Request) (request : Request)
    (edits : request.editsUniforms = true)
    (standard : ((start .empty).run requests).workspace.registry = .standard) :
    let before := ((start .empty).run requests).workspace
    let handled := ((start .empty).run requests).handle request
    let after := handled.2.workspace
    ∃ changes, handled.1 = .ok (.changes changes) ∧
      (∀ id k, before.net.uniforms.get? id ≠ after.net.uniforms.get? id → before.scene.LooksUp k id →
        (id = "" → ¬ before.net.Omits k "uniform") →
        (handled.2.handle (.compile k)).1 =
            (shownAs id (after.net.uniforms.get? id)).map (fun c => .compiled c false) ∧
          ∀ j, ReflTransGen after.net.Feeds k j → changes.invalidated.contains j = true ∧ after.Renews j) ∧
      (before.Right → (before.net.uniforms.get? "" ≠ after.net.uniforms.get? "" →
          ∀ k, before.scene.LooksUp k "" → ¬ before.net.Omits k "uniform") →
        ∀ j, (after.compile j).1 = (after.scene.compile j .empty).1) := by
  have fresh : (start .empty).workspace.net.Sound := Net.emptySound
  have sound := runSound fresh requests
  have idle := runIdle (s := start .empty) rfl requests
  generalize (start .empty).run requests = s at standard sound idle
  obtain ⟨action, evicts, answered⟩ := s.answerEvicts edits
  have evicted := evicts s.workspace sound
  have handles : s.handle request = (.ok (.changes (action s.workspace).2),
      { s with workspace := (s.workspace.perform action).1 }.forgetDropped) := by
    rw [handle, answered]
    rfl
  have cache : (action s.workspace).1.cache = s.workspace.cache := by rw [evicted.only]
  have idle' : (s.workspace.perform action).1.cache.stack = [] :=
    (congrArg Cache.stack cache).trans idle
  rw [handles]
  refine ⟨_, rfl, fun id k changed reads given => ⟨?_, fun j path => ?_⟩, fun right given j => ?_⟩
  · have invalidated := evicted.told sound standard changed reads given .refl
    have dropped := commitDropped (action s.workspace).1 invalidated
    have reads' : (s.workspace.perform action).1.scene.LooksUp k id := by
      have same : (s.workspace.perform action).1.scene = (action s.workspace).1.scene := rfl
      rw [same, evicted.only]
      exact reads
    rw [compileReply _ dropped, compileReader idle' dropped reads']
    rfl
  · have invalidated := evicted.told sound standard changed reads given path
    exact ⟨invalidated, renewsDropped idle' (commitDropped _ invalidated)⟩
  · have stable := evicted.stable sound standard given
    exact workingCompile (committedWorking cache stable (rightWorking idle right)) j

def tintRequests : List Request := [
  .insertNodes [⟨"u", "custom_uniform", .origin, Table.ofList [("uniform", .text "tint")]⟩,
    .named "n" "negate"],
  .setUniform ⟨"tint", .float, none⟩,
  .addConnection ⟨"u", "out"⟩ ⟨"n", "a"⟩,
  .compile "n"]

theorem uniformReadersEvictedTint :
    let s := (start .empty).run tintRequests
    let handled := s.handle (.setUniforms [⟨"tint", .vec 3, none⟩])
    (s.workspace.registry = .standard ∧ s.workspace.cache.results.keys = ["n", "u"]) ∧
    ∃ changes, handled.1 = .ok (.changes changes) ∧ changes.invalidated.contains "n" = true ∧
      (handled.2.handle (.compile "u")).1 =
        .ok (.compiled (.single "out" (.simple (.vec 3) (Identifier.uniform "tint"))) false) ∧
      handled.2.workspace.Renews "n" ∧
      (handled.2.workspace.compile "n").1 = (handled.2.workspace.scene.compile "n" .empty).1 := by
  have standard : ((start .empty).run tintRequests).workspace.registry = .standard := rfl
  have evicted :=
    uniformReadersEvicted tintRequests (.setUniforms [⟨"tint", .vec 3, none⟩]) rfl standard
  have facts :
      let s := (start .empty).run tintRequests
      let after := (s.handle (.setUniforms [⟨"tint", .vec 3, none⟩])).2.workspace
      (s.workspace.cache.results.keys = ["n", "u"] ∧
        s.workspace.net.nodes.get? "u" =
          some ⟨"u", "custom_uniform", .origin, Table.ofList [("uniform", .text "tint")]⟩ ∧
        ∀ p ∈ s.workspace.cache.results.entries,
          (s.workspace.scene.compile p.1 .empty).1 = .ok p.2) ∧
      s.workspace.net.uniforms.get? "" = after.net.uniforms.get? "" ∧
      s.workspace.net.uniforms.get? "tint" ≠ after.net.uniforms.get? "tint" ∧
      after.net.uniforms.get? "tint" = some ⟨"tint", .vec 3, none⟩ ∧
      ∃ c ∈ after.net.connectionList, c.source.node = "u" ∧ c.target.node = "n" := by
    decide +kernel
  -- from here on nothing has to be run
  generalize (start .empty).run tintRequests = s at standard evicted facts ⊢
  obtain ⟨changes, told, readers, right⟩ := evicted
  obtain ⟨⟨kept, found, made⟩, unnamed, changed, stored, feeds⟩ := facts
  have reads : s.workspace.scene.LooksUp "u" "tint" := looksUpShown standard found rfl rfl
  have named : "tint" = "" → ¬ s.workspace.net.Omits "u" "uniform" :=
    fun unnamed => absurd unnamed (by decide)
  obtain ⟨compiled, downstream⟩ := readers "tint" "u" changed reads named
  rw [stored] at compiled
  obtain ⟨invalidated, renews⟩ := downstream "n" (.single feeds)
  refine ⟨⟨standard, kept⟩, changes, told, invalidated, compiled, renews, ?_⟩
  exact right (fun k c kept => made _ (Table.getMember kept)) (absurd unnamed) "n"

def blankRequests : List Request := [
  .insertNode (.named "u" "custom_uniform"),
  .setUniform ⟨"", .float, none⟩,
  .compile "u"]

theorem uniformReaderMissed :
    let s := (start .empty).run blankRequests
    let changes := (s.workspace.setUniform ⟨"", .vec 3, none⟩).2
    let after := (s.handle (.setUniform ⟨"", .vec 3, none⟩)).2.workspace
    s.workspace.scene.LooksUp "u" "" ∧
    s.workspace.net.uniforms.get? "" ≠ after.net.uniforms.get? "" ∧
    changes.invalidated.contains "u" = false ∧
    (after.compile "u").1 = .ok (.single "out" (.simple .float "u_")) ∧
    (after.scene.compile "u" .empty).1 = .ok (.single "out" (.simple (.vec 3) "u_")) := by
  have found : ((start .empty).run blankRequests).workspace.net.nodes.get? "u" =
      some (.named "u" "custom_uniform") := by decide +kernel
  exact ⟨looksUpShown rfl found rfl rfl, by decide +kernel⟩

end Session
end ShaderNet
