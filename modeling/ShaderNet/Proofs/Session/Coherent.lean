import ShaderNet.Proofs.Workspace.Edits
import ShaderNet.Session

/-! Runs of a session. Whatever is requested, in whatever order, refused or not: what the workspace
keeps afterwards is what would be compiled now. -/
namespace ShaderNet

def Request.isOrdinary : Request → Bool
  | .insertNode node => !node.hasNegativeZero
  | .insertNodes nodes => nodes.all fun node => !node.hasNegativeZero
  | .setParameter _ _ value => !value.hasNegativeZero
  | .setUniform u => u.id ≠ ""
  | .setUniforms us => us.all fun u => u.id ≠ ""
  | .load d | .paste d _ _ => d.isPlain
  | .useRegistry _ _ => false
  | _ => true

namespace Session

def links (s : Session) : Request → List Connection
  | .addConnection source target => [.between source target]
  | .addConnections cs => cs
  | .load d => d.connections
  | .paste d dx dy => s.workspace.pastedLinks d dx dy
  | .pasteClipboard dx dy => s.workspace.pastedLinks s.clipboard dx dy
  | _ => []

def linksAlong (s : Session) : List Request → List Connection
  | [] => []
  | request :: rest => s.links request ++ (s.handle request).2.linksAlong rest

structure Coherent (used : List Connection) (s : Session) : Prop where
  workspace : s.workspace.Coherent used
  clipboard : s.clipboard.isPlain = true

variable {used : List Connection} {s : Session}

theorem afterEditCoherent (coherent : Coherent used s) {r : Except Failure Changes × Workspace}
    (kept : r.2.Coherent used) : Coherent used (s.afterEdit r).2 := ⟨kept, coherent.clipboard⟩

theorem afterChangeCoherent (coherent : Coherent used s) {r : Workspace × Changes}
    (kept : r.1.Coherent used) : Coherent used (s.afterChange r).2 := ⟨kept, coherent.clipboard⟩

open Workspace in
theorem answerCoherent (coherent : Coherent used s) (apart : Net.Apart used) {request : Request}
    (ordinary : request.isOrdinary = true) (listed : ∀ c ∈ s.links request, Net.Listed used c) :
    Coherent used (s.answer request).2 := by
  have edits := @afterEditCoherent used s coherent
  have changes := @afterChangeCoherent used s coherent
  obtain ⟨w, clipboard⟩ := coherent
  cases request with
  | addNode type position => exact edits (addNodeCoherent w type position)
  | insertNode node =>
    exact edits (insertNodeCoherent w (by simpa [Request.isOrdinary] using ordinary))
  | insertNodes nodes =>
    exact edits (insertNodesCoherent w (by simpa [Request.isOrdinary] using ordinary))
  | removeNode id => exact edits (removeNodeCoherent w id)
  | removeNodes ids => exact edits (removeNodesCoherent w ids)
  | addConnection source target =>
    exact edits (addConnectionCoherent w apart (listed _ (List.mem_singleton.mpr rfl)))
  | addConnections cs => exact changes (addConnectionsCoherent w apart listed)
  | removeConnection id => exact changes (removeConnectionCoherent w id)
  | removeConnections ids => exact changes (removeConnectionsCoherent w ids)
  | setParameter id name value =>
    exact edits (setParameterCoherent w id name (by simpa [Request.isOrdinary] using ordinary))
  | moveNode id dx dy => exact edits (moveNodeCoherent w id dx dy)
  | addInclude path => exact edits (addIncludeCoherent w path)
  | removeInclude path => exact changes (removeIncludeCoherent w path)
  | setUniform u =>
    exact changes (setUniformCoherent w (by simpa [Request.isOrdinary] using ordinary))
  | setUniforms us =>
    exact changes (setUniformsCoherent w (by simpa [Request.isOrdinary] using ordinary))
  | removeUniform id => exact changes (removeUniformCoherent w id)
  | removeUniforms ids => exact changes (removeUniformsCoherent w ids)
  | load d => exact changes (loadCoherent w ordinary listed)
  | paste d dx dy => exact changes (pasteCoherent w apart ordinary listed)
  | pasteClipboard dx dy => exact changes (pasteCoherent w apart clipboard listed)
  | copy ids =>
    unfold answer
    dsimp only
    split
    · rename_i d ok
      exact ⟨w, copyPlain w.unambiguous ok⟩
    · exact ⟨w, clipboard⟩
  | compile id =>
    have compiled := compileCoherent w id
    unfold answer
    dsimp only
    split <;> rename_i answered <;> rw [answered] at compiled <;> exact ⟨compiled, clipboard⟩
  | shader id => exact ⟨shaderCoherent w id, clipboard⟩
  | canConnect source target => exact ⟨canConnectCoherent w source target, clipboard⟩
  | describe ids => exact ⟨describeCoherent w ids, clipboard⟩
  | useOptions options => exact ⟨⟨⟨w.registry, w.unambiguous⟩, w.working, w.fresh⟩, clipboard⟩
  | useSources sources => exact ⟨⟨⟨w.registry, w.unambiguous⟩, w.working, w.fresh⟩, clipboard⟩
  | useRegistry start types => cases ordinary

theorem runCoherent (coherent : Coherent used s) (apart : Net.Apart used) {requests : List Request}
    (ordinary : ∀ request ∈ requests, request.isOrdinary = true)
    (listed : ∀ c ∈ s.linksAlong requests, Net.Listed used c) : Coherent used (s.run requests) := by
  induction requests generalizing s with
  | nil => exact coherent
  | cons request rest ih =>
    have first := answerCoherent coherent apart (ordinary request List.mem_cons_self)
      fun c member => listed c (List.mem_append.mpr (.inl member))
    refine ih ⟨first.workspace, first.clipboard⟩ (fun r member => ?_) fun c member => ?_
    · exact ordinary r (List.mem_cons_of_mem _ member)
    · exact listed c (List.mem_append.mpr (.inr member))

theorem cacheCoherent (requests : List Request)
    (ordinary : ∀ request ∈ requests, request.isOrdinary = true)
    (apart : Net.Apart ((start .empty).linksAlong requests)) :
    let w := ((start .empty).run requests).workspace
    let exports := (Exports.collect w.net.includes).1
    w.exports = exports ∧ ∀ id c, w.cache.results.get? id = some c →
      w.net.contains id = true ∧ (Scene.compile ⟨w.net, .standard, exports⟩ id .empty).1 = .ok c := by
  obtain ⟨coherent, _⟩ := runCoherent ⟨Workspace.emptyCoherent _, rfl⟩ apart ordinary
    fun c member => ⟨c, member, rfl, rfl⟩
  refine ⟨coherent.fresh, fun id c found => ?_⟩
  have evaluated := coherent.working.keeps id c found
  rw [Workspace.scene, coherent.registry, coherent.fresh] at evaluated
  obtain ⟨node, present⟩ := (Scene.evaluateFound evaluated).1
  refine ⟨Table.containsIff.mpr ⟨node, Net.nodeFound.mp present⟩, ?_⟩
  exact (Scene.compileMatches (Scene.emptyWorking _) id).1.trans evaluated

def productRequests : List Request := [
  .insertNode (.named "a" "float"), .addNode "time" .origin, .addNode "multiply" .origin,
  .addConnections [.between ⟨"a", "out"⟩ ⟨"multiply_1", "a"⟩,
    .between ⟨"time_1", "out"⟩ ⟨"multiply_1", "b"⟩],
  .addConnection ⟨"multiply_1", "out"⟩ ⟨"missing", "a"⟩,
  .compile "multiply_1",
  .setParameter "a" "value" (.number (.ofInt 2)),
  .compile "multiply_1",
  .load ⟨1, [], [.named "a" "float", .named "multiply_1" "multiply", .named "n" "negate"],
    [.between ⟨"a", "out"⟩ ⟨"multiply_1", "a"⟩, .between ⟨"a", "out"⟩ ⟨"n", "a"⟩], ∅⟩,
  .compile "n"]

theorem cacheCoherentProduct :
    ((∀ request ∈ productRequests, request.isOrdinary = true) ∧
      Net.Apart ((start .empty).linksAlong productRequests)) ∧
    let w := ((start .empty).run productRequests).workspace
    let exports := (Exports.collect w.net.includes).1
    w.cache.results.keys = ["a", "n"] ∧ w.exports = exports ∧
    ∀ id c, w.cache.results.get? id = some c →
      w.net.contains id = true ∧ (Scene.compile ⟨w.net, .standard, exports⟩ id .empty).1 = .ok c := by
  have ordinary : ∀ request ∈ productRequests, request.isOrdinary = true := by decide +kernel
  have apart : Net.Apart ((start .empty).linksAlong productRequests) := by decide +kernel
  exact ⟨⟨ordinary, apart⟩, by decide +kernel, cacheCoherent productRequests ordinary apart⟩

end Session
end ShaderNet
