import ShaderNet.Proofs.Session.Load
import ShaderNet.Proofs.Session.Sound
import ShaderNet.Proofs.Workspace.Accounts

/-! Whoever watches a session can follow its net by what it is told: the changes that a request is
answered account for everything that the request did. -/
namespace ShaderNet

namespace Net

/-- The second net is the first one after some changes, and would be the first one if there were
none. -/
structure Accounted (n m : Net) (c : Changes) : Prop where
  connections : (n.connectionList ++ c.addedConnections).Perm
    (m.connectionList ++ c.removedConnections)
  order : m.order = n.order.filter (fun id => id ∉ c.removedNodes) ++ c.addedNodes.map Node.id
  uniforms : m.uniforms =
    (n.uniforms.filter fun p => p.1 ∉ c.removedUniforms).overlay c.updatedUniforms.entries
  includes : m.includes.map Include.path =
    (n.includes.map Include.path).filter (fun path => path ∉ c.removedIncludes) ++ c.addedIncludes
  modified : ∀ id a b, n.node? id = some a → m.node? id = some b → a ≠ b → id ∈ c.modifiedNodes
  unchanged : c.isEmpty = true → m.nodes = n.nodes ∧ m.order = n.order ∧
    m.connections = n.connections ∧ m.uniforms = n.uniforms ∧
    m.includes.map Include.path = n.includes.map Include.path

variable {n m : Net} {c : Changes}

theorem Balanced.uniformTable (balanced : Balanced n m c) : m.uniforms =
    (n.uniforms.filter fun p => p.1 ∉ c.removedUniforms).overlay c.updatedUniforms.entries := by
  refine Table.ext fun id => ?_
  rw [balanced.uniforms, Table.getOverlayTable, Table.getFilter]
  congr 1
  by_cases removed : id ∈ c.removedUniforms <;> cases n.uniforms.get? id <;>
    simp [Option.filter, removed]

theorem connectionsOfPerm (left : Indexed n) (right : Indexed m)
    (same : n.connectionList.Perm m.connectionList) : m.connections = n.connections := by
  refine Table.ext fun id => Option.ext fun link => ?_
  constructor
  · intro found
    obtain rfl := right.connectionKeys id link found
    exact (memConnections left).mp (same.mem_iff.mpr ((memConnections right).mpr found))
  · intro found
    obtain rfl := left.connectionKeys id link found
    exact (memConnections right).mp (same.mem_iff.mp ((memConnections left).mpr found))

theorem Balanced.unchanged (balanced : Balanced n m c) (before : Sound n) (after : Sound m)
    (empty : c.isEmpty = true) : m.nodes = n.nodes ∧ m.order = n.order ∧
      m.connections = n.connections ∧ m.uniforms = n.uniforms ∧
      m.includes.map Include.path = n.includes.map Include.path := by
  simp only [Changes.isEmpty, Bool.and_eq_true, List.isEmpty_iff, Table.isEmptyIff] at empty
  obtain ⟨⟨⟨⟨⟨⟨⟨⟨⟨⟨added, removed⟩, modified⟩, linked⟩, unlinked⟩, _⟩, updated⟩, unset⟩, included⟩,
    excluded⟩, _⟩ := empty
  refine ⟨Table.ext fun id => ?_, ?_, connectionsOfPerm before.toIndexed after.toIndexed ?_,
    Table.ext fun id => ?_, ?_⟩
  · exact balanced.nodes id (by simp [removed]) (by simp [modified]) (by simp [added])
  · simpa [removed, added] using balanced.order
  · simpa [linked, unlinked] using balanced.connections
  · simpa [updated, unset] using balanced.uniforms id
  · simpa [included, excluded] using balanced.includes

end Net

namespace Session
open Workspace

variable {s : Session} {used : List Connection} {c : Changes}

theorem afterEditTold {r : Except Failure Changes × Workspace}
    (told : (s.afterEdit r).1 = .ok (.changes c)) : r.1 = .ok c := by
  obtain ⟨_ | changes, w⟩ := r
  · cases told
  · cases told
    rfl

/- Questions are not answered with changes. -/
theorem mapUntold {α : Type} (reply : α → Reply) (other : ∀ a, reply a ≠ .changes c)
    {answer : Except Failure α} : answer.map reply ≠ .ok (.changes c) := by
  cases answer with
  | error e => exact fun told => nomatch told
  | ok a => exact fun told => other a (Except.ok.inj told)

theorem answerBalanced (charted : s.workspace.net.Charted used) (apart : Net.Apart used)
    {request : Request} (listed : ∀ c ∈ s.links request, Net.Listed used c)
    (told : (s.answer request).1 = .ok (.changes c)) :
    s.workspace.net.Balanced (s.answer request).2.workspace.net c := by
  cases request with
  | addNode type position => exact addNodeBalanced charted (afterEditTold told)
  | insertNode node => exact insertNodeBalanced charted (afterEditTold told)
  | insertNodes nodes => exact insertNodesBalanced charted (afterEditTold told)
  | removeNode id => exact removeNodeBalanced charted (afterEditTold told)
  | removeNodes ids => exact removeNodesBalanced charted (afterEditTold told)
  | addConnection source target =>
    exact addConnectionBalanced charted apart (listed _ (List.mem_singleton.mpr rfl)) (afterEditTold told)
  | addConnections cs =>
    cases told
    exact addConnectionsBalanced charted apart listed
  | removeConnection id =>
    cases told
    exact removeConnectionBalanced charted id
  | removeConnections ids =>
    cases told
    exact removeConnectionsBalanced charted ids
  | setParameter id name value => exact setParameterBalanced charted (afterEditTold told)
  | moveNode id dx dy => exact moveNodeBalanced charted (afterEditTold told)
  | addInclude path => exact addIncludeBalanced charted (afterEditTold told)
  | removeInclude path =>
    cases told
    exact removeIncludeBalanced charted path
  | setUniform u =>
    cases told
    exact setUniformBalanced charted u
  | setUniforms us =>
    cases told
    exact setUniformsBalanced charted us
  | removeUniform id =>
    cases told
    exact removeUniformBalanced charted id
  | removeUniforms ids =>
    cases told
    exact removeUniformsBalanced charted ids
  | load d =>
    cases told
    exact loadBalanced charted listed
  | paste d dx dy =>
    cases told
    exact pasteBalanced charted apart listed
  | pasteClipboard dx dy =>
    cases told
    exact pasteBalanced charted apart listed
  | copy ids =>
    unfold answer at told
    dsimp only at told
    split at told <;> cases told
  | compile id =>
    unfold answer at told
    dsimp only at told
    split at told <;> cases told
  | shader id => exact absurd told (mapUntold Reply.shader fun _ same => nomatch same)
  | canConnect source target => exact absurd told (mapUntold Reply.verdict fun _ same => nomatch same)
  | describe ids => exact absurd told (mapUntold Reply.descriptions fun _ same => nomatch same)
  | useOptions options => cases told
  | useSources sources => cases told
  | useRegistry start types =>
    unfold answer at told
    dsimp only at told
    split at told <;> cases told

theorem changesAccount (requests : List Request) (request : Request) (c : Changes)
    (apart : Net.Apart (((start .empty).run requests).workspace.net.connectionList ++
      ((start .empty).run requests).links request))
    (told : (((start .empty).run requests).handle request).1 = .ok (.changes c)) :
    ((start .empty).run requests).workspace.net.Accounted
      (((start .empty).run requests).handle request).2.workspace.net c := by
  have fresh : (start .empty).workspace.net.Sound := Net.emptySound
  have before := runSound fresh requests
  have after := answerSound before request
  have balanced := answerBalanced
    ⟨before, fun c member => Net.listedMember (List.mem_append_left _ member)⟩ apart
    (fun c member => Net.listedMember (List.mem_append_right _ member)) told
  exact ⟨balanced.connections, balanced.order, balanced.uniformTable, balanced.includes,
    fun _ _ _ => balanced.modified before after, balanced.unchanged before after⟩

def negatedChanges : Changes := (((start .empty).run sumRequests).workspace.load negatedSum).2

theorem changesAccountSum :
    (Net.Apart (((start .empty).run sumRequests).workspace.net.connectionList ++
        negatedSum.connections) ∧
      (((start .empty).run sumRequests).handle (.load negatedSum)).1 = .ok (.changes negatedChanges)) ∧
    (negatedChanges.addedNodes.map Node.id = ["n"] ∧ negatedChanges.removedNodes = ["a"] ∧
      negatedChanges.modifiedNodes = ["u"] ∧ negatedChanges.updatedUniforms.keys = ["bias"] ∧
      negatedChanges.removedUniforms = ["gain"] ∧ negatedChanges.addedIncludes = ["blur.glsl"] ∧
      negatedChanges.removedIncludes = ["noise.glsl"]) ∧
    ((start .empty).run sumRequests).workspace.net.Accounted
      (((start .empty).run sumRequests).handle (.load negatedSum)).2.workspace.net negatedChanges := by
  have apart : Net.Apart (((start .empty).run sumRequests).workspace.net.connectionList ++
      negatedSum.connections) := by decide +kernel
  have told (s : Session) (d : Document) :
      (s.handle (.load d)).1 = .ok (.changes (s.workspace.load d).2) := rfl
  exact ⟨⟨apart, told _ _⟩, by decide +kernel,
    changesAccount sumRequests (.load negatedSum) negatedChanges apart (told _ _)⟩

end Session
end ShaderNet
