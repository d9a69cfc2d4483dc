import ShaderNet.Proofs.Evaluate.Renewal
import ShaderNet.Proofs.Evaluate.Upstream
import ShaderNet.Proofs.NodeKind.Offered

/-! What nodes declare against what they are made to. A node that can be made declares its outputs,
and one that is described without an error can be made. -/
namespace ShaderNet
open Relation (ReflTransGen)

namespace Scene

structure Regular (scene : Scene) : Prop where
  kinds : ∀ type kind, scene.registry.kind type = .ok kind → kind.isDecided = true
  uniforms : ∀ id u, scene.net.uniforms.get? id = some u → u.type.isRegular = true
  exports : ∀ name f, scene.exports.get? name = some f → ∀ t, f.output = some t → t.isRegular = true

variable {scene : Scene}

theorem madeParts {produce : String → Except Failure Compiled} {id : String} {c : Compiled}
    (ok : scene.made produce id = .ok c) : ∃ node kind, scene.net.node id = .ok node ∧
      scene.registry.kind node.type = .ok kind ∧
      (kind.compile scene.surroundings node).follow (scene.input produce node none) = .ok c := by
  unfold made at ok
  split at ok
  · cases ok
  · rename_i node found
    split at ok
    · cases ok
    · rename_i kind known
      exact ⟨node, kind, found, known, ok⟩

theorem inputFed {produce : String → Except Failure Compiled} {node : Node} {detached : Option String}
    {name : String} {e : Expression} (ok : scene.input produce node detached name = .ok (some e)) :
    ∃ c result, scene.net.feeder? ⟨node.id, name⟩ = some c ∧ produce c.source.node = .ok result ∧
      result.outputs.get? c.source.name = some e := by
  unfold input at ok
  split at ok
  · cases ok
  · split at ok
    · cases ok
    · rename_i c fed
      split at ok
      · cases ok
      · rename_i result produced
        split at ok
        · rename_i found
          cases ok
          exact ⟨c, result, fed, produced, found⟩
        · cases ok

section Regular

variable (regular : scene.Regular)
include regular

theorem madeOffers {produce : String → Except Failure Compiled} {id : String} {c : Compiled}
    (produced : ∀ source result, produce source = .ok result →
      ∀ socket e, result.outputs.get? socket = some e → e.type.isRegular = true)
    (ok : scene.made produce id = .ok c) : ∃ node kind sockets, scene.net.node id = .ok node ∧
      scene.registry.kind node.type = .ok kind ∧
      (kind.sockets scene.surroundings node).follow (scene.input produce node none) = .ok sockets ∧
      sockets.Offers kind.chosen c := by
  obtain ⟨node, kind, found, known, followed⟩ := madeParts ok
  have fed : ∀ name e, scene.input produce node none name = .ok (some e) →
      e.type.isRegular = true := by
    intro name e told
    obtain ⟨c, result, _, made, output⟩ := inputFed told
    exact produced _ result made _ e output
  obtain ⟨sockets, declared, offers⟩ := NodeKind.compileOffers fed (regular.kinds _ _ known)
    regular.uniforms regular.exports followed
  exact ⟨node, kind, sockets, found, known, declared, offers⟩

theorem attemptRegular {depth : Nat} {id : String} {c : Compiled} (ok : scene.attempt depth id = .ok c) :
    ∀ socket e, c.outputs.get? socket = some e → e.type.isRegular = true := by
  induction depth generalizing id c with
  | zero => cases ok
  | succ depth ih =>
    obtain ⟨_, _, sockets, _, _, _, offers⟩ := madeOffers regular (fun _ _ => ih) ok
    exact fun socket e found => offers.output found

theorem evaluateOffers {id : String} {c : Compiled} (ok : scene.evaluate [] id = .ok c) :
    ∃ node kind sockets, scene.net.node id = .ok node ∧ scene.registry.kind node.type = .ok kind ∧
      (kind.sockets scene.surroundings node).follow
        (scene.input (scene.evaluate []) node none) = .ok sockets ∧
      sockets.Offers kind.chosen c :=
  madeOffers regular (fun _ _ made => attemptRegular regular (attemptOfEvaluate made))
    (evaluateIffMade.mp ok)

end Regular

/-! Descriptions -/

theorem withOrphansKeeps (scene : Scene) (d : Description) :
    (scene.withOrphans d).id = d.id ∧ (scene.withOrphans d).error = d.error := by
  unfold withOrphans
  split <;> exact ⟨rfl, rfl⟩

theorem orphansTell {d : Description} {fine : Prop} (error : d.error = none ↔ fine) :
    ∃ d', (.ok (scene.withOrphans d) : Except Failure Description) = .ok d' ∧ d'.id = d.id ∧
      (d'.error = none ↔ fine) := by
  obtain ⟨named, same⟩ := withOrphansKeeps scene d
  exact ⟨_, rfl, named, same ▸ error⟩

/- A description fails for no node, and names what goes wrong first. -/
theorem describeTells {id : String} {node : Node} (found : scene.net.node id = .ok node) (cache : Cache) :
    ∃ d, (scene.describe id cache).1 = .ok d ∧ d.id = id ∧
      (d.error = none ↔ ∃ kind sockets c, scene.registry.kind node.type = .ok kind ∧
        (scene.sockets kind node none cache).1 = .ok sockets ∧
        (scene.compile id (scene.sockets kind node none cache).2).1 = .ok c) := by
  simp only [describe, found]
  cases known : scene.registry.kind node.type with
  | error e => exact orphansTell (by simp)
  | ok kind =>
    dsimp only
    cases declared : scene.sockets kind node none cache with
    | mk answer after =>
      cases answer with
      | error e => exact orphansTell (by simp [declared])
      | ok sockets =>
        dsimp only
        cases compiled : scene.compile id after with
        | mk result last => cases result <;> exact orphansTell (by simp [declared, compiled])

section Sound

variable (sound : scene.net.Sound) (regular : scene.Regular)
include sound regular

theorem describeRight {id : String} {node : Node} (found : scene.net.node id = .ok node) {cache : Cache}
    (idle : cache.stack = []) : ∃ d, (scene.describe id cache).1 = .ok d ∧ d.id = id ∧
      (scene.KeepsOn (ReflTransGen scene.net.Feeds · id) cache.results →
        (d.error = none ↔ ∃ c, scene.evaluate [] id = .ok c)) := by
  obtain ⟨d, told, named, error⟩ := describeTells found cache
  refine ⟨d, told, named, fun keeps => error.trans ⟨?_, ?_⟩⟩
  · rintro ⟨kind, sockets, c, _, _, compiled⟩
    rw [(upstreamSockets sound idle keeps kind none found).2] at compiled
    exact ⟨c, compiled⟩
  · rintro ⟨c, made⟩
    obtain ⟨node', kind, sockets, found', known, declared, _⟩ := evaluateOffers regular made
    cases found.symm.trans found'
    obtain ⟨shown, next⟩ := upstreamSockets sound idle keeps kind none found
    exact ⟨kind, sockets, c, known, shown.trans declared, next.trans made⟩

theorem describeAllRight {ids : List String} (there : ∀ id ∈ ids, scene.net.contains id = true)
    {cache : Cache} (idle : cache.stack = []) :
    ∃ ds, (scene.describeAll ids cache).1 = .ok ds ∧ List.Forall₂ (fun id d => d.id = id ∧
      (scene.KeepsOn (ReflTransGen scene.net.Feeds · id) cache.results →
        (d.error = none ↔ ∃ c, scene.evaluate [] id = .ok c))) ids ds := by
  induction ids generalizing cache with
  | nil => exact ⟨[], rfl, .nil⟩
  | cons id rest ih =>
    obtain ⟨here, others⟩ := List.forall_mem_cons.mp there
    obtain ⟨node, present⟩ := Table.containsIff.mp here
    obtain ⟨d, told, described⟩ := describeRight sound regular (Net.nodeFound.mpr present) idle
    have stack := @describeKeeps scene (fun s => s.stack = []) cache
      (fun k s idle => (compileRemade scene k idle).stack.trans idle) id idle
    have keeps : ∀ k, scene.KeepsOn (ReflTransGen scene.net.Feeds · k) cache.results →
        scene.KeepsOn (ReflTransGen scene.net.Feeds · k) (scene.describe id cache).2.results :=
      fun k => @describeKeeps scene (fun s => scene.KeepsOn (ReflTransGen scene.net.Feeds · k) s.results)
        cache (fun j s good =>
          (compileWithinKeepsOn sound (scene.net.upstreamFedWithin k) _ j s good).1) id
    obtain ⟨ds, told', described'⟩ := ih others stack
    refine ⟨d :: ds, ?_, .cons described (described'.imp fun k d' right => ?_)⟩
    · unfold describeAll
      rcases first : scene.describe id cache with ⟨answer, after⟩
      rw [first] at told told'
      cases told
      dsimp only
      rcases next : scene.describeAll rest after with ⟨answer, last⟩
      rw [next] at told'
      cases told'
      rfl
    · exact ⟨right.1, fun good => right.2 (keeps k good)⟩

end Sound
end Scene
end ShaderNet
