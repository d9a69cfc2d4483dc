import ShaderNet.Proofs.Evaluate.SelfContained
import ShaderNet.Proofs.NodeKind.Yields

/-! Properties of results. What every recipe ensures from inputs that have it holds of all that a
compilation keeps and delivers, as long as it held of what was kept before. -/
namespace ShaderNet.Scene

def Each (good : String → Compiled → Prop) (results : Table String Compiled) : Prop :=
  ∀ id c, results.get? id = some c → good id c

/-- Every node is made to a good result from what good results deliver. -/
structure Passes (scene : Scene) (given : String → Expression → Prop)
    (good : String → Compiled → Prop) : Prop where
  made : ∀ id node kind, scene.net.node id = .ok node → scene.registry.kind node.type = .ok kind →
    (kind.compile scene.surroundings node).Ensures (given node.id) (good id)
  delivered : ∀ id name c result e, scene.net.feeder? ⟨id, name⟩ = some c →
    good c.source.node result → result.outputs.get? c.source.name = some e → given id e

variable {scene : Scene} {given : String → Expression → Prop} {good : String → Compiled → Prop}
  {cache : Cache}

theorem passesAll {given : Expression → Prop} {bound : Binding → Prop}
    (forms : ∀ node kind e, scene.registry.kind node.type = .ok kind →
      kind.Yields scene.surroundings node given e → given e)
    (binds : ∀ node b, NodeKind.BindsFed node given b → bound b) :
    scene.Passes (fun _ => given) fun _ => Compiled.All bound given where
  made := fun _ node kind _ known => NodeKind.compileAll (fun e => forms node kind e known) (binds node)
  delivered := fun _ _ c _ e _ all found => all.outputs c.source.name e found

/- Nothing is asked of other nodes, and nothing is told of them. -/
theorem Passes.within {given : Expression → Prop} {good : Compiled → Prop}
    (passes : scene.Passes (fun _ => given) fun _ => good) (sound : scene.net.Sound)
    {inside : String → Prop} (within : scene.net.FedWithin inside) :
    scene.Passes (fun id e => inside id → given e) fun id c => inside id → good c where
  made := fun id node kind found known => by
    obtain ⟨rfl, _⟩ := Net.nodePresent sound found
    by_cases here : inside node.id
    · simpa only [here, forall_const] using passes.made node.id node kind found known
    · exact Recipe.ensuresMono (Recipe.ensuresNothing _ _) fun _ _ inside => absurd inside here
  delivered := fun id name c result e fed good found here =>
    passes.delivered id name c result e fed (good (within.feeder sound.toIndexed here fed)) found

theorem emptyEach : Each good ∅ := by
  intro id c found
  cases found

theorem storeEach (each : Each good cache.results) {id : String} {result : Compiled}
    (made : good id result) : Each good (cache.store id result).results := by
  intro k c found
  rw [Cache.store, Table.getInsert] at found
  split at found
  · rename_i same
    cases found
    exact same ▸ made
  · exact each k c found

theorem dropEach (each : Each good cache.results) (invalidated : KeySet String) :
    Each good (cache.drop invalidated).results := by
  intro id c found
  rw [Cache.drop, Table.getFilter, Option.filter_eq_some_iff] at found
  exact each id c found.1

section Passes

variable (passes : scene.Passes given good)
include passes

theorem answerEach {compile : String → Cache → Except Failure Compiled × Cache}
    (keeps : ∀ id cache, Each good cache.results → Each good (compile id cache).2.results ∧
      ∀ c, (compile id cache).1 = .ok c → good id c)
    (node : Node) (detached : Option String) (name : String) (each : Each good cache.results) :
    Each good (scene.answer compile node detached name cache).2.results ∧
      ∀ e, (scene.answer compile node detached name cache).1 = .ok (some e) →
        given node.id e := by
  rcases answerCases compile node detached name cache with ⟨same, _⟩ | ⟨c, fed, same, source⟩
  · rw [same]
    exact ⟨each, fun _ impossible => by cases impossible⟩
  · obtain ⟨kept, made⟩ := keeps c.source.node cache each
    refine ⟨same ▸ kept, fun e ok => ?_⟩
    obtain ⟨result, compiled, output, _⟩ := source (some e) ok
    exact passes.delivered node.id name c result e fed (made result compiled) output

theorem runEach {compile : String → Cache → Except Failure Compiled × Cache}
    (keeps : ∀ id cache, Each good cache.results → Each good (compile id cache).2.results ∧
      ∀ c, (compile id cache).1 = .ok c → good id c)
    (node : Node) (detached : Option String) {α : Type} (r : Recipe α) (each : Each good cache.results) :
    Each good (r.run (scene.answer compile node detached) cache).2.results ∧
      ∀ result post, (r.run (scene.answer compile node detached) cache).1 = .ok result →
        r.Ensures (given node.id) post → post result := by
  have step : ∀ name cache, Each good cache.results →
      Each good (scene.answer compile node detached name cache).2.results ∧ True ∧
        ∀ e, (scene.answer compile node detached name cache).1 = .ok (some e) →
          given node.id e := by
    intro name cache each
    obtain ⟨kept, granted⟩ := answerEach passes keeps node detached name each
    exact ⟨kept, trivial, granted⟩
  obtain ⟨kept, _, ensured⟩ := Recipe.runEnsures (fun _ => given node.id) (fun _ _ => True)
    (fun _ => trivial) (fun _ _ _ _ _ => trivial) (fun _ _ _ _ now => now) step r each
  exact ⟨kept, ensured⟩

theorem compileWithinEach (budget : Nat) (id : String) (cache : Cache) (each : Each good cache.results) :
    Each good (scene.compileWithin budget id cache).2.results ∧
      ∀ c, (scene.compileWithin budget id cache).1 = .ok c → good id c := by
  induction budget using Nat.strongRecOn generalizing id cache with
  | ind budget ih =>
    rcases scene.compileWithinCases budget id cache with
      ⟨e, same⟩ | ⟨result, kept, same⟩ | ⟨less, node, kind, within, found, known, _, _, ran⟩
    · rw [same]
      exact ⟨each, fun _ impossible => by cases impossible⟩
    · rw [same]
      exact ⟨each, fun c ok => Except.ok.inj ok ▸ each id result kept⟩
    · have entered : Each good (cache.enter id).results := each
      obtain ⟨each', ensured⟩ := runEach passes (ih less within) node none
        (kind.compile scene.surroundings node) entered
      rcases ran with ⟨result, after, ran, same⟩ | ⟨e, after, ran, same⟩ <;>
        rw [ran] at each' ensured <;> rw [same]
      · have made := ensured result (good id) rfl (passes.made id node kind found known)
        exact ⟨storeEach each' made, fun c ok => Except.ok.inj ok ▸ made⟩
      · exact ⟨each', fun _ impossible => by cases impossible⟩

theorem compileEach (id : String) (cache : Cache) (each : Each good cache.results) :
    Each good (scene.compile id cache).2.results ∧
      ∀ c, (scene.compile id cache).1 = .ok c → good id c :=
  compileWithinEach passes _ id cache each

end Passes
end ShaderNet.Scene
