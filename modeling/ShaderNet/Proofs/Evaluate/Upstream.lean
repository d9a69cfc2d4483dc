import ShaderNet.Proofs.Evaluate.Rewire
import ShaderNet.Proofs.Net.Order

/-! What is kept matters upstream only. A node is compiled from what is upstream of it, so results that are
kept of other nodes have no part in it, right or wrong. -/
namespace ShaderNet
open Relation (ReflTransGen)

theorem Recipe.runPaired {α σ τ : Type} {paired : σ → τ → Prop}
    {f : String → σ → Except Failure (Option Expression) × σ}
    {g : String → τ → Except Failure (Option Expression) × τ}
    (answers : ∀ name s t, paired s t →
      (f name s).1 = (g name t).1 ∧ paired (f name s).2 (g name t).2)
    (r : Recipe α) {s : σ} {t : τ} (start : paired s t) :
    (r.run f s).1 = (r.run g t).1 ∧ paired (r.run f s).2 (r.run g t).2 := by
  induction r generalizing s t with
  | done a => exact ⟨rfl, start⟩
  | fail e => exact ⟨rfl, start⟩
  | ask name next ih =>
    obtain ⟨told, now⟩ := answers name s t start
    simp only [run]
    cases left : f name s with
    | mk answer s' =>
      cases right : g name t with
      | mk answer' t' =>
        rw [left, right] at told now
        cases told
        cases answer with
        | ok e => exact ih e now
        | error e => exact ⟨rfl, now⟩

structure Cache.SameOn (inside : String → Prop) (a b : Cache) : Prop where
  stack : a.stack = b.stack
  results : ∀ id, inside id → a.results.get? id = b.results.get? id

theorem Cache.SameOn.leave {inside : String → Prop} {a b : Cache} (same : SameOn inside a b) :
    SameOn inside a.leave b.leave := ⟨congrArg List.dropLast same.stack, same.results⟩

theorem Cache.SameOn.store {inside : String → Prop} {a b : Cache} (same : SameOn inside a b)
    (id : String) (result : Compiled) : SameOn inside (a.store id result) (b.store id result) := by
  refine ⟨same.stack, fun k here => ?_⟩
  rw [Cache.store, Cache.store, Table.getInsert, Table.getInsert, same.results k here]

namespace Scene

variable {scene : Scene} {inside : String → Prop}

section SameOn

variable (sound : scene.net.Sound) (within : scene.net.FedWithin inside)
include sound within

theorem answerSameOn {compile : String → Cache → Except Failure Compiled × Cache}
    (compiles : ∀ id a b, inside id → Cache.SameOn inside a b →
      (compile id a).1 = (compile id b).1 ∧ Cache.SameOn inside (compile id a).2 (compile id b).2)
    {node : Node} (here : inside node.id) (detached : Option String) (name : String) (a b : Cache)
    (same : Cache.SameOn inside a b) :
    (scene.answer compile node detached name a).1 = (scene.answer compile node detached name b).1 ∧
      Cache.SameOn inside (scene.answer compile node detached name a).2
        (scene.answer compile node detached name b).2 := by
  unfold answer
  split
  · exact ⟨rfl, same⟩
  · cases fed : scene.net.feeder? ⟨node.id, name⟩ with
    | none => exact ⟨rfl, same⟩
    | some c =>
      obtain ⟨told, now⟩ := compiles c.source.node a b (within.feeder sound.toIndexed here fed) same
      dsimp only
      cases left : compile c.source.node a with
      | mk result a' =>
        cases right : compile c.source.node b with
        | mk result' b' =>
          rw [left, right] at told now
          cases told
          cases result with
          | error e => exact ⟨rfl, now⟩
          | ok result =>
            dsimp only
            cases result.outputs.get? c.source.name <;> exact ⟨rfl, now⟩

theorem compileWithinSameOn (budget : Nat) (id : String) (a b : Cache) (here : inside id)
    (same : Cache.SameOn inside a b) :
    (scene.compileWithin budget id a).1 = (scene.compileWithin budget id b).1 ∧
      Cache.SameOn inside (scene.compileWithin budget id a).2 (scene.compileWithin budget id b).2 := by
  induction budget generalizing id a b with
  | zero =>
    unfold compileWithin
    cases scene.net.node id with
    | error e => exact ⟨rfl, same⟩
    | ok node =>
      dsimp only
      rw [same.results id here, same.stack]
      cases b.results.get? id with
      | some result => exact ⟨rfl, same⟩
      | none =>
        dsimp only
        split
        · exact ⟨rfl, same⟩
        · cases scene.registry.kind node.type <;> exact ⟨rfl, same⟩
  | succ budget ih =>
    unfold compileWithin
    cases found : scene.net.node id with
    | error e => exact ⟨rfl, same⟩
    | ok node =>
      dsimp only
      rw [same.results id here, same.stack]
      cases b.results.get? id with
      | some result => exact ⟨rfl, same⟩
      | none =>
        dsimp only
        split
        · exact ⟨rfl, same⟩
        · cases scene.registry.kind node.type with
          | error e => exact ⟨rfl, same⟩
          | ok kind =>
            obtain ⟨rfl, _⟩ := Net.nodePresent sound found
            have entered : Cache.SameOn inside (a.enter node.id) (b.enter node.id) :=
              ⟨congrArg (· ++ [node.id]) same.stack, same.results⟩
            obtain ⟨told, now⟩ := Recipe.runPaired
              (answerSameOn sound within ih here none)
              (kind.compile scene.surroundings node) entered
            dsimp only
            split <;> rename_i left <;> rw [left] at told now
            · split <;> rename_i right <;> rw [right] at told now <;> cases told
              exact ⟨rfl, now.leave.store _ _⟩
            · split <;> rename_i right <;> rw [right] at told now <;> cases told
              exact ⟨rfl, now.leave⟩

theorem compileSameOn (id : String) (a b : Cache) (here : inside id)
    (same : Cache.SameOn inside a b) : (scene.compile id a).1 = (scene.compile id b).1 ∧
      Cache.SameOn inside (scene.compile id a).2 (scene.compile id b).2 :=
  compileWithinSameOn sound within _ id a b here same

theorem socketsSameOn (kind : NodeKind) {node : Node} (here : inside node.id)
    (detached : Option String) {a b : Cache} (same : Cache.SameOn inside a b) :
    (scene.sockets kind node detached a).1 = (scene.sockets kind node detached b).1 ∧
      Cache.SameOn inside (scene.sockets kind node detached a).2
        (scene.sockets kind node detached b).2 :=
  Recipe.runPaired (answerSameOn sound within (compileSameOn sound within) here detached)
    (kind.sockets scene.surroundings node) same

end SameOn

def KeepsOn (scene : Scene) (inside : String → Prop) (results : Table String Compiled) : Prop :=
  ∀ id c, inside id → results.get? id = some c → scene.evaluate [] id = .ok c

section KeepsOn

variable (sound : scene.net.Sound) (within : scene.net.FedWithin inside)
include sound within

theorem answerRight {compile : String → Cache → Except Failure Compiled × Cache}
    (right : ∀ id s, scene.KeepsOn inside s.results → inside id →
      ∀ c, (compile id s).1 = .ok c → scene.evaluate [] id = .ok c)
    {node : Node} (here : inside node.id) (name : String) (s : Cache) (e : Option Expression)
    (keeps : scene.KeepsOn inside s.results) (ok : (scene.answer compile node none name s).1 = .ok e) :
    scene.input (scene.evaluate []) node none name = .ok e := by
  rcases answerCases compile node none name s with ⟨same, _, opened⟩ | ⟨c, fed, _, source⟩
  · rw [same] at ok
    cases ok
    exact opened _
  · obtain ⟨result, compiled, _, told⟩ := source e ok
    exact told _ (right c.source.node s keeps (within.feeder sound.toIndexed here fed) result compiled)

/- Whatever is compiled, nothing wrong comes to be kept of nodes that are fed from within. -/
theorem compileWithinKeepsOn (budget : Nat) (id : String) (cache : Cache)
    (keeps : scene.KeepsOn inside cache.results) :
    scene.KeepsOn inside (scene.compileWithin budget id cache).2.results ∧ (inside id →
      ∀ c, (scene.compileWithin budget id cache).1 = .ok c → scene.evaluate [] id = .ok c) := by
  induction budget using Nat.strongRecOn generalizing id cache with
  | ind budget ih =>
    rcases scene.compileWithinCases budget id cache with
      ⟨e, same⟩ | ⟨result, found, same⟩ | ⟨less, node, kind, fewer, found, known, _, _, ran⟩
    · rw [same]
      exact ⟨keeps, fun _ _ impossible => by cases impossible⟩
    · rw [same]
      refine ⟨keeps, fun here c told => ?_⟩
      cases told
      exact keeps id _ here found
    · obtain ⟨rfl, _⟩ := Net.nodePresent sound found
      have entered : scene.KeepsOn inside (cache.enter node.id).results := keeps
      have step : ∀ name (s : Cache), scene.KeepsOn inside s.results → scene.KeepsOn inside
          (scene.answer (scene.compileWithin less) node none name s).2.results := fun name s good =>
        @answerKeeps scene (fun s => scene.KeepsOn inside s.results) s _
          (fun k s good => (ih less fewer k s good).1) node none name good
      have kept := Recipe.runKeeps step (kind.compile scene.surroundings node) entered
      rcases ran with ⟨result, after, ran, same⟩ | ⟨e, after, ran, same⟩ <;> rw [same] <;>
        rw [ran] at kept
      · have made : inside node.id → scene.evaluate [] node.id = .ok result := by
          intro here
          have agree := answerRight sound within (fun k s good => (ih less fewer k s good).2) here
          have followed := (Recipe.runAnswered step agree (kind.compile scene.surroundings node)
            entered (congrArg Prod.fst ran)).1
          refine evaluateOfMade ?_
          simp only [Scene.made, found, known]
          exact followed
        refine ⟨fun k c here found => ?_, fun here c told => ?_⟩
        · rw [Cache.store, Table.getInsert] at found
          split at found
          · rename_i same
            cases found
            exact same ▸ made (same.symm ▸ here)
          · exact kept k c here found
        · cases told
          exact made here
      · exact ⟨kept, fun _ _ impossible => by cases impossible⟩

end KeepsOn

section Upstream

variable {id : String} {cache : Cache}

/- A cache without the results of other nodes. -/
theorem upstreamWorking (sound : scene.net.Sound) (idle : cache.stack = [])
    (keeps : scene.KeepsOn (ReflTransGen scene.net.Feeds · id) cache.results) :
    ∃ trimmed, scene.Working [] trimmed ∧ cache.SameOn (ReflTransGen scene.net.Feeds · id) trimmed := by
  refine ⟨⟨cache.results.filter fun p => p.1 ∈ scene.net.upstreamOrder id, [], []⟩,
    ⟨rfl, fun k c found => ?_⟩, ⟨idle, fun k path => ?_⟩⟩
  · rw [Table.getFilter] at found
    obtain ⟨found, listed⟩ := Option.filter_eq_some_iff.mp found
    exact keeps k c ((Net.memUpstreamOrder sound.toIndexed).mp (by simpa using listed)) found
  · rw [Table.getFilter]
    have listed := (Net.memUpstreamOrder sound.toIndexed).mpr path
    cases cache.results.get? k with
    | none => rfl
    | some c => rw [Option.filter_some, if_pos (by simpa using listed)]

variable (sound : scene.net.Sound) (idle : cache.stack = [])
  (keeps : scene.KeepsOn (ReflTransGen scene.net.Feeds · id) cache.results)
include sound idle keeps

theorem upstreamCompile : (scene.compile id cache).1 = scene.evaluate [] id := by
  obtain ⟨trimmed, working, same⟩ := upstreamWorking sound idle keeps
  rw [(compileSameOn sound (scene.net.upstreamFedWithin id) id cache trimmed .refl same).1]
  exact (compileMatches working id).1

/- The sockets of the node, and the node itself compiled next. -/
theorem upstreamSockets (kind : NodeKind) (detached : Option String) {node : Node}
    (found : scene.net.node id = .ok node) :
    (scene.sockets kind node detached cache).1 = (kind.sockets scene.surroundings node).follow
        (scene.input (scene.evaluate []) node detached) ∧
      (scene.compile id (scene.sockets kind node detached cache).2).1 = scene.evaluate [] id := by
  obtain ⟨trimmed, working, same⟩ := upstreamWorking sound idle keeps
  obtain ⟨rfl, _⟩ := Net.nodePresent sound found
  have within := scene.net.upstreamFedWithin node.id
  obtain ⟨told, next⟩ := socketsSameOn sound within kind .refl detached same
  obtain ⟨told', working'⟩ := socketsMatches working kind node detached
  refine ⟨told.trans told', ?_⟩
  rw [(compileSameOn sound within node.id _ _ .refl next).1]
  exact (compileMatches working' node.id).1

end Upstream
end Scene
end ShaderNet
