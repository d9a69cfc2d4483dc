import ShaderNet.Proofs.Evaluate.CacheGrowth
import ShaderNet.Proofs.Net.Order
import ShaderNet.Proofs.NodeKind.Mentions

/-! Caches that refer to nothing they do not hold. A node is compiled after all nodes that its text
refers to, and what it refers to stays with it. -/
namespace ShaderNet
open Fragment (Clear)
open Relation

/- What a recipe ensures when its questions are answered one after another, from states that never
take back what they granted. -/
theorem Recipe.runEnsures {α σ : Type} {answer : String → σ → Except Failure (Option Expression) × σ}
    {good : σ → Prop} (given : σ → Expression → Prop) (later : σ → σ → Prop)
    (refl : ∀ s, later s s) (trans : ∀ s t u, later s t → later t u → later s u)
    (lasting : ∀ s t e, later s t → given s e → given t e)
    (step : ∀ name s, good s → good (answer name s).2 ∧ later s (answer name s).2 ∧
      ∀ e, (answer name s).1 = .ok (some e) → given (answer name s).2 e)
    (r : Recipe α) {s : σ} (start : good s) :
    good (r.run answer s).2 ∧ later s (r.run answer s).2 ∧ ∀ result post,
      (r.run answer s).1 = .ok result → r.Ensures (given (r.run answer s).2) post → post result := by
  induction r generalizing s with
  | done a =>
    refine ⟨start, refl s, fun result post ok ensures => ?_⟩
    cases ok
    exact ensures
  | fail e => exact ⟨start, refl s, fun _ _ impossible => by cases impossible⟩
  | ask name next ih =>
    obtain ⟨good', onward, granted⟩ := step name s start
    simp only [run]
    cases answered : answer name s with
    | mk e mid =>
      rw [answered] at good' onward granted
      cases e with
      | error e => exact ⟨good', onward, fun _ _ impossible => by cases impossible⟩
      | ok e =>
        obtain ⟨good'', onward', ensured⟩ := ih e good'
        refine ⟨good'', trans _ _ _ onward onward', fun result post ok ensures => ?_⟩
        refine ensured result post ok (ensures e fun e' same => ?_)
        exact lasting _ _ _ onward' (granted e' (congrArg Except.ok same))

namespace Scene

def Declares (results : Table String Compiled) (id name : String) : Prop :=
  ∃ c, results.get? id = some c ∧ name ∈ c.bindings.map Binding.name

def Upstream (net : Net) (results : Table String Compiled) (id name : String) : Prop :=
  ∃ u, TransGen net.Feeds u id ∧ Declares results u name

def SelfContained (net : Net) (results : Table String Compiled) : Prop :=
  ∀ id c, results.get? id = some c → c.Refers (Upstream net results id) id

def Within (old new : Table String Compiled) : Prop :=
  ∀ k c, old.get? k = some c → new.get? k = some c

def Vacant (cache : Cache) : Prop := ∀ k ∈ cache.stack, cache.results.get? k = none

structure Orderly (net : Net) (cache : Cache) : Prop where
  contained : SelfContained net cache.results
  absent : ∀ k ∈ cache.stack, cache.results.get? k = none

variable {net : Net} {old new : Table String Compiled} {id : String}

theorem withinRefl (results : Table String Compiled) : Within results results :=
  fun _ _ found => found

theorem Within.trans {mid : Table String Compiled} (first : Within old mid)
    (second : Within mid new) : Within old new :=
  fun k c found => second k c (first k c found)

theorem Within.upstream (within : Within old new) {name : String} (known : Upstream net old id name) :
    Upstream net new id name := by
  obtain ⟨u, path, c, found, member⟩ := known
  exact ⟨u, path, c, within u c found, member⟩

theorem refersWithin (within : Within old new) {c : Compiled}
    (refers : c.Refers (Upstream net old id) id) : c.Refers (Upstream net new id) id :=
  refers.mono fun _ => within.upstream

theorem withinInsert (absent : old.get? id = none) (c : Compiled) : Within old (old.insert id c) := by
  intro k d found
  rw [Table.getInsert, if_neg fun same => ?_]
  · exact found
  · rw [← same, absent] at found
    cases found

/- A result that was not kept before joins what it was made from. -/
theorem storeContained {results : Table String Compiled} (contained : SelfContained net results)
    (absent : results.get? id = none) {c : Compiled} (refers : c.Refers (Upstream net results id) id) :
    SelfContained net (results.insert id c) ∧ Within results (results.insert id c) := by
  have within := withinInsert absent c
  refine ⟨fun k d found => ?_, within⟩
  rw [Table.getInsert] at found
  split at found
  · rename_i same
    cases found
    cases same
    exact refersWithin within refers
  · exact refersWithin within (contained k d found)

structure Extended (net : Net) (id : String) (old : Cache) (r : Except Failure Compiled × Cache) :
    Prop where
  orderly : Orderly net r.2
  within : Within old.results r.2.results
  stack : r.2.stack = old.stack
  kept : ∀ c, r.1 = .ok c → r.2.results.get? id = some c

variable {scene : Scene}

section Answers

variable {compile : String → Cache → Except Failure Compiled × Cache} (sound : scene.net.Sound)
  (tidies : ∀ id cache, Orderly scene.net cache → Extended scene.net id cache (compile id cache))
  (node : Node)
include sound tidies

/- The expression that feeds an input refers to what is kept upstream of the node. -/
theorem answerExtended {cache : Cache} (orderly : Orderly scene.net cache) (name : String) :
    let r := scene.answer compile node none name cache
    (Orderly scene.net r.2 ∧ r.2.stack = cache.stack) ∧ Within cache.results r.2.results ∧
      ∀ e, r.1 = .ok (some e) → Clear (Upstream scene.net r.2.results node.id) e.text := by
  dsimp only
  rcases answerCases compile node none name cache with ⟨same, _⟩ | ⟨c, fed, same, source⟩
  · rw [same]
    exact ⟨⟨orderly, rfl⟩, withinRefl _, fun _ impossible => nomatch impossible⟩
  · have extended := tidies c.source.node cache orderly
    rw [same]
    refine ⟨⟨extended.orderly, extended.stack⟩, extended.within, fun e ok => ?_⟩
    obtain ⟨result, compiled, output, _⟩ := source (some e) ok
    obtain ⟨member, target⟩ := (Net.feederIff sound.toIndexed).mp fed
    have feeds : scene.net.Feeds c.source.node node.id := ⟨c, member, rfl, by rw [target]⟩
    have found := extended.kept result compiled
    refine ((extended.orderly.contained _ result found).outputs _ e output).mono ?_
    rintro name (⟨u, path, declared⟩ | own)
    · exact ⟨u, path.tail feeds, declared⟩
    · exact ⟨_, .single feeds, result, found, own⟩

theorem runExtended {α : Type} (r : Recipe α) {cache : Cache} (orderly : Orderly scene.net cache) :
    let after := (r.run (scene.answer compile node none) cache).2
    (Orderly scene.net after ∧ after.stack = cache.stack) ∧
      Within cache.results after.results ∧ ∀ result post,
        (r.run (scene.answer compile node none) cache).1 = .ok result →
        r.Ensures (fun e => Clear (Upstream scene.net after.results node.id) e.text) post →
        post result := by
  have step : ∀ name (s : Cache), (Orderly scene.net s ∧ s.stack = cache.stack) →
      let r := scene.answer compile node none name s
      (Orderly scene.net r.2 ∧ r.2.stack = cache.stack) ∧ Within s.results r.2.results ∧
        ∀ e, r.1 = .ok (some e) → Clear (Upstream scene.net r.2.results node.id) e.text := by
    intro name s ⟨orderly, same⟩
    obtain ⟨⟨orderly', stack⟩, told⟩ := answerExtended sound tidies node orderly name
    exact ⟨⟨orderly', stack.trans same⟩, told⟩
  exact r.runEnsures (fun (s : Cache) e => Clear (Upstream scene.net s.results node.id) e.text)
    (fun s t => Within s.results t.results) (fun s => withinRefl s.results)
    (fun _ _ _ first second => first.trans second)
    (fun _ _ _ within clear => clear.mono fun _ => within.upstream) step ⟨orderly, rfl⟩

end Answers

structure Named (scene : Scene) : Prop where
  kinds : scene.registry.Named
  exports : scene.exports.Named

theorem leaveStack {cache after : Cache} (stack : after.stack = (cache.enter id).stack) :
    after.leave.stack = cache.stack := by
  simp [Cache.leave, Cache.enter, stack]

section Vacant

variable {cache after : Cache}

theorem idleVacant (idle : cache.stack = []) : Vacant cache := by
  intro k member
  rw [idle] at member
  cases member

theorem enterVacant (vacant : Vacant cache) (absent : cache.results.get? id = none) :
    Vacant (cache.enter id) := by
  intro k member
  rcases List.mem_append.mp member with member | member
  · exact vacant k member
  · exact List.mem_singleton.mp member ▸ absent

theorem enteredAbsent (vacant : Vacant after) (stack : after.stack = (cache.enter id).stack) :
    after.results.get? id = none :=
  vacant id (stack ▸ List.mem_append_right _ List.mem_cons_self)

theorem leaveVacant (vacant : Vacant after) (stack : after.stack = (cache.enter id).stack) :
    Vacant after.leave := by
  intro k member
  rw [leaveStack stack] at member
  exact vacant k (stack ▸ List.mem_append_left _ member)

theorem storeVacant (vacant : Vacant after) (stack : after.stack = (cache.enter id).stack)
    (idle : id ∉ cache.stack) (result : Compiled) : Vacant (after.leave.store id result) := by
  intro k member
  refine (Table.getInsert ..).trans ((if_neg fun same => idle ?_).trans
    (leaveVacant vacant stack k member))
  rw [same, ← leaveStack stack]
  exact member

end Vacant

theorem storedExtended {cache after : Cache} {result : Compiled} (orderly : Orderly net after)
    (stack : after.stack = (cache.enter id).stack) (within : Within cache.results after.results)
    (idle : id ∉ cache.stack) (refers : result.Refers (Upstream net after.results id) id) :
    Extended net id cache (.ok result, after.leave.store id result) := by
  obtain ⟨contained, stored⟩ :=
    storeContained orderly.contained (enteredAbsent orderly.absent stack) refers
  refine ⟨⟨contained, storeVacant orderly.absent stack idle result⟩, within.trans stored,
    leaveStack stack, fun c same => ?_⟩
  cases same
  exact (Table.getInsert ..).trans (if_pos rfl)

theorem compileWithinExtended (sound : scene.net.Sound) (named : scene.Named) (budget : Nat)
    (id : String) (cache : Cache) (orderly : Orderly scene.net cache) :
    Extended scene.net id cache (scene.compileWithin budget id cache) := by
  induction budget using Nat.strongRecOn generalizing id cache with
  | ind budget ih =>
    rcases scene.compileWithinCases budget id cache with
      ⟨e, same⟩ | ⟨result, kept, same⟩ | ⟨less, node, kind, within, found, known, absent, idle, ran⟩
    · rw [same]
      exact ⟨orderly, withinRefl _, rfl, fun _ impossible => nomatch impossible⟩
    · rw [same]
      exact ⟨orderly, withinRefl _, rfl, fun _ same => Except.ok.inj same ▸ kept⟩
    · obtain ⟨rfl, _⟩ := Net.nodePresent sound found
      have entered : Orderly scene.net (cache.enter node.id) :=
        ⟨orderly.contained, enterVacant orderly.absent absent⟩
      obtain ⟨⟨orderly', stack⟩, within', ensured⟩ :=
        runExtended sound (ih less within) node (kind.compile scene.surroundings node) entered
      rcases ran with ⟨result, after, ran, same⟩ | ⟨e, after, ran, same⟩
      · rw [ran] at orderly' stack within' ensured
        rw [same]
        have refers : result.Refers (Upstream scene.net after.results node.id) node.id :=
          ensured result _ rfl (NodeKind.compileEnsures (named.kinds _ _ known) named.exports node)
        exact storedExtended orderly' stack within' idle refers
      · rw [ran] at orderly' stack within'
        rw [same]
        exact ⟨⟨orderly'.contained, leaveVacant orderly'.absent stack⟩, within', leaveStack stack,
          fun _ impossible => nomatch impossible⟩

structure Settled (net : Net) (cache : Cache) : Prop where
  contained : SelfContained net cache.results
  idle : cache.stack = []

theorem compileExtended (sound : scene.net.Sound) (named : scene.Named) {cache : Cache}
    (settled : Settled scene.net cache) (id : String) :
    Extended scene.net id cache (scene.compile id cache) :=
  compileWithinExtended sound named _ id cache ⟨settled.contained, idleVacant settled.idle⟩

theorem compileSettled (sound : scene.net.Sound) (named : scene.Named) (id : String) (cache : Cache)
    (settled : Settled scene.net cache) : Settled scene.net (scene.compile id cache).2 := by
  have extended := compileExtended sound named settled id
  exact ⟨extended.orderly.contained, extended.stack.trans settled.idle⟩

end Scene
end ShaderNet
