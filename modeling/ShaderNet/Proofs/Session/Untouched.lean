import ShaderNet.Proofs.Net.Order
import ShaderNet.Proofs.Net.Untouched
import ShaderNet.Proofs.Session.Duplicate

/-! What was compiled of a node outlasts the loading of a document that leaves the node and all that it
is made from as they are, whatever becomes of the rest of the net. -/
namespace ShaderNet
open Relation (ReflTransGen)

/-- All that a node is made from is in a net what it is in a document, but for places: each node
upstream of it, the connections into that node and the uniform it names. -/
structure Net.SameUpstream (n : Net) (d : Document) (k : String) : Prop where
  nodes : ∀ j, ReflTransGen n.Feeds j k →
    ∃ a b, n.nodes.get? j = some a ∧ b ∈ d.nodes ∧ b.id = j ∧ a.sameContent b = true
  links : ∀ c ∈ n.connectionList, ReflTransGen n.Feeds c.target.node k → Listed d.connections c
  noMore : ∀ c ∈ d.connections, ReflTransGen n.Feeds c.target.node k → Listed n.connectionList c
  uniforms : ∀ j a id, ReflTransGen n.Feeds j k → n.nodes.get? j = some a →
    a.type = "custom_uniform" → (a.parameters.get? "uniform").bind Parameter.text? = some id →
    Option.Rel (fun u v => u.same v = true) (n.uniforms.get? id) (d.uniforms.get? id)

namespace Workspace

variable {d : Document} {kept : String → Prop}

def Action.Passes (d : Document) (kept : String → Prop) (a : Action) : Prop :=
  ∀ w, w.net.Conforms d kept → (a w).1.net.Passed d kept (a w).2.invalidated ∧ (a w).1.cache = w.cache

namespace Action

theorem passesNothing : Passes d kept nothing := fun _ conforms => ⟨conforms.silent rfl, rfl⟩

theorem passesAndThen (a b : Action) (first : Passes d kept a) (second : Passes d kept b) :
    Passes d kept (a.andThen b) := by
  intro w conforms
  obtain ⟨passed, cache⟩ := first w conforms
  obtain ⟨passed', cache'⟩ := second _ passed.toConforms
  refine ⟨⟨passed'.toConforms, fun id inside => ?_⟩, cache'.trans cache⟩
  exact Changes.invalidatedAppendFalse.mpr ⟨passed.untold id inside, passed'.untold id inside⟩

theorem passesEach {α : Type} {items : List α} {action : α → Action}
    (each : ∀ i ∈ items, Passes d kept (action i)) : Passes d kept (Action.each items action) :=
  eachInduct passesNothing passesAndThen each

theorem passesOrWarn {edit : Net → Except Failure (Net × Changes)} (wording : Failure → String)
    (edits : ∀ n after changes, n.Conforms d kept → edit n = .ok (after, changes) →
      after.Passed d kept changes.invalidated) : Passes d kept (orWarn edit wording) := by
  intro w conforms
  unfold orWarn
  cases tried : edit w.net with
  | error e => exact ⟨conforms.silent rfl, rfl⟩
  | ok r => exact ⟨edits _ _ _ conforms tried, rfl⟩

end Action

section Uniforms

variable {id : String} (unnamed : ∀ b ∈ d.nodes, kept b.id → b.type = "custom_uniform" →
    (b.parameters.get? "uniform").bind Parameter.text? ≠ some id)
  (there : ∀ k, kept k → k ∈ d.nodes.map Node.id)
include unnamed there

theorem passedUniforms {w : Workspace} (conforms : w.net.Conforms d kept)
    {uniforms : Table String Uniform} (sound : Net.Sound { w.net with uniforms := uniforms }) :
    Net.Passed d kept { w.net with uniforms := uniforms }
      (Net.downstreamClosure { w.net with uniforms := uniforms }
        (namers w.net "custom_uniform" "uniform" id)) := by
  have outside := Net.namersOutside conforms unnamed there
  have after : Net.Conforms d kept { w.net with uniforms := uniforms } :=
    conforms.fewer sound (fun _ _ found => found) fun _ member => member
  exact after.affecting outside

theorem passesRemovingUniform : (removingUniform id).Passes d kept := by
  intro w conforms
  have sound := Net.removeUniformSound conforms.toSound id
  cases present : w.net.uniforms.contains id with
  | false =>
    simp only [removingUniform, Net.removeUniform, present]
    exact ⟨conforms.silent rfl, trivial⟩
  | true =>
    simp only [Net.removeUniform, present, if_true] at sound
    simp only [removingUniform, Net.removeUniform, present, if_true]
    exact ⟨passedUniforms unnamed there conforms sound, trivial⟩

theorem passesSettingUniform {u : Uniform} (same : u.id = id) : (settingUniform u).Passes d kept := by
  intro w conforms
  subst same
  have sound := Net.setUniformSound conforms.toSound u
  cases same : (w.net.uniform? u.id).any (fun v => v.same u) with
  | true =>
    simp only [settingUniform, Net.setUniform, same, if_true]
    exact ⟨conforms.silent rfl, trivial⟩
  | false =>
    simp only [Net.setUniform, same] at sound
    simp only [settingUniform, Net.setUniform, same]
    exact ⟨passedUniforms unnamed there conforms sound, trivial⟩

end Uniforms

section Load

variable {n : Net} {k : String} (same : n.SameUpstream d k)
include same

theorem upstreamThere (j : String) (path : ReflTransGen n.Feeds j k) : j ∈ d.nodes.map Node.id := by
  obtain ⟨_, b, _, member, rfl, _⟩ := same.nodes j path
  exact List.mem_map.mpr ⟨b, member, rfl⟩

variable (distinct : (d.nodes.map Node.id).Nodup)
include distinct

theorem upstreamConforms (sound : n.Sound) : n.Conforms d (ReflTransGen n.Feeds · k) := by
  refine ⟨sound, fun j a path found b member named => ?_, same.links, fun c member path => ?_⟩
  · obtain ⟨a', b', found', member', named', content⟩ := same.nodes j path
    cases found.symm.trans found'
    rw [List.inj_on_of_nodup_map distinct member member' (named.trans named'.symm)]
    exact content
  · exact .head ⟨c, member, rfl, rfl⟩ path

/- A node upstream names no uniform that differs. -/
theorem upstreamUnnamed {id : String}
    (differs : ¬ Option.Rel (fun u v => u.same v = true) (n.uniforms.get? id) (d.uniforms.get? id)) :
    ∀ b ∈ d.nodes, ReflTransGen n.Feeds b.id k → b.type = "custom_uniform" →
      (b.parameters.get? "uniform").bind Parameter.text? ≠ some id := by
  intro b member path type names
  obtain ⟨a, b', found, member', named, content⟩ := same.nodes b.id path
  have twin : b' = b := List.inj_on_of_nodup_map distinct member' member named
  have becomes : a.Becomes (fun _ => True) b := .inr ⟨twin ▸ content, trivial⟩
  exact differs (same.uniforms b.id a id path found (becomes.type.symm.trans type)
    ((becomes.text "uniform").symm.trans names))

theorem clearingPasses (includes : ∀ path, path ∈ n.includes.map Include.path ↔ path ∈ d.includes) :
    ∀ a ∈ clearing (n.reconcile d), a.Passes d (ReflTransGen n.Feeds · k) := by
  intro a member
  simp only [clearing, List.mem_cons, List.not_mem_nil, or_false] at member
  rcases member with rfl | rfl | rfl | rfl | rfl
  · refine Action.passesEach fun id listed w conforms => ⟨?_, rfl⟩
    have gone := (List.mem_filter.mp listed).2
    refine (Net.removeConnectionPassed conforms fun c member here inside => ?_).2
    obtain ⟨c', incoming, source, target⟩ := conforms.listed c member inside
    have known : id ∈ d.connections.map Connection.id :=
      List.mem_map.mpr ⟨c', incoming, (Net.idOfEnds source target).trans here⟩
    rw [KeySet.containsOfList.mpr known] at gone
    cases gone
  · refine Action.passesEach fun id listed => Action.passesOrWarn _ fun _ _ _ conforms =>
      Net.removeNodePassed conforms fun inside => ?_
    have gone := (List.mem_filter.mp listed).2
    rw [KeySet.containsOfList.mpr (upstreamThere same id inside)] at gone
    cases gone
  · refine Action.passesEach fun id listed =>
      passesRemovingUniform (upstreamUnnamed same distinct fun alike => ?_) (upstreamThere same)
    obtain ⟨present, gone⟩ := List.mem_filter.mp listed
    obtain ⟨u, found⟩ := Table.memKeys.mp present
    rw [found, Table.containsFalse.mp (by simpa using gone)] at alike
    cases alike
  · refine Action.passesEach fun path listed => ?_
    obtain ⟨old, gone⟩ := List.mem_filter.mp listed
    exact absurd ((includes path).mp old) (by simpa using gone)
  · refine Action.passesEach fun path listed => ?_
    obtain ⟨new, missing⟩ := List.mem_filter.mp listed
    rw [Net.includesIff.mpr ((includes path).mpr new)] at missing
    cases missing

theorem fillingPasses (sound : n.Sound) (own : ∀ p ∈ d.uniforms.entries, p.2.id = p.1) :
    ∀ a ∈ filling (n.reconcile d), a.Passes d (ReflTransGen n.Feeds · k) := by
  intro a member
  simp only [filling, List.mem_cons, List.not_mem_nil, or_false] at member
  rcases member with rfl | rfl | rfl | rfl
  · refine Action.passesEach fun u listed =>
      passesSettingUniform (upstreamUnnamed same distinct fun alike => ?_) (upstreamThere same) rfl
    obtain ⟨new, differs⟩ := List.mem_filter.mp listed
    obtain ⟨id, found⟩ := Table.memValues.mp new
    have named : u.id = id := own (id, u) (Table.getMember found)
    rw [named, found] at alike
    rw [named, Net.uniform?] at differs
    cases old : n.uniforms.get? id with
    | none =>
      rw [old] at alike
      cases alike
    | some v =>
      rw [old] at alike differs
      cases alike with
      | some alike => simp [alike] at differs
  · refine Action.passesEach fun node listed => Action.passesOrWarn _ fun _ _ _ conforms =>
      Net.insertNodePassed conforms fun inside => ?_
    obtain ⟨a, _, found, _⟩ := same.nodes node.id inside
    rw [(Plan.memAdded.mp listed).2] at found
    cases found
  · refine Action.passesEach fun c listed => Action.passesOrWarn _ fun _ _ _ conforms =>
      Net.insertConnectionPassed conforms fun inside => ?_
    obtain ⟨c', incoming, absent, rfl⟩ := Plan.memIncoming.mp listed
    obtain ⟨old, member, source, target⟩ := same.noMore c' incoming inside
    rw [← Net.idOfEnds source target, (Net.memConnections sound.toIndexed).mp member] at absent
    cases absent
  · exact Action.passesEach fun node listed => Action.passesOrWarn _ fun _ _ _ conforms =>
      Net.patchNodePassed conforms distinct (Plan.memModified.mp listed).1

end Load

theorem loadPasses {w : Workspace} (sound : w.net.Sound) (distinct : (d.nodes.map Node.id).Nodup)
    (own : ∀ p ∈ d.uniforms.entries, p.2.id = p.1)
    (includes : ∀ path, path ∈ w.net.includes.map Include.path ↔ path ∈ d.includes) {k : String}
    (same : w.net.SameUpstream d k) : (w.load d).2.invalidated.contains k = false ∧
      (w.load d).1.cache.results.get? k = w.cache.results.get? k := by
  have removed : (w.net.reconcile d).removedIncludes = [] :=
    List.filter_eq_nil_iff.mpr fun path old => by simpa using (includes path).mp old
  have added : (w.net.reconcile d).addedIncludes = [] :=
    List.filter_eq_nil_iff.mpr fun path new => by simp [Net.includesIff.mpr ((includes path).mpr new)]
  have passes : (following (w.net.reconcile d)).Passes d (ReflTransGen w.net.Feeds · k) := by
    rw [following, removed, added]
    refine Action.allInduct Action.passesNothing Action.passesAndThen fun a member => ?_
    exact (List.mem_append.mp member).elim (clearingPasses same distinct includes a)
      (fillingPasses same distinct sound own a)
  obtain ⟨passed, cache⟩ := passes w (upstreamConforms same distinct sound)
  have untold := passed.untold k .refl
  unfold load
  dsimp only
  split
  · exact ⟨rfl, rfl⟩
  · exact ⟨untold, (Cache.dropKeeps _ untold).trans (congrArg (·.results.get? k) cache)⟩

end Workspace

namespace Session

theorem loadKeepsUntouched (requests : List Request) (d : Document) (k : String)
    (distinct : (d.nodes.map Node.id).Nodup) (own : ∀ p ∈ d.uniforms.entries, p.2.id = p.1) :
    let s := (start .empty).run requests
    let loaded := s.handle (.load d)
    (∀ path, path ∈ s.workspace.net.includes.map Include.path ↔ path ∈ d.includes) →
    s.workspace.net.SameUpstream d k →
    ∃ changes, loaded.1 = .ok (.changes changes) ∧ changes.invalidated.contains k = false ∧
      loaded.2.workspace.cache.results.get? k = s.workspace.cache.results.get? k := by
  intro s loaded includes same
  have sound : s.workspace.net.Sound := runSound Net.emptySound requests
  exact ⟨_, rfl, Workspace.loadPasses sound distinct own includes same⟩

def gainRequests : List Request := [
  .insertNodes [.named "a" "float", .named "s" "add", .named "m" "negate",
    ⟨"u", "custom_uniform", .origin, Table.ofList [("uniform", .text "gain")]⟩],
  .setUniform ⟨"gain", .float, none⟩,
  .addConnections [.between ⟨"a", "out"⟩ ⟨"s", "a"⟩, .between ⟨"u", "out"⟩ ⟨"s", "b"⟩,
    .between ⟨"a", "out"⟩ ⟨"m", "a"⟩],
  .compile "s", .compile "m"]

def negatedGain : Document where
  version := 1
  includes := []
  nodes := [.named "m" "negate", .named "o" "add", .named "a" "float",
    ⟨"s", "add", ⟨.ofInt 3, .zero⟩, ∅⟩,
    ⟨"u", "custom_uniform", .origin, Table.ofList [("uniform", .text "gain")]⟩]
  connections := [.between ⟨"a", "out"⟩ ⟨"s", "a"⟩, .between ⟨"u", "out"⟩ ⟨"s", "b"⟩,
    .between ⟨"s", "out"⟩ ⟨"m", "a"⟩, .between ⟨"a", "out"⟩ ⟨"o", "a"⟩]
  uniforms := Table.ofList [("gain", ⟨"gain", .float, none⟩), ("bias", ⟨"bias", .vec 2, none⟩)]

theorem loadKeepsUntouchedGain :
    let s := (start .empty).run gainRequests
    let loaded := s.handle (.load negatedGain)
    (s.workspace.cache.results.keys = ["a", "m", "s", "u"] ∧
      loaded.2.workspace.cache.results.keys = ["a", "s", "u"]) ∧
    ∃ changes, loaded.1 = .ok (.changes changes) ∧ changes.invalidated.contains "s" = false ∧
      loaded.2.workspace.cache.results.get? "s" = s.workspace.cache.results.get? "s" := by
  have sound : ((start .empty).run gainRequests).workspace.net.Sound := runSound Net.emptySound _
  have facts :
      let n := ((start .empty).run gainRequests).workspace.net
      n.includes = [] ∧
      (∀ j ∈ n.upstreamOrder "s", ∃ a ∈ n.nodes.get? j, ∃ b ∈ negatedGain.nodes, b.id = j ∧
        a.sameContent b = true ∧ ∀ id ∈ (a.parameters.get? "uniform").bind Parameter.text?,
          ∃ u ∈ n.uniforms.get? id, ∃ v ∈ negatedGain.uniforms.get? id, u.same v = true) ∧
      (∀ c ∈ n.connectionList, c.target.node ∈ n.upstreamOrder "s" →
        ∃ c' ∈ negatedGain.connections, c'.source = c.source ∧ c'.target = c.target) ∧
      ∀ c ∈ negatedGain.connections, c.target.node ∈ n.upstreamOrder "s" →
        ∃ c' ∈ n.connectionList, c'.source = c.source ∧ c'.target = c.target := by
    decide +kernel
  have kept :
      let s := (start .empty).run gainRequests
      s.workspace.cache.results.keys = ["a", "m", "s", "u"] ∧
        (s.handle (.load negatedGain)).2.workspace.cache.results.keys = ["a", "s", "u"] := by
    decide +kernel
  refine ⟨kept, loadKeepsUntouched gainRequests negatedGain "s" (by decide) (by decide) ?_ ?_⟩
  · intro path
    rw [facts.1]
    rfl
  · obtain ⟨_, nodes, links, noMore⟩ := facts
    have listed : ∀ {j}, ReflTransGen _ j "s" → j ∈ _ := fun path =>
      (Net.memUpstreamOrder sound.toIndexed).mpr path
    refine ⟨fun j path => ?_, fun c member path => links c member (listed path),
      fun c member path => noMore c member (listed path), fun j a id path found _ names => ?_⟩
    · obtain ⟨a, found, b, member, same, content, _⟩ := nodes j (listed path)
      exact ⟨a, b, found, member, same, content⟩
    · obtain ⟨a', found', _, _, _, _, uniforms⟩ := nodes j (listed path)
      cases found.symm.trans found'
      obtain ⟨u, stored, v, stored', same⟩ := uniforms id names
      rw [stored, stored']
      exact .some same

end Session
end ShaderNet
