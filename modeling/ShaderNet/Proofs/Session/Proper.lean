import ShaderNet.Proofs.Evaluate.SelfContained
import ShaderNet.Proofs.Net.UpstreamKept
import ShaderNet.Proofs.Session.Sound

/-! What a session keeps refers to nothing that it does not keep. An edit forgets a result together with
all that refers to it, and a question adds a result after all that it refers to. -/
namespace ShaderNet

namespace Scene

variable {n after : Net} {invalidated : KeySet String}

theorem emptyContained (n : Net) : SelfContained n ∅ := fun _ _ found => nomatch found

theorem dropContained {cache : Cache} (contained : SelfContained n cache.results)
    (upstream : n.KeepsUpstream after invalidated) :
    SelfContained after (cache.drop invalidated).results := by
  have kept : ∀ id c, (cache.drop invalidated).results.get? id = some c ↔
      cache.results.get? id = some c ∧ invalidated.contains id = false := by
    intro id c
    rw [Cache.drop, Table.getFilter, Option.filter_eq_some_iff]
    simp
  intro id c found
  obtain ⟨found, safe⟩ := (kept id c).mp found
  refine (contained id c found).mono ?_
  rintro name ⟨u, path, d, declared, member⟩
  obtain ⟨outside, path⟩ := upstream.path path safe
  exact ⟨u, path, d, (kept u d).mpr ⟨declared, outside⟩, member⟩

theorem feedsContained {results : Table String Compiled} (contained : SelfContained n results)
    (feeds : ∀ u v, n.Feeds u v → after.Feeds u v) : SelfContained after results := by
  intro id c found
  refine (contained id c found).mono ?_
  rintro name ⟨u, path, declared⟩
  exact ⟨u, Relation.TransGen.mono feeds u id path, declared⟩

end Scene

namespace Workspace

structure Proper (used : List Connection) (w : Workspace) : Prop where
  charted : w.net.Charted used
  named : w.scene.Named
  settled : Scene.Settled w.net w.cache

theorem emptyProper (used : List Connection) : Proper used empty where
  charted := ⟨Net.emptySound, fun _ member => nomatch member⟩
  named := ⟨Registry.standardNamed, Exports.collectNamed []⟩
  settled := ⟨Scene.emptyContained _, rfl⟩

structure Advanced (used : List Connection) (w after : Workspace) (changes : Changes) : Prop where
  net : w.net.UpstreamKept used after.net changes
  registry : after.registry = w.registry
  exports : after.exports.Named
  cache : after.cache = w.cache

variable {used : List Connection} {links : Connection → Prop} {w after : Workspace}
  {changes : Changes}

section Edits

variable (apart : Net.Apart used) (within : ∀ c, links c → Net.Listed used c)
include apart within

theorem partAdvanced (part : Part links w after changes) (charted : w.net.Charted used)
    (named : w.exports.Named) : Advanced used w after changes := by
  have sound := partSound part charted.toSound
  cases part with
  | insertNode ok => exact ⟨Net.insertNodeUpstreamKept charted ok, rfl, named, rfl⟩
  | removeNode ok => exact ⟨Net.removeNodeUpstreamKept charted ok, rfl, named, rfl⟩
  | setParameter ok => exact ⟨Net.setParameterUpstreamKept charted ok, rfl, named, rfl⟩
  | moveNode ok => exact ⟨Net.moveNodeUpstreamKept charted ok, rfl, named, rfl⟩
  | patchNode ok => exact ⟨Net.patchNodeUpstreamKept charted ok, rfl, named, rfl⟩
  | insertConnection link ok =>
    exact ⟨Net.insertConnectionUpstreamKept charted (within _ link) ok, rfl, named, rfl⟩
  | removeConnection id => exact ⟨Net.removeConnectionUpstreamKept charted id, rfl, named, rfl⟩
  | refusedConnection link refused message =>
    cases Net.connectRefused charted.toIndexed charted.listed apart (within _ link) refused
    exact ⟨Net.upstreamKeptNothing charted rfl, rfl, named, rfl⟩
  | setUniform u =>
    exact ⟨Net.quietTold charted sound (w.net.setUniformQuiet u) _, rfl, named, rfl⟩
  | removeUniform id =>
    exact ⟨Net.quietTold charted sound (w.net.removeUniformQuiet id) _, rfl, named, rfl⟩
  | addInclude path =>
    exact ⟨Net.quietUpstreamKept charted sound (w.net.addIncludeQuiet path _), rfl, named, rfl⟩
  | removeInclude path =>
    exact ⟨Net.quietUpstreamKept charted sound (w.net.removeIncludeQuiet path), rfl, named, rfl⟩
  | collectExports =>
    have closed := Net.downstreamClosed sound.toIndexed
    exact ⟨Net.upstreamKeptSame charted sound rfl (closed _), rfl, Exports.collectNamed _, rfl⟩

theorem partsAdvanced (parts : Parts links w after changes) (charted : w.net.Charted used)
    (named : w.exports.Named) : Advanced used w after changes := by
  induction parts with
  | nothing w untold => exact ⟨Net.upstreamKeptNothing charted untold, rfl, named, rfl⟩
  | one part => exact partAdvanced apart within part charted named
  | append _ _ first second =>
    have first := first charted named
    have second := second first.net.charted first.exports
    exact ⟨first.net.append second.net, second.registry.trans first.registry, second.exports,
      second.cache.trans first.cache⟩

theorem committedProper (committed : Committed links w after) (proper : Proper used w) :
    Proper used after := by
  obtain ⟨mid, changes, parts, rfl⟩ := committed
  have advanced := partsAdvanced apart within parts proper.charted proper.named.exports
  have kinds : mid.registry.Named := advanced.registry ▸ proper.named.kinds
  have contained := Scene.dropContained proper.settled.contained advanced.net.upstream
  have idle : mid.cache.stack = [] := advanced.cache ▸ proper.settled.idle
  rw [← advanced.cache] at contained
  exact ⟨advanced.net.charted, ⟨kinds, advanced.exports⟩, ⟨contained, idle⟩⟩

end Edits

theorem settledLasting (proper : Proper used w) : w.Lasting (Scene.Settled w.net) where
  compiles := Scene.compileSettled proper.charted.toSound proper.named
  seen _ settled := ⟨settled.contained, settled.idle⟩

theorem askedProper (proper : Proper used w) (asked : Asked (Scene.Settled w.net) w after)
    (sound : after.net.Sound) : Proper used after := by
  have before := proper.charted.toIndexed
  have listed := Net.retypedListed asked.net before sound.toIndexed proper.charted.listed
  have feeds : ∀ u v, w.net.Feeds u v → after.net.Feeds u v :=
    fun _ _ => Net.retypedFeeds asked.net before sound.toIndexed
  have kinds : after.registry.Named := asked.registry ▸ proper.named.kinds
  have exports : after.exports.Named := asked.exports ▸ proper.named.exports
  exact ⟨⟨sound, listed⟩, ⟨kinds, exports⟩, ⟨Scene.feedsContained asked.kept.contained feeds, asked.kept.idle⟩⟩

theorem withRegistryProper (proper : Proper used w) {registry : Registry} (named : registry.Named) :
    Proper used (w.withRegistry registry) :=
  ⟨proper.charted, ⟨named, proper.named.exports⟩, ⟨Scene.emptyContained _, proper.settled.idle⟩⟩

end Workspace

def Request.Named : Request → Prop
  | .useRegistry start _ => start.Named
  | _ => True

namespace Session
open Workspace

variable {used : List Connection} {s : Session}

theorem answerProper (apart : Net.Apart used) (proper : s.workspace.Proper used) {request : Request}
    (named : request.Named) (listed : ∀ c ∈ s.links request, Net.Listed used c) :
    (s.answer request).2.workspace.Proper used := by
  rcases s.answerCases request with
    committed | question | ⟨options, sources, same⟩ | ⟨start, types, registry, rfl, built, same⟩
  · refine committedProper apart (fun c link => ?_) committed proper
    obtain ⟨d, member, source, target⟩ := link
    obtain ⟨e, inside, source', target'⟩ := listed d member
    exact ⟨e, inside, source'.trans source, target'.trans target⟩
  · have asked := answerAsked (settledLasting proper) (askedRefl proper.settled) question
    exact askedProper proper asked (answerSound proper.charted.toSound request)
  · rw [same]
    exact ⟨proper.charted, proper.named, proper.settled⟩
  · rw [same]
    exact withRegistryProper proper (Registry.withTypesNamed named built)

theorem runProper (apart : Net.Apart used) (proper : s.workspace.Proper used)
    {requests : List Request} (named : ∀ request ∈ requests, request.Named)
    (listed : ∀ c ∈ s.linksAlong requests, Net.Listed used c) :
    (s.run requests).workspace.Proper used := by
  induction requests generalizing s with
  | nil => exact proper
  | cons request rest ih =>
    have first := answerProper apart proper (named request List.mem_cons_self)
      fun c member => listed c (List.mem_append_left _ member)
    refine ih first (fun r member => named r (List.mem_cons_of_mem _ member)) fun c member => ?_
    exact listed c (List.mem_append_right _ member)

end Session
end ShaderNet
