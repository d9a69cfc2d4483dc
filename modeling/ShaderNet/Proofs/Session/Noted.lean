import ShaderNet.Proofs.Session.Each
import ShaderNet.Proofs.Session.Readers
import ShaderNet.Proofs.Workspace.Noted

/-! Types noted in sessions. Once a node is compiled, the connections that are read for it carry the
types of the outputs they come from, unless they were made when these outputs were done with: nobody
looks at such a connection until its source is compiled again. -/
namespace ShaderNet

/-! Edits -/

namespace Workspace

variable {links : Connection → Prop} {w after : Workspace}

theorem getDropped {cache : Cache} {invalidated : KeySet String} {k : String} {made : Compiled}
    (found : (cache.drop invalidated).results.get? k = some made) : cache.results.get? k = some made := by
  rw [Cache.drop, Table.getFilter] at found
  exact (Option.filter_eq_some_iff.mp found).1

/- An edit drops results and notes nothing. -/
theorem committedFollows (committed : Committed links w after) (sound : w.net.Sound) :
    Follows links w after := by
  obtain ⟨mid, changes, parts, rfl⟩ := committed
  intro c member done
  have kept : ∀ made, (mid.commit changes).cache.results.get? c.source.node = some made →
      w.cache.results.get? c.source.node = some made :=
    fun made found => partsCache parts ▸ getDropped found
  obtain ⟨made, found⟩ := Table.containsIff.mp done.1
  refine .inr ⟨⟨Table.containsIff.mpr ⟨made, kept made found⟩, partsCache parts ▸ done.2⟩, ?_⟩
  by_cases old : c ∈ w.net.connectionList
  · exact .inl ⟨old, carriesSame kept⟩
  · exact .inr ⟨old, (partsEntries parts sound member).resolve_left old⟩

end Workspace

namespace Session
open Workspace

theorem answerFollows {s : Session} (sound : s.workspace.net.Sound) (request : Request) :
    Follows (· ∈ s.makes request) s.workspace (s.answer request).2.workspace := by
  rcases s.answerMade request (fun _ member => member) with
    committed | question | ⟨options, sources, same⟩ | ⟨_, _, registry, _, _, same⟩
  · exact committedFollows committed sound
  · cases request with
    | compile id =>
      rw [compileAnswered]
      exact compileFollows sound.toIndexed id
    | shader id =>
      have shown : (s.answer (.shader id)).2.workspace = (s.workspace.shader id).2 := rfl
      rw [shown, shaderAfter]
      exact compileFollows sound.toIndexed id
    | canConnect source target => exact canConnectFollows source target
    | describe ids => exact describeFollows ids
    | _ => cases question
  · rw [same]
    exact followsSame rfl rfl
  · rw [same]
    rintro c _ ⟨kept, _⟩
    cases kept

theorem makesType {s : Session} {request : Request} {c : Connection} (make : c ∈ s.makes request) :
    c.type = none ∨ ∃ cs, request = .addConnections cs ∧ c ∈ cs := by
  have renamed : ∀ names d, Workspace.renamed names d = some c → c.type = none := by
    intro names d found
    unfold Workspace.renamed at found
    split at found <;> cases found
    rfl
  cases request with
  | addConnection source target => exact .inl (List.mem_singleton.mp make ▸ rfl)
  | addConnections cs => exact .inr ⟨cs, rfl, make⟩
  | load d =>
    obtain ⟨e, _, rfl⟩ := List.mem_map.mp make
    exact .inl rfl
  | paste d dx dy =>
    obtain ⟨e, _, found⟩ := List.mem_filterMap.mp make
    exact .inl (renamed _ e found)
  | pasteClipboard dx dy =>
    obtain ⟨e, _, found⟩ := List.mem_filterMap.mp make
    exact .inl (renamed _ e found)
  | _ => cases make

/-! Runs -/

def Rests (s : Session) (c : Connection) : Prop :=
  c ∈ s.workspace.net.connectionList ∧ s.workspace.Done c.source.node

/-- Connections that were made when their source was done with, and that has not changed since. -/
inductive Missed : List Request → Connection → Prop
  | made {requests request c} (make : c ∈ ((start .empty).run requests).makes request)
      (new : c ∉ ((start .empty).run requests).workspace.net.connectionList)
      (done : ((start .empty).run requests).workspace.Done c.source.node)
      (rests : ((start .empty).run (requests ++ [request])).Rests c) : Missed (requests ++ [request]) c
  | still {requests request c} (missed : Missed requests c)
      (rests : ((start .empty).run (requests ++ [request])).Rests c) : Missed (requests ++ [request]) c

/- Connections come without a type unless they are given one. -/
theorem missedType {requests : List Request} {c : Connection} (missed : Missed requests c) :
    c.type = none ∨ ∃ cs, .addConnections cs ∈ requests ∧ c ∈ cs := by
  induction missed with
  | made make _ _ _ =>
    refine (makesType make).imp_right ?_
    rintro ⟨cs, rfl, member⟩
    exact ⟨cs, List.mem_append_right _ (List.mem_singleton.mpr rfl), member⟩
  | still _ _ ih =>
    refine ih.imp_right ?_
    rintro ⟨cs, requested, member⟩
    exact ⟨cs, List.mem_append_left _ requested, member⟩

theorem runNoted (requests : List Request) {c : Connection}
    (rests : ((start .empty).run requests).Rests c) :
    ((start .empty).run requests).workspace.Carries c ∨ Missed requests c := by
  induction requests using List.reverseRecOn with
  | nil => cases rests.1
  | append_singleton requests request ih =>
    have sound := runSound (s := start .empty) Net.emptySound requests
    have follows := answerFollows sound request
    rw [← runThen] at follows
    rcases follows c rests.1 rests.2 with carries | ⟨done, ⟨old, keeps⟩ | ⟨new, make⟩⟩
    · exact .inl carries
    · exact (ih ⟨old, done⟩).imp keeps fun missed => .still missed rests
    · exact .inr (.made make new done rests)

end Session

namespace Workspace

theorem compileOk {w : Workspace} {id : String} {result : Compiled}
    (compiled : (w.compile id).1 = .ok result) :
    (w.scene.compile id w.cache).1 = .ok result ∧
      (w.compile id).2.cache.results = (w.scene.compile id w.cache).2.results ∧
      (w.compile id).2.cache.recent = [] := by
  unfold compile at compiled ⊢
  split <;> rename_i answered <;> rw [answered] at compiled ⊢
  · exact ⟨compiled, rfl, rfl⟩
  · cases compiled

theorem compileScene (w : Workspace) (id : String) :
    (w.compile id).2.scene.compile = w.scene.compile := by
  have lasting : w.Lasting fun _ => True := ⟨fun _ _ _ => trivial, fun _ _ => trivial⟩
  exact ((askedRefl trivial).compile lasting id).compiles

end Workspace

namespace Session
open Workspace

theorem typesNoted (requests : List Request) {id : String} {result : Compiled}
    (compiled : (((start .empty).run requests).workspace.compile id).1 = .ok result) :
    let w := ((start .empty).run requests).workspace
    let after := (w.compile id).2
    after.cache.results.get? id = some result ∧
    (∀ k made, after.cache.results.get? k = some made → w.cache.results.get? k = none →
      after.scene.made (Scene.fromKept after.cache.results) k = .ok made) ∧
    (∀ c, after.scene.ReadFor after.cache.results id c → c ∈ after.net.connectionList ∧
      ∃ made e, after.cache.results.get? c.source.node = some made ∧
        made.outputs.get? c.source.name = some e ∧
        (c.type = some e.type ∨ Missed (requests ++ [.compile id]) c)) ∧
    ∀ c, Missed (requests ++ [.compile id]) c →
      c.type = none ∨ ∃ cs, .addConnections cs ∈ requests ∧ c ∈ cs := by
  intro w after
  have idle := runIdle (s := start .empty) rfl requests
  have sound := runSound (s := start .empty) Net.emptySound requests
  have last : ((start .empty).run (requests ++ [.compile id])).workspace = after :=
    (runThen _ requests _).trans (compileAnswered _ id)
  obtain ⟨answered, kept, noted⟩ := compileOk compiled
  have remade := Scene.compileRemade after.scene id idle
  rw [compileScene w id] at remade
  refine ⟨kept ▸ remade.kept result answered, kept ▸ remade.renewed.made, fun c read => ?_, ?_⟩
  · obtain ⟨listed, made, e, found, output⟩ := Scene.readKept (compileSound sound id).toIndexed read
    have rests : ((start .empty).run (requests ++ [.compile id])).Rests c := by
      rw [Rests, last]
      exact ⟨listed, Table.containsIff.mpr ⟨made, found⟩, List.eq_nil_iff_forall_not_mem.mp noted _⟩
    refine ⟨listed, made, e, found, output, (runNoted _ rests).imp_left fun carries => ?_⟩
    rw [last] at carries
    exact carries made e found output
  · intro c missed
    refine (missedType missed).imp_right ?_
    rintro ⟨cs, requested, member⟩
    refine ⟨cs, (List.mem_append.mp requested).resolve_right fun here => ?_, member⟩
    cases List.mem_singleton.mp here

def waveRequests : List Request := [
  .insertNodes [.named "a" "float", .named "b" "sin", .named "out" "output"],
  .addConnections [.between ⟨"a", "out"⟩ ⟨"b", "x"⟩, .between ⟨"b", "out"⟩ ⟨"out", "color"⟩],
  .describe ["a"]]

theorem typesNotedWave :
    let after := (((start .empty).run waveRequests).workspace.compile "out").2
    let c : Connection := ⟨⟨"a", "out"⟩, ⟨"b", "x"⟩, some .float⟩
    (((start .empty).run waveRequests).workspace.compile "out").1.toOption.isSome = true ∧
    after.scene.ReadFor after.cache.results "out" c ∧ c ∈ after.net.connectionList ∧
    ∃ made e, after.cache.results.get? "a" = some made ∧ made.outputs.get? "out" = some e ∧
      (some .float = some e.type ∨ Missed (waveRequests ++ [.compile "out"]) c) := by
  have facts : let after := (((start .empty).run waveRequests).workspace.compile "out").2
      (((start .empty).run waveRequests).workspace.compile "out").1.toOption.isSome = true ∧
      ⟨⟨"b", "out"⟩, ⟨"out", "color"⟩, some .float⟩ ∈ after.scene.feedsAsked after.cache.results "out" ∧
      ⟨⟨"a", "out"⟩, ⟨"b", "x"⟩, some .float⟩ ∈ after.scene.feedsAsked after.cache.results "b" := by
    decide +kernel
  obtain ⟨some, color, wave⟩ := facts
  have read := Scene.ReadFor.above (.own color) (.own wave)
  refine ⟨some, read, ?_⟩
  cases compiled : (((start .empty).run waveRequests).workspace.compile "out").1 with
  | error e =>
    rw [compiled] at some
    cases some
  | ok result => exact (typesNoted waveRequests compiled).2.2.1 _ read

def lateRequests : List Request := [
  .insertNodes [.named "a" "float", .named "b" "multiply"],
  .compile "a",
  .addConnections [.between ⟨"a", "out"⟩ ⟨"b", "a"⟩, ⟨⟨"a", "out"⟩, ⟨"b", "b"⟩, some (.vec 3)⟩]]

theorem lateConnectionsMissed :
    let after := (((start .empty).run lateRequests).workspace.compile "b").2
    (((start .empty).run lateRequests).workspace.compile "b").1.toOption.isSome = true ∧
    ((after.cache.results.get? "a").bind (·.outputs.get? "out")).map Expression.type = some .float ∧
    ∀ c ∈ [Connection.between ⟨"a", "out"⟩ ⟨"b", "a"⟩, ⟨⟨"a", "out"⟩, ⟨"b", "b"⟩, some (.vec 3)⟩],
      after.scene.ReadFor after.cache.results "b" c ∧ c.type ≠ some .float := by
  have facts : let after := (((start .empty).run lateRequests).workspace.compile "b").2
      (((start .empty).run lateRequests).workspace.compile "b").1.toOption.isSome = true ∧
      ((after.cache.results.get? "a").bind (·.outputs.get? "out")).map Expression.type =
        some .float ∧
      ∀ c ∈ [Connection.between ⟨"a", "out"⟩ ⟨"b", "a"⟩, ⟨⟨"a", "out"⟩, ⟨"b", "b"⟩, some (.vec 3)⟩],
        c ∈ after.scene.feedsAsked after.cache.results "b" ∧ c.type ≠ some .float := by
    decide +kernel
  obtain ⟨some, float, late⟩ := facts
  exact ⟨some, float, fun c member => ⟨.own (late c member).1, (late c member).2⟩⟩

end Session
end ShaderNet
