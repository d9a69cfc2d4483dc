import ShaderNet.Proofs.Evaluate.Renamed
import ShaderNet.Proofs.Session.Duplicate
import ShaderNet.Proofs.Session.Readers
import ShaderNet.Proofs.Workspace.Upstream

/-! Names of nodes along a session. The copy of a selection that is fed from within compiles as the
selection itself does, up to the names of variables. -/
namespace ShaderNet
open Number (Double)
open Relation (ReflTransGen)

namespace Net

variable {ids : List String} {name : String → String} {dx dy : Double} {before after : Net}

section Duplicated

variable (sound : before.Sound) (names : before.NewNames ids name)
  (duplicated : Duplicated ids name dx dy before after)
include sound names duplicated

/- What leads to a copy is a copy. -/
theorem duplicateFedWithin : after.FedWithin (· ∈ ids.map name) := by
  intro c member target
  rcases (duplicated.connections c).mp member with old | new
  · obtain ⟨id, chosen, same⟩ := List.mem_map.mp target
    have there := (sound.endsExist c old).2
    rw [← same, names.absent id chosen] at there
    cases there
  · obtain ⟨c, chosen, rfl⟩ := List.mem_map.mp new
    exact List.mem_map.mpr ⟨_, (memChosenConnections.mp chosen).2.1, rfl⟩

variable (sound' : after.Sound) (present : ∀ id ∈ ids, before.contains id = true)

omit names in
include sound' present in
theorem duplicateNodes {id : String} (member : id ∈ ids) : ∃ node copy, after.node id = .ok node ∧
    after.node (name id) = .ok copy ∧ node.id = id ∧ copy.id = name id ∧ node.type = copy.type ∧
      node.parameters = copy.parameters := by
  obtain ⟨node, found⟩ := Table.containsIff.mp (present id member)
  cases sound.nodeKeys id node found
  have listed : ∀ node ∈ before.nodeList ++ before.nodeDuplicates ids name dx dy,
      after.node node.id = .ok node := by
    intro node member
    rw [← duplicated.nodes] at member
    exact nodeFound.mpr ((memNodeList sound').mp member)
  have chosen : node ∈ before.chosenNodes ids := (memChosenNodes sound).mpr ⟨found, member⟩
  exact ⟨node, node.duplicate name dx dy,
    listed _ (List.mem_append_left _ ((memNodeList sound).mpr found)),
    listed _ (List.mem_append_right _ (List.mem_map_of_mem chosen)), rfl, rfl, rfl, rfl⟩

omit sound in
include present in
theorem duplicateOld {c : Connection} (member : c ∈ after.connectionList)
    (target : c.target.node ∈ ids) : c ∈ before.connectionList := by
  rcases (duplicated.connections c).mp member with old | new
  · exact old
  · obtain ⟨c, chosen, rfl⟩ := List.mem_map.mp new
    have there := present _ target
    rw [show (c.duplicate name).target.node = name c.target.node from rfl,
      names.absent _ (memChosenConnections.mp chosen).2.2] at there
    cases there

include sound' in
theorem duplicateFeeder {id socket : String} (member : id ∈ ids) {c' : Connection}
    (fed : after.feeder? ⟨name id, socket⟩ = some c') : ∃ c, after.feeder? ⟨id, socket⟩ = some c := by
  obtain ⟨there, target⟩ := (feederIff sound'.toIndexed).mp fed
  rcases (duplicated.connections c').mp there with link | new
  · have there := (sound.endsExist c' link).2
    rw [target, names.absent id member] at there
    cases there
  · obtain ⟨c, chosen, rfl⟩ := List.mem_map.mp new
    obtain ⟨link, _, inside⟩ := memChosenConnections.mp chosen
    obtain ⟨node, named⟩ := Socket.mk.inj target
    cases names.distinct _ inside _ member node
    refine ⟨c, (feederIff sound'.toIndexed).mpr ⟨(duplicated.connections c).mpr (.inl link), ?_⟩⟩
    exact Socket.mk.injEq .. ▸ ⟨rfl, named⟩

include sound' present

theorem duplicateRenaming (closed : before.FedWithin (· ∈ ids)) : after.Renaming (· ∈ ids) name := by
  have old := @duplicateOld ids name dx dy before after names duplicated present
  refine ⟨fun a b left right => names.distinct a left b right,
    fun id => duplicateNodes sound duplicated sound' present,
    fun c member target => closed c (old member target) target, fun id socket member => ?_⟩
  cases fed : after.feeder? ⟨id, socket⟩ with
  | some c =>
    obtain ⟨there, target⟩ := (feederIff sound'.toIndexed).mp fed
    have inside : c.target.node ∈ ids := by rw [target]; exact member
    have link := old there inside
    have chosen := memChosenConnections.mpr ⟨link, closed c link inside, inside⟩
    have fed' : after.feeder? ⟨name id, socket⟩ = some (c.duplicate name) := by
      refine (feederIff sound'.toIndexed).mpr
        ⟨(duplicated.connections _).mpr (.inr (List.mem_map_of_mem chosen)), ?_⟩
      rw [show (c.duplicate name).target = ⟨name c.target.node, c.target.name⟩ from rfl, target]
    rw [fed']
    rfl
  | none =>
    cases fed' : after.feeder? ⟨name id, socket⟩ with
    | none => rfl
    | some c' =>
      obtain ⟨c, fed''⟩ := duplicateFeeder sound names duplicated sound' member fed'
      cases fed.symm.trans fed''

end Duplicated

theorem Renaming.above {n : Net} {inside : String → Prop} (renamed : n.Renaming inside name) {id : String}
    (here : inside id) : n.Renaming (ReflTransGen n.Feeds · id) name :=
  have above {k : String} (path : ReflTransGen n.Feeds k id) := renamed.within.above here path
  ⟨fun a b left right => renamed.distinct a b (above left) (above right),
    fun k path => renamed.nodes k (above path), n.upstreamFedWithin id,
    fun k socket path => renamed.sources k socket (above path)⟩

end Net

namespace Workspace

variable {w : Workspace} {inside : String → Prop} {name : String → String} {n : String}

theorem renamedCompile (sound : w.net.Sound) (idle : w.cache.stack = [])
    (renamed : w.net.Renaming inside name) (here : inside n) (copy : w.RightAbove (name n)) :
    (w.compile (name n)).1.toOption.map Compiled.shape =
        (w.scene.compile n .empty).1.toOption.map Compiled.shape ∧
      (w.RightAbove n →
        (w.compile (name n)).1.toOption.map Compiled.shape =
          (w.compile n).1.toOption.map Compiled.shape ∧
        ((∀ k c, ReflTransGen w.net.Feeds k n → (w.compile k).1 = .ok c → c.bindings = []) →
          (w.compile (name n)).1.toOption.map Compiled.outputs =
            (w.compile n).1.toOption.map Compiled.outputs)) := by
  have alike := @Scene.evaluateRenamed w.scene _ name sound (renamed.above here) [] n .refl
    (List.forall_mem_nil _)
  rw [copy.compile sound idle, freshCompile]
  refine ⟨alike.shape.symm, fun right => ?_⟩
  rw [right.compile sound idle]
  refine ⟨alike.shape.symm, fun free => (alike.outputs ?_ fun c ok => ?_).symm⟩
  · intro k c path ok
    exact free k c path (((right.source path).compile sound idle).trans ok)
  · exact free n c .refl ((right.compile sound idle).trans ok)

end Workspace

namespace Session
open Workspace

variable {s : Session} {ids : List String} {dx dy : Double}

theorem pastedBack (sound : s.workspace.net.Sound)
    (present : ∀ id ∈ ids, s.workspace.net.contains id = true)
    (apart : Net.Apart (s.workspace.net.connectionList ++
      (s.handle (.copy ids)).2.links (.pasteClipboard dx dy))) :
    let copied := s.handle (.copy ids)
    ∃ name after, s.workspace.net.NewNames ids name ∧ s.workspace.net.Duplicated ids name dx dy after ∧
      (copied.2.handle (.paste copied.2.clipboard dx dy)).2.workspace =
        commit { s.workspace with net := after } (duplicateTold s.workspace.net ids name dx dy) := by
  obtain ⟨d, ok⟩ := copyPresent present
  have copied : s.handle (.copy ids) = (.ok (.document d), ({ s with clipboard := d }).forgetDropped) := by
    simp only [handle, answer, ok]
  dsimp only
  rw [copied] at apart ⊢
  obtain ⟨name, after, names, duplicated, pasted⟩ := pastingDuplicates sound present ok apart
  have performed : s.workspace.paste d dx dy =
      (commit { s.workspace with net := after } (duplicateTold s.workspace.net ids name dx dy),
        duplicateTold s.workspace.net ids name dx dy) := by
    rw [paste, perform, pasted]
  refine ⟨name, after, names, duplicated, ?_⟩
  simp only [handle, answer, afterChange, forgetDropped, performed]

theorem handledSound (sound : s.workspace.net.Sound) (request : Request) :
    (s.handle request).2.workspace.net.Sound := answerSound sound request

theorem handledIdle (idle : s.workspace.cache.stack = []) (request : Request) :
    (s.handle request).2.workspace.cache.stack = [] := answerIdle idle request

theorem copyCompilesAlike (requests : List Request) (ids : List String) (dx dy : Double)
    (present : ∀ id ∈ ids, ((start .empty).run requests).workspace.net.contains id = true)
    (closed : ((start .empty).run requests).workspace.net.FedWithin (· ∈ ids))
    (apart : Net.Apart (((start .empty).run requests).workspace.net.connectionList ++
      (((start .empty).run requests).handle (.copy ids)).2.links (.pasteClipboard dx dy))) :
    let s := (start .empty).run requests
    let copied := s.handle (.copy ids)
    let after := (copied.2.handle (.paste copied.2.clipboard dx dy)).2.workspace
    ∃ name, s.workspace.net.NewNames ids name ∧
      s.workspace.net.Duplicated ids name dx dy after.net ∧
      ∀ n ∈ ids,
        (after.compile (name n)).1.toOption.map Compiled.shape =
          (after.scene.compile n .empty).1.toOption.map Compiled.shape ∧
        (after.RightAbove n →
          (after.compile (name n)).1.toOption.map Compiled.shape =
            (after.compile n).1.toOption.map Compiled.shape ∧
          ((∀ k c, ReflTransGen after.net.Feeds k n → (after.compile k).1 = .ok c → c.bindings = []) →
            (after.compile (name n)).1.toOption.map Compiled.outputs =
              (after.compile n).1.toOption.map Compiled.outputs)) := by
  have sound : ((start .empty).run requests).workspace.net.Sound := runSound Net.emptySound requests
  have idle := runIdle (s := start .empty) rfl requests
  generalize (start .empty).run requests = s at present closed apart sound idle ⊢
  have sound' := handledSound (handledSound sound (.copy ids))
    (.paste (s.handle (.copy ids)).2.clipboard dx dy)
  have idle' := handledIdle (handledIdle idle (.copy ids))
    (.paste (s.handle (.copy ids)).2.clipboard dx dy)
  obtain ⟨name, after, names, duplicated, same⟩ := pastedBack sound present apart
  dsimp only
  rw [same] at sound' idle' ⊢
  have renamed := Net.duplicateRenaming sound names duplicated sound' present closed
  refine ⟨name, names, duplicated, fun n member => renamedCompile sound' idle' renamed member ?_⟩
  intro k c path kept
  -- nothing is kept of a copy, nor of what leads to it
  have copy := (Net.duplicateFedWithin sound names duplicated).above (List.mem_map_of_mem member) path
  rw [commitDropped _ (KeySet.containsOfList.mpr copy)] at kept
  cases kept

def slopeRequests : List Request := [
  .insertNodes [.named "uv" "uv", .named "n" "normalize", .named "parts" "split", .named "g" "negate"],
  .addConnection ⟨"uv", "out"⟩ ⟨"n", "x"⟩, .addConnection ⟨"n", "out"⟩ ⟨"parts", "vector"⟩,
  .addConnection ⟨"parts", "y"⟩ ⟨"g", "a"⟩, .compile "g"]

theorem copyCompilesAlikeSlope :
    let s := (start .empty).run slopeRequests
    let ids := ["g", "parts", "n", "uv"]
    let copied := s.handle (.copy ids)
    let after := (copied.2.handle (.paste copied.2.clipboard (.ofInt 1) (.ofInt 2))).2.workspace
    ((∀ id ∈ ids, s.workspace.net.contains id = true) ∧ s.workspace.net.FedWithin (· ∈ ids) ∧
      Net.Apart (s.workspace.net.connectionList ++
        copied.2.links (.pasteClipboard (.ofInt 1) (.ofInt 2)))) ∧
    (after.net.order = ["uv", "n", "parts", "g", "uv_1", "normalize_1", "split_1", "negate_1"] ∧
      (after.compile "parts").1.toOption.map (fun c => c.bindings.map Binding.type) = some [.vec 2]) ∧
    after.RightAbove "g" ∧
    ∃ name, s.workspace.net.NewNames ids name ∧
      (after.compile (name "g")).1.toOption.map Compiled.shape =
        (after.compile "g").1.toOption.map Compiled.shape ∧
      (after.compile (name "n")).1.toOption.map Compiled.outputs =
        (after.compile "n").1.toOption.map Compiled.outputs := by
  have alike := copyCompilesAlike slopeRequests ["g", "parts", "n", "uv"] (.ofInt 1) (.ofInt 2)
  have sound : ((start .empty).run slopeRequests).workspace.net.Sound :=
    runSound Net.emptySound slopeRequests
  have facts :
      let s := (start .empty).run slopeRequests
      let ids := ["g", "parts", "n", "uv"]
      let copied := s.handle (.copy ids)
      let after := (copied.2.handle (.paste copied.2.clipboard (.ofInt 1) (.ofInt 2))).2.workspace
      ((∀ id ∈ ids, s.workspace.net.contains id = true) ∧
        (∀ c ∈ s.workspace.net.connectionList, c.target.node ∈ ids → c.source.node ∈ ids) ∧
        Net.Apart (s.workspace.net.connectionList ++
          copied.2.links (.pasteClipboard (.ofInt 1) (.ofInt 2)))) ∧
      (after.net.order = ["uv", "n", "parts", "g", "uv_1", "normalize_1", "split_1", "negate_1"] ∧
        (after.compile "parts").1.toOption.map (fun c => c.bindings.map Binding.type) = some [.vec 2]) ∧
      (∀ p ∈ after.cache.results.entries, (after.scene.compile p.1 .empty).1 = .ok p.2) ∧
      ∀ k ∈ after.net.upstreamOrder "n", (after.compile k).1.toOption.all (fun c => c.bindings = []) := by
    decide +kernel
  -- from here on nothing has to be run
  generalize (start .empty).run slopeRequests = s at alike sound facts ⊢
  have sound' := handledSound (handledSound sound (.copy ["g", "parts", "n", "uv"]))
    (.paste (s.handle (.copy ["g", "parts", "n", "uv"])).2.clipboard (.ofInt 1) (.ofInt 2))
  obtain ⟨⟨present, closed, apart⟩, shown, made, free⟩ := facts
  obtain ⟨name, names, _, each⟩ := alike present closed apart
  have right {id : String} : Workspace.RightAbove _ id := fun k c _ kept => made _ (Table.getMember kept)
  refine ⟨⟨present, closed, apart⟩, shown, right, name, names, ((each "g" (by simp)).2 right).1,
    ((each "n" (by simp)).2 right).2 fun k c path ok => ?_⟩
  have listed := free k ((Net.memUpstreamOrder sound'.toIndexed).mpr path)
  rw [ok] at listed
  exact of_decide_eq_true listed

theorem copyDiffers :
    let s := (start .empty).run (blankRequests ++ [.setUniform ⟨"", .vec 3, none⟩])
    let copied := s.handle (.copy ["u"])
    let after := (copied.2.handle (.paste copied.2.clipboard .zero .zero)).2.workspace
    (s.workspace.net.contains "u" = true ∧ s.workspace.net.connectionList = [] ∧
      copied.2.links (.pasteClipboard .zero .zero) = []) ∧
    after.net.order = ["u", "custom_uniform_1"] ∧
    (after.compile "u").1 = .ok (.single "out" (.simple .float "u_")) ∧
    (after.compile "custom_uniform_1").1 = .ok (.single "out" (.simple (.vec 3) "u_")) := by
  decide +kernel

end Session
end ShaderNet
