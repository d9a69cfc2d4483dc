import ShaderNet.Proofs.Session.Coherent
import ShaderNet.Proofs.Workspace.Asked

/-! What requests do to a workspace. An edit is made of few kinds of parts, and is committed to all that
they tell of. -/
namespace ShaderNet
open Number (Double)

theorem Net.listedMember {used : List Connection} {c : Connection} (member : c ∈ used) :
    Listed used c := ⟨c, member, rfl, rfl⟩

namespace Workspace

inductive Part (links : Connection → Prop) (w : Workspace) : Workspace → Changes → Prop
  | insertNode {node net changes} (ok : w.net.insertNode node = .ok (net, changes)) :
      Part links w { w with net := net } changes
  | removeNode {id net changes} (ok : w.net.removeNode id = .ok (net, changes)) :
      Part links w { w with net := net } changes
  | setParameter {id name value net changes}
      (ok : w.net.setParameter id name value = .ok (net, changes)) :
      Part links w { w with net := net } changes
  | moveNode {id dx dy net changes} (ok : w.net.moveNode id dx dy = .ok (net, changes)) :
      Part links w { w with net := net } changes
  | patchNode {node net changes} (ok : w.net.patchNode node = .ok (net, changes)) :
      Part links w { w with net := net } changes
  | insertConnection {c net changes} (link : links c)
      (ok : w.net.insertConnection c = .ok (net, changes)) :
      Part links w { w with net := net } changes
  | removeConnection (id : String) :
      Part links w { w with net := (w.net.removeConnection id).1 } (w.net.removeConnection id).2
  | refusedConnection {c e net} (link : links c) (refused : w.net.connect c = (.error e, net))
      (message : String) : Part links w { w with net := net } (.warning message)
  | setUniform (u : Uniform) : Part links w (settingUniform u w).1 (settingUniform u w).2
  | removeUniform (id : String) : Part links w (removingUniform id w).1 (removingUniform id w).2
  | addInclude (path : String) : Part links w (including path w).1 (including path w).2
  | removeInclude (path : String) :
      Part links w { w with net := (w.net.removeInclude path).1 } (w.net.removeInclude path).2
  | collectExports : Part links w (collectingExports w).1 (collectingExports w).2

inductive Parts (links : Connection → Prop) : Workspace → Workspace → Changes → Prop
  | nothing (w : Workspace) {changes : Changes} (untold : changes.invalidated = ∅) : Parts links w w changes
  | one {w after changes} (part : Part links w after changes) : Parts links w after changes
  | append {w mid after c d} (first : Parts links w mid c) (second : Parts links mid after d) :
      Parts links w after (c ++ d)

variable {links : Connection → Prop} {w : Workspace}

theorem partsCache {after : Workspace} {changes : Changes} (parts : Parts links w after changes) :
    after.cache = w.cache := by
  induction parts with
  | nothing => rfl
  | one part => cases part <;> rfl
  | append _ _ first second => exact second.trans first

/-! Actions -/

def Action.Made (links : Connection → Prop) (a : Action) : Prop :=
  ∀ w, Parts links w (a w).1 (a w).2

namespace Action

theorem madeNothing : nothing.Made links := fun w => .nothing w rfl

theorem madeAndThen (a b : Action) (first : a.Made links) (second : b.Made links) :
    (a.andThen b).Made links := fun w => .append (first w) (second _)

theorem madeAll {actions : List Action} (each : ∀ a ∈ actions, a.Made links) :
    (all actions).Made links := allInduct madeNothing madeAndThen each

theorem madeEach {α : Type} {items : List α} {action : α → Action}
    (each : ∀ i ∈ items, (action i).Made links) : (Action.each items action).Made links :=
  eachInduct madeNothing madeAndThen each

theorem madeOrWarn {edit : Net → Except Failure (Net × Changes)} (wording : Failure → String)
    (parts : ∀ w net changes, edit w.net = .ok (net, changes) →
      Part links w { w with net := net } changes) : (orWarn edit wording).Made links := by
  intro w
  unfold orWarn
  split
  · rename_i ok
    exact .one (parts w _ _ ok)
  · exact .nothing w rfl

theorem madeConnect {c : Connection} (link : links c) {result : Except Failure Changes} {net : Net}
    (done : w.net.connect c = (result, net)) (message : String) :
    Parts links w { w with net := net } (result.toOption.getD (.warning message)) := by
  rcases Net.connectCases w.net c with
    ⟨e, refused⟩ | ⟨after, added, ok, accepted⟩ | ⟨old, _, _, _, replaced⟩
  · cases refused.symm.trans done
    exact .nothing w rfl
  · cases accepted.symm.trans done
    exact .one (.insertConnection link ok)
  · rcases replaced with ⟨after, added, ok, accepted⟩ | ⟨e, _, refused⟩
    · cases accepted.symm.trans done
      exact .append (.one (.removeConnection old.id)) (.one (.insertConnection link ok))
    · cases refused.symm.trans done
      exact .one (.refusedConnection link refused message)

theorem madeConnecting {c : Connection} (link : links c) (wording : Failure → String) :
    (connecting c wording).Made links := by
  intro w
  unfold connecting
  split <;> rename_i done
  · exact madeConnect link done ""
  · exact madeConnect link done _

end Action

theorem madeWarningUnresolved (path : String) : (warningUnresolved path).Made links := by
  intro w
  unfold warningUnresolved
  split <;> exact .nothing w rfl

theorem clearingMade (plan : Plan) : ∀ a ∈ clearing plan, a.Made links := by
  intro a member
  simp only [clearing, List.mem_cons, List.not_mem_nil, or_false] at member
  rcases member with rfl | rfl | rfl | rfl | rfl
  · exact Action.madeEach fun id _ _ => .one (.removeConnection id)
  · exact Action.madeEach fun _ _ => Action.madeOrWarn _ fun _ _ _ => .removeNode
  · exact Action.madeEach fun id _ _ => .one (.removeUniform id)
  · exact Action.madeEach fun path _ _ => .one (.removeInclude path)
  · exact Action.madeEach fun path _ =>
      Action.madeAndThen _ _ (madeWarningUnresolved path) fun _ => .one (.addInclude path)

theorem fillingMade {plan : Plan} (listed : ∀ c ∈ plan.addedConnections, links c) :
    ∀ a ∈ filling plan, a.Made links := by
  intro a member
  simp only [filling, List.mem_cons, List.not_mem_nil, or_false] at member
  rcases member with rfl | rfl | rfl | rfl
  · exact Action.madeEach fun u _ _ => .one (.setUniform u)
  · exact Action.madeEach fun _ _ => Action.madeOrWarn _ fun _ _ _ => .insertNode
  · exact Action.madeEach fun c member =>
      Action.madeOrWarn _ fun _ _ _ => .insertConnection (listed c member)
  · exact Action.madeEach fun _ _ => Action.madeOrWarn _ fun _ _ _ => .patchNode

theorem followingMade {plan : Plan} (listed : ∀ c ∈ plan.addedConnections, links c) :
    (following plan).Made links := by
  have fills := fillingMade listed
  unfold following
  split
  · refine Action.madeAll fun a member => ?_
    exact (List.mem_append.mp member).elim (clearingMade plan a) (fills a)
  · refine Action.madeAll fun a member => ?_
    rcases List.mem_append.mp member with member | member
    · exact clearingMade plan a member
    · rcases List.mem_cons.mp member with rfl | member
      · exact fun _ => .one .collectExports
      · exact fills a member

theorem pasteNodesMade {dx dy : Double} {nodes : List Node} {net : Net} {names : Renaming}
    {changes : Changes} (before : Parts links w { w with net := net } changes) :
    Parts links w { w with net := (pasteNodes dx dy nodes net names changes).1 }
      (pasteNodes dx dy nodes net names changes).2.2 := by
  induction nodes generalizing net names changes with
  | nil => exact before
  | cons node rest ih =>
    unfold pasteNodes
    dsimp only
    split
    · rename_i ok
      exact ih (.append before (.one (.insertNode ok)))
    · exact ih (.append before (.nothing _ rfl))

theorem pastingSurroundingsMade (d : Document) : (pastingSurroundings d).Made links := by
  have uniforms : (pastingUniforms d).Made links := by
    refine Action.madeEach fun u _ w => ?_
    split
    · exact .one (.setUniform u)
    · exact .nothing w rfl
  intro w
  unfold pastingSurroundings
  dsimp only
  split
  · exact uniforms w
  · refine Action.madeAll (fun a member => ?_) w
    simp only [List.mem_cons, List.not_mem_nil, or_false] at member
    rcases member with rfl | rfl | rfl
    · exact Action.madeEach fun path _ _ => .one (.addInclude path)
    · exact fun _ => .one .collectExports
    · exact uniforms

theorem pastingMade {d : Document} {dx dy : Double}
    (listed : ∀ c ∈ w.pastedLinks d dx dy, links c) :
    Parts links w (pasting d dx dy w).1 (pasting d dx dy w).2 := by
  refine .append (.append (pastingSurroundingsMade d w) (pasteNodesMade (.nothing _ rfl))) ?_
  refine Action.madeEach (fun c member => ?_) _
  unfold pastingConnection
  split
  · rename_i link found
    exact Action.madeConnecting (listed link (List.mem_filterMap.mpr ⟨c, member, found⟩)) _
  · exact fun w => .nothing w rfl

/-! Edits -/

def Committed (links : Connection → Prop) (w after : Workspace) : Prop :=
  ∃ mid changes, Parts links w mid changes ∧ after = mid.commit changes

theorem commitUntold (w : Workspace) {changes : Changes} (untold : changes.invalidated = ∅) :
    w.commit changes = w := by
  have same : w.cache.drop changes.invalidated = w.cache := by
    rw [untold, Cache.drop]
    congr 1
    refine Table.ext fun k => ?_
    rw [Table.getFilter]
    cases w.cache.results.get? k <;> rfl
  rw [commit, same]

section Edits

variable (links : Connection → Prop) (w : Workspace)

theorem committedSame : Committed links w w :=
  ⟨w, .empty, .nothing w rfl, (commitUntold w rfl).symm⟩

theorem performCommitted {action : Action} (parts : Parts links w (action w).1 (action w).2) :
    Committed links w (w.perform action).1 := ⟨_, _, parts, rfl⟩

theorem tryNetCommitted {edit : Net → Except Failure (Net × Changes)}
    (parts : ∀ net changes, edit w.net = .ok (net, changes) →
      Parts links w { w with net := net } changes) : Committed links w (w.tryNet edit).2 := by
  unfold tryNet
  split
  · rename_i net changes ok
    exact ⟨_, changes, parts net changes ok, rfl⟩
  · exact committedSame links w

theorem tryEachParts {α : Type} {edit : Net → α → Except Failure (Net × Changes)} {items : List α}
    (parts : ∀ i (w : Workspace) net changes, edit w.net i = .ok (net, changes) →
      Part links w { w with net := net } changes) {net : Net} {changes : Changes}
    (ok : tryEach edit w.net items = .ok (net, changes)) :
    Parts links w { w with net := net } changes := by
  have step : ∀ i ∈ items, ∀ net told next more, Parts links w { w with net := net } told →
      edit net i = .ok (next, more) → Parts links w { w with net := next } (told ++ more) :=
    fun i _ net _ _ _ before one => .append before (.one (parts i { w with net := net } _ _ one))
  exact tryEachInduct (.nothing w rfl) step ok

theorem removeConnectionsParts (ids : List String) :
    Parts links w { w with net := (w.net.removeConnections ids).1 }
      (w.net.removeConnections ids).2 := by
  have step : ∀ id ∈ ids, ∀ net changes, Parts links w { w with net := net } changes →
      Parts links w { w with net := (net.removeConnection id).1 }
        (changes ++ (net.removeConnection id).2) :=
    fun id _ net _ before => .append before (.one (@Part.removeConnection _ { w with net := net } id))
  exact Net.removeConnectionsInduct (.nothing w rfl) step

theorem insertNodeCommitted (node : Node) : Committed links w (w.insertNode node).2 :=
  tryNetCommitted links w fun _ _ ok => .one (.insertNode ok)

theorem addNodeCommitted (type : String) (position : Point) :
    Committed links w (w.addNode type position).2 := by
  unfold addNode
  split
  · exact committedSame links w
  · exact insertNodeCommitted links w _

theorem insertNodesCommitted (nodes : List Node) : Committed links w (w.insertNodes nodes).2 := by
  unfold insertNodes
  split
  · exact committedSame links w
  · exact tryNetCommitted links w fun _ _ => tryEachParts links w fun _ _ _ _ => .insertNode

theorem removeNodeCommitted (id : String) : Committed links w (w.removeNode id).2 :=
  tryNetCommitted links w fun _ _ ok => .one (.removeNode ok)

theorem setParameterCommitted (id name : String) (value : Parameter) :
    Committed links w (w.setParameter id name value).2 :=
  tryNetCommitted links w fun _ _ ok => .one (.setParameter ok)

theorem moveNodeCommitted (id : String) (dx dy : Double) :
    Committed links w (w.moveNode id dx dy).2 :=
  tryNetCommitted links w fun _ _ ok => .one (.moveNode ok)

theorem removeConnectionCommitted (id : String) : Committed links w (w.removeConnection id).1 :=
  performCommitted links w (.one (.removeConnection id))

theorem removeConnectionsCommitted (ids : List String) :
    Committed links w (w.removeConnections ids).1 :=
  performCommitted links w (removeConnectionsParts links w ids)

theorem removeNodesCommitted (ids : List String) : Committed links w (w.removeNodes ids).2 := by
  unfold removeNodes
  dsimp only
  split
  · exact committedSame links w
  · exact tryNetCommitted links w fun _ _ => tryEachParts links w fun _ _ _ _ => .removeNode

theorem addIncludeCommitted (path : String) : Committed links w (w.addInclude path).2 := by
  have made : Action.Made links
      (.all [warningUnresolved path, including path, collectingExports]) := by
    refine Action.madeAll fun a member => ?_
    simp only [List.mem_cons, List.not_mem_nil, or_false] at member
    rcases member with rfl | rfl | rfl
    · exact madeWarningUnresolved path
    · exact fun _ => .one (.addInclude path)
    · exact fun _ => .one .collectExports
  unfold addInclude
  split
  · exact committedSame links w
  · exact performCommitted links w (made w)

theorem removeIncludeCommitted (path : String) : Committed links w (w.removeInclude path).1 := by
  unfold removeInclude
  split
  · refine performCommitted links w (Action.madeAll (fun a member => ?_) w)
    simp only [List.mem_cons, List.not_mem_nil, or_false] at member
    rcases member with rfl | rfl
    · exact fun _ => .one (.removeInclude path)
    · exact fun _ => .one .collectExports
  · exact committedSame links w

variable {links} {w}

theorem addConnectionCommitted {source target : Socket} (link : links (.between source target)) :
    Committed links w (w.addConnection source target).2 := by
  unfold addConnection
  split <;> rename_i done
  · exact ⟨_, _, Action.madeConnect link done "", rfl⟩
  · exact ⟨_, _, Action.madeConnect link done "", (commitUntold _ rfl).symm⟩

theorem loadMade {d : Document} (link : ∀ c ∈ d.connections, links (.between c.source c.target)) :
    Committed links w (w.load d).1 := by
  unfold load
  dsimp only
  split
  · exact committedSame _ w
  · refine performCommitted _ w (followingMade (fun c member => ?_) w)
    obtain ⟨incoming, new, rfl⟩ := List.mem_map.mp member
    exact link incoming (List.mem_filter.mp new).1

theorem loadCommitted (w : Workspace) (d : Document) :
    Committed (Net.Listed d.connections) w (w.load d).1 :=
  loadMade fun c member => ⟨c, member, rfl, rfl⟩

end Edits
end Workspace

def Request.isQuestion : Request → Bool
  | .compile _ | .shader _ | .canConnect _ _ | .describe _ => true
  | _ => false

namespace Session
open Workspace

theorem compileAnswered (s : Session) (id : String) :
    (s.answer (.compile id)).2.workspace = (s.workspace.compile id).2 := by
  unfold answer
  dsimp only
  split <;> rename_i answered <;> rw [answered]

theorem answerAsked {kept : Cache → Prop} {w : Workspace} (lasting : w.Lasting kept) {s : Session}
    (asked : Asked kept w s.workspace) {request : Request} (question : request.isQuestion = true) :
    Asked kept w (s.answer request).2.workspace := by
  cases request with
  | compile id =>
    rw [compileAnswered]
    exact asked.compile lasting id
  | shader id => exact asked.shader lasting id
  | canConnect source target => exact asked.canConnect lasting source target
  | describe ids => exact asked.describe lasting ids
  | _ => cases question

theorem replied {α : Type} {answer : Except Failure α} {wrap : α → Reply} {reply : Reply}
    (ok : answer.map wrap = .ok reply) : ∃ a, answer = .ok a ∧ wrap a = reply := by
  cases answer with
  | error e => cases ok
  | ok a => exact ⟨a, rfl, Except.ok.inj ok⟩

def makes (s : Session) : Request → List Connection
  | .load d => d.connections.map fun c => .between c.source c.target
  | request => s.links request

theorem makesListed {s : Session} {request : Request} {c : Connection} (member : c ∈ s.makes request) :
    Net.Listed (s.links request) c := by
  cases request with
  | load d =>
    obtain ⟨e, inside, rfl⟩ := List.mem_map.mp member
    exact ⟨e, inside, rfl, rfl⟩
  | _ => exact Net.listedMember member

/- What a request does to the workspace. -/
theorem answerMade (s : Session) (request : Request) {links : Connection → Prop}
    (link : ∀ c ∈ s.makes request, links c) :
    Committed links s.workspace (s.answer request).2.workspace ∨
    request.isQuestion = true ∨
    (∃ options sources, (s.answer request).2.workspace =
      { s.workspace with options := options, sources := sources }) ∨
    ∃ start types registry, request = .useRegistry start types ∧ start.withTypes types = .ok registry ∧
      (s.answer request).2.workspace = s.workspace.withRegistry registry := by
  cases request with
  | addNode type position => exact .inl (addNodeCommitted _ _ type position)
  | insertNode node => exact .inl (insertNodeCommitted _ _ node)
  | insertNodes nodes => exact .inl (insertNodesCommitted _ _ nodes)
  | removeNode id => exact .inl (removeNodeCommitted _ _ id)
  | removeNodes ids => exact .inl (removeNodesCommitted _ _ ids)
  | addConnection source target =>
    exact .inl (addConnectionCommitted (link _ (List.mem_singleton.mpr rfl)))
  | addConnections cs =>
    refine .inl (performCommitted _ _ (Action.madeEach (fun c member => ?_) _))
    exact Action.madeConnecting (link c member) _
  | removeConnection id => exact .inl (removeConnectionCommitted _ _ id)
  | removeConnections ids => exact .inl (removeConnectionsCommitted _ _ ids)
  | setParameter id name value => exact .inl (setParameterCommitted _ _ id name value)
  | moveNode id dx dy => exact .inl (moveNodeCommitted _ _ id dx dy)
  | addInclude path => exact .inl (addIncludeCommitted _ _ path)
  | removeInclude path => exact .inl (removeIncludeCommitted _ _ path)
  | setUniform u => exact .inl (performCommitted _ s.workspace (.one (.setUniform u)))
  | setUniforms us =>
    exact .inl (performCommitted _ _ (Action.madeEach (fun u _ _ => .one (.setUniform u)) _))
  | removeUniform id => exact .inl (performCommitted _ s.workspace (.one (.removeUniform id)))
  | removeUniforms ids =>
    exact .inl (performCommitted _ _ (Action.madeEach (fun id _ _ => .one (.removeUniform id)) _))
  | load d => exact .inl (loadMade fun c member => link _ (List.mem_map_of_mem member))
  | paste d dx dy => exact .inl (performCommitted _ _ (pastingMade link))
  | pasteClipboard dx dy => exact .inl (performCommitted _ _ (pastingMade link))
  | copy ids =>
    refine .inl ?_
    unfold answer
    dsimp only
    split <;> exact committedSame _ _
  | compile id => exact .inr (.inl rfl)
  | shader id => exact .inr (.inl rfl)
  | canConnect source target => exact .inr (.inl rfl)
  | describe ids => exact .inr (.inl rfl)
  | useOptions options => exact .inr (.inr (.inl ⟨options, _, rfl⟩))
  | useSources sources => exact .inr (.inr (.inl ⟨_, sources, rfl⟩))
  | useRegistry start types =>
    cases built : start.withTypes types with
    | error e =>
      refine .inl ?_
      simp only [answer, built]
      exact committedSame _ _
    | ok registry =>
      refine .inr (.inr (.inr ⟨start, types, registry, rfl, built, ?_⟩))
      simp only [answer, built]

theorem answerCases (s : Session) (request : Request) :
    Committed (Net.Listed (s.links request)) s.workspace (s.answer request).2.workspace ∨
    request.isQuestion = true ∨
    (∃ options sources, (s.answer request).2.workspace =
      { s.workspace with options := options, sources := sources }) ∨
    ∃ start types registry, request = .useRegistry start types ∧ start.withTypes types = .ok registry ∧
      (s.answer request).2.workspace = s.workspace.withRegistry registry :=
  s.answerMade request fun _ => makesListed

end Session
end ShaderNet
