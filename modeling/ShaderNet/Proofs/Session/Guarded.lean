import ShaderNet.Proofs.Evaluate.Acyclic
import ShaderNet.Proofs.Net.UpstreamKept
import ShaderNet.Proofs.Session.Readers
import ShaderNet.Proofs.Workspace.Paste

/-! Sessions that ask before they connect. Whatever else is edited, and wherever copies are pasted, the
net stays without cycles, and nothing is ever answered as if there were one. -/
namespace ShaderNet
open Number (Double)
open Relation (TransGen)

def Document.Rankable (d : Document) : Prop :=
  ∃ rank : String → Nat, ∀ c ∈ d.connections, rank c.source.node < rank c.target.node

namespace Workspace

variable {links : Connection → Prop} {used : List Connection} {w after : Workspace}
  {changes : Changes}

theorem partsCharted (within : ∀ c, links c → Net.Listed used c) (parts : Parts links w after changes)
    (charted : w.net.Charted used) : after.net.Charted used := by
  refine ⟨partsSound parts charted.toSound, fun c member => ?_⟩
  rcases partsEntries parts charted.toSound member with member | link
  · exact charted.listed c member
  · exact within c link

/-! Pasting -/

theorem surroundingsNodes (d : Document) (w : Workspace) :
    (pastingSurroundings d w).1.net.nodes = w.net.nodes := by
  have same : ∀ {actions : List Action}, (∀ a ∈ actions, ∀ w, (a w).1.net.nodes = w.net.nodes) →
      ∀ w, (Action.all actions w).1.net.nodes = w.net.nodes :=
    Action.allInduct (fun _ => rfl) fun a b first second w => (second (a w).1).trans (first w)
  have set : ∀ u w, (settingUniform u w).1.net.nodes = w.net.nodes := by
    intro u w
    show (w.net.setUniform u).1.nodes = _
    unfold Net.setUniform
    split <;> rfl
  have uniforms : ∀ w, (pastingUniforms d w).1.net.nodes = w.net.nodes := by
    refine same fun a member w => ?_
    obtain ⟨u, _, rfl⟩ := List.mem_map.mp member
    dsimp only
    split
    · exact set u w
    · rfl
  unfold pastingSurroundings
  dsimp only
  split
  · exact uniforms w
  · refine same (fun a member => ?_) w
    simp only [List.mem_cons, List.not_mem_nil, or_false] at member
    rcases member with rfl | rfl | rfl
    · refine same fun a member w => ?_
      obtain ⟨path, _, rfl⟩ := List.mem_map.mp member
      have added := congrArg Net.nodes (w.net.addIncludeNet path (w.sources path))
      exact added
    · exact fun _ => rfl
    · exact uniforms

/- A pasted node takes its rank from the document. Nothing that was there before is called like it. -/
theorem pastedRanked {d : Document} (dx dy : Double) (sound : w.net.Sound)
    (ranked : ∃ rank, w.net.Ranked rank) (rankable : d.Rankable) :
    ∃ rank : String → Nat, ∀ c ∈ w.net.connectionList ++ w.pastedLinks d dx dy,
      rank c.source.node < rank c.target.node := by
  obtain ⟨old, olds⟩ := ranked
  obtain ⟨new, news⟩ := rankable
  let names := pastedNames dx dy d.nodes (pastingSurroundings d w).1.net
  have taken : ∀ {id}, w.net.contains id = true → ¬ ∃ a, (a, id) ∈ names := by
    rintro id present ⟨a, named⟩
    have fresh := namesFresh named
    rw [Net.contains, surroundingsNodes] at fresh
    exact absurd (present.symm.trans fresh) (by decide)
  let rank : String → Nat := fun id =>
    open Classical in if named : ∃ a, (a, id) ∈ names then new named.choose else old id
  have before : ∀ {id}, w.net.contains id = true → rank id = old id :=
    fun present => dif_neg (taken present)
  have pasted : ∀ {a id}, (a, id) ∈ names → rank id = new a := by
    intro a id named
    have given : ∃ a, (a, id) ∈ names := ⟨a, named⟩
    exact (dif_pos given).trans (congrArg new (namesInjective given.choose_spec named))
  refine ⟨rank, fun c member => ?_⟩
  rcases List.mem_append.mp member with present | link
  · obtain ⟨source, target⟩ := sound.endsExist c present
    rw [before source, before target]
    exact olds c present
  · obtain ⟨c', listed, made⟩ := List.mem_filterMap.mp link
    rw [pasteNodesResult] at made
    unfold renamed at made
    split at made <;> cases made
    rename_i source target left right
    show rank source < rank target
    rw [pasted (Table.getOfListMember left), pasted (Table.getOfListMember right)]
    exact news c' listed

theorem copyRankable {ids : List String} {d : Document} (ranked : ∃ rank, w.net.Ranked rank)
    (ok : w.copy ids = .ok d) : d.Rankable := by
  obtain ⟨rank, upwards⟩ := ranked
  unfold copy at ok
  split at ok <;> cases ok
  exact ⟨rank, fun c member => upwards c (List.mem_filter.mp member).1⟩

theorem canConnectTrue {source target : Socket} (good : (w.canConnect source target).1 = .ok true) :
    (w.net.downstreamClosure [target.node]).contains source.node = false ∧
      (w.canConnect source target).2.net = w.net := by
  unfold canConnect at good ⊢
  split at good
  · cases good
  · cases good
  · split at good
    · cases good
    · rename_i apart
      refine ⟨Bool.not_eq_true _ ▸ fun affected => apart (.inr affected), ?_⟩
      rw [if_neg apart]
      dsimp only
      split
      · rfl
      · split <;> rfl

end Workspace

def Request.isFree : Request → Bool
  | .addConnection _ _ | .addConnections _ | .load _ | .paste _ _ _ => false
  | _ => true

namespace Session
open Workspace

/-- Sessions from the empty workspace, with all documents they were given as copies. A connection is
asked for only right after it was found to be a good one. -/
inductive Guarded : List Document → Session → Prop
  | start : Guarded [] (Session.start .empty)
  | edit {copied s request} (before : Guarded copied s) (free : request.isFree = true) :
      Guarded copied (s.handle request).2
  | copy {copied s ids d} (before : Guarded copied s)
      (given : (s.handle (.copy ids)).1 = .ok (.document d)) :
      Guarded (d :: copied) (s.handle (.copy ids)).2
  | paste {copied s d} (before : Guarded copied s) (copy : d ∈ copied) (dx dy : Double) :
      Guarded copied (s.handle (.paste d dx dy)).2
  | connect {copied s source target} (before : Guarded copied s)
      (good : (s.handle (.canConnect source target)).1 = .ok (.verdict true)) :
      Guarded copied
        ((s.handle (.canConnect source target)).2.handle (.addConnection source target)).2

variable {s : Session}

theorem answerCalm (calm : s.workspace.Calm) {request : Request}
    (ranked : ∃ rank : String → Nat, ∀ c ∈ s.workspace.net.connectionList ++ s.links request,
      rank c.source.node < rank c.target.node) : (s.answer request).2.workspace.Calm := by
  have sound := answerSound calm.sound request
  have idle := answerIdle calm.idle request
  obtain ⟨rank, upwards⟩ := ranked
  have old : ∀ c ∈ s.workspace.net.connectionList,
      Net.Listed (s.workspace.net.connectionList ++ s.links request) c :=
    fun c member => Net.listedMember (List.mem_append.mpr (.inl member))
  have listed : ∀ c ∈ (s.answer request).2.workspace.net.connectionList,
      Net.Listed (s.workspace.net.connectionList ++ s.links request) c := by
    rcases s.answerCases request with
      ⟨mid, changes, parts, same⟩ | question | ⟨options, sources, same⟩ | ⟨_, _, registry, _, _, same⟩
    · rw [same]
      refine (partsCharted (fun c link => ?_) parts ⟨calm.sound, old⟩).listed
      obtain ⟨d, member, ends⟩ := link
      exact ⟨d, List.mem_append.mpr (.inr member), ends⟩
    · have lasting : s.workspace.Lasting fun _ => True := ⟨fun _ _ _ => trivial, fun _ _ => trivial⟩
      have asked := answerAsked lasting (askedRefl trivial) question
      exact Net.retypedListed asked.net calm.sound.toIndexed sound.toIndexed old
    · rw [same]
      exact old
    · rw [same]
      exact old
  exact ⟨sound, ⟨rank, Net.Ranked.listed upwards listed⟩, idle⟩

theorem answerClipboard (s : Session) (request : Request) :
    (s.answer request).2.clipboard = s.clipboard ∨
      ∃ ids, s.workspace.copy ids = .ok (s.answer request).2.clipboard := by
  cases request with
  | copy ids =>
    cases copied : s.workspace.copy ids with
    | ok d =>
      refine .inr ⟨ids, ?_⟩
      simp only [answer, copied]
    | error e =>
      refine .inl ?_
      simp only [answer, copied]
  | compile id =>
    unfold answer
    dsimp only
    split <;> exact .inl rfl
  | useRegistry start types =>
    unfold answer
    dsimp only
    split <;> exact .inl rfl
  | _ => exact .inl rfl

theorem linksFree (s : Session) {request : Request} (free : request.isFree = true) :
    s.links request = [] ∨
      ∃ dx dy, s.links request = s.workspace.pastedLinks s.clipboard dx dy := by
  cases request with
  | pasteClipboard dx dy => exact .inr ⟨dx, dy, rfl⟩
  | addConnection | addConnections | load | paste => cases free
  | _ => exact .inl rfl

theorem verdictTrue {source target : Socket}
    (good : (s.handle (.canConnect source target)).1 = .ok (.verdict true)) :
    (s.workspace.canConnect source target).1 = .ok true := by
  obtain ⟨_, answered, same⟩ := replied good
  cases same
  exact answered

theorem documentGiven {ids : List String} {d : Document}
    (given : (s.handle (.copy ids)).1 = .ok (.document d)) : s.workspace.copy ids = .ok d := by
  cases copied : s.workspace.copy ids with
  | error e =>
    simp only [handle, answer, copied] at given
    cases given
  | ok d' =>
    simp only [handle, answer, copied] at given
    cases given
    rfl

structure Cautious (copied : List Document) (s : Session) : Prop where
  calm : s.workspace.Calm
  clipboard : s.clipboard.Rankable
  copies : ∀ d ∈ copied, d.Rankable

variable {copied : List Document}

theorem Cautious.step (cautious : Cautious copied s) {request : Request}
    (ranked : ∃ rank : String → Nat, ∀ c ∈ s.workspace.net.connectionList ++ s.links request,
      rank c.source.node < rank c.target.node) : Cautious copied (s.handle request).2 := by
  refine ⟨answerCalm cautious.calm ranked, ?_, cautious.copies⟩
  change (s.answer request).2.clipboard.Rankable
  rcases s.answerClipboard request with same | ⟨ids, ok⟩
  · rw [same]
    exact cautious.clipboard
  · exact copyRankable cautious.calm.ranked ok

theorem Cautious.quiet (cautious : Cautious copied s) {request : Request}
    (none : s.links request = []) : Cautious copied (s.handle request).2 := by
  refine cautious.step ?_
  rw [none, List.append_nil]
  exact cautious.calm.ranked

theorem Cautious.pasted (cautious : Cautious copied s) {d : Document} (rankable : d.Rankable)
    {dx dy : Double} {request : Request} (links : s.links request = s.workspace.pastedLinks d dx dy) :
    Cautious copied (s.handle request).2 := by
  refine cautious.step ?_
  rw [links]
  exact pastedRanked dx dy cautious.calm.sound cautious.calm.ranked rankable

theorem Cautious.connected (cautious : Cautious copied s) {source target : Socket}
    (good : (s.handle (.canConnect source target)).1 = .ok (.verdict true)) :
    Cautious copied
      ((s.handle (.canConnect source target)).2.handle (.addConnection source target)).2 := by
  have asked : Cautious copied (s.handle (.canConnect source target)).2 := cautious.quiet rfl
  obtain ⟨apart, same⟩ := canConnectTrue (verdictTrue good)
  obtain ⟨rank, ranked⟩ := cautious.calm.ranked
  obtain ⟨rank', upwards⟩ := Net.Ranked.lifted cautious.calm.sound.toIndexed ranked apart
  refine asked.step ⟨rank', fun c member => upwards c ?_⟩
  change c ∈ (s.workspace.canConnect source target).2.net.connectionList ++ _ at member
  rw [same] at member
  exact (List.mem_append.mp member).elim (List.mem_cons_of_mem _) fun link =>
    List.mem_singleton.mp link ▸ List.mem_cons_self

theorem guardedCautious (guarded : Guarded copied s) : Cautious copied s := by
  induction guarded with
  | start =>
    refine ⟨⟨Net.emptySound, ⟨fun _ => 0, ?_⟩, rfl⟩, ⟨fun _ => 0, ?_⟩, List.forall_mem_nil _⟩
    · exact List.forall_mem_nil _
    · exact List.forall_mem_nil _
  | @edit _ s _ _ free cautious =>
    rcases s.linksFree free with none | ⟨dx, dy, links⟩
    · exact cautious.quiet none
    · exact cautious.pasted cautious.clipboard links
  | @copy _ s ids d _ given cautious =>
    have kept : Cautious _ (s.handle (.copy ids)).2 := cautious.quiet rfl
    refine ⟨kept.calm, kept.clipboard, List.forall_mem_cons.mpr ⟨?_, cautious.copies⟩⟩
    exact copyRankable cautious.calm.ranked (documentGiven given)
  | paste _ copy _ _ cautious => exact cautious.pasted (cautious.copies _ copy) rfl
  | connect _ good cautious => exact cautious.connected good

theorem questionPlain (calm : s.workspace.Calm) {request : Request}
    (question : request.isQuestion = true) : FailsPlainly (s.handle request).1 := by
  cases request with
  | compile id =>
    have plain := compilePlain calm id
    simp only [handle, answer]
    split <;> rename_i answered <;> rw [answered] at plain
    · exact plainlyOk _
    · exact plainlyError (plain _ rfl)
  | shader id => exact plainlyMap (shaderPlain calm id)
  | canConnect source target => exact plainlyMap (canConnectPlain calm source target)
  | describe ids => exact plainlyMap (describePlain calm ids).1
  | _ => cases question

theorem descriptionsPlain (calm : s.workspace.Calm) {request : Request}
    (question : request.isQuestion = true) {nodes : List Description}
    (told : (s.handle request).1 = .ok (.descriptions nodes)) : ∀ d ∈ nodes, d.IsPlain := by
  cases request with
  | compile id =>
    simp only [handle, answer] at told
    split at told <;> cases told
  | shader id =>
    obtain ⟨_, _, same⟩ := replied told
    cases same
  | canConnect source target =>
    obtain ⟨_, _, same⟩ := replied told
    cases same
  | describe ids =>
    obtain ⟨_, answered, same⟩ := replied told
    cases same
    exact (describePlain calm ids).2 _ answered
  | _ => cases question

theorem guardedAcyclic (guarded : Guarded copied s) :
    (∀ id, ¬ TransGen s.workspace.net.Feeds id id) ∧
      ∀ request : Request, request.isQuestion = true →
        (∀ path, (s.handle request).1 ≠ .error (.cyclic path)) ∧
          ∀ nodes, (s.handle request).1 = .ok (.descriptions nodes) →
            ∀ d ∈ nodes, ∀ path, d.error ≠ some (Failure.cyclic path).message := by
  have calm := (guardedCautious guarded).calm
  obtain ⟨rank, ranked⟩ := calm.ranked
  refine ⟨fun id => ranked.acyclic id, fun request question => ⟨fun path cyclic => ?_, ?_⟩⟩
  · cases questionPlain calm question _ cyclic
  · intro nodes told d member path failed
    obtain ⟨e, plain, same⟩ := descriptionsPlain calm question told d member _ failed
    exact Failure.plainMessage plain path same.symm

def guardedSession : Session :=
  (start .empty).run [.insertNode (.named "a" "float"), .insertNode (.named "n" "negate"),
    .canConnect ⟨"a", "out"⟩ ⟨"n", "a"⟩, .addConnection ⟨"a", "out"⟩ ⟨"n", "a"⟩, .copy ["n", "a"],
    .paste ⟨1, [], [.named "a" "float", .named "n" "negate"],
      [.between ⟨"a", "out"⟩ ⟨"n", "a"⟩], ∅⟩ (.ofInt 1) (.ofInt 2)]

theorem guardedAcyclicPasted :
    ((guardedSession.workspace.net.connectionList.map fun c => (c.source.node, c.target.node)) =
        [("a", "n"), ("float_1", "negate_1")] ∧
      ∃ copied, Guarded copied guardedSession) ∧
    (∀ id, ¬ TransGen guardedSession.workspace.net.Feeds id id) ∧
      ∀ request : Request, request.isQuestion = true →
        (∀ path, (guardedSession.handle request).1 ≠ .error (.cyclic path)) ∧
          ∀ nodes, (guardedSession.handle request).1 = .ok (.descriptions nodes) →
            ∀ d ∈ nodes, ∀ path, d.error ≠ some (Failure.cyclic path).message := by
  have guarded : Guarded [_] guardedSession :=
    .paste (.copy (.connect (.edit (.edit .start rfl) rfl) rfl) rfl) List.mem_cons_self _ _
  exact ⟨⟨by decide +kernel, _, guarded⟩, guardedAcyclic guarded⟩

end Session
end ShaderNet
