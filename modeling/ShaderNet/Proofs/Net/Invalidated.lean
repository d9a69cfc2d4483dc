import Mathlib.Logic.Relation
import ShaderNet.Proofs.Changes
import ShaderNet.Proofs.Net.DownstreamLoop

/-! What an edit tells of is what lies downstream of the place it touches, no more and no less. A connection
that comes or goes makes no difference to what lies downstream of its own end, so it does not matter
whether that is looked up before or after. -/
namespace ShaderNet.Net
open Relation (ReflTransGen)

variable {n m after : Net} {changes : Changes}

theorem downstreamIff (indexed : Indexed n) {seeds : List String} {k : String} :
    (n.downstreamClosure seeds).contains k = true ↔ ∃ s ∈ seeds, ReflTransGen n.Feeds s k := by
  constructor
  · have closed : ∀ c ∈ n.connectionList, (∃ s ∈ seeds, ReflTransGen n.Feeds s c.source.node) →
        ∃ s ∈ seeds, ReflTransGen n.Feeds s c.target.node := by
      rintro c member ⟨s, seed, path⟩
      exact ⟨s, seed, path.tail ⟨c, member, rfl, rfl⟩⟩
    exact @downstreamWithin n indexed (fun k => ∃ s ∈ seeds, ReflTransGen n.Feeds s k) closed seeds
      (fun s seed => ⟨s, seed, .refl⟩) k
  · rintro ⟨s, seed, path⟩
    induction path with
    | refl => exact downstreamSeed indexed seed
    | tail _ step ih =>
      obtain ⟨c, member, rfl, rfl⟩ := step
      exact downstreamClosed indexed seeds c member ih

theorem downstreamFrom (indexed : Indexed n) {id k : String} :
    (n.downstreamClosure [id]).contains k = true ↔ ReflTransGen n.Feeds id k := by
  simp only [downstreamIff indexed, List.mem_singleton, exists_eq_left]

theorem reachFewer (fewer : ∀ c ∈ n.connectionList, c ∈ m.connectionList) {id k : String}
    (path : ReflTransGen n.Feeds id k) : ReflTransGen m.Feeds id k := by
  refine ReflTransGen.mono (fun u v step => ?_) id k path
  obtain ⟨c, member, ends⟩ := step
  exact ⟨c, fewer c member, ends⟩

/- A link to where paths begin leads nowhere new. -/
theorem reachMore {c : Connection} (perm : m.connectionList.Perm (c :: n.connectionList)) (k : String) :
    ReflTransGen m.Feeds c.target.node k ↔ ReflTransGen n.Feeds c.target.node k := by
  constructor
  · intro path
    induction path with
    | refl => exact .refl
    | tail _ step ih =>
      obtain ⟨d, member, rfl, rfl⟩ := step
      rcases List.mem_cons.mp (perm.mem_iff.mp member) with rfl | old
      · exact .refl
      · exact ih.tail ⟨d, old, rfl, rfl⟩
  · exact reachFewer fun d member => perm.mem_iff.mpr (List.mem_cons_of_mem _ member)

/-! Edits one by one -/

theorem insertConnectionInvalidated (sound : Sound n) {c : Connection}
    (ok : n.insertConnection c = .ok (after, changes)) :
    (∀ k, ReflTransGen n.Feeds c.target.node k ↔ ReflTransGen after.Feeds c.target.node k) ∧
      ∀ k, changes.invalidated.contains k = true ↔ ReflTransGen n.Feeds c.target.node k := by
  have sound' := insertConnectionSound sound ok
  obtain ⟨⟨_, _, absent, _⟩, e⟩ := insertConnectionIff.mp ok
  cases e
  have same := reachMore (linkedPerm absent)
  exact ⟨fun k => (same k).symm, fun k => (downstreamFrom sound'.toIndexed).trans (same k)⟩

theorem removeConnectionInvalidated (sound : Sound n) {id : String} {c : Connection}
    (found : n.connections.get? id = some c) :
    (∀ k, ReflTransGen n.Feeds c.target.node k ↔
      ReflTransGen (n.removeConnection id).1.Feeds c.target.node k) ∧
    ∀ k, (n.removeConnection id).2.invalidated.contains k = true ↔
      ReflTransGen n.Feeds c.target.node k := by
  have sound' := removeConnectionSound sound id
  have kept : n.connections.get? c.id = some c := by
    rw [sound.connectionKeys id c found]
    exact found
  rw [removeConnectionFound sound.toIndexed found] at sound' ⊢
  have same := reachMore (unlinkedPerm kept)
  exact ⟨same, fun k => (downstreamFrom sound'.toIndexed).trans (same k).symm⟩

structure Shrunk (n : Net) (id : String) (net : Net) (told : Changes) : Prop where
  sound : Sound net
  fewer : ∀ c ∈ net.connectionList, c ∈ n.connectionList
  below : ∀ k, told.invalidated.contains k = true → ReflTransGen n.Feeds id k

theorem Shrunk.step {id : String} {net : Net} {told : Changes} (shrunk : n.Shrunk id net told)
    {link : String} (touches : ∀ c ∈ n.connectionList, c.id = link →
      c.source.node = id ∨ c.target.node = id) :
    n.Shrunk id (net.removeConnection link).1 (told ++ (net.removeConnection link).2) := by
  have sound' := removeConnectionSound shrunk.sound link
  cases found : net.connections.get? link with
  | none =>
    rw [removeConnectionAbsent found, Changes.appendEmpty]
    exact shrunk
  | some c =>
    have member : c ∈ net.connectionList := Table.memValues.mpr ⟨link, found⟩
    have old := shrunk.fewer c member
    refine ⟨sound', fun d left => ?_, fun k invalidated => ?_⟩
    · rw [removeConnectionFound shrunk.sound.toIndexed found] at left
      exact shrunk.fewer d ((memUnlinked shrunk.sound.toIndexed member).mp left).1
    · rcases Changes.invalidatedAppend.mp invalidated with before | now
      · exact shrunk.below k before
      · have path := ((removeConnectionInvalidated shrunk.sound found).2 k).mp now
        have reach : ReflTransGen n.Feeds c.target.node k := reachFewer shrunk.fewer path
        -- the link starts or ends at the node that goes
        rcases touches c old (shrunk.sound.connectionKeys link c found) with rfl | rfl
        · exact .head ⟨c, old, rfl, rfl⟩ reach
        · exact reach

theorem removeNodeInvalidated (sound : Sound n) {id : String}
    (ok : n.removeNode id = .ok (after, changes)) (k : String) :
    changes.invalidated.contains k = true ↔ ReflTransGen n.Feeds id k := by
  cases (removeNodeIff.mp ok).2
  have start : n.Shrunk id n .empty :=
    ⟨sound, fun _ member => member, fun _ impossible => by cases impossible⟩
  have cleared : n.Shrunk id
      (n.removeConnections ((n.incoming id ++ n.outgoing id).map Connection.id)).1
      (n.removeConnections ((n.incoming id ++ n.outgoing id).map Connection.id)).2 :=
    removeConnectionsInduct (motive := n.Shrunk id) start fun link listed _ _ shrunk =>
      shrunk.step fun c member same => (touchingIds sound.toIndexed member).mp (same ▸ listed)
  rw [Changes.invalidatedAppend, Changes.invalidatedAppend]
  constructor
  · rintro ((start | links) | impossible)
    · exact (downstreamFrom sound.toIndexed).mp start
    · exact cleared.below k links
    · cases impossible
  · exact fun path => .inl (.inl ((downstreamFrom sound.toIndexed).mpr path))

theorem setParameterInvalidated (sound : Sound n) {id name : String} {value : Parameter}
    (ok : n.setParameter id name value = .ok (after, changes)) (k : String) :
    changes.invalidated.contains k = true ↔ (∃ node, n.nodes.get? id = some node ∧
      Parameter.sameOption (node.parameters.get? name) (some value) = false) ∧
      ReflTransGen n.Feeds id k := by
  have indexed := (setParameterSound sound ok).toIndexed
  obtain ⟨node, found, ⟨rfl, rfl, same⟩ | ⟨rfl, rfl, other⟩⟩ := setParameterCases ok
  · simp [nodeFound.mp found, same, Changes.empty, Table.contains]
  · simp only [nodeFound.mp found, Option.some.injEq, exists_eq_left', other, true_and]
    exact downstreamFrom indexed

theorem patchNodeInvalidated (sound : Sound n) {next : Node}
    (ok : n.patchNode next = .ok (after, changes)) (k : String) :
    changes.invalidated.contains k = true ↔ (∃ node, n.nodes.get? next.id = some node ∧
      node.sameContent next = false) ∧ ReflTransGen n.Feeds next.id k := by
  have indexed := (patchNodeSound sound ok).toIndexed
  obtain ⟨node, found, ⟨rfl, rfl, same⟩ | ⟨rfl, rfl, _⟩⟩ := patchNodeCases ok
  · have content : node.sameContent next = true := by
      simp only [Node.same, Bool.and_eq_true] at same
      exact same.2
    simp [nodeFound.mp found, content, Changes.empty, Table.contains]
  · cases content : node.sameContent next with
    | true => simp [nodeFound.mp found, content, Table.contains]
    | false =>
      simp only [nodeFound.mp found, Option.some.injEq, exists_eq_left', content, true_and,
        Bool.false_eq_true, if_false]
      exact downstreamFrom indexed

/-! All edits -/

def perform (n : Net) : Edit → Except Failure (Net × Changes)
  | .insertNode node => n.insertNode node
  | .removeNode id => n.removeNode id
  | .insertConnection c => n.insertConnection c
  | .removeConnection id => .ok (n.removeConnection id)
  | .setParameter id name value => n.setParameter id name value
  | .moveNode id dx dy => n.moveNode id dx dy
  | .patchNode node => n.patchNode node
  | .setConnectionType id type => .ok ((n.setConnectionType id type).1, .empty)
  | .setUniform u => .ok (n.setUniform u)
  | .removeUniform id => .ok (n.removeUniform id)
  | .addInclude path source => .ok (n.addInclude path source)
  | .removeInclude path => .ok (n.removeInclude path)

theorem applyPerform (n : Net) (edit : Edit) : n.apply edit = n.orKeep (n.perform edit) := by
  cases edit <;> rfl

/-- The nodes that have to be computed anew after an edit, by the connections that are there before it. -/
def Outdated (n : Net) : Edit → String → Prop
  | .insertNode node, k => k = node.id
  | .removeNode id, k => ReflTransGen n.Feeds id k
  | .insertConnection c, k => ReflTransGen n.Feeds c.target.node k
  | .removeConnection id, k =>
    ∃ c, n.connections.get? id = some c ∧ ReflTransGen n.Feeds c.target.node k
  | .setParameter id name value, k => (∃ node, n.nodes.get? id = some node ∧
      Parameter.sameOption (node.parameters.get? name) (some value) = false) ∧
      ReflTransGen n.Feeds id k
  | .patchNode next, k => (∃ node, n.nodes.get? next.id = some node ∧
      node.sameContent next = false) ∧ ReflTransGen n.Feeds next.id k
  | .moveNode .., _ | .setConnectionType .., _ | .setUniform _, _ | .removeUniform _, _
  | .addInclude .., _ | .removeInclude _, _ => False

theorem performInvalidated (sound : Sound n) {edit : Edit} {r : Net × Changes}
    (ok : n.perform edit = .ok r) (k : String) :
    r.2.invalidated.contains k = true ↔ n.Outdated edit k := by
  have untold : r.2.invalidated = ∅ → (r.2.invalidated.contains k = true ↔ False) :=
    fun none => iff_of_false (none ▸ Bool.false_ne_true) not_false
  cases edit with
  | insertNode node =>
    cases (insertNodeIff.mp ok).2
    simp only [KeySet.containsOfList, List.mem_singleton, Outdated]
  | removeNode id => exact removeNodeInvalidated sound ok k
  | insertConnection c => exact (insertConnectionInvalidated sound ok).2 k
  | removeConnection id =>
    cases ok
    cases found : n.connections.get? id with
    | none => simp [Outdated, found, removeConnectionAbsent found, Changes.empty, Table.contains]
    | some c =>
      simp only [Outdated, found, Option.some.injEq, exists_eq_left']
      exact (removeConnectionInvalidated sound found).2 k
  | setParameter id name value => exact setParameterInvalidated sound ok k
  | patchNode next => exact patchNodeInvalidated sound ok k
  | moveNode id dx dy =>
    obtain ⟨_, _, _, told⟩ := moveNodeCases ok
    exact untold (congrArg Changes.invalidated told)
  | setConnectionType id type =>
    cases ok
    exact untold rfl
  | setUniform u =>
    cases ok
    exact untold (by unfold setUniform; split <;> rfl)
  | removeUniform id =>
    cases ok
    exact untold (by unfold removeUniform; split <;> rfl)
  | addInclude path source =>
    cases ok
    exact untold (by unfold addInclude; split <;> rfl)
  | removeInclude path =>
    cases ok
    exact untold (by unfold removeInclude; split <;> rfl)

theorem invalidatedExact (edits : List Edit) :
    let n := empty.run edits
    (∀ seeds, (∃ last, Sweep.Leads n ⟨seeds, ∅⟩ last ∧ last.next n = none ∧
      last.reached = n.downstreamClosure seeds) ∧
      ∀ k, (n.downstreamClosure seeds).contains k = true ↔ ∃ s ∈ seeds, ReflTransGen n.Feeds s k) ∧
    ∀ edit after changes, n.perform edit = .ok (after, changes) →
      after = n.apply edit ∧ (∀ k, changes.invalidated.contains k = true ↔ n.Outdated edit k) ∧
      ∀ c, edit = .insertConnection c ∨
          (∃ id, edit = .removeConnection id ∧ n.connections.get? id = some c) →
        ∀ k, ReflTransGen n.Feeds c.target.node k ↔ ReflTransGen after.Feeds c.target.node k := by
  intro n
  have sound : Sound n := runSound emptySound edits
  have indexed := sound.toIndexed
  refine ⟨fun seeds => ⟨downstreamClosureLeads indexed seeds, fun k => downstreamIff indexed⟩,
    fun edit after changes ok => ?_⟩
  refine ⟨?_, performInvalidated sound ok, fun c link => ?_⟩
  · rw [applyPerform, ok]
    rfl
  · rcases link with rfl | ⟨id, rfl, found⟩
    · exact (insertConnectionInvalidated sound ok).1
    · cases congrArg Prod.fst (Except.ok.inj ok)
      exact (removeConnectionInvalidated sound found).1

def knot : List Edit := [
  .insertNode (.named "a" "float"), .insertNode (.named "b" "add"), .insertNode (.named "c" "mix"),
  .insertNode (.named "d" "sin"), .insertNode (.named "e" "sin"),
  .insertConnection (.between ⟨"a", "out"⟩ ⟨"b", "a"⟩),
  .insertConnection (.between ⟨"b", "out"⟩ ⟨"c", "x"⟩),
  .insertConnection (.between ⟨"c", "out"⟩ ⟨"b", "b"⟩),
  .insertConnection (.between ⟨"c", "out"⟩ ⟨"c", "y"⟩),
  .insertConnection (.between ⟨"c", "out"⟩ ⟨"d", "x"⟩)]

theorem invalidatedExactKnot :
    let n := empty.run knot
    ∃ after changes, n.perform (.removeNode "c") = .ok (after, changes) ∧
      changes.invalidated.keys = ["b", "c", "d"] ∧ changes.removedConnections.length = 4 ∧
      (∀ k, changes.invalidated.contains k = true ↔ ReflTransGen n.Feeds "c" k) ∧
      ∀ k, (n.downstreamClosure ["e", "nowhere"]).contains k = true ↔
        ∃ s ∈ ["e", "nowhere"], ReflTransGen n.Feeds s k := by
  have facts : ((empty.run knot).perform (.removeNode "c")).toOption.any (fun r =>
      r.2.invalidated.keys = ["b", "c", "d"] && r.2.removedConnections.length = 4) = true := by
    decide +kernel
  obtain ⟨closure, told⟩ := invalidatedExact knot
  cases ok : (empty.run knot).perform (.removeNode "c") with
  | error e =>
    rw [ok] at facts
    cases facts
  | ok r =>
    rw [ok] at facts
    simp only [Except.toOption, Option.any_some, Bool.and_eq_true, decide_eq_true_eq] at facts
    exact ⟨r.1, r.2, ok, facts.1, facts.2, (told _ _ _ ok).2.1, (closure ["e", "nowhere"]).2⟩

end ShaderNet.Net
