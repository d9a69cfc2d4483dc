import Mathlib.Tactic.Tauto
import ShaderNet.Proofs.Net.Plan
import ShaderNet.Proofs.Workspace.Edits
import ShaderNet.Proofs.Workspace.Paste

/-! Pasting what was copied from the same workspace. What was selected is there once more under new
names, with the connections within the selection, and nothing else is touched. -/
namespace ShaderNet
open Number (Double)

def Node.duplicate (name : String → String) (dx dy : Double) (node : Node) : Node :=
  { node with id := name node.id, position := node.position.shift dx dy }

def Connection.duplicate (name : String → String) (c : Connection) : Connection :=
  .between ⟨name c.source.node, c.source.name⟩ ⟨name c.target.node, c.target.name⟩

namespace Net

def chosenNodes (n : Net) (ids : List String) : List Node :=
  n.nodeList.filter fun node => decide (node.id ∈ ids)

def chosenConnections (n : Net) (ids : List String) : List Connection :=
  n.connectionList.filter fun c => decide (c.source.node ∈ ids) && decide (c.target.node ∈ ids)

def nodeDuplicates (n : Net) (ids : List String) (name : String → String) (dx dy : Double) :
    List Node := (n.chosenNodes ids).map (.duplicate name dx dy)

def connectionDuplicates (n : Net) (ids : List String) (name : String → String) : List Connection :=
  (n.chosenConnections ids).map (.duplicate name)

def placed (n : Net) (ids : List String) (name : String → String) (dx dy : Double) : Net :=
  (n.nodeDuplicates ids name dx dy).foldl inserted n

structure NewNames (n : Net) (ids : List String) (name : String → String) : Prop where
  absent : ∀ id ∈ ids, n.contains (name id) = false
  distinct : ∀ a ∈ ids, ∀ b ∈ ids, name a = name b → a = b

structure Duplicated (ids : List String) (name : String → String) (dx dy : Double)
    (before after : Net) : Prop where
  nodes : after.nodeList = before.nodeList ++ before.nodeDuplicates ids name dx dy
  connections : ∀ c, c ∈ after.connectionList ↔
    c ∈ before.connectionList ∨ c ∈ before.connectionDuplicates ids name
  uniforms : after.uniforms = before.uniforms
  includes : after.includes = before.includes

variable {n : Net} {ids : List String} {name : String → String}

theorem memChosenNodes (sound : n.Sound) {node : Node} :
    node ∈ n.chosenNodes ids ↔ n.nodes.get? node.id = some node ∧ node.id ∈ ids := by
  rw [chosenNodes, List.mem_filter, Net.memNodeList sound, decide_eq_true_iff]

theorem memChosenConnections {c : Connection} : c ∈ n.chosenConnections ids ↔
    c ∈ n.connectionList ∧ c.source.node ∈ ids ∧ c.target.node ∈ ids := by
  rw [chosenConnections, List.mem_filter, Bool.and_eq_true, decide_eq_true_iff, decide_eq_true_iff]

theorem chosenInside (sound : n.Sound) {id : String} (member : id ∈ (n.chosenNodes ids).map Node.id) :
    id ∈ ids := by
  obtain ⟨node, chosen, rfl⟩ := List.mem_map.mp member
  exact ((memChosenNodes sound).mp chosen).2

theorem duplicateIds (n : Net) (ids : List String) (name : String → String) (dx dy : Double) :
    (n.nodeDuplicates ids name dx dy).map Node.id = ((n.chosenNodes ids).map Node.id).map name := by
  rw [nodeDuplicates, List.map_map, List.map_map]
  rfl

theorem chosenNodup (sound : n.Sound) (ids : List String) :
    ((n.chosenNodes ids).map Node.id).Nodup := by
  have all : (n.nodeList.map Node.id).Nodup := nodeListIds sound ▸ sound.orderNodup
  exact all.sublist (List.filter_sublist.map Node.id)

theorem nodeListInserted (sound : n.Sound) {node : Node} (fresh : n.contains node.id = false) :
    (n.inserted node).nodeList = n.nodeList ++ [node] := by
  have others : ∀ id ∈ n.order, (n.inserted node).node? id = n.node? id := by
    intro id member
    have present := (sound.orderNodes id).mp member
    refine (Table.getInsert ..).trans (if_neg fun same => ?_)
    rw [← same, fresh] at present
    cases present
  have last : (n.inserted node).node? node.id = some node :=
    (Table.getInsert ..).trans (if_pos rfl)
  rw [nodeList, show (n.inserted node).order = n.order ++ [node.id] from rfl, List.filterMap_append,
    List.filterMap_congr others, List.filterMap_cons_some last]
  rfl

theorem nodeListInsertedAll (sound : n.Sound) {nodes : List Node}
    (nodup : (nodes.map Node.id).Nodup) (fresh : ∀ node ∈ nodes, n.contains node.id = false) :
    (nodes.foldl inserted n).nodeList = n.nodeList ++ nodes := by
  induction nodes generalizing n with
  | nil => exact (List.append_nil _).symm
  | cons node rest ih =>
    obtain ⟨different, later⟩ := List.nodup_cons.mp nodup
    have absent := fresh node List.mem_cons_self
    have next : (n.inserted node).Sound := insertNodeSound sound (insertNodeIff.mpr ⟨absent, rfl⟩)
    rw [List.foldl_cons, ih next later fun other member => ?_, nodeListInserted sound absent,
      List.append_assoc, List.singleton_append]
    rw [← Bool.not_eq_true, containsInserted]
    rintro (same | old)
    · exact different (same ▸ List.mem_map.mpr ⟨other, member, rfl⟩)
    · rw [fresh other (List.mem_cons_of_mem _ member)] at old
      cases old

theorem containsInsertedAll {nodes : List Node} {id : String} :
    (nodes.foldl inserted n).contains id = true ↔
      n.contains id = true ∨ id ∈ nodes.map Node.id := by
  induction nodes generalizing n with
  | nil => simp
  | cons node rest ih =>
    rw [List.foldl_cons, ih, containsInserted, List.map_cons, List.mem_cons, eq_comm]
    tauto

theorem OnlyLinks.nodeList {m : Net} (frame : OnlyLinks n m) : m.nodeList = n.nodeList := by
  have nodes : m.node? = n.node? := funext fun id => congrArg (Table.get? · id) frame.nodes
  rw [Net.nodeList, Net.nodeList, frame.order, nodes]

theorem duplicateEnds : ∀ c ∈ n.connectionDuplicates ids name, c.target.node ∈ ids.map name := by
  intro c member
  obtain ⟨old, chosen, rfl⟩ := List.mem_map.mp member
  exact List.mem_map.mpr ⟨_, (memChosenConnections.mp chosen).2.2, rfl⟩

/-! Where the duplicate goes -/

theorem placedContains (sound : n.Sound) {dx dy : Double} (present : ∀ id ∈ ids, n.contains id = true) :
    ∀ id ∈ ids, (n.placed ids name dx dy).contains (name id) = true := by
  intro id member
  obtain ⟨node, found⟩ := Table.containsIff.mp (present id member)
  cases sound.nodeKeys id node found
  have chosen : node ∈ n.chosenNodes ids := (memChosenNodes sound).mpr ⟨found, member⟩
  refine containsInsertedAll.mpr (.inr (List.mem_map.mpr ⟨node.duplicate name dx dy, ?_, rfl⟩))
  exact List.mem_map.mpr ⟨node, chosen, rfl⟩

section Duplicate

variable (sound : n.Sound) (names : n.NewNames ids name)
include sound names

theorem duplicateNodup (dx dy : Double) :
    ((n.nodeDuplicates ids name dx dy).map Node.id).Nodup := by
  rw [duplicateIds]
  exact (chosenNodup sound ids).map_on fun a left b right =>
    names.distinct a (chosenInside sound left) b (chosenInside sound right)

theorem duplicateFresh {dx dy : Double} :
    ∀ node ∈ n.nodeDuplicates ids name dx dy, n.contains node.id = false := by
  intro node member
  obtain ⟨old, chosen, rfl⟩ := List.mem_map.mp member
  exact names.absent _ ((memChosenNodes sound).mp chosen).2

/- An old connection goes between old nodes, and a new one between new nodes. -/
theorem duplicateApart {c e : Connection} (old : e ∈ n.connectionList)
    (new : c ∈ n.connectionDuplicates ids name) :
    e.source.node ≠ c.source.node ∧ e.target.node ≠ c.target.node := by
  obtain ⟨c, chosen, rfl⟩ := List.mem_map.mp new
  obtain ⟨_, source, target⟩ := memChosenConnections.mp chosen
  obtain ⟨present, present'⟩ := sound.endsExist e old
  constructor
  · intro same
    rw [same] at present
    exact absurd (present.symm.trans (names.absent _ source)) (by decide)
  · intro same
    rw [same] at present'
    exact absurd (present'.symm.trans (names.absent _ target)) (by decide)

theorem duplicateTargets :
    ((n.connectionDuplicates ids name).map Connection.target).Nodup := by
  have called : (n.connectionDuplicates ids name).map Connection.target =
      ((n.chosenConnections ids).map Connection.target).map fun s => ⟨name s.node, s.name⟩ := by
    rw [connectionDuplicates, List.map_map, List.map_map]
    rfl
  have once : ((n.chosenConnections ids).map Connection.target).Nodup :=
    sound.fanIn.sublist (List.filter_sublist.map Connection.target)
  have inside : ∀ s ∈ (n.chosenConnections ids).map Connection.target, s.node ∈ ids := by
    intro s member
    obtain ⟨c, chosen, rfl⟩ := List.mem_map.mp member
    exact (memChosenConnections.mp chosen).2.2
  rw [called]
  refine once.map_on fun s left t right same => ?_
  obtain ⟨node, socket⟩ := Socket.mk.inj same
  exact Socket.ext (names.distinct _ (inside s left) _ (inside t right) node) socket

theorem placedSound {dx dy : Double} : (n.placed ids name dx dy).Sound :=
  insertedSound sound (duplicateNodup sound names dx dy) fun node member =>
    Table.containsFalse.mp (duplicateFresh sound names node member)

/- Only nodes are different while there are no connections yet. -/
theorem placedFrame {dx dy : Double} : ∃ nodes order, n.placed ids name dx dy =
    { n with nodes := nodes, order := order } :=
  ⟨_, _, insertedNet (duplicateNodup sound names dx dy) fun node member =>
    Table.containsFalse.mp (duplicateFresh sound names node member)⟩

theorem placedLinks {dx dy : Double} :
    (n.placed ids name dx dy).connectionList = n.connectionList := by
  obtain ⟨nodes, order, same⟩ := @placedFrame n ids name sound names dx dy
  rw [same]
  rfl

/- No connection leads from a duplicate back to what was there before. -/
theorem duplicateClosed {dx dy : Double} :
    ∀ c ∈ (n.placed ids name dx dy).connectionList ++ n.connectionDuplicates ids name,
      c.source.node ∈ ids.map name → c.target.node ∈ ids.map name := by
  intro c member start
  rcases List.mem_append.mp member with old | new
  · rw [placedLinks sound names] at old
    obtain ⟨id, chosen, same⟩ := List.mem_map.mp start
    have absent := names.absent id chosen
    rw [same, (sound.endsExist c old).1] at absent
    cases absent
  · exact duplicateEnds c new

variable (apart : Apart (n.connectionList ++ n.connectionDuplicates ids name))
  (present : ∀ id ∈ ids, n.contains id = true)
include apart present

theorem duplicateFits {dx dy : Double} :
    (n.placed ids name dx dy).Fits (n.connectionDuplicates ids name) := by
  have targets := duplicateTargets sound names
  have there := @placedContains n ids name sound dx dy present
  have old := @placedLinks n ids name sound names dx dy
  have placed := @placedSound n ids name sound names dx dy
  constructor
  · constructor
    · intro c member
      obtain ⟨old, chosen, rfl⟩ := List.mem_map.mp member
      obtain ⟨_, source, target⟩ := memChosenConnections.mp chosen
      exact ⟨there _ source, there _ target⟩
    · intro c member
      refine Option.eq_none_iff_forall_ne_some.mpr fun e found => ?_
      have listed : e ∈ n.connectionList := old ▸ Table.memValues.mpr ⟨_, found⟩
      have ends := apart e (List.mem_append.mpr (.inl listed)) c (List.mem_append.mpr (.inr member))
        (placed.connectionKeys _ e found)
      exact (duplicateApart sound names listed member).1 (congrArg Socket.node ends.1)
    · refine (targets.of_map _).map_on fun c left d right same => ?_
      refine List.inj_on_of_nodup_map targets left right ?_
      exact (apart c (List.mem_append.mpr (.inr left)) d (List.mem_append.mpr (.inr right)) same).2
    · exact targets
  · intro c member
    refine (feedingNone placed.toIndexed).mpr fun e listed same => ?_
    exact (duplicateApart sound names (old ▸ listed) member).2 (congrArg Socket.node same)

theorem placedDuplicated {dx dy : Double} : n.Duplicated ids name dx dy
    ((n.connectionDuplicates ids name).foldl offered (n.placed ids name dx dy)) := by
  have fits := @duplicateFits n ids name sound names apart present dx dy
  obtain ⟨frame, _, members⟩ := offeredAll (placedSound sound names) fits.toOffers
  obtain ⟨nodes, order, same⟩ := @placedFrame n ids name sound names dx dy
  refine ⟨?_, fun c => ?_, frame.uniforms.trans (same ▸ rfl), frame.includes.trans (same ▸ rfl)⟩
  · rw [OnlyLinks.nodeList frame]
    exact nodeListInsertedAll sound (duplicateNodup sound names dx dy) (duplicateFresh sound names)
  · rw [members, placedLinks sound names]
    refine or_congr_right (and_iff_left_of_imp fun new e old target => ?_)
    exact (duplicateApart sound names old new).2 (congrArg Socket.node target)

end Duplicate
end Net

namespace Workspace

variable {w : Workspace} {ids : List String} {d : Document} {dx dy : Double}

/-! What is copied -/

theorem copyPresent (present : ∀ id ∈ ids, w.net.contains id = true) : ∃ d, w.copy ids = .ok d := by
  have none : ids.find? (fun id => !w.net.contains id) = none := by
    rw [List.find?_eq_none]
    intro id member
    rw [present id member]
    decide
  unfold copy
  rw [none]
  exact ⟨_, rfl⟩

theorem copyNodes (ok : w.copy ids = .ok d) : d.nodes = w.net.chosenNodes ids := by
  unfold copy at ok
  split at ok <;> cases ok
  refine List.filter_congr fun node _ => ?_
  rw [Bool.eq_iff_iff, KeySet.containsOfList, decide_eq_true_iff]

theorem copyConnections (ok : w.copy ids = .ok d) : d.connections = w.net.chosenConnections ids := by
  unfold copy at ok
  split at ok <;> cases ok
  refine List.filter_congr fun c _ => ?_
  rw [Bool.eq_iff_iff, Bool.and_eq_true, Bool.and_eq_true, KeySet.containsOfList,
    KeySet.containsOfList, decide_eq_true_iff, decide_eq_true_iff]

theorem copyIncludes (ok : w.copy ids = .ok d) : d.includes = w.net.includes.map Include.path := by
  unfold copy at ok
  split at ok <;> cases ok
  rfl

/- Whatever a copy needs is there. -/
theorem surroundingsThere (sound : w.net.Sound) (ok : w.copy ids = .ok d) :
    pastingSurroundings d w = (w, .empty) := by
  have uniforms : pastingUniforms d w = (w, .empty) := by
    have idle : ∀ {us : List Uniform}, (∀ u ∈ us, w.net.uniform? u.id = some u) →
        Action.each us (fun u w =>
          if (w.net.uniform? u.id).isNone then settingUniform u w else (w, .empty)) w = (w, .empty) := by
      intro us there
      induction us with
      | nil => rfl
      | cons u rest ih =>
        obtain ⟨first, later⟩ := List.forall_mem_cons.mp there
        rw [Action.each, List.map_cons, Action.allCons, Action.andThen]
        simp only [first, Option.isNone_some, Bool.false_eq_true, if_false]
        rw [← Action.each, ih later, Changes.emptyAppend]
    exact idle (copyUniforms sound ok)
  have none : d.includes.filter (fun path => !w.net.includes? path) = [] := by
    rw [List.filter_eq_nil_iff, copyIncludes ok]
    intro path member
    obtain ⟨i, listed, rfl⟩ := List.mem_map.mp member
    have there : w.net.includes? i.path = true :=
      List.any_eq_true.mpr ⟨i, listed, decide_eq_true rfl⟩
    rw [there]
    decide
  unfold pastingSurroundings
  rw [none]
  exact uniforms

/-! How copies are called -/

def pastedName (dx dy : Double) (nodes : List Node) (net : Net) (id : String) : String :=
  ((Table.ofList (pastedNames dx dy nodes net)).get? id).getD id

section Names

variable {nodes : List Node} {net : Net} (nodup : (nodes.map Node.id).Nodup)
include nodup

theorem renamingGives {a x : String} (named : (a, x) ∈ pastedNames dx dy nodes net) :
    (Table.ofList (pastedNames dx dy nodes net)).get? a = some x := by
  refine (Table.getOfList fun y other => ?_).mpr named
  rw [← @namesOld dx dy nodes net] at nodup
  exact congrArg Prod.snd (List.inj_on_of_nodup_map nodup other named rfl)

theorem renamingKnows {id : String} (member : id ∈ nodes.map Node.id) :
    (id, pastedName dx dy nodes net id) ∈ pastedNames dx dy nodes net := by
  rw [← @namesOld dx dy nodes net] at member
  obtain ⟨⟨_, x⟩, named, rfl⟩ := List.mem_map.mp member
  rw [pastedName, renamingGives nodup named]
  exact named

theorem pastedNewNames : net.NewNames (nodes.map Node.id) (pastedName dx dy nodes net) := by
  refine ⟨fun id member => namesFresh (renamingKnows nodup member), fun a left b right same => ?_⟩
  have named : (a, pastedName dx dy nodes net a) ∈ _ := renamingKnows nodup left
  rw [same] at named
  exact namesInjective named (renamingKnows nodup right)

theorem copiesDuplicated :
    pastedCopies dx dy nodes net = nodes.map (.duplicate (pastedName dx dy nodes net) dx dy) := by
  obtain ⟨length, each⟩ := List.forall₂_iff_zip.mp (@copiesOf dx dy nodes net)
  refine (List.forall₂_eq_eq_eq ▸ List.forall₂_map_left_iff.mpr
    (List.forall₂_iff_zip.mpr ⟨length, fun {node copy} paired => ?_⟩)).symm
  have named : (node.id, copy.id) ∈ pastedNames dx dy nodes net := by
    rw [pastedNames, List.zip_map]
    exact List.mem_map.mpr ⟨_, paired, rfl⟩
  have called : pastedName dx dy nodes net node.id = copy.id := by
    rw [pastedName, renamingGives nodup named]
    rfl
  rw [Node.duplicate, called]
  exact (each paired).symm

end Names

/-! Connections between copies -/

def linksTold (cs : List Connection) (invalidated : KeySet String) : Changes :=
  { Changes.empty with addedConnections := cs, invalidated := invalidated }

theorem connectingFree {net : Net} {c : Connection} {rest : List Connection}
    (fits : net.Fits (c :: rest)) :
    Action.connecting c Failure.message { w with net := net } =
      ({ w with net := net.offered c },
        linksTold [c] ((net.offered c).downstreamClosure [c.target.node])) := by
  obtain ⟨source, target⟩ := fits.ends c List.mem_cons_self
  obtain ⟨producer, there⟩ := Table.containsIff.mp source
  obtain ⟨consumer, there'⟩ := Table.containsIff.mp target
  have free := fits.free c List.mem_cons_self
  have taken := Net.offeredFree fits.toOffers free
  have unfed : net.feeder? c.target = none := by
    rw [Net.feeder?, free]
    rfl
  have links : net.offered c = net.linked c := by
    rw [Net.offered, taken]
    rfl
  simp only [linksTold, Action.connecting, Net.connect, Net.nodeFound.mpr there,
    Net.nodeFound.mpr there', unfed, taken, links]

/- What is told of to be invalidated stays among the nodes that the new connections lead to. -/
theorem connectingAll {net : Net} {cs : List Connection} (sound : net.Sound) (fits : net.Fits cs)
    {inside : String → Prop}
    (closed : ∀ c ∈ net.connectionList ++ cs, inside c.source.node → inside c.target.node)
    (ends : ∀ c ∈ cs, inside c.target.node) :
    ∃ invalidated : KeySet String, (∀ id, invalidated.contains id = true → inside id) ∧
      Action.each cs (Action.connecting · Failure.message) { w with net := net } =
        ({ w with net := cs.foldl Net.offered net }, linksTold cs invalidated) := by
  induction cs generalizing net with
  | nil => exact ⟨∅, fun _ impossible => (by cases impossible), rfl⟩
  | cons c rest ih =>
    have next : (net.offered c).Sound :=
      Net.orKeepSound sound fun _ _ => Net.insertConnectionSound sound
    have taken : (net.offered c).connectionList.Perm (c :: net.connectionList) := by
      rcases Net.offeredCases fits.toOffers with ⟨_, e⟩ | ⟨fed, _⟩
      · exact e ▸ Net.linkedPerm (fits.absent c List.mem_cons_self)
      · exact absurd (fits.free c List.mem_cons_self) fed
    have closed' : ∀ d ∈ (net.offered c).connectionList ++ rest,
        inside d.source.node → inside d.target.node := by
      refine fun d member => closed d ?_
      rw [List.mem_append, taken.mem_iff, List.mem_cons] at member
      rw [List.mem_append, List.mem_cons]
      tauto
    obtain ⟨invalidated, within, rest'⟩ := ih next fits.next closed' fun d member =>
      ends d (List.mem_cons_of_mem _ member)
    let first := linksTold [c] ((net.offered c).downstreamClosure [c.target.node])
    refine ⟨(first ++ linksTold rest invalidated).invalidated, fun id told => ?_, ?_⟩
    · rcases Changes.invalidatedAppend.mp told with new | later
      · refine Net.downstreamWithin next.toIndexed
          (fun d member => closed' d (List.mem_append.mpr (.inl member))) ?_ new
        exact List.forall_mem_singleton.mpr (ends c List.mem_cons_self)
      · exact within id later
    · rw [Action.each, List.map_cons, Action.allCons, Action.andThen, connectingFree fits]
      dsimp only
      rw [← Action.each, rest']
      exact congrArg (Prod.mk _) (Changes.ext rfl rfl rfl rfl rfl rfl rfl rfl rfl rfl rfl)

/-! The whole paste -/

def duplicateTold (net : Net) (ids : List String) (name : String → String) (dx dy : Double) : Changes :=
  { Changes.empty with
    addedNodes := net.nodeDuplicates ids name dx dy
    addedConnections := net.connectionDuplicates ids name
    invalidated := KeySet.ofList (ids.map name) }

section Paste

variable (sound : w.net.Sound) (present : ∀ id ∈ ids, w.net.contains id = true)
include sound present

theorem chosenIds {id : String} : id ∈ (w.net.chosenNodes ids).map Node.id ↔ id ∈ ids := by
  refine ⟨Net.chosenInside sound, fun member => ?_⟩
  obtain ⟨node, found⟩ := Table.containsIff.mp (present id member)
  cases sound.nodeKeys id node found
  exact List.mem_map.mpr ⟨node, (Net.memChosenNodes sound).mpr ⟨found, member⟩, rfl⟩

theorem selectionNewNames :
    w.net.NewNames ids (pastedName dx dy (w.net.chosenNodes ids) w.net) := by
  have names := @pastedNewNames dx dy _ w.net (Net.chosenNodup sound ids)
  have inside := fun id => (@chosenIds w ids sound present id).mpr
  exact ⟨fun id member => names.absent id (inside id member),
    fun a left b right => names.distinct a (inside a left) b (inside b right)⟩

theorem renamedChosen {c : Connection} (chosen : c ∈ w.net.chosenConnections ids) :
    renamed (Table.ofList (pastedNames dx dy (w.net.chosenNodes ids) w.net)) c =
      some (c.duplicate (pastedName dx dy (w.net.chosenNodes ids) w.net)) := by
  obtain ⟨_, source, target⟩ := Net.memChosenConnections.mp chosen
  have nodup := Net.chosenNodup sound ids
  have called : ∀ id ∈ ids, (Table.ofList (pastedNames dx dy (w.net.chosenNodes ids) w.net)).get? id =
      some (pastedName dx dy (w.net.chosenNodes ids) w.net id) := fun id member =>
    renamingGives nodup (renamingKnows nodup ((chosenIds sound present).mpr member))
  rw [renamed, called _ source, called _ target]
  rfl

theorem duplicateTells {name : String → String} {invalidated : KeySet String}
    (within : ∀ id, invalidated.contains id = true → id ∈ ids.map name) :
    copiesTold (w.net.nodeDuplicates ids name dx dy) ++
      linksTold (w.net.connectionDuplicates ids name) invalidated = duplicateTold w.net ids name dx dy := by
  have members : ∀ id, id ∈ (w.net.nodeDuplicates ids name dx dy).map Node.id ↔ id ∈ ids.map name := by
    intro id
    rw [Net.duplicateIds, List.mem_map, List.mem_map]
    exact exists_congr fun a => and_congr_left fun _ => chosenIds sound present
  refine Changes.ext (List.append_nil _) rfl rfl rfl rfl (KeySet.ext fun id => ?_) rfl rfl rfl rfl rfl
  rw [Changes.invalidatedAppend]
  show (KeySet.ofList _).contains id = true ∨ invalidated.contains id = true ↔
    (KeySet.ofList (ids.map name)).contains id = true
  rw [KeySet.containsOfList, KeySet.containsOfList, members]
  exact or_iff_left_of_imp (within id)

variable (ok : w.copy ids = .ok d)
include ok

theorem pastedLinksChosen : w.pastedLinks d dx dy =
    w.net.connectionDuplicates ids (pastedName dx dy (w.net.chosenNodes ids) w.net) := by
  rw [pastedLinks, surroundingsThere sound ok, pasteNodesResult, copyNodes ok, copyConnections ok,
    Net.connectionDuplicates, ← List.filterMap_eq_map]
  exact List.filterMap_congr fun c chosen => renamedChosen sound present chosen

theorem pastingConnectionsChosen :
    Action.each d.connections
        (pastingConnection (Table.ofList (pastedNames dx dy (w.net.chosenNodes ids) w.net))) =
      Action.each (w.net.connectionDuplicates ids (pastedName dx dy (w.net.chosenNodes ids) w.net))
        (Action.connecting · Failure.message) := by
  rw [Action.each, Action.each, copyConnections ok, Net.connectionDuplicates, List.map_map]
  refine congrArg Action.all (List.map_congr_left fun c chosen => ?_)
  rw [pastingConnection, renamedChosen sound present chosen]
  rfl

theorem pastingDuplicates
    (apart : Net.Apart (w.net.connectionList ++ w.pastedLinks d dx dy)) :
    ∃ name after, w.net.NewNames ids name ∧ w.net.Duplicated ids name dx dy after ∧
      pasting d dx dy w = ({ w with net := after }, duplicateTold w.net ids name dx dy) := by
  rw [pastedLinksChosen sound present ok] at apart
  have connections := @pastingConnectionsChosen w ids d dx dy sound present ok
  have copies : pastedCopies dx dy (w.net.chosenNodes ids) w.net = w.net.nodeDuplicates ids _ dx dy :=
    copiesDuplicated (Net.chosenNodup sound ids)
  have names : w.net.NewNames ids _ := @selectionNewNames w ids dx dy sound present
  generalize pastedName dx dy (w.net.chosenNodes ids) w.net = name at apart connections copies names
  have fits := @Net.duplicateFits w.net ids name sound names apart present dx dy
  obtain ⟨invalidated, within, made⟩ := @connectingAll w _ _ (Net.placedSound sound names) fits
    (· ∈ ids.map name) (Net.duplicateClosed sound names) Net.duplicateEnds
  refine ⟨name, _, names, Net.placedDuplicated sound names apart present, ?_⟩
  have table : ∀ l, (∅ : Renaming).overlay l = Table.ofList l := fun _ => rfl
  simp only [pasting, surroundingsThere sound ok, pasteNodesResult, copyNodes ok, copies, table,
    connections, Changes.emptyAppend]
  rw [← Net.placed, made]
  exact congrArg (Prod.mk _) (duplicateTells sound present within)

end Paste
end Workspace
end ShaderNet
