import ShaderNet.Proofs.Net.Plan
import ShaderNet.Proofs.Workspace.Covered

/-! Loading a document. Every step of the plan is accepted, and nothing is warned of but includes. -/
namespace ShaderNet.Workspace

namespace Action

structure Gives (a : Action) (w : Workspace) (net after : Net) (warnings : List String) : Prop where
  workspace : (a { w with net := net }).1 = { w with net := after }
  warnings : (a { w with net := net }).2.warnings = warnings

variable {w : Workspace} {net : Net}

theorem givesNothing : Gives nothing w net net [] := ⟨rfl, rfl⟩

theorem Gives.andThen {a b : Action} {mid after : Net} {first second : List String}
    (left : Gives a w net mid first) (right : Gives b w mid after second) :
    Gives (a.andThen b) w net after (first ++ second) := by
  constructor
  · show (b (a { w with net := net }).1).1 = _
    rw [left.workspace]
    exact right.workspace
  · show (a { w with net := net }).2.warnings ++ (b (a { w with net := net }).1).2.warnings = _
    rw [left.warnings, left.workspace, right.warnings]

/- `ready` is what the items that are left need of the net they find. -/
theorem givesEach {α : Type} {action : α → Action} {step : Net → α → Net} {note : α → List String}
    (ready : Net → List α → Prop)
    (one : ∀ net i rest, ready net (i :: rest) →
      Gives (action i) w net (step net i) (note i) ∧ ready (step net i) rest)
    {items : List α} (start : ready net items) :
    Gives (Action.each items action) w net (items.foldl step net) (items.flatMap note) := by
  induction items generalizing net with
  | nil => exact givesNothing
  | cons i rest ih =>
    obtain ⟨first, later⟩ := one net i rest start
    rw [Action.each, List.map_cons, allCons, List.flatMap_cons]
    exact first.andThen (ih later)

theorem givesQuietly {α : Type} {action : α → Action} {step : Net → α → Net}
    (ready : Net → List α → Prop)
    (one : ∀ net i rest, ready net (i :: rest) →
      Gives (action i) w net (step net i) [] ∧ ready (step net i) rest)
    {items : List α} (start : ready net items) :
    Gives (Action.each items action) w net (items.foldl step net) [] := by
  have gives := givesEach ready one start
  rw [List.flatMap_eq_nil_iff.mpr fun _ _ => rfl] at gives
  exact gives

theorem givesAlways {α : Type} {action : α → Action} {step : Net → α → Net}
    (one : ∀ net i, Gives (action i) w net (step net i) []) (items : List α) (net : Net) :
    Gives (Action.each items action) w net (items.foldl step net) [] :=
  givesQuietly (fun _ _ => True) (fun net i _ _ => ⟨one net i, trivial⟩) trivial

theorem givesAccepted {edit : Net → Except Failure (Net × Changes)} {wording : Failure → String}
    {after : Net} {changes : Changes} (ok : edit net = .ok (after, changes))
    (quiet : changes.warnings = []) : Gives (orWarn edit wording) w net after [] := by
  constructor <;> simp only [orWarn, ok]
  exact quiet

end Action

/-! Single steps -/

section Steps

variable {w : Workspace} {net : Net}

theorem removeConnectionQuiet (n : Net) (id : String) : (n.removeConnection id).2.warnings = [] := by
  unfold Net.removeConnection
  split <;> rfl

theorem givesRemoveConnection (id : String) :
    Action.Gives (.onNet (·.removeConnection id)) w net (net.removeConnection id).1 [] :=
  ⟨rfl, removeConnectionQuiet net id⟩

theorem removeConnectionsQuiet (n : Net) (ids : List String) :
    (n.removeConnections ids).2.warnings = [] := by
  refine Net.removeConnectionsInduct (motive := fun _ told => told.warnings = []) rfl ?_
  intro id _ net told quiet
  show told.warnings ++ (net.removeConnection id).2.warnings = []
  rw [quiet, removeConnectionQuiet]
  rfl

theorem givesRemoveNode {id : String} (present : net.contains id = true) :
    Action.Gives (.orWarn (·.removeNode id) Failure.message) w net (net.without id) [] := by
  refine Action.givesAccepted (Net.removeNodeIff.mpr ⟨present, rfl⟩) ?_
  show [] ++ (net.removeConnections _).2.warnings ++ [] = []
  rw [removeConnectionsQuiet]
  rfl

theorem givesRemovingUniform (id : String) :
    Action.Gives (removingUniform id) w net (net.removeUniform id).1 [] := by
  refine ⟨rfl, ?_⟩
  unfold removingUniform Net.removeUniform
  cases net.uniforms.contains id <;> rfl

theorem givesSettingUniform (u : Uniform) :
    Action.Gives (settingUniform u) w net (net.setUniform u).1 [] := by
  refine ⟨rfl, ?_⟩
  unfold settingUniform Net.setUniform
  cases (net.uniform? u.id).any (fun v => v.same u) <;> rfl

theorem givesRemoveInclude (path : String) :
    Action.Gives (.onNet (·.removeInclude path)) w net (net.removeInclude path).1 [] := by
  refine ⟨rfl, ?_⟩
  show (net.removeInclude path).2.warnings = []
  unfold Net.removeInclude
  split <;> rfl

def missing (sources : Sources) (path : String) : List String :=
  if (sources path).isNone then [unresolved path] else []

theorem givesIncluding (path : String) :
    Action.Gives (.andThen (warningUnresolved path) (including path)) w net
      (net.addInclude path (w.sources path)).1 (missing w.sources path) := by
  have warns : Action.Gives (warningUnresolved path) w net net (missing w.sources path) := by
    unfold warningUnresolved missing
    constructor <;> cases w.sources path <;> rfl
  have adds : Action.Gives (including path) w net (net.addInclude path (w.sources path)).1 [] := by
    refine ⟨rfl, ?_⟩
    show (net.addInclude path (w.sources path)).2.warnings = []
    unfold Net.addInclude
    split <;> rfl
  have both := warns.andThen adds
  rw [List.append_nil] at both
  exact both

theorem givesPatchNode {node : Node} (present : net.contains node.id = true) :
    Action.Gives (.orWarn (·.patchNode node) Failure.message) w net (net.patched node) [] := by
  obtain ⟨old, found⟩ := Table.containsIff.mp present
  have held : net.node node.id = .ok old := Net.nodeFound.mpr found
  cases same : old.same node with
  | true =>
    have accepted : net.patchNode node = .ok (net, .empty) := by
      simp only [Net.patchNode, held, bind, Except.bind, same, if_true]
    have kept : net.patched node = net := by
      rw [Net.patched, Table.refresh, found, Option.any_some, same]
      rfl
    rw [kept]
    exact Action.givesAccepted accepted rfl
  | false =>
    have accepted : net.patchNode node = .ok (net.setNode node, { Changes.empty with
        modifiedNodes := [node.id]
        invalidated := if old.sameContent node then ∅
          else (net.setNode node).downstreamClosure [node.id] }) := by
      simp only [Net.patchNode, held, bind, Except.bind, same]
      rfl
    have set : net.patched node = net.setNode node := by
      rw [Net.patched, Table.refresh, found, Option.any_some, same]
      rfl
    rw [set]
    exact Action.givesAccepted accepted rfl

/-! Many steps: each item finds what it needs when its turn comes. -/

theorem givesRemoveNodes {ids : List String} (nodup : ids.Nodup)
    (present : ∀ id ∈ ids, net.contains id = true) :
    Action.Gives (.each ids fun id => .orWarn (·.removeNode id) Failure.message) w net
      (ids.foldl Net.without net) [] := by
  refine Action.givesQuietly (fun net ids => ids.Nodup ∧ ∀ id ∈ ids, net.contains id = true) ?_
    ⟨nodup, present⟩
  intro net id rest ⟨nodup, present⟩
  obtain ⟨fresh, later⟩ := List.nodup_cons.mp nodup
  refine ⟨givesRemoveNode (present id List.mem_cons_self), later, fun k member => ?_⟩
  rw [Net.contains, (Net.withoutNet net id).1]
  refine Table.containsErase.mpr ⟨fun e => fresh (e ▸ member), ?_⟩
  exact present k (List.mem_cons_of_mem _ member)

theorem givesInsertNodes {nodes : List Node} (nodup : (nodes.map Node.id).Nodup)
    (fresh : ∀ node ∈ nodes, net.nodes.get? node.id = none) :
    Action.Gives (.each nodes fun node => .orWarn (·.insertNode node) Failure.message) w net
      (nodes.foldl Net.inserted net) [] := by
  refine Action.givesQuietly (fun net nodes => (nodes.map Node.id).Nodup ∧
    ∀ node ∈ nodes, net.nodes.get? node.id = none) ?_ ⟨nodup, fresh⟩
  intro net node rest ⟨nodup, fresh⟩
  obtain ⟨different, later⟩ := List.nodup_cons.mp nodup
  have absent : net.contains node.id = false :=
    Table.containsFalse.mpr (fresh node List.mem_cons_self)
  refine ⟨Action.givesAccepted (Net.insertNodeIff.mpr ⟨absent, rfl⟩) rfl, later, ?_⟩
  intro other member
  refine (Table.getInsert ..).trans ((if_neg fun e => ?_).trans
    (fresh other (List.mem_cons_of_mem _ member)))
  exact different (e ▸ List.mem_map.mpr ⟨other, member, rfl⟩)

theorem givesInsertConnections {cs : List Connection} (fits : net.Fits cs) :
    Action.Gives (.each cs fun c => .orWarn (·.insertConnection c) (labelled c.id)) w net
      (cs.foldl Net.offered net) [] := by
  refine Action.givesQuietly Net.Fits (fun net c rest fits => ⟨?_, fits.next⟩) fits
  have accepted := Net.offeredFree fits.toOffers (fits.free c List.mem_cons_self)
  rw [Net.offered, accepted]
  exact Action.givesAccepted accepted rfl

theorem givesOffered (cs : List Connection) (net : Net) : ∃ said,
    Action.Gives (.each cs fun c => .orWarn (·.insertConnection c) (labelled c.id)) w net
      (cs.foldl Net.offered net) said := by
  induction cs generalizing net with
  | nil => exact ⟨[], Action.givesNothing⟩
  | cons c rest ih =>
    have one : ∃ said, Action.Gives (.orWarn (·.insertConnection c) (labelled c.id)) w net
        (net.offered c) said := by
      unfold Net.offered Action.orWarn
      cases tried : net.insertConnection c with
      | ok r => exact ⟨_, by simp only [tried, Net.orKeep], rfl⟩
      | error e => exact ⟨_, by simp only [tried, Net.orKeep], rfl⟩
    obtain ⟨first, gives⟩ := one
    obtain ⟨later, follows⟩ := ih (net.offered c)
    rw [Action.each, List.map_cons, Action.allCons]
    exact ⟨_, gives.andThen follows⟩

theorem givesPatchNodes {nodes : List Node} (present : ∀ node ∈ nodes, net.contains node.id = true) :
    Action.Gives (.each nodes fun node => .orWarn (·.patchNode node) Failure.message) w net
      (nodes.foldl Net.patched net) [] := by
  refine Action.givesQuietly (fun net nodes => ∀ node ∈ nodes, net.contains node.id = true)
    (fun net node rest present => ⟨givesPatchNode (present node List.mem_cons_self), ?_⟩) present
  intro other member
  have held := present other (List.mem_cons_of_mem _ member)
  rw [Net.contains, Table.contains, Net.patched, Table.getRefresh]
  split
  · rfl
  · exact held

end Steps

/-! The two halves of a plan -/

variable {w : Workspace} {n m : Net} {d : Document}

theorem clearingGives (sound : n.Sound) :
    Action.Gives (.all (clearing (n.reconcile d))) w n ((n.reconcile d).cleared w.sources n)
      ((n.reconcile d).addedIncludes.flatMap (missing w.sources)) := by
  obtain ⟨_, frame, _⟩ := Plan.unlinkedFirst (d := d) sound
  have nodup : (n.reconcile d).removedNodes.Nodup := by
    have ids := sound.orderNodup
    rw [← Net.nodeListIds sound] at ids
    exact ids.filter _
  have links := Action.givesAlways (fun _ id => givesRemoveConnection (w := w) id)
    (n.reconcile d).removedConnections n
  have nodes := givesRemoveNodes (w := w) nodup fun id member => by
    rw [Net.contains, frame.nodes]
    exact ((Plan.memRemovedNodes sound).mp member).1
  have uniforms := Action.givesAlways (fun _ id => givesRemovingUniform (w := w) id)
    (n.reconcile d).removedUniforms
  have fewer := Action.givesAlways (fun _ path => givesRemoveInclude (w := w) path)
    (n.reconcile d).removedIncludes
  have more : ∀ net, Action.Gives (.each (n.reconcile d).addedIncludes _) w net _ _ := fun net =>
    Action.givesEach (fun _ _ => True) (fun _ path _ _ => ⟨givesIncluding path, trivial⟩) trivial
  exact ((((Action.givesNothing.andThen links).andThen nodes).andThen
    (uniforms _)).andThen (fewer _)).andThen (more _)

theorem fillingGives (sound : n.Sound) (orderly : d.Orderly) (own : Net.Apart d.connections)
    (cleared : Plan.Cleared n d m) :
    ∃ said, Action.Gives (.all (filling (n.reconcile d))) w m ((n.reconcile d).filled m) said ∧
      (Net.Apart (n.connectionList ++ d.connections) → said = []) := by
  have uniforms := Action.givesAlways (fun _ u => givesSettingUniform (w := w) u)
    (n.reconcile d).updatedUniforms m
  have fresh : ∀ node ∈ (n.reconcile d).addedNodes, Table.get? (Net.nodes
      ((n.reconcile d).updatedUniforms.foldl (fun n u => (n.setUniform u).1) m)) node.id = none := by
    have absent := Plan.addedFresh cleared
    rw [Net.setUniformsNet]
    exact absent
  have nodes := givesInsertNodes (w := w) (Plan.addedIds orderly) fresh
  have there : ∀ node ∈ (n.reconcile d).modifiedNodes, Net.contains
      ((n.reconcile d).addedConnections.foldl Net.offered ((n.reconcile d).placed m)) node.id = true := by
    intro node member
    rw [Net.contains, (Net.offeredAll (Plan.placedSound orderly cleared)
      (Plan.placedOffers sound orderly own cleared)).1.nodes, Plan.placedNet orderly cleared]
    exact Plan.nodesThere orderly cleared
      (List.mem_map.mpr ⟨node, (Plan.memModified.mp member).1, rfl⟩)
  have around : ∀ {said}, Action.Gives (.each (n.reconcile d).addedConnections fun c =>
      .orWarn (·.insertConnection c) (labelled c.id)) w ((n.reconcile d).placed m)
        ((n.reconcile d).addedConnections.foldl Net.offered ((n.reconcile d).placed m)) said →
      Action.Gives (.all (filling (n.reconcile d))) w m ((n.reconcile d).filled m) said := by
    intro said links
    have whole := (((Action.givesNothing.andThen uniforms).andThen nodes).andThen links).andThen
      (givesPatchNodes there)
    rwa [List.append_nil] at whole
  -- whether all connections fit decides about the warnings only
  by_cases apart : Net.Apart (n.connectionList ++ d.connections)
  · exact ⟨[], around (givesInsertConnections (Plan.placedFits sound orderly apart cleared)),
      fun _ => rfl⟩
  · obtain ⟨said, links⟩ := givesOffered (w := w) (n.reconcile d).addedConnections _
    exact ⟨said, around links, fun also => absurd also apart⟩

/-! Loading -/

inductive AboutInclude (sources : Sources) (includes : List Include) : String → Prop where
  | unresolved {path : String} (member : path ∈ includes.map Include.path)
      (absent : sources path = none) : AboutInclude sources includes (unresolved path)
  | faulty {i : Include} {source : String} {e : FragmentError} (member : i ∈ includes)
      (found : i.source = some source) (fault : Fragment.exports i.path source = .error e) :
      AboutInclude sources includes e.message

theorem collectedErrors {includes : List Include} {e : FragmentError}
    (member : e ∈ (Exports.collect includes).2) :
    ∃ i ∈ includes, ∃ source, i.source = some source ∧ Fragment.exports i.path source = .error e := by
  have general : ∀ (includes : List Include) exports errors,
      e ∈ (Exports.ofIncludes includes exports errors).2 → e ∈ errors ∨ ∃ i ∈ includes, ∃ source,
        i.source = some source ∧ Fragment.exports i.path source = .error e := by
    intro includes
    induction includes with
    | nil => exact fun _ _ member => .inl member
    | cons i rest ih =>
      intro exports errors member
      have later : ∀ {p : Prop}, (p ∨ ∃ j ∈ rest, ∃ source, j.source = some source ∧
          Fragment.exports j.path source = .error e) → p ∨ ∃ j ∈ i :: rest, ∃ source,
          j.source = some source ∧ Fragment.exports j.path source = .error e := fun found =>
        found.imp_right fun ⟨j, listed, fault⟩ => ⟨j, List.mem_cons_of_mem _ listed, fault⟩
      unfold Exports.ofIncludes at member
      split at member
      · exact later (ih _ _ member)
      · rename_i source found
        split at member
        · exact later (ih _ _ member)
        · rename_i fault
          rcases later (ih _ _ member) with known | found
          · rcases List.mem_append.mp known with known | last
            · exact .inl known
            · rw [List.mem_singleton.mp last]
              exact .inr ⟨i, List.mem_cons_self, source, found, fault⟩
          · exact .inr found
  exact (general includes ∅ [] member).resolve_left (by simp)

theorem givesCollecting {a b : Action} {net mid after : Net} {first second : List String}
    (left : Action.Gives a w net mid first)
    (right : Action.Gives b { w with exports := (Exports.collect mid.includes).1 } mid after second) :
    let action := a.andThen (collectingExports.andThen b)
    (action { w with net := net }).1.net = after ∧
      (action { w with net := net }).2.warnings =
        first ++ ((Exports.collect mid.includes).2.map FragmentError.message ++ second) := by
  constructor
  · show (b (collectingExports (a { w with net := net }).1).1).1.net = after
    rw [left.workspace]
    exact congrArg Workspace.net right.workspace
  · show (a { w with net := net }).2.warnings ++
      ((collectingExports (a { w with net := net }).1).2.warnings ++
        (b (collectingExports (a { w with net := net }).1).1).2.warnings) = _
    rw [left.warnings, left.workspace]
    exact congrArg (fun said => first ++
      ((Exports.collect mid.includes).2.map FragmentError.message ++ said)) right.warnings

/- Loading leads to the net of the plan. All it warns of are includes of that net, unless a connection
finds its input taken. -/
theorem loadNet (sound : w.net.Sound) (orderly : d.Orderly) (own : Net.Apart d.connections) :
    let net := (w.net.reconcile d).filled ((w.net.reconcile d).cleared w.sources w.net)
    (w.load d).1.net = net ∧ (Net.Apart (w.net.connectionList ++ d.connections) →
      ∀ message ∈ (w.load d).2.warnings, AboutInclude w.sources net.includes message) := by
  intro net
  have cleared := Plan.clearedNet (d := d) sound w.sources
  have clears := clearingGives (w := w) (d := d) sound
  have includes : net.includes = ((w.net.reconcile d).cleared w.sources w.net).includes :=
    (Plan.filledNet sound orderly own cleared).includes
  have resolved : ∀ message ∈ (w.net.reconcile d).addedIncludes.flatMap (missing w.sources),
      AboutInclude w.sources net.includes message := by
    intro message member
    obtain ⟨path, added, said⟩ := List.mem_flatMap.mp member
    unfold missing at said
    split at said
    · rename_i absent
      rw [List.mem_singleton.mp said]
      refine .unresolved ?_ (Option.isNone_iff_eq_none.mp absent)
      rw [includes, cleared.includes]
      exact (List.mem_filter.mp added).1
    · cases said
  unfold load
  dsimp only
  split
  · rename_i empty
    exact ⟨(Plan.emptyNet empty w.sources w.net).symm, fun _ _ impossible => nomatch impossible⟩
  · unfold following
    split
    · obtain ⟨refused, fills, quiet⟩ := fillingGives (w := w) sound orderly own cleared
      have both := clears.andThen fills
      rw [← Action.allAppend] at both
      refine ⟨congrArg Workspace.net both.workspace, fun apart message said => resolved message ?_⟩
      rw [quiet apart, List.append_nil] at both
      rw [← both.warnings]
      exact said
    · let collected : Workspace :=
        { w with exports := (Exports.collect ((w.net.reconcile d).cleared w.sources w.net).includes).1 }
      obtain ⟨refused, fills, quiet⟩ := fillingGives (w := collected) sound orderly own cleared
      obtain ⟨reached, warnings⟩ := givesCollecting clears fills
      rw [← Action.allCons, ← Action.allAppend] at reached warnings
      refine ⟨reached, fun apart message said => ?_⟩
      rw [quiet apart, List.append_nil] at warnings
      rcases List.mem_append.mp (warnings ▸ said) with said | said
      · exact resolved message said
      · obtain ⟨e, error, rfl⟩ := List.mem_map.mp said
        obtain ⟨i, member, source, found, fault⟩ := collectedErrors error
        exact .faulty (includes ▸ member) found fault

end ShaderNet.Workspace
