import ShaderNet.Proofs.Net.Unambiguous
import ShaderNet.Workspace.Edit

/-! Parts of an edit, one after another. Together they tell of every node that any of them affects, so
that all results which the edit does not drop are right when it is committed. -/
namespace ShaderNet.Workspace

/-! Uniforms and exports -/

theorem memNamers {n : Net} (sound : n.Sound) {id type parameter value : String} {node : Node}
    (found : n.node id = .ok node) (ofType : node.type = type)
    (names : (node.parameters.get? parameter).bind Parameter.text? = some value) :
    id ∈ namers n type parameter value := by
  obtain ⟨rfl, _⟩ := Net.nodePresent sound found
  refine List.mem_map.mpr ⟨node, List.mem_filter.mpr ⟨?_, by simp [ofType, names]⟩, rfl⟩
  exact (Net.memNodeList sound).mpr (Net.nodeFound.mp found)

theorem uniformStable {n : Net} {uniforms : Table String Uniform} (sound : n.Sound)
    (sound' : Net.Sound { n with uniforms := uniforms }) {id : String} (named : id ≠ "")
    (others : ∀ k, k ≠ id → uniforms.get? k = n.uniforms.get? k) (exports : Exports) :
    Scene.Stable ⟨n, .standard, exports⟩ ⟨{ n with uniforms := uniforms }, .standard, exports⟩
      (Net.downstreamClosure { n with uniforms := uniforms } (namers n "custom_uniform" "uniform" id)) := by
  refine Scene.stableClosedAfter sound sound' (Net.downstreamClosed sound'.toIndexed _) fun k other => ?_
  refine ⟨fun node kind found known => ⟨node, found, known, ?_⟩, fun _ => rfl⟩
  refine NodeKind.compileSurroundings (fun shows id' shown => others id' fun same => ?_) fun _ => rfl
  -- a node that shows the uniform names it, because the uniform has a name
  refine Net.unaffected sound'.toIndexed other ?_
  refine memNamers sound found ((Registry.standardTypes known).1 shows) ?_
  subst same
  exact NodeKind.shownNamed shown fun unnamed => absurd unnamed named

theorem exportsStable {n : Net} (sound : n.Sound) (old new : Exports) :
    Scene.Stable ⟨n, .standard, old⟩ ⟨n, .standard, new⟩
      (n.downstreamClosure ((n.nodeList.filter fun node => node.type = "function").map Node.id)) := by
  refine Scene.stableClosedAfter sound sound (Net.downstreamClosed sound.toIndexed _) fun k other => ?_
  refine ⟨fun node kind found known => ⟨node, found, known, ?_⟩, fun _ => rfl⟩
  refine NodeKind.compileSurroundings (fun _ _ _ => rfl) fun calls => ?_
  obtain ⟨rfl, _⟩ := Net.nodePresent sound found
  refine absurd (List.mem_map.mpr ⟨node, List.mem_filter.mpr ⟨?_, ?_⟩, rfl⟩)
    (Net.unaffected sound.toIndexed other)
  · exact (Net.memNodeList sound).mpr (Net.nodeFound.mp found)
  · simpa using (Registry.standardTypes known).2 calls

/-! Actions -/

namespace Action

variable {motive : Action → Prop}

theorem allInduct (start : motive nothing)
    (step : ∀ a b, motive a → motive b → motive (a.andThen b)) {actions : List Action}
    (each : ∀ a ∈ actions, motive a) : motive (all actions) := by
  have general : ∀ (actions : List Action) first, motive first → (∀ a ∈ actions, motive a) →
      motive (actions.foldl andThen first) := by
    intro actions
    induction actions with
    | nil => exact fun _ first _ => first
    | cons a rest ih =>
      exact fun b first each => ih _ (step b a first (each a List.mem_cons_self))
        fun a' member => each a' (List.mem_cons_of_mem _ member)
  exact general actions nothing start each

theorem eachInduct {α : Type} (start : motive nothing)
    (step : ∀ a b, motive a → motive b → motive (a.andThen b)) {items : List α}
    {action : α → Action} (each : ∀ i ∈ items, motive (action i)) :
    motive (Action.each items action) := by
  refine allInduct start step fun a member => ?_
  obtain ⟨i, listed, rfl⟩ := List.mem_map.mp member
  exact each i listed

/-! Actions, like their changes, can be bracketed in any way. -/

theorem andThenAssoc (a b c : Action) : (a.andThen b).andThen c = a.andThen (b.andThen c) :=
  funext fun _ => congrArg (Prod.mk _) (Changes.appendAssoc _ _ _)

theorem nothingAndThen (a : Action) : nothing.andThen a = a :=
  funext fun _ => congrArg (Prod.mk _) (Changes.emptyAppend _)

theorem andThenNothing (a : Action) : a.andThen nothing = a :=
  funext fun _ => congrArg (Prod.mk _) (Changes.appendEmpty _)

theorem foldlAndThen (first : Action) (rest : List Action) :
    rest.foldl andThen first = first.andThen (all rest) := by
  induction rest generalizing first with
  | nil => exact (andThenNothing first).symm
  | cons a rest ih =>
    rw [all, List.foldl_cons, List.foldl_cons, nothingAndThen, ih, ih, andThenAssoc]

theorem allCons (a : Action) (rest : List Action) : all (a :: rest) = a.andThen (all rest) := by
  rw [all, List.foldl_cons, nothingAndThen, foldlAndThen]

theorem allAppend (front back : List Action) :
    all (front ++ back) = (all front).andThen (all back) := by
  rw [all, List.foldl_append, foldlAndThen]
  rfl

end Action

def tryAlso {α : Type} (edit : Net → α → Except Failure (Net × Changes)) (r : Net × Changes)
    (item : α) : Except Failure (Net × Changes) := do
  let (net, more) ← edit r.1 item
  return (net, r.2 ++ more)

theorem tryEachFold {α : Type} (edit : Net → α → Except Failure (Net × Changes)) (n : Net)
    (items : List α) : tryEach edit n items = items.foldlM (tryAlso edit) (n, .empty) := rfl

theorem tryEachInduct {α : Type} {edit : Net → α → Except Failure (Net × Changes)} {items : List α}
    {motive : Net → Changes → Prop} {n after : Net} {changes : Changes} (start : motive n .empty)
    (step : ∀ i ∈ items, ∀ net told next more, motive net told → edit net i = .ok (next, more) →
      motive next (told ++ more))
    (ok : tryEach edit n items = .ok (after, changes)) : motive after changes := by
  have general : ∀ (rest : List α) net told, (∀ i ∈ rest, i ∈ items) → motive net told →
      rest.foldlM (tryAlso edit) (net, told) = .ok (after, changes) → motive after changes := by
    intro rest
    induction rest with
    | nil =>
      intro net told _ reached ok
      cases ok
      exact reached
    | cons i rest ih =>
      intro net told listed reached ok
      simp only [List.foldlM_cons, tryAlso, bind, Except.bind] at ok
      cases tried : edit net i with
      | error e =>
        rw [tried] at ok
        cases ok
      | ok r =>
        rw [tried] at ok
        exact ih _ _ (fun j member => listed j (List.mem_cons_of_mem _ member))
          (step i (listed i List.mem_cons_self) _ _ _ _ reached tried) ok
  rw [tryEachFold] at ok
  exact general items n .empty (fun _ member => member) start ok

structure Good (used : List Connection) (w : Workspace) : Prop where
  registry : w.registry = .standard
  unambiguous : w.net.Unambiguous used

structure Covered (used : List Connection) (w after : Workspace) (changes : Changes) : Prop where
  good : Good used after
  cache : after.cache = w.cache
  stable : Scene.Stable w.scene after.scene changes.invalidated

structure Steady (used : List Connection) (w after : Workspace) (changes : Changes) : Prop
    extends Covered used w after changes where
  includes : after.net.includes = w.net.includes
  exports : after.exports = w.exports

variable {used : List Connection} {w : Workspace}

theorem Covered.append {mid after : Workspace} {c d : Changes} (first : Covered used w mid c)
    (second : Covered used mid after d) : Covered used w after (c ++ d) :=
  ⟨second.good, second.cache.trans first.cache, Scene.stableAppend first.stable second.stable⟩

theorem Steady.append {mid after : Workspace} {c d : Changes} (first : Steady used w mid c)
    (second : Steady used mid after d) : Steady used w after (c ++ d) :=
  ⟨first.toCovered.append second.toCovered, second.includes.trans first.includes,
    second.exports.trans first.exports⟩

theorem steadyEdited (good : Good used w) {net : Net} {changes : Changes}
    (edited : Net.Edited used w.net net changes) : Steady used w { w with net := net } changes where
  good := ⟨good.registry, edited.unambiguous⟩
  cache := rfl
  stable := by
    have stable := edited.stable w.exports
    rw [← good.registry] at stable
    exact stable
  includes := edited.includes
  exports := rfl

theorem steadySame (good : Good used w) (changes : Changes) : Steady used w w changes :=
  steadyEdited good (Net.editedNothing good.unambiguous changes)

def Action.Covers (used : List Connection) (a : Action) : Prop :=
  ∀ w, Good used w → Covered used w (a w).1 (a w).2

def Action.Steadies (used : List Connection) (a : Action) : Prop :=
  ∀ w, Good used w → Steady used w (a w).1 (a w).2

namespace Action

theorem Steadies.covers {a : Action} (steady : Steadies used a) : Covers used a :=
  fun w good => (steady w good).toCovered

theorem steadiesNothing : Steadies used nothing := fun _ good => steadySame good _

theorem steadiesWarn (message : String) : Steadies used (warn message) :=
  fun _ good => steadySame good _

theorem coversAndThen (a b : Action) (first : Covers used a) (second : Covers used b) :
    Covers used (a.andThen b) :=
  fun w good => (first w good).append (second _ (first w good).good)

theorem steadiesAndThen (a b : Action) (first : Steadies used a) (second : Steadies used b) :
    Steadies used (a.andThen b) :=
  fun w good => (first w good).append (second _ (first w good).good)

theorem coversAll {actions : List Action} (each : ∀ a ∈ actions, Covers used a) :
    Covers used (all actions) :=
  allInduct steadiesNothing.covers coversAndThen each

theorem steadiesAll {actions : List Action} (each : ∀ a ∈ actions, Steadies used a) :
    Steadies used (all actions) :=
  allInduct steadiesNothing steadiesAndThen each

variable {α : Type} {items : List α} {action : α → Action}

theorem coversEach (each : ∀ i ∈ items, Covers used (action i)) :
    Covers used (Action.each items action) :=
  eachInduct steadiesNothing.covers coversAndThen each

theorem steadiesEach (each : ∀ i ∈ items, Steadies used (action i)) :
    Steadies used (Action.each items action) :=
  eachInduct steadiesNothing steadiesAndThen each

theorem steadiesOnNet {edit : Net → Net × Changes}
    (edits : ∀ n, n.Unambiguous used → Net.Edited used n (edit n).1 (edit n).2) :
    Steadies used (onNet edit) :=
  fun w good => steadyEdited good (edits w.net good.unambiguous)

theorem steadiesOrWarn {edit : Net → Except Failure (Net × Changes)} (wording : Failure → String)
    (edits : ∀ n after changes, n.Unambiguous used → edit n = .ok (after, changes) →
      Net.Edited used n after changes) : Steadies used (orWarn edit wording) := by
  intro w good
  unfold orWarn
  split
  · rename_i ok
    exact steadyEdited good (edits _ _ _ good.unambiguous ok)
  · exact steadySame good _

theorem steadiesConnecting (apart : Net.Apart used) {c : Connection} (listed : Net.Listed used c)
    (wording : Failure → String) : Steadies used (connecting c wording) := by
  intro w good
  unfold connecting
  split
  · rename_i changes net done
    exact steadyEdited good (Net.connectEdited good.unambiguous apart listed done)
  · rename_i e net done
    have same : net = w.net := Net.connectEdited good.unambiguous apart listed done
    rw [same]
    exact steadySame good _

end Action
end ShaderNet.Workspace
