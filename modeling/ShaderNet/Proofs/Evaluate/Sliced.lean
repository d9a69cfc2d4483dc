import ShaderNet.Proofs.Evaluate.Each
import ShaderNet.Proofs.NodeKind.Typed

/-! The table of component names is read in slices, as long as the vectors at hand. To see that no slice
reaches beyond the table, nodes are compiled and described with a table that holds anything beyond its
entries: nothing that is made of canonical types tells the two apart. -/
namespace ShaderNet

namespace Recipe

variable {α σ : Type} {given : Expression → Prop}

def Agrees (given : Expression → Prop) : Recipe α → Recipe α → Prop
  | .done a, r => r = .done a
  | .fail e, r => r = .fail e
  | .ask name next, r => ∃ other, r = .ask name other ∧
    ∀ answer, (∀ e, answer = some e → given e) → (next answer).Agrees given (other answer)

theorem agreesRefl (r : Recipe α) : r.Agrees given r := by
  induction r with
  | done a => rfl
  | fail e => rfl
  | ask name next ih => exact ⟨next, rfl, fun answer _ => ih answer⟩

theorem runAgrees {f g : String → σ → Except Failure (Option Expression) × σ} (kept : σ → Prop)
    (same : ∀ name s, kept s → f name s = g name s)
    (step : ∀ name s, kept s → kept (g name s).2 ∧ ∀ e, (g name s).1 = .ok (some e) → given e)
    {r r' : Recipe α} (agrees : r.Agrees given r') {s : σ} (start : kept s) :
    r.run f s = r'.run g s := by
  induction r generalizing r' s with
  | done a =>
    cases agrees
    rfl
  | fail e =>
    cases agrees
    rfl
  | ask name next ih =>
    obtain ⟨other, rfl, later⟩ := agrees
    obtain ⟨kept', granted⟩ := step name s start
    simp only [run, same name s start]
    cases answered : g name s with
    | mk answer after =>
      rw [answered] at kept' granted
      cases answer with
      | error e => rfl
      | ok answer => exact ih answer (later answer fun e here => granted e (congrArg Except.ok here)) kept'

end Recipe

namespace NodeKind
open Recipe

def sliceOr (beyond : Nat → List String) (size : Nat) : List String :=
  if size ≤ components.length then components.take size else beyond size

theorem sliceOrWithin (beyond : Nat → List String) {size : Nat} (within : size ≤ 4) :
    sliceOr beyond size = components.take size := if_pos within

/-! Recipes by the names that vectors of each size have -/

section Names

variable (names : Nat → List String)

def composeBy (size : Nat) (node : Node) : Recipe Compiled := do
  let parts ← (names size).mapM (componentOf size node)
  return .single "out" ⟨.vec size, call (ValueType.vec size).name (parts.map Prod.fst),
    parts.all Prod.snd⟩

def splitPartsBy (node : Node) (e : Expression) : Recipe Compiled :=
  match e.type.size?, e.type.component? with
  | some size, some component =>
    let (bound, whole) := Compiled.empty.hoist (Identifier.binding node.id "vector") e
    if e.type.isScalar then return bound.withOutput "x" whole
    else return ((names size).foldl
      (fun c name => c.withOutput name (.simple component (selectFrom whole name))) bound)
  | _, _ => refuse (.componentAccess e.type)

def splitBy (node : Node) : Recipe Compiled := do
  match ← input "vector" with
  | none =>
    return components.foldl (fun c name => c.withOutput name (.simple .float "0.0")) .empty
  | some e => splitPartsBy names node e

def compileBy (kind : NodeKind) (s : Surroundings) (node : Node) : Recipe Compiled :=
  match kind with
  | compose size => composeBy names size node
  | split => splitBy names node
  | kind => kind.compile s node

def splitSocketsOfBy (type : ValueType) : Recipe Sockets := do
  let component ← ofExcept type.component
  return ⟨[("vector", .anyScalarOrVector)], (names (type.size?.getD 1)).map fun c => (c, component)⟩

def splitSocketsBy : Recipe Sockets := do
  match ← inputType "vector" with
  | none => return ⟨[("vector", .anyScalarOrVector)], components.map fun c => (c, .float)⟩
  | some type => splitSocketsOfBy names type

def socketsBy (kind : NodeKind) (s : Surroundings) (node : Node) : Recipe Sockets :=
  match kind with
  | compose size => return ⟨(names size).map fun c => (c, .float), [("out", .vec size)]⟩
  | split => splitSocketsBy names
  | kind => kind.sockets s node

def defaultsBy (kind : NodeKind) : Parameters :=
  match kind with
  | compose size => Table.ofList ((names size).map fun c => (c, .number .zero))
  | kind => kind.defaults

end Names

/-! Recipes that are given canonical types -/

variable (beyond : Nat → List String) {kind : NodeKind} (s : Surroundings) (node : Node)

theorem splitPartsWithin {e : Expression} (canonical : e.type.isCanonical = true) :
    splitPartsBy (sliceOr beyond) node e = splitParts node e := by
  unfold splitPartsBy splitParts
  cases sized : e.type.size? with
  | none => rfl
  | some size =>
    cases parted : e.type.component? with
    | none => rfl
    | some component =>
      have within := ValueType.canonicalSize canonical sized
      dsimp only
      rw [sliceOrWithin beyond within, sliceWithin within]
      rfl

theorem splitSocketsWithin {type : ValueType} (canonical : type.isCanonical = true) :
    splitSocketsOfBy (sliceOr beyond) type = splitSocketsOf type := by
  have within : type.size?.getD 1 ≤ 4 := by
    cases sized : type.size? with
    | none => decide
    | some size => exact ValueType.canonicalSize canonical sized
  unfold splitSocketsOfBy splitSocketsOf
  rw [sliceOrWithin beyond within, sliceWithin within]
  rfl

theorem compileWithinSlices (typed : kind.isTyped = true) :
    (kind.compileBy (sliceOr beyond) s node).Agrees (fun e => e.type.isCanonical = true)
      (kind.compile s node) := by
  cases kind with
  | compose size =>
    have range : 2 ≤ size ∧ size ≤ 4 := by simpa [isTyped] using typed
    simp only [compileBy, composeBy, sliceOrWithin beyond range.2]
    exact agreesRefl _
  | split =>
    refine ⟨_, rfl, fun answer good => ?_⟩
    cases answer with
    | none => exact agreesRefl _
    | some e =>
      change (splitPartsBy (sliceOr beyond) node e).Agrees _ _
      rw [splitPartsWithin beyond node (good e rfl)]
      exact agreesRefl _
  | _ => exact agreesRefl _

theorem socketsWithinSlices (typed : kind.isTyped = true) :
    (kind.socketsBy (sliceOr beyond) s node).Agrees (fun e => e.type.isCanonical = true)
      (kind.sockets s node) := by
  cases kind with
  | compose size =>
    have range : 2 ≤ size ∧ size ≤ 4 := by simpa [isTyped] using typed
    simp only [socketsBy, sliceOrWithin beyond range.2]
    exact agreesRefl _
  | split =>
    refine ⟨_, rfl, fun answer good => ?_⟩
    cases answer with
    | none => exact agreesRefl _
    | some e =>
      change (splitSocketsOfBy (sliceOr beyond) e.type).Agrees _ (splitSocketsOf e.type)
      rw [splitSocketsWithin beyond (good e rfl)]
      exact agreesRefl _
  | _ => exact agreesRefl _

theorem defaultsWithinSlices (typed : kind.isTyped = true) :
    kind.defaultsBy (sliceOr beyond) = kind.defaults := by
  cases kind with
  | compose size =>
    have range : 2 ≤ size ∧ size ≤ 4 := by simpa [isTyped] using typed
    simp only [defaultsBy, defaults, sliceOrWithin beyond range.2]
  | _ => rfl

end NodeKind

namespace Scene

/-! Questions by the names that vectors of each size have -/

section Names

variable (scene : Scene) (names : Nat → List String)

def compileWithinBy (budget : Nat) (id : String) (cache : Cache) : Except Failure Compiled × Cache :=
  match scene.net.node id with
  | .error e => (.error e, cache)
  | .ok node =>
    match cache.results.get? id with
    | some result => (.ok result, cache)
    | none =>
      if id ∈ cache.stack then (.error (.cyclic (cycle cache.stack id)), cache)
      else match scene.registry.kind node.type with
        | .error e => (.error e, cache)
        | .ok kind =>
          match budget with
          | 0 => (.error (.cyclic (cache.stack ++ [id])), cache)
          | budget + 1 =>
            let inputs := scene.answer (compileWithinBy budget) node none
            match (kind.compileBy names scene.surroundings node).run inputs (cache.enter id) with
            | (.ok result, cache) => (.ok result, cache.leave.store id result)
            | (.error e, cache) => (.error e, cache.leave)

def compileBy (id : String) (cache : Cache) : Except Failure Compiled × Cache :=
  scene.compileWithinBy names scene.net.nodes.size id cache

def socketsBy (kind : NodeKind) (node : Node) (detached : Option String) (cache : Cache) :
    Except Failure Sockets × Cache :=
  (kind.socketsBy names scene.surroundings node).run
    (scene.answer (scene.compileBy names) node detached) cache

def describeBy (id : String) (cache : Cache) : Except Failure Description × Cache :=
  match scene.net.node id with
  | .error e => (.error e, cache)
  | .ok node =>
    match scene.registry.kind node.type with
    | .error e =>
      (.ok (scene.withOrphans
        ⟨id, node.type, node.type, "", [], [], node.parameters, some e.message⟩), cache)
    | .ok kind =>
      let plain : Description := ⟨id, node.type, kind.label, kind.description, [], [],
        (kind.defaultsBy names).overlay node.parameters.entries, none⟩
      match scene.socketsBy names kind node none cache with
      | (.error e, cache) => (.ok (scene.withOrphans { plain with error := some e.message }), cache)
      | (.ok sockets, cache) =>
        let declared := { plain with inputs := sockets.inputs, outputs := sockets.outputs }
        match scene.compileBy names id cache with
        | (.ok _, cache) => (.ok (scene.withOrphans declared), cache)
        | (.error e, cache) =>
          (.ok (scene.withOrphans { declared with error := some e.message }), cache)

def describeAllBy : List String → Cache → Except Failure (List Description) × Cache
  | [], cache => (.ok [], cache)
  | id :: rest, cache =>
    match scene.describeBy names id cache with
    | (.error e, cache) => (.error e, cache)
    | (.ok d, cache) =>
      match describeAllBy rest cache with
      | (.error e, cache) => (.error e, cache)
      | (.ok ds, cache) => (.ok (d :: ds), cache)

end Names

variable {scene : Scene} {inside : String → Prop} {given : String → Expression → Prop}
  {good : String → Compiled → Prop} {names : Nat → List String} {cache : Cache}

/-- Every recipe of these nodes is the same with these names, as long as it is given what it should be. -/
structure Sliced (scene : Scene) (inside : String → Prop) (given : String → Expression → Prop)
    (names : Nat → List String) : Prop where
  compile : ∀ node kind, inside node.id → scene.registry.kind node.type = .ok kind →
    (kind.compileBy names scene.surroundings node).Agrees (given node.id)
      (kind.compile scene.surroundings node)
  sockets : ∀ node kind, inside node.id → scene.registry.kind node.type = .ok kind →
    (kind.socketsBy names scene.surroundings node).Agrees (given node.id)
      (kind.sockets scene.surroundings node)
  defaults : ∀ type kind, scene.registry.kind type = .ok kind → kind.defaultsBy names = kind.defaults

theorem typedSliced (typed : ∀ type kind, scene.registry.kind type = .ok kind → kind.isTyped = true)
    (inside : String → Prop) (beyond : Nat → List String) :
    scene.Sliced inside (fun id e => inside id → e.type.isCanonical = true) (NodeKind.sliceOr beyond) where
  compile := fun node kind here known => by
    simpa only [here, forall_const] using
      NodeKind.compileWithinSlices beyond scene.surroundings node (typed _ kind known)
  sockets := fun node kind here known => by
    simpa only [here, forall_const] using
      NodeKind.socketsWithinSlices beyond scene.surroundings node (typed _ kind known)
  defaults := fun type kind known => NodeKind.defaultsWithinSlices beyond (typed type kind known)

section Sliced

variable (sound : scene.net.Sound) (within : scene.net.FedWithin inside)
  (passes : scene.Passes given good)
include sound within passes

theorem runSliced {compile compile' : String → Cache → Except Failure Compiled × Cache}
    (keeps : ∀ id cache, Each good cache.results → Each good (compile id cache).2.results ∧
      ∀ c, (compile id cache).1 = .ok c → good id c)
    (same : ∀ id cache, inside id → Each good cache.results → compile' id cache = compile id cache)
    {node : Node} (here : inside node.id) (detached : Option String) {α : Type} {r r' : Recipe α}
    (agrees : r'.Agrees (given node.id) r) (each : Each good cache.results) :
    r'.run (scene.answer compile' node detached) cache =
      r.run (scene.answer compile node detached) cache := by
  refine Recipe.runAgrees (fun cache => Each good cache.results) (fun name cache each => ?_)
    (fun name cache each => answerEach passes keeps node detached name each) agrees each
  simp only [answer]
  split
  · rfl
  · cases fed : scene.net.feeder? ⟨node.id, name⟩ with
    | none => rfl
    | some c =>
      dsimp only
      rw [same _ cache (within.feeder sound.toIndexed here fed) each]

variable (sliced : scene.Sliced inside given names)
include sliced

theorem compileWithinSliced (budget : Nat) (id : String) (cache : Cache) (here : inside id)
    (each : Each good cache.results) :
    scene.compileWithinBy names budget id cache = scene.compileWithin budget id cache := by
  induction budget generalizing id cache with
  | zero =>
    unfold compileWithinBy compileWithin
    rfl
  | succ budget ih =>
    unfold compileWithinBy compileWithin
    cases found : scene.net.node id with
    | error e => rfl
    | ok node =>
      obtain ⟨rfl, _⟩ := Net.nodePresent sound found
      cases kept : cache.results.get? node.id with
      | some result => rfl
      | none =>
        dsimp only
        split
        · rfl
        · cases known : scene.registry.kind node.type with
          | error e => rfl
          | ok kind =>
            have entered : Each good (cache.enter node.id).results := each
            dsimp only
            rewrite [runSliced sound within passes (compileWithinEach passes budget) ih here none
              (sliced.compile node kind here known) entered]
            rfl

theorem compileSliced (id : String) (cache : Cache) (here : inside id)
    (each : Each good cache.results) : scene.compileBy names id cache = scene.compile id cache :=
  compileWithinSliced sound within passes sliced _ id cache here each

theorem socketsSliced {node : Node} {kind : NodeKind} (here : inside node.id)
    (known : scene.registry.kind node.type = .ok kind) (detached : Option String)
    (each : Each good cache.results) :
    scene.socketsBy names kind node detached cache = scene.sockets kind node detached cache :=
  runSliced sound within passes (compileEach passes) (compileSliced sound within passes sliced) here
    detached (sliced.sockets node kind here known) each

theorem describeSliced {id : String} (here : inside id) (each : Each good cache.results) :
    scene.describeBy names id cache = scene.describe id cache := by
  unfold describeBy describe
  cases found : scene.net.node id with
  | error e => rfl
  | ok node =>
    obtain ⟨rfl, _⟩ := Net.nodePresent sound found
    dsimp only
    cases known : scene.registry.kind node.type with
    | error e => rfl
    | ok kind =>
      have asked := socketsKeeps (fun id cache each => (compileEach passes id cache each).1) kind node
        none each
      dsimp only
      rw [socketsSliced sound within passes sliced here known none each, sliced.defaults _ kind known]
      cases declared : scene.sockets kind node none cache with
      | mk answer after =>
        rw [declared] at asked
        cases answer with
        | error e => rfl
        | ok sockets =>
          dsimp only
          rw [compileSliced sound within passes sliced node.id after here asked]
          rfl

theorem describeAllSliced {ids : List String} (here : ∀ id ∈ ids, inside id)
    (each : Each good cache.results) :
    scene.describeAllBy names ids cache = scene.describeAll ids cache := by
  induction ids generalizing cache with
  | nil => rfl
  | cons id rest ih =>
    rw [List.forall_mem_cons] at here
    have first := describeKeeps (fun id cache each => (compileEach passes id cache each).1) id each
    unfold describeAllBy describeAll
    rw [describeSliced sound within passes sliced here.1 each]
    cases described : scene.describe id cache with
    | mk answer after =>
      rw [described] at first
      cases answer with
      | error e => rfl
      | ok d =>
        have later : scene.describeAllBy names rest after = scene.describeAll rest after := ih here.2 first
        dsimp only
        rewrite [later]
        rfl

end Sliced
end Scene
end ShaderNet
