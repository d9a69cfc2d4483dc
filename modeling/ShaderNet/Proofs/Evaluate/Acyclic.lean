import ShaderNet.Proofs.Evaluate.Queries
import ShaderNet.Proofs.Net.Rank
import ShaderNet.Proofs.NodeKind.Failures
import ShaderNet.Workspace.Compile

/-! Compiling in a net without cycles. All that waits for a node has a higher rank, so that no node is
met again, whatever is remembered; and nothing that can be asked fails as if one were. -/
namespace ShaderNet

def FailsPlainly {α : Type} (x : Except Failure α) : Prop := ∀ e, x = .error e → e.isPlain = true

theorem plainlyOk {α : Type} (a : α) : FailsPlainly (.ok a) := fun _ impossible => by cases impossible

theorem plainlyError {α : Type} {e : Failure} (plain : e.isPlain = true) :
    FailsPlainly (.error e : Except Failure α) := by
  intro e' same
  cases same
  exact plain

theorem plainlyMap {α β : Type} {x : Except Failure α} {f : α → β} (plain : FailsPlainly x) :
    FailsPlainly (x.map f) := by
  cases x with
  | ok a => exact plainlyOk _
  | error e => exact plainlyError (plain e rfl)

theorem Net.nodePlain (n : Net) (id : String) : FailsPlainly (n.node id) := by
  unfold Net.node
  split
  · exact plainlyOk _
  · exact plainlyError rfl

theorem Registry.kindPlain (p : Registry) (type : String) : FailsPlainly (p.kind type) := by
  unfold Registry.kind
  split
  · exact plainlyOk _
  · exact plainlyError rfl

namespace Scene

variable {scene : Scene} {rank : String → Nat}

/- What feeds the node is compiled plainly, and keeps what is kept. -/
theorem answerPlain {kept : Cache → Prop} {compile : String → Cache → Except Failure Compiled × Cache}
    {node : Node}
    (compiles : ∀ name c, scene.net.feeder? ⟨node.id, name⟩ = some c → ∀ s, kept s →
      kept (compile c.source.node s).2 ∧ FailsPlainly (compile c.source.node s).1)
    (detached : Option String) (name : String) (s : Cache) (start : kept s) :
    kept (scene.answer compile node detached name s).2 ∧
      FailsPlainly (scene.answer compile node detached name s).1 := by
  unfold answer
  split
  · exact ⟨start, plainlyOk _⟩
  · cases fed : scene.net.feeder? ⟨node.id, name⟩ with
    | none => exact ⟨start, plainlyOk _⟩
    | some c =>
      obtain ⟨now, plain⟩ := compiles name c fed s start
      dsimp only
      split <;> rename_i answered <;> rw [answered] at now plain
      · exact ⟨now, plainlyError (plain _ rfl)⟩
      · split
        · exact ⟨now, plainlyOk _⟩
        · exact ⟨now, plainlyError rfl⟩

theorem typeOfPlain (sockets : List (String × ValueType)) (s : Socket) :
    FailsPlainly (typeOf sockets s) := by
  unfold typeOf
  split
  · exact plainlyOk _
  · exact plainlyError rfl

section Ranked

variable (sound : scene.net.Sound) (ranked : scene.net.Ranked rank)
include sound ranked

theorem compileWithinPlain (budget : Nat) (id : String) (cache : Cache)
    (below : ∀ p ∈ cache.stack, rank id < rank p) (enough : scene.idle cache.stack ≤ budget) :
    (scene.compileWithin budget id cache).2.stack = cache.stack ∧
      FailsPlainly (scene.compileWithin budget id cache).1 := by
  induction budget generalizing id cache with
  | zero =>
    unfold compileWithin
    cases found : scene.net.node id with
    | error e => exact ⟨rfl, plainlyError (scene.net.nodePlain id e found)⟩
    | ok node =>
      dsimp only
      split
      · exact ⟨rfl, plainlyOk _⟩
      · have fresh : id ∉ cache.stack := fun waits => Nat.lt_irrefl _ (below id waits)
        exact absurd (idleFewer found fresh) (by omega)
  | succ budget ih =>
    unfold compileWithin
    cases found : scene.net.node id with
    | error e => exact ⟨rfl, plainlyError (scene.net.nodePlain id e found)⟩
    | ok node =>
      have fresh : id ∉ cache.stack := fun waits => Nat.lt_irrefl _ (below id waits)
      have fewer := idleFewer found fresh
      obtain ⟨rfl, _⟩ := Net.nodePresent sound found
      dsimp only
      split
      · exact ⟨rfl, plainlyOk _⟩
      · rw [if_neg fresh]
        cases known : scene.registry.kind node.type with
        | error e => exact ⟨rfl, plainlyError (scene.registry.kindPlain _ e known)⟩
        | ok kind =>
          -- a source has a lower rank than the node, and so than all that waits for the node
          have sources : ∀ name c, scene.net.feeder? ⟨node.id, name⟩ = some c → ∀ s : Cache,
              s.stack = cache.stack ++ [node.id] →
              (scene.compileWithin budget c.source.node s).2.stack = cache.stack ++ [node.id] ∧
                FailsPlainly (scene.compileWithin budget c.source.node s).1 := by
            intro name c fed s stack
            obtain ⟨member, target⟩ := (Net.feederIff sound.toIndexed).mp fed
            have lower := ranked c member
            rw [target] at lower
            have compiled := ih c.source.node s
              (by
                intro p waits
                rw [stack] at waits
                rcases List.mem_append.mp waits with waits | last
                · exact Nat.lt_trans lower (below p waits)
                · rw [List.mem_singleton.mp last]
                  exact lower)
              (by rw [stack]; omega)
            rw [stack] at compiled
            exact compiled
          have answers := answerPlain sources none
          have entered : (cache.enter node.id).stack = cache.stack ++ [node.id] := rfl
          have plain := Recipe.runPlain answers (kind.compilePlain scene.surroundings node) entered
          have left := Recipe.runKeeps (fun name s start => (answers name s start).1)
            (kind.compile scene.surroundings node) entered
          dsimp only
          split <;> rename_i ran <;> rw [ran] at plain left
          · refine ⟨?_, plainlyOk _⟩
            show (Cache.leave _).stack = _
            rw [Cache.leave, left, List.dropLast_concat]
          · refine ⟨?_, plainlyError (plain _ rfl)⟩
            rw [Cache.leave, left, List.dropLast_concat]

theorem compilePlain (id : String) (cache : Cache) (idle : cache.stack = []) :
    (scene.compile id cache).2.stack = [] ∧ FailsPlainly (scene.compile id cache).1 := by
  have enough : scene.idle cache.stack ≤ scene.net.nodes.size := by
    refine Nat.le_trans (List.length_filter_le _ _) ?_
    simp [Table.keys, Table.size]
  have compiled := compileWithinPlain sound ranked scene.net.nodes.size id cache
    (by rw [idle]; exact List.forall_mem_nil _) enough
  rw [idle] at compiled
  exact compiled

/-! Questions -/

theorem socketsPlain (kind : NodeKind) (node : Node) (detached : Option String) (cache : Cache)
    (idle : cache.stack = []) : (scene.sockets kind node detached cache).2.stack = [] ∧
      FailsPlainly (scene.sockets kind node detached cache).1 := by
  have answers : ∀ name (s : Cache), s.stack = [] →
      (scene.answer scene.compile node detached name s).2.stack = [] ∧
        FailsPlainly (scene.answer scene.compile node detached name s).1 :=
    answerPlain (fun _ c _ s idle => compilePlain sound ranked c.source.node s idle) detached
  exact ⟨Recipe.runKeeps (fun name s start => (answers name s start).1) _ idle,
    Recipe.runPlain answers (kind.socketsPlain scene.surroundings node) idle⟩

theorem inputTypePlain (s : Socket) (cache : Cache) (idle : cache.stack = []) :
    FailsPlainly (scene.inputType s cache).1 := by
  unfold inputType
  split
  · exact plainlyError (scene.net.nodePlain _ _ (by assumption))
  · split
    · exact plainlyError (scene.registry.kindPlain _ _ (by assumption))
    · rename_i node _ _ kind _
      obtain ⟨_, plain⟩ := socketsPlain sound ranked kind node (some s.name) cache idle
      split <;> rename_i answered <;> rw [answered] at plain
      · exact plainlyError (plain _ rfl)
      · exact typeOfPlain _ s

theorem outputTypePlain (s : Socket) (cache : Cache) (idle : cache.stack = []) :
    FailsPlainly (scene.outputType s cache).1 := by
  unfold outputType
  split
  · exact plainlyError (scene.net.nodePlain _ _ (by assumption))
  · rename_i node _
    obtain ⟨after, _⟩ := compilePlain sound ranked s.node cache idle
    split <;> rename_i compiled <;> rw [compiled] at after
    · exact typeOfPlain _ s
    · split
      · exact plainlyError (scene.registry.kindPlain _ _ (by assumption))
      · rename_i kind _
        obtain ⟨_, plain⟩ := socketsPlain sound ranked kind node none _ after
        split <;> rename_i answered <;> rw [answered] at plain
        · exact plainlyError (plain _ rfl)
        · exact typeOfPlain _ s

end Ranked
end Scene

/-! Descriptions -/

def Description.IsPlain (d : Description) : Prop :=
  ∀ message, d.error = some message → ∃ e : Failure, e.isPlain = true ∧ message = e.message

namespace Scene

variable {scene : Scene} {rank : String → Nat}

theorem orphansPlain {d : Description} (plain : d.IsPlain) : (scene.withOrphans d).IsPlain := by
  unfold withOrphans
  split <;> exact plain

theorem failedPlain {d : Description} {e : Failure} (failed : d.error = some e.message)
    (plain : e.isPlain = true) : d.IsPlain :=
  fun _ same => ⟨e, plain, Option.some.inj (same.symm.trans failed)⟩

section Ranked

variable (sound : scene.net.Sound) (ranked : scene.net.Ranked rank)
include sound ranked

theorem describePlain (id : String) (cache : Cache) (idle : cache.stack = []) :
    (scene.describe id cache).2.stack = [] ∧ FailsPlainly (scene.describe id cache).1 ∧
      ∀ d, (scene.describe id cache).1 = .ok d → d.IsPlain := by
  have told : ∀ {after : Cache} {d : Description}, after.stack = [] → d.IsPlain →
      after.stack = [] ∧ FailsPlainly (.ok (scene.withOrphans d)) ∧
        ∀ d', (.ok (scene.withOrphans d) : Except Failure _) = .ok d' → d'.IsPlain := by
    intro after d idle plain
    refine ⟨idle, plainlyOk _, fun d' same => ?_⟩
    cases same
    exact orphansPlain plain
  unfold describe
  cases found : scene.net.node id with
  | error e =>
    exact ⟨idle, plainlyError (scene.net.nodePlain id e found), fun _ impossible => by cases impossible⟩
  | ok node =>
    dsimp only
    cases known : scene.registry.kind node.type with
    | error e => exact told idle (failedPlain rfl (scene.registry.kindPlain _ e known))
    | ok kind =>
      obtain ⟨after, plain⟩ := socketsPlain sound ranked kind node none cache idle
      dsimp only
      split <;> rename_i answered <;> rw [answered] at after plain
      · exact told after (failedPlain rfl (plain _ rfl))
      · obtain ⟨last, plain'⟩ := compilePlain sound ranked id _ after
        split <;> rename_i compiled <;> rw [compiled] at last plain'
        · exact told last fun _ impossible => by cases impossible
        · exact told last (failedPlain rfl (plain' _ rfl))

theorem describeAllPlain (ids : List String) (cache : Cache) (idle : cache.stack = []) :
    FailsPlainly (scene.describeAll ids cache).1 ∧
      ∀ ds, (scene.describeAll ids cache).1 = .ok ds → ∀ d ∈ ds, d.IsPlain := by
  induction ids generalizing cache with
  | nil =>
    refine ⟨plainlyOk _, fun ds same => ?_⟩
    cases same
    exact List.forall_mem_nil _
  | cons id rest ih =>
    obtain ⟨after, plain, described⟩ := describePlain sound ranked id cache idle
    unfold describeAll
    split <;> rename_i answered <;> rw [answered] at after plain described
    · exact ⟨plainlyError (plain _ rfl), fun _ impossible => by cases impossible⟩
    · obtain ⟨plain', others⟩ := ih _ after
      split <;> rename_i answered' <;> rw [answered'] at plain' others
      · exact ⟨plainlyError (plain' _ rfl), fun _ impossible => by cases impossible⟩
      · refine ⟨plainlyOk _, fun ds same => ?_⟩
        cases same
        exact List.forall_mem_cons.mpr ⟨described _ rfl, others _ rfl⟩

end Ranked
end Scene

/-! Workspaces -/

namespace Workspace

variable {w : Workspace} {rank : String → Nat}

structure Calm (w : Workspace) : Prop where
  sound : w.net.Sound
  ranked : ∃ rank, w.net.Ranked rank
  idle : w.cache.stack = []

theorem compilePlain (calm : w.Calm) (id : String) : FailsPlainly (w.compile id).1 := by
  obtain ⟨rank, ranked⟩ := calm.ranked
  obtain ⟨_, plain⟩ := @Scene.compilePlain w.scene rank calm.sound ranked id w.cache calm.idle
  unfold compile
  split <;> rename_i compiled <;> rw [compiled] at plain
  · exact plainlyOk _
  · exact plainlyError (plain _ rfl)

theorem shaderPlain (calm : w.Calm) (id : String) : FailsPlainly (w.shader id).1 := by
  have plain := compilePlain calm id
  unfold shader
  split <;> rename_i compiled <;> rw [compiled] at plain
  · exact plainlyError (plain _ rfl)
  · split
    · exact plainlyError rfl
    · split
      · exact plainlyError rfl
      · exact plainlyOk _

theorem canConnectPlain (calm : w.Calm) (source target : Socket) :
    FailsPlainly (w.canConnect source target).1 := by
  obtain ⟨rank, ranked⟩ := calm.ranked
  unfold canConnect
  split
  · exact plainlyError (w.net.nodePlain _ _ (by assumption))
  · exact plainlyError (w.net.nodePlain _ _ (by assumption))
  · rename_i consumer _ _ _
    split
    · exact plainlyOk _
    · have output := @Scene.outputTypePlain w.scene rank calm.sound ranked source w.cache calm.idle
      have after : (w.scene.outputType source w.cache).2.stack = [] :=
        @Scene.outputTypeKeeps w.scene (fun cache => cache.stack = []) w.cache
          (fun id s idle => (@Scene.compilePlain w.scene rank calm.sound ranked id s idle).1)
          source calm.idle
      split <;> rename_i answered <;> rw [answered] at output after
      · exact plainlyError (output _ rfl)
      · have input := @Scene.inputTypePlain w.scene rank calm.sound ranked target _ after
        split <;> rename_i answered' <;> rw [answered'] at input
        · exact plainlyError (input _ rfl)
        · cases known : w.registry.kind consumer.type with
          | error e => exact plainlyError (w.registry.kindPlain _ e known)
          | ok kind => exact plainlyOk _

theorem describePlain (calm : w.Calm) (ids : List String) :
    FailsPlainly (w.describe ids).1 ∧ ∀ ds, (w.describe ids).1 = .ok ds → ∀ d ∈ ds, d.IsPlain := by
  obtain ⟨rank, ranked⟩ := calm.ranked
  exact @Scene.describeAllPlain w.scene rank calm.sound ranked ids w.cache calm.idle

end Workspace
end ShaderNet
