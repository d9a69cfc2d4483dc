import ShaderNet.Proofs.Evaluate.Queries
import ShaderNet.Proofs.Net.UpstreamOrder

/-! How a cache grows. A node is kept only after all that it reads, so that whatever has been asked in
between, compiling a node once more leaves nothing out that compiling it at once would have kept. -/
namespace ShaderNet

namespace Recipe

variable {α σ : Type}

def asked (f : String → Except Failure (Option Expression)) : Recipe α → List String
  | .done _ => []
  | .fail _ => []
  | .ask name next =>
    match f name with
    | .ok e => name :: (next e).asked f
    | .error _ => []

inductive Answered (answer : String → σ → Except Failure (Option Expression) × σ) :
    List String → σ → σ → Prop
  | nothing (s) : Answered answer [] s s
  | next {name rest s mid after e} (now : answer name s = (.ok e, mid))
      (later : Answered answer rest mid after) : Answered answer (name :: rest) s after

theorem runAnswered {answer : String → σ → Except Failure (Option Expression) × σ}
    {f : String → Except Failure (Option Expression)} {good : σ → Prop}
    (keeps : ∀ name s, good s → good (answer name s).2)
    (agree : ∀ name s e, good s → (answer name s).1 = .ok e → f name = .ok e) (r : Recipe α) {s : σ}
    {a : α} (start : good s) (ok : (r.run answer s).1 = .ok a) :
    r.follow f = .ok a ∧ Answered answer (r.asked f) s (r.run answer s).2 := by
  induction r generalizing s with
  | done b => exact ⟨ok, .nothing s⟩
  | fail e => cases ok
  | ask name next ih =>
    have now := keeps name s start
    have told := fun e => agree name s e start
    simp only [run] at ok ⊢
    cases answered : answer name s with
    | mk e mid =>
      rw [answered] at ok now told
      cases e with
      | error e => cases ok
      | ok e =>
        obtain ⟨followed, later⟩ := ih e now ok
        simp only [follow, asked, told e rfl]
        exact ⟨followed, .next answered later⟩

end Recipe

namespace Scene

def Reads (scene : Scene) (id source : String) : Prop :=
  ∃ node kind, scene.net.node id = .ok node ∧ scene.registry.kind node.type = .ok kind ∧
    ∃ name ∈ (kind.compile scene.surroundings node).asked
        (scene.input (scene.evaluate []) node none),
      ∃ c, scene.net.feeder? ⟨node.id, name⟩ = some c ∧ c.source.node = source

structure Grown (scene : Scene) (old new : Table String Compiled) : Prop where
  kept : ∀ k c, old.get? k = some c → new.get? k = some c
  read : ∀ k c, new.get? k = some c → old.get? k = none →
    ∀ source, scene.Reads k source → new.contains source = true

structure Supplied (scene : Scene) (old : Table String Compiled) (nodes : String → Prop) : Prop where
  kept : ∀ k c, old.get? k = some c → nodes k
  read : ∀ k, old.get? k = none → nodes k → ∀ source, scene.Reads k source → nodes source

variable {scene : Scene} {old mid new : Table String Compiled}

theorem grownRefl (scene : Scene) (old : Table String Compiled) : scene.Grown old old := by
  refine ⟨fun _ _ found => found, fun k c found absent => ?_⟩
  rw [absent] at found
  cases found

theorem Grown.trans (first : scene.Grown old mid) (second : scene.Grown mid new) :
    scene.Grown old new := by
  refine ⟨fun k c found => second.kept k c (first.kept k c found), fun k c found absent s reads => ?_⟩
  cases between : mid.get? k with
  | none => exact second.read k c found between s reads
  | some d =>
    obtain ⟨e, read⟩ := Table.containsIff.mp (first.read k d between absent s reads)
    exact Table.containsIff.mpr ⟨e, second.kept s e read⟩

theorem Grown.absent (grown : scene.Grown old new) {k : String} (absent : new.get? k = none) :
    old.get? k = none := by
  cases found : old.get? k with
  | none => rfl
  | some c =>
    rw [grown.kept k c found] at absent
    cases absent

theorem Supplied.later {nodes : String → Prop} (supplied : scene.Supplied old nodes)
    (grown : scene.Grown old new) (inside : ∀ k c, new.get? k = some c → nodes k) :
    scene.Supplied new nodes :=
  ⟨inside, fun k absent => supplied.read k (grown.absent absent)⟩

structure Filled (scene : Scene) (id : String) (old : Cache) (r : Except Failure Compiled × Cache) :
    Prop where
  keeps : scene.Keeps r.2.results
  grown : scene.Grown old.results r.2.results
  kept : ∀ c, r.1 = .ok c → r.2.results.get? id = some c
  needed : ∀ c, r.1 = .ok c → ∀ nodes, scene.Supplied old.results nodes → nodes id →
    ∀ k d, r.2.results.get? k = some d → nodes k

theorem filledSame {id : String} {cache : Cache} (keeps : scene.Keeps cache.results)
    {result : Except Failure Compiled}
    (kept : ∀ c, result = .ok c → cache.results.get? id = some c) :
    scene.Filled id cache (result, cache) :=
  ⟨keeps, grownRefl _ _, kept, fun _ _ _ supplied _ => supplied.kept⟩

/- How an input is answered: it is open, or its source is compiled. -/
theorem answerCases (compile : String → Cache → Except Failure Compiled × Cache) (node : Node)
    (detached : Option String) (name : String) (cache : Cache) :
    (scene.answer compile node detached name cache = (.ok none, cache) ∧
      (detached = none → scene.net.feeder? ⟨node.id, name⟩ = none) ∧
      ∀ produce, scene.input produce node detached name = .ok none) ∨
    ∃ c, scene.net.feeder? ⟨node.id, name⟩ = some c ∧
      (scene.answer compile node detached name cache).2 = (compile c.source.node cache).2 ∧
      ∀ e, (scene.answer compile node detached name cache).1 = .ok e →
        ∃ result, (compile c.source.node cache).1 = .ok result ∧
          result.outputs.get? c.source.name = e ∧
          ∀ produce, produce c.source.node = .ok result →
            scene.input produce node detached name = .ok e := by
  unfold answer input
  split
  · exact .inl ⟨rfl, by simp_all, fun _ => rfl⟩
  · cases fed : scene.net.feeder? ⟨node.id, name⟩ with
    | none => exact .inl ⟨rfl, fun _ => rfl, fun _ => rfl⟩
    | some c =>
      refine .inr ⟨c, rfl, ?_⟩
      dsimp only
      cases compile c.source.node cache with
      | mk result after =>
        cases result with
        | error e => exact ⟨rfl, fun _ impossible => by cases impossible⟩
        | ok result =>
          dsimp only
          cases found : result.outputs.get? c.source.name with
          | none => exact ⟨rfl, fun _ impossible => by cases impossible⟩
          | some e =>
            refine ⟨rfl, fun e' same => ⟨result, rfl, ?_, fun produce produced => ?_⟩⟩
            · cases same
              exact found
            · rw [produced]
              dsimp only
              rw [found]
              exact same

section Answers

variable {compile : String → Cache → Except Failure Compiled × Cache} {node : Node}
  (fills : ∀ id cache, scene.Keeps cache.results → scene.Filled id cache (compile id cache))
include fills

theorem answerGrown (node : Node) {start cache : Cache}
    (good : scene.Keeps cache.results ∧ scene.Grown start.results cache.results) (name : String) :
    scene.Keeps (scene.answer compile node none name cache).2.results ∧
      scene.Grown start.results (scene.answer compile node none name cache).2.results := by
  rcases answerCases compile node none name cache with ⟨same, _⟩ | ⟨c, _, same, _⟩ <;> rw [same]
  · exact good
  · have filled := fills c.source.node cache good.1
    exact ⟨filled.keeps, good.2.trans filled.grown⟩

theorem answerAgrees {cache : Cache} (keeps : scene.Keeps cache.results) {name : String}
    {e : Option Expression} (ok : (scene.answer compile node none name cache).1 = .ok e) :
    scene.input (scene.evaluate []) node none name = .ok e := by
  rcases answerCases compile node none name cache with ⟨same, _, opened⟩ | ⟨c, _, _, source⟩
  · rw [same] at ok
    cases ok
    exact opened _
  · obtain ⟨result, compiled, _, told⟩ := source e ok
    have filled := fills c.source.node cache keeps
    exact told _ (filled.keeps _ result (filled.kept result compiled))

theorem answeredSources {names : List String} {cache after : Cache}
    (answered : Recipe.Answered (scene.answer compile node none) names cache after)
    (keeps : scene.Keeps cache.results) :
    (scene.Keeps after.results ∧ scene.Grown cache.results after.results) ∧
    ∀ name ∈ names, ∀ c, scene.net.feeder? ⟨node.id, name⟩ = some c →
      after.results.contains c.source.node = true := by
  induction answered with
  | nothing s => exact ⟨⟨keeps, grownRefl _ _⟩, fun _ member => nomatch member⟩
  | @next name rest s mid after e now later ih =>
    have step := answerGrown fills node ⟨keeps, grownRefl scene s.results⟩ name
    rw [now] at step
    obtain ⟨⟨keeps', grown⟩, others⟩ := ih step.1
    refine ⟨⟨keeps', step.2.trans grown⟩, fun k member c fed => ?_⟩
    rcases List.mem_cons.mp member with rfl | member
    · rcases answerCases compile node none k s with ⟨_, free, _⟩ | ⟨d, fed', same, source⟩
      · rw [free rfl] at fed
        cases fed
      · cases fed.symm.trans fed'
        obtain ⟨result, compiled, _⟩ := source e (by rw [now])
        have found := (fills c.source.node s keeps).kept result compiled
        rw [← same, now] at found
        exact Table.containsIff.mpr ⟨result, grown.kept _ _ found⟩
    · exact others k member c fed

theorem answeredSupplied {names : List String} {cache after : Cache}
    (answered : Recipe.Answered (scene.answer compile node none) names cache after)
    (keeps : scene.Keeps cache.results) {nodes : String → Prop}
    (supplied : scene.Supplied cache.results nodes)
    (asked : ∀ name ∈ names, ∀ c, scene.net.feeder? ⟨node.id, name⟩ = some c → nodes c.source.node) :
    ∀ k d, after.results.get? k = some d → nodes k := by
  induction answered with
  | nothing s => exact supplied.kept
  | @next name rest s mid after e now later ih =>
    have step := answerGrown fills node ⟨keeps, grownRefl scene s.results⟩ name
    have inside : ∀ k d, (scene.answer compile node none name s).2.results.get? k = some d →
        nodes k := by
      rcases answerCases compile node none name s with ⟨same, _⟩ | ⟨c, fed, same, source⟩
      · rw [same]
        exact supplied.kept
      · obtain ⟨result, compiled, _⟩ := source e (by rw [now])
        rw [same]
        exact (fills c.source.node s keeps).needed result compiled nodes supplied
          (asked name List.mem_cons_self c fed)
    rw [now] at step inside
    exact ih step.1 (supplied.later step.2 inside)
      fun k member => asked k (List.mem_cons_of_mem _ member)

theorem runGrown {α : Type} (r : Recipe α) (node : Node) {cache : Cache}
    (keeps : scene.Keeps cache.results) :
    scene.Keeps (r.run (scene.answer compile node none) cache).2.results ∧
      scene.Grown cache.results (r.run (scene.answer compile node none) cache).2.results := by
  have step : ∀ name s, (scene.Keeps s.results ∧ scene.Grown cache.results s.results) →
      scene.Keeps (scene.answer compile node none name s).2.results ∧
        scene.Grown cache.results (scene.answer compile node none name s).2.results :=
    fun name _ good => answerGrown fills node good name
  exact Recipe.runKeeps step r ⟨keeps, grownRefl _ _⟩

theorem runSources {α : Type} {r : Recipe α} {a : α} {cache after : Cache}
    (keeps : scene.Keeps cache.results)
    (ran : r.run (scene.answer compile node none) cache = (.ok a, after)) :
    r.follow (scene.input (scene.evaluate []) node none) = .ok a ∧
      Recipe.Answered (scene.answer compile node none)
        (r.asked (scene.input (scene.evaluate []) node none)) cache after := by
  have step : ∀ name s, scene.Keeps s.results →
      scene.Keeps (scene.answer compile node none name s).2.results :=
    fun name s good => (answerGrown fills node ⟨good, grownRefl scene s.results⟩ name).1
  have agree : ∀ name s e, scene.Keeps s.results →
      (scene.answer compile node none name s).1 = .ok e →
      scene.input (scene.evaluate []) node none name = .ok e :=
    fun name s e good => answerAgrees fills good
  have result := Recipe.runAnswered step agree r keeps (congrArg Prod.fst ran)
  rw [ran] at result
  exact result

end Answers

/- What becomes of an attempt to compile a node. -/
theorem compileWithinCases (scene : Scene) (budget : Nat) (id : String) (cache : Cache) :
    (∃ e, scene.compileWithin budget id cache = (.error e, cache)) ∨
    (∃ result, cache.results.get? id = some result ∧
      scene.compileWithin budget id cache = (.ok result, cache)) ∨
    ∃ less node kind, less < budget ∧ scene.net.node id = .ok node ∧
      scene.registry.kind node.type = .ok kind ∧ cache.results.get? id = none ∧ id ∉ cache.stack ∧
      ((∃ result after, (kind.compile scene.surroundings node).run
          (scene.answer (scene.compileWithin less) node none) (cache.enter id) = (.ok result, after) ∧
        scene.compileWithin budget id cache = (.ok result, after.leave.store id result)) ∨
      ∃ e after, (kind.compile scene.surroundings node).run
          (scene.answer (scene.compileWithin less) node none) (cache.enter id) = (.error e, after) ∧
        scene.compileWithin budget id cache = (.error e, after.leave)) := by
  cases budget with
  | zero =>
    unfold compileWithin
    split
    · exact .inl ⟨_, rfl⟩
    · split
      · exact .inr (.inl ⟨_, by assumption, rfl⟩)
      · split
        · exact .inl ⟨_, rfl⟩
        · split <;> exact .inl ⟨_, rfl⟩
  | succ less =>
    unfold compileWithin
    split
    · exact .inl ⟨_, rfl⟩
    · rename_i node found
      split
      · exact .inr (.inl ⟨_, by assumption, rfl⟩)
      · rename_i absent
        split
        · exact .inl ⟨_, rfl⟩
        · rename_i idle
          split
          · exact .inl ⟨_, rfl⟩
          · rename_i kind known
            refine .inr (.inr ⟨less, node, kind, Nat.lt_succ_self _, found, known, absent, idle, ?_⟩)
            dsimp only
            split <;> rename_i ran
            · exact .inl ⟨_, _, ran, rfl⟩
            · exact .inr ⟨_, _, ran, rfl⟩

/- What every step of a compilation keeps of a cache, the whole of it does. -/
theorem compileWithinKeeps (kept : Cache → Prop)
    (enter : ∀ id cache, kept cache → kept (cache.enter id))
    (leave : ∀ cache, kept cache → kept cache.leave)
    (store : ∀ id node kind answer (start : Cache) result after, scene.net.node id = .ok node →
      (NodeKind.compile kind scene.surroundings node).run answer start = (.ok result, after) →
      kept after.leave → kept (after.leave.store id result))
    (budget : Nat) (id : String) (cache : Cache) (start : kept cache) :
    kept (scene.compileWithin budget id cache).2 := by
  induction budget using Nat.strongRecOn generalizing id cache with
  | ind budget ih =>
    rcases scene.compileWithinCases budget id cache with
      ⟨e, same⟩ | ⟨result, _, same⟩ | ⟨less, node, kind, within, found, _, _, _, ran⟩
    · rw [same]
      exact start
    · rw [same]
      exact start
    · have step : ∀ name s, kept s →
          kept (scene.answer (scene.compileWithin less) node none name s).2 :=
        fun name s now => answerKeeps (ih less within) node none name now
      have now := Recipe.runKeeps step (kind.compile scene.surroundings node) (enter id cache start)
      rcases ran with ⟨result, after, ran, same⟩ | ⟨e, after, ran, same⟩ <;>
        rw [ran] at now <;> rw [same]
      · exact store id node kind _ _ result after found ran (leave after now)
      · exact leave after now

theorem evaluateOfMade {id : String} {c : Compiled}
    (ok : scene.made (scene.evaluate []) id = .ok c) : scene.evaluate [] id = .ok c :=
  evaluateIff.mpr ⟨scene.idle [] + 1 + 1, madeMono (fun _ _ => attemptOfEvaluate) ok⟩

/- A node is stored after its sources: those are the new results that it was made from. -/
theorem storedFilled {id : String} {cache after : Cache} {node : Node} {kind : NodeKind}
    {result : Compiled} (found : scene.net.node id = .ok node)
    (known : scene.registry.kind node.type = .ok kind) (absent : cache.results.get? id = none)
    (keeps : scene.Keeps after.results) (grown : scene.Grown cache.results after.results)
    (made : (kind.compile scene.surroundings node).follow
      (scene.input (scene.evaluate []) node none) = .ok result)
    (sources : ∀ source, scene.Reads id source → after.results.contains source = true)
    (needed : ∀ nodes, scene.Supplied cache.results nodes → nodes id →
      ∀ k d, after.results.get? k = some d → nodes k) :
    scene.Filled id cache (.ok result, after.leave.store id result) := by
  have look : ∀ k, (after.leave.store id result).results.get? k =
      if id = k then some result else after.results.get? k := fun k => Table.getInsert ..
  have more : ∀ k, after.results.contains k = true →
      (after.leave.store id result).results.contains k = true :=
    fun k member => Table.containsInsert.mpr (.inr member)
  refine ⟨fun k c kept => ?_, ⟨fun k c kept => ?_, fun k c kept fresh source reads => ?_⟩,
    fun c same => ?_, fun _ _ nodes supplied start k d kept => ?_⟩
  · rw [look] at kept
    split at kept
    · rename_i same
      cases kept
      refine same ▸ evaluateOfMade ?_
      simp only [Scene.made, found, known]
      exact made
    · exact keeps k c kept
  · rw [look, if_neg fun same => ?_]
    · exact grown.kept k c kept
    · rw [← same, absent] at kept
      cases kept
  · rw [look] at kept
    split at kept
    · rename_i same
      exact more _ (sources source (same ▸ reads))
    · exact more _ (grown.read k c kept fresh source reads)
  · cases same
    rw [look, if_pos rfl]
  · rw [look] at kept
    split at kept
    · rename_i same
      exact same ▸ start
    · exact needed nodes supplied start k d kept

theorem compileWithinFilled (budget : Nat) (id : String) (cache : Cache)
    (keeps : scene.Keeps cache.results) :
    scene.Filled id cache (scene.compileWithin budget id cache) := by
  induction budget using Nat.strongRecOn generalizing id cache with
  | ind budget ih =>
    rcases scene.compileWithinCases budget id cache with
      ⟨e, same⟩ | ⟨result, kept, same⟩ | ⟨less, node, kind, within, found, known, absent, _, ran⟩
    · rw [same]
      exact filledSame keeps fun _ impossible => nomatch impossible
    · rw [same]
      exact filledSame keeps fun _ same => Except.ok.inj same ▸ kept
    · have entered : scene.Keeps (cache.enter id).results := keeps
      rcases ran with ⟨result, after, ran, same⟩ | ⟨e, after, ran, same⟩
      · have fills := ih less within
        obtain ⟨made, answered⟩ := runSources fills entered ran
        obtain ⟨⟨keeps', grown⟩, sources⟩ := answeredSources fills answered entered
        rw [same]
        refine storedFilled found known absent keeps' grown made ?_ fun nodes supplied start => ?_
        · rintro source ⟨node', kind', found', known', name, asked, c, fed, rfl⟩
          cases found.symm.trans found'
          cases known.symm.trans known'
          exact sources name asked c fed
        · refine answeredSupplied fills answered entered supplied fun name asked c fed => ?_
          exact supplied.read id absent start _ ⟨node, kind, found, known, name, asked, c, fed, rfl⟩
      · obtain ⟨keeps', grown⟩ := runGrown (ih less within) (kind.compile scene.surroundings node)
          node entered
        rw [ran] at keeps' grown
        rw [same]
        refine ⟨keeps', grown, fun _ impossible => ?_, fun _ impossible => ?_⟩ <;> cases impossible

theorem compileFilled (id : String) (cache : Cache) (keeps : scene.Keeps cache.results) :
    scene.Filled id cache (scene.compile id cache) := compileWithinFilled _ id cache keeps

/- However the cache grew in between, all that is kept for a node at first is kept for it later. -/
theorem compileMore {id : String} {old new : Cache} (keeps : scene.Keeps new.results)
    (before : scene.Keeps old.results) (grown : scene.Grown old.results new.results) {c d : Compiled}
    (ok : (scene.compile id old).1 = .ok c) (later : (scene.compile id new).1 = .ok d) {k : String}
    {e : Compiled} (found : (scene.compile id old).2.results.get? k = some e) :
    (scene.compile id new).2.results.get? k = some e := by
  have first := compileFilled id old before
  have second := compileFilled id new keeps
  have whole := grown.trans second.grown
  have supplied : scene.Supplied old.results fun k =>
      (scene.compile id new).2.results.contains k = true := by
    refine ⟨fun k c kept => Table.containsIff.mpr ⟨c, whole.kept k c kept⟩, fun k absent kept => ?_⟩
    obtain ⟨c, found⟩ := Table.containsIff.mp kept
    exact whole.read k c found absent
  have start := Table.containsIff.mpr ⟨d, second.kept d later⟩
  obtain ⟨e', found'⟩ := Table.containsIff.mp (first.needed c ok _ supplied start k e found)
  cases (first.keeps k e found).symm.trans (second.keeps k e' found')
  exact found'

section Retyped

variable {n m : Net} (retyped : n.Retyped m) (p : Registry) (x : Exports)
include retyped

theorem answerRetyped {σ : Type} (compile : String → σ → Except Failure Compiled × σ) (node : Node)
    (detached : Option String) :
    (Scene.mk m p x).answer compile node detached = (Scene.mk n p x).answer compile node detached := by
  funext name s
  have sources := Net.retypedFeeder retyped ⟨node.id, name⟩
  simp only [answer]
  split
  · rfl
  · cases fed : n.feeder? ⟨node.id, name⟩ with
    | none =>
      rw [fed] at sources
      rw [Option.map_eq_none_iff.mp sources]
    | some c =>
      rw [fed] at sources
      obtain ⟨d, fed', same⟩ := Option.map_eq_some_iff.mp sources
      simp only [fed', same]

theorem compileRetyped : (Scene.mk m p x).compile = (Scene.mk n p x).compile := by
  have answers := @answerRetyped n m retyped p x Cache
  have nodes : m.nodes = n.nodes ∧ m.uniforms = n.uniforms := by
    obtain ⟨cs, rfl, _⟩ := retyped
    exact ⟨rfl, rfl⟩
  have within : ∀ budget,
      (Scene.mk m p x).compileWithin budget = (Scene.mk n p x).compileWithin budget := by
    intro budget
    induction budget with
    | zero =>
      funext id cache
      simp only [compileWithin, Net.node, Net.node?, nodes]
    | succ budget ih =>
      funext id cache
      simp only [compileWithin, Net.node, Net.node?, surroundings, nodes, answers, ih]
  funext id cache
  simp only [compile, within, nodes]

end Retyped
end Scene
end ShaderNet
