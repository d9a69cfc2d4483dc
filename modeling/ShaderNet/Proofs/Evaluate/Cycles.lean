import Mathlib.Data.List.Chain
import ShaderNet.Proofs.Evaluate.Acyclic
import ShaderNet.Proofs.Evaluate.CacheGrowth
import ShaderNet.Proofs.Evaluate.SelfContained

/-! Cycles. Compiling a node comes to an end with no more nodes on the stack than there are. It reports a
cycle only if the nodes it names feed one another around, and it succeeds only if what it read leads
back to no node. -/
namespace ShaderNet
open Relation (ReflTransGen TransGen)

namespace Scene

mutual

/-- Compiling a node, with so many more nodes on the stack at most. -/
inductive Compiles (scene : Scene) : Nat → String → Cache → Except Failure Compiled × Cache → Prop
  | missing {depth id cache e} (missing : scene.net.node id = .error e) :
      Compiles scene depth id cache (.error e, cache)
  | kept {depth id cache node result} (found : scene.net.node id = .ok node)
      (kept : cache.results.get? id = some result) : Compiles scene depth id cache (.ok result, cache)
  | stack {depth id cache node} (found : scene.net.node id = .ok node)
      (absent : cache.results.get? id = none) (waits : id ∈ cache.stack) :
      Compiles scene depth id cache (.error (.cyclic (cycle cache.stack id)), cache)
  | unknown {depth id cache node e} (found : scene.net.node id = .ok node)
      (absent : cache.results.get? id = none) (fresh : id ∉ cache.stack)
      (unknown : scene.registry.kind node.type = .error e) :
      Compiles scene depth id cache (.error e, cache)
  | made {depth id cache node kind result after} (found : scene.net.node id = .ok node)
      (absent : cache.results.get? id = none) (fresh : id ∉ cache.stack)
      (known : scene.registry.kind node.type = .ok kind)
      (ran : Runs scene depth node (kind.compile scene.surroundings node) (cache.enter id)
        (.ok result, after)) :
      Compiles scene (depth + 1) id cache (.ok result, after.leave.store id result)
  | failed {depth id cache node kind e after} (found : scene.net.node id = .ok node)
      (absent : cache.results.get? id = none) (fresh : id ∉ cache.stack)
      (known : scene.registry.kind node.type = .ok kind)
      (ran : Runs scene depth node (kind.compile scene.surroundings node) (cache.enter id)
        (.error e, after)) :
      Compiles scene (depth + 1) id cache (.error e, after.leave)

inductive Runs (scene : Scene) : Nat → Node → Recipe Compiled → Cache →
    Except Failure Compiled × Cache → Prop
  | done {depth node result cache} : Runs scene depth node (.done result) cache (.ok result, cache)
  | fail {depth node e cache} : Runs scene depth node (.fail e) cache (.error e, cache)
  | opened {depth node name next cache r} (opened : scene.net.feeder? ⟨node.id, name⟩ = none)
      (later : Runs scene depth node (next none) cache r) :
      Runs scene depth node (.ask name next) cache r
  | fed {depth node name next cache c result mid e r}
      (fed : scene.net.feeder? ⟨node.id, name⟩ = some c)
      (source : Compiles scene depth c.source.node cache (.ok result, mid))
      (output : result.outputs.get? c.source.name = some e)
      (later : Runs scene depth node (next (some e)) mid r) :
      Runs scene depth node (.ask name next) cache r
  | lacking {depth node name next cache c result mid}
      (fed : scene.net.feeder? ⟨node.id, name⟩ = some c)
      (source : Compiles scene depth c.source.node cache (.ok result, mid))
      (output : result.outputs.get? c.source.name = none) :
      Runs scene depth node (.ask name next) cache
        (.error (.socketMissing c.source.node c.source.name), mid)
  | failing {depth node name next cache c e mid}
      (fed : scene.net.feeder? ⟨node.id, name⟩ = some c)
      (source : Compiles scene depth c.source.node cache (.error e, mid)) :
      Runs scene depth node (.ask name next) cache (.error e, mid)

end

variable {scene : Scene}

/-! The budget -/

/- Whatever ends with so many nodes on the stack ends the same within any larger budget. -/
theorem runsWithin {depth budget : Nat} {node : Node} {recipe : Recipe Compiled} {cache : Cache}
    {r : Except Failure Compiled × Cache}
    (within : ∀ {id cache r}, scene.Compiles depth id cache r → scene.compileWithin budget id cache = r)
    (runs : scene.Runs depth node recipe cache r) :
    recipe.run (scene.answer (scene.compileWithin budget) node none) cache = r := by
  induction recipe generalizing cache with
  | done result =>
    cases runs
    rfl
  | fail e =>
    cases runs
    rfl
  | ask name next ih =>
    cases runs with
    | opened opened later =>
      simp only [Recipe.run, answer, reduceCtorEq, if_false, opened]
      exact ih none later
    | fed fed source output later =>
      simp only [Recipe.run, answer, reduceCtorEq, if_false, fed, within source, output]
      exact ih _ later
    | lacking fed source output =>
      simp only [Recipe.run, answer, reduceCtorEq, if_false, fed, within source, output]
    | failing fed source =>
      simp only [Recipe.run, answer, reduceCtorEq, if_false, fed, within source]

theorem compilesWithin {depth budget : Nat} {id : String} {cache : Cache}
    {r : Except Failure Compiled × Cache} (compiles : scene.Compiles depth id cache r)
    (enough : depth ≤ budget) : scene.compileWithin budget id cache = r := by
  induction depth generalizing budget id cache r with
  | zero =>
    unfold compileWithin
    cases compiles with
    | missing missing => simp only [missing]
    | kept found kept => simp only [found, kept]
    | stack found absent waits => simp only [found, absent, if_pos waits]
    | unknown found absent fresh unknown => simp only [found, absent, if_neg fresh, unknown]
  | succ depth ih =>
    obtain ⟨budget, rfl⟩ := Nat.exists_eq_add_of_lt enough
    unfold compileWithin
    cases compiles with
    | missing missing => simp only [missing]
    | kept found kept => simp only [found, kept]
    | stack found absent waits => simp only [found, absent, if_pos waits]
    | unknown found absent fresh unknown => simp only [found, absent, if_neg fresh, unknown]
    | made found absent fresh known ran =>
      have run := runsWithin (fun compiles => ih compiles (Nat.le_add_right depth budget)) ran
      simp only [found, absent, if_neg fresh, known, run]
    | failed found absent fresh known ran =>
      have run := runsWithin (fun compiles => ih compiles (Nat.le_add_right depth budget)) ran
      simp only [found, absent, if_neg fresh, known, run]

/- A budget of one level for each node that does not wait is enough to end. -/
theorem withinRuns {budget : Nat} {node : Node} {path : List String}
    (compiles : ∀ id cache, cache.stack = path →
      scene.Compiles budget id cache (scene.compileWithin budget id cache) ∧
        (scene.compileWithin budget id cache).2.stack = path)
    (recipe : Recipe Compiled) {cache : Cache} (stack : cache.stack = path) :
    let r := recipe.run (scene.answer (scene.compileWithin budget) node none) cache
    scene.Runs budget node recipe cache r ∧ r.2.stack = path := by
  induction recipe generalizing cache with
  | done result => exact ⟨.done, stack⟩
  | fail e => exact ⟨.fail, stack⟩
  | ask name next ih =>
    cases fed : scene.net.feeder? ⟨node.id, name⟩ with
    | none =>
      simp only [Recipe.run, answer, reduceCtorEq, if_false, fed]
      obtain ⟨later, after⟩ := ih none stack
      exact ⟨.opened fed later, after⟩
    | some c =>
      simp only [Recipe.run, answer, reduceCtorEq, if_false, fed]
      obtain ⟨source, now⟩ := compiles c.source.node cache stack
      cases compiled : scene.compileWithin budget c.source.node cache with
      | mk result mid =>
        rw [compiled] at source now
        cases result with
        | error e => exact ⟨.failing fed source, now⟩
        | ok result =>
          dsimp only
          cases output : result.outputs.get? c.source.name with
          | none => exact ⟨.lacking fed source output, now⟩
          | some e =>
            obtain ⟨later, after⟩ := ih (some e) now
            exact ⟨.fed fed source output later, after⟩

theorem withinCompiles (budget : Nat) (id : String) (cache : Cache)
    (enough : scene.idle cache.stack ≤ budget) :
    scene.Compiles budget id cache (scene.compileWithin budget id cache) ∧
      (scene.compileWithin budget id cache).2.stack = cache.stack := by
  induction budget generalizing id cache with
  | zero =>
    unfold compileWithin
    cases found : scene.net.node id with
    | error e => exact ⟨.missing found, rfl⟩
    | ok node =>
      cases kept : cache.results.get? id with
      | some result => exact ⟨.kept found kept, rfl⟩
      | none =>
        by_cases waits : id ∈ cache.stack
        · simp only [if_pos waits]
          exact ⟨.stack found kept waits, trivial⟩
        · exact absurd (idleFewer found waits) (by omega)
  | succ budget ih =>
    unfold compileWithin
    cases found : scene.net.node id with
    | error e => exact ⟨.missing found, rfl⟩
    | ok node =>
      cases kept : cache.results.get? id with
      | some result => exact ⟨.kept found kept, rfl⟩
      | none =>
        by_cases fresh : id ∈ cache.stack
        · simp only [if_pos fresh]
          exact ⟨.stack found kept fresh, trivial⟩
        · simp only [if_neg fresh]
          cases known : scene.registry.kind node.type with
          | error e => exact ⟨.unknown found kept fresh known, rfl⟩
          | ok kind =>
            have fewer := idleFewer found fresh
            have sources : ∀ k (s : Cache), s.stack = (cache.enter id).stack →
                scene.Compiles budget k s (scene.compileWithin budget k s) ∧
                  (scene.compileWithin budget k s).2.stack = (cache.enter id).stack := by
              intro k s stack
              have compiled := ih k s
                (by rw [stack]; exact Nat.le_of_lt_succ (Nat.lt_of_lt_of_le fewer enough))
              rw [stack] at compiled
              exact compiled
            obtain ⟨runs, stack⟩ :=
              @withinRuns scene budget node _ sources (kind.compile scene.surroundings node) _ rfl
            dsimp only
            split <;> rename_i ran <;> rw [ran] at runs stack
            · exact ⟨.made found kept fresh known runs, leaveStack stack⟩
            · exact ⟨.failed found kept fresh known runs, leaveStack stack⟩

theorem compileCompiles (scene : Scene) (id : String) :
    scene.Compiles scene.net.nodes.size id .empty (scene.compile id .empty) := by
  refine (withinCompiles _ id .empty (Nat.le_trans (List.length_filter_le _ _) ?_)).1
  simp [Table.keys, Table.size]

theorem compilesCompile {depth : Nat} {id : String} {r : Except Failure Compiled × Cache}
    (compiles : scene.Compiles depth id .empty r) : r = scene.compile id .empty := by
  have left := compilesWithin compiles (Nat.le_max_left depth scene.net.nodes.size)
  have right := compilesWithin (scene.compileCompiles id) (Nat.le_max_right depth _)
  exact left.symm.trans right

end Scene

/-! Reports -/

structure Net.Loop (n : Net) (p : List String) : Prop where
  length : 2 ≤ p.length
  closed : p.head? = p.getLast?
  distinct : p.dropLast.Nodup
  feeds : p.IsChain fun a b => n.Feeds b a

theorem Net.loopBegins {path : List String} {id : String} (waits : id ∈ path) :
    ∃ rest, path.dropWhile (· ≠ id) = id :: rest := by
  induction path with
  | nil => cases waits
  | cons k later ih =>
    by_cases same : k = id
    · exact ⟨later, by simp [same]⟩
    · obtain ⟨rest, found⟩ := ih ((List.mem_cons.mp waits).resolve_left (Ne.symm same))
      exact ⟨rest, by rw [List.dropWhile_cons_of_pos (by simpa using same), found]⟩

/- What waits for a node, from the node itself on, leads back to it. -/
theorem Net.cycleLoop {n : Net} {path : List String} {id : String} (waits : id ∈ path)
    (distinct : path.Nodup) (feeds : (path ++ [id]).IsChain fun a b => n.Feeds b a) :
    n.Loop (Scene.cycle path id) := by
  have suffix : path.dropWhile (· ≠ id) <:+ path := List.dropWhile_suffix _
  obtain ⟨rest, begins⟩ := loopBegins waits
  rw [begins] at suffix
  rw [Scene.cycle, begins]
  refine ⟨by simp, by rw [List.getLast?_concat]; rfl, ?_, ?_⟩
  · rw [List.dropLast_concat]
    exact distinct.sublist suffix.sublist
  · obtain ⟨front, whole⟩ := suffix
    exact feeds.suffix ⟨front, by rw [← List.append_assoc, whole]⟩

namespace Recipe

variable {α : Type}

theorem followFails {answer : String → Except Failure (Option Expression)} {r : Recipe α}
    (plain : r.Plain) {e : Failure} (failed : r.follow answer = .error e) :
    e.isPlain = true ∨ ∃ name, answer name = .error e := by
  induction r with
  | done a => cases failed
  | fail e' =>
    cases failed
    exact .inl plain
  | ask name next ih =>
    simp only [follow] at failed
    cases answered : answer name with
    | ok given =>
      rw [answered] at failed
      exact ih given (plain given) failed
    | error e' =>
      rw [answered] at failed
      cases failed
      exact .inr ⟨name, answered⟩

end Recipe

namespace Scene

variable {scene : Scene}

theorem inputFails {produce : String → Except Failure Compiled} {node : Node} {name : String}
    {e : Failure} (failed : scene.input produce node none name = .error e) :
    e.isPlain = true ∨ ∃ c, scene.net.feeder? ⟨node.id, name⟩ = some c ∧
      produce c.source.node = .error e := by
  unfold input at failed
  rw [if_neg (by simp)] at failed
  cases fed : scene.net.feeder? ⟨node.id, name⟩ with
  | none =>
    rw [fed] at failed
    cases failed
  | some c =>
    simp only [fed] at failed
    cases produced : produce c.source.node with
    | error e' =>
      rw [produced] at failed
      cases failed
      exact .inr ⟨c, rfl, produced⟩
    | ok result =>
      rw [produced] at failed
      dsimp only at failed
      split at failed <;> cases failed
      exact .inl rfl

/- A failure that is not plain comes from a source. -/
theorem madeFailsSource (sound : scene.net.Sound) {produce : String → Except Failure Compiled}
    {id : String} {e : Failure} (failed : scene.made produce id = .error e) :
    e.isPlain = true ∨ ∃ source, scene.net.Feeds source id ∧ produce source = .error e := by
  unfold made at failed
  cases found : scene.net.node id with
  | error e' =>
    rw [found] at failed
    cases failed
    exact .inl (scene.net.nodePlain id _ found)
  | ok node =>
    simp only [found] at failed
    cases known : scene.registry.kind node.type with
    | error e' =>
      rw [known] at failed
      cases failed
      exact .inl (scene.registry.kindPlain _ _ known)
    | ok kind =>
      rw [known] at failed
      rcases Recipe.followFails (kind.compilePlain _ node) failed with plain | ⟨name, failed⟩
      · exact .inl plain
      · refine (inputFails failed).imp_right ?_
        rintro ⟨c, fed, produced⟩
        obtain ⟨member, target⟩ := (Net.feederIff sound.toIndexed).mp fed
        refine ⟨c.source.node, ⟨c, member, rfl, ?_⟩, produced⟩
        rw [target]
        exact (Net.nodePresent sound found).1

theorem evaluateLoop (sound : scene.net.Sound) {path : List String} {id : String} {p : List String}
    (failed : scene.evaluate path id = .error (.cyclic p)) (distinct : path.Nodup)
    (feeds : (path ++ [id]).IsChain fun a b => scene.net.Feeds b a) : scene.net.Loop p := by
  induction bound : scene.idle path using Nat.strongRecOn generalizing path id with
  | ind bound ih =>
    cases found : scene.net.node id with
    | error e =>
      rw [evaluateMissing found] at failed
      cases failed
      cases scene.net.nodePlain id _ found
    | ok node =>
      by_cases waits : id ∈ path
      · rw [evaluateStack found waits] at failed
        cases failed
        exact Net.cycleLoop waits distinct feeds
      · have fewer := idleFewer found waits
        rw [evaluateMade waits] at failed
        rcases madeFailsSource sound failed with plain | ⟨source, feeds', failed⟩
        · cases plain
        · refine ih _ (by omega) failed ?_ ?_ rfl
          · exact List.nodup_append.mpr ⟨distinct, List.nodup_singleton _, by
              intro a member b last
              rw [List.mem_singleton.mp last]
              exact fun same => waits (same ▸ member)⟩
          · refine feeds.append (.singleton _) ?_
            simp [feeds']

/-! What is read -/

theorem askedAnswered {f g : String → Except Failure (Option Expression)}
    (more : ∀ name e, g name = .ok e → f name = .ok e) {α : Type} {r : Recipe α} {a : α}
    (ok : r.follow g = .ok a) : ∀ name ∈ r.asked f, ∃ e, g name = .ok e := by
  induction r with
  | done result => exact List.forall_mem_nil _
  | fail e => cases ok
  | ask name next ih =>
    simp only [Recipe.follow] at ok
    cases answered : g name with
    | error e =>
      rw [answered] at ok
      cases ok
    | ok e =>
      rw [answered] at ok
      simp only [Recipe.asked, more name e answered]
      exact List.forall_mem_cons.mpr ⟨⟨e, answered⟩, ih e ok⟩

/- What a node reads is made within less than the node. -/
theorem readsShallower {depth : Nat} {id source : String} {c : Compiled}
    (ok : scene.attempt (depth + 1) id = .ok c) (reads : scene.Reads id source) :
    ∃ d, scene.attempt depth source = .ok d := by
  obtain ⟨node, kind, found, known, name, asked, link, fed, rfl⟩ := reads
  simp only [attempt, made, found, known] at ok
  have more : ∀ name e, scene.input (scene.attempt depth) node none name = .ok e →
      scene.input (scene.evaluate []) node none name = .ok e :=
    fun name e => inputMono fun _ _ made => evaluateIff.mpr ⟨depth, made⟩
  obtain ⟨e, answered⟩ := askedAnswered more ok name asked
  exact inputSource fed answered

theorem readsDescend {depth : Nat} {id source : String} {c : Compiled}
    (ok : scene.attempt depth id = .ok c) (path : TransGen scene.Reads id source) :
    ∃ less < depth, ∃ d, scene.attempt less source = .ok d := by
  have step : ∀ {depth id source c}, scene.attempt depth id = .ok c → scene.Reads id source →
      ∃ less < depth, ∃ d, scene.attempt less source = .ok d := by
    intro depth id source c ok reads
    cases depth with
    | zero => cases ok
    | succ less => exact ⟨less, Nat.lt_succ_self less, readsShallower ok reads⟩
  induction path with
  | single reads => exact step ok reads
  | tail _ reads ih =>
    obtain ⟨less, fewer, d, made⟩ := ih
    obtain ⟨least, fewer', made'⟩ := step made reads
    exact ⟨least, Nat.lt_trans fewer' fewer, made'⟩

theorem readsAcyclic {id : String} {c : Compiled} (ok : scene.evaluate [] id = .ok c) :
    ¬ TransGen scene.Reads id id := by
  intro around
  have reached := evaluateIff.mp ok
  obtain ⟨less, fewer, d, earlier⟩ := readsDescend (Nat.find_spec reached) around
  refine Nat.find_min reached fewer ?_
  rw [attemptUnique (Nat.find_spec reached) earlier]
  exact earlier

theorem readsMade {id source : String} {c : Compiled} (ok : scene.evaluate [] id = .ok c)
    (path : ReflTransGen scene.Reads id source) : ∃ d, scene.evaluate [] source = .ok d := by
  rcases Relation.reflTransGen_iff_eq_or_transGen.mp path with rfl | path
  · exact ⟨c, ok⟩
  · obtain ⟨depth, made⟩ := evaluateIff.mp ok
    obtain ⟨less, _, d, made⟩ := readsDescend made path
    exact ⟨d, evaluateIff.mpr ⟨less, made⟩⟩

theorem cyclesReported (edits : List Net.Edit) (registry : Registry) (exports : Exports) (id : String) :
    let scene : Scene := ⟨Net.empty.run edits, registry, exports⟩
    let compiled := scene.compile id .empty
    (scene.Compiles scene.net.nodes.size id .empty compiled ∧
      ∀ depth r, scene.Compiles depth id .empty r → r = compiled) ∧
    (∀ p, compiled.1 = .error (.cyclic p) → scene.net.Loop p) ∧
    ∀ c, compiled.1 = .ok c →
      ∀ k, ReflTransGen scene.Reads id k → ¬ TransGen scene.Reads k k := by
  intro scene compiled
  have sound : scene.net.Sound := Net.runSound Net.emptySound edits
  have told : compiled.1 = scene.evaluate [] id := (compileMatches (emptyWorking scene) id).1
  refine ⟨⟨scene.compileCompiles id, fun _ _ => compilesCompile⟩, fun p failed => ?_,
    fun c ok k path => ?_⟩
  · exact evaluateLoop sound (told.symm.trans failed) .nil (.singleton _)
  · obtain ⟨d, made⟩ := readsMade (told.symm.trans ok) path
    exact readsAcyclic made

def mutualEdits : List Net.Edit := [
  .insertNode (.named "f" "float"), .insertNode (.named "s" "add"), .insertNode (.named "m" "negate"),
  .insertNode (.named "n" "negate"), .insertConnection (.between ⟨"f", "out"⟩ ⟨"s", "a"⟩),
  .insertConnection (.between ⟨"m", "out"⟩ ⟨"s", "b"⟩),
  .insertConnection (.between ⟨"s", "out"⟩ ⟨"m", "a"⟩),
  .insertConnection (.between ⟨"s", "out"⟩ ⟨"n", "a"⟩)]

theorem cyclesReportedMutual :
    let scene : Scene := ⟨Net.empty.run mutualEdits, .standard, ∅⟩
    (scene.compile "n" .empty).1 = .error (.cyclic ["s", "m", "s"]) ∧
    scene.net.Loop ["s", "m", "s"] ∧ scene.Compiles 4 "n" .empty (scene.compile "n" .empty) := by
  have failed : ((⟨Net.empty.run mutualEdits, .standard, ∅⟩ : Scene).compile "n" .empty).1 =
      .error (.cyclic ["s", "m", "s"]) := by decide +kernel
  have reported := cyclesReported mutualEdits .standard ∅ "n"
  exact ⟨failed, reported.2.1 _ failed, reported.1.1⟩

end Scene
end ShaderNet
