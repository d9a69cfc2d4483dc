import ShaderNet.Describe
import ShaderNet.Proofs.Evaluate.Cached

/-! Whatever is asked of a scene is answered by compiling, so that what every compilation keeps of a
cache is kept by every question. All that a scene remembers is right, then, whatever it is asked. -/
namespace ShaderNet.Scene

section Questions

variable {scene : Scene} {kept : Cache → Prop} {cache : Cache}

theorem answerKeeps {compile : String → Cache → Except Failure Compiled × Cache}
    (keeps : ∀ id s, kept s → kept (compile id s).2) (node : Node) (detached : Option String)
    (name : String) (start : kept cache) :
    kept (scene.answer compile node detached name cache).2 := by
  unfold answer
  split
  · exact start
  · split
    · exact start
    · rename_i c _
      have now := keeps c.source.node cache start
      split <;> rename_i answered <;> rw [answered] at now
      · exact now
      · split <;> exact now

variable (keeps : ∀ id s, kept s → kept (scene.compile id s).2)
include keeps

theorem socketsKeeps (kind : NodeKind) (node : Node) (detached : Option String)
    (start : kept cache) : kept (scene.sockets kind node detached cache).2 :=
  Recipe.runKeeps (fun name _ => answerKeeps keeps node detached name)
    (kind.sockets scene.surroundings node) start

theorem inputTypeKeeps (s : Socket) (start : kept cache) : kept (scene.inputType s cache).2 := by
  unfold inputType
  split
  · exact start
  · split
    · exact start
    · rename_i node _ _ kind _
      have asked := socketsKeeps keeps kind node (some s.name) start
      split <;> rename_i answered <;> rw [answered] at asked <;> exact asked

theorem outputTypeKeeps (s : Socket) (start : kept cache) : kept (scene.outputType s cache).2 := by
  unfold outputType
  split
  · exact start
  · rename_i node _
    have compiled := keeps s.node cache start
    split <;> rename_i answered <;> rw [answered] at compiled
    · exact compiled
    · split
      · exact compiled
      · rename_i kind _
        have asked := socketsKeeps keeps kind node none compiled
        split <;> rename_i answered' <;> rw [answered'] at asked <;> exact asked

theorem describeKeeps (id : String) (start : kept cache) : kept (scene.describe id cache).2 := by
  unfold describe
  split
  · exact start
  · rename_i node _
    split
    · exact start
    · rename_i kind _
      have asked := socketsKeeps keeps kind node none start
      dsimp only
      split <;> rename_i answered <;> rw [answered] at asked
      · exact asked
      · have compiled := keeps id _ asked
        split <;> rename_i answered' <;> rw [answered'] at compiled <;> exact compiled

theorem describeAllKeeps (ids : List String) (start : kept cache) :
    kept (scene.describeAll ids cache).2 := by
  induction ids generalizing cache with
  | nil => exact start
  | cons id rest ih =>
    have first := describeKeeps keeps id start
    unfold describeAll
    split <;> rename_i answered <;> rw [answered] at first
    · exact first
    · have others := ih first
      split <;> rename_i answered' <;> rw [answered'] at others <;> exact others

end Questions

variable {scene : Scene} {cache : Cache}

theorem compileWorking (id : String) (cache : Cache) (working : scene.Working [] cache) :
    scene.Working [] (scene.compile id cache).2 := (compileMatches working id).2

theorem inputTypeWorking (working : scene.Working [] cache) (s : Socket) :
    scene.Working [] (scene.inputType s cache).2 := inputTypeKeeps compileWorking s working

theorem outputTypeWorking (working : scene.Working [] cache) (s : Socket) :
    scene.Working [] (scene.outputType s cache).2 := outputTypeKeeps compileWorking s working

theorem describeAllWorking (working : scene.Working [] cache) (ids : List String) :
    scene.Working [] (scene.describeAll ids cache).2 := describeAllKeeps compileWorking ids working

end ShaderNet.Scene
