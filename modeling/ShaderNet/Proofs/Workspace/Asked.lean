import ShaderNet.Proofs.Evaluate.CacheGrowth
import ShaderNet.Workspace.Compile

/-! Questions. They change nothing of a workspace but the types noted on its connections and what it
keeps, and whatever every compilation keeps of a cache, every question does. -/
namespace ShaderNet.Workspace

structure Asked (kept : Cache → Prop) (w v : Workspace) : Prop where
  net : w.net.Retyped v.net
  registry : v.registry = w.registry
  exports : v.exports = w.exports
  options : v.options = w.options
  kept : kept v.cache

structure Lasting (w : Workspace) (kept : Cache → Prop) : Prop where
  compiles : ∀ id cache, kept cache → kept (w.scene.compile id cache).2
  seen : ∀ cache, kept cache → kept { cache with recent := [] }

variable {kept : Cache → Prop} {w v : Workspace}

theorem askedRefl (start : kept w.cache) : Asked kept w w :=
  ⟨Net.retypedRefl _, rfl, rfl, rfl, start⟩

theorem Asked.compiles (asked : Asked kept w v) : v.scene.compile = w.scene.compile := by
  rw [scene, scene, asked.registry, asked.exports]
  exact Scene.compileRetyped asked.net _ _

theorem Asked.withCache (asked : Asked kept w v) {cache : Cache} (now : kept cache) :
    Asked kept w { v with cache := cache } :=
  ⟨asked.net, asked.registry, asked.exports, asked.options, now⟩

theorem noteTypesRetyped (w : Workspace) : w.net.Retyped w.noteTypes.net := by
  have general : ∀ (types : List (String × ValueType)) net, w.net.Retyped net →
      w.net.Retyped (types.foldl (fun net p => (net.setConnectionType p.1 p.2).1) net) := by
    intro types
    induction types with
    | nil => exact fun _ start => start
    | cons p rest ih =>
      exact fun net start => ih _ (start.trans (net.setConnectionTypeRetyped p.1 p.2))
  exact general w.deliveredTypes w.net (Net.retypedRefl _)

section Lasting

variable (lasting : w.Lasting kept)
include lasting

theorem Asked.keeps (asked : Asked kept w v) (id : String) (cache : Cache) (now : kept cache) :
    kept (v.scene.compile id cache).2 := by
  rw [asked.compiles]
  exact lasting.compiles id cache now

theorem Asked.noted (asked : Asked kept w v) : Asked kept w v.noteTypes :=
  ⟨asked.net.trans (noteTypesRetyped v), asked.registry, asked.exports, asked.options,
    lasting.seen _ asked.kept⟩

theorem Asked.compile (asked : Asked kept w v) (id : String) : Asked kept w (v.compile id).2 := by
  have now := asked.keeps lasting id v.cache asked.kept
  unfold Workspace.compile
  split <;> rename_i answered <;> rw [answered] at now
  · exact (asked.withCache now).noted lasting
  · exact asked.withCache now

theorem Asked.shader (asked : Asked kept w v) (id : String) : Asked kept w (v.shader id).2 := by
  have compiled := asked.compile lasting id
  unfold Workspace.shader
  split <;> rename_i answered <;> rw [answered] at compiled
  · exact compiled
  · split
    · exact compiled
    · split <;> exact compiled

theorem Asked.canConnect (asked : Asked kept w v) (source target : Socket) :
    Asked kept w (v.canConnect source target).2 := by
  have keeps := asked.keeps lasting
  unfold Workspace.canConnect
  split
  · exact asked
  · exact asked
  · split
    · exact asked
    · have output := Scene.outputTypeKeeps keeps source asked.kept
      split <;> rename_i answered <;> rw [answered] at output
      · exact asked.withCache output
      · have input := Scene.inputTypeKeeps keeps target output
        split <;> rename_i answered' <;> rw [answered'] at input
        · exact asked.withCache input
        · exact asked.withCache input

theorem Asked.describe (asked : Asked kept w v) (ids : List String) :
    Asked kept w (v.describe ids).2 :=
  asked.withCache (Scene.describeAllKeeps (asked.keeps lasting) ids asked.kept)

end Lasting
end ShaderNet.Workspace
