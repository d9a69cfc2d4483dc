import ShaderNet.Proofs.Evaluate.Renewal
import ShaderNet.Proofs.Workspace.Shader

/-! Types noted on connections. Whatever is compiled is remembered as recent until the next node is
compiled without a failure; then the types of all that is recent are noted, and of nothing else. -/
namespace ShaderNet

/-! What is recent -/

namespace Scene

structure Logged (old new : Cache) : Prop where
  recent : ∀ k ∈ old.recent, k ∈ new.recent
  fresh : ∀ k c, new.results.get? k = some c → old.results.get? k = some c ∨ k ∈ new.recent

theorem loggedRefl (cache : Cache) : Logged cache cache :=
  ⟨fun _ member => member, fun _ _ found => .inl found⟩

theorem Logged.trans {old mid new : Cache} (first : Logged old mid) (second : Logged mid new) :
    Logged old new := by
  refine ⟨fun k member => second.recent k (first.recent k member), fun k c found => ?_⟩
  rcases second.fresh k c found with found | recent
  · exact (first.fresh k c found).imp_right (second.recent k)
  · exact .inr recent

theorem storeLogged (cache : Cache) (id : String) (result : Compiled) :
    Logged cache (cache.store id result) := by
  refine ⟨fun k member => List.mem_append_left _ member, fun k c found => ?_⟩
  rw [Cache.store, Table.getInsert] at found
  split at found
  · rename_i same
    exact .inr (List.mem_append_right _ (List.mem_singleton.mpr same.symm))
  · exact .inl found

variable {scene : Scene}

theorem compileLogged {old : Cache} (id : String) (cache : Cache) (logged : Logged old cache) :
    Logged old (scene.compile id cache).2 := by
  refine compileWithinKeeps (Logged old) (fun _ _ logged => ⟨logged.recent, logged.fresh⟩)
    (fun _ logged => ⟨logged.recent, logged.fresh⟩) ?_ _ id cache logged
  exact fun id node kind answer start result after _ _ logged => logged.trans (storeLogged _ id result)

end Scene

/-! What is read -/

theorem Recipe.askedAnswered {α : Type} {f : String → Except Failure (Option Expression)}
    {r : Recipe α} {name : String} (member : name ∈ r.asked f) : ∃ e, f name = .ok e := by
  induction r with
  | done a => cases member
  | fail e => cases member
  | ask other next ih =>
    rw [asked] at member
    split at member
    · rename_i e answered
      rcases List.mem_cons.mp member with rfl | member
      · exact ⟨e, answered⟩
      · exact ih e member
    · cases member

namespace Scene

def feedsAsked (scene : Scene) (results : Table String Compiled) (id : String) : List Connection :=
  match scene.net.node id with
  | .error _ => []
  | .ok node =>
    match scene.registry.kind node.type with
    | .error _ => []
    | .ok kind =>
      let answer := scene.input (fromKept results) node none
      ((kind.compile scene.surroundings node).asked answer).filterMap fun name =>
        scene.net.feeder? ⟨node.id, name⟩

/-- The connections that are read for a node: those it asks for, and those that are read for their
sources. -/
inductive ReadFor (scene : Scene) (results : Table String Compiled) : String → Connection → Prop
  | own {id c} (asked : c ∈ scene.feedsAsked results id) : ReadFor scene results id c
  | above {id c d} (read : ReadFor scene results id c)
      (further : ReadFor scene results c.source.node d) : ReadFor scene results id d

variable {scene : Scene} {results : Table String Compiled}

theorem askedKept (indexed : scene.net.Indexed) {id : String} {c : Connection}
    (asked : c ∈ scene.feedsAsked results id) :
    c ∈ scene.net.connectionList ∧ ∃ made e, results.get? c.source.node = some made ∧
      made.outputs.get? c.source.name = some e := by
  unfold feedsAsked at asked
  split at asked
  · cases asked
  · split at asked
    · cases asked
    · obtain ⟨name, question, fed⟩ := List.mem_filterMap.mp asked
      obtain ⟨e, answered⟩ := Recipe.askedAnswered question
      refine ⟨((Net.feederIff indexed).mp fed).1, ?_⟩
      rw [input, if_neg (by simp), fed] at answered
      dsimp only at answered
      split at answered
      · cases answered
      · rename_i made kept
        split at answered
        · rename_i e output
          exact ⟨made, e, fromKeptIff.mp kept, output⟩
        · cases answered

theorem readKept (indexed : scene.net.Indexed) {id : String} {c : Connection}
    (read : scene.ReadFor results id c) :
    c ∈ scene.net.connectionList ∧ ∃ made e, results.get? c.source.node = some made ∧
      made.outputs.get? c.source.name = some e := by
  induction read with
  | own asked => exact askedKept indexed asked
  | above _ _ _ ih => exact ih

end Scene

/-! Noting types -/

namespace Net

theorem getTyped (n : Net) (id : String) (type : ValueType) (k : String) :
    (n.setConnectionType id type).1.connections.get? k =
      if id = k then (n.connections.get? k).map fun c => { c with type := some type }
      else n.connections.get? k := by
  unfold setConnectionType
  split
  · rename_i c found
    split
    · rename_i known
      split
      · rename_i same
        rw [← same, found, Option.map_some, ← known]
      · rfl
    · rw [Table.getInsert]
      split
      · rename_i same
        rw [← same, found]
        rfl
      · rfl
  · rename_i absent
    split
    · rename_i same
      rw [← same, absent]
      rfl
    · rfl

variable {n : Net} {types : List (String × ValueType)} {k : String}

theorem getUntold (untold : ∀ p ∈ types, p.1 ≠ k) :
    (types.foldl (fun net p => (net.setConnectionType p.1 p.2).1) n).connections.get? k =
      n.connections.get? k := by
  induction types generalizing n with
  | nil => rfl
  | cons p rest ih =>
    obtain ⟨other, others⟩ := List.forall_mem_cons.mp untold
    rw [List.foldl_cons, ih others, getTyped, if_neg other]

theorem getTold {c : Connection} {type : ValueType} (found : n.connections.get? k = some c)
    (agree : ∀ p ∈ types, p.1 = k → p.2 = type)
    (told : c.type = some type ∨ ∃ p ∈ types, p.1 = k) :
    (types.foldl (fun net p => (net.setConnectionType p.1 p.2).1) n).connections.get? k =
      some { c with type := some type } := by
  induction types generalizing n c with
  | nil =>
    rcases told with known | ⟨_, impossible, _⟩
    · rw [List.foldl_nil, found, ← known]
    · cases impossible
  | cons p rest ih =>
    obtain ⟨first, agree⟩ := List.forall_mem_cons.mp agree
    have entry := getTyped n p.1 p.2 k
    rw [List.foldl_cons]
    by_cases same : p.1 = k
    · rw [if_pos same, found, Option.map_some] at entry
      cases first same
      exact ih (c := { c with type := some p.2 }) entry agree (.inl rfl)
    · rw [if_neg same, found] at entry
      refine ih entry agree (told.imp_right ?_)
      rintro ⟨q, member, here⟩
      rcases List.mem_cons.mp member with rfl | member
      · exact absurd here same
      · exact ⟨q, member, here⟩

end Net

namespace Workspace

def Done (w : Workspace) (id : String) : Prop :=
  w.cache.results.contains id = true ∧ id ∉ w.cache.recent

def Carries (w : Workspace) (c : Connection) : Prop :=
  ∀ made e, w.cache.results.get? c.source.node = some made →
    made.outputs.get? c.source.name = some e → c.type = some e.type

variable {w : Workspace} {made : Connection → Prop}

theorem memDelivered (indexed : w.net.Indexed) {id : String} {type : ValueType} :
    (id, type) ∈ w.deliveredTypes ↔ ∃ c ∈ w.net.connectionList, c.id = id ∧
      c.source.node ∈ w.cache.recent ∧ ∃ made, w.cache.results.get? c.source.node = some made ∧
        ∃ e, made.outputs.get? c.source.name = some e ∧ e.type = type := by
  unfold deliveredTypes
  rw [List.mem_flatMap]
  constructor
  · rintro ⟨k, recent, member⟩
    cases found : w.cache.results.get? k with
    | none =>
      rw [found] at member
      cases member
    | some made =>
      rw [found] at member
      obtain ⟨c, leaves, told⟩ := List.mem_filterMap.mp member
      obtain ⟨e, output, same⟩ := Option.map_eq_some_iff.mp told
      obtain ⟨listed, rfl⟩ := (Net.memOutgoing indexed).mp leaves
      cases same
      exact ⟨c, listed, rfl, recent, made, found, e, output, rfl⟩
  · rintro ⟨c, listed, rfl, recent, made, found, e, output, rfl⟩
    refine ⟨c.source.node, recent, ?_⟩
    rw [found]
    refine List.mem_filterMap.mpr ⟨c, (Net.memOutgoing indexed).mpr ⟨listed, rfl⟩, ?_⟩
    rw [output]
    rfl

/- Connections of recent sources carry the types of these, all others stay as they are. -/
theorem notedCases (indexed : w.net.Indexed) {c : Connection}
    (member : c ∈ w.noteTypes.net.connectionList) :
    w.noteTypes.Carries c ∨ c.source.node ∉ w.cache.recent ∧ c ∈ w.net.connectionList := by
  obtain ⟨k, found⟩ := Table.memValues.mp member
  obtain ⟨connections, noted, sources⟩ := noteTypesRetyped w
  have after : connections.get? k = some c :=
    (congrArg (fun n => n.connections.get? k) noted).symm.trans found
  obtain ⟨d, before, _⟩ := Option.map_eq_some_iff.mp ((sources k).symm.trans (congrArg _ after))
  have listed : d ∈ w.net.connectionList := Table.memValues.mpr ⟨k, before⟩
  have same : ∀ {c : Connection}, c ∈ w.net.connectionList → c.id = k → c = d := fun other here =>
    Net.sameConnection indexed other listed (here.trans (indexed.connectionKeys k d before).symm)
  by_cases told : ∃ p ∈ w.deliveredTypes, p.1 = k
  · obtain ⟨⟨_, type⟩, delivered, rfl⟩ := told
    obtain ⟨d', other, here, _, made, kept, e, output, rfl⟩ := (memDelivered indexed).mp delivered
    cases same other here
    have agree : ∀ p ∈ w.deliveredTypes, p.1 = d.id → p.2 = e.type := by
      rintro ⟨_, type⟩ also rfl
      obtain ⟨d', other, here', _, made', kept', e', output', rfl⟩ := (memDelivered indexed).mp also
      cases same other (here'.trans here)
      cases kept.symm.trans kept'
      cases output.symm.trans output'
      rfl
    cases found.symm.trans (Net.getTold before (here ▸ agree) (.inr ⟨_, delivered, rfl⟩))
    refine .inl fun made' e' kept' output' => ?_
    cases kept.symm.trans kept'
    cases output.symm.trans output'
    rfl
  · have untold : ∀ p ∈ w.deliveredTypes, p.1 ≠ k := fun p member here => told ⟨p, member, here⟩
    cases found.symm.trans ((Net.getUntold untold).trans before)
    by_cases recent : c.source.node ∈ w.cache.recent
    · refine .inl fun made e kept output => absurd rfl (untold (k, e.type) ?_)
      exact (memDelivered indexed).mpr
        ⟨c, listed, indexed.connectionKeys k c before, recent, made, kept, e, output, rfl⟩
    · exact .inr ⟨recent, listed⟩

/-! One step -/

theorem carriesSame {v : Workspace} {c : Connection}
    (same : ∀ made, v.cache.results.get? c.source.node = some made →
      w.cache.results.get? c.source.node = some made) (carries : w.Carries c) : v.Carries c :=
  fun made e kept output => carries made e (same made kept) output

/-- Every connection of a source that is done with carries its type, or was there with a source that was
done with and is as it was, or is made anew. -/
def Follows (made : Connection → Prop) (w after : Workspace) : Prop :=
  ∀ c ∈ after.net.connectionList, after.Done c.source.node →
    after.Carries c ∨ w.Done c.source.node ∧
      (c ∈ w.net.connectionList ∧ (w.Carries c → after.Carries c) ∨
        c ∉ w.net.connectionList ∧ made c)

theorem followsSame {after : Workspace} (net : after.net = w.net) (cache : after.cache = w.cache) :
    Follows made w after := by
  intro c member done
  rw [Done, cache] at done
  refine .inr ⟨done, .inl ⟨net ▸ member, carriesSame fun _ => ?_⟩⟩
  rw [cache]
  exact id

theorem followsKept {cache : Cache} (logged : Scene.Logged w.cache cache) {after : Workspace}
    (results : after.cache.results = cache.results) {c : Connection}
    (member : c ∈ w.net.connectionList) (seen : c.source.node ∉ cache.recent)
    (done : after.Done c.source.node) :
    w.Done c.source.node ∧ c ∈ w.net.connectionList ∧ (w.Carries c → after.Carries c) := by
  have kept : ∀ made, after.cache.results.get? c.source.node = some made →
      w.cache.results.get? c.source.node = some made := by
    intro made found
    rw [results] at found
    exact (logged.fresh _ made found).resolve_right seen
  obtain ⟨made, found⟩ := Table.containsIff.mp done.1
  refine ⟨⟨Table.containsIff.mpr ⟨made, kept made found⟩, fun recent => ?_⟩, member, carriesSame kept⟩
  exact seen (logged.recent _ recent)

theorem followsLogged {cache : Cache} (logged : Scene.Logged w.cache cache) :
    Follows made w { w with cache := cache } := by
  intro c member done
  obtain ⟨before, listed, carries⟩ := followsKept logged rfl member done.2 done
  exact .inr ⟨before, .inl ⟨listed, carries⟩⟩

theorem followsNoted (indexed : w.net.Indexed) {cache : Cache}
    (logged : Scene.Logged w.cache cache) :
    Follows made w { w with cache := cache }.noteTypes := by
  intro c member done
  rcases notedCases (w := { w with cache := cache }) indexed member with carries | ⟨seen, listed⟩
  · exact .inl carries
  · obtain ⟨before, listed, carries⟩ := followsKept logged rfl listed seen done
    exact .inr ⟨before, .inl ⟨listed, carries⟩⟩

theorem compileFollows (indexed : w.net.Indexed) (id : String) :
    Follows made w (w.compile id).2 := by
  have logged : Scene.Logged w.cache (w.scene.compile id w.cache).2 :=
    Scene.compileLogged id w.cache (Scene.loggedRefl w.cache)
  unfold compile
  split <;> rename_i answered <;> rw [answered] at logged
  · exact followsNoted indexed logged
  · exact followsLogged logged

theorem shaderAfter (w : Workspace) (id : String) : (w.shader id).2 = (w.compile id).2 := by
  unfold shader
  split <;> rename_i answered <;> rw [answered]
  split
  · rfl
  · split <;> rfl

theorem canConnectFollows (source target : Socket) : Follows made w (w.canConnect source target).2 := by
  have keeps : ∀ id cache, Scene.Logged w.cache cache →
      Scene.Logged w.cache (w.scene.compile id cache).2 := fun id cache => Scene.compileLogged id cache
  have same : Follows made w w := followsLogged (Scene.loggedRefl w.cache)
  unfold canConnect
  split
  · exact same
  · exact same
  · split
    · exact same
    · have output := Scene.outputTypeKeeps keeps source (Scene.loggedRefl w.cache)
      split <;> rename_i answered <;> rw [answered] at output
      · exact followsLogged output
      · have input := Scene.inputTypeKeeps keeps target output
        split <;> rename_i answered' <;> rw [answered'] at input
        · exact followsLogged input
        · exact followsLogged input

theorem describeFollows (ids : List String) : Follows made w (w.describe ids).2 :=
  followsLogged (Scene.describeAllKeeps (fun id cache => Scene.compileLogged id cache) ids
    (Scene.loggedRefl w.cache))

end Workspace
end ShaderNet
