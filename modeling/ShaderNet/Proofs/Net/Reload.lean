import ShaderNet.Proofs.Net.Plan
import ShaderNet.Proofs.Sameness

/-! What is left to do for a document that was just loaded. Nodes and includes never ask for more.
Uniforms are taken out by their keys and put in by their identifiers, and connections are known by
their names alone, so that either can be left behind. -/
namespace ShaderNet

namespace Table

variable {κ α : Type} [LT κ] [DecidableEq κ] [StrictTotal κ] [DecidableLT κ]
  {same : α → α → Bool} {key : α → κ}

theorem refreshKeys {t : Table κ α} {l : List α} {k : κ}
    (present : (l.foldl (refresh same key) t).contains k = true) :
    t.contains k = true ∨ ∃ v ∈ l, key v = k := by
  induction l generalizing t with
  | nil => exact .inl present
  | cons v rest ih =>
    rcases ih present with held | ⟨u, member, e⟩
    · rw [contains, getRefresh] at held
      split at held
      · rename_i first
        exact .inr ⟨v, List.mem_cons_self, first.1⟩
      · exact .inl held
    · exact .inr ⟨u, List.mem_cons_of_mem _ member, e⟩

variable (same key)

/- Once a value of the key has been put in, all that follow are the same. -/
theorem refreshLike (trans : ∀ a b c : α, same a b = true → same b c = true → same a c = true)
    {t : Table κ α} {l : List α} {v : α} (like : ∀ u ∈ l, key u = key v → same u v = true)
    (there : (t.get? (key v)).any (fun old => same old v) = true ∨ ∃ u ∈ l, key u = key v) :
    ((l.foldl (refresh same key) t).get? (key v)).any (fun old => same old v) = true := by
  induction l generalizing t with
  | nil =>
    rcases there with held | ⟨_, impossible, _⟩
    · exact held
    · exact absurd impossible List.not_mem_nil
  | cons u rest ih =>
    refine ih (fun u' member => like u' (List.mem_cons_of_mem _ member)) ?_
    rw [getRefresh]
    by_cases first : key u = key v
    · refine .inl ?_
      have alike := like u List.mem_cons_self first
      split
      · exact alike
      · rename_i other
        cases held : (t.get? (key v)).any (fun old => same old u) with
        | false => exact absurd ⟨first, held⟩ other
        | true =>
          obtain ⟨old, found, same⟩ := (Option.any_eq_true _ _).mp held
          exact (Option.any_eq_true _ _).mpr ⟨old, found, trans old u v same alike⟩
    · rw [if_neg fun both => first both.1]
      rcases there with held | ⟨u', member, e⟩
      · exact .inl held
      · exact .inr ⟨u', (List.mem_cons.mp member).resolve_left fun e' => first (e' ▸ e), e⟩

end Table

structure Document.UniformsAgree (d : Document) : Prop where
  keyed : ∀ u ∈ d.uniforms.values, d.uniforms.contains u.id = true
  single : ∀ u ∈ d.uniforms.values, ∀ v ∈ d.uniforms.values, u.id = v.id → u.same v = true

/-- A connection with the name of one of the document goes between nodes of the document, and to no
input for which the document has a connection that is still to come. -/
def Net.Admits (n : Net) (d : Document) : Prop :=
  ∀ e ∈ n.connectionList, e.id ∈ d.connections.map Connection.id →
    (e.source.node ∈ d.nodes.map Node.id ∧ e.target.node ∈ d.nodes.map Node.id) ∧
      ∀ c ∈ d.connections, c.target = e.target → n.connections.contains c.id = true

namespace Plan
open Net

variable {n m after : Net} {d : Document}

theorem uniformsSettled (cleared : Cleared n d m) (filled : Filled n d m after) :
    ((after.reconcile d).removedUniforms = [] ∧ (after.reconcile d).updatedUniforms = []) ↔
      d.UniformsAgree := by
  rw [removedUniformsNil, updatedUniformsNil]
  constructor
  · rintro ⟨within, held⟩
    refine ⟨fun u member => within _ ?_, fun u left v right e => ?_⟩
    · obtain ⟨old, found, _⟩ := (Option.any_eq_true _ _).mp (held u member)
      exact Table.containsIff.mpr ⟨old, found⟩
    · obtain ⟨old, found, same⟩ := (Option.any_eq_true _ _).mp (held u left)
      obtain ⟨old', found', same'⟩ := (Option.any_eq_true _ _).mp (held v right)
      rw [← e, found] at found'
      cases found'
      exact Uniform.sameTrans (Uniform.sameSymm same) same'
  · intro agree
    have chosen : ∀ {u}, u ∈ (n.reconcile d).updatedUniforms ↔ u ∈ d.uniforms.values ∧
        (n.uniforms.get? u.id).any (fun v => v.same u) = false := by
      intro u
      rw [reconcile, List.mem_filter, Bool.not_eq_true', uniform?]
    rw [filled.uniforms]
    refine ⟨fun k present => ?_, fun u member => ?_⟩
    · rcases Table.refreshKeys present with left | ⟨u, new, rfl⟩
      · rw [Table.contains, cleared.uniforms] at left
        split at left
        · assumption
        · cases left
      · exact agree.keyed u (chosen.mp new).1
    · refine Table.refreshLike Uniform.same Uniform.id (fun _ _ _ => Uniform.sameTrans)
        (fun v new e => ?_) ?_
      · exact agree.single v (chosen.mp new).1 u member e
      · rw [cleared.uniforms, if_pos (agree.keyed u member)]
        cases held : (n.uniforms.get? u.id).any (fun v => v.same u) with
        | true => exact .inl rfl
        | false => exact .inr ⟨u, chosen.mpr ⟨member, held⟩, rfl⟩

theorem connectionsSettled (sound : Sound n) (sound' : Sound after) (own : Apart d.connections)
    (cleared : Cleared n d m) (filled : Filled n d m after) :
    (after.reconcile d).addedConnections = [] ↔ n.Admits d := by
  have named : (after.reconcile d).addedConnections = [] ↔
      ∀ c ∈ d.connections, ∃ e ∈ after.connectionList, e.id = c.id := by
    rw [List.eq_nil_iff_forall_not_mem]
    constructor
    · intro none c incoming
      cases found : after.connections.get? c.id with
      | none => exact absurd (memIncoming.mpr ⟨c, incoming, found, rfl⟩) (none _)
      | some e => exact ⟨e, Table.memValues.mpr ⟨_, found⟩, sound'.connectionKeys _ e found⟩
    · intro there c new
      obtain ⟨c', incoming, absent, _⟩ := memIncoming.mp new
      obtain ⟨e, member, same⟩ := there c' incoming
      rw [← same, (memConnections sound'.toIndexed).mp member] at absent
      cases absent
  have known : ∀ {e}, e ∈ n.connectionList → n.connections.get? e.id = some e :=
    fun member => (memConnections sound.toIndexed).mp member
  rw [named]
  constructor
  · intro there e kept listed
    have stays : e ∈ m.connectionList := by
      obtain ⟨c, incoming, same⟩ := List.mem_map.mp listed
      obtain ⟨x, member, same'⟩ := there c incoming
      rcases (filled.connections x).mp member with left | ⟨new, _⟩
      · have found := known ((cleared.connections x).mp left).1.1
        rw [same'.trans same, known kept] at found
        cases found
        exact left
      · obtain ⟨c', _, absent, rfl⟩ := memIncoming.mp new
        have name : c'.id = e.id := same'.trans same
        rw [name, known kept] at absent
        cases absent
    refine ⟨((cleared.connections e).mp stays).2, fun c incoming ends => ?_⟩
    obtain ⟨x, member, same⟩ := there c incoming
    rcases (filled.connections x).mp member with left | ⟨new, free⟩
    · rw [← same]
      exact Table.containsIff.mpr ⟨x, known ((cleared.connections x).mp left).1.1⟩
    · obtain ⟨c', incoming', _, rfl⟩ := memIncoming.mp new
      have target : c'.target = c.target := (own c' incoming' c incoming same).2
      exact absurd (ends.symm.trans target.symm) (free e stays)
  · intro admits c incoming
    cases found : n.connections.get? c.id with
    | some e =>
      have kept : e ∈ n.connectionList := Table.memValues.mpr ⟨_, found⟩
      have same := sound.connectionKeys _ e found
      have listed : e.id ∈ d.connections.map Connection.id :=
        List.mem_map.mpr ⟨c, incoming, same.symm⟩
      have stays := (cleared.connections e).mpr ⟨⟨kept, listed⟩, (admits e kept listed).1⟩
      exact ⟨e, (filled.connections e).mpr (.inl stays), same⟩
    | none =>
      have new : { c with type := none } ∈ (n.reconcile d).addedConnections :=
        memIncoming.mpr ⟨c, incoming, found, rfl⟩
      refine ⟨_, (filled.connections _).mpr (.inr ⟨new, fun e stays ends => ?_⟩), rfl⟩
      obtain ⟨⟨kept, listed⟩, _⟩ := (cleared.connections e).mp stays
      have taken := (admits e kept listed).2 c incoming ends.symm
      rw [Table.contains, found] at taken
      cases taken

theorem nodesSettled (orderly : d.Orderly) (sound' : Sound after) (cleared : Cleared n d m)
    (filled : Filled n d m after) : (after.reconcile d).removedNodes = [] ∧
      (after.reconcile d).addedNodes = [] ∧ (after.reconcile d).modifiedNodes = [] := by
  have held := filledNodes orderly cleared filled
  have listed : ∀ node ∈ d.nodes, (d.nodes.find? fun other => other.id = node.id) = some node := by
    intro node member
    cases found : d.nodes.find? fun other => other.id = node.id with
    | none => exact absurd (List.find?_eq_none.mp found node member) (by simp)
    | some other =>
      have e : other.id = node.id := by simpa using List.find?_some found
      rw [List.inj_on_of_nodup_map orderly.nodeIds (List.mem_of_find?_eq_some found) member e]
  refine ⟨List.eq_nil_iff_forall_not_mem.mpr fun k gone => ?_,
    List.eq_nil_iff_forall_not_mem.mpr fun node new => ?_,
    List.eq_nil_iff_forall_not_mem.mpr fun node changed => ?_⟩
  · obtain ⟨present, unlisted⟩ := (memRemovedNodes sound').mp gone
    obtain ⟨node, found⟩ := Table.containsIff.mp present
    have pair := held k
    cases incoming : d.nodes.find? fun node => node.id = k with
    | none =>
      rw [found, incoming] at pair
      cases pair
    | some other =>
      refine unlisted (List.mem_map.mpr ⟨other, List.mem_of_find?_eq_some incoming, ?_⟩)
      simpa using List.find?_some incoming
  · obtain ⟨member, absent⟩ := memAdded.mp new
    have pair := held node.id
    rw [absent, listed node member] at pair
    cases pair
  · obtain ⟨member, old, found, other⟩ := memModified.mp changed
    have pair := held node.id
    rw [found, listed node member] at pair
    cases pair with
    | some same => exact absurd (same.symm.trans other) (by simp)

theorem includesSettled (cleared : Cleared n d m) (filled : Filled n d m after) :
    (after.reconcile d).removedIncludes = [] ∧ (after.reconcile d).addedIncludes = [] := by
  have paths := cleared.includes
  rw [← filled.includes] at paths
  constructor
  · rw [reconcile, List.filter_eq_nil_iff]
    intro path member
    simpa using (paths path).mp member
  · rw [reconcile, List.filter_eq_nil_iff]
    intro path member
    simp [includesIff.mpr ((paths path).mpr member)]

theorem removedSettled (cleared : Cleared n d m) (filled : Filled n d m after) :
    (after.reconcile d).removedConnections = [] := by
  have inside : ∀ c ∈ after.connectionList, c.id ∈ d.connections.map Connection.id := by
    intro c member
    rcases (filled.connections c).mp member with stays | ⟨new, _⟩
    · exact ((cleared.connections c).mp stays).1.2
    · obtain ⟨c', incoming, _, rfl⟩ := memIncoming.mp new
      exact List.mem_map.mpr ⟨c', incoming, rfl⟩
  refine List.eq_nil_iff_forall_not_mem.mpr fun id gone => ?_
  obtain ⟨c, member, rfl⟩ := List.mem_map.mp (List.mem_filter.mp gone).1
  exact (memRemovedConnections member).mp gone (inside c member)

/- The plan of a net that has just been brought to the document. -/
theorem settledIff (sound : Sound n) (sound' : Sound after) (orderly : d.Orderly)
    (own : Apart d.connections) (cleared : Cleared n d m) (filled : Filled n d m after) :
    (after.reconcile d).isEmpty = true ↔ d.UniformsAgree ∧ n.Admits d := by
  obtain ⟨noneGone, noneNew, nonePatched⟩ := nodesSettled orderly sound' cleared filled
  obtain ⟨noneLess, noneMore⟩ := includesSettled cleared filled
  have noneCut := removedSettled cleared filled
  rw [← uniformsSettled cleared filled, ← connectionsSettled sound sound' own cleared filled]
  simp only [isEmpty, noneGone, noneNew, nonePatched, noneLess, noneMore, noneCut,
    List.isEmpty_nil, List.isEmpty_iff, Bool.and_true, Bool.true_and, Bool.and_eq_true]

/- Connections that can be told apart by their names are never in the way. -/
theorem admitsApart (sound : Sound n) (orderly : d.Orderly)
    (apart : Apart (n.connectionList ++ d.connections)) : n.Admits d := by
  intro e kept listed
  obtain ⟨c', incoming', source, target⟩ := keptLink apart kept listed
  refine ⟨by rw [source, target]; exact orderly.ends c' incoming', fun c incoming ends => ?_⟩
  rw [List.inj_on_of_nodup_map orderly.fanIn incoming incoming' (ends.trans target),
    ← idOfEnds source target]
  exact Table.containsIff.mpr ⟨e, (memConnections sound.toIndexed).mp kept⟩

end Plan
end ShaderNet
