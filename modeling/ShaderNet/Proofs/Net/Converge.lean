import Mathlib.Data.List.Perm.Subperm
import ShaderNet.Net.Plan
import ShaderNet.Proofs.Net.Unambiguous

/-! Where many edits of one kind lead. A table is brought to a list of values by taking out every key
that the list has not, and putting in every value that is not there yet. -/
namespace ShaderNet

namespace Table

variable {κ α : Type} [LT κ] [DecidableEq κ] [StrictTotal κ]

theorem getEraseAll (t : Table κ α) (ks : List κ) (k : κ) :
    (ks.foldl Table.erase t).get? k = if k ∈ ks then none else t.get? k := by
  induction ks generalizing t with
  | nil => simp
  | cons k' rest ih =>
    rw [List.foldl_cons, ih, getErase]
    by_cases first : k' = k
    · simp [first]
    · simp [first, Ne.symm first]

variable [DecidableLT κ] (same : α → α → Bool) (key : α → κ)

def refresh (t : Table κ α) (v : α) : Table κ α :=
  if (t.get? (key v)).any (fun old => same old v) then t else t.insert (key v) v

variable {same key}

theorem getRefresh (t : Table κ α) (v : α) (k : κ) :
    (t.refresh same key v).get? k =
      if key v = k ∧ (t.get? k).any (fun old => same old v) = false then some v else t.get? k := by
  unfold refresh
  split
  · rename_i there
    split
    · rename_i other
      rw [other.1, other.2] at there
      cases there
    · rfl
  · rename_i other
    rw [getInsert]
    by_cases first : key v = k
    · subst first
      simp [Bool.not_eq_true _ ▸ other]
    · simp [first]

theorem getRefreshAbsent {t : Table κ α} {l : List α} {k : κ} (absent : ∀ v ∈ l, key v ≠ k) :
    (l.foldl (refresh same key) t).get? k = t.get? k := by
  induction l generalizing t with
  | nil => rfl
  | cons v rest ih =>
    rw [List.foldl_cons, ih fun v member => absent v (List.mem_cons_of_mem _ member), getRefresh,
      if_neg fun first => absent v List.mem_cons_self first.1]

theorem getRefreshPresent {t : Table κ α} {l : List α} (nodup : (l.map key).Nodup) {v : α}
    (member : v ∈ l) :
    (l.foldl (refresh same key) t).get? (key v) =
      if (t.get? (key v)).any (fun old => same old v) then t.get? (key v) else some v := by
  induction l generalizing t with
  | nil => cases member
  | cons u rest ih =>
    obtain ⟨fresh, later⟩ := List.nodup_cons.mp nodup
    rw [List.foldl_cons]
    rcases List.mem_cons.mp member with first | member
    · subst first
      rw [getRefreshAbsent fun u member e => fresh (List.mem_map.mpr ⟨u, member, e⟩), getRefresh]
      cases (t.get? (key v)).any (fun old => same old v) <;> simp
    · have different : key u ≠ key v := fun e => fresh (e ▸ List.mem_map.mpr ⟨v, member, rfl⟩)
      have kept : (t.refresh same key u).get? (key v) = t.get? (key v) :=
        (getRefresh ..).trans (if_neg fun first => different first.1)
      rw [ih later member, kept]

/- `l` is what the table shall hold, `news` what of it is not there yet. -/
theorem refreshAgrees {t : Table κ α} {l news : List α} (keys : (l.map key).Nodup)
    (nodup : news.Nodup) (within : ∀ k, t.contains k = true → k ∈ l.map key)
    (chosen : ∀ v, v ∈ news ↔ v ∈ l ∧ (t.get? (key v)).any (fun old => same old v) = false)
    (refl : ∀ v ∈ l, same v v = true) (k : κ) :
    Option.Rel (fun old v => same old v = true) ((news.foldl (refresh same key) t).get? k)
      (l.find? fun v => key v = k) := by
  have single : ∀ u ∈ l, ∀ v ∈ l, key u = key v → u = v := List.inj_on_of_nodup_map keys
  have newKeys : (news.map key).Nodup := nodup.map_on fun u left v right =>
    single u ((chosen u).mp left).1 v ((chosen v).mp right).1
  cases found : l.find? fun v => key v = k with
  | none =>
    have absent : ∀ v ∈ l, key v ≠ k := by simpa using found
    rw [getRefreshAbsent fun v member => absent v ((chosen v).mp member).1]
    cases there : t.get? k with
    | none => exact .none
    | some v =>
      obtain ⟨u, member, e⟩ := List.mem_map.mp (within k (containsIff.mpr ⟨v, there⟩))
      exact absurd e (absent u member)
  | some v =>
    have member := List.mem_of_find?_eq_some found
    have e : key v = k := by simpa using List.find?_some found
    subst e
    cases there : (t.get? (key v)).any (fun old => same old v) with
    | false =>
      rw [getRefreshPresent newKeys ((chosen v).mpr ⟨member, there⟩), there]
      exact .some (refl v member)
    | true =>
      have absent : ∀ u ∈ news, key u ≠ key v := by
        intro u new e
        obtain ⟨listed, other⟩ := (chosen u).mp new
        rw [single u listed v member e, there] at other
        cases other
      obtain ⟨old, held, like⟩ := (Option.any_eq_true _ _).mp there
      rw [getRefreshAbsent absent, held]
      exact .some like

end Table

namespace Net

/-! Uniforms and includes -/

theorem removeUniformsNet (n : Net) (ids : List String) :
    ids.foldl (fun n id => (n.removeUniform id).1) n =
      { n with uniforms := ids.foldl Table.erase n.uniforms } := by
  induction ids generalizing n with
  | nil => rfl
  | cons id rest ih => rw [List.foldl_cons, ih, removeUniformNet, List.foldl_cons]

theorem setUniformsNet (n : Net) (us : List Uniform) :
    us.foldl (fun n u => (n.setUniform u).1) n =
      { n with uniforms := us.foldl (Table.refresh Uniform.same Uniform.id) n.uniforms } := by
  have one : ∀ (n : Net) u, (n.setUniform u).1 =
      { n with uniforms := n.uniforms.refresh Uniform.same Uniform.id u } := by
    intro n u
    unfold setUniform Table.refresh uniform?
    split <;> rfl
  induction us generalizing n with
  | nil => rfl
  | cons u rest ih => rw [List.foldl_cons, ih, one, List.foldl_cons]

theorem removeIncludesNet (n : Net) (paths : List String) :
    paths.foldl (fun n path => (n.removeInclude path).1) n =
      { n with includes := n.includes.filter fun i => i.path ∉ paths } := by
  induction paths generalizing n with
  | nil => simp
  | cons path rest ih =>
    rw [List.foldl_cons, ih, removeIncludeNet, List.filter_filter]
    have both : (fun i : Include => decide (i.path ∉ rest) && decide (i.path ≠ path)) =
        fun i => decide (i.path ∉ path :: rest) := by
      funext i
      simp [Bool.and_comm]
    rw [both]

theorem memIncluded {path other : String} {source : Option String} {includes : List Include} :
    other ∈ (included path source includes).map Include.path ↔
      other ∈ includes.map Include.path ∨ other = path := by
  unfold included
  split
  · rename_i present
    rw [replaceSourcePaths]
    refine (or_iff_left_of_imp fun e => ?_).symm
    rw [e]
    simpa using present
  · simp

theorem addIncludesNet (sources : String → Option String) (n : Net) (paths : List String) :
    paths.foldl (fun n path => (n.addInclude path (sources path)).1) n =
      { n with includes :=
        paths.foldl (fun includes path => included path (sources path) includes) n.includes } := by
  induction paths generalizing n with
  | nil => rfl
  | cons path rest ih => rw [List.foldl_cons, ih, addIncludeNet, List.foldl_cons]

theorem memIncludedAll (sources : String → Option String) {paths : List String}
    {includes : List Include} {other : String} :
    other ∈ (paths.foldl (fun includes path => included path (sources path) includes)
      includes).map Include.path ↔ other ∈ includes.map Include.path ∨ other ∈ paths := by
  induction paths generalizing includes with
  | nil => simp
  | cons path rest ih => rw [List.foldl_cons, ih, memIncluded, List.mem_cons, or_assoc]

/-! Nodes -/

theorem withoutNet (n : Net) (id : String) :
    (n.without id).nodes = n.nodes.erase id ∧
      (n.without id).order = n.order.filter (fun other => other ≠ id) ∧
      (n.without id).uniforms = n.uniforms ∧ (n.without id).includes = n.includes := by
  have frame := removeConnectionsOnlyLinks n ((n.incoming id ++ n.outgoing id).map Connection.id)
  refine ⟨?_, ?_, frame.uniforms, frame.includes⟩
  · rw [without, frame.nodes]
  · rw [without, frame.order]

structure Without (n : Net) (ids : List String) (after : Net) : Prop where
  sound : Sound after
  nodes : ∀ k, after.nodes.get? k = if k ∈ ids then none else n.nodes.get? k
  order : after.order = n.order.filter fun k => k ∉ ids
  connections : ∀ c, c ∈ after.connectionList ↔
    c ∈ n.connectionList ∧ c.source.node ∉ ids ∧ c.target.node ∉ ids
  uniforms : after.uniforms = n.uniforms
  includes : after.includes = n.includes

theorem withoutAll {n : Net} (sound : Sound n) (ids : List String) :
    Without n ids (ids.foldl without n) := by
  induction ids generalizing n with
  | nil => exact ⟨sound, by simp, by simp, by simp, rfl, rfl⟩
  | cons id rest ih =>
    obtain ⟨nodes, order, uniforms, includes⟩ := withoutNet n id
    have later := ih (withoutSound sound id)
    refine ⟨later.sound, fun k => ?_, ?_, fun c => ?_, later.uniforms.trans uniforms,
      later.includes.trans includes⟩
    · rw [List.foldl_cons, later.nodes, nodes, Table.getErase]
      by_cases first : id = k
      · simp [first]
      · simp [first, Ne.symm first]
    · rw [List.foldl_cons, later.order, order, List.filter_filter]
      refine List.filter_congr fun k _ => ?_
      simp [Bool.and_comm]
    · rw [List.foldl_cons, later.connections, memWithout sound]
      simp only [List.mem_cons, not_or]
      constructor
      · rintro ⟨⟨member, source, target⟩, fromOther, toOther⟩
        exact ⟨member, ⟨source, fromOther⟩, target, toOther⟩
      · rintro ⟨member, ⟨source, fromOther⟩, target, toOther⟩
        exact ⟨⟨member, source, target⟩, fromOther, toOther⟩

theorem insertedNet {n : Net} {nodes : List Node} (nodup : (nodes.map Node.id).Nodup)
    (fresh : ∀ node ∈ nodes, n.nodes.get? node.id = none) :
    nodes.foldl inserted n =
      { n with
        nodes := nodes.foldl (Table.refresh Node.same Node.id) n.nodes
        order := n.order ++ nodes.map Node.id } := by
  induction nodes generalizing n with
  | nil => simp
  | cons node rest ih =>
    obtain ⟨different, later⟩ := List.nodup_cons.mp nodup
    have absent := fresh node List.mem_cons_self
    have one : n.inserted node = { n with
        nodes := n.nodes.refresh Node.same Node.id node, order := n.order ++ [node.id] } := by
      rw [inserted, Table.refresh, absent]
      rfl
    rw [List.foldl_cons, ih later fun other member => ?_, one]
    · simp
    · refine (Table.getInsert ..).trans ((if_neg fun e => ?_).trans
        (fresh other (List.mem_cons_of_mem _ member)))
      exact different (e ▸ List.mem_map.mpr ⟨other, member, rfl⟩)

theorem insertedSound {n : Net} (sound : Sound n) {nodes : List Node}
    (nodup : (nodes.map Node.id).Nodup) (fresh : ∀ node ∈ nodes, n.nodes.get? node.id = none) :
    Sound (nodes.foldl inserted n) := by
  induction nodes generalizing n with
  | nil => exact sound
  | cons node rest ih =>
    obtain ⟨different, later⟩ := List.nodup_cons.mp nodup
    have absent : n.contains node.id = false :=
      Table.containsFalse.mpr (fresh node List.mem_cons_self)
    refine ih (insertNodeSound sound (insertNodeIff.mpr ⟨absent, rfl⟩)) later fun other member => ?_
    refine (Table.getInsert ..).trans ((if_neg fun e => ?_).trans
      (fresh other (List.mem_cons_of_mem _ member)))
    exact different (e ▸ List.mem_map.mpr ⟨other, member, rfl⟩)

def patched (n : Net) (node : Node) : Net :=
  { n with nodes := n.nodes.refresh Node.same Node.id node }

theorem patchedNet (n : Net) (nodes : List Node) :
    nodes.foldl patched n =
      { n with nodes := nodes.foldl (Table.refresh Node.same Node.id) n.nodes } := by
  induction nodes generalizing n with
  | nil => rfl
  | cons node rest ih => rw [List.foldl_cons, ih, patched, List.foldl_cons]

/-! Connections -/

structure Offers (n : Net) (cs : List Connection) : Prop where
  ends : ∀ c ∈ cs, n.contains c.source.node = true ∧ n.contains c.target.node = true
  absent : ∀ c ∈ cs, n.connections.get? c.id = none
  ids : (cs.map Connection.id).Nodup
  targets : (cs.map Connection.target).Nodup

def offered (n : Net) (c : Connection) : Net := n.orKeep (n.insertConnection c)

theorem offeredFree {n : Net} {c : Connection} {rest : List Connection}
    (offers : Offers n (c :: rest)) (free : n.feeding.get? c.target = none) :
    n.insertConnection c = .ok (n.linked c, { Changes.empty with
      addedConnections := [c], invalidated := (n.linked c).downstreamClosure [c.target.node] }) :=
  have first : c ∈ c :: rest := List.mem_cons_self
  insertConnectionIff.mpr ⟨⟨(offers.ends c first).1, (offers.ends c first).2, offers.absent c first,
    free⟩, rfl⟩

theorem offeredCases {n : Net} {c : Connection} {rest : List Connection}
    (offers : Offers n (c :: rest)) :
    n.feeding.get? c.target = none ∧ n.offered c = n.linked c ∨
      n.feeding.get? c.target ≠ none ∧ n.offered c = n := by
  by_cases free : n.feeding.get? c.target = none
  · refine .inl ⟨free, ?_⟩
    rw [offered, offeredFree offers free]
    rfl
  · refine .inr ⟨free, ?_⟩
    rw [offered]
    cases tried : n.insertConnection c with
    | error e => rfl
    | ok r => exact absurd (insertConnectionIff.mp tried).1.2.2.2 free

theorem Offers.next {n : Net} {c : Connection} {rest : List Connection}
    (offers : Offers n (c :: rest)) : Offers (n.offered c) rest := by
  have ids := List.nodup_cons.mp offers.ids
  have targets := List.nodup_cons.mp offers.targets
  rcases offeredCases offers with ⟨_, e⟩ | ⟨_, e⟩ <;> rw [e]
  · refine ⟨fun d member => offers.ends d (List.mem_cons_of_mem _ member), fun d member => ?_,
      ids.2, targets.2⟩
    refine (Table.getInsert ..).trans ((if_neg fun e => ?_).trans
      (offers.absent d (List.mem_cons_of_mem _ member)))
    exact ids.1 (List.mem_map.mpr ⟨d, member, e.symm⟩)
  · exact ⟨fun d member => offers.ends d (List.mem_cons_of_mem _ member),
      fun d member => offers.absent d (List.mem_cons_of_mem _ member), ids.2, targets.2⟩

theorem feedingNone {n : Net} (indexed : Indexed n) {input : Socket} :
    n.feeding.get? input = none ↔ ∀ c ∈ n.connectionList, c.target ≠ input := by
  rw [indexed.feeding, Option.eq_none_iff_forall_ne_some]
  constructor
  · intro none c member e
    exact none c.id ((getFeedingOf indexed.fanIn).mpr ⟨c, member, e, rfl⟩)
  · intro other id found
    obtain ⟨c, member, e, _⟩ := (getFeedingOf indexed.fanIn).mp found
    exact other c member e

/- Of two connections to one input the first one stays, and the offers have one for each. -/
theorem offeredAll {n : Net} {cs : List Connection} (sound : Sound n) (offers : Offers n cs) :
    OnlyLinks n (cs.foldl offered n) ∧ Sound (cs.foldl offered n) ∧
      ∀ c, c ∈ (cs.foldl offered n).connectionList ↔
        c ∈ n.connectionList ∨ c ∈ cs ∧ ∀ e ∈ n.connectionList, e.target ≠ c.target := by
  induction cs generalizing n with
  | nil => exact ⟨⟨rfl, rfl, rfl, rfl⟩, sound, fun c => by simp⟩
  | cons c rest ih =>
    have kept : Sound (n.offered c) := orKeepSound sound fun _ _ => insertConnectionSound sound
    obtain ⟨frame, sound', members⟩ := ih kept offers.next
    have later : ∀ d ∈ rest, c.target ≠ d.target := fun d member e =>
      (List.nodup_cons.mp offers.targets).1 (e ▸ List.mem_map.mpr ⟨d, member, rfl⟩)
    rw [List.foldl_cons]
    rcases offeredCases offers with ⟨free, e⟩ | ⟨fed, e⟩
    · have one := linkedPerm (offers.absent c List.mem_cons_self)
      rw [e] at frame members ⊢
      rw [e] at sound'
      refine ⟨⟨frame.nodes, frame.order, frame.uniforms, frame.includes⟩, sound', fun d => ?_⟩
      rw [members]
      simp only [one.mem_iff, List.mem_cons, forall_eq_or_imp]
      constructor
      · rintro ((rfl | old) | ⟨new, _, others⟩)
        · exact .inr ⟨.inl rfl, (feedingNone sound.toIndexed).mp free⟩
        · exact .inl old
        · exact .inr ⟨.inr new, others⟩
      · rintro (old | ⟨rfl | new, others⟩)
        · exact .inl (.inr old)
        · exact .inl (.inl rfl)
        · exact .inr ⟨new, later d new, others⟩
    · rw [e] at frame members sound' ⊢
      refine ⟨frame, sound', fun d => (members d).trans (or_congr_right (and_congr_left ?_))⟩
      intro others
      rw [List.mem_cons]
      refine (or_iff_right fun first => fed ?_).symm
      exact (feedingNone sound.toIndexed).mpr (first ▸ others)

structure Fits (n : Net) (cs : List Connection) : Prop extends Offers n cs where
  free : ∀ c ∈ cs, n.feeding.get? c.target = none

theorem Fits.next {n : Net} {c : Connection} {rest : List Connection} (fits : Fits n (c :: rest)) :
    Fits (n.offered c) rest := by
  refine ⟨fits.toOffers.next, fun d member => ?_⟩
  rcases offeredCases fits.toOffers with ⟨_, e⟩ | ⟨fed, _⟩
  · rw [e]
    refine (Table.getInsert ..).trans ((if_neg fun e => ?_).trans
      (fits.free d (List.mem_cons_of_mem _ member)))
    exact (List.nodup_cons.mp fits.targets).1 (List.mem_map.mpr ⟨d, member, e.symm⟩)
  · exact absurd (fits.free c List.mem_cons_self) fed

end Net
end ShaderNet
