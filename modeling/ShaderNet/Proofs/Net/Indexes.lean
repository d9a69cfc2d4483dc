import Mathlib.Data.List.Nodup
import ShaderNet.Net.Edit
import ShaderNet.Proofs.Table

/-! The look-ups that a net keeps beside its connections, computed from the connections alone. They
depend on which connections there are and not on their order, so what an edit does to them is what it
does to a list of connections at its head. -/
namespace ShaderNet.Net

def feedingOf (cs : List Connection) : Table Socket String :=
  Table.ofList (cs.map fun c => (c.target, c.id))

def consumersOf (cs : List Connection) (output : Socket) : KeySet String :=
  KeySet.ofList ((cs.filter fun c => c.source = output).map Connection.id)

def feedsOf (cs : List Connection) : Table Socket (KeySet String) :=
  Table.ofList ((cs.map Connection.source).map fun output => (output, consumersOf cs output))

def uses (cs : List Connection) (output : Socket) : Nat := cs.countP fun c => c.source = output

def touchingAt (cs : List Connection) (id : String) : Touching where
  inputs := KeySet.ofList ((cs.filter fun c => c.target.node = id).map fun c => c.target.name)
  outputs := Table.ofList (((cs.filter fun c => c.source.node = id).map fun c => c.source.name).map
    fun name => (name, uses cs ⟨id, name⟩))

def touchingOf (cs : List Connection) : Table String Touching :=
  Table.ofList ((cs.flatMap fun c => [c.source.node, c.target.node]).map
    fun id => (id, touchingAt cs id))

/-! Look-ups -/

theorem getFeedingOf {cs : List Connection} (fanIn : (cs.map Connection.target).Nodup)
    {input : Socket} {id : String} :
    (feedingOf cs).get? input = some id ↔ ∃ c ∈ cs, c.target = input ∧ c.id = id := by
  constructor
  · intro found
    obtain ⟨c, member, e⟩ := List.mem_map.mp (Table.getOfListMember found)
    cases e
    exact ⟨c, member, rfl, rfl⟩
  · rintro ⟨c, member, rfl, rfl⟩
    refine (Table.getOfList fun id found => ?_).mpr (List.mem_map.mpr ⟨c, member, rfl⟩)
    obtain ⟨d, other, e⟩ := List.mem_map.mp found
    have same : d = c := List.inj_on_of_nodup_map fanIn other member (congrArg Prod.fst e)
    exact same ▸ (congrArg Prod.snd e).symm

theorem containsConsumers {cs : List Connection} {output : Socket} {id : String} :
    (consumersOf cs output).contains id = true ↔ ∃ c ∈ cs, c.source = output ∧ c.id = id := by
  rw [consumersOf, KeySet.containsOfList]
  simp [and_assoc]

theorem consumersSome {cs : List Connection} {c : Connection} (member : c ∈ cs) :
    (consumersOf cs c.source).isEmpty = false := by
  refine Bool.eq_false_iff.mpr fun none => ?_
  have found := containsConsumers.mpr ⟨c, member, rfl, rfl⟩
  simp [Table.contains, Table.isEmptyIff.mp none] at found

theorem getFeedsOf (cs : List Connection) (output : Socket) :
    (feedsOf cs).get? output = (some (consumersOf cs output)).filter (fun s => !s.isEmpty) := by
  rw [feedsOf, Table.getOfKeys, Option.filter_some]
  by_cases used : ∃ c ∈ cs, c.source = output
  · obtain ⟨c, member, rfl⟩ := used
    have listed : c.source ∈ cs.map Connection.source := List.mem_map.mpr ⟨c, member, rfl⟩
    simp [consumersSome member, listed]
  · have none : (consumersOf cs output).isEmpty = true := by
      refine Table.isEmptyIff.mpr fun id => Table.containsFalse.mp ?_
      refine Bool.eq_false_iff.mpr fun found => used ?_
      obtain ⟨c, member, e, _⟩ := containsConsumers.mp found
      exact ⟨c, member, e⟩
    have absent : output ∉ cs.map Connection.source := by simpa using used
    simp [none, absent]

theorem containsInputs {cs : List Connection} {id name : String} :
    (touchingAt cs id).inputs.contains name = true ↔ ∃ c ∈ cs, c.target = ⟨id, name⟩ := by
  rw [touchingAt, KeySet.containsOfList]
  simp only [List.mem_map, List.mem_filter, decide_eq_true_eq]
  constructor
  · rintro ⟨c, ⟨member, rfl⟩, rfl⟩
    exact ⟨c, member, rfl⟩
  · rintro ⟨c, member, e⟩
    exact ⟨c, ⟨member, by rw [e]⟩, by rw [e]⟩

theorem usesZero {cs : List Connection} {output : Socket} :
    uses cs output = 0 ↔ ∀ c ∈ cs, c.source ≠ output := by
  simp [uses, List.countP_eq_zero]

def positive (k : Nat) : Option Nat := if k = 0 then none else some k

theorem getOutputs (cs : List Connection) (id name : String) :
    (touchingAt cs id).outputs.get? name = positive (uses cs ⟨id, name⟩) := by
  rw [touchingAt, Table.getOfKeys, positive]
  by_cases none : uses cs ⟨id, name⟩ = 0
  · have absent : name ∉ (cs.filter fun c => c.source.node = id).map fun c => c.source.name := by
      simp only [List.mem_map, List.mem_filter, decide_eq_true_eq, not_exists]
      rintro c ⟨⟨member, rfl⟩, rfl⟩
      exact usesZero.mp none c member rfl
    rw [if_neg absent, if_pos none]
  · have present : name ∈ (cs.filter fun c => c.source.node = id).map fun c => c.source.name := by
      obtain ⟨c, member, e⟩ : ∃ c ∈ cs, c.source = ⟨id, name⟩ := by
        simpa [usesZero] using none
      exact List.mem_map.mpr ⟨c, List.mem_filter.mpr ⟨member, by simp [e]⟩, by rw [e]⟩
    rw [if_pos present, if_neg none]

theorem touchingEmpty {cs : List Connection} {id : String} :
    (touchingAt cs id).isEmpty = true ↔ ∀ c ∈ cs, c.source.node ≠ id ∧ c.target.node ≠ id := by
  rw [Touching.isEmpty, Bool.and_eq_true, Table.isEmptyIff, Table.isEmptyIff]
  constructor
  · rintro ⟨inputs, outputs⟩ c member
    constructor
    · rintro rfl
      have none := outputs c.source.name
      rw [getOutputs, positive] at none
      split at none
      · rename_i zero
        exact usesZero.mp zero c member rfl
      · cases none
    · rintro rfl
      have found := containsInputs.mpr ⟨c, member, rfl⟩
      simp [Table.contains, inputs] at found
  · intro untouched
    constructor
    · intro name
      refine Table.containsFalse.mp (Bool.eq_false_iff.mpr fun found => ?_)
      obtain ⟨c, member, e⟩ := containsInputs.mp found
      exact (untouched c member).2 (by rw [e])
    · intro name
      have zero : uses cs ⟨id, name⟩ = 0 := usesZero.mpr fun c member e =>
        (untouched c member).1 (by rw [e])
      rw [getOutputs, positive, if_pos zero]

theorem getTouchingOf (cs : List Connection) (id : String) :
    (touchingOf cs).get? id = unlessEmpty (some (touchingAt cs id)) := by
  rw [touchingOf, Table.getOfKeys, unlessEmpty, Option.filter_some]
  by_cases none : (touchingAt cs id).isEmpty = true
  · have absent : id ∉ cs.flatMap fun c => [c.source.node, c.target.node] := by
      intro member
      obtain ⟨c, inList, e⟩ := List.mem_flatMap.mp member
      have untouched := touchingEmpty.mp none c inList
      simp only [List.mem_cons, List.not_mem_nil, or_false] at e
      rcases e with rfl | rfl
      · exact untouched.1 rfl
      · exact untouched.2 rfl
    simp [none, absent]
  · have present : id ∈ cs.flatMap fun c => [c.source.node, c.target.node] := by
      refine Classical.byContradiction fun absent => none (touchingEmpty.mpr fun c member => ?_)
      constructor <;> rintro rfl <;>
        exact absent (List.mem_flatMap.mpr ⟨c, member, by simp⟩)
    simp [none, present]

/-! One connection more -/

theorem consumersPerm {cs ds : List Connection} (perm : cs.Perm ds) (output : Socket) :
    consumersOf cs output = consumersOf ds output :=
  KeySet.ext fun id => by simp only [containsConsumers, perm.mem_iff]

theorem touchingPerm {cs ds : List Connection} (perm : cs.Perm ds) (id : String) :
    touchingAt cs id = touchingAt ds id := by
  have inputs : (touchingAt cs id).inputs = (touchingAt ds id).inputs :=
    KeySet.ext fun name => by simp only [containsInputs, perm.mem_iff]
  have outputs : (touchingAt cs id).outputs = (touchingAt ds id).outputs :=
    Table.ext fun name => by rw [getOutputs, getOutputs, uses, uses, perm.countP_eq]
  exact Touching.ext inputs outputs

theorem feedingPerm {cs ds : List Connection} (perm : cs.Perm ds)
    (fanIn : (cs.map Connection.target).Nodup) : feedingOf cs = feedingOf ds := by
  have fanIn' : (ds.map Connection.target).Nodup := (perm.map _).nodup_iff.mp fanIn
  refine Table.ext fun input => Option.ext fun id => ?_
  rw [getFeedingOf fanIn, getFeedingOf fanIn']
  simp only [perm.mem_iff]

theorem feedsPerm {cs ds : List Connection} (perm : cs.Perm ds) : feedsOf cs = feedsOf ds :=
  Table.ext fun output => by rw [getFeedsOf, getFeedsOf, consumersPerm perm]

theorem touchingOfPerm {cs ds : List Connection} (perm : cs.Perm ds) :
    touchingOf cs = touchingOf ds :=
  Table.ext fun id => by rw [getTouchingOf, getTouchingOf, touchingPerm perm]

theorem usesCons (c : Connection) (cs : List Connection) (output : Socket) :
    uses (c :: cs) output = uses cs output + if c.source = output then 1 else 0 := by
  by_cases same : c.source = output <;> simp [uses, same]

theorem consumersCons (c : Connection) (cs : List Connection) (output : Socket) :
    consumersOf (c :: cs) output =
      if c.source = output then (consumersOf cs output).add c.id else consumersOf cs output := by
  refine KeySet.ext fun id => ?_
  split
  · rename_i same
    rw [KeySet.containsAdd, containsConsumers, containsConsumers]
    simp [same]
  · rename_i other
    rw [containsConsumers, containsConsumers]
    simp [other]

def addInput (t : Touching) (name : String) : Touching := { t with inputs := t.inputs.add name }

def addOutput (t : Touching) (name : String) : Touching :=
  { t with outputs := t.outputs.insert name ((t.outputs.get? name).getD 0 + 1) }

theorem positiveGet (k : Nat) : (positive k).getD 0 = k := by
  unfold positive
  split <;> simp_all

theorem touchingCons (c : Connection) (cs : List Connection) (id : String) :
    touchingAt (c :: cs) id =
      let entered :=
        if c.target.node = id then addInput (touchingAt cs id) c.target.name else touchingAt cs id
      if c.source.node = id then addOutput entered c.source.name else entered := by
  have inputs : (touchingAt (c :: cs) id).inputs =
      if c.target.node = id then (touchingAt cs id).inputs.add c.target.name
      else (touchingAt cs id).inputs := by
    refine KeySet.ext fun name => ?_
    split
    · rename_i same
      subst same
      rw [KeySet.containsAdd, containsInputs, containsInputs, List.exists_mem_cons_iff]
      simp [Socket.ext_iff]
    · rename_i other
      rw [containsInputs, containsInputs, List.exists_mem_cons_iff]
      simp [Socket.ext_iff, other]
  have outputs : (touchingAt (c :: cs) id).outputs =
      if c.source.node = id then (touchingAt cs id).outputs.insert c.source.name
        (((touchingAt cs id).outputs.get? c.source.name).getD 0 + 1)
      else (touchingAt cs id).outputs := by
    refine Table.ext fun name => ?_
    split
    · rename_i same
      subst same
      rw [Table.getInsert, getOutputs, getOutputs, getOutputs, positiveGet, usesCons]
      by_cases e : c.source.name = name
      · subst e
        simp [positive]
      · simp [e, Socket.ext_iff]
    · rename_i other
      rw [getOutputs, getOutputs, usesCons]
      simp [Socket.ext_iff, other]
  refine Touching.ext ?_ ?_
  · rw [inputs]
    by_cases source : c.source.node = id <;> by_cases target : c.target.node = id <;>
      simp [source, target, addInput, addOutput]
  · rw [outputs]
    by_cases source : c.source.node = id <;> by_cases target : c.target.node = id <;>
      simp [source, target, addInput, addOutput]

/- The type that a connection was seen to deliver is in none of the look-ups. -/
theorem feedsRetyped (c : Connection) (type : Option ValueType) (cs : List Connection) :
    feedsOf ({ c with type := type } :: cs) = feedsOf (c :: cs) :=
  Table.ext fun output => by rw [getFeedsOf, getFeedsOf, consumersCons, consumersCons]; rfl

theorem touchingRetyped (c : Connection) (type : Option ValueType) (cs : List Connection) :
    touchingOf ({ c with type := type } :: cs) = touchingOf (c :: cs) :=
  Table.ext fun id => by rw [getTouchingOf, getTouchingOf, touchingCons, touchingCons]

theorem unlessEmptyGet (t : Touching) : (unlessEmpty (some t)).getD .nothing = t := by
  rw [unlessEmpty, Option.filter_some]
  split
  · rfl
  · rename_i none
    have none : t.isEmpty = true := by simpa using none
    rw [Touching.isEmpty, Bool.and_eq_true, Table.isEmptyIff, Table.isEmptyIff] at none
    exact Touching.ext (Table.ext fun k => (none.1 k).symm) (Table.ext fun k => (none.2 k).symm)

theorem touchedSome {cs : List Connection} {c : Connection} (member : c ∈ cs) {id : String}
    (touched : c.source.node = id ∨ c.target.node = id) :
    unlessEmpty (some (touchingAt cs id)) = some (touchingAt cs id) := by
  rw [unlessEmpty, Option.filter_some, if_pos]
  rw [Bool.not_eq_true']
  refine Bool.eq_false_iff.mpr fun none => ?_
  have untouched := touchingEmpty.mp none c member
  exact touched.elim untouched.1 untouched.2

theorem touchingMore (cs : List Connection) (c : Connection) :
    ((touchingOf cs).alter c.target.node (withInput · c.target.name)).alter c.source.node
      (withOutput · c.source.name) = touchingOf (c :: cs) := by
  refine Table.ext fun id => ?_
  have known := touchingCons c cs id
  rw [getTouchingOf]
  by_cases source : c.source.node = id
  · rw [touchedSome List.mem_cons_self (.inl source), known]
    subst source
    by_cases target : c.target.node = c.source.node
    · simp [Table.getAlter, getTouchingOf, target, withInput, withOutput, unlessEmptyGet, addInput,
        addOutput]
    · simp [Table.getAlter, getTouchingOf, target, withOutput, unlessEmptyGet, addOutput]
  · by_cases target : c.target.node = id
    · rw [touchedSome List.mem_cons_self (.inr target), known]
      subst target
      simp [Table.getAlter, getTouchingOf, source, withInput, unlessEmptyGet, addInput]
    · rw [known]
      simp [Table.getAlter, getTouchingOf, source, target]

theorem feedsMore (cs : List Connection) (c : Connection) :
    (feedsOf cs).insert c.source ((((feedsOf cs).get? c.source).getD ∅).add c.id) =
      feedsOf (c :: cs) := by
  refine Table.ext fun output => ?_
  rw [Table.getInsert, getFeedsOf, getFeedsOf, getFeedsOf, consumersCons]
  split
  · rename_i same
    subst same
    have whole : ((some (consumersOf cs c.source)).filter fun s => !s.isEmpty).getD ∅ =
        consumersOf cs c.source := by
      rw [Option.filter_some]
      split
      · rfl
      · rename_i none
        exact Table.ext fun id => (Table.isEmptyIff.mp (by simpa using none) id).symm
    have some := consumersSome (List.mem_cons_self : c ∈ c :: cs)
    rw [consumersCons, if_pos rfl] at some
    rw [whole, Option.filter_some, some]
    rfl
  · rfl

theorem feedingMore {cs : List Connection} {c : Connection}
    (fanIn : ((c :: cs).map Connection.target).Nodup) :
    (feedingOf cs).insert c.target c.id = feedingOf (c :: cs) := by
  refine Table.ext fun input => Option.ext fun id => ?_
  obtain ⟨free, rest⟩ := List.nodup_cons.mp fanIn
  rw [getFeedingOf fanIn, Table.getInsert]
  split
  · rename_i same
    subst same
    simp only [Option.some.injEq, List.exists_mem_cons_iff, true_and]
    refine ⟨.inl, fun found => found.resolve_right ?_⟩
    rintro ⟨d, member, e, _⟩
    exact free (List.mem_map.mpr ⟨d, member, e⟩)
  · rename_i other
    simp [getFeedingOf rest, other]

/-! One connection less -/

theorem inputsFewer {cs : List Connection} {c : Connection} {id : String}
    (free : c.target ∉ cs.map Connection.target) (target : c.target.node = id) :
    (touchingAt (c :: cs) id).inputs.erase c.target.name = (touchingAt cs id).inputs := by
  refine KeySet.ext fun name => ?_
  rw [Table.containsErase, containsInputs, containsInputs, List.exists_mem_cons_iff]
  constructor
  · rintro ⟨other, here | there⟩
    · exact absurd (congrArg Socket.name here) other
    · exact there
  · rintro ⟨d, member, e⟩
    refine ⟨fun same => free ?_, .inr ⟨d, member, e⟩⟩
    have ends : d.target = c.target := e.trans (Socket.ext target same).symm
    exact List.mem_map.mpr ⟨d, member, ends⟩

theorem inputsOther {cs : List Connection} {c : Connection} {id : String}
    (target : c.target.node ≠ id) : (touchingAt (c :: cs) id).inputs = (touchingAt cs id).inputs := by
  refine KeySet.ext fun name => ?_
  rw [containsInputs, containsInputs, List.exists_mem_cons_iff]
  exact or_iff_right fun e => target (congrArg Socket.node e)

/- Every count that is kept is positive, so that one less than a count is a count again, or nothing. -/
theorem fewerPositive (k : Nat) : fewer (positive (k + 1)) = positive k := by
  cases k <;> simp [positive, fewer]

theorem outputsFewer {cs : List Connection} {c : Connection} {id : String}
    (source : c.source.node = id) :
    (touchingAt (c :: cs) id).outputs.alter c.source.name fewer = (touchingAt cs id).outputs := by
  subst source
  refine Table.ext fun name => ?_
  rw [Table.getAlter, getOutputs, getOutputs, getOutputs, usesCons, usesCons]
  split
  · rename_i same
    subst same
    simpa using fewerPositive _
  · rename_i other
    simp [Socket.ext_iff, other]

theorem outputsOther {cs : List Connection} {c : Connection} {id : String}
    (source : c.source.node ≠ id) :
    (touchingAt (c :: cs) id).outputs = (touchingAt cs id).outputs := by
  refine Table.ext fun name => ?_
  rw [getOutputs, getOutputs, usesCons]
  simp [Socket.ext_iff, source]

theorem unlessEmptyTwice (t : Option Touching) : unlessEmpty (unlessEmpty t) = unlessEmpty t := by
  simp [unlessEmpty, Option.filter_filter]

theorem touchingFewer {cs : List Connection} {c : Connection}
    (free : c.target ∉ cs.map Connection.target) :
    ((((touchingOf (c :: cs)).alter c.target.node (withoutInput · c.target.name)).alter
      c.source.node (withoutOutput · c.source.name)).alter c.source.node unlessEmpty).alter
      c.target.node unlessEmpty = touchingOf cs := by
  refine Table.ext fun id => ?_
  rw [getTouchingOf]
  by_cases source : c.source.node = id
  · have present := touchedSome (List.mem_cons_self : c ∈ c :: cs) (.inl source)
    by_cases target : c.target.node = id
    · have left : ({ inputs := (touchingAt (c :: cs) id).inputs.erase c.target.name
                     outputs := (touchingAt (c :: cs) id).outputs.alter c.source.name fewer } :
          Touching) = touchingAt cs id := Touching.ext (inputsFewer free target) (outputsFewer source)
      simp [Table.getAlter, getTouchingOf, source, target, present, withoutInput, withoutOutput, left,
        unlessEmptyTwice]
    · have left : ({ touchingAt (c :: cs) id with
                     outputs := (touchingAt (c :: cs) id).outputs.alter c.source.name fewer } :
          Touching) = touchingAt cs id := Touching.ext (inputsOther target) (outputsFewer source)
      simp [Table.getAlter, getTouchingOf, source, target, present, withoutOutput, left]
  · by_cases target : c.target.node = id
    · have present := touchedSome (List.mem_cons_self : c ∈ c :: cs) (.inr target)
      have left : ({ touchingAt (c :: cs) id with
                     inputs := (touchingAt (c :: cs) id).inputs.erase c.target.name } : Touching) =
          touchingAt cs id := Touching.ext (inputsFewer free target) (outputsOther source)
      simp [Table.getAlter, getTouchingOf, source, target, present, withoutInput, left]
    · have left : touchingAt (c :: cs) id = touchingAt cs id :=
        Touching.ext (inputsOther target) (outputsOther source)
      simp [Table.getAlter, getTouchingOf, source, target, left]

theorem feedsFewer {cs : List Connection} {c : Connection} (fresh : c.id ∉ cs.map Connection.id) :
    (feedsOf (c :: cs)).alter c.source (dropConsumer · c.id) = feedsOf cs := by
  refine Table.ext fun output => ?_
  rw [Table.getAlter, getFeedsOf, getFeedsOf, getFeedsOf]
  split
  · rename_i same
    subst same
    have some := consumersSome (List.mem_cons_self : c ∈ c :: cs)
    have left : (consumersOf (c :: cs) c.source).erase c.id = consumersOf cs c.source := by
      refine KeySet.ext fun id => ?_
      rw [Table.containsErase, containsConsumers, containsConsumers, List.exists_mem_cons_iff]
      constructor
      · rintro ⟨other, ⟨_, here⟩ | there⟩
        · exact absurd here other
        · exact there
      · rintro ⟨d, member, e, rfl⟩
        exact ⟨fun same => fresh (List.mem_map.mpr ⟨d, member, same.symm⟩), .inr ⟨d, member, e, rfl⟩⟩
    simp [dropConsumer, Option.filter_some, some, left]
  · rename_i other
    rw [consumersCons, if_neg other]

theorem feedingFewer {cs : List Connection} {c : Connection}
    (fanIn : ((c :: cs).map Connection.target).Nodup) :
    (feedingOf (c :: cs)).erase c.target = feedingOf cs := by
  have free : (feedingOf cs).get? c.target = none := by
    refine Option.eq_none_iff_forall_not_mem.mpr fun id found => ?_
    obtain ⟨d, member, e, _⟩ := (getFeedingOf (List.nodup_cons.mp fanIn).2).mp found
    exact (List.nodup_cons.mp fanIn).1 (List.mem_map.mpr ⟨d, member, e⟩)
  rw [← feedingMore fanIn]
  refine Table.ext fun input => ?_
  rw [Table.getErase, Table.getInsert]
  split
  · rename_i same
    exact same ▸ free.symm
  · rfl

end ShaderNet.Net
