import ShaderNet.Proofs.Net.Edits
import ShaderNet.Proofs.Net.Order

/-! The downstream closure as a loop over a queue. A node may be queued by everything that feeds it before it
is reached for the first time. The loop ends for every net, with the closure that is grown level by level. -/
namespace ShaderNet.Net
open Relation

structure Sweep where
  queue : List String
  reached : KeySet String

def Sweep.next (n : Net) : Sweep → Option Sweep
  | ⟨[], _⟩ => none
  | ⟨id :: rest, reached⟩ =>
    if reached.contains id then some ⟨rest, reached⟩
    else
      let reached := reached.add id
      some ⟨rest ++ (n.successors id).filter fun k => !reached.contains k, reached⟩

def Sweep.Leads (n : Net) : Sweep → Sweep → Prop :=
  ReflTransGen fun s t => Sweep.next n s = some t

/-- All that is reached or queued belongs to the closure, and whatever a reached node feeds is reached or
queued. -/
structure Sweep.Fair (n : Net) (seeds : List String) (s : Sweep) : Prop where
  within : ∀ k, k ∈ s.queue ∨ s.reached.contains k = true → (n.downstreamClosure seeds).contains k = true
  seeded : ∀ k ∈ seeds, k ∈ s.queue ∨ s.reached.contains k = true
  closed : ∀ k, s.reached.contains k = true → ∀ j ∈ n.successors k,
    j ∈ s.queue ∨ s.reached.contains j = true

variable {n : Net} {seeds : List String} {s t : Sweep}

theorem sweepStart (indexed : Indexed n) (seeds : List String) : Sweep.Fair n seeds ⟨seeds, ∅⟩ where
  within _ listed := downstreamSeed indexed (listed.resolve_right Bool.false_ne_true)
  seeded _ seed := .inl seed
  closed _ impossible := nomatch impossible

theorem sweepFair (indexed : Indexed n) (fair : s.Fair n seeds) (step : s.next n = some t) :
    t.Fair n seeds := by
  obtain ⟨queue, reached⟩ := s
  cases queue with
  | nil => cases step
  | cons id rest =>
    rw [Sweep.next] at step
    split at step
    · rename_i known
      cases step
      -- the node taken from the queue has been reached before
      have still : ∀ k, k ∈ id :: rest ∨ reached.contains k = true →
          k ∈ rest ∨ reached.contains k = true := by
        rintro k (listed | old)
        · exact (List.mem_cons.mp listed).elim (fun e => .inr (e ▸ known)) .inl
        · exact .inr old
      exact ⟨fun k listed => fair.within k (listed.imp_left (List.mem_cons_of_mem _)),
        fun k seed => still k (fair.seeded k seed),
        fun k old j next => still j (fair.closed k old j next)⟩
    · cases step
      have here : (n.downstreamClosure seeds).contains id = true := fair.within id (.inl List.mem_cons_self)
      have still : ∀ k, k ∈ id :: rest ∨ reached.contains k = true →
          k ∈ rest ++ (n.successors id).filter (fun k => !(reached.add id).contains k) ∨
            (reached.add id).contains k = true := by
        rintro k (listed | old)
        · rcases List.mem_cons.mp listed with rfl | later
          · exact .inr (KeySet.containsAdd.mpr (.inl rfl))
          · exact .inl (List.mem_append_left _ later)
        · exact .inr (KeySet.containsAdd.mpr (.inr old))
      refine ⟨fun k listed => ?_, fun k seed => still k (fair.seeded k seed), fun k old j next => ?_⟩
      · rcases listed with queued | new
        · rcases List.mem_append.mp queued with later | pushed
          · exact fair.within k (.inl (List.mem_cons_of_mem _ later))
          · obtain ⟨c, member, rfl, rfl⟩ := (memSuccessors indexed).mp (List.mem_filter.mp pushed).1
            exact downstreamClosed indexed seeds c member here
        · rcases KeySet.containsAdd.mp new with rfl | old
          · exact here
          · exact fair.within k (.inr old)
      · rcases KeySet.containsAdd.mp old with same | old
        · by_cases known : (reached.add id).contains j = true
          · exact .inr known
          · rw [← same] at next
            exact .inl (List.mem_append_right _ (List.mem_filter.mpr ⟨next, by simpa using known⟩))
        · exact still j (fair.closed k old j next)

def Sweep.left (n : Net) (s : Sweep) : Nat := s.queue.length + n.unvisited s.reached

theorem unvisitedLeaving (n : Net) {reached : KeySet String} {id : String}
    (new : reached.contains id = false) :
    n.unvisited (reached.add id) + (n.connectionList.countP fun c => c.source.node = id) =
      n.unvisited reached := by
  unfold unvisited
  induction n.connectionList with
  | nil => rfl
  | cons c others ih =>
    simp only [List.countP_cons]
    by_cases same : c.source.node = id
    · have now : (reached.add id).contains c.source.node = true := KeySet.containsAdd.mpr (.inl same.symm)
      have before : reached.contains c.source.node = false := same ▸ new
      rw [if_neg (by simp [now]), if_pos (by simp [same]), if_pos (by simp [before])]
      omega
    · have kept : (reached.add id).contains c.source.node = reached.contains c.source.node := by
        rw [Bool.eq_iff_iff, KeySet.containsAdd]
        exact or_iff_right fun e => same e.symm
      have other : ¬ decide (c.source.node = id) = true := by simpa using same
      rw [kept, if_neg other]
      omega

/- What a node queues is paid for by the connections that leave it, none of which is counted any more. -/
theorem sweepLess (indexed : Indexed n) (step : s.next n = some t) : t.left n < s.left n := by
  obtain ⟨queue, reached⟩ := s
  cases queue with
  | nil => cases step
  | cons id rest =>
    rw [Sweep.next] at step
    split at step
    · cases step
      simp [Sweep.left]
    · rename_i new
      cases step
      have pushed : ((n.successors id).filter fun k => !(reached.add id).contains k).length ≤
          n.connectionList.countP fun c => c.source.node = id := by
        refine Nat.le_trans (List.length_filter_le _ _) (Nat.le_of_eq ?_)
        rw [successors, List.length_map, (outgoingPerm indexed id).length_eq, List.countP_eq_length_filter]
      have fewer := unvisitedLeaving n (Bool.not_eq_true _ ▸ new)
      simp only [Sweep.left, List.length_append, List.length_cons]
      omega

theorem sweepEnds (indexed : Indexed n) (fair : s.Fair n seeds) :
    ∃ last, Sweep.Leads n s last ∧ last.next n = none ∧ last.Fair n seeds := by
  induction left : s.left n using Nat.strongRecOn generalizing s with
  | ind bound ih =>
    cases step : s.next n with
    | none => exact ⟨s, .refl, step, fair⟩
    | some t =>
      obtain ⟨last, leads, done, kept⟩ := ih _ (left ▸ sweepLess indexed step) (sweepFair indexed fair step) rfl
      exact ⟨last, .head step leads, done, kept⟩

theorem downstreamClosureLeads (indexed : Indexed n) (seeds : List String) :
    ∃ last, Sweep.Leads n ⟨seeds, ∅⟩ last ∧ last.next n = none ∧
      last.reached = n.downstreamClosure seeds := by
  obtain ⟨⟨queue, reached⟩, leads, done, fair⟩ := sweepEnds indexed (sweepStart indexed seeds)
  have empty : queue = [] := by
    cases queue with
    | nil => rfl
    | cons id rest =>
      rw [Sweep.next] at done
      split at done <;> cases done
  subst empty
  refine ⟨_, leads, done, KeySet.ext fun k => ⟨fun old => fair.within k (.inr old), fun inside => ?_⟩⟩
  refine @downstreamWithin n indexed (reached.contains · = true) (fun c member old => ?_) seeds
    (fun k seed => ?_) k inside
  · have next := (memSuccessors indexed).mpr ⟨c, member, rfl, rfl⟩
    exact (fair.closed _ old _ next).resolve_left List.not_mem_nil
  · exact (fair.seeded k seed).resolve_left List.not_mem_nil

end ShaderNet.Net
