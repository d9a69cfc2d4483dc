/-! Finite tables whose keys are listed in ascending order, each once. Two tables with the same
bindings are therefore equal, and the order in which answers list a table is its own order. -/
namespace ShaderNet

class StrictTotal (κ : Type) [LT κ] : Prop where
  irrefl : ∀ a : κ, ¬ a < a
  trans : ∀ {a b c : κ}, a < b → b < c → a < c
  total : ∀ a b : κ, a < b ∨ a = b ∨ b < a

instance : StrictTotal String where
  irrefl := String.lt_irrefl
  trans := String.lt_trans
  total a b := by
    by_cases left : a < b
    · exact .inl left
    · by_cases right : b < a
      · exact .inr (.inr right)
      · exact .inr (.inl (String.le_antisymm (String.not_lt.1 right) (String.not_lt.1 left)))

structure Table (κ α : Type) [LT κ] where
  entries : List (κ × α)
  ascending : entries.Pairwise (fun p q => p.1 < q.1)
  deriving DecidableEq

namespace Table

variable {κ α β : Type} [LT κ]

def empty : Table κ α := ⟨[], .nil⟩

instance : EmptyCollection (Table κ α) := ⟨empty⟩
instance : Inhabited (Table κ α) := ⟨empty⟩

def keys (t : Table κ α) : List κ := t.entries.map Prod.fst
def values (t : Table κ α) : List α := t.entries.map Prod.snd
def size (t : Table κ α) : Nat := t.entries.length
def isEmpty (t : Table κ α) : Bool := t.entries.isEmpty

def find [DecidableEq κ] (k : κ) : List (κ × α) → Option α
  | [] => none
  | (k', v) :: rest => if k' = k then some v else find k rest

def get? [DecidableEq κ] (t : Table κ α) (k : κ) : Option α := find k t.entries

def contains [DecidableEq κ] (t : Table κ α) (k : κ) : Bool := (t.get? k).isSome

def filter (t : Table κ α) (keep : κ × α → Bool) : Table κ α :=
  ⟨t.entries.filter keep, t.ascending.filter _⟩

def erase [DecidableEq κ] (t : Table κ α) (k : κ) : Table κ α := t.filter (fun p => p.1 ≠ k)

def mapValues (t : Table κ α) (f : κ → α → β) : Table κ β :=
  ⟨t.entries.map (fun p => (p.1, f p.1 p.2)), by
    simpa [List.pairwise_map] using t.ascending⟩

def agrees [DecidableEq κ] (same : α → α → Bool) (t u : Table κ α) : Bool :=
  t.keys = u.keys && (t.values.zip u.values).all (fun p => same p.1 p.2)

variable [DecidableLT κ]

def place (k : κ) (v : α) : List (κ × α) → List (κ × α)
  | [] => [(k, v)]
  | (k', v') :: rest =>
    if k < k' then (k, v) :: (k', v') :: rest
    else if k' < k then (k', v') :: place k v rest
    else (k, v) :: rest

theorem placeMember {k : κ} {v : α} {p : κ × α} {l : List (κ × α)} (h : p ∈ place k v l) :
    p = (k, v) ∨ p ∈ l := by
  induction l with
  | nil => simpa [place] using h
  | cons hd rest ih =>
    obtain ⟨k', v'⟩ := hd
    rw [place] at h
    split at h
    · simpa using h
    · split at h
      · rcases List.mem_cons.1 h with rfl | h
        · simp
        · rcases ih h with h | h <;> simp [h]
      · rcases List.mem_cons.1 h with rfl | h <;> simp [*]

theorem placeAscending [StrictTotal κ] (k : κ) (v : α) {l : List (κ × α)}
    (h : l.Pairwise (fun p q => p.1 < q.1)) :
    (place k v l).Pairwise (fun p q => p.1 < q.1) := by
  induction l with
  | nil => simp [place]
  | cons hd rest ih =>
    obtain ⟨k', v'⟩ := hd
    obtain ⟨first, later⟩ := List.pairwise_cons.1 h
    rw [place]
    split
    · next before =>
      refine List.pairwise_cons.2 ⟨fun p hp => ?_, h⟩
      rcases List.mem_cons.1 hp with rfl | hp
      · exact before
      · exact StrictTotal.trans before (first p hp)
    · split
      · next after =>
        refine List.pairwise_cons.2 ⟨fun p hp => ?_, ih later⟩
        rcases placeMember hp with rfl | hp
        · exact after
        · exact first p hp
      · next notBefore notAfter =>
        have same : k = k' := by
          rcases StrictTotal.total k k' with h | h | h
          · exact absurd h notBefore
          · exact h
          · exact absurd h notAfter
        subst same
        exact List.pairwise_cons.2 ⟨first, later⟩

def insert [StrictTotal κ] (t : Table κ α) (k : κ) (v : α) : Table κ α :=
  ⟨place k v t.entries, placeAscending k v t.ascending⟩

def overlay [StrictTotal κ] (t : Table κ α) (later : List (κ × α)) : Table κ α :=
  later.foldl (fun t p => t.insert p.1 p.2) t

def ofList [StrictTotal κ] (l : List (κ × α)) : Table κ α := overlay empty l

def alter [StrictTotal κ] [DecidableEq κ] (t : Table κ α) (k : κ) (f : Option α → Option α) :
    Table κ α :=
  match f (t.get? k) with
  | some v => t.insert k v
  | none => t.erase k

end Table

abbrev KeySet (κ : Type) [LT κ] := Table κ Unit

namespace KeySet

variable {κ : Type} [LT κ] [DecidableLT κ] [StrictTotal κ]

def add (s : KeySet κ) (k : κ) : KeySet κ := s.insert k ()

def addAll (s : KeySet κ) (ks : List κ) : KeySet κ := ks.foldl add s

def ofList (ks : List κ) : KeySet κ := addAll ∅ ks

end KeySet
end ShaderNet
