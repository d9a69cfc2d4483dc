import ShaderNet.Table

/-! Laws of tables. Every operation is described by what can be looked up after it, and two tables
with the same look-ups are equal, so that no later argument has to open a list of entries. -/
namespace ShaderNet

namespace Table

variable {κ α β : Type} [DecidableEq κ]

theorem findMember {k : κ} {v : α} {l : List (κ × α)} (found : find k l = some v) : (k, v) ∈ l := by
  induction l with
  | nil => simp [find] at found
  | cons head rest ih =>
    obtain ⟨k', v'⟩ := head
    simp only [find] at found
    split at found
    · rename_i same
      cases Option.some.inj found
      exact same ▸ List.mem_cons_self
    · exact List.mem_cons_of_mem _ (ih found)

theorem findNone {k : κ} {l : List (κ × α)} : find k l = none ↔ ∀ v, (k, v) ∉ l := by
  induction l with
  | nil => simp [find]
  | cons head rest ih =>
    obtain ⟨k', v'⟩ := head
    by_cases same : k' = k
    · subst same
      simp only [find, if_pos, reduceCtorEq, false_iff]
      exact fun absent => absent v' List.mem_cons_self
    · simp only [find, if_neg same, ih, List.mem_cons, Prod.mk.injEq, not_or]
      exact ⟨fun h v => ⟨fun e => same e.1.symm, h v⟩, fun h v => (h v).2⟩

theorem findAppend (k : κ) (l m : List (κ × α)) : find k (l ++ m) = (find k l).or (find k m) := by
  induction l with
  | nil => rfl
  | cons head rest ih => by_cases same : head.1 = k <;> simp [find, same, ih]

theorem findFilter (keep : κ × α → Bool) (k : κ) {l : List (κ × α)}
    (single : ∀ v w, (k, v) ∈ l → (k, w) ∈ l → v = w) :
    find k (l.filter keep) = (find k l).filter (fun v => keep (k, v)) := by
  induction l with
  | nil => rfl
  | cons head rest ih =>
    obtain ⟨k', v'⟩ := head
    have later := ih fun v w hv hw =>
      single v w (List.mem_cons_of_mem _ hv) (List.mem_cons_of_mem _ hw)
    by_cases same : k' = k
    · subst same
      by_cases kept : keep (k', v')
      · simp [find, kept, Option.filter_some]
      · have absent : find k' (rest.filter keep) = none := by
          refine findNone.mpr fun v found => ?_
          obtain ⟨found, good⟩ := List.mem_filter.mp found
          have e := single v v' (List.mem_cons_of_mem _ found) List.mem_cons_self
          exact kept (e ▸ good)
        simp [find, kept, absent, Option.filter_some]
    · by_cases kept : keep (k', v') <;> simp [find, kept, same, later]

theorem findMap (f : κ → α → β) (k : κ) (l : List (κ × α)) :
    find k (l.map fun p => (p.1, f p.1 p.2)) = (find k l).map (f k) := by
  induction l with
  | nil => rfl
  | cons head rest ih =>
    by_cases same : head.1 = k
    · subst same
      simp [find]
    · simp [find, same, ih]

theorem zipFind {same : α → α → Bool} {l m : List (κ × α)} (keys : l.map Prod.fst = m.map Prod.fst)
    (all : ((l.map Prod.snd).zip (m.map Prod.snd)).all (fun p => same p.1 p.2) = true) (k : κ) :
    Option.Rel (fun a b => same a b = true) (find k l) (find k m) := by
  induction l generalizing m with
  | nil =>
    cases m with
    | nil => exact .none
    | cons q m => cases keys
  | cons p l ih =>
    cases m with
    | nil => cases keys
    | cons q m =>
      simp only [List.map_cons, List.cons.injEq] at keys
      simp only [List.map_cons, List.zip_cons_cons, List.all_cons, Bool.and_eq_true] at all
      rw [find, find, ← keys.1]
      split
      · exact .some all.1
      · exact ih keys.2 all.2

omit [DecidableEq κ] in
theorem zipMember {l m : List (κ × α)} (keys : l.map Prod.fst = m.map Prod.fst) {p : α × α}
    (member : p ∈ (l.map Prod.snd).zip (m.map Prod.snd)) : ∃ k, (k, p.1) ∈ l ∧ (k, p.2) ∈ m := by
  induction l generalizing m with
  | nil => cases member
  | cons q l ih =>
    cases m with
    | nil => cases keys
    | cons r m =>
      simp only [List.map_cons, List.cons.injEq] at keys
      rcases List.mem_cons.mp member with rfl | member
      · exact ⟨q.1, List.mem_cons_self, by rw [keys.1]; exact List.mem_cons_self⟩
      · obtain ⟨k, left, right⟩ := ih keys.2 member
        exact ⟨k, List.mem_cons_of_mem _ left, List.mem_cons_of_mem _ right⟩

variable [LT κ]

theorem getMember {t : Table κ α} {k : κ} {v : α} (found : t.get? k = some v) :
    (k, v) ∈ t.entries := findMember found

@[simp] theorem getEmpty (k : κ) : (∅ : Table κ α).get? k = none := rfl

theorem getMapValues (t : Table κ α) (f : κ → α → β) (k : κ) :
    (t.mapValues f).get? k = (t.get? k).map (f k) := findMap f k t.entries

theorem containsIff {t : Table κ α} {k : κ} : t.contains k = true ↔ ∃ v, t.get? k = some v :=
  Option.isSome_iff_exists

theorem containsFalse {t : Table κ α} {k : κ} : t.contains k = false ↔ t.get? k = none := by
  simp [contains]

section Ordered

variable [StrictTotal κ]

omit [DecidableEq κ] in
theorem entriesSingle {l : List (κ × α)} (ascending : l.Pairwise fun p q => p.1 < q.1)
    {k : κ} {v w : α} (left : (k, v) ∈ l) (right : (k, w) ∈ l) : v = w := by
  induction l with
  | nil => simp at left
  | cons head rest ih =>
    obtain ⟨first, later⟩ := List.pairwise_cons.mp ascending
    rcases List.mem_cons.mp left with hl | hl <;> rcases List.mem_cons.mp right with hr | hr
    · exact congrArg Prod.snd (hl.trans hr.symm)
    · subst hl
      exact absurd (first _ hr) (StrictTotal.irrefl k)
    · subst hr
      exact absurd (first _ hl) (StrictTotal.irrefl k)
    · exact ih later hl hr

theorem getIff {t : Table κ α} {k : κ} {v : α} : t.get? k = some v ↔ (k, v) ∈ t.entries := by
  refine ⟨getMember, fun member => ?_⟩
  cases found : t.get? k with
  | none => exact absurd member (findNone.mp found v)
  | some w => rw [entriesSingle t.ascending (getMember found) member]

theorem getFilter (t : Table κ α) (keep : κ × α → Bool) (k : κ) :
    (t.filter keep).get? k = (t.get? k).filter (fun v => keep (k, v)) :=
  findFilter keep k fun _ _ => entriesSingle t.ascending

theorem getErase (t : Table κ α) (k k' : κ) :
    (t.erase k).get? k' = if k = k' then none else t.get? k' := by
  rw [erase, getFilter]
  by_cases same : k = k'
  · subst same
    cases t.get? k <;> simp [Option.filter]
  · cases t.get? k' <;> simp [Option.filter, same, Ne.symm same]

omit [DecidableEq κ] in
/- The head of an ascending list comes before everything that could be looked up in the rest, so
equal look-ups force equal heads. -/
theorem entriesExt {l m : List (κ × α)} (hl : l.Pairwise fun p q => p.1 < q.1)
    (hm : m.Pairwise fun p q => p.1 < q.1) (same : ∀ p, p ∈ l ↔ p ∈ m) : l = m := by
  induction l generalizing m with
  | nil =>
    cases m with
    | nil => rfl
    | cons q _ => exact absurd ((same q).mpr List.mem_cons_self) List.not_mem_nil
  | cons p l ih =>
    cases m with
    | nil => exact absurd ((same p).mp List.mem_cons_self) List.not_mem_nil
    | cons q m =>
      obtain ⟨fl, tailL⟩ := List.pairwise_cons.mp hl
      obtain ⟨fm, tailM⟩ := List.pairwise_cons.mp hm
      have heads : p = q := by
        rcases List.mem_cons.mp ((same p).mp List.mem_cons_self) with e | inM
        · exact e
        · rcases List.mem_cons.mp ((same q).mpr List.mem_cons_self) with e | inL
          · exact e.symm
          · exact absurd (StrictTotal.trans (fm p inM) (fl q inL)) (StrictTotal.irrefl _)
      subst heads
      have rest : ∀ r, r ∈ l ↔ r ∈ m := by
        intro r
        constructor
        · intro member
          rcases List.mem_cons.mp ((same r).mp (List.mem_cons_of_mem _ member)) with e | h
          · exact absurd (e ▸ fl r member) (StrictTotal.irrefl _)
          · exact h
        · intro member
          rcases List.mem_cons.mp ((same r).mpr (List.mem_cons_of_mem _ member)) with e | h
          · exact absurd (e ▸ fm r member) (StrictTotal.irrefl _)
          · exact h
      rw [ih tailL tailM rest]

theorem ext {t u : Table κ α} (same : ∀ k, t.get? k = u.get? k) : t = u := by
  have entries : t.entries = u.entries := by
    refine entriesExt t.ascending u.ascending fun p => ?_
    rw [← getIff (t := t), ← getIff (t := u), same p.1]
  cases t
  cases u
  cases entries
  rfl

theorem memKeys {t : Table κ α} {k : κ} : k ∈ t.keys ↔ ∃ v, t.get? k = some v := by
  simp only [keys, List.mem_map, Prod.exists, getIff]
  exact ⟨fun ⟨_, v, member, e⟩ => ⟨v, e ▸ member⟩, fun ⟨v, member⟩ => ⟨k, v, member, rfl⟩⟩

theorem memValues {t : Table κ α} {v : α} : v ∈ t.values ↔ ∃ k, t.get? k = some v := by
  simp only [values, List.mem_map, Prod.exists, getIff]
  exact ⟨fun ⟨k, _, member, e⟩ => ⟨k, e ▸ member⟩, fun ⟨k, member⟩ => ⟨k, v, member, rfl⟩⟩

omit [DecidableEq κ] in
theorem keysNodup (t : Table κ α) : t.keys.Nodup := by
  refine List.pairwise_map.mpr (t.ascending.imp fun before same => ?_)
  exact StrictTotal.irrefl _ (same ▸ before)

theorem memKeysContains {t : Table κ α} {k : κ} : k ∈ t.keys ↔ t.contains k = true :=
  memKeys.trans containsIff.symm

theorem keysEq {t u : Table κ α} (same : ∀ k, (t.get? k).isSome = (u.get? k).isSome) :
    t.keys = u.keys := by
  have marks : t.mapValues (fun _ _ => ()) = u.mapValues (fun _ _ => ()) := by
    refine ext fun k => ?_
    have present := same k
    rw [getMapValues, getMapValues]
    cases left : t.get? k <;> cases right : u.get? k <;> simp_all
  have listed := congrArg keys marks
  simpa [keys, mapValues, Function.comp_def] using listed

theorem relatedSome {r : α → α → Prop} {a b : Option α} (related : Option.Rel r a b) :
    a.isSome = b.isSome := by
  cases related <;> rfl

theorem agreesIff {same : α → α → Bool} {t u : Table κ α} :
    agrees same t u = true ↔
      ∀ k, Option.Rel (fun a b => same a b = true) (t.get? k) (u.get? k) := by
  rw [agrees, Bool.and_eq_true, decide_eq_true_eq]
  constructor
  · intro ⟨keys, all⟩
    exact zipFind keys all
  · intro related
    have keys : t.keys = u.keys := keysEq fun k => relatedSome (related k)
    refine ⟨keys, List.all_eq_true.mpr fun p member => ?_⟩
    obtain ⟨k, left, right⟩ := zipMember keys member
    have pair := related k
    rw [getIff.mpr left, getIff.mpr right] at pair
    cases pair
    assumption

theorem related {same : α → α → Bool} {t u : Table κ α} (agree : agrees same t u = true) (k : κ) :
    (t.get? k = none ∧ u.get? k = none) ∨
      ∃ a b, t.get? k = some a ∧ u.get? k = some b ∧ same a b = true := by
  have pair := agreesIff.mp agree k
  generalize t.get? k = left, u.get? k = right at pair ⊢
  cases pair with
  | none => exact .inl ⟨rfl, rfl⟩
  | some same => exact .inr ⟨_, _, rfl, rfl, same⟩

theorem isEmptyIff {t : Table κ α} : t.isEmpty = true ↔ ∀ k, t.get? k = none := by
  rw [isEmpty, List.isEmpty_iff]
  constructor
  · intro none k
    simp [get?, none, find]
  · intro absent
    refine List.eq_nil_iff_forall_not_mem.mpr fun p member => ?_
    have found := getIff.mpr member
    simp [absent] at found

theorem containsErase {t : Table κ α} {k k' : κ} :
    (t.erase k).contains k' = true ↔ k ≠ k' ∧ t.contains k' = true := by
  by_cases same : k = k' <;> simp [contains, getErase, same]

theorem eraseAbsent {t : Table κ α} {k : κ} (absent : t.get? k = none) : t.erase k = t := by
  refine ext fun k' => ?_
  by_cases same : k = k'
  · subst same
    simp [getErase, absent]
  · simp [getErase, same]

variable [DecidableLT κ]

theorem findPlace (k : κ) (v : α) (l : List (κ × α)) (k' : κ) :
    find k' (place k v l) = if k = k' then some v else find k' l := by
  induction l with
  | nil => simp [place, find]
  | cons head rest ih =>
    obtain ⟨k₁, v₁⟩ := head
    rw [place]
    split
    · by_cases same : k = k' <;> simp [find, same]
    · rename_i notBefore
      split
      · rename_i after
        by_cases same : k₁ = k'
        · subst same
          have other : k ≠ k₁ := fun e => StrictTotal.irrefl _ (e ▸ after)
          simp [find, other]
        · simp [find, same, ih]
      · rename_i notAfter
        have same : k = k₁ := by
          rcases StrictTotal.total k k₁ with h | h | h
          · exact absurd h notBefore
          · exact h
          · exact absurd h notAfter
        subst same
        by_cases other : k = k' <;> simp [find, other]

@[simp] theorem getInsert (t : Table κ α) (k : κ) (v : α) (k' : κ) :
    (t.insert k v).get? k' = if k = k' then some v else t.get? k' := findPlace k v t.entries k'

theorem mapValuesInsert (t : Table κ α) (f : κ → α → β) (k : κ) (v : α) :
    (t.insert k v).mapValues f = (t.mapValues f).insert k (f k v) := by
  refine ext fun k' => ?_
  rw [getMapValues, getInsert, getInsert, getMapValues]
  split
  · rename_i same
    rw [same]
    rfl
  · rfl

theorem containsInsert {t : Table κ α} {k k' : κ} {v : α} :
    (t.insert k v).contains k' = true ↔ k = k' ∨ t.contains k' = true := by
  by_cases same : k = k' <;> simp [contains, same]

theorem getAlter (t : Table κ α) (k : κ) (f : Option α → Option α) (k' : κ) :
    (t.alter k f).get? k' = if k = k' then f (t.get? k) else t.get? k' := by
  unfold alter
  split
  · rename_i v found
    by_cases same : k = k' <;> simp [same, ← found]
  · rename_i found
    by_cases same : k = k' <;> simp [getErase, same, ← found]

theorem insertSame {t : Table κ α} {k : κ} {v : α} (found : t.get? k = some v) :
    t.insert k v = t := by
  refine ext fun k' => ?_
  by_cases same : k = k'
  · subst same
    simp [found]
  · simp [same]

theorem placePerm {k : κ} (v : α) {l : List (κ × α)} (absent : find k l = none) :
    (place k v l).Perm ((k, v) :: l) := by
  induction l with
  | nil => exact .refl _
  | cons head rest ih =>
    obtain ⟨k₁, v₁⟩ := head
    have other : k₁ ≠ k := by
      rintro rfl
      simp [find] at absent
    rw [find, if_neg other] at absent
    rw [place]
    split
    · exact .refl _
    · rename_i notBefore
      split
      · exact ((ih absent).cons _).trans (.swap _ _ _)
      · rename_i notAfter
        rcases StrictTotal.total k k₁ with h | h | h
        · exact absurd h notBefore
        · exact absurd h.symm other
        · exact absurd h notAfter

theorem valuesInsert {t : Table κ α} {k : κ} (v : α) (absent : t.get? k = none) :
    (t.insert k v).values.Perm (v :: t.values) := (placePerm v absent).map Prod.snd

theorem insertErase (t : Table κ α) (k : κ) (v : α) : (t.erase k).insert k v = t.insert k v := by
  refine ext fun k' => ?_
  by_cases same : k = k' <;> simp [getErase, same]

theorem valuesErase {t : Table κ α} {k : κ} {v : α} (found : t.get? k = some v) :
    t.values.Perm (v :: (t.erase k).values) := by
  have whole : (t.erase k).insert k v = t := (insertErase t k v).trans (insertSame found)
  have absent : (t.erase k).get? k = none := by simp [getErase]
  simpa only [whole] using valuesInsert v absent

theorem valuesReplace {t : Table κ α} {k : κ} {v : α} (w : α) (found : t.get? k = some v) :
    t.values.Perm (v :: (t.erase k).values) ∧
      (t.insert k w).values.Perm (w :: (t.erase k).values) := by
  have absent : (t.erase k).get? k = none := by simp [getErase]
  exact ⟨valuesErase found, by simpa only [insertErase] using valuesInsert w absent⟩

/- Later bindings win, so a look-up reads the list from its end. -/
theorem getOverlay (t : Table κ α) (l : List (κ × α)) (k : κ) :
    (t.overlay l).get? k = (find k l.reverse).or (t.get? k) := by
  induction l generalizing t with
  | nil => rfl
  | cons p rest ih =>
    rw [overlay, List.foldl_cons, ← overlay, ih, getInsert, List.reverse_cons, findAppend]
    by_cases same : p.1 = k <;> cases find k rest.reverse <;> simp [find, same]

theorem getOfListMember {l : List (κ × α)} {k : κ} {v : α} (found : (ofList l).get? k = some v) :
    (k, v) ∈ l := by
  rw [ofList, getOverlay] at found
  exact List.mem_reverse.mp (findMember (by simpa [empty, get?, find] using found))

theorem getOfList {l : List (κ × α)} {k : κ} {v : α}
    (single : ∀ w, (k, w) ∈ l → w = v) :
    (ofList l).get? k = some v ↔ (k, v) ∈ l := by
  refine ⟨getOfListMember, fun member => ?_⟩
  cases found : (ofList l).get? k with
  | some w => rw [single w (getOfListMember found)]
  | none =>
    rw [ofList, getOverlay, Option.or_eq_none_iff] at found
    exact absurd (List.mem_reverse.mpr member) (findNone.mp found.1 v)

theorem getOfListNone {l : List (κ × α)} {k : κ} :
    (ofList l).get? k = none ↔ ∀ v, (k, v) ∉ l := by
  rw [ofList, getOverlay, Option.or_eq_none_iff, findNone]
  simp [empty, get?, find]

theorem getOfKeys (ks : List κ) (f : κ → α) (k : κ) :
    (ofList (ks.map fun k => (k, f k))).get? k = if k ∈ ks then some (f k) else none := by
  split
  · rename_i member
    refine (getOfList fun w found => ?_).mpr (List.mem_map.mpr ⟨k, member, rfl⟩)
    obtain ⟨k', _, e⟩ := List.mem_map.mp found
    cases e
    rfl
  · rename_i absent
    refine getOfListNone.mpr fun v found => absent ?_
    obtain ⟨k', member, e⟩ := List.mem_map.mp found
    cases e
    exact member

end Ordered
end Table

namespace KeySet

variable {κ : Type} [LT κ] [DecidableEq κ] [StrictTotal κ] [DecidableLT κ]

theorem containsAdd {s : KeySet κ} {k k' : κ} :
    (s.add k).contains k' = true ↔ k = k' ∨ s.contains k' = true := Table.containsInsert

theorem containsAddAll {s : KeySet κ} {ks : List κ} {k : κ} :
    (s.addAll ks).contains k = true ↔ k ∈ ks ∨ s.contains k = true := by
  induction ks generalizing s with
  | nil => simp [addAll]
  | cons first rest ih =>
    rw [addAll, List.foldl_cons, ← addAll, ih, containsAdd, List.mem_cons]
    grind

theorem containsOfList {ks : List κ} {k : κ} : (ofList ks).contains k = true ↔ k ∈ ks := by
  rw [ofList, containsAddAll]
  simp [Table.contains]

omit [DecidableLT κ] in
theorem ext {s t : KeySet κ} (same : ∀ k, s.contains k = true ↔ t.contains k = true) : s = t := by
  refine Table.ext fun k => ?_
  have h := same k
  simp only [Table.contains] at h
  cases left : s.get? k <;> cases right : t.get? k <;> simp_all

end KeySet
end ShaderNet
