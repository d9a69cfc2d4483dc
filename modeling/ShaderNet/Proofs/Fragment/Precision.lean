import ShaderNet.Proofs.Fragment.Faults

/-! Precisions. The reader has a rule for them, but one that looks ahead past the gap, so that it applies
before no word. A definition with a precision in its header is then no function to the reader, who passes
over it as over any statement. It is taken for a mere announcement: the function is not exported, and no
fault is told. -/
namespace ShaderNet.Fragment

/-! Tokens -/

namespace DeclaredParameter

def precise (d : DeclaredParameter) (p : Name) : List Token :=
  d.qualifiers.map .word ++ [.word p, .word d.type, .word d.name]

def misread (d : DeclaredParameter) (p : Name) (unqualified : isQualifier p.text = false) :
    DeclaredParameter :=
  ⟨d.qualifiers, p, d.type, d.qualified, unqualified⟩

end DeclaredParameter

namespace Header

inductive Spot (h : Header) where
  | result
  | parameter (before : List DeclaredParameter) (d : DeclaredParameter) (after : List DeclaredParameter)
      (listed : h.parameters = .list (before ++ d :: after))

def precise (h : Header) (p : Name) : h.Spot → List Token
  | .result => .word p :: h.tokens []
  | .parameter before d after _ =>
    .word h.result :: .word h.name :: .opening ::
      ((before.flatMap fun q => q.tokens ++ [.comma]) ++
        (d.precise p ++ ((after.flatMap fun q => .comma :: q.tokens) ++ [.closing])))

end Header

def Body.tokens (body : Body) : List Token := .openBrace :: (body.marks.map .mark ++ [.closeBrace])

theorem listTokens (before : List DeclaredParameter) (d : DeclaredParameter)
    (after : List DeclaredParameter) :
    (ParameterList.list (before ++ d :: after)).tokens =
      (before.flatMap fun q => q.tokens ++ [.comma]) ++
        (d.tokens ++ after.flatMap fun q => .comma :: q.tokens) := by
  have commas : ∀ q qs, ((q :: qs : List DeclaredParameter).flatMap fun q => .comma :: q.tokens) =
      .comma :: (ParameterList.list (q :: qs)).tokens := fun q qs => rfl
  induction before with
  | nil => rfl
  | cons q before ih =>
    obtain ⟨first, others, some⟩ := List.exists_cons_of_ne_nil (List.append_ne_nil_of_right_ne_nil before
      (List.cons_ne_nil d after))
    rw [some] at ih
    rw [List.cons_append, ParameterList.tokens, some, commas, ih]
    simp

/- After the parameter that is misread one word is left over, where a comma or the end should be. -/
theorem preciseTokens {h : Header} {p : Name} (unqualified : isQualifier p.text = false)
    {before after : List DeclaredParameter} {d : DeclaredParameter}
    (listed : h.parameters = .list (before ++ d :: after)) (ts : List Token) :
    h.precise p (.parameter before d after listed) ++ ts =
      .word h.result :: .word h.name :: .opening ::
        ((ParameterList.list (before ++ [d.misread p unqualified])).tokens ++
          .word d.name :: ((after.flatMap fun q => .comma :: q.tokens) ++ .closing :: ts)) := by
  rw [listTokens]
  simp [Header.precise, DeclaredParameter.precise, DeclaredParameter.misread, DeclaredParameter.tokens]

/-! Functions -/

theorem preciseNoFunction {h : Header} {p : Name} (unqualified : isQualifier p.text = false)
    {spot : h.Spot} {ts : List Token} {cs : List Char} (laid : Laid (h.precise p spot ++ ts) cs) :
    function? (dropGap cs) = none := by
  cases spot with
  | result =>
    obtain ⟨_, rest, first, _, laid⟩ := wordLaid laid
    obtain ⟨_, rest, second, _, laid⟩ := wordLaid laid
    have third : expect? '(' (dropGap rest) = none := expectWord laid (by decide)
    simp [function?, dropPrecisionWords first second, first, second, third]
  | parameter before d after listed =>
    rw [preciseTokens unqualified] at laid
    obtain ⟨_, rest, first, _, laid⟩ := wordLaid laid
    obtain ⟨_, rest, second, _, laid⟩ := wordLaid laid
    obtain ⟨inside, dropped, laid⟩ := markLaid laid
    obtain ⟨ps, rest', read, _, laid⟩ := parametersListed (List.concat_ne_nil _ _) wordStops laid
    have opened : expect? '(' (dropGap rest) = some inside := by
      rw [dropped]
      rfl
    have unclosed : expect? ')' (dropGap rest') = none := expectWord laid (by decide)
    simp [function?, dropPrecisionWords first second, first, second, opened, read, unclosed]

/-! Statements -/

def Token.isPassed : Token → Bool
  | word _ => true
  | mark m => m.char ≠ ';' && m.char ≠ '\x7b' && m.char ≠ '#'
  | directive _ _ => false

theorem statementSeen {c : Char} {cs rest : List Char} (dropped : dropGap cs = c :: rest)
    (passed : c ≠ ';' ∧ c ≠ '\x7b' ∧ c ≠ '#') (n : Nat) : statement? (n + 1) cs = statement? n rest := by
  rw [statement?, dropped]
  split <;> simp_all

theorem statementWord {word : List Char} (continues : ∀ c ∈ word, continuesWord c = true) (n : Nat)
    (rest : List Char) : statement? (n + word.length) (word ++ rest) = statement? n rest := by
  induction word with
  | nil => rfl
  | cons c word ih =>
    obtain ⟨first, others⟩ := List.forall_mem_cons.mp continues
    have passed : c ≠ ';' ∧ c ≠ '\x7b' ∧ c ≠ '#' := by
      refine ⟨?_, ?_, ?_⟩ <;> (rintro rfl; simp [continuesWord] at first)
    rw [List.length_cons, List.cons_append, ← Nat.add_assoc,
      statementSeen (dropWord first _) passed, ih others]

theorem statementToken {t : Token} (passed : t.isPassed = true) {rest : List Char} (ends : t.Ends rest)
    (n : Nat) (gap : List Spacer) :
    statement? (n + t.text.length) (spaced gap ++ (t.text ++ rest)) = statement? n rest := by
  have spacedOut : ∀ (m : Nat) (cs : List Char), statement? m (spaced gap ++ cs) = statement? m cs := by
    intro m cs
    cases m with
    | zero => rfl
    | succ m => rw [statement?, statement?, dropSpaced]
  rw [spacedOut]
  cases t with
  | word name => exact statementWord (nameContinues name) n rest
  | mark m =>
    simp only [Token.isPassed, Bool.and_eq_true, decide_eq_true_eq] at passed
    exact statementSeen (dropSeen m.seen ends) ⟨passed.1.1, passed.1.2, passed.2⟩ n
  | directive text within => cases passed

theorem statementPassed {front ts : List Token} (passed : ∀ t ∈ front, t.isPassed = true)
    {cs : List Char} {n : Nat} (laid : Laid (front ++ ts) cs) (enough : cs.length < n) :
    ∃ rest m, statement? n cs = statement? (m + 1) rest ∧ Laid ts rest := by
  induction front generalizing cs n with
  | nil =>
    obtain ⟨m, rfl⟩ := Nat.exists_eq_succ_of_ne_zero (Nat.ne_of_gt (Nat.zero_lt_of_lt enough))
    exact ⟨cs, m, rfl, laid⟩
  | cons t front ih =>
    obtain ⟨first, others⟩ := List.forall_mem_cons.mp passed
    cases laid with
    | next gap t ends later =>
      simp only [List.length_append] at enough
      obtain ⟨k, rfl⟩ := Nat.exists_eq_add_of_le' (show t.text.length ≤ n by omega)
      rw [statementToken first ends]
      exact ih others later (by omega)

theorem statementLaid {front ts : List Token} (passed : ∀ t ∈ front, t.isPassed = true) {body : Body}
    {cs : List Char} {n : Nat} (laid : Laid (front ++ (body.tokens ++ ts)) cs) (enough : cs.length < n) :
    ∃ rest, statement? n cs = some rest ∧ Laid ts rest := by
  obtain ⟨before, m, read, laid⟩ := statementPassed passed laid enough
  rw [Body.tokens, List.cons_append, List.append_assoc] at laid
  obtain ⟨inside, dropped, laid⟩ := markLaid laid
  have length := laidLength laid
  rw [List.length_append, List.length_map] at length
  obtain ⟨rest, closed, laid⟩ := bodyLaid body.closed laid (Nat.le_of_add_right_le length)
  refine ⟨rest, ?_, laid⟩
  rw [read, statement?, dropped]
  exact closed

theorem parameterPassed (d : DeclaredParameter) : ∀ t ∈ d.tokens, t.isPassed = true := by
  intro t member
  simp only [DeclaredParameter.tokens, List.mem_append, List.mem_map, List.mem_cons,
    List.not_mem_nil, or_false] at member
  rcases member with ⟨q, _, rfl⟩ | rfl | rfl <;> rfl

theorem morePassed (ds : List DeclaredParameter) :
    ∀ t ∈ ds.flatMap fun d => .comma :: d.tokens, t.isPassed = true := by
  intro t member
  obtain ⟨d, _, member⟩ := List.mem_flatMap.mp member
  rcases List.mem_cons.mp member with rfl | member
  · rfl
  · exact parameterPassed d t member

theorem listPassed (l : ParameterList) : ∀ t ∈ l.tokens, t.isPassed = true := by
  match l with
  | .void => exact List.forall_mem_singleton.mpr rfl
  | .list [] => exact List.forall_mem_nil _
  | .list (d :: ds) => exact List.forall_mem_append.mpr ⟨parameterPassed d, morePassed ds⟩

theorem precisePassed {h : Header} {p : Name} (unqualified : isQualifier p.text = false) (spot : h.Spot) :
    ∀ t ∈ h.precise p spot, t.isPassed = true := by
  cases spot with
  | result =>
    simp only [Header.precise, Header.tokens, List.forall_mem_cons, List.forall_mem_append]
    exact ⟨rfl, rfl, rfl, rfl, listPassed h.parameters, rfl, List.forall_mem_nil _⟩
  | parameter before d after listed =>
    rw [← List.append_nil (h.precise p _), preciseTokens unqualified]
    simp only [List.forall_mem_cons, List.forall_mem_append]
    exact ⟨rfl, rfl, rfl, listPassed _, rfl, morePassed after, rfl, List.forall_mem_nil _⟩

/-! Items -/

theorem preciseHead (h : Header) (p : Name) (spot : h.Spot) :
    ∃ name ts, h.precise p spot = .word name :: ts := by
  cases spot with
  | result => exact ⟨p, _, rfl⟩
  | parameter before d after listed => exact ⟨h.result, _, rfl⟩

theorem preciseItem {h : Header} {p : Name} (unqualified : isQualifier p.text = false) {spot : h.Spot}
    {body : Body} {ts : List Token} {cs : List Char}
    (laid : Laid (h.precise p spot ++ (body.tokens ++ ts)) cs) :
    ∃ rest, item? (dropGap cs) = some (.statement, rest) ∧ Laid ts rest := by
  have passed := precisePassed unqualified spot
  obtain ⟨rest, read, after⟩ := statementLaid passed (laidDropped laid) (Nat.lt_succ_self _)
  have none := preciseNoFunction unqualified laid
  obtain ⟨name, us, head⟩ := preciseHead h p spot
  rw [head, List.cons_append] at laid
  refine ⟨rest, ?_, after⟩
  rw [item?.eq_2 _ (wordNoDirective laid), none]
  simp [read]

theorem preciseItems {front later : List Declaration} {h : Header} {p : Name}
    (unqualified : isQualifier p.text = false) {spot : h.Spot} {body : Body} {cs : List Char}
    (laid : Laid (front.flatMap Declaration.tokens ++
      (h.precise p spot ++ (body.tokens ++ later.flatMap Declaration.tokens))) cs) :
    ∃ items others, items? cs = some (items ++ .statement :: others) ∧
      List.Forall₂ Item.Reads items front ∧ List.Forall₂ Item.Reads others later := by
  have length := laidLength laid
  have frontMany := tokensMany front
  have laterMany := tokensMany later
  obtain ⟨name, us, head⟩ := preciseHead h p spot
  simp only [List.length_append, head, List.length_cons] at length
  obtain ⟨n, fuel⟩ : ∃ n, cs.length = n + later.length + 1 + front.length :=
    ⟨cs.length - (later.length + 1 + front.length), by omega⟩
  obtain ⟨items, rest, read, all, laid⟩ := itemsFromLaid laid
  obtain ⟨after, hidden, laid⟩ := preciseItem unqualified laid
  obtain ⟨others, remaining, all'⟩ := itemsFromAll laid (Nat.le_add_left later.length n)
  refine ⟨items, others, ?_, all, all'⟩
  rw [items?, fuel, Nat.add_right_comm, read, itemsFromNext hidden, remaining]
  rfl

/-! Exports -/

/- A statement exports as little as an announcement. -/
theorem passStatement {o : Origin} {f : FunctionForm} (announced : f.isDefined = false)
    (front later : List Item) (pending : Option (List String)) (done : List ExportedFunction) :
    exportItems o pending done (front ++ .statement :: later) =
      exportItems o pending done (front ++ .function f :: later) := by
  induction front generalizing pending done with
  | nil => exact (passAnnounced announced).symm
  | cons item front ih =>
    cases item with
    | directive text => exact ih _ _
    | statement => exact ih _ _
    | function g => simp only [List.cons_append, exportItems, ih]

/- The header is read in the fragment without a precision. -/
theorem headerRead {front later : List Declaration} {h : Header} {body : Body} {items : List Item}
    (reads : List.Forall₂ Item.Reads items (front ++ .definition h body :: later)) :
    ∃ f : FunctionForm, f.Reads h := by
  obtain ⟨item, _, read, _⟩ :=
    List.forall₂_cons_right_iff.mp (List.forall₂_drop_append items front _ reads)
  rcases readsCases read with ⟨_, _, other⟩ | ⟨f, _, _, _, same, _, form⟩ | ⟨_, _, _, other, _⟩
  · cases other
  · cases same
    exact ⟨f, form⟩
  · cases other

theorem exportedAround (front later : List Declaration) (d : Directive) {x : Declaration}
    (silent : x.entries = []) :
    exportedAmong (front ++ .directive d :: x :: later) =
      exportedAmong front ++ ((exportedPair (.directive d, x)).toList ++ exportedAmong later) := by
  induction front with
  | nil =>
    rw [List.nil_append, exportedCons, exportedSilent silent]
    rfl
  | cons first front ih =>
    cases front with
    | nil =>
      rw [List.nil_append] at ih
      rw [List.cons_append, List.nil_append, exportedCons, ih]
      rfl
    | cons second front =>
      rw [List.cons_append] at ih
      rw [List.cons_append, List.cons_append, exportedCons, exportedCons, ih, List.append_assoc]

theorem faultlessMiddle {es es' : List (List String × Header)} {e : List String × Header} :
    Faultless (es ++ e :: es') ↔
      e.2.Exportable ∧ (∀ e' ∈ es ++ es', e'.2.name.text ≠ e.2.name.text) ∧ Faultless (es ++ es') := by
  have moved : (es ++ e :: es').Perm (e :: (es ++ es')) := List.perm_middle
  have names := (moved.map fun e => e.2.name.text).nodup_iff
  constructor
  · intro faultless
    have exportable := List.forall_mem_cons.mp fun x member =>
      faultless.exportable x (moved.mem_iff.mpr member)
    obtain ⟨fresh, distinct⟩ := List.nodup_cons.mp (names.mp faultless.distinct)
    refine ⟨exportable.1, fun x member same => fresh ?_, exportable.2, distinct⟩
    exact List.mem_map.mpr ⟨x, member, same⟩
  · rintro ⟨exportable, fresh, faultless⟩
    refine ⟨fun x member => ?_, names.mpr (List.nodup_cons.mpr ⟨fun taken => ?_, faultless.distinct⟩)⟩
    · rcases List.mem_cons.mp (moved.mem_iff.mp member) with rfl | member
      · exact exportable
      · exact faultless.exportable x member
    · obtain ⟨x, member, same⟩ := List.mem_map.mp taken
      exact fresh x member same

theorem exportedMiddle {es es' : List (List String × Header)} {e : List String × Header} {path : String}
    {functions : List ExportedFunction} :
    (Faultless (es ++ e :: es') ∧ functions = (es ++ e :: es').map (exportedAs path)) ↔
      e.2.Exportable ∧ ∃ before after, before.length = es.length ∧
        functions = before ++ exportedAs path e :: after ∧
        (∀ f ∈ before ++ after, f.name ≠ e.2.name.text) ∧
        Faultless (es ++ es') ∧ before ++ after = (es ++ es').map (exportedAs path) := by
  rw [faultlessMiddle]
  constructor
  · rintro ⟨⟨exportable, fresh, faultless⟩, rfl⟩
    refine ⟨exportable, es.map (exportedAs path), es'.map (exportedAs path), List.length_map _,
      List.map_append, ?_, faultless, List.map_append.symm⟩
    rw [← List.map_append]
    exact List.forall_mem_map.mpr fresh
  · rintro ⟨exportable, before, after, length, rfl, fresh, faultless, same⟩
    rw [same] at fresh
    rw [List.map_append] at same
    obtain ⟨rfl, rfl⟩ := List.append_inj same (length.trans (List.length_map _).symm)
    refine ⟨⟨exportable, fun x member => ?_, faultless⟩, by rw [List.map_append, List.map_cons]⟩
    exact fresh _ (List.mem_map_of_mem member)

theorem exportsLaid {ds : List Declaration} {path source : String}
    (laid : Laid (ds.flatMap Declaration.tokens) source.toList) {functions : List ExportedFunction} :
    exports path source = .ok functions ↔
      Faultless (exportedAmong ds) ∧ functions = (exportedAmong ds).map (exportedAs path) := by
  obtain ⟨items, read, reads⟩ := itemsLaid laid
  rw [exports, read]
  exact itemsExport reads

theorem exportsPrecise {front later : List Declaration} {h : Header} {p : Name}
    (unqualified : isQualifier p.text = false) {spot : h.Spot} {body : Body} {path marked : String}
    (laid : Laid (front.flatMap Declaration.tokens ++
      (h.precise p spot ++ (body.tokens ++ later.flatMap Declaration.tokens))) marked.toList)
    {f : FunctionForm} (reads : f.Reads h) :
    ∃ items, exports path marked = exportItems ⟨path, marked.toList⟩ none [] items ∧
      List.Forall₂ Item.Reads items (front ++ .announcement h :: later) := by
  obtain ⟨items, others, read, all, all'⟩ := preciseItems unqualified laid
  refine ⟨items ++ .function { f with isDefined := false } :: others, ?_, ?_⟩
  · rw [exports, read]
    exact passStatement rfl _ _ _ _
  · exact List.rel_append all (.cons ⟨rfl, reads.result, reads.name, reads.parameters⟩ all')

theorem precisionHides {front later : List Declaration} {d : Directive} {h : Header} {body : Body}
    {p : Name} (spot : h.Spot) {path source marked : String} (asked : "export" ∈ d.entries)
    (known : p.text ∈ precisions)
    (plain : Laid ((front ++ .directive d :: .definition h body :: later).flatMap Declaration.tokens)
      source.toList)
    (precise : Laid ((front ++ [Declaration.directive d]).flatMap Declaration.tokens ++
      (h.precise p spot ++ (body.tokens ++ later.flatMap Declaration.tokens))) marked.toList) :
    (∀ announced : String,
      Laid ((front ++ .directive d :: .announcement h :: later).flatMap Declaration.tokens)
        announced.toList → Alike (exports path marked) (exports path announced)) ∧
    ∀ functions, exports path source = .ok functions ↔
      h.Exportable ∧ ∃ before after, before.length = (exportedAmong front).length ∧
        functions = before ++ h.exported path d.entries :: after ∧
        (∀ f ∈ before ++ after, f.name ≠ h.name.text) ∧ exports path marked = .ok (before ++ after) := by
  have unqualified : isQualifier p.text = false := by
    simp only [precisions, List.mem_cons, List.not_mem_nil, or_false] at known
    rcases known with text | text | text <;> rw [text] <;> rfl
  obtain ⟨f, read⟩ : ∃ f : FunctionForm, f.Reads h := by
    obtain ⟨_, _, reads⟩ := itemsLaid plain
    rw [List.append_cons] at reads
    exact headerRead reads
  obtain ⟨items, same, reads⟩ := @exportsPrecise _ _ _ _ unqualified _ _ path _ precise _ read
  rw [List.append_assoc, List.singleton_append] at reads
  constructor
  · intro announced laid
    obtain ⟨items', read', reads'⟩ := itemsLaid laid
    rw [same, exports, read']
    exact itemsAlike path _ _ reads reads' none []
  · intro functions
    have pair : exportedPair (.directive d, .definition h body) = some (d.entries, h) := if_pos asked
    have with' := exportedAround front later d (show (Declaration.definition h body).entries = [] from rfl)
    have without := exportedAround front later d (show (Declaration.announcement h).entries = [] from rfl)
    rw [pair] at with'
    rw [exportsLaid plain, with', same]
    simp only [itemsExport reads, without]
    exact exportedMiddle

/- Before the result or before the type of a parameter. -/
theorem precisionLoses :
    exports "a" "#pragma editor: export\nfloat f(float x) \x7b return x; \x7d" =
      .ok [⟨"f", [("x", .float)], some .float, ["export"], "a"⟩] ∧
    exports "a" "#pragma editor: export\nhighp float f(float x) \x7b return x; \x7d" = .ok [] ∧
    exports "a" "#pragma editor: export\nfloat f(highp float x) \x7b return x; \x7d" = .ok [] := by
  decide +kernel

def asking : Directive := .editor "editing ".toList " export".toList [" fast".toList]
  (withinLine (by decide +kernel)) (by decide +kernel) (by decide +kernel)

def hue : DeclaredParameter := ⟨[], ⟨"vec4", rfl⟩, ⟨"hue", rfl⟩, List.forall_mem_nil _, rfl⟩

def glow : DeclaredParameter := ⟨[], ⟨"vec2", rfl⟩, ⟨"glow", rfl⟩, List.forall_mem_nil _, rfl⟩

def tint : Header := ⟨⟨"vec4", rfl⟩, ⟨"tint", rfl⟩, .list [hue, glow]⟩

def plainTint : String := "#editing editor: export, fast\nvec4 tint(vec4 hue, vec2 glow)\x7b\x7d"

def preciseTint : String := "#editing editor: export, fast\nvec4 tint(vec4 hue, lowp vec2 glow)\x7b\x7d"

theorem precisionHidesTint :
    ("export" ∈ asking.entries ∧ "lowp" ∈ precisions ∧
      Laid ([.directive asking, .definition tint ⟨[], rfl⟩].flatMap Declaration.tokens)
        plainTint.toList ∧
      Laid ([Declaration.directive asking].flatMap Declaration.tokens ++
        (tint.precise ⟨"lowp", rfl⟩ (.parameter [hue] glow [] rfl) ++
          ((⟨[], rfl⟩ : Body).tokens ++ []))) preciseTint.toList) ∧
    (∀ announced : String,
      Laid ([.directive asking, .announcement tint].flatMap Declaration.tokens) announced.toList →
        Alike (exports "tint.glsl" preciseTint) (exports "tint.glsl" announced)) ∧
    ∀ functions, exports "tint.glsl" plainTint = .ok functions ↔
      tint.Exportable ∧ ∃ before after, before.length = 0 ∧
        functions = before ++ ⟨"tint", [("hue", .vec 4), ("glow", .vec 2)], some (.vec 4),
          ["export", "fast"], "tint.glsl"⟩ :: after ∧
        (∀ f ∈ before ++ after, f.name ≠ "tint") ∧
        exports "tint.glsl" preciseTint = .ok (before ++ after) := by
  have mark {m : Mark} {cs : List Char} (other : m.char ≠ '/') : (Token.mark m).Ends cs :=
    fun slash => absurd slash other
  have word {name : Name} {c : Char} {cs : List Char} (stop : continuesWord c = false) :
      (Token.word name).Ends (c :: cs) := by
    intro d next
    rwa [← Option.some.inj next]
  have typed := Laid.next [.blank ' ' rfl] (.word ⟨"vec2", rfl⟩) (word rfl) <|
    .next [.blank ' ' rfl] (.word ⟨"glow", rfl⟩) (word rfl) <|
    .next [] .closing (mark (by decide)) <| .next [] .openBrace (mark (by decide)) <|
    .next [] .closeBrace (mark (by decide)) <| .last []
  have begun {ts : List Token} {cs : List Char} (rest : Laid ts cs) :=
    Laid.next [] (.directive asking.text asking.line) ⟨'\n', rfl, rfl⟩ <|
    .next [.blank '\n' rfl] (.word ⟨"vec4", rfl⟩) (word rfl) <|
    .next [.blank ' ' rfl] (.word ⟨"tint", rfl⟩) (word rfl) <|
    .next [] .opening (mark (by decide)) <| .next [] (.word ⟨"vec4", rfl⟩) (word rfl) <|
    .next [.blank ' ' rfl] (.word ⟨"hue", rfl⟩) (word rfl) <| .next [] .comma (mark (by decide)) rest
  have plain : Laid ([.directive asking, .definition tint ⟨[], rfl⟩].flatMap Declaration.tokens)
      plainTint.toList := begun typed
  have precise : Laid ([Declaration.directive asking].flatMap Declaration.tokens ++
      (tint.precise ⟨"lowp", rfl⟩ (.parameter [hue] glow [] rfl) ++
        ((⟨[], rfl⟩ : Body).tokens ++ []))) preciseTint.toList :=
    begun (.next [.blank ' ' rfl] (.word ⟨"lowp", rfl⟩) (word rfl) typed)
  have asked : "export" ∈ asking.entries := by decide +kernel
  have known : "lowp" ∈ precisions := by decide
  exact ⟨⟨asked, known, plain, precise⟩,
    @precisionHides [] [] asking tint ⟨[], rfl⟩ ⟨"lowp", rfl⟩ (.parameter [hue] glow [] rfl) "tint.glsl"
      plainTint preciseTint asked known plain precise⟩

end ShaderNet.Fragment
