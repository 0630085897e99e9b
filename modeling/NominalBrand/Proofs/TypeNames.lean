-- The laws of types and their names. A name is read sign by sign with a count of
-- the open brackets, so the end of each argument of a brand can be found in it,
-- and the arguments give back the type. A written type means the type that is
-- left when its aliases are replaced, and each declaration adds a type of its own.
import NominalBrand.TypeCatalogue
import NominalBrand.Proofs.Aliases
import NominalBrand.Proofs.EventLog

namespace NominalBrand

variable {ι σ ε π ρ β : Type}

/-! ## Reading a name -/

/-- What a sign does in a name. -/
inductive Sign where
  | opens
  | closes
  | separates
  | stands

/-- What a sign does, by what it is. -/
def Sign.of (c : Char) : Sign :=
  if c ∈ ['<', '(', '[', '\x7b'] then .opens
  else if c ∈ ['>', ')', ']', '\x7d'] then .closes
  else if c = ',' then .separates
  else .stands

/-- How far a name has been read: how many brackets are open, and whether the last sign may be the
shaft of an arrow. -/
structure Reader where
  depth : Nat
  shaft : Bool

namespace Reader

/-- Reads one sign. Neither a bracket that closes nothing nor a comma outside brackets can be read.
Where arrows are told from brackets, the head of an arrow closes nothing. -/
def read (arrows : Bool) (c : Char) (r : Reader) : Option Reader :=
  match Sign.of c with
  | .opens => some ⟨r.depth + 1, false⟩
  | .closes =>
    if r.shaft ∧ c = '>' then some ⟨r.depth, false⟩
    else if r.depth = 0 then none
    else some ⟨r.depth - 1, false⟩
  | .separates => if r.depth = 0 then none else some ⟨r.depth, false⟩
  | .stands => some ⟨r.depth, arrows ∧ c = '-'⟩

/-- Reads a text from its first sign to its last. -/
def readAll (arrows : Bool) : Reader → List Char → Option Reader
  | r, [] => some r
  | r, c :: text => (r.read arrows c).bind fun r => r.readAll arrows text

/-- The same reader inside more brackets. -/
def inside (r : Reader) (brackets : Nat) : Reader := ⟨r.depth + brackets, r.shaft⟩

variable {arrows : Bool}

theorem readAll_append (r : Reader) (first rest : List Char) :
    r.readAll arrows (first ++ rest) =
      (r.readAll arrows first).bind fun r => r.readAll arrows rest := by
  induction first generalizing r with
  | nil => rfl
  | cons c first ih =>
    simp only [List.cons_append, readAll, Option.bind_assoc]
    congr 1
    exact funext ih

theorem read_inside {r r' : Reader} {c : Char} (h : r.read arrows c = some r') (brackets : Nat) :
    (r.inside brackets).read arrows c = some (r'.inside brackets) := by
  obtain ⟨depth, shaft⟩ := r
  simp only [read, inside] at h ⊢
  cases hsign : Sign.of c with
  | opens =>
    simp only [hsign, Option.some.injEq] at h ⊢
    subst h
    simp only [Nat.add_right_comm]
  | closes =>
    simp only [hsign] at h ⊢
    by_cases hhead : shaft ∧ c = '>'
    · simp only [hhead, and_self, if_true, Option.some.injEq] at h ⊢
      subst h
      rfl
    · by_cases hdepth : depth = 0
      · simp only [hhead, hdepth, if_false, if_true, reduceCtorEq] at h
      · have hmore : depth + brackets ≠ 0 := by omega
        simp only [hhead, hdepth, hmore, if_false, Option.some.injEq] at h ⊢
        subst h
        simp only [Reader.mk.injEq, and_true]
        omega
  | separates =>
    simp only [hsign] at h ⊢
    by_cases hdepth : depth = 0
    · simp only [hdepth, if_true, reduceCtorEq] at h
    · have hmore : depth + brackets ≠ 0 := by omega
      simp only [hdepth, hmore, if_false, Option.some.injEq] at h ⊢
      subst h
      rfl
  | stands =>
    simp only [hsign, Option.some.injEq] at h ⊢
    subst h
    rfl

theorem readAll_inside {r r' : Reader} {text : List Char} (h : r.readAll arrows text = some r')
    (brackets : Nat) : (r.inside brackets).readAll arrows text = some (r'.inside brackets) := by
  induction text generalizing r with
  | nil =>
    obtain rfl : r = r' := Option.some.inj h
    rfl
  | cons c text ih =>
    obtain ⟨next, hc, htext⟩ := Option.bind_eq_some_iff.mp h
    simp only [readAll, read_inside hc, Option.bind_some]
    exact ih htext

end Reader

/-- A text that is read with no bracket open before it and none after it, and without a comma
outside brackets. -/
def StandsAlone (arrows : Bool) (text : List Char) : Prop :=
  Reader.readAll arrows ⟨0, false⟩ text = some ⟨0, false⟩

namespace StandsAlone

variable {arrows : Bool} {text text' rest rest' : List Char}

/-- An argument is read inside the brackets of its brand as it is read by itself. -/
theorem readAll_inside (h : StandsAlone arrows text) :
    Reader.readAll arrows ⟨1, false⟩ text = some ⟨1, false⟩ :=
  Reader.readAll_inside h 1

theorem readAll_append_inside (h : StandsAlone arrows text) :
    Reader.readAll arrows ⟨1, false⟩ (text ++ rest) = Reader.readAll arrows ⟨1, false⟩ rest := by
  rw [Reader.readAll_append, h.readAll_inside, Option.bind_some]

/-- A text that stands alone does not go on after a comma. -/
theorem not_append (h : StandsAlone arrows text) : ¬ StandsAlone arrows (text ++ ',' :: rest) := by
  intro h'
  unfold StandsAlone at h h'
  rw [Reader.readAll_append, h] at h'
  cases h'

/-- The end of an argument is found in one way: after it comes a comma or nothing. -/
theorem append_inj (h : StandsAlone arrows text) (h' : StandsAlone arrows text')
    (hrest : ∀ c ∈ rest.head?, c = ',') (hrest' : ∀ c ∈ rest'.head?, c = ',')
    (heq : text ++ rest = text' ++ rest') : text = text' ∧ rest = rest' := by
  rcases List.append_eq_append_iff.mp heq with ⟨more, rfl, rfl⟩ | ⟨more, rfl, rfl⟩
  · cases more with
    | nil => exact ⟨(List.append_nil _).symm, rfl⟩
    | cons c more =>
      obtain rfl := hrest c rfl
      exact absurd h' h.not_append
  · cases more with
    | nil => exact ⟨List.append_nil _, rfl⟩
    | cons c more =>
      obtain rfl := hrest' c rfl
      exact absurd h h'.not_append

end StandsAlone

-- The head of an arrow is no bracket to a reader who knows arrows.
example : StandsAlone true "fn(u8) -> [u8; 2]".toList := rfl

/-! ## Names of brands -/

namespace TypeExpr

/-- The first signs in the name of a brand. -/
def opening : List Char := "branded::brand::Brand<".toList

/-- What comes after the tag among the arguments of a brand. -/
def fieldArgument (field : TypeExpr) : List Char :=
  if field = defaultField then [] else ',' :: ' ' :: field.name.toList

/-- What stands between the brackets in the name of a brand. -/
def arguments (base tag field : TypeExpr) : List Char :=
  base.name.toList ++ ',' :: ' ' :: (tag.name.toList ++ field.fieldArgument)

/-- A path in the form of a brand's name, with whatever arguments. -/
def IsBrandName (arrows : Bool) (path : String) : Prop :=
  ∃ arguments, path.toList = opening ++ arguments ++ ['>'] ∧
    Reader.readAll arrows ⟨1, false⟩ arguments = some ⟨1, false⟩

/-- The named types in a type have names that stand alone, none of them in the form of a brand's
name. -/
def WellNamed (arrows : Bool) : TypeExpr → Prop
  | .named path => StandsAlone arrows path.toList ∧ ¬ IsBrandName arrows path
  | .brand base tag field =>
    base.WellNamed arrows ∧ tag.WellNamed arrows ∧ field.WellNamed arrows

theorem name_eq (base tag field : TypeExpr) : (TypeExpr.brand base tag field).name =
    "branded::brand::Brand<" ++ base.name ++ ", " ++ tag.name ++
      (if field = defaultField then "" else ", " ++ field.name) ++ ">" :=
  rfl

theorem name_brand (base tag field : TypeExpr) :
    (TypeExpr.brand base tag field).name.toList = opening ++ arguments base tag field ++ ['>'] := by
  have hseparator : ", ".toList = [',', ' '] := rfl
  have hclosing : ">".toList = ['>'] := rfl
  have hempty : "".toList = [] := rfl
  rw [name_eq]
  unfold opening arguments fieldArgument
  split
  · simp only [String.toList_append, hseparator, hclosing, hempty, List.append_assoc,
      List.nil_append, List.cons_append]
  · simp only [String.toList_append, hseparator, hclosing, List.append_assoc, List.nil_append,
      List.cons_append]

section
variable {arrows : Bool} {path : String} {base tag field base' tag' field' T T' : TypeExpr}

theorem IsBrandName.standsAlone (h : IsBrandName arrows path) : StandsAlone arrows path.toList := by
  obtain ⟨arguments, hpath, harguments⟩ := h
  have hopening : Reader.readAll arrows ⟨0, false⟩ opening = some ⟨1, false⟩ := by
    cases arrows <;> rfl
  unfold StandsAlone
  rw [hpath, Reader.readAll_append, Reader.readAll_append, hopening, Option.bind_some, harguments]
  rfl

theorem readAll_arguments (hbase : StandsAlone arrows base.name.toList)
    (htag : StandsAlone arrows tag.name.toList) (hfield : StandsAlone arrows field.name.toList) :
    Reader.readAll arrows ⟨1, false⟩ (arguments base tag field) = some ⟨1, false⟩ := by
  have hseparator : ∀ rest, Reader.readAll arrows ⟨1, false⟩ (',' :: ' ' :: rest) =
      Reader.readAll arrows ⟨1, false⟩ rest := by
    intro rest
    cases arrows <;> rfl
  unfold arguments fieldArgument
  rw [hbase.readAll_append_inside, hseparator, htag.readAll_append_inside]
  split
  · rfl
  · rw [hseparator, hfield.readAll_inside]

/-- The name of a type whose named types are well named stands alone. -/
theorem WellNamed.standsAlone (h : T.WellNamed arrows) : StandsAlone arrows T.name.toList := by
  induction T with
  | named path => exact h.1
  | brand base tag field hbase htag hfield =>
    obtain ⟨hb, ht, hf⟩ := h
    exact IsBrandName.standsAlone ⟨_, name_brand base tag field,
      readAll_arguments (hbase hb) (htag ht) (hfield hf)⟩

theorem WellNamed.isBrandName (h : (TypeExpr.brand base tag field).WellNamed arrows) :
    IsBrandName arrows (TypeExpr.brand base tag field).name :=
  ⟨_, name_brand base tag field,
    readAll_arguments h.1.standsAlone h.2.1.standsAlone h.2.2.standsAlone⟩

theorem not_isBrandName (h : path.toList.getLast? ≠ some '>') : ¬ IsBrandName arrows path := by
  rintro ⟨arguments, hpath, _⟩
  rw [hpath, List.getLast?_concat] at h
  exact h rfl

theorem wellNamed_named (h : StandsAlone arrows path.toList)
    (hlast : path.toList.getLast? ≠ some '>') : (named path).WellNamed arrows :=
  ⟨h, not_isBrandName hlast⟩

theorem wellNamed_defaultField : defaultField.WellNamed arrows := by
  refine wellNamed_named ?_ (by decide)
  unfold StandsAlone
  cases arrows <;> rfl

theorem head?_fieldArgument (field : TypeExpr) : ∀ c ∈ field.fieldArgument.head?, c = ',' := by
  unfold fieldArgument
  split
  · intro c hc
    cases hc
  · rintro c ⟨rfl⟩
    rfl

/-- Two brands with one name have bases, tags and fields with one name, where the field is written
in both or in neither. -/
theorem WellNamed.arguments_inj (h : (TypeExpr.brand base tag field).WellNamed arrows)
    (h' : (TypeExpr.brand base' tag' field').WellNamed arrows)
    (hname : (TypeExpr.brand base tag field).name = (TypeExpr.brand base' tag' field').name) :
    base.name = base'.name ∧ tag.name = tag'.name ∧ field.fieldArgument = field'.fieldArgument := by
  have htexts := congrArg String.toList hname
  rw [name_brand, name_brand] at htexts
  have harguments := List.append_cancel_left (List.append_cancel_right htexts)
  obtain ⟨hbase, hrest⟩ :=
    h.1.standsAlone.append_inj h'.1.standsAlone (by simp) (by simp) harguments
  have hafter := (List.cons.inj (List.cons.inj hrest).2).2
  obtain ⟨htag, hfield⟩ := h.2.1.standsAlone.append_inj h'.2.1.standsAlone
    (head?_fieldArgument field) (head?_fieldArgument field') hafter
  exact ⟨String.toList_inj.mp hbase, String.toList_inj.mp htag, hfield⟩

/-- Well-named types with one name are one type. -/
theorem WellNamed.eq_of_name_eq (h : T.WellNamed arrows) (h' : T'.WellNamed arrows)
    (hname : T.name = T'.name) : T = T' := by
  induction T generalizing T' with
  | named path =>
    cases T' with
    | named path' => exact congrArg TypeExpr.named hname
    | brand base' tag' field' =>
      obtain rfl : path = (TypeExpr.brand base' tag' field').name := hname
      exact absurd h'.isBrandName h.2
  | brand base tag field hbase htag hfield =>
    cases T' with
    | named path' =>
      obtain rfl : (TypeExpr.brand base tag field).name = path' := hname
      exact absurd h.isBrandName h'.2
    | brand base' tag' field' =>
      obtain ⟨hb, ht, hf⟩ := h.arguments_inj h' hname
      obtain rfl := hbase h.1 h'.1 hb
      obtain rfl := htag h.2.1 h'.2.1 ht
      unfold fieldArgument at hf
      by_cases hdefault : field = defaultField <;> by_cases hdefault' : field' = defaultField
      · rw [hdefault, hdefault']
      · simp [hdefault, hdefault'] at hf
      · simp [hdefault, hdefault'] at hf
      · rw [if_neg hdefault, if_neg hdefault'] at hf
        have htext := (List.cons.inj (List.cons.inj hf).2).2
        obtain rfl := hfield h.2.2 h'.2.2 (String.toList_inj.mp htext)
        rfl

/-- A name has two arguments only where the field is the default one. -/
theorem WellNamed.two_arguments_iff (h : (TypeExpr.brand base tag field).WellNamed arrows) :
    (∃ base' tag' : TypeExpr, base'.WellNamed arrows ∧ tag'.WellNamed arrows ∧
      (TypeExpr.brand base tag field).name =
        "branded::brand::Brand<" ++ base'.name ++ ", " ++ tag'.name ++ ">") ↔
      field = defaultField := by
  have htwo : ∀ base' tag', (TypeExpr.brand base' tag' defaultField).name =
      "branded::brand::Brand<" ++ base'.name ++ ", " ++ tag'.name ++ ">" := by
    intro base' tag'
    rw [name_eq, if_pos rfl, String.append_empty]
  constructor
  · rintro ⟨base', tag', hbase, htag, hname⟩
    rw [← htwo] at hname
    have hwell : (TypeExpr.brand base' tag' defaultField).WellNamed arrows :=
      ⟨hbase, htag, wellNamed_defaultField⟩
    exact (TypeExpr.brand.inj (h.eq_of_name_eq hwell hname)).2.2
  · rintro rfl
    exact ⟨base, tag, h.1, h.2.1, htwo base tag⟩

end

end TypeExpr

/-! ## Bases of bases -/

namespace TypeExpr

/-- The type that a number of brands further in is the base. -/
def baseAfter : Nat → TypeExpr → Option TypeExpr
  | 0, T => some T
  | n + 1, T => T.base?.bind (baseAfter n)

theorem depth_of_baseAfter {n : Nat} {T B : TypeExpr} (h : T.baseAfter n = some B) :
    T.depth = B.depth + n := by
  induction n generalizing T with
  | zero =>
    obtain rfl : T = B := Option.some.inj h
    rfl
  | succ n ih =>
    obtain ⟨next, hbase, hafter⟩ := Option.bind_eq_some_iff.mp h
    rw [depth_of_base? hbase, ih hafter, Nat.add_assoc]

end TypeExpr

/-! ## Written types -/

/-- What is meant by the base, the tag and the field of a brand. -/
structure Parts where
  base : Option TypeExpr
  tag : Option TypeExpr
  field : Option TypeExpr

/-- The parts of a type, if it is a brand. -/
def TypeExpr.parts? : TypeExpr → Option Parts
  | .named _ => none
  | .brand base tag field => some ⟨some base, some tag, some field⟩

/-- A brand is one type with another if it has the same parts. -/
theorem TypeExpr.eq_iff_parts? {T T' : TypeExpr} (h : T.parts? ≠ none) :
    T = T' ↔ T.parts? = T'.parts? := by
  constructor
  · rintro rfl
    rfl
  · intro hparts
    cases T with
    | named path => exact absurd rfl h
    | brand base tag field =>
      cases T' with
      | named path' => cases hparts
      | brand base' tag' field' =>
        obtain ⟨hbase, htag, hfield⟩ := Parts.mk.inj (Option.some.inj hparts)
        rw [Option.some.inj hbase, Option.some.inj htag, Option.some.inj hfield]

/-- What is meant by the parts of a brand as it is written; an unwritten field is the default
one. -/
def TypeTerm.partsOf (declarations : List Declaration) (base tag : TypeTerm)
    (field : Option TypeTerm) : Parts where
  base := base.expand declarations
  tag := tag.expand declarations
  field := (field.getD (.named "branded::brand::TypeField")).expand declarations

/-- What is meant by the parts of an alias: those of its declaration. -/
def Declaration.parts? (declarations : List Declaration) (name : String) : Option Parts :=
  (find? declarations name).map fun d =>
    TypeTerm.partsOf declarations d.base (.named d.tag) d.field

/-- What is meant by the parts of a written type, if it is a brand. -/
def TypeTerm.parts? (declarations : List Declaration) : TypeTerm → Option Parts
  | .named _ => none
  | .brand base tag field => some (partsOf declarations base tag field)
  | .declared name => Declaration.parts? declarations name

section
variable {declarations : List Declaration} {T : TypeExpr}

theorem TypeTerm.expand_brand {base tag : TypeTerm} {field : Option TypeTerm}
    (h : (TypeTerm.brand base tag field).expand declarations = some T) :
    some (partsOf declarations base tag field) = T.parts? := by
  have hfield : expandField (Declaration.meaning declarations declarations.length) field =
      (field.getD (.named "branded::brand::TypeField")).expand declarations := by
    cases field <;> simp only [expandField, Option.getD, expand, expandWith, TypeExpr.defaultField]
  unfold expand at h
  rw [expandWith, hfield] at h
  obtain ⟨B, hb, h⟩ := Option.bind_eq_some_iff.mp h
  obtain ⟨G, hg, h⟩ := Option.bind_eq_some_iff.mp h
  obtain ⟨F, hf, h⟩ := Option.bind_eq_some_iff.mp h
  obtain rfl := Option.some.inj h
  have hbase : base.expand declarations = some B := hb
  have htag : tag.expand declarations = some G := hg
  simp only [partsOf, hbase, htag, hf, TypeExpr.parts?]

/-- The parts of a type are what its written parts mean. -/
theorem TypeTerm.expand_parts {t : TypeTerm} (h : t.expand declarations = some T) :
    t.parts? declarations = T.parts? := by
  cases t with
  | named path =>
    rw [expand, expandWith] at h
    obtain rfl := Option.some.inj h
    rfl
  | brand base tag field => exact expand_brand h
  | declared name =>
    rw [expand_declared] at h
    obtain ⟨d, hd, hterm⟩ := Option.bind_eq_some_iff.mp h
    rw [parts?, Declaration.parts?, hd]
    exact expand_brand hterm

end

namespace Declaration

/-- The type that the declaration at a place declares. -/
def typeAt? (declarations : List Declaration) (i : Nat) : Option TypeExpr :=
  declarations[i]?.bind fun d => d.term.expand declarations

variable {declarations : List Declaration} {T : TypeExpr}

/-- Declarations at two places declare two types, whatever their bases and fields. -/
theorem typeAt?_inj (htags : (declarations.map tag).Nodup) {i j : Nat}
    (hi : typeAt? declarations i = some T) (hj : typeAt? declarations j = some T) : i = j := by
  have htag : ∀ {k}, typeAt? declarations k = some T →
      (declarations.map tag)[k]?.map TypeExpr.named = T.parts?.bind Parts.tag := by
    intro k hk
    obtain ⟨d, hd, hterm⟩ := Option.bind_eq_some_iff.mp hk
    rw [List.getElem?_map, hd, ← TypeTerm.expand_brand hterm]
    simp only [Option.map_some, Option.bind_some, TypeTerm.partsOf, TypeTerm.expand,
      TypeTerm.expandWith]
  have hsame : (declarations.map tag)[i]? = (declarations.map tag)[j]? :=
    Option.map_injective (fun _ _ h => TypeExpr.named.inj h) ((htag hi).trans (htag hj).symm)
  obtain ⟨d, hd, _⟩ := Option.bind_eq_some_iff.mp hi
  obtain ⟨hlength, _⟩ := List.getElem?_eq_some_iff.mp hd
  exact (List.getElem?_inj (by rwa [List.length_map]) htags).mp hsame

/-- An alias means the type of a declaration of its name. -/
theorem typeAt?_of_alias {name : String}
    (h : (TypeTerm.declared name).expand declarations = some T) :
    ∃ i d, declarations[i]? = some d ∧ d.name = name ∧ typeAt? declarations i = some T := by
  rw [TypeTerm.expand_declared] at h
  obtain ⟨d, hd, hterm⟩ := Option.bind_eq_some_iff.mp h
  obtain ⟨hmem, hname⟩ := of_find? hd
  obtain ⟨i, hi⟩ := List.mem_iff_getElem?.mp hmem
  refine ⟨i, d, hi, hname, ?_⟩
  rw [typeAt?, hi]
  exact hterm

end Declaration

/-! ## The law -/

/-- The last event of a check that came back names the brand that was checked. -/
theorem Brander.last_event (R : Roster ι σ ε π ρ β) (m : Mark) (x : Validator ι) (v : β)
    (w : World σ) {accepted : Bool}
    (h : ((Brander.validated m x).check R true v w).1.returned? = some accepted) :
    ((Brander.validated m x).check R true v w).2.events.getLast? =
      some ⟨(m.brandOf (x.base R)).name, accepted⟩ := by
  rw [check_eq] at h ⊢
  simp only [Course.logged, course] at h ⊢
  have hevent : CallTree.eventOf (m.brandOf (x.base R)).name
      ((x.routine R v).course w.state).outcome.verdict =
        [⟨(m.brandOf (x.base R)).name, accepted⟩] := by
    cases ho : ((x.routine R v).course w.state).outcome with
    | accepted a | rejected e =>
      rw [ho] at h
      cases h
      rfl
    | panicked p =>
      rw [ho] at h
      cases h
  simp only [if_true, CallTree.completions, hevent, List.append_nil]
  rw [← List.append_assoc, List.getLast?_concat]

/-- A written type means a brand that is known by what its base, tag and field mean, also through
aliases; an alias means what its declaration writes, in whatever order the declarations stand. Each
declaration declares a type that no other declares, and no type is a base of its own.
Well-named types are told apart by their names, in which the field is missing where it is the
default one, and the event of a check has the name of the brand. -/
theorem a_brand_is_known_by_its_parts_and_by_its_name (arrows : Bool)
    {declarations : List Declaration} (htags : (declarations.map Declaration.tag).Nodup)
    (R : Roster ι σ ε π ρ β) :
    (∀ (t t' : TypeTerm) (T T' : TypeExpr), t.expand declarations = some T →
      t'.expand declarations = some T' → t.parts? declarations ≠ none →
        (T = T' ↔ t.parts? declarations = t'.parts? declarations)) ∧
    (∀ name, (TypeTerm.declared name).expand declarations =
      (Declaration.find? declarations name).bind fun d => d.term.expand declarations) ∧
    (∀ declarations', declarations.Perm declarations' →
      (declarations.map Declaration.name).Nodup →
        ∀ t : TypeTerm, t.expand declarations' = t.expand declarations) ∧
    (∀ i j T, Declaration.typeAt? declarations i = some T →
      Declaration.typeAt? declarations j = some T → i = j) ∧
    (∀ (name name' : String) (T : TypeExpr), (TypeTerm.declared name).expand declarations = some T →
      (TypeTerm.declared name').expand declarations = some T → name = name') ∧
    (∀ (T : TypeExpr) n, T.baseAfter (n + 1) ≠ some T) ∧
    (∀ T T' : TypeExpr, T.WellNamed arrows → T'.WellNamed arrows → (T.name = T'.name ↔ T = T')) ∧
    (∀ base tag field : TypeExpr, (TypeExpr.brand base tag field).WellNamed arrows →
      ((∃ base' tag' : TypeExpr, base'.WellNamed arrows ∧ tag'.WellNamed arrows ∧
        (TypeExpr.brand base tag field).name =
          "branded::brand::Brand<" ++ base'.name ++ ", " ++ tag'.name ++ ">") ↔
        field = TypeExpr.defaultField)) ∧
    ∀ (m : Mark) (x : Validator ι) (v : β) (w : World σ) (accepted : Bool),
      ((Brander.validated m x).check R true v w).1.returned? = some accepted →
        ((Brander.validated m x).check R true v w).2.events.getLast? =
          some ⟨(m.brandOf (x.base R)).name, accepted⟩ := by
  refine ⟨fun t t' T T' ht ht' hbrand => ?parts, TypeTerm.expand_declared declarations,
    fun declarations' h hnames => TypeTerm.expand_perm h hnames,
    fun i j T hi hj => Declaration.typeAt?_inj htags hi hj,
    fun name name' T hn hn' => ?aliases, fun T n h => ?cycle, fun T T' h h' => ?names,
    fun base tag field h => h.two_arguments_iff, fun m x v w _ h => Brander.last_event R m x v w h⟩
  case parts =>
    rw [TypeTerm.expand_parts ht] at hbrand ⊢
    rw [TypeTerm.expand_parts ht']
    exact TypeExpr.eq_iff_parts? hbrand
  case aliases =>
    obtain ⟨i, d, hd, hname, hi⟩ := Declaration.typeAt?_of_alias hn
    obtain ⟨j, e, he, hname', hj⟩ := Declaration.typeAt?_of_alias hn'
    obtain rfl := Declaration.typeAt?_inj htags hi hj
    obtain rfl : d = e := Option.some.inj (hd.symm.trans he)
    exact hname.symm.trans hname'
  case cycle =>
    have hdepth := TypeExpr.depth_of_baseAfter h
    omega
  case names =>
    exact ⟨h.eq_of_name_eq h', congrArg TypeExpr.name⟩

/-- Users and posts are two brands of one number. A brand over the alias of the users is the brand
over their type written out, and the event of a check has its name. -/
theorem a_user_is_no_post :
    let user : TypeExpr := (TypeCatalogue.markOf "UserTag").brandOf (.named "u64")
    let post : TypeExpr := (TypeCatalogue.markOf "PostTag").brandOf (.named "u64")
    let tag : TypeTerm := .named (TypeCatalogue.localPath "UserTag")
    let admin : Mark := ⟨.named "Admin", .defaultField⟩
    let R : Roster Unit Unit Unit Unit Unit Nat :=
      { base _ := user
        judge _ _ := .finish (.accepted ())
        alarm := id
        duplicate i s := (i, s) }
    (TypeCatalogue.declarations.map Declaration.tag).Nodup ∧
      TypeCatalogue.expand? (.declared "UserId") = some user ∧
      TypeCatalogue.expand? (.declared "PostId") = some post ∧
      user.name ≠ post.name ∧
      (∀ T T', TypeCatalogue.expand? (.brand (.declared "UserId") (.named "Admin") none) = some T →
        TypeCatalogue.expand? (.brand (.brand (.named "u64") tag none) (.named "Admin") none) =
            some T' → T = T') ∧
      ((Brander.validated admin (.function ())).check R true 5 ⟨(), []⟩).2.events.getLast? =
        some ⟨(admin.brandOf user).name, true⟩ := by
  intro user post tag admin R
  have htags : (TypeCatalogue.declarations.map Declaration.tag).Nodup := by decide +kernel
  obtain ⟨hparts, _, _, _, haliases, _, hnames, _, hevent⟩ :=
    a_brand_is_known_by_its_parts_and_by_its_name true htags R
  have huser : TypeCatalogue.expand? (.declared "UserId") = some user := by rfl
  have hpost : TypeCatalogue.expand? (.declared "PostId") = some post := by rfl
  have hnumber : (TypeExpr.named "u64").WellNamed true :=
    TypeExpr.wellNamed_named rfl (by decide)
  have hwell : user.WellNamed true :=
    ⟨hnumber, TypeExpr.wellNamed_named rfl (by decide), TypeExpr.wellNamed_defaultField⟩
  have hwell' : post.WellNamed true :=
    ⟨hnumber, TypeExpr.wellNamed_named rfl (by decide), TypeExpr.wellNamed_defaultField⟩
  refine ⟨htags, huser, hpost, fun hname => ?_, fun T T' hT hT' => ?_, ?_⟩
  · rw [hnames user post hwell hwell'] at hname
    rw [← hname] at hpost
    exact absurd (haliases _ _ _ huser hpost) (by decide)
  · exact (hparts _ _ T T' hT hT' (by rintro ⟨⟩)).mpr rfl
  · exact hevent admin (.function ()) 5 ⟨(), []⟩ true rfl

end NominalBrand
