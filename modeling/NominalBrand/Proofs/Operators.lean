-- The laws of the operators on brands. A base may contradict itself in every
-- method, so nothing here rests on what a base says. A brand puts each operator
-- to its base as one call, of equality or of one of the two orders, and reads
-- the answer off that call; the five other methods of the base are never heard.
import NominalBrand.Comparison

namespace NominalBrand

variable {β μ : Type}

/-! ## Bases that log every call -/

/-- What the methods of a base answer. None of them has to fit another. -/
structure Methods (β : Type) where
  eq : β → β → Bool
  ne : β → β → Bool
  partialCmp : β → β → Option Ordering
  lt : β → β → Bool
  le : β → β → Bool
  gt : β → β → Bool
  ge : β → β → Bool
  cmp : β → β → Ordering

namespace Methods

/-- The comparisons of the base, in which each method logs its own name. -/
def comparison (m : Methods β) : Comparison β where
  eq a b := .byCall .eq (m.eq a b)
  ne a b := .byCall .ne (m.ne a b)
  partialCmp a b := .byCall .partialCmp (m.partialCmp a b)
  lt a b := .byCall .lt (m.lt a b)
  le a b := .byCall .le (m.le a b)
  gt a b := .byCall .gt (m.gt a b)
  ge a b := .byCall .ge (m.ge a b)

/-- The total order of the base, which logs its name too. -/
def ranking (m : Methods β) : Ranking β := fun a b => .byCall .cmp (m.cmp a b)

/-- What an operator answers about the brands of two values. -/
def brandReply (m : Methods β) (a b : β) : Operator → Reply
  | .eq => .truth (m.eq a b)
  | .ne => .truth (!m.eq a b)
  | .lt => .truth (decide (m.partialCmp a b = some .lt))
  | .le => .truth (decide (m.partialCmp a b = some .lt ∨ m.partialCmp a b = some .eq))
  | .gt => .truth (decide (m.partialCmp a b = some .gt))
  | .ge => .truth (decide (m.partialCmp a b = some .gt ∨ m.partialCmp a b = some .eq))
  | .partialCmp => .ordering (m.partialCmp a b)
  | .cmp => .ordering (some (m.cmp a b))

end Methods

/-- The one method that an operator on brands calls. -/
def Operator.consults : Operator → BaseCall
  | .eq | .ne => .eq
  | .lt | .le | .gt | .ge | .partialCmp => .partialCmp
  | .cmp => .cmp

/-! ## One comparison -/

theorem isBelow_eq (o : Option Ordering) : isBelow o = decide (o = some .lt) :=
  Bool.beq_eq_decide_eq _ _

theorem isAtMost_eq (o : Option Ordering) :
    isAtMost o = decide (o = some .lt ∨ o = some .eq) := by
  unfold isAtMost
  rw [Bool.beq_eq_decide_eq, Bool.beq_eq_decide_eq, Bool.decide_or]

theorem isAbove_eq (o : Option Ordering) : isAbove o = decide (o = some .gt) :=
  Bool.beq_eq_decide_eq _ _

theorem isAtLeast_eq (o : Option Ordering) :
    isAtLeast o = decide (o = some .gt ∨ o = some .eq) := by
  unfold isAtLeast
  rw [Bool.beq_eq_decide_eq, Bool.beq_eq_decide_eq, Bool.decide_or]

/-- An operator on brands makes its one call and answers from it. -/
theorem Methods.ask_brand (m : Methods β) (mark : μ) (x y : Brand mark β) (op : Operator) :
    op.ask (m.comparison.brand mark) (some (m.ranking.brand mark)) x y =
      ⟨m.brandReply x.base y.base op, [op.consults]⟩ := by
  cases op with
  | eq | ne | partialCmp | cmp => rfl
  | lt => simp only [brandReply, ← isBelow_eq]; rfl
  | le => simp only [brandReply, ← isAtMost_eq]; rfl
  | gt => simp only [brandReply, ← isAbove_eq]; rfl
  | ge => simp only [brandReply, ← isAtLeast_eq]; rfl

/-- Values without an order are neither below nor above each other, nor level. -/
theorem Methods.brandReply_of_no_order {m : Methods β} {a b : β} (h : m.partialCmp a b = none)
    {op : Operator} (hop : op ∈ [Operator.lt, .le, .gt, .ge]) :
    m.brandReply a b op = .truth false := by
  cases op with
  | lt | le | gt | ge => simp [brandReply, h]
  | eq | ne | partialCmp | cmp => simp at hop

/-- The brands and the base answer every operator alike when the base's five other methods say
what its equality and order say, and in no other case. -/
theorem Methods.ask_brand_eq_ask_iff (m : Methods β) (mark : μ) :
    (∀ (a b : β) (op : Operator),
      (op.ask (m.comparison.brand mark) (some (m.ranking.brand mark)) ⟨a⟩ ⟨b⟩).value =
        (op.ask m.comparison (some m.ranking) a b).value) ↔ m.comparison.Agrees := by
  constructor
  · intro h a b
    refine ⟨?ne, ?lt, ?le, ?gt, ?ge⟩
    case ne => exact (Reply.truth.inj (h a b .ne)).symm
    case lt => exact (Reply.truth.inj (h a b .lt)).symm
    case le => exact (Reply.truth.inj (h a b .le)).symm
    case gt => exact (Reply.truth.inj (h a b .gt)).symm
    case ge => exact (Reply.truth.inj (h a b .ge)).symm
  · intro h a b op
    obtain ⟨hne, hlt, hle, hgt, hge⟩ := h a b
    cases op with
    | eq | partialCmp | cmp => rfl
    | ne => exact congrArg Reply.truth hne.symm
    | lt => exact congrArg Reply.truth hlt.symm
    | le => exact congrArg Reply.truth hle.symm
    | gt => exact congrArg Reply.truth hgt.symm
    | ge => exact congrArg Reply.truth hge.symm

/-! ## Comparisons in turn -/

/-- A comparison to make: an operator, and the values on its two sides. -/
structure Question (β : Type) where
  op : Operator
  left : β
  right : β

/-- Makes comparisons one after the other. -/
def Question.askAll (c : Comparison β) (r : Option (Ranking β)) (questions : List (Question β)) :
    Logged (List Reply) :=
  Logged.each (fun q => q.op.ask c r q.left q.right) questions

/-- Operators that are asked about the same two values are such comparisons. -/
theorem Operator.askAll_eq (c : Comparison β) (r : Option (Ranking β)) (a b : β)
    (ops : List Operator) :
    askAll c r a b ops = Question.askAll c r (ops.map fun op => ⟨op, a, b⟩) := by
  induction ops with
  | nil => rfl
  | cons op ops ih =>
    unfold askAll Question.askAll at ih ⊢
    simp only [Logged.each, List.map_cons, ih]

section
variable (m : Methods β) (mark : μ) (questions : List (Question (Brand mark β)))

theorem Methods.value_askAll_brand :
    (Question.askAll (m.comparison.brand mark) (some (m.ranking.brand mark)) questions).value =
      questions.map fun q => m.brandReply q.left.base q.right.base q.op := by
  unfold Question.askAll
  rw [Logged.value_each]
  simp only [m.ask_brand mark]

/-- Each comparison of a sequence adds its one call. -/
theorem Methods.calls_askAll_brand :
    (Question.askAll (m.comparison.brand mark) (some (m.ranking.brand mark)) questions).calls =
      questions.map fun q => q.op.consults := by
  unfold Question.askAll
  rw [Logged.calls_each]
  simp only [m.ask_brand mark]
  exact List.map_eq_flatMap.symm

end

/-- The same of operators that are all asked about one pair of brands. -/
theorem Methods.askAll_brand (m : Methods β) (mark : μ) (x y : Brand mark β)
    (ops : List Operator) :
    Operator.askAll (m.comparison.brand mark) (some (m.ranking.brand mark)) x y ops =
      ⟨ops.map (m.brandReply x.base y.base), ops.map Operator.consults⟩ := by
  let questions : List (Question (Brand mark β)) := ops.map fun op => ⟨op, x, y⟩
  have hvalue := m.value_askAll_brand mark questions
  have hcalls := m.calls_askAll_brand mark questions
  rw [List.map_map] at hvalue hcalls
  rw [Operator.askAll_eq]
  exact congr (congrArg Logged.mk hvalue) hcalls

theorem Operator.consults_mem (op : Operator) : op.consults ∈ [BaseCall.eq, .partialCmp, .cmp] := by
  cases op <;> simp [consults]

/-! ## The law -/

/-- Whatever the methods of a base say, comparisons of its brands are answered from equality, the
partial order and the total order, with one call for each comparison. The five other methods are
never called, and changing them changes nothing. The brands agree with the base about all values
when these five say what equality and the partial order say, and only then. -/
theorem brands_ask_for_equality_and_order_alone (m : Methods β) (mark : μ) :
    (∀ questions : List (Question (Brand mark β)),
      let asked :=
        Question.askAll (m.comparison.brand mark) (some (m.ranking.brand mark)) questions
      asked.value = questions.map (fun q => m.brandReply q.left.base q.right.base q.op) ∧
        asked.calls = questions.map (fun q => q.op.consults) ∧
        ∀ call ∈ asked.calls, call ∈ [BaseCall.eq, .partialCmp, .cmp]) ∧
    (∀ (x y : Brand mark β) (ops : List Operator),
      Operator.askAll (m.comparison.brand mark) (some (m.ranking.brand mark)) x y ops =
        ⟨ops.map (m.brandReply x.base y.base), ops.map Operator.consults⟩) ∧
    (∀ a b, m.partialCmp a b = none →
      ∀ op ∈ [Operator.lt, .le, .gt, .ge], m.brandReply a b op = .truth false) ∧
    (∀ ne lt le gt ge,
      ({ m with ne := ne, lt := lt, le := le, gt := gt, ge := ge } : Methods β).comparison.brand
        mark = m.comparison.brand mark) ∧
    ((∀ (a b : β) (op : Operator),
      (op.ask (m.comparison.brand mark) (some (m.ranking.brand mark)) ⟨a⟩ ⟨b⟩).value =
        (op.ask m.comparison (some m.ranking) a b).value) ↔ m.comparison.Agrees) := by
  refine ⟨fun questions => ⟨?replies, ?calls, ?names⟩, m.askAll_brand mark,
    fun a b h op hop => ?unordered, fun ne lt le gt ge => rfl, m.ask_brand_eq_ask_iff mark⟩
  case replies => exact m.value_askAll_brand mark questions
  case calls => exact m.calls_askAll_brand mark questions
  case names =>
    intro call hcall
    rw [m.calls_askAll_brand mark questions] at hcall
    obtain ⟨q, _, rfl⟩ := List.mem_map.mp hcall
    exact q.op.consults_mem
  case unordered => exact m.brandReply_of_no_order h hop

/-- A base that contradicts itself: what is equal also differs, what is level is below, and
negative numbers have no order but are ranked, the larger first. -/
def contrary : Methods Int where
  eq a b := a == b
  ne _ _ := true
  partialCmp a b := if a < 0 ∨ b < 0 then none else some (compare a b)
  lt a b := a == b
  le _ _ := false
  gt _ _ := true
  ge _ _ := true
  cmp a b := compare b a

/-- The brands of two contrary numbers follow equality and order, and not the other methods. -/
theorem contrary_brands_follow_equality_and_order :
    let x : Brand "Contrary" Int := ⟨-3⟩
    let y : Brand "Contrary" Int := ⟨5⟩
    let asked := Question.askAll (contrary.comparison.brand "Contrary")
      (some (contrary.ranking.brand "Contrary")) [⟨.gt, x, y⟩, ⟨.ne, y, y⟩, ⟨.cmp, x, y⟩]
    contrary.partialCmp (-3) 5 = none ∧ contrary.gt (-3) 5 = true ∧
      contrary.brandReply (-3) 5 .gt = .truth false ∧
      asked.value = [.truth false, .truth false, .ordering (some .gt)] ∧
      asked.calls = [.partialCmp, .eq, .cmp] ∧ ¬ contrary.comparison.Agrees := by
  intro x y asked
  have hlaw := brands_ask_for_equality_and_order_alone contrary "Contrary"
  have hnone : contrary.partialCmp (-3) 5 = none := by decide
  obtain ⟨hvalue, hcalls, _⟩ := hlaw.1 [⟨.gt, x, y⟩, ⟨.ne, y, y⟩, ⟨.cmp, x, y⟩]
  refine ⟨hnone, rfl, hlaw.2.2.1 _ _ hnone .gt (by decide), hvalue.trans (by decide),
    hcalls.trans rfl, fun h => ?_⟩
  have hne : (contrary.comparison.ne 0 0).value = !(contrary.comparison.eq 0 0).value := (h 0 0).1
  exact absurd hne (by decide)

end NominalBrand
