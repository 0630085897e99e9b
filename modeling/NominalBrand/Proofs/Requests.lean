-- What a request to a pool comes to. Either it sends values through the check
-- of a brander or of a stored validator, one after the other, and answers with
-- how that ended; or it checks nothing, and then it may make branders and
-- copies but logs nothing. A law over all requests needs these two cases only.
import NominalBrand.BranderPool
import NominalBrand.Proofs.ListBranding

namespace NominalBrand

variable {ι σ ε π ρ β : Type}

/-- Who decides about values: a brander, or a stored validator that is called by itself. -/
inductive Decider (ι : Type) where
  | brander (b : Brander ι)
  | validator (v : Validator ι)

/-- The check of whoever decides. -/
def Decider.check (R : Roster ι σ ε π ρ β) (tracing : Bool) : Decider ι → Check σ ε π β
  | .brander b => b.check R tracing
  | .validator v => v.run R tracing

/-- The checks that a request asks for. -/
structure Errand (ι σ ε π β : Type) where
  decider : Decider ι
  /-- The values to check, front to back. -/
  values : List β
  /-- The outside state in which the first check begins. -/
  state : σ
  /-- The answer to the request, once the checks ended. -/
  reply : Outcome ε π Unit → Answer ι ε π β

namespace Pool

/-- The checks that a request asks for, if it asks for any and the brander supports it. -/
def errand? (R : Roster ι σ ε π ρ β) (pool : Pool ι) (s : σ) :
    Operation ι β → Option (Errand ι σ ε π β)
  | .check on v => (pool.find? on).map fun b => ⟨.brander b, [v], s, .checked⟩
  | .brand on v | .brandInPlace on v => (pool.find? on).map fun b =>
    ⟨.brander b, [v], s, fun o => .branded b.mark (o.map fun _ => ⟨v⟩)⟩
  | .brandEach on vs => (pool.find? on).map fun b =>
    ⟨.brander b, vs, s, fun o => .brandedEach b.mark (o.map fun _ => Brand.ofList b.mark vs)⟩
  | .call on v => ((pool.find? on).filter Brander.isInfallible).map fun b =>
    ⟨.brander b, [v], s, fun o => .branded b.mark (o.map fun _ => ⟨v⟩)⟩
  | .callInPlace on v => ((pool.find? on).filter Brander.isIdentity).map fun b =>
    ⟨.brander b, [v], s, fun o => .branded b.mark (o.map fun _ => ⟨v⟩)⟩
  | .callEach on vs => ((pool.find? on).filter Brander.isIdentity).map fun b =>
    ⟨.brander b, vs, s, fun o => .brandedEach b.mark (o.map fun _ => Brand.ofList b.mark vs)⟩
  | .judge on v => ((pool.find? on).bind Brander.stored?).map fun x =>
    ⟨.validator x, [v], s, .checked⟩
  | .judgeTaken on v => ((pool.find? on).bind Brander.stored?).map fun x =>
    ⟨.validator (x.duplicate R s).1, [v], (x.duplicate R s).2, .checked⟩
  | .add _ | .copy _ | .refer _ | .stored _ | .takeStored _ | .moveStored _ | .describe _ => none

/-- What a request does that asks for no check: its answer, the pool and the outside state. -/
def settle (R : Roster ι σ ε π ρ β) (pool : Pool ι) (s : σ) :
    Operation ι β → Answer ι ε π β × Pool ι × σ
  | .add b => (.pool (pool.length + 1), pool ++ [b], s)
  | .copy on => match pool.find? on with
    | none => (.unsupported, pool, s)
    | some b =>
      (.pool (pool.length + 1), pool ++ [(b.duplicate R s).1], (b.duplicate R s).2)
  | .refer on => match pool.find? on with
    | none => (.unsupported, pool, s)
    | some b => (.pool (pool.length + 1), pool ++ [.reference b], s)
  | .stored on => match (pool.find? on).bind Brander.stored? with
    | none => (.unsupported, pool, s)
    | some v => (.stored v, pool, s)
  | .takeStored on => match (pool.find? on).bind Brander.stored? with
    | none => (.unsupported, pool, s)
    | some v => (.stored (v.duplicate R s).1, pool, (v.duplicate R s).2)
  | .moveStored index => match pool[index]?.bind Brander.owned? with
    | none => (.unsupported, pool, s)
    | some v => (.stored v, pool.eraseIdx index, s)
  | .describe on => match (pool.find? on).bind Brander.describe? with
    | none => (.unsupported, pool, s)
    | some shown => (.text shown, pool, s)
  | _ => (.unsupported, pool, s)

/-- A request that asks for checks lets them run and answers with how they ended. -/
theorem step_of_errand {R : Roster ι σ ε π ρ β} {pool : Pool ι} {w : World σ}
    {op : Operation ι β} {e : Errand ι σ ε π β} (tracing : Bool)
    (h : errand? R pool w.state op = some e) :
    step R tracing pool w op =
      (e.reply ((e.decider.check R tracing).each e.values { w with state := e.state }).1, pool,
        ((e.decider.check R tracing).each e.values { w with state := e.state }).2) := by
  cases op with
  | add _ | copy _ | refer _ | stored _ | takeStored _ | moveStored _ | describe _ =>
    simp [errand?] at h
  | check on v | brand on v | brandInPlace on v | call on v | callInPlace on v =>
    obtain ⟨b, hb, rfl⟩ := Option.map_eq_some_iff.mp h
    simp only [step, hb, answering, Brander.brand, Brander.brandInPlace, Check.brand_apply,
      Check.brandInPlace_apply, Check.each_singleton]
    rfl
  | brandEach on vs | callEach on vs =>
    obtain ⟨b, hb, rfl⟩ := Option.map_eq_some_iff.mp h
    simp only [step, hb, answering, Brander.brandEach, Check.brandEach_apply]
    rfl
  | judge on v | judgeTaken on v =>
    obtain ⟨x, hx, rfl⟩ := Option.map_eq_some_iff.mp h
    simp only [step, hx, answering, Check.each_singleton]
    rfl

/-- A request that asks for no check logs nothing and does the same with and without tracing. -/
theorem step_of_no_errand {R : Roster ι σ ε π ρ β} {pool : Pool ι} {w : World σ}
    {op : Operation ι β} (tracing : Bool) (h : errand? R pool w.state op = none) :
    step R tracing pool w op =
      ((settle R pool w.state op).1, (settle R pool w.state op).2.1,
        { w with state := (settle R pool w.state op).2.2 }) := by
  cases op with
  | add b => rfl
  | copy on | refer on => rcases hb : pool.find? on with _ | b <;> simp only [step, settle, hb]
  | stored on | takeStored on =>
    rcases hv : (pool.find? on).bind Brander.stored? with _ | v <;> simp only [step, settle, hv]
  | moveStored index =>
    rcases hv : pool[index]?.bind Brander.owned? with _ | v <;> simp only [step, settle, hv]
  | describe on =>
    rcases hd : (pool.find? on).bind Brander.describe? with _ | shown <;>
      simp only [step, settle, hd]
  -- The brander is missing, or it does not support the request.
  | check on v | brand on v | brandInPlace on v | brandEach on v | call on v | callInPlace on v
  | callEach on v | judge on v | judgeTaken on v =>
    simp only [step, settle, Option.map_eq_none_iff.mp h]

/-! ## The branders of a pool -/

section
variable {P : Brander ι → Prop}

theorem forall_added_cons {op : Operation ι β} {ops : List (Operation ι β)} :
    (∀ b, .add b ∈ op :: ops → P b) ↔ (∀ b, op = .add b → P b) ∧ ∀ b, .add b ∈ ops → P b := by
  simp only [List.mem_cons, or_imp, forall_and, eq_comm]

/-- A property that a reference takes over from its target holds of whatever brander is meant. -/
theorem forall_of_find? (hrefer : ∀ b, P b → P (.reference b)) {pool : Pool ι}
    (hpool : ∀ b ∈ pool, P b) {on : Target} {b : Brander ι} (hb : pool.find? on = some b) :
    P b := by
  obtain ⟨b', hb', rfl⟩ := Option.map_eq_some_iff.mp hb
  exact Brander.borrowed_induction hrefer (hpool b' (List.mem_of_getElem? hb')) on.references

/-- A property that copies and references take over holds of all branders of a pool after a request,
if it holds of those before and of the one that the request adds. -/
theorem forall_step {R : Roster ι σ ε π ρ β} (hcopy : ∀ b s, P b → P (b.duplicate R s).1)
    (hrefer : ∀ b, P b → P (.reference b)) {pool : Pool ι} (hpool : ∀ b ∈ pool, P b)
    (tracing : Bool) (w : World σ) {op : Operation ι β} (hop : ∀ b, op = .add b → P b) :
    ∀ b ∈ (step R tracing pool w op).2.1, P b := by
  have hnew : ∀ b, P b → ∀ b' ∈ pool ++ [b], P b' := by
    intro b hb b' hb'
    rcases List.mem_append.mp hb' with hin | hin
    · exact hpool b' hin
    · rw [List.mem_singleton.mp hin]
      exact hb
  rcases he : errand? R pool w.state op with _ | e
  · rw [step_of_no_errand tracing he]
    cases op with
    | add b => exact hnew b (hop b rfl)
    | copy on =>
      rcases hb : pool.find? on with _ | b
      · simp only [settle, hb]
        exact hpool
      · simp only [settle, hb]
        exact hnew _ (hcopy b w.state (forall_of_find? hrefer hpool hb))
    | refer on =>
      rcases hb : pool.find? on with _ | b
      · simp only [settle, hb]
        exact hpool
      · simp only [settle, hb]
        exact hnew _ (hrefer b (forall_of_find? hrefer hpool hb))
    | stored on | takeStored on =>
      rcases hx : (pool.find? on).bind Brander.stored? with _ | x <;> simp only [settle, hx] <;>
        exact hpool
    | moveStored index =>
      rcases hx : pool[index]?.bind Brander.owned? with _ | x
      · simp only [settle, hx]
        exact hpool
      · simp only [settle, hx]
        exact fun b hb => hpool b (List.mem_of_mem_eraseIdx hb)
    | describe on =>
      rcases hd : (pool.find? on).bind Brander.describe? with _ | shown <;>
        simp only [settle, hd] <;> exact hpool
    | _ => exact hpool
  · rw [step_of_errand tracing he]
    exact hpool

end

end Pool

/-! ## What is branded -/

/-- The values that a request is about. -/
def Operation.values : Operation ι β → List β
  | .check _ v | .brand _ v | .brandInPlace _ v | .call _ v | .callInPlace _ v | .judge _ v
  | .judgeTaken _ v => [v]
  | .brandEach _ vs | .callEach _ vs => vs
  | .add _ | .copy _ | .refer _ | .stored _ | .takeStored _ | .moveStored _ | .describe _ => []

/-- The brands that an answer hands over: their mark, and the bases in them. -/
def Answer.brands? : Answer ι ε π β → Option (Mark × List β)
  | .branded mark (.accepted v) => some (mark, [v.base])
  | .brandedEach mark (.accepted vs) => some (mark, Brand.bases vs)
  | _ => none

namespace Pool

theorem brands?_settle (R : Roster ι σ ε π ρ β) (pool : Pool ι) (s : σ) (op : Operation ι β) :
    (settle R pool s op).1.brands? = none := by
  cases op with
  | copy on | refer on => rcases hb : pool.find? on with _ | b <;> simp only [settle, hb] <;> rfl
  | stored on | takeStored on =>
    rcases hv : (pool.find? on).bind Brander.stored? with _ | v <;> simp only [settle, hv] <;> rfl
  | moveStored index =>
    rcases hv : pool[index]?.bind Brander.owned? with _ | v <;> simp only [settle, hv] <;> rfl
  | describe on =>
    rcases hd : (pool.find? on).bind Brander.describe? with _ | shown <;>
      simp only [settle, hd] <;> rfl
  | _ => rfl

/-- Brands are handed over when the check of a brander of the pool accepted all the values of the
request. They carry the mark of that brander, and they are those values. -/
theorem brands?_reply {R : Roster ι σ ε π ρ β} {pool : Pool ι} {s : σ} {op : Operation ι β}
    {e : Errand ι σ ε π β} (he : errand? R pool s op = some e) {o : Outcome ε π Unit}
    {mark : Mark} {bases : List β} (h : (e.reply o).brands? = some (mark, bases)) :
    o = .accepted () ∧ e.values = op.values ∧ bases = op.values ∧
      ∃ on b, pool.find? on = some b ∧ e.decider = .brander b ∧ b.mark = mark := by
  cases op with
  | add _ | copy _ | refer _ | stored _ | takeStored _ | moveStored _ | describe _ =>
    simp [errand?] at he
  | check on v | judge on v | judgeTaken on v =>
    obtain ⟨_, _, rfl⟩ := Option.map_eq_some_iff.mp he
    cases h
  | brand on v | brandInPlace on v =>
    obtain ⟨b, hb, rfl⟩ := Option.map_eq_some_iff.mp he
    cases o with
    | accepted u =>
      obtain ⟨rfl, rfl⟩ := Prod.mk.inj (Option.some.inj h)
      exact ⟨rfl, rfl, rfl, on, b, hb, rfl, rfl⟩
    | rejected _ | panicked _ => cases h
  | brandEach on vs =>
    obtain ⟨b, hb, rfl⟩ := Option.map_eq_some_iff.mp he
    cases o with
    | accepted u =>
      obtain ⟨rfl, rfl⟩ := Prod.mk.inj (Option.some.inj h)
      exact ⟨rfl, rfl, Brand.bases_ofList vs, on, b, hb, rfl, rfl⟩
    | rejected _ | panicked _ => cases h
  | call on v | callInPlace on v =>
    obtain ⟨b, hb, rfl⟩ := Option.map_eq_some_iff.mp he
    cases o with
    | accepted u =>
      obtain ⟨rfl, rfl⟩ := Prod.mk.inj (Option.some.inj h)
      exact ⟨rfl, rfl, rfl, on, b, (Option.filter_eq_some_iff.mp hb).1, rfl, rfl⟩
    | rejected _ | panicked _ => cases h
  | callEach on vs =>
    obtain ⟨b, hb, rfl⟩ := Option.map_eq_some_iff.mp he
    cases o with
    | accepted u =>
      obtain ⟨rfl, rfl⟩ := Prod.mk.inj (Option.some.inj h)
      exact ⟨rfl, rfl, Brand.bases_ofList vs, on, b, (Option.filter_eq_some_iff.mp hb).1, rfl, rfl⟩
    | rejected _ | panicked _ => cases h

/-- A request that hands over brands let a brander of the pool check its values, and all of them
were accepted. -/
theorem brands?_step {R : Roster ι σ ε π ρ β} {tracing : Bool} {pool : Pool ι} {w : World σ}
    {op : Operation ι β} {mark : Mark} {bases : List β}
    (h : (step R tracing pool w op).1.brands? = some (mark, bases)) :
    bases = op.values ∧ ∃ on b w', pool.find? on = some b ∧ b.mark = mark ∧
      ((b.check R tracing).each op.values w').1 = .accepted () := by
  rcases he : errand? R pool w.state op with _ | e
  · rw [step_of_no_errand tracing he, brands?_settle] at h
    contradiction
  · rw [step_of_errand tracing he] at h
    obtain ⟨haccepted, hvalues, hbases, on, b, hb, hdecider, hmark⟩ := brands?_reply he h
    rw [hdecider, hvalues] at haccepted
    exact ⟨hbases, on, b, _, hb, hmark, haccepted⟩

end Pool

end NominalBrand
