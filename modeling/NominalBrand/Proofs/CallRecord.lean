-- The laws of the calls. Every stored validator carries a label, which its
-- copies and the references to it share, and a record keeps each call with the
-- label and the value. The record of a run is then read off its requests: the
-- value of each check that goes through a brander with the label, the values of
-- a list up to the first that is not accepted, and nothing else.
import NominalBrand.Proofs.Requests
import Mathlib.Data.List.InsertIdx

namespace NominalBrand

variable {ι σ ε π ρ β γ κ : Type}

/-! ## The record of the calls -/

/-- One call of a validator: one that a brander stores, by its label and with the value it was
given, or one that another validator consulted for a brand. -/
inductive Call (κ β : Type) where
  | stored (label : κ) (value : β)
  | consulted (brand : String)

/-- The value of a call, if it is a call of the validator with a label. -/
def Call.valueFor? [DecidableEq κ] (k : κ) : Call κ β → Option β
  | .stored label v => if label = k then some v else none
  | .consulted _ => none

/-- The values that the validator with a label was called with, in order. -/
def callsTo [DecidableEq κ] (k : κ) (record : List (Call κ β)) : List β :=
  record.filterMap (Call.valueFor? k)

theorem callsTo_append [DecidableEq κ] (k : κ) (first rest : List (Call κ β)) :
    callsTo k (first ++ rest) = callsTo k first ++ callsTo k rest := List.filterMap_append

theorem World.record_beside (w : World σ) (record : List γ) (tracing : Bool) (brand : String)
    {α : Type} (o : Outcome ε π α) :
    (w.beside record).record tracing brand o = (w.record tracing brand o).beside record := by
  cases tracing <;> cases o <;> rfl

namespace Routine

/-- Notes an entry and then goes on. -/
def noting (entry : γ) (r : Routine (σ × List γ) ε π ρ) : Routine (σ × List γ) ε π ρ :=
  .read fun s => .write (s.1, s.2 ++ [entry]) r

/-- The same routine beside a record, in which every check that it lets run leaves its brand. -/
def recorded (κ β : Type) : Routine σ ε π ρ → Routine (σ × List (Call κ β)) ε π ρ
  | .finish o => .finish o
  | .read k => .read fun s => (k s.1).recorded κ β
  | .write s k => .read fun t => .write (s, t.2) (k.recorded κ β)
  | .consult brand body k =>
    .consult brand (noting (.consulted brand) (body.recorded κ β)) fun o => (k o).recorded κ β

theorem run_noting (tracing : Bool) (entry : γ) (r : Routine (σ × List γ) ε π ρ) (w : World σ)
    (record : List γ) :
    (noting entry r).run tracing (w.beside record) =
      r.run tracing (w.beside (record ++ [entry])) := rfl

theorem escalate_recorded (payload : ε → π) (r : Routine σ ε π ρ) :
    (r.recorded κ β).escalate payload = (r.escalate payload).recorded κ β := by
  induction r with
  | finish o => rfl
  | read k ih => exact congrArg Routine.read (funext fun s => ih s.1)
  | write s k ih =>
    simp only [recorded, escalate]
    rw [ih]
  | consult brand body k _ ih =>
    simp only [recorded, escalate]
    rw [show (fun o => ((k o).recorded κ β).escalate payload) =
      fun o => ((k o).escalate payload).recorded κ β from funext ih]

/-- A routine does the same beside a record, in which it calls no stored validator. -/
theorem run_recorded [DecidableEq κ] (tracing : Bool) (r : Routine σ ε π ρ) (w : World σ)
    (record : List (Call κ β)) :
    ∃ entries, (∀ k, callsTo k entries = []) ∧
      (r.recorded κ β).run tracing (w.beside record) =
        ((r.run tracing w).1, (r.run tracing w).2.beside (record ++ entries)) := by
  induction r generalizing w record with
  | finish o => exact ⟨[], fun _ => rfl, by rw [List.append_nil]; rfl⟩
  | read r ih => exact ih w.state w record
  | write s r ih => exact ih { w with state := s } record
  | consult brand body r hbody hr =>
    obtain ⟨inner, hinner, hb⟩ := hbody w (record ++ [.consulted brand])
    obtain ⟨later, hlater, hl⟩ := hr (body.run tracing w).1.verdict
      ((body.run tracing w).2.record tracing brand (body.run tracing w).1)
      (record ++ [.consulted brand] ++ inner)
    refine ⟨.consulted brand :: inner ++ later, fun k => ?_, ?_⟩
    · rw [callsTo_append, hlater, List.append_nil]
      exact hinner k
    · simp only [recorded, run]
      rw [run_noting, hb, World.record_beside, hl]
      simp only [List.append_assoc, List.cons_append, List.nil_append]

end Routine

/-- The same roster with a record, in which every call of a function leaves its label and value. -/
def Roster.recorded (R : Roster ι σ ε π ρ β) (label : ι → κ) :
    Roster ι (σ × List (Call κ β)) ε π ρ β where
  base := R.base
  judge h v := Routine.noting (.stored (label h) v) ((R.judge h v).recorded κ β)
  alarm := R.alarm
  duplicate h s := ((R.duplicate h s.1).1, (R.duplicate h s.1).2, s.2)
  base_duplicate h s := R.base_duplicate h s.1

/-! ## The validator behind a brander -/

/-- The handle of the function that a brander calls, if it calls one. -/
def Brander.handle? : Brander ι → Option ι
  | .identity _ => none
  | .validated _ validator => some validator.handle
  | .custom _ h => some h
  | .reference target => target.handle?

/-- The handle of the function that is called when values are decided about. -/
def Decider.handle? : Decider ι → Option ι
  | .brander b => b.handle?
  | .validator v => some v.handle

theorem Brander.handle?_borrowed (b : Brander ι) (n : Nat) :
    (b.borrowed n).handle? = b.handle? :=
  borrowed_induction (P := fun b' => b'.handle? = b.handle?) (fun _ h => h) rfl n

theorem Brander.handle?_of_stored? {b : Brander ι} {v : Validator ι} (h : b.stored? = some v) :
    b.handle? = some v.handle := by
  induction b with
  | identity m => simp [stored?] at h
  | validated m validator =>
    simp only [stored?, Option.some.injEq] at h
    rw [handle?, h]
  | custom m x => simp [stored?] at h
  | reference target ih => exact ih h

theorem Brander.handle?_of_isIdentity {b : Brander ι} (h : b.isIdentity = true) :
    b.handle? = none := by
  induction b with
  | identity m => rfl
  | validated m validator => simp [isIdentity] at h
  | custom m x => simp [isIdentity] at h
  | reference target ih => exact ih h

/-- With a record, a validator notes its call first and then does what it does without. -/
theorem Validator.routine_recorded (R : Roster ι σ ε π ρ β) (label : ι → κ) (x : Validator ι)
    (v : β) :
    x.routine (R.recorded label) v =
      Routine.noting (.stored (label x.handle) v) ((x.routine R v).recorded κ β) := by
  induction x with
  | function h => rfl
  | infallible h =>
    simp only [routine, handle]
    rw [← Routine.escalate_recorded]
    rfl
  | assertion inner ih =>
    simp only [routine, handle]
    rw [ih, ← Routine.escalate_recorded]
    rfl
  | reference target ih => exact ih

/-- What a call of the function behind a handle adds to the calls of a label. -/
def noteFor [DecidableEq κ] (label : ι → κ) (h : Option ι) (k : κ) (v : β) : List β :=
  if h.map label = some k then [v] else []

theorem callsTo_stored [DecidableEq κ] (label : ι → κ) (h : ι) (k : κ) (v : β) :
    callsTo k [.stored (label h) v] = noteFor label (some h) k v := by
  unfold noteFor callsTo
  by_cases hk : label h = k
  · simp [Call.valueFor?, hk]
  · simp [Call.valueFor?, hk]

/-- A routine that notes a call first leaves that call, and no other call of a stored validator. -/
theorem Routine.run_noting_recorded [DecidableEq κ] (label : ι → κ) (tracing : Bool) (h : ι)
    (v : β) (r : Routine σ ε π ρ) (w : World σ) (record : List (Call κ β)) :
    ∃ entries, (∀ k, callsTo k entries = noteFor label (some h) k v) ∧
      (noting (.stored (label h) v) (r.recorded κ β)).run tracing (w.beside record) =
        ((r.run tracing w).1, (r.run tracing w).2.beside (record ++ entries)) := by
  obtain ⟨inner, hinner, hr⟩ := r.run_recorded tracing w (record ++ [.stored (label h) v])
  refine ⟨.stored (label h) v :: inner, fun k => ?_, ?_⟩
  · rw [← List.singleton_append, callsTo_append, hinner, List.append_nil, callsTo_stored]
  · rw [run_noting, hr, List.append_assoc, List.singleton_append]

theorem Brander.check_recordedBy [DecidableEq κ] (R : Roster ι σ ε π ρ β) (label : ι → κ)
    (tracing : Bool) (b : Brander ι) :
    (b.check R tracing).RecordedBy (b.check (R.recorded label) tracing) Call.valueFor?
      (noteFor label b.handle?) := by
  induction b with
  | identity m =>
    intro v w record
    exact ⟨[], fun _ => rfl, by rw [List.append_nil]; rfl⟩
  | validated m validator =>
    intro v w record
    obtain ⟨entries, hentries, hr⟩ :=
      (validator.routine R v).run_noting_recorded label tracing validator.handle v w record
    refine ⟨entries, hentries, ?_⟩
    simp only [check]
    rw [Validator.routine_recorded, hr, World.record_beside]
    rfl
  | custom m h =>
    intro v w record
    obtain ⟨entries, hentries, hr⟩ := (R.judge h v).run_noting_recorded label tracing h v w record
    refine ⟨entries, hentries, ?_⟩
    simp only [check, Roster.recorded]
    rw [hr]
  | reference target ih => exact ih

theorem Decider.check_recordedBy [DecidableEq κ] (R : Roster ι σ ε π ρ β) (label : ι → κ)
    (tracing : Bool) (d : Decider ι) :
    (d.check R tracing).RecordedBy (d.check (R.recorded label) tracing) Call.valueFor?
      (noteFor label d.handle?) := by
  cases d with
  | brander b => exact b.check_recordedBy R label tracing
  | validator x =>
    intro v w record
    obtain ⟨entries, hentries, hr⟩ :=
      (x.routine R v).run_noting_recorded label tracing x.handle v w record
    refine ⟨entries, hentries, ?_⟩
    simp only [check, Validator.run]
    rw [Validator.routine_recorded, hr]

/-! ## Requests beside a record -/

theorem Validator.duplicate_recorded (R : Roster ι σ ε π ρ β) (label : ι → κ) (x : Validator ι)
    (s : σ) (record : List (Call κ β)) :
    x.duplicate (R.recorded label) (s, record) =
      ((x.duplicate R s).1, (x.duplicate R s).2, record) := by
  induction x with
  | function h | infallible h => rfl
  | assertion inner ih =>
    simp only [duplicate]
    rw [ih]
  | reference target => rfl

theorem Brander.duplicate_recorded (R : Roster ι σ ε π ρ β) (label : ι → κ) (b : Brander ι)
    (s : σ) (record : List (Call κ β)) :
    b.duplicate (R.recorded label) (s, record) =
      ((b.duplicate R s).1, (b.duplicate R s).2, record) := by
  cases b with
  | identity m => rfl
  | validated m validator =>
    simp only [duplicate]
    rw [Validator.duplicate_recorded]
  | custom m h => rfl
  | reference target => rfl

/-- The same errand, begun beside a record. -/
def Errand.beside (e : Errand ι σ ε π β) (record : List γ) : Errand ι (σ × List γ) ε π β :=
  ⟨e.decider, e.values, (e.state, record), e.reply⟩

namespace Pool

theorem errand?_recorded (R : Roster ι σ ε π ρ β) (label : ι → κ) (pool : Pool ι) (s : σ)
    (record : List (Call κ β)) (op : Operation ι β) :
    errand? (R.recorded label) pool (s, record) op =
      (errand? R pool s op).map fun e => e.beside record := by
  cases op with
  | judgeTaken on v =>
    simp only [errand?, Option.map_map]
    congr 1
    funext x
    simp only [Validator.duplicate_recorded, Function.comp_apply, Errand.beside]
  | _ => simp only [errand?, Option.map_map, Option.map_none] <;> rfl

theorem settle_recorded (R : Roster ι σ ε π ρ β) (label : ι → κ) (pool : Pool ι) (s : σ)
    (record : List (Call κ β)) (op : Operation ι β) :
    settle (R.recorded label) pool (s, record) op =
      ((settle R pool s op).1, (settle R pool s op).2.1, (settle R pool s op).2.2, record) := by
  cases op with
  | copy on =>
    rcases hb : pool.find? on with _ | b
    · simp only [settle, hb]
    · simp only [settle, hb, Brander.duplicate_recorded]
  | takeStored on =>
    rcases hv : (pool.find? on).bind Brander.stored? with _ | v
    · simp only [settle, hv]
    · simp only [settle, hv, Validator.duplicate_recorded]
  | moveStored index =>
    rcases hv : pool[index]?.bind Brander.owned? with _ | v <;> simp only [settle, hv]
  | refer on => rcases hb : pool.find? on with _ | b <;> simp only [settle, hb]
  | stored on =>
    rcases hv : (pool.find? on).bind Brander.stored? with _ | v <;> simp only [settle, hv]
  | describe on =>
    rcases hd : (pool.find? on).bind Brander.describe? with _ | shown <;> simp only [settle, hd]
  | _ => rfl

/-- The calls of a label that one request makes: one for each value that is checked. -/
def seenBy [DecidableEq κ] (R : Roster ι σ ε π ρ β) (label : ι → κ) (tracing : Bool) (k : κ)
    (pool : Pool ι) (w : World σ) (op : Operation ι β) : List β :=
  match errand? R pool w.state op with
  | none => []
  | some e =>
    ((e.decider.check R tracing).checked { w with state := e.state } e.values).flatMap
      (noteFor label e.decider.handle? k)

/-- The calls of a label that the requests of a run make, in order. -/
def seen [DecidableEq κ] (R : Roster ι σ ε π ρ β) (label : ι → κ) (tracing : Bool) (k : κ) :
    Pool ι → World σ → List (Operation ι β) → List β
  | _, _, [] => []
  | pool, w, op :: ops =>
    let (_, pool', w') := step R tracing pool w op
    seenBy R label tracing k pool w op ++ seen R label tracing k pool' w' ops

/-- A request does the same beside a record, which grows by the calls that it makes. -/
theorem step_recorded [DecidableEq κ] (R : Roster ι σ ε π ρ β) (label : ι → κ) (tracing : Bool)
    (pool : Pool ι) (w : World σ) (record : List (Call κ β)) (op : Operation ι β) :
    ∃ entries, (∀ k, callsTo k entries = seenBy R label tracing k pool w op) ∧
      step (R.recorded label) tracing pool (w.beside record) op =
        ((step R tracing pool w op).1, (step R tracing pool w op).2.1,
          (step R tracing pool w op).2.2.beside (record ++ entries)) := by
  have hrec := errand?_recorded R label pool w.state record op
  rcases he : errand? R pool w.state op with _ | e
  · rw [he, Option.map_none] at hrec
    refine ⟨[], fun k => ?_, ?_⟩
    · simp only [seenBy, he]
      rfl
    · rw [step_of_no_errand tracing he, step_of_no_errand (w := w.beside record) tracing hrec,
        World.state_beside, settle_recorded, List.append_nil]
      rfl
  · rw [he, Option.map_some] at hrec
    obtain ⟨entries, hentries, heach⟩ :=
      Check.each_recordedBy (e.decider.check_recordedBy R label tracing) e.values
        { w with state := e.state } record
    refine ⟨entries, fun k => ?_, ?_⟩
    · simp only [seenBy, he]
      exact hentries k
    · have hstart : ({ w.beside record with state := (e.beside record).state } : World _) =
          ({ w with state := e.state } : World σ).beside record := rfl
      rw [step_of_errand tracing he, step_of_errand (w := w.beside record) tracing hrec, hstart]
      simp only [Errand.beside]
      rw [heach]

/-- A run does the same beside a record, which grows by the calls that the requests make. -/
theorem run_recorded [DecidableEq κ] (R : Roster ι σ ε π ρ β) (label : ι → κ) (tracing : Bool)
    (pool : Pool ι) (w : World σ) (record : List (Call κ β)) (ops : List (Operation ι β)) :
    ∃ entries, (∀ k, callsTo k entries = seen R label tracing k pool w ops) ∧
      run (R.recorded label) tracing pool (w.beside record) ops =
        ((run R tracing pool w ops).1, (run R tracing pool w ops).2.1,
          (run R tracing pool w ops).2.2.beside (record ++ entries)) := by
  induction ops generalizing pool w record with
  | nil => exact ⟨[], fun _ => rfl, by rw [List.append_nil]; rfl⟩
  | cons op ops ih =>
    obtain ⟨first, hfirst, hstep⟩ := step_recorded R label tracing pool w record op
    obtain ⟨rest, hrest, hrun⟩ := ih (step R tracing pool w op).2.1
      (step R tracing pool w op).2.2 (record ++ first)
    refine ⟨first ++ rest, fun k => ?_, ?_⟩
    · rw [callsTo_append, hfirst, hrest]
      rfl
    · simp only [run]
      rw [hstep]
      simp only [hrun]
      rw [List.append_assoc]

end Pool

/-! ## Labels -/

/-- The same roster with handles that carry a label, which a copy takes over. -/
def Roster.labelled (R : Roster ι σ ε π ρ β) (κ : Type) : Roster (ι × κ) σ ε π ρ β where
  base h := R.base h.1
  judge h v := R.judge h.1 v
  alarm := R.alarm
  duplicate h s := (((R.duplicate h.1 s).1, h.2), (R.duplicate h.1 s).2)
  base_duplicate h s := R.base_duplicate h.1 s

/-- The label of the validator behind a brander. -/
def Brander.label? (b : Brander (ι × κ)) : Option κ := b.handle?.map Prod.snd

theorem Validator.label_duplicate (R : Roster ι σ ε π ρ β) (x : Validator (ι × κ)) (s : σ) :
    (x.duplicate (R.labelled κ) s).1.handle.2 = x.handle.2 := by
  induction x generalizing s with
  | function h | infallible h => rfl
  | assertion inner ih => exact ih s
  | reference target => rfl

theorem Brander.label?_duplicate (R : Roster ι σ ε π ρ β) (b : Brander (ι × κ)) (s : σ) :
    (b.duplicate (R.labelled κ) s).1.label? = b.label? := by
  cases b with
  | identity m => rfl
  | validated m validator => exact congrArg some (validator.label_duplicate R s)
  | custom m h => rfl
  | reference target => rfl

/-- The labels behind the branders of a pool after a request. What is copied or borrowed keeps
its label, and a label leaves with a brander that is used up. -/
def labelsAfter (labels : List (Option κ)) (pool : Pool (ι × κ)) :
    Operation (ι × κ) β → List (Option κ)
  | .add b => labels ++ [b.label?]
  | .copy on | .refer on => labels ++ labels[on.index]?.toList
  | .moveStored index => match pool[index]?.bind Brander.owned? with
    | none => labels
    | some _ => labels.eraseIdx index
  | _ => labels

namespace Pool

theorem label?_of_find? {pool : Pool (ι × κ)} {on : Target} {b : Brander (ι × κ)}
    (h : pool.find? on = some b) : (pool.map Brander.label?)[on.index]? = some b.label? := by
  obtain ⟨b', hb', rfl⟩ := Option.map_eq_some_iff.mp h
  rw [List.getElem?_map, hb', Option.map_some]
  unfold Brander.label?
  rw [Brander.handle?_borrowed]

theorem label?_of_find?_none {pool : Pool (ι × κ)} {on : Target} (h : pool.find? on = none) :
    (pool.map Brander.label?)[on.index]? = none := by
  rw [List.getElem?_map, Option.map_eq_none_iff.mp h, Option.map_none]

/-- The labels of a pool stay what the requests made them. -/
theorem labels_step (R : Roster ι σ ε π ρ β) (tracing : Bool) (pool : Pool (ι × κ)) (w : World σ)
    (op : Operation (ι × κ) β) :
    (step (R.labelled κ) tracing pool w op).2.1.map Brander.label? =
      labelsAfter (pool.map Brander.label?) pool op := by
  rcases he : errand? (R.labelled κ) pool w.state op with _ | e
  · rw [step_of_no_errand tracing he]
    cases op with
    | add b => simp only [settle, labelsAfter, List.map_append, List.map_cons, List.map_nil]
    | copy on =>
      rcases hb : pool.find? on with _ | b
      · simp only [settle, labelsAfter, hb, label?_of_find?_none hb, Option.toList_none,
          List.append_nil]
      · simp only [settle, labelsAfter, hb, label?_of_find? hb, Option.toList_some,
          List.map_append, List.map_cons, List.map_nil, Brander.label?_duplicate]
    | refer on =>
      rcases hb : pool.find? on with _ | b
      · simp only [settle, labelsAfter, hb, label?_of_find?_none hb, Option.toList_none,
          List.append_nil]
      · simp only [settle, labelsAfter, hb, label?_of_find? hb, Option.toList_some,
          List.map_append, List.map_cons, List.map_nil]
        rfl
    | stored on | takeStored on =>
      rcases hv : (pool.find? on).bind Brander.stored? with _ | v <;>
        simp only [settle, labelsAfter, hv]
    | moveStored index =>
      rcases hv : pool[index]?.bind Brander.owned? with _ | v <;>
        simp only [settle, labelsAfter, hv, List.eraseIdx_map]
    | describe on =>
      rcases hd : (pool.find? on).bind Brander.describe? with _ | shown <;>
        simp only [settle, labelsAfter, hd]
    | _ => rfl
  · rw [step_of_errand tracing he]
    cases op with
    | add _ | copy _ | refer _ | moveStored _ => simp [errand?] at he
    | _ => rfl

end Pool

/-! ## What the requests send -/

/-- These values, if the brander that is meant carries the label, and else none. -/
def toLabel [DecidableEq κ] (k : κ) (labels : List (Option κ)) (on : Target) (values : List β) :
    List β :=
  if labels[on.index]? = some (some k) then values else []

namespace Pool

/-- The values that one request sends to the validator with a label. A list counts up to the
first value that is not accepted, and a request that is not supported counts for nothing. -/
def sentBy [DecidableEq κ] (R : Roster (ι × κ) σ ε π ρ β) (tracing : Bool) (k : κ)
    (labels : List (Option κ)) (pool : Pool (ι × κ)) (w : World σ) :
    Operation (ι × κ) β → List β
  | .check on v | .brand on v | .brandInPlace on v => toLabel k labels on [v]
  | .brandEach on vs => match pool.find? on with
    | none => []
    | some b => toLabel k labels on ((b.check R tracing).checked w vs)
  | .call on v => match (pool.find? on).filter Brander.isInfallible with
    | none => []
    | some _ => toLabel k labels on [v]
  -- Not branding: the stored validator is called by itself.
  | .judge on v | .judgeTaken on v => match (pool.find? on).bind Brander.stored? with
    | none => []
    | some _ => toLabel k labels on [v]
  | .add _ | .copy _ | .refer _ | .stored _ | .takeStored _ | .moveStored _ | .describe _
  | .callInPlace _ _ | .callEach _ _ => []

/-- The values that the requests of a run send to the validator with a label, in order. -/
def sent [DecidableEq κ] (R : Roster (ι × κ) σ ε π ρ β) (tracing : Bool) (k : κ) :
    List (Option κ) → Pool (ι × κ) → World σ → List (Operation (ι × κ) β) → List β
  | _, _, _, [] => []
  | labels, pool, w, op :: ops =>
    let (_, pool', w') := step R tracing pool w op
    sentBy R tracing k labels pool w op ++
      sent R tracing k (labelsAfter labels pool op) pool' w' ops

theorem flatMap_noteFor [DecidableEq κ] (label : ι → κ) (h : Option ι) (k : κ) (values : List β) :
    values.flatMap (noteFor label h k) = if h.map label = some k then values else [] := by
  unfold noteFor
  by_cases hk : h.map label = some k
  · simp only [hk, if_true]
    exact List.flatMap_singleton' values
  · simp only [hk, if_false]
    exact List.flatMap_eq_nil_iff.mpr fun _ _ => rfl

theorem toLabel_of_find? [DecidableEq κ] {pool : Pool (ι × κ)} {on : Target}
    {b : Brander (ι × κ)} (k : κ) (values : List β) (h : pool.find? on = some b) :
    toLabel k (pool.map Brander.label?) on values = if b.label? = some k then values else [] := by
  unfold toLabel
  rw [label?_of_find? h]
  simp only [Option.some.injEq]

theorem toLabel_of_find?_none [DecidableEq κ] {pool : Pool (ι × κ)} {on : Target} (k : κ)
    (values : List β) (h : pool.find? on = none) :
    toLabel k (pool.map Brander.label?) on values = [] := by
  unfold toLabel
  rw [label?_of_find?_none h]
  simp

/-- What is checked through a brander of the pool goes to its label. -/
theorem flatMap_noteFor_of_find? [DecidableEq κ] {pool : Pool (ι × κ)} {on : Target}
    {b : Brander (ι × κ)} (k : κ) (values : List β) (h : pool.find? on = some b) :
    values.flatMap (noteFor Prod.snd b.handle? k) =
      toLabel k (pool.map Brander.label?) on values := by
  rw [flatMap_noteFor, toLabel_of_find? k values h]
  rfl

theorem flatMap_noteFor_of_stored? [DecidableEq κ] {pool : Pool (ι × κ)} {on : Target}
    {x : Validator (ι × κ)} {h : ι × κ} (k : κ) (values : List β)
    (hx : (pool.find? on).bind Brander.stored? = some x) (hh : h.2 = x.handle.2) :
    values.flatMap (noteFor Prod.snd (some h) k) =
      toLabel k (pool.map Brander.label?) on values := by
  obtain ⟨b, hb, hs⟩ := Option.bind_eq_some_iff.mp hx
  rw [flatMap_noteFor, toLabel_of_find? k values hb]
  unfold Brander.label?
  rw [Brander.handle?_of_stored? hs, Option.map_some, Option.map_some, hh]

/-- What a request sends to a label is what the validators with that label see of it. -/
theorem seenBy_eq_sentBy [DecidableEq κ] (R : Roster ι σ ε π ρ β) (tracing : Bool) (k : κ)
    (pool : Pool (ι × κ)) (w : World σ) (op : Operation (ι × κ) β) :
    seenBy (R.labelled κ) Prod.snd tracing k pool w op =
      sentBy (R.labelled κ) tracing k (pool.map Brander.label?) pool w op := by
  cases op with
  | check on v | brand on v | brandInPlace on v =>
    rcases hb : pool.find? on with _ | b
    · simp only [seenBy, errand?, sentBy, hb, Option.map_none, toLabel_of_find?_none k _ hb]
    · simp only [seenBy, errand?, sentBy, hb, Option.map_some, Check.checked_singleton]
      exact flatMap_noteFor_of_find? k _ hb
  | brandEach on vs =>
    rcases hb : pool.find? on with _ | b
    · simp only [seenBy, errand?, sentBy, hb, Option.map_none]
    · simp only [seenBy, errand?, sentBy, hb, Option.map_some]
      exact flatMap_noteFor_of_find? k _ hb
  | call on v =>
    rcases hb : (pool.find? on).filter Brander.isInfallible with _ | b
    · simp only [seenBy, errand?, sentBy, hb, Option.map_none]
    · simp only [seenBy, errand?, sentBy, hb, Option.map_some, Check.checked_singleton]
      exact flatMap_noteFor_of_find? k _ (Option.filter_eq_some_iff.mp hb).1
  | callInPlace on values | callEach on values =>
    rcases hb : (pool.find? on).filter Brander.isIdentity with _ | b
    · simp only [seenBy, errand?, sentBy, hb, Option.map_none]
    · simp only [seenBy, errand?, sentBy, hb, Option.map_some, Decider.handle?, flatMap_noteFor,
        Brander.handle?_of_isIdentity (Option.filter_eq_some_iff.mp hb).2]
      rfl
  | judge on v =>
    rcases hx : (pool.find? on).bind Brander.stored? with _ | x
    · simp only [seenBy, errand?, sentBy, hx, Option.map_none]
    · simp only [seenBy, errand?, sentBy, hx, Option.map_some, Check.checked_singleton]
      exact flatMap_noteFor_of_stored? k _ hx rfl
  -- The copy runs, and it has the label of what it was copied from.
  | judgeTaken on v =>
    rcases hx : (pool.find? on).bind Brander.stored? with _ | x
    · simp only [seenBy, errand?, sentBy, hx, Option.map_none]
    · simp only [seenBy, errand?, sentBy, hx, Option.map_some, Check.checked_singleton]
      exact flatMap_noteFor_of_stored? k _ hx (x.label_duplicate R w.state)
  | _ => rfl

theorem seen_eq_sent [DecidableEq κ] (R : Roster ι σ ε π ρ β) (tracing : Bool) (k : κ)
    (pool : Pool (ι × κ)) (w : World σ) (ops : List (Operation (ι × κ) β)) :
    seen (R.labelled κ) Prod.snd tracing k pool w ops =
      sent (R.labelled κ) tracing k (pool.map Brander.label?) pool w ops := by
  induction ops generalizing pool w with
  | nil => rfl
  | cons op ops ih =>
    simp only [seen, sent]
    rw [seenBy_eq_sentBy, ih, labels_step]

end Pool

/-! ## The law -/

/-- A validator is called with the values that the requests send through the branders with its
label, in the order of the requests, and with nothing else. Keeping the record changes nothing. -/
theorem a_validator_sees_what_is_sent_to_its_label [DecidableEq κ] (R : Roster ι σ ε π ρ β)
    (tracing : Bool) (pool : Pool (ι × κ)) (w : World σ) (record : List (Call κ β))
    (ops : List (Operation (ι × κ) β)) :
    let bare := Pool.run (R.labelled κ) tracing pool w ops
    let noted := Pool.run ((R.labelled κ).recorded Prod.snd) tracing pool (w.beside record) ops
    noted.1 = bare.1 ∧ noted.2.1 = bare.2.1 ∧ noted.2.2.withoutRecord = bare.2.2 ∧
      ∀ k, callsTo k noted.2.2.state.2 =
        callsTo k record ++
          Pool.sent (R.labelled κ) tracing k (pool.map Brander.label?) pool w ops := by
  intro bare noted
  obtain ⟨entries, hentries, hrun⟩ :=
    Pool.run_recorded (R.labelled κ) Prod.snd tracing pool w record ops
  have hnoted : noted = (bare.1, bare.2.1, bare.2.2.beside (record ++ entries)) := hrun
  rw [hnoted]
  refine ⟨rfl, rfl, World.withoutRecord_beside _ _, fun k => ?_⟩
  rw [World.state_beside, callsTo_append, hentries, Pool.seen_eq_sent]

end NominalBrand
