-- The laws of what a program holds. It comes by a branded value when a
-- brander of the mark accepted the base, or as a copy of a value that it
-- holds; all else moves values about. So what the branders of a mark let
-- through, and copies keep, is true of every value of the mark, wherever it
-- is held.
import NominalBrand.Base.Probe
import NominalBrand.Holder
import NominalBrand.Proofs.CallRecord
import NominalBrand.Proofs.Keyed.Contents

namespace NominalBrand

variable {ι σ ε π ρ β : Type} {mark : Mark}

/-! ## Containers -/

namespace Store

variable {V : Brand mark β → Prop} {s s' : Store mark β}

/-- Every branded value in a container has a property. -/
def All (V : Brand mark β → Prop) (s : Store mark β) : Prop := ∀ x ∈ s.brands, V x

/-- The value under a key has a property, if there is one. -/
def Under (V : Brand mark β → Prop) (value : Option (Brand mark β)) : Prop :=
  ∀ x, value = some x → V x

theorem forall_entryBrands {e : Brand mark β × Option (Brand mark β)} :
    (∀ x ∈ entryBrands e, V x) ↔ V e.1 ∧ Under V e.2 := by
  unfold entryBrands Under
  rw [List.forall_mem_cons]
  simp only [Option.mem_toList]

theorem forall_brands_iff {entries : List (Brand mark β × Option (Brand mark β))} :
    (∀ x ∈ entries.flatMap entryBrands, V x) ↔ Keyed.Holds V (Under V) entries := by
  rw [List.forall_mem_flatMap]
  exact forall₂_congr fun e _ => forall_entryBrands

theorem forall_handed {answer : Keyed.Answer mark β (Option (Brand mark β))}
    (h : answer.Tells V (Under V)) : ∀ x ∈ handed answer, V x := by
  cases answer with
  | value found =>
    intro x hx
    have hfound : found = some (some x) := Option.join_eq_some_iff.mp (Option.mem_toList.mp hx)
    exact h _ hfound x rfl
  | entry found =>
    intro x hx
    obtain ⟨e, he, hx⟩ := List.mem_flatMap.mp hx
    exact forall_entryBrands.mpr (h e (Option.mem_toList.mp he)) x hx
  | size _ | entries _ | unsupported =>
    intro x hx
    exact absurd hx List.not_mem_nil

/-- Whatever is asked of a map, it hands over and keeps what was in it or was put in. -/
theorem All.request (q : Equipment ι σ ε π ρ β) (h : s.All V)
    {r : Keyed.Request mark β (Option (Brand mark β))} (hr : r.Brings V (Under V))
    {answer : Keyed.Answer mark β (Option (Brand mark β))}
    (heq : s.request? q r = some (answer, s')) : (∀ x ∈ handed answer, V x) ∧ s'.All V := by
  cases s with
  | list values => cases heq
  | ordered m =>
    obtain ⟨htells, hholds⟩ :=
      Keyed.Ordered.holds_step q.ranking (forall_brands_iff.mp h) hr
    obtain ⟨rfl, rfl⟩ := Prod.mk.inj (Option.some.inj heq)
    exact ⟨forall_handed htells, forall_brands_iff.mpr hholds⟩
  | hashed m =>
    obtain ⟨htells, hholds⟩ :=
      Keyed.Hashed.holds_step (.through q.mix q.offers.comparison q.feed)
        (.through q.mix (q.offers.comparison.brand mark) (q.feed.brand mark)) q.ranking
        (forall_brands_iff.mp h) hr
    obtain ⟨rfl, rfl⟩ := Prod.mk.inj (Option.some.inj heq)
    exact ⟨forall_handed htells, forall_brands_iff.mpr hholds⟩

theorem All.insert (q : Equipment ι σ ε π ρ β) (h : s.All V) {key : Brand mark β}
    {value : Option (Brand mark β)} (hkey : V key) (hvalue : Under V value)
    {back : List (Brand mark β)} (heq : s.insert? q key value = some (back, s')) :
    (∀ x ∈ back, V x) ∧ s'.All V := by
  obtain ⟨⟨answer, t⟩, hrequest, hresult⟩ := Option.map_eq_some_iff.mp heq
  obtain ⟨rfl, rfl⟩ := Prod.mk.inj hresult
  have hbrings : (Keyed.Request.insert key value).Brings V (Under V) := ⟨hkey, hvalue⟩
  exact h.request q hbrings hrequest

theorem All.remove (q : Equipment ι σ ε π ρ β) (h : s.All V) {key : β}
    {out : List (Brand mark β)} (heq : s.remove? q key = some (out, s')) :
    (∀ x ∈ out, V x) ∧ s'.All V := by
  obtain ⟨⟨answer, t⟩, hkeyOf, heq⟩ := Option.bind_eq_some_iff.mp heq
  obtain ⟨⟨answer', t'⟩, hremove, hresult⟩ := Option.bind_eq_some_iff.mp heq
  obtain ⟨rfl, rfl⟩ := Prod.mk.inj (Option.some.inj hresult)
  have hlookup : (Keyed.Request.keyOf key : Keyed.Request mark β _).Brings V (Under V) := trivial
  have hremoval : (Keyed.Request.remove key : Keyed.Request mark β _).Brings V (Under V) := trivial
  obtain ⟨hout, ht⟩ := h.request q hlookup hkeyOf
  exact ⟨hout, (ht.request q hremoval hremove).2⟩

theorem All.push (h : s.All V) {v : Brand mark β} (hv : V v) (heq : s.push? v = some s') :
    s'.All V := by
  cases s with
  | list values =>
    rw [← Option.some.inj heq]
    intro x hx
    rcases List.mem_append.mp hx with hin | hin
    · exact h x hin
    · rw [List.mem_singleton.mp hin]
      exact hv
  | ordered m | hashed m => cases heq

theorem All.takeAt (h : s.All V) {index : Nat} {v : Brand mark β}
    (heq : s.takeAt? index = some (v, s')) : V v ∧ s'.All V := by
  cases s with
  | list values =>
    obtain ⟨x, hx, hresult⟩ := Option.map_eq_some_iff.mp heq
    obtain ⟨rfl, rfl⟩ := Prod.mk.inj hresult
    exact ⟨h x (List.mem_of_getElem? hx), fun y hy => h y (List.mem_of_mem_eraseIdx hy)⟩
  | ordered m | hashed m => cases heq

theorem brands_map (f : Brand mark β → Brand mark β) (s : Store mark β) :
    (s.map f).brands = s.brands.map f := by
  have hentries : ∀ entries : List (Brand mark β × Option (Brand mark β)),
      (entries.map fun e => (f e.1, e.2.map f)).flatMap entryBrands =
        (entries.flatMap entryBrands).map f := by
    intro entries
    rw [List.flatMap_map, List.map_flatMap]
    refine congrArg (entries.flatMap ·) (funext fun e => ?_)
    unfold entryBrands
    rcases e.2 with _ | v <;> rfl
  cases s with
  | list values => rfl
  | ordered m => exact hentries m
  | hashed m =>
    have hflatten : (m.map fun b => b.map fun e => (f e.1, e.2.map f)).flatten =
        m.flatten.map fun e => (f e.1, e.2.map f) := List.map_flatten.symm
    change (m.map fun b => b.map fun e => (f e.1, e.2.map f)).flatten.flatMap entryBrands = _
    rw [hflatten]
    exact hentries m.flatten

theorem All.map {f : Brand mark β → Brand mark β} (h : s.All V) (hf : ∀ x, V x → V (f x)) :
    (s.map f).All V := by
  intro x hx
  rw [brands_map] at hx
  obtain ⟨y, hy, rfl⟩ := List.mem_map.mp hx
  exact hf y (h y hy)

end Store

/-! ## Moving values about -/

namespace Hands

variable {V : Brand mark β → Prop} {s s' : Hands mark β}

/-- Every branded value in the hands has a property. -/
def All (V : Brand mark β → Prop) (s : Hands mark β) : Prop := ∀ x ∈ s.brands, V x

theorem all_iff : s.All V ↔ (∀ x ∈ s.singles, V x) ∧ ∀ store ∈ s.stores, store.All V := by
  unfold All brands
  rw [List.forall_mem_append, List.forall_mem_flatMap]
  rfl

theorem All.singles (h : s.All V) : ∀ x ∈ s.singles, V x := (all_iff.mp h).1

theorem All.store (h : s.All V) {j : Nat} {store : Store mark β} (hj : s.stores[j]? = some store) :
    store.All V := (all_iff.mp h).2 store (List.mem_of_getElem? hj)

theorem All.take (h : s.All V) {i : Nat} {v : Brand mark β} (heq : s.take? i = some (v, s')) :
    V v ∧ s'.All V := by
  obtain ⟨x, hx, hresult⟩ := Option.map_eq_some_iff.mp heq
  obtain ⟨rfl, rfl⟩ := Prod.mk.inj hresult
  obtain ⟨hsingles, hstores⟩ := all_iff.mp h
  refine ⟨hsingles x (List.mem_of_getElem? hx), all_iff.mpr ⟨fun y hy => ?_, hstores⟩⟩
  exact hsingles y (List.mem_of_mem_eraseIdx hy)

theorem All.takeAny (h : s.All V) {single : Option Nat} {value : Option (Brand mark β)}
    (heq : s.takeAny? single = some (value, s')) : Store.Under V value ∧ s'.All V := by
  cases single with
  | none =>
    obtain ⟨rfl, rfl⟩ := Prod.mk.inj (Option.some.inj heq)
    exact ⟨fun _ hx => (by cases hx), h⟩
  | some i =>
    obtain ⟨⟨v, t⟩, htake, hresult⟩ := Option.map_eq_some_iff.mp heq
    obtain ⟨rfl, rfl⟩ := Prod.mk.inj hresult
    obtain ⟨hv, ht⟩ := h.take htake
    refine ⟨fun x hx => ?_, ht⟩
    rw [← Option.some.inj hx]
    exact hv

theorem All.hold (h : s.All V) {values : List (Brand mark β)} (hv : ∀ x ∈ values, V x) :
    (s.hold values).All V := by
  obtain ⟨hsingles, hstores⟩ := all_iff.mp h
  exact all_iff.mpr ⟨List.forall_mem_append.mpr ⟨hsingles, hv⟩, hstores⟩

theorem All.setStore (h : s.All V) (j : Nat) {store : Store mark β} (hstore : store.All V) :
    (s.setStore j store).All V := by
  obtain ⟨hsingles, hstores⟩ := all_iff.mp h
  refine all_iff.mpr ⟨hsingles, fun t ht => ?_⟩
  rcases List.mem_or_eq_of_mem_set ht with hin | rfl
  · exact hstores t hin
  · exact hstore

theorem All.addStore (h : s.All V) {store : Store mark β} (hstore : store.All V) :
    (s.addStore store).All V := by
  obtain ⟨hsingles, hstores⟩ := all_iff.mp h
  refine all_iff.mpr ⟨hsingles, List.forall_mem_append.mpr ⟨hstores, ?_⟩⟩
  exact List.forall_mem_singleton.mpr hstore

/-- A move that asks no brander copies values that are held and moves them about. -/
theorem All.carry (q : Equipment ι σ ε π ρ β) (hcopy : ∀ x, V x → V (q.copy x)) (h : s.All V)
    {move : Move ι β} (heq : s.carry? q move = some s') : s'.All V := by
  -- What is taken out has the property and what is left has it, so it may be put in anywhere.
  cases move with
  | ask op => cases heq
  | rebrand on i => cases heq
  | unbrand i =>
    obtain ⟨⟨v, t⟩, htake, hresult⟩ := Option.bind_eq_some_iff.mp heq
    rw [← Option.some.inj hresult]
    exact (h.take htake).2
  | clone i =>
    obtain ⟨v, hv, hresult⟩ := Option.bind_eq_some_iff.mp heq
    rw [← Option.some.inj hresult]
    have hcopied := hcopy v (h.singles v (List.mem_of_getElem? hv))
    exact h.hold (List.forall_mem_singleton.mpr hcopied)
  | copy i =>
    obtain ⟨v, hv, hresult⟩ := Option.bind_eq_some_iff.mp heq
    rw [← Option.some.inj hresult]
    exact h.hold (List.forall_mem_singleton.mpr (h.singles v (List.mem_of_getElem? hv)))
  | discard i =>
    obtain ⟨⟨v, t⟩, htake, hresult⟩ := Option.bind_eq_some_iff.mp heq
    rw [← Option.some.inj hresult]
    exact (h.take htake).2
  | makeList =>
    rw [← Option.some.inj heq]
    exact h.addStore fun x hx => absurd hx List.not_mem_nil
  | makeOrdered =>
    rw [← Option.some.inj heq]
    exact h.addStore fun x hx => absurd hx List.not_mem_nil
  | makeHashed buckets =>
    rw [← Option.some.inj heq]
    refine h.addStore fun x hx => ?_
    have hnone : (Keyed.Hashed.empty buckets : Keyed.Hashed mark β (Option (Brand mark β))).flatten =
        [] := List.flatten_replicate_nil
    change x ∈ (Keyed.Hashed.empty buckets : Keyed.Hashed mark β _).flatten.flatMap _ at hx
    rw [hnone] at hx
    exact absurd hx List.not_mem_nil
  | cloneStore j =>
    obtain ⟨store, hj, hresult⟩ := Option.bind_eq_some_iff.mp heq
    rw [← Option.some.inj hresult]
    exact h.addStore ((h.store hj).map hcopy)
  | discardStore j =>
    rw [← Option.some.inj heq]
    obtain ⟨hsingles, hstores⟩ := all_iff.mp h
    exact all_iff.mpr ⟨hsingles, fun t ht => hstores t (List.mem_of_mem_eraseIdx ht)⟩
  | push i j =>
    obtain ⟨⟨v, t⟩, htake, heq⟩ := Option.bind_eq_some_iff.mp heq
    obtain ⟨store, hj, heq⟩ := Option.bind_eq_some_iff.mp heq
    obtain ⟨store', hpush, hresult⟩ := Option.bind_eq_some_iff.mp heq
    rw [← Option.some.inj hresult]
    obtain ⟨hv, ht⟩ := h.take htake
    exact ht.setStore j ((ht.store hj).push hv hpush)
  | takeAt j index =>
    obtain ⟨store, hj, heq⟩ := Option.bind_eq_some_iff.mp heq
    obtain ⟨⟨v, store'⟩, htake, hresult⟩ := Option.bind_eq_some_iff.mp heq
    rw [← Option.some.inj hresult]
    obtain ⟨hv, hstore⟩ := (h.store hj).takeAt htake
    exact (h.setStore j hstore).hold (List.forall_mem_singleton.mpr hv)
  | insert i under j =>
    obtain ⟨⟨key, t⟩, htake, heq⟩ := Option.bind_eq_some_iff.mp heq
    obtain ⟨⟨value, t'⟩, hunder, heq⟩ := Option.bind_eq_some_iff.mp heq
    obtain ⟨store, hj, heq⟩ := Option.bind_eq_some_iff.mp heq
    obtain ⟨⟨back, store'⟩, hinsert, hresult⟩ := Option.bind_eq_some_iff.mp heq
    rw [← Option.some.inj hresult]
    obtain ⟨hkey, ht⟩ := h.take htake
    obtain ⟨hvalue, ht'⟩ := ht.takeAny hunder
    obtain ⟨hback, hstore⟩ := (ht'.store hj).insert q hkey hvalue hinsert
    exact (ht'.setStore j hstore).hold hback
  | remove j key =>
    obtain ⟨store, hj, heq⟩ := Option.bind_eq_some_iff.mp heq
    obtain ⟨⟨out, store'⟩, hremove, hresult⟩ := Option.bind_eq_some_iff.mp heq
    rw [← Option.some.inj hresult]
    obtain ⟨hout, hstore⟩ := (h.store hj).remove q hremove
    exact (h.setStore j hstore).hold hout

/-! ## Asking the branders -/

/-- Of an answer, the brands of the mark are kept and nothing else. -/
theorem All.keep (h : s.All V) {answer : Answer ι ε π β}
    (hbrands : ∀ bases, answer.brands? = some (mark, bases) → ∀ v ∈ bases, V ⟨v⟩) :
    (s.keep answer).All V := by
  cases answer with
  | branded m o =>
    cases o with
    | accepted v =>
      by_cases hm : m = mark
      · have hv := hbrands [v.base] (by rw [← hm]; rfl)
        simp only [Hands.keep, if_pos hm]
        exact h.hold (List.forall_mem_singleton.mpr (hv _ (List.mem_singleton_self _)))
      · simp only [Hands.keep, if_neg hm]
        exact h
    | rejected _ | panicked _ => exact h
  | brandedEach m o =>
    cases o with
    | accepted vs =>
      by_cases hm : m = mark
      · have hvs := hbrands (Brand.bases vs) (by rw [← hm]; rfl)
        simp only [Hands.keep, if_pos hm]
        refine h.addStore fun x hx => ?_
        obtain ⟨v, hv, rfl⟩ := List.mem_map.mp hx
        exact hvs v hv
      · simp only [Hands.keep, if_neg hm]
        exact h
    | rejected _ | panicked _ => exact h
  | unsupported | pool _ | stored _ | text _ | checked _ => exact h

/-- An answer that hands over no brand changes nothing that is held. -/
theorem keep_of_none {answer : Answer ι ε π β} (h : answer.brands? = none)
    (s : Hands mark β) : s.keep answer = s := by
  cases answer with
  | branded m o | brandedEach m o =>
    cases o with
    | accepted v => cases h
    | rejected _ | panicked _ => rfl
  | unsupported | pool _ | stored _ | text _ | checked _ => rfl

/-- The brands that an answer hands over come to those that are held. -/
theorem brands_keep {answer : Answer ι ε π β} {bases : List β}
    (h : answer.brands? = some (mark, bases)) (s : Hands mark β) :
    (s.keep answer).brands.Perm (s.brands ++ Brand.ofList mark bases) := by
  cases answer with
  | branded m o =>
    cases o with
    | accepted v =>
      obtain ⟨rfl, rfl⟩ := Prod.mk.inj (Option.some.inj h)
      simp only [Hands.keep, if_true]
      unfold brands hold
      rw [List.append_assoc, List.append_assoc]
      exact List.perm_append_comm.append_left s.singles
    | rejected _ | panicked _ => cases h
  | brandedEach m o =>
    cases o with
    | accepted vs =>
      obtain ⟨rfl, rfl⟩ := Prod.mk.inj (Option.some.inj h)
      simp only [Hands.keep, if_true]
      unfold brands addStore
      rw [List.flatMap_append, List.flatMap_singleton, List.append_assoc]
      exact List.Perm.refl _
    | rejected _ | panicked _ => cases h
  | unsupported | pool _ | stored _ | text _ | checked _ => cases h

end Hands

/-! ## Branders that let through what has a property -/

/-- The validators behind some handles accept only values with a property, and so do their
copies. -/
structure Roster.Guards (R : Roster ι σ ε π ρ β) (tracing : Bool) (p : β → Prop)
    (guards : ι → Prop) : Prop where
  judge : ∀ i, guards i → ∀ v w a, ((R.judge i v).run tracing w).1 = .accepted a → p v
  duplicate : ∀ i s, guards i → guards (R.duplicate i s).1

/-- A brander stores the validator behind one of these handles. -/
def Brander.GuardedBy (guards : ι → Prop) (b : Brander ι) : Prop :=
  ∃ x, b.stored? = some x ∧ guards x.handle

section
variable {R : Roster ι σ ε π ρ β} {tracing : Bool} {p : β → Prop} {guards : ι → Prop}

/-- A validator accepts only values with the property, also when it raises its errors. -/
theorem Validator.property_of_accepted (hR : R.Guards tracing p guards) {x : Validator ι}
    (hx : guards x.handle) {v : β} {w : World σ} {a : ρ}
    (h : ((x.routine R v).run tracing w).1 = .accepted a) : p v := by
  induction x with
  | function i => exact hR.judge i hx v w a h
  | infallible i =>
    simp only [routine, Routine.run_escalate, Outcome.escalate_eq_accepted_iff] at h
    exact hR.judge i hx v w a h
  | assertion inner ih =>
    simp only [routine, Routine.run_escalate, Outcome.escalate_eq_accepted_iff] at h
    exact ih hx h
  | reference target ih => exact ih hx h

theorem Brander.property_of_accepted (hR : R.Guards tracing p guards) {b : Brander ι}
    (hb : b.GuardedBy guards) {v : β} {w : World σ}
    (h : (b.check R tracing v w).1 = .accepted ()) : p v := by
  induction b with
  | identity m =>
    obtain ⟨x, hx, _⟩ := hb
    cases hx
  | validated m validator =>
    obtain ⟨x, hx, hguards⟩ := hb
    obtain rfl : validator = x := Option.some.inj hx
    simp only [check] at h
    rcases ho : ((validator.routine R v).run tracing w).1 with a | e | q
    · exact Validator.property_of_accepted hR hguards ho
    · rw [ho] at h
      cases h
    · rw [ho] at h
      cases h
  | custom m i =>
    obtain ⟨x, hx, _⟩ := hb
    cases hx
  | reference target ih => exact ih hb h

theorem Validator.guards_duplicate (hR : R.Guards tracing p guards) {x : Validator ι}
    (hx : guards x.handle) (s : σ) : guards (x.duplicate R s).1.handle := by
  induction x with
  | function i | infallible i => exact hR.duplicate i s hx
  | assertion inner ih => exact ih hx
  | reference target => exact hx

theorem Brander.mark_duplicate (R : Roster ι σ ε π ρ β) (b : Brander ι) (s : σ) :
    (b.duplicate R s).1.mark = b.mark := by cases b <;> rfl

theorem Brander.GuardedBy.duplicate (hR : R.Guards tracing p guards) {b : Brander ι}
    (hb : b.GuardedBy guards) (s : σ) : (b.duplicate R s).1.GuardedBy guards := by
  obtain ⟨x, hx, hguards⟩ := hb
  cases b with
  | identity m => cases hx
  | validated m validator =>
    obtain rfl : validator = x := Option.some.inj hx
    exact ⟨(validator.duplicate R s).1, rfl, Validator.guards_duplicate hR hguards s⟩
  | custom m i => cases hx
  | reference target => exact ⟨x, hx, hguards⟩

/-- Every brander of a mark stores a validator behind one of these handles. -/
def Brander.OnlyGuarded (mark : Mark) (guards : ι → Prop) (b : Brander ι) : Prop :=
  b.mark = mark → b.GuardedBy guards

theorem Brander.OnlyGuarded.duplicate (hR : R.Guards tracing p guards) {b : Brander ι}
    (hb : b.OnlyGuarded mark guards) (s : σ) : (b.duplicate R s).1.OnlyGuarded mark guards := by
  intro hmark
  rw [mark_duplicate] at hmark
  exact (hb hmark).duplicate hR s

end

/-- An answer tells that a value, or one of a list, was not accepted. -/
def Answer.refuses : Answer ι ε π β → Bool
  | .checked (.accepted _) | .branded _ (.accepted _) | .brandedEach _ (.accepted _) => false
  | .checked _ | .branded _ _ | .brandedEach _ _ => true
  | .unsupported | .pool _ | .stored _ | .text _ => false

theorem Answer.brands?_of_refuses {a : Answer ι ε π β} (h : a.refuses = true) :
    a.brands? = none := by
  cases a with
  | branded m o | brandedEach m o =>
    cases o with
    | accepted v => cases h
    | rejected _ | panicked _ => rfl
  | unsupported | pool _ | stored _ | text _ | checked _ => rfl

namespace Holder

variable {p : β → Prop} {guards : ι → Prop} {q : Equipment ι σ ε π ρ β} {s : Holder ι σ mark β}

/-- Every value that is held has the property, and every brander of the mark is guarded. -/
structure Valid (p : β → Prop) (guards : ι → Prop) (s : Holder ι σ mark β) : Prop where
  held : s.hands.All fun x => p x.base
  branders : ∀ b ∈ s.pool, b.OnlyGuarded mark guards

theorem Valid.ask (hR : q.roster.Guards q.tracing p guards) (h : s.Valid p guards)
    {op : Operation ι β} (hop : ∀ b, op = .add b → b.OnlyGuarded mark guards) :
    (s.ask q op).2.Valid p guards where
  held := by
    refine h.held.keep fun bases hbrands v hv => ?_
    obtain ⟨rfl, on, b, w, hb, hmark, haccepted⟩ := Pool.brands?_step hbrands
    obtain ⟨w', haccepted'⟩ := Check.accepted_of_mem_each haccepted hv
    have hguarded := Pool.forall_of_find? (fun _ hb => hb) h.branders hb
    exact Brander.property_of_accepted hR (hguarded hmark) haccepted'
  branders := Pool.forall_step (fun _ s hb => hb.duplicate hR s) (fun _ hb => hb) h.branders
    q.tracing s.world hop

theorem Valid.step (hR : q.roster.Guards q.tracing p guards)
    (hcopy : ∀ v, p v → p (q.offers.copy v).value) (h : s.Valid p guards) {move : Move ι β}
    (hmove : ∀ b, move = .ask (.add b) → b.OnlyGuarded mark guards) :
    (s.step q move).2.Valid p guards := by
  -- A move that finds nothing at its places leaves the hands as they are.
  have hcarry : ∀ move, Valid p guards
      { s with hands := (s.hands.carry? q move).getD s.hands } := by
    intro move
    refine ⟨?_, h.branders⟩
    rcases hcarried : s.hands.carry? q move with _ | hands
    · exact h.held
    · exact h.held.carry q (fun x hx => hcopy x.base hx) hcarried
  cases move with
  | ask op => exact h.ask hR fun b hb => hmove b (congrArg Move.ask hb)
  | rebrand on i =>
    rcases hbare : s.hands.bares[i]? with _ | v
    · simp only [Holder.step, hbare]
      exact h
    · simp only [Holder.step, hbare]
      have hlaid : Valid p guards
          { s with hands := { s.hands with bares := s.hands.bares.eraseIdx i } } :=
        ⟨h.held, h.branders⟩
      exact hlaid.ask hR fun b hb => nomatch hb
  | _ => exact hcarry _

theorem Valid.run (hR : q.roster.Guards q.tracing p guards)
    (hcopy : ∀ v, p v → p (q.offers.copy v).value) (h : s.Valid p guards) {moves : List (Move ι β)}
    (hmoves : ∀ b, .ask (.add b) ∈ moves → b.OnlyGuarded mark guards) :
    (s.run q moves).Valid p guards := by
  induction moves generalizing s with
  | nil => exact h
  | cons move moves ih =>
    have hmove : ∀ b, move = .ask (.add b) → b.OnlyGuarded mark guards := fun b hb =>
      hmoves b (by rw [← hb]; exact List.mem_cons_self)
    exact ih (h.step hR hcopy hmove) fun b hb => hmoves b (List.mem_cons_of_mem _ hb)

theorem hands_of_refused {op : Operation ι β} (h : (s.ask q op).1.refuses = true) :
    (s.ask q op).2.hands = s.hands := Hands.keep_of_none (Answer.brands?_of_refuses h) s.hands

/-- A move that is refused changes nothing that is held under a brand. -/
theorem held_of_refused {move : Move ι β} {answer : Answer ι ε π β}
    (hanswer : (s.step q move).1 = some answer) (hrefused : answer.refuses = true) :
    (s.step q move).2.hands.singles = s.hands.singles ∧
      (s.step q move).2.hands.stores = s.hands.stores := by
  cases move with
  | ask op =>
    have hasked : (s.ask q op).1 = answer := Option.some.inj hanswer
    change (s.ask q op).2.hands.singles = _ ∧ (s.ask q op).2.hands.stores = _
    rw [hands_of_refused (hasked ▸ hrefused)]
    exact ⟨rfl, rfl⟩
  | rebrand on i =>
    rcases hbare : s.hands.bares[i]? with _ | v
    · simp only [Holder.step, hbare] at hanswer
      cases hanswer
    · simp only [Holder.step, hbare] at hanswer ⊢
      rw [hands_of_refused (Option.some.inj hanswer ▸ hrefused)]
      exact ⟨rfl, rfl⟩
  | _ => cases hanswer

/-- A move that gets brands of the mark adds them to what is held. -/
theorem held_of_accepted {move : Move ι β} {answer : Answer ι ε π β} {bases : List β}
    (hanswer : (s.step q move).1 = some answer) (hbrands : answer.brands? = some (mark, bases)) :
    (s.step q move).2.hands.brands.Perm (s.hands.brands ++ Brand.ofList mark bases) := by
  cases move with
  | ask op =>
    have hasked : (s.ask q op).1 = answer := Option.some.inj hanswer
    exact Hands.brands_keep (hasked ▸ hbrands) s.hands
  | rebrand on i =>
    rcases hbare : s.hands.bares[i]? with _ | v
    · simp only [Holder.step, hbare] at hanswer
      cases hanswer
    · simp only [Holder.step, hbare] at hanswer ⊢
      exact Hands.brands_keep (Option.some.inj hanswer ▸ hbrands)
        { s.hands with bares := s.hands.bares.eraseIdx i }
  | _ => cases hanswer

/-- When the branders of a mark accept only values with a property, and copies keep it, then
whatever a program does, every value of the mark that it holds has the property, by itself, in a
list, or in a set or a map. A request that is refused, by an error or a panic, leaves all of them
as they were and adds none; one that is answered with brands of the mark adds these. -/
theorem every_held_value_is_valid (q : Equipment ι σ ε π ρ β) (p : β → Prop) (guards : ι → Prop)
    (hR : q.roster.Guards q.tracing p guards) (hcopy : ∀ v, p v → p (q.offers.copy v).value)
    (w : World σ) (moves : List (Move ι β))
    (hmoves : ∀ b, .ask (.add b) ∈ moves → b.OnlyGuarded mark guards) :
    let reached := run q (⟨[], w, .empty⟩ : Holder ι σ mark β) moves
    (∀ x ∈ reached.hands.brands, p x.base) ∧
      ∀ move answer, (reached.step q move).1 = some answer →
        (answer.refuses = true →
          (reached.step q move).2.hands.singles = reached.hands.singles ∧
            (reached.step q move).2.hands.stores = reached.hands.stores) ∧
        ∀ bases, answer.brands? = some (mark, bases) →
          (reached.step q move).2.hands.brands.Perm
            (reached.hands.brands ++ Brand.ofList mark bases) := by
  intro reached
  have hstart : (⟨[], w, .empty⟩ : Holder ι σ mark β).Valid p guards :=
    ⟨fun x hx => absurd hx List.not_mem_nil, fun b hb => absurd hb List.not_mem_nil⟩
  have hreached := hstart.run hR hcopy hmoves
  refine ⟨hreached.held, fun move answer hanswer => ⟨held_of_refused hanswer, ?_⟩⟩
  exact fun bases => held_of_accepted hanswer

end Holder

/-! ## Probes with a key that is not negative -/

namespace Probe

/-- A validator that accepts keys that are not negative. -/
def roster : Roster Unit Unit Unit Unit Unit Probe where
  base _ := .named "driver::base::Probe"
  judge _ v := .finish (if 0 ≤ v.key.value then .accepted () else .rejected ())
  alarm := id
  duplicate i s := (i, s)

theorem roster_guards : roster.Guards true (fun v => 0 ≤ v.key.value) fun _ => True where
  judge i _ v w a h := by
    simp only [roster, Routine.run] at h
    by_cases hv : 0 ≤ v.key.value
    · exact hv
    · rw [if_neg hv] at h
      cases h
  duplicate _ _ _ := trivial

/-- What a program about probes works with. -/
def equipment : Equipment Unit Unit Unit Unit Unit Probe where
  roster := roster
  tracing := true
  offers := capabilities
  ranking a b := .byCall .cmp (compare b.key.value a.key.value)
  feed := .ofOne fun v => .silent [UInt8.ofNat v.key.value.toNat]
  mix := Keyed.Hashing.mixBytes

/-- The brander that the program is given. -/
def brander : Brander Unit := .validated ⟨.named "Positive", .named "F"⟩ (.function ())

/-- A probe is branded, copied, and put into a set. A list with a negative key is refused. The copy
loses its brand and gets it again. -/
def moves : List (Move Unit Probe) :=
  [.ask (.add brander), .ask (.brand ⟨0, 0⟩ ⟨⟨3, by decide⟩, "a"⟩), .clone 0, .makeOrdered,
    .insert 0 none 0, .ask (.brandEach ⟨0, 0⟩ [⟨⟨4, by decide⟩, "b"⟩, ⟨⟨-1, by decide⟩, "c"⟩]),
    .unbrand 0, .rebrand ⟨0, 0⟩ 0]

theorem only_guarded_moves :
    ∀ b, .ask (.add b) ∈ moves → b.OnlyGuarded brander.mark fun _ => True := by
  intro b hb
  simp only [moves, List.mem_cons, Move.ask.injEq, Operation.add.injEq, reduceCtorEq,
    List.not_mem_nil, or_false] at hb
  rw [hb]
  exact fun _ => ⟨.function (), rfl, trivial⟩

theorem held_probes_are_not_negative :
    let reached := Holder.run equipment (⟨[], ⟨(), []⟩, .empty⟩ : Holder Unit Unit brander.mark Probe)
      moves
    (∀ v, 0 ≤ v.key.value → 0 ≤ (equipment.offers.copy v).value.key.value) ∧
      (∀ x ∈ reached.hands.brands, 0 ≤ x.base.key.value) ∧
      reached.hands.brands.map (fun x => x.base.key.value) = [3, 3] := by
  intro reached
  have hcopy : ∀ v, 0 ≤ v.key.value → 0 ≤ (equipment.offers.copy v).value.key.value := fun v hv => hv
  have hlaw := Holder.every_held_value_is_valid equipment (fun v => 0 ≤ v.key.value) (fun _ => True)
    roster_guards hcopy ⟨(), []⟩ moves only_guarded_moves
  exact ⟨hcopy, hlaw.1, rfl⟩

end Probe

end NominalBrand
