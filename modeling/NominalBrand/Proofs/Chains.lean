-- The laws of chains of branders. A value goes through the checks one after the
-- other, each in the world that the one before it left, and the first check that
-- does not accept decides. A value that comes through stands under one brand for
-- each brander, and it still is, says and shows what it was and did before.
import NominalBrand.Base.Probe
import NominalBrand.Chain
import NominalBrand.Proofs.ListBranding

namespace NominalBrand

variable {σ π α β γ μ : Type}

/-! ## Values that offer what other values offer -/

/-- What `c` offers of a value is what `d` offers of the value that `φ` makes of it: the same
answers, texts and bytes, by the same calls. -/
structure Capabilities.Forwards (φ : α → β) (c : Capabilities α) (d : Capabilities β) : Prop where
  eq : ∀ x y, c.comparison.eq x y = d.comparison.eq (φ x) (φ y)
  partialCmp : ∀ x y, c.comparison.partialCmp x y = d.comparison.partialCmp (φ x) (φ y)
  ranking : c.ranking = d.ranking.map fun r x y => r (φ x) (φ y)
  feed : c.feed.map HashFeed.one = d.feed.map fun f x => f.one (φ x)
  debug : c.debug = d.debug.map fun r s x => r s (φ x)
  display : c.display = d.display.map fun r s x => r s (φ x)
  copy : ∀ x, (c.copy x).map φ = d.copy (φ x)

theorem Capabilities.Forwards.refl (c : Capabilities β) : c.Forwards id c where
  eq _ _ := rfl
  partialCmp _ _ := rfl
  ranking := Option.map_id'.symm
  feed := rfl
  debug := Option.map_id'.symm
  display := Option.map_id'.symm
  copy _ := rfl

theorem Capabilities.Forwards.brand {φ : α → β} {c : Capabilities α} {d : Capabilities β}
    (h : c.Forwards φ d) (mark : μ) : (c.brand mark).Forwards (fun x => φ x.base) d where
  eq x y := h.eq x.base y.base
  partialCmp x y := h.partialCmp x.base y.base
  ranking := by
    simp only [Capabilities.brand, h.ranking, Option.map_map]
    rfl
  feed := by
    have hbase := congrArg (Option.map fun one (x : Brand mark α) => one x.base) h.feed
    rw [Option.map_map, Option.map_map] at hbase
    rw [Capabilities.brand, Option.map_map]
    exact hbase
  debug := by
    simp only [Capabilities.brand, h.debug, Option.map_map]
    rfl
  display := by
    simp only [Capabilities.brand, h.display, Option.map_map]
    rfl
  copy x := by
    have hcalls : ((c.brand mark).copy x).calls = (c.copy x.base).calls := List.append_nil _
    rw [← h.copy x.base]
    unfold Logged.map
    rw [hcalls]
    rfl

/-- A stack of brands offers what the value under all of them offers. -/
theorem Capabilities.tower_forwards (c : Capabilities β) (marks : List Mark) :
    (c.tower marks).Forwards (Tower.base marks) c := by
  induction marks with
  | nil => exact .refl c
  | cons mark marks ih => exact ih.brand mark

/-- The same check beside a record, in which it leaves a note on each value it is called with. -/
def Check.noting {ε : Type} (c : Check σ ε π α) (note : α → γ) : Check (σ × List γ) ε π α :=
  fun v w => ((c v w.withoutRecord).1, (c v w.withoutRecord).2.beside (w.state.2 ++ [note v]))

namespace Chain

variable {marks : List Mark}

/-! ## The turn of each brander -/

/-- The value under one brand for each brander. -/
def raise : {marks : List Mark} → (c : Chain σ π β marks) → Tower β marks → Tower β c.reach
  | _, .done, v => v
  | _, .link _ _ rest, v => rest.raise ⟨v⟩

/-- The world that the first checks of a chain leave, as many as are asked for. -/
def leftBy : {marks : List Mark} → Chain σ π β marks → Tower β marks → World σ → Nat → World σ
  | _, .link check _ rest, v, w, k + 1 => rest.leftBy ⟨v⟩ (check v w).2 k
  | _, _, _, w, _ => w

/-- How the check at a place of a chain ends, in the world that the checks before it left. -/
def verdictAt? : {marks : List Mark} → (c : Chain σ π β marks) → Tower β marks → World σ → Nat →
    Option (Outcome c.Error π Unit)
  | _, .done, _, _, _ => none
  | _, .link check _ _, v, w, 0 => some ((check v w).1.mapError Sum.inl)
  | _, .link check _ rest, v, w, k + 1 =>
    (rest.verdictAt? ⟨v⟩ (check v w).2 k).map (Outcome.mapError Sum.inr)

/-- Every brander accepts when its turn comes. -/
def AllAccept (c : Chain σ π β marks) (v : Tower β marks) (w : World σ) : Prop :=
  ∀ k < c.length, c.verdictAt? v w k = some (.accepted ())

/-- Place `k` holds the first brander that does not accept, and its check ends as `o`. -/
structure FirstRefusal (c : Chain σ π β marks) (v : Tower β marks) (w : World σ) (k : Nat)
    (o : Outcome c.Error π Unit) : Prop where
  verdict : c.verdictAt? v w k = some o
  refused : o ≠ .accepted ()
  before : ∀ i < k, c.verdictAt? v w i = some (.accepted ())

/-- Each brander adds one brand. -/
theorem length_reach (c : Chain σ π β marks) : c.reach.length = marks.length + c.length := by
  induction c with
  | done => rfl
  | link check mark rest ih =>
    simp only [reach, length, ih, List.length_cons]
    omega

/-- Under all the brands stands the value that came to the chain. -/
theorem base_raise (c : Chain σ π β marks) (v : Tower β marks) :
    Tower.base c.reach (c.raise v) = Tower.base marks v := by
  induction c with
  | done => rfl
  | link check mark rest ih => exact ih ⟨v⟩

section
variable {ε : Type} {check : Check σ ε π (Tower β marks)} {mark : Mark}
  {rest : Chain σ π β (mark :: marks)} {v : Tower β marks} {w : World σ}

theorem verdictAt?_zero_eq_accepted_iff :
    (link check mark rest).verdictAt? v w 0 = some (.accepted ()) ↔
      (check v w).1 = .accepted () := by
  constructor
  · intro h
    exact (Outcome.mapError_eq_accepted_iff _ _ _).mp (Option.some.inj h)
  · intro h
    exact congrArg some ((Outcome.mapError_eq_accepted_iff _ _ _).mpr h)

theorem verdictAt?_succ_eq_accepted_iff {k : Nat} :
    (link check mark rest).verdictAt? v w (k + 1) = some (.accepted ()) ↔
      rest.verdictAt? ⟨v⟩ (check v w).2 k = some (.accepted ()) := by
  rw [verdictAt?, Option.map_eq_some_iff]
  constructor
  · rintro ⟨o, ho, hmap⟩
    rw [ho, (Outcome.mapError_eq_accepted_iff Sum.inr o ()).mp hmap]
  · intro h
    exact ⟨_, h, rfl⟩

theorem allAccept_link :
    (link check mark rest).AllAccept v w ↔
      (check v w).1 = .accepted () ∧ rest.AllAccept ⟨v⟩ (check v w).2 := by
  constructor
  · intro h
    refine ⟨verdictAt?_zero_eq_accepted_iff.mp (h 0 (Nat.zero_lt_succ _)), fun k hk => ?_⟩
    exact verdictAt?_succ_eq_accepted_iff.mp (h (k + 1) (Nat.succ_lt_succ hk))
  · rintro ⟨hv, hrest⟩ k hk
    cases k with
    | zero => exact verdictAt?_zero_eq_accepted_iff.mpr hv
    | succ k => exact verdictAt?_succ_eq_accepted_iff.mpr (hrest k (Nat.lt_of_succ_lt_succ hk))

theorem firstRefusal_zero {o : Outcome (link check mark rest).Error π Unit} :
    (link check mark rest).FirstRefusal v w 0 o ↔
      (check v w).1.mapError Sum.inl = o ∧ (check v w).1 ≠ .accepted () := by
  constructor
  · intro h
    have hv := Option.some.inj h.verdict
    refine ⟨hv, fun ha => h.refused ?_⟩
    rw [← hv, ha]
    rfl
  · rintro ⟨rfl, hv⟩
    refine ⟨rfl, fun ha => hv ?_, fun i hi => absurd hi (Nat.not_lt_zero i)⟩
    exact (Outcome.mapError_eq_accepted_iff _ _ _).mp ha

theorem firstRefusal_succ {k : Nat} {o : Outcome (link check mark rest).Error π Unit} :
    (link check mark rest).FirstRefusal v w (k + 1) o ↔
      (check v w).1 = .accepted () ∧
        ∃ o', rest.FirstRefusal ⟨v⟩ (check v w).2 k o' ∧ o'.mapError Sum.inr = o := by
  constructor
  · intro h
    obtain ⟨o', ho', rfl⟩ := Option.map_eq_some_iff.mp h.verdict
    refine ⟨verdictAt?_zero_eq_accepted_iff.mp (h.before 0 (Nat.zero_lt_succ k)), o', ?_, rfl⟩
    refine ⟨ho', fun ha => h.refused ?_, fun i hi => ?_⟩
    · rw [ha]
      rfl
    · exact verdictAt?_succ_eq_accepted_iff.mp (h.before (i + 1) (Nat.succ_lt_succ hi))
  · rintro ⟨hv, o', h, rfl⟩
    refine ⟨?_, fun ha => h.refused ?_, fun i hi => ?_⟩
    · rw [verdictAt?, h.verdict]
      rfl
    · exact (Outcome.mapError_eq_accepted_iff _ _ _).mp ha
    · cases i with
      | zero => exact verdictAt?_zero_eq_accepted_iff.mpr hv
      | succ i =>
        exact verdictAt?_succ_eq_accepted_iff.mpr (h.before i (Nat.lt_of_succ_lt_succ hi))

/-! ## How a chain ends -/

/-- An accepted value goes on to the branders after the first, under the brand. -/
theorem brand_link_of_accepted (h : (check v w).1 = .accepted ()) :
    (link check mark rest).brand v w = ((rest.brand ⟨v⟩).mapError Sum.inr) (check v w).2 := by
  have hfirst : ((check.brand mark v).mapError Sum.inl : Action σ (ε ⊕ rest.Error) π _) w =
      (.accepted ⟨v⟩, (check v w).2) := by
    unfold Action.mapError
    rw [Check.brand_apply, h]
    rfl
  exact Action.bind_of_accepted hfirst _

/-- A value that is not accepted goes no further. -/
theorem brand_link_of_refused (h : (check v w).1 ≠ .accepted ()) :
    (link check mark rest).brand v w =
      (((check v w).1.mapError Sum.inl).map fun _ => (link check mark rest).raise v,
        (check v w).2) := by
  have ho : (check v w).1.mapError (Sum.inl : ε → ε ⊕ rest.Error) ≠ .accepted () :=
    fun ha => h ((Outcome.mapError_eq_accepted_iff _ _ _).mp ha)
  refine Action.bind_of_refused (f := fun _ => ⟨v⟩) ho ?_ _ _
  unfold Action.mapError
  rw [Check.brand_apply, Outcome.map_mapError]
  rfl

end

theorem leftBy_zero (c : Chain σ π β marks) (v : Tower β marks) (w : World σ) :
    c.leftBy v w 0 = w := by cases c <;> rfl

theorem allAccept_or_firstRefusal (c : Chain σ π β marks) (v : Tower β marks) (w : World σ) :
    c.AllAccept v w ∨ ∃ k o, c.FirstRefusal v w k o := by
  induction c generalizing w with
  | done => exact Or.inl fun k hk => absurd hk (Nat.not_lt_zero k)
  | link check mark rest ih =>
    by_cases hv : (check v w).1 = .accepted ()
    · rcases ih ⟨v⟩ (check v w).2 with hall | ⟨k, o, hk⟩
      · exact Or.inl (allAccept_link.mpr ⟨hv, hall⟩)
      · exact Or.inr ⟨k + 1, _, firstRefusal_succ.mpr ⟨hv, o, hk, rfl⟩⟩
    · exact Or.inr ⟨0, _, firstRefusal_zero.mpr ⟨rfl, hv⟩⟩

theorem brand_of_allAccept {c : Chain σ π β marks} {v : Tower β marks} {w : World σ}
    (h : c.AllAccept v w) : c.brand v w = (.accepted (c.raise v), c.leftBy v w c.length) := by
  induction c generalizing w with
  | done => rfl
  | link check mark rest ih =>
    obtain ⟨hv, hrest⟩ := allAccept_link.mp h
    rw [brand_link_of_accepted hv]
    unfold Action.mapError
    rw [ih hrest]
    rfl

theorem brand_of_firstRefusal {c : Chain σ π β marks} {v : Tower β marks} {w : World σ} {k : Nat}
    {o : Outcome c.Error π Unit} (h : c.FirstRefusal v w k o) :
    c.brand v w = (o.map fun _ => c.raise v, c.leftBy v w (k + 1)) := by
  induction c generalizing w k with
  | done => exact absurd h.verdict (by simp [verdictAt?])
  | link check mark rest ih =>
    cases k with
    | zero =>
      obtain ⟨rfl, hv⟩ := firstRefusal_zero.mp h
      have hleft : (link check mark rest).leftBy v w 1 = (check v w).2 := rest.leftBy_zero _ _
      rw [brand_link_of_refused hv]
      exact congrArg (Prod.mk _) hleft.symm
    | succ k =>
      obtain ⟨hv, o', hk, rfl⟩ := firstRefusal_succ.mp h
      rw [brand_link_of_accepted hv]
      unfold Action.mapError
      rw [ih hk, ← Outcome.map_mapError]
      rfl

theorem brand_eq_accepted_iff (c : Chain σ π β marks) (v : Tower β marks) (w w' : World σ)
    (x : Tower β c.reach) :
    c.brand v w = (.accepted x, w') ↔
      c.AllAccept v w ∧ w' = c.leftBy v w c.length ∧
        Tower.base c.reach x = Tower.base marks v := by
  constructor
  · intro h
    rcases allAccept_or_firstRefusal c v w with hall | ⟨k, o, hk⟩
    · rw [brand_of_allAccept hall] at h
      obtain ⟨hx, rfl⟩ := Prod.mk.inj h
      rw [← Outcome.accepted.inj hx, base_raise]
      exact ⟨hall, rfl, rfl⟩
    · rw [brand_of_firstRefusal hk] at h
      have ho := congrArg Outcome.verdict (Prod.mk.inj h).1
      rw [Outcome.verdict_map, Outcome.verdict_unit] at ho
      exact absurd ho hk.refused
  · rintro ⟨hall, rfl, hx⟩
    rw [← c.base_raise v] at hx
    rw [brand_of_allAccept hall, Tower.eq_of_base_eq _ hx]

theorem brand_eq_refused_iff (c : Chain σ π β marks) (v : Tower β marks) (w w' : World σ)
    {o : Outcome c.Error π Unit} (ho : o ≠ .accepted ()) :
    c.brand v w = (o.map fun _ => c.raise v, w') ↔
      ∃ k, c.FirstRefusal v w k o ∧ w' = c.leftBy v w (k + 1) := by
  constructor
  · intro h
    rcases allAccept_or_firstRefusal c v w with hall | ⟨k, o', hk⟩
    · rw [brand_of_allAccept hall] at h
      have ho' := congrArg Outcome.verdict (Prod.mk.inj h).1
      rw [Outcome.verdict_map, Outcome.verdict_unit] at ho'
      exact absurd ho'.symm ho
    · rw [brand_of_firstRefusal hk] at h
      have ho' := congrArg Outcome.verdict (Prod.mk.inj h).1
      rw [Outcome.verdict_map, Outcome.verdict_map, Outcome.verdict_unit,
        Outcome.verdict_unit] at ho'
      exact ⟨k, ho' ▸ hk, (Prod.mk.inj h).2.symm⟩
  · rintro ⟨k, hk, rfl⟩
    exact brand_of_firstRefusal hk

/-! ## The checks that run -/

/-- How many checks of a chain run: those up to the first that does not accept. -/
def turns : {marks : List Mark} → Chain σ π β marks → Tower β marks → World σ → Nat
  | _, .done, _, _ => 0
  | _, .link check _ rest, v, w => match (check v w).1 with
    | .accepted _ => rest.turns ⟨v⟩ (check v w).2 + 1
    | _ => 1

/-- The same chain beside a record, in which each check leaves its place, counted from a number on,
and the value that it found under the brands. -/
def recorded : {marks : List Mark} → Chain σ π β marks → Nat →
    Chain (σ × List (Nat × β)) π β marks
  | _, .done, _ => .done
  | marks, .link check mark rest, n =>
    .link (check.noting fun v => (n, Tower.base marks v)) mark (rest.recorded (n + 1))

section
variable {ε : Type} {check : Check σ ε π (Tower β marks)} {mark : Mark}
  {rest : Chain σ π β (mark :: marks)} {v : Tower β marks} {w : World σ}

theorem turns_link_of_accepted (h : (check v w).1 = .accepted ()) :
    (link check mark rest).turns v w = rest.turns ⟨v⟩ (check v w).2 + 1 := by
  simp only [turns, h]

theorem turns_link_of_refused (h : (check v w).1 ≠ .accepted ()) :
    (link check mark rest).turns v w = 1 := by
  unfold turns
  split
  · rename_i u hu
    exact absurd hu h
  · rfl

end

theorem turns_of_allAccept {c : Chain σ π β marks} {v : Tower β marks} {w : World σ}
    (h : c.AllAccept v w) : c.turns v w = c.length := by
  induction c generalizing w with
  | done => rfl
  | link check mark rest ih =>
    obtain ⟨hv, hrest⟩ := allAccept_link.mp h
    rw [turns_link_of_accepted hv, ih hrest]
    rfl

theorem turns_of_firstRefusal {c : Chain σ π β marks} {v : Tower β marks} {w : World σ} {k : Nat}
    {o : Outcome c.Error π Unit} (h : c.FirstRefusal v w k o) : c.turns v w = k + 1 := by
  induction c generalizing w k with
  | done => exact absurd h.verdict (by simp [verdictAt?])
  | link check mark rest ih =>
    cases k with
    | zero => exact turns_link_of_refused (firstRefusal_zero.mp h).2
    | succ k =>
      obtain ⟨hv, o', hk, rfl⟩ := firstRefusal_succ.mp h
      rw [turns_link_of_accepted hv, ih hk]

/-- Beside a record a chain does the same, and the record tells the checks that ran, each once and
in their order, with the value that came to the chain. -/
theorem brand_recorded (c : Chain σ π β marks) (v : Tower β marks) (w : World σ)
    (record : List (Nat × β)) (n : Nat) :
    ((c.recorded n).brand v (w.beside record)).2 =
      (c.brand v w).2.beside
        (record ++ (List.range' n (c.turns v w)).map fun i => (i, Tower.base marks v)) := by
  induction c generalizing w record n with
  | done => exact congrArg (World.beside w) (List.append_nil record).symm
  | @link marks ε check mark rest ih =>
    let noted : Check (σ × List (Nat × β)) ε π (Tower β marks) :=
      check.noting fun v => (n, Tower.base marks v)
    have hverdict : (noted v (w.beside record)).1 = (check v w).1 := rfl
    have hworld : (noted v (w.beside record)).2 =
        (check v w).2.beside (record ++ [(n, Tower.base marks v)]) := rfl
    by_cases hv : (check v w).1 = .accepted ()
    · have hrun : (recorded (link check mark rest) n).brand v (w.beside record) = _ :=
        brand_link_of_accepted (hverdict.trans hv)
      have hrest := ih ⟨v⟩ (check v w).2 (record ++ [(n, Tower.base marks v)]) (n + 1)
      rw [List.append_assoc] at hrest
      rw [turns_link_of_accepted hv, brand_link_of_accepted hv, List.range'_succ, List.map_cons,
        hrun, hworld]
      exact hrest
    · have hrun : (recorded (link check mark rest) n).brand v (w.beside record) = _ :=
        brand_link_of_refused (hverdict ▸ hv)
      rw [turns_link_of_refused hv, brand_link_of_refused hv, hrun]
      exact hworld

/-! ## The law -/

/-- A value comes through a chain exactly when each brander accepts in its turn. Otherwise the
first that does not accept decides: its error or its panic comes out as it was raised, the world is
the one that its check left, and no later check runs. A value that comes through carries one brand
for each brander, and unbranding it as often gives the value back. The stack of brands compares,
ranks, hashes and shows as the value under it does, and a copy of it copies that value once. -/
theorem a_chain_brands_what_every_brander_accepts (c : Chain σ π β []) (v : β) (w : World σ)
    (offers : Capabilities β) :
    (∀ x w', c.brand v w = (.accepted x, w') ↔
      c.AllAccept v w ∧ w' = c.leftBy v w c.length ∧ Tower.base c.reach x = v) ∧
    (∀ e w', c.brand v w = (.rejected e, w') ↔
      ∃ k, c.FirstRefusal v w k (.rejected e) ∧ w' = c.leftBy v w (k + 1)) ∧
    (∀ p w', c.brand v w = (.panicked p, w') ↔
      ∃ k, c.FirstRefusal v w k (.panicked p) ∧ w' = c.leftBy v w (k + 1)) ∧
    (∀ record, c.AllAccept v w →
      ((c.recorded 0).brand v (w.beside record)).2 =
        (c.leftBy v w c.length).beside (record ++ (List.range c.length).map fun i => (i, v))) ∧
    (∀ record k o, c.FirstRefusal v w k o →
      ((c.recorded 0).brand v (w.beside record)).2 =
        (c.leftBy v w (k + 1)).beside (record ++ (List.range (k + 1)).map fun i => (i, v))) ∧
    c.reach.length = c.length ∧
    (offers.tower c.reach).Forwards (Tower.base c.reach) offers := by
  refine ⟨fun x w' => c.brand_eq_accepted_iff v w w' x, fun e w' => ?_, fun p w' => ?_,
    fun record h => ?_, fun record k o h => ?_, ?_, offers.tower_forwards c.reach⟩
  · exact c.brand_eq_refused_iff v w w' (o := .rejected e) (by simp)
  · exact c.brand_eq_refused_iff v w w' (o := .panicked p) (by simp)
  · have hrun := c.brand_recorded v w record 0
    rw [turns_of_allAccept h, brand_of_allAccept h, ← List.range_eq_range'] at hrun
    exact hrun
  · have hrun := c.brand_recorded v w record 0
    rw [turns_of_firstRefusal h, brand_of_firstRefusal h, ← List.range_eq_range'] at hrun
    exact hrun
  · rw [length_reach, List.length_nil, Nat.zero_add]

end Chain

namespace Probe

/-- Branders that count themselves. The first takes probes with an even key, the second takes what
comes after one brander, the third panics at large keys, and the fourth takes everything. -/
def fourBranders : Chain Nat String Probe [] :=
  .link (fun v w => if v.key.value % 2 = 0 then (.accepted (), { w with state := w.state + 1 })
      else (.rejected v.label, w) : Check Nat String String Probe) ⟨.named "Even", .defaultField⟩ <|
  .link (fun _ w => if w.state = 1 then (.accepted (), { w with state := w.state + 1 })
      else (.rejected false, w)) ⟨.named "Second", .defaultField⟩ <|
  .link (fun v w => if (Tower.base [_, _] v).key.value < 10 then (.accepted (), w)
      else (.panicked "too large", { w with state := w.state + 5 }) :
        Check Nat Unit String (Tower Probe [_, _])) ⟨.named "Small", .defaultField⟩ <|
  .link (Check.anything : Check Nat Empty String _) ⟨.named "Last", .defaultField⟩ .done

/-- The third brander panics at a large key, and the fourth is never asked. A small key comes
through, and a copy of the four brands copies the probe under them once. -/
theorem the_fourth_brander_is_not_asked :
    let large : Probe := ⟨⟨12, by decide⟩, "large"⟩
    let small : Probe := ⟨⟨4, by decide⟩, "small"⟩
    let world : World Nat := ⟨0, []⟩
    fourBranders.FirstRefusal large world 2 (.panicked "too large") ∧
      ((fourBranders.recorded 0).brand large (world.beside [])).2 =
        World.beside ⟨7, []⟩ [(0, large), (1, large), (2, large)] ∧
      ((capabilities.tower fourBranders.reach).copy (fourBranders.raise small)).calls =
        [.clone] := by
  intro large small world
  have hthird : fourBranders.FirstRefusal large world 2 (.panicked "too large") := by
    refine ⟨rfl, by simp, fun i hi => ?_⟩
    match i, hi with
    | 0, _ => rfl
    | 1, _ => rfl
  obtain ⟨_, _, _, _, hrecord, _, hforwards⟩ :=
    Chain.a_chain_brands_what_every_brander_accepts fourBranders large world capabilities
  exact ⟨hthird, hrecord [] 2 _ hthird, congrArg Logged.calls (hforwards.copy _)⟩

end Probe

end NominalBrand
