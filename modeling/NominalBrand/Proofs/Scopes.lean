-- The laws of scope programs. A scope gets bare copies of the values around
-- it and gives back only what it puts out. So a program puts out what it
-- would over bare values, as far as copies are the values themselves; and a
-- nested scope can be taken out of a program without a trace but its list.
import NominalBrand.Base.Double
import NominalBrand.Base.Probe
import NominalBrand.BareProgram
import NominalBrand.Proofs.Erasure

namespace NominalBrand.ScopeProgram

variable {β : Type} {c : Capabilities β} {depth depth' : Nat}

/-! ## The values of a scope -/

/-- The values that a scope holds after a program. -/
def heldAfter (c : Capabilities β) (depth : Nat) (outer : List β)
    (values : List (Brand depth β)) (program : List (Instruction β)) : List (Brand depth β) :=
  program.foldl (fun values i => (perform c i depth outer values).2) values

theorem performAll_append (c : Capabilities β) (p r : List (Instruction β)) (outer : List β)
    (values : List (Brand depth β)) :
    performAll c (p ++ r) depth outer values =
      performAll c p depth outer values ++
        performAll c r depth outer (heldAfter c depth outer values p) := by
  induction p generalizing values with
  | nil => rfl
  | cons i p ih =>
    simp only [List.cons_append, performAll, heldAfter, List.foldl_cons, List.append_assoc]
    rw [ih]
    rfl

/-- Copying brands copies their bases. -/
theorem bases_copies (c : Capabilities β) (values : List (Brand depth β)) :
    Brand.bases (values.map fun v => ((c.brand depth).copy v).value) =
      (Brand.bases values).map fun v => (c.copy v).value := by
  unfold Brand.bases
  rw [List.map_map, List.map_map]
  rfl

theorem bareCopies_eq (c : Capabilities β) (values : List (Brand depth β)) :
    bareCopies c depth values = (Brand.bases values).map fun v => (c.copy v).value := by
  rw [← bases_copies]
  unfold bareCopies Brand.bases
  rw [List.map_map]
  rfl

theorem base_getElem? (values : List (Brand depth β)) (i : Nat) :
    (Brand.bases values)[i]? = values[i]?.map Brand.base := List.getElem?_map

theorem bases_append (values more : List (Brand depth β)) :
    Brand.bases (values ++ more) = Brand.bases values ++ Brand.bases more := List.map_append

/-- Two values of a scope answer as their bases do. -/
theorem both_eq (values : List (Brand depth β)) (i j : Nat) (ask : β → β → Item β) :
    both values i j (fun a b => ask a.base b.base) = bothBare (Brand.bases values) i j ask := by
  unfold both bothBare
  rw [base_getElem?, base_getElem?]
  rcases values[i]? with _ | a
  · rfl
  · rcases values[j]? with _ | b <;> rfl

theorem both_alike {values : List (Brand depth β)} {values' : List (Brand depth' β)}
    (h : Brand.bases values = Brand.bases values') (i j : Nat) (ask : β → β → Item β) :
    both values i j (fun a b => ask a.base b.base) =
      both values' i j (fun a b => ask a.base b.base) := by
  rw [both_eq, both_eq, h]

theorem shown_eq (c : Capabilities β) (values : List (Brand depth β)) :
    shown c depth values = shownBare c (Brand.bases values) := by
  unfold shown shownBare
  rcases hd : c.debug with _ | r
  · simp only [Capabilities.brand, hd, Option.map_none]
  · simp only [Capabilities.brand, hd, Option.map_some]
    have hitem : ∀ v : Brand depth β, r.brand depth {} v = r {} v.base := fun _ => rfl
    unfold Text.Rendering.list
    rw [Logged.each_map hitem]
    rfl

/-! ## Taking the brands out of a program -/

mutual

/-- Where copies are the values themselves, an instruction puts out what it does over bare values,
and leaves those values under the mark of its scope. -/
theorem perform_bare (hcopy : ∀ v, (c.copy v).value = v) : ∀ (i : Instruction β) (depth : Nat)
    (outer : List β) (values : List (Brand depth β)),
    performBare c i outer (Brand.bases values) =
      ((perform c i depth outer values).1, Brand.bases (perform c i depth outer values).2)
  | .call v, _, _, values => by simp only [perform, performBare, bases_append]; rfl
  | .brand v, _, _, values => by simp only [perform, performBare, bases_append]; rfl
  | .slice vs, depth, _, values => by
    simp only [perform, performBare, bases_append, bases_copies, Brand.bases_ofList, hcopy,
      List.map_id']
  | .bring i, _, outer, values => by
    rcases hv : outer[i]? with _ | v
    · simp only [perform, performBare, hv]
    · simp only [perform, performBare, hv, bases_append, hcopy]
      rfl
  | .putOut i, depth, _, values => by
    rcases hv : values[i]? with _ | v
    · simp only [perform, performBare, base_getElem?, hv, Option.map_none]
    · have hbase : ((c.brand depth).copy v).value.base = v.base := hcopy v.base
      simp only [perform, performBare, base_getElem?, hv, Option.map_some, hbase]
  | .eq i j, _, _, values => by
    simp only [perform, performBare]
    rw [← both_eq]
    rfl
  | .cmp i j, _, _, values => by
    simp only [perform, performBare]
    rw [← both_eq]
    rfl
  | .sum, _, _, values => by simp only [perform, performBare]
  | .size, _, _, values => by simp only [perform, performBare, Brand.bases, List.length_map]
  | .text, _, _, values => by simp only [perform, performBare, shown_eq]
  | .scope program, depth, _, values => by
    have hcopies : bareCopies c depth values = Brand.bases values := by
      rw [bareCopies_eq]
      simp only [hcopy, List.map_id']
    simp only [perform, performBare, hcopies]
    rw [performAll_bare hcopy program]
    rfl

theorem performAll_bare (hcopy : ∀ v, (c.copy v).value = v) : ∀ (program : List (Instruction β))
    (depth : Nat) (outer : List β) (values : List (Brand depth β)),
    performAll c program depth outer values = performAllBare c program outer (Brand.bases values)
  | [], _, _, _ => rfl
  | i :: rest, depth, outer, values => by
    simp only [performAll, performAllBare]
    rw [perform_bare hcopy i, performAll_bare hcopy rest]

end

/-- An instruction asks for a place where there is nothing, given how many values are around its
scope and how many the scope holds. -/
def Misses (around held : Nat) : Instruction β → Prop
  | .bring i => around ≤ i
  | .putOut i => held ≤ i
  | .eq i j | .cmp i j => held ≤ i ∨ held ≤ j
  | _ => False

theorem both_of_missing {values : List (Brand depth β)} {i j : Nat}
    (h : values.length ≤ i ∨ values.length ≤ j) (ask : Brand depth β → Brand depth β → Item β) :
    both values i j ask = .absent := by
  unfold both
  rcases h with h | h
  · rw [List.getElem?_eq_none h]
  · rw [List.getElem?_eq_none h]
    rcases values[i]? with _ | a <;> rfl

theorem perform_of_misses (c : Capabilities β) {i : Instruction β} {outer : List β}
    {values : List (Brand depth β)} (h : Misses outer.length values.length i) :
    perform c i depth outer values = ([.absent], values) := by
  cases i with
  | bring i => simp only [perform, List.getElem?_eq_none h]
  | putOut i => simp only [perform, List.getElem?_eq_none h]
  | eq i j | cmp i j => simp only [perform, both_of_missing h]
  | call _ | brand _ | slice _ | sum | size | text | scope _ => exact absurd h id

/-- A program puts out the same in scopes, each of which brands its values with a mark of its own,
as over bare values that nobody brands. In both, an instruction that asks for a place where nothing
is puts out that it is absent and changes no value; in the outermost scope nothing can be
imported. -/
theorem scopes_put_out_what_bare_values_would (hcopy : ∀ v, (c.copy v).value = v) :
    (∀ program, run c program = runBare c program) ∧
    (∀ program depth outer (values : List (Brand depth β)),
      performAll c program depth outer values =
        performAllBare c program outer (Brand.bases values)) ∧
    (∀ i depth outer (values : List (Brand depth β)), Misses outer.length values.length i →
      perform c i depth outer values = ([.absent], values) ∧
        performBare c i outer (Brand.bases values) = ([.absent], Brand.bases values)) ∧
    ∀ i (values : List (Brand 0 β)),
      perform c (.bring i) 0 [] values = ([.absent], values) ∧
        performBare c (.bring i) [] (Brand.bases values) = ([.absent], Brand.bases values) := by
  have hmisses : ∀ i depth outer (values : List (Brand depth β)),
      Misses outer.length values.length i →
      perform c i depth outer values = ([.absent], values) ∧
        performBare c i outer (Brand.bases values) = ([.absent], Brand.bases values) := by
    intro i depth outer values h
    have hbranded := perform_of_misses c h
    refine ⟨hbranded, ?_⟩
    rw [perform_bare hcopy i depth outer values, hbranded]
  refine ⟨fun program => performAll_bare hcopy program 0 [] [], performAll_bare hcopy, hmisses, ?_⟩
  intro i values
  exact hmisses (.bring i) 0 [] values (Nat.zero_le i)

/-- Two numbers, and what is no number: nothing equals it, and nothing is above or below it. A
scope imports it, and a place that is not there; a scope inside imports from that one. -/
theorem doubles_in_nested_scopes :
    let one : Double := ⟨0x3ff0000000000000⟩
    let nan : Double := ⟨0x7ff8000000000000⟩
    let program : List (Instruction Double) :=
      [.call one, .slice [nan], .eq 1 1, .cmp 0 1, .bring 0,
        .scope [.bring 1, .bring 7, .brand one, .cmp 0 1, .scope [.bring 1, .putOut 0, .size]],
        .putOut 2, .size]
    (∀ v, (Double.capabilities.copy v).value = v) ∧
      run Double.capabilities program = runBare Double.capabilities program ∧
      runBare Double.capabilities program =
        [.truth false, .ordering none, .absent,
          .nested [.absent, .ordering none, .nested [.value one, .count 1]], .absent,
          .count 2] := by
  intro one nan program
  have hcopy : ∀ v, (Double.capabilities.copy v).value = v := fun _ => rfl
  exact ⟨hcopy, (scopes_put_out_what_bare_values_would hcopy).1 program, rfl⟩

/-! ## What a program depends on -/

/-- The place around the scope that an instruction asks for. -/
def imported? : Instruction β → Option Nat
  | .bring i => some i
  | _ => none

/-- The places around its scope that a program asks for. What is nested in it asks for places of
its own scope. -/
def imports (program : List (Instruction β)) : List Nat := program.filterMap imported?

mutual

/-- In two scopes with the same bases, and with the same values at the places that it asks for, an
instruction puts out the same and leaves the same bases. -/
theorem perform_alike (c : Capabilities β) : ∀ (i : Instruction β) (depth depth' : Nat)
    (outer outer' : List β) (values : List (Brand depth β)) (values' : List (Brand depth' β)),
    Brand.bases values = Brand.bases values' →
    (∀ k, imported? i = some k → outer[k]? = outer'[k]?) →
    (perform c i depth outer values).1 = (perform c i depth' outer' values').1 ∧
      Brand.bases (perform c i depth outer values).2 =
        Brand.bases (perform c i depth' outer' values').2
  | .call v, _, _, _, _, values, values', hbases, _ => by
    refine ⟨rfl, ?_⟩
    simp only [perform, bases_append, hbases]
    rfl
  | .brand v, _, _, _, _, values, values', hbases, _ => by
    refine ⟨rfl, ?_⟩
    simp only [perform, bases_append, hbases]
    rfl
  | .slice vs, _, _, _, _, values, values', hbases, _ => by
    refine ⟨rfl, ?_⟩
    simp only [perform, bases_append, hbases, bases_copies, Brand.bases_ofList]
  | .bring i, _, _, outer, outer', values, values', hbases, houter => by
    have hi : outer[i]? = outer'[i]? := houter i rfl
    rcases hv : outer'[i]? with _ | v
    · simp only [perform, hi, hv, true_and]
      exact hbases
    · simp only [perform, hi, hv, true_and, bases_append, hbases]
      rfl
  | .putOut i, depth, depth', _, _, values, values', hbases, _ => by
    have hi : values[i]?.map Brand.base = values'[i]?.map Brand.base := by
      rw [← base_getElem?, ← base_getElem?, hbases]
    rcases hv : values[i]? with _ | v
    · rcases hv' : values'[i]? with _ | v'
      · simp only [perform, hv, hv', true_and]
        exact hbases
      · simp [hv, hv'] at hi
    · rcases hv' : values'[i]? with _ | v'
      · simp [hv, hv'] at hi
      · have hbase : v.base = v'.base := by simpa [hv, hv'] using hi
        simp only [perform, hv, hv']
        exact ⟨congrArg (fun b => [Item.value (c.copy b).value]) hbase, hbases⟩
  | .eq i j, _, _, _, _, values, values', hbases, _ => by
    refine ⟨congrArg (fun x => [x]) ?_, hbases⟩
    exact both_alike hbases i j fun a b => .truth (c.comparison.eq a b).value
  | .cmp i j, _, _, _, _, values, values', hbases, _ => by
    refine ⟨congrArg (fun x => [x]) ?_, hbases⟩
    exact both_alike hbases i j fun a b => .ordering (c.comparison.partialCmp a b).value
  | .sum, _, _, _, _, values, values', hbases, _ =>
    ⟨congrArg (fun bases => [Item.total (sum c bases)]) hbases, hbases⟩
  | .size, _, _, _, _, values, values', hbases, _ => by
    have hlength : values.length = values'.length := by
      simpa only [Brand.bases, List.length_map] using congrArg List.length hbases
    exact ⟨congrArg (fun n => [Item.count n]) hlength, hbases⟩
  | .text, _, _, _, _, values, values', hbases, _ => by
    refine ⟨congrArg (fun x => [x]) ?_, hbases⟩
    rw [shown_eq, shown_eq, hbases]
  | .scope program, depth, depth', _, _, values, values', hbases, _ => by
    refine ⟨?_, hbases⟩
    have hcopies : bareCopies c depth values = bareCopies c depth' values' := by
      rw [bareCopies_eq, bareCopies_eq, hbases]
    -- The scope inside begins without values of its own, and its surroundings are the same copies.
    have hinner := performAll_alike c program (depth + 1) (depth' + 1)
      (bareCopies c depth values) (bareCopies c depth' values') [] [] rfl fun k _ => by rw [hcopies]
    simp only [perform, hinner]

theorem performAll_alike (c : Capabilities β) : ∀ (program : List (Instruction β))
    (depth depth' : Nat) (outer outer' : List β) (values : List (Brand depth β))
    (values' : List (Brand depth' β)), Brand.bases values = Brand.bases values' →
    (∀ k ∈ imports program, outer[k]? = outer'[k]?) →
    performAll c program depth outer values = performAll c program depth' outer' values'
  | [], _, _, _, _, _, _, _, _ => rfl
  | i :: rest, depth, depth', outer, outer', values, values', hbases, houter => by
    have hfirst : ∀ k, imported? i = some k → outer[k]? = outer'[k]? := by
      intro k hk
      exact houter k (List.mem_filterMap.mpr ⟨i, List.mem_cons_self, hk⟩)
    have hrest : ∀ k ∈ imports rest, outer[k]? = outer'[k]? := by
      intro k hk
      obtain ⟨j, hj, hjk⟩ := List.mem_filterMap.mp hk
      exact houter k (List.mem_filterMap.mpr ⟨j, List.mem_cons_of_mem i hj, hjk⟩)
    obtain ⟨hitems, hleft⟩ :=
      perform_alike c i depth depth' outer outer' values values' hbases hfirst
    simp only [performAll]
    rw [hitems, performAll_alike c rest depth depth' outer outer' _ _ hleft hrest]

end

/-! ## Scopes around a scope -/

/-- A scope around a place: its program before the place and after it. -/
structure Around (β : Type) where
  before : List (Instruction β)
  after : List (Instruction β)

/-- A program with another one in nested scopes, the outermost scope first. -/
def within : List (Around β) → List (Instruction β) → List (Instruction β)
  | [], program => program
  | a :: inner, program => a.before ++ .scope (within inner program) :: a.after

/-- How deep a place is, and the bare values around the scope there. -/
def place (c : Capabilities β) : List (Around β) → Nat → List β → Nat × List β
  | [], depth, outer => (depth, outer)
  | a :: inner, depth, outer =>
    place c inner (depth + 1) (bareCopies c depth (heldAfter c depth outer [] a.before))

/-- What the scopes around a place put out, when `items` are put out at the place. -/
def surrounded (c : Capabilities β) :
    List (Around β) → Nat → List β → List (Item β) → List (Item β)
  | [], _, _, items => items
  | a :: inner, depth, outer, items =>
    let held := heldAfter c depth outer [] a.before
    performAll c a.before depth outer [] ++
      .nested (surrounded c inner (depth + 1) (bareCopies c depth held) items) ::
        performAll c a.after depth outer held

theorem performAll_around_scope (c : Capabilities β) (p q r : List (Instruction β))
    (outer : List β) (values : List (Brand depth β)) :
    let held := heldAfter c depth outer values p
    performAll c (p ++ .scope q :: r) depth outer values =
      performAll c p depth outer values ++
        .nested (performAll c q (depth + 1) (bareCopies c depth held) []) ::
          performAll c r depth outer held := by
  intro held
  rw [performAll_append]
  rfl

/-- The scopes around a place put out the same, whatever is done at the place. -/
theorem performAll_within (c : Capabilities β) (around : List (Around β))
    (program : List (Instruction β)) (depth : Nat) (outer : List β) :
    performAll c (within around program) depth outer [] =
      surrounded c around depth outer
        (performAll c program (place c around depth outer).1
          (place c around depth outer).2 []) := by
  induction around generalizing depth outer with
  | nil => rfl
  | cons a inner ih =>
    simp only [within, surrounded, place]
    rw [performAll_around_scope, ih]

theorem heldAfter_scope (c : Capabilities β) (p q r : List (Instruction β)) (outer : List β)
    (values : List (Brand depth β)) :
    heldAfter c depth outer values (p ++ .scope q :: r) =
      heldAfter c depth outer values (p ++ r) := by
  unfold heldAfter
  rw [List.foldl_append, List.foldl_append]
  rfl

/-- In a program a nested scope leaves the list that it puts out and nothing else. Before and after
that list stands what the program puts out without the scope, in the scope around it and in all the
scopes around that one, and the values held there are the same. The list itself depends on the
values around the scope only at the places that it imports, as they are when it begins. -/
theorem a_nested_scope_leaves_only_its_list (c : Capabilities β) (p q r : List (Instruction β)) :
    (let held := heldAfter c 0 [] [] p
     run c (p ++ .scope q :: r) =
         run c p ++ .nested (performAll c q 1 (bareCopies c 0 held) []) ::
           performAll c r 0 [] held ∧
       run c (p ++ r) = run c p ++ performAll c r 0 [] held) ∧
    (∀ around : List (Around β),
      let depth := (place c around 0 []).1
      let outer := (place c around 0 []).2
      let held := heldAfter c depth outer [] p
      run c (within around (p ++ .scope q :: r)) =
          surrounded c around 0 [] (performAll c p depth outer [] ++
            .nested (performAll c q (depth + 1) (bareCopies c depth held) []) ::
              performAll c r depth outer held) ∧
        run c (within around (p ++ r)) =
          surrounded c around 0 [] (performAll c p depth outer [] ++
            performAll c r depth outer held)) ∧
    (∀ depth outer (values : List (Brand depth β)),
      heldAfter c depth outer values (p ++ .scope q :: r) =
        heldAfter c depth outer values (p ++ r)) ∧
    ∀ depth depth' outer outer' (values : List (Brand depth β)) (values' : List (Brand depth' β)),
      (∀ i ∈ imports q, values[i]?.map Brand.base = values'[i]?.map Brand.base) →
      (perform c (.scope q) depth outer values).1 =
        (perform c (.scope q) depth' outer' values').1 := by
  refine ⟨⟨?scope, ?without⟩, fun around => ⟨?within, ?withoutWithin⟩, ?held, ?imports⟩
  case scope => exact performAll_around_scope c p q r [] []
  case without => exact performAll_append c p r [] []
  case within =>
    unfold run
    rw [performAll_within, performAll_around_scope]
  case withoutWithin =>
    unfold run
    rw [performAll_within, performAll_append]
  case held => exact fun depth outer values => heldAfter_scope c p q r outer values
  case imports =>
    intro depth depth' outer outer' values values' h
    have hcopies : ∀ i ∈ imports q,
        (bareCopies c depth values)[i]? = (bareCopies c depth' values')[i]? := by
      intro i hi
      rw [bareCopies_eq, bareCopies_eq, List.getElem?_map, List.getElem?_map, base_getElem?,
        base_getElem?, h i hi]
    have hsame := performAll_alike c q (depth + 1) (depth' + 1) _ _ [] [] rfl hcopies
    simp only [perform, hsame]

/-- Each copy of a probe has one more stroke on its label. A scope in two different surroundings
imports a place where both have the same probe, and one where neither has any; every level that the
probe passes adds strokes, and the probe outside keeps its own. -/
theorem strokes_stay_on_the_copies :
    let a : Probe := ⟨⟨1, by decide⟩, "a"⟩
    let b (label : String) : Probe := ⟨⟨2, by decide⟩, label⟩
    let q : List (Instruction Probe) :=
      [.bring 1, .bring 5, .putOut 0, .scope [.bring 0, .putOut 0]]
    let values : List (Brand 0 Probe) := [⟨a⟩, ⟨b "b"⟩]
    let values' : List (Brand 3 Probe) := [⟨b "c"⟩, ⟨b "b"⟩, ⟨a⟩]
    (∀ i ∈ imports q, values[i]?.map Brand.base = values'[i]?.map Brand.base) ∧
      (perform Probe.capabilities (.scope q) 0 [] values).1 =
        (perform Probe.capabilities (.scope q) 3 [a] values').1 ∧
      run Probe.capabilities [.call a, .call (b "b"), .scope q, .putOut 1] =
        [.nested [.absent, .value (b "b'''"), .nested [.value (b "b'''''")]], .value (b "b'")] := by
  intro a b q values values'
  have hsame : ∀ i ∈ imports q, values[i]?.map Brand.base = values'[i]?.map Brand.base := by
    intro i hi
    rcases List.mem_cons.mp hi with rfl | hi
    · rfl
    · rw [List.mem_singleton.mp hi]
      rfl
  have hlaw := a_nested_scope_leaves_only_its_list Probe.capabilities [.call a, .call (b "b")] q
    [.putOut 1]
  exact ⟨hsame, hlaw.2.2.2 0 3 [] [a] values values' hsame, rfl⟩

end NominalBrand.ScopeProgram
