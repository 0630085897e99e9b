-- The laws of workers who share one brander. The brander decides by the value
-- alone and records what it checks. What a worker has still to do is then
-- settled before any turn is taken: a turn moves a part of it into the results
-- and the record, and the turns of the others leave it alone. So a schedule
-- decides nothing but the order in which the workers' records are merged.
import NominalBrand.Proofs.Batches
import NominalBrand.Workshop

namespace NominalBrand

variable {σ ε π ρ α β : Type} {mark : Mark}

/-! ## Merging lists -/

/-- A list that takes its items from several lists, each time the first item that is left of one of
them, until nothing is left of any. -/
inductive Merges : List (List α) → List α → Prop where
  | done {lists : List (List α)} (h : ∀ l ∈ lists, l = []) : Merges lists []
  | next {lists : List (List α)} {i : Nat} {a : α} {rest merged : List α}
      (hi : lists[i]? = some (a :: rest)) (h : Merges (lists.set i rest) merged) :
      Merges lists (a :: merged)

/-- Merging loses no item and adds none. -/
theorem Merges.perm {lists : List (List α)} {merged : List α} (h : Merges lists merged) :
    merged.Perm lists.flatten := by
  induction h with
  | done h =>
    rw [List.flatten_eq_nil_iff.mpr h]
  | @next lists i a rest merged hi _ ih =>
    obtain ⟨hlt, hget⟩ := List.getElem?_eq_some_iff.mp hi
    have hlists : lists = lists.take i ++ (a :: rest) :: lists.drop (i + 1) := by
      rw [← hget, List.getElem_cons_drop, List.take_append_drop]
    have hset : lists.set i rest = lists.take i ++ rest :: lists.drop (i + 1) :=
      List.set_eq_take_append_cons_drop.trans (if_pos hlt)
    rw [hset] at ih
    rw [hlists]
    simp only [List.flatten_append, List.flatten_cons, List.cons_append] at ih ⊢
    exact (ih.cons a).trans List.perm_middle.symm

theorem set_eq_self {l : List α} {i : Nat} {a : α} (h : l[i]? = some a) : l.set i a = l := by
  obtain ⟨hlt, rfl⟩ := List.getElem?_eq_some_iff.mp h
  exact List.set_getElem_self hlt

/-! ## Checks that only record -/

/-- Nothing happened yet, and nothing is recorded. -/
def World.unrecorded : World (List β) := ⟨[], []⟩

namespace Check

/-- A check whose verdict depends on the value alone, and that does nothing to the outside state
but record the value, the latest first. -/
structure OnlyRecords (c : Check (List β) ε π β) : Prop where
  verdict : ∀ v w w', (c v w).1 = (c v w').1
  record : ∀ v w, (c v w).2.state = v :: w.state

namespace OnlyRecords

variable {c : Check (List β) ε π β}

/-- A list ends the same in every world, and the same values are checked. -/
theorem each (h : c.OnlyRecords) (values : List β) (w : World (List β)) :
    (c.each values w).1 = (c.each values .unrecorded).1 ∧
      c.checked w values = c.checked .unrecorded values := by
  -- The rest of a list begins in the world that its head left, so both worlds must be arbitrary.
  have hworlds : ∀ w w', (c.each values w).1 = (c.each values w').1 ∧
      c.checked w values = c.checked w' values := by
    induction values with
    | nil => exact fun w w' => ⟨rfl, rfl⟩
    | cons v vs ih =>
      intro w w'
      by_cases ha : (c v w).1 = .accepted ()
      · have ha' : (c v w').1 = .accepted () := by rw [h.verdict v w' w, ha]
        obtain ⟨heach, hchecked⟩ := ih (c v w).2 (c v w').2
        rw [each_cons_of_accepted ha, each_cons_of_accepted ha', checked_cons_of_accepted ha,
          checked_cons_of_accepted ha', heach, hchecked]
        exact ⟨rfl, rfl⟩
      · have ha' : (c v w').1 ≠ .accepted () := by rw [h.verdict v w' w]; exact ha
        rw [each_cons_of_refused ha, each_cons_of_refused ha', checked_cons_of_refused ha,
          checked_cons_of_refused ha']
        exact ⟨h.verdict v w w', rfl⟩
  exact hworlds w .unrecorded

/-- What a list leaves on the record is the values of it that were checked. -/
theorem state_each (h : c.OnlyRecords) (values : List β) (w : World (List β)) :
    (c.each values w).2.state = (c.checked .unrecorded values).reverse ++ w.state := by
  rw [← (h.each values w).2]
  induction values generalizing w with
  | nil => rfl
  | cons v vs ih =>
    by_cases ha : (c v w).1 = .accepted ()
    · rw [each_cons_of_accepted ha, checked_cons_of_accepted ha, ih, h.record, List.reverse_cons,
        List.append_assoc, List.singleton_append]
    · rw [each_cons_of_refused ha, checked_cons_of_refused ha, h.record]
      rfl

theorem cons_of_accepted (h : c.OnlyRecords) {v : β} {w : World (List β)}
    (ha : (c v w).1 = .accepted ()) (vs : List β) :
    (c.each (v :: vs) .unrecorded).1 = (c.each vs .unrecorded).1 ∧
      c.checked .unrecorded (v :: vs) = v :: c.checked .unrecorded vs := by
  have hv : (c v .unrecorded).1 = .accepted () := by rw [h.verdict v _ w, ha]
  obtain ⟨heach, hchecked⟩ := h.each vs (c v .unrecorded).2
  rw [each_cons_of_accepted hv, checked_cons_of_accepted hv, heach, hchecked]
  exact ⟨rfl, rfl⟩

theorem cons_of_refused (h : c.OnlyRecords) {v : β} {w : World (List β)}
    (hr : (c v w).1 ≠ .accepted ()) (vs : List β) :
    (c.each (v :: vs) .unrecorded).1 = (c v w).1 ∧ c.checked .unrecorded (v :: vs) = [v] := by
  have hv : (c v .unrecorded).1 ≠ .accepted () := by rw [h.verdict v _ w]; exact hr
  rw [each_cons_of_refused hv, checked_cons_of_refused hv]
  exact ⟨h.verdict v _ w, rfl⟩

end OnlyRecords

end Check

/-! ## The shared brander -/

/-- A stored validator over functions that record values records each of them once, however it is
wrapped, and ends in a way that depends on the value alone. -/
theorem Validator.run_recording (base : TypeExpr) (alarm : ε → π) (decide : β → Outcome ε π ρ)
    (tracing : Bool) (x : Validator Unit) :
    ∃ ends : β → Outcome ε π ρ, ∀ v w,
      (x.routine (recording base alarm decide) v).run tracing w =
        (ends v, { w with state := v :: w.state }) := by
  induction x with
  | function h => exact ⟨decide, fun v w => rfl⟩
  | infallible h => exact ⟨fun v => (decide v).escalate alarm, fun v w => rfl⟩
  | assertion inner ih =>
    obtain ⟨ends, h⟩ := ih
    refine ⟨fun v => (ends v).escalate alarm, fun v w => ?_⟩
    simp only [routine]
    rw [Routine.run_escalate, h]
    rfl
  | reference target ih => exact ih

theorem Brander.onlyRecords (base : TypeExpr) (alarm : ε → π) (decide : β → Outcome ε π ρ)
    (tracing : Bool) (m : Mark) (x : Validator Unit) (n : Nat) :
    let b := (Brander.validated m x).borrowed n
    (b.check (recording base alarm decide) tracing).OnlyRecords := by
  intro b
  obtain ⟨ends, h⟩ := x.run_recording base alarm decide tracing
  unfold b
  rw [check_borrowed]
  refine ⟨fun v w w' => ?_, fun v w => ?_⟩
  · simp only [check, h]
  · simp only [check, h, World.state_record]

/-! ## One worker -/

/-- A task as one request to the brander. -/
def Task.perform (c : Check σ ε π β) (mark : Mark) : Task β → Action σ ε π (List (Brand mark β))
  | .one v => do return [← c.brand mark v]
  | .inPlace v => do return [← c.brandInPlace mark v]
  | .list vs => c.brandEach mark vs

namespace Worker

/-- A worker who has the brander alone: how the tasks end, one after the other, and the world that
they leave. -/
def alone (c : Check σ ε π β) (mark : Mark) :
    List (Task β) → World σ → List (Outcome ε π (List (Brand mark β))) × World σ
  | [], w => ([], w)
  | task :: tasks, w =>
    let (o, w) := task.perform c mark w
    let (os, w) := alone c mark tasks w
    (o :: os, w)

/-- What a worker can do in one turn. -/
inductive Turn (c : Check σ ε π β) (w : World σ) :
    Worker ε π mark β → Worker ε π mark β → World σ → Prop where
  | rest {results} : Turn c w ⟨[], none, results⟩ ⟨[], none, results⟩ w
  | begin {task tasks results} :
      Turn c w ⟨task :: tasks, none, results⟩ ⟨tasks, some (task.values, task.values), results⟩ w
  | accept {tasks all v vs results} (h : (c v w).1 = .accepted ()) :
      Turn c w ⟨tasks, some (all, v :: vs), results⟩ ⟨tasks, some (all, vs), results⟩ (c v w).2
  | refuse {tasks all v vs results} (h : (c v w).1 ≠ .accepted ()) :
      Turn c w ⟨tasks, some (all, v :: vs), results⟩
        ⟨tasks, none, ((c v w).1.map fun _ => Brand.ofList mark all) :: results⟩ (c v w).2
  | finish {tasks all results} :
      Turn c w ⟨tasks, some (all, []), results⟩
        ⟨tasks, none, .accepted (Brand.ofList mark all) :: results⟩ w

theorem turn_of_accepted {c : Check σ ε π β} {v : β} {w : World σ} (h : (c v w).1 = .accepted ())
    (tasks : List (Task β)) (all vs : List β)
    (results : List (Outcome ε π (List (Brand mark β)))) :
    turn c ⟨tasks, some (all, v :: vs), results⟩ w =
      (⟨tasks, some (all, vs), results⟩, (c v w).2) := by
  rcases hc : c v w with ⟨o, w'⟩
  rw [hc] at h
  simp only at h
  simp only [turn, hc, h]

theorem turn_of_refused {c : Check σ ε π β} {v : β} {w : World σ} (h : (c v w).1 ≠ .accepted ())
    (tasks : List (Task β)) (all vs : List β)
    (results : List (Outcome ε π (List (Brand mark β)))) :
    turn c ⟨tasks, some (all, v :: vs), results⟩ w =
      (⟨tasks, none, ((c v w).1.map fun _ => Brand.ofList mark all) :: results⟩, (c v w).2) := by
  rcases hc : c v w with ⟨o, w'⟩
  rw [hc] at h
  simp only [turn, hc]
  cases o with
  | accepted u => exact absurd rfl h
  | rejected e => rfl
  | panicked p => rfl

theorem Turn.of_turn (c : Check σ ε π β) (k : Worker ε π mark β) (w : World σ) :
    Turn c w k (k.turn c w).1 (k.turn c w).2 := by
  rcases k with ⟨tasks, _ | ⟨all, _ | ⟨v, vs⟩⟩, results⟩
  · cases tasks with
    | nil => exact .rest
    | cons task tasks => exact .begin
  · exact .finish
  · by_cases h : (c v w).1 = .accepted ()
    · rw [turn_of_accepted h]
      exact .accept h
    · rw [turn_of_refused h]
      exact .refuse h

/-! ## What a worker has still to do -/

/-- The lists that a worker has still to check, each with the whole list that is to be branded. -/
def toDo (k : Worker ε π mark β) : List (List β × List β) :=
  k.current.toList ++ k.waiting.map fun t => (t.values, t.values)

/-- How the branding of a whole list ends, when the second list of it is still to be checked. -/
def ending (c : Check (List β) ε π β) (mark : Mark) (job : List β × List β) :
    Outcome ε π (List (Brand mark β)) :=
  (c.each job.2 .unrecorded).1.map fun _ => Brand.ofList mark job.1

/-- The results that a worker has, and then those that are to come. -/
def allResults (c : Check (List β) ε π β) (k : Worker ε π mark β) :
    List (Outcome ε π (List (Brand mark β))) := k.results.reverse ++ k.toDo.map (ending c mark)

/-- The values that a worker is to check yet, in order. -/
def ahead (c : Check (List β) ε π β) (k : Worker ε π mark β) : List β :=
  k.toDo.flatMap fun job => c.checked .unrecorded job.2

section
variable {c : Check (List β) ε π β} {k k' : Worker ε π mark β} {w w' : World (List β)}

/-- A turn only moves a result from those that are to come to those that are there. -/
theorem Turn.allResults (h : c.OnlyRecords) (ht : Turn c w k k' w') :
    k'.allResults c = k.allResults c := by
  cases ht with
  | rest => rfl
  | begin => rfl
  | @accept tasks all v vs results ha =>
    have hending : ending c mark (all, v :: vs) = ending c mark (all, vs) :=
      congrArg (Outcome.map _) (h.cons_of_accepted ha vs).1
    simp only [Worker.allResults, toDo, Option.toList_some, List.singleton_append, List.map_cons,
      hending]
  | @refuse tasks all v vs results hr =>
    have hending : ending c mark (all, v :: vs) = (c v w).1.map fun _ => Brand.ofList mark all :=
      congrArg (Outcome.map _) (h.cons_of_refused hr vs).1
    simp only [Worker.allResults, toDo, Option.toList_some, Option.toList_none,
      List.singleton_append, List.nil_append, List.map_cons, hending, List.reverse_cons,
      List.append_assoc]
  | @finish tasks all results =>
    have hending : ending c mark (all, []) = .accepted (Brand.ofList mark all) := rfl
    simp only [Worker.allResults, toDo, Option.toList_some, Option.toList_none,
      List.singleton_append, List.nil_append, List.map_cons, hending, List.reverse_cons,
      List.append_assoc]

/-- A turn records nothing, or it records the next value that the worker is to check. -/
theorem Turn.ahead (h : c.OnlyRecords) (ht : Turn c w k k' w') :
    (w'.state = w.state ∧ k'.ahead c = k.ahead c) ∨
      ∃ v, w'.state = v :: w.state ∧ k.ahead c = v :: k'.ahead c := by
  cases ht with
  | rest => exact Or.inl ⟨rfl, rfl⟩
  | begin => exact Or.inl ⟨rfl, rfl⟩
  | @accept tasks all v vs results ha =>
    refine Or.inr ⟨v, h.record v w, ?_⟩
    simp only [Worker.ahead, toDo, Option.toList_some, List.singleton_append, List.flatMap_cons]
    rw [(h.cons_of_accepted ha vs).2, List.cons_append]
  | @refuse tasks all v vs results hr =>
    refine Or.inr ⟨v, h.record v w, ?_⟩
    simp only [Worker.ahead, toDo, Option.toList_some, Option.toList_none, List.singleton_append,
      List.nil_append, List.flatMap_cons]
    rw [(h.cons_of_refused hr vs).2, List.singleton_append]
  | finish => exact Or.inl ⟨rfl, rfl⟩

end

/-! ## A worker alone -/

theorem perform_yields (c : Check σ ε π β) (mark : Mark) (task : Task β) :
    c.Yields task.values (task.perform c mark) (Brand.ofList mark task.values) := by
  cases task with
  | one v => exact (Check.Yields.brand c mark v).map fun b => [b]
  | inPlace v => exact (Check.Yields.brandInPlace c mark v).map fun b => [b]
  | list vs => exact Check.Yields.brandEach c mark vs

/-- Tasks that nobody interrupts end as they are bound to, and leave their values on the record. -/
theorem alone_eq {c : Check (List β) ε π β} (h : c.OnlyRecords) (tasks : List (Task β))
    (w : World (List β)) :
    (alone c mark tasks w).1 = (⟨tasks, none, []⟩ : Worker ε π mark β).allResults c ∧
      (alone c mark tasks w).2.state =
        ((⟨tasks, none, []⟩ : Worker ε π mark β).ahead c).reverse ++ w.state := by
  induction tasks generalizing w with
  | nil => exact ⟨rfl, rfl⟩
  | cons task tasks ih =>
    obtain ⟨hresults, hstate⟩ := ih (task.perform c mark w).2
    have hfirst : (task.perform c mark w).1 = ending c mark (task.values, task.values) := by
      rw [perform_yields c mark task w]
      exact congrArg (Outcome.map _) (h.each task.values w).1
    have hrecord : (task.perform c mark w).2.state =
        (c.checked .unrecorded task.values).reverse ++ w.state := by
      rw [perform_yields c mark task w]
      exact h.state_each task.values w
    constructor
    · simp only [alone, hresults, hfirst]
      rfl
    · simp only [alone, hstate, hrecord]
      simp only [ahead, toDo, Option.toList_none, List.nil_append, List.map_cons,
        List.flatMap_cons, List.reverse_append, List.append_assoc]

/-! ## How long a worker takes -/

/-- The turns that are enough for a worker to finish. -/
def turnsLeft (k : Worker ε π mark β) : Nat :=
  (k.current.map fun job => job.2.length + 1).getD 0 + k.turns

theorem turns_cons (task : Task β) (tasks : List (Task β)) (current)
    (results : List (Outcome ε π (List (Brand mark β)))) :
    turns ⟨task :: tasks, current, results⟩ =
      task.values.length + 2 + turns ⟨tasks, current, results⟩ := by
  have hshift : ∀ (tasks : List (Task β)) (n : Nat),
      tasks.foldl (fun n t => n + (t.values.length + 2)) n =
        n + tasks.foldl (fun n t => n + (t.values.length + 2)) 0 := by
    intro tasks
    induction tasks with
    | nil => intro n; rfl
    | cons t ts ih =>
      intro n
      simp only [List.foldl_cons]
      rw [ih, ih (0 + _)]
      omega
  unfold turns
  simp only [List.foldl_cons]
  rw [hshift, Nat.zero_add]

theorem turnsLeft_idle (tasks : List (Task β))
    (results : List (Outcome ε π (List (Brand mark β)))) :
    turnsLeft ⟨tasks, none, results⟩ = turns (⟨tasks, none, []⟩ : Worker ε π mark β) :=
  Nat.zero_add _

theorem turnsLeft_busy (tasks : List (Task β)) (all left : List β)
    (results : List (Outcome ε π (List (Brand mark β)))) :
    turnsLeft ⟨tasks, some (all, left), results⟩ =
      left.length + 1 + turns (⟨tasks, none, []⟩ : Worker ε π mark β) := rfl

/-- A turn brings a worker who is not done one turn nearer to the end. -/
theorem Turn.turnsLeft {c : Check σ ε π β} {k k' : Worker ε π mark β} {w w' : World σ}
    (ht : Turn c w k k' w') : k'.turnsLeft ≤ k.turnsLeft - 1 := by
  cases ht with
  | rest => exact Nat.le_refl 0
  | begin =>
    rw [turnsLeft_busy, turnsLeft_idle, turns_cons]
    omega
  | accept _ =>
    rw [turnsLeft_busy, turnsLeft_busy, List.length_cons]
    omega
  | refuse _ =>
    rw [turnsLeft_idle, turnsLeft_busy]
    omega
  | finish =>
    rw [turnsLeft_idle, turnsLeft_busy, List.length_nil]
    omega

theorem done_of_turnsLeft_eq_zero {k : Worker ε π mark β} (h : k.turnsLeft = 0) :
    k.current = none ∧ k.waiting = [] := by
  rcases k with ⟨_ | ⟨task, tasks⟩, _ | ⟨all, left⟩, results⟩
  · exact ⟨rfl, rfl⟩
  · rw [turnsLeft_busy] at h
    omega
  · rw [turnsLeft_idle, turns_cons] at h
    omega
  · rw [turnsLeft_busy] at h
    omega

end Worker

/-! ## Taking turns -/

namespace Workshop

/-- Nobody has anything left to do. -/
def Finished (s : Workshop σ ε π mark β) : Prop :=
  ∀ k ∈ s.workers, k.current = none ∧ k.waiting = []

theorem step_of_none {c : Check σ ε π β} {s : Workshop σ ε π mark β} {i : Nat}
    (h : s.workers[i]? = none) : s.step c i = s := by
  unfold step
  rw [h]

theorem step_of_some {c : Check σ ε π β} {s : Workshop σ ε π mark β} {i : Nat}
    {k : Worker ε π mark β} (h : s.workers[i]? = some k) :
    s.step c i = ⟨s.workers.set i (k.turn c s.world).1, (k.turn c s.world).2⟩ := by
  unfold step
  rw [h]

/-- What turns do, of whichever workers: no result that is there or to come changes, and what they
record is taken from the front of what the workers were to check. -/
structure Leads (c : Check (List β) ε π β) (s s' : Workshop (List β) ε π mark β)
    (recorded : List β) : Prop where
  results : s'.workers.map (Worker.allResults c) = s.workers.map (Worker.allResults c)
  record : s'.world.state = recorded.reverse ++ s.world.state
  merges : ∀ later, Merges (s'.workers.map (Worker.ahead c)) later →
    Merges (s.workers.map (Worker.ahead c)) (recorded ++ later)

variable {c : Check (List β) ε π β} {s s' s'' : Workshop (List β) ε π mark β}

theorem Leads.refl (c : Check (List β) ε π β) (s : Workshop (List β) ε π mark β) :
    Leads c s s [] := ⟨rfl, rfl, fun _ hlater => hlater⟩

theorem Leads.trans {first second : List β} (h : Leads c s s' first) (h' : Leads c s' s'' second) :
    Leads c s s'' (first ++ second) := by
  refine ⟨h'.results.trans h.results, ?_, fun later hlater => ?_⟩
  · rw [h'.record, h.record, List.reverse_append, List.append_assoc]
  · rw [List.append_assoc]
    exact h.merges _ (h'.merges later hlater)

theorem leads_step (h : c.OnlyRecords) (s : Workshop (List β) ε π mark β) (i : Nat) :
    ∃ recorded, Leads c s (s.step c i) recorded := by
  rcases hi : s.workers[i]? with _ | k
  · rw [step_of_none hi]
    exact ⟨[], .refl c s⟩
  · have hturn := Worker.Turn.of_turn c k s.world
    have hresults : (s.workers.set i (k.turn c s.world).1).map (Worker.allResults c) =
        s.workers.map (Worker.allResults c) := by
      rw [List.map_set, hturn.allResults h]
      exact set_eq_self (by rw [List.getElem?_map, hi, Option.map_some])
    have hahead : (s.workers.map (Worker.ahead c))[i]? = some (k.ahead c) := by
      rw [List.getElem?_map, hi, Option.map_some]
    rw [step_of_some hi]
    rcases hturn.ahead h with ⟨hstate, hsame⟩ | ⟨v, hstate, hnext⟩
    · refine ⟨[], hresults, hstate, fun later hlater => ?_⟩
      rw [List.map_set, hsame, set_eq_self hahead] at hlater
      exact hlater
    · refine ⟨[v], hresults, hstate, fun later hlater => ?_⟩
      -- The value just recorded stands before all that any worker is to check yet.
      rw [List.map_set] at hlater
      rw [hnext] at hahead
      exact .next hahead hlater

theorem leads_run (h : c.OnlyRecords) (s : Workshop (List β) ε π mark β) (schedule : List Nat) :
    ∃ recorded, Leads c s (s.run c schedule) recorded := by
  induction schedule generalizing s with
  | nil => exact ⟨[], .refl c s⟩
  | cons i rest ih =>
    obtain ⟨first, hfirst⟩ := leads_step h s i
    obtain ⟨later, hlater⟩ := ih (s.step c i)
    exact ⟨first ++ later, hfirst.trans hlater⟩

/-! ## Schedules that are long enough -/

/-- A turn is counted off for the worker whose turn it is, and for nobody else. -/
theorem turnsLeft_step (c : Check σ ε π β) (s : Workshop σ ε π mark β) (i j : Nat)
    {k' : Worker ε π mark β} (h : (s.step c i).workers[j]? = some k') :
    ∃ k, s.workers[j]? = some k ∧ k'.turnsLeft ≤ k.turnsLeft - if i == j then 1 else 0 := by
  rcases hi : s.workers[i]? with _ | k
  · rw [step_of_none hi] at h
    -- A turn of nobody is not a turn of the worker with number j.
    have hne : (i == j) = false := by
      rw [beq_eq_false_iff_ne]
      rintro rfl
      rw [hi] at h
      cases h
    exact ⟨k', h, by rw [hne]; exact Nat.le_refl _⟩
  · rw [step_of_some hi] at h
    by_cases hij : i = j
    · subst hij
      obtain ⟨hlt, _⟩ := List.getElem?_eq_some_iff.mp hi
      rw [List.getElem?_set_self hlt] at h
      rw [← Option.some.inj h, beq_self_eq_true]
      exact ⟨k, hi, (Worker.Turn.of_turn c k s.world).turnsLeft⟩
    · rw [List.getElem?_set_ne hij] at h
      exact ⟨k', h, by rw [beq_false_of_ne hij]; exact Nat.le_refl _⟩

theorem turnsLeft_run (c : Check σ ε π β) (s : Workshop σ ε π mark β) (schedule : List Nat)
    (j : Nat) {k' : Worker ε π mark β} (h : (s.run c schedule).workers[j]? = some k') :
    ∃ k, s.workers[j]? = some k ∧ k'.turnsLeft ≤ k.turnsLeft - schedule.count j := by
  induction schedule generalizing s with
  | nil => exact ⟨k', h, Nat.le_refl _⟩
  | cons i rest ih =>
    obtain ⟨next, hnext, hrest⟩ := ih (s.step c i) h
    obtain ⟨k, hk, hfirst⟩ := turnsLeft_step c s i j hnext
    refine ⟨k, hk, ?_⟩
    rw [List.count_cons]
    omega

/-- A schedule that gives each worker as many turns as are left for the worker finishes all work. -/
theorem finished_run (c : Check σ ε π β) {s : Workshop σ ε π mark β} {schedule : List Nat}
    (h : ∀ j k, s.workers[j]? = some k → k.turnsLeft ≤ schedule.count j) :
    (s.run c schedule).Finished := by
  intro k' hk'
  obtain ⟨j, hj⟩ := List.mem_iff_getElem?.mp hk'
  obtain ⟨k, hk, hleft⟩ := turnsLeft_run c s schedule j hj
  have henough := h j k hk
  exact Worker.done_of_turnsLeft_eq_zero (by omega)

theorem count_rounds {j n : Nat} (h : j < n) (rounds : Nat) :
    ((List.range rounds).flatMap fun _ => List.range n).count j = rounds := by
  have hround : (List.count j ∘ fun _ : Nat => List.range n) = fun _ => 1 := by
    funext _
    rw [Function.comp_apply, List.count_range, if_pos h]
  rw [List.count_flatMap, hround, List.map_const', List.sum_replicate_nat, List.length_range,
    Nat.mul_one]

theorem turnsLeft_of_start {state : σ} {tasks : List (List (Task β))} {k : Worker ε π mark β}
    (h : k ∈ (start state tasks : Workshop σ ε π mark β).workers) : k.turnsLeft = k.turns := by
  obtain ⟨waiting, _, rfl⟩ := List.mem_map.mp h
  exact Worker.turnsLeft_idle waiting []

/-- Taking turns until the longest work is done finishes all work. -/
theorem finished_run_inTurns (c : Check σ ε π β) (state : σ) (tasks : List (List (Task β))) :
    let s : Workshop σ ε π mark β := start state tasks
    (s.run c s.inTurns).Finished := by
  intro s
  refine finished_run c fun j k hk => ?_
  have hmem : k ∈ s.workers := List.mem_of_getElem? hk
  obtain ⟨hlt, _⟩ := List.getElem?_eq_some_iff.mp hk
  rw [turnsLeft_of_start hmem]
  unfold inTurns
  rw [count_rounds hlt, List.foldl_max]
  have hmost : k.turns ≤ (s.workers.map Worker.turns).max?.getD 0 :=
    List.le_max?_getD_of_mem (List.mem_map_of_mem hmem)
  omega

end Workshop

/-! ## What sharing does not change -/

/-- A step that ended with a rejection. -/
def Outcome.isRejected : Outcome ε π α → Bool
  | .rejected _ => true
  | _ => false

namespace Workshop

section
variable {c : Check (List β) ε π β} {s : Workshop (List β) ε π mark β}

theorem results_of_finished (h : s.Finished) :
    s.workers.map (Worker.allResults c) = s.workers.map fun k => k.results.reverse := by
  refine List.map_congr_left fun k hk => ?_
  obtain ⟨hcurrent, hwaiting⟩ := h k hk
  simp only [Worker.allResults, Worker.toDo, hcurrent, hwaiting, Option.toList_none, List.map_nil,
    List.append_nil]

theorem ahead_of_finished (h : s.Finished) : ∀ l ∈ s.workers.map (Worker.ahead c), l = [] := by
  intro l hl
  obtain ⟨k, hk, rfl⟩ := List.mem_map.mp hl
  obtain ⟨hcurrent, hwaiting⟩ := h k hk
  simp only [Worker.ahead, Worker.toDo, hcurrent, hwaiting, Option.toList_none, List.map_nil,
    List.append_nil, List.flatMap_nil]

/-- What is to come before the first turn is what the workers get and record alone. -/
theorem alone_of_start (h : c.OnlyRecords) (tasks : List (List (Task β))) :
    let s : Workshop (List β) ε π mark β := start [] tasks
    s.workers.map (Worker.allResults c) =
        tasks.map (fun ts => (Worker.alone c mark ts .unrecorded).1) ∧
      s.workers.map (Worker.ahead c) =
        tasks.map fun ts => (Worker.alone c mark ts .unrecorded).2.state.reverse := by
  intro s
  unfold s start
  rw [List.map_map, List.map_map]
  constructor
  · refine List.map_congr_left fun ts _ => ?_
    exact (Worker.alone_eq h ts .unrecorded).1.symm
  · refine List.map_congr_left fun ts _ => ?_
    have hstate : (Worker.alone c mark ts .unrecorded).2.state =
        (Worker.ahead c ⟨ts, none, []⟩).reverse ++ [] := (Worker.alone_eq h ts .unrecorded).2
    rw [Function.comp_apply, hstate, List.append_nil, List.reverse_reverse]

end

/-- Workers share one brander, through whatever borrows, and it decides by the value alone and
records each value that it checks. However their turns are interleaved, the work is finished as
soon as everyone had turns enough; and then each worker has the results that the worker gets alone,
the record is a merge of the records that the workers leave alone, each in its own order, and
neither its length nor the number of rejections depends on the schedule. -/
theorem sharing_a_brander_changes_no_result (base : TypeExpr) (alarm : ε → π)
    (decide : β → Outcome ε π ρ) (tracing : Bool) (m : Mark) (x : Validator Unit) (n : Nat)
    (tasks : List (List (Task β))) :
    let c := ((Brander.validated m x).borrowed n).check (recording base alarm decide) tracing
    let resultsAlone := fun ts => (Worker.alone c m ts .unrecorded).1
    let recordAlone := fun ts => (Worker.alone c m ts .unrecorded).2.state.reverse
    let before : Workshop (List β) ε π m β := start [] tasks
    (∀ schedule, (∀ j k, before.workers[j]? = some k → k.turns ≤ schedule.count j) →
      (before.run c schedule).Finished) ∧
    (before.run c before.inTurns).Finished ∧
    ∀ schedule, (before.run c schedule).Finished →
      let shop := before.run c schedule
      (shop.workers.map fun k => k.results.reverse) = tasks.map resultsAlone ∧
        Merges (tasks.map recordAlone) shop.world.state.reverse ∧
        shop.world.state.length = (tasks.flatMap recordAlone).length ∧
        shop.results.countP Outcome.isRejected =
          (tasks.flatMap resultsAlone).countP Outcome.isRejected := by
  intro c resultsAlone recordAlone before
  have hc : c.OnlyRecords := Brander.onlyRecords base alarm decide tracing m x n
  refine ⟨fun schedule h => ?enough, finished_run_inTurns c [] tasks, fun schedule h => ?same⟩
  case enough =>
    refine finished_run c fun j k hk => ?_
    rw [turnsLeft_of_start (List.mem_of_getElem? hk)]
    exact h j k hk
  case same =>
    intro shop
    obtain ⟨recorded, hleads⟩ := leads_run hc before schedule
    obtain ⟨hresultsAlone, hrecordAlone⟩ := alone_of_start hc tasks
    have hresults : (shop.workers.map fun k => k.results.reverse) = tasks.map resultsAlone := by
      rw [← results_of_finished h, hleads.results]
      exact hresultsAlone
    have hmerges : Merges (tasks.map recordAlone) shop.world.state.reverse := by
      have hrecord : shop.world.state.reverse = recorded ++ [] := by
        rw [hleads.record, List.reverse_append, List.reverse_reverse, List.append_nil]
        rfl
      rw [hrecord, ← hrecordAlone]
      exact hleads.merges [] (.done (ahead_of_finished h))
    refine ⟨hresults, hmerges, ?_, ?_⟩
    · rw [← List.length_reverse, hmerges.perm.length_eq]
      rfl
    · unfold results
      rw [List.flatMap_def, hresults]
      rfl

/-- Two workers share a brander that lets numbers under 3 pass. Each has a list that the other
interrupts, and the first worker's is cut short. -/
theorem two_workers_share_a_limit :
    let m : Mark := ⟨.named "Shared", .defaultField⟩
    let decide : Nat → Outcome Unit Unit Unit :=
      fun v => if v < 3 then .accepted () else .rejected ()
    let roster := recording (.named "u64") (fun _ : Unit => ()) decide
    let c := ((Brander.validated m (.function ())).borrowed 1).check roster false
    let tasks : List (List (Task Nat)) := [[.list [1, 5, 2], .one 0], [.inPlace 7, .list [2, 1]]]
    let schedule := [1, 0, 0, 1, 1, 0, 1, 0, 1, 0, 1, 0, 0, 1, 0]
    let before : Workshop (List Nat) Unit Unit m Nat := start [] tasks
    let shop := before.run c schedule
    shop.Finished ∧
      (shop.workers.map fun k => k.results.reverse) =
        tasks.map (fun ts => (Worker.alone c m ts .unrecorded).1) ∧
      (shop.workers.map fun k => k.results.reverse.map Outcome.isRejected) =
        [[true, false], [true, false]] ∧
      shop.world.state.reverse = [1, 7, 5, 2, 1, 0] := by
  intro m decide roster c tasks schedule before shop
  obtain ⟨henough, _, hsame⟩ := sharing_a_brander_changes_no_result (.named "u64")
    (fun _ : Unit => ()) decide false m (.function ()) 1 tasks
  have hfinished : shop.Finished := by
    refine henough schedule fun j k hk => ?_
    rcases j with _ | _ | j
    · rw [← Option.some.inj hk]
      decide
    · rw [← Option.some.inj hk]
      decide
    · cases hk
  exact ⟨hfinished, (hsame schedule hfinished).1, by decide, by decide⟩

end Workshop

end NominalBrand
