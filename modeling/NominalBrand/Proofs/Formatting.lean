-- The laws of formatting. A value is shown as the one that is left when its brands
-- are taken out, whatever the caller wishes for. The form that takes several lines
-- indents what stands inside again and again; laid out with a margin, each line gets
-- all its spaces at once, and no brand moves the margin.
import NominalBrand.Proofs.Chains
import NominalBrand.Proofs.Erasure

namespace NominalBrand

/-! ## Margins -/

namespace Text

/-- A number of spaces. -/
def blanks (n : Nat) : String := String.ofList (List.replicate n ' ')

/-- A character, with the margin of the next line if it ends a line. -/
def withMargin (margin : Nat) (c : Char) : List Char :=
  if c = '\n' then c :: List.replicate margin ' ' else [c]

/-- A text with a margin in front of each of its lines but the first. -/
def shifted (margin : Nat) (text : String) : String :=
  String.ofList (text.toList.flatMap (withMargin margin))

theorem blanks_add (m n : Nat) : blanks (m + n) = blanks m ++ blanks n := by
  unfold blanks
  rw [← List.replicate_append_replicate, String.ofList_append]

/-- What ends no line takes no margin. -/
theorem flatMap_withMargin_of_not_mem {margin : Nat} {cs : List Char} (h : '\n' ∉ cs) :
    cs.flatMap (withMargin margin) = cs := by
  induction cs with
  | nil => rfl
  | cons c cs ih =>
    rw [List.mem_cons, not_or] at h
    rw [List.flatMap_cons, ih h.2, withMargin, if_neg (Ne.symm h.1), List.singleton_append]

theorem flatMap_withMargin_replicate (margin n : Nat) :
    (List.replicate n ' ').flatMap (withMargin margin) = List.replicate n ' ' :=
  flatMap_withMargin_of_not_mem fun h => absurd (List.eq_of_mem_replicate h) (by decide)

theorem shifted_of_not_mem (margin : Nat) {s : String} (h : '\n' ∉ s.toList) :
    shifted margin s = s := by
  unfold shifted
  rw [flatMap_withMargin_of_not_mem h, String.ofList_toList]

theorem shifted_append (margin : Nat) (s t : String) :
    shifted margin (s ++ t) = shifted margin s ++ shifted margin t := by
  unfold shifted
  rw [String.toList_append, List.flatMap_append, String.ofList_append]

theorem shifted_zero (s : String) : shifted 0 s = s := by
  have hnone : withMargin 0 = fun c => [c] := by
    funext c
    unfold withMargin
    split <;> rfl
  unfold shifted
  rw [hnone, List.flatMap_singleton', String.ofList_toList]

theorem shifted_blanks (margin n : Nat) : shifted margin (blanks n) = blanks n := by
  unfold shifted blanks
  rw [String.toList_ofList, flatMap_withMargin_replicate]

/-- One margin and then another are one margin. -/
theorem shifted_shifted (m n : Nat) (s : String) : shifted m (shifted n s) = shifted (m + n) s := by
  have htwice : (fun c => (withMargin n c).flatMap (withMargin m)) = withMargin (m + n) := by
    funext c
    by_cases hc : c = '\n'
    · subst hc
      simp only [withMargin, if_true, List.flatMap_cons]
      rw [flatMap_withMargin_replicate, ← List.replicate_append_replicate]
      rfl
    · simp only [withMargin, hc, if_false, List.flatMap_singleton]
  unfold shifted
  rw [String.toList_ofList, List.flatMap_assoc, htwice]

theorem shifted_join (margin : Nat) (ts : List String) :
    shifted margin (String.join ts) = String.join (ts.map (shifted margin)) := by
  induction ts with
  | nil => rfl
  | cons t ts ih => rw [String.join_cons, shifted_append, ih, List.map_cons, String.join_cons]

theorem shifted_intercalate (margin : Nat) (ts : List String) :
    shifted margin (", ".intercalate ts) = ", ".intercalate (ts.map (shifted margin)) := by
  induction ts with
  | nil => rfl
  | cons t ts ih =>
    cases ts with
    | nil => simp only [List.map_cons, List.map_nil, String.intercalate_singleton]
    | cons t' ts =>
      simp only [List.map_cons, String.intercalate_cons_cons, shifted_append] at ih ⊢
      rw [ih]
      rfl

/-- The indentation of a container's item, spelled with a margin. No line follows the item's last
line end, so that one takes none. -/
theorem indentFrom_eq (lineStart : Bool) (cs : List Char) :
    Style.indentFrom lineStart (cs ++ [',', '\n']) =
      (if lineStart then List.replicate 4 ' ' else []) ++ cs.flatMap (withMargin 4) ++
        [',', '\n'] := by
  induction cs generalizing lineStart with
  | nil => cases lineStart <;> rfl
  | cons c cs ih =>
    rw [List.cons_append, Style.indentFrom, ih, List.flatMap_cons]
    by_cases hc : c = '\n'
    · subst hc
      simp [withMargin]
    · simp [withMargin, hc]

theorem itemLines_eq (item : String) :
    Style.itemLines item = blanks 4 ++ shifted 4 item ++ ",\n" := by
  unfold Style.itemLines shifted blanks
  rw [String.toList_append, show ",\n".toList = [',', '\n'] from rfl, indentFrom_eq]
  rw [String.ofList_append, String.ofList_append]
  rfl

theorem shifted_lineEnd (margin : Nat) : shifted margin "\n" = "\n" ++ blanks margin := by
  rw [← String.toList_inj]
  simp [shifted, withMargin, blanks]

/-- The margin that an item leaves for the next line belongs to that line. -/
theorem blanks_append_itemLines (margin : Nat) (item : String) :
    blanks margin ++ shifted margin (Style.itemLines item) =
      blanks (margin + 4) ++ shifted (margin + 4) item ++ ",\n" ++ blanks margin := by
  have hend : shifted margin ",\n" = ",\n" ++ blanks margin := by
    rw [show ",\n" = "," ++ "\n" from rfl, shifted_append, shifted_lineEnd]
    rfl
  rw [itemLines_eq, shifted_append, shifted_append, shifted_blanks, shifted_shifted, hend,
    blanks_add]
  simp only [String.append_assoc]

theorem blanks_append_join (margin : Nat) (items : List String) :
    blanks margin ++ String.join (items.map fun item => shifted margin (Style.itemLines item)) =
      String.join (items.map fun item =>
        blanks (margin + 4) ++ shifted (margin + 4) item ++ ",\n") ++ blanks margin := by
  induction items with
  | nil => simp
  | cons item items ih =>
    simp only [List.map_cons, String.join_cons]
    rw [← String.append_assoc, blanks_append_itemLines, String.append_assoc, ih,
      ← String.append_assoc]

namespace Style

/-- The margin of what stands inside a container. -/
def inner (s : Style) (margin : Nat) : Nat := if s.alternate then margin + 4 else margin

/-- A container in a margin, from the texts of its items. On several lines, each item begins with
the margin inside and ends with a comma, and the closing bracket stands in the margin outside. -/
def spread (s : Style) (margin : Nat) (opening closing : String) (items : List String) : String :=
  if s.alternate && !items.isEmpty then
    opening ++ "\n" ++
      String.join (items.map fun item => blanks (s.inner margin) ++ item ++ ",\n") ++
      blanks margin ++ closing
  else opening ++ ", ".intercalate items ++ closing

end Style

section
variable {opening closing : String} (hopening : '\n' ∉ opening.toList)
  (hclosing : '\n' ∉ closing.toList) (margin : Nat) (items : List String)
include hopening hclosing

theorem shifted_oneLine :
    shifted margin (opening ++ ", ".intercalate items ++ closing) =
      opening ++ ", ".intercalate (items.map (shifted margin)) ++ closing := by
  rw [shifted_append, shifted_append, shifted_of_not_mem margin hopening,
    shifted_of_not_mem margin hclosing, shifted_intercalate]

theorem shifted_lines :
    shifted margin (opening ++ "\n" ++ String.join (items.map Style.itemLines) ++ closing) =
      opening ++ "\n" ++ String.join (items.map fun item =>
        blanks (margin + 4) ++ shifted (margin + 4) item ++ ",\n") ++ blanks margin ++ closing := by
  calc shifted margin (opening ++ "\n" ++ String.join (items.map Style.itemLines) ++ closing)
      = opening ++ "\n" ++ (blanks margin ++ String.join
          (items.map fun item => shifted margin (Style.itemLines item))) ++ closing := by
        simp only [shifted_append, shifted_of_not_mem margin hopening,
          shifted_of_not_mem margin hclosing, shifted_lineEnd, shifted_join, List.map_map,
          String.append_assoc, Function.comp_def]
    _ = _ := by rw [blanks_append_join, ← String.append_assoc]

/-- What stands in a margin is laid out with it. -/
theorem shifted_enclose (s : Style) :
    shifted margin (s.enclose opening closing items) =
      s.spread margin opening closing (items.map (shifted (s.inner margin))) := by
  unfold Style.enclose Style.spread Style.inner
  rw [List.isEmpty_map, List.map_map]
  cases s.alternate with
  | false => exact shifted_oneLine hopening hclosing margin items
  | true =>
    cases items with
    | nil => exact shifted_oneLine hopening hclosing margin []
    | cons item items => exact shifted_lines hopening hclosing margin (item :: items)

end

namespace Rendering

variable {α α' : Type} (r : Rendering α) (style : Style)

theorem list_map {r : Rendering α} {q : Rendering α'} {style : Style} {φ : α → α'}
    (h : ∀ a, r style a = q style (φ a)) (as : List α) :
    r.list style as = q.list style (as.map φ) := by
  simp only [list, Logged.each_map h]

theorem shifted_none (margin : Nat) : shifted margin (r.option style none).value = "None" := by
  have hnone : shifted margin "None" = "None" := shifted_of_not_mem margin (by decide)
  exact hnone

theorem shifted_some (margin : Nat) (a : α) :
    shifted margin (r.option style (some a)).value =
      style.spread margin "Some(" ")" [shifted (style.inner margin) (r style a).value] :=
  shifted_enclose (by decide) (by decide) margin [(r style a).value] style

theorem shifted_list (margin : Nat) (as : List α) :
    shifted margin (r.list style as).value =
      style.spread margin "[" "]"
        (as.map fun a => shifted (style.inner margin) (r style a).value) := by
  have hvalue : (r.list style as).value =
      style.enclose "[" "]" (as.map fun a => (r style a).value) :=
    congrArg (style.enclose "[" "]") (Logged.value_each _ as)
  rw [hvalue, shifted_enclose (by decide) (by decide), List.map_map]
  rfl

theorem shifted_pair (q : Rendering α') (margin : Nat) (v : α × α') :
    shifted margin (r.pair q style v).value = style.spread margin "(" ")"
      [shifted (style.inner margin) (r style v.1).value,
        shifted (style.inner margin) (q style v.2).value] :=
  shifted_enclose (by decide) (by decide) margin
    [(r style v.1).value, (q style v.2).value] style

theorem calls_list (as : List α) :
    (r.list style as).calls = as.flatMap fun a => (r style a).calls := by
  simp only [list, Logged.calls_bind, Logged.calls_pure, Logged.calls_each, List.append_nil]

theorem calls_some (a : α) : (r.option style (some a)).calls = (r style a).calls :=
  List.append_nil _

theorem calls_pair (q : Rendering α') (v : α × α') :
    (r.pair q style v).calls = (r style v.1).calls ++ (q style v.2).calls := by
  simp only [pair, Logged.calls_bind, Logged.calls_pure, List.append_nil]

end Rendering

end Text

/-! ## Shapes -/

namespace Shape

variable {β : Type}

/-- The text of a value in a margin, from the texts of the base values in it. -/
def layout (style : Text.Style) (text : β → String) : (s : Shape) → Nat → s.Carrier β → String
  | .base, margin, v => Text.shifted margin (text v)
  | .brand _ s, margin, v => s.layout style text margin (Brand.base v)
  | .option s, margin, v => match (v : Option (s.Carrier β)) with
    | none => "None"
    | some v => style.spread margin "Some(" ")" [s.layout style text (style.inner margin) v]
  | .list s, margin, v =>
    style.spread margin "[" "]" (List.map (s.layout style text (style.inner margin)) v)
  | .pair s t, margin, v => style.spread margin "(" ")"
    [s.layout style text (style.inner margin) v.1, t.layout style text (style.inner margin) v.2]

/-- The base values in a value, in order. -/
def bases : (s : Shape) → s.Carrier β → List β
  | .base, v => [v]
  | .brand _ s, v => s.bases (Brand.base v)
  | .option s, v => (v : Option (s.Carrier β)).toList.flatMap s.bases
  | .list s, v => List.flatMap s.bases v
  | .pair s t, v => s.bases v.1 ++ t.bases v.2

/-- A value is shown as the bare one, and the base shows the same bases in the same order. -/
theorem rendering_strip (r : Text.Rendering β) (style : Text.Style) (s : Shape)
    (v : s.Carrier β) : s.rendering r style v = s.erase.rendering r style (s.strip v) := by
  induction s with
  | base => rfl
  | brand mark s ih => exact ih (Brand.base v)
  | option s ih =>
    cases v with
    | none => rfl
    | some v => simp only [rendering, Text.Rendering.option, erase, strip, Option.map_some, ih]
  | list s ih => exact Text.Rendering.list_map ih v
  | pair s t ih ih' => simp only [rendering, Text.Rendering.pair, erase, strip, ih, ih']

/-- A text that is put in a margin is the text laid out with that margin. -/
theorem shifted_rendering (r : Text.Rendering β) (style : Text.Style) (s : Shape) (margin : Nat)
    (v : s.Carrier β) :
    Text.shifted margin (s.rendering r style v).value =
      s.layout style (fun b => (r style b).value) margin v := by
  induction s generalizing margin with
  | base => rfl
  | brand mark s ih => exact ih margin (Brand.base v)
  | option s ih =>
    cases v with
    | none => exact Text.Rendering.shifted_none _ style margin
    | some v =>
      have hsome := Text.Rendering.shifted_some (s.rendering r) style margin v
      rw [ih] at hsome
      exact hsome
  | list s ih =>
    have hlist := Text.Rendering.shifted_list (s.rendering r) style margin v
    simp only [ih] at hlist
    exact hlist
  | pair s t ih ih' =>
    have hpair := Text.Rendering.shifted_pair (s.rendering r) style (t.rendering r) margin v
    rw [ih, ih'] at hpair
    exact hpair

theorem calls_rendering (r : Text.Rendering β) (style : Text.Style) (s : Shape)
    (v : s.Carrier β) :
    (s.rendering r style v).calls = (s.bases v).flatMap fun b => (r style b).calls := by
  induction s with
  | base => exact (List.flatMap_singleton _ _).symm
  | brand mark s ih => exact ih (Brand.base v)
  | option s ih =>
    cases v with
    | none => rfl
    | some v =>
      have hsome := Text.Rendering.calls_some (s.rendering r) style v
      rw [ih, ← List.append_nil (s.bases v)] at hsome
      exact hsome
  | list s ih =>
    have hlist := Text.Rendering.calls_list (s.rendering r) style v
    simp only [ih] at hlist
    exact hlist.trans List.flatMap_assoc.symm
  | pair s t ih ih' =>
    have hpair := Text.Rendering.calls_pair (s.rendering r) style (t.rendering r) v
    rw [ih, ih'] at hpair
    exact hpair.trans List.flatMap_append.symm

theorem bases_strip (s : Shape) (v : s.Carrier β) : s.erase.bases (s.strip v) = s.bases v := by
  induction s with
  | base => rfl
  | brand mark s ih => exact ih (Brand.base v)
  | option s ih =>
    cases v with
    | none => rfl
    | some v => exact congrArg (· ++ []) (ih v)
  | list s ih =>
    have hlist : ∀ vs : List (s.Carrier β),
        (vs.map s.strip).flatMap s.erase.bases = vs.flatMap s.bases := by
      intro vs
      rw [List.flatMap_map]
      simp only [ih]
    exact hlist v
  | pair s t ih ih' =>
    simp only [erase, strip, bases]
    rw [ih, ih']

/-! ## The law -/

/-- Whatever the style, a value shows the text of the value with its brands taken out, and so does
a value under any number of brands. On several lines each item stands in the margin of its depth and
ends with a comma. Each base value is shown once, with the style that the caller asked for. -/
theorem brands_leave_no_trace_in_a_text (r : Text.Rendering β) (style : Text.Style) (s : Shape)
    (v : s.Carrier β) (offers : Capabilities β) (marks : List Mark) :
    s.rendering r style v = s.erase.rendering r style (s.strip v) ∧
      (s.rendering r style v).value =
        s.erase.layout style (fun b => (r style b).value) 0 (s.strip v) ∧
      (s.rendering r style v).calls = (s.bases v).flatMap (fun b => (r style b).calls) ∧
      s.erase.bases (s.strip v) = s.bases v ∧
      (offers.tower marks).debug =
        offers.debug.map (fun d style x => d style (Tower.base marks x)) ∧
      (offers.tower marks).display =
        offers.display.map (fun d style x => d style (Tower.base marks x)) := by
  have hbare := rendering_strip r style s v
  have htower := offers.tower_forwards marks
  refine ⟨hbare, ?_, calls_rendering r style s v, bases_strip s v, htower.debug, htower.display⟩
  rw [hbare, ← Text.shifted_zero (s.erase.rendering r style (s.strip v)).value, shifted_rendering]

-- A list of optional brands, one of them over a text of two lines.
example :
    let s : Shape := .list (.option (.brand ⟨.named "Line", .defaultField⟩ .base))
    (s.rendering Text.Rendering.text { alternate := true } [some ⟨"a\nb"⟩, none]).value =
      "[\n    Some(\n        a\n        b,\n    ),\n    None,\n]" := by decide

end Shape

end NominalBrand
