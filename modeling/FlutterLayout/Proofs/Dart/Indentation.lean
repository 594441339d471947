import FlutterLayout.Proofs.Dart.Lines

/-!
# Indentation — code at one level deeper

At the next level the code of a widget is the same, but for one unit of indentation at the beginning of each line
behind the first.  A piece of code that ends a line leaves that unit to the indentation that follows it: this is
what `Laid.indentLines_eq` says of the pieces, and `emit_succ` of whole trees.
-/

namespace FlutterLayout

open List

/-! ## Texts without line feeds -/

def Text.IsLine (t : Text) : Prop :=
  lineFeed ∉ t

instance (t : Text) : Decidable t.IsLine :=
  inferInstanceAs (Decidable (_ ∉ _))

def Text.indentLines (unit t : Text) : Text :=
  t.flatMap fun b => if b = lineFeed then b :: unit else [b]

namespace Text

variable {t u unit : Text}

theorem indentLines_append (unit t u : Text) : indentLines unit (t ++ u) = indentLines unit t ++ indentLines unit u :=
  flatMap_append

theorem IsLine.indentLines_eq (h : IsLine t) : indentLines unit t = t := by
  have hbytes : ∀ b ∈ t, (if b = lineFeed then b :: unit else [b]) = [b] := by
    intro b hb
    have hne : b ≠ lineFeed := fun heq => h (heq ▸ hb)
    exact if_neg hne
  rw [indentLines, flatMap_congr hbytes, flatMap_singleton']

theorem isLine_of_mem_splitOn (h : line ∈ splitOn lineFeed t) : line.IsLine := by
  induction t generalizing line with
  | nil =>
    rw [mem_singleton.1 h]
    exact not_mem_nil
  | cons b t ih =>
    unfold splitOn at h
    split at h
    · rcases mem_cons.1 h with rfl | hrest
      · exact not_mem_nil
      · exact ih hrest
    · rename_i hb
      have hcons : ∀ piece : Text, piece.IsLine → IsLine (b :: piece) := fun piece hpiece hmem =>
        (mem_cons.1 hmem).elim (fun heq => hb heq.symm) hpiece
      split at h
      · rw [mem_singleton.1 h]
        exact hcons [] not_mem_nil
      · rename_i piece pieces hsplit
        rw [hsplit] at ih
        rcases mem_cons.1 h with rfl | hrest
        · exact hcons piece (ih mem_cons_self)
        · exact ih (mem_cons_of_mem _ hrest)

theorem isLine_trim (h : t.IsLine) : (trim t).IsLine := by
  obtain ⟨a, b, -, -, ht⟩ := strips_trim t
  exact fun hmem => h (ht ▸ mem_append_left _ (mem_append_right _ hmem))

end Text

namespace Dart

open Text (indentLines)

variable {α : Type} {g : Emitter α} {emit : WidgetId → Nat → Text} {p q : Place} {t x y : Text}

/-! ## Pieces -/

/-- The indentation that a place at the beginning of a line lacks at the next level. -/
def Place.lack (p : Place) (unit : Text) : Text :=
  if p.fresh then unit else []

theorem indentLines_of_endsLine (unit : Text) (h : endsLine? t = some fresh) :
    indentLines unit t = t ++ if fresh then unit else [] := by
  fun_induction endsLine? t with
  | case1 =>
    cases h
    rfl
  | case2 b =>
    cases h
    by_cases hb : b = Text.lineFeed <;> simp [indentLines, hb]
  | case3 t hb => cases h
  | case4 b t _ hb ih =>
    rw [cons_append, ← ih h, indentLines, flatMap_cons, if_neg hb]
    rfl

theorem Emitter.indent_succ (g : Emitter α) (level : Nat) : g.indent (level + 1) = g.unit ++ g.indent level :=
  rfl

theorem isLine_repeated (h : Text.IsLine t) (n : Nat) : Text.IsLine (.repeated n t) := by
  intro hmem
  obtain ⟨u, hu, hmem⟩ := mem_flatten.1 hmem
  exact h (eq_of_mem_replicate hu ▸ hmem)

/-- What a piece lacks at its beginning is inserted, and what it lacks at its end is left to the next. -/
theorem Laid.indentLines_eq (hunit : g.unit.IsLine)
    (hemit : ∀ id level, indentLines g.unit (emit id level) = emit id (level + 1))
    (h : Laid g Text.IsLine emit p x y q) : p.lack g.unit ++ indentLines g.unit x = y ++ q.lack g.unit := by
  induction h with
  | nil => exact (append_nil _).trans (nil_append _).symm
  | code _ hend => exact indentLines_of_endsLine g.unit hend
  | stored ht => exact ht.indentLines_eq.trans (append_nil _).symm
  | @indent s level =>
    have hline : (g.indent level).IsLine := isLine_repeated hunit level
    rw [hline.indentLines_eq, g.indent_succ level]
    exact (append_nil _).symm
  | nested => exact (hemit _ _).trans (append_nil _).symm
  | @append p q r x x' y y' _ _ ih ih' =>
    calc p.lack g.unit ++ indentLines g.unit (x ++ x')
        = (p.lack g.unit ++ indentLines g.unit x) ++ indentLines g.unit x' := by
          rw [Text.indentLines_append, append_assoc]
      _ = y ++ (q.lack g.unit ++ indentLines g.unit x') := by rw [ih, append_assoc]
      _ = (y ++ y') ++ r.lack g.unit := by rw [ih', append_assoc]

/-! ## Trees -/

theorem Emitter.emitWithin_succ (hunit : g.unit.IsLine) (hstores : g.tree.Stores Text.IsLine) (fuel : Nat)
    (id : WidgetId) (level : Nat) :
    indentLines g.unit (g.emitWithin fuel id level) = g.emitWithin fuel id (level + 1) := by
  induction fuel generalizing id level with
  | zero => rfl
  | succ fuel ih =>
    unfold emitWithin
    split
    · rfl
    · rename_i w hw
      have hcomments : Laid g Text.IsLine (g.emitWithin fuel) ⟨[], false⟩ (w.comments.flatMap (g.comment level))
          (w.comments.flatMap (g.comment (level + 1))) ⟨[], false⟩ := by
        rw [flatMap_def, flatMap_def]
        exact flatten_laid _ fun c _ => comment_inline
          (fun line hline => Text.isLine_trim (Text.isLine_of_mem_splitOn hline)) []
      have hbody : Laid g Text.IsLine (g.emitWithin fuel) ⟨[], false⟩ (g.body (g.emitWithin fuel) level w)
          (g.body (g.emitWithin fuel) (level + 1) w) ⟨[], false⟩ :=
        body_inline (hstores w (Tree.mem_widgets_of_get? hw)) []
      simpa [Place.lack] using (hcomments.append hbody).indentLines_eq hunit ih

/-- The code at the next level is the code with a unit of indentation behind each line feed. -/
theorem emit_succ (handlers : Directive.Handlers) {indent : Text} {t : Tree α} (hindent : indent.IsLine)
    (hstores : t.Stores Text.IsLine) (id : WidgetId) (level : Nat) :
    Dart.emit handlers indent t id (level + 1)
      = indentLines (if indent.isEmpty then defaultIndent else indent) (Dart.emit handlers indent t id level) := by
  have hunit : (emitter handlers indent t).unit.IsLine := by
    unfold emitter
    dsimp only
    split
    · decide
    · exact hindent
  exact (Emitter.emitWithin_succ hunit hstores _ id level).symm

/-- A widget shown under a condition, with a comment of two lines and a function literal. -/
def commentedTree : Tree Unit :=
  { widgets :=
      [{ generator := Directive.conditionName, condition := some "ok", wrapped := 2 },
       { type := "Builder", comments := ["first\n second"],
         properties := [.ofFunction "builder" ⟨["context"], ["final n = 1;"], [3], []⟩ []] },
       { type := "Text", properties := [.ofText [] "n"] }] }

theorem emit_succ_commentedTree :
    (Text.IsLine "\t" ∧ commentedTree.Stores Text.IsLine) ∧
      Dart.emit Directive.standard "\t" commentedTree 1 3
        = indentLines "\t" (Dart.emit Directive.standard "\t" commentedTree 1 2) := by
  have hindent : Text.IsLine "\t" := by decide
  have hstores : commentedTree.Stores Text.IsLine := by decide
  exact ⟨⟨hindent, hstores⟩, emit_succ Directive.standard hindent hstores 1 2⟩

def oneArgumentTree : Tree Unit :=
  { widgets := [{ type := "T", properties := [.ofText "a" "1"] }] }

/-- Two line feeds in a row are three at the next level, not four. -/
theorem emit_succ_ne_lineFeedUnit :
    oneArgumentTree.Stores Text.IsLine ∧
      Dart.emit Directive.standard "\n" oneArgumentTree 1 0 = "T(\n\na: 1,\n)" ∧
      Dart.emit Directive.standard "\n" oneArgumentTree 1 1 = "T(\n\n\na: 1,\n\n)" ∧
      indentLines "\n" "T(\n\na: 1,\n)" = "T(\n\n\n\na: 1,\n\n)" := by
  decide +kernel

end Dart
end FlutterLayout
