import FlutterLayout.Proofs.Dart.Lines

/-!
# Balance — the brackets of emitted code

Balanced code leaves a reader of code where it was, whatever brackets are open around it.  Each piece of the code
of a widget moves the reader as its place says, so that the code of a tree is balanced when the strings in it are.
-/

namespace FlutterLayout.Dart

variable {r r' : Reading} {s : List UInt8} {t : Text}

/-! ## Readers -/

theorem scan_append (r : Reading) (t u : Text) : scan r (t ++ u) = (scan r t).bind fun r' => scan r' u :=
  List.foldlM_append

theorem Reading.step_frame (h : r.step b = some r') (s : List UInt8) :
    Reading.step ⟨r.mode, r.awaited ++ s⟩ b = some ⟨r'.mode, r'.awaited ++ s⟩ := by
  obtain ⟨mode, awaited⟩ := r
  cases mode with
  | literal | escape =>
    cases h
    rfl
  | code =>
    simp only [step] at h ⊢
    split at h
    · cases h
      rw [if_pos (by assumption)]
    · rw [if_neg (by assumption)]
      split at h
      · cases h
        rw [if_pos (by assumption)]
        rfl
      · rw [if_neg (by assumption)]
        split at h
        · rw [if_pos (by assumption)]
          split at h
          · -- the bracket that is closed is one of the code, so the rest of its brackets is left
            cases h
            cases awaited with
            | nil => contradiction
            | cons c awaited =>
              rw [List.cons_append, List.head?_cons, ← List.head?_cons, if_pos (by assumption)]
              rfl
          · cases h
        · cases h
          rw [if_neg (by assumption)]

theorem scan_frame (h : scan r t = some r') (s : List UInt8) :
    scan ⟨r.mode, r.awaited ++ s⟩ t = some ⟨r'.mode, r'.awaited ++ s⟩ := by
  induction t generalizing r with
  | nil =>
    cases h
    rfl
  | cons b t ih =>
    obtain ⟨next, hstep, hrest⟩ := Option.bind_eq_some_iff.1 h
    exact Option.bind_eq_some_iff.2 ⟨_, Reading.step_frame hstep s, ih hrest⟩

theorem IsBalanced.scan_eq (h : IsBalanced t) (s : List UInt8) : scan ⟨.code, s⟩ t = some ⟨.code, s⟩ :=
  scan_frame h s

/-! ## Emitted code -/

theorem isBalanced_repeated (h : IsBalanced t) (n : Nat) : IsBalanced (.repeated n t) := by
  induction n with
  | zero => rfl
  | succ n ih =>
    have hcons : .repeated (n + 1) t = t ++ .repeated n t := rfl
    rw [IsBalanced, hcons, scan_append, h.scan_eq]
    exact ih

variable {α : Type} {g : Emitter α} {emit : WidgetId → Nat → Text} {p q : Place} {x y : Text}

theorem Laid.scan_eq (hunit : IsBalanced g.unit) (hemit : ∀ id level, IsBalanced (emit id level))
    (h : Laid g IsBalanced emit p x y q) : scan ⟨.code, p.awaited⟩ x = some ⟨.code, q.awaited⟩ := by
  induction h with
  | nil => rfl
  | code hbrackets _ => exact hbrackets
  | stored ht => exact ht.scan_eq _
  | indent => exact (isBalanced_repeated hunit _).scan_eq _
  | nested => exact (hemit _ _).scan_eq _
  | append _ _ ih ih' => rw [scan_append, ih, Option.bind_some, ih']

theorem Emitter.emitWithin_isBalanced (hunit : IsBalanced g.unit) (hstores : g.tree.Stores IsBalanced)
    (hcomments : ∀ w ∈ g.tree.widgets, w.comments = []) (fuel : Nat) (id : WidgetId) (level : Nat) :
    IsBalanced (g.emitWithin fuel id level) := by
  induction fuel generalizing id level with
  | zero => rfl
  | succ fuel ih =>
    unfold emitWithin
    split
    · rfl
    · rename_i w hw
      have hmem := g.tree.mem_widgets_of_get? hw
      rw [hcomments w hmem, List.flatMap_nil, List.nil_append]
      exact Laid.scan_eq hunit ih (body_inline (hstores w hmem) [])

/-- Emitted code is balanced when the strings in the tree are and the unit of indentation is. -/
theorem emit_isBalanced (handlers : Directive.Handlers) {indent : Text} {t : Tree α} (hindent : IsBalanced indent)
    (hstores : t.Stores IsBalanced) (hcomments : ∀ w ∈ t.widgets, w.comments = []) (id : WidgetId) :
    (∀ level : Nat, IsBalanced (Dart.emit handlers indent t id level)) ∧
      ∀ (level : Int) (code : Text), emit? handlers indent t id level = some code → IsBalanced code := by
  have hunit : IsBalanced (emitter handlers indent t).unit := by
    unfold emitter
    dsimp only
    split
    · decide
    · exact hindent
  have hemit : ∀ level : Nat, IsBalanced (Dart.emit handlers indent t id level) :=
    fun level => Emitter.emitWithin_isBalanced hunit hstores hcomments _ id level
  refine ⟨hemit, fun level code h => ?_⟩
  unfold emit? at h
  split at h
  · cases h
    exact hemit _
  · cases h

def bracketedTree : Tree Unit :=
  { widgets :=
      [{ type := "Column", properties := [.ofWidgets childrenProperty [2]] },
       { generator := Directive.repeatName, isSequence := true, properties := [.ofWidgets Emitter.bodyProperty [3]],
         loop := some ⟨"i", "e", "Map<String, int>", "rows[0]"⟩ },
       { generator := Directive.conditionalName,
         properties :=
          [{ name := Emitter.branchProperty, value := .widgets [4], condition := "e['('] != null" }] },
       { type := "Text", properties := [.ofText [] "'it\\'s :)'"] }] }

theorem emit_isBalanced_bracketedTree :
    (IsBalanced "\t" ∧ bracketedTree.Stores IsBalanced ∧ ∀ w ∈ bracketedTree.widgets, w.comments = []) ∧
      IsBalanced (Dart.emit Directive.standard "\t" bracketedTree 1 3) ∧
      ∃ code, emit? Directive.standard "\t" bracketedTree 1 2 = some code ∧ IsBalanced code := by
  have hindent : IsBalanced "\t" := by decide
  have hstores : bracketedTree.Stores IsBalanced := by decide
  have hcomments : ∀ w ∈ bracketedTree.widgets, w.comments = [] := by decide
  have hbalanced := emit_isBalanced Directive.standard hindent hstores hcomments 1
  exact ⟨⟨hindent, hstores, hcomments⟩, hbalanced.1 3, _, rfl, hbalanced.2 2 _ rfl⟩

end FlutterLayout.Dart
