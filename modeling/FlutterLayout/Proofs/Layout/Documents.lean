import FlutterLayout.Proofs.Layout.Classification
import FlutterLayout.Proofs.Layout.Sites

/-!
# Documents — the run behind an assembled document

An assembled document is what is left of one run of `buildRoot`, on an element of the document, when the waiting
actions are performed (`assemble_cases`, `runDeferred_keeps`).
-/

namespace FlutterLayout.Layout

open List
open Markup (Element)

variable {o : Options} {d : Markup.Document} {a : Assembly} {e : Element} {id : WidgetId} {b b' : Build}

/-! ## Roots -/

theorem mem_of_mem_commented (h : (comments', e) ∈ commented comments nodes) : .element e ∈ nodes := by
  induction nodes generalizing comments with
  | nil => cases h
  | cons node nodes ih =>
    cases node with
    | element e' =>
      rcases mem_cons.1 h with heq | h
      · cases heq
        exact mem_cons_self
      · exact mem_cons_of_mem _ (ih h)
    | text _ | comment _ | cdata _ => exact mem_cons_of_mem _ (ih h)

theorem inside_of_mem_rootWidgets (h : (comments, e) ∈ rootWidgets root) : Inside root e :=
  .single (mem_elements.2 (mem_of_mem_commented (mem_of_mem_filter h)))

/-- The tree of an assembly comes from one run on an element of the document. -/
structure BuiltFrom (o : Options) (d : Markup.Document) (a : Assembly) (fields : List ClassField)
    (comments : List Text) (e : Element) (b : Build) : Prop where
  inside : ∃ top, d.root? = some top ∧ Inside top e
  rootSite : rootSite? o d = some ⟨.ofRoot o.handlers comments e, .bare WidgetId.none, {}⟩
  run : (buildRoot o fields comments e).run {} = .ok (a.root, b)
  tree : a.tree = (b.tree.runDeferred performDeferral a.root).1

theorem BuiltFrom.site (h : BuiltFrom o d a fields comments e b) :
    ∃ s ∈ rootSite? o d, s.item = .ofRoot o.handlers comments e :=
  ⟨_, h.rootSite, rfl⟩

theorem assembleRoots_cases (hroots : ∀ q ∈ roots, ∃ top, d.root? = some top ∧ Inside top q.2)
    (hempty : roots = [] → rootSite? o d = none)
    (hsite : ∀ comments e, roots = [(comments, e)] →
      rootSite? o d = some ⟨.ofRoot o.handlers comments e, .bare .none, {}⟩)
    (h : assembleRoots o info roots = .ok a) :
    (a.root = .none ∧ rootSite? o d = none) ∨ ∃ fields comments e b, BuiltFrom o d a fields comments e b := by
  unfold assembleRoots at h
  split at h
  · cases h
    exact .inl ⟨rfl, hempty rfl⟩
  · rename_i comments e
    split at h
    · rename_i hrun
      cases h
      exact .inr ⟨_, comments, e, _, hroots _ mem_cons_self, hsite comments e rfl, hrun, rfl⟩
    · cases h
  · cases h

theorem assemble_cases (h : assemble o d = .ok a) :
    (a.root = .none ∧ rootSite? o d = none) ∨ ∃ fields comments e b, BuiltFrom o d a fields comments e b := by
  unfold assemble at h
  split at h
  · rename_i hnone
    cases h
    exact .inl ⟨rfl, by simp [rootSite?, hnone]⟩
  · rename_i top htop
    split at h
    · rename_i hfrag
      refine assembleRoots_cases ?_ ?_ ?_ h
      · exact forall_mem_singleton.2 ⟨top, htop, .refl⟩
      · rintro ⟨⟩
      · rintro comments e ⟨⟩
        simp [rootSite?, htop, hfrag]
    · rename_i hfrag
      refine assembleRoots_cases (fun q hq => ⟨top, htop, inside_of_mem_rootWidgets hq⟩) ?_ ?_ h
      · intro hroots
        simp [rootSite?, htop, hfrag, hroots]
      · intro comments e hroots
        simp [rootSite?, htop, hfrag, hroots]

theorem listRoot_cases (h : (listRoot id).run b = .ok (outer, b')) :
    (∃ column b1 sequence b2, (Build.add { type := "Column" }).run b = .ok (column, b1) ∧
      (hoist id column).run b1 = .ok ((sequence, outer), b2) ∧
      (Build.put column (.ofWidgets childrenProperty [sequence])).run b2 = .ok ((), b')) ∨
    (b.tree.isSequence (peel b.tree id).2 = false ∧ outer = id ∧ b' = b) := by
  obtain ⟨c, b1, hget, hrest⟩ := run_bind h
  rw [(run_get hget).1, (run_get hget).2] at hrest
  dsimp only at hrest
  split at hrest
  · obtain ⟨column, b2, hadd, hrest⟩ := run_bind hrest
    obtain ⟨⟨sequence, outer1⟩, b3, hhoist, hrest⟩ := run_bind hrest
    obtain ⟨_, hput, rfl⟩ := run_last hrest
    exact .inl ⟨column, b2, sequence, b3, hadd, hhoist, hput⟩
  · rename_i hseq
    obtain ⟨rfl, rfl⟩ := run_pure hrest
    exact .inr ⟨Bool.eq_false_iff.2 hseq, rfl, rfl⟩

theorem buildRoot_cases (h : (buildRoot o fields comments e).run b = .ok (root, b')) :
    ∃ ids target b1 b2,
      (resolveItem o (.ofRoot o.handlers comments e) (.bare .none)).run b = .ok ((ids, target), b1) ∧
      (listRoot (ids.headD .none)).run b1 = .ok (root, b2) ∧
      (Build.change root fun w => { w with fields := w.fields ++ fields }).run b2 = .ok ((), b') := by
  obtain ⟨⟨ids, target⟩, b1, hitem, hrest⟩ := run_bind h
  obtain ⟨root1, b2, hlist, hrest⟩ := run_bind hrest
  obtain ⟨_, hchange, rfl⟩ := run_last hrest
  exact ⟨ids, target, b1, b2, hitem, hlist, hchange⟩

/-! ## Waiting actions -/

/-- Of the properties one text is changed, and uses the variables of the condition afterwards. -/
theorem disableFirst?_eq_some (h : disableFirst? condition ps = some ps') :
    ∃ front p back v v', p.value = .text v ∧ ps = front ++ p :: back ∧
      ps' = front ++ { p with value := .text v', needs := condition.subscriptions ++ p.needs } :: back := by
  induction ps generalizing ps' with
  | nil => cases h
  | cons q ps ih =>
    have hlater : (disableFirst? condition ps).map (q :: ·) = some ps' →
        ∃ front p back v v', p.value = .text v ∧ q :: ps = front ++ p :: back ∧
          ps' = front ++ { p with value := .text v', needs := condition.subscriptions ++ p.needs } :: back := by
      intro hmap
      obtain ⟨rest, hrest, rfl⟩ := Option.map_eq_some_iff.1 hmap
      obtain ⟨front, p, back, v, v', hvalue, rfl, rfl⟩ := ih hrest
      exact ⟨q :: front, p, back, v, v', hvalue, rfl, rfl⟩
    unfold disableFirst? at h
    split at h
    · rename_i v hvalue
      split at h
      · cases h
        exact ⟨[], q, ps, v, _, hvalue, rfl, rfl⟩
      · exact hlater h
    · exact hlater h

theorem mem_of_disableFirst? (h : disableFirst? condition ps = some ps') (hq : q ∈ ps') :
    q ∈ ps ∨ ∃ v, q.value = .text v := by
  obtain ⟨front, p, back, v, v', -, rfl, rfl⟩ := disableFirst?_eq_some h
  rcases mem_append.1 hq with hq | hq
  · exact .inl (mem_append_left _ hq)
  · rcases mem_cons.1 hq with rfl | hq
    · exact .inr ⟨v', rfl⟩
    · exact .inl (mem_append_right _ (mem_cons_of_mem _ hq))

theorem namesOf_disableFirst? (h : disableFirst? condition ps = some ps') : namesOf ps' = namesOf ps := by
  obtain ⟨front, p, back, v, v', -, rfl, rfl⟩ := disableFirst?_eq_some h
  simp [namesOf]

/-- At most one widget changes, and of it the properties only. -/
theorem disableIn_cases (condition : Pipe.Expression) (t : Tree Deferral) (ids : List WidgetId) :
    disableIn condition t ids = t ∨ ∃ x ∈ ids, ∃ w ps, t.get? x = some w ∧
      disableFirst? condition w.properties = some ps ∧
      disableIn condition t ids = t.modify x fun w => { w with properties := ps } := by
  induction ids with
  | nil => exact .inl rfl
  | cons x ids ih =>
    unfold disableIn
    split
    · rename_i ps hps
      obtain ⟨w, hw, hps⟩ := Option.bind_eq_some_iff.1 hps
      exact .inr ⟨x, mem_cons_self, w, ps, hw, hps, rfl⟩
    · refine ih.imp_right ?_
      rintro ⟨y, hy, hrest⟩
      exact ⟨y, mem_cons_of_mem _ hy, hrest⟩

theorem runDeferred_keeps {P : Tree Deferral → Prop} (root : WidgetId)
    (hperform : ∀ {t : Tree Deferral} (action : Deferral) (x : WidgetId), P t → P (performDeferral action x t))
    (hunqueue : ∀ {t : Tree Deferral} (x : WidgetId), P t → P (t.unqueue x)) (h : P t) :
    P (t.runDeferred performDeferral root).1 := by
  refine foldlRecOn (motive := fun (state : Tree Deferral × List (WidgetId × Deferral)) => P state.1) _ _ h ?_
  intro state h x _
  exact foldlRecOn _ _ (hunqueue x h) fun t h action _ => hperform action x h

theorem get?_eq_none_of_reaches_none {t : Tree Deferral} {x : WidgetId} (h : t.Reaches .none x) :
    t.get? x = none := by
  rcases Relation.ReflTransGen.cases_head h with rfl | ⟨c, hc, -⟩
  · rfl
  · obtain ⟨w, hw, -⟩ := Tree.holds_iff.1 hc
    cases hw

end FlutterLayout.Layout
