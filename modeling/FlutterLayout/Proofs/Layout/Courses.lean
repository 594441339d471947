import FlutterLayout.Proofs.Layout.Moves

/-!
# Courses — the order in which items are resolved

Items, properties and branches are resolved by functions that call one another.  `Course` is the tree of
these calls, with the steps between them: what is shown of all items is shown by induction on it, one case
for each kind of item.  Every run has its course (`item_course` and its companions).
-/

namespace FlutterLayout.Layout

open Build

open Markup (Element)

/-- What is resolved, for which target, and what comes of it.  The items of a content are in order when the
builders around sequences have left it. -/
inductive Stage where
  | item (item : Item) (target : Target) (ids : List WidgetId) (target' : Target)
  | items (items : List Item) (target : Target) (ids : List WidgetId) (target' : Target)
  | content (items : List Item) (target : Target) (ids : List WidgetId) (target' : Target)
  | property (item : Item) (target target' : Target)
  | properties (items : List Item) (target target' : Target)
  | branches (branches : List Branch) (current : WidgetId) (ps : List Property) (needed : Bool)
      (current' : WidgetId)

inductive Course (o : Options) : Stage → Build → Build → Prop where
  | widget {comments : List Text} {e : Element} {content : List Item} {outer target₁ target₂ target₃ target₄ : Target}
      {id : WidgetId} {ids texts : List WidgetId} {r : Unit} {b b₁ b₂ b₃ b₄ b₅ b₆ b' : Build}
      (hadd : (add { type := e.name, tag := e.name }).run b = .ok (id, b₁))
      (hcontent : Course o (.content content (.bare id) ids target₁) b₁ b₂)
      (hproperties : Course o (.properties content target₁ target₂) b₂ b₃)
      (htext : (inlineText o e target₂).run b₃ = .ok ((texts, target₃), b₄))
      (hset : (setContent o e id (ids ++ texts)).run b₄ = .ok (r, b₅))
      (hattributes : (resolveAttributes o e (relevantAttributes e) target₃).run b₅ = .ok (target₄, b₆))
      (hcomment : (comment comments target₄.current).run b₆ = .ok (r, b')) :
      Course o (.item (.widget comments e content) outer [target₄.current] outer) b b'
  | beside {name : Text} {e : Element} {content : List Item} {outer : Target} {b : Build} :
      Course o (.item (.property name e content) outer [] outer) b b
  | callback {e : Element} {content : List Item} {outer target₁ : Target} {head : CallbackHead} {current : WidgetId}
      {body : List WidgetId} {r : Unit} {b b₁ b₂ b' : Build}
      (hhead : (callbackHead o e outer).run b = .ok ((head, current), b₁))
      (hcontent : Course o (.content content ⟨WidgetId.none, current⟩ body target₁) b₁ b₂)
      (hset : (change outer.inner (setCallback head body)).run b₂ = .ok (r, b')) :
      Course o (.item (.callback e content) outer [] { outer with current := target₁.current }) b b'
  | conditional {comments : List Text} {branches : List Branch} {outer : Target} {id current current' : WidgetId}
      {properties ps : List Property} {isSequence : Bool} {r : Unit} {b b₁ b₂ b₃ b₄ b₅ b' : Build}
      (hadd : (add { isCustom := true, tag := ifName, generator := Directive.conditionalName }).run b
        = .ok (id, b₁))
      (hbranches : Course o (.branches branches id properties isSequence current) b₁ b₂)
      (hsequence : (change id fun w => { w with isSequence := isSequence }).run b₂ = .ok (r, b₃))
      (hconditions : (resolveConditions o isSequence id (branches.zip properties) current).run b₃
        = .ok ((ps, current'), b₄))
      (hset : (change id fun w => { w with properties := ps }).run b₄ = .ok (r, b₅))
      (hcomment : (comment comments current').run b₅ = .ok (r, b')) :
      Course o (.item (.conditional comments branches) outer [current'] outer) b b'
  | nil {target : Target} {b : Build} : Course o (.items [] target [] target) b b
  | cons {item : Item} {items : List Item} {target target₁ target' : Target} {ids more : List WidgetId}
      {b b₁ b' : Build} (hitem : Course o (.item item target ids target₁) b b₁)
      (hitems : Course o (.items items target₁ more target') b₁ b') :
      Course o (.items (item :: items) target (ids ++ more) target') b b'
  | content {items : List Item} {target target₁ target' : Target} {made ids : List WidgetId} {b b₁ b' : Build}
      (hitems : Course o (.items items target made target₁) b b₁)
      (hfinish : (finishRun (made, target₁)).run b₁ = .ok ((ids, target'), b')) :
      Course o (.content items target ids target') b b'
  | pass {item : Item} {target : Target} {b : Build} : Course o (.property item target target) b b
  | text {name text : Text} {e : Element} {content : List Item} {target target' : Target} {value : Pipe.Expression}
      {r : Unit} {b b₁ b' : Build} (hvalue : (textValue o text target).run b = .ok ((value, target'), b₁))
      (hjoin : (change target'.inner (joinProperty (.ofExpression name value))).run b₁ = .ok (r, b')) :
      Course o (.property (.property name e content) target target') b b'
  | fragment {name : Text} {e : Element} {content : List Item} {target target₁ target₂ target₃ : Target}
      {id : WidgetId} {ids : List WidgetId} {p : Property} {r : Unit} {b b₁ b₂ b₃ b₄ b₅ b₆ b' : Build}
      (hadd : (add { tag := e.name, isFragment := true }).run b = .ok (id, b₁))
      (hcontent : Course o (.content content (.bare id) ids target₁) b₁ b₂)
      (hproperties : Course o (.properties content target₁ target₂) b₂ b₃)
      (hset : (setContent o e id ids).run b₃ = .ok (r, b₄))
      (hattributes : (resolveAttributes o e (relevantAttributes e) target₂).run b₄ = .ok (target₃, b₅))
      (hfragment : (fragmentProperty name target₃).run b₅ = .ok (p, b₆))
      (hjoin : (change target.inner (joinProperty p)).run b₆ = .ok (r, b')) :
      Course o (.property (.property name e content) target target) b b'
  | noProperties {target : Target} {b : Build} : Course o (.properties [] target target) b b
  | moreProperties {item : Item} {items : List Item} {target target₁ target' : Target} {b b₁ b' : Build}
      (hitem : Course o (.property item target target₁) b b₁)
      (hitems : Course o (.properties items target₁ target') b₁ b') :
      Course o (.properties (item :: items) target target') b b'
  | noBranches {current : WidgetId} {b : Build} : Course o (.branches [] current [] false current) b b
  | moreBranches {branches : List Branch} {isFallback needed : Bool} {e : Element} {content : List Item}
      {current current' : WidgetId} {target : Target} {ids : List WidgetId} {ps : List Property} {b b₁ b' : Build}
      (hcontent : Course o (.content content ⟨WidgetId.none, current⟩ ids target) b b₁)
      (hbranches : Course o (.branches branches target.current ps needed current') b₁ b') :
      Course o (.branches (.mk isFallback e content :: branches) current
        (branchProperty (.mk isFallback e content) ids :: ps) (needsList b₁.tree ids || needed) current') b b'

variable {o : Options} {b b' : Build} {target target' : Target} {e : Element} {r : Unit}

/-! ## Single steps -/

theorem setContent_cases {id : WidgetId} (hrun : (setContent o e id ids).run b = .ok (r, b')) :
    b' = b ∨ (put id (.ofWidgets childrenProperty ids)).run b = .ok (r, b') ∨
      ∃ child, ids = [child] ∧ b.tree.isSequence child = false ∧
        (put id (.ofWidget childProperty child)).run b = .ok (r, b') := by
  obtain ⟨type, b1, htype, hrest⟩ := run_bind hrun
  obtain ⟨c, b2, hget, hrest⟩ := run_bind hrest
  rw [(run_get hget).1, (run_get hget).2, run_typeOf htype] at hrest
  dsimp only at hrest
  split at hrest
  · exact .inl (run_pure hrest).2
  · rename_i child _
    split at hrest
    · exact .inr (.inl hrest)
    · rename_i hlist
      simp only [List.any_cons, List.any_nil, Bool.or_false, Bool.or_eq_true, not_or] at hlist
      exact .inr (.inr ⟨child, rfl, by simpa using hlist.2, hrest⟩)
  · exact .inr (.inl hrest)

/-- The text of an element is no text, or a property of the widget, or a new widget. -/
theorem inlineText_cases (hrun : (inlineText o e target).run b = .ok ((texts, target'), b')) :
    (texts = [] ∧ target' = target ∧ b' = b) ∨ ∃ value b1, normaliseText e.text ≠ [] ∧
        (textValue o (normaliseText e.text) target).run b = .ok ((value, target'), b1) ∧
        ((∃ type property, texts = [] ∧ (typeOf target'.inner).run b1 = .ok (type, b1) ∧
            o.contentProperties.lookup type = some property ∧
            (put target'.inner (.ofExpression (argumentName o type property) value)).run b1 = .ok ((), b')) ∨
          ∃ id, texts = [id] ∧ (add { type := "Text", tag := e.name, properties := [.ofExpression [] value] }).run b1
            = .ok (id, b')) := by
  unfold inlineText at hrun
  dsimp only at hrun
  split at hrun
  · obtain ⟨⟨⟩, rfl⟩ := run_pure hrun
    exact .inl ⟨rfl, rfl, rfl⟩
  · rename_i htext
    obtain ⟨⟨value, target1⟩, b1, hvalue, hrest⟩ := run_bind hrun
    obtain ⟨type, b2, htype, hplace⟩ := run_bind hrest
    obtain rfl := run_typeOf htype
    have hsome : normaliseText e.text ≠ [] := by simpa using htext
    split at hplace
    · rename_i property hlookup
      obtain ⟨_, hput, ⟨⟩⟩ := run_last hplace
      exact .inr ⟨value, b2, hsome, hvalue, .inl ⟨type, property, rfl, htype, hlookup, hput⟩⟩
    · obtain ⟨id, hadd, ⟨⟩⟩ := run_last hplace
      exact .inr ⟨value, b2, hsome, hvalue, .inr ⟨id, rfl, hadd⟩⟩

/-- A fragment stands for itself, or for its content where it is nothing else. -/
theorem fragmentProperty_cases (hrun : (fragmentProperty name target).run b = .ok (p, b')) :
    b' = b ∧ (p = { name := name, value := .fragment target.current } ∨
      ∃ w q, b.tree.get? target.inner = some w ∧ target.current = target.inner ∧ w.content? = some q ∧
        p = { q with name := name }) := by
  obtain ⟨w?, b1, hfind, hrest⟩ := run_bind hrun
  obtain ⟨hw, hb⟩ := run_find? hfind
  rw [hb, hw] at hrest
  split at hrest
  · rename_i w hw
    split at hrest
    · rename_i hbare
      split at hrest
      · rename_i q hq
        obtain ⟨rfl, rfl⟩ := run_pure hrest
        exact ⟨rfl, .inr ⟨w, q, hw, by simpa using (Bool.and_eq_true_iff.1 hbare).1, hq, rfl⟩⟩
      · exact (run_pure hrest).symm.imp_right .inl
    · exact (run_pure hrest).symm.imp_right .inl
  · exact (run_pure hrest).symm.imp_right .inl

/-! ## Whole courses -/

mutual

theorem item_course {b b' : Build} {target target' : Target} : (item : Item) →
    (resolveItem o item target).run b = .ok ((ids, target'), b') → Course o (.item item target ids target') b b'
  | .widget comments e content, hrun => by
    unfold resolveItem at hrun
    obtain ⟨id, b1, hadd, hrest⟩ := run_bind hrun
    obtain ⟨run, b2, hres, hrest⟩ := run_bind hrest
    obtain ⟨⟨made, target1⟩, b3, hfinish, hrest⟩ := run_bind hrest
    obtain ⟨target2, b4, hprops, hrest⟩ := run_bind hrest
    obtain ⟨⟨texts, target3⟩, b5, htext, hrest⟩ := run_bind hrest
    obtain ⟨_, b6, hset, hrest⟩ := run_bind hrest
    obtain ⟨target4, b7, hattrs, hrest⟩ := run_bind hrest
    obtain ⟨_, hcomment, ⟨⟩⟩ := run_last hrest
    exact .widget hadd (.content (items_course content hres) hfinish) (properties_course content hprops)
      htext hset hattrs hcomment
  | .property name e content, hrun => by
    unfold resolveItem at hrun
    obtain ⟨⟨⟩, rfl⟩ := run_pure hrun
    exact .beside
  | .callback e content, hrun => by
    unfold resolveItem at hrun
    obtain ⟨⟨head, current⟩, b1, hhead, hrest⟩ := run_bind hrun
    obtain ⟨run, b2, hres, hrest⟩ := run_bind hrest
    obtain ⟨⟨body, detached⟩, b3, hfinish, hrest⟩ := run_bind hrest
    obtain ⟨_, hset, ⟨⟩⟩ := run_last hrest
    exact .callback hhead (.content (items_course content hres) hfinish) hset
  | .conditional comments branches, hrun => by
    unfold resolveItem at hrun
    obtain ⟨id, b1, hadd, hrest⟩ := run_bind hrun
    obtain ⟨⟨properties, isSequence, current1⟩, b2, hres, hrest⟩ := run_bind hrest
    obtain ⟨_, b3, hseq, hrest⟩ := run_bind hrest
    obtain ⟨⟨ps, current2⟩, b4, hconds, hrest⟩ := run_bind hrest
    obtain ⟨_, b5, hset, hrest⟩ := run_bind hrest
    obtain ⟨_, hcomment, ⟨⟩⟩ := run_last hrest
    exact .conditional hadd (branches_course branches hres) hseq hconds hset hcomment

theorem items_course {b b' : Build} {target : Target} : (items : List Item) →
    (resolveItems o items target).run b = .ok (run, b') → Course o (.items items target run.1 run.2) b b'
  | [], hrun => by
    unfold resolveItems at hrun
    obtain ⟨rfl, rfl⟩ := run_pure hrun
    exact .nil
  | item :: items, hrun => by
    unfold resolveItems at hrun
    obtain ⟨⟨ids1, target1⟩, b1, hfirst, hrest⟩ := run_bind hrun
    obtain ⟨more, hmore, rfl⟩ := run_last hrest
    exact .cons (item_course item hfirst) (items_course items hmore)

theorem properties_course {b b' : Build} {target target' : Target} : (items : List Item) →
    (resolveProperties o items target).run b = .ok (target', b') → Course o (.properties items target target') b b'
  | [], hrun => by
    unfold resolveProperties at hrun
    obtain ⟨rfl, rfl⟩ := run_pure hrun
    exact .noProperties
  | item :: items, hrun => by
    unfold resolveProperties at hrun
    obtain ⟨target1, b1, hfirst, hmore⟩ := run_bind hrun
    exact .moreProperties (property_course item hfirst) (properties_course items hmore)

theorem property_course {b b' : Build} {target target' : Target} : (item : Item) →
    (resolveProperty o item target).run b = .ok (target', b') → Course o (.property item target target') b b'
  | .property name e content, hrun => by
    unfold resolveProperty at hrun
    dsimp only at hrun
    split at hrun
    · split at hrun
      · obtain ⟨rfl, rfl⟩ := run_pure hrun
        exact .pass
      · obtain ⟨⟨value, target1⟩, b1, hvalue, hrest⟩ := run_bind hrun
        obtain ⟨_, hjoin, rfl⟩ := run_last hrest
        exact .text hvalue hjoin
    · obtain ⟨id, b1, hadd, hrest⟩ := run_bind hrun
      obtain ⟨run, b2, hres, hrest⟩ := run_bind hrest
      obtain ⟨⟨made, target1⟩, b3, hfinish, hrest⟩ := run_bind hrest
      obtain ⟨target2, b4, hprops, hrest⟩ := run_bind hrest
      obtain ⟨_, b5, hset, hrest⟩ := run_bind hrest
      obtain ⟨target3, b6, hattrs, hrest⟩ := run_bind hrest
      obtain ⟨p, b7, hfrag, hrest⟩ := run_bind hrest
      obtain ⟨_, hjoin, rfl⟩ := run_last hrest
      exact .fragment hadd (.content (items_course content hres) hfinish) (properties_course content hprops)
        hset hattrs hfrag hjoin
  | .widget .., hrun | .callback .., hrun | .conditional .., hrun => by
    unfold resolveProperty at hrun
    obtain ⟨rfl, rfl⟩ := run_pure hrun
    exact .pass

theorem branches_course {b b' : Build} :
    (branches : List Branch) → (resolveBranches o branches current).run b = .ok ((ps, needed, current'), b') →
      Course o (.branches branches current ps needed current') b b'
  | [], hrun => by
    unfold resolveBranches at hrun
    obtain ⟨⟨⟩, rfl⟩ := run_pure hrun
    exact .noBranches
  | .mk isFallback e content :: branches, hrun => by
    unfold resolveBranches resolveBranch at hrun
    obtain ⟨⟨ids, current1⟩, b1, hbranch, hrest⟩ := run_bind hrun
    obtain ⟨run, b2, hres, hbranch⟩ := run_bind hbranch
    obtain ⟨⟨made, target1⟩, hfinish, ⟨⟩⟩ := run_last hbranch
    obtain ⟨c, b4, hget, hrest⟩ := run_bind hrest
    obtain ⟨⟨properties, needed1, current2⟩, hmore, ⟨⟩⟩ := run_last hrest
    obtain ⟨rfl, hb⟩ := run_get hget
    rw [hb] at hmore
    exact .moreBranches (.content (items_course content hres) hfinish) (branches_course branches hmore)

end

end FlutterLayout.Layout
