import FlutterLayout.Proofs.Layout.LoopScope
import FlutterLayout.Proofs.Layout.Sequences

/-!
# ListPositions — in a resolved document sequences stand in lists only

What is left of the rule of `Placed` when a tree is complete is `Listed`: no exceptions, and the root is no
sequence either.  `listRoot` establishes it; waiting actions and the removal of builders keep it.
-/

namespace FlutterLayout.Layout

open List
open Markup (Element)

variable {t t' : Tree Deferral} {root x : WidgetId} {w : Widget} {n : Int} {o : Options} {b b' : Build}
  {e : Element} {item : Item}

/-! ## Complete trees -/

/-- Neither the root nor what is wrapped or held alone by a property is a sequence. -/
structure Listed (root : WidgetId) (t : Tree Deferral) : Prop where
  root : t.isSequence root = false
  wrapped : ∀ {u : WidgetId} {w : Widget}, t.get? u = some w → t.isSequence w.wrapped = false
  single : ∀ {u : WidgetId} {w : Widget}, t.get? u = some w → ∀ p ∈ w.properties, ∀ i ∈ p.value.single?,
    t.isSequence i = false

def Complete (t : Tree Deferral) : Prop :=
  Placed (fun _ => False) (fun _ => False) t

theorem isSequence_eq_false (h : ¬ Spread (fun _ => False) t x) : t.isSequence x = false :=
  Bool.eq_false_iff.2 fun hseq => h (.inr hseq)

theorem Complete.listed (h : Complete t) (hroot : ¬ Spread (fun _ => False) t root) : Listed root t where
  root := isSequence_eq_false hroot
  wrapped hw := isSequence_eq_false fun hspread => h.wrapped hw hspread
  single hw p hp i hi := isSequence_eq_false (h.fine hw p hp i hi).2

theorem Listed.modify (h : Listed root t) (hflag : ∀ w, (f w).isSequence = w.isSequence)
    (hf : ∀ w, t.get? x = some w → t.isSequence (f w).wrapped = false ∧
      ∀ p ∈ (f w).properties, ∀ i ∈ p.value.single?, t.isSequence i = false) : Listed root (t.modify x f) := by
  have hsame : ∀ y, (t.modify x f).isSequence y = t.isSequence y := by
    intro y
    unfold Tree.isSequence
    by_cases heq : y = x
    · subst heq
      rw [Tree.get?_modify_self]
      cases t.get? y with
      | none => rfl
      | some w => exact hflag w
    · rw [Tree.get?_modify_of_ne f heq]
  have hcases : ∀ {u : WidgetId} {v : Widget}, (t.modify x f).get? u = some v →
      t.isSequence v.wrapped = false ∧ ∀ p ∈ v.properties, ∀ i ∈ p.value.single?, t.isSequence i = false := by
    intro u v hv
    obtain ⟨w, hw, ⟨rfl, rfl⟩ | rfl⟩ := Tree.get?_modify_cases hv
    · exact hf w hw
    · exact ⟨h.wrapped hw, h.single hw⟩
  refine ⟨(hsame root).trans h.root, fun hv => ?_, fun hv p hp i hi => ?_⟩
  · exact (hsame _).trans (hcases hv).1
  · exact (hsame i).trans ((hcases hv).2 p hp i hi)

theorem Listed.touch (h : Listed root t)
    (hf : ∀ w, (f w).isSequence = w.isSequence ∧ (f w).wrapped = w.wrapped ∧ (f w).properties = w.properties) :
    Listed root (t.modify x f) := by
  refine h.modify (fun w => (hf w).1) fun w hw => ?_
  rw [(hf w).2.1, (hf w).2.2]
  exact ⟨h.wrapped hw, h.single hw⟩

/-! ## The root -/

/-- A sequence at the root is put into a list, with its builders around the list. -/
theorem listRoot_listed {s : Tower} (hs : s.Stands n b.tree)
    (h : Placed (fun _ => False) (fun u => False ∨ u ∈ s.builders) b.tree)
    (hrun : (listRoot s.top).run b = .ok (root, b')) : Listed root b'.tree := by
  have hpeel := hs.pile.peel_eq hs.solid
  rcases listRoot_cases hrun with ⟨column, b2, sequence, b3, hadd, hhoist, hput⟩ | ⟨hseq, rfl, rfl⟩
  · obtain ⟨rfl, htree⟩ := run_add hadd
    have hplaced : Placed (fun _ => False) (fun u => (False ∨ u ∈ []) ∨ u ∈ s.builders) b2.tree := by
      rw [htree]
      refine (h.add (fun _ => rfl) (by change (0 : Int) ≤ b.tree.size; lia)
        (fun hspread => absurd hspread h.not_spread_none) (by simp)).mono (by simp)
    have hstands : s.Stands n b2.tree := hs.frame (htree ▸ .add _)
    have hcolumn : b2.tree.get? (b.tree.add { type := "Column" }).1 = some { type := "Column" } := by
      rw [htree]
      exact Tree.get?_add_self _
    obtain ⟨bs, hpile, hmoved, -, hothers, -, -, -⟩ := hoist_raises hstands .nil (Tree.le_size_of_get? hcolumn)
      (fun _ _ => not_mem_nil) (fun _ hx => hx.elim) hplaced hhoist
    -- The column is newer than the builders, so hoisting leaves it as it is.
    have hnew : (b.tree.add { type := "Column" }).1 ∉ s.builders := by
      intro hmem
      have hle := hs.pile.stacked.le_size _ hmem
      rw [Tree.add_fst] at hle
      lia
    obtain ⟨hcomplete, hframes⟩ := put_placed hput hmoved (fine_of_single? rfl)
    have hbottom : ¬ Spread (fun _ => False) b'.tree (b.tree.add { type := "Column" }).1 := by
      rw [← hothers _ hnew] at hcolumn
      obtain ⟨w, hw, -, -, hseq⟩ := hframes.old (Tree.le_size_of_get? hcolumn) hcolumn
      rintro (hbar | hspread)
      · exact hbar
      · rw [isSequence_of_get? hw, hseq] at hspread
        cases hspread
    have hstacked := hpile.stacked.frame hframes hpile.stacked.le_size
    have hsettled : Complete b'.tree := hcomplete.settle hstacked (fun _ _ => id) hbottom
    exact hsettled.listed (hstacked.not_spread_top hsettled (fun _ _ => id) hbottom)
  · rw [hpeel] at hseq
    have hbottom : ¬ Spread (fun _ => False) b'.tree s.bottom := by
      rintro (hbar | hspread)
      · exact hbar
      · exact Bool.eq_false_iff.1 hseq hspread
    have hsettled : Complete b'.tree := h.settle hs.pile.stacked (fun _ _ => id) hbottom
    exact hsettled.listed (hs.pile.stacked.not_spread_top hsettled (fun _ _ => id) hbottom)

theorem complete_empty : Complete ({} : Build).tree := by
  have hnone : ∀ {u : WidgetId}, ({} : Build).tree.get? u = none := by
    intro u
    refine Option.eq_none_iff_forall_ne_some.2 fun w hw => ?_
    have hpos := Tree.pos_of_get? hw
    have hle := Tree.le_size_of_get? hw
    exact Int.not_lt.2 hle hpos
  refine ⟨fun hx => hx.elim, ?_, ?_, ?_, ?_⟩ <;> intro u w hw <;> cases hnone.symm.trans hw

theorem buildRoot_listed {fields : List ClassField} {comments : List Text} (hhandlers : o.handlers = Directive.standard)
    (hitem : (Item.ofRoot o.handlers comments e).All Element.Distinct Unrepeated)
    (hrun : (buildRoot o fields comments e).run {} = .ok (root, b')) : Listed root b'.tree := by
  obtain ⟨ids, target, b1, b2, hres, hlist, hchange⟩ := buildRoot_cases hrun
  cases hitem with
  | widget hown hitems =>
    cases item_course _ hres with
    | widget hadd hcontent hprops htext hset hattrs hcomment =>
      obtain ⟨s, htop, hs, -, hplaced⟩ := widget_tower hhandlers hown hitems hadd (hcontent.spreads hhandlers)
        (hprops.spreads hhandlers) htext hset hattrs hcomment complete_empty
      have hlisted := listRoot_listed hs hplaced (htop ▸ hlist)
      rw [run_change hchange]
      exact hlisted.touch fun _ => ⟨rfl, rfl, rfl⟩

/-! ## What comes after -/

theorem disableIn_listed (h : Listed root t) (ids : List WidgetId) : Listed root (disableIn condition t ids) := by
  rcases disableIn_cases condition t ids with hsame | ⟨y, -, w, ps, hw, hps, hchanged⟩
  · exact hsame.symm ▸ h
  · rw [hchanged]
    refine h.modify (fun _ => rfl) fun w' hw' => ?_
    rw [hw] at hw'
    cases hw'
    have hwrap := h.wrapped hw
    refine ⟨hwrap, fun q hq i hi => ?_⟩
    rcases mem_of_disableFirst? hps hq with hq | ⟨v, hvalue⟩
    · exact h.single hw q hq i hi
    · rw [hvalue] at hi
      cases hi

theorem runDeferred_listed (h : Listed root t) : Listed root (t.runDeferred performDeferral root).1 := by
  refine runDeferred_keeps root ?_ (fun _ h => ⟨h.root, h.wrapped, h.single⟩) h
  rintro t ⟨outer, condition⟩ y h
  exact disableIn_listed h _

theorem single?_put {position : Nat} {c i : WidgetId} {v : PropertyValue} (hi : i ∈ (v.put position c).single?) :
    i = c ∨ i ∈ v.single? := by
  cases v with
  | widget | fragment => exact .inl (Option.some.inj hi).symm
  | function f? => cases f? <;> cases hi
  | _ => cases hi

theorem put_cases {slot : Slot} {c : WidgetId} : (w.put slot c).isSequence = w.isSequence ∧
    ((w.put slot c).wrapped = c ∨ (w.put slot c).wrapped = w.wrapped) ∧
    ∀ p ∈ (w.put slot c).properties, ∀ i ∈ p.value.single?, i = c ∨ ∃ q ∈ w.properties, i ∈ q.value.single? := by
  have hmodify : ∀ (index position : Nat),
      ∀ p ∈ w.properties.modify index (fun p => { p with value := p.value.put position c }),
        ∀ i ∈ p.value.single?, i = c ∨ ∃ q ∈ w.properties, i ∈ q.value.single? := by
    intro index position p hp i hi
    obtain ⟨k, hk⟩ := mem_iff_getElem?.1 hp
    rw [getElem?_modify] at hk
    obtain ⟨q, hq, heq⟩ := Option.map_eq_some_iff.1 hk
    have hmem := mem_of_getElem? hq
    split at heq <;> subst heq
    · exact (single?_put hi).imp_right fun hi => ⟨q, hmem, hi⟩
    · exact .inr ⟨q, hmem, hi⟩
  cases slot with
  | wrapped => exact ⟨rfl, .inl rfl, fun p hp i hi => .inr ⟨p, hp, hi⟩⟩
  | property index => exact ⟨rfl, .inr rfl, hmodify index 0⟩
  | item index position => exact ⟨rfl, .inr rfl, hmodify index position⟩

theorem merges_listed (hmerges : Pipe.Merges root t log t') (h : Listed root t) : Listed root t' := by
  induction hmerges with
  | refl t => exact h
  | @step t t' p outer c r s log hr hrest ih =>
    have hweaker : Listed root (Pipe.mergeInto t outer s) := h.touch fun _ => ⟨rfl, rfl, rfl⟩
    obtain ⟨w, hw, -, rfl⟩ := hr.builder
    have hwrap : (Pipe.mergeInto t outer s).isSequence w.wrapped = false := by
      obtain ⟨v, hv, heq⟩ : ∃ v, (Pipe.mergeInto t outer s).get? r.id = some v ∧ v.wrapped = w.wrapped := by
        unfold Pipe.mergeInto
        by_cases hid : r.id = outer
        · rw [hid] at hw ⊢
          exact ⟨_, Tree.get?_modify_of_get? hw, rfl⟩
        · exact ⟨w, by rw [Tree.get?_modify_of_ne _ hid, hw], rfl⟩
      exact heq ▸ hweaker.wrapped hv
    refine ih (hweaker.modify (fun _ => put_cases.1) fun v hv => ⟨?_, fun q hq i hi => ?_⟩)
    · rcases (@put_cases v r.slot w.wrapped).2.1 with heq | heq
      · rw [heq, hwrap]
      · rw [heq, hweaker.wrapped hv]
    · rcases put_cases.2.2 q hq i hi with rfl | ⟨q', hq', hi⟩
      · exact hwrap
      · exact hweaker.single hv q' hq' i hi

/-! ## Documents -/

mutual

def Item.unrepeated : Item → Bool
  | .widget _ _ content => Item.allUnrepeated content
  | .property _ e content => e.attributes.all (fun a => a.1 ≠ Directive.repeatName) && Item.allUnrepeated content
  | .callback _ content => Item.allUnrepeated content
  | .conditional _ branches => Branch.allUnrepeated branches

def Item.allUnrepeated : List Item → Bool
  | [] => true
  | item :: items => item.unrepeated && Item.allUnrepeated items

def Branch.allUnrepeated : List Branch → Bool
  | [] => true
  | .mk _ _ content :: branches => Item.allUnrepeated content && Branch.allUnrepeated branches

end

theorem unrepeated_of_mem (h : Item.allUnrepeated items = true) (hitem : item ∈ items) : item.unrepeated = true := by
  induction items with
  | nil => cases hitem
  | cons first items ih =>
    simp only [Item.allUnrepeated, Bool.and_eq_true] at h
    rcases mem_cons.1 hitem with rfl | hitem
    · exact h.1
    · exact ih h.2 hitem

theorem allUnrepeated_of_mem
    (h : Branch.allUnrepeated branches = true) (hbranch : Branch.mk isFallback e content ∈ branches) :
    Item.allUnrepeated content = true := by
  induction branches with
  | nil => cases hbranch
  | cons first branches ih =>
    obtain ⟨isFallback', e', content'⟩ := first
    simp only [Branch.allUnrepeated, Bool.and_eq_true] at h
    rcases mem_cons.1 hbranch with heq | hbranch
    · cases heq
      exact h.1
    · exact ih h.2 hbranch

/-- The items of an element: what is inside it is distinct, and its properties are not repeated. -/
theorem all_of_unrepeated {e : Element} {place : Place} {item : Item} (hall : ∀ e', Inside e e' → e'.Distinct)
    (hitem : item ∈ Item.content o.handlers place e) (h : item.unrepeated = true) :
    item.All Element.Distinct Unrepeated := by
  have hinside : ∀ {c : Element}, .element c ∈ e.children → Inside e c := fun hc => .single (mem_elements.2 hc)
  have hbelow : ∀ {c : Element}, .element c ∈ e.children → ∀ (place : Place),
      Item.allUnrepeated (Item.content o.handlers place c) = true →
        ∀ item ∈ Item.content o.handlers place c, item.All Element.Distinct Unrepeated :=
    fun hc place h item hitem =>
      all_of_unrepeated (fun e' he' => hall e' ((hinside hc).trans he')) hitem (unrepeated_of_mem h hitem)
  cases standsFor_of_mem_content hitem with
  | widget hc =>
    unfold Item.unrepeated at h
    exact .widget (hall _ (hinside hc)) (hbelow hc _ h)
  | property hc =>
    simp only [Item.unrepeated, Bool.and_eq_true, all_eq_true, decide_eq_true_eq] at h
    exact .property h.1 (hbelow hc _ h.2)
  | callback hc =>
    unfold Item.unrepeated at h
    exact .callback (hbelow hc _ h)
  | conditional hfrom =>
    unfold Item.unrepeated at h
    refine .conditional fun isFallback c content hmem => ?_
    obtain ⟨hc, rfl⟩ := hfrom isFallback c content hmem
    exact hbelow hc _ (allUnrepeated_of_mem h hmem)
termination_by sizeOf e
decreasing_by exact sizeOf_lt_of_mem_children hc

def PropertiesUnrepeated (o : Options) (d : Markup.Document) : Prop :=
  ∀ site ∈ rootSite? o d, site.item.unrepeated = true

theorem slot_of_mem_references (hq : q ∈ w.references) (hwrap : q.id ≠ w.wrapped)
    (hsingle : ∀ p ∈ w.properties, q.id ∉ p.value.single?) : ∃ index position, q.slot = .item index position := by
  rcases mem_append.1 hq with hq | hq
  · split at hq
    · cases hq
    · rw [mem_singleton.1 hq] at hwrap
      exact absurd rfl hwrap
  · obtain ⟨⟨p, index⟩, hp, hq⟩ := mem_flatMap.1 hq
    have hsingle := hsingle p (fst_mem_of_mem_zipIdx hp)
    have hitems : ∀ {binds : List Text} {ids : List WidgetId}, q ∈ itemReferences index binds ids →
        ∃ index position, q.slot = .item index position := by
      intro binds ids hq
      obtain ⟨one, -, rfl⟩ := mem_map.1 hq
      exact ⟨index, one.2, rfl⟩
    dsimp only [Property.references] at hq
    split at hq
    · rename_i i hvalue
      split at hq
      · cases hq
      · rw [mem_singleton.1 hq, hvalue] at hsingle
        exact absurd rfl hsingle
    · rename_i i hvalue
      split at hq
      · cases hq
      · rw [mem_singleton.1 hq, hvalue] at hsingle
        exact absurd rfl hsingle
    · exact hitems hq
    · exact hitems hq
    · cases hq

theorem slot_of_isSequence {options : Markup.ReadOptions} {filename source : Text} {d : Markup.Document}
    {r : Resolution} (hhandlers : o.handlers = Directive.standard)
    (hread : Markup.Document.read options filename source = .ok d) (hproperties : PropertiesUnrepeated o d)
    (h : resolve o d = .ok r) : r.tree.isSequence r.root = false ∧
      ∀ u w q, r.tree.Reaches r.root u → r.tree.get? u = some w → q ∈ w.references →
        r.tree.isSequence q.id = true → ∃ index position, q.slot = .item index position := by
  rcases resolve_cases h with hnone | ⟨a, fields, comments, e, b, log, hbuilt, hroot, hmerges⟩
  · rw [hnone]
    refine ⟨rfl, fun u w q hu hw => ?_⟩
    cases (get?_eq_none_of_reaches_none hu).symm.trans hw
  · obtain ⟨top, htop, hinside⟩ := hbuilt.inside
    obtain ⟨site, hsite, hitem⟩ := hbuilt.site
    have hdistinct : ∀ e', Inside e e' → e'.Distinct :=
      fun e' he' => Markup.distinct_of_read hread htop (hinside.trans he')
    have hall : (Item.ofRoot o.handlers comments e).All Element.Distinct Unrepeated := by
      have hgiven := hproperties site hsite
      rw [hitem] at hgiven
      unfold Item.ofRoot Item.unrepeated at hgiven
      exact .widget (hdistinct e .refl) fun item hmem =>
        all_of_unrepeated hdistinct hmem (unrepeated_of_mem hgiven hmem)
    have hbuild := buildRoot_listed hhandlers hall hbuilt.run
    have hlisted : Listed a.root r.tree := by
      refine merges_listed hmerges ?_
      rw [hbuilt.tree]
      exact runDeferred_listed hbuild
    refine ⟨hroot ▸ hlisted.root, fun u w q _ hw hq hsequence => ?_⟩
    refine slot_of_mem_references hq (fun heq => ?_) fun p hp hi => ?_
    · rw [heq, hlisted.wrapped hw] at hsequence
      cases hsequence
    · rw [hlisted.single hw p hp _ hi] at hsequence
      cases hsequence

/-- A loop over a stream in a branch: the builder goes around the row, the loop and the conditional stay in lists. -/
def streamedBranch : Text :=
  "<Row><if value=\"a\"><A :repeat=\"x of xs | stream\"/></if></Row>"

def Resolution.hasSequence (r : Resolution) : Bool :=
  (r.tree.children r.root).any fun u => (r.tree.children u).any r.tree.isSequence

theorem slot_of_isSequence_streamedBranch : ∃ d r, Markup.Document.read {} [] streamedBranch = .ok d ∧
    PropertiesUnrepeated fragmentOptions d ∧ resolve fragmentOptions d = .ok r ∧ r.hasSequence = true ∧
    r.tree.isSequence r.root = false ∧
      ∀ u w q, r.tree.Reaches r.root u → r.tree.get? u = some w → q ∈ w.references →
        r.tree.isSequence q.id = true → ∃ index position, q.slot = .item index position := by
  have hrun : ((Markup.Document.read {} [] streamedBranch).toOption.any fun d =>
      (rootSite? fragmentOptions d).all (fun site => site.item.unrepeated) &&
        (resolve fragmentOptions d).toOption.any Resolution.hasSequence) = true := by decide +kernel
  cases hread : Markup.Document.read {} [] streamedBranch with
  | error failure =>
    rw [hread] at hrun
    cases hrun
  | ok d =>
    rw [hread, Except.toOption, Option.any_some, Bool.and_eq_true] at hrun
    have hproperties : PropertiesUnrepeated fragmentOptions d := by
      intro site hsite
      have hall := hrun.1
      rw [Option.mem_def.1 hsite] at hall
      exact hall
    cases hresolve : resolve fragmentOptions d with
    | error failure =>
      rw [hresolve] at hrun
      cases hrun.2
    | ok r =>
      rw [hresolve] at hrun
      exact ⟨d, r, rfl, hproperties, hresolve, hrun.2, slot_of_isSequence rfl hread hproperties hresolve⟩

end FlutterLayout.Layout
