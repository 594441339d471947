import FlutterLayout.Proofs.Layout.Sites

/-!
# Binders — content under the names it is given

A binder is an item whose content stands where names are bound: a callback element, or an element whose
first attribute makes its content the body of a loop or of a callback.  The widgets made for one item of the
content are a part that nothing else refers to (`encloses_made`).  When the run of items is put in order the
builders of a sequence leave that part (`content_opens`), and what is left is entered through the names of
the binder once the binder has been resolved (`Binder.closes`).
-/

namespace FlutterLayout

open Widget FlutterLayout.Tree

theorem Widget.remove_set_of_ne (h : p.name ≠ name) (w : Widget) : (w.set p).remove name = (w.remove name).set p := by
  unfold remove set
  rw [dropProperty_putProperty_of_ne h]

theorem Widget.remove_set_self (p : Property) (w : Widget) : (w.set p).remove p.name = w.remove p.name := by
  unfold remove set
  rw [dropProperty_putProperty_self]

theorem Widget.removeContent_set (hp : p.name = childProperty ∨ p.name = childrenProperty) (w : Widget) :
    ((w.set p).remove childProperty).remove childrenProperty = (w.remove childProperty).remove childrenProperty := by
  rcases hp with hp | hp
  · rw [← hp, remove_set_self]
  · have hne : p.name ≠ childProperty := by
      rw [hp]
      decide
    rw [remove_set_of_ne hne, ← hp, remove_set_self]

theorem Widget.removeContent_set_set
    (hp : p.name = childProperty ∨ p.name = childrenProperty) (hchild : q.name ≠ childProperty)
    (hkids : q.name ≠ childrenProperty) (w : Widget) :
    (((w.set p).set q).remove childProperty).remove childrenProperty
      = ((w.set q).remove childProperty).remove childrenProperty := by
  rw [remove_set_of_ne hchild, remove_set_of_ne hkids, removeContent_set hp,
    remove_set_of_ne hchild, remove_set_of_ne hkids]

namespace Layout

open Relation (ReflTransGen TransGen)

variable {names : List Text} {part : WidgetId → Prop} {t t' : Tree Deferral} {x id : WidgetId} {w : Widget}
  {target target' : Target} {o : Options} {b b' : Build} {content : List Item} {s p : Site} {ids : List WidgetId}

/-! ## Binding attributes -/

section Attributes

variable {content : Property} {input : Input} {outcome : Outcome}

def loopNames (value : Text) : List Text :=
  [(Directive.LoopHeader.readLoose value).index, (Directive.LoopHeader.readLoose value).item]

theorem Mounts.of_modify
    (hm : Mounts ss id (t.modify x f) outer t') (hx : x ≤ t.size) :
    ∃ t1, t' = t1.modify x f ∧ Mounts ss id t outer t1 := by
  generalize hu : t.modify x f = u at hm
  induction hm generalizing t with
  | nil => exact ⟨t, hu.symm, .nil⟩
  | @cons s ss flag id outer u t' h ih =>
    subst hu
    have hid : ((t.modify x f).add (Pipe.builder { s with skipNullCheck := flag } id)).1
        = (t.add (Pipe.builder { s with skipNullCheck := flag } id)).1 := by
      rw [add_fst, add_fst, size_modify]
    have hsize : x ≤ (t.add (Pipe.builder { s with skipNullCheck := flag } id)).2.size := by
      rw [size_add]
      lia
    rw [hid] at ih
    obtain ⟨t1, ht', hmounts⟩ := ih hsize (modify_add _ _ hx)
    exact ⟨t1, ht', .cons hmounts⟩

section

variable (h : Encloses names part t) (ha : Aside part t target)
include h ha

/-- A value may be resolved before or after the widget of the target is changed. -/
theorem resolveValue_modify (htree : b.tree = t.modify target.inner f)
    (hrun : (Build.resolveValue o name value target flag).run b = .ok ((e, outer), b')) :
    ∃ t1, b'.tree = t1.modify target.inner f ∧ Keeps names part t t1 ∧ ¬ Barred part t1 outer := by
  have hmounts := resolveValue_mounts hrun
  rw [htree] at hmounts
  obtain ⟨t1, ht1, hmounts⟩ := hmounts.of_modify ha.inner_le
  exact ⟨t1, ht1, hmounts.keeps h ha.current⟩

variable (hcontent : content.name = childProperty ∨ content.name = childrenProperty)
  (htree : b.tree = t.modify target.inner fun w => w.set content) (hnames : ∃ y ∈ names, y ∈ loopNames input.value)
include hcontent htree hnames

/-- The content of a widget becomes the body of a loop, which may hold what the part holds. -/
theorem childBuilder_binds (hrun : (Attribute.childBuilder o input target).run b = .ok (outcome, b')) :
    Works names part t target b'.tree (outcome.onto target) := by
  obtain ⟨⟨e, outer⟩, b1, hvalue, hrest⟩ := run_bind hrun
  obtain ⟨body, b2, htake, hrest⟩ := run_bind hrest
  obtain ⟨id, b3, hadd, hrest⟩ := run_bind hrest
  obtain ⟨_, hput, rfl⟩ := run_last hrest
  obtain ⟨t1, htree1, hstack, houter⟩ := resolveValue_modify h ha htree hvalue
  have htaken : Works names part t1 target b2.tree target := by
    have hsame : dropContent ∘ (fun w => w.set content) = dropContent := funext (removeContent_set hcontent)
    rw [(Attribute.run_takeContent htake).1, htree1, modify_modify, hsame]
    exact works_dropContent hstack.toEncloses (hstack.aside ha)
  obtain ⟨hloop, hid⟩ := add_keeps htaken.toEncloses hadd (.inl ⟨nofun, hnames⟩) nofun
  have hset := put_works hloop.toEncloses (hloop.aside htaken.aside) hput
    (PropertyValue.admits_widgets (List.forall_mem_singleton.2 hid))
  have hlater := (htaken.toKeeps.trans hloop).trans hset.toKeeps
  exact (hstack.trans hlater).onto_wrapped ha (hlater.not_barred houter)

/-- The content of a widget becomes the body of a callback, which may hold what the part holds. -/
theorem itemBuilder_binds (hrun : (Attribute.itemBuilder o input target).run b = .ok (outcome, b')) :
    Works names part t target b'.tree (outcome.onto target) := by
  obtain ⟨⟨e, outer⟩, b1, hvalue, hrest⟩ := run_bind hrun
  obtain ⟨_, b2, hcount, hrest⟩ := run_bind hrest
  obtain ⟨body, b3, htake, hrest⟩ := run_bind hrest
  obtain ⟨_, hput, rfl⟩ := run_last hrest
  obtain ⟨t1, htree1, hstack, houter⟩ := resolveValue_modify h ha htree hvalue
  have hcounted := works_set (p := .ofExpression "itemCount" ⟨e.value ++ ".length", e.subscriptions⟩)
    hstack.toEncloses (hstack.aside ha) (PropertyValue.admits_text _)
  have htaken : Works names part t1 target b3.tree target := by
    -- The number of items is no content, so it might have been set without the content.
    have hchild : Text.ofString "itemCount" ≠ childProperty := by decide
    have hkids : Text.ofString "itemCount" ≠ childrenProperty := by decide
    have hrem := works_dropContent hcounted.toEncloses hcounted.aside
    rw [modify_modify] at hrem
    rw [(Attribute.run_takeContent htake).1, run_put hcount, htree1, modify_modify, modify_modify]
    convert hcounted.trans hrem using 2
    exact funext (removeContent_set_set hcontent hchild hkids)
  have hset := put_works htaken.toEncloses htaken.aside hput (.inl ⟨_, rfl, hnames⟩)
  have hlater := htaken.toKeeps.trans hset.toKeeps
  exact (hstack.trans hlater).onto_wrapped ha (hlater.not_barred houter)

end

variable {e : Markup.Element} {c : Claim} {rest : List Claim} {r : Directive.Registration}

theorem resolveClaim_binds (hr : c.registration? = some r)
    (hhandler : r.handler = .childBuilder ∨ r.handler = .itemBuilder) (h : Encloses names part t)
    (ha : Aside part t target) (hcontent : content.name = childProperty ∨ content.name = childrenProperty)
    (htree : b.tree = t.modify target.inner fun w => w.set content)
    (hnames : ∃ y ∈ names, y ∈ loopNames c.effectiveValue)
    (hrun : (resolveClaim o e target c).run b = .ok (target', b')) : Works names part t target b'.tree target' := by
  have hres : r.handler.resolves = true := by
    rcases hhandler with hhandler | hhandler
    · rw [hhandler]
      rfl
    · rw [hhandler]
      rfl
  rcases resolveClaim_cases hrun with ⟨hplain, -⟩ | ⟨r', outcome, b1, hr', happly, hleft⟩
  · rw [hplain r hr] at hres
    cases hres
  · rw [hr] at hr'
    cases hr'
    have happlied : Works names part t target b1.tree (outcome.onto target) := by
      rcases hhandler with hhandler | hhandler
      · rw [hhandler] at happly
        exact childBuilder_binds h ha hcontent htree hnames happly
      · rw [hhandler] at happly
        exact itemBuilder_binds h ha hcontent htree hnames happly
    rcases hleft with ⟨rfl, rfl⟩ | ⟨-, outer, hset, rfl⟩
    · exact happlied
    · exact happlied.trans (amends_works happlied.toEncloses happlied.aside (run_setProperty hset))

/-- Content that is set and then taken by the first attribute stands where the names of the attribute are
bound. -/
theorem resolveAttributes_binds (hclaims : claims o.handlers (relevantAttributes e) = c :: rest)
    (hr : c.registration? = some r) (hhandler : r.handler = .childBuilder ∨ r.handler = .itemBuilder)
    (hnames : ∃ y ∈ names, y ∈ loopNames c.effectiveValue) (h : Encloses names part b.tree)
    (ha : Aside part b.tree target) (hset : (setContent o e target.inner ids).run b = .ok (u, b1))
    (hrun : (resolveAttributes o e (relevantAttributes e) target).run b1 = .ok (target', b')) :
    Works names part b.tree target b'.tree target' := by
  have hbinds : ∀ {content : Property}, content.name = childProperty ∨ content.name = childrenProperty →
      (Build.put target.inner content).run b = .ok (u, b1) → Works names part b.tree target b'.tree target' := by
    intro content hcontent hput
    unfold resolveAttributes at hrun
    rw [hclaims] at hrun
    obtain ⟨target1, b2, hfirst, hrest⟩ := run_bind hrun
    have hbound := resolveClaim_binds hr hhandler h ha hcontent (run_put hput) hnames hfirst
    exact hbound.trans (resolveClaims_works rest hbound.toEncloses hbound.aside hrest)
  rcases setContent_cases hset with rfl | hput | ⟨child, rfl, -, hput⟩
  · exact resolveClaims_works _ h ha hrun
  · exact hbinds (.inr rfl) hput
  · exact hbinds (.inl rfl) hput

end Attributes

/-! ## What is made at a site -/

def Made (t t' : Tree Deferral) (x : WidgetId) : Prop :=
  (t.size : Int) < x ∧ x ≤ t'.size

def Present (t : Tree Deferral) (x : WidgetId) : Prop :=
  0 < x ∧ x ≤ t.size

theorem later_made (t t' : Tree Deferral) : Later t (Made t t') :=
  fun _ hx => hx.1

theorem Encloses.mono (h : Encloses names part t) (hnames : names ⊆ names') : Encloses names' part t :=
  ⟨fun hx hw => (h.admits hx hw).mono (fun _ hc => hc) hnames, h.born, h.builder⟩

/-- The widgets that are there refer to nothing, seen from outside of them. -/
theorem encloses_present (h : Encloses names part t) : Encloses [] (Present t) t where
  admits hx hw := absurd ⟨pos_of_get? hw, le_size_of_get? hw⟩ hx
  born hx := hx
  builder := h.builder

theorem encloses_made (h : Encloses [] nowhere t) (hkeeps : Keeps [] (Present t) t t') :
    Encloses [] (Made t t') t' where
  admits := by
    intro x w hx hw
    have hpresent : Present t x := by
      refine ⟨pos_of_get? hw, ?_⟩
      by_contra hlt
      exact hx ⟨Int.not_le.1 hlt, le_size_of_get? hw⟩
    rw [hkeeps.same hpresent] at hw
    refine (h.admits False.elim hw).mono ?_ (List.Subset.refl _)
    rintro c (hc | hc)
    · exact .inr hc.1
    · have := hkeeps.size
      right
      lia
  born hx := by
    refine ⟨?_, hx.2⟩
    have := hx.1
    lia
  builder := hkeeps.builder

/-- Builders that are stacked on what was made were made themselves, so nothing that leaves the part alone
can change them. -/
theorem OnSequence.of_same (h : OnSequence t1 id x) (hkeeps : Keeps [] (Present t) t t')
    (hid : ¬ Barred (Present t) t' id) (hsame : ∀ y, Made t t' y → t1.get? y = t'.get? y) : OnSequence t' id x := by
  have hget : ∀ {u : WidgetId} {w : Widget}, ¬ Barred (Present t) t' u → t1.get? u = some w →
      t'.get? u = some w := by
    intro u w hu hw
    rw [← hsame u, hw]
    refine ⟨?_, ?_⟩
    · by_contra hle
      exact hu (.inl ⟨pos_of_get? hw, Int.not_lt.1 hle⟩)
    · by_contra hlt
      exact hu (.inr (Int.not_le.1 hlt))
  have hwraps : ∀ {u v : WidgetId}, ¬ Barred (Present t) t' u → Wraps t1 u v →
      Wraps t' u v ∧ ¬ Barred (Present t) t' v := by
    rintro u v hu ⟨w, hw, hgen, rfl⟩
    have hw' := hget hu hw
    exact ⟨⟨w, hw', hgen, rfl⟩, hkeeps.wrapped (fun hpart => hu (.inl hpart)) hw' hgen⟩
  have hreach : ∀ {u v : WidgetId}, ¬ Barred (Present t) t' u → ReflTransGen (Wraps t1) u v →
      ReflTransGen (Wraps t') u v ∧ ¬ Barred (Present t) t' v := by
    intro u v hu hv
    induction hv with
    | refl => exact ⟨.refl, hu⟩
    | tail _ hstep ih =>
      obtain ⟨hpath, hmid⟩ := ih
      obtain ⟨hlast, hv⟩ := hwraps hmid hstep
      exact ⟨hpath.tail hlast, hv⟩
  obtain ⟨s, hseq, hx, hs⟩ := h
  obtain ⟨hx, hxout⟩ := hreach hid hx
  obtain ⟨y, hxy, hys⟩ := TransGen.head'_iff.1 hs
  obtain ⟨hxy, hyout⟩ := hwraps hxout hxy
  obtain ⟨hys, hsout⟩ := hreach hyout hys
  refine ⟨s, ?_, hx, .head' hxy hys⟩
  unfold Tree.isSequence at hseq ⊢
  split at hseq
  · rename_i w hw
    rw [hget hsout hw]
    exact hseq
  · cases hseq

/-- Content with an item that gives one widget.  Once the content is in order, what was made for the item is
enclosed, the builders on a sequence apart. -/
theorem content_opens
    (hs : Among o s content target b) (h : Encloses [] nowhere b.tree) (ha : Aside nowhere b.tree target)
    (hsite : (resolveItem o s.item s.target).run s.start = .ok (([id], target0), b0))
    (hres : (resolveItems o content target).run b = .ok (run, b1))
    (hfinish : (finishRun run).run b1 = .ok ((ids, target'), b')) :
    ∃ part, (∀ x, part x → Made s.start.tree b0.tree x) ∧
      (∀ x, Made s.start.tree b0.tree x → OnSequence b0.tree id x ∨ part x) ∧
        Encloses [] part b'.tree ∧ Aside part b'.tree target' := by
  obtain ⟨made, target1⟩ := run
  obtain ⟨front, found, back, before, behind, target2, b2, rfl, hfront, hfound, hback⟩ := run_among hs hres
  rw [hsite] at hfound
  cases hfound
  obtain ⟨hready, hearly⟩ := (items_course _ hfront).passes h ha
  have halone := item_course _ hsite
  obtain ⟨hsite0, rfl, -⟩ := halone.keeps hready.toEncloses
  obtain ⟨hold, -, hids⟩ := halone.keeps (encloses_present hready.toEncloses)
  have hmade := encloses_made hready.toEncloses hold
  have hlate := later_made s.start.tree b0.tree
  obtain ⟨hrest, hbackOut⟩ := (items_course _ hback).passes hmade (hlate.aside hsite0 hready.aside)
  have hfrontOut : ∀ i ∈ front, ¬ Barred (Made s.start.tree b0.tree) b1.tree i := by
    intro i hi
    exact hlate.not_barred (Nat.le_trans hsite0.size hrest.size) (hearly i hi)
  obtain ⟨part, t1, hbefore, hafter, hsub, hleft⟩ :=
    finishRun_opens hrest.toEncloses hrest.aside hfrontOut hbackOut hfinish
  refine ⟨part, hsub, ?_, hafter.toEncloses, hafter.aside⟩
  intro x hx
  refine (hleft x hx).imp_left fun hon => ?_
  exact hon.of_same hold (hids id List.mem_cons_self) fun y hy => (hbefore.same hy).trans (hrest.same hy)

/-! ## Binders -/

/-- The item of the site binds names for its content, which is resolved for the target and the build. -/
inductive Binder (o : Options) : Site → List Item → Target → Build → List Text → Prop
  | callback {e : Markup.Element} {content : List Item} {outer : Target} {head : CallbackHead}
      {current : WidgetId} {b b₁ : Build} (hhead : (callbackHead o e outer).run b = .ok ((head, current), b₁)) :
      Binder o ⟨.callback e content, outer, b⟩ content ⟨WidgetId.none, current⟩ b₁ head.literal.binds
  | directive {comments : List Text} {e : Markup.Element} {content : List Item} {outer : Target} {id : WidgetId}
      {b b₁ : Build} {c : Claim} {rest : List Claim} {r : Directive.Registration}
      (hadd : (Build.add { type := e.name, tag := e.name }).run b = .ok (id, b₁))
      (hclaims : claims o.handlers (relevantAttributes e) = c :: rest) (hr : c.registration? = some r)
      (hhandler : r.handler = .childBuilder ∨ r.handler = .itemBuilder) :
      Binder o ⟨.widget comments e content, outer, b⟩ content (.bare id) b₁ (loopNames c.effectiveValue)

theorem Binder.contains (h : Binder o p content target b names) (hs : Among o s content target b) : Contains o p s := by
  cases h with
  | callback hhead => exact .callback hhead hs
  | directive hadd => exact .widget hadd (.item hs)

theorem Site.exists_closes {P : (WidgetId → Prop) → Prop} (hpart : P part)
    (h : ∀ ids target' b', (resolveItem o s.item s.target).run s.start = .ok ((ids, target'), b') →
      ∃ part', P part' ∧ ∀ y ∈ names, Settled [y] part' b'.tree target' ids) :
    ∃ part', P part' ∧ ∀ y ∈ names, s.Closes o [y] part' := by
  cases hrun : (resolveItem o s.item s.target).run s.start with
  | error e =>
    refine ⟨part, hpart, ?_⟩
    intro y _ ids target' b' hok
    rw [hrun] at hok
    cases hok
  | ok result =>
    obtain ⟨⟨ids, target'⟩, b'⟩ := result
    obtain ⟨part', hpart', hsettled⟩ := h ids target' b' hrun
    refine ⟨part', hpart', ?_⟩
    intro y hy ids1 target1 b1 hok
    rw [hrun] at hok
    cases hok
    exact hsettled y hy

/-- When a binder has been resolved, what was made for an item of its content is entered through the names
of the binder, the builders on a sequence apart. -/
theorem Binder.closes (hbinder : Binder o p content target b names)
    (h : Encloses [] nowhere p.start.tree) (ha : Aside nowhere p.start.tree p.target) (hs : Among o s content target b)
    (hsite : (resolveItem o s.item s.target).run s.start = .ok (([id], target0), b0)) :
    ∃ part, ((∀ x, part x → Made s.start.tree b0.tree x) ∧
      ∀ x, Made s.start.tree b0.tree x → OnSequence b0.tree id x ∨ part x) ∧ ∀ y ∈ names, p.Closes o [y] part := by
  refine Site.exists_closes ⟨fun _ hx => hx, fun _ hx => .inr hx⟩ ?_
  intro ids target' b' hrun
  have hwhole := ((item_course _ hrun).passes.works h ha).1
  have hsize := ((hbinder.contains hs).before h ha).1.size
  cases hbinder with
  | callback hhead0 =>
    rename_i e outer head current b
    change (resolveItem o (.callback e content) outer).run b = _ at hrun
    unfold resolveItem at hrun
    rw [run_bind_of_run hhead0] at hrun
    obtain ⟨run, b2, hres, hrest⟩ := run_bind hrun
    obtain ⟨⟨body, detached⟩, b3, hfinish, hrest⟩ := run_bind hrest
    obtain ⟨_, hchange, ⟨⟩⟩ := run_last hrest
    have hfirst0 := (callbackHead_mounts hhead0).2.works h ha
    have haside0 := Aside.detach hfirst0.toEncloses hfirst0.aside.current
    obtain ⟨hsecond0, -⟩ := (Course.content (items_course _ hres) hfinish).passes hfirst0.toEncloses haside0
    obtain ⟨part, hsub, hleft, hencloses, haside⟩ := content_opens hs hfirst0.toEncloses haside0 hsite hres hfinish
    refine ⟨part, ⟨hsub, hleft⟩, ?_⟩
    have hlate : Later b.tree part := ((later_made _ _).subset hsub).mono hsize
    have houter := hlate.aside (hfirst0.toKeeps.trans hsecond0.toKeeps) ha
    intro y hy
    have hlast := setCallback_works (hencloses.mono (List.nil_subset [y])) houter hchange
      (.inl ⟨y, List.mem_cons_self, hy⟩)
    have hmoved := hlast.toKeeps.onto houter (hlast.toKeeps.not_barred haside.current)
    exact ⟨hmoved.toEncloses, hmoved.aside, nofun⟩
  | directive hadd0 hclaims hr hhandler =>
    rename_i comments e outer W b c rest r
    change (resolveItem o (.widget comments e content) outer).run b = _ at hrun
    unfold resolveItem at hrun
    rw [run_bind_of_run hadd0] at hrun
    obtain ⟨run, b2, hres, hrest⟩ := run_bind hrun
    obtain ⟨⟨made, target1⟩, b3, hfinish, hrest⟩ := run_bind hrest
    obtain ⟨target2, b4, hset, hrest⟩ := run_bind hrest
    obtain ⟨⟨texts, target3⟩, b5, htext, hrest⟩ := run_bind hrest
    obtain ⟨_, b6, hcontent, hrest⟩ := run_bind hrest
    obtain ⟨target4, b7, hattrs, hrest⟩ := run_bind hrest
    obtain ⟨_, hcomment, ⟨⟩⟩ := run_last hrest
    obtain ⟨hnew, haside0⟩ := add_aside h hadd0 (.inr ⟨h.not_barred_none, nofun⟩) rfl nofun
    obtain ⟨hfirst0, -⟩ := (Course.content (items_course _ hres) hfinish).passes hnew.toEncloses haside0
    obtain ⟨part, hsub, hleft, hencloses, haside⟩ := content_opens hs hnew.toEncloses haside0 hsite hres hfinish
    refine ⟨part, ⟨hsub, hleft⟩, ?_⟩
    have hlate : Later b.tree part := ((later_made _ _).subset hsub).mono hsize
    intro y hy
    have hsecond := (properties_course _ hset).passes (hencloses.mono (List.nil_subset [y])) haside
    obtain ⟨hthird, -⟩ := inlineText_works hsecond.toEncloses hsecond.aside htext
    have hinner : target3.inner = W := (hthird.inner.trans hsecond.inner).trans hfirst0.inner
    rw [← hinner] at hcontent
    have hfourth := resolveAttributes_binds hclaims hr hhandler ⟨y, List.mem_cons_self, hy⟩ hthird.toEncloses
      hthird.aside hcontent hattrs
    have hlast := comment_works hfourth.toEncloses hfourth.aside hcomment
    refine ⟨hlast.toEncloses, hlate.aside hwhole.toKeeps ha, ?_⟩
    exact List.forall_mem_singleton.2 hlast.aside.current

end Layout
end FlutterLayout
