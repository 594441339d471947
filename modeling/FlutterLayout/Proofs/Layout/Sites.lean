import FlutterLayout.Layout.Resolution
import FlutterLayout.Proofs.Layout.Contents

/-!
# Sites — the items of a document and when they are resolved

A site is an item together with the target and the build it is resolved for.  `Contains` says that one site
is resolved on behalf of another one, as one of the items in its content, of the properties in it or of a
branch.
-/

namespace FlutterLayout.Layout

open List
open Relation (ReflTransGen)

/-! ## Sites -/

structure Site where
  item : Item
  target : Target
  start : Build

/-- The site is that of an item in a run of items, behind those in front of it. -/
def Among (o : Options) (s : Site) (content : List Item) (target : Target) (b : Build) : Prop :=
  ∃ front back ids, content = front ++ s.item :: back ∧
    (resolveItems o front target).run b = .ok ((ids, s.target), s.start)

def isPlainProperty (e : Markup.Element) : Bool :=
  e.elements.isEmpty && (relevantAttributes e).isEmpty

/-- The site is that of an item in the content of the widget `id`: of an item that stands in it, or of one
in the content of a property. -/
inductive InContent (o : Options) (s : Site) : List Item → WidgetId → Build → Prop
  | item {content : List Item} {id : WidgetId} {b : Build} (h : Among o s content (.bare id) b) :
      InContent o s content id b
  | property {content front back inner : List Item} {id fragment : WidgetId} {name : Text} {e : Markup.Element}
      {run : List WidgetId × Target} {ids : List WidgetId} {target target' : Target} {b b₁ b₂ b₃ b₄ : Build}
      (hresolve : (resolveItems o content (.bare id)).run b = .ok (run, b₁))
      (hfinish : (finishRun run).run b₁ = .ok ((ids, target), b₂))
      (hcontent : content = front ++ .property name e inner :: back)
      (hfront : (resolveProperties o front target).run b₂ = .ok (target', b₃))
      (hplain : isPlainProperty e = false)
      (hadd : (Build.add { tag := e.name, isFragment := true }).run b₃ = .ok (fragment, b₄))
      (h : InContent o s inner fragment b₄) : InContent o s content id b

inductive Contains (o : Options) : Site → Site → Prop
  | widget {s : Site} {comments : List Text} {e : Markup.Element} {content : List Item} {outer : Target}
      {id : WidgetId} {b b₁ : Build} (hadd : (Build.add { type := e.name, tag := e.name }).run b = .ok (id, b₁))
      (h : InContent o s content id b₁) : Contains o ⟨.widget comments e content, outer, b⟩ s
  | callback {s : Site} {e : Markup.Element} {content : List Item} {outer : Target} {head : CallbackHead}
      {current : WidgetId} {b b₁ : Build} (hhead : (callbackHead o e outer).run b = .ok ((head, current), b₁))
      (h : Among o s content ⟨WidgetId.none, current⟩ b₁) : Contains o ⟨.callback e content, outer, b⟩ s
  | conditional {s : Site} {comments : List Text} {branches front back : List Branch} {isFallback : Bool}
      {e : Markup.Element} {content : List Item} {outer : Target} {id current : WidgetId} {ps : List Property}
      {needed : Bool} {b b₁ b₂ : Build}
      (hadd : (Build.add { isCustom := true, tag := ifName, generator := Directive.conditionalName }).run b
        = .ok (id, b₁))
      (hbranches : branches = front ++ .mk isFallback e content :: back)
      (hfront : (resolveBranches o front id).run b₁ = .ok ((ps, needed, current), b₂))
      (h : Among o s content ⟨WidgetId.none, current⟩ b₂) : Contains o ⟨.conditional comments branches, outer, b⟩ s

/-- The site of the root of a document; none for a document without widgets. -/
def rootSite? (o : Options) (d : Markup.Document) : Option Site :=
  match d.root? with
  | none => none
  | some root =>
    if o.fragment then some ⟨.ofRoot o.handlers [] root, .bare WidgetId.none, {}⟩
    else
      match rootWidgets root with
      | [(comments, e)] => some ⟨.ofRoot o.handlers comments e, .bare WidgetId.none, {}⟩
      | _ => none

def Reached (o : Options) (d : Markup.Document) (s : Site) : Prop :=
  ∃ root ∈ rootSite? o d, ReflTransGen (Contains o) root s

variable {names : List Text} {part : WidgetId → Prop} {t t' : Tree Deferral} {x id : WidgetId} {n : Nat}
  {target target' : Target} {o : Options} {b b' : Build} {content : List Item} {s p : Site} {ids : List WidgetId}
  {d : Markup.Document}

/-! ## Runs in two parts -/

theorem resolveItems_append (o : Options) (front back : List Item) (target : Target) :
    resolveItems o (front ++ back) target = (do
      let (ids, target) ← resolveItems o front target
      let (more, target) ← resolveItems o back target
      pure (ids ++ more, target)) := by
  induction front generalizing target with
  | nil =>
    simp only [nil_append, resolveItems, pure_bind]
    exact (bind_pure _).symm
  | cons item front ih =>
    simp only [cons_append, resolveItems, ih, bind_assoc, pure_bind, append_assoc]

theorem resolveProperties_append (o : Options) (front back : List Item) (target : Target) :
    resolveProperties o (front ++ back) target = resolveProperties o front target >>= resolveProperties o back := by
  induction front generalizing target with
  | nil => simp only [nil_append, resolveProperties, pure_bind]
  | cons item front ih =>
    simp only [cons_append, resolveProperties, bind_assoc]
    exact congrArg _ (funext ih)

theorem resolveBranches_append (o : Options) (front back : List Branch) (current : WidgetId) :
    resolveBranches o (front ++ back) current = (do
      let (ps, needed, current) ← resolveBranches o front current
      let (more, needed', current) ← resolveBranches o back current
      pure (ps ++ more, needed || needed', current)) := by
  induction front generalizing current with
  | nil =>
    simp only [nil_append, resolveBranches, pure_bind, Bool.false_or]
    exact (bind_pure _).symm
  | cons branch front ih =>
    simp only [cons_append, resolveBranches, ih, bind_assoc, pure_bind, Bool.or_assoc]

/-- One item of a run: what is resolved before it, the item itself, and what is resolved behind it. -/
theorem run_among (hs : Among o s content target b)
    (hrun : (resolveItems o content target).run b = .ok ((ids, target'), b')) :
    ∃ front found back before behind target1 b1, ids = front ++ (found ++ back) ∧
      (resolveItems o before target).run b = .ok ((front, s.target), s.start) ∧
      (resolveItem o s.item s.target).run s.start = .ok ((found, target1), b1) ∧
      (resolveItems o behind target1).run b1 = .ok ((back, target'), b') := by
  obtain ⟨before, behind, front, rfl, hbefore⟩ := hs
  rw [resolveItems_append] at hrun
  obtain ⟨⟨front', target0⟩, b0, hfront, hrest⟩ := run_bind hrun
  rw [hbefore] at hfront
  cases hfront
  obtain ⟨⟨more, target2⟩, hmore, ⟨⟩⟩ := run_last hrest
  unfold resolveItems at hmore
  obtain ⟨⟨found, target1⟩, b1, hfound, hrest⟩ := run_bind hmore
  obtain ⟨⟨back, target3⟩, hback, ⟨⟩⟩ := run_last hrest
  exact ⟨front, found, back, before, behind, target1, b1, rfl, hbefore, hfound, hback⟩

/-! ## Before a site -/

theorem Among.before (hs : Among o s content target b) (h : Encloses names part b.tree)
    (ha : Aside part b.tree target) : Works names part b.tree target s.start.tree s.target := by
  obtain ⟨front, back, ids, -, hfront⟩ := hs
  exact ((items_course _ hfront).passes h ha).1

theorem InContent.before (hs : InContent o s content id b) (h : Encloses names part b.tree)
    (ha : Aside part b.tree (.bare id)) : Keeps names part b.tree s.start.tree ∧ Aside part s.start.tree s.target := by
  induction hs with
  | item hamong =>
    have hworks := hamong.before h ha
    exact ⟨hworks.toKeeps, hworks.aside⟩
  | property hres hfinish hcontent hfront hplain hadd _ ih =>
    obtain ⟨hfirst, -⟩ := (Course.content (items_course _ hres) hfinish).passes h ha
    have hsecond := (properties_course _ hfront).passes hfirst.toEncloses hfirst.aside
    obtain ⟨hnew, haside⟩ := add_aside hsecond.toEncloses hadd (.inr ⟨hsecond.not_barred_none, nofun⟩) rfl
      nofun
    obtain ⟨hinside, hs⟩ := ih hnew.toEncloses haside
    exact ⟨((hfirst.trans hsecond).toKeeps.trans hnew).trans hinside, hs⟩

theorem Contains.before (hs : Contains o p s) (h : Encloses names part p.start.tree)
    (ha : Aside part p.start.tree p.target) :
    Keeps names part p.start.tree s.start.tree ∧ Aside part s.start.tree s.target := by
  cases hs with
  | widget hadd hin =>
    obtain ⟨hnew, haside⟩ := add_aside h hadd (.inr ⟨h.not_barred_none, nofun⟩) rfl nofun
    obtain ⟨hinside, hs⟩ := hin.before hnew.toEncloses haside
    exact ⟨hnew.trans hinside, hs⟩
  | callback hhead hamong =>
    have hfirst := (callbackHead_mounts hhead).2.works h ha
    have hinside := hamong.before hfirst.toEncloses (.detach hfirst.toEncloses hfirst.aside.current)
    exact ⟨hfirst.toKeeps.trans hinside.toKeeps, hinside.aside⟩
  | conditional hadd hbranch hfront hamong =>
    obtain ⟨hnew, haside⟩ := add_aside h hadd (.inr ⟨h.not_barred_none, nofun⟩) rfl (by decide)
    obtain ⟨hfirst, hcur, -⟩ := (branches_course _ hfront).passes hnew.toEncloses haside.current
    have hinside := hamong.before hfirst.toEncloses (.detach hfirst.toEncloses hcur)
    exact ⟨(hnew.trans hfirst).trans hinside.toKeeps, hinside.aside⟩

theorem before_of_contains (hs : ReflTransGen (Contains o) p s) (h : Encloses names part p.start.tree)
    (ha : Aside part p.start.tree p.target) :
    Keeps names part p.start.tree s.start.tree ∧ Aside part s.start.tree s.target := by
  induction hs with
  | refl => exact ⟨.refl h, ha⟩
  | tail _ hstep ih =>
    obtain ⟨hfirst, haside⟩ := ih
    obtain ⟨hlast, hs⟩ := hstep.before hfirst.toEncloses haside
    exact ⟨hfirst.trans hlast, hs⟩

/-! ## Parts that come later -/

def nowhere : WidgetId → Prop :=
  fun _ => False

def Later (t : Tree Deferral) (part : WidgetId → Prop) : Prop :=
  ∀ x, part x → (t.size : Int) < x

theorem Later.mono (h : Later t' part) (hsize : t.size ≤ t'.size) : Later t part := by
  intro x hx
  have := h x hx
  lia

theorem Later.subset (h : Later t part) (hsub : ∀ x, part' x → part x) : Later t part' :=
  fun x hx => h x (hsub x hx)

theorem Later.not_barred (h : Later t part) (hsize : t.size ≤ t'.size) (hx : ¬ Barred nowhere t x) :
    ¬ Barred part t' x := by
  rintro (hpart | hlarge)
  · exact hx (.inr (h x hpart))
  · exact hx (.inr (by lia))

theorem Later.aside (h : Later t part) (hkeeps : Keeps [] nowhere t t') (ha : Aside nowhere t target) :
    Aside part t' target :=
  ⟨h.not_barred hkeeps.size ha.current, h.not_barred hkeeps.size ha.inner, (hkeeps.aside ha).plain⟩

theorem Later.admits {v : PropertyValue} (h : Later t part) (hsize : t.size ≤ t'.size)
    (hv : v.Admits (Barred nowhere t) []) : v.Admits (Barred part t') names :=
  hv.mono (fun _ hc => by_contra fun hearly => h.not_barred hsize hearly hc) (nil_subset _)

/-! ## After a site -/

structure Settled (names : List Text) (part : WidgetId → Prop) (t : Tree Deferral) (target : Target)
    (ids : List WidgetId) : Prop extends Encloses names part t where
  aside : Aside part t target
  outside : ∀ i ∈ ids, ¬ Barred part t i

def Site.Closes (o : Options) (names : List Text) (part : WidgetId → Prop) (s : Site) : Prop :=
  ∀ ⦃ids : List WidgetId⦄ ⦃target' : Target⦄ ⦃b' : Build⦄,
    (resolveItem o s.item s.target).run s.start = .ok ((ids, target'), b') → Settled names part b'.tree target' ids

section

variable (hlate : Later s.start.tree part) (hcloses : s.Closes o names part)
include hlate hcloses

theorem Among.after (hs : Among o s content target b) (h : Encloses [] nowhere b.tree)
    (ha : Aside nowhere b.tree target)
    (hrun : (resolveItems o content target).run b = .ok ((ids, target'), b')) :
    Settled names part b'.tree target' ids := by
  obtain ⟨front, found, back, before, behind, target1, b1, rfl, hfront, hfound, hback⟩ := run_among hs hrun
  obtain ⟨hready, hearly⟩ := (items_course _ hfront).passes h ha
  obtain ⟨hsite, -⟩ := (item_course _ hfound).passes.works hready.toEncloses hready.aside
  have hend := hcloses hfound
  obtain ⟨hworks, hlast⟩ := (items_course _ hback).passes hend.toEncloses hend.aside
  refine ⟨hworks.toEncloses, hworks.aside, ?_⟩
  intro i hi
  rcases mem_append.1 hi with hi | hi
  · exact hworks.toKeeps.not_barred (hlate.not_barred hsite.size (hearly i hi))
  · rcases mem_append.1 hi with hi | hi
    · exact hworks.toKeeps.not_barred (hend.outside i hi)
    · exact hlast i hi

theorem InContent.after (hs : InContent o s content id b) (h : Encloses [] nowhere b.tree)
    (ha : Aside nowhere b.tree (.bare id)) (hres : (resolveItems o content (.bare id)).run b = .ok (run, b1))
    (hfinish : (finishRun run).run b1 = .ok ((ids, target), b2))
    (hset : (resolveProperties o content target).run b2 = .ok (target', b')) :
    Settled names part b'.tree target' ids := by
  induction hs generalizing run ids target target' b1 b2 b' with
  | item hamong =>
    obtain ⟨made, target1⟩ := run
    have hend := hamong.after hlate hcloses h ha hres
    obtain ⟨hfirst, hids⟩ := finishRun_works hend.toEncloses hend.aside hend.outside hfinish
    have hsecond := (properties_course _ hset).passes hfirst.toEncloses hfirst.aside
    exact ⟨hsecond.toEncloses, hsecond.aside, fun i hi => hsecond.toKeeps.not_barred (hids i hi)⟩
  | property hres0 hfinish0 hcontent hfront0 hplain hadd0 hin ih =>
    rename_i content front back inner _ fragment name e _ _ _ target3 _ _ _ b3 b4
    rw [hres0] at hres
    cases hres
    rw [hfinish0] at hfinish
    cases hfinish
    subst hcontent
    rw [resolveProperties_append] at hset
    have hrest := (run_bind_of_run hfront0).symm.trans hset
    unfold resolveProperties at hrest
    obtain ⟨_, b10, hprop, hback⟩ := run_bind hrest
    unfold resolveProperty at hprop
    dsimp only at hprop
    have hnested : ¬ (e.elements.isEmpty && (relevantAttributes e).isEmpty) = true :=
      fun hempty => Bool.noConfusion (hplain.symm.trans hempty)
    rw [if_neg hnested] at hprop
    rw [run_bind_of_run hadd0] at hprop
    obtain ⟨run, b5, hres, hrest⟩ := run_bind hprop
    obtain ⟨⟨made, target4⟩, b6, hfinish, hrest⟩ := run_bind hrest
    obtain ⟨target5, b7, hset, hrest⟩ := run_bind hrest
    obtain ⟨_, b8, hcontent, hrest⟩ := run_bind hrest
    obtain ⟨target6, b9, hattrs, hrest⟩ := run_bind hrest
    obtain ⟨q, b11, hfrag, hrest⟩ := run_bind hrest
    obtain ⟨_, hchange, rfl⟩ := run_last hrest
    -- First without the part: how the ids that are in use before the fragment go on.
    obtain ⟨hfirst0, hids⟩ := (Course.content (items_course _ hres0) hfinish0).passes h ha
    have hsecond0 := (properties_course _ hfront0).passes hfirst0.toEncloses hfirst0.aside
    obtain ⟨hnew, haside⟩ := add_aside hsecond0.toEncloses hadd0 (.inr ⟨hsecond0.not_barred_none, nofun⟩) rfl
      nofun
    obtain ⟨hthird0, hmade⟩ := (Course.content (items_course _ hres) hfinish).passes hnew.toEncloses haside
    have hfourth0 := (properties_course _ hset).passes hthird0.toEncloses hthird0.aside
    have hinner : target5.inner = fragment := hfourth0.inner.trans hthird0.inner
    rw [← hinner] at hcontent
    obtain ⟨hfifth0, -⟩ := fragment_rest hfourth0.toEncloses hfourth0.aside
      (fun i hi => hfourth0.toKeeps.not_barred (hmade i hi)) hcontent hattrs hfrag
    have hinside0 := (hnew.trans (hthird0.trans hfourth0).toKeeps).trans hfifth0
    have hlate3 : Later b3.tree part := hlate.mono (Nat.le_trans hnew.size (hin.before hnew.toEncloses haside).1.size)
    -- Then with the part, from the end of the site on.
    have hend := ih hnew.toEncloses haside hres hfinish hset
    obtain ⟨hfifth, hq⟩ := fragment_rest hend.toEncloses hend.aside hend.outside hcontent hattrs hfrag
    have hsixth := joinProperty_works hfifth.toEncloses (hlate3.aside hinside0 hsecond0.aside) hchange hq
    have hseventh := (properties_course _ hback).passes hsixth.toEncloses hsixth.aside
    refine ⟨hseventh.toEncloses, hseventh.aside, ?_⟩
    intro i hi
    refine hseventh.toKeeps.not_barred (hsixth.toKeeps.not_barred ?_)
    exact hlate3.not_barred hinside0.size (hsecond0.toKeeps.not_barred (hids i hi))

/-- The site is that of an item in a branch, and the properties hold the widgets of all branches. -/
theorem branches_after (hfront : (resolveBranches o front current).run b = .ok ((properties, needed, current1), b1))
    (hs : Among o s content ⟨.none, current1⟩ b1) (h : Encloses [] nowhere b.tree)
    (hcur : ¬ Barred nowhere b.tree current)
    (hrun : (resolveBranches o (front ++ .mk isFallback e content :: back) current).run b
      = .ok ((ps, needed', current'), b')) : Encloses names part b'.tree ∧ ¬ Barred part b'.tree current' ∧
      ∀ p ∈ ps, p.value.Admits (Barred part b'.tree) names := by
  rw [resolveBranches_append] at hrun
  rw [run_bind_of_run hfront] at hrun
  obtain ⟨⟨more, needed1, current2⟩, hmore, ⟨⟩⟩ := run_last hrun
  unfold resolveBranches resolveBranch at hmore
  obtain ⟨⟨ids, current3⟩, b3, hbranch, hrest⟩ := run_bind hmore
  obtain ⟨⟨made, target1⟩, b4, hres, hbranch⟩ := run_bind hbranch
  obtain ⟨⟨made', target2⟩, hfinish, ⟨⟩⟩ := run_last hbranch
  obtain ⟨c, b6, hget, hrest⟩ := run_bind hrest
  obtain ⟨⟨rest, needed2, current4⟩, hback, ⟨⟩⟩ := run_last hrest
  rw [(run_get hget).2] at hback
  obtain ⟨hfirst0, hcur0, hprops0⟩ := (branches_course _ hfront).passes h hcur
  have haside0 := Aside.detach hfirst0.toEncloses hcur0
  obtain ⟨hbranch0, -⟩ := (Course.content (items_course _ hres) hfinish).passes hfirst0.toEncloses haside0
  have hend := hs.after hlate hcloses hfirst0.toEncloses haside0 hres
  obtain ⟨hsecond, hids⟩ := finishRun_works hend.toEncloses hend.aside hend.outside hfinish
  obtain ⟨hthird, hcur4, hrest⟩ := (branches_course _ hback).passes hsecond.toEncloses hsecond.aside.current
  refine ⟨hthird.toEncloses, hcur4, ?_⟩
  intro p hp
  rcases mem_append.1 hp with hp | hp
  · have hlate1 : Later b1.tree part := hlate.mono (hs.before hfirst0.toEncloses haside0).size
    exact hlate1.admits (Nat.le_trans hbranch0.size hthird.size) (hprops0 p hp)
  · rcases mem_cons.1 hp with rfl | hp
    · rw [branchProperty_value]
      exact PropertyValue.admits_widgets fun c hc => hthird.not_barred (hids c hc)
    · exact hrest p hp

theorem Contains.after (hs : Contains o p s) (h : Encloses [] nowhere p.start.tree)
    (ha : Aside nowhere p.start.tree p.target) : p.Closes o names part := by
  have hlate0 : Later p.start.tree part := hlate.mono (hs.before h ha).1.size
  intro ids target' b' hrun
  have hwhole := ((item_course _ hrun).passes.works h ha).1
  cases hs with
  | widget hadd0 hin =>
    rename_i comments e content outer id b b1
    change (resolveItem o (.widget comments e content) outer).run b = _ at hrun
    unfold resolveItem at hrun
    rw [run_bind_of_run hadd0] at hrun
    obtain ⟨run, b2, hres, hrest⟩ := run_bind hrun
    obtain ⟨⟨made, target1⟩, b3, hfinish, hrest⟩ := run_bind hrest
    obtain ⟨target2, b4, hset, hrest⟩ := run_bind hrest
    obtain ⟨⟨texts, target3⟩, b5, htext, hrest⟩ := run_bind hrest
    obtain ⟨_, b6, hcontent, hrest⟩ := run_bind hrest
    obtain ⟨target4, b7, hattrs, hrest⟩ := run_bind hrest
    obtain ⟨_, hcomment, ⟨⟩⟩ := run_last hrest
    obtain ⟨hnew, haside⟩ := add_aside h hadd0 (.inr ⟨h.not_barred_none, by simp⟩) rfl
      (show ([] : Text) ≠ Widget.reactiveGenerator by decide)
    obtain ⟨hfirst0, -⟩ := (Course.content (items_course _ hres) hfinish).passes hnew.toEncloses haside
    have hsecond0 := (properties_course _ hset).passes hfirst0.toEncloses hfirst0.aside
    have hinner : target2.inner = id := hsecond0.inner.trans hfirst0.inner
    rw [← hinner] at hcontent
    have hend := hin.after hlate hcloses hnew.toEncloses haside hres hfinish hset
    have hlast := widget_rest hend.toEncloses hend.aside hend.outside htext hcontent hattrs hcomment
    refine ⟨hlast.toEncloses, hlate0.aside hwhole.toKeeps ha, ?_⟩
    exact forall_mem_singleton.2 hlast.aside.current
  | callback hhead0 hamong =>
    rename_i e content outer head current b b1
    change (resolveItem o (.callback e content) outer).run b = _ at hrun
    unfold resolveItem at hrun
    rw [run_bind_of_run hhead0] at hrun
    obtain ⟨⟨made, target1⟩, b2, hres, hrest⟩ := run_bind hrun
    obtain ⟨⟨body, detached⟩, b3, hfinish, hrest⟩ := run_bind hrest
    obtain ⟨_, hchange, ⟨⟩⟩ := run_last hrest
    have hfirst0 := (callbackHead_mounts hhead0).2.works h ha
    have haside0 := Aside.detach hfirst0.toEncloses hfirst0.aside.current
    obtain ⟨hsecond0, -⟩ := (Course.content (items_course _ hres) hfinish).passes hfirst0.toEncloses haside0
    have houter := hlate0.aside (hfirst0.toKeeps.trans hsecond0.toKeeps) ha
    have hend := hamong.after hlate hcloses hfirst0.toEncloses haside0 hres
    obtain ⟨hfirst, hbody⟩ := finishRun_works hend.toEncloses hend.aside hend.outside hfinish
    have hsecond := setCallback_works hfirst.toEncloses houter hchange (.inr hbody)
    have hlast := hsecond.toKeeps.onto houter (hsecond.toKeeps.not_barred hfirst.aside.current)
    exact ⟨hlast.toEncloses, hlast.aside, by simp⟩
  | conditional hadd0 hbranch hfront hamong =>
    rename_i comments branches front back isFallback e content outer id current ps needed b b1 b2
    change (resolveItem o (.conditional comments branches) outer).run b = _ at hrun
    unfold resolveItem at hrun
    rw [run_bind_of_run hadd0] at hrun
    obtain ⟨⟨properties, isSequence, current1⟩, b3, hres, hrest⟩ := run_bind hrun
    obtain ⟨_, b4, hseq, hrest⟩ := run_bind hrest
    obtain ⟨⟨ps', current2⟩, b5, hconds, hrest⟩ := run_bind hrest
    obtain ⟨_, b6, hput, hrest⟩ := run_bind hrest
    obtain ⟨_, hcomment, ⟨⟩⟩ := run_last hrest
    obtain ⟨hnew, haside⟩ := add_aside h hadd0 (.inr ⟨h.not_barred_none, by simp⟩) rfl (by decide)
    obtain ⟨hfirst0, -⟩ := (branches_course _ hres).passes hnew.toEncloses haside.current
    have hlate1 : Later b1.tree part := by
      obtain ⟨hfront0, hcur0, -⟩ := (branches_course _ hfront).passes hnew.toEncloses haside.current
      have hbefore := hamong.before hfront0.toEncloses (.detach hfront0.toEncloses hcur0)
      exact hlate.mono (Nat.le_trans hfront0.size hbefore.size)
    have hnode := hlate1.aside hfirst0 haside
    subst hbranch
    obtain ⟨hend, hcur1, hprops⟩ := branches_after hlate hcloses hfront hamong hnew.toEncloses
      haside.current hres
    obtain ⟨hlast, hcur2⟩ := conditional_rest hend hnode hcur1 hprops hseq hconds hput
      hcomment
    refine ⟨hlast.toEncloses, hlate0.aside hwhole.toKeeps ha, ?_⟩
    intro i hi
    rwa [mem_singleton.1 hi]

theorem closes_of_contains (hs : ReflTransGen (Contains o) p s) (h : Encloses [] nowhere p.start.tree)
    (ha : Aside nowhere p.start.tree p.target) : p.Closes o names part := by
  induction hs with
  | refl => exact hcloses
  | tail hfirst hstep ih =>
    obtain ⟨hkeeps, haside⟩ := before_of_contains hfirst h ha
    refine ih (hlate.mono (hstep.before hkeeps.toEncloses haside).1.size) ?_
    exact hstep.after hlate hcloses hkeeps.toEncloses haside

end

/-! ## The root -/

theorem encloses_empty : Encloses [] nowhere (.empty : Tree Deferral) := by
  refine ⟨?_, False.elim, ?_⟩
  · intro x w _ hw
    rw [Tree.get?_empty] at hw
    cases hw
  · intro x w hw
    rw [Tree.get?_empty] at hw
    cases hw

theorem aside_empty : Aside nowhere (.empty : Tree Deferral) (.bare .none) :=
  ⟨encloses_empty.not_barred_none, encloses_empty.not_barred_none, nofun⟩

theorem start_of_rootSite? (h : root ∈ rootSite? o d) : root.start = {} ∧ root.target = .bare .none := by
  unfold rootSite? at h
  split at h
  · cases h
  · split at h
    · cases h
      exact ⟨rfl, rfl⟩
    · split at h
      · cases h
        exact ⟨rfl, rfl⟩
      · cases h

theorem ready_of_rootSite? (h : root ∈ rootSite? o d) :
    Encloses [] nowhere root.start.tree ∧ Aside nowhere root.start.tree root.target := by
  obtain ⟨hstart, htarget⟩ := start_of_rootSite? h
  rw [hstart, htarget]
  exact ⟨encloses_empty, aside_empty⟩

theorem Reached.ready (hs : Reached o d s) :
    Encloses [] nowhere s.start.tree ∧ Aside nowhere s.start.tree s.target := by
  obtain ⟨root, hroot, hcontains⟩ := hs
  obtain ⟨h, ha⟩ := ready_of_rootSite? hroot
  obtain ⟨hkeeps, haside⟩ := before_of_contains hcontains h ha
  exact ⟨hkeeps.toEncloses, haside⟩

/-- A part that is enclosed when a site has been resolved is enclosed when the root has. -/
theorem Reached.closes (hs : Reached o d s) (hlate : Later s.start.tree part) (hcloses : s.Closes o names part) :
    ∃ root ∈ rootSite? o d, root.Closes o names part := by
  obtain ⟨root, hroot, hcontains⟩ := hs
  obtain ⟨h, ha⟩ := ready_of_rootSite? hroot
  exact ⟨root, hroot, closes_of_contains hlate hcloses hcontains h ha⟩

end FlutterLayout.Layout
