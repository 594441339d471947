import FlutterLayout.Proofs.Layout.ClaimOrder
import FlutterLayout.Proofs.Layout.ContentSlots

/-!
# OneContent — `child` and `children` do not stand together unless they are asked for

A widget gets its content in one of the properties `child` and `children`, and which one is decided when the
content is known.  An element can also name one of them itself: as an attribute, as a property in its
content, as a callback, or through the property that its type has for text.
-/

namespace FlutterLayout.Layout

open List
open Markup (Element)

variable {marked : Text → Prop} {own id outer : WidgetId} {o : Options} {b b' b₁ : Build} {target target' : Target}
  {name tag type : Text} {e : Element} {r : Unit} {t : Tree Deferral} {ids : List WidgetId}
  {run : List WidgetId × Target} {p : Property} {content : List Item}

/-! ## Attributes -/

def SparesContent (handlers : Directive.Handlers) : Prop :=
  ∀ {name : Text} {r : Directive.Registration}, handlers.get? name = some r → sparesContent r.handler = true

theorem resolveClaims_grows (cs : List Claim) (hspares : SparesContent o.handlers)
    (hreg : ∀ c ∈ cs, c.registration? = o.handlers.get? c.name)
    (hnames : ∀ c ∈ cs, MayWrite marked b.tree target.inner (propertyName c.name)) (hle : target.inner ≤ b.tree.size)
    (hsparse : At (Sparse marked) b.tree target.inner)
    (hrun : (cs.foldlM (resolveClaim o e) target).run b = .ok (target', b')) :
    Grows marked target.inner b.tree b'.tree ∧ At (Sparse marked) b'.tree target.inner := by
  have hwithin : ∀ {t1 : Tree Deferral}, Grows marked target.inner b.tree t1 → target.inner ≤ t1.size := by
    intro t1 h
    have hsize := h.size
    lia
  refine (fun h => ⟨h.1, h.2.1⟩) (resolveClaims_induct
    (P := fun target1 t1 => Grows marked target.inner b.tree t1 ∧ At (Sparse marked) t1 target.inner ∧
      target1.inner = target.inner) cs (fun c hc => ?_) (fun c hc => ?_) ⟨.refl _, hsparse, rfl⟩ hrun)
  · rintro t1 t2 target1 outer ⟨hfirst, hsparse1, hinner⟩ hset
    have hgrows : Grows marked .none t1 t2 := by
      refine amends_grows (fun name hname => ?_) hset
      rcases mem_cons.1 hname with rfl | hname
      · exact .of_not_mem (by decide)
      · rw [mem_singleton.1 hname, hinner]
        exact (hnames c hc).mono hfirst
    exact ⟨hfirst.trans hgrows.anyone, hgrows.sparse (hwithin hfirst) hsparse1, hinner⟩
  · rintro t1 t2 target1 target2 r hr ⟨hfirst, hsparse1, hinner⟩ happly
    have hle1 := hwithin hfirst
    rw [← hinner] at hle1 hsparse1
    obtain ⟨hgrows, hsparse2⟩ := directs_grows (hspares (hreg c hc ▸ hr)) hle1 hsparse1 happly
    rw [hinner] at hgrows hsparse2
    exact ⟨hfirst.trans hgrows, hsparse2, happly.inner.trans hinner⟩

/-- The attributes of an element are set on its widget, whose tag is the name of the element. -/
theorem resolveAttributes_grows (hspares : SparesContent o.handlers)
    (hasked : ∀ a ∈ e.attributes, propertyName a.1 ∈ contentNames → marked tag)
    (hlabel : Labelled tag type b.tree target.inner) (hsparse : At (Sparse marked) b.tree target.inner)
    (hrun : (resolveAttributes o e (relevantAttributes e) target).run b = .ok (target', b')) :
    Grows marked target.inner b.tree b'.tree ∧ At (Sparse marked) b'.tree target.inner := by
  refine resolveClaims_grows _ hspares (fun c hc => (of_mem_claims hc).2) ?_ hlabel.le hsparse hrun
  intro c hc
  have hmem : c.own ∈ e.attributes := (mem_filter.1 (of_mem_claims hc).1).1
  exact hlabel.mayWrite (hasked c.own hmem)

/-! ## Hoisting -/

theorem Restacks.grows {builders : List WidgetId} (h : Restacks builders outer t t') : Grows marked own t t' := by
  refine .of_narrows h.size.symm ?_
  intro x w hw
  by_cases hx : x ∈ builders
  · obtain ⟨v, hv, -⟩ := h.wraps hx hw
    exact ⟨_, hv, .of_eq rfl rfl rfl⟩
  · exact ⟨w, (h.others hx).trans hw, .of_eq rfl rfl rfl⟩

theorem hoist_grows (hrun : (hoist id outer).run b = .ok ((id', outer'), b')) : Grows marked own b.tree b'.tree := by
  rcases run_hoist hrun with ⟨-, -, rfl⟩ | ⟨builders, -, hrestacks, -⟩
  · exact .refl _
  · exact hrestacks.grows

theorem hoistAll_grows
    (hrun : (hoistAll ids outer).run b = .ok ((ids', outer'), b')) : Grows marked own b.tree b'.tree := by
  induction ids generalizing b outer ids' with
  | nil =>
    obtain ⟨-, rfl⟩ := run_pure hrun
    exact .refl _
  | cons id ids ih =>
    obtain ⟨⟨id1, outer1⟩, b₁, hone, hrest⟩ := run_bind hrun
    obtain ⟨⟨more, outer2⟩, hmore, ⟨⟩⟩ := run_last hrest
    exact (hoist_grows hone).trans (ih hmore)

theorem finishRun_grows (hrun : (finishRun run).run b = .ok ((ids, target'), b')) :
    Grows marked own b.tree b'.tree ∧ target'.inner = run.2.inner := by
  obtain ⟨⟨more, outer⟩, hall, ⟨⟩⟩ := run_last hrun
  exact ⟨hoistAll_grows hall, rfl⟩

/-! ## Text and content -/

def TextProperty (o : Options) (e : Element) (property : Text) : Prop :=
  normaliseText e.text ≠ [] ∧ o.contentProperties.lookup e.name = some property

theorem inlineText_grows (hlabel : Labelled tag e.name b.tree target.inner)
    (hasked : ∀ property, TextProperty o e property → property ∈ contentNames → marked tag)
    (hrun : (inlineText o e target).run b = .ok ((texts, target'), b')) :
    Grows marked own b.tree b'.tree ∧ target'.inner = target.inner := by
  rcases inlineText_cases hrun with ⟨rfl, rfl, rfl⟩ | ⟨value, b₁, htext, hvalue, hplace⟩
  · exact ⟨.refl _, rfl⟩
  · obtain ⟨htarget, hmounts⟩ := textValue_mounts hvalue
    have hinner : target'.inner = target.inner := by rw [htarget]
    have hfirst : Grows marked own b.tree b₁.tree := hmounts.grows
    refine ⟨hfirst.trans ?_, hinner⟩
    rcases hplace with ⟨type, property, rfl, hfound, hlookup, hput⟩ | ⟨id, rfl, hadd⟩
    · refine put_grows ?_ hput
      intro hmem
      have hlabel1 := hfirst.labelled (hinner ▸ hlabel)
      refine ⟨hlabel1.le, ?_⟩
      intro w hw
      obtain ⟨htag, htype⟩ := hlabel1.label hw
      rw [run_typeOf_of_get? hw] at hfound
      cases hfound
      rw [htype] at hlookup
      rw [htag]
      exact hasked property ⟨htext, hlookup⟩ (mem_of_argumentName hmem)
    · rw [(run_add hadd).2]
      exact .add (Vacant.sparse (.inr rfl))

theorem put_grows_own (hvacant : At (Vacant marked) b.tree id) (hrun : (Build.put id p).run b = .ok (r, b')) :
    Grows marked id b.tree b'.tree ∧ At (Sparse marked) b'.tree id := by
  rw [run_put hrun]
  exact grows_set hvacant

theorem setContent_grows (hvacant : At (Vacant marked) b.tree id) (hrun : (setContent o e id ids).run b = .ok (r, b')) :
    Grows marked id b.tree b'.tree ∧ At (Sparse marked) b'.tree id := by
  rcases setContent_cases hrun with rfl | hput | ⟨child, rfl, -, hput⟩
  · exact ⟨.refl _, fun hw => (hvacant hw).sparse⟩
  · exact put_grows_own hvacant hput
  · exact put_grows_own hvacant hput

theorem joinProperty_grows (hname : MayWrite marked b.tree id p.name)
    (hrun : (Build.change id (joinProperty p)).run b = .ok (r, b')) : Grows marked own b.tree b'.tree := by
  rw [run_change hrun]
  refine .narrow ?_
  intro w hw
  have hset : ∀ q : Property, q.name = p.name → Narrows marked w (w.set q) := fun q hq =>
    narrows_set fun hmem => (hname (hq ▸ hmem)).2 hw
  rcases joinProperty_cases p w with hjoin | ⟨q, -, hjoin⟩
  · exact hjoin ▸ hset p rfl
  · exact hjoin ▸ hset _ rfl

/-! ## Callbacks -/

def callbackName (e : Element) : Text :=
  e.attributeOr "name" "builder"

theorem setCallback_grows {head : CallbackHead} (hname : MayWrite marked b.tree id head.property)
    (hrun : (Build.change id (setCallback head body)).run b = .ok (r, b')) : Grows marked own b.tree b'.tree := by
  rw [run_change hrun]
  refine .narrow ?_
  intro w hw
  have hcall : ∀ v : Widget, v.tag = w.tag → Narrows marked v (v.set (head.callback body)) :=
    fun v hv => narrows_set fun hmem => hv ▸ (hname hmem).2 hw
  rcases setCallback_cases head body w with hset | ⟨count, hset⟩
  · exact hset ▸ hcall w rfl
  · have hcount : .ofString "itemCount" ∉ contentNames := by decide
    exact hset ▸ (narrows_set fun hmem => absurd hmem hcount).trans (hcall _ rfl)

/-! ## Items -/

def Item.sets? : Item → Option Text
  | .property name _ _ => some name
  | .callback e _ => some (callbackName e)
  | _ => none

/-- The tag of an element is marked if one of its attributes or items sets a content property. -/
structure Marks (marked : Text → Prop) (e : Element) (content : List Item) : Prop where
  attributes : ∀ a ∈ e.attributes, propertyName a.1 ∈ contentNames → marked e.name
  items : ∀ item ∈ content, ∀ name ∈ item.sets?, name ∈ contentNames → marked e.name

/-- The tags of all elements in an item that ask for a content property are marked. -/
inductive Item.Covered (o : Options) (marked : Text → Prop) : Item → Prop where
  | widget {comments : List Text} {e : Element} {content : List Item} (hown : Marks marked e content)
      (htext : ∀ property, TextProperty o e property → property ∈ contentNames → marked e.name)
      (hcontent : ∀ item ∈ content, Item.Covered o marked item) : Item.Covered o marked (.widget comments e content)
  | property {name : Text} {e : Element} {content : List Item} (hown : Marks marked e content)
      (hcontent : ∀ item ∈ content, Item.Covered o marked item) : Item.Covered o marked (.property name e content)
  | callback {e : Element} {content : List Item} (hcontent : ∀ item ∈ content, Item.Covered o marked item) :
      Item.Covered o marked (.callback e content)
  | conditional {comments : List Text} {branches : List Branch}
      (hbranches : ∀ isFallback e content, Branch.mk isFallback e content ∈ branches →
        ∀ item ∈ content, Item.Covered o marked item) : Item.Covered o marked (.conditional comments branches)

def MaySet (marked : Text → Prop) (t : Tree Deferral) (id : WidgetId) (items : List Item) : Prop :=
  ∀ item ∈ items, ∀ name ∈ item.sets?, MayWrite marked t id name

theorem MaySet.mono (h : MaySet marked t id items) (hgrows : Grows marked own t t') : MaySet marked t' id items :=
  fun item hitem name hname => (h item hitem name hname).mono hgrows

theorem maySet_none (items : List Item) : MaySet marked t .none items := by
  intro item _ name _ _
  refine ⟨by change (0 : Int) ≤ t.size; lia, ?_⟩
  intro w hw
  exact absurd rfl (Tree.ne_none_of_get? hw)

theorem Marks.maySet (h : Marks marked e content) (hlabel : Labelled e.name type t id) :
    MaySet marked t id content :=
  fun item hitem name hname => hlabel.mayWrite (h.items item hitem name hname)

/-- What is shown of a stage: no widget is given content that it does not ask for. -/
def Stage.Fills (o : Options) (marked : Text → Prop) : Stage → Build → Build → Prop
  | .item i target _ target', b, b' | .property i target target', b, b' => i.Covered o marked →
    (∀ name ∈ i.sets?, MayWrite marked b.tree target.inner name) →
      Grows marked WidgetId.none b.tree b'.tree ∧ target'.inner = target.inner
  | .items is target _ target', b, b' | .content is target _ target', b, b' | .properties is target target', b, b' =>
    (∀ i ∈ is, i.Covered o marked) → MaySet marked b.tree target.inner is →
      Grows marked WidgetId.none b.tree b'.tree ∧ target'.inner = target.inner
  | .branches bs _ ps _ _, b, b' => (∀ isFallback e is, Branch.mk isFallback e is ∈ bs → ∀ i ∈ is, i.Covered o marked) →
    Grows marked WidgetId.none b.tree b'.tree ∧ ∀ p ∈ ps, p.name ∉ contentNames

theorem inside_grows (hown : Marks marked e content) (hitems : ∀ item ∈ content, item.Covered o marked)
    (hlabel : Labelled e.name type b.tree id)
    (hcontent : (Stage.content content (.bare id) ids target).Fills o marked b b₁)
    (hprops : (Stage.properties content target target').Fills o marked b₁ b') :
    Grows marked .none b.tree b'.tree ∧ target'.inner = id := by
  obtain ⟨hfirst, hinner⟩ := hcontent hitems (hown.maySet hlabel)
  change target.inner = id at hinner
  obtain ⟨hlast, hinner'⟩ := hprops hitems (hinner ▸ hown.maySet (hfirst.labelled hlabel))
  exact ⟨hfirst.trans hlast, hinner'.trans hinner⟩

theorem add_vacant (hw : w.contents = []) (hadd : (Build.add w).run b = .ok (id, b')) :
    Labelled w.tag w.type b'.tree id ∧ At (Vacant marked) b'.tree id ∧
      ∀ {t : Tree Deferral}, Grows marked id b'.tree t → At (Sparse marked) t id →
        Grows marked .none b.tree t := by
  obtain ⟨rfl, htree⟩ := run_add hadd
  rw [htree]
  refine ⟨⟨?_, ?_⟩, ?_, fun hgrows hsparse => hgrows.built hsparse⟩
  · rw [Tree.add_fst, Tree.size_add]
    lia
  · intro v hv
    rw [Tree.get?_add_self] at hv
    cases hv
    exact ⟨rfl, rfl⟩
  · intro v hv
    rw [Tree.get?_add_self] at hv
    cases hv
    exact .inr hw

/-- What is done to a widget behind its content and properties: it is given its content, then its attributes. -/
theorem fillContent_grows (hspares : SparesContent o.handlers)
    (hasked : ∀ a ∈ e.attributes, propertyName a.1 ∈ contentNames → marked tag)
    (hlabel : Labelled tag type b.tree target.inner) (hvacant : At (Vacant marked) b.tree target.inner)
    (hcontent : (setContent o e target.inner ids).run b = .ok (r, b₁))
    (hattrs : (resolveAttributes o e (relevantAttributes e) target).run b₁ = .ok (target', b')) :
    Grows marked target.inner b.tree b'.tree ∧ At (Sparse marked) b'.tree target.inner := by
  obtain ⟨hfirst, hsparse⟩ := setContent_grows hvacant hcontent
  obtain ⟨hlast, hsparse'⟩ := resolveAttributes_grows hspares hasked (hfirst.labelled hlabel) hsparse hattrs
  exact ⟨hfirst.trans hlast, hsparse'⟩

theorem branchProperty_name_not_mem (branch : Branch) (ids : List WidgetId) :
    (branchProperty branch ids).name ∉ contentNames := by
  unfold branchProperty
  split
  · exact show .ofString "else" ∉ contentNames by decide
  · exact show .ofString "if" ∉ contentNames by decide

theorem conditions_grow (hbranch : ∀ q ∈ branches, q.2.name ∉ contentNames)
    (hconds : (resolveConditions o isSequence id branches current).run b = .ok ((ps, current'), b₁))
    (hset : (Build.change id fun w => { w with properties := ps }).run b₁ = .ok (r, b2)) :
    Grows marked own b.tree b2.tree := by
  obtain ⟨hnames, -, ss, hmounts, -⟩ := resolveConditions_mounts _ hconds
  refine hmounts.grows.trans ?_
  have hnone : ∀ name ∈ namesOf ps, name ∉ contentNames := by
    intro name hname
    rw [namesOf, hnames] at hname
    obtain ⟨q, hq, rfl⟩ := mem_map.1 hname
    exact hbranch q hq
  rw [run_change hset]
  refine .narrow ?_
  intro w hw
  refine ⟨rfl, rfl, .inr ?_⟩
  have hnil : ({ w with properties := ps } : Widget).contents = [] := by
    simpa [Widget.contents] using hnone
  exact hnil ▸ nil_sublist _

/-! ## The whole tree of items -/

theorem Course.fills (hspares : SparesContent o.handlers) (hcourse : Course o stage b b') :
    stage.Fills o marked b b' := by
  induction hcourse with
  | @widget _ e _ _ _ _ target3 _ id _ _ _ _ _ _ _ _ _ b6 b' hadd _ _ hinline hset hattrs hcomment
    ihcontent ihproperties =>
    rintro (⟨hown, htext, hitems⟩ | _) -
    obtain ⟨hlabel, hvacant, hbuilt⟩ := add_vacant rfl hadd
    -- Until its content is set the new widget has none, whatever is made inside.
    obtain ⟨hinside, hinner2⟩ := inside_grows hown hitems hlabel ihcontent ihproperties
    obtain ⟨htexts, hinner3⟩ := inlineText_grows (hinner2 ▸ hinside.labelled hlabel) htext hinline
    have hbefore := hinside.trans htexts
    rw [hinner2] at hinner3
    rw [← hinner3] at hset
    obtain ⟨hfill, hsparse⟩ := fillContent_grows hspares hown.attributes
      (hinner3 ▸ hbefore.labelled hlabel) (hinner3 ▸ hbefore.vacant hlabel.le hvacant) hset hattrs
    rw [hinner3] at hfill hsparse
    have hcomplete := hbefore.anyone.trans hfill
    have hlast : Grows marked .none b6.tree b'.tree := touch_grows hcomment fun _ => ⟨rfl, rfl, rfl⟩
    have hsparse' : At (Sparse marked) b'.tree id := hlast.sparse (hcomplete.labelled hlabel).le hsparse
    exact ⟨hbuilt (hcomplete.trans hlast.anyone) hsparse', rfl⟩
  | beside | pass => exact fun _ _ => ⟨.refl _, rfl⟩
  | @callback _ content _ _ _ _ _ _ b b₁ _ _ hhead _ hset ihcontent =>
    rintro (_ | _ | hitems) hsets
    obtain ⟨hprop, hmounts⟩ := callbackHead_mounts hhead
    have hfirst : Grows marked .none b.tree b₁.tree := hmounts.grows
    obtain ⟨hsecond, -⟩ := ihcontent hitems (maySet_none content)
    have hbefore := hfirst.trans hsecond
    exact ⟨hbefore.trans (setCallback_grows (hprop ▸ (hsets _ rfl).mono hbefore) hset), rfl⟩
  | conditional hadd _ hseq hconds hset hcomment ihbranches =>
    rintro (_ | _ | _ | hbranch) -
    obtain ⟨hfirst, hprops⟩ := ihbranches hbranch
    have hsecond := hfirst.trans (touch_grows hseq fun _ => ⟨rfl, rfl, rfl⟩)
    have hthird := hsecond.trans (conditions_grow (fun q hq => hprops q.2 (of_mem_zip hq).2) hconds hset)
    refine ⟨Grows.trans ?_ (hthird.trans (touch_grows hcomment fun _ => ⟨rfl, rfl, rfl⟩)), rfl⟩
    rw [(run_add hadd).2]
    exact .add (Vacant.sparse (.inr rfl))
  | nil | noProperties => exact fun _ _ => ⟨.refl _, rfl⟩
  | cons _ _ ihitem ihitems | moreProperties _ _ ihitem ihitems =>
    intro hitems hsets
    rw [forall_mem_cons] at hitems
    obtain ⟨hgrows, hinner⟩ := ihitem hitems.1 (hsets _ mem_cons_self)
    obtain ⟨hgrows', hinner'⟩ := ihitems hitems.2
      (hinner ▸ MaySet.mono (fun i hi => hsets i (mem_cons_of_mem _ hi)) hgrows)
    exact ⟨hgrows.trans hgrows', hinner'.trans hinner⟩
  | content _ hfinish ihitems =>
    intro hitems hsets
    obtain ⟨hgrows, hinner⟩ := ihitems hitems hsets
    obtain ⟨hgrows', hinner'⟩ := finishRun_grows hfinish
    exact ⟨hgrows.trans hgrows', hinner'.trans hinner⟩
  | @text _ _ _ _ target target' _ _ b b₁ _ hvalue hjoin =>
    intro _ hsets
    obtain ⟨htarget, hmounts⟩ := textValue_mounts hvalue
    have hinner : target'.inner = target.inner := by rw [htarget]
    have hfirst : Grows marked .none b.tree b₁.tree := hmounts.grows
    exact ⟨hfirst.trans (joinProperty_grows (hinner ▸ (hsets _ rfl).mono hfirst) hjoin), hinner⟩
  | fragment hadd _ _ hset hattrs hfrag hjoin ihcontent ihproperties =>
    rintro (_ | ⟨hown, hitems⟩) hsets
    obtain ⟨hlabel, hvacant, hbuilt⟩ := add_vacant rfl hadd
    obtain ⟨hbefore, hinner⟩ := inside_grows hown hitems hlabel ihcontent ihproperties
    rw [← hinner] at hset
    obtain ⟨hfill, hsparse⟩ := fillContent_grows hspares hown.attributes
      (hinner ▸ hbefore.labelled hlabel) (hinner ▸ hbefore.vacant hlabel.le hvacant) hset hattrs
    rw [hinner] at hfill hsparse
    have hmade := hbuilt (hbefore.anyone.trans hfill) hsparse
    obtain ⟨rfl, rfl | ⟨w, q, -, -, -, rfl⟩⟩ := fragmentProperty_cases hfrag
    all_goals exact ⟨hmade.trans (joinProperty_grows ((hsets _ rfl).mono hmade) hjoin), rfl⟩
  | noBranches => exact fun _ => ⟨.refl _, nofun⟩
  | moreBranches _ _ ihcontent ihbranches =>
    intro hcovered
    obtain ⟨hfirst, -⟩ := ihcontent (hcovered _ _ _ mem_cons_self) (maySet_none _)
    obtain ⟨hlast, hnames⟩ := ihbranches fun _ _ _ hmem => hcovered _ _ _ (mem_cons_of_mem _ hmem)
    exact ⟨hfirst.trans hlast, forall_mem_cons.2 ⟨branchProperty_name_not_mem _ _, hnames⟩⟩

end FlutterLayout.Layout
