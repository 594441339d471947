import FlutterLayout.Proofs.Layout.LoopScope
import FlutterLayout.Proofs.Layout.OneContent

/-!
# AskedContent — `child` and `children` stand together only where the element asks for one

Nothing keeps the content of a widget from going into one of the two properties while an attribute or a child
of its element sets the other (`exists_hasBoth`).  Where no element asks for a content property by name there
is at most one in each widget (`asksForContent_of_hasBoth`).
-/

namespace FlutterLayout.Layout

open Markup (Element)

variable {marked : Text → Prop} {own id x : WidgetId} {o : Options} {b b' : Build} {name : Text} {e : Element}
  {t t' : Tree Deferral}

/-! ## Elements that ask for content -/

inductive ChildSets (handlers : Directive.Handlers) (owner : Text) (c : Element) : Text → Prop where
  | property {name : Text} (h : Role.ofName handlers owner c.name = .property name) : ChildSets handlers owner c name
  | callback (h : Role.ofName handlers owner c.name = .callback) : ChildSets handlers owner c (callbackName c)

/-- The element asks for a content property by its name: in an attribute, in a child, or for its text. -/
inductive AsksForContent (o : Options) (e : Element) : Prop where
  | attribute {a : Markup.Attribute} (ha : a ∈ e.attributes) (hname : propertyName a.1 ∈ contentNames)
  | child {c : Element} {owner name : Text} (hc : c ∈ e.elements) (howner : owner = e.name ∨ owner = [])
      (hsets : ChildSets o.handlers owner c name) (hname : name ∈ contentNames)
  | text {property : Text} (htext : TextProperty o e property) (hname : property ∈ contentNames)

theorem Item.StandsFor.childSets {owner : Text} {nodes : List Markup.Node} {item : Item}
    {handlers : Directive.Handlers} (h : item.StandsFor handlers owner nodes) (hname : name ∈ item.sets?) :
    ∃ c, .element c ∈ nodes ∧ ChildSets handlers owner c name := by
  cases h with
  | widget | conditional => cases hname
  | property he hrole =>
    cases hname
    exact ⟨_, he, .property hrole⟩
  | callback he hrole =>
    cases hname
    exact ⟨_, he, .callback hrole⟩

theorem marks_content {place : Place} (howner : place.owner = e.name ∨ place.owner = [])
    (hasks : AsksForContent o e → marked e.name) : Marks marked e (Item.content o.handlers place e) where
  attributes a ha hname := hasks (.attribute ha hname)
  items item hitem name hname hmem := by
    obtain ⟨c, hc, hsets⟩ := (standsFor_of_mem_content hitem).childSets hname
    exact hasks (.child (mem_elements.2 hc) howner hsets hmem)

theorem covered_content {e : Element} (hasks : ∀ e', Inside e e' → AsksForContent o e' → marked e'.name)
    (hitem : item ∈ Item.content o.handlers place e) : item.Covered o marked := by
  have hinside : ∀ {c : Element}, .element c ∈ e.children → Inside e c := fun hc => .single (mem_elements.2 hc)
  have hbelow : ∀ {c : Element}, .element c ∈ e.children → ∀ (place : Place),
      ∀ item ∈ Item.content o.handlers place c, item.Covered o marked :=
    fun hc place item hitem => covered_content (fun e' he' => hasks e' ((hinside hc).trans he')) hitem
  cases standsFor_of_mem_content hitem with
  | widget hc =>
    have hown := hasks _ (hinside hc)
    exact .widget (marks_content (.inl rfl) hown) (fun _ htext hname => hown (.text htext hname))
      (hbelow hc _)
  | property hc => exact .property (marks_content (.inr rfl) (hasks _ (hinside hc))) (hbelow hc _)
  | callback hc => exact .callback (hbelow hc _)
  | conditional h =>
    refine .conditional fun isFallback c content hmem => ?_
    obtain ⟨hc, rfl⟩ := h isFallback c content hmem
    exact hbelow hc _
termination_by sizeOf e
decreasing_by exact sizeOf_lt_of_mem_children hc

theorem covered_ofRoot (hasks : ∀ e', Inside e e' → AsksForContent o e' → marked e'.name) :
    (Item.ofRoot o.handlers comments e).Covered o marked :=
  .widget (marks_content (.inl rfl) (hasks e .refl)) (fun _ htext hname => hasks e .refl (.text htext hname))
    fun _ hitem => covered_content hasks hitem

/-! ## Documents -/

theorem listRoot_grows (hrun : (listRoot id).run b = .ok (outer, b')) : Grows marked .none b.tree b'.tree := by
  rcases listRoot_cases hrun with ⟨column, b2, sequence, b3, hadd, hhoist, hput⟩ | ⟨-, rfl, rfl⟩
  · obtain ⟨hlabel, hvacant, hbuilt⟩ := add_vacant rfl hadd
    have hmoved : Grows marked .none b2.tree b3.tree := hoist_grows hhoist
    have hvacant' : At (Vacant marked) b3.tree column := hmoved.vacant hlabel.le hvacant
    obtain ⟨hset, hsparse⟩ := put_grows_own hvacant' hput
    exact hbuilt (hmoved.anyone.trans hset) hsparse
  · exact .refl _

theorem buildRoot_grows
    (hspares : SparesContent o.handlers) (hasks : ∀ e', Inside e e' → AsksForContent o e' → marked e'.name)
    (hrun : (buildRoot o fields comments e).run b = .ok (root, b')) : Grows marked .none b.tree b'.tree := by
  obtain ⟨ids, target, b1, b2, hitem, hlist, hchange⟩ := buildRoot_cases hrun
  obtain ⟨hfirst, -⟩ := (item_course _ hitem).fills hspares (covered_ofRoot hasks) nofun
  exact hfirst.trans ((listRoot_grows hlist).trans (touch_grows hchange fun _ => ⟨rfl, rfl, rfl⟩))

theorem disableIn_grows (ids : List WidgetId) : Grows marked own t (disableIn condition t ids) := by
  rcases disableIn_cases condition t ids with hsame | ⟨x, -, w, ps, hw, hps, hchanged⟩
  · exact hsame.symm ▸ .refl t
  · rw [hchanged]
    refine .narrow ?_
    intro w' hw'
    rw [hw] at hw'
    cases hw'
    exact .of_eq rfl rfl (by simp [Widget.contents, namesOf_disableFirst? hps])

theorem runDeferred_grows (root : WidgetId) : Grows marked .none t (t.runDeferred performDeferral root).1 := by
  refine runDeferred_keeps root ?_ ?_ (.refl t)
  · intro t' action x h
    obtain ⟨outer, condition⟩ := action
    exact h.trans (disableIn_grows _)
  · exact fun x h => ⟨h.size, h.old, h.new⟩

theorem contents_put (w : Widget) (slot : Slot) (c : WidgetId) : (w.put slot c).contents = w.contents := by
  have hmodify : ∀ (index position : Nat) (ps : List Property),
      namesOf (ps.modify index fun p => { p with value := p.value.put position c }) = namesOf ps := by
    intro index position ps
    refine List.ext_getElem? fun i => ?_
    simp only [namesOf, List.getElem?_map, List.getElem?_modify]
    split
    · cases ps[i]? <;> rfl
    · cases ps[i]? <;> rfl
  cases slot with
  | wrapped => rfl
  | property | item => simp only [Widget.put, Widget.contents, hmodify]

theorem tag_put (w : Widget) (slot : Slot) (c : WidgetId) :
    (w.put slot c).tag = w.tag ∧ (w.put slot c).type = w.type := by
  cases slot <;> exact ⟨rfl, rfl⟩

theorem merges_grows (h : Pipe.Merges root t log t') : Grows marked own t t' := by
  induction h with
  | refl t => exact .refl t
  | @step t t' p outer c r s log hr hrest ih =>
    have hweaken : Grows marked own t (Pipe.mergeInto t outer s) := .narrow fun _ => .of_eq rfl rfl rfl
    refine (hweaken.trans (.narrow fun {w} _ => ?_)).trans ih
    exact .of_eq (tag_put w r.slot c).1 (tag_put w r.slot c).2 (contents_put w r.slot c)

theorem sparesContent_standard : SparesContent Directive.standard := by
  have hall : ∀ q ∈ Directive.standard.entries, sparesContent q.2.handler = true := by decide +kernel
  intro name r hr
  exact hall _ (Registry.mem_of_get? hr)

/-- A widget with both content properties comes from an element that asks for one of them by its name. -/
theorem asksForContent_of_hasBoth {d : Markup.Document} {r : Resolution} {w : Widget}
    (hhandlers : o.handlers = Directive.standard) (h : resolve o d = .ok r) (hx : r.tree.Reaches r.root x)
    (hw : r.tree.get? x = some w) (hboth : w.HasBoth) :
    ∃ top e, d.root? = some top ∧ Inside top e ∧ e.name = w.tag ∧ AsksForContent o e := by
  rcases resolve_cases h with hnone | ⟨a, fields, comments, e, b, log, hbuilt, -, hmerges⟩
  · rw [hnone] at hx
    cases (get?_eq_none_of_reaches_none hx).symm.trans hw
  · obtain ⟨top, htop, hinside⟩ := hbuilt.inside
    let marked : Text → Prop := fun tag => ∃ e', Inside top e' ∧ e'.name = tag ∧ AsksForContent o e'
    have hbuild : Grows marked WidgetId.none ({} : Build).tree b.tree :=
      buildRoot_grows (hhandlers ▸ sparesContent_standard)
        (fun e' he' hasks => ⟨e', hinside.trans he', rfl, hasks⟩) hbuilt.run
    have hrun : Grows marked WidgetId.none b.tree a.tree := hbuilt.tree ▸ runDeferred_grows a.root
    have hgrows := hbuild.trans (hrun.trans (merges_grows hmerges))
    have hsparse : Sparse marked w := by
      refine hgrows.new ?_ (Tree.ne_none_of_get? hw) hw
      exact Tree.pos_of_get? hw
    rcases hsparse with ⟨e', he', htag, hasks⟩ | hone
    · exact ⟨top, e', htop, he', htag, hasks⟩
    · have htwo := hboth.two_le
      lia

/-! ## Widgets with both -/

def namedChildren : Markup.Document :=
  ⟨[.element (.mk "Box" [] ⟨1, 1⟩
    [.element (.mk "children" [] ⟨1, 6⟩ [.element (.mk "A" [] ⟨1, 16⟩ []), .element (.mk "B" [] ⟨1, 20⟩ [])]),
      .element (.mk "C" [] ⟨1, 35⟩ [])])]⟩

def childAttribute : Markup.Document :=
  ⟨[.element (.mk "Column" [("child", "x")] ⟨1, 1⟩ [.element (.mk "A" [] ⟨1, 19⟩ [])])]⟩

def childrenCallback : Markup.Document :=
  ⟨[.element (.mk "Box" [] ⟨1, 1⟩
    [.element (.mk "builder" [("name", "children")] ⟨1, 6⟩ [.element (.mk "A" [] ⟨1, 31⟩ [])]),
      .element (.mk "B" [] ⟨1, 45⟩ [])])]⟩

def RootHasBoth (d : Markup.Document) : Prop :=
  ∃ r w, resolve fragmentOptions d = .ok r ∧ r.tree.get? r.root = some w ∧ w.HasBoth

theorem rootHasBoth_of_mem : ∀ d ∈ [namedChildren, childAttribute, childrenCallback], RootHasBoth d := by
  have hres : ∀ d ∈ [namedChildren, childAttribute, childrenCallback],
      (match resolve fragmentOptions d with
      | .ok r => (r.tree.get? r.root).any fun w =>
        (w.property? childProperty).isSome && (w.property? childrenProperty).isSome
      | .error _ => false) = true := by decide +kernel
  intro d hd
  have hr := hres d hd
  split at hr
  · rename_i r hresolved
    simp only [Option.any_eq_true, Bool.and_eq_true] at hr
    obtain ⟨w, hw, hboth⟩ := hr
    exact ⟨r, w, hresolved, hw, hboth⟩
  · cases hr

theorem exists_hasBoth : RootHasBoth namedChildren ∧ RootHasBoth childAttribute ∧ RootHasBoth childrenCallback :=
  ⟨rootHasBoth_of_mem namedChildren (by simp), rootHasBoth_of_mem childAttribute (by simp),
    rootHasBoth_of_mem childrenCallback (by simp)⟩

theorem asksForContent_childrenCallback : ∃ r w, resolve fragmentOptions childrenCallback = .ok r ∧
    r.tree.Reaches r.root r.root ∧ r.tree.get? r.root = some w ∧ w.HasBoth ∧
      ∃ top e, childrenCallback.root? = some top ∧ Inside top e ∧ e.name = w.tag ∧
        AsksForContent fragmentOptions e := by
  obtain ⟨r, w, hr, hw, hboth⟩ := rootHasBoth_of_mem childrenCallback (by simp)
  exact ⟨r, w, hr, .refl, hw, hboth, asksForContent_of_hasBoth rfl hr .refl hw hboth⟩

end FlutterLayout.Layout
