import FlutterLayout.Proofs.Layout.Binders
import FlutterLayout.Proofs.Layout.Assembly

/-!
# LoopScope — what is made for the content of a binder stays below it

`Binders` ends with the binder.  What follows, up to the resolved document, keeps the parts of a tree
enclosed: the rest of the items around the binder (`closes_of_contains`), the root, and the actions that
waited (`assemble_encloses`).  Taking redundant builders out does as well, for a builder outside of a part
holds nothing inside of it (`Guards.merges`).
-/

namespace FlutterLayout

open List
open Relation (ReflTransGen)

/-! ## Guarded parts -/

/-- Below the root the part is entered only where all names are bound, and not from a reactive builder. -/
structure Guards {α : Type} (names : List Text) (part : WidgetId → Prop) (t : Tree α) (root : WidgetId) :
    Prop where
  outside : ¬ part root
  crossing : ∀ {u : WidgetId} {w : Widget} {q : Reference}, t.Reaches root u → t.get? u = some w →
    q ∈ w.references → ¬ part u → part q.id → names ⊆ q.binds ∧ w.subscription? = none

namespace Guards

variable {α : Type} {names : List Text} {part : WidgetId → Prop} {t t' : Tree α} {root x : WidgetId}

/-- The way down to a widget of the part leads through one of the guarded slots. -/
theorem exists_slot (h : Guards names part t root) (hx : t.Reaches root x) (hpart : part x) :
    ∃ u w q, t.Reaches root u ∧ t.get? u = some w ∧ q ∈ w.references ∧ names ⊆ q.binds ∧ part q.id ∧
      t.Reaches q.id x := by
  induction hx with
  | refl => exact absurd hpart h.outside
  | tail hu hux ih =>
    rename_i u x
    by_cases hin : part u
    · obtain ⟨v, w, q, hv, hw, hq, hbinds, hid, hqu⟩ := ih hin
      exact ⟨v, w, q, hv, hw, hq, hbinds, hid, hqu.tail hux⟩
    · obtain ⟨w, hw, q, hq, rfl⟩ := Tree.exists_reference_of_holds hux
      exact ⟨u, w, q, hu, hw, hq, (h.crossing hu hw hq hin hpart).1, hpart, .refl⟩

theorem merge (h : Guards names part t root) (hr : Pipe.Redundant root t p r o s c) (hshare : Pipe.Shareable t root) :
    Guards names part (Pipe.merge t p r o s c) root := by
  refine ⟨h.outside, ?_⟩
  intro u w' q hu hw' hq hout hin
  have hreach := ((Pipe.reaches_merge hr hshare).1 hu).1
  obtain ⟨w, q', hw, hq', -, hbinds, hid⟩ := Pipe.exists_reference_of_merge hr.toWraps hshare.toIsTree hu hw' hq
  have hbefore : part q'.id := by
    by_cases heq : q'.id = r.id
    · -- The slot held the builder, which holds the widget of the part itself.
      rw [heq, redirect_self] at hid
      rw [heq]
      by_contra hbuilder
      obtain ⟨wb, hwb, hs, -⟩ := hr.builder
      obtain ⟨v, hv, qb, hqb, hqc⟩ := Tree.exists_reference_of_holds ((hr.holds_iff hshare).2 rfl)
      rw [hwb] at hv
      cases hv
      have hplain := (h.crossing hr.toWraps.reaches_builder hwb hqb hbuilder (by rwa [hqc, ← hid])).2
      rw [hs] at hplain
      cases hplain
    · rwa [hid, redirect_of_ne heq] at hin
  obtain ⟨hnames, hplain⟩ := h.crossing hreach hw hq' hout hbefore
  rw [Pipe.get?_merge hr.toWraps hshare.toIsTree hreach hw] at hw'
  cases hw'
  refine ⟨hbinds ▸ hnames, ?_⟩
  rw [Widget.subscription?_weaken, Widget.subscription?_mapIds, hplain, Option.map_none]

theorem merges (h : Guards names part t root) (hshare : Pipe.Shareable t root)
    (hm : Pipe.Merges root t log t') : Guards names part t' root := by
  induction hm with
  | refl => exact h
  | step hr _ ih => exact ih (h.merge hr hshare) (hr.shareable hshare)

end Guards

theorem Property.binds_of_mem_references {binds : List Text} {index : Nat} {p : Property} {q : Reference}
    (hq : q ∈ p.references binds index) : binds ⊆ q.binds ∧ ∀ f, p.value = .function (some f) → f.binds ⊆ q.binds := by
  have hitems : ∀ {binds : List Text} {ids : List WidgetId}, q ∈ itemReferences index binds ids →
      q.binds = binds := by
    intro binds ids hq
    obtain ⟨a, -, rfl⟩ := mem_map.1 hq
    rfl
  have hsingle : ∀ {id : WidgetId}, q ∈ (if id = .none then [] else [⟨.property index, id, binds⟩]) →
      q.binds = binds := by
    intro id hq
    split at hq
    · cases hq
    · rw [mem_singleton.1 hq]
  unfold Property.references at hq
  split at hq
  · rename_i hvalue
    rw [hsingle hq, hvalue]
    exact ⟨.refl _, nofun⟩
  · rename_i hvalue
    rw [hsingle hq, hvalue]
    exact ⟨.refl _, nofun⟩
  · rename_i hvalue
    rw [hitems hq, hvalue]
    exact ⟨.refl _, nofun⟩
  · rename_i f hvalue
    rw [hitems hq, hvalue]
    refine ⟨subset_append_left _ _, ?_⟩
    rintro g hg
    cases hg
    exact subset_append_right _ _
  · cases hq

/-- A reference stands in the wrapped slot, or in the value of a property. -/
theorem Widget.exists_value_of_mem_references {w : Widget} {q : Reference} (hq : q ∈ w.references) :
    w.binds ⊆ q.binds ∧ (q.id = w.wrapped ∨ ∃ p ∈ w.properties, q.id ∈ p.value.held ∧
      ∀ f, p.value = .function (some f) → f.binds ⊆ q.binds) := by
  rcases mem_append.1 hq with hq | hq
  · split at hq
    · cases hq
    · rw [mem_singleton.1 hq]
      exact ⟨.refl _, .inl rfl⟩
  · obtain ⟨⟨p, index⟩, hp, hq⟩ := mem_flatMap.1 hq
    obtain ⟨hbinds, hfun⟩ := Property.binds_of_mem_references hq
    refine ⟨hbinds, .inr ⟨p, fst_mem_of_mem_zipIdx hp, ?_, hfun⟩⟩
    rw [← Property.references_map_id w.binds index]
    exact mem_map_of_mem hq

namespace Layout

variable {names : List Text} {part : WidgetId → Prop} {t t' : Tree Deferral} {root x id : WidgetId} {w : Widget}
  {target target' : Target} {o : Options} {b b' : Build} {content : List Item} {s p : Site}

theorem guards_of_encloses (h : ∀ y ∈ names, Encloses [y] part t) (hnames : names ≠ []) (hroot : ¬ part root) :
    Guards names part t root := by
  refine ⟨hroot, ?_⟩
  intro u w q _ hw hq hout hin
  obtain ⟨hbinds, hplace⟩ := Widget.exists_value_of_mem_references hq
  have hcrossing : ∀ y ∈ names, y ∈ q.binds ∧ w.generator ≠ Widget.reactiveGenerator := by
    intro y hy
    rcases (h y hy).admits hout hw with ⟨hgen, z, hz, hzw⟩ | ⟨hwrap, hprops⟩
    · rw [mem_singleton.1 hz] at hzw
      exact ⟨hbinds hzw, hgen⟩
    · rcases hplace with hq | ⟨p, hp, hheld, hfun⟩
      · exact absurd (.inl (hq ▸ hin)) hwrap
      · rcases hprops p hp with ⟨f, hf, z, hz, hzf⟩ | hvalue
        · rw [mem_singleton.1 hz] at hzf
          refine ⟨hfun f hf hzf, ?_⟩
          intro hgen
          rw [(h y hy).builder hw hgen] at hp
          cases hp
        · exact absurd (.inl hin) (hvalue q.id hheld)
  refine ⟨fun y hy => (hcrossing y hy).1, ?_⟩
  obtain ⟨y, hy⟩ := exists_mem_of_ne_nil names hnames
  unfold Widget.subscription?
  rw [if_neg (hcrossing y hy).2]

/-! ## The root -/

theorem listRoot_keeps (h : Encloses names part b.tree) (hid : ¬ Barred part b.tree id)
    (hrun : (listRoot id).run b = .ok (outer, b')) : Keeps names part b.tree b'.tree ∧ ¬ Barred part b'.tree outer := by
  rcases listRoot_cases hrun with ⟨column, b2, sequence, b3, hadd, hhoist, hput⟩ | ⟨-, rfl, rfl⟩
  · obtain ⟨hnew, haside⟩ := add_aside h hadd (.inr ⟨h.not_barred_none, nofun⟩) rfl nofun
    obtain ⟨hmoved, hseq, houter⟩ := hoist_keeps hnew.toEncloses (hnew.not_barred hid) haside.current hhoist
    have hset := put_works hmoved.toEncloses (hmoved.aside haside) hput
      (PropertyValue.admits_widgets (forall_mem_singleton.2 hseq))
    exact ⟨(hnew.trans hmoved).trans hset.toKeeps, hset.toKeeps.not_barred houter⟩
  · exact ⟨.refl h, hid⟩

theorem buildRoot_encloses
    (hcloses : (⟨.ofRoot o.handlers comments e, .bare .none, {}⟩ : Site).Closes o names part)
    (hrun : (buildRoot o fields comments e).run {} = .ok (root, b)) : Encloses names part b.tree ∧ ¬ part root := by
  obtain ⟨ids, target, b1, b2, hitem, hlist, hchange⟩ := buildRoot_cases hrun
  have hend := hcloses hitem
  have hid : ¬ Barred part b1.tree (ids.headD .none) := by
    cases ids with
    | nil => exact hend.not_barred_none
    | cons id ids => exact hend.outside id mem_cons_self
  obtain ⟨hkeeps, hroot⟩ := listRoot_keeps hend.toEncloses hid hlist
  have hpart : ¬ part root := fun hpart => hroot (.inl hpart)
  exact ⟨(touch_keeps hkeeps.toEncloses hpart hchange fun _ => ⟨rfl, rfl, rfl, rfl, rfl, rfl⟩).toEncloses, hpart⟩

/-! ## Waiting actions -/

theorem encloses_disableIn (ids : List WidgetId) (h : Encloses names part t) :
    Encloses names part (disableIn condition t ids) := by
  rcases disableIn_cases condition t ids with hsame | ⟨x, -, w, ps, hw, hps, hchanged⟩
  · exact hsame.symm ▸ h
  · rw [hchanged]
    refine encloses_modify h ?_ (fun _ => rfl) ?_
    · intro w' hx hw'
      rw [hw] at hw'
      cases hw'
      refine (h.admits hx hw).imp_right fun hadmits => ⟨hadmits.1, ?_⟩
      intro q hq
      rcases mem_of_disableFirst? hps hq with hq | ⟨v, hvalue⟩
      · exact hadmits.2 q hq
      · exact hvalue ▸ PropertyValue.admits_text v
    · intro w' hw' hgen
      rw [hw] at hw'
      cases hw'
      rw [h.builder hw hgen] at hps
      cases hps

theorem encloses_runDeferred (h : Encloses names part t) :
    Encloses names part (t.runDeferred performDeferral root).1 := by
  refine runDeferred_keeps root ?_ (fun _ h => ⟨h.admits, h.born, h.builder⟩) h
  rintro t ⟨outer, condition⟩ x h
  exact encloses_disableIn _ h

/-! ## Documents -/

theorem assemble_encloses (h : assemble o d = .ok a)
    (hsite : site ∈ rootSite? o d) (hcloses : site.Closes o names part) :
    Encloses names part a.tree ∧ ¬ part a.root := by
  rcases assemble_cases h with ⟨-, hnone⟩ | ⟨fields, comments, e, b, hbuilt⟩
  · rw [hnone] at hsite
    cases hsite
  · rw [hbuilt.rootSite] at hsite
    cases hsite
    obtain ⟨hencloses, hroot⟩ := buildRoot_encloses hcloses hbuilt.run
    exact ⟨hbuilt.tree ▸ encloses_runDeferred hencloses, hroot⟩

/-! ## The scope of a binder -/

/-- Whatever is made for an item in the content of a binder ends below a slot in which all names of the
binder are bound, if it is in the tree at all and none of the builders stacked on a sequence. -/
theorem binds_above_of_made {d : Markup.Document} {r : Resolution} (h : resolve o d = .ok r)
    (hp : Reached o d p) (hbinder : Binder o p content target b names) (hnames : names ≠ [])
    (hs : Among o s content target b)
    (hrun : (resolveItem o s.item s.target).run s.start = .ok (([id], target'), b'))
    (hmade : Made s.start.tree b'.tree x) (hstays : ¬ OnSequence b'.tree id x) (hx : r.tree.Reaches r.root x) :
    ∃ u w q, r.tree.Reaches r.root u ∧ r.tree.get? u = some w ∧ q ∈ w.references ∧ names ⊆ q.binds ∧
      Made s.start.tree b'.tree q.id ∧ r.tree.Reaches q.id x := by
  obtain ⟨hencloses, haside⟩ := hp.ready
  obtain ⟨part, ⟨hsub, hleft⟩, hcloses⟩ := hbinder.closes hencloses haside hs hrun
  have hpart : part x := (hleft x hmade).resolve_left hstays
  have hlate : Later p.start.tree part :=
    ((later_made _ _).subset hsub).mono ((hbinder.contains hs).before hencloses haside).1.size
  have hroot : r.root ≠ WidgetId.none := by
    intro hnone
    rw [hnone] at hx
    rcases ReflTransGen.cases_head hx with rfl | ⟨c, hc, -⟩
    · have hpos := hmade.1
      change (s.start.tree.size : Int) < 0 at hpos
      lia
    · obtain ⟨w, hw, -⟩ := Tree.holds_iff.1 hc
      cases hw
  obtain ⟨a, log, hassemble, haroot, hshareable, hmerges⟩ := exists_merges_of_resolve h hroot
  have hall : ∀ y ∈ names, Encloses [y] part a.tree ∧ ¬ part a.root := by
    intro y hy
    obtain ⟨site, hsite, hcloses⟩ := hp.closes hlate (hcloses y hy)
    exact assemble_encloses hassemble hsite hcloses
  obtain ⟨y, hy⟩ := List.exists_mem_of_ne_nil names hnames
  have hguards := guards_of_encloses (fun y hy => (hall y hy).1) hnames (hall y hy).2
  rw [← haroot] at hx ⊢
  obtain ⟨u, w, q, hu, hw, hq, hbinds, hid, hbelow⟩ := (hguards.merges hshareable hmerges).exists_slot hx hpart
  exact ⟨u, w, q, hu, hw, hq, hbinds, hsub q.id hid, hbelow⟩

/-! ## A list of names -/

def fragmentOptions : Options :=
  { Options.standard with fragment := true }

def nameRow : Markup.Element :=
  .mk "Text" [("text", "item.name | stream")] ⟨1, 40⟩ []

def nameList : Markup.Element :=
  .mk "ListView" [(":itemBuilder", "item of items")] ⟨1, 1⟩ [.element nameRow]

def nameListSite : Site :=
  ⟨.widget [] nameList [.widget [] nameRow []], .bare WidgetId.none, {}⟩

def nameRowSite : Site :=
  ⟨.widget [] nameRow [], .bare 1, ⟨⟨[{ type := "ListView", tag := "ListView" }], []⟩, 0⟩⟩

theorem not_onSequence (h : ∀ w ∈ t.widgets, w.isSequence = false) : ¬ OnSequence t id x := by
  rintro ⟨s, hs, -⟩
  unfold Tree.isSequence at hs
  split at hs
  · rename_i w hw
    rw [h w (mem_of_getElem? (Tree.get?_eq_some_iff.1 hw).2)] at hs
    cases hs
  · cases hs

theorem reached_nameListSite : Reached fragmentOptions ⟨[.element nameList]⟩ nameListSite :=
  ⟨nameListSite, rfl, .refl⟩

theorem binder_nameListSite : Binder fragmentOptions nameListSite [nameRowSite.item] (.bare 1) nameRowSite.start
    (loopNames "item of items") := by
  have hclaims : claims fragmentOptions.handlers (relevantAttributes nameList)
      = [⟨":itemBuilder", "item of items", some ⟨.itemBuilder, none⟩, []⟩] := by decide +kernel
  exact .directive rfl hclaims rfl (.inr rfl)

/-- The builder of the stream of a row is in the body of the callback, where the item is bound. -/
theorem binds_above_of_made_nameList :
    ∃ r target' b', resolve fragmentOptions ⟨[.element nameList]⟩ = .ok r ∧
      Reached fragmentOptions ⟨[.element nameList]⟩ nameListSite ∧
      Binder fragmentOptions nameListSite [nameRowSite.item] (.bare 1) nameRowSite.start
        (loopNames "item of items") ∧
      Among fragmentOptions nameRowSite [nameRowSite.item] (.bare 1) nameRowSite.start ∧
      (resolveItem fragmentOptions nameRowSite.item nameRowSite.target).run nameRowSite.start
        = .ok (([3], target'), b') ∧
      Made nameRowSite.start.tree b'.tree 3 ∧ ¬ OnSequence b'.tree 3 3 ∧ r.tree.Reaches r.root 3 ∧
      ∃ u w q, r.tree.Reaches r.root u ∧ r.tree.get? u = some w ∧ q ∈ w.references ∧
        loopNames "item of items" ⊆ q.binds ∧ Made nameRowSite.start.tree b'.tree q.id ∧
          r.tree.Reaches q.id 3 := by
  have hresolve : (match resolve fragmentOptions ⟨[.element nameList]⟩ with
      | .ok r => r.root = 1 && r.tree.children 1 = [3]
      | .error _ => false) = true := by decide +kernel
  have hsite : (match (resolveItem fragmentOptions nameRowSite.item nameRowSite.target).run nameRowSite.start with
      | .ok ((ids, _), b') => ids = [3] && b'.tree.size = 3 && b'.tree.widgets.all fun w => !w.isSequence
      | .error _ => false) = true := by decide +kernel
  split at hresolve
  · rename_i r hr
    split at hsite
    · rename_i ids target' b' hrun
      simp only [Bool.and_eq_true, decide_eq_true_eq, List.all_eq_true, Bool.not_eq_true'] at hresolve hsite
      obtain ⟨hroot, hchildren⟩ := hresolve
      obtain ⟨⟨rfl, hsize⟩, hsequence⟩ := hsite
      have hx : r.tree.Reaches r.root 3 := by
        rw [hroot]
        exact .single (by simp [Tree.Holds, hchildren])
      have hmade : Made nameRowSite.start.tree b'.tree 3 := ⟨by decide, by rw [hsize]; decide⟩
      have hamong : Among fragmentOptions nameRowSite [nameRowSite.item] (.bare 1) nameRowSite.start :=
        ⟨[], [], [], rfl, rfl⟩
      have hstays : ¬ OnSequence b'.tree 3 3 := not_onSequence hsequence
      exact ⟨r, target', b', hr, reached_nameListSite, binder_nameListSite, hamong, hrun, hmade, hstays, hx,
        binds_above_of_made hr reached_nameListSite binder_nameListSite (List.cons_ne_nil _ _) hamong hrun hmade
          hstays hx⟩
    · cases hsite
  · cases hresolve

/-! ## Builders that leave the scope -/

def inlineName : Markup.Document :=
  ⟨[.element (.mk "ListView" [(":itemBuilder", "item of items")] ⟨1, 1⟩
    [.text "\x7b\x7bitem.name | stream\x7d\x7d"])]⟩

def repeatedTags : Markup.Document :=
  ⟨[.element (.mk "ListView" [(":itemBuilder", "item of items")] ⟨1, 1⟩
    [.element (.mk "Text" [("text", "tag"), (":repeat", "tag of item.tags | stream")] ⟨1, 40⟩ [])])]⟩

/-- The document is resolved to a tree whose root is a builder of a stream of the item, and the item is bound
further down. -/
def HasBuilderAboveBinder (d : Markup.Document) : Prop :=
  ∃ r w s, resolve fragmentOptions d = .ok r ∧ r.tree.get? r.root = some w ∧ w.subscription? = some s ∧
    Text.mentionsAny s.source ["item"] = .ok true ∧
    (∃ u v q, r.tree.Reaches r.root u ∧ r.tree.get? u = some v ∧ q ∈ v.references ∧
      Text.ofString "item" ∈ q.binds) ∧
    ∀ u, r.tree.Reaches r.root u → ¬ r.tree.Holds u r.root

theorem hasBuilderAboveBinder_of_mem : ∀ d ∈ [inlineName, repeatedTags], HasBuilderAboveBinder d := by
  have hres : ∀ d ∈ [inlineName, repeatedTags], (match resolve fragmentOptions d with
      | .ok r => r.root ≠ .none && r.tree.children r.root = [1] &&
        ((r.tree.get? r.root).any fun w => w.subscription?.any fun s =>
          decide (Text.mentionsAny s.source ["item"] = .ok true)) &&
          (r.tree.get? 1).any fun v => v.references.any fun q => q.binds.contains (Text.ofString "item")
      | .error _ => false) = true := by decide +kernel
  intro d hd
  have hr := hres d hd
  split at hr
  · rename_i r hresolved
    simp only [Bool.and_eq_true, decide_eq_true_eq, Option.any_eq_true, any_eq_true, contains_iff_mem, ne_eq] at hr
    obtain ⟨⟨⟨hroot, hkids⟩, w, hw, s, hs, hmentions⟩, v, hv, q, hq, hbinds⟩ := hr
    obtain ⟨a, log, -, haroot, hshare, hmerges⟩ := exists_merges_of_resolve hresolved hroot
    refine ⟨r, w, s, hresolved, hw, hs, hmentions, ⟨1, v, q, ?_, hv, hq, hbinds⟩, ?_⟩
    · exact .single (by simp [Tree.Holds, hkids])
    · intro u hu
      rw [← haroot] at hu ⊢
      exact (hmerges.shareable hshare).root_free hu
  · cases hr

theorem exists_builder_above_binder : HasBuilderAboveBinder inlineName ∧ HasBuilderAboveBinder repeatedTags :=
  ⟨hasBuilderAboveBinder_of_mem inlineName (by simp), hasBuilderAboveBinder_of_mem repeatedTags (by simp)⟩

end Layout
end FlutterLayout
