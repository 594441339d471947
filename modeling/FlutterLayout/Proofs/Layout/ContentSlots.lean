import FlutterLayout.Proofs.Layout.Claims
import FlutterLayout.Proofs.Layout.Contents

/-!
# ContentSlots — who fills `child` and `children`

The content of a widget is in its property `child` or in its property `children`.  Elements ask for one of
them by name, or leave the choice to `setContent` and to the directives that move content.  The tags of
elements that ask by name are `marked`; of any other widget there is at most one content property
(`Sparse`), because nothing else adds one where there is one.
-/

namespace FlutterLayout

open List FlutterLayout.Tree Widget

def contentNames : List Text :=
  [childProperty, childrenProperty]

def Widget.contents (w : Widget) : List Text :=
  (namesOf w.properties).filter fun name => contentNames.contains name

def Widget.HasBoth (w : Widget) : Prop :=
  (w.property? childProperty).isSome = true ∧ (w.property? childrenProperty).isSome = true

section Contents

variable {w : Widget} {p : Property} {name : Text}

theorem Widget.mem_contents (hname : name ∈ contentNames) (h : (w.property? name).isSome = true) :
    name ∈ w.contents := by
  obtain ⟨p, hp⟩ := Option.isSome_iff_exists.1 h
  have hmem : p.name ∈ namesOf w.properties := mem_map_of_mem (mem_of_find?_eq_some hp)
  have hsame : p.name = name := by simpa using find?_some hp
  exact mem_filter.2 ⟨hsame ▸ hmem, contains_iff_mem.2 hname⟩

theorem Widget.HasBoth.two_le (h : w.HasBoth) : 2 ≤ w.contents.length := by
  have hchild := mem_contents (by decide) h.1
  have hkids := mem_contents (by decide) h.2
  have hsub : [childProperty, childrenProperty] ⊆ w.contents := by simp [hchild, hkids]
  exact (subperm_of_subset (by decide) hsub).length_le

theorem Widget.contents_set (w : Widget) (p : Property) :
    (w.set p).contents = w.contents ∨ (w.set p).contents = w.contents ++ [p.name] ∧ p.name ∈ contentNames := by
  simp only [contents, set, namesOf_putProperty]
  split
  · exact .inl rfl
  · by_cases hname : p.name ∈ contentNames
    · exact .inr ⟨by simp [filter_append, hname], hname⟩
    · exact .inl (by simp [filter_append, hname])

theorem Widget.contents_set_of_not_mem (hname : p.name ∉ contentNames) : (w.set p).contents = w.contents :=
  (w.contents_set p).resolve_right fun h => hname h.2

theorem namesOf_dropProperty (name : Text) (ps : List Property) :
    namesOf (dropProperty name ps) = (namesOf ps).erase name := by
  induction ps with
  | nil => rfl
  | cons q ps ih =>
    by_cases hname : q.name = name
    · simp [dropProperty, namesOf, hname]
    · have hcons : namesOf (q :: dropProperty name ps) = q.name :: namesOf (dropProperty name ps) := rfl
      have hne : ¬ (q.name == name) = true := by simpa using hname
      rw [dropProperty, if_neg hname, hcons, ih]
      exact (erase_cons_tail hne).symm

theorem Widget.contents_remove_sublist (w : Widget) (name : Text) : (w.remove name).contents.Sublist w.contents := by
  simp only [contents, remove, namesOf_dropProperty]
  exact erase_sublist.filter _

theorem Widget.contents_remove (w : Widget) (name : Text) : (w.remove name).contents = w.contents.erase name := by
  simp only [contents, remove, namesOf_dropProperty]
  exact erase_filter.symm

theorem Widget.mem_contentNames_of_mem_contents (h : name ∈ w.contents) : name ∈ contentNames :=
  contains_iff_mem.1 (mem_filter.1 h).2

theorem Widget.contents_eq_of_property? (h : w.property? childrenProperty = none) (hone : w.contents.length ≤ 1) :
    w.contents.erase childProperty = [] := by
  rcases hcontents : w.contents with - | ⟨name, more⟩
  · rfl
  · have hmore : more = [] := by simpa [hcontents] using hone
    have hmem : name ∈ w.contents := by simp [hcontents]
    have hnot : name ≠ childrenProperty := by
      rintro rfl
      obtain ⟨p, hp, hname⟩ := mem_map.1 (mem_filter.1 hmem).1
      have hnone := find?_eq_none.1 h p hp
      simp [hname] at hnone
    have hchild : name = childProperty := by
      simpa [contentNames, hnot] using mem_contentNames_of_mem_contents hmem
    simp [hmore, hchild]

theorem Widget.contents_removeBoth (hone : w.contents.length ≤ 1) :
    ((w.remove childProperty).remove childrenProperty).contents = [] := by
  rw [contents_remove, contents_remove]
  rcases hcontents : w.contents with - | ⟨name, more⟩
  · rfl
  · have hmore : more = [] := by simpa [hcontents] using hone
    have hmem : name ∈ w.contents := by simp [hcontents]
    have hname : name = childProperty ∨ name = childrenProperty := by
      simpa [contentNames] using mem_contentNames_of_mem_contents hmem
    rcases hname with rfl | rfl
    · simp [hmore]
    · simp [hmore, erase_cons_tail (show ¬ (childrenProperty == childProperty) = true by decide)]

end Contents

namespace Layout

/-! ## Sparse widgets -/

def Sparse (marked : Text → Prop) (w : Widget) : Prop :=
  marked w.tag ∨ w.contents.length ≤ 1

def Vacant (marked : Text → Prop) (w : Widget) : Prop :=
  marked w.tag ∨ w.contents = []

/-- A step that gives a widget no content property, unless its tag is marked. -/
structure Narrows (marked : Text → Prop) (w w' : Widget) : Prop where
  tag : w'.tag = w.tag
  type : w'.type = w.type
  contents : marked w.tag ∨ w'.contents.Sublist w.contents

variable {marked : Text → Prop} {own id x : WidgetId} {t t' t'' : Tree Deferral} {w w' w'' : Widget}
  {name tag type : Text} {p : Property}

theorem Narrows.of_eq (htag : w'.tag = w.tag) (htype : w'.type = w.type)
    (hcontents : w'.contents = w.contents) : Narrows marked w w' :=
  ⟨htag, htype, .inr (hcontents ▸ .refl _)⟩

theorem Narrows.trans (h : Narrows marked w w') (h' : Narrows marked w' w'') : Narrows marked w w'' where
  tag := h'.tag.trans h.tag
  type := h'.type.trans h.type
  contents := by
    rcases h.contents with hmarked | hsub
    · exact .inl hmarked
    · rcases h'.contents with hmarked | hsub'
      · exact .inl (h.tag ▸ hmarked)
      · exact .inr (hsub'.trans hsub)

theorem Sparse.narrow (h : Sparse marked w) (hnarrows : Narrows marked w w') : Sparse marked w' := by
  unfold Sparse at *
  rw [hnarrows.tag]
  rcases hnarrows.contents with hmarked | hsub
  · exact .inl hmarked
  · exact h.imp_right fun hone => Nat.le_trans hsub.length_le hone

theorem Vacant.narrow (h : Vacant marked w) (hnarrows : Narrows marked w w') : Vacant marked w' := by
  unfold Vacant at *
  rw [hnarrows.tag]
  rcases hnarrows.contents with hmarked | hsub
  · exact .inl hmarked
  · rcases h with hmarked | hnil
    · exact .inl hmarked
    · exact .inr (sublist_nil.1 (hnil ▸ hsub))

theorem Vacant.sparse (h : Vacant marked w) : Sparse marked w :=
  h.imp_right fun hnil => by simp [hnil]

theorem Vacant.set (h : Vacant marked w) : Sparse marked (w.set p) := by
  refine h.imp_right fun hnil => ?_
  rcases w.contents_set p with heq | ⟨heq, -⟩ <;> simp [heq, hnil]

theorem narrows_set (hname : p.name ∈ contentNames → marked w.tag) : Narrows marked w (w.set p) := by
  by_cases hmem : p.name ∈ contentNames
  · exact ⟨rfl, rfl, .inl (hname hmem)⟩
  · exact .of_eq rfl rfl (contents_set_of_not_mem hmem)

theorem narrows_remove (w : Widget) (name : Text) : Narrows marked w (w.remove name) :=
  ⟨rfl, rfl, .inr (w.contents_remove_sublist name)⟩

def At (P : Widget → Prop) (t : Tree Deferral) (x : WidgetId) : Prop :=
  ∀ {w : Widget}, t.get? x = some w → P w

structure Labelled (tag type : Text) (t : Tree Deferral) (x : WidgetId) : Prop where
  le : x ≤ t.size
  label : At (fun w => w.tag = tag ∧ w.type = type) t x

/-! ## Steps -/

/-- A step from one tree to the next: no widget but `own` is given content, unless its tag is marked, and the
new ones are sparse. -/
structure Grows (marked : Text → Prop) (own : WidgetId) (t t' : Tree Deferral) : Prop where
  size : t.size ≤ t'.size
  old : ∀ {x : WidgetId} {w : Widget}, t.get? x = some w →
    ∃ w', t'.get? x = some w' ∧ w'.tag = w.tag ∧ w'.type = w.type ∧ (x ≠ own → Narrows marked w w')
  new : ∀ {x : WidgetId}, (t.size : Int) < x → x ≠ own → At (Sparse marked) t' x

namespace Grows

theorem of_narrows (hsize : t.size = t'.size)
    (h : ∀ {x : WidgetId} {w : Widget}, t.get? x = some w → ∃ w', t'.get? x = some w' ∧ Narrows marked w w') :
    Grows marked own t t' where
  size := Nat.le_of_eq hsize
  old hw := by
    obtain ⟨w', hw', hnarrows⟩ := h hw
    exact ⟨w', hw', hnarrows.tag, hnarrows.type, fun _ => hnarrows⟩
  new hx _ := by
    intro w' hw'
    have hle := le_size_of_get? hw'
    lia

theorem refl (t : Tree Deferral) : Grows marked own t t :=
  of_narrows rfl fun hw => ⟨_, hw, .of_eq rfl rfl rfl⟩

theorem trans (h : Grows marked own t t') (h' : Grows marked own t' t'') : Grows marked own t t'' where
  size := Nat.le_trans h.size h'.size
  old hw := by
    obtain ⟨w', hw', htag, htype, hnarrows⟩ := h.old hw
    obtain ⟨w'', hw'', htag', htype', hnarrows'⟩ := h'.old hw'
    exact ⟨w'', hw'', htag'.trans htag, htype'.trans htype, fun hx => (hnarrows hx).trans (hnarrows' hx)⟩
  new {x} hx hne := by
    intro w'' hw''
    by_cases hle : x ≤ t'.size
    · obtain ⟨w', hw'⟩ := exists_get? (pos_of_get? hw'') hle
      obtain ⟨v, hv, -, -, hnarrows⟩ := h'.old hw'
      rw [hw''] at hv
      cases hv
      exact (h.new hx hne hw').narrow (hnarrows hne)
    · exact h'.new (Int.not_le.1 hle) hne hw''

theorem anyone (h : Grows marked .none t t') : Grows marked own t t' where
  size := h.size
  old hw := by
    obtain ⟨w', hw', htag, htype, hnarrows⟩ := h.old hw
    exact ⟨w', hw', htag, htype, fun _ => hnarrows (ne_none_of_get? hw)⟩
  new hx _ := by
    intro w' hw'
    exact h.new hx (ne_none_of_get? hw') hw'

/-- What is kept of widgets that are given no content is kept of all but `own`. -/
theorem at_of_ne (h : Grows marked own t t') (hx : x ≤ t.size) (hne : x ≠ own)
    (hP : ∀ {w w'}, P w → Narrows marked w w' → P w') (hold : At P t x) : At P t' x := by
  intro w' hw'
  obtain ⟨w, hw⟩ := exists_get? (pos_of_get? hw') hx
  obtain ⟨v, hv, -, -, hnarrows⟩ := h.old hw
  rw [hw'] at hv
  cases hv
  exact hP (hold hw) (hnarrows hne)

theorem sparse (h : Grows marked .none t t') (hx : x ≤ t.size) (hold : At (Sparse marked) t x) :
    At (Sparse marked) t' x := by
  intro w' hw'
  exact h.at_of_ne hx (ne_none_of_get? hw') .narrow hold hw'

theorem vacant (h : Grows marked .none t t') (hx : x ≤ t.size) (hold : At (Vacant marked) t x) :
    At (Vacant marked) t' x := by
  intro w' hw'
  exact h.at_of_ne hx (ne_none_of_get? hw') .narrow hold hw'

theorem labelled (h : Grows marked own t t') (hold : Labelled tag type t x) : Labelled tag type t' x where
  le := by
    have hsize := h.size
    have hle := hold.le
    lia
  label := by
    intro w' hw'
    obtain ⟨w, hw⟩ := exists_get? (pos_of_get? hw') hold.le
    obtain ⟨v, hv, htag, htype, -⟩ := h.old hw
    rw [hw'] at hv
    cases hv
    rw [htag, htype]
    exact hold.label hw

theorem add (hw : Sparse marked w) : Grows marked own t (t.add w).2 where
  size := by simp
  old hv := ⟨_, get?_add_of_get? hv, rfl, rfl, fun _ => .of_eq rfl rfl rfl⟩
  new {x} hx _ := by
    intro w' hw'
    have heq : x = (t.add w).1 := by
      have hle := le_size_of_get? hw'
      rw [size_add] at hle
      rw [add_fst]
      lia
    subst heq
    rw [get?_add_self] at hw'
    cases hw'
    exact hw

theorem narrow (hf : At (fun w => Narrows marked w (f w)) t x) : Grows marked own t (t.modify x f) := by
  refine of_narrows (size_modify f).symm ?_
  intro y w hw
  obtain ⟨v, hv, ⟨rfl, rfl⟩ | rfl⟩ := exists_get?_modify x f hw
  · exact ⟨f w, hv, hf hw⟩
  · exact ⟨v, hv, .of_eq rfl rfl rfl⟩

theorem modify_own (hf : ∀ w, (f w).tag = w.tag ∧ (f w).type = w.type) : Grows marked own t (t.modify own f) where
  size := by simp
  old {y w} hw := by
    obtain ⟨v, hv, ⟨rfl, rfl⟩ | rfl⟩ := exists_get?_modify own f hw
    · exact ⟨f w, hv, (hf w).1, (hf w).2, fun hne => absurd rfl hne⟩
    · exact ⟨v, hv, rfl, rfl, fun _ => .of_eq rfl rfl rfl⟩
  new hx _ := by
    intro w' hw'
    have hle := le_size_of_get? hw'
    rw [size_modify] at hle
    lia

theorem built (h : Grows marked (t.add w).1 (t.add w).2 t') (hsparse : At (Sparse marked) t' (t.add w).1) :
    Grows marked own t t' where
  size := Nat.le_trans (by simp) h.size
  old {x v} hv := by
    obtain ⟨v', hv', htag, htype, hnarrows⟩ := h.old (get?_add_of_get? hv)
    have hne : x ≠ (t.add w).1 := by
      have hle := le_size_of_get? hv
      rw [add_fst]
      lia
    exact ⟨v', hv', htag, htype, fun _ => hnarrows hne⟩
  new {x} hx _ := by
    intro w' hw'
    by_cases heq : x = (t.add w).1
    · subst heq
      exact hsparse hw'
    · refine h.new ?_ heq hw'
      rw [add_fst] at heq
      rw [size_add]
      lia

end Grows

/-- A property of the name may be set on the widget: it is no content property, or the tag is marked. -/
def MayWrite (marked : Text → Prop) (t : Tree Deferral) (id : WidgetId) (name : Text) : Prop :=
  name ∈ contentNames → id ≤ t.size ∧ At (fun w => marked w.tag) t id

theorem MayWrite.of_not_mem (hname : name ∉ contentNames) : MayWrite marked t id name :=
  fun hmem => absurd hmem hname

theorem Labelled.mayWrite (h : Labelled tag type t id) (hname : name ∈ contentNames → marked tag) :
    MayWrite marked t id name := by
  refine fun hmem => ⟨h.le, ?_⟩
  intro w hw
  rw [(h.label hw).1]
  exact hname hmem

theorem MayWrite.mono (h : MayWrite marked t id name) (hgrows : Grows marked own t t') :
    MayWrite marked t' id name := by
  intro hname
  obtain ⟨hle, hmarked⟩ := h hname
  refine ⟨?_, ?_⟩
  · have hsize := hgrows.size
    lia
  · intro w' hw'
    obtain ⟨w, hw⟩ := exists_get? (pos_of_get? hw') hle
    obtain ⟨v, hv, htag, -⟩ := hgrows.old hw
    rw [hw'] at hv
    cases hv
    exact htag ▸ hmarked hw

/-! ## Values -/

variable {o : Options} {b b' : Build} {target target' : Target} {e : Pipe.Expression} {outer : WidgetId}
  {value : Text} {r : Unit}

theorem put_grows (hname : MayWrite marked b.tree id p.name) (hrun : (Build.put id p).run b = .ok (r, b')) :
    Grows marked own b.tree b'.tree := by
  rw [run_put hrun]
  exact .narrow fun hw => narrows_set fun hmem => (hname hmem).2 hw

theorem touch_grows (hrun : (Build.change id f).run b = .ok (r, b'))
    (hf : ∀ w, (f w).tag = w.tag ∧ (f w).type = w.type ∧ (f w).properties = w.properties) :
    Grows marked own b.tree b'.tree := by
  rw [run_change hrun]
  exact .narrow fun {w} _ => .of_eq (hf w).1 (hf w).2.1 (by simp only [contents, (hf w).2.2])

theorem Mounts.grows (hm : Mounts ss id t outer t') : Grows marked own t t' := by
  induction hm with
  | nil => exact .refl _
  | @cons s ss flag id outer t t' _ ih =>
    have hbuilder : Sparse marked (Pipe.builder { s with skipNullCheck := flag } id) := Vacant.sparse (.inr rfl)
    exact (Grows.add hbuilder).trans ih

theorem mem_of_argumentName (h : Build.argumentName o type name ∈ contentNames) : name ∈ contentNames := by
  unfold Build.argumentName at h
  split at h
  · exact absurd h (by decide)
  · exact h

theorem amends_grows (hnames : ∀ name ∈ texts, MayWrite marked t id name)
    (h : Amends texts id current t outer t') : Grows marked own t t' := by
  induction h with
  | refl => exact .refl _
  | note _ hm hf ih =>
    have hboth := ih.trans hm.grows
    refine hboth.trans (.narrow fun {w} hw => ?_)
    cases hf with
    | text _ _ hname => exact narrows_set fun hmem => ((hnames _ hname).mono hboth hmem).2 hw
    | touch htouches hsame =>
      refine .of_eq (hsame w).2.1 (hsame w).2.2 ?_
      simp only [contents, (htouches w).properties]

/-! ## Directives -/

def sparesContent : Directive.Handler → Bool
  | .wrapper spec =>
    !contentNames.contains spec.property && spec.related.all (fun r => !contentNames.contains r.2)
      && spec.defaults.all fun d => !contentNames.contains d.1
  | _ => true

theorem not_mem_of_sparesContent (h : sparesContent handler = true) :
    ∀ name ∈ textNames handler, name ∉ contentNames := by
  cases handler with
  | wrapper spec =>
    simp only [sparesContent, Bool.and_eq_true, all_eq_true, Bool.not_eq_true', contains_eq_mem,
      decide_eq_false_iff_not] at h
    simp only [textNames, mem_cons, mem_append, mem_map]
    rintro name (rfl | rfl | ⟨r, hr, rfl⟩ | ⟨d, hd, rfl⟩)
    · decide
    · exact h.1.1
    · exact h.1.2 r hr
    · exact h.2 d hd
  | animation | formControl | controller => decide
  | _ => exact fun _ hname => absurd hname not_mem_nil

namespace Attribute

theorem sparse_takeOver (p? : Option Property) (type tag : Text) :
    Sparse marked (takeOver p? { type := type, isCustom := true, tag := tag }) := by
  have hvacant : Vacant marked { type := type, isCustom := true, tag := tag } := .inr rfl
  unfold takeOver
  split
  · exact hvacant.sparse
  · split
    · exact Vacant.sparse (.inr rfl)
    · exact Vacant.sparse (.inr rfl)
    · exact hvacant.set

theorem sparse_loopNode (l : Directive.LoopHeader) (needs : List Pipe.Subscription) (body : List WidgetId)
    (tag : Text) : Sparse marked (loopNode l needs body tag) :=
  Vacant.sparse (.inr rfl)

end Attribute

theorem Shell.sparse (hw : Shell current handler w) : Sparse marked w := by
  cases hw <;> exact Vacant.sparse (.inr rfl)

theorem grows_dropContent : Grows marked own t (t.modify id dropContent) :=
  .narrow fun {w} _ => (narrows_remove w childProperty).trans (narrows_remove _ childrenProperty)

theorem vacant_dropContent (hsparse : At (Sparse marked) t id) : At (Vacant marked) (t.modify id dropContent) id := by
  intro w hw
  rw [get?_modify_self] at hw
  obtain ⟨v, hv, rfl⟩ := Option.map_eq_some_iff.1 hw
  exact (hsparse hv).imp_right contents_removeBoth

theorem grows_set (hvacant : At (Vacant marked) t id) :
    Grows marked id t (t.modify id fun w => w.set p) ∧ At (Sparse marked) (t.modify id fun w => w.set p) id := by
  refine ⟨.modify_own fun w => ⟨rfl, rfl⟩, ?_⟩
  intro w hw
  rw [get?_modify_self] at hw
  obtain ⟨v, hv, rfl⟩ := Option.map_eq_some_iff.1 hw
  exact (hvacant hv).set

theorem directs_grows (hspares : sparesContent handler = true)
    (hle : target.inner ≤ t.size) (hsparse : At (Sparse marked) t target.inner)
    (hd : Directs target t handler target' t') :
    Grows marked target.inner t t' ∧ At (Sparse marked) t' target.inner := by
  have hnames : ∀ {t : Tree Deferral} {id : WidgetId}, ∀ name ∈ textNames handler, MayWrite marked t id name :=
    fun name hname => .of_not_mem (not_mem_of_sparesContent hspares name hname)
  have hwithin : ∀ {t1 : Tree Deferral}, Grows marked .none t t1 → target.inner ≤ t1.size := by
    intro t1 h
    have hsize := h.size
    lia
  -- A directive that gives the target no content leaves it as it was.
  have hspare : (∀ {own : WidgetId}, Grows marked own t t') →
      Grows marked target.inner t t' ∧ At (Sparse marked) t' target.inner :=
    fun hgrows => ⟨hgrows, hgrows.sparse hle hsparse⟩
  cases hd with
  | amend h => exact hspare (amends_grows hnames h)
  | around hw h => exact hspare ((Grows.add hw.sparse).trans (amends_grows hnames h))
  | @between spec tag w outer t1 hlist hw h =>
    have hshell : ∀ {own}, Grows marked own t (t.add w).2 := hw ▸ .add (Attribute.sparse_takeOver ..)
    set t2 := (t.add w).2.modify target.inner fun w => w.remove childProperty with ht2
    have hrem : ∀ {own}, Grows marked own (t.add w).2 t2 := .narrow fun {w} _ => narrows_remove w childProperty
    -- There was no list, so nothing is left when the child is removed.
    have hvacant : At (Vacant marked) t2 target.inner := by
      intro v hv
      rw [ht2, get?_modify_self, get?_add_of_le _ hle] at hv
      obtain ⟨u, hu, rfl⟩ := Option.map_eq_some_iff.1 hv
      refine (hsparse hu).imp_right fun hone => ?_
      rw [contents_remove]
      rw [hu] at hlist
      exact contents_eq_of_property? hlist hone
    have hfilled : ∀ {own}, Grows marked own t2 t1 := amends_grows hnames h
    obtain ⟨hset, hsparse'⟩ := grows_set (p := .ofWidget childProperty outer)
      (hfilled.vacant (hwithin (hshell.trans hrem)) hvacant)
    exact ⟨((hshell.trans hrem).trans hfilled).trans hset, hsparse'⟩
  | disable hm => exact hspare (hm.grows.trans (.of_narrows rfl fun hw => ⟨_, hw, .of_eq rfl rfl rfl⟩))
  | @childBuilder _ _ _ _ t1 t2 w hm htake hw =>
    have hstack : ∀ {own}, Grows marked own t t1 := hm.grows
    have htaken : ∀ {own}, Grows marked own t t2 := htake ▸ hstack.trans grows_dropContent
    have hvacant : At (Vacant marked) t2 target.inner := htake ▸ vacant_dropContent (hstack.sparse hle hsparse)
    have hloop : ∀ {own}, Grows marked own t2 (t2.add w).2 := hw ▸ .add (Attribute.sparse_loopNode ..)
    obtain ⟨hset, hsparse'⟩ := grows_set (hloop.vacant (hwithin htaken) hvacant)
    exact ⟨(htaken.trans hloop).trans hset, hsparse'⟩
  | @itemBuilder _ _ _ _ t1 t2 hm hcount =>
    have hcounted : ∀ {own}, Grows marked own t1 t2 := by
      intro own
      rw [hcount]
      exact .narrow fun _ => narrows_set
        fun hmem => absurd hmem (show .ofString "itemCount" ∉ contentNames by decide)
    refine hspare (((hm.grows.trans hcounted).trans grows_dropContent).trans (.narrow fun _ => narrows_set ?_))
    exact fun hmem => absurd hmem (show .ofString "itemBuilder" ∉ contentNames by decide)

end Layout
end FlutterLayout
