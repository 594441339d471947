import FlutterLayout.Proofs.Layout.Spreading

/-!
# Dressing — attributes put wrappers around what is no sequence

A widget that is no sequence stays in place while its attributes are resolved, and so does everything that is
put around it (`Upright`).  The one directive that makes a sequence of it is `:repeat`; after it the builders
of its source stand around the loop node and are exempt (`repeat_raises`).
-/

namespace FlutterLayout.Layout

variable {bar exempt : WidgetId → Prop} {n : Int} {t t' : Tree Deferral} {w : Widget} {p : Property}
  {id current current' outer : WidgetId} {bs : List WidgetId} {o : Options} {b b' : Build} {target target' : Target}
  {name value : Text} {e : Pipe.Expression} {r : Unit} {s : Tower}

/-! ## Values -/

/-- A step that keeps what is there, and after which everything is placed. -/
structure Refits (bar exempt : WidgetId → Prop) (t t' : Tree Deferral) : Prop extends Placed bar exempt t' where
  frames : Frames t.size t t'

section

variable (h : Placed bar exempt t)
include h

theorem Mounts.raises (hm : Mounts ss current t outer t') (hcur : current ≤ t.size) :
    ∃ bs, Raises bar exempt bs t current t' outer := by
  induction hm generalizing exempt with
  | nil => exact ⟨[], .of_frames (.refl _) h⟩
  | @cons s ss flag current outer t t' _ ih =>
    let builder := Pipe.builder { s with skipNullCheck := flag } current
    have hfresh : (t.size : Int) < (t.add builder).1 := by
      rw [Tree.add_fst]
      lia
    have hone : Raises bar exempt [(t.add builder).1] t current (t.add builder).2 (t.add builder).1 := by
      refine ⟨.add builder, ⟨.cons ⟨builder, Tree.get?_add_self builder, rfl, rfl⟩ .nil,
        List.nodup_singleton _, ?_⟩, ?_⟩
      · simpa using hfresh
      · exact (h.mono fun _ => .inl).add (fun _ => rfl) hcur (fun _ => .inr List.mem_cons_self)
          (by simp [builder, Pipe.builder])
    obtain ⟨bs, hrest⟩ := ih hone.placed (hone.current_le hcur)
    exact ⟨_, hone.trans hrest⟩

theorem Placed.change (hf : Steady f) (hfine : ∀ w, t.get? id = some w → ∀ p ∈ (f w).properties, Fine bar t p) :
    Refits bar exempt t (t.modify id f) :=
  ⟨h.modify hf hfine, .modify hf⟩

theorem Placed.set (hp : Fine bar t p) : Refits bar exempt t (t.modify id fun w => w.set p) := by
  refine h.change (fun w => ⟨rfl, rfl, rfl⟩) ?_
  intro w hw q hq
  rcases mem_putProperty hq with rfl | hq
  · exact hp
  · exact h.fine hw q hq

theorem Annotates.placed (hf : Annotates texts ss f) : Refits bar exempt t (t.modify id f) := by
  cases hf with
  | text hvalue => exact h.set (fine_of_single? (by rw [hvalue]; rfl))
  | touch htouches hsame =>
    refine h.change (fun w => ⟨(htouches w).generator, (htouches w).wrapped, (hsame w).1⟩) ?_
    intro w hw q hq
    exact h.fine hw q ((htouches w).properties ▸ hq)

theorem amends_raises (ha : Amends texts id current t outer t') (hcur : current ≤ t.size) :
    ∃ bs, Raises bar exempt bs t current t' outer := by
  induction ha with
  | refl => exact ⟨[], .of_frames (.refl _) h⟩
  | note _ hm hf ih =>
    obtain ⟨bs, hfirst⟩ := ih
    obtain ⟨bs', hmore⟩ := hm.raises hfirst.placed (hfirst.current_le hcur)
    have hboth := hfirst.trans hmore
    obtain ⟨hplaced, hframes⟩ := hf.placed hboth.placed
    exact ⟨_, hboth.then_frames hframes hplaced⟩

end

theorem change_placed (hrun : (Build.change id f).run b = .ok (r, b')) (h : Placed bar exempt b.tree)
    (hf : Steady f) (hfine : ∀ w, b.tree.get? id = some w → ∀ p ∈ (f w).properties, Fine bar b.tree p) :
    Refits bar exempt b.tree b'.tree := by
  rw [run_change hrun]
  exact h.change hf hfine

theorem put_placed (hrun : (Build.put id p).run b = .ok (r, b')) (h : Placed bar exempt b.tree)
    (hp : Fine bar b.tree p) : Refits bar exempt b.tree b'.tree := by
  rw [run_put hrun]
  exact h.set hp

theorem touch_placed (hrun : (Build.change id f).run b = .ok (r, b')) (h : Placed bar exempt b.tree)
    (hf : Steady f) (hsame : ∀ w, (f w).properties = w.properties) : Refits bar exempt b.tree b'.tree := by
  refine change_placed hrun h hf ?_
  intro w hw q hq
  exact h.fine hw q (hsame w ▸ hq)

/-! ## Widgets that are dressed -/

/-- Of what stands around the current widget nothing is spread; it was all made behind the id `n`, and what
is barred before that. -/
structure Upright (bar exempt : WidgetId → Prop) (n : Int) (t : Tree Deferral) (current : WidgetId) : Prop where
  placed : Placed bar exempt t
  within : n ≤ t.size
  bars : ∀ x, bar x → x ≤ n
  tower : ∃ s : Tower, s.top = current ∧ s.Stands n t ∧ ¬ Spread bar t s.bottom

theorem Tower.Stands.frame (h : s.Stands n t) (hframes : Frames t.size t t') : s.Stands n t' := by
  obtain ⟨w, hw, hgen⟩ := h.solid
  obtain ⟨w', hw', hgen', -⟩ := hframes.old (Tree.le_size_of_get? hw) hw
  exact ⟨h.pile.frame hframes, h.fresh, w', hw', hgen' ▸ hgen⟩

theorem Tower.Stands.raise (h : s.Stands n t) (hn : n ≤ t.size) (hraises : Raises bar exempt bs t s.top t' current') :
    Tower.Stands n t' ⟨current', bs ++ s.builders, s.bottom⟩ := by
  have hbase := h.frame hraises.frames
  exact ⟨hraises.pile.append hbase.pile hn h.pile.stacked.le_size, h.fresh, hbase.solid⟩

theorem Tower.Stands.bottom_le (h : s.Stands n t) : s.bottom ≤ t.size := by
  obtain ⟨w, hw, -⟩ := h.solid
  exact Tree.le_size_of_get? hw

namespace Upright

section

variable (h : Upright bar exempt n t current)
include h

theorem current_le : current ≤ t.size := by
  obtain ⟨s, rfl, hs, -⟩ := h.tower
  exact hs.top_fresh.2

theorem not_spread : ¬ Spread bar t current := by
  obtain ⟨s, rfl, hs, hbottom⟩ := h.tower
  refine hs.pile.stacked.not_spread_top h.placed (fun x hx hbar => ?_) hbottom
  exact Int.not_lt.2 (h.bars x hbar) (hs.pile.fresh x hx)

theorem keep (hframes : Frames t.size t t') (hplaced : Placed bar exempt t') : Upright bar exempt n t' current where
  placed := hplaced
  within := by
    have hsize := hframes.size
    have hn := h.within
    lia
  bars := h.bars
  tower := by
    obtain ⟨s, htop, hs, hbottom⟩ := h.tower
    exact ⟨s, htop, hs.frame hframes, fun hspread =>
      hbottom ((hframes.spread_iff hs.bottom_le hs.bottom_le).1 hspread)⟩

theorem raise (hraises : Raises bar exempt bs t current t' current') : Upright bar exempt n t' current' := by
  obtain ⟨s, rfl, hs, hbottom⟩ := h.tower
  have hframes := hraises.frames
  refine ⟨hraises.settle h.placed hs.top_fresh.2 h.not_spread, ?_, h.bars, ?_⟩
  · have hsize := hframes.size
    have hn := h.within
    lia
  · exact ⟨_, rfl, hs.raise h.within hraises, fun hspread =>
      hbottom ((hframes.spread_iff hs.bottom_le hs.bottom_le).1 hspread)⟩

end

theorem new (h : Placed bar exempt (t.add w).2) (hn : n ≤ t.size) (hbars : ∀ x, bar x → x ≤ n)
    (hgen : w.generator ≠ Widget.reactiveGenerator) (hsequence : w.isSequence = false) :
    Upright bar exempt n (t.add w).2 (t.add w).1 := by
  have hfresh : n < (t.add w).1 := by
    rw [Tree.add_fst]
    lia
  refine ⟨h, ?_, hbars, ⟨(t.add w).1, [], (t.add w).1⟩, rfl, ⟨.nil, hfresh, w, Tree.get?_add_self w, hgen⟩, ?_⟩
  · rw [Tree.size_add]
    lia
  · rintro (hbar | hseq)
    · exact Int.not_lt.2 (hbars _ hbar) hfresh
    · rw [isSequence_of_get? (Tree.get?_add_self w), hsequence] at hseq
      cases hseq

end Upright

/-- A step of dressing: what is there is kept, and the new current widget is upright. -/
structure Dresses (bar exempt : WidgetId → Prop) (n : Int) (t t' : Tree Deferral) (current' : WidgetId) : Prop
    extends Upright bar exempt n t' current' where
  frames : Frames t.size t t'

theorem Dresses.trans (h : Dresses bar exempt n t t' middle)
    (h' : Dresses bar exempt n t' t'' current') : Dresses bar exempt n t t'' current' :=
  ⟨h'.toUpright, h.frames.append h'.frames⟩

theorem nil_ne_reactive : ([] : Text) ≠ Widget.reactiveGenerator := by decide

namespace Upright

variable (h : Upright bar exempt n t current)
include h

theorem refl : Dresses bar exempt n t t current :=
  ⟨h, .refl t⟩

theorem raises (hraises : Raises bar exempt bs t current t' current') :
    Dresses bar exempt n t t' current' :=
  ⟨h.raise hraises, hraises.frames⟩

theorem keeps (hstep : Refits bar exempt t t') : Dresses bar exempt n t t' current :=
  ⟨h.keep hstep.frames hstep.toPlaced, hstep.frames⟩

theorem amends (ha : Amends texts id current t outer t') : Dresses bar exempt n t t' outer := by
  obtain ⟨bs, hraises⟩ := amends_raises h.placed ha h.current_le
  exact h.raises hraises

theorem shell (hw : Shell current handler w) (hrepeat : handler ≠ .repeat) :
    Dresses bar exempt n t (t.add w).2 (t.add w).1 := by
  have hgen : w.generator ≠ Widget.reactiveGenerator ∧ w.isSequence = false := by
    cases hw with
    | «repeat» => exact absurd rfl hrepeat
    | _ => exact ⟨nofun, rfl⟩
  have hwrap : w.wrapped = current ∨ w.wrapped = .none := by
    cases hw with
    | wrapper | condition => exact .inl rfl
    | animation | «repeat» => exact .inr rfl
  have hfine : ∀ p ∈ w.properties, Fine bar t p := by
    cases hw with
    | wrapper | condition => exact nofun
    | animation | «repeat» => exact List.forall_mem_singleton.2 (fine_of_single? rfl)
  have hplaced : Placed bar exempt (t.add w).2 := by
    refine h.placed.add (fun heq => absurd heq hgen.1) ?_ ?_ hfine
    · rcases hwrap with heq | heq <;> rw [heq]
      · exact h.current_le
      · change (0 : Int) ≤ t.size
        lia
    · rcases hwrap with heq | heq <;> rw [heq] <;> intro hspread
      · exact absurd hspread h.not_spread
      · exact absurd hspread h.placed.not_spread_none
  exact ⟨.new hplaced h.within h.bars hgen.1 hgen.2, .add w⟩

theorem dropContent (id : WidgetId) : Dresses bar exempt n t (t.modify id dropContent) current := by
  refine h.keeps (h.placed.change (fun w => ⟨rfl, rfl, rfl⟩) fun w hw p hp => ?_)
  exact h.placed.fine hw p (((dropProperty_sublist _ _).trans (dropProperty_sublist _ _)).subset hp)

end Upright

/-! ## Directives -/

namespace Attribute

theorem takeOver_placed (hchild : ∀ p ∈ child?, Fine bar t p)
    (hwrap : shell.wrapped = .none) (hprops : shell.properties = []) (h : Placed bar exempt t) :
    (takeOver child? shell).generator = shell.generator ∧ (takeOver child? shell).isSequence = shell.isSequence ∧
      (takeOver child? shell).wrapped ≤ t.size ∧ ¬ Spread bar t (takeOver child? shell).wrapped ∧
      ∀ p ∈ (takeOver child? shell).properties, Fine bar t p := by
  have hnone : shell.wrapped ≤ t.size ∧ ¬ Spread bar t shell.wrapped := by
    rw [hwrap]
    refine ⟨?_, h.not_spread_none⟩
    change (0 : Int) ≤ t.size
    lia
  unfold takeOver
  split
  · exact ⟨rfl, rfl, hnone.1, hnone.2, by simp [hprops]⟩
  · rename_i p
    split
    · rename_i i hi
      obtain ⟨hle, hnot⟩ := hchild p rfl i (by rw [hi]; rfl)
      exact ⟨rfl, rfl, hle, hnot, by simp [hprops]⟩
    · rename_i i hi
      obtain ⟨hle, hnot⟩ := hchild p rfl i (by rw [hi]; rfl)
      exact ⟨rfl, rfl, hle, hnot, by simp [hprops]⟩
    · refine ⟨rfl, rfl, hnone.1, hnone.2, ?_⟩
      intro q hq
      rcases mem_putProperty hq with rfl | hq
      · exact hchild q rfl
      · rw [hprops] at hq
        cases hq

theorem fine_of_property? (h : Placed bar exempt t) (hp : p ∈ (t.get? id).bind fun w => w.property? name) :
    Fine bar t p := by
  obtain ⟨w, hw, hp⟩ := Option.bind_eq_some_iff.1 hp
  exact h.fine hw p (List.mem_of_find?_eq_some hp)

end Attribute

theorem Placed.add_loopNode (h : Placed bar exempt t) (hw : w = Attribute.loopNode l needs body tag) :
    Refits bar exempt t (t.add w).2 := by
  subst hw
  refine ⟨h.add (fun heq => absurd heq (show Directive.repeatName ≠ _ by decide)) ?_
    (fun hs => absurd hs h.not_spread_none) (List.forall_mem_singleton.2 (fine_of_single? rfl)), .add _⟩
  change (0 : Int) ≤ t.size
  lia

theorem directs_dresses (hrepeat : handler ≠ .repeat)
    (h : Upright bar exempt n t target.current) (hd : Directs target t handler target' t') :
    Dresses bar exempt n t t' target'.current := by
  cases hd with
  | amend ha => exact h.amends ha
  | around hw ha =>
    have hshell := h.shell hw hrepeat
    exact hshell.trans (hshell.toUpright.amends ha)
  | @between spec tag w outer t1 _ hw ha =>
    obtain ⟨hgen, hseq, hborn, hnot, hfine⟩ := Attribute.takeOver_placed
      (fun p hp => Attribute.fine_of_property? h.placed hp)
      (rfl : ({ type := spec.widget, isCustom := true, tag := tag } : Widget).wrapped = _) rfl h.placed
    rw [← hw] at hgen hseq hborn hnot hfine
    -- The wrapper is new and no sequence, so the child may be what it becomes.
    have hplain : w.generator ≠ Widget.reactiveGenerator := hgen ▸ nil_ne_reactive
    have hshell := h.placed.add (fun heq => absurd heq hplain) hborn (fun hs => absurd hs hnot) hfine
    have hnew := Upright.new hshell h.within h.bars hplain hseq
    have hrem : Dresses bar exempt n _ ((t.add w).2.modify target.inner fun w => w.remove childProperty) _ :=
      hnew.keeps (hnew.placed.change (fun w => ⟨rfl, rfl, rfl⟩)
        fun w hw p hp => hnew.placed.fine hw p ((dropProperty_sublist _ _).subset hp))
    have hfilled := hrem.trans (hrem.toUpright.amends ha)
    have hchild : Fine bar t1 (.ofWidget childProperty outer) := by
      rintro i ⟨⟩
      exact ⟨hfilled.current_le, hfilled.not_spread⟩
    exact h.keeps ⟨(hfilled.placed.set hchild).toPlaced,
      ((Frames.add w).append hfilled.frames).append (hfilled.placed.set hchild).frames⟩
  | disable hm =>
    obtain ⟨bs, hraises⟩ := hm.raises h.placed h.current_le
    have hvalued := h.raises hraises
    have hplaced := hvalued.placed
    refine hvalued.trans (hvalued.toUpright.keeps ⟨?_, ?_⟩)
    · exact ⟨hplaced.barred, hplaced.builder, hplaced.born, hplaced.wrapped, hplaced.fine⟩
    · exact ⟨Nat.le_refl _, fun _ hw => ⟨_, hw, rfl, rfl, rfl⟩⟩
  | childBuilder hm htake hw =>
    obtain ⟨bs, hraises⟩ := hm.raises h.placed h.current_le
    have hvalued := h.raises hraises
    have htaken := hvalued.trans (hvalued.toUpright.dropContent target.inner)
    rw [← htake] at htaken
    have hlooped := htaken.trans (htaken.toUpright.keeps (htaken.placed.add_loopNode hw))
    exact hlooped.trans (hlooped.toUpright.keeps (hlooped.placed.set (fine_of_single? rfl)))
  | @itemBuilder _ _ _ outer _ t2 hm hcount =>
    obtain ⟨bs, hraises⟩ := hm.raises h.placed h.current_le
    have hvalued := h.raises hraises
    have hcounted : Dresses bar exempt n t t2 outer := by
      rw [hcount]
      exact hvalued.trans (hvalued.toUpright.keeps (hvalued.placed.set (fine_of_single? rfl)))
    have htaken := hcounted.trans (hcounted.toUpright.dropContent target.inner)
    exact htaken.trans (htaken.toUpright.keeps (htaken.placed.set (fine_of_single? rfl)))

/-- A step that keeps what is there and leaves a tower, of which the builders are exempt. -/
def Erects (bar exempt : WidgetId → Prop) (n : Int) (t t' : Tree Deferral) (current' : WidgetId) : Prop :=
  ∃ s : Tower, s.top = current' ∧ s.Stands n t' ∧ Frames t.size t t' ∧
    Placed bar (fun u => exempt u ∨ u ∈ s.builders) t'

theorem Dresses.erects (h : Dresses bar exempt n t t' current') : Erects bar exempt n t t' current' := by
  obtain ⟨s, htop, hs, -⟩ := h.tower
  exact ⟨s, htop, hs, h.frames, h.placed.mono fun _ => .inl⟩

/-- A loop node around the target: the builders of its source stand on a sequence. -/
theorem repeat_raises (h : Upright bar exempt n t target.current) (hd : Directs target t .repeat target' t') :
    Erects bar exempt n t t' target'.current := by
  cases hd with
  | amend ha => exact (h.amends ha).erects
  | around hw ha =>
    cases hw with
    | «repeat» l tag =>
      obtain ⟨hplaced, hframes⟩ := h.placed.add_loopNode rfl
      have hn := h.within
      have hfresh : n < (t.add (Attribute.loopNode l [] [target.current] tag)).1 := by
        rw [Tree.add_fst]
        lia
      have hstands : Tower.Stands n (t.add (Attribute.loopNode l [] [target.current] tag)).2 ⟨_, [], _⟩ :=
        ⟨.nil, hfresh, _, Tree.get?_add_self _, show Directive.repeatName ≠ _ by decide⟩
      obtain ⟨bs, hraises⟩ := amends_raises hplaced ha hstands.top_fresh.2
      have hsize := hframes.size
      have htower := hstands.raise (by lia) hraises
      exact ⟨_, rfl, htower, hframes.append hraises.frames, hraises.placed.mono (by simp)⟩

end FlutterLayout.Layout
