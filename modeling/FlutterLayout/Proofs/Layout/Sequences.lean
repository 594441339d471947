import FlutterLayout.Proofs.Layout.ClaimOrder
import FlutterLayout.Proofs.Layout.Dressing
import FlutterLayout.Proofs.Markup.DistinctAttributes

/-!
# Sequences — resolving items leaves sequences in lists

* `resolveAttributes_tower` says what the attributes of an element leave: a tower, whose builders are exempt
  because it may stand on a loop node.
* `Leaves` is what an item leaves: builders around the current widget and one tower for each of its widgets.
* `Leaves.finish` joins it with hoisting: afterwards only the builders around the current widget are left.
* `Course.spreads` is the result for all items.
-/

namespace FlutterLayout.Layout

open List Directive
open Markup (Element)

variable {bar exempt : WidgetId → Prop} {n : Int} {t t' t'' : Tree Deferral} {w : Widget} {p : Property}
  {id current current' outer : WidgetId} {bs bs' ids : List WidgetId} {towers towers' : List Tower} {o : Options}
  {b b' : Build} {target target' : Target} {name value : Text} {e : Element} {r : Unit} {content : List Item}

/-! ## Attributes -/

def Claim.IsRepeat (c : Claim) : Prop :=
  ∃ r ∈ c.registration?, r.handler = .repeat

theorem resolveClaims_dresses (cs : List Claim) (hrepeat : ∀ c ∈ cs, ¬ c.IsRepeat)
    (h : Upright bar exempt n b.tree target.current)
    (hrun : (cs.foldlM (resolveClaim o e) target).run b = .ok (target', b')) :
    Dresses bar exempt n b.tree b'.tree target'.current := by
  refine resolveClaims_induct (P := fun target1 t1 => Dresses bar exempt n b.tree t1 target1.current) cs
    (fun c _ => ?_) (fun c hc => ?_) h.refl hrun
  · intro t1 t2 target1 outer hfirst hset
    exact hfirst.trans (hfirst.toUpright.amends hset)
  · intro t1 t2 target1 target2 r hr hfirst happly
    have hhandler : r.handler ≠ .repeat := fun heq => hrepeat c hc ⟨r, hr, heq⟩
    exact hfirst.trans (directs_dresses hhandler hfirst.toUpright happly)

theorem resolveClaim_tower (hrepeat : c.IsRepeat) (h : Upright bar exempt n b.tree target.current)
    (hrun : (resolveClaim o e target c).run b = .ok (target', b')) :
    Erects bar exempt n b.tree b'.tree target'.current := by
  obtain ⟨registration, hreg, hhandler⟩ := hrepeat
  rcases resolveClaim_cases hrun with ⟨hplain, -⟩ | ⟨r, outcome, b1, hr, happly, hleft⟩
  · have hres := hplain registration hreg
    rw [hhandler] at hres
    cases hres
  · rw [Option.mem_def.1 hreg] at hr
    cases hr
    rw [hhandler] at happly
    rcases hleft with ⟨rfl, rfl⟩ | ⟨hconsumed, -⟩
    · exact repeat_raises h (Attribute.apply_directs happly)
    · obtain ⟨id, b2, hadd, hmore⟩ := run_bind happly
      obtain ⟨⟨source, outer⟩, b3, hvalue, hmore⟩ := run_bind hmore
      obtain ⟨_, hnote, rfl⟩ := run_last hmore
      cases hconsumed

theorem name_of_isRepeat {c : Claim} (hc : c.IsStandard) (hrepeat : c.IsRepeat) :
    c.name = repeatName ∧ c.priority.toInt = 200000 := by
  obtain ⟨registration, hreg, hhandler⟩ := hrepeat
  have hmem := Registry.mem_of_get? (hc.symm.trans hreg)
  obtain ⟨-, hprio, hname⟩ := standard_priorities _ hmem
  refine ⟨hname hhandler, ?_⟩
  unfold Claim.priority
  rw [Option.mem_def.1 hreg]
  exact hprio.2 hhandler

theorem resolveAttributes_dresses (hhandlers : o.handlers = standard)
    (hnot : ∀ a ∈ e.attributes, a.1 ≠ repeatName) (h : Upright bar exempt n b.tree target.current)
    (hrun : (resolveAttributes o e (relevantAttributes e) target).run b = .ok (target', b')) :
    Dresses bar exempt n b.tree b'.tree target'.current := by
  refine resolveClaims_dresses _ (fun c hc hrepeat => ?_) h hrun
  obtain ⟨hown, hstd⟩ := of_mem_claims hc
  rw [hhandlers] at hstd
  exact hnot c.own (mem_of_mem_filter hown) (name_of_isRepeat hstd hrepeat).1

theorem resolveAttributes_tower (hhandlers : o.handlers = standard)
    (hdist : e.Distinct) (h : Upright bar exempt n b.tree target.current)
    (hrun : (resolveAttributes o e (relevantAttributes e) target).run b = .ok (target', b')) :
    Erects bar exempt n b.tree b'.tree target'.current := by
  have hstd : ∀ {c : Claim}, c ∈ claims o.handlers (relevantAttributes e) → c.IsStandard := by
    intro c hc
    exact (of_mem_claims hc).2.trans (by rw [hhandlers])
  have hrelevant : ((relevantAttributes e).map Prod.fst).Nodup := .sublist (filter_sublist.map _) hdist
  by_cases hrepeat : ∃ c ∈ claims o.handlers (relevantAttributes e), c.IsRepeat
  · obtain ⟨c, hc, hrepeat⟩ := hrepeat
    obtain ⟨front, back, hclaims⟩ := append_of_mem hc
    -- The claim is the last one, so it is also the only one of its kind.
    have hlast : ∀ {front back : List Claim} {c : Claim},
        claims o.handlers (relevantAttributes e) = front ++ c :: back → c.IsRepeat → back = [] := by
      intro front back c hclaims hrepeat
      have hc := hstd (c := c) (by simp [hclaims])
      rw [hhandlers] at hclaims
      exact eq_nil_of_repeat hrelevant hclaims (name_of_isRepeat hc hrepeat).2
    have hback := hlast hclaims hrepeat
    have hfront : ∀ d ∈ front, ¬ d.IsRepeat := by
      intro d hd hrepeat'
      obtain ⟨f1, f2, rfl⟩ := append_of_mem hd
      have hnil := hlast (by rw [hclaims, append_assoc, cons_append]) hrepeat'
      simp at hnil
    unfold resolveAttributes at hrun
    rw [hclaims, hback, foldlM_append] at hrun
    obtain ⟨target1, b1, hfirst, hrest⟩ := run_bind hrun
    obtain ⟨target2, hclaim, rfl⟩ := run_last hrest
    have hdressed := resolveClaims_dresses front hfront h hfirst
    obtain ⟨s, htop, hs, hframes, hplaced⟩ := resolveClaim_tower hrepeat hdressed.toUpright hclaim
    exact ⟨s, htop, hs, hdressed.frames.append hframes, hplaced⟩
  · exact (resolveClaims_dresses _ (fun c hc hc' => hrepeat ⟨c, hc, hc'⟩) h hrun).erects

/-! ## Text and content -/

theorem inlineText_raises (hrun : (inlineText o e target).run b = .ok ((texts, target'), b'))
    (h : Placed bar exempt b.tree) (hcur : target.current ≤ b.tree.size) :
    ∃ bs, Raises bar exempt bs b.tree target.current b'.tree target'.current ∧
      ∀ i ∈ texts, (b.tree.size : Int) < i ∧ i ≤ b'.tree.size := by
  rcases inlineText_cases hrun with ⟨rfl, rfl, rfl⟩ | ⟨value, b1, -, hvalue, hplace⟩
  · exact ⟨[], .of_frames (.refl _) h, by simp⟩
  · obtain ⟨bs, hraises⟩ := (textValue_mounts hvalue).2.raises h hcur
    rcases hplace with ⟨type, property, rfl, -, -, hput⟩ | ⟨id, rfl, hadd⟩
    · obtain ⟨hplaced, hframes⟩ := put_placed hput hraises.placed (fine_of_single? rfl)
      exact ⟨bs, hraises.then_frames hframes hplaced, by simp⟩
    · obtain ⟨rfl, htree⟩ := run_add hadd
      have hnew := hraises.placed.add (w := { type := "Text", tag := e.name, properties := [.ofExpression [] value] })
        (fun heq => absurd heq nil_ne_reactive) (by change (0 : Int) ≤ b1.tree.size; lia)
        (fun hs => absurd hs hraises.placed.not_spread_none) (forall_mem_singleton.2 (fine_of_single? rfl))
      refine ⟨bs, ?_, ?_⟩
      · rw [htree]
        exact hraises.then_frames (.add _) hnew
      · have hsize := hraises.frames.size
        rw [forall_mem_singleton, htree, Tree.add_fst, Tree.size_add]
        lia

/-- Widgets that were made for the content become the content: one that is spread goes into a list. -/
theorem setContent_placed (hrun : (setContent o e id ids).run b = .ok (r, b')) (h : Placed bar exempt b.tree)
    (hbars : ∀ x, bar x → x ≤ n) (hids : ∀ i ∈ ids, n < i ∧ i ≤ b.tree.size) :
    Refits bar exempt b.tree b'.tree := by
  rcases setContent_cases hrun with rfl | hput | ⟨child, rfl, hone, hput⟩
  · exact ⟨h, .refl _⟩
  · exact put_placed hput h (fine_of_single? rfl)
  · refine put_placed hput h fun i hi => ?_
    cases hi
    obtain ⟨hfresh, hle⟩ := hids child mem_cons_self
    refine ⟨hle, ?_⟩
    rintro (hbar | hseq)
    · exact Int.not_lt.2 (hbars _ hbar) hfresh
    · cases hone.symm.trans hseq

theorem joinProperty_placed (hrun : (Build.change id (joinProperty p)).run b = .ok (r, b'))
    (h : Placed bar exempt b.tree) (hp : Fine bar b.tree p) :
    Refits bar exempt b.tree b'.tree := by
  have hjoin : ∀ w, ∃ q, joinProperty p w = w.set q ∧ (q = p ∨ q.value.single? = none) := by
    intro w
    rcases joinProperty_cases p w with hset | ⟨q, -, hset⟩
    · exact ⟨p, hset, .inl rfl⟩
    · exact ⟨_, hset, .inr rfl⟩
  refine change_placed hrun h (fun w => ?_) fun w hw q hq => ?_
  · obtain ⟨q, hset, -⟩ := hjoin w
    rw [hset]
    exact ⟨rfl, rfl, rfl⟩
  · obtain ⟨q', hset, hq'⟩ := hjoin w
    rw [hset] at hq
    rcases mem_putProperty hq with rfl | hq
    · rcases hq' with rfl | hq'
      · exact hp
      · exact fine_of_single? hq'
    · exact h.fine hw q hq

theorem fragmentProperty_fine (hrun : (fragmentProperty name target).run b = .ok (p, b'))
    (h : Upright bar exempt n b.tree target.current) : b' = b ∧ Fine bar b.tree p := by
  obtain ⟨rfl, rfl | ⟨w, q, hw, -, hq, rfl⟩⟩ := fragmentProperty_cases hrun
  · refine ⟨rfl, fun i hi => ?_⟩
    cases hi
    exact ⟨h.current_le, h.not_spread⟩
  · exact ⟨rfl, h.placed.fine hw q (mem_of_content? hq)⟩

/-! ## Callbacks -/

theorem setCallback_placed {head : CallbackHead} (hrun : (Build.change id (setCallback head body)).run b = .ok (r, b'))
    (h : Placed bar exempt b.tree) : Refits bar exempt b.tree b'.tree := by
  have hset : ∀ w, (setCallback head body w).generator = w.generator ∧ (setCallback head body w).wrapped = w.wrapped ∧
      (setCallback head body w).isSequence = w.isSequence ∧
      ∀ p ∈ (setCallback head body w).properties, p ∈ w.properties ∨ p.value.single? = none := by
    intro w
    have hlast : ∀ v : Widget, ∀ p ∈ (v.set (head.callback body)).properties,
        p ∈ v.properties ∨ p.value.single? = none := by
      intro v p hp
      rcases mem_putProperty hp with rfl | hp
      · exact .inr rfl
      · exact .inl hp
    rcases setCallback_cases head body w with hset | ⟨count, hset⟩ <;> rw [hset]
    · exact ⟨rfl, rfl, rfl, hlast w⟩
    · refine ⟨rfl, rfl, rfl, fun p hp => ?_⟩
      rcases hlast _ p hp with hp | hp
      · rcases mem_putProperty hp with rfl | hp
        · exact .inr rfl
        · exact .inl hp
      · exact .inr hp
  refine change_placed hrun h (fun w => ⟨(hset w).1, (hset w).2.1, (hset w).2.2.1⟩) fun w hw p hp => ?_
  rcases (hset w).2.2.2 p hp with hp | hp
  · exact h.fine hw p hp
  · exact fine_of_single? hp

/-! ## What items leave -/

/-- What items leave: builders around the current widget, and towers apart from them. -/
structure Leaves (bar exempt : WidgetId → Prop) (bs : List WidgetId) (towers : List Tower) (t : Tree Deferral)
    (current : WidgetId) (t' : Tree Deferral) (current' : WidgetId) : Prop where
  frames : Frames t.size t t'
  pile : Pile t.size t' bs current' current
  stands : ∀ s ∈ towers, s.Stands t.size t'
  apart : (bs :: towers.map Tower.builders).Pairwise List.Disjoint
  placed : Placed bar (fun u => exempt u ∨ u ∈ bs ∨ ∃ s ∈ towers, u ∈ s.builders) t'

theorem Raises.leaves (h : Raises bar exempt bs t current t' current') :
    Leaves bar exempt bs [] t current t' current' :=
  ⟨h.frames, h.pile, by simp, pairwise_singleton _ _, h.placed.mono (by simp)⟩

theorem leaves_tower (hframes : Frames t.size t t') (hs : s.Stands t.size t')
    (h : Placed bar (fun u => exempt u ∨ u ∈ s.builders) t') : Leaves bar exempt [] [s] t current t' current where
  frames := hframes
  pile := .nil
  stands := forall_mem_singleton.2 hs
  apart := by simp [List.Disjoint]
  placed := h.mono (by simp)

theorem Leaves.current_le (h : Leaves bar exempt bs towers t current t' current') (hcur : current ≤ t.size) :
    current' ≤ t'.size := by
  refine h.pile.stacked.top_le ?_
  have hsize := h.frames.size
  lia

/-- Two steps: what the second one leaves is newer than everything the first one leaves. -/
theorem Leaves.trans (h : Leaves bar exempt bs towers t current t' middle)
    (h' : Leaves bar (fun u => exempt u ∨ u ∈ bs ∨ ∃ s ∈ towers, u ∈ s.builders) bs' towers' t' middle t'' current') :
    Leaves bar exempt (bs' ++ bs) (towers ++ towers') t current t'' current' where
  frames := h.frames.append h'.frames
  pile := h'.pile.append (h.pile.frame h'.frames) (Int.ofNat_le.2 h.frames.size) h.pile.stacked.le_size
  stands s hs := by
    rcases mem_append.1 hs with hs | hs
    · exact (h.stands s hs).frame h'.frames
    · have hstands := h'.stands s hs
      have hsize : (t.size : Int) ≤ t'.size := Int.ofNat_le.2 h.frames.size
      exact ⟨hstands.pile.mono hsize, Int.lt_of_le_of_lt hsize hstands.fresh, hstands.solid⟩
  apart := by
    have hold : ∀ l ∈ bs :: towers.map Tower.builders, ∀ x ∈ l, x ≤ t'.size := by
      intro l hl x hx
      rcases mem_cons.1 hl with rfl | hl
      · exact h.pile.stacked.le_size x hx
      · obtain ⟨s, hs, rfl⟩ := mem_map.1 hl
        exact (h.stands s hs).pile.stacked.le_size x hx
    have hnew : ∀ l ∈ bs' :: towers'.map Tower.builders, ∀ x ∈ l, (t'.size : Int) < x := by
      intro l hl x hx
      rcases mem_cons.1 hl with rfl | hl
      · exact h'.pile.fresh x hx
      · obtain ⟨s, hs, rfl⟩ := mem_map.1 hl
        exact (h'.stands s hs).pile.fresh x hx
    have hcross : ∀ l ∈ bs :: towers.map Tower.builders, ∀ l' ∈ bs' :: towers'.map Tower.builders, l.Disjoint l' :=
      fun l hl l' hl' x hx hx' => Int.not_lt.2 (hold l hl x hx) (hnew l' hl' x hx')
    obtain ⟨hbs, hpairs⟩ := pairwise_cons.1 h.apart
    obtain ⟨hbs', hpairs'⟩ := pairwise_cons.1 h'.apart
    rw [map_append]
    refine pairwise_cons.2 ⟨?_, pairwise_append.2 ⟨hpairs, hpairs', ?_⟩⟩
    · intro l hl x hx hx'
      rcases mem_append.1 hx with hx | hx <;> rcases mem_append.1 hl with hl | hl
      · exact hcross l (mem_cons_of_mem _ hl) bs' mem_cons_self hx' hx
      · exact hbs' l hl hx hx'
      · exact hbs l hl hx hx'
      · exact hcross bs mem_cons_self l (mem_cons_of_mem _ hl) hx hx'
    · exact fun l hl l' hl' => hcross l (mem_cons_of_mem _ hl) l' (mem_cons_of_mem _ hl')
  placed := h'.placed.mono fun u hu => by
    simp only [mem_append]
    grind

/-- Content is put in order: the towers are gone, and what is left is new. -/
theorem Leaves.finish {b0 : Build} (h : Leaves bar exempt bs towers b0.tree current b.tree target.current)
    (hplaced : Placed bar exempt b0.tree) (hcur : current ≤ b0.tree.size)
    (hfinish : (finishRun (towers.map Tower.top, target)).run b = .ok ((ids, target'), b')) :
    ∃ bs, Raises bar exempt bs b0.tree current b'.tree target'.current ∧
      ∀ i ∈ ids, (b0.tree.size : Int) < i ∧ i ≤ b'.tree.size := by
  obtain ⟨⟨more, outer⟩, hall, ⟨⟩⟩ := run_last hfinish
  have hbase : current ≤ b.tree.size := by
    have hsize := h.frames.size
    lia
  obtain ⟨bs', hpile, hplaced', hframes, hids⟩ := hoistAll_raises towers h.stands h.pile hbase h.apart
    (fun x hx => (hplaced.barred hx).2) h.placed hall
  exact ⟨bs', ⟨h.frames.trans hframes, hpile, hplaced'⟩, hids⟩

/-! ## Items and what is shown of them -/

/-- The elements of the widgets in an item satisfy the one condition, those of its properties the other. -/
inductive Item.All (W R : Element → Prop) : Item → Prop where
  | widget {comments : List Text} {e : Element} {content : List Item} (hown : W e)
      (hcontent : ∀ item ∈ content, Item.All W R item) : Item.All W R (.widget comments e content)
  | property {name : Text} {e : Element} {content : List Item} (hown : R e)
      (hcontent : ∀ item ∈ content, Item.All W R item) : Item.All W R (.property name e content)
  | callback {e : Element} {content : List Item} (hcontent : ∀ item ∈ content, Item.All W R item) :
      Item.All W R (.callback e content)
  | conditional {comments : List Text} {branches : List Branch}
      (hbranches : ∀ isFallback e content, Branch.mk isFallback e content ∈ branches →
        ∀ item ∈ content, Item.All W R item) : Item.All W R (.conditional comments branches)

def Unrepeated (e : Element) : Prop :=
  ∀ a ∈ e.attributes, a.1 ≠ repeatName

/-- What is shown of a stage.  Items leave builders around the current widget and a tower for each of their
widgets; of a content that is in order only the builders are left. -/
def Stage.Spreads : Stage → Build → Build → Prop
  | .item i target ids target', b, b' => i.All Element.Distinct Unrepeated → ∀ ⦃bar exempt : WidgetId → Prop⦄,
    Placed bar exempt b.tree → target.current ≤ b.tree.size → ∃ bs towers, ids = towers.map Tower.top ∧
      Leaves bar exempt bs towers b.tree target.current b'.tree target'.current
  | .items is target ids target', b, b' => (∀ i ∈ is, i.All Element.Distinct Unrepeated) →
    ∀ ⦃bar exempt : WidgetId → Prop⦄, Placed bar exempt b.tree → target.current ≤ b.tree.size →
      ∃ bs towers, ids = towers.map Tower.top ∧
        Leaves bar exempt bs towers b.tree target.current b'.tree target'.current
  | .content is target ids target', b, b' => (∀ i ∈ is, i.All Element.Distinct Unrepeated) →
    ∀ ⦃bar exempt : WidgetId → Prop⦄, Placed bar exempt b.tree → target.current ≤ b.tree.size →
      ∃ bs, Raises bar exempt bs b.tree target.current b'.tree target'.current ∧
        ∀ i ∈ ids, (b.tree.size : Int) < i ∧ i ≤ b'.tree.size
  | .property i target target', b, b' => i.All Element.Distinct Unrepeated → ∀ ⦃bar exempt : WidgetId → Prop⦄,
    Placed bar exempt b.tree → target.current ≤ b.tree.size →
      ∃ bs, Raises bar exempt bs b.tree target.current b'.tree target'.current
  | .properties is target target', b, b' => (∀ i ∈ is, i.All Element.Distinct Unrepeated) →
    ∀ ⦃bar exempt : WidgetId → Prop⦄, Placed bar exempt b.tree → target.current ≤ b.tree.size →
      ∃ bs, Raises bar exempt bs b.tree target.current b'.tree target'.current
  | .branches bs current ps _ current', b, b' =>
    (∀ isFallback e is, Branch.mk isFallback e is ∈ bs → ∀ i ∈ is, i.All Element.Distinct Unrepeated) →
      ∀ ⦃bar exempt : WidgetId → Prop⦄, Placed bar exempt b.tree → current ≤ b.tree.size →
        ∃ bs, Raises bar exempt bs b.tree current b'.tree current' ∧ ∀ p ∈ ps, p.value.single? = none

/-! ## Widgets and conditionals -/

theorem new_dresses (hadd : (Build.add w).run b = .ok (id, b')) (h : Placed bar exempt b.tree)
    (hgen : w.generator ≠ Widget.reactiveGenerator) (hseq : w.isSequence = false)
    (hwrap : w.wrapped = .none) (hprops : w.properties = []) :
    Dresses bar exempt b.tree.size b.tree b'.tree id := by
  obtain ⟨rfl, htree⟩ := run_add hadd
  rw [htree]
  have hplaced : Placed bar exempt (b.tree.add w).2 := by
    refine h.add (fun heq => absurd heq hgen) ?_ ?_ (by simp [hprops]) <;> rw [hwrap]
    · change (0 : Int) ≤ b.tree.size
      lia
    · exact fun hspread => absurd hspread h.not_spread_none
  exact ⟨.new hplaced (Int.le_refl _) (fun x hx => (h.barred hx).2) hgen hseq, .add w⟩

theorem inside_dresses (hitems : ∀ i ∈ content, i.All Element.Distinct Unrepeated)
    (h : Upright bar exempt n b.tree target.current)
    (hcontent : (Stage.content content target ids target1).Spreads b b1)
    (hprops : (Stage.properties content target1 target').Spreads b1 b') :
    Dresses bar exempt n b.tree b'.tree target'.current ∧ ∀ i ∈ ids, n < i ∧ i ≤ b'.tree.size := by
  obtain ⟨bs, hraises, hids⟩ := hcontent hitems h.placed h.current_le
  have hfirst := h.raises hraises
  obtain ⟨bs', hraises'⟩ := hprops hitems hfirst.placed hfirst.current_le
  refine ⟨hfirst.trans (hfirst.toUpright.raises hraises'), fun i hi => ?_⟩
  have hwithin := h.within
  have hsize := hraises'.frames.size
  have hi := hids i hi
  lia

theorem widget_tower (hhandlers : o.handlers = standard) (hdist : e.Distinct)
    (hitems : ∀ i ∈ content, i.All Element.Distinct Unrepeated)
    (hadd : (Build.add { type := e.name, tag := e.name }).run b = .ok (id, b1))
    (hcontent : (Stage.content content (.bare id) made target1).Spreads b1 b2)
    (hprops : (Stage.properties content target1 target2).Spreads b2 b3)
    (htext : (inlineText o e target2).run b3 = .ok ((texts, target3), b4))
    (hset : (setContent o e id (made ++ texts)).run b4 = .ok (r, b5))
    (hattrs : (resolveAttributes o e (relevantAttributes e) target3).run b5 = .ok (target', b6))
    (hcomment : (comment comments target'.current).run b6 = .ok (r, b')) (h : Placed bar exempt b.tree) :
    Erects bar exempt b.tree.size b.tree b'.tree target'.current := by
  have hnew := new_dresses hadd h nil_ne_reactive rfl rfl rfl
  obtain ⟨hinside, hmade⟩ := inside_dresses hitems hnew.toUpright hcontent hprops
  obtain ⟨bs, hraises, htexts⟩ := inlineText_raises htext hinside.placed hinside.current_le
  have htexted := hinside.toUpright.raises hraises
  have hids : ∀ i ∈ made ++ texts, (b.tree.size : Int) < i ∧ i ≤ b4.tree.size := by
    have hwithin := hinside.within
    have hsize := hraises.frames.size
    intro i hi
    rcases mem_append.1 hi with hi | hi
    · have hi := hmade i hi
      lia
    · have hi := htexts i hi
      lia
  have hset := htexted.toUpright.keeps (setContent_placed hset htexted.placed htexted.bars hids)
  obtain ⟨s, htop, hs, hframes, hplaced⟩ := resolveAttributes_tower hhandlers hdist hset.toUpright hattrs
  obtain ⟨hplaced', hframes'⟩ := touch_placed hcomment hplaced (fun _ => ⟨rfl, rfl, rfl⟩) fun _ => rfl
  have hall := hnew.trans (hinside.trans (htexted.trans hset))
  exact ⟨s, htop, hs.frame hframes', hall.frames.append (hframes.append hframes'), hplaced'⟩

/-- While the branches are resolved the node is barred, because builders may come to stand around it. -/
theorem conditional_leaves {comments : List Text} {branches : List Branch} {properties ps : List Property}
    {isSequence : Bool} {current1 current2 : WidgetId} {b1 b2 b3 b4 b5 : Build}
    (hadd : (Build.add { isCustom := true, tag := ifName, generator := conditionalName }).run b
      = .ok (id, b1)) (hbranch : ∀ ⦃bar exempt : WidgetId → Prop⦄, Placed bar exempt b1.tree → id ≤ b1.tree.size →
      ∃ bs, Raises bar exempt bs b1.tree id b2.tree current1 ∧ ∀ p ∈ properties, p.value.single? = none)
    (hflag : (Build.change id fun w => { w with isSequence := isSequence }).run b2 = .ok (r, b3))
    (hconds : (resolveConditions o isSequence id (branches.zip properties) current1).run b3
      = .ok ((ps, current2), b4)) (hput : (Build.change id fun w => { w with properties := ps }).run b4 = .ok (r, b5))
    (hcomment : (comment comments current2).run b5 = .ok (r, b')) (h : Placed bar exempt b.tree) :
    ∃ bs towers, [current2] = towers.map Tower.top ∧ Leaves bar exempt bs towers b.tree current b'.tree current := by
  obtain ⟨hid, htree1⟩ := run_add hadd
  have hflag := run_change hflag
  have hgen : conditionalName ≠ Widget.reactiveGenerator := by decide
  have hbarred : Placed (fun x => bar x ∨ x = id) exempt b1.tree := by
    rw [htree1, hid]
    exact h.enter hgen rfl rfl
  have hsize1 : (b.tree.size : Int) < id ∧ id ≤ b1.tree.size := by
    rw [htree1, hid, Tree.add_fst, Tree.size_add]
    lia
  obtain ⟨bs, hraises, hprops⟩ := hbranch hbarred hsize1.2
  have hwithin : (b.tree.size : Int) ≤ b1.tree.size := Int.le_of_lt (Int.lt_of_lt_of_le hsize1.1 hsize1.2)
  have hnode : Solid b2.tree id := by
    have hw := Tree.get?_add_self (t := b.tree)
      { isCustom := true, tag := ifName, generator := conditionalName }
    rw [← htree1, ← hid] at hw
    obtain ⟨w, hw', hgen', -⟩ := hraises.frames.old hsize1.2 hw
    exact ⟨w, hw', hgen' ▸ hgen⟩
  have hplaced3 : Placed bar (fun u => exempt u ∨ u ∈ bs) b3.tree := by
    rw [hflag]
    refine hraises.placed.leave (.inr rfl) (fun _ => .inl) fun w hw => ?_
    obtain ⟨w', hw', hgen'⟩ := hnode
    rw [hw] at hw'
    cases hw'
    exact hgen'
  have hstands : Tower.Stands b.tree.size b3.tree ⟨current1, bs, id⟩ := by
    obtain ⟨w, hw, hgen'⟩ := hnode
    rw [hflag]
    refine ⟨⟨hraises.pile.stacked.of_get? fun x hx => ?_, hraises.pile.nodup, fun x hx => ?_⟩, hsize1.1,
      ⟨_, Tree.get?_modify_of_get? hw, hgen'⟩⟩
    · refine Tree.get?_modify_of_ne _ ?_
      rintro rfl
      exact Solid.not_mem ⟨w, hw, hgen'⟩ hraises.pile.stacked hx
    · exact Int.lt_of_le_of_lt hwithin (hraises.pile.fresh x hx)
  have hframes3 : Frames b.tree.size b.tree b3.tree := by
    have hnew : Frames b.tree.size b.tree b1.tree := htree1 ▸ .add _
    refine (hnew.trans (hraises.frames.mono hwithin)).trans ?_
    rw [hflag]
    exact .modify_newer hsize1.1
  obtain ⟨-, hvalues, ss, hmounts, -⟩ := resolveConditions_mounts _ hconds
  have hps : ∀ p ∈ ps, p.value.single? = none := by
    intro p hp
    obtain ⟨q, hq, hvalue⟩ := mem_map.1 (hvalues ▸ mem_map_of_mem hp)
    exact hvalue ▸ hprops q.2 (of_mem_zip hq).2
  obtain ⟨bs', hraises'⟩ := hmounts.raises hplaced3 hstands.top_fresh.2
  obtain ⟨hplaced5, hframes5⟩ := change_placed hput hraises'.placed (fun w => ⟨rfl, rfl, rfl⟩)
    fun _ _ p hp => fine_of_single? (hps p hp)
  obtain ⟨hplaced6, hframes6⟩ := touch_placed hcomment hplaced5 (fun _ => ⟨rfl, rfl, rfl⟩) fun _ => rfl
  have hraised := hstands.raise (Int.ofNat_le.2 hframes3.size) hraises'
  refine ⟨[], [⟨current2, bs' ++ bs, id⟩], rfl, leaves_tower ?_ ((hraised.frame hframes5).frame hframes6) ?_⟩
  · exact hframes3.append (hraises'.frames.append (hframes5.append hframes6))
  · refine hplaced6.mono fun u hu => ?_
    simp only [mem_append]
    tauto

/-! ## The whole tree of items -/

theorem Course.spreads {stage : Stage} (hhandlers : o.handlers = standard) (hcourse : Course o stage b b') :
    stage.Spreads b b' := by
  induction hcourse with
  | widget hadd _ _ htext hset hattrs hcomment ihcontent ihproperties =>
    rintro (⟨hown, hitems⟩ | _) bar exempt hplaced -
    obtain ⟨s, htop, hs, hframes, hplaced'⟩ := widget_tower hhandlers hown hitems hadd ihcontent ihproperties htext
      hset hattrs hcomment hplaced
    exact ⟨[], [s], by rw [← htop]; rfl, leaves_tower hframes hs hplaced'⟩
  | beside | nil => exact fun _ _ _ hplaced _ => ⟨[], [], rfl, (Raises.of_frames (.refl _) hplaced).leaves⟩
  | callback hhead _ hset ihcontent =>
    rintro (_ | _ | hitems) bar exempt hplaced hcur
    obtain ⟨bs1, hfirst⟩ := (callbackHead_mounts hhead).2.raises hplaced hcur
    obtain ⟨bs2, hsecond, -⟩ := ihcontent hitems hfirst.placed (hfirst.current_le hcur)
    have hboth := hfirst.trans hsecond
    obtain ⟨hplaced', hframes⟩ := setCallback_placed hset hboth.placed
    exact ⟨_, [], rfl, (hboth.then_frames hframes hplaced').leaves⟩
  | conditional hadd _ hseq hconds hset hcomment ihbranches =>
    rintro (_ | _ | _ | hbranch) bar exempt hplaced -
    exact conditional_leaves hadd (ihbranches hbranch) hseq hconds hset hcomment hplaced
  | cons _ _ ihitem ihitems =>
    intro hitems bar exempt hplaced hcur
    rw [forall_mem_cons] at hitems
    obtain ⟨bs1, towers1, rfl, hleaves1⟩ := ihitem hitems.1 hplaced hcur
    obtain ⟨bs2, towers2, rfl, hleaves2⟩ := ihitems hitems.2 hleaves1.placed (hleaves1.current_le hcur)
    exact ⟨_, _, by rw [map_append], hleaves1.trans hleaves2⟩
  | content _ hfinish ihitems =>
    intro hitems bar exempt hplaced hcur
    obtain ⟨bs, towers, rfl, hleaves⟩ := ihitems hitems hplaced hcur
    exact hleaves.finish hplaced hcur hfinish
  | pass | noProperties => exact fun _ _ _ hplaced _ => ⟨[], .of_frames (.refl _) hplaced⟩
  | text hvalue hjoin =>
    intro _ bar exempt hplaced hcur
    obtain ⟨bs, hraises⟩ := (textValue_mounts hvalue).2.raises hplaced hcur
    obtain ⟨hplaced', hframes⟩ := joinProperty_placed hjoin hraises.placed (fine_of_single? rfl)
    exact ⟨bs, hraises.then_frames hframes hplaced'⟩
  | fragment hadd _ _ hset hattrs hfrag hjoin ihcontent ihproperties =>
    rintro (_ | ⟨hown, hitems⟩) bar exempt hplaced -
    have hnew := new_dresses hadd hplaced nil_ne_reactive rfl rfl rfl
    obtain ⟨hinside, hmade⟩ := inside_dresses hitems hnew.toUpright ihcontent ihproperties
    have hset := hinside.toUpright.keeps (setContent_placed hset hinside.placed hinside.bars hmade)
    have hdressed := resolveAttributes_dresses hhandlers hown hset.toUpright hattrs
    obtain ⟨rfl, hp⟩ := fragmentProperty_fine hfrag hdressed.toUpright
    have hjoined := hdressed.toUpright.keeps (joinProperty_placed hjoin hdressed.placed hp)
    have hall := hnew.trans (hinside.trans (hset.trans (hdressed.trans hjoined)))
    exact ⟨[], .of_frames hall.frames hall.placed⟩
  | moreProperties _ _ ihitem ihitems =>
    intro hitems bar exempt hplaced hcur
    rw [forall_mem_cons] at hitems
    obtain ⟨bs1, hraises1⟩ := ihitem hitems.1 hplaced hcur
    obtain ⟨bs2, hraises2⟩ := ihitems hitems.2 hraises1.placed (hraises1.current_le hcur)
    exact ⟨_, hraises1.trans hraises2⟩
  | noBranches => exact fun _ _ _ hplaced _ => ⟨[], .of_frames (.refl _) hplaced, nofun⟩
  | moreBranches _ _ ihcontent ihbranches =>
    intro hbranch bar exempt hplaced hcur
    obtain ⟨bs1, hfirst, -⟩ := ihcontent (hbranch _ _ _ mem_cons_self) hplaced hcur
    obtain ⟨bs2, hlast, hprops⟩ := ihbranches (fun _ _ _ hmem => hbranch _ _ _ (mem_cons_of_mem _ hmem))
      hfirst.placed (hfirst.current_le hcur)
    refine ⟨_, hfirst.trans hlast, forall_mem_cons.2 ⟨?_, hprops⟩⟩
    rw [branchProperty_value]
    rfl

end FlutterLayout.Layout
