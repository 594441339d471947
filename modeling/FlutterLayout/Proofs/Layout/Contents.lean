import FlutterLayout.Proofs.Layout.Enclosure
import FlutterLayout.Proofs.Layout.Items

/-!
# Contents — resolving items keeps parts enclosed

The steps that turn items into widgets keep a part enclosed as the directives do.  Builders that are moved
off a sequence are the one case in which a widget below another one is changed: where the sequence is
outside of the part its builders are as well (`hoist_keeps`), and where it is not, the part is enclosed
without the builders that leave it (`hoist_opens`).
-/

namespace FlutterLayout.Layout

open List PropertyValue
open Relation (ReflTransGen TransGen)

variable {names comments : List Text} {part : WidgetId → Prop} {t t' : Tree Deferral} {x id outer id' outer' : WidgetId}
  {w : Widget} {target target' : Target} {o : Options} {b b' b₁ b₂ : Build} {ids ids' : List WidgetId}
  {e : Markup.Element} {name : Text} {item : Item} {content : List Item} {branches : List Branch}

/-! ## Stacks of builders -/

def Wraps (t : Tree Deferral) (u v : WidgetId) : Prop :=
  ∃ w, t.get? u = some w ∧ w.generator = Widget.reactiveGenerator ∧ w.wrapped = v

/-- `x` is one of the builders that are stacked on a sequence, from `id` down. -/
def OnSequence (t : Tree Deferral) (id x : WidgetId) : Prop :=
  ∃ s, t.isSequence s = true ∧ ReflTransGen (Wraps t) id x ∧ TransGen (Wraps t) x s

theorem peelWithin_wraps (fuel : Nat) {builders : List WidgetId} {inner : WidgetId}
    (hpeel : peelWithin t fuel id = (builders, inner)) : ReflTransGen (Wraps t) id inner ∧
      ∀ x ∈ builders, ReflTransGen (Wraps t) id x ∧ TransGen (Wraps t) x inner := by
  induction fuel generalizing id builders with
  | zero =>
    cases hpeel
    exact ⟨.refl, nofun⟩
  | succ fuel ih =>
    unfold peelWithin at hpeel
    split at hpeel
    · rename_i w hw
      split at hpeel
      · rename_i hgen
        cases hrest : peelWithin t fuel w.wrapped with
        | mk rest below =>
          rw [hrest] at hpeel
          cases hpeel
          obtain ⟨hinner, hbuilders⟩ := ih hrest
          have hwraps : Wraps t id w.wrapped := ⟨w, hw, hgen, rfl⟩
          refine ⟨.head hwraps hinner, ?_⟩
          intro x hx
          rcases mem_cons.1 hx with rfl | hx
          · exact ⟨.refl, .head' hwraps hinner⟩
          · exact ⟨.head hwraps (hbuilders x hx).1, (hbuilders x hx).2⟩
      · cases hpeel
        exact ⟨.refl, nofun⟩
    · cases hpeel
      exact ⟨.refl, nofun⟩

/-- Builders around what is outside of a part lead to nothing inside of it. -/
theorem Encloses.not_barred_of_wraps (h : Encloses names part t) (hid : ¬ Barred part t id)
    (hx : ReflTransGen (Wraps t) id x) : ¬ Barred part t x := by
  induction hx with
  | refl => exact hid
  | tail _ hwraps ih =>
    obtain ⟨w, hw, hgen, rfl⟩ := hwraps
    exact h.wrapped (fun hpart => ih (.inl hpart)) hw hgen

/-- Only the builders changed, each of which wraps `outer` or another one now. -/
structure Restacks (builders : List WidgetId) (outer : WidgetId) (t t' : Tree Deferral) : Prop where
  size : t'.size = t.size
  others : ∀ {x : WidgetId}, x ∉ builders → t'.get? x = t.get? x
  wraps : ∀ {x : WidgetId} {w : Widget}, x ∈ builders → t.get? x = some w →
    ∃ v, t'.get? x = some { w with wrapped := v } ∧ (v = outer ∨ v ∈ builders)

theorem restack_restacks (builders : List WidgetId) (hrun : (restack builders outer).run b = .ok (r, b')) :
    Restacks builders outer b.tree b'.tree ∧ (r = outer ∨ r ∈ builders) := by
  induction builders generalizing b outer with
  | nil =>
    obtain ⟨rfl, rfl⟩ := run_pure hrun
    exact ⟨⟨rfl, fun _ => rfl, fun hx => absurd hx not_mem_nil⟩, .inl rfl⟩
  | cons y builders ih =>
    obtain ⟨_, b₁, hchange, hrest⟩ := run_bind hrun
    have htree := run_change hchange
    obtain ⟨hrestacks, hr⟩ := ih hrest
    refine ⟨⟨?_, ?_, ?_⟩, .inr ?_⟩
    · rw [hrestacks.size, htree, Tree.size_modify]
    · intro x hx
      rw [hrestacks.others fun hmem => hx (mem_cons_of_mem _ hmem), htree]
      exact Tree.get?_modify_of_ne _ fun heq => hx (heq ▸ mem_cons_self)
    · intro x w hx hw
      -- A builder that is told twice what to wrap keeps what it was told last.
      have hfirst : ∃ v, b₁.tree.get? x = some { w with wrapped := v } ∧ (x = y → v = outer) := by
        rw [htree]
        by_cases heq : x = y
        · subst heq
          exact ⟨outer, Tree.get?_modify_of_get? hw, fun _ => rfl⟩
        · exact ⟨w.wrapped, by rw [Tree.get?_modify_of_ne _ heq, hw], fun h => absurd h heq⟩
      obtain ⟨v, hv, houter⟩ := hfirst
      by_cases hmem : x ∈ builders
      · obtain ⟨v', hv', hin⟩ := hrestacks.wraps hmem hv
        refine ⟨v', hv', .inr ?_⟩
        rcases hin with rfl | hin
        · exact mem_cons_self
        · exact mem_cons_of_mem _ hin
      · have heq : x = y := (mem_cons.1 hx).resolve_right hmem
        refine ⟨v, ?_, .inl (houter heq)⟩
        rw [hrestacks.others hmem, hv]
    · rcases hr with rfl | hr
      · exact mem_cons_self
      · exact mem_cons_of_mem _ hr

theorem Restacks.keeps {builders : List WidgetId} (hr : Restacks builders outer t t')
    (h : Encloses names part t) (hbuilders : ∀ x ∈ builders, ∃ v, Wraps t x v)
    (houter : ¬ Barred part t outer) (hsub : ∀ x, part' x → part x)
    (hrest : ∀ x, part x → x ∈ builders ∨ part' x) (hout : ∀ x ∈ builders, ¬ part' x) : Keeps names part' t t' := by
  have hsize : t'.size = t.size := hr.size
  have hbar : ∀ c, Barred part' t' c → Barred part t c := by
    rintro c (hc | hc)
    · exact .inl (hsub c hc)
    · exact .inr (hsize ▸ hc)
  have hmoved : ∀ x ∈ builders, ∃ w v, t.get? x = some w ∧ t'.get? x = some { w with wrapped := v } ∧
      w.generator = Widget.reactiveGenerator ∧ ¬ Barred part' t' v := by
    intro x hx
    obtain ⟨_, w, hw, hgen, -⟩ := hbuilders x hx
    obtain ⟨v, hv, hin⟩ := hr.wraps hx hw
    refine ⟨w, v, hw, hv, hgen, ?_⟩
    rcases hin with rfl | hin
    · exact fun hc => houter (hbar _ hc)
    · obtain ⟨_, u, hu, -⟩ := hbuilders v hin
      rintro (hc | hc)
      · exact hout v hin hc
      · have hle := Tree.le_size_of_get? hu
        lia
  refine ⟨⟨?_, ?_, ?_⟩, Nat.le_of_eq hsize.symm, ?_, ?_⟩
  · intro x w' hx hw'
    by_cases hmem : x ∈ builders
    · obtain ⟨w, v, hw, hv, hgen, hbarred⟩ := hmoved x hmem
      rw [hv] at hw'
      cases hw'
      refine .inr ⟨hbarred, ?_⟩
      change ∀ p ∈ w.properties, _
      rw [h.builder hw hgen]
      simp
    · rw [hr.others hmem] at hw'
      have hnot : ¬ part x := fun hpart => (hrest x hpart).elim hmem hx
      exact (h.admits hnot hw').mono hbar (.refl _)
  · intro x hx
    rw [hsize]
    exact h.born (hsub x hx)
  · intro x w' hw' hgen
    by_cases hmem : x ∈ builders
    · obtain ⟨w, v, hw, hv, hgen', -⟩ := hmoved x hmem
      rw [hv] at hw'
      cases hw'
      change w.properties = []
      exact h.builder hw hgen'
    · rw [hr.others hmem] at hw'
      exact h.builder hw' hgen
  · exact fun {x} hx => hr.others fun hmem => hout x hmem hx
  · intro x w hw
    by_cases hmem : x ∈ builders
    · obtain ⟨v, hv, -⟩ := hr.wraps hmem hw
      exact ⟨_, hv, rfl, rfl⟩
    · rw [← hr.others hmem] at hw
      exact ⟨w, hw, rfl, rfl⟩

/-! ## Hoisting -/

theorem run_hoist (hrun : (hoist id outer).run b = .ok ((id', outer'), b')) : (id' = id ∧ outer' = outer ∧ b' = b) ∨
      ∃ builders, (∀ x ∈ builders, OnSequence b.tree id x) ∧ Restacks builders outer b.tree b'.tree ∧
        (outer' = outer ∨ outer' ∈ builders) ∧ ReflTransGen (Wraps b.tree) id id' := by
  rcases hoist_cases hrun with ⟨hseq, hid', hstack⟩ | ⟨-, hsame⟩
  · have hpeel : peelWithin b.tree b.tree.size id = ((peel b.tree id).1, (peel b.tree id).2) := rfl
    obtain ⟨hinner, hbuilders⟩ := peelWithin_wraps b.tree.size hpeel
    obtain ⟨hrestacks, hr⟩ := restack_restacks _ hstack
    refine .inr ⟨_, fun x hx => ⟨id', hseq, ?_⟩, hrestacks, hr, hid' ▸ hinner⟩
    exact hid' ▸ hbuilders x (mem_reverse.1 hx)
  · exact .inl hsame

theorem OnSequence.wraps (h : OnSequence t id x) : ∃ v, Wraps t x v := by
  obtain ⟨s, -, -, hx⟩ := h
  obtain ⟨v, hv, -⟩ := TransGen.head'_iff.1 hx
  exact ⟨v, hv⟩

theorem hoistAll_append (front back : List WidgetId) (outer : WidgetId) :
    hoistAll (front ++ back) outer = (do
      let (front, outer) ← hoistAll front outer
      let (back, outer) ← hoistAll back outer
      pure (front ++ back, outer)) := by
  induction front generalizing outer with
  | nil =>
    simp only [nil_append, hoistAll, pure_bind]
    exact (bind_pure _).symm
  | cons id front ih =>
    simp only [cons_append, hoistAll, ih, bind_assoc, pure_bind]

section

variable (h : Encloses names part b.tree)
include h

theorem hoist_keeps (hid : ¬ Barred part b.tree id)
    (houter : ¬ Barred part b.tree outer) (hrun : (hoist id outer).run b = .ok ((id', outer'), b')) :
    Keeps names part b.tree b'.tree ∧ ¬ Barred part b'.tree id' ∧ ¬ Barred part b'.tree outer' := by
  rcases run_hoist hrun with ⟨rfl, rfl, rfl⟩ | ⟨builders, hbuilders, hrestacks, houter', hinner⟩
  · exact ⟨.refl h, hid, houter⟩
  · have houtside : ∀ x ∈ builders, ¬ Barred part b.tree x := by
      intro x hx
      obtain ⟨s, -, hx, -⟩ := hbuilders x hx
      exact h.not_barred_of_wraps hid hx
    have hkeeps : Keeps names part b.tree b'.tree := by
      refine hrestacks.keeps h (fun x hx => (hbuilders x hx).wraps) houter (fun _ hx => hx)
        (fun _ hx => .inr hx) ?_
      exact fun x hx hpart => houtside x hx (.inl hpart)
    refine ⟨hkeeps, hkeeps.not_barred (h.not_barred_of_wraps hid hinner), hkeeps.not_barred ?_⟩
    rcases houter' with rfl | hmem
    · exact houter
    · exact houtside outer' hmem

/-- A part that holds the sequence itself is left by the builders that move, and by nothing else. -/
theorem hoist_opens (houter : ¬ Barred part b.tree outer) (hrun : (hoist id outer).run b = .ok ((id', outer'), b')) :
    ∃ part', Keeps names part' b.tree b'.tree ∧ (∀ x, part' x → part x) ∧
      (∀ x, part x → OnSequence b.tree id x ∨ part' x) ∧ ¬ Barred part' b'.tree outer' := by
  rcases run_hoist hrun with ⟨rfl, rfl, rfl⟩ | ⟨builders, hbuilders, hrestacks, houter', -⟩
  · exact ⟨part, .refl h, fun _ hx => hx, fun _ hx => .inr hx, houter⟩
  · have hrest : ∀ x, part x → x ∈ builders ∨ (part x ∧ x ∉ builders) := by
      intro x hx
      by_cases hmem : x ∈ builders
      · exact .inl hmem
      · exact .inr ⟨hx, hmem⟩
    have hkeeps : Keeps names (fun x => part x ∧ x ∉ builders) b.tree b'.tree :=
      hrestacks.keeps h (fun x hx => (hbuilders x hx).wraps) houter (fun _ hx => hx.1) hrest
        fun x hx hpart => hpart.2 hx
    refine ⟨_, hkeeps, fun _ hx => hx.1, fun x hx => (hrest x hx).imp_left (hbuilders x), hkeeps.not_barred ?_⟩
    rcases houter' with rfl | hmem
    · rintro (hpart | hsize)
      · exact houter (.inl hpart.1)
      · exact houter (.inr hsize)
    · obtain ⟨_, w, hw, -⟩ := (hbuilders outer' hmem).wraps
      exact Encloses.not_barred_of_get? (fun hpart => hpart.2 hmem) hw

theorem hoistAll_keeps (hids : ∀ i ∈ ids, ¬ Barred part b.tree i)
    (houter : ¬ Barred part b.tree outer) (hrun : (hoistAll ids outer).run b = .ok ((ids', outer'), b')) :
    Keeps names part b.tree b'.tree ∧ (∀ i ∈ ids', ¬ Barred part b'.tree i) ∧ ¬ Barred part b'.tree outer' := by
  induction ids generalizing b outer ids' with
  | nil =>
    obtain ⟨⟨⟩, rfl⟩ := run_pure hrun
    exact ⟨.refl h, nofun, houter⟩
  | cons id ids ih =>
    obtain ⟨⟨id1, outer1⟩, b₁, hone, hrest⟩ := run_bind hrun
    obtain ⟨⟨more, outer2⟩, hmore, ⟨⟩⟩ := run_last hrest
    obtain ⟨hfirst, hid1, houter1⟩ := hoist_keeps h (hids id mem_cons_self) houter hone
    obtain ⟨hlast, hmore, houter2⟩ := ih hfirst.toEncloses
      (fun i hi => hfirst.not_barred (hids i (mem_cons_of_mem _ hi))) houter1 hmore
    refine ⟨hfirst.trans hlast, ?_, houter2⟩
    exact forall_mem_cons.2 ⟨hlast.not_barred hid1, hmore⟩

variable (ha : Aside part b.tree target)
include ha

theorem finishRun_works (hids : ∀ i ∈ ids, ¬ Barred part b.tree i)
    (hrun : (finishRun (ids, target)).run b = .ok ((ids', target'), b')) :
    Works names part b.tree target b'.tree target' ∧ ∀ i ∈ ids', ¬ Barred part b'.tree i := by
  obtain ⟨⟨more, outer⟩, hall, ⟨⟩⟩ := run_last hrun
  obtain ⟨hkeeps, hmore, houter⟩ := hoistAll_keeps h hids ha.current hall
  exact ⟨hkeeps.onto ha houter, hmore⟩

theorem finishRun_opens (hfront : ∀ i ∈ front, ¬ Barred part b.tree i) (hback : ∀ i ∈ back, ¬ Barred part b.tree i)
    (hrun : (finishRun (front ++ id :: back, target)).run b = .ok ((ids', target'), b')) :
    ∃ part' t1, Keeps names part b.tree t1 ∧ Works names part' t1 target b'.tree target' ∧ (∀ x, part' x → part x) ∧
      ∀ x, part x → OnSequence t1 id x ∨ part' x := by
  obtain ⟨⟨more, outer⟩, hall, ⟨⟩⟩ := run_last hrun
  rw [hoistAll_append] at hall
  obtain ⟨⟨front', outer1⟩, b₁, hfirst, hall⟩ := run_bind hall
  obtain ⟨⟨back', outer2⟩, hlast, ⟨⟩⟩ := run_last hall
  obtain ⟨⟨id', outer3⟩, b3, hone, hlast⟩ := run_bind hlast
  obtain ⟨⟨back'', outer4⟩, hmore, ⟨⟩⟩ := run_last hlast
  obtain ⟨hkeeps, -, houter1⟩ := hoistAll_keeps h hfront ha.current hfirst
  obtain ⟨part', hopened, hsub, hleft, houter3⟩ := hoist_opens hkeeps.toEncloses houter1 hone
  have hsmaller : ∀ {x : WidgetId}, ¬ Barred part b₁.tree x → ¬ Barred part' b₁.tree x := by
    rintro x hx (hpart | hsize)
    · exact hx (.inl (hsub x hpart))
    · exact hx (.inr hsize)
  obtain ⟨hrest, -, houter4⟩ := hoistAll_keeps hopened.toEncloses
    (fun i hi => hopened.not_barred (hsmaller (hkeeps.not_barred (hback i hi)))) houter3 hmore
  have haside : Aside part' b₁.tree target :=
    ⟨hsmaller (hkeeps.aside ha).current, hsmaller (hkeeps.aside ha).inner, (hkeeps.aside ha).plain⟩
  exact ⟨part', b₁.tree, hkeeps, (hopened.trans hrest).onto haside houter4, hsub, hleft⟩

/-! ## Text -/

theorem inlineText_works (hrun : (inlineText o e target).run b = .ok ((texts, target'), b')) :
    Works names part b.tree target b'.tree target' ∧ ∀ i ∈ texts, ¬ Barred part b'.tree i := by
  rcases inlineText_cases hrun with ⟨rfl, rfl, rfl⟩ | ⟨value, b₁, -, hvalue, hplace⟩
  · exact ⟨.refl h ha, nofun⟩
  · obtain ⟨htarget, hmounts⟩ := textValue_mounts hvalue
    have hfirst := hmounts.works h ha
    rw [← htarget] at hfirst
    rcases hplace with ⟨type, property, rfl, -, -, hput⟩ | ⟨id, rfl, hadd⟩
    · exact ⟨hfirst.trans (putText_works hfirst.toEncloses hfirst.aside hput rfl), nofun⟩
    · have hadmits : ∀ p ∈ [Property.ofExpression [] value],
          p.value.Admits (Barred part b₁.tree) names := by
        exact forall_mem_singleton.2 (admits_text _)
      obtain ⟨hkeeps, hid⟩ := add_keeps hfirst.toEncloses hadd (.inr ⟨hfirst.not_barred_none, hadmits⟩) nofun
      refine ⟨hfirst.trans (hkeeps.here hfirst.aside), ?_⟩
      intro i hi
      rwa [mem_singleton.1 hi]

/-! ## Content and properties -/

theorem setContent_works (hids : ∀ i ∈ ids, ¬ Barred part b.tree i)
    (hrun : (setContent o e target.inner ids).run b = .ok (r, b')) :
    Works names part b.tree target b'.tree target := by
  rcases setContent_cases hrun with rfl | hput | ⟨child, rfl, -, hput⟩
  · exact .refl h ha
  · exact put_works h ha hput (admits_widgets hids)
  · exact put_works h ha hput (admits_widget (hids _ mem_cons_self))

theorem comment_works (hrun : (comment comments target.current).run b = .ok (r, b')) :
    Works names part b.tree target b'.tree target := by
  have hkeeps := touch_keeps h (fun hpart => ha.current (.inl hpart)) hrun
    fun _ => ⟨rfl, rfl, rfl, rfl, rfl, rfl⟩
  exact hkeeps.here ha

theorem joinProperty_works (hrun : (Build.change target.inner (joinProperty p)).run b = .ok (r, b'))
    (hp : p.value.Admits (Barred part b.tree) names) : Works names part b.tree target b'.tree target := by
  have hjoin : joinProperty p = fun w => { w with properties := (joinProperty p w).properties } := by
    funext w
    rcases joinProperty_cases p w with hset | ⟨q, -, hset⟩ <;> rw [hset] <;> rfl
  rw [run_change hrun, hjoin]
  refine works_properties h ha ?_
  intro w _ hprops q hq
  rcases joinProperty_cases p w with hset | ⟨q', hq', hset⟩ <;> rw [hset] at hq
  · rcases mem_putProperty hq with rfl | hmem
    · exact hp
    · exact hprops q hmem
  · rcases mem_putProperty hq with rfl | hmem
    · refine admits_widgets ?_
      intro c hc
      rcases mem_append.1 hc with hc | hc
      · exact not_barred_widgetsOf h.not_barred_none (hprops q' (mem_of_find?_eq_some hq')) hc
      · exact not_barred_widgetsOf h.not_barred_none hp hc
    · exact hprops q hmem

theorem fragmentProperty_admits (hrun : (fragmentProperty name target).run b = .ok (p, b')) :
    b' = b ∧ p.value.Admits (Barred part b.tree) names := by
  obtain ⟨rfl, rfl | ⟨w, q, hw, -, hq, rfl⟩⟩ := fragmentProperty_cases hrun
  · exact ⟨rfl, admits_fragment ha.current⟩
  · exact ⟨rfl, (ha.admits h hw).2 q (mem_of_content? hq)⟩

/-! ## Callbacks -/

/-- A callback may hold what the part holds where it binds one of the names. -/
theorem setCallback_works {head : CallbackHead}
    (hrun : (Build.change target.inner (setCallback head body)).run b = .ok (r, b'))
    (hbody : (∃ y ∈ names, y ∈ head.literal.binds) ∨ ∀ c ∈ body, ¬ Barred part b.tree c) :
    Works names part b.tree target b'.tree target := by
  have hcall : (function (some { head.literal with body := body })).Admits
      (Barred part b.tree) names :=
    hbody.imp (fun hbinds => ⟨_, rfl, hbinds⟩) fun hbody => hbody
  have hset : setCallback head body = fun w => { w with properties := (setCallback head body w).properties } := by
    funext w
    rcases setCallback_cases head body w with hset | ⟨count, hset⟩ <;> rw [hset] <;> rfl
  rw [run_change hrun, hset]
  refine works_properties h ha ?_
  intro w _ hprops q hq
  rcases setCallback_cases head body w with hset | ⟨count, hset⟩ <;> rw [hset] at hq <;>
    rcases mem_putProperty hq with rfl | hq
  · exact hcall
  · exact hprops q hq
  · exact hcall
  · rcases mem_putProperty hq with rfl | hq
    · exact admits_text _
    · exact hprops q hq

/-! ## What follows the content -/

theorem widget_rest (hmade : ∀ i ∈ made, ¬ Barred part b.tree i)
    (htext : (inlineText o e target).run b = .ok ((texts, target1), b₁))
    (hcontent : (setContent o e target.inner (made ++ texts)).run b₁ = .ok (r, b₂))
    (hattrs : (resolveAttributes o e (relevantAttributes e) target1).run b₂ = .ok (target2, b3))
    (hcomment : (comment comments target2.current).run b3 = .ok (r, b')) :
    Works names part b.tree target b'.tree target2 := by
  obtain ⟨hfirst, htexts⟩ := inlineText_works h ha htext
  have hids : ∀ i ∈ made ++ texts, ¬ Barred part b₁.tree i := by
    intro i hi
    rcases mem_append.1 hi with hi | hi
    · exact hfirst.toKeeps.not_barred (hmade i hi)
    · exact htexts i hi
  rw [← hfirst.inner] at hcontent
  have hsecond := setContent_works hfirst.toEncloses hfirst.aside hids hcontent
  have hthird := resolveClaims_works _ hsecond.toEncloses hsecond.aside hattrs
  exact ((hfirst.trans hsecond).trans hthird).trans (comment_works hthird.toEncloses hthird.aside hcomment)

theorem fragment_rest (hmade : ∀ i ∈ made, ¬ Barred part b.tree i)
    (hcontent : (setContent o e target.inner made).run b = .ok (r, b₁))
    (hattrs : (resolveAttributes o e (relevantAttributes e) target).run b₁ = .ok (target1, b₂))
    (hfrag : (fragmentProperty name target1).run b₂ = .ok (q, b')) :
    Keeps names part b.tree b'.tree ∧ q.value.Admits (Barred part b'.tree) names := by
  have hfirst := setContent_works h ha hmade hcontent
  have hsecond := resolveClaims_works _ hfirst.toEncloses hfirst.aside hattrs
  obtain ⟨rfl, hq⟩ := fragmentProperty_admits hsecond.toEncloses hsecond.aside hfrag
  exact ⟨(hfirst.trans hsecond).toKeeps, hq⟩

end

theorem conditional_rest (h : Encloses names part b.tree) (ha : Aside part b.tree (.bare id))
    (hcur : ¬ Barred part b.tree current1)
    (hprops : ∀ p ∈ properties, p.value.Admits (Barred part b.tree) names)
    (hseq : (Build.change id fun w => { w with isSequence := isSequence }).run b = .ok (r, b₁))
    (hconds : (resolveConditions o isSequence id (branches.zip properties) current1).run b₁ = .ok ((ps, current2), b₂))
    (hput : (Build.change id fun w => { w with properties := ps }).run b₂ = .ok (r, b3))
    (hcomment : (comment comments current2).run b3 = .ok (r, b')) :
    Keeps names part b.tree b'.tree ∧ ¬ Barred part b'.tree current2 := by
  have hpart : ¬ part id := fun hpart => ha.current (.inl hpart)
  have hfirst := touch_keeps h hpart hseq fun _ => ⟨rfl, rfl, rfl, rfl, rfl, rfl⟩
  obtain ⟨-, hvalues, ss, hmounts, -⟩ := resolveConditions_mounts _ hconds
  obtain ⟨hsecond, hcur2⟩ := hmounts.keeps hfirst.toEncloses (hfirst.not_barred hcur)
  have hboth := hfirst.trans hsecond
  have hadmits : ∀ p ∈ ps, p.value.Admits (Barred part b₂.tree) names := by
    intro p hp
    obtain ⟨q, hq, hvalue⟩ := mem_map.1 (hvalues ▸ mem_map_of_mem hp)
    rw [← hvalue]
    exact (hprops q.2 (of_mem_zip hq).2).mono (fun c hc => hc.mono hboth.size) (Subset.refl _)
  have hthird : Works names part b₂.tree (.bare id) b3.tree (.bare id) := by
    rw [run_change hput]
    exact works_properties (f := fun _ => ps) hboth.toEncloses (hboth.aside ha) fun _ _ _ => hadmits
  have hcur3 : ¬ Barred part b3.tree current2 := hthird.toKeeps.not_barred hcur2
  have hfourth := touch_keeps hthird.toEncloses (fun hpart => hcur3 (.inl hpart)) hcomment
    fun _ => ⟨rfl, rfl, rfl, rfl, rfl, rfl⟩
  exact ⟨(hboth.trans hthird.toKeeps).trans hfourth, hfourth.not_barred hcur3⟩

theorem branchProperty_value (branch : Branch) (ids : List WidgetId) :
    (branchProperty branch ids).value = .widgets ids := by
  unfold branchProperty
  split <;> rfl

/-! ## The whole tree of items -/

/-- What is shown of a stage: it works beside a part, and gives widgets outside of it.  An item that gives
widgets makes them by itself, whatever it stands in. -/
def Stage.Passes (names : List Text) (part : WidgetId → Prop) : Stage → Build → Build → Prop
  | .item _ target ids target', b, b' => Encloses names part b.tree →
    (Keeps names part b.tree b'.tree ∧ target' = target ∧ ∀ i ∈ ids, ¬ Barred part b'.tree i) ∨
      ids = [] ∧ (Aside part b.tree target → Works names part b.tree target b'.tree target')
  | .items _ target ids target', b, b' | .content _ target ids target', b, b' =>
    Encloses names part b.tree → Aside part b.tree target →
      Works names part b.tree target b'.tree target' ∧ ∀ i ∈ ids, ¬ Barred part b'.tree i
  | .property _ target target', b, b' | .properties _ target target', b, b' =>
    Encloses names part b.tree → Aside part b.tree target → Works names part b.tree target b'.tree target'
  | .branches _ current ps _ current', b, b' => Encloses names part b.tree → ¬ Barred part b.tree current →
    Keeps names part b.tree b'.tree ∧ ¬ Barred part b'.tree current' ∧
      ∀ p ∈ ps, p.value.Admits (Barred part b'.tree) names

theorem Stage.Passes.works (hitem : (Stage.item item target ids target').Passes names part b b')
    (h : Encloses names part b.tree) (ha : Aside part b.tree target) :
    Works names part b.tree target b'.tree target' ∧ ∀ i ∈ ids, ¬ Barred part b'.tree i := by
  rcases hitem h with ⟨hkeeps, rfl, hids⟩ | ⟨rfl, hworks⟩
  · exact ⟨hkeeps.here ha, hids⟩
  · exact ⟨hworks ha, nofun⟩

theorem Aside.detach {current : WidgetId} (h : Encloses names part t) (hcur : ¬ Barred part t current) :
    Aside part t ⟨.none, current⟩ :=
  ⟨hcur, h.not_barred_none, nofun⟩

theorem Course.passes (hcourse : Course o stage b b') : stage.Passes names part b b' := by
  induction hcourse with
  | widget hadd _ _ htext hset hattrs hcomment ihcontent ihproperties =>
    intro h
    obtain ⟨hnew, haside⟩ := add_aside h hadd (.inr ⟨h.not_barred_none, nofun⟩) rfl nofun
    obtain ⟨hfirst, hmade⟩ := ihcontent hnew.toEncloses haside
    have hsecond := ihproperties hfirst.toEncloses hfirst.aside
    have hinner := hsecond.inner.trans hfirst.inner
    have hthird := widget_rest hsecond.toEncloses hsecond.aside
      (fun i hi => hsecond.toKeeps.not_barred (hmade i hi)) htext (by rw [hinner]; exact hset) hattrs hcomment
    refine .inl ⟨hnew.trans ((hfirst.trans hsecond).trans hthird).toKeeps, rfl, ?_⟩
    exact forall_mem_singleton.2 hthird.aside.current
  | beside => exact fun h => .inr ⟨rfl, .refl h⟩
  | callback hhead _ hset ihcontent =>
    refine fun h => .inr ⟨rfl, fun ha => ?_⟩
    have hfirst := (callbackHead_mounts hhead).2.works h ha
    obtain ⟨hsecond, hbody⟩ := ihcontent hfirst.toEncloses (.detach hfirst.toEncloses hfirst.aside.current)
    have hbefore := hfirst.toKeeps.trans hsecond.toKeeps
    have hthird := setCallback_works hbefore.toEncloses (hbefore.aside ha) hset (.inr hbody)
    exact (hbefore.trans hthird.toKeeps).onto ha (hthird.toKeeps.not_barred hsecond.aside.current)
  | conditional hadd _ hseq hconds hset hcomment ihbranches =>
    intro h
    obtain ⟨hnew, haside⟩ := add_aside h hadd (.inr ⟨h.not_barred_none, nofun⟩) rfl (by decide)
    obtain ⟨hfirst, hcur1, hprops⟩ := ihbranches hnew.toEncloses haside.current
    obtain ⟨hsecond, hcur2⟩ := conditional_rest hfirst.toEncloses (hfirst.aside haside) hcur1 hprops
      hseq hconds hset hcomment
    refine .inl ⟨(hnew.trans hfirst).trans hsecond, rfl, ?_⟩
    intro i hi
    rwa [mem_singleton.1 hi]
  | nil => exact fun h ha => ⟨.refl h ha, nofun⟩
  | cons _ _ ihitem ihitems =>
    intro h ha
    obtain ⟨hworks1, hids1⟩ := ihitem.works h ha
    obtain ⟨hworks2, hids2⟩ := ihitems hworks1.toEncloses hworks1.aside
    refine ⟨hworks1.trans hworks2, ?_⟩
    intro i hi
    rcases mem_append.1 hi with hi | hi
    · exact hworks2.toKeeps.not_barred (hids1 i hi)
    · exact hids2 i hi
  | content _ hfinish ihitems =>
    intro h ha
    obtain ⟨hworks, hmade⟩ := ihitems h ha
    obtain ⟨hlast, hids⟩ := finishRun_works hworks.toEncloses hworks.aside hmade hfinish
    exact ⟨hworks.trans hlast, hids⟩
  | pass | noProperties => exact fun h ha => .refl h ha
  | text hvalue hjoin =>
    intro h ha
    obtain ⟨htarget, hmounts⟩ := textValue_mounts hvalue
    have hfirst := hmounts.works h ha
    rw [← htarget] at hfirst
    exact hfirst.trans (joinProperty_works hfirst.toEncloses hfirst.aside hjoin (admits_text _))
  | fragment hadd _ _ hset hattrs hfrag hjoin ihcontent ihproperties =>
    intro h ha
    obtain ⟨hnew, haside⟩ := add_aside h hadd (.inr ⟨h.not_barred_none, nofun⟩) rfl nofun
    obtain ⟨hfirst, hmade⟩ := ihcontent hnew.toEncloses haside
    have hsecond := ihproperties hfirst.toEncloses hfirst.aside
    have hinner := hsecond.inner.trans hfirst.inner
    obtain ⟨hthird, hq⟩ := fragment_rest hsecond.toEncloses hsecond.aside
      (fun i hi => hsecond.toKeeps.not_barred (hmade i hi)) (by rw [hinner]; exact hset) hattrs hfrag
    have hbefore := (hnew.trans (hfirst.trans hsecond).toKeeps).trans hthird
    exact (hbefore.here ha).trans (joinProperty_works hbefore.toEncloses (hbefore.aside ha) hjoin hq)
  | moreProperties _ _ ihitem ihitems =>
    intro h ha
    have hworks := ihitem h ha
    exact hworks.trans (ihitems hworks.toEncloses hworks.aside)
  | noBranches => exact fun h hcur => ⟨.refl h, hcur, nofun⟩
  | moreBranches _ _ ihcontent ihbranches =>
    intro h hcur
    obtain ⟨hfirst, hmade⟩ := ihcontent h (.detach h hcur)
    obtain ⟨hlast, hcur2, hprops⟩ := ihbranches hfirst.toEncloses hfirst.aside.current
    refine ⟨hfirst.toKeeps.trans hlast, hcur2, ?_⟩
    intro p hp
    rcases mem_cons.1 hp with rfl | hp
    · rw [branchProperty_value]
      exact admits_widgets fun c hc => hlast.not_barred (hmade c hc)
    · exact hprops p hp

theorem Course.keeps (hcourse : Course o (.item item target (id :: ids) target') b b')
    (h : Encloses names part b.tree) :
    Keeps names part b.tree b'.tree ∧ target' = target ∧ ∀ i ∈ id :: ids, ¬ Barred part b'.tree i := by
  rcases hcourse.passes h with hkeeps | ⟨hnil, -⟩
  · exact hkeeps
  · cases hnil

end FlutterLayout.Layout
