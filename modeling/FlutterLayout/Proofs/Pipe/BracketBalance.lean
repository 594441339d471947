import FlutterLayout.Proofs.Pipe.Hygiene
import FlutterLayout.Proofs.Pipe.Stems

/-!
# BracketBalance — what is read from a balanced expression is balanced

A balanced expression is cut at depth zero only: its outline is balanced text with holes for the groups (`Lies`), and
so is every part of it between commas, pipes or colons (`Lies.cut`).  With balanced values in the holes, everything
that is put together from the parts is balanced (`isBalanced_of_direct`).

That is so once binding braces are gone.  Two bindings in a row start and end with braces too, but what is left
without these is not balanced (`exists_unbalanced`).
-/

namespace FlutterLayout.Pipe

open List Text Lexical Expression
open Text (Cut Segment Encodes)

variable {t u x provider : Text} {o p : Outline} {b quote : UInt8} {vs : List Text}

/-! ## Balanced texts -/

/-- A row of bars is a row of ordinary bytes when no byte is excluded. -/
theorem Nests.induct {P : (t : Text) → Nests [] [] t → Prop} (nil : P [] .nil)
    (byte : ∀ {b t} (hb : isOrdinary b = true) (ht : Nests [] [] t), P t ht → P (b :: t) (.byte hb not_mem_nil ht))
    (literal : ∀ {quote body t} (hquote : isQuote quote = true) (hbody : LiteralBody quote body) (ht : Nests [] [] t),
      P t ht → P (quote :: (body ++ quote :: t)) (.literal hquote hbody ht))
    (bracket : ∀ {left right body t} (hpair : (left, right) ∈ brackets) (hbody : Nests [] [] body) (ht : Nests [] [] t),
      P body hbody → P t ht → P (left :: (body ++ right :: t)) (.bracket hpair hbody ht))
    (h : Nests [] [] t) : P t h := by
  suffices hall : ∀ {outside t}, Nests [] outside t → outside = [] → ∀ h, P t h from hall h rfl h
  intro outside t h
  induction h with
  | nil => exact fun _ _ => nil
  | byte hb _ ht ih =>
    rintro rfl h
    exact byte hb ht (ih rfl ht)
  | bars ht ih =>
    rename_i n t
    rintro rfl h
    have hrow : ∀ k, ∃ h, P (replicate k bar ++ t) h := by
      intro k
      induction k with
      | zero => exact ⟨ht, ih rfl ht⟩
      | succ k ihk =>
        obtain ⟨hk, hP⟩ := ihk
        exact ⟨_, byte (by decide) hk hP⟩
    obtain ⟨_, hP⟩ := hrow (n + 2)
    exact hP
  | literal hquote hbody ht ih =>
    rintro rfl h
    exact literal hquote hbody ht (ih rfl ht)
  | bracket hpair hbody ht ihbody ih =>
    rintro rfl h
    exact bracket hpair hbody ht (ihbody rfl hbody) (ih rfl ht)

theorem foldl_step_literalBody (hquote : isQuote quote = true) (h : LiteralBody quote t) (d : Nat) :
    (t ++ [quote]).foldl step (.literal quote d) = .code d := by
  have hslash : quote ≠ backslash := by
    rintro rfl
    exact absurd hquote (by decide)
  induction h with
  | nil => simp [step, hslash]
  | byte hne hslash _ ih => simpa [step, hne, hslash] using ih
  | escape _ ih => simpa [step] using ih

/-- A balanced text leaves the reader where it was. -/
theorem Nests.foldl_step (h : Nests [] [] t) (d : Nat) : t.foldl step (.code d) = .code d := by
  have hends : ∀ p ∈ brackets, isQuote p.1 = false ∧ isClosing p.1 = false ∧ isOpening p.1 = true ∧
      isQuote p.2 = false ∧ isClosing p.2 = true := by decide
  induction h using Nests.induct generalizing d with
  | nil => rfl
  | byte hb _ ih =>
    obtain ⟨⟨hquote, hopening⟩, hclosing⟩ : (_ ∧ _) ∧ _ := by simpa [isOrdinary] using hb
    simpa [step, hquote, hopening, hclosing] using ih d
  | literal hquote hbody _ ih =>
    rw [foldl_cons, step, if_pos hquote, append_cons, foldl_append, foldl_step_literalBody hquote hbody]
    exact ih d
  | bracket hpair _ _ ihbody ih =>
    obtain ⟨hquote, hclosing, hopening, hquote', hclosing'⟩ := hends _ hpair
    simp [step, hquote, hclosing, hopening, ihbody, hquote', hclosing', ih]

theorem LiteralBody.append (ht : LiteralBody quote t) (hu : LiteralBody quote u) : LiteralBody quote (t ++ u) := by
  induction ht with
  | nil => exact hu
  | byte hquote hescape _ ih => exact .byte hquote hescape ih
  | escape _ ih => exact .escape ih

/-- The bytes of a rune that needs no escape. -/
theorem literalBody_of_encodes (he : Encodes r a more) (hquote : r ≠ doubleQuote.toNat) (hslash : r ≠ backslash.toNat) :
    LiteralBody doubleQuote (a :: more) := by
  have hhigh : ∀ {b : UInt8}, 0x80 ≤ b → b ≠ doubleQuote ∧ b ≠ backslash := by
    intro b hb
    constructor <;> · rintro rfl; exact absurd hb (by decide)
  refine .of_forall (forall_mem_cons.2 ⟨?_, fun b hb => ?_⟩)
  · by_cases ha : a < 0x80
    · obtain ⟨-, rfl⟩ := he.ascii ha
      exact ⟨fun h => hquote (congrArg _ h), fun h => hslash (congrArg _ h)⟩
    · exact hhigh (UInt8.not_lt.1 ha)
  · exact hhigh (isContinuation_eq_true_iff.1 (he.continues b hb)).1

theorem literalBody_quotedSegment (h : Cut t ss) (hs : s ∈ ss) : LiteralBody doubleQuote (quotedSegment s) := by
  have halnum : ∀ c, isAsciiAlnum c = true → c ≠ doubleQuote ∧ c ≠ backslash := by
    intro c hc
    constructor <;> · rintro rfl; exact absurd hc (by decide)
  rcases quotedSegment_cases h hs with ⟨r, a, more, rfl, he, hquote, hslash, hw⟩ | ⟨-, hw⟩ |
    ⟨b, u, hw, -, hu⟩ <;> rw [hw]
  · exact literalBody_of_encodes he hquote hslash
  · exact .escape .nil
  · exact .escape (.of_forall fun c hc => halnum c (hu c hc))

/-- Whatever stands between the quotes is a literal. -/
theorem nests_quoted (t : Text) : Nests [] [] (quoted t) := by
  have hbody : ∀ ss : List Segment, (∀ s ∈ ss, LiteralBody doubleQuote (quotedSegment s)) →
      LiteralBody doubleQuote (ss.flatMap quotedSegment) := by
    intro ss hss
    induction ss with
    | nil => exact .nil
    | cons s ss ih =>
      obtain ⟨hs, hss⟩ := forall_mem_cons.1 hss
      exact hs.append (ih hss)
  exact .literal (by decide) (hbody _ fun s hs => literalBody_quotedSegment (cut_segments t) hs) .nil

/-! ## Balanced outlines -/

/-- Balanced texts with holes between them. -/
inductive Lies : Outline → Prop where
  | solid {t : Text} (ht : Nests [] [] t) : Lies (plain t)
  | hole {t : Text} {i : Nat} {o : Outline} (ht : Nests [] [] t) (ho : Lies o) : Lies (plain t ++ .inr i :: o)

theorem Lies.text (hx : Nests [] [] x) (h : Lies o) : Lies (plain x ++ o) := by
  cases h with
  | solid ht =>
    rw [plain, plain, ← map_append]
    exact .solid (hx.append ht)
  | hole ht ho =>
    rw [← append_assoc, plain, plain, ← map_append]
    exact .hole (hx.append ht) ho

theorem Lies.raise (h : Lies o) : Lies (raise o) := by
  have hplain : ∀ t, Pipe.raise (plain t) = plain t := fun t => by simp [Pipe.raise, plain]
  induction h with
  | solid ht =>
    rw [hplain]
    exact .solid ht
  | hole ht _ ih =>
    have hraise : ∀ t i o, Pipe.raise (plain t ++ .inr i :: o) = plain t ++ .inr (i + 1) :: Pipe.raise o := by
      intro t i o
      simp [Pipe.raise, plain]
    rw [hraise]
    exact .hole ht ih

/-- With balanced texts in the holes all is balanced. -/
theorem Lies.fill (h : Lies o) (hf : ∀ i, Nests [] [] (f i)) : Nests [] [] (fill f o) := by
  induction h with
  | solid ht => rwa [fill_plain]
  | hole ht _ ih =>
    rw [fill_append, fill_plain, fill_hole]
    exact ht.append ((hf _).append ih)

/-- The groups of a balanced text, and what stands around them. -/
theorem Nests.groups (h : Nests [] [] t) :
    (∀ g ∈ (groups t).1, Nests [] [] g.before ∧ Nests [] [] g.inner) ∧ Nests [] [] (groups t).2 := by
  suffices hall : ∀ before previous, Nests [] [] before →
      (∀ g ∈ (groupsFrom before none (Pipe.marksFrom (.code 0) previous t)).1,
        Nests [] [] g.before ∧ Nests [] [] g.inner) ∧
        Nests [] [] (groupsFrom before none (Pipe.marksFrom (.code 0) previous t)).2 from hall [] none .nil
  induction h using Nests.induct_groups with
  | nil => exact fun before previous hbefore => ⟨forall_mem_nil _, hbefore.append .nil⟩
  | group hbody _ ih =>
    intro before previous hbefore
    obtain ⟨ms, hms, hspan, -⟩ := hbody.marksFrom 1 (some (Text.byte '(')) (Text.byte ')' :: _)
    rw [marksFrom_opening parentheses_mem, hms, marksFrom_closing parentheses_mem,
      groupsFrom_group before hspan.deep, hspan.bytes]
    obtain ⟨hgroups, htail⟩ := ih [] (some (Text.byte ')')) .nil
    exact ⟨forall_mem_cons.2 ⟨⟨hbefore, hbody⟩, hgroups⟩, htail⟩
  | skip hx _ hmarks ih =>
    intro before previous hbefore
    obtain ⟨ms, hms, hbytes, hskip⟩ := hmarks previous _
    rw [hms, groupsFrom_skip before hskip, hbytes]
    exact ih _ _ (hbefore.append hx)

theorem nests_parenthesised (h : Nests [] [] t) : Nests [] [] (parenthesised t) :=
  .bracket (by decide) h .nil

theorem lies_outline (h : Nests [] [] t) : Lies (outline t) := by
  obtain ⟨hgroups, htail⟩ := h.groups
  unfold outline
  generalize (groups t).1 = gs at hgroups
  induction gs with
  | nil => exact .solid htail
  | cons g gs ih =>
    obtain ⟨⟨hbefore, hinner⟩, hgroups⟩ := forall_mem_cons.1 hgroups
    rw [outlineGroups]
    split
    · exact .hole hbefore (ih hgroups).raise
    · exact .text (hbefore.append (nests_parenthesised hinner)) (ih hgroups)

/-! ## Cuts -/

section Cuts

variable {cutAt : Mark → Bool}

theorem forall_mem_modifyHead {ps : List Outline} {f : Outline → Outline} (h : ∀ p ∈ ps, Lies p)
    (hf : ∀ p, Lies p → Lies (f p)) : ∀ p ∈ ps.modifyHead f, Lies p := by
  cases ps with
  | nil => exact h
  | cons q ps =>
    obtain ⟨hq, hps⟩ := forall_mem_cons.1 h
    exact forall_mem_cons.2 ⟨hf q hq, hps⟩

variable (hcut : ∀ s previous b o, cutAt (markOf s previous b o) = true → s.depthOf? b = some 0 ∧ isOrdinary b = true)
include hcut

/-- Nothing is cut where no ordinary byte has depth zero. -/
theorem cut_skip (s : Lexical) (previous : Option UInt8)
    (hy : ∀ m ∈ marksFrom s previous t, m.depth? = some 0 → isOrdinary m.byte = false) (o : Outline) :
    cut cutAt s previous (plain t ++ o) =
      (cut cutAt (t.foldl step s) (lastByte previous t) o).modifyHead (plain t ++ ·) := by
  induction t generalizing s previous with
  | nil =>
    obtain ⟨q, ps, hq⟩ := exists_cut cutAt s previous o
    rw [foldl_nil, lastByte, plain, map_nil, nil_append, hq]
    rfl
  | cons b t ih =>
    obtain ⟨hb, hy⟩ := forall_mem_cons.1 hy
    have hnot : ¬ cutAt (markOf s previous b (plain t ++ o)) = true := by
      intro h
      obtain ⟨hdepth, hordinary⟩ := hcut _ _ _ _ h
      rw [hb hdepth] at hordinary
      cases hordinary
    change cut cutAt s previous (.inl b :: (plain t ++ o)) = _
    rw [cut, if_neg hnot, ih _ _ hy, modifyHead_modifyHead]
    rfl

theorem lies_cut_text (ht : Nests [] [] t) (ho : ∀ previous, ∀ p ∈ cut cutAt (.code 0) previous o, Lies p)
    (previous : Option UInt8) : ∀ p ∈ cut cutAt (.code 0) previous (plain t ++ o), Lies p := by
  -- A literal or a bracket is skipped as a whole and stays in front of the first part of what follows.
  have hskip : ∀ {x t : Text} {previous : Option UInt8}, Nests [] [] x →
      (∀ m ∈ marksFrom (.code 0) previous x, m.depth? = some 0 → isOrdinary m.byte = false) →
      (∀ previous, ∀ p ∈ cut cutAt (.code 0) previous (plain t ++ o), Lies p) →
      ∀ p ∈ cut cutAt (.code 0) previous (plain (x ++ t) ++ o), Lies p := by
    intro x t previous hx hmarks ih
    rw [plain, map_append, append_assoc]
    change ∀ p ∈ cut cutAt (.code 0) previous (plain x ++ (plain t ++ o)), Lies p
    rw [cut_skip hcut _ _ hmarks, hx.foldl_step]
    exact forall_mem_modifyHead (ih _) fun p hp => hp.text hx
  induction ht using Nests.induct generalizing previous with
  | nil => exact ho previous
  | byte hb _ ih =>
    change ∀ p ∈ cut cutAt (.code 0) previous (.inl _ :: (plain _ ++ o)), Lies p
    rw [cut]
    have hstep := (@Nests.byte [] [] _ [] hb not_mem_nil .nil).foldl_step 0
    rw [foldl_cons, foldl_nil] at hstep
    rw [hstep]
    split
    · exact forall_mem_cons.2 ⟨.solid .nil, ih _⟩
    · exact forall_mem_modifyHead (ih _) fun p hp => hp.text (x := [_]) (.byte hb (not_mem_nil) .nil)
  | @literal quote body t hquote hbody _ ih =>
    have hlit : Nests [] [] (quote :: (body ++ [quote])) := .literal hquote hbody .nil
    rw [append_cons, ← cons_append]
    refine hskip hlit (fun m hm hdepth => ?_) ih
    obtain ⟨ms, hms, -, hnone⟩ := marksFrom_quoted hquote hbody 0 previous []
    rw [hms, marksFrom, append_nil] at hm
    rw [(hnone m hm).1] at hdepth
    cases hdepth
  | @bracket left right body t hpair hbody _ _ ih =>
    have hends : ∀ p ∈ brackets, isOrdinary p.1 = false ∧ isOrdinary p.2 = false := by decide
    have hbracket : Nests [] [] (left :: (body ++ [right])) := .bracket hpair hbody .nil
    rw [append_cons, ← cons_append]
    refine hskip hbracket (fun m hm hdepth => ?_) ih
    obtain ⟨ms, hms, hspan, -⟩ := hbody.marksFrom 1 (some left) [right]
    rw [marksFrom_opening hpair, hms, marksFrom_closing hpair, marksFrom] at hm
    rcases mem_cons.1 hm with rfl | hm
    · exact (hends _ hpair).1
    · rcases mem_append.1 hm with hm | hm
      · exact absurd (hspan.depth m hm 0 hdepth) (by omega)
      · obtain rfl := mem_singleton.1 hm
        exact (hends _ hpair).2

theorem Lies.cut (h : Lies o) (previous : Option UInt8) : ∀ p ∈ cut cutAt (.code 0) previous o, Lies p := by
  induction h generalizing previous with
  | solid ht =>
    rw [← append_nil (plain _)]
    exact lies_cut_text hcut ht (fun _ => forall_mem_singleton.2 (.solid .nil)) previous
  | hole ht _ ih =>
    refine lies_cut_text hcut ht (fun _ => ?_) previous
    rw [Pipe.cut]
    exact forall_mem_modifyHead (ih none) fun p hp => .hole .nil hp

end Cuts

theorem Lies.cutTop (h : Lies o) (hc : isOrdinary c = true) (hp : p ∈ cutTop c o) : Lies p := by
  refine h.cut (fun s previous b o hmark => ?_) none p hp
  rw [Bool.and_eq_true, decide_eq_true_iff, decide_eq_true_iff] at hmark
  obtain ⟨hdepth, rfl⟩ := hmark
  exact ⟨hdepth, hc⟩

theorem Lies.cutPipes (h : Lies o) (hp : p ∈ cutPipes o) : Lies p := by
  refine h.cut (fun s previous b o hmark => ?_) none p hp
  simp only [markOf, Bool.and_eq_true, decide_eq_true_iff] at hmark
  obtain ⟨hdepth, ⟨⟨-, rfl⟩, -⟩, -⟩ := hmark
  exact ⟨of_decide_eq_true hdepth, by decide⟩

/-! ## Reading -/

/-- The texts of a subscription that stand in code are balanced. -/
def Subscription.IsBalanced (s : Subscription) : Prop :=
  Nests [] [] s.source ∧ Nests [] [] s.initial

/-- The value and the texts of all subscriptions are balanced. -/
structure Expression.IsBalanced (e : Expression) : Prop where
  value : Nests [] [] e.value
  subscriptions : ∀ s ∈ e.subscriptions, s.IsBalanced

theorem isBalanced_make (kind : Kind) (stem : Text) (h : Nests [] [] t) :
    (Subscription.make kind t stem).IsBalanced := by
  refine ⟨h, ?_⟩
  unfold Subscription.make
  dsimp only
  split
  · exact h.append (.of_bytes (by decide))
  · exact .nil

/-- A chain stays balanced from pipe to pipe. -/
theorem isBalanced_pass (hprov : Nests [] [] provider) {chain : Chain} {call : Call Text}
    (h : IsBalanced ⟨chain.value, chain.subscriptions⟩) (hargs : ∀ a ∈ call.arguments, Nests [] [] a) :
    IsBalanced ⟨(call.pass provider chain).value, (call.pass provider chain).subscriptions⟩ := by
  unfold Call.pass
  split
  · exact h
  · split
    · rename_i kind _
      exact ⟨.of_bytes fun b hb => ⟨(tame_valueName kind chain.value chain.stem b hb).1, not_mem_nil⟩,
        forall_mem_cons.2 ⟨isBalanced_make _ _ h.value, h.subscriptions⟩⟩
    · exact ⟨nests_transformCall hprov (.of_bytes (by decide)) (nests_quoted _) h.value hargs, h.subscriptions⟩

theorem isBalanced_flow (hprov : Nests [] [] provider) {w : Flow Text} (hatom : Nests [] [] w.atom)
    (hcalls : ∀ call ∈ w.calls, ∀ a ∈ call.arguments, Nests [] [] a) :
    IsBalanced ⟨(w.pass provider).value, (w.pass provider).subscriptions⟩ := by
  refine foldlRecOn (motive := fun chain => IsBalanced ⟨chain.value, chain.subscriptions⟩) w.calls
    (Call.pass provider) (b := ⟨w.atom, w.atom, []⟩) ⟨hatom, forall_mem_nil _⟩ ?_
  exact fun chain h call hcall => isBalanced_pass hprov h (hcalls call hcall)

theorem Lies.fill_parens (h : Lies o) (hvs : ∀ v ∈ vs, Nests [] [] v) : Nests [] [] (Pipe.fill (parens vs) o) := by
  refine h.fill fun i => nests_parenthesised ?_
  rw [getD_eq_getElem?_getD]
  cases hi : vs[i]? with
  | none => exact .nil
  | some v => exact hvs v (mem_of_getElem? hi)

theorem Lies.isBalanced_flowOf? {w : Flow Text} (h : Lies o) (hprov : Nests [] [] provider)
    (hvs : ∀ v ∈ vs, Nests [] [] v) (hflow : flowOf? (parens vs) o = some w) :
    IsBalanced ⟨(w.pass provider).value, (w.pass provider).subscriptions⟩ := by
  have hfill : ∀ {p : Outline}, Lies p → Nests [] [] (trim (Pipe.fill (parens vs) p)) := fun hp =>
    (hp.fill_parens hvs).of_strips (strips_trim _)
  obtain ⟨p, parts, hcut, hatom, hcalls⟩ := exists_of_flowOf? hflow
  have hparts : ∀ q ∈ p :: parts, Lies q := fun q hq => h.cutPipes (hcut ▸ hq)
  refine isBalanced_flow hprov (hatom ▸ hfill (hparts p mem_cons_self)) ?_
  refine forall_of_forall₂ hcalls fun part hpart call hcall => ?_
  obtain ⟨hcolon⟩ := hcall
  refine forall_mem_map.2 fun a ha => hfill ?_
  exact (hparts part (mem_cons_of_mem _ hpart)).cutTop (by decide) (hcolon ▸ mem_cons_of_mem _ ha)

theorem survives_nests (hprov : Nests [] [] provider) : Survives provider (Nests [] []) Subscription.IsBalanced where
  trimmed t ht := ht.of_strips (strips_trim t)
  whole _ _ ht hwhole := (ht.of_wholeGroup? (Option.filter_eq_some_iff.1 hwhole).1).2
  inner _ ht := forall_mem_map.2 fun g hg => (ht.groups.1 g (mem_of_mem_filter hg)).2
  part _ _ ht hvs _ hp := ((lies_outline ht).cutTop (by decide) hp).fill_parens hvs
  joined _ := nests_join
  flow _ _ _ ht hvs hflow := by
    have hchain := (lies_outline ht).isBalanced_flowOf? hprov hvs hflow
    exact ⟨hchain.value, hchain.subscriptions⟩

/-- What is read from a balanced expression is balanced. -/
theorem isBalanced_of_direct (hprov : Nests [] [] provider) (ht : Nests [] [] t)
    (h : direct provider fuel t = some e) : e.IsBalanced := by
  obtain ⟨hvalue, hsubs⟩ := survives_direct (survives_nests hprov) ht h
  exact ⟨hvalue, hsubs⟩

/-- What a hygienic attribute value is read as is balanced, if the value without its binding braces is. -/
theorem Expression.read_isBalanced {e : Expression} (hprovider : Hygienic provider ∧ Nests [] [] provider)
    (ht : Hygienic t) (hnests : Nests [] [] (stripBraces t)) (h : Expression.direct? provider t = some e) (n : Nat) :
    ((Expression.read provider t).run n).1.IsBalanced := by
  rw [Expression.read_eq_direct hprovider.1 ht h]
  exact isBalanced_of_direct hprovider.2 hnests h

theorem Expression.read_isBalanced_bracketed :
    let t : Text := "(a | stream) | f : [b]"
    (Hygienic t ∧ Nests [] [] (stripBraces t)) ∧
      ((Expression.read defaultProvider t).run 3).1.value =
        "_pipeProvider.transform(context, \"f\", (aValue), [[b]])" ∧
      ((Expression.read defaultProvider t).run 3).1.IsBalanced := by
  have hnests : Nests [] [] (stripBraces "(a | stream) | f : [b]") := by
    have hlist : Nests [] [] (Text.ofString " | f : " ++ Text.byte '[' :: (Text.ofString "b" ++ [Text.byte ']'])) :=
      .append (.of_bytes (by decide)) (.bracket (by decide) (.of_bytes (by decide)) .nil)
    exact @Nests.bracket [] [] 0x28 0x29 (Text.ofString "a | stream") _ (by decide) (.of_bytes (by decide)) hlist
  have hhygienic : Hygienic "(a | stream) | f : [b]" ∧ Hygienic defaultProvider := by decide
  exact ⟨⟨hhygienic.1, hnests⟩, by decide,
    Expression.read_isBalanced ⟨hhygienic.2, .of_bytes (by decide)⟩ hhygienic.1 hnests rfl 3⟩

/-- Braces at both ends that belong to two bindings. -/
theorem Expression.exists_unbalanced :
    Nests [] [] "\x7b\x7ba\x7d\x7d + \x7b\x7bb\x7d\x7d" ∧
      ¬ Nests [] [] ((Expression.read defaultProvider "\x7b\x7ba\x7d\x7d + \x7b\x7bb\x7d\x7d").run 0).1.value := by
  have hbinding : ∀ b : UInt8, isOrdinary b = true → Nests [] [] [0x7B, 0x7B, b, 0x7D, 0x7D] := fun b hb =>
    @Nests.bracket [] [] 0x7B 0x7D [0x7B, b, 0x7D] [] (by decide)
      (@Nests.bracket [] [] 0x7B 0x7D [b] [] (by decide) (.byte hb List.not_mem_nil .nil) .nil) .nil
  have hplus : Nests [] [] (Text.ofString " + ") := .of_bytes (by decide)
  refine ⟨(hbinding 0x61 (by decide)).append (hplus.append (hbinding 0x62 (by decide))), fun h => ?_⟩
  have hvalue : ((Expression.read defaultProvider "\x7b\x7ba\x7d\x7d + \x7b\x7bb\x7d\x7d").run 0).1.value =
      0x61 :: 0x7D :: Text.ofString "\x7d + \x7b\x7bb" := by decide
  rw [hvalue] at h
  have hstep := (h.of_cons (by decide) (by decide)).foldl_step 1
  exact absurd hstep (by decide)

end FlutterLayout.Pipe
