import FlutterLayout.Proofs.Pipe.Revealing

/-!
# Writing — what the texts of expressions look like

* `Flow.nests_text`, `Phrase.nests_text`: what is put together from balanced texts is balanced.
* `isValue_meaning`: the value of an expression is balanced text without pipes, in which no placeholder can
  start.
-/

namespace FlutterLayout.Pipe

open List Text

variable {α : Type} {inside outside : List UInt8} {t u provider : Text} {b : UInt8} {c : Call Text}

/-! ## Parts -/

namespace Piece

variable {f : α → Text} {p : Piece α} {g : α}

theorem first_part (f : α → Text) (p : Piece α) : p.first <:+: p.spell f :=
  (prefix_append _ _).isInfix

theorem text_part (f : α → Text) (ht : t ∈ p.texts) : t <:+: p.spell f := by
  rcases mem_cons.1 ht with rfl | ht
  · exact first_part f p
  · obtain ⟨one, hone, rfl⟩ := mem_map.1 ht
    have hpart : one.2 <:+: (p.rest.map fun one => f one.1 ++ one.2).flatten :=
      (suffix_append (f one.1) one.2).isInfix.trans (infix_of_mem_flatten (mem_map_of_mem hone))
    exact hpart.trans (suffix_append p.first _).isInfix

theorem group_part (f : α → Text) (hg : g ∈ p.groups) : f g <:+: p.spell f := by
  obtain ⟨one, hone, rfl⟩ := mem_map.1 hg
  have hpart : f one.1 <:+: (p.rest.map fun one => f one.1 ++ one.2).flatten :=
    (prefix_append (f one.1) one.2).isInfix.trans (infix_of_mem_flatten (mem_map_of_mem hone))
  exact hpart.trans (suffix_append p.first _).isInfix

theorem nests_spell (hp : ∀ t ∈ p.texts, Nests inside outside t) (hf : ∀ g ∈ p.groups, Nests inside outside (f g)) :
    Nests inside outside (p.spell f) := by
  obtain ⟨first, rest⟩ := p
  have hrest : Nests inside outside (rest.flatMap fun one => f one.1 ++ one.2) := by
    replace hp : ∀ one ∈ rest, Nests inside outside one.2 := fun one hone =>
      hp one.2 (mem_cons_of_mem _ (mem_map_of_mem hone))
    replace hf : ∀ one ∈ rest, Nests inside outside (f one.1) := fun one hone =>
      hf one.1 (mem_map_of_mem hone)
    induction rest with
    | nil => exact .nil
    | cons one rest ih =>
      obtain ⟨htext, hp⟩ := forall_mem_cons.1 hp
      obtain ⟨hgroup, hf⟩ := forall_mem_cons.1 hf
      exact (hgroup.append htext).append (ih hp hf)
  exact (hp first mem_cons_self).append hrest

end Piece

theorem part_flatMap {β : Type} {xs : List β} {x : β} (f : β → Text) (hx : x ∈ xs) : f x <:+: xs.flatMap f :=
  infix_of_mem_flatten (mem_map_of_mem hx)

theorem Call.name_part (c : Call Text) : c.name <:+: c.text :=
  (prefix_append _ _).isInfix

theorem Call.argument_part (ha : t ∈ c.arguments) : t <:+: c.text :=
  ((suffix_cons _ t).isInfix.trans (part_flatMap (byte ':' :: ·) ha)).trans (suffix_append _ _).isInfix

theorem Flow.atom_part (w : Flow Text) : w.atom <:+: w.text :=
  (prefix_append _ _).isInfix

theorem Flow.call_part {w : Flow Text} (hc : c ∈ w.calls) : c.text <:+: w.text :=
  ((suffix_append _ _).isInfix.trans
    (part_flatMap (fun c : Call Text => [space, bar, space] ++ c.text) hc)).trans (suffix_append _ _).isInfix

theorem Phrase.flow_part {e : Phrase Text} {w : Flow Text} (hw : w ∈ e.flows) : w.text <:+: e.text := by
  rcases mem_cons.1 hw with rfl | hw
  · exact (prefix_append _ _).isInfix
  · exact ((suffix_cons _ _).isInfix.trans
      (part_flatMap (fun w : Flow Text => byte ',' :: w.text) hw)).trans (suffix_append _ _).isInfix

@[simp] theorem Phrase.flows_map (F : β → γ) (e : Phrase β) : (e.map F).flows = e.flows.map (.map F) :=
  rfl

structure Phrase.HasCleanTexts (e : Phrase (Piece α)) : Prop where
  texts : ∀ p ∈ e.pieces, ∀ t ∈ p.texts, Clean t
  names : ∀ w ∈ e.flows, ∀ c ∈ w.calls, Clean c.name

section Parts

variable {f : α → Text} {e : Phrase (Piece α)}

theorem Phrase.spelled_part {w : Flow (Piece α)} (hw : w ∈ e.flows) :
    (w.map (Piece.spell fun g => "(" ++ f g ++ ")")).text <:+: e.spell f := by
  apply Phrase.flow_part
  rw [Phrase.flows_map]
  exact mem_map_of_mem hw

theorem Phrase.piece_part {p : Piece α} (hp : p ∈ e.pieces) : p.spell (fun g => "(" ++ f g ++ ")") <:+: e.spell f := by
  obtain ⟨w, hw, hp⟩ := mem_flatMap.1 hp
  refine List.IsInfix.trans ?_ (Phrase.spelled_part hw)
  rcases mem_cons.1 hp with rfl | hp
  · exact Flow.atom_part (w.map (Piece.spell fun g => ofString "(" ++ f g ++ ")"))
  · obtain ⟨c, hc, hp⟩ := mem_flatMap.1 hp
    exact (Call.argument_part (c := c.map _) (mem_map_of_mem hp)).trans (Flow.call_part (mem_map_of_mem hc))

theorem Phrase.hasCleanTexts_of_spell (h : Clean (e.spell f)) : e.HasCleanTexts := by
  constructor
  · intro p hp t ht
    exact h.of_part ((p.text_part _ ht).trans (Phrase.piece_part hp))
  · intro w hw c hc
    refine h.of_part (List.IsInfix.trans ?_ (Phrase.spelled_part hw))
    exact (Call.name_part (c.map _)).trans (Flow.call_part (mem_map_of_mem hc))

theorem Phrase.group_part (hg : g ∈ e.groups) : ofString "(" ++ f g ++ ofString ")" <:+: e.spell f := by
  obtain ⟨p, hp, hg⟩ := mem_flatMap.1 hg
  exact (p.group_part (fun g => ofString "(" ++ f g ++ ")") hg).trans (Phrase.piece_part hp)

theorem Phrase.inner_part (hg : g ∈ e.groups) : f g <:+: e.spell f :=
  IsInfix.trans ⟨"(", ")", rfl⟩ (Phrase.group_part hg)

theorem Phrase.clean_group (h : Clean (e.spell f)) (hg : g ∈ e.groups) : Clean (f g) :=
  h.of_part (Phrase.inner_part hg)

end Parts

/-! ## Balanced phrases -/

def separators : List UInt8 :=
  [bar, byte ',', byte ':']

theorem nests_of_tame (ht : ∀ b ∈ t, Tame b) (hout : outside ⊆ separators) : Nests inside outside t :=
  .of_bytes fun b hb => ⟨(ht b hb).1, fun hmem => (ht b hb).2 (hout hmem)⟩

theorem nests_placeholder (n : Nat) (hout : outside ⊆ separators) : Nests inside outside (placeholder n) :=
  nests_of_tame (fun _ hb => tame_of_isPlaceholderByte (isPlaceholderByte_of_mem hb)) hout

theorem nests_flatMap {xs : List Text} {sep : Text} (hsep : Nests inside outside sep)
    (hxs : ∀ x ∈ xs, Nests inside outside x) : Nests inside outside (xs.flatMap (sep ++ ·)) := by
  induction xs with
  | nil => exact .nil
  | cons x xs ih =>
    obtain ⟨hx, hxs⟩ := forall_mem_cons.1 hxs
    exact (hsep.append hx).append (ih hxs)

/-- The texts of a flow are balanced, and none of them is cut where the flow is. -/
structure Flow.IsBalanced (inside : List UInt8) (w : Flow Text) : Prop where
  atom : Nests inside [bar, byte ','] w.atom
  names : ∀ c ∈ w.calls, IsName c.name
  arguments : ∀ c ∈ w.calls, ∀ a ∈ c.arguments, Nests inside separators a

namespace Flow.IsBalanced

variable {w : Flow Text}

theorem call (h : w.IsBalanced inside) (hc : c ∈ w.calls) : Nests inside [bar, byte ','] c.text := by
  have hname : Nests inside [bar, byte ','] c.name := nests_of_tame (h.names c hc).tame (by decide)
  refine hname.append (nests_flatMap (.byte (by decide) (by decide) .nil) fun a ha => ?_)
  exact (h.arguments c hc a ha).weaken (.refl _) (by decide)

theorem text (h : w.IsBalanced inside) : Nests inside [byte ','] w.text := by
  have hpipe : Nests inside [byte ','] [space, bar, space] := .of_bytes (by decide)
  have hcalls : Nests inside [byte ','] ((w.calls.map Call.text).flatMap ([space, bar, space] ++ ·)) := by
    refine nests_flatMap hpipe fun x hx => ?_
    obtain ⟨c, hc, rfl⟩ := mem_map.1 hx
    exact (h.call hc).weaken (Subset.refl _) (by decide)
  rw [flatMap_map] at hcalls
  exact (h.atom.weaken (.refl _) (by decide)).append hcalls

end Flow.IsBalanced

theorem Phrase.nests_text {e : Phrase Text} (h : ∀ w ∈ e.flows, Nests inside [] w.text) : Nests inside [] e.text := by
  have hmore : Nests inside [] ((e.more.map Flow.text).flatMap ([byte ','] ++ ·)) := by
    refine nests_flatMap (.byte (by decide) (by simp) .nil) fun x hx => ?_
    obtain ⟨w, hw, rfl⟩ := mem_map.1 hx
    exact h w (mem_cons_of_mem _ hw)
  rw [flatMap_map] at hmore
  exact (h e.first mem_cons_self).append hmore

/-! ## Values -/

theorem IsName.ne_backslash (h : IsName t) (hb : b ∈ t) : b ≠ backslash := by
  rintro rfl
  obtain ⟨r, a, more, hr, he, hb⟩ := h.exists_rune hb
  rcases mem_cons.1 hb with rfl | hmore
  · obtain ⟨-, rfl⟩ := he.ascii (by decide)
    exact absurd hr (by decide)
  · exact absurd (isContinuation_eq_true_iff.1 (he.continues _ hmore)).1 (by decide)

theorem IsName.ne_doubleQuote (h : IsName t) (hb : b ∈ t) : b ≠ doubleQuote := by
  rintro rfl
  exact absurd (h.tame _ hb).1 (by decide)

theorem IsName.literalBody (h : IsName t) : LiteralBody doubleQuote t :=
  .of_forall fun _ hb => ⟨h.ne_doubleQuote hb, h.ne_backslash hb⟩

theorem join_induction {P : Text → Prop} (hnil : P []) (happend : ∀ {t u}, P t → P u → P (t ++ (", " ++ u)))
    (h : ∀ x ∈ xs, P x) : P (join ", " xs) := by
  induction xs with
  | nil => exact hnil
  | cons x xs ih =>
    obtain ⟨hx, hxs⟩ := forall_mem_cons.1 h
    cases xs with
    | nil => simpa [join] using hx
    | cons y ys =>
      have hjoin : join ", " (x :: y :: ys) = x ++ (", " ++ join ", " (y :: ys)) := by
        simp [join, intercalate]
      rw [hjoin]
      exact happend hx (ih hxs)

structure IsValue (t : Text) : Prop where
  nests : Nests [bar] [bar] t
  clean : Clean t

namespace IsValue

theorem trim (h : IsValue t) : IsValue (trim t) := by
  obtain ⟨x, y, -, -, ht⟩ := strips_trim t
  exact ⟨h.nests.of_strips (strips_trim t), h.clean.of_part ⟨x, y, ht.symm⟩⟩

theorem append_cons (ht : IsValue t) (hu : IsValue u) (hb : isOrdinary b = true) (hbar : b ≠ bar)
    (hstart : b ∉ placeholderStart) : IsValue (t ++ b :: u) :=
  ⟨ht.nests.append (.byte hb (by simpa using hbar) hu.nests), (clean_append_cons hstart).2 ⟨ht.clean, hu.clean⟩⟩

theorem of_tame (ht : ∀ b ∈ t, Tame b) (hclean : Clean t) : IsValue t :=
  ⟨nests_of_tame ht (by decide), hclean⟩

theorem nil : IsValue [] :=
  ⟨.nil, clean_nil⟩

theorem of_bytes (ht : ∀ b ∈ t, isOrdinary b = true ∧ b ≠ bar) (hclean : Clean t) : IsValue t :=
  ⟨.of_bytes fun b hb => ⟨(ht b hb).1, by simpa using (ht b hb).2⟩, hclean⟩

theorem append_brackets (hpair : (left, right) ∈ brackets) (hx : IsValue x)
    (ht : IsValue t) (hu : IsValue u) : IsValue (x ++ left :: (t ++ right :: u)) := by
  have hfree : ∀ p ∈ brackets, p.1 ∉ placeholderStart ∧ p.2 ∉ placeholderStart := by decide
  obtain ⟨hleft, hright⟩ := hfree _ hpair
  refine ⟨hx.nests.append (.bracket hpair ht.nests hu.nests), ?_⟩
  exact (clean_append_cons hleft).2 ⟨hx.clean, (clean_append_cons hright).2 ⟨ht.clean, hu.clean⟩⟩

theorem append_quoted (hx : IsValue x) (ht : IsName t) (hclean : Clean t) (hu : IsValue u) :
    IsValue (x ++ doubleQuote :: (t ++ doubleQuote :: u)) := by
  have hfree : doubleQuote ∉ placeholderStart := by decide
  refine ⟨hx.nests.append (.literal (by decide) ht.literalBody hu.nests), ?_⟩
  exact (clean_append_cons hfree).2 ⟨hx.clean, (clean_append_cons hfree).2 ⟨hclean, hu.clean⟩⟩

theorem append_comma (ht : IsValue t) (hu : IsValue u) : IsValue (t ++ (", " ++ u)) := by
  have hspace : IsValue (space :: u) := by
    simpa using nil.append_cons (b := space) hu (by decide) (by decide) (by decide)
  exact ht.append_cons hspace (by decide) (by decide) (by decide)

theorem join (h : ∀ x ∈ xs, IsValue x) : IsValue (join ", " xs) :=
  join_induction nil append_comma h

theorem spell {f : α → Text} {p : Piece α} (htexts : ∀ t ∈ p.texts, IsValue t)
    (hgroups : ∀ g ∈ p.groups, IsValue (f g)) :
    IsValue (p.spell fun g => "(" ++ f g ++ ")") := by
  have hrest : ∀ {rest : List (α × Text)} {first : Text}, IsValue first →
      (∀ one ∈ rest, IsValue (f one.1) ∧ IsValue one.2) →
        IsValue (first ++ rest.flatMap fun one => ofString "(" ++ f one.1 ++ ofString ")" ++ one.2) := by
    intro rest first hfirst hrest
    induction rest generalizing first with
    | nil => simpa using hfirst
    | cons one rest ih =>
      obtain ⟨g, t⟩ := one
      obtain ⟨⟨hg, ht⟩, hrest⟩ := forall_mem_cons.1 hrest
      rw [flatMap_spell_cons fun g => ofString "(" ++ f g ++ ")"]
      simpa using append_brackets parentheses_mem hfirst hg (ih ht hrest)
  refine hrest (htexts p.first mem_cons_self) fun one hone => ?_
  exact ⟨hgroups _ (mem_map_of_mem hone), htexts _ (mem_cons_of_mem _ (mem_map_of_mem hone))⟩

end IsValue

/-! ## Values of flows -/

/-- A chain whose value is one, and whose stem gives names in which no placeholder can start. -/
structure Chain.IsPlain (chain : Chain) : Prop where
  value : IsValue chain.value
  stem : Clean chain.stem

theorem isValue_valueName (kind : Kind) (source : Text) (hstem : Clean t) :
    IsValue (Subscription.make kind source t).valueName :=
  .of_tame (tame_valueName kind source t) ((clean_append_cons (by decide)).2 ⟨clean_variableName hstem, by decide⟩)

theorem ofString_quoteComma : ofString "\", " = doubleQuote :: ofString ", " := rfl

theorem ofString_commaBracket : ofString ", [" = ofString ", " ++ [byte '['] := rfl

theorem ofString_brackets : ofString "])" = [byte ']', byte ')'] := rfl

open IsValue in
section

variable (hprovider : IsValue provider)
include hprovider

theorem isValue_transform
    (hname : IsName name) (hclean : Clean name) (hvalue : IsValue value) (hargs : ∀ a ∈ arguments, IsValue a) :
    IsValue (provider ++ ".transform(context, \"" ++ name ++ "\", " ++ value ++ ", ["
      ++ join ", " arguments ++ "])") := by
  have hopen : ofString ".transform(context, \"" =
      byte '.' :: ("transform" ++ byte '(' :: ("context, " ++ [doubleQuote])) := by decide
  have hlist : IsValue ([] ++ byte '[' :: (join ", " arguments ++ byte ']' :: [])) :=
    append_brackets (by decide) nil (join hargs) nil
  have hcall := append_brackets parentheses_mem
    (of_bytes (t := "transform") (by decide) (by decide))
    ((of_bytes (t := "context, ") (by decide) (by decide)).append_quoted hname hclean
      (nil.append_comma (hvalue.append_comma hlist))) nil
  have hwhole := hprovider.append_cons (b := byte '.') hcall (by decide) (by decide) (by decide)
  rw [hopen, ofString_quoteComma, ofString_commaBracket, ofString_brackets]
  simpa using hwhole

theorem Call.isPlain_apply (hname : IsName c.name)
    (hclean : Clean c.name) (hargs : ∀ a ∈ c.arguments, IsValue a) (h : chain.IsPlain) :
    (c.apply provider chain).IsPlain := by
  unfold Call.apply
  split
  · rename_i kind _
    have hvalue := isValue_valueName kind chain.value h.stem
    exact ⟨hvalue, hvalue.clean⟩
  · refine ⟨isValue_transform hprovider hname hclean h.value hargs, ?_⟩
    have hspace : space ∉ placeholderStart := by decide
    have hstem : chain.stem ++ ofString " " ++ c.name = chain.stem ++ space :: c.name := by
      rw [append_assoc]
      rfl
    rw [hstem]
    exact (clean_append_cons hspace).2 ⟨h.stem, hclean⟩

structure Flow.HasValue (w : Flow Text) : Prop where
  atom : IsValue w.atom
  calls : ∀ c ∈ w.calls, IsName c.name ∧ Clean c.name ∧ ∀ a ∈ c.arguments, IsValue a

theorem Flow.HasValue.isPlain_meaning {w : Flow Text} (h : w.HasValue) : (w.meaning provider).IsPlain := by
  refine foldlRecOn (motive := Chain.IsPlain) w.calls _ ⟨h.atom, h.atom.clean⟩ fun chain hchain c hc => ?_
  obtain ⟨hname, hclean, hargs⟩ := h.calls c hc
  exact Call.isPlain_apply hprovider hname hclean hargs hchain

theorem Phrase.isValue_meaning {e : Phrase Text} (h : ∀ w ∈ e.flows, w.HasValue) :
    IsValue (e.meaning provider).value := by
  refine .join fun x hx => ?_
  obtain ⟨w, hw, rfl⟩ := mem_map.1 hx
  exact ((h w hw).isPlain_meaning hprovider).value

end

/-! ## Values of expressions -/

section Values

variable {e : Phrase (Piece α)} {m : α → Expression}

def Piece.valueWith (m : α → Expression) (p : Piece α) : Text :=
  trim (p.spell fun g => "(" ++ (m g).value ++ ")")

theorem Piece.isValue_valueWith {p : Piece α} {stops : List UInt8} (hp : p.WellFormed stops)
    (hclean : ∀ t ∈ p.texts, Clean t) (hm : ∀ g ∈ p.groups, IsValue (m g).value) : IsValue (p.valueWith m) := by
  refine (IsValue.spell (fun t ht => ⟨?_, hclean t ht⟩) hm).trim
  exact (hp t ht).weaken (List.Subset.refl _) (by simp)

theorem Phrase.hasValue_map (he : e.WellFormed) (hclean : e.HasCleanTexts) (hm : ∀ g ∈ e.groups, IsValue (m g).value) :
    ∀ w ∈ (e.map (Piece.valueWith m)).flows, w.HasValue := by
  intro w' hw'
  rw [Phrase.flows_map] at hw'
  obtain ⟨w, hw, rfl⟩ := mem_map.1 hw'
  have hpiece : ∀ {stops p}, p ∈ w.pieces → p.WellFormed stops → IsValue (p.valueWith m) := by
    intro stops p hp hwf
    have hmem : p ∈ e.pieces := mem_flatMap.2 ⟨w, hw, hp⟩
    exact p.isValue_valueWith hwf (hclean.texts p hmem) fun g hg => hm g (mem_flatMap.2 ⟨p, hmem, hg⟩)
  refine ⟨hpiece mem_cons_self (he w hw).1, fun c' hc' => ?_⟩
  obtain ⟨c, hc, rfl⟩ := mem_map.1 hc'
  refine ⟨((he w hw).2 c hc).1, hclean.names w hw c hc, fun a ha => ?_⟩
  obtain ⟨p, hp, rfl⟩ := mem_map.1 ha
  exact hpiece (mem_cons_of_mem _ (mem_flatMap.2 ⟨c, hc, hp⟩)) (((he w hw).2 c hc).2 p hp)

theorem Phrase.mem_groups_of_group? (h : e.group? = some g) : g ∈ e.groups := by
  unfold Phrase.group? at h
  split at h
  · split at h
    · cases h
      simp [Phrase.groups, Phrase.pieces, Phrase.flows, Flow.pieces, Piece.groups]
    · cases h
  · cases h

theorem Phrase.isValue_value (hprovider : IsValue provider) (he : e.WellFormed) (hclean : e.HasCleanTexts)
    (hm : ∀ g ∈ e.groups, IsValue (m g).value) : IsValue (e.value provider m).value := by
  unfold Phrase.value
  split
  · rename_i g hg
    exact hm g (Phrase.mem_groups_of_group? hg)
  · exact Phrase.isValue_meaning hprovider (Phrase.hasValue_map he hclean hm)

end Values

theorem Nested.isValue_meaning (hprovider : IsValue provider) {depth : Nat} {e : Nested depth} (he : e.WellFormed)
    (hclean : Clean e.text) : IsValue (e.meaning provider).value := by
  induction depth with
  | zero => exact e.elim
  | succ depth ih =>
    refine Phrase.isValue_value hprovider he.1 (Phrase.hasCleanTexts_of_spell hclean) fun g hg => ?_
    exact ih (he.2 g hg).2 (Phrase.clean_group hclean hg)

/-! ## Balanced expressions -/

theorem Phrase.isBalanced_map {e : Phrase (Piece α)} {f : α → Text} (he : e.WellFormed) (hin : inside ⊆ [bar])
    (hf : ∀ g ∈ e.groups, ∀ {outside}, outside ⊆ separators → Nests inside outside (f g)) :
    ∀ w ∈ (e.map (Piece.spell f)).flows, w.IsBalanced inside := by
  intro w' hw'
  rw [Phrase.flows_map] at hw'
  obtain ⟨w, hw, rfl⟩ := mem_map.1 hw'
  have hpiece : ∀ {stops p}, p ∈ w.pieces → bar :: stops ⊆ separators → p.WellFormed stops →
      Nests inside (bar :: stops) (p.spell f) := by
    intro stops p hp hstops hwf
    have hmem : p ∈ e.pieces := mem_flatMap.2 ⟨w, hw, hp⟩
    exact p.nests_spell (fun t ht => (hwf t ht).weaken hin (.refl _))
      fun g hg => hf g (mem_flatMap.2 ⟨p, hmem, hg⟩) hstops
  refine ⟨hpiece mem_cons_self (by decide) (he w hw).1, fun c' hc' => ?_, fun c' hc' a ha => ?_⟩
  · obtain ⟨c, hc, rfl⟩ := mem_map.1 hc'
    exact ((he w hw).2 c hc).1
  · obtain ⟨c, hc, rfl⟩ := mem_map.1 hc'
    obtain ⟨p, hp, rfl⟩ := mem_map.1 ha
    exact hpiece (mem_cons_of_mem _ (mem_flatMap.2 ⟨c, hc, hp⟩)) (by decide) (((he w hw).2 c hc).2 p hp)

theorem nests_group (h : Nests inside inside t) : Nests inside outside ("(" ++ t ++ ")") := by
  exact .bracket (by decide) h .nil

theorem Phrase.isBalanced_spell {e : Phrase (Piece α)} {f : α → Text} (he : e.WellFormed) (hin : inside ⊆ [bar])
    (hf : ∀ g ∈ e.groups, Nests inside inside (f g)) :
    ∀ w ∈ (e.map (Piece.spell fun g => "(" ++ f g ++ ")")).flows, w.IsBalanced inside :=
  Phrase.isBalanced_map he hin fun g hg _ _ => nests_group (hf g hg)

theorem Nested.nests_text {depth : Nat} {e : Nested depth} (he : e.WellFormed) : Nests [] [] e.text := by
  induction depth with
  | zero => exact e.elim
  | succ depth ih =>
    refine Phrase.nests_text fun w hw => ?_
    have hflow := Phrase.isBalanced_spell he.1 (nil_subset _) (fun g hg => ih (he.2 g hg).2) w hw
    exact hflow.text.weaken (.refl _) (nil_subset _)

end FlutterLayout.Pipe
