import FlutterLayout.Proofs.Markup.Scanning
import Mathlib.Data.List.TakeWhile
import Mathlib.Data.List.Nodup

/-!
# Tags — what their readers accept

A start tag is read attribute by attribute, and the layout behind an attribute without a value is taken
together with it.  `Trailing` therefore looks at attributes with any layout behind them.
-/

namespace FlutterLayout.Markup

open Text List Cursor

variable {p t u gap rest name value raw tag : Text} {b quote : UInt8} {c c' : Cursor} {f : UInt8 → Bool}
  {attributes new seen : List Attribute} {one : Attribute}

/-! ## Cursors -/

namespace Cursor

theorem exists_eat? (hc : c.rest = p ++ rest) : ∃ c', c.eat? p = some c' ∧ c'.rest = rest :=
  ⟨⟨c.position.advance p, rest⟩, by rw [eat?, after?_eq_some_iff.2 hc]; rfl, rfl⟩

theorem eat?_eq_none_iff : c.eat? p = none ↔ ¬ p <+: c.rest := by
  constructor
  · rintro h ⟨rest, hrest⟩
    obtain ⟨c', hc', -⟩ := exists_eat? hrest.symm
    rw [h] at hc'
    cases hc'
  · intro h
    rw [Option.eq_none_iff_forall_ne_some]
    intro c' hc'
    exact h ⟨c'.rest, (rest_of_eat? hc').symm⟩

theorem of_mem_span (h : b ∈ (c.span f).1) : f b = true :=
  mem_takeWhile_imp h

theorem of_head_span (h : b ∈ (c.span f).2.rest.head?) : f b = false := by
  have := head?_dropWhile_not f c.rest
  rw [show c.rest.dropWhile f = (c.span f).2.rest from rfl, Option.mem_def.1 h] at this
  simpa using this

theorem span_eq (hc : c.rest = t ++ rest) (ht : ∀ b ∈ t, f b = true) (hrest : ∀ b ∈ rest.head?, f b = false) :
    (c.span f).1 = t ∧ (c.span f).2.rest = rest := by
  have htake : rest.takeWhile f = [] ∧ rest.dropWhile f = rest := by
    cases rest with
    | nil => exact ⟨rfl, rfl⟩
    | cons b rest => simp [hrest b rfl]
  simp only [span, hc]
  rw [takeWhile_append_of_pos ht, dropWhile_append_of_pos ht, htake.1, htake.2, append_nil]
  exact ⟨rfl, rfl⟩

theorem rest_skipLayout (c : Cursor) : ∃ gap, IsLayout gap ∧ c.rest = gap ++ c.skipLayout.rest :=
  ⟨_, fun _ hb => of_mem_span hb, rest_span c isLayoutByte⟩

theorem of_head_skipLayout (h : b ∈ c.skipLayout.rest.head?) : isLayoutByte b = false :=
  of_head_span h

theorem skipLayout_eq (hc : c.rest = gap ++ rest) (hgap : IsLayout gap)
    (hrest : ∀ b ∈ rest.head?, isLayoutByte b = false) : c.skipLayout.rest = rest :=
  (span_eq hc hgap hrest).2

@[simp] theorem skipLayout_skipLayout (c : Cursor) : c.skipLayout.skipLayout = c.skipLayout := by
  have hnone : c.skipLayout.rest.takeWhile isLayoutByte = [] := by
    cases hrest : c.skipLayout.rest with
    | nil => rfl
    | cons b t =>
      have : isLayoutByte b = false := of_head_skipLayout (by rw [hrest]; rfl)
      simp [this]
  have hdrop : c.skipLayout.rest.dropWhile isLayoutByte = c.skipLayout.rest := by
    simpa [hnone] using takeWhile_append_dropWhile (p := isLayoutByte) (l := c.skipLayout.rest)
  rw [skipLayout, span, hnone, hdrop]
  rfl

end Cursor

/-! ## Names and layout -/

theorem isLayout_nil : IsLayout [] := by simp [IsLayout]

theorem IsLayout.append (ht : IsLayout t) (hu : IsLayout u) : IsLayout (t ++ u) := by
  exact forall_mem_append.2 ⟨ht, hu⟩

theorem isNameByte_of_isLayoutByte (h : isLayoutByte b = true) : isNameByte b = false := by
  simp only [isLayoutByte, Bool.or_eq_true, decide_eq_true_eq] at h
  rcases h with (rfl | rfl) | rfl <;> decide

theorem isLayoutByte_of_isNameByte (h : isNameByte b = true) : isLayoutByte b = false := by
  by_contra hlayout
  rw [Bool.not_eq_false] at hlayout
  rw [isNameByte_of_isLayoutByte hlayout] at h
  cases h

theorem IsName.head (h : IsName name) (t : Text) : ∃ b u, name ++ t = b :: u ∧ isNameByte b = true := by
  rcases name with - | ⟨b, name⟩
  · exact absurd rfl h.1
  · exact ⟨b, name ++ t, rfl, h.2 b (by simp)⟩

/-- A name that ends in front of more text ends in front of the start of that text. -/
theorem EndsName.of_append (h : EndsName (t ++ u)) : EndsName t := by
  cases t with
  | nil => simp [EndsName]
  | cons b t => exact h

theorem EndsName.append (ht : EndsName t) (hu : EndsName u) : EndsName (t ++ u) := by
  cases t with
  | nil => exact hu
  | cons b t => exact ht

theorem IsLayout.endsName (h : IsLayout t) : EndsName t := by
  intro b hb
  exact isNameByte_of_isLayoutByte (h b (mem_of_mem_head? hb))

def EndsTag (rest : Text) : Prop :=
  ofString ">" <+: rest ∨ ofString "/>" <+: rest

theorem EndsTag.head (h : EndsTag rest) :
    ∃ b u, rest = b :: u ∧ isNameByte b = false ∧ isLayoutByte b = false ∧ b ≠ byte '=' := by
  rcases h with ⟨u, rfl⟩ | ⟨u, rfl⟩
  · exact ⟨byte '>', u, rfl, by decide⟩
  · exact ⟨byte '/', byte '>' :: u, rfl, by decide⟩

theorem EndsTag.endsName (h : EndsTag rest) : EndsName rest := by
  obtain ⟨b, u, rfl, hb, -⟩ := h.head
  intro d hd
  cases hd
  exact hb

theorem atTagEnd_iff : c.atTagEnd = true ↔ c.rest = [] ∨ EndsTag c.rest := by
  simp only [atTagEnd, atEnd, sees, Bool.or_eq_true, startsWith_iff, List.isEmpty_iff,
    EndsTag, or_assoc]

/-! ## Attributes -/

def Trailing (t : Text) (attributes : List Attribute) : Prop :=
  ∃ u gap, t = u ++ gap ∧ AreAttributes u attributes ∧ IsLayout gap

namespace Trailing

theorem of_isLayout (h : IsLayout t) : Trailing t [] :=
  ⟨[], t, rfl, .nil, h⟩

theorem pad (hgap : IsLayout gap) (h : Trailing t attributes) : Trailing (gap ++ t) attributes := by
  obtain ⟨u, behind, rfl, hu, hbehind⟩ := h
  cases hu with
  | nil => exact ⟨[], gap ++ behind, rfl, .nil, hgap.append hbehind⟩
  | bare hfirst hname hend h =>
    exact ⟨_, behind, by simp [append_assoc], .bare (hgap.append hfirst) hname hend h, hbehind⟩
  | valued hfirst hname hbefore hafter hquote hraw hvalue h =>
    exact ⟨_, behind, by simp [append_assoc],
      .valued (hgap.append hfirst) hname hbefore hafter hquote hraw hvalue h, hbehind⟩

theorem bare (hname : IsName name) (hend : EndsName t) (h : Trailing t attributes) :
    Trailing (name ++ t) ((name, []) :: attributes) := by
  obtain ⟨u, behind, rfl, hu, hbehind⟩ := h
  exact ⟨[] ++ (name ++ u), behind, by simp [append_assoc], .bare isLayout_nil hname hend.of_append hu, hbehind⟩

theorem valued (hname : IsName name) (hbefore : IsLayout before) (hbehind : IsLayout behind)
    (hquote : quote = doubleQuote ∨ quote = singleQuote) (hraw : quote ∉ raw) (hvalue : Decodes raw value)
    (h : Trailing t attributes) : Trailing (name ++ (before ++ byte '=' :: (behind ++ quote :: (raw ++ quote :: t))))
      ((name, value) :: attributes) := by
  obtain ⟨u, last, rfl, hu, hlast⟩ := h
  exact ⟨[] ++ (name ++ (before ++ byte '=' :: (behind ++ quote :: (raw ++ quote :: u)))), last,
    by simp [append_assoc], .valued isLayout_nil hname hbefore hbehind hquote hraw hvalue hu, hlast⟩

end Trailing

theorem isSome_lookup_eq_false_iff : (seen.lookup name).isSome = false ↔ name ∉ seen.map Prod.fst := by
  rw [Option.isSome_eq_false_iff, Option.isNone_iff_eq_none, lookup_eq_none_iff]
  simp only [bne_iff_ne, mem_map, not_exists, not_and]
  exact forall_congr' fun one => forall_congr' fun _ => ne_comm

theorem quoted_of_readValue (h : readValue {} place name c = .ok (value, c')) :
    ∃ quote raw, (quote = doubleQuote ∨ quote = singleQuote) ∧ quote ∉ raw ∧ Decodes raw value ∧
      c.rest = quote :: (raw ++ quote :: c'.rest) := by
  unfold readValue at h
  split at h
  · cases h
  rename_i quote rest hrest
  split at h
  case isFalse => cases h
  rename_i hquote
  dsimp only at h
  split at h
  · cases h
  rename_i raw behind hthrough
  obtain ⟨⟨x, y⟩, hcut, he⟩ := Option.map_eq_some_iff.1 hthrough
  cases he
  obtain ⟨rfl, hraw⟩ := endsAt_of_cut? hcut
  split at h
  · cases h
  rename_i value' hvalue
  cases h
  refine ⟨quote, raw, by simpa using hquote, endsAt_singleton_iff.1 hraw, decode_eq_ok_iff.1 hvalue, ?_⟩
  simpa using hrest

theorem exists_readValue (place : Position) (name : Text) (hquote : quote = doubleQuote ∨ quote = singleQuote)
    (hraw : quote ∉ raw) (hvalue : Decodes raw value) (hc : c.rest = quote :: (raw ++ quote :: rest)) :
    ∃ c', readValue {} place name c = .ok (value, c') ∧ c'.rest = rest := by
  have hcut : cut? [quote] (raw ++ quote :: rest) = some (raw, rest) := by
    simpa using cut?_of_endsAt (endsAt_singleton_iff.2 hraw) rest
  have hquote' : (decide (quote = doubleQuote) || decide (quote = singleQuote)) = true := by
    simpa using hquote
  refine ⟨⟨(c.position.step quote).advance (raw ++ [quote]), rest⟩, ?_, rfl⟩
  simp only [readValue, hc, hquote', if_true, through?, hcut, Option.map_some, decode_eq_ok_iff.2 hvalue]

/-- What the reader takes as one attribute, in front of what may follow one. -/
theorem trailing_of_readAttribute (h : readAttribute {} seen c = .ok (one, c')) (hrest : c'.rest = t ++ rest)
    (ht : Trailing t new) : ∃ u, c.rest = u ++ rest ∧ Trailing u (one :: new) := by
  unfold readAttribute at h
  dsimp only at h
  split at h
  · cases h
  rename_i hne
  have hname : IsName (c.span isNameByte).1 := ⟨by simpa using hne, fun b hb => of_mem_span hb⟩
  have hend : EndsName (c.span isNameByte).2.rest := fun b hb => of_head_span hb
  have hsplit := rest_span c isNameByte
  obtain ⟨gap, hgap, hskip⟩ := rest_skipLayout (c.span isNameByte).2
  rw [hskip] at hsplit hend
  split at h
  · cases h
  split at h
  · -- No `=` follows, so the layout behind the name is left to what follows.
    cases h
    refine ⟨_, ?_, .bare hname ?_ (ht.pad hgap)⟩
    · rw [hsplit, hrest]
      simp [append_assoc]
    · rw [hrest, ← append_assoc] at hend
      exact hend.of_append
  · rename_i behind heat
    obtain ⟨after, hafter, hskip'⟩ := rest_skipLayout behind
    split at h
    · cases h
    rename_i value behind' hvalue
    cases h
    obtain ⟨quote, raw, hquote, hraw, hdecodes, hquoted⟩ := quoted_of_readValue hvalue
    refine ⟨_, ?_, .valued hname hgap hafter hquote hraw hdecodes ht⟩
    have hequals : ofString "=" = [byte '='] := by decide
    rw [hsplit, rest_of_eat? heat, hskip', hquoted, hrest, hequals]
    simp [append_assoc]

theorem trailing_of_readAttributes (h : readAttributes {} seen c = .ok (attributes, c')) :
    ∃ t new, attributes = seen ++ new ∧ c.rest = t ++ c'.rest ∧ Trailing t new := by
  fun_induction readAttributes {} seen c with
  | case1 seen c hend =>
    cases h
    obtain ⟨gap, hgap, hskip⟩ := rest_skipLayout c
    exact ⟨gap, [], by simp, hskip, .of_isLayout hgap⟩
  | case2 => cases h
  | case3 seen c _ one behind hone ih =>
    obtain ⟨t, new, rfl, hrest, ht⟩ := ih h
    obtain ⟨gap, hgap, hskip⟩ := rest_skipLayout c
    obtain ⟨u, hu, hone⟩ := trailing_of_readAttribute hone hrest ht
    exact ⟨gap ++ u, one :: new, by simp, by rw [hskip, hu, append_assoc], hone.pad hgap⟩

theorem not_mem_of_readAttribute (h : readAttribute options seen c = .ok (one, c')) : one.1 ∉ seen.map Prod.fst := by
  unfold readAttribute at h
  dsimp only at h
  split at h
  · cases h
  · split at h
    · cases h
    · rename_i hfresh
      rw [← isSome_lookup_eq_false_iff, Bool.eq_false_iff]
      split at h
      · cases h
        exact hfresh
      · split at h <;> cases h
        exact hfresh

theorem nodup_of_readAttributes (hseen : (seen.map Prod.fst).Nodup)
    (h : readAttributes options seen c = .ok (attributes, c')) : (attributes.map Prod.fst).Nodup := by
  fun_induction readAttributes options seen c with
  | case1 seen c hend =>
    cases h
    exact hseen
  | case2 => cases h
  | case3 seen c hend one behind hread ih =>
    refine ih ?_ h
    have hnew := not_mem_of_readAttribute hread
    rw [map_append, map_singleton, nodup_append]
    refine ⟨hseen, by simp, fun name hname name' hname' heq => hnew ?_⟩
    rwa [← mem_singleton.1 hname', ← heq]

theorem AreAttributes.nil_or_name (h : AreAttributes t attributes) :
    t = [] ∨ ∃ gap name u, t = gap ++ (name ++ u) ∧ IsLayout gap ∧ IsName name := by
  cases h with
  | nil => exact .inl rfl
  | bare hgap hname | valued hgap hname => exact .inr ⟨_, _, _, rfl, hgap, hname⟩

/-- Behind the layout in front of attributes stands a name, or the tag ends. -/
theorem AreAttributes.eat?_equals (h : AreAttributes t attributes) (hgap : IsLayout gap) (hend : EndsTag rest)
    (hc : c.rest = t ++ (gap ++ rest)) : c.skipLayout.eat? "=" = none := by
  have hequals : ofString "=" = [byte '='] := by decide
  have hnot : ∀ b, isNameByte b = true → b ≠ byte '=' := by
    rintro b hb rfl
    revert hb
    decide
  rw [eat?_eq_none_iff, hequals]
  rcases h.nil_or_name with rfl | ⟨first, name, u, rfl, hfirst, hname⟩
  · obtain ⟨b, v, rfl, -, hlayout, hb⟩ := hend.head
    rw [nil_append] at hc
    rw [skipLayout_eq hc hgap (by simpa using hlayout)]
    simpa using Ne.symm hb
  · obtain ⟨b, v, hbv, hb⟩ := hname.head (u ++ (gap ++ rest))
    have hc' : c.rest = first ++ (b :: v) := by
      rw [hc, ← hbv]
      simp only [append_assoc]
    rw [skipLayout_eq hc' hfirst (by simpa using isLayoutByte_of_isNameByte hb)]
    simpa using Ne.symm (hnot b hb)

theorem readAttributes_skipLayout (seen : List Attribute) (c : Cursor) :
    readAttributes {} seen c.skipLayout = readAttributes {} seen c := by
  rw [readAttributes, skipLayout_skipLayout, readAttributes]

/-- An attribute without a value is read up to the layout behind its name. -/
theorem exists_readAttribute_bare (hname : IsName name) (hnew : name ∉ seen.map Prod.fst) (hend : EndsName rest)
    (hc : c.rest = name ++ rest) (hbare : ∀ c' : Cursor, c'.rest = rest → c'.skipLayout.eat? "=" = none) :
    ∃ c' : Cursor, readAttribute {} seen c = .ok ((name, []), c'.skipLayout) ∧ c'.rest = rest := by
  obtain ⟨htake, hrest⟩ := span_eq hc hname.2 hend
  have hne : name.isEmpty = false := by simpa using hname.1
  refine ⟨(c.span isNameByte).2, ?_, hrest⟩
  simp only [readAttribute, htake, hne, isSome_lookup_eq_false_iff.2 hnew, hbare _ hrest, Bool.false_eq_true, if_false]

theorem exists_readAttribute_valued (hname : IsName name) (hnew : name ∉ seen.map Prod.fst)
    (hbefore : IsLayout before) (hbehind : IsLayout behind)
    (hquote : quote = doubleQuote ∨ quote = singleQuote) (hraw : quote ∉ raw) (hvalue : Decodes raw value)
    (hc : c.rest = name ++ (before ++ byte '=' :: (behind ++ quote :: (raw ++ quote :: rest)))) :
    ∃ c', readAttribute {} seen c = .ok ((name, value), c') ∧ c'.rest = rest := by
  have hend : EndsName (before ++ byte '=' :: (behind ++ quote :: (raw ++ quote :: rest))) := by
    apply hbefore.endsName.append
    rintro b hb
    cases hb
    decide
  obtain ⟨htake, hrest⟩ := span_eq hc hname.2 hend
  have hequals : ofString "=" = [byte '='] := by decide
  have hskip := skipLayout_eq hrest hbefore (by rintro b hb; cases hb; decide)
  obtain ⟨after, heat, hafter⟩ := exists_eat? (p := "=") (hskip.trans (by rw [hequals]; rfl))
  have hskip' := skipLayout_eq hafter hbehind (by rintro b hb; cases hb; rcases hquote with rfl | rfl <;> decide)
  obtain ⟨c', hread, hc'⟩ := exists_readValue c.position name hquote hraw hvalue hskip'
  have hne : name.isEmpty = false := by simpa using hname.1
  refine ⟨c', ?_, hc'⟩
  simp only [readAttribute, htake, hne, isSome_lookup_eq_false_iff.2 hnew, heat, hread, Bool.false_eq_true, if_false]

theorem exists_readAttributes_cons (one : Attribute) (hname : IsName name) (hgap : IsLayout gap)
    (hc : c.rest = gap ++ (name ++ t))
    (hone : ∀ c1 : Cursor, c1.rest = name ++ t → ∃ c2, readAttribute {} seen c1 = .ok (one, c2) ∧
      ∃ c', readAttributes {} (seen ++ [one]) c2 = .ok (attributes, c') ∧ c'.rest = rest) :
    ∃ c', readAttributes {} seen c = .ok (attributes, c') ∧ c'.rest = rest := by
  obtain ⟨b, u, hbu, hb⟩ := hname.head t
  have hskip : c.skipLayout.rest = name ++ t :=
    skipLayout_eq hc hgap (by simpa [hbu] using isLayoutByte_of_isNameByte hb)
  have hopen : ¬ c.skipLayout.atTagEnd = true := by
    rw [atTagEnd_iff, hskip, hbu]
    rintro (h | h)
    · cases h
    · obtain ⟨d, v, he, hd, -⟩ := h.head
      cases he
      rw [hb] at hd
      cases hd
  obtain ⟨c2, hread, hgo⟩ := hone _ hskip
  rw [readAttributes, if_neg hopen]
  split
  · rename_i failure hfail
    rw [hread] at hfail
    cases hfail
  · rename_i one' behind hok
    rw [hread] at hok
    cases hok
    exact hgo

theorem exists_readAttributes (h : AreAttributes t attributes) (hgap : IsLayout gap) (hend : EndsTag rest)
    (hdist : ((seen ++ attributes).map Prod.fst).Nodup) (hc : c.rest = t ++ (gap ++ rest)) :
    ∃ c', readAttributes {} seen c = .ok (seen ++ attributes, c') ∧ c'.rest = rest := by
  have hfresh : ∀ {seen : List Attribute} {one : Attribute} {more : List Attribute},
      ((seen ++ one :: more).map Prod.fst).Nodup → one.1 ∉ seen.map Prod.fst := by
    intro seen one more hdist hmem
    rw [map_append, map_cons] at hdist
    exact (nodup_append.1 hdist).2.2 _ hmem _ mem_cons_self rfl
  induction h generalizing seen c with
  | nil =>
    obtain ⟨b, u, hbu, -, hlayout, -⟩ := hend.head
    have hskip : c.skipLayout.rest = rest := skipLayout_eq hc hgap (by simpa [hbu] using hlayout)
    refine ⟨c.skipLayout, ?_, hskip⟩
    rw [readAttributes, if_pos (atTagEnd_iff.2 (.inr (hskip ▸ hend))), append_nil]
  | @bare first name t attributes hfirst hname hends ht ih =>
    have hnew := hfresh hdist
    rw [append_cons] at hdist ⊢
    rw [append_assoc, append_assoc] at hc
    refine exists_readAttributes_cons (name, []) hname hfirst hc fun c1 hc1 => ?_
    have hends' : EndsName (t ++ (gap ++ rest)) := hends.append (hgap.endsName.append hend.endsName)
    obtain ⟨c2, hread, hc2⟩ :=
      exists_readAttribute_bare hname hnew hends' hc1 fun c' hc' => ht.eat?_equals hgap hend hc'
    -- The layout behind the name is skipped twice.
    exact ⟨c2.skipLayout, hread, by rw [readAttributes_skipLayout]; exact ih hdist hc2⟩
  | @valued first name before behind raw value t quote attributes hfirst hname hbefore hbehind
    hquote hraw hvalue ht ih =>
    have hnew := hfresh hdist
    rw [append_cons] at hdist ⊢
    rw [append_assoc, append_assoc] at hc
    refine exists_readAttributes_cons (name, value) hname hfirst hc fun c1 hc1 => ?_
    have hc1' : c1.rest = name ++ (before ++ byte '=' ::
        (behind ++ quote :: (raw ++ quote :: (t ++ (gap ++ rest))))) := by
      rw [hc1]
      simp [append_assoc]
    obtain ⟨c2, hread, hc2⟩ := exists_readAttribute_valued hname hnew hbefore hbehind hquote hraw hvalue hc1'
    exact ⟨c2, hread, ih hdist hc2⟩

/-! ## Start tags -/

theorem lookup_eq_some_iff_mem (hdist : (attributes.map Prod.fst).Nodup) :
    attributes.lookup name = some value ↔ (name, value) ∈ attributes := by
  rw [lookup_eq_some_iff]
  constructor
  · rintro ⟨before, behind, rfl, -⟩
    simp
  · intro hmem
    obtain ⟨before, behind, rfl⟩ := append_of_mem hmem
    refine ⟨before, behind, rfl, fun one hone => ?_⟩
    rw [map_append, map_cons] at hdist
    have := (nodup_append.1 hdist).2.2 _ (mem_map_of_mem hone) name mem_cons_self
    simpa using Ne.symm this

theorem isOk_spaceRule_iff (hdist : (attributes.map Prod.fst).Nodup) : (∃ rule, spaceRule attributes = .ok rule) ↔
      ∀ value, (ofString "xml:space", value) ∈ attributes → value = "preserve" ∨ value = "default" := by
  have hlookup : ∀ value, attributes.lookup spaceAttribute = some value ↔
      (ofString "xml:space", value) ∈ attributes := fun value => lookup_eq_some_iff_mem hdist
  unfold spaceRule
  cases hspace : attributes.lookup spaceAttribute with
  | none =>
    have hno : ∀ value, (ofString "xml:space", value) ∉ attributes := fun value hmem => by
      rw [(hlookup value).2 hmem] at hspace
      cases hspace
    simp [hno]
  | some found =>
    have honly : ∀ value, (ofString "xml:space", value) ∈ attributes ↔ found = value := fun value => by
      rw [← hlookup, hspace, Option.some.injEq]
    simp only [honly, forall_eq']
    split
    · simp_all
    · split <;> simp_all

theorem isTag_of_readAttributes (hname : (c.span isNameByte).1 ≠ [])
    (hread : readAttributes {} [] (c.span isNameByte).2 = .ok (attributes, c'))
    (hrule : spaceRule attributes = .ok rule) :
    ∃ tag, IsTag (c.span isNameByte).1 attributes tag ∧ c.rest = tag ++ c'.rest := by
  have hname : IsName (c.span isNameByte).1 := ⟨hname, fun b hb => of_mem_span hb⟩
  have hend : EndsName (c.span isNameByte).2.rest := fun b hb => of_head_span hb
  have hnodup := nodup_of_readAttributes (by simp) hread
  obtain ⟨t, new, rfl, hrest, u, gap, rfl, hu, hgap⟩ := trailing_of_readAttributes hread
  rw [hrest] at hend
  refine ⟨_, .mk hname hend.of_append.of_append hu hgap hnodup ((isOk_spaceRule_iff hnodup).1 ⟨rule, hrule⟩), ?_⟩
  rw [rest_span c isNameByte, hrest]
  simp only [append_assoc]

theorem IsTag.exists_read (htag : IsTag name attributes tag) (hend : EndsTag rest) (hc : c.rest = tag ++ rest) :
    ∃ c1 c2, c.span isNameByte = (name, c1) ∧ name.isEmpty = false ∧ readAttributes {} [] c1 = .ok (attributes, c2) ∧
      c2.rest = rest ∧ ∃ rule, spaceRule attributes = .ok rule := by
  obtain ⟨hname, hends, ht, hgap, hdist, hspace⟩ := htag
  rw [append_assoc, append_assoc] at hc
  obtain ⟨htake, hrest⟩ := span_eq hc hname.2 (hends.append (hgap.endsName.append hend.endsName))
  have hnodup : (([] ++ attributes).map Prod.fst).Nodup := hdist
  obtain ⟨c2, hread, hc2⟩ := exists_readAttributes ht hgap hend hnodup hrest
  exact ⟨_, c2, Prod.ext htake rfl, by simpa using hname.1, hread, hc2, (isOk_spaceRule_iff hdist).2 hspace⟩

theorem exists_readStartTag_closed (place : Position) (htag : IsTag name attributes tag)
    (hc : c.rest = tag ++ ("/>" ++ rest)) :
    ∃ c', readStartTag {} place c = .ok (.startTag name attributes true, c') ∧ c'.rest = rest := by
  obtain ⟨c1, c2, hspan, hne, hread, hc2, rule, hrule⟩ := htag.exists_read (.inr ⟨rest, rfl⟩) hc
  obtain ⟨c', heat, hc'⟩ := exists_eat? hc2
  refine ⟨c', ?_, hc'⟩
  simp only [readStartTag, hspan, hne, Bool.false_eq_true, if_false, hread, hrule, heat]

theorem exists_readStartTag_open (place : Position) (htag : IsTag name attributes tag)
    (hc : c.rest = tag ++ (">" ++ rest)) :
    ∃ c', readStartTag {} place c = .ok (.startTag name attributes false, c') ∧ c'.rest = rest := by
  obtain ⟨c1, c2, hspan, hne, hread, hc2, rule, hrule⟩ := htag.exists_read (.inl ⟨rest, rfl⟩) hc
  obtain ⟨c', heat, hc'⟩ := exists_eat? hc2
  have hclosed : c2.eat? "/>" = none := by
    rw [eat?_eq_none_iff, hc2, show ofString "/>" = [byte '/', byte '>'] by decide,
      show ofString ">" = [byte '>'] by decide, singleton_append, cons_prefix_cons]
    exact fun h => absurd h.1 (by decide)
  refine ⟨c', ?_, hc'⟩
  simp only [readStartTag, hspan, hne, Bool.false_eq_true, if_false, hread, hrule, heat, hclosed]

end FlutterLayout.Markup
