import FlutterLayout.Proofs.Pipe.Desugaring

/-!
# Stems — what the variables of a subscription are named after

A subscription has two variables, named after one stem: the text of the atom and the names of the pipes it
went through.  The stem leaves out the kind of the subscription and the arguments of the pipes, so different
subscriptions may share their variables.
-/

namespace FlutterLayout.Pipe

open List Text Subscription

variable {α β : Type} {P : α → Prop} {Q : β → Prop} {t u x y value stem : Text} {b : UInt8} {n : Nat} {provider : Text}
  {read : Text → StateM Nat Expression} {S : Subscription → Prop} {ts : List Text} {s : Subscription}

/-! ## Whatever the numbers are -/

/-- The result has the property, from whatever number the placeholders start. -/
def Always (P : α → Prop) (m : StateM Nat α) : Prop :=
  ∀ n, P (m.run n).1

namespace Always

theorem pure (h : P a) : Always P (Pure.pure a : StateM Nat α) :=
  fun _ => h

theorem bind (hm : Always P m) (hf : ∀ a, P a → Always Q (f a)) : Always Q (m >>= f) := by
  intro n
  exact hf _ (hm n) _

end Always

theorem always_hideGroups (hread : ∀ t, Always (fun e => ∀ s ∈ e.subscriptions, S s) (read t)) (gs : List Group)
    (hh : ∀ s ∈ h.subscriptions, S s) : Always (fun h' => ∀ s ∈ h'.subscriptions, S s) (hideGroups read gs h) := by
  induction gs generalizing h with
  | nil => exact .pure hh
  | cons g gs ih =>
    unfold hideGroups
    split
    · refine (hread g.inner).bind fun e he => ?_
      intro n
      exact ih (forall_mem_append.2 ⟨hh, he⟩) _
    · exact ih hh

theorem always_hide (hread : ∀ t, Always (fun e => ∀ s ∈ e.subscriptions, S s) (read t)) (t : Text) :
    Always (fun h => ∀ s ∈ h.subscriptions, S s) (hide read t) :=
  (always_hideGroups hread _ (forall_mem_nil S)).bind fun _ hh => .pure hh

theorem always_readAll (hread : ∀ t ∈ ts, Always (fun e => ∀ s ∈ e.subscriptions, S s) (read t)) :
    Always (fun es => ∀ s ∈ es.flatMap Expression.subscriptions, S s) (readAll read ts) := by
  induction ts with
  | nil => exact .pure (forall_mem_nil S)
  | cons t ts ih =>
    obtain ⟨ht, hts⟩ := forall_mem_cons.1 hread
    refine ht.bind fun e he => (ih hts).bind fun es hes => .pure ?_
    rw [flatMap_cons]
    exact forall_mem_append.2 ⟨he, hes⟩

/-- What holds of the subscriptions of every chain holds of all subscriptions. -/
theorem always_readNested (hchain : ∀ reveal t, ∀ s ∈ (readChain provider reveal t).subscriptions, S s) (fuel : Nat)
    (t : Text) : Always (fun e => ∀ s ∈ e.subscriptions, S s) (readNested provider fuel t) := by
  induction fuel generalizing t with
  | zero => exact .pure (forall_mem_nil S)
  | succ fuel ih =>
    rw [readNested_succ]
    split
    · exact ih _
    · refine (always_hide ih _).bind fun h hh => ?_
      unfold readHidden
      split
      · exact (always_readAll fun t _ => ih t).bind fun es hes => .pure (forall_mem_append.2 ⟨hes, hh⟩)
      · exact .pure (forall_mem_append.2 ⟨hchain _ _, hh⟩)

/-! ## One stem for two variables -/

/-- The variables are named after one stem, and that is the source unless the source is a call. -/
def Subscription.IsNamed (s : Subscription) : Prop :=
  ∃ stem, s = make s.kind s.source stem ∧ (stem = s.source ∨ byte '(' ∈ s.source)

structure Chain.IsNamed (chain : Chain) : Prop where
  stem : chain.stem = chain.value ∨ byte '(' ∈ chain.value
  subscriptions : ∀ s ∈ chain.subscriptions, s.IsNamed

theorem Chain.IsNamed.pipe {chain : Chain} {reveal : Text → Text} (h : chain.IsNamed) (part : Text) :
    (chain.pipe provider reveal part).IsNamed := by
  unfold Chain.pipe
  simp only
  split
  · exact h
  · split
    · refine ⟨.inl rfl, forall_mem_cons.2 ⟨⟨chain.stem, rfl, h.stem⟩, h.subscriptions⟩⟩
    · refine ⟨.inr ?_, h.subscriptions⟩
      have hopen : byte '(' ∈ ofString ".transform(context, " := by decide
      simp [transformCall, hopen]

theorem isNamed_readChain (reveal : Text → Text) (t : Text) :
    ∀ s ∈ (readChain provider reveal t).subscriptions, s.IsNamed := by
  refine Chain.IsNamed.subscriptions (foldlRecOn (motive := Chain.IsNamed) _ _ ⟨.inl rfl, forall_mem_nil _⟩ ?_)
  exact fun chain h part _ => h.pipe part

def subscriptionsOf (provider : Text) (ts : List Text) (n : Nat) : List Subscription :=
  ((readAll (Expression.read provider) ts).run n).1.flatMap Expression.subscriptions

theorem isNamed_of_mem (hs : s ∈ subscriptionsOf provider ts n) : s.IsNamed :=
  always_readAll (fun _ _ => always_readNested isNamed_readChain _ _) n s hs

/-! ## One stem for a source -/

def callStart (provider : Text) : Text :=
  provider ++ ".transform(context, \""

theorem callStart_eq (provider : Text) : callStart provider =
    provider ++ (ofString ".transform" ++ byte '(' :: (ofString "context, " ++ [doubleQuote])) := rfl

theorem ofString_transform : ofString ".transform(context, " =
    ofString ".transform" ++ byte '(' :: ofString "context, " := rfl

/-- The values of a chain and their stems, from balanced atoms that are no calls of the provider. -/
inductive Piped (provider : Text) : (value stem : Text) → Prop where
  | atom {t : Text} (ht : Nests [] [byte ','] t) (hcall : ¬ callStart provider <+: t) : Piped provider t t
  | call {value stem name : Text} {arguments : List Text} (h : Piped provider value stem) (hname : IsName name)
      (harguments : ∀ a ∈ arguments, Nests [] [] a) :
      Piped provider (callStart provider ++ name ++ "\", " ++ value ++ ", [" ++ join ", " arguments ++ "])")
        (stem ++ " " ++ name)

theorem nests_comma : Nests [] [] (ofString ", ") :=
  .of_bytes (by decide)

theorem nests_join (h : ∀ x ∈ xs, Nests [] [] x) : Nests [] [] (join ", " xs) :=
  join_induction .nil (fun ht hu => ht.append (nests_comma.append hu)) h

theorem nests_transformCall (hprov : Nests [] outside provider)
    (hmethod : Nests [] outside (ofString ".transform")) (hname : Nests [] [] (quoted name))
    (hvalue : Nests [] [] value) (hargs : ∀ a ∈ arguments, Nests [] [] a) :
    Nests [] outside (transformCall provider name value arguments) := by
  have hcontext : Nests [] [] (ofString "context, ") := .of_bytes (by decide)
  have hlist : Nests [] [] (byte '[' :: (join ", " arguments ++ [byte ']'])) :=
    .bracket (by decide) (nests_join hargs) .nil
  have hinner := hcontext.append (hname.append (nests_comma.append (hvalue.append (nests_comma.append hlist))))
  have hcall := hprov.append (hmethod.append (.bracket parentheses_mem hinner .nil))
  simpa [transformCall, ofString_transform, ofString_commaBracket, ofString_brackets] using hcall

theorem Piped.nests (hprov : Nests [] [byte ','] provider) (h : Piped provider value stem) :
    Nests [] [byte ','] value := by
  induction h with
  | atom ht _ => exact ht
  | @call value stem name arguments _ hname hargs ih =>
    have hvalue : Nests [] [] value := ih.weaken (.refl _) (nil_subset _)
    have hquoted : Nests [] [] (quoted name) := hname.quoted_eq ▸ .literal (by decide) hname.literalBody .nil
    have hcall := nests_transformCall hprov (.of_bytes (by decide)) hquoted hvalue hargs
    simpa [transformCall, hname.quoted_eq, callStart_eq, ofString_transform, ofString_quoteComma] using hcall

theorem eq_of_append_comma (hx : Nests [] [byte ','] x) (hy : Nests [] [byte ','] y)
    (h : x ++ byte ',' :: t = y ++ byte ',' :: u) : x = y := by
  have hhead : ∀ {x t : Text}, Nests [] [byte ','] x →
      (splitTop (byte ',') (x ++ byte ',' :: t)).head? = some x := by
    intro x t hx
    have hcomma : isOrdinary (byte ',') = true := by decide
    obtain ⟨ms, hms, hspan, -⟩ := hx.marksFrom 0 none (byte ',' :: t)
    rw [splitTop, marks, hms, marksFrom_ordinary hcomma,
      splitMarks_append_cons (hspan.not_cut hcomma (by decide) (by simp)) (by simp), hspan.bytes]
    rfl
  have hsame := hhead (t := t) hx
  rw [h, hhead hy] at hsame
  exact (Option.some.inj hsame).symm

theorem eq_of_append_quote (hx : b ∉ x) (hy : b ∉ y) (h : x ++ b :: t = y ++ b :: u) : x = y ∧ t = u := by
  rcases append_eq_append_iff.1 h with ⟨k, rfl, hk⟩ | ⟨k, rfl, hk⟩
  · rcases k with - | ⟨c, k⟩
    · exact ⟨by simp, (cons.inj hk).2⟩
    · exact absurd (by simp [(cons.inj hk).1]) hy
  · rcases k with - | ⟨c, k⟩
    · exact ⟨by simp, (cons.inj hk).2.symm⟩
    · exact absurd (by simp [(cons.inj hk).1]) hx

theorem callStart_prefix_call (name value rest : Text) :
    callStart provider <+: callStart provider ++ name ++ "\", " ++ value ++ ", [" ++ rest ++ "])" := by
  simp [append_assoc]

theorem Piped.eq_of_not_prefix (h : Piped provider value stem) (hcall : ¬ callStart provider <+: value) :
    stem = value := by
  cases h with
  | atom => rfl
  | call => exact absurd (callStart_prefix_call ..) hcall

theorem Piped.exists_of_prefix (h : Piped provider value stem) (hcall : callStart provider <+: value) :
    ∃ inner stem' name arguments, Piped provider inner stem' ∧ IsName name ∧ stem = stem' ++ " " ++ name ∧
      value = callStart provider ++ name ++ "\", " ++ inner ++ ", [" ++ join ", " arguments ++ "])" := by
  cases h with
  | atom _ hatom => exact absurd hcall hatom
  | call h hname _ => exact ⟨_, _, _, _, h, hname, rfl, rfl⟩

theorem Piped.stem_unique (hprov : Nests [] [byte ','] provider) (h : Piped provider value stem)
    (h' : Piped provider value stem') : stem = stem' := by
  induction h generalizing stem' with
  | atom _ hcall => exact (h'.eq_of_not_prefix hcall).symm
  | @call value stem name arguments h hname hargs ih =>
    obtain ⟨value', stem'', name', arguments', hinner, hname', rfl, htext⟩ :=
      h'.exists_of_prefix (callStart_prefix_call ..)
    have hcut : name ++ doubleQuote :: (ofString ", " ++ (value ++ (ofString ", [" ++ join ", " arguments ++ "])"))) =
        name' ++ doubleQuote :: (ofString ", " ++ (value' ++ (ofString ", [" ++ join ", " arguments' ++ "])"))) := by
      simpa [ofString_quoteComma, append_assoc] using htext
    obtain ⟨rfl, hrest⟩ := eq_of_append_quote (fun hb => hname.ne_doubleQuote hb rfl)
      (fun hb => hname'.ne_doubleQuote hb rfl) hcut
    have hvalue : value ++ byte ',' :: (ofString " [" ++ join ", " arguments ++ "])") =
        value' ++ byte ',' :: (ofString " [" ++ join ", " arguments' ++ "])") := append_cancel_left hrest
    obtain rfl := eq_of_append_comma (h.nests hprov) (hinner.nests hprov) hvalue
    rw [ih hinner]

/-! ## The subscriptions of an expression -/

def Subscription.IsPiped (provider : Text) (s : Subscription) : Prop :=
  ∃ stem, s = make s.kind s.source stem ∧ Piped provider s.source stem

structure Chain.IsPiped (provider : Text) (chain : Chain) : Prop where
  value : Piped provider chain.value chain.stem
  subscriptions : ∀ s ∈ chain.subscriptions, s.IsPiped provider

theorem piped_of_tame (ht : ∀ b ∈ t, Tame b) : Piped provider t t := by
  refine .atom (nests_of_tame ht (by decide)) fun hcall => ?_
  have hopen : byte '(' ∈ callStart provider := by simp [callStart_eq]
  exact absurd (ht _ (hcall.subset hopen)).1 (by decide)

theorem Chain.IsPiped.apply {chain : Chain} {c : Call Text} (h : chain.IsPiped provider) (hname : IsName c.name)
    (hargs : ∀ a ∈ c.arguments, Nests [] [] a) : (c.apply provider chain).IsPiped provider := by
  unfold Call.apply
  split
  · rename_i kind _
    exact ⟨piped_of_tame (tame_valueName kind chain.value chain.stem),
      forall_mem_cons.2 ⟨⟨chain.stem, rfl, h.value⟩, h.subscriptions⟩⟩
  · exact ⟨.call h.value hname hargs, h.subscriptions⟩

theorem Flow.IsBalanced.isPiped_meaning {w : Flow Text} (hw : w.IsBalanced [bar])
    (hatom : ¬ callStart provider <+: w.atom) :
    (w.meaning provider).IsPiped provider := by
  have hfirst : Nests [] [byte ','] w.atom := hw.atom.weaken (nil_subset _) (by simp)
  refine foldlRecOn (motive := Chain.IsPiped provider) w.calls _ ⟨.atom hfirst hatom, forall_mem_nil _⟩ ?_
  intro chain h c hc
  refine h.apply (hw.names c hc) fun a ha => ?_
  exact (hw.arguments c hc a ha).weaken (nil_subset _) (nil_subset _)

theorem Flow.IsBalanced.trim {inside : List UInt8} {w : Flow Text} (hw : w.IsBalanced inside) :
    (w.map trim).IsBalanced inside where
  atom := hw.atom.of_strips (strips_trim _)
  names c' hc' := by
    obtain ⟨c, hc, rfl⟩ := mem_map.1 hc'
    exact hw.names c hc
  arguments c' hc' a' ha' := by
    obtain ⟨c, hc, rfl⟩ := mem_map.1 hc'
    obtain ⟨a, ha, rfl⟩ := mem_map.1 ha'
    exact (hw.arguments c hc a ha).of_strips (strips_trim _)

theorem Phrase.isPiped_value {e : Phrase (Piece α)} {m : α → Expression} (he : e.WellFormed)
    (hm : ∀ g ∈ e.groups, IsValue (m g).value ∧ ∀ s ∈ (m g).subscriptions, s.IsPiped provider)
    (hatoms : ∀ w ∈ e.flows, ¬ callStart provider <+: w.atom.valueWith m) :
    ∀ s ∈ (e.value provider m).subscriptions, s.IsPiped provider := by
  unfold Phrase.value
  split
  · rename_i g hgroup
    exact (hm g (Phrase.mem_groups_of_group? hgroup)).2
  · have hbal := Phrase.isBalanced_spell he (Subset.refl [bar]) fun g hg => (hm g hg).1.nests
    refine forall_mem_append.2 ⟨fun s hs => ?_, fun s hs => ?_⟩
    · obtain ⟨w', hw', hs⟩ := mem_flatMap.1 hs
      rw [Phrase.flows_map] at hw'
      obtain ⟨w, hw, rfl⟩ := mem_map.1 hw'
      have hflow := (hbal _ (by rw [Phrase.flows_map]; exact mem_map_of_mem hw)).trim
      rw [Flow.map_map] at hflow
      exact (hflow.isPiped_meaning (hatoms w hw)).subscriptions s hs
    · obtain ⟨g, hg, hs⟩ := mem_flatMap.1 hs
      exact (hm g hg).2 s hs

def Nested.AtomsApart (provider : Text) : {depth : Nat} → Nested depth → Prop
  | _ + 1, e => (∀ w ∈ Phrase.flows e, ¬ callStart provider <+: w.atom.valueWith (Nested.meaning provider)) ∧
      ∀ g ∈ Phrase.groups e, AtomsApart provider g

theorem Nested.isPiped_meaning (hprov : IsValue provider) {depth : Nat} {e : Nested depth} (he : e.WellFormed)
    (hclean : Clean e.text) (hatoms : e.AtomsApart provider) :
    ∀ s ∈ (e.meaning provider).subscriptions, s.IsPiped provider := by
  induction depth with
  | zero => exact e.elim
  | succ depth ih =>
    refine Phrase.isPiped_value he.1 (fun g hg => ?_) hatoms.1
    have hgroup := Phrase.clean_group hclean hg
    exact ⟨Nested.isValue_meaning hprov (he.2 g hg).2 hgroup, ih (he.2 g hg).2 hgroup (hatoms.2 g hg)⟩

/-! ## Names and keys -/

/-- The text of an expression that is read as what it stands for, and whose sources can be told from calls. -/
def IsRendering (provider t : Text) : Prop :=
  ∃ (depth : Nat) (e : Nested depth), (e.WellFormed ∧ e.KeepsApart ∧ e.AtomsApart provider) ∧
    Clean e.text ∧ ¬ InBraces e.text ∧ t = e.text

theorem isPiped_of_mem (hprov : IsValue provider) (hts : ∀ t ∈ ts, IsRendering provider t)
    (hs : s ∈ subscriptionsOf provider ts n) : s.IsPiped provider := by
  refine always_readAll (fun t ht => ?_) n s hs
  obtain ⟨depth, e, ⟨he, hapart, hatoms⟩, hclean, hbraces, rfl⟩ := hts t ht
  intro n
  obtain ⟨k, -, hread⟩ := Nested.readNested_text hprov he hapart hclean (length_le_nestingFuel e.text) n
  rw [Expression.read, stripBraces_eq hbraces, hread]
  exact Nested.isPiped_meaning hprov he hclean hatoms

theorem key_eq_iff {s' : Subscription} : s.key = s'.key ↔ s.kind = s'.kind ∧ s.source = s'.source := by
  constructor
  · intro h
    have hfree : ∀ kind : Kind, 0 ∉ kind.name := by
      intro kind
      cases kind <;> decide
    have hname : ∀ kind kind' : Kind, kind.name = kind'.name → kind = kind' := by
      intro kind kind'
      cases kind <;> cases kind' <;> decide
    have hcut : s.kind.name ++ 0 :: s.source = s'.kind.name ++ 0 :: s'.source := by simpa [key] using h
    obtain ⟨hkind, hsource⟩ := eq_of_append_quote (hfree s.kind) (hfree s'.kind) hcut
    exact ⟨hname _ _ hkind, hsource⟩
  · rintro ⟨hkind, hsource⟩
    rw [key, key, hkind, hsource]

theorem Subscription.IsNamed.valueName_eq_iff {s' : Subscription} (h : s.IsNamed) (h' : s'.IsNamed) :
    s.valueName = s'.valueName ↔ s.snapshotName = s'.snapshotName := by
  obtain ⟨stem, hs, -⟩ := h
  obtain ⟨stem', hs', -⟩ := h'
  rw [hs, hs']
  exact (append_left_inj _).trans (append_left_inj _).symm

theorem Subscription.IsNamed.valueName_eq (h : s.IsNamed) (hplain : variableName s.source = s.source) :
    s.valueName = s.source ++ "Value" := by
  obtain ⟨stem, hs, hstem | hcall⟩ := h
  · rw [hs, hstem]
    exact congrArg (· ++ ofString "Value") hplain
  · rw [← hplain] at hcall
    exact absurd (tame_variableName _ _ hcall).1 (by decide)

/-- The two variables of a subscription tell as much as one of them.  Among subscriptions of one kind to plain
variables they tell the source; in general they tell less than the key. -/
theorem names_of_key {ts : List Text} {s s' : Subscription} (hs : s ∈ subscriptionsOf provider ts n)
    (hs' : s' ∈ subscriptionsOf provider ts n) :
    (s.valueName = s'.valueName ↔ s.snapshotName = s'.snapshotName) ∧
    (s.kind = s'.kind → variableName s.source = s.source → variableName s'.source = s'.source →
      (s.valueName = s'.valueName ↔ s.key = s'.key)) ∧
    (IsValue provider → Nests [] [Text.byte ','] provider → (∀ t ∈ ts, IsRendering provider t) → s.key = s'.key →
      s.valueName = s'.valueName) := by
  refine ⟨(isNamed_of_mem hs).valueName_eq_iff (isNamed_of_mem hs'), fun hkind hplain hplain' => ?_, ?_⟩
  · rw [(isNamed_of_mem hs).valueName_eq hplain, (isNamed_of_mem hs').valueName_eq hplain', key_eq_iff,
      List.append_left_inj]
    exact ⟨fun hsource => ⟨hkind, hsource⟩, And.right⟩
  · intro hprovider hcomma hts hkey
    obtain ⟨stem, hmake, hpiped⟩ := isPiped_of_mem hprovider hts hs
    obtain ⟨stem', hmake', hpiped'⟩ := isPiped_of_mem hprovider hts hs'
    have hstem : stem = stem' := hpiped.stem_unique hcomma ((key_eq_iff.1 hkey).2 ▸ hpiped')
    rw [hmake, hmake', hstem]
    rfl

theorem isRendering_through (hatom : Nests [bar] separators atom)
    (hnames : ∀ name ∈ names, IsName name) (hcall : ¬ callStart provider <+: trim atom)
    (hclean : Clean (through atom names).text) (hbraces : ¬ InBraces (through atom names).text) :
    IsRendering provider (through atom names).text := by
  refine ⟨1, through atom names, ⟨through_wellFormed hatom hnames, through_keepsApart atom names, ?_, fun g => g.elim⟩,
    hclean, hbraces, rfl⟩
  intro w hw
  obtain rfl := mem_singleton.1 hw
  simpa [Piece.valueWith, Piece.spell, through] using hcall

def chains : List Text :=
  ["a | n | stream", "a | n | stream | m | future", "b | stream", "c | stream"]

theorem isRendering_chains : ∀ t ∈ chains, IsRendering defaultProvider t := by
  have hplain : ∀ x ∈ [ofString "a", ofString "b", ofString "c"], Nests [bar] separators x ∧
      ¬ callStart defaultProvider <+: trim x := fun x hx =>
    ⟨nests_of_plain (fun b hb => by revert b x; decide +kernel) (.refl _), by revert x; decide +kernel⟩
  simp only [forall_mem_cons, not_mem_nil, false_implies, implies_true, and_true] at hplain
  obtain ⟨ha, hb, hc⟩ := hplain
  have hchain : ∀ {atom : Text} (names : List Text),
      Nests [bar] separators atom ∧ ¬ callStart defaultProvider <+: trim atom →
      (∀ name ∈ names, IsName name) ∧ Clean (through atom names).text ∧ ¬ InBraces (through atom names).text →
      IsRendering defaultProvider (through atom names).text :=
    fun _ hatom hrest => isRendering_through hatom.1 hrest.1 hatom.2 hrest.2.1 hrest.2.2
  rw [chains]
  simp only [forall_mem_cons, not_mem_nil, false_implies, implies_true, and_true]
  exact ⟨hchain ["n", "stream"] ha (by decide +kernel), hchain ["n", "stream", "m", "future"] ha (by decide +kernel),
    hchain ["stream"] hb (by decide +kernel), hchain ["stream"] hc (by decide +kernel)⟩

theorem subscriptionsOf_chains : subscriptionsOf defaultProvider chains 0 =
    [⟨.stream, "_pipeProvider.transform(context, \"n\", a, [])", [], "aNValue", "aNSnapshot", false⟩,
      ⟨.future, "_pipeProvider.transform(context, \"m\", aNValue, [])", [], "aNValueMValue", "aNValueMSnapshot", false⟩,
      make .stream "_pipeProvider.transform(context, \"n\", a, [])" "a n",
      make .stream "b" "b", make .stream "c" "c"] := by
  decide +kernel

theorem names_of_key_chains :
    let first : Subscription := ⟨.stream, "_pipeProvider.transform(context, \"n\", a, [])", [],
      "aNValue", "aNSnapshot", false⟩
    let again := Subscription.make .stream "_pipeProvider.transform(context, \"n\", a, [])" "a n"
    let plain := Subscription.make .stream "b" "b"
    let other := Subscription.make .stream "c" "c"
    (∀ s ∈ [first, again, plain, other], s ∈ subscriptionsOf defaultProvider chains 0) ∧
    (plain.valueName = other.valueName ↔ plain.key = other.key) ∧ first.valueName = again.valueName := by
  intro first again plain other
  have hmem : ∀ s ∈ [first, again, plain, other], s ∈ subscriptionsOf defaultProvider chains 0 := by
    rw [subscriptionsOf_chains]
    simp [first, again, plain, other]
  refine ⟨hmem, ?_, ?_⟩
  · exact (names_of_key (hmem plain (by simp)) (hmem other (by simp))).2.1 rfl (by decide +kernel) (by decide +kernel)
  · exact (names_of_key (hmem first (by simp)) (hmem again (by simp))).2.2
      isValue_defaultProvider (.of_bytes (by decide))
      isRendering_chains rfl

/-- The kind and the arguments are missing from the names, and an atom that is a call is named after all of it. -/
theorem exists_shared_names :
    (∃ s s', subscriptionsOf defaultProvider ["a | stream", "a | future"] 0 = [s, s'] ∧
      s.valueName = s'.valueName ∧ s.snapshotName = s'.snapshotName ∧ s.key ≠ s'.key) ∧
    (∃ s s', subscriptionsOf defaultProvider ["a | n:1 | stream", "a | n:2 | stream"] 0 = [s, s'] ∧
      s.kind = s'.kind ∧ s.valueName = s'.valueName ∧ s.snapshotName = s'.snapshotName ∧ s.key ≠ s'.key) ∧
    (∃ s s', subscriptionsOf defaultProvider
        ["a | n | stream", "_pipeProvider.transform(context, \"n\", a, []) | stream"] 0 = [s, s'] ∧
      s.key = s'.key ∧ s.valueName ≠ s'.valueName ∧ s.snapshotName ≠ s'.snapshotName) := by
  refine ⟨⟨.make .stream "a" "a", .make .future "a" "a", by decide +kernel, by decide +kernel⟩,
    ⟨.make .stream "_pipeProvider.transform(context, \"n\", a, [1])" "a n",
      .make .stream "_pipeProvider.transform(context, \"n\", a, [2])" "a n", by decide +kernel, by decide +kernel⟩,
    ⟨.make .stream "_pipeProvider.transform(context, \"n\", a, [])" "a n",
      .make .stream "_pipeProvider.transform(context, \"n\", a, [])" "_pipeProvider.transform(context, \"n\", a, [])",
      by decide +kernel, by decide +kernel⟩⟩

end FlutterLayout.Pipe
