import FlutterLayout.Proofs.Pipe.Grouping
import FlutterLayout.Proofs.Pipe.Numbering

/-!
# Desugaring — reading what was written gives the meaning

`read_text` says that `Expression.read` takes the text of an expression for what the expression means,
however deep its groups nest.  The induction is on that depth.  One level of it is
`Phrase.readNested_spell`: groups are hidden, the text is cut at commas, pipes and colons, and the values of
the groups are put in place.
-/

namespace FlutterLayout.Pipe

open List Text Phrase
open Text (Strips)

variable {α β γ : Type} {inside outside : List UInt8} {t u : Text} {provider : Text} {reveal : Text → Text}
variable {hidden : List (Nat × Expression)} {n fuel : Nat}

/-! ## Flows without groups -/

theorem Chain.pipe_text (chain : Chain) {c : Call Text} (hname : IsName c.name)
    (hargs : ∀ a ∈ c.arguments, Nests [bar] separators a) :
    chain.pipe provider reveal c.text = (c.map fun a => reveal (trim a)).apply provider chain := by
  have hcolon : isOrdinary (byte ':') = true := by decide
  have hsplit : splitTop (byte ':') c.text = c.name :: c.arguments :=
    splitTop_flatMap hcolon (by decide) (by decide : byte ':' ∈ separators)
      (nests_of_tame hname.tame (.refl _)) hargs
  have hnonempty : c.name.isEmpty = false := by simpa using hname.1
  unfold Chain.pipe Call.apply
  simp only [hsplit, headD_cons, tail_cons, hname.trim_eq, hnonempty, Bool.false_eq_true, if_false, Call.map]
  cases Kind.ofName? c.name with
  | some kind => rfl
  | none =>
    have hopen : ofString ".transform(context, \"" = ofString ".transform(context, " ++ [doubleQuote] := rfl
    simp only [transformCall, hname.quoted_eq, hopen, ofString_quoteComma, append_assoc, cons_append, nil_append]

theorem readChain_text {w : Flow Text} (hw : w.IsBalanced [bar]) :
    readChain provider reveal w.text = (w.map fun a => reveal (trim a)).meaning provider := by
  have hcalls : ∀ x ∈ w.calls.map Call.text, Nests [bar] [bar, byte ','] x := by
    intro x hx
    obtain ⟨c, hc, rfl⟩ := mem_map.1 hx
    exact hw.call hc
  have htext : w.text = w.atom ++ (w.calls.map Call.text).flatMap ([space, bar, space] ++ ·) := by
    rw [Flow.text, flatMap_map]
  rw [htext, readChain_flatMap (by simp) (by simp) (by decide) hw.atom hcalls, Flow.meaning, foldl_map, Flow.map,
    foldl_map]
  refine foldl_ext _ _ _ fun chain c hc => ?_
  exact Chain.pipe_text chain (hw.names c hc) (hw.arguments c hc)

def Chain.expression (chain : Chain) : Expression :=
  ⟨chain.value, chain.subscriptions⟩

theorem readNested_strips (h : Strips t u) : readNested provider (fuel + 1) t = readNested provider (fuel + 1) u := by
  rw [readNested, readNested, h.trim_eq]

theorem readNested_flow {w : Flow Text} (hw : w.IsBalanced [bar]) :
    readNested provider (fuel + 1) w.text = pure ((w.map trim).meaning provider).expression := by
  have hnests := hw.text.of_strips (strips_trim _)
  have hwhole : (wholeGroup? (trim w.text)).filter hasPipe = none := by
    rw [Option.filter_eq_none_iff]
    intro body hbody
    simp [(hnests.of_wholeGroup? hbody).2.hasPipe_eq_false (by simp)]
  have hhide : hide (readNested provider fuel) (trim w.text) = pure ⟨trim w.text, [], []⟩ := by
    rw [hide_eq_hideText, ← append_nil (trim w.text), hideText_nests (by simp) hnests, hideText_nil]
    simp [Hidden.grow]
  have hsplit : splitTop (byte ',') (trim w.text) = [trim w.text] := by
    have hcomma : isOrdinary (byte ',') = true := by decide
    simpa using splitTop_flatMap hcomma (by decide) (by simp) hnests (forall_mem_nil _)
  have hreveal : Hidden.reveal ⟨trim w.text, [], []⟩ = id := rfl
  rw [readNested]
  simp only [hwhole, hhide, pure_bind, hsplit, hreveal, ← readChain_strips (strips_trim w.text), readChain_text hw]
  simp [Chain.expression]

/-! ## Revealed flows -/

theorem revealAll_flatMap {F F' : β → Text} {c : UInt8} {xs : List β} (hc : ¬ IsPlaceholderByte c)
    (h : ∀ x ∈ xs, revealAll hidden (F x) = F' x) (t : Text) :
    revealAll hidden (t ++ xs.flatMap fun x => c :: F x) = revealAll hidden t ++ xs.flatMap fun x => c :: F' x := by
  induction xs generalizing t with
  | nil => simp
  | cons x xs ih =>
    obtain ⟨hx, hxs⟩ := forall_mem_cons.1 h
    rw [flatMap_cons, cons_append, revealAll_append_cons hc, ih hxs, hx]
    rfl

theorem revealAll_call {c : Call Text} (hname : Clean c.name) :
    revealAll hidden c.text = (c.map (revealAll hidden)).text := by
  rw [Call.text, revealAll_flatMap (by decide) fun _ _ => rfl, revealAll_clean hname]
  simp [Call.text, Call.map, flatMap_map]

theorem revealAll_flow {w : Flow Text} (hnames : ∀ c ∈ w.calls, Clean c.name) :
    revealAll hidden w.text = (w.map (revealAll hidden)).text := by
  have hpipe : ∀ b ∈ [bar, space], ¬ IsPlaceholderByte b := by decide
  have hcall : ∀ c ∈ w.calls, revealAll hidden ([bar, space] ++ c.text) =
      [bar, space] ++ (c.map (revealAll hidden)).text := fun c hc => by
    rw [revealAll_append_left hpipe, revealAll_call (hnames c hc)]
  have htext := revealAll_flatMap (c := space) (by decide) hcall w.atom
  rw [Flow.text]
  simpa [Flow.text, Flow.map, flatMap_map] using htext

/-! ## One level -/

structure Phrase.IsReadable (e : Phrase (Piece Expression)) : Prop where
  wellFormed : e.WellFormed
  clean : e.HasCleanTexts
  apart : ∀ p ∈ e.pieces, p.KeepsApart
  values : ∀ g ∈ e.groups, IsValue g.value

theorem Phrase.isReadable_map {e : Phrase (Piece α)} {m : α → Expression} (he : e.WellFormed) (hclean : e.HasCleanTexts)
    (hapart : ∀ p ∈ e.pieces, p.KeepsApart) (hm : ∀ g ∈ e.groups, IsValue (m g).value) :
    (e.map (.map m)).IsReadable := by
  constructor
  · exact (wellFormed_map m e).2 he
  · constructor
    · intro p' hp' t ht
      rw [pieces_map] at hp'
      obtain ⟨p, hp, rfl⟩ := mem_map.1 hp'
      exact hclean.texts p hp t (by simpa using ht)
    · intro w' hw' c' hc'
      rw [flows_map] at hw'
      obtain ⟨w, hw, rfl⟩ := mem_map.1 hw'
      obtain ⟨c, hc, rfl⟩ := mem_map.1 hc'
      exact hclean.names w hw c hc
  · intro p' hp' t ht
    rw [pieces_map] at hp'
    obtain ⟨p, hp, rfl⟩ := mem_map.1 hp'
    refine hapart p hp t ?_
    simpa [Piece.map, Function.comp_def] using ht
  · rw [groups_map]
    exact forall_mem_map.2 hm

section Level

variable {e : Phrase (Piece (Nat × Expression))}

abbrev opened (g : Nat × Expression) : Text :=
  ofString "(" ++ g.2.value ++ ofString ")"

section

variable (h : (e.map (Piece.map Prod.snd)).IsReadable)
include h

theorem Phrase.IsReadable.reveals (hp : p ∈ e.pieces) : p.Reveals := by
  have hmem : p.map Prod.snd ∈ (e.map (.map Prod.snd)).pieces := by
    rw [pieces_map]
    exact mem_map_of_mem hp
  constructor
  · intro t ht
    exact h.clean.texts _ hmem t (by simpa using ht)
  · intro t ht
    refine h.apart _ hmem t ?_
    simpa [Piece.map, Function.comp_def] using ht
  · intro g hg
    refine (h.values g.2 ?_).clean
    rw [groups_map]
    exact mem_map_of_mem (mem_flatMap.2 ⟨p, hp, hg⟩)

theorem Phrase.IsReadable.revealAll_covered (hdistinct : (e.groups.map Prod.fst).Nodup) (hp : p ∈ e.pieces) :
    revealAll e.groups p.covered = p.spell opened :=
  (h.reveals hp).revealAll_spell (fun _ hg => mem_flatMap.2 ⟨p, hp, hg⟩) hdistinct

theorem Phrase.IsReadable.isBalanced_covered : ∀ w ∈ (e.map Piece.covered).flows, w.IsBalanced [bar] :=
  isBalanced_map ((wellFormed_map _ e).1 h.wellFormed) (.refl _) fun g _ _ hout =>
    nests_placeholder g.1 hout

theorem Phrase.IsReadable.isBalanced_opened : ∀ w ∈ (e.map (Piece.spell opened)).flows, w.IsBalanced [bar] := by
  refine isBalanced_map ((wellFormed_map _ e).1 h.wellFormed) (.refl _) fun g hg _ _ => ?_
  have hvalue : IsValue g.2.value := h.values g.2 (by
    rw [groups_map]
    exact mem_map_of_mem hg)
  exact nests_group hvalue.nests

variable (hdistinct : (e.groups.map Prod.fst).Nodup)
include hdistinct

/-- Each part of a list is read once more, with the values of its groups in place. -/
theorem Phrase.IsReadable.readNested_revealAll {w : Flow (Piece (Nat × Expression))} (hw : w ∈ e.flows)
    (hstrips : Strips (w.map Piece.covered).text t) : readNested provider (fuel + 1) (revealAll e.groups t) =
      pure ((w.map fun p => trim (p.spell opened)).meaning provider).expression := by
  have hnames : ∀ c ∈ (w.map Piece.covered).calls, Clean c.name := by
    intro c' hc'
    obtain ⟨c, hc, rfl⟩ := mem_map.1 hc'
    exact h.clean.names (w.map (Piece.map Prod.snd)) (by simpa using mem_map_of_mem hw) _ (mem_map_of_mem hc)
  have hpieces : ∀ p ∈ w.pieces, revealAll e.groups p.covered = p.spell opened := fun p hp =>
    h.revealAll_covered hdistinct (mem_flatMap.2 ⟨w, hw, hp⟩)
  have hbal := h.isBalanced_opened (w.map (Piece.spell opened)) (by simpa using mem_map_of_mem hw)
  calc readNested provider (fuel + 1) (revealAll e.groups t)
    _ = readNested provider (fuel + 1) (revealAll e.groups (w.map Piece.covered).text) :=
        (readNested_strips (revealAll_strips hstrips)).symm
    _ = readNested provider (fuel + 1) (w.map (Piece.spell opened)).text := by
        rw [revealAll_flow hnames, Flow.map_map, Flow.map_congr hpieces]
    _ = _ := by rw [readNested_flow hbal, Flow.map_map]

/-- A lone flow is read from what was hidden; only its parts are revealed. -/
theorem Phrase.IsReadable.readChain_covered {w : Flow (Piece (Nat × Expression))} (hw : w ∈ e.flows)
    (hstrips : Strips (w.map Piece.covered).text t) :
    readChain provider (revealAll e.groups) t = (w.map fun p => trim (p.spell opened)).meaning provider := by
  have hpieces : ∀ p ∈ w.pieces, revealAll e.groups (trim p.covered) = trim (p.spell opened) := fun p hp => by
    rw [revealAll_trim, h.revealAll_covered hdistinct (mem_flatMap.2 ⟨w, hw, hp⟩)]
  have hbal := h.isBalanced_covered (w.map Piece.covered) (by simpa using mem_map_of_mem hw)
  rw [← readChain_strips hstrips, readChain_text hbal, Flow.map_map, Flow.map_congr hpieces]

theorem Phrase.IsReadable.readAll_revealAll {ws : List (Flow (Piece (Nat × Expression)))} {xs : List Text}
    (hws : ∀ w ∈ ws, w ∈ e.flows) (hstrips : Forall₂ Strips (ws.map fun w => (w.map Piece.covered).text) xs) :
    readAll (readNested provider (fuel + 1)) (xs.map (revealAll e.groups)) =
      pure (ws.map fun w => ((w.map fun p => trim (p.spell opened)).meaning provider).expression) := by
  induction ws generalizing xs with
  | nil =>
    cases hstrips
    rfl
  | cons w ws ih =>
    obtain ⟨hw, hws⟩ := forall_mem_cons.1 hws
    cases hstrips with
    | cons hx hrest =>
      rw [map_cons, readAll, h.readNested_revealAll hdistinct hw hx, pure_bind, ih hws hrest, pure_bind]
      rfl

end

def readHidden (provider : Text) (fuel : Nat) (h : Hidden) : StateM Nat Expression :=
  match splitTop (byte ',') h.text with
  | first :: second :: more => do
    let es ← readAll (readNested provider fuel) ((first :: second :: more).map h.reveal)
    pure ⟨Text.join ", " (es.map Expression.value), es.flatMap Expression.subscriptions ++ h.subscriptions⟩
  | _ =>
    let c := readChain provider h.reveal h.text
    pure ⟨c.value, c.subscriptions ++ h.subscriptions⟩

theorem readNested_succ (t : Text) : readNested provider (fuel + 1) t = match (wholeGroup? (trim t)).filter hasPipe with
    | some inner => readNested provider fuel inner
    | none => hide (readNested provider fuel) (trim t) >>= readHidden provider fuel := by
  rfl

theorem Phrase.IsReadable.readHidden_eq (h : (e.map (.map Prod.snd)).IsReadable)
    (hdistinct : (e.groups.map Prod.fst).Nodup) (hstrips : Strips (e.map Piece.covered).text t)
    (subscriptions : List Subscription) : readHidden provider (fuel + 1) ⟨t, entries e.groups, subscriptions⟩ =
      let plain := (e.map fun p => trim (p.spell opened)).meaning provider
      pure ⟨plain.value, plain.subscriptions ++ subscriptions⟩ := by
  have hcomma : isOrdinary (byte ',') = true := by decide
  have hflows : ∀ w ∈ e.flows, Nests [bar] [byte ','] (w.map Piece.covered).text := fun w hw =>
    (h.isBalanced_covered _ (by simpa using mem_map_of_mem hw)).text
  obtain ⟨hfirst, hmore⟩ := forall_mem_cons.1 hflows
  have hparts : splitTop (byte ',') (e.map Piece.covered).text = e.flows.map fun w => (w.map Piece.covered).text := by
    have hxs : ∀ y ∈ e.more.map (fun w => (w.map Piece.covered).text), Nests [bar] [byte ','] y :=
      forall_mem_map.2 hmore
    have hsplit := splitTop_flatMap hcomma (by decide) (by simp) hfirst hxs
    simpa [text, map, flows, flatMap_map] using hsplit
  have hforall := strips_splitTop (by decide : byte ',' ∉ blanks.flatten) hstrips
  rw [hparts] at hforall
  rw [readHidden]
  simp only [Hidden.reveal_eq]
  generalize splitTop (byte ',') t = xs at hforall
  obtain ⟨first, more⟩ := e
  rcases more with - | ⟨second, more⟩
  · rcases hforall with - | ⟨hx, ⟨⟩⟩
    have hlone : Strips (first.map Piece.covered).text t := by simpa [text, map] using hstrips
    simp only [h.readChain_covered hdistinct mem_cons_self hlone]
    simp [meaning, flows, map, join]
  · rcases hforall with - | ⟨hx, - | ⟨hy, hrest⟩⟩
    simp only
    rw [h.readAll_revealAll hdistinct (fun _ hw => hw) (.cons hx (.cons hy hrest)), pure_bind]
    simp [meaning, Function.comp_def, Chain.expression, flatMap_map]

end Level

/-- One level of groups: what is read is what the expression stands for, if so much holds of its groups. -/
theorem Phrase.readNested_spell {e : Phrase (Piece α)} {f : α → Text} {m : α → Expression}
    (he : (e.map (.map m)).IsReadable) (hread : ∀ g ∈ e.groups, Reads (readNested provider (fuel + 1)) f m g)
    (n : Nat) : ∃ k, n ≤ k ∧ (readNested provider (fuel + 2) (e.spell f)).run n = (e.value provider m, k) := by
  have hwf := (wellFormed_map m e).1 he.wellFormed
  rw [readNested_succ, wholeGroup?_spell hwf fun g hg => ⟨(hread g hg).nests, (hread g hg).hasPipe⟩, value]
  cases hgroup : e.group? with
  | some g => exact (hread g (mem_groups_of_group? hgroup)).reads n
  | none =>
    obtain ⟨l, e', hsame, hyields⟩ := exists_yields hwf hread n
    obtain ⟨u, hstrips, hrun⟩ := hyields.exists_hide_trim
    refine ⟨l, hyields.le, ?_⟩
    have hforms : (e'.map fun p => trim (p.spell opened)) =
        e.map fun p => trim (p.spell fun g => "(" ++ (m g).value ++ ")") := by
      change (e'.map fun p => trim (p.spell fun g => "(" ++ g.2.value ++ ")")) = _
      simpa using congrArg (map fun p => trim (p.spell fun g => "(" ++ g.value ++ ")")) hsame
    have hgroups : e'.groups.map Prod.snd = e.groups.map m := by
      simpa using congrArg groups hsame
    have hsubs : (e'.groups.flatMap fun g => g.2.subscriptions) = e.groups.flatMap fun g => (m g).subscriptions := by
      simpa [flatMap_map] using congrArg (flatMap Expression.subscriptions) hgroups
    have hreadable : (e'.map (.map Prod.snd)).IsReadable := hsame ▸ he
    simp only [Option.map_none]
    rw [StateT.run_bind, hrun, hsubs]
    change (readHidden provider (fuel + 1) ⟨u, entries e'.groups, _⟩).run l = _
    rw [hreadable.readHidden_eq hyields.distinct hstrips, hforms]
    rfl

/-! ## All levels -/

/-- The text of a group, with its parentheses, is a part of the text around it. -/
theorem Phrase.length_group_lt {e : Phrase (Piece α)} {f : α → Text} {g : α} (hg : g ∈ e.groups) :
    (f g).length + 2 ≤ (e.spell f).length := by
  have hlength := (group_part (f := f) hg).length_le
  have hbracket : (ofString "(").length = 1 ∧ (ofString ")").length = 1 := by decide
  simp only [length_append] at hlength
  omega

theorem Nested.readNested_text (hprov : IsValue provider) {depth : Nat} {e : Nested depth} (he : e.WellFormed)
    (hapart : e.KeepsApart) (hclean : Clean e.text) (hfuel : e.text.length + 2 ≤ fuel) (n : Nat) :
    ∃ k, n ≤ k ∧ (readNested provider fuel e.text).run n = (e.meaning provider, k) := by
  induction depth generalizing fuel n with
  | zero => exact e.elim
  | succ depth ih =>
    obtain ⟨fuel, rfl⟩ : ∃ rest, fuel = rest + 2 := ⟨fuel - 2, by omega⟩
    have hvalues : ∀ g ∈ Phrase.groups e, IsValue (g.meaning provider).value := fun g hg =>
      Nested.isValue_meaning hprov (he.2 g hg).2 (clean_group hclean hg)
    have hread := isReadable_map he.1 (hasCleanTexts_of_spell hclean) hapart.1 hvalues
    refine readNested_spell hread (fun g hg => ?_) n
    have hlength : g.text.length + 2 ≤ e.text.length := length_group_lt hg
    obtain ⟨hpiped, hgroup⟩ := he.2 g hg
    exact ⟨Nested.nests_text hgroup, (Nested.holdsPipe_text hgroup hpiped).hasPipe,
      ih hgroup (hapart.2 g hg) (clean_group hclean hg) (by omega)⟩

theorem length_le_nestingFuel (t : Text) : t.length + 2 ≤ nestingFuel t := by
  unfold nestingFuel
  omega

def InBraces (t : Text) : Prop :=
  [0x7B, 0x7B] <+: trim t ∧ [0x7D, 0x7D] <:+ trim t

instance (t : Text) : Decidable (InBraces t) :=
  inferInstanceAs (Decidable (_ ∧ _))

theorem stripBraces_eq (h : ¬ InBraces t) : stripBraces t = t := by
  have hbraces : ¬ (startsWith [0x7B, 0x7B] (trim t) = true ∧ endsWith [0x7D, 0x7D] (trim t) = true) := by
    rwa [startsWith_iff, endsWith_iff]
  simp only [stripBraces, Bool.and_eq_true, hbraces, false_and, if_false]

/-- The text of an expression is read as what the expression stands for. -/
theorem read_text (hprovider : IsValue provider) {depth : Nat} {e : Nested depth} (he : e.WellFormed)
    (hapart : e.KeepsApart) (hclean : Clean e.text) (hbraces : ¬ InBraces e.text) (n : Nat) :
    ∃ k, (Expression.read provider e.text).run n = (e.meaning provider, k) := by
  obtain ⟨k, -, hread⟩ := Nested.readNested_text hprovider he hapart hclean (length_le_nestingFuel e.text) n
  rw [Expression.read, stripBraces_eq hbraces]
  exact ⟨k, hread⟩

/-! ## Some expressions -/

def through (atom : Text) (names : List Text) : Nested 1 :=
  (⟨⟨⟨atom, []⟩, names.map fun name => ⟨name, []⟩⟩, []⟩ : Phrase (Piece (Nested 0)))

theorem through_wellFormed (hatom : Nests [bar] separators atom)
    (hnames : ∀ name ∈ names, IsName name) : (through atom names).WellFormed := by
  refine ⟨?_, fun g => g.elim⟩
  have htext : Nests [bar] [bar, byte ','] atom := hatom.weaken (.refl _) (by decide)
  simpa [WellFormed, flows, through, Flow.WellFormed, Piece.WellFormed, Piece.texts, Call.WellFormed,
    htext] using hnames

theorem through_isPiped (atom name : Text) (names : List Text) : (through atom (name :: names)).IsPiped :=
  .inl ⟨_, mem_cons_self, cons_ne_nil _ _⟩

theorem through_keepsApart (atom : Text) (names : List Text) : (through atom names).KeepsApart := by
  refine ⟨?_, fun g => g.elim⟩
  simp [pieces, flows, through, Flow.pieces, Piece.KeepsApart, flatMap_map]

def nestedDate : Nested 2 :=
  (⟨⟨⟨"f", [(through "a" ["stream"], ".x")]⟩, [⟨"date", [⟨"'d, m'", []⟩, ⟨[], [(through "b" ["n"], [])]⟩]⟩]⟩,
    [⟨⟨" y", []⟩, []⟩]⟩ : Phrase (Piece (Nested 1)))

theorem nests_of_plain (h : ∀ b ∈ t, isOrdinary b = true ∧ b ∉ separators) (hout : outside ⊆ separators) :
    Nests [bar] outside t :=
  .of_bytes fun b hb => ⟨(h b hb).1, fun hmem => (h b hb).2 (hout hmem)⟩

theorem through_isGroup (hatom : ∀ b ∈ atom, isOrdinary b = true ∧ b ∉ separators)
    (hnames : ∀ x ∈ name :: names, IsName x) :
    (through atom (name :: names)).IsPiped ∧ (through atom (name :: names)).WellFormed :=
  ⟨through_isPiped .., through_wellFormed (nests_of_plain hatom (.refl _)) hnames⟩

theorem nestedDate_wellFormed : nestedDate.WellFormed := by
  have hplain : ∀ t ∈ [ofString "f", ofString ".x", ofString " y"], Nests [bar] [bar, byte ','] t :=
    fun t ht => nests_of_plain (fun b hb => by revert b t; decide) (by decide)
  have hbody : LiteralBody (byte '\'') (ofString "d, m") :=
    .byte (by decide) (by decide) (.byte (by decide) (by decide) (.byte (by decide) (by decide)
      (.byte (by decide) (by decide) .nil)))
  have hlit : Nests [bar] [bar, byte ',', byte ':'] (ofString "'d, m'") := .literal (by decide) hbody .nil
  have hdate : IsName (ofString "date") := by decide
  refine ⟨?_, ?_⟩
  · simp only [forall_mem_cons, not_mem_nil, false_implies, implies_true, and_true] at hplain
    simpa [Phrase.WellFormed, flows, nestedDate, Flow.WellFormed, Piece.WellFormed, Piece.texts, Call.WellFormed,
      hplain, hdate, Nests.nil] using hlit
  · have hgroups : Phrase.groups nestedDate = [through "a" ["stream"], through "b" ["n"]] := rfl
    simp only [hgroups, forall_mem_cons, not_mem_nil, false_implies, implies_true, and_true]
    exact ⟨through_isGroup (by decide) (by decide), through_isGroup (by decide) (by decide)⟩

theorem nestedDate_keepsApart : nestedDate.KeepsApart := by
  have hgroups : Phrase.groups nestedDate = [through "a" ["stream"], through "b" ["n"]] := rfl
  refine ⟨by decide, ?_⟩
  simp [hgroups, through_keepsApart]

theorem isValue_defaultProvider : IsValue defaultProvider :=
  .of_bytes (by decide) (by decide)

theorem read_text_nestedDate :
    (nestedDate.WellFormed ∧ nestedDate.KeepsApart) ∧
      (nestedDate.meaning defaultProvider).value = "_pipeProvider.transform(context, \"date\", f(aValue).x, "
        ++ "['d, m', (_pipeProvider.transform(context, \"n\", b, []))]), y" ∧
      ∃ k, (Expression.read defaultProvider "f(a | stream).x | date:'d, m':(b | n), y").run 7 =
        (nestedDate.meaning defaultProvider, k) :=
  ⟨⟨nestedDate_wellFormed, nestedDate_keepsApart⟩, by decide,
    read_text isValue_defaultProvider nestedDate_wellFormed nestedDate_keepsApart (by decide) (by decide) 7⟩

/-! ## Where the conditions are needed -/

def nestedSet : Nested 1 :=
  (⟨⟨⟨" \x7b\x7ba\x7d\x7d", []⟩, []⟩, []⟩ : Phrase (Piece (Nested 0)))

def groupsInRow : Nested 2 :=
  (⟨⟨⟨[], [(through "a" ["x"], " + "), (through "b" ["y"], "pg0__")]⟩, []⟩, []⟩ : Phrase (Piece (Nested 1)))

def groupAndAtom : Nested 2 :=
  (⟨⟨⟨[], [(through "a" ["x"], [])]⟩, []⟩, [⟨⟨"b", []⟩, []⟩]⟩ : Phrase (Piece (Nested 1)))

theorem nestedSet_wellFormed : nestedSet.WellFormed := by
  have hbraces : ((0x7B, 0x7D) : UInt8 × UInt8) ∈ brackets := by decide
  have htext : ofString " \x7b\x7ba\x7d\x7d" = [0x20, 0x7B, 0x7B, 0x61, 0x7D, 0x7D] := by decide
  have hset : Nests [bar] [bar, byte ','] (ofString " \x7b\x7ba\x7d\x7d") := by
    rw [htext]
    have hinner : Nests [bar] [bar] [0x7B, 0x61, 0x7D] :=
      .bracket hbraces (.byte (by decide) (by decide) .nil : Nests [bar] [bar] [0x61]) .nil
    exact .byte (by decide) (by decide) (.bracket hbraces hinner .nil)
  refine ⟨?_, fun g => g.elim⟩
  simpa [WellFormed, flows, nestedSet, Flow.WellFormed, Piece.WellFormed, Piece.texts] using hset

theorem groupsInRow_wellFormed : groupsInRow.WellFormed := by
  have hplain : ∀ t ∈ [[], ofString " + ", ofString "pg0__"], Nests [bar] [bar, byte ','] t :=
    fun t ht => nests_of_plain (fun b hb => by revert b t; decide) (by decide)
  have hgroups : Phrase.groups groupsInRow = [through "a" ["x"], through "b" ["y"]] := rfl
  refine ⟨?_, ?_⟩
  · intro w hw
    obtain rfl := mem_singleton.1 hw
    exact ⟨hplain, forall_mem_nil _⟩
  · simp only [hgroups, forall_mem_cons, not_mem_nil, false_implies, implies_true, and_true]
    exact ⟨through_isGroup (by decide) (by decide), through_isGroup (by decide) (by decide)⟩

theorem groupAndAtom_wellFormed : groupAndAtom.WellFormed := by
  have hplain : Nests [bar] [bar, byte ','] (ofString "b") := nests_of_plain (by decide) (by decide)
  have hgroups : Phrase.groups groupAndAtom = [through "a" ["x"]] := rfl
  refine ⟨?_, ?_⟩
  · simp [Phrase.WellFormed, flows, groupAndAtom, Flow.WellFormed, Piece.WellFormed, Piece.texts, hplain, Nests.nil]
  · simp only [hgroups, forall_mem_cons, not_mem_nil, false_implies, implies_true, and_true]
    exact through_isGroup (by decide) (by decide)

/-- Braces behind a blank are taken for binding braces, text behind a group can make a placeholder with the one
in front of it, and the provider is read once more with the parts of a list. -/
theorem read_ne_meaning :
    (nestedSet.WellFormed ∧ Clean nestedSet.text ∧ ¬ [0x7B, 0x7B] <+: nestedSet.text ∧
      ((Expression.read defaultProvider nestedSet.text).run 0).1 ≠ nestedSet.meaning defaultProvider) ∧
    (groupsInRow.WellFormed ∧ Clean groupsInRow.text ∧ ¬ [0x7B, 0x7B] <+: groupsInRow.text ∧
      ((Expression.read defaultProvider groupsInRow.text).run 0).1 ≠ groupsInRow.meaning defaultProvider) ∧
    (groupAndAtom.WellFormed ∧ Clean groupAndAtom.text ∧ ¬ [0x7B, 0x7B] <+: groupAndAtom.text ∧
      ((Expression.read "p | q" groupAndAtom.text).run 0).1 ≠ groupAndAtom.meaning "p | q") :=
  ⟨⟨nestedSet_wellFormed, by decide, by decide, by decide⟩,
    ⟨groupsInRow_wellFormed, by decide, by decide, by decide⟩,
    ⟨groupAndAtom_wellFormed, by decide, by decide, by decide⟩⟩

end FlutterLayout.Pipe
