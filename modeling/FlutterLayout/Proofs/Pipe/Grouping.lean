import FlutterLayout.Proofs.Pipe.Writing

/-!
# Grouping — an expression that is just a group

The reader takes an expression that starts and ends with one and the same pair of parentheses for a group.
For a well-formed expression that is so exactly if it is a single group, blanks apart
(`Phrase.wholeGroup?_spell`).  The main idea is to look at what stands at depth zero (`StandsIn`): in a text
that is a group these are the two parentheses only.
-/

namespace FlutterLayout.Pipe

open List Text Phrase
open Text (IsBlanks Strips)

variable {α : Type} {inside outside : List UInt8} {t u r x body : Text} {b : UInt8} {d : Nat}

/-! ## Whole groups -/

def assemble (groups : List Group × Text) : Text :=
  groups.1.flatMap (fun g => g.before ++ Text.byte '(' :: (g.inner ++ [Text.byte ')'])) ++ groups.2

theorem assemble_groupsFrom (before : Text) (opened : Option Text) (ms : List Mark) :
    assemble (groupsFrom before opened ms) = before ++ (unclosed opened ++ ms.map Mark.byte) := by
  induction ms generalizing before opened with
  | nil => simp [groupsFrom, assemble]
  | cons m ms ih =>
    unfold groupsFrom
    split
    · rename_i hopen
      simp only [Bool.and_eq_true, decide_eq_true_eq] at hopen
      rw [ih]
      simp [unclosed, hopen.2]
    · cases opened with
      | none =>
        simp only [ih]
        simp [unclosed]
      | some inner =>
        simp only
        split
        · rename_i hclose
          simp only [Bool.and_eq_true, decide_eq_true_eq] at hclose
          have hrest := ih [] none
          simp only [assemble, nil_append, unclosed] at hrest
          simp [assemble, unclosed, hclose.2, ← hrest]
        · rw [ih]
          simp [unclosed]

theorem assemble_groups (t : Text) : assemble (groups t) = t := by
  simp [groups, marks, assemble_groupsFrom, unclosed]

theorem wholeGroup?_bracket (h : Nests inside outside body) (r : Text) :
    wholeGroup? (byte '(' :: (body ++ byte ')' :: r)) = if r = [] then some body else none := by
  obtain ⟨ms, hms, hspan, -⟩ := h.marksFrom 1 (some (byte '(')) (byte ')' :: r)
  have hbehind := assemble_groupsFrom [] none (marksFrom (.code 0) (some (byte ')')) r)
  rw [map_byte_marksFrom, unclosed, nil_append, nil_append] at hbehind
  rw [wholeGroup?, groups, marks, marksFrom_opening parentheses_mem, hms, marksFrom_closing parentheses_mem,
    groupsFrom_group [] hspan.deep, hspan.bytes]
  generalize groupsFrom [] none (marksFrom (.code 0) (some (byte ')')) r) = behind at hbehind ⊢
  obtain ⟨gs, tail⟩ := behind
  subst hbehind
  rcases gs with - | ⟨g, gs⟩
  · rcases tail with - | ⟨c, tail⟩
    · simp [assemble]
    · simp [assemble]
  · simp [assemble]

theorem wholeGroup?_of_head (hb : b ≠ byte '(') (t : Text) : wholeGroup? (b :: t) = none := by
  have hgroups : groups (b :: t) = leadWith [b] (groupsFrom [] none (marksFrom (.step (.code 0) b) (some b) t)) := by
    rw [groups, marks, marksFrom, groupsFrom, if_neg (by simp [hb]), ← groupsFrom_append]
    rfl
  rw [wholeGroup?, hgroups]
  generalize groupsFrom [] none (marksFrom (.step (.code 0) b) (some b) t) = behind
  obtain ⟨gs, tail⟩ := behind
  cases gs <;> rfl

theorem Nests.exists_of_parenthesis (h : Nests inside outside (Text.byte '(' :: t)) :
    ∃ body r, t = body ++ Text.byte ')' :: r ∧ Nests inside inside body := by
  generalize hs : Text.byte '(' :: t = s at h
  cases h with
  | nil => cases hs
  | byte hb =>
    cases hs
    exact absurd hb (by decide)
  | bars =>
    rw [replicate_succ, cons_append] at hs
    exact absurd (List.cons.inj hs).1 (by decide)
  | literal hquote =>
    obtain ⟨rfl, -⟩ := List.cons.inj hs
    exact absurd hquote (by decide)
  | bracket hpair hbody =>
    obtain ⟨rfl, rfl⟩ := List.cons.inj hs
    have hmatch : ∀ p ∈ brackets, p.1 = Text.byte '(' → p.2 = Text.byte ')' := by decide
    obtain rfl := hmatch _ hpair rfl
    exact ⟨_, _, rfl, hbody⟩

theorem Nests.of_wholeGroup? (h : Nests inside outside t) (hwhole : wholeGroup? t = some body) :
    t = Text.byte '(' :: (body ++ [Text.byte ')']) ∧ Nests inside inside body := by
  rcases t with - | ⟨b, t⟩
  · cases hwhole
  by_cases hb : b = Text.byte '('
  · subst hb
    obtain ⟨body', r, rfl, hbody⟩ := h.exists_of_parenthesis
    rw [wholeGroup?_bracket hbody] at hwhole
    split at hwhole
    · rename_i hr
      cases hwhole
      exact ⟨by rw [hr], hbody⟩
    · cases hwhole
  · rw [wholeGroup?_of_head hb] at hwhole
    cases hwhole

/-! ## What stands at depth zero -/

def StandsIn (x t : Text) : Prop :=
  ∃ a b, Nests [] [] a ∧ t = a ++ (x ++ b)

namespace StandsIn

theorem refl (t : Text) : StandsIn t t :=
  ⟨[], [], .nil, by simp⟩

theorem trans (hx : StandsIn x t) (hy : StandsIn y x) : StandsIn y t := by
  obtain ⟨a, b, ha, rfl⟩ := hx
  obtain ⟨a', b', ha', rfl⟩ := hy
  exact ⟨a ++ a', b' ++ b, ha.append ha', by simp⟩

theorem append_left (hu : Nests [] [] u) (h : StandsIn x t) : StandsIn x (u ++ t) := by
  obtain ⟨a, b, ha, rfl⟩ := h
  exact ⟨u ++ a, b, hu.append ha, by simp⟩

theorem append_right (h : StandsIn x t) (u : Text) : StandsIn x (t ++ u) := by
  obtain ⟨a, b, ha, rfl⟩ := h
  exact ⟨a, b ++ u, ha, by simp⟩

theorem flatMap {β : Type} {xs : List β} {y : β} {f : β → Text} (hf : ∀ y ∈ xs, Nests [] [] (f y)) (hy : y ∈ xs) :
    StandsIn (f y) (xs.flatMap f) := by
  induction xs with
  | nil => cases hy
  | cons z xs ih =>
    obtain ⟨hz, hf⟩ := forall_mem_cons.1 hf
    rw [flatMap_cons]
    rcases mem_cons.1 hy with rfl | hy
    · exact (refl _).append_right _
    · exact append_left hz (ih hf hy)

theorem exists_mark (hb : isOrdinary b = true) (h : StandsIn (b :: u) t) :
    ∃ m ∈ marks t, m.depth? = some 0 ∧ m.byte = b := by
  obtain ⟨a, r, ha, rfl⟩ := h
  obtain ⟨ms, hms, -, -⟩ := ha.marksFrom 0 none (b :: u ++ r)
  rw [marks, hms, cons_append, marksFrom_ordinary hb]
  exact ⟨_, mem_append_right _ mem_cons_self, rfl, rfl⟩

end StandsIn

/-! ## Pipes in expressions -/

def HoldsPipe (t : Text) : Prop :=
  ∀ d previous r, ∃ m ∈ marksFrom (.code d) previous (t ++ r), m.isPipe = true

theorem HoldsPipe.hasPipe (h : HoldsPipe t) : hasPipe t = true := by
  obtain ⟨m, hm, hpipe⟩ := h 0 none []
  rw [append_nil] at hm
  exact any_eq_true.2 ⟨m, hm, hpipe⟩

theorem holdsPipe_bar (u : Text) : HoldsPipe ([space, bar, space] ++ u) := by
  intro d previous r
  have hne : space ≠ bar := by decide
  have hspace : isOrdinary space = true := by decide
  have hbar : isOrdinary bar = true := by decide
  simp only [cons_append, nil_append]
  rw [marksFrom_ordinary hspace, marksFrom_ordinary hbar]
  exact ⟨_, mem_cons_of_mem _ mem_cons_self, by simp [hne]⟩

theorem HoldsPipe.group (h : HoldsPipe t) : HoldsPipe ("(" ++ t ++ ")") := by
  intro d previous r
  obtain ⟨m, hm, hpipe⟩ := h (d + 1) (some (byte '(')) (byte ')' :: r)
  refine ⟨m, ?_, hpipe⟩
  simp only [ofString_leftParenthesis, ofString_rightParenthesis, append_assoc, cons_append]
  rw [marksFrom_opening parentheses_mem]
  exact mem_cons_of_mem _ hm

theorem StandsIn.holdsPipe (h : StandsIn x t) (hx : HoldsPipe x) : HoldsPipe t := by
  intro d previous r
  obtain ⟨a, b, ha, rfl⟩ := h
  obtain ⟨ms, hms, -, -⟩ := ha.marksFrom d previous (x ++ b ++ r)
  obtain ⟨m, hm, hpipe⟩ := hx d (lastByte previous a) (b ++ r)
  refine ⟨m, ?_, hpipe⟩
  rw [append_assoc, hms]
  exact mem_append_right _ (by simpa using hm)

section Balanced

variable {e : Phrase Text} {w : Flow Text}

theorem Flow.IsBalanced.nests (h : w.IsBalanced []) : Nests [] [] w.text :=
  h.text.weaken (.refl _) (nil_subset _)

theorem standsIn_flow (he : ∀ w ∈ e.flows, w.IsBalanced []) (hw : w ∈ e.flows) : StandsIn w.text e.text := by
  rcases mem_cons.1 hw with rfl | hw
  · exact (StandsIn.refl _).append_right _
  · have hcomma : Nests [] [] [byte ','] := .of_bytes (by decide)
    have hmore : ∀ w ∈ e.more, Nests [] [] ([byte ','] ++ w.text) := fun w hw =>
      hcomma.append (he w (mem_cons_of_mem _ hw)).nests
    refine .append_left (he e.first mem_cons_self).nests ?_
    exact (StandsIn.flatMap hmore hw).trans (StandsIn.append_left hcomma (.refl _))

theorem standsIn_call (h : w.IsBalanced []) {c : Call Text} (hc : c ∈ w.calls) :
    StandsIn ([space, bar, space] ++ c.text) w.text := by
  have hpipe : Nests [] [] [space, bar, space] := .of_bytes (by decide)
  have hcalls : ∀ c ∈ w.calls, Nests [] [] ([space, bar, space] ++ c.text) := fun c hc =>
    hpipe.append ((h.call hc).weaken (.refl _) (nil_subset _))
  exact .append_left (h.atom.weaken (.refl _) (nil_subset _)) (.flatMap hcalls hc)

theorem exists_standsIn_comma (he : ∀ w ∈ e.flows, w.IsBalanced []) (hmore : e.more ≠ []) :
    ∃ u, StandsIn (byte ',' :: u) e.text := by
  obtain ⟨first, more⟩ := e
  obtain ⟨w, more, rfl⟩ := exists_cons_of_ne_nil hmore
  refine ⟨w.text ++ more.flatMap fun w => byte ',' :: w.text, ?_⟩
  exact .append_left (he first mem_cons_self).nests (.refl _)

theorem exists_standsIn_bar (h : w.IsBalanced []) (hcalls : w.calls ≠ []) : ∃ u, StandsIn (bar :: u) w.text := by
  have hspace : Nests [] [] [space] := .of_bytes (by decide)
  obtain ⟨c, hc⟩ := exists_mem_of_ne_nil _ hcalls
  have hbar : StandsIn (bar :: space :: c.text) ([space] ++ bar :: space :: c.text) :=
    .append_left hspace (.refl _)
  exact ⟨_, (standsIn_call h hc).trans hbar⟩

theorem standsIn_argument (h : w.IsBalanced []) {c : Call Text} (hc : c ∈ w.calls) (ht : t ∈ c.arguments) :
    StandsIn t w.text := by
  have hpipe : Nests [] [] [space, bar, space] := .of_bytes (by decide)
  have hcolon : Nests [] [] [byte ':'] := .of_bytes (by decide)
  have hname : Nests [] [] c.name := nests_of_tame (h.names c hc).tame (nil_subset _)
  have hargs : ∀ a ∈ c.arguments, Nests [] [] ([byte ':'] ++ a) := fun a ha =>
    hcolon.append ((h.arguments c hc a ha).weaken (.refl _) (nil_subset _))
  have hargument : StandsIn t c.text := .append_left hname
    ((StandsIn.flatMap hargs ht).trans (StandsIn.append_left hcolon (.refl t)))
  exact (standsIn_call h hc).trans (.append_left hpipe hargument)

end Balanced

section Spelled

variable {e : Phrase (Piece α)} {f : α → Text} {g : α}

theorem mem_flows_map {β : Type} {w : Flow α} {e : Phrase α} (f : α → β) (hw : w ∈ e.flows) :
    w.map f ∈ (e.map f).flows := by
  rw [flows_map]
  exact mem_map_of_mem hw

theorem standsIn_piece (he : e.WellFormed) (hf : ∀ g ∈ e.groups, Nests [] [] (f g)) (hp : p ∈ e.pieces) :
    StandsIn (p.spell fun g => "(" ++ f g ++ ")") (e.spell f) := by
  have hbal := isBalanced_spell he (nil_subset [bar]) hf
  obtain ⟨w, hw, hp⟩ := mem_flatMap.1 hp
  have hmem := mem_flows_map (Piece.spell fun g => "(" ++ f g ++ ")") hw
  refine (standsIn_flow hbal hmem).trans ?_
  rcases mem_cons.1 hp with rfl | hp
  · exact (StandsIn.refl _).append_right _
  · obtain ⟨c, hc, hp⟩ := mem_flatMap.1 hp
    exact standsIn_argument (hbal _ hmem) (mem_map_of_mem hc) (mem_map_of_mem hp)

theorem Phrase.WellFormed.nests (he : e.WellFormed) (hp : p ∈ e.pieces) (ht : t ∈ p.texts) : Nests [bar] [bar] t := by
  obtain ⟨w, hw, hp⟩ := mem_flatMap.1 hp
  rcases mem_cons.1 hp with rfl | hp
  · exact ((he w hw).1 t ht).weaken (.refl _) (by simp)
  · obtain ⟨c, hc, hp⟩ := mem_flatMap.1 hp
    exact (((he w hw).2 c hc).2 p hp t ht).weaken (.refl _) (by simp)

theorem standsIn_group (he : e.WellFormed) (hf : ∀ g ∈ e.groups, Nests [] [] (f g)) (hg : g ∈ e.groups) :
    StandsIn ("(" ++ f g ++ ")") (e.spell f) := by
  obtain ⟨p, hp, hgp⟩ := mem_flatMap.1 hg
  refine (standsIn_piece he hf hp).trans ?_
  have htext : ∀ t ∈ p.texts, Nests [] [] t := fun t ht =>
    (he.nests hp ht).weaken (nil_subset _) (nil_subset _)
  obtain ⟨one, hone, rfl⟩ := mem_map.1 hgp
  refine .append_left (htext p.first mem_cons_self) ?_
  have hrest : ∀ one ∈ p.rest, Nests [] [] (ofString "(" ++ f one.1 ++ ofString ")" ++ one.2) := by
    intro one hone
    have hgroup : one.1 ∈ e.groups := mem_flatMap.2 ⟨p, hp, mem_map_of_mem hone⟩
    exact (nests_group (hf one.1 hgroup)).append (htext one.2 (mem_cons_of_mem _ (mem_map_of_mem hone)))
  exact (StandsIn.flatMap hrest hone).trans ((StandsIn.refl _).append_right _)

/-- A pipe in an expression or in one of its groups is a pipe in its text. -/
theorem Phrase.holdsPipe_spell (he : e.WellFormed) (hf : ∀ g ∈ e.groups, Nests [] [] (f g) ∧ HoldsPipe (f g))
    (hpiped : e.IsPiped) : HoldsPipe (e.spell f) := by
  have hnests : ∀ g ∈ e.groups, Nests [] [] (f g) := fun g hg => (hf g hg).1
  rcases hpiped with ⟨w, hw, hcalls⟩ | hgroups
  · have hbal := isBalanced_spell he (nil_subset [bar]) hnests
    have hmem := mem_flows_map (Piece.spell fun g => "(" ++ f g ++ ")") hw
    obtain ⟨c, hc⟩ := exists_mem_of_ne_nil _ hcalls
    have hcall := standsIn_call (hbal _ hmem) (mem_map_of_mem hc)
    exact ((standsIn_flow hbal hmem).trans hcall).holdsPipe (holdsPipe_bar _)
  · obtain ⟨g, hg⟩ := exists_mem_of_ne_nil _ hgroups
    exact (standsIn_group he hnests hg).holdsPipe (hf g hg).2.group

end Spelled

theorem Nested.holdsPipe_text {depth : Nat} {e : Nested depth} (he : e.WellFormed) (hpiped : e.IsPiped) :
    HoldsPipe e.text := by
  induction depth with
  | zero => exact e.elim
  | succ depth ih =>
    refine holdsPipe_spell he.1 (fun g hg => ?_) hpiped
    obtain ⟨hg, hwf⟩ := he.2 g hg
    exact ⟨Nested.nests_text hwf, ih hwf hg⟩

/-! ## An expression that is a group -/

/-- In a text that is a group, blanks apart, nothing but its parentheses stands at depth zero. -/
theorem byte_of_depth_zero (h : Strips t (byte '(' :: (body ++ [byte ')']))) (hbody : Nests [] [] body)
    (hm : m ∈ marks t) (hdepth : m.depth? = some 0) :
    m.byte ∈ blanks.flatten ∨ m.byte = byte '(' ∨ m.byte = byte ')' := by
  obtain ⟨x, y, hx, hy, rfl⟩ := h
  obtain ⟨ms, ns, hmarks, hms, hns, -, -⟩ := exists_marks_strips hx hy (byte '(' :: (body ++ [byte ')']))
  obtain ⟨bs, hbs, hspan, -⟩ := hbody.marksFrom 1 (some (byte '(')) [byte ')']
  have hinner : marks (byte '(' :: (body ++ [byte ')'])) =
      ⟨byte '(', some 0, false⟩ :: (bs ++ [⟨byte ')', some 0, false⟩]) := by
    rw [marks, marksFrom_opening parentheses_mem, hbs, marksFrom_closing parentheses_mem]
    rfl
  rw [hmarks, hinner] at hm
  simp only [mem_append, mem_cons, not_mem_nil, or_false] at hm
  rcases hm with hm | (rfl | hm | rfl) | hm
  · exact .inl (hx.mem_flatten (hms ▸ mem_map_of_mem hm))
  · exact .inr (.inl rfl)
  · exact absurd (hspan.depth m hm 0 hdepth) (by omega)
  · exact .inr (.inr rfl)
  · exact .inl (hy.mem_flatten (hns ▸ mem_map_of_mem hm))

theorem not_standsIn (h : Strips t (byte '(' :: (body ++ [byte ')']))) (hbody : Nests [] [] body)
    (hb : b = bar ∨ b = byte ',') : ¬ StandsIn (b :: u) t := by
  intro hstands
  have hord : isOrdinary b = true ∧ b ∉ blanks.flatten ∧ b ≠ byte '(' ∧ b ≠ byte ')' := by
    rcases hb with rfl | rfl <;> decide
  obtain ⟨m, hm, hdepth, rfl⟩ := hstands.exists_mark hord.1
  rcases byte_of_depth_zero h hbody hm hdepth with hblank | hopen | hclose
  · exact hord.2.1 hblank
  · exact hord.2.2.1 hopen
  · exact hord.2.2.2 hclose

/-- A group with something in front of it and behind it, without the blanks at the ends. -/
theorem trim_append_group (x y r : Text) : trim (x ++ byte '(' :: (y ++ byte ')' :: r)) =
      trimStart x ++ byte '(' :: (y ++ byte ')' :: trimEnd r) := by
  have hopen : byte '(' ∉ blanks.flatten := by decide
  have hclose : byte ')' ∉ blanks.flatten := by decide
  obtain ⟨a, ha, hx, hstart⟩ := exists_trimStart x
  obtain ⟨b, hb, hr, hend⟩ := exists_trimEnd r
  have hstrips : Strips (x ++ byte '(' :: (y ++ byte ')' :: r))
      (trimStart x ++ byte '(' :: (y ++ byte ')' :: trimEnd r)) := by
    refine ⟨a, b, ha, hb, ?_⟩
    conv_lhs => rw [hx, hr]
    simp
  rw [hstrips.trim_eq]
  refine trim_of_bare ((startsBare_append_cons hopen).2 hstart) ?_
  have hsplit : trimStart x ++ byte '(' :: (y ++ byte ')' :: trimEnd r) =
      (trimStart x ++ byte '(' :: y) ++ byte ')' :: trimEnd r := by simp
  rw [hsplit, endsBare_append_cons hclose]
  exact hend

theorem strips_trimStart (t : Text) : Strips t (trimStart t) := by
  obtain ⟨a, ha, ht, -⟩ := exists_trimStart t
  exact ⟨a, [], ha, madeOf_nil, by simpa using ht⟩

theorem wholeGroup?_trim (hx : Nests inside outside x) (hbody : Nests [] [] body) (r : Text) :
    wholeGroup? (trim (x ++ Text.byte '(' :: (body ++ Text.byte ')' :: r))) =
      if IsBlanks x ∧ IsBlanks r then some body else none := by
  have hblank : (IsBlanks x ∧ IsBlanks r) ↔ trimStart x = [] ∧ trimEnd r = [] := by
    rw [trimStart_eq_nil_iff, trimEnd_eq_nil_iff]
  simp only [trim_append_group, hblank]
  rcases hstart : trimStart x with - | ⟨c, u⟩
  · simpa using wholeGroup?_bracket hbody (trimEnd r)
  · rw [if_neg (by simp), cons_append]
    by_cases hc : c = Text.byte '('
    · -- the parenthesis at the start is closed in the plain text
      have hstarts := hx.of_strips (strips_trimStart x)
      rw [hstart, hc] at hstarts
      obtain ⟨body', u, rfl, hbody'⟩ := hstarts.exists_of_parenthesis
      rw [hc, append_assoc, cons_append, wholeGroup?_bracket hbody', if_neg (by simp)]
    · exact wholeGroup?_of_head hc _

section Whole

variable {e : Phrase (Piece α)} {f : α → Text}

/-- An expression whose text is a group, blanks apart, is one flow without pipes. -/
theorem Phrase.exists_piece_of_whole (he : e.WellFormed) (hf : ∀ g ∈ e.groups, Nests [] [] (f g))
    (h : Strips (e.spell f) (byte '(' :: (body ++ [byte ')']))) (hbody : Nests [] [] body) :
    ∃ p, e = ⟨⟨p, []⟩, []⟩ := by
  have hbal := isBalanced_spell he (nil_subset [bar]) hf
  have hmore : e.more = [] := by
    by_contra hmore
    obtain ⟨u, hu⟩ := exists_standsIn_comma hbal fun hnil => hmore (map_eq_nil_iff.1 hnil)
    exact not_standsIn h hbody (.inr rfl) hu
  have hcalls : e.first.calls = [] := by
    by_contra hcalls
    obtain ⟨u, hu⟩ := exists_standsIn_bar (hbal _ mem_cons_self) fun hnil => hcalls (map_eq_nil_iff.1 hnil)
    exact not_standsIn h hbody (.inl rfl) ((standsIn_flow hbal mem_cons_self).trans hu)
  obtain ⟨⟨p, calls⟩, more⟩ := e
  cases hmore
  cases hcalls
  exact ⟨p, rfl⟩

theorem Phrase.spell_piece (p : Piece α) :
    spell f ⟨⟨p, []⟩, []⟩ = p.spell fun g => ofString "(" ++ f g ++ ofString ")" := by
  simp [spell, map, text, Flow.map, Flow.text]

theorem Piece.spell_group_cons (first behind : Text) (g : α) (rest : List (α × Text)) :
    Piece.spell (fun g => ofString "(" ++ f g ++ ofString ")") ⟨first, (g, behind) :: rest⟩ =
      first ++ byte '(' :: (f g ++ byte ')' ::
        (behind ++ rest.flatMap fun (g, t) => ofString "(" ++ f g ++ ofString ")" ++ t)) := by
  simp [Piece.spell]

theorem Phrase.group?_piece (first behind : Text) (g : α) (rest : List (α × Text)) :
    group? ⟨⟨⟨first, (g, behind) :: rest⟩, []⟩, []⟩ =
      if IsBlanks first ∧ IsBlanks behind ∧ rest = [] then some g else none := by
  rcases rest with - | ⟨other, rest⟩
  · simp [group?, isBlank_iff]
  · simp [group?]

theorem isBlanks_behind_iff (behind : Text) (rest : List (α × Text)) :
    IsBlanks (behind ++ rest.flatMap fun (g, t) => ofString "(" ++ f g ++ ofString ")" ++ t) ↔
      IsBlanks behind ∧ rest = [] := by
  have hopen : byte '(' ∉ blanks.flatten := by decide
  rcases rest with - | ⟨other, rest⟩
  · simp
  · simp only [reduceCtorEq, and_false, iff_false]
    intro h
    exact hopen (h.mem_flatten (by simp))

theorem Phrase.wholeGroup?_spell (he : e.WellFormed) (hf : ∀ g ∈ e.groups, Nests [] [] (f g) ∧ hasPipe (f g) = true) :
    (wholeGroup? (trim (e.spell f))).filter hasPipe = e.group?.map f := by
  have hnests : ∀ g ∈ e.groups, Nests [] [] (f g) := fun g hg => (hf g hg).1
  by_cases hpiece : ∃ p, e = ⟨⟨p, []⟩, []⟩
  · obtain ⟨⟨first, rest⟩, rfl⟩ := hpiece
    have hfirst : Nests [bar] [bar] first := he.nests mem_cons_self mem_cons_self
    rw [spell_piece]
    rcases rest with - | ⟨⟨g, behind⟩, rest⟩
    · -- plain text holds no pipe, within parentheses or not
      have hnone : group? (⟨⟨⟨first, []⟩, []⟩, []⟩ : Phrase (Piece α)) = none := rfl
      rw [hnone, Piece.spell, flatMap_nil, append_nil, Option.map_none, Option.filter_eq_none_iff]
      intro body hwhole
      have hbody := (hfirst.of_strips (Text.strips_trim first)).of_wholeGroup? hwhole
      simp [hbody.2.hasPipe_eq_false (by simp)]
    · obtain ⟨hg, hpipe⟩ := hf g (by simp [groups, pieces, flows, Flow.pieces, Piece.groups])
      rw [group?_piece, Piece.spell_group_cons, wholeGroup?_trim hfirst hg]
      simp only [isBlanks_behind_iff]
      split
      · simp [hpipe]
      · rfl
  · have hnone : e.group? = none := by
      unfold group?
      split
      · exact absurd ⟨_, rfl⟩ hpiece
      · rfl
    rw [hnone, Option.map_none, Option.filter_eq_none_iff]
    intro body hwhole
    have htext : Nests [] [] (e.spell f) :=
      nests_text fun w hw => (isBalanced_spell he (nil_subset [bar]) hnests w hw).nests
    obtain ⟨htrim, hbody⟩ := (htext.of_strips (Text.strips_trim _)).of_wholeGroup? hwhole
    exact absurd (exists_piece_of_whole he hnests (htrim ▸ Text.strips_trim _) hbody) hpiece

end Whole

end FlutterLayout.Pipe
