import FlutterLayout.Proofs.Pipe.Desugaring
import FlutterLayout.Proofs.Pipe.Outline
import FlutterLayout.Proofs.Text.Quoting
import Mathlib.Data.List.Perm.Basic

/-!
# Hygiene — placeholders leave no trace

Groups are hidden behind placeholders and put back by replacing text, in no particular order, and what was put
back is read again.  `direct` reads an expression without placeholders: the values of groups go into the holes of
its outline.  `MayRead` is what the reader may do, from any number on and with the placeholders replaced in any
order.
-/

namespace FlutterLayout.Pipe

open List Text Subscription

variable {t u v w : Text} {c : UInt8} {provider : Text} {us vs : List Text} {o p : Outline}

/-! ## Hygienic texts -/

def reserved : List Text :=
  placeholderStart :: continuations.map (byte ')' :: ·)

def Hygienic (t : Text) : Prop :=
  ∀ w ∈ reserved, ¬ w <:+: t

instance (t : Text) : Decidable (Hygienic t) :=
  inferInstanceAs (Decidable (∀ w ∈ reserved, ¬ w <:+: t))

def IsFree (b : UInt8) : Prop :=
  ∀ w ∈ reserved, b ∉ w

instance (b : UInt8) : Decidable (IsFree b) :=
  inferInstanceAs (Decidable (∀ w ∈ reserved, b ∉ w))

theorem hygienic_nil : Hygienic [] := by
  decide

theorem Hygienic.clean (h : Hygienic t) : Clean t :=
  h placeholderStart mem_cons_self

theorem Hygienic.of_infix (h : Hygienic t) (hu : u <:+: t) : Hygienic u :=
  fun w hw hpart => h w hw (hpart.trans hu)

theorem Hygienic.trim (h : Hygienic t) : Hygienic (trim t) := by
  obtain ⟨a, b, -, -, heq⟩ := strips_trim t
  exact h.of_infix ⟨a, b, heq.symm⟩

theorem Hygienic.not_goesOn (h : Hygienic t) (hu : byte ')' :: u <:+: t) : ¬ GoesOn u := by
  rintro ⟨q, hq, hstart⟩
  refine h (byte ')' :: q) (mem_cons_of_mem _ (mem_map_of_mem hq)) (.trans ?_ hu)
  exact (cons_prefix_cons.2 ⟨rfl, hstart⟩).isInfix

theorem hygienic_append_cons (hc : IsFree c) : Hygienic (t ++ c :: u) ↔ Hygienic t ∧ Hygienic u := by
  constructor
  · intro h
    exact ⟨h.of_infix (prefix_append _ _).isInfix, h.of_infix ((suffix_cons c u).trans (suffix_append t _)).isInfix⟩
  · rintro ⟨ht, hu⟩ w hw hpart
    exact (part_of_part_append_cons (hc w hw) hpart).elim (ht w hw) (hu w hw)

theorem hygienic_cons (hc : IsFree c) : Hygienic (c :: u) ↔ Hygienic u := by
  simpa [hygienic_nil] using hygienic_append_cons (t := []) (u := u) hc

theorem Hygienic.append (ht : Hygienic t) (hs : s ≠ [] ∧ ∀ b ∈ s, IsFree b) (hu : Hygienic u) :
    Hygienic (t ++ s ++ u) := by
  obtain ⟨hne, hs⟩ := hs
  have hrest : ∀ s : Text, (∀ b ∈ s, IsFree b) → Hygienic (s ++ u) := by
    intro s hs
    induction s with
    | nil => exact hu
    | cons b s ih =>
      obtain ⟨hb, hs⟩ := forall_mem_cons.1 hs
      exact (hygienic_cons hb).2 (ih hs)
  obtain ⟨b, s, rfl⟩ := exists_cons_of_ne_nil hne
  obtain ⟨hb, hs⟩ := forall_mem_cons.1 hs
  rw [append_assoc, cons_append]
  exact (hygienic_append_cons hb).2 ⟨ht, hrest s hs⟩

theorem Hygienic.close (h : Hygienic t) : Hygienic (t ++ [byte ')']) := by
  have hshort : ∀ w ∈ reserved, byte ')' ∉ w.tail ∧ ¬ w <+: [byte ')'] ∧ w ≠ [] := by decide
  intro w hw hpart
  obtain ⟨hclose, hone, hne⟩ := hshort w hw
  rcases part_cases hclose hpart with hpart | hpart | hpart
  · exact h w hw hpart
  · exact hone hpart
  · exact hne (infix_nil.1 hpart)

theorem Hygienic.quoted (h : Hygienic t) : Hygienic (quoted t) := by
  have hwords : ∀ w ∈ reserved, backslash ∉ w ∧ ∃ b ∈ w.head?, ¬ IsEscaped b ∧ b ≠ doubleQuote := by
    decide
  have hquote : IsFree doubleQuote := by decide
  refine (hygienic_cons hquote).2 ((hygienic_append_cons hquote).2 ⟨fun w hw hpart => ?_, hygienic_nil⟩)
  obtain ⟨hclean, hstart⟩ := hwords w hw
  exact h w hw (infix_of_infix_quoted hclean hstart hpart)

theorem hygienic_join (h : ∀ t ∈ us, Hygienic t) : Hygienic (join ", " us) := by
  have hcomma : ofString ", " ≠ [] ∧ ∀ b ∈ ofString ", ", IsFree b := by decide
  exact join_induction hygienic_nil (fun ht hu => by simpa using ht.append hcomma hu) h

theorem hygienic_transformCall (hprov : Hygienic provider) (hname : Hygienic name) (hvalue : Hygienic value)
    (hus : ∀ t ∈ us, Hygienic t) : Hygienic (transformCall provider name value us) := by
  have hcall : ofString ".transform(context, " ≠ [] ∧ ∀ b ∈ ofString ".transform(context, ", IsFree b := by
    decide
  have hcomma : ofString ", " ≠ [] ∧ ∀ b ∈ ofString ", ", IsFree b := by decide
  have hlist : ofString ", [" ≠ [] ∧ ∀ b ∈ ofString ", [", IsFree b := by decide
  have hbracket : IsFree (byte ']') := by decide
  have hopen := (((hprov.append hcall hname.quoted).append hcomma hvalue).append hlist (hygienic_join hus))
  have hclosed := ((hygienic_append_cons hbracket).2 ⟨hopen, hygienic_nil⟩).close
  rw [transformCall, ofString_brackets]
  simpa using hclosed

/-! ## Filling with values -/

theorem prefix_of_prefix_fill (hw : byte '(' ∉ w) (h : w <+: fill (parens vs) p) : w <+: fill (parens us) p := by
  induction p generalizing w with
  | nil => exact h
  | cons x p ih =>
    rcases w with - | ⟨b, w⟩
    · exact nil_prefix
    rw [mem_cons, not_or] at hw
    cases x with
    | inl c =>
      obtain ⟨rfl, hrest⟩ := cons_prefix_cons.1 h
      exact cons_prefix_cons.2 ⟨rfl, ih hw.2 hrest⟩
    | inr i =>
      obtain ⟨rfl, -⟩ := cons_prefix_cons.1 h
      exact absurd rfl hw.1

/-- What may stand in an expression does not depend on what its groups enclose, as long as that is hygienic. -/
theorem hygienic_fill (h : Hygienic (fill (parens us) p)) (hvs : ∀ v ∈ vs, Hygienic v) :
    Hygienic (fill (parens vs) p) := by
  have hwords : ∀ w ∈ reserved, byte '(' ∉ w ∧ byte ')' ∉ w.tail := by decide
  intro w hw hpart
  obtain ⟨hopen, hclose⟩ := hwords w hw
  induction p with
  | nil => exact h w hw hpart
  | cons x p ih =>
    cases x with
    | inl b =>
      rw [fill_byte] at h hpart
      rcases infix_cons_iff.1 hpart with hpart | hpart
      · have hfirst : w <+: fill (parens us) (.inl b :: p) := prefix_of_prefix_fill hopen hpart
        exact h w hw hfirst.isInfix
      · exact ih (h.of_infix (suffix_cons _ _).isInfix) hpart
    | inr i =>
      have hsplit : ∀ ts : List Text, fill (parens ts) (.inr i :: p) =
          [] ++ byte '(' :: (ts.getD i [] ++ byte ')' :: fill (parens ts) p) := by
        simp [parens, parenthesised]
      rw [hsplit] at h hpart
      have hrest : byte ')' :: fill (parens us) p <:+:
        [] ++ byte '(' :: (us.getD i [] ++ byte ')' :: fill (parens us) p) :=
        ((suffix_append _ _).trans (suffix_cons _ _)).isInfix
      rcases part_of_part_append_cons hopen hpart with hpart | hpart
      · exact hygienic_nil w hw hpart
      rcases part_cases hclose hpart with hpart | hpart | hpart
      · rw [getD_eq_getElem?_getD] at hpart
        cases hv : vs[i]? with
        | none => exact hygienic_nil w hw (by simpa [hv] using hpart)
        | some v => exact hvs v (mem_of_getElem? hv) w hw (by simpa [hv] using hpart)
      · refine h w hw (.trans ?_ hrest)
        rcases prefix_cons_iff.1 hpart with rfl | ⟨q, rfl, hq⟩
        · exact nil_infix
        · rw [mem_cons, not_or] at hopen
          exact (cons_prefix_cons.2 ⟨rfl, prefix_of_prefix_fill hopen.2 hq⟩).isInfix
      · exact ih (h.of_infix ((suffix_cons _ _).isInfix.trans hrest)) hpart

/-! ## Revealing outlines -/

/-- An outline as plain text in turn with holes, each with what is known of it. -/
def pieceOf {β : Type} (h : Nat → β) : Outline → Piece β
  | [] => ⟨[], []⟩
  | .inl b :: o => ⟨b :: (pieceOf h o).first, (pieceOf h o).rest⟩
  | .inr i :: o => ⟨[], (h i, (pieceOf h o).first) :: (pieceOf h o).rest⟩

theorem spell_pieceOf (h : Nat → β) (f : β → Text) (o : Outline) :
    (pieceOf h o).spell f = fill (fun i => f (h i)) o := by
  induction o with
  | nil => rfl
  | cons x o ih => cases x <;> simp [pieceOf, Piece.spell, ← ih]

theorem groups_pieceOf (hg : g ∈ (pieceOf h o).groups) : ∃ i, .inr i ∈ o ∧ g = h i := by
  induction o with
  | nil => cases hg
  | cons x o ih =>
    cases x with
    | inl b =>
      obtain ⟨i, hi, rfl⟩ := ih hg
      exact ⟨i, mem_cons_of_mem _ hi, rfl⟩
    | inr i =>
      rcases mem_cons.1 hg with rfl | hg
      · exact ⟨i, mem_cons_self, rfl⟩
      · obtain ⟨j, hj, rfl⟩ := ih hg
        exact ⟨j, mem_cons_of_mem _ hj, rfl⟩

/-- The texts of an expression stand in it, all but the first behind a group. -/
theorem texts_pieceOf (us : List Text) (h : Nat → β) (o : Outline) : (pieceOf h o).first <+: fill (parens us) o ∧
    ∀ x ∈ (pieceOf h o).rest.map Prod.snd, byte ')' :: x <:+: fill (parens us) o := by
  induction o with
  | nil => exact ⟨List.nil_prefix, by simp [pieceOf]⟩
  | cons x o ih =>
    obtain ⟨hfirst, hrest⟩ := ih
    cases x with
    | inl b => exact ⟨cons_prefix_cons.2 ⟨rfl, hfirst⟩, fun x hx => (hrest x hx).trans (suffix_cons _ _).isInfix⟩
    | inr i =>
      have hclose : byte ')' :: fill (parens us) o <:+: fill (parens us) (.inr i :: o) :=
        ⟨byte '(' :: us.getD i [], [], by simp [parens, parenthesised]⟩
      refine ⟨List.nil_prefix, forall_mem_cons.2 ⟨?_, fun x hx => ?_⟩⟩
      · exact (cons_prefix_cons.2 ⟨rfl, hfirst⟩).isInfix.trans hclose
      · exact ((hrest x hx).trans (suffix_cons _ _).isInfix).trans hclose

theorem revealAll_fill (hperm : hs'.Perm hs) (hdist : (hs.map Prod.fst).Nodup)
    (hbound : ∀ i, .inr i ∈ p → i < hs.length) (hvalues : ∀ g ∈ hs, Clean g.2.value)
    (hp : Hygienic (fill (parens us) p)) :
    revealAll hs' (fill (placeholders hs) p) = fill (parens (hs.map fun g => g.2.value)) p := by
  let h : Nat → Nat × Expression := fun i => hs.getD i ⟨0, ⟨[], []⟩⟩
  have hmem : ∀ g ∈ (pieceOf h p).groups, g ∈ hs := by
    intro g hg
    obtain ⟨i, hi, rfl⟩ := groups_pieceOf hg
    have hlt := hbound i hi
    simp [h, getD_eq_getElem?_getD, hlt]
  obtain ⟨hfirst, hrest⟩ := texts_pieceOf us h p
  have hreveals : (pieceOf h p).Reveals := by
    refine ⟨forall_mem_cons.2 ⟨(hp.of_infix hfirst.isInfix).clean, fun x hx => ?_⟩, fun x hx => ?_, fun g hg => ?_⟩
    · exact (hp.of_infix ((suffix_cons _ _).isInfix.trans (hrest x hx))).clean
    · exact hp.not_goesOn (hrest x hx)
    · exact hvalues g (hmem g hg)
  have hspell : revealAll hs' ((pieceOf h p).spell fun g => placeholder g.1) = _ :=
    hreveals.revealAll_spell (fun g hg => hperm.mem_iff.2 (hmem g hg)) ((hperm.map Prod.fst).nodup_iff.2 hdist)
  rw [spell_pieceOf, spell_pieceOf] at hspell
  refine hspell.trans (congrArg (fill · p) (funext fun i => ?_))
  simp only [h, parens, parenthesised, getD_eq_getElem?_getD, getElem?_map]
  cases hs[i]? <;> rfl

theorem lt_of_hole_mem {gs : List Group} {tail : Text} {i : Nat} (hi : .inr i ∈ outlineGroups gs tail) :
    i < (inners gs).length := by
  induction gs generalizing i with
  | nil => simp [outlineGroups, plain] at hi
  | cons g gs ih =>
    rw [outlineGroups] at hi
    rw [inners_cons]
    split at hi
    · rename_i hg
      rw [if_pos hg, length_cons]
      have hcases : i = 0 ∨ ∃ x ∈ outlineGroups gs tail, Sum.map id Nat.succ x = .inr i := by
        simpa [plain, raise] using hi
      rcases hcases with rfl | ⟨x, hx, hraised⟩
      · exact Nat.succ_pos _
      · cases x with
        | inl b => cases hraised
        | inr j =>
          cases hraised
          exact Nat.succ_lt_succ (ih hx)
    · rename_i hg
      rw [if_neg hg]
      exact ih (by simpa [plain] using hi)

/-! ## Reading without placeholders -/

def Call.pass (provider : Text) (chain : Chain) (call : Call Text) : Chain :=
  if call.name.isEmpty then chain
  else
    match Kind.ofName? call.name with
    | some kind =>
      let s := make kind chain.value chain.stem
      ⟨s.valueName, s.valueName, s :: chain.subscriptions⟩
    | none =>
      ⟨transformCall provider call.name chain.value call.arguments, chain.stem ++ " " ++ call.name, chain.subscriptions⟩

def Flow.pass (provider : Text) (w : Flow Text) : Chain :=
  w.calls.foldl (Call.pass provider) ⟨w.atom, w.atom, []⟩

def text? (o : Outline) : Option Text :=
  o.mapM Sum.getLeft?

def callOf? (values : Nat → Text) (o : Outline) : Option (Call Text) :=
  (text? ((cutTop (byte ':') o).headD [])).map fun name =>
    ⟨trim name, (cutTop (byte ':') o).tail.map fun a => trim (fill values a)⟩

def flowOf? (values : Nat → Text) (o : Outline) : Option (Flow Text) :=
  ((cutPipes o).tail.mapM (callOf? values)).map fun calls =>
    ⟨trim (fill values ((cutPipes o).headD [])), calls⟩

/-- Reads an expression whose groups nest at most `fuel` deep, with the values of its groups in the holes of its
outline; none if there is a hole in the name of a pipe. -/
def direct (provider : Text) : (fuel : Nat) → Text → Option Expression
  | 0, t => some ⟨trim t, []⟩
  | fuel + 1, t =>
    match (wholeGroup? (trim t)).filter hasPipe with
    | some inner => direct provider fuel inner
    | none => do
      let es ← (inners (groups (trim t)).1).mapM (direct provider fuel)
      let values := parens (es.map Expression.value)
      match cutTop (byte ',') (outline (trim t)) with
      | first :: second :: more =>
        let es' ← ((first :: second :: more).map (fill values)).mapM (direct provider fuel)
        some ⟨join ", " (es'.map Expression.value),
          es'.flatMap Expression.subscriptions ++ es.flatMap Expression.subscriptions⟩
      | _ =>
        let w ← flowOf? values (outline (trim t))
        some ⟨(w.pass provider).value, (w.pass provider).subscriptions ++ es.flatMap Expression.subscriptions⟩

theorem forall₂_of_mapM_eq_some (h : xs.mapM f = some ys) : Forall₂ (fun x y => f x = some y) xs ys := by
  induction xs generalizing ys with
  | nil =>
    cases h
    exact .nil
  | cons x xs ih =>
    rw [mapM_cons] at h
    obtain ⟨y, hy, hrest⟩ := Option.bind_eq_some_iff.1 h
    obtain ⟨ys, hys, hcons⟩ := Option.bind_eq_some_iff.1 hrest
    cases hcons
    exact .cons hy (ih hys)

theorem eq_plain_of_text? (h : text? o = some t) : o = plain t := by
  have hbytes := forall₂_of_mapM_eq_some h
  clear h
  induction hbytes with
  | nil => rfl
  | cons hx _ ih =>
    rw [Sum.getLeft?_eq_some_iff] at hx
    rw [hx, ih]
    rfl

inductive IsCallOf (values : Nat → Text) (part : Outline) : Call Text → Prop where
  | mk {name : Text} {arguments : List Outline} (hcut : cutTop (byte ':') part = plain name :: arguments) :
      IsCallOf values part ⟨trim name, arguments.map fun a => trim (fill values a)⟩

theorem exists_of_flowOf? {w : Flow Text} (h : flowOf? values o = some w) :
    ∃ p parts, cutPipes o = p :: parts ∧ w.atom = trim (fill values p) ∧
      Forall₂ (IsCallOf values) parts w.calls := by
  obtain ⟨calls, hcalls, rfl⟩ := Option.map_eq_some_iff.1 h
  obtain ⟨p, parts, hcut⟩ : ∃ p parts, cutPipes o = p :: parts := exists_cut ..
  rw [hcut] at hcalls
  refine ⟨p, parts, hcut, by rw [hcut]; rfl, (forall₂_of_mapM_eq_some hcalls).imp fun part call hcall => ?_⟩
  obtain ⟨name, hname, rfl⟩ := Option.map_eq_some_iff.1 hcall
  obtain ⟨q, arguments, hcut⟩ : ∃ q arguments, cutTop (byte ':') part = q :: arguments := exists_cut ..
  rw [hcut] at hname ⊢
  obtain rfl : q = plain name := eq_plain_of_text? hname
  exact .mk hcut

inductive Direct (provider : Text) (fuel : Nat) (t : Text) : Expression → Prop where
  | whole {inner : Text} {e : Expression} (hwhole : (wholeGroup? (trim t)).filter hasPipe = some inner)
      (hinner : direct provider fuel inner = some e) : Direct provider fuel t e
  | list {es es' : List Expression} {p q : Outline} {ps : List Outline}
      (hwhole : (wholeGroup? (trim t)).filter hasPipe = none)
      (hgroups : List.Forall₂ (fun t e => direct provider fuel t = some e) (inners (groups (trim t)).1) es)
      (hcut : cutTop (byte ',') (outline (trim t)) = p :: q :: ps)
      (hparts : List.Forall₂ (fun t e => direct provider fuel t = some e)
        ((p :: q :: ps).map (fill (parens (es.map Expression.value)))) es') :
      Direct provider fuel t ⟨join ", " (es'.map Expression.value),
        es'.flatMap Expression.subscriptions ++ es.flatMap Expression.subscriptions⟩
  | flow {es : List Expression} {w : Flow Text} {p : Outline}
      (hwhole : (wholeGroup? (trim t)).filter hasPipe = none)
      (hgroups : List.Forall₂ (fun t e => direct provider fuel t = some e) (inners (groups (trim t)).1) es)
      (hcut : cutTop (byte ',') (outline (trim t)) = [p])
      (hflow : flowOf? (parens (es.map Expression.value)) (outline (trim t)) = some w) :
      Direct provider fuel t ⟨(w.pass provider).value,
        (w.pass provider).subscriptions ++ es.flatMap Expression.subscriptions⟩

theorem direct_cases (h : direct provider (fuel + 1) t = some e) : Direct provider fuel t e := by
  rw [direct] at h
  split at h
  · rename_i inner hwhole
    exact .whole hwhole h
  · rename_i hwhole
    obtain ⟨es, hes, h⟩ := Option.bind_eq_some_iff.1 h
    have hgroups := forall₂_of_mapM_eq_some hes
    split at h
    · rename_i hcut
      obtain ⟨es', hes', h⟩ := Option.bind_eq_some_iff.1 h
      cases h
      exact .list hwhole hgroups hcut (forall₂_of_mapM_eq_some hes')
    · rename_i hshort
      obtain ⟨p, ps, hcut⟩ : ∃ p ps, cutTop (byte ',') (outline (trim t)) = p :: ps := exists_cut ..
      obtain ⟨w, hflow, h⟩ := Option.bind_eq_some_iff.1 h
      cases h
      cases ps with
      | nil => exact .flow hwhole hgroups hcut hflow
      | cons q ps => exact absurd hcut (hshort p q ps)

/-! ## Hygienic expressions -/

theorem forall_of_forall₂ {α β : Type} {R : α → β → Prop} {P : β → Prop} {xs : List α} {ys : List β}
    (h : Forall₂ R xs ys) (hP : ∀ x ∈ xs, ∀ y, R x y → P y) : ∀ y ∈ ys, P y := by
  induction h with
  | nil => exact forall_mem_nil P
  | cons hxy _ ih =>
    obtain ⟨hx, hP⟩ := forall_mem_cons.1 hP
    exact forall_mem_cons.2 ⟨hx _ hxy, ih hP⟩

/-- What holds of an expression holds of its groups and of what is put together from them, and the subscriptions of
its pipes have a property, too. -/
structure Survives (provider : Text) (V : Text → Prop) (S : Subscription → Prop) : Prop where
  trimmed : ∀ t, V t → V (trim t)
  whole : ∀ t u, V t → (wholeGroup? t).filter hasPipe = some u → V u
  inner : ∀ t, V t → ∀ u ∈ inners (groups t).1, V u
  part : ∀ t vs, V t → (∀ v ∈ vs, V v) → ∀ p ∈ cutTop (byte ',') (outline t), V (fill (parens vs) p)
  joined : ∀ us : List Text, (∀ u ∈ us, V u) → V (join ", " us)
  flow : ∀ t vs w, V t → (∀ v ∈ vs, V v) → flowOf? (parens vs) (outline t) = some w →
    V (w.pass provider).value ∧ ∀ s ∈ (w.pass provider).subscriptions, S s

theorem survives_direct (hV : Survives provider V S) (ht : V t) (h : direct provider fuel t = some e) :
    V e.value ∧ ∀ s ∈ e.subscriptions, S s := by
  induction fuel generalizing t e with
  | zero =>
    cases h
    exact ⟨hV.trimmed t ht, forall_mem_nil _⟩
  | succ fuel ih =>
    have hvalues : ∀ {ts es}, (∀ t ∈ ts, V t) → Forall₂ (fun t e => direct provider fuel t = some e) ts es →
        (∀ v ∈ es.map Expression.value, V v) ∧ ∀ s ∈ es.flatMap Expression.subscriptions, S s := by
      intro ts es hts hes
      have hall := forall_of_forall₂ hes fun t ht e he => ih (hts t ht) he
      refine ⟨forall_mem_map.2 fun e he => (hall e he).1, fun s hs => ?_⟩
      obtain ⟨e, he, hs⟩ := mem_flatMap.1 hs
      exact (hall e he).2 s hs
    have htrim := hV.trimmed t ht
    cases direct_cases h with
    | whole hwhole hinner => exact ih (hV.whole _ _ htrim hwhole) hinner
    | list _ hgroups hcut hparts =>
      obtain ⟨hvs, hsubs⟩ := hvalues (hV.inner _ htrim) hgroups
      obtain ⟨hvs', hsubs'⟩ :=
        hvalues (forall_mem_map.2 fun p hp => hV.part _ _ htrim hvs p (hcut ▸ hp)) hparts
      exact ⟨hV.joined _ hvs', forall_mem_append.2 ⟨hsubs', hsubs⟩⟩
    | flow _ hgroups _ hflow =>
      obtain ⟨hvs, hsubs⟩ := hvalues (hV.inner _ htrim) hgroups
      obtain ⟨hvalue, hsubs'⟩ := hV.flow _ _ _ htrim hvs hflow
      exact ⟨hvalue, forall_mem_append.2 ⟨hsubs', hsubs⟩⟩

theorem eq_parenthesised (h : (wholeGroup? t).filter hasPipe = some u) : t = parenthesised u := by
  obtain ⟨hwhole, -⟩ := Option.filter_eq_some_iff.1 h
  have hassembled := assemble_groups t
  unfold wholeGroup? at hwhole
  split at hwhole
  · rename_i hgroups
    cases hwhole
    rw [hgroups] at hassembled
    simpa [assemble, parenthesised] using hassembled.symm
  · cases hwhole

theorem parenthesised_isInfix (hu : u ∈ inners (groups t).1) : parenthesised u <:+: t := by
  have hall : ∀ (gs : List Group) (tail : Text), u ∈ inners gs → parenthesised u <:+: assemble (gs, tail) := by
    intro gs tail hu
    obtain ⟨g, hg, rfl⟩ := mem_map.1 hu
    obtain ⟨front, back, rfl⟩ := append_of_mem (mem_of_mem_filter hg)
    exact ⟨assemble (front, g.before), assemble (back, tail), by simp [assemble, parenthesised]⟩
  exact (hall (groups t).1 (groups t).2 hu).trans (by rw [Prod.eta, assemble_groups])

theorem infix_parenthesised (u : Text) : u <:+: parenthesised u :=
  ⟨[byte '('], [byte ')'], by simp [parenthesised]⟩

theorem fill_isInfix (h : p <:+: o) : fill f p <:+: fill f o := by
  obtain ⟨a, b, rfl⟩ := h
  exact ⟨fill f a, fill f b, by simp⟩

theorem hygienic_of_isInfix (ho : Hygienic (fill (parens us) o)) (hp : p <:+: o) (hvs : ∀ v ∈ vs, Hygienic v) :
    Hygienic (fill (parens vs) p) :=
  hygienic_fill (ho.of_infix (fill_isInfix hp)) hvs

def Subscription.texts (s : Subscription) : List Text :=
  [s.source, s.initial, s.valueName, s.snapshotName]

/-- The value may stand in an expression, and no text has a part of a placeholder. -/
structure Expression.IsHygienic (e : Expression) : Prop where
  value : Hygienic e.value
  subscriptions : ∀ s ∈ e.subscriptions, ∀ x ∈ s.texts, Clean x

structure Chain.IsHygienic (chain : Chain) : Prop where
  value : Hygienic chain.value
  stem : Hygienic chain.stem
  subscriptions : ∀ s ∈ chain.subscriptions, ∀ x ∈ s.texts, Clean x

theorem hygienic_of_clean (h : Clean t) (hclose : byte ')' ∉ t) : Hygienic t := by
  refine forall_mem_cons.2 ⟨h, fun w hw hpart => hclose (hpart.subset ?_)⟩
  obtain ⟨q, -, rfl⟩ := mem_map.1 hw
  exact mem_cons_self

theorem hygienic_valueName (kind : Kind) (source : Text) (h : Clean stem) :
    Hygienic (make kind source stem).valueName := by
  refine hygienic_of_clean ?_ fun hmem => absurd (tame_valueName kind source stem _ hmem) (by decide)
  exact (clean_append_cons (u := ofString "alue") (by decide)).2 ⟨clean_variableName h, by decide⟩

theorem clean_texts_make (kind : Kind) {source stem : Text} (hsource : Clean source) (hstem : Clean stem) :
    ∀ x ∈ (make kind source stem).texts, Clean x := by
  have hinitial : Clean (make kind source stem).initial := by
    unfold make
    split
    · exact (clean_append_cons (u := ofString "value") (by decide)).2 ⟨hsource, by decide⟩
    · exact clean_nil
  have hsnap : Clean (make kind source stem).snapshotName :=
    (clean_append_cons (u := ofString "napshot") (by decide)).2 ⟨clean_variableName hstem, by decide⟩
  simp only [texts, forall_mem_cons]
  exact ⟨hsource, hinitial, (hygienic_valueName kind source hstem).clean, hsnap, forall_mem_nil _⟩

theorem Chain.IsHygienic.pass {chain : Chain} {call : Call Text} (h : chain.IsHygienic) (hprov : Hygienic provider)
    (hname : Hygienic call.name) (hargs : ∀ a ∈ call.arguments, Hygienic a) :
    (call.pass provider chain).IsHygienic := by
  unfold Call.pass
  split
  · exact h
  · split
    · rename_i kind _
      have hvalue := hygienic_valueName kind chain.value h.stem.clean
      exact ⟨hvalue, hvalue, forall_mem_cons.2 ⟨clean_texts_make kind h.value.clean h.stem.clean, h.subscriptions⟩⟩
    · have hspace : ofString " " ≠ [] ∧ ∀ b ∈ ofString " ", IsFree b := by decide
      exact ⟨hygienic_transformCall hprov hname h.value hargs, h.stem.append hspace hname, h.subscriptions⟩

theorem isHygienic_of_flowOf? {w : Flow Text} (h : flowOf? (parens vs) o = some w) (hprov : Hygienic provider)
    (ho : Hygienic (fill (parens us) o)) (hvs : ∀ v ∈ vs, Hygienic v) : (w.pass provider).IsHygienic := by
  obtain ⟨p, parts, hcut, hatom, hcalls⟩ := exists_of_flowOf? h
  have hpart : ∀ q ∈ p :: parts, q <:+: o := fun q hq => infix_of_mem_cutPipes (hcut ▸ hq)
  have hcall : ∀ call ∈ w.calls, Hygienic call.name ∧ ∀ a ∈ call.arguments, Hygienic a := by
    refine forall_of_forall₂ hcalls fun part hpart' call hcall => ?_
    obtain ⟨hcut⟩ := hcall
    rename_i name arguments
    have hseg : ∀ q ∈ plain name :: arguments, Hygienic (fill (parens vs) q) := fun q hq =>
      hygienic_of_isInfix ho ((infix_of_mem_cutTop (hcut ▸ hq)).trans (hpart part (mem_cons_of_mem _ hpart'))) hvs
    obtain ⟨hname, hargs⟩ := forall_mem_cons.1 hseg
    rw [fill_plain] at hname
    exact ⟨hname.trim, forall_mem_map.2 fun a ha => (hargs a ha).trim⟩
  have hvalue : Hygienic w.atom := hatom ▸ (hygienic_of_isInfix ho (hpart p mem_cons_self) hvs).trim
  refine foldlRecOn (motive := Chain.IsHygienic) w.calls _ ⟨hvalue, hvalue, forall_mem_nil _⟩ ?_
  intro chain hchain call hmem
  exact hchain.pass hprov (hcall call hmem).1 (hcall call hmem).2

theorem survives_hygienic (hprov : Hygienic provider) :
    Survives provider Hygienic fun s => ∀ x ∈ s.texts, Clean x where
  trimmed _ ht := ht.trim
  whole _ u ht hwhole := ht.of_infix (eq_parenthesised hwhole ▸ infix_parenthesised u)
  inner _ ht u hu := ht.of_infix ((infix_parenthesised u).trans (parenthesised_isInfix hu))
  part t _ ht hvs _ hp := hygienic_of_isInfix ((fill_outline t).symm ▸ ht) (infix_of_mem_cutTop hp) hvs
  joined _ := hygienic_join
  flow t _ _ ht hvs hflow := by
    have hchain := isHygienic_of_flowOf? hflow hprov ((fill_outline t).symm ▸ ht) hvs
    exact ⟨hchain.value, hchain.subscriptions⟩

theorem hygienic_of_direct (hprov : Hygienic provider) (ht : Hygienic t) (h : direct provider fuel t = some e) :
    e.IsHygienic := by
  obtain ⟨hvalue, hsubs⟩ := survives_direct (survives_hygienic hprov) ht h
  exact ⟨hvalue, hsubs⟩

/-! ## Reading in any order -/

/-- The text with groups in place of their placeholders, put back in some order. -/
def Hidden.Reveals (h : Hidden) (t u : Text) : Prop :=
  ∃ marks, marks.Perm h.placeholders ∧ u = Hidden.reveal { h with placeholders := marks } t

def Hidden.ReadsCall (h : Hidden) (part : Text) (call : Call Text) : Prop :=
  call.name = trim ((splitTop (byte ':') part).headD []) ∧
    List.Forall₂ (fun a => h.Reveals (trim a)) (splitTop (byte ':') part).tail call.arguments

def Hidden.ReadsFlow (h : Hidden) (w : Flow Text) : Prop :=
  h.Reveals (trim ((splitPipes h.text).headD [])) w.atom ∧ List.Forall₂ h.ReadsCall (splitPipes h.text).tail w.calls

inductive Reader.All (reads : Reader) : List Text → Nat → List Expression → Nat → Prop where
  | nil {n : Nat} : Reader.All reads [] n [] n
  | cons {t : Text} {ts : List Text} {n k l : Nat} {e : Expression} {es : List Expression} (hread : reads t n e k)
      (hrest : Reader.All reads ts k es l) : Reader.All reads (t :: ts) n (e :: es) l

def Hidden.MayRead (provider : Text) (reads : Reader) (h : Hidden) (n : Nat) (e : Expression) (k : Nat) : Prop :=
  match splitTop (byte ',') h.text with
  | first :: second :: more =>
    ∃ ts es, List.Forall₂ h.Reveals (first :: second :: more) ts ∧ reads.All ts n es k ∧
      e = ⟨join ", " (es.map Expression.value), es.flatMap Expression.subscriptions ++ h.subscriptions⟩
  | _ => ∃ w, h.ReadsFlow w ∧ k = n ∧ e = ⟨(w.pass provider).value, (w.pass provider).subscriptions ++ h.subscriptions⟩

/-- What a reader may do that replaces the placeholders in any order, another one each time. -/
def MayRead (provider : Text) : (fuel : Nat) → Reader
  | 0, t, n, e, k => e = ⟨trim t, []⟩ ∧ k = n
  | fuel + 1, t, n, e, k =>
    match (wholeGroup? (trim t)).filter hasPipe with
    | some inner => MayRead provider fuel inner n e k
    | none =>
      ∃ h m, Hides (MayRead provider fuel) (groups (trim t)).1 ⟨[], [], []⟩ n h m ∧
        (h.grow (groups (trim t)).2).MayRead provider (MayRead provider fuel) m e k

section Runs

variable {reads : Reader} {read : Text → StateM Nat Expression}

/-- The reader takes the placeholders in the order in which they were made. -/
theorem Hidden.reveals_reveal (h : Hidden) (t : Text) : h.Reveals t (h.reveal t) :=
  ⟨h.placeholders, .refl _, rfl⟩

theorem Hidden.exists_readsFlow (h : Hidden) (provider : Text) :
    ∃ w, h.ReadsFlow w ∧ readChain provider h.reveal h.text = w.pass provider := by
  let call : Text → Call Text := fun part =>
    ⟨trim ((splitTop (byte ':') part).headD []), (splitTop (byte ':') part).tail.map fun a => h.reveal (trim a)⟩
  refine ⟨⟨h.reveal (trim ((splitPipes h.text).headD [])), (splitPipes h.text).tail.map call⟩, ⟨?_, ?_⟩, ?_⟩
  · exact h.reveals_reveal _
  · refine forall₂_map_right_iff.2 (forall₂_same.2 fun part _ => ⟨rfl, ?_⟩)
    exact forall₂_map_right_iff.2 (forall₂_same.2 fun a _ => h.reveals_reveal _)
  · rw [Flow.pass, foldl_map]
    rfl

variable (hread : ∀ t n, reads t n ((read t).run n).1 ((read t).run n).2)
include hread

theorem hides_run (gs : List Group) (h : Hidden) (n : Nat) :
    Hides reads gs h n ((hideGroups read gs h).run n).1 ((hideGroups read gs h).run n).2 := by
  induction gs generalizing h n with
  | nil => exact .nil
  | cons g gs ih =>
    unfold hideGroups
    split
    · rename_i hg
      exact .piped hg (hread g.inner n) (ih _ _)
    · rename_i hg
      refine .plain (by simpa using hg) ?_
      have hgrow : h.grow (g.before ++ parenthesised g.inner) =
          ⟨h.text ++ g.before ++ "(" ++ g.inner ++ ")", h.placeholders, h.subscriptions⟩ := by
        simp [Hidden.grow, parenthesised]
      rw [hgrow]
      exact ih _ _

theorem all_run (ts : List Text) (n : Nat) :
    reads.All ts n ((readAll read ts).run n).1 ((readAll read ts).run n).2 := by
  induction ts generalizing n with
  | nil => exact .nil
  | cons t ts ih => exact .cons (hread t n) (ih _)

end Runs

theorem mayRead_readHidden
    (hread : ∀ t n, MayRead provider fuel t n ((readNested provider fuel t).run n).1
      ((readNested provider fuel t).run n).2)
    (h : Hidden) (n : Nat) : h.MayRead provider (MayRead provider fuel) n ((readHidden provider fuel h).run n).1
      ((readHidden provider fuel h).run n).2 := by
  obtain ⟨w, hw, hpass⟩ := h.exists_readsFlow provider
  obtain ⟨p, ps, hsplit⟩ : ∃ p ps, splitTop (byte ',') h.text = p :: ps := exists_splitMarks _ _
  rw [Hidden.MayRead, readHidden, hsplit, hpass]
  cases ps with
  | nil => exact ⟨w, hw, rfl, rfl⟩
  | cons q ps =>
    refine ⟨(p :: q :: ps).map h.reveal, ((readAll (readNested provider fuel) ((p :: q :: ps).map h.reveal)).run n).1,
      ?_, all_run hread _ n, rfl⟩
    exact forall₂_map_right_iff.2 (forall₂_same.2 fun a _ => h.reveals_reveal a)

theorem mayRead_run (provider : Text) (fuel : Nat) (t : Text) (n : Nat) :
    MayRead provider fuel t n ((readNested provider fuel t).run n).1 ((readNested provider fuel t).run n).2 := by
  induction fuel generalizing t n with
  | zero => exact ⟨rfl, rfl⟩
  | succ fuel ih =>
    rw [readNested_succ, MayRead]
    cases (wholeGroup? (trim t)).filter hasPipe with
    | some inner => exact ih inner n
    | none =>
      exact ⟨_, _, hides_run ih _ _ n, mayRead_readHidden ih _ _⟩

/-! ## Placeholders leave no trace -/

theorem eq_of_forall₂ (h : Forall₂ R xs ys) (h' : Forall₂ R' xs ys')
    (heq : ∀ x ∈ xs, ∀ y y', R x y → R' x y' → y' = y) : ys' = ys := by
  induction h generalizing ys' with
  | nil =>
    cases h'
    rfl
  | cons hxy _ ih =>
    obtain ⟨y', ys', hxy', hrest, rfl⟩ := forall₂_cons_left_iff.1 h'
    obtain ⟨hx, heq⟩ := forall_mem_cons.1 heq
    rw [hx _ _ hxy hxy', ih hrest heq]

theorem eq_map_of_forall₂ (h : Forall₂ R xs ys) (heq : ∀ x ∈ xs, ∀ y, R x y → y = f x) : ys = xs.map f := by
  have hsame : Forall₂ (fun x y => y = f x) xs (xs.map f) := forall₂_map_right_iff.2 (forall₂_same.2 fun _ _ => rfl)
  exact eq_of_forall₂ hsame h fun x hx y y' hy hy' => (heq x hx y' hy').trans hy.symm

theorem Reader.All.eq {reads : Reader} {ts : List Text} {es es' : List Expression} {n k : Nat}
    (h : reads.All ts n es' k) (hes : Forall₂ reads.Settles ts es) : es' = es ∧ n ≤ k := by
  induction h generalizing es with
  | nil =>
    cases hes
    exact ⟨rfl, Nat.le_refl _⟩
  | cons hread _ ih =>
    obtain ⟨e, es, hsettles, hrest, rfl⟩ := forall₂_cons_left_iff.1 hes
    obtain ⟨rfl, hle⟩ := hsettles _ _ _ hread
    obtain ⟨rfl, hle'⟩ := ih hrest
    exact ⟨rfl, hle.trans hle'⟩

theorem Hidden.Reveals.exists_revealAll {text : Text} {hs : List (Nat × Expression)} {subscriptions : List Subscription}
    (h : Hidden.Reveals ⟨text, entries hs, subscriptions⟩ t u) : ∃ hs', hs'.Perm hs ∧ u = revealAll hs' t := by
  obtain ⟨marks, hperm, rfl⟩ := h
  let entry : Nat × Expression → Text × Text := fun g => (placeholder g.1, "(" ++ g.2.value ++ ")")
  obtain ⟨hs', rfl, hsame⟩ := (congrFun (congrFun (eq_map_comp_perm entry) marks) hs).mpr hperm
  exact ⟨hs', hsame, rfl⟩

section Hidden

variable {es : List Expression} {hs : List (Nat × Expression)} {n k : Nat} {text : Text}
  {subscriptions : List Subscription}
variable (hnumbered : Numbered es n hs k) (hes : ∀ e ∈ es, Clean e.value) (ho : Hygienic (fill (parens us) o))
  (hbound : ∀ i, .inr i ∈ o → i < es.length)
include hnumbered hes ho hbound

theorem revealAll_part (hp : p <:+: o) (hperm : hs'.Perm hs) :
    revealAll hs' (fill (placeholders hs) p) = fill (parens (es.map Expression.value)) p := by
  have hvalues : hs.map (fun g => g.2.value) = es.map Expression.value := by
    rw [← hnumbered.expressions, map_map]
    rfl
  rw [← hvalues]
  refine revealAll_fill hperm hnumbered.distinct (fun i hi => ?_) (fun g hg => hes _ ?_) (ho.of_infix (fill_isInfix hp))
  · rw [← length_map Prod.snd, hnumbered.expressions]
    exact hbound i (hp.subset hi)
  · rw [← hnumbered.expressions]
    exact mem_map_of_mem hg

theorem reveals_fill (hp : p <:+: o)
    (h : Hidden.Reveals ⟨text, entries hs, subscriptions⟩ (fill (placeholders hs) p) u) :
    u = fill (parens (es.map Expression.value)) p := by
  obtain ⟨hs', hperm, rfl⟩ := h.exists_revealAll
  exact revealAll_part hnumbered hes ho hbound hp hperm

theorem reveals_trim_fill (hp : p <:+: o)
    (h : Hidden.Reveals ⟨text, entries hs, subscriptions⟩ (trim (fill (placeholders hs) p)) u) :
    u = trim (fill (parens (es.map Expression.value)) p) := by
  obtain ⟨hs', hperm, rfl⟩ := h.exists_revealAll
  rw [revealAll_trim, revealAll_part hnumbered hes ho hbound hp hperm]

theorem readsCall_unique (hp : p <:+: o) (hcall : IsCallOf (parens (es.map Expression.value)) p call)
    (h : Hidden.ReadsCall ⟨text, entries hs, subscriptions⟩ (fill (placeholders hs) p) call') : call' = call := by
  obtain ⟨hcut⟩ := hcall
  rename_i name arguments
  obtain ⟨hname, hargs⟩ := h
  rw [splitTop_fill (by decide) (inert_placeholders hs), hcut, map_cons] at hname hargs
  have heq := eq_map_of_forall₂ (forall₂_map_left_iff.1 hargs) fun a ha x hx => by
    have ha' : a <:+: p := infix_of_mem_cutTop (hcut ▸ mem_cons_of_mem _ ha)
    exact reveals_trim_fill hnumbered hes ho hbound (ha'.trans hp) hx
  cases call'
  simp_all

theorem readsFlow_unique {w : Flow Text} (hflow : flowOf? (parens (es.map Expression.value)) o = some w)
    (h : Hidden.ReadsFlow ⟨fill (placeholders hs) o, entries hs, subscriptions⟩ w') : w' = w := by
  obtain ⟨p, parts, hcut, hatom, hcalls⟩ := exists_of_flowOf? hflow
  obtain ⟨hatom', hcalls'⟩ := h
  simp only [splitPipes_fill (inert_placeholders hs), hcut, map_cons] at hatom' hcalls'
  have hpart : ∀ q ∈ p :: parts, q <:+: o := fun q hq => infix_of_mem_cutPipes (hcut ▸ hq)
  have hvalue : w'.atom = w.atom :=
    (reveals_trim_fill hnumbered hes ho hbound (hpart p mem_cons_self) hatom').trans hatom.symm
  have heq := eq_of_forall₂ hcalls (forall₂_map_left_iff.1 hcalls') fun q hq call call' hcall hcall' =>
    readsCall_unique hnumbered hes ho hbound (hpart q (mem_cons_of_mem _ hq)) hcall hcall'
  cases w
  cases w'
  simp_all

end Hidden

/-- Once the groups of an expression are hidden, its outline is left, with a placeholder for each of them. -/
theorem MayRead.exists_numbered (hwhole : (wholeGroup? (trim t)).filter hasPipe = none)
    (hsettles : Forall₂ (MayRead provider fuel).Settles (inners (groups (trim t)).1) es)
    (h : MayRead provider (fuel + 1) t n e k) : ∃ hs m, Numbered es n hs m ∧
      Hidden.MayRead provider (MayRead provider fuel)
        ⟨fill (placeholders hs) (outline (trim t)), entries hs, es.flatMap Expression.subscriptions⟩ m e k := by
  rw [MayRead, hwhole] at h
  obtain ⟨hidden, m, hides, hread⟩ := h
  obtain ⟨hs, hnumbered, hgrow⟩ := hides.exists_numbered hsettles (groups (trim t)).2
  refine ⟨hs, m, hnumbered, ?_⟩
  rw [hgrow] at hread
  simpa [Hidden.take, ← hnumbered.expressions, flatMap_map, outline] using hread

/-- Whatever numbers the placeholders get and in whatever order they are replaced, a hygienic expression is read as
if there were none. -/
theorem settles_direct {fuel : Nat} {e : Expression} (hprov : Hygienic provider) (ht : Hygienic t)
    (h : direct provider fuel t = some e) : (MayRead provider fuel).Settles t e := by
  induction fuel generalizing t e with
  | zero =>
    cases h
    rintro n e' k ⟨rfl, rfl⟩
    exact ⟨rfl, Nat.le_refl _⟩
  | succ fuel ih =>
    have houtline : Hygienic (fill (parens (inners (groups (trim t)).1)) (outline (trim t))) :=
      (fill_outline _).symm ▸ ht.trim
    have hinner : ∀ u ∈ inners (groups (trim t)).1, Hygienic u := fun u hu =>
      ht.trim.of_infix ((infix_parenthesised u).trans (parenthesised_isInfix hu))
    have hgroup : ∀ {es : List Expression},
        Forall₂ (fun t e => direct provider fuel t = some e) (inners (groups (trim t)).1) es →
        Forall₂ (MayRead provider fuel).Settles (inners (groups (trim t)).1) es ∧
          (∀ e ∈ es, e.IsHygienic) ∧ ∀ i, .inr i ∈ outline (trim t) → i < es.length := fun hgroups =>
      ⟨((forall₂_and_left _ _).2 ⟨hinner, hgroups⟩).imp fun u e hu => ih hu.1 hu.2,
        forall_of_forall₂ hgroups fun u hu e he => hygienic_of_direct hprov (hinner u hu) he,
        fun i hi => hgroups.length_eq ▸ lt_of_hole_mem hi⟩
    intro n e' k hread
    cases direct_cases h with
    | whole hwhole hinner =>
      rename_i inner
      rw [MayRead, hwhole] at hread
      exact ih (ht.trim.of_infix (eq_parenthesised hwhole ▸ infix_parenthesised inner)) hinner n e' k hread
    | list hwhole hgroups hcut hparts =>
      rename_i es es' p q ps
      obtain ⟨hsettles, hes, hbound⟩ := hgroup hgroups
      obtain ⟨hs, m, hnumbered, hread⟩ := hread.exists_numbered hwhole hsettles
      rw [Hidden.MayRead, splitTop_fill (by decide) (inert_placeholders hs), hcut] at hread
      obtain ⟨ts, es'', hreveals, hall, rfl⟩ := hread
      have hpart : ∀ r ∈ p :: q :: ps, r <:+: outline (trim t) := fun r hr => infix_of_mem_cutTop (hcut ▸ hr)
      obtain rfl := eq_map_of_forall₂ (forall₂_map_left_iff.1 hreveals) fun r hr u hu =>
        reveals_fill hnumbered (fun e he => (hes e he).value.clean) houtline hbound (hpart r hr) hu
      have hsettles : Forall₂ (MayRead provider fuel).Settles
          ((p :: q :: ps).map (fill (parens (es.map Expression.value)))) es' := by
        refine ((forall₂_and_left _ _).2 ⟨fun u hu => ?_, hparts⟩).imp fun u e hu => ih hu.1 hu.2
        obtain ⟨r, hr, rfl⟩ := mem_map.1 hu
        exact hygienic_of_isInfix houtline (hpart r hr) (forall_mem_map.2 fun e he => (hes e he).value)
      obtain ⟨rfl, hle⟩ := hall.eq hsettles
      exact ⟨rfl, hnumbered.le.trans hle⟩
    | flow hwhole hgroups hcut hflow =>
      obtain ⟨hsettles, hes, hbound⟩ := hgroup hgroups
      obtain ⟨hs, m, hnumbered, hread⟩ := hread.exists_numbered hwhole hsettles
      rw [Hidden.MayRead, splitTop_fill (by decide) (inert_placeholders hs), hcut] at hread
      obtain ⟨w, hw, rfl, rfl⟩ := hread
      obtain rfl := readsFlow_unique hnumbered (fun e he => (hes e he).value.clean) houtline hbound hflow hw
      exact ⟨rfl, hnumbered.le⟩

/-! ## Attribute values -/

theorem hygienic_stripBraces (h : Hygienic t) : Hygienic (stripBraces t) := by
  simp only [stripBraces]
  split
  · exact (h.trim.of_infix ((List.take_prefix _ _).isInfix.trans (drop_suffix _ _).isInfix)).trim
  · exact h

/-- Reads an attribute value without placeholders; none if a group with pipes stands in the name of a pipe. -/
def Expression.direct? (provider t : Text) : Option Expression :=
  direct provider (nestingFuel (stripBraces t)) (stripBraces t)

/-- What a reader of attribute values may do that replaces the placeholders in any order. -/
def Expression.MayRead (provider t : Text) : (n : Nat) → Expression → (k : Nat) → Prop :=
  Pipe.MayRead provider (nestingFuel (stripBraces t)) (stripBraces t)

def Expression.texts (e : Expression) : List Text :=
  e.value :: e.subscriptions.flatMap Subscription.texts

theorem Expression.read_eq_direct (hprov : Hygienic provider) (ht : Hygienic t)
    (h : Expression.direct? provider t = some e) (n : Nat) : ((Expression.read provider t).run n).1 = e :=
  (settles_direct hprov (hygienic_stripBraces ht) h _ _ _ (mayRead_run provider _ _ n)).1

/-! ## Other providers -/

theorem Flow.length_meaning (provider : Text) (w : Flow Text) :
    (w.meaning provider).subscriptions.length = w.calls.countP fun c => (Kind.ofName? c.name).isSome := by
  suffices hall : ∀ (calls : List (Call Text)) (chain : Chain),
      (calls.foldl (Call.apply provider) chain).subscriptions.length =
        calls.countP (fun c => (Kind.ofName? c.name).isSome) + chain.subscriptions.length from hall w.calls _
  intro calls
  induction calls with
  | nil => simp
  | cons c calls ih =>
    intro chain
    rw [foldl_cons, ih, countP_cons, Call.apply]
    cases Kind.ofName? c.name with
    | none => simp
    | some kind => simp [Nat.add_assoc, Nat.add_comm 1]

theorem Phrase.length_value {m m' : α → Expression} (p q : Text)
    (hm : ∀ g, (m g).subscriptions.length = (m' g).subscriptions.length) (e : Phrase (Piece α)) :
    (e.value p m).subscriptions.length = (e.value q m').subscriptions.length := by
  unfold Phrase.value
  split
  · exact hm _
  · simp [Phrase.meaning, length_flatMap, Flow.length_meaning, Flow.map, Call.map, Function.comp_def, hm]

/-- An expression stands for as many subscriptions with one provider as with another. -/
theorem Nested.length_meaning (p q : Text) (e : Nested depth) :
    (e.meaning p).subscriptions.length = (e.meaning q).subscriptions.length := by
  induction depth with
  | zero => exact e.elim
  | succ depth ih => exact Phrase.length_value p q ih e

/-- The text of a well-formed expression. -/
def IsWritten (t : Text) : Prop :=
  ∃ depth, ∃ e : Nested depth, e.WellFormed ∧ e.text = t

end FlutterLayout.Pipe
