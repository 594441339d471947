import FlutterLayout.Proofs.Pipe.Writing

/-!
# Numbering — the groups of an expression behind their placeholders

Hiding the groups of an expression leaves an expression of the same form, whose groups have numbers in place
of their texts (`Phrase.exists_yields`).  The numbers depend on what reading the groups used up, but no two
of them are equal.
-/

namespace FlutterLayout.Pipe

open List Text Phrase Piece Flow

variable {α β β' γ : Type} {inside outside : List UInt8} {t t' u u' : Text} {n k l : Nat}
variable {read : Text → StateM Nat Expression} {hidden others : List (Nat × Expression)}

/-! ## One part of an expression -/

def Hidden.take (h : Hidden) (t : Text) (hidden : List (Nat × Expression)) : Hidden where
  text := h.text ++ t
  placeholders := h.placeholders ++ entries hidden
  subscriptions := h.subscriptions ++ hidden.flatMap fun g => g.2.subscriptions

theorem Hidden.take_nil (h : Hidden) (t : Text) : h.take t [] = h.grow t := by
  simp [take, grow, entries]

theorem Hidden.take_singleton (h : Hidden) (k : Nat) (e : Expression) :
    h.take (placeholder k) [(k, e)] = h.cover k e := by
  simp [take, cover, entries]

theorem Hidden.take_take (h : Hidden) (t u : Text) (hidden others : List (Nat × Expression)) :
    (h.take t hidden).take u others = h.take (t ++ u) (hidden ++ others) := by
  simp [take, entries]

/-- Hiding the groups of `t` gives `t'` and takes the numbers of `hidden`, all from `n` up to `l`. -/
structure Yields (read : Text → StateM Nat Expression) (n : Nat) (t : Text) (l : Nat) (t' : Text)
    (hidden : List (Nat × Expression)) : Prop where
  le : n ≤ l
  bounds : ∀ g ∈ hidden, n ≤ g.1 ∧ g.1 < l
  distinct : (hidden.map Prod.fst).Nodup
  hides : ∀ h r, (hideText read h (t ++ r)).run n = (hideText read (h.take t' hidden) r).run l

namespace Yields

theorem append (ht : Yields read n t k t' hidden) (hu : Yields read k u l u' others) :
    Yields read n (t ++ u) l (t' ++ u') (hidden ++ others) where
  le := ht.le.trans hu.le
  bounds := by
    rw [forall_mem_append]
    exact ⟨fun g hg => ⟨(ht.bounds g hg).1, (ht.bounds g hg).2.trans_le hu.le⟩,
      fun g hg => ⟨ht.le.trans (hu.bounds g hg).1, (hu.bounds g hg).2⟩⟩
  distinct := by
    rw [map_append, nodup_append]
    refine ⟨ht.distinct, hu.distinct, fun a ha b hb => ?_⟩
    obtain ⟨g, hg, rfl⟩ := mem_map.1 ha
    obtain ⟨g', hg', rfl⟩ := mem_map.1 hb
    exact ((ht.bounds g hg).2.trans_le (hu.bounds g' hg').1).ne
  hides h r := by
    rw [append_assoc, ht.hides, hu.hides, Hidden.take_take]

theorem of_nests (hbar : bar ∈ inside) (ht : Nests inside outside t) (n : Nat) : Yields read n t n t [] where
  le := Nat.le_refl n
  bounds := by simp
  distinct := .nil
  hides h r := by rw [hideText_nests hbar ht, Hidden.take_nil]

theorem of_group (ht : Nests inside outside t) (hpipe : hasPipe t = true) (hle : n ≤ k)
    (hread : (read t).run n = (e, k)) : Yields read n ("(" ++ t ++ ")") (k + 1) (placeholder k) [(k, e)] where
  le := Nat.le_succ_of_le hle
  bounds := by simpa using hle
  distinct := by simp
  hides h r := by
    have htext : ofString "(" ++ t ++ ofString ")" ++ r = byte '(' :: (t ++ byte ')' :: r) := by simp
    rw [htext, hideText_group ht hpipe, Hidden.take_singleton, StateT.run_bind, hread]
    rfl

variable {F : β → Text} {F' : β' → Text} {G : β' → List (Nat × Expression)} {v : β → γ} {v' : β' → γ} {xs : List β}

theorem exists_flatMap (h : ∀ x ∈ xs, ∀ n, ∃ l x', v' x' = v x ∧ Yields read n (F x) l (F' x') (G x')) (n : Nat) :
    ∃ l, ∃ xs' : List β', xs'.map v' = xs.map v ∧ Yields read n (xs.flatMap F) l (xs'.flatMap F') (xs'.flatMap G) := by
  induction xs generalizing n with
  | nil => exact ⟨n, [], rfl, of_nests (mem_singleton_self bar) (.nil : Nests [bar] [] []) n⟩
  | cons x xs ih =>
    obtain ⟨hx, hxs⟩ := forall_mem_cons.1 h
    obtain ⟨k, x', hx', hyields⟩ := hx n
    obtain ⟨l, xs', hxs', hrest⟩ := ih hxs k
    exact ⟨l, x' :: xs', by rw [map_cons, map_cons, hx', hxs'], hyields.append hrest⟩

theorem exists_flatMap_behind (ht : Nests [bar] outside t)
    (h : ∀ x ∈ xs, ∀ n, ∃ l x', v' x' = v x ∧ Yields read n (F x) l (F' x') (G x')) (n : Nat) :
    ∃ l, ∃ xs' : List β', xs'.map v' = xs.map v ∧
      Yields read n (xs.flatMap fun x => t ++ F x) l (xs'.flatMap fun x' => t ++ F' x') (xs'.flatMap G) := by
  refine exists_flatMap (fun x hx n => ?_) n
  obtain ⟨l, x', hx', hyields⟩ := h x hx n
  exact ⟨l, x', hx', (of_nests (mem_singleton_self bar) ht n).append hyields⟩

/-- Blanks around an expression are cut off before its groups are hidden, and are missing behind that too. -/
theorem exists_hide_trim (h : Yields read n t l t' hidden) : ∃ u, Strips t' u ∧
    (hide read (trim t)).run n = (⟨u, entries hidden, hidden.flatMap fun g => g.2.subscriptions⟩, l) := by
  obtain ⟨a, b, ha, hb, hlead⟩ := hide_strips read (strips_trim t)
  have hrun : (hide read t).run n = (⟨t', entries hidden, hidden.flatMap fun g => g.2.subscriptions⟩, l) := by
    have hides := h.hides ⟨[], [], []⟩ []
    rw [append_nil, hideText_nil] at hides
    rw [hide_eq_hideText, hides]
    rfl
  rw [hlead, StateT.run_map] at hrun
  generalize (hide read (trim t)).run n = result at hrun ⊢
  obtain ⟨⟨u, placeholders, subscriptions⟩, l'⟩ := result
  obtain ⟨hhidden, rfl⟩ := Prod.mk.inj hrun
  obtain ⟨rfl, rfl, rfl⟩ := Hidden.mk.inj hhidden
  exact ⟨u, ⟨a, b, ha, hb, rfl⟩, rfl⟩

end Yields

/-! ## Expressions of one form -/

def Piece.map (F : α → β) (p : Piece α) : Piece β :=
  ⟨p.first, p.rest.map fun (g, t) => (F g, t)⟩

theorem Flow.map_congr {w : Flow β} {F F' : β → γ} (h : ∀ p ∈ w.pieces, F p = F' p) : w.map F = w.map F' := by
  obtain ⟨hatom, hcalls⟩ := forall_mem_cons.1 h
  have hmap : ∀ c ∈ w.calls, Call.map F c = Call.map F' c := fun c hc =>
    congrArg (Call.mk c.name) (map_congr_left fun p hp => hcalls p (mem_flatMap.2 ⟨c, hc, hp⟩))
  rw [map, map, hatom, map_congr_left hmap]

@[simp] theorem Flow.map_map (F : β → γ) (G : γ → δ) (w : Flow β) : (w.map F).map G = w.map fun p => G (F p) := by
  simp [map, Call.map, Function.comp_def]

@[simp] theorem Phrase.map_map (F : β → γ) (G : γ → δ) (e : Phrase β) : (e.map F).map G = e.map fun p => G (F p) := by
  simp [map, Function.comp_def]

@[simp] theorem Phrase.pieces_map (F : β → γ) (e : Phrase β) : (e.map F).pieces = e.pieces.map F := by
  simp [pieces, Flow.pieces, Flow.map, Call.map, flatMap_map, map_flatMap]

@[simp] theorem Piece.texts_map (F : α → β) (p : Piece α) : (p.map F).texts = p.texts := by
  simp [texts, map, Function.comp_def]

@[simp] theorem Piece.groups_map (F : α → β) (p : Piece α) : (p.map F).groups = p.groups.map F := by
  simp [groups, map, Function.comp_def]

@[simp] theorem Phrase.groups_map (F : α → β) (e : Phrase (Piece α)) : (e.map (.map F)).groups = e.groups.map F := by
  simp [groups, flatMap_map, map_flatMap]

@[simp] theorem Piece.spell_map (f : β → Text) (F : α → β) (p : Piece α) :
    (p.map F).spell f = p.spell fun g => f (F g) := by
  simp [spell, map, flatMap_map]

@[simp] theorem Phrase.wellFormed_map (F : α → β) (e : Phrase (Piece α)) :
    (e.map (.map F)).WellFormed ↔ e.WellFormed := by
  simp [WellFormed, flows, map, Flow.WellFormed, Flow.map, Call.WellFormed, Call.map, Piece.WellFormed]

/-! ## Expressions -/

abbrev Piece.covered (p : Piece (Nat × Expression)) : Text :=
  p.spell fun g => placeholder g.1

section Levels

variable {f : α → Text} {m : α → Expression}

structure Reads (read : Text → StateM Nat Expression) (f : α → Text) (m : α → Expression) (g : α) : Prop where
  nests : Nests [] [] (f g)
  hasPipe : hasPipe (f g) = true
  reads : ∀ n, ∃ k, n ≤ k ∧ (read (f g)).run n = (m g, k)

theorem Piece.exists_yields {p : Piece α} (hp : ∀ t ∈ p.texts, Nests [bar] [bar] t)
    (hread : ∀ g ∈ p.groups, Reads read f m g)
    (n : Nat) : ∃ l p', map Prod.snd p' = p.map m ∧
      Yields read n (p.spell fun g => "(" ++ f g ++ ")") l p'.covered p'.groups := by
  obtain ⟨first, rest⟩ := p
  have hone : ∀ one ∈ rest, ∀ n, ∃ l, ∃ one' : (Nat × Expression) × Text, (one'.1.2, one'.2) = (m one.1, one.2) ∧
      Yields read n (ofString "(" ++ f one.1 ++ ofString ")" ++ one.2) l (placeholder one'.1.1 ++ one'.2) [one'.1] := by
    intro one hone n
    obtain ⟨hnests, hpipe, hreads⟩ := hread one.1 (mem_map_of_mem hone)
    obtain ⟨k, hle, hrun⟩ := hreads n
    have htext := hp one.2 (mem_cons_of_mem _ (mem_map_of_mem hone))
    exact ⟨k + 1, ((k, m one.1), one.2), rfl,
      (Yields.of_group hnests hpipe hle hrun).append (.of_nests (by simp) htext (k + 1))⟩
  obtain ⟨l, rest', hmap, hyields⟩ := Yields.exists_flatMap hone n
  refine ⟨l, ⟨first, rest'⟩, congrArg (mk first) hmap, ?_⟩
  have hgroups : (mk first rest').groups = [] ++ rest'.flatMap fun one => [one.1] := by
    simp [groups, map_eq_flatMap]
  rw [hgroups]
  exact (Yields.of_nests (by simp) (hp first mem_cons_self) n).append hyields

abbrev Call.groups (c : Call (Piece α)) : List α :=
  c.arguments.flatMap Piece.groups

abbrev Flow.groups (w : Flow (Piece α)) : List α :=
  w.atom.groups ++ w.calls.flatMap Call.groups

theorem Phrase.groups_eq (e : Phrase (Piece α)) : e.groups = e.first.groups ++ e.more.flatMap Flow.groups := by
  simp [groups, pieces, flows, Flow.pieces, Flow.groups, flatMap_assoc]

theorem Call.exists_yields {c : Call (Piece α)} (hc : c.WellFormed)
    (hread : ∀ g ∈ c.groups, Reads read f m g) (n : Nat) :
    ∃ l, ∃ c' : Call (Piece (Nat × Expression)), c'.map (Piece.map Prod.snd) = c.map (Piece.map m) ∧
      Yields read n (c.map (Piece.spell fun g => "(" ++ f g ++ ")")).text l (c'.map Piece.covered).text c'.groups := by
  obtain ⟨name, arguments⟩ := c
  have hcolon : Nests [bar] [bar] [byte ':'] := .of_bytes (by decide)
  have htexts : ∀ p ∈ arguments, ∀ t ∈ p.texts, Nests [bar] [bar] t := fun p hp t ht =>
    (hc.2 p hp t ht).weaken (.refl _) (by simp)
  obtain ⟨l, arguments', hmap, hyields⟩ := Yields.exists_flatMap_behind hcolon (fun p hp =>
    Piece.exists_yields (htexts p hp) fun g hg => hread g (mem_flatMap.2 ⟨p, hp, hg⟩)) n
  have hname : Nests [bar] [bar] name := nests_of_tame hc.1.tame (by decide)
  refine ⟨l, ⟨name, arguments'⟩, congrArg (Call.mk name) hmap, ?_⟩
  have hstart : Yields read n name n name [] := .of_nests (by simp) hname n
  simpa [Call.text, Call.map, flatMap_map] using hstart.append hyields

theorem Flow.exists_yields {w : Flow (Piece α)} (hw : w.WellFormed)
    (hread : ∀ g ∈ w.groups, Reads read f m g) (n : Nat) :
    ∃ l, ∃ w' : Flow (Piece (Nat × Expression)), w'.map (Piece.map Prod.snd) = w.map (Piece.map m) ∧
      Yields read n (w.map (Piece.spell fun g => "(" ++ f g ++ ")")).text l (w'.map Piece.covered).text w'.groups := by
  obtain ⟨atom, calls⟩ := w
  obtain ⟨hatom, hcalls⟩ := forall_mem_append.1 hread
  have hpipe : Nests [bar] [] [space, bar, space] := .of_bytes (by decide)
  have htexts : ∀ t ∈ atom.texts, Nests [bar] [bar] t := fun t ht => (hw.1 t ht).weaken (List.Subset.refl _) (by simp)
  obtain ⟨k, atom', hatom', hfirst⟩ := Piece.exists_yields htexts hatom n
  obtain ⟨l, calls', hmap, hrest⟩ := Yields.exists_flatMap_behind hpipe (fun c hc =>
    Call.exists_yields (hw.2 c hc) fun g hg => hcalls g (mem_flatMap.2 ⟨c, hc, hg⟩)) k
  refine ⟨l, ⟨atom', calls'⟩, by simp only [Flow.map, hatom', hmap], ?_⟩
  simpa [Flow.text, Flow.map, flatMap_map] using hfirst.append hrest

theorem Phrase.exists_yields {e : Phrase (Piece α)} (he : e.WellFormed)
    (hread : ∀ g ∈ e.groups, Reads read f m g) (n : Nat) :
    ∃ l, ∃ e' : Phrase (Piece (Nat × Expression)), e'.map (Piece.map Prod.snd) = e.map (Piece.map m) ∧
      Yields read n (e.spell f) l (e'.map Piece.covered).text e'.groups := by
  obtain ⟨first, more⟩ := e
  rw [groups_eq] at hread
  obtain ⟨hfirst, hmore⟩ := forall_mem_append.1 hread
  have hcomma : Nests [bar] [] [byte ','] := .of_bytes (by decide)
  obtain ⟨k, first', hfirst', hyields⟩ := Flow.exists_yields (he first mem_cons_self) hfirst n
  obtain ⟨l, more', hmap, hrest⟩ := Yields.exists_flatMap_behind hcomma (fun w hw =>
    Flow.exists_yields (he w (mem_cons_of_mem _ hw)) fun g hg => hmore g (mem_flatMap.2 ⟨w, hw, hg⟩)) k
  refine ⟨l, ⟨first', more'⟩, by simp only [map, hfirst', hmap], ?_⟩
  rw [groups_eq]
  simpa [spell, text, map, flatMap_map] using hyields.append hrest

end Levels

end FlutterLayout.Pipe
