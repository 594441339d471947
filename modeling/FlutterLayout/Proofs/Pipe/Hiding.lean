import FlutterLayout.Proofs.Pipe.Splitting

/-!
# Hiding — groups behind placeholders

`hideText read h t` goes on hiding with `t`.  Balanced text without pipes in brackets is kept as it is
(`hideText_nests`); a balanced group with a pipe is read and leaves a placeholder (`hideText_group`).
Blanks at the ends of an expression stay where they are (`hide_strips`).
-/

namespace FlutterLayout.Pipe

open List Text Hidden
open Text (IsBlanks Strips)

variable {inside outside : List UInt8} {t u r : Text} {ms ns : List Mark}
variable {read : Text → StateM Nat Expression}

/-! ## Groups -/

def leadWith (front : Text) : List Group × Text → List Group × Text
  | ([], tail) => ([], front ++ tail)
  | (g :: gs, tail) => (⟨front ++ g.before, g.inner⟩ :: gs, tail)

theorem groupsFrom_append (front before : Text) (opened : Option Text) (ms : List Mark) :
    groupsFrom (front ++ before) opened ms = leadWith front (groupsFrom before opened ms) := by
  induction ms generalizing before opened with
  | nil => simp [groupsFrom, leadWith]
  | cons m ms ih =>
    unfold groupsFrom
    split
    · rw [append_assoc, ih]
    · cases opened with
      | none => simp only [append_assoc, ih]
      | some inner =>
        simp only
        split
        · rfl
        · rw [ih]

theorem groupsFrom_skip (before : Text) (hms : ∀ m ∈ ms, ¬ (m.depth? = some 0 ∧ m.byte = byte '('))
    (ns : List Mark) : groupsFrom before none (ms ++ ns) = groupsFrom (before ++ ms.map Mark.byte) none ns := by
  induction ms generalizing before with
  | nil => simp
  | cons m ms ih =>
    have hm := hms m mem_cons_self
    rw [cons_append, groupsFrom, if_neg (by simpa using hm), ih _ fun m' hm' => hms m' (mem_cons_of_mem _ hm')]
    simp

theorem groupsFrom_opened (before inner : Text) (hms : ∀ m ∈ ms, m.depth? ≠ some 0) (ns : List Mark) :
    groupsFrom before (some inner) (ms ++ ns) = groupsFrom before (some (inner ++ ms.map Mark.byte)) ns := by
  induction ms generalizing inner with
  | nil => simp
  | cons m ms ih =>
    have hm := hms m mem_cons_self
    rw [cons_append, groupsFrom, if_neg (by simp [hm])]
    simp only
    rw [if_neg (by simp [hm]), ih _ fun m' hm' => hms m' (mem_cons_of_mem _ hm')]
    simp

theorem groupsFrom_group (before : Text) (hms : ∀ m ∈ ms, m.depth? ≠ some 0) (ns : List Mark) :
    groupsFrom before none (⟨byte '(', some 0, false⟩ :: (ms ++ ⟨byte ')', some 0, false⟩ :: ns)) =
      (⟨before, ms.map Mark.byte⟩ :: (groupsFrom [] none ns).1, (groupsFrom [] none ns).2) := by
  have hne : byte ')' ≠ byte '(' := by decide
  rw [groupsFrom, if_pos (by simp), groupsFrom_opened _ _ hms, groupsFrom, if_neg (by simpa using hne)]
  simp [unclosed]

theorem groupsFrom_of_blanks (before : Text) (opened : Option Text) (hns : ∀ m ∈ ns, m.byte ∈ blanks.flatten) :
    groupsFrom before opened ns = ([], before ++ unclosed opened ++ ns.map Mark.byte) := by
  have hround : ∀ b ∈ blanks.flatten, b ≠ byte '(' ∧ b ≠ byte ')' := by decide +kernel
  induction ns generalizing before opened with
  | nil => simp [groupsFrom]
  | cons n ns ih =>
    obtain ⟨hopen, hclose⟩ := hround _ (hns n mem_cons_self)
    replace hns := fun m hm => hns m (mem_cons_of_mem _ hm)
    cases opened with
    | none => simp [groupsFrom, hopen, ih _ _ hns, unclosed]
    | some inner => simp [groupsFrom, hopen, hclose, ih _ _ hns, unclosed]

theorem groupsFrom_append_blanks (before : Text) (opened : Option Text) (ms : List Mark)
    (hns : ∀ m ∈ ns, m.byte ∈ blanks.flatten) : groupsFrom before opened (ms ++ ns) =
      ((groupsFrom before opened ms).1, (groupsFrom before opened ms).2 ++ ns.map Mark.byte) := by
  have hne : byte ')' ≠ byte '(' := by decide
  induction ms generalizing before opened with
  | nil => simp [groupsFrom_of_blanks before opened hns, groupsFrom]
  | cons m ms ih =>
    by_cases hopen : m.depth? = some 0 ∧ m.byte = byte '('
    · simp [groupsFrom, hopen, ih]
    · cases opened with
      | none => simp [groupsFrom, hopen, ih]
      | some inner =>
        by_cases hclose : m.depth? = some 0 ∧ m.byte = byte ')'
        · simp [groupsFrom, hclose, hne, ih]
        · simp [groupsFrom, hopen, hclose, ih]

theorem groupsFrom_previous (s : Lexical) (before : Text) (opened : Option Text) (previous previous' : Option UInt8)
    (t : Text) : groupsFrom before opened (marksFrom s previous t) =
      groupsFrom before opened (marksFrom s previous' t) := by
  induction t generalizing s before opened previous previous' with
  | nil => rfl
  | cons b t ih => simp only [marksFrom, groupsFrom]

/-! ## Hiding step by step -/

@[simp] theorem ofString_leftParenthesis : ofString "(" = [byte '('] := rfl

@[simp] theorem ofString_rightParenthesis : ofString ")" = [byte ')'] := rfl

def Hidden.grow (h : Hidden) (t : Text) : Hidden :=
  { h with text := h.text ++ t }

def Hidden.cover (h : Hidden) (n : Nat) (e : Expression) : Hidden where
  text := h.text ++ placeholder n
  placeholders := h.placeholders ++ [(placeholder n, "(" ++ e.value ++ ")")]
  subscriptions := h.subscriptions ++ e.subscriptions

@[simp] theorem Hidden.grow_nil (h : Hidden) : h.grow [] = h := by
  simp [grow]

@[simp] theorem Hidden.grow_grow (h : Hidden) (t u : Text) : (h.grow t).grow u = h.grow (t ++ u) := by
  simp [grow]

def hideMarks (read : Text → StateM Nat Expression) (h : Hidden) (ms : List Mark) : StateM Nat Hidden := do
  let h' ← hideGroups read (groupsFrom [] none ms).1 h
  pure (h'.grow (groupsFrom [] none ms).2)

theorem hideMarks_leadWith (h : Hidden) (front : Text) (ms : List Mark) :
    (do
      let h' ← hideGroups read (groupsFrom front none ms).1 h
      pure (h'.grow (groupsFrom front none ms).2)) = hideMarks read (h.grow front) ms := by
  have hlead := groupsFrom_append front [] none ms
  rw [append_nil] at hlead
  rw [hlead, hideMarks]
  obtain ⟨gs, tail⟩ := groupsFrom [] none ms
  cases gs with
  | nil => simp [leadWith, hideGroups]
  | cons g gs => simp [leadWith, hideGroups, grow]

theorem hideMarks_skip (h : Hidden) (hms : ∀ m ∈ ms, ¬ (m.depth? = some 0 ∧ m.byte = byte '('))
    (ns : List Mark) : hideMarks read h (ms ++ ns) = hideMarks read (h.grow (ms.map Mark.byte)) ns := by
  rw [← hideMarks_leadWith, hideMarks, groupsFrom_skip [] hms ns, nil_append]

theorem hideMarks_group (h : Hidden) (hms : ∀ m ∈ ms, m.depth? ≠ some 0) (ns : List Mark) :
    hideMarks read h (⟨byte '(', some 0, false⟩ :: (ms ++ ⟨byte ')', some 0, false⟩ :: ns)) =
      if hasPipe (ms.map Mark.byte) then do
        let e ← read (ms.map Mark.byte)
        let n ← get
        set (n + 1)
        hideMarks read (h.cover n e) ns
      else hideMarks read (h.grow ("(" ++ ms.map Mark.byte ++ ")")) ns := by
  rw [hideMarks, groupsFrom_group [] hms ns]
  simp only [hideGroups, append_nil]
  split
  · simp [hideMarks, cover]
  · simp [hideMarks, grow]

/-! ## Hiding text -/

def hideText (read : Text → StateM Nat Expression) (h : Hidden) (t : Text) : StateM Nat Hidden :=
  hideMarks read h (marks t)

theorem hide_eq_hideText (t : Text) : hide read t = hideText read ⟨[], [], []⟩ t := rfl

theorem hideText_nil (h : Hidden) : hideText read h [] = pure h := by
  simp [hideText, marks, marksFrom, hideMarks, groupsFrom, hideGroups, unclosed]

theorem hideMarks_previous (h : Hidden) (previous : Option UInt8) (t : Text) :
    hideMarks read h (marksFrom (.code 0) previous t) = hideText read h t := by
  rw [hideText, hideMarks, hideMarks, marks, groupsFrom_previous (.code 0) [] none previous none t]

theorem Nests.hasPipe_eq_false (h : Nests inside inside t) (hbar : bar ∈ inside) : hasPipe t = false := by
  obtain ⟨ms, hms, -, hquiet⟩ := h.marksFrom 0 none []
  rw [append_nil, Pipe.marksFrom, append_nil] at hms
  rw [hasPipe, marks, hms, any_eq_false]
  intro m hm
  simp [hquiet hbar hbar m hm]

/-- A balanced text is a row of groups and of texts without a parenthesis at depth zero. -/
theorem Nests.induct_groups {P : (t : Text) → Nests inside outside t → Prop} (nil : P [] .nil)
    (group : ∀ {body t} (hbody : Nests inside inside body) (ht : Nests inside outside t), P t ht →
      P (Text.byte '(' :: (body ++ Text.byte ')' :: t)) (.bracket parentheses_mem hbody ht))
    (skip : ∀ {x t} (hx : Nests inside outside x) (ht : Nests inside outside t), (∀ previous r, ∃ ms,
      Pipe.marksFrom (.code 0) previous (x ++ r) = ms ++ Pipe.marksFrom (.code 0) (lastByte previous x) r ∧
        ms.map Mark.byte = x ∧ ∀ m ∈ ms, ¬ (m.depth? = some 0 ∧ m.byte = Text.byte '(')) → P t ht →
      P (x ++ t) (hx.append ht)) (h : Nests inside outside t) : P t h := by
  have hplain : ∀ {x t} (hx : Nests inside outside x) (ht : Nests inside outside t), Text.byte '(' ∉ x → P t ht →
      P (x ++ t) (hx.append ht) := by
    refine fun hx ht hround => skip hx ht fun previous r => ?_
    obtain ⟨ms, hms, hspan, -⟩ := hx.marksFrom 0 previous r
    exact ⟨ms, hms, hspan.bytes, fun m hm h => hround (h.2 ▸ hspan.bytes ▸ mem_map_of_mem hm)⟩
  induction h with
  | nil => exact nil
  | @byte _ b t hb hout ht ih =>
    refine hplain (x := [b]) (.byte hb hout .nil) ht (fun h => ?_) (ih nil group skip hplain)
    exact absurd (mem_singleton.1 h ▸ hb) (by decide)
  | @bars _ n t ht ih =>
    refine hplain (append_nil (List.replicate (n + 2) bar) ▸ .bars .nil) ht (fun h => ?_) (ih nil group skip hplain)
    exact absurd (mem_replicate.1 h).2 (by decide)
  | @literal _ quote body t hquote hbody ht ih =>
    have hlit := skip (.literal hquote hbody .nil) ht (fun previous r => ?_) (ih nil group skip hplain)
    · simpa using hlit
    obtain ⟨ms, hms, hbytes, hnone⟩ := marksFrom_quoted hquote hbody 0 previous r
    refine ⟨ms, by simpa [lastByte] using hms, hbytes, fun m hm h => ?_⟩
    rw [(hnone m hm).1] at h
    cases h.1
  | @bracket _ left right body t hpair hbody ht _ ih =>
    have hends : ∀ p ∈ brackets, p.1 = Text.byte '(' ∧ p.2 = Text.byte ')' ∨
        p.1 ≠ Text.byte '(' ∧ p.2 ≠ Text.byte '(' := by decide
    rcases hends _ hpair with ⟨rfl, rfl⟩ | ⟨hleft, hright⟩
    · exact group hbody ht (ih nil group skip hplain)
    · have hbracket := skip (.bracket hpair hbody .nil) ht (fun previous r => ?_) (ih nil group skip hplain)
      · simpa using hbracket
      obtain ⟨ms, hms, hspan, -⟩ := hbody.marksFrom 1 (some left) (right :: r)
      refine ⟨⟨left, some 0, false⟩ :: (ms ++ [⟨right, some 0, false⟩]), ?_, by simp [hspan.bytes], ?_⟩
      · rw [cons_append, append_assoc, singleton_append, marksFrom_opening hpair, hms, marksFrom_closing hpair]
        simp [lastByte]
      · refine forall_mem_cons.2 ⟨fun h => hleft h.2, forall_mem_append.2 ⟨fun m hm h => hspan.deep m hm h.1, ?_⟩⟩
        exact forall_mem_singleton.2 fun h => hright h.2

theorem hideMarks_nests (hbar : bar ∈ inside) (h : Nests inside outside t) (g : Hidden) (previous : Option UInt8)
    (r : Text) : hideMarks read g (marksFrom (.code 0) previous (t ++ r)) = hideText read (g.grow t) r := by
  induction h using Nests.induct_groups generalizing g previous with
  | nil => simpa using hideMarks_previous g previous r
  | group hbody _ ih =>
    obtain ⟨bs, hbs, hinner, -⟩ := hbody.marksFrom 1 (some (byte '(')) (byte ')' :: (_ ++ r))
    rw [cons_append, append_assoc, cons_append, marksFrom_opening parentheses_mem, hbs,
      marksFrom_closing parentheses_mem, hideMarks_group g hinner.deep, hinner.bytes,
      if_neg (by simp [hbody.hasPipe_eq_false hbar]), ih]
    simp
  | skip _ _ hx ih =>
    obtain ⟨ms, hms, hbytes, hskip⟩ := hx previous (_ ++ r)
    rw [append_assoc, hms, hideMarks_skip g hskip, hbytes, ih, grow_grow]

theorem hideText_nests (hbar : bar ∈ inside) (h : Nests inside outside t) (g : Hidden) (r : Text) :
    hideText read g (t ++ r) = hideText read (g.grow t) r :=
  hideMarks_nests hbar h g none r

theorem hideText_group (h : Nests inside outside t) (hpipe : hasPipe t = true) (g : Hidden) (r : Text) :
    hideText read g (byte '(' :: (t ++ byte ')' :: r)) = (do
      let e ← read t
      let n ← get
      set (n + 1)
      hideText read (g.cover n e) r) := by
  obtain ⟨ms, hms, hspan, -⟩ := h.marksFrom 1 (some (byte '(')) (byte ')' :: r)
  rw [hideText, marks, marksFrom_opening parentheses_mem, hms, marksFrom_closing parentheses_mem,
    hideMarks_group g hspan.deep, hspan.bytes, if_pos hpipe]
  simp only [hideMarks_previous]

/-! ## Blanks at the ends -/

def Hidden.lead (front : Text) (h : Hidden) : Hidden :=
  { h with text := front ++ h.text }

theorem hideGroups_lead (front : Text) (gs : List Group) (h : Hidden) :
    hideGroups read gs (h.lead front) = lead front <$> hideGroups read gs h := by
  induction gs generalizing h with
  | nil => simp [hideGroups]
  | cons g gs ih =>
    rw [hideGroups, hideGroups]
    split
    · simp only [map_bind]
      congr 1
      funext e
      congr 1
      funext n
      congr 1
      funext _
      rw [← ih]
      simp [lead]
    · rw [← ih]
      simp [lead]

/-- Blanks at the ends of an expression stay at the ends when its groups are hidden. -/
theorem hide_strips (read : Text → StateM Nat Expression) (h : Strips t u) :
    ∃ a b, IsBlanks a ∧ IsBlanks b ∧ hide read t = (fun h => (h.lead a).grow b) <$> hide read u := by
  obtain ⟨a, b, ha, hb, rfl⟩ := h
  obtain ⟨ms, ns, hmarks, hms, hns, -⟩ := exists_marks_strips ha hb u
  refine ⟨a, b, ha, hb, ?_⟩
  have hskip : ∀ m ∈ ms, ¬ (m.depth? = some 0 ∧ m.byte = byte '(') := by
    rintro m hm ⟨-, hopen⟩
    have hmem : m.byte ∈ a := hms ▸ mem_map_of_mem hm
    exact absurd (hopen ▸ ha.mem_flatten hmem) (by decide +kernel)
  have hblanks : ∀ m ∈ ns, m.byte ∈ blanks.flatten := fun m hm =>
    hb.mem_flatten (hns ▸ mem_map_of_mem hm)
  have hfront : (⟨[], [], []⟩ : Hidden).grow a = (⟨[], [], []⟩ : Hidden).lead a := by
    simp [grow, lead]
  rw [hide_eq_hideText, hide_eq_hideText, hideText, hmarks, hideMarks_skip _ hskip, hms, hideMarks,
    groupsFrom_append_blanks [] none _ hblanks, hns, hfront, hideGroups_lead, hideText, hideMarks]
  simp [grow, lead]

end FlutterLayout.Pipe
