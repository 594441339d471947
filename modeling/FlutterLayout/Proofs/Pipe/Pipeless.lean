import FlutterLayout.Proofs.Pipe.Grouping

/-!
# Pipeless — expressions without pipes

The reader scans parts of an expression anew: what a group encloses, and the parts of a comma list.  Each of
them starts outside literals, and no bar stands at its borders, so the second scan finds no pipe that the
first did not find (`hasPipe_inner`, `marks_of_mem_splitTop`).  An expression without pipes is therefore
given back as it is, but for the blanks around the parts of a comma list
(`Expression.read_of_hasPipe_eq_false`).
-/

namespace FlutterLayout.Pipe

open List Text
open Text (Strips)

variable {s : Lexical} {previous : Option UInt8} {t u p before : Text} {c : UInt8} {g : Group} {m : Mark}

/-! ## Scanning anew -/

def Lexical.place : Lexical → Lexical
  | code _ => code 0
  | literal quote _ => literal quote 0
  | escape quote _ => escape quote 0

theorem Lexical.place_step (s : Lexical) (b : UInt8) : (s.step b).place = (s.place.step b).place := by
  cases s <;> simp only [place, step] <;> split_ifs <;> rfl

theorem Lexical.isSome_depthOf? (s : Lexical) (b : UInt8) : (s.depthOf? b).isSome = (s.place.depthOf? b).isSome := by
  cases s with
  | code depth =>
    simp only [place, depthOf?]
    split_ifs <;> rfl
  | literal | escape => rfl

theorem map_isPipe_marksFrom (h : s.place = s'.place) (previous : Option UInt8) (t : Text) :
    (marksFrom s previous t).map Mark.isPipe = (marksFrom s' previous t).map Mark.isPipe := by
  induction t generalizing s s' previous with
  | nil => rfl
  | cons b t ih =>
    have hstep : (s.step b).place = (s'.step b).place := by
      rw [s.place_step, h, ← s'.place_step]
    simp only [marksFrom, map_cons, ih hstep, s.isSome_depthOf?, h, ← s'.isSome_depthOf?]

def Quiet (s : Lexical) (previous : Option UInt8) (t : Text) : Prop :=
  ∀ m ∈ marksFrom s previous t, m.isPipe = false

theorem hasPipe_eq_false_iff : hasPipe t = false ↔ Quiet (.code 0) none t := by
  simp [hasPipe, marks, Quiet]

theorem quiet_iff (s : Lexical) (previous : Option UInt8) (t : Text) :
    Quiet s previous t ↔ ∀ b ∈ (marksFrom s previous t).map Mark.isPipe, b = false := by
  simp [Quiet]

theorem Quiet.anew (h : Quiet (.code d) previous t) (hprevious : previous ≠ some bar) : Quiet (.code 0) none t := by
  have hplace : (Lexical.code 0).place = (Lexical.code d).place := rfl
  rw [quiet_iff, marksFrom_previous hprevious (Option.some_ne_none bar).symm] at h
  rw [quiet_iff, map_isPipe_marksFrom hplace]
  exact h

theorem Quiet.of_append (h : Quiet s previous (t ++ u)) (hu : u.head? ≠ some bar) : Quiet s previous t := by
  rw [Quiet, marksFrom_append hu] at h
  exact fun m hm => h m (mem_append_left _ hm)

theorem Lexical.eq_code (h : s.depthOf? b = some d) : ∃ depth, s = .code depth := by
  cases s with
  | code depth => exact ⟨depth, rfl⟩
  | literal | escape => cases h

/-! ## Groups -/

theorem quiet_of_mem_groupsFrom {opened : Option Text} (h : Quiet s previous t)
    (hopened : ∀ inner, opened = some inner → Quiet (.code 0) none (inner ++ t))
    (hg : g ∈ (groupsFrom before opened (marksFrom s previous t)).1) : Quiet (.code 0) none g.inner := by
  induction t generalizing s previous before opened with
  | nil => cases hg
  | cons b t ih =>
    have hrest : Quiet (s.step b) (some b) t := fun m hm => h m (mem_cons_of_mem _ hm)
    rw [marksFrom] at hg
    unfold groupsFrom at hg
    split at hg
    · -- a parenthesis opens here, and what follows is read from outside literals
      rename_i hopen
      simp only [Bool.and_eq_true, decide_eq_true_eq] at hopen
      obtain ⟨hdepth, rfl⟩ := hopen
      obtain ⟨depth, rfl⟩ := Lexical.eq_code hdepth
      refine ih hrest (fun inner hinner => ?_) hg
      obtain rfl : [] = inner := Option.some.inj hinner
      exact .anew (d := depth + 1) hrest (by decide)
    · cases opened with
      | none => exact ih hrest (by simp) hg
      | some inner =>
        have hinner := hopened inner rfl
        simp only at hg
        split at hg
        · rename_i hclose
          simp only [Bool.and_eq_true, decide_eq_true_eq] at hclose
          rcases mem_cons.1 hg with rfl | hg
          · refine hinner.of_append ?_
            have hne : byte ')' ≠ bar := by decide
            simp [hclose.2, hne]
          · exact ih hrest (by simp) hg
        · refine ih hrest (fun inner' hinner' => ?_) hg
          obtain rfl : inner ++ [b] = inner' := Option.some.inj hinner'
          rwa [append_assoc]

theorem hasPipe_inner (h : hasPipe t = false) (hg : g ∈ (groups t).1) : hasPipe g.inner = false :=
  hasPipe_eq_false_iff.2 (quiet_of_mem_groupsFrom (hasPipe_eq_false_iff.1 h) (by simp) hg)

theorem wholeGroup?_filter_eq_none (h : hasPipe t = false) : (wholeGroup? t).filter hasPipe = none := by
  rw [Option.filter_eq_none_iff]
  intro inner hinner
  have hg : ⟨[], inner⟩ ∈ (groups t).1 := by
    unfold wholeGroup? at hinner
    split at hinner
    · rename_i hgroups
      cases hinner
      simp [hgroups]
    · cases hinner
  simp [hasPipe_inner h hg]

theorem hideGroups_of_forall {read : Text → StateM Nat Expression} (h : ∀ g ∈ gs, hasPipe g.inner = false)
    (hidden : Hidden) : hideGroups read gs hidden = pure (hidden.grow (assemble (gs, []))) := by
  induction gs generalizing hidden with
  | nil => simp [hideGroups, assemble]
  | cons g gs ih =>
    obtain ⟨hg, hgs⟩ := forall_mem_cons.1 h
    rw [hideGroups, if_neg (by simp [hg]), ih hgs]
    simp [Hidden.grow, assemble]

theorem hide_of_hasPipe_eq_false (read : Text → StateM Nat Expression) (h : hasPipe t = false) :
    hide read t = pure ⟨t, [], []⟩ := by
  have htext : (assemble ((groups t).1, []) ++ (groups t).2) = t := by
    simpa [assemble] using assemble_groups t
  rw [hide]
  simp only [hideGroups_of_forall (fun g hg => hasPipe_inner h hg), pure_bind]
  simp [Hidden.grow, htext]

/-! ## Comma lists -/

theorem marks_of_mem_splitMarks (hc : isOrdinary c = true) (hbar : c ≠ bar) (s : Lexical) (previous : Option UInt8)
    (t : Text) : ∃ q ps, splitMarks (fun m => m.depth? = some 0 && m.byte = c) (marksFrom s previous t) = q :: ps ∧
      (∀ m ∈ marksFrom s previous q, m ∈ marksFrom s previous t ∧ ¬ (m.depth? = some 0 ∧ m.byte = c)) ∧
      ∀ p ∈ ps, ∀ m ∈ marks p, m ∈ marksFrom s previous t ∧ ¬ (m.depth? = some 0 ∧ m.byte = c) := by
  induction t generalizing s previous with
  | nil => exact ⟨[], [], rfl, by simp [marksFrom], by simp⟩
  | cons b t ih =>
    obtain ⟨q, ps, hsplit, hq, hps⟩ := ih (s.step b) (some b)
    have hps' : ∀ p ∈ ps, ∀ m ∈ marks p, m ∈ marksFrom s previous (b :: t) ∧ ¬ (m.depth? = some 0 ∧ m.byte = c) :=
      fun p hp m hm => ⟨mem_cons_of_mem _ (hps p hp m hm).1, (hps p hp m hm).2⟩
    rw [marksFrom, splitMarks]
    split
    · -- behind a separator a part starts outside literals and brackets
      rename_i hcut
      simp only [Bool.and_eq_true, decide_eq_true_eq] at hcut
      obtain ⟨hdepth, rfl⟩ := hcut
      obtain ⟨depth, rfl⟩ := Lexical.eq_code hdepth
      simp only [isOrdinary, Bool.and_eq_true, Bool.not_eq_true'] at hc
      obtain rfl : depth = 0 := by simpa [Lexical.depthOf?, hc] using hdepth
      have hstep : Lexical.step (.code 0) b = .code 0 := by simp [Lexical.step, hc]
      rw [hstep] at hsplit hq
      refine ⟨[], q :: ps, by rw [hstep, hsplit], by simp [marksFrom], ?_⟩
      refine forall_mem_cons.2 ⟨fun m hm => ?_, hps'⟩
      rw [marks, marksFrom_previous (Option.some_ne_none bar).symm (by simpa using hbar : some b ≠ some bar)] at hm
      refine ⟨mem_cons_of_mem _ ?_, (hq m hm).2⟩
      rw [hstep]
      exact (hq m hm).1
    · rename_i hcut
      refine ⟨b :: q, ps, by rw [hsplit], fun m hm => ?_, hps'⟩
      -- what follows the byte is a bar in the part if and only if it is one in the whole
      have hhead : q.head? ≠ some bar ↔ t.head? ≠ some bar := by
        cases t with
        | nil =>
          obtain ⟨rfl, -⟩ : [] = q ∧ [] = ps := by simpa [marksFrom, splitMarks] using hsplit
          rfl
        | cons b' t =>
          rw [marksFrom, splitMarks] at hsplit
          split at hsplit
          · rename_i hcut'
            simp only [Bool.and_eq_true, decide_eq_true_eq] at hcut'
            obtain ⟨rfl, -⟩ := cons.inj hsplit
            simp [hcut'.2, hbar]
          · obtain ⟨x, xs, hxs⟩ := exists_splitMarks (fun m => m.depth? = some 0 && m.byte = c)
              (marksFrom ((s.step b).step b') (some b') t)
            rw [hxs] at hsplit
            obtain ⟨rfl, -⟩ := cons.inj hsplit
            simp
      rw [marksFrom] at hm
      simp only [hhead] at hm
      rcases mem_cons.1 hm with rfl | hm
      · exact ⟨mem_cons_self, by simpa using hcut⟩
      · exact ⟨mem_cons_of_mem _ (hq m hm).1, (hq m hm).2⟩

theorem marks_of_mem_splitTop (hc : isOrdinary c = true) (hbar : c ≠ bar) (hp : p ∈ splitTop c t) (hm : m ∈ marks p) :
    m ∈ marks t ∧ ¬ (m.depth? = some 0 ∧ m.byte = c) := by
  obtain ⟨q, ps, hsplit, hq, hps⟩ := marks_of_mem_splitMarks hc hbar (.code 0) none t
  rw [splitTop, marks, hsplit] at hp
  rcases mem_cons.1 hp with rfl | hp
  · exact hq m hm
  · exact hps p hp m hm

theorem splitTop_of_forall (h : ∀ m ∈ marks t, ¬ (m.depth? = some 0 ∧ m.byte = c)) : splitTop c t = [t] := by
  rw [splitTop, splitMarks_of_forall (fun m hm => by simpa using h m hm), marks, map_byte_marksFrom]

theorem mem_marks_of_strips (h : Strips t u) (hm : m ∈ marks u) : m ∈ marks t := by
  obtain ⟨a, b, ha, hb, rfl⟩ := h
  obtain ⟨ms, ns, hmarks, -⟩ := exists_marks_strips ha hb u
  rw [hmarks]
  exact mem_append_right _ (mem_append_left _ hm)

theorem hasPipe_eq_false_of_subset (h : hasPipe t = false) (hsub : ∀ m ∈ marks u, m ∈ marks t) : hasPipe u = false := by
  simp only [hasPipe, any_eq_false] at h ⊢
  exact fun m hm => h m (hsub m hm)

theorem hasPipe_trim (h : hasPipe t = false) : hasPipe (trim t) = false :=
  hasPipe_eq_false_of_subset h fun _ hm => mem_marks_of_strips (strips_trim t) hm

/-! ## Reading -/

theorem readChain_of_hasPipe_eq_false (provider : Text) (reveal : Text → Text) (h : hasPipe t = false) :
    readChain provider reveal t = ⟨reveal (trim t), reveal (trim t), []⟩ := by
  have hparts : splitPipes t = [t] := by
    rw [splitPipes, splitMarks_of_forall (fun m hm => ?_), marks, map_byte_marksFrom]
    simp [hasPipe_eq_false_iff.1 h m hm]
  simp [readChain, hparts]

theorem readNested_of_forall (provider : Text) (fuel : Nat) (h : hasPipe t = false)
    (hcomma : ∀ m ∈ marks (trim t), ¬ (m.depth? = some 0 ∧ m.byte = byte ',')) :
    readNested provider (fuel + 1) t = pure ⟨trim t, []⟩ := by
  have htrim := hasPipe_trim h
  rw [readNested]
  simp only [wholeGroup?_filter_eq_none htrim, hide_of_hasPipe_eq_false _ htrim, pure_bind, splitTop_of_forall hcomma,
    readChain_of_hasPipe_eq_false _ _ htrim, trim_of_bare (startsBare_trim t) (endsBare_trim t)]
  rfl

theorem readAll_of_forall {read : Text → StateM Nat Expression} (h : ∀ t ∈ ts, read t = pure ⟨trim t, []⟩) :
    readAll read ts = pure (ts.map fun t => ⟨trim t, []⟩) := by
  induction ts with
  | nil => rfl
  | cons t ts ih =>
    obtain ⟨ht, hts⟩ := forall_mem_cons.1 h
    simp [readAll, ht, ih hts]

theorem splitMarks_eq_singleton (h : splitMarks cutAt ms = [p]) : p = ms.map Mark.byte := by
  induction ms generalizing p with
  | nil => simpa [splitMarks] using h.symm
  | cons m ms ih =>
    obtain ⟨q, qs, hq⟩ := exists_splitMarks cutAt ms
    rw [splitMarks, hq] at h
    split at h
    · cases h
    · obtain ⟨rfl, rfl⟩ : m.byte :: q = p ∧ qs = [] := by simpa using h
      rw [ih hq, map_cons]

theorem readNested_of_hasPipe_eq_false (provider : Text) (fuel : Nat) (h : hasPipe t = false) :
    readNested provider (fuel + 2) t = pure ⟨join ", " ((splitTop (byte ',') (trim t)).map trim), []⟩ := by
  have hpart : ∀ p ∈ splitTop (byte ',') (trim t),
      readNested provider (fuel + 1) p = pure ⟨trim p, []⟩ := fun p hp => by
    have hmarks := fun m (hm : m ∈ marks p) => marks_of_mem_splitTop (by decide) (by decide) hp hm
    exact readNested_of_forall provider fuel
      (hasPipe_eq_false_of_subset (hasPipe_trim h) fun m hm => (hmarks m hm).1)
      fun m hm => (hmarks m (mem_marks_of_strips (strips_trim p) hm)).2
  have htrim := hasPipe_trim h
  have hreveal : (⟨trim t, [], []⟩ : Hidden).reveal = id := rfl
  rw [readNested]
  simp only [wholeGroup?_filter_eq_none htrim, hide_of_hasPipe_eq_false _ htrim, pure_bind, hreveal, map_id,
    readChain_of_hasPipe_eq_false _ _ htrim]
  obtain ⟨q, qs, hsplit⟩ : ∃ q qs, splitTop (byte ',') (trim t) = q :: qs := exists_splitMarks _ _
  rw [hsplit] at hpart ⊢
  cases qs with
  | nil =>
    have hq := splitMarks_eq_singleton hsplit
    rw [marks, map_byte_marksFrom] at hq
    simp [hq, join]
  | cons second more =>
    have hnone : ((q :: second :: more).map fun p => (⟨trim p, []⟩ : Expression)).flatMap
        Expression.subscriptions = [] := by
      simp [flatMap_eq_nil_iff]
    simp only [readAll_of_forall hpart, pure_bind, hnone, map_map]
    rfl

/-- An expression without pipes needs neither subscriptions nor placeholders nor the provider; it stands for
its own text, in which a comma and a space part what commas outside brackets and literals part. -/
theorem Expression.read_of_hasPipe_eq_false (provider : Text) (h : hasPipe (stripBraces t) = false) :
    Expression.read provider t =
        pure ⟨Text.join ", " ((splitTop (Text.byte ',') (Text.trim (stripBraces t))).map Text.trim), []⟩ ∧
      ((∀ m ∈ marks (Text.trim (stripBraces t)), ¬ (m.depth? = some 0 ∧ m.byte = Text.byte ',')) →
        Expression.read provider t = pure ⟨Text.trim (stripBraces t), []⟩) := by
  have hread := readNested_of_hasPipe_eq_false provider (2 * (stripBraces t).length + 2) h
  refine ⟨hread, fun hcomma => ?_⟩
  exact readNested_of_forall provider (2 * (stripBraces t).length + 3) h hcomma

theorem Expression.read_of_hasPipe_eq_false_unbalanced :
    hasPipe (stripBraces "\x7b\x7b f(a || b ,c) , 'd|e' +] g\x7d\x7d") = false ∧
      (Expression.read defaultProvider "\x7b\x7b f(a || b ,c) , 'd|e' +] g\x7d\x7d").run 7 =
        (⟨"f(a || b ,c), 'd|e' +] g", []⟩, 7) := by
  have h : hasPipe (stripBraces "\x7b\x7b f(a || b ,c) , 'd|e' +] g\x7d\x7d") = false := by decide
  have hvalue : Text.join ", " ((splitTop (Text.byte ',') (Text.trim (stripBraces
      "\x7b\x7b f(a || b ,c) , 'd|e' +] g\x7d\x7d"))).map Text.trim) = "f(a || b ,c), 'd|e' +] g" := by
    decide
  rw [(Expression.read_of_hasPipe_eq_false defaultProvider h).1, hvalue]
  exact ⟨h, rfl⟩

end FlutterLayout.Pipe
