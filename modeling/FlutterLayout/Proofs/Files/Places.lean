import FlutterLayout.Files.Store

/-!
# Places — where a path leads

`Files.place` follows a path through the directories.  Where it arrives, if it arrives, can be told from the path
alone: `placeOf`.  Cleaning a path does not change its place, and a name behind a directory is the place of the
directory with the name added (`placeOf_join`).
-/

namespace FlutterLayout

open List

/-! ## Pieces between separators -/

namespace Text

variable {sep : UInt8} {s t piece : Text}

theorem splitOn_ne_nil (sep : UInt8) (t : Text) : splitOn sep t ≠ [] := by
  fun_cases splitOn sep t <;> simp_all

theorem splitOn_append_cons (sep : UInt8) (s t : Text) :
    splitOn sep (s ++ sep :: t) = splitOn sep s ++ splitOn sep t := by
  induction s with
  | nil => simp [splitOn]
  | cons b s ih =>
    by_cases hb : b = sep
    · simp [splitOn, hb, ih]
    · obtain ⟨piece, pieces, hs⟩ := exists_cons_of_ne_nil (splitOn_ne_nil sep s)
      simp [splitOn, hb, ih, hs]

theorem splitOn_of_notMem (h : sep ∉ t) : splitOn sep t = [t] := by
  induction t with
  | nil => rfl
  | cons b t ih =>
    rw [mem_cons, not_or] at h
    simp [splitOn, Ne.symm h.1, ih h.2]

theorem notMem_of_mem_splitOn (h : piece ∈ splitOn sep t) : sep ∉ piece := by
  induction t generalizing piece with
  | nil => simp_all [splitOn]
  | cons b t ih =>
    obtain ⟨first, pieces, ht⟩ := exists_cons_of_ne_nil (splitOn_ne_nil sep t)
    by_cases hb : b = sep
    · rw [splitOn, if_pos hb, mem_cons] at h
      rcases h with rfl | h
      · simp
      · exact ih h
    · simp only [splitOn, if_neg hb, ht, mem_cons] at h
      rw [ht] at ih
      rcases h with rfl | h
      · rw [mem_cons, not_or]
        exact ⟨Ne.symm hb, ih mem_cons_self⟩
      · exact ih (mem_cons_of_mem _ h)

end Text

/-! ## Parts of a path -/

namespace Path

variable {p q part : Text} {ps kept : List Text} {rooted : Bool}

structure IsPart (part : Text) : Prop where
  ne_nil : part ≠ []
  slash_notMem : slash ∉ part

theorem IsPart.ne_root (h : IsPart part) : part ≠ "/" := by
  rintro rfl
  exact h.slash_notMem (by decide)

/-- A part that names something, unlike the ones that mean a directory relative to another. -/
structure IsName (part : Text) : Prop extends IsPart part where
  ne_here : part ≠ here
  ne_above : part ≠ above

theorem isName_dart (h : slash ∉ t) : IsName (t ++ ".dart") := by
  have hlong : ∀ {u : Text}, u.length < 5 → t ++ ".dart" ≠ u := by
    rintro u hu rfl
    have hdart : (Text.ofString ".dart").length = 5 := by decide
    rw [length_append] at hu
    omega
  refine ⟨⟨hlong (by decide), ?_⟩, hlong (by decide), hlong (by decide)⟩
  intro hslash
  rcases mem_append.1 hslash with hslash | hslash
  · exact h hslash
  · exact absurd hslash (by decide)

theorem isPart_of_mem_parts (h : part ∈ parts p) : IsPart part := by
  obtain ⟨hmem, hne⟩ := mem_filter.1 h
  exact ⟨by simpa using hne, Text.notMem_of_mem_splitOn hmem⟩

theorem parts_append_slash (p q : Text) : parts (p ++ slash :: q) = parts p ++ parts q := by
  rw [parts, Text.splitOn_append_cons, filter_append]
  rfl

theorem parts_of_isPart (h : IsPart part) : parts part = [part] := by
  rw [parts, Text.splitOn_of_notMem h.slash_notMem]
  simp [h.ne_nil]

theorem ofString_slash : Text.ofString "/" = [slash] := by decide

theorem parts_join (h : ∀ part ∈ ps, IsPart part) : parts (.join "/" ps) = ps := by
  induction ps with
  | nil => rfl
  | cons part ps ih =>
    obtain ⟨hpart, hps⟩ := forall_mem_cons.1 h
    cases ps with
    | nil => simpa [Text.join] using parts_of_isPart hpart
    | cons next ps =>
      have hjoin : Text.join "/" (part :: next :: ps) = part ++ slash :: Text.join "/" (next :: ps) := by
        simp [Text.join, intercalate, ofString_slash]
      rw [hjoin, parts_append_slash, parts_of_isPart hpart, ih hps]
      rfl

def keptParts (p : Text) : List Text :=
  (parts p).foldl (addPart (isRooted p)) []

inductive Settled (rooted : Bool) : List Text → Prop where
  | nil : Settled rooted []
  | cons {kept : List Text} {part : Text} (h : Settled rooted kept) (hpart : addPart rooted kept part = part :: kept) :
      Settled rooted (part :: kept)

theorem addPart_of_isName (h : IsName part) : addPart rooted kept part = part :: kept := by
  rw [addPart.eq_def, if_neg h.ne_here, if_neg h.ne_above]

theorem addPart_above (last : Text) (kept : List Text) :
    addPart rooted (last :: kept) above = if last = above then above :: last :: kept else kept := rfl

theorem Settled.addPart (h : Settled rooted kept) (part : Text) : Settled rooted (addPart rooted kept part) := by
  by_cases hhere : part = here
  · rwa [Path.addPart.eq_def, if_pos hhere]
  by_cases habove : part = above
  · subst habove
    cases h with
    | nil =>
      cases rooted with
      | true => exact .nil
      | false => exact .cons .nil rfl
    | @cons kept last h hlast =>
      rw [addPart_above]
      split
      · rename_i hup
        exact .cons (.cons h hlast) (by rw [addPart_above, if_pos hup])
      · exact h
  · have hadd : Path.addPart rooted kept part = part :: kept := by
      rw [Path.addPart.eq_def, if_neg hhere, if_neg habove]
    rw [hadd]
    exact .cons h hadd

theorem Settled.foldl (h : Settled rooted kept) (ps : List Text) :
    Settled rooted (ps.foldl (Path.addPart rooted) kept) :=
  foldlRecOn _ _ h fun _ h part _ => h.addPart part

theorem Settled.foldl_reverse (h : Settled rooted kept) : kept.reverse.foldl (Path.addPart rooted) [] = kept := by
  induction h with
  | nil => rfl
  | cons h hpart ih => rw [reverse_cons, foldl_append, ih, foldl_cons, hpart, foldl_nil]

theorem mem_of_mem_addPart (h : part ∈ addPart rooted kept q) : part ∈ kept ∨ part = q := by
  unfold addPart at h
  split at h
  · exact .inl h
  · split at h
    · rename_i habove
      split at h
      · split at h
        · rcases mem_cons.1 h with rfl | h
          · exact .inr habove.symm
          · exact .inl h
        · exact .inl (mem_cons_of_mem _ h)
      · split at h
        · cases h
        · exact .inr ((mem_singleton.1 h).trans habove.symm)
    · exact (mem_cons.1 h).symm

theorem mem_of_mem_foldl_addPart (h : part ∈ ps.foldl (addPart rooted) kept) : part ∈ kept ∨ part ∈ ps := by
  revert h
  refine foldlRecOn (motive := fun parts => part ∈ parts → part ∈ kept ∨ part ∈ ps) _ _ .inl ?_
  intro parts ih q hq h
  exact (mem_of_mem_addPart h).elim ih fun heq => .inr (heq ▸ hq)

theorem settled_keptParts (p : Text) : Settled (isRooted p) (keptParts p) :=
  Settled.nil.foldl _

theorem isPart_of_mem_keptParts (h : part ∈ keptParts p) : IsPart part :=
  (mem_of_mem_foldl_addPart h).elim (fun h => absurd h not_mem_nil) isPart_of_mem_parts

/-! ### Cleaning -/

theorem isRooted_append (h : p ≠ []) (q : Text) : isRooted (p ++ q) = isRooted p := by
  obtain ⟨b, p, rfl⟩ := exists_cons_of_ne_nil h
  rfl

theorem isRooted_join (h : ∀ part ∈ ps, IsPart part) : isRooted (.join "/" ps) = false := by
  cases ps with
  | nil => rfl
  | cons part ps =>
    have hpart := h part mem_cons_self
    obtain ⟨b, rest, rfl⟩ := exists_cons_of_ne_nil hpart.ne_nil
    have hb : b ≠ slash := fun hb => hpart.slash_notMem (hb ▸ mem_cons_self)
    cases ps <;> simpa [isRooted, Text.join, intercalate] using hb

theorem clean_eq (p : Text) : clean p = if isRooted p then slash :: Text.join "/" (keptParts p).reverse
    else if (keptParts p).reverse.isEmpty then here else Text.join "/" (keptParts p).reverse :=
  rfl

theorem isPart_of_mem_reverse_keptParts (p : Text) : ∀ part ∈ (keptParts p).reverse, IsPart part :=
  fun _ h => isPart_of_mem_keptParts (mem_reverse.1 h)

theorem isRooted_clean (p : Text) : isRooted (clean p) = isRooted p := by
  rw [clean_eq]
  split
  · rename_i h
    rw [h]
    rfl
  · rename_i h
    rw [Bool.not_eq_true] at h
    split
    · rw [h]
      decide
    · rw [h, isRooted_join (isPart_of_mem_reverse_keptParts p)]

theorem keptParts_clean (p : Text) : keptParts (clean p) = keptParts p := by
  have hparts := parts_join (isPart_of_mem_reverse_keptParts p)
  have hfold : (parts (clean p)).foldl (addPart (isRooted p)) [] = keptParts p := by
    rw [clean_eq]
    split
    · have hroot := parts_append_slash [] (.join "/" (keptParts p).reverse)
      rw [nil_append] at hroot
      rw [hroot, hparts]
      exact (settled_keptParts p).foldl_reverse
    · split
      · rename_i hempty
        rw [List.isEmpty_iff, reverse_eq_nil_iff] at hempty
        rw [hempty]
        rfl
      · rw [hparts]
        exact (settled_keptParts p).foldl_reverse
  rw [keptParts, isRooted_clean, hfold]

theorem keptParts_append_name (h : IsName part) (hp : p ≠ []) : keptParts (p ++ "/" ++ part) = part :: keptParts p := by
  have hslash : p ++ "/" ++ part = p ++ slash :: part := by simp [ofString_slash]
  rw [keptParts, hslash, isRooted_append hp, parts_append_slash, parts_of_isPart h.toIsPart, foldl_append]
  exact addPart_of_isName h

end Path

/-! ## Places -/

namespace Files

variable {fs fs' : Files} {path content : Text} {place p q : List Text} {n : FileNode} {rooted : Bool}
  {kept : List Text}

open FlutterLayout.Path (Settled IsPart IsName keptParts)

def origin (rooted : Bool) : List Text :=
  if rooted then root else []

def placeOf (path : Text) : List Text :=
  origin (Path.isRooted path) ++ (keptParts path).reverse

theorem placeOf_clean (path : Text) : placeOf (Path.clean path) = placeOf path := by
  rw [placeOf, Path.isRooted_clean, Path.keptParts_clean]
  rfl

theorem placeOf_join (h : IsName name) : placeOf (Path.join directory name) = placeOf directory ++ [name] := by
  have hne : name.isEmpty = false := by simpa using h.ne_nil
  unfold Path.join
  split
  · rename_i hdir
    rw [List.isEmpty_iff.1 hdir, hne, if_neg Bool.false_ne_true, placeOf_clean]
    have hrooted : Path.isRooted name = false := by
      obtain ⟨b, rest, rfl⟩ := exists_cons_of_ne_nil h.ne_nil
      simpa [Path.isRooted] using fun hb : b = _ => h.slash_notMem (hb ▸ mem_cons_self)
    rw [placeOf, hrooted, keptParts, Path.parts_of_isPart h.toIsPart, foldl_cons, Path.addPart_of_isName h]
    rfl
  · rename_i hdir
    rw [List.isEmpty_iff] at hdir
    rw [hne, if_neg Bool.false_ne_true, placeOf_clean, placeOf, append_assoc directory,
      Path.isRooted_append hdir, ← append_assoc directory, Path.keptParts_append_name h hdir,
      reverse_cons, ← append_assoc]
    rfl

/-! ### Following a path -/

theorem eq_above_of_addPart (h : Path.addPart rooted (last :: kept) Path.above = Path.above :: last :: kept) :
    last = Path.above := by
  refine Decidable.byContradiction fun hlast => ?_
  rw [Path.addPart_above, if_neg hlast] at h
  have hlength := congrArg length h
  simp only [length_cons] at hlength
  omega

theorem above_notMem_of_settled (h : Settled true kept) : Path.above ∉ kept := by
  induction h with
  | nil => simp
  | @cons kept part h hpart ih =>
    rw [mem_cons, not_or]
    refine ⟨?_, ih⟩
    rintro rfl
    cases kept with
    | nil => cases hpart
    | cons last kept => exact ih (eq_above_of_addPart hpart ▸ mem_cons_self)

theorem eq_above_of_settled (h : Settled rooted (Path.above :: kept)) (hlast : last ∈ kept) : last = Path.above := by
  generalize hlist : Path.above :: kept = list at h
  induction h generalizing kept with
  | nil => cases hlist
  | @cons kept' part h hpart ih =>
    obtain ⟨rfl, rfl⟩ := cons.inj hlist
    cases kept with
    | nil => cases hlast
    | cons next kept =>
      obtain rfl := eq_above_of_addPart hpart
      rcases mem_cons.1 hlast with rfl | hlast
      · rfl
      · exact ih hlast rfl

theorem parentPlace_origin (h : Settled rooted kept) (hparts : ∀ part ∈ kept, IsPart part) :
    parentPlace (origin rooted ++ kept.reverse) = origin rooted ++ (Path.addPart rooted kept Path.above).reverse := by
  cases kept with
  | nil => cases rooted <;> decide
  | cons last kept =>
    have hdrop : (origin rooted ++ (last :: kept).reverse).dropLast = origin rooted ++ kept.reverse := by
      rw [reverse_cons, ← append_assoc, dropLast_concat]
    rw [Path.addPart_above]
    cases rooted with
    | true =>
      have hlast : last ≠ Path.above := fun hlast => above_notMem_of_settled h (hlast ▸ mem_cons_self)
      have hroot : origin true ++ (last :: kept).reverse ≠ root := by
        intro hroot
        have hlength := congrArg length hroot
        simp [origin, root] at hlength
      have habove : isAbove (origin true ++ (last :: kept).reverse) = false := by
        rw [isAbove, all_append]
        rfl
      rw [parentPlace, if_neg hroot, habove, if_neg Bool.false_ne_true, if_neg hlast, hdrop]
    | false =>
      have hroot : origin false ++ (last :: kept).reverse ≠ root := by
        intro hroot
        have hmem : Text.ofString "/" ∈ (last :: kept).reverse := by
          rw [show (last :: kept).reverse = root from hroot]
          exact mem_singleton.2 rfl
        exact (hparts _ (mem_reverse.1 hmem)).ne_root rfl
      rw [parentPlace, if_neg hroot]
      by_cases hlast : last = Path.above
      · subst hlast
        have hall : isAbove (origin false ++ (Path.above :: kept).reverse) = true := by
          have hkept : ∀ part ∈ Path.above :: kept, part = Path.above := by
            intro part hpart
            rcases mem_cons.1 hpart with rfl | hpart
            · rfl
            · exact eq_above_of_settled h hpart
          simpa [isAbove, origin] using hkept
        rw [if_pos hall, if_pos rfl, append_assoc, ← reverse_cons]
      · have hall : isAbove (origin false ++ (last :: kept).reverse) = false := by
          simp [isAbove, origin, hlast]
        rw [hall, if_neg Bool.false_ne_true, if_neg hlast, hdrop]

/-- The place one part further on. -/
def enter (place : List Text) (part : Text) : List Text :=
  if part = Path.here then place else if part = Path.above then parentPlace place else place ++ [part]

theorem walk_cons_iff : fs.walk start (part :: parts) = .ok place ↔ fs.node? start = some .directory ∧
    (part ≠ Path.here → part ≠ Path.above → part.length ≤ maxPartLength) ∧
    fs.walk (enter start part) parts = .ok place := by
  rw [walk, enter]
  split
  · simp [*]
  · simp [*]
  · split
    · simp [*]
    · split
      · simp [*]
      · split
        · rename_i hlong
          simp [*, Nat.not_le.2 hlong]
        · rename_i hshort
          simp [*, Nat.not_lt.1 hshort]

theorem walk_eq (h : Settled rooted kept) (hkept : ∀ part ∈ kept, IsPart part)
    (hparts : ∀ part ∈ parts, IsPart part) (hwalk : fs.walk (origin rooted ++ kept.reverse) parts = .ok place) :
    place = origin rooted ++ (parts.foldl (Path.addPart rooted) kept).reverse := by
  induction parts generalizing kept with
  | nil =>
    cases hwalk
    rfl
  | cons part parts ih =>
    obtain ⟨hpart, hparts⟩ := forall_mem_cons.1 hparts
    have hadded : ∀ part' ∈ Path.addPart rooted kept part, IsPart part' := fun part' hmem =>
      (Path.mem_of_mem_addPart hmem).elim (hkept part') fun he => he ▸ hpart
    obtain ⟨-, -, hwalk⟩ := walk_cons_iff.1 hwalk
    refine ih (h.addPart part) hadded hparts (Eq.trans (congrArg (fs.walk · parts) ?_) hwalk)
    unfold enter
    by_cases hhere : part = Path.here
    · rw [if_pos hhere, Path.addPart.eq_def, if_pos hhere]
    rw [if_neg hhere]
    by_cases habove : part = Path.above
    · rw [if_pos habove, parentPlace_origin h hkept, habove]
    · rw [if_neg habove, Path.addPart_of_isName ⟨hpart, hhere, habove⟩, reverse_cons, ← append_assoc]

/-- Which paths can be followed at all does not depend on the files. -/
theorem walk_of_follow (h : fs.follow path parts = .ok place) :
    fs.walk (origin (Path.isRooted path)) parts = .ok place ∧
    ∀ fs' : Files, fs'.follow path parts = fs'.walk (origin (Path.isRooted path)) parts := by
  unfold follow at h
  split at h
  · cases h
  split at h
  · cases h
  split at h
  · cases h
  rename_i hempty hname hlength
  refine ⟨h, fun fs' => ?_⟩
  rw [follow, if_neg hempty, if_neg hname, if_neg hlength]
  rfl

theorem place_eq (h : fs.place path = .ok place) : place = placeOf path := by
  have hnone : ∀ part ∈ ([] : List Text), IsPart part := fun _ h => absurd h not_mem_nil
  have hwalk := (walk_of_follow h).1
  rw [← append_nil (origin _)] at hwalk
  split at hwalk
  · have hparts : ∀ part ∈ Path.parts path ++ [Path.here], IsPart part :=
      forall_mem_append.2 ⟨fun _ hpart => Path.isPart_of_mem_parts hpart,
        forall_mem_singleton.2 ⟨by decide, by decide⟩⟩
    have hplace := walk_eq .nil hnone hparts hwalk
    rw [foldl_append] at hplace
    exact hplace
  · exact walk_eq .nil hnone (fun _ hpart => Path.isPart_of_mem_parts hpart) hwalk

/-! ## What stands at a place -/

theorem read_eq_ok_iff : fs.read path = .ok content ↔
    fs.place path = .ok (placeOf path) ∧ fs.node? (placeOf path) = some (.file content) := by
  unfold read find
  cases hplace : fs.place path with
  | error cause => simp
  | ok place =>
    obtain rfl := place_eq hplace
    dsimp only
    cases fs.node? (placeOf path) with
    | none => simp
    | some n => cases n <;> simp

theorem node?_of_read (h : fs.read path = .ok content) : fs.node? (placeOf path) = some (.file content) :=
  (read_eq_ok_iff.1 h).2

theorem lookup_filter_ne (nodes : List (List Text × FileNode)) (p q : List Text) :
    (nodes.filter fun e => e.1 ≠ p).lookup q = if q = p then none else nodes.lookup q := by
  induction nodes with
  | nil => simp
  | cons e nodes ih =>
    by_cases hplace : e.1 = p
    · rw [filter_cons_of_neg (by simpa using hplace), ih]
      split
      · rfl
      · rename_i hq
        rw [lookup_cons, beq_false_of_ne (hplace ▸ hq)]
    · rw [filter_cons_of_pos (by simpa using hplace), lookup_cons, lookup_cons, ih]
      by_cases hq : q = e.1
      · rw [hq, if_neg hplace, if_neg hplace, beq_self_eq_true]
      · rw [beq_false_of_ne hq]

def isFixed (place : List Text) : Bool :=
  isAbove place || place = root

theorem node?_of_isFixed (h : isFixed p = true) : fs.node? p = some .directory :=
  if_pos h

theorem node?_of_not_isFixed (h : isFixed p = false) : fs.node? p = fs.nodes.lookup p :=
  if_neg (Bool.eq_false_iff.1 h)

theorem isFixed_of_node?_ne (h : fs.node? p ≠ some .directory) : isFixed p = false :=
  Bool.eq_false_iff.2 fun hfixed => h (node?_of_isFixed hfixed)

theorem node?_put_of_ne (h : q ≠ p) : (fs.put p n).node? q = fs.node? q := by
  cases hq : isFixed q with
  | true => rw [node?_of_isFixed hq, node?_of_isFixed hq]
  | false =>
    rw [node?_of_not_isFixed hq, node?_of_not_isFixed hq, put, lookup_cons, beq_false_of_ne h]
    exact (lookup_filter_ne _ _ _).trans (if_neg h)

theorem node?_put_self (h : fs.node? p ≠ some .directory) : (fs.put p n).node? p = some n := by
  rw [node?_of_not_isFixed (isFixed_of_node?_ne h), put, lookup_cons, beq_self_eq_true]

theorem node?_drop (fs : Files) (p q : List Text) : (fs.drop p).node? q = fs.node? q ∨ (fs.drop p).node? q = none := by
  cases hq : isFixed q with
  | true => exact .inl (by rw [node?_of_isFixed hq, node?_of_isFixed hq])
  | false =>
    rw [node?_of_not_isFixed hq, node?_of_not_isFixed hq, drop, lookup_filter_ne]
    split
    · exact .inr rfl
    · exact .inl rfl

/-! ### Writing -/

/-- A file that can be written is put at the place of its path, where no directory stands. -/
theorem write_eq (h : fs.write path content = .ok fs') : fs' = fs.put (placeOf path) (.file content) ∧
    fs.node? (placeOf path) ≠ some .directory ∧ fs.place path = .ok (placeOf path) := by
  unfold write at h
  split at h
  · cases h
  · rename_i place hplace
    cases h
    unfold placeToWrite at hplace
    split at hplace
    · cases hfollow : fs.follow path ((Path.parts path).dropLast ++ [Path.here]) with
      | error | ok => rw [hfollow] at hplace; cases hplace
    · cases hfind : fs.place path with
      | error cause => rw [hfind] at hplace; cases hplace
      | ok place' =>
        rw [hfind, Except.bind] at hplace
        obtain rfl := place_eq hfind
        split at hplace
        · cases hplace
        · rename_i hnode
          cases hplace
          exact ⟨rfl, fun hdir => hnode hdir, rfl⟩
        · cases hplace
        · cases hplace

theorem node?_of_write (h : fs.write path content = .ok fs') :
    fs'.node? (placeOf path) = some (.file content) ∧ ∀ q, q ≠ placeOf path → fs'.node? q = fs.node? q := by
  obtain ⟨rfl, hnode, -⟩ := write_eq h
  exact ⟨node?_put_self hnode, fun q hq => node?_put_of_ne hq⟩

theorem isPart_base_of_read (h : fs.read path = .ok content) : IsPart (Path.base path) := by
  have hnode := node?_of_read h
  have hparts : Path.parts path ≠ [] := by
    intro hparts
    have hfixed : isFixed (placeOf path) = true := by
      rw [placeOf, keptParts, hparts]
      cases Path.isRooted path <;> decide
    rw [node?_of_isFixed hfixed] at hnode
    cases hnode
  obtain ⟨part, hlast⟩ := Option.ne_none_iff_exists'.1 fun hnone => hparts (getLast?_eq_none_iff.1 hnone)
  have hpath : path.isEmpty = false := by
    rw [isEmpty_eq_false_iff]
    rintro rfl
    exact hparts rfl
  have hbase : Path.base path = part := by
    unfold Path.base
    rw [hpath, hlast]
    rfl
  rw [hbase]
  exact Path.isPart_of_mem_parts (mem_of_getLast? hlast)

/-! ### Directories -/

def KeepsDirectories (fs fs' : Files) : Prop :=
  ∀ p, fs.node? p = some .directory → fs'.node? p = some .directory

theorem KeepsDirectories.refl (fs : Files) : KeepsDirectories fs fs :=
  fun _ h => h

theorem KeepsDirectories.trans (h : KeepsDirectories fs fs') (h' : KeepsDirectories fs' fs'') :
    KeepsDirectories fs fs'' :=
  fun p hp => h' p (h p hp)

theorem keepsDirectories_of_write (h : fs.write path content = .ok fs') : KeepsDirectories fs fs' := by
  intro p hp
  obtain ⟨rfl, hnode, -⟩ := write_eq h
  rwa [node?_put_of_ne fun he : p = placeOf path => hnode (he ▸ hp)]

theorem keepsDirectories_back_of_write (h : fs.write path content = .ok fs') : KeepsDirectories fs' fs := by
  intro p hp
  obtain ⟨rfl, hnode, -⟩ := write_eq h
  by_cases he : p = placeOf path
  · rw [he, node?_put_self hnode] at hp
    cases hp
  · rwa [node?_put_of_ne he] at hp

theorem KeepsDirectories.walk (h : KeepsDirectories fs fs')
    (hwalk : fs.walk start parts = .ok place) : fs'.walk start parts = .ok place := by
  induction parts generalizing start with
  | nil => exact hwalk
  | cons part parts ih =>
    obtain ⟨hstart, hlength, hrest⟩ := walk_cons_iff.1 hwalk
    exact walk_cons_iff.2 ⟨h _ hstart, hlength, ih hrest⟩

theorem KeepsDirectories.leads (h : KeepsDirectories fs fs') (hplace : fs.place path = .ok place) :
    fs'.place path = .ok place := by
  obtain ⟨hwalk, hfollow⟩ := walk_of_follow hplace
  exact (hfollow fs').trans (h.walk hwalk)

theorem KeepsDirectories.read (h : KeepsDirectories fs fs') (hnode : fs'.node? (placeOf path) = fs.node? (placeOf path))
    (hread : fs.read path = .ok content) : fs'.read path = .ok content := by
  obtain ⟨hplace, hfile⟩ := read_eq_ok_iff.1 hread
  exact read_eq_ok_iff.2 ⟨h.leads hplace, hnode.trans hfile⟩

theorem read_of_write (h : fs.write path content = .ok fs') : fs'.read path = .ok content :=
  read_eq_ok_iff.2 ⟨(keepsDirectories_of_write h).leads (write_eq h).2.2, (node?_of_write h).1⟩

/-! ### Nothing new -/

def IsPartOf (fs' fs : Files) : Prop :=
  ∀ p content, fs'.node? p = some (.file content) → fs.node? p = some (.file content)

theorem IsPartOf.refl (fs : Files) : IsPartOf fs fs :=
  fun _ _ h => h

theorem IsPartOf.trans (h' : IsPartOf fs'' fs') (h : IsPartOf fs' fs) : IsPartOf fs'' fs :=
  fun p content hp => h p content (h' p content hp)

theorem isPartOf_drop (fs : Files) (p : List Text) : IsPartOf (fs.drop p) fs := by
  intro q content hq
  rcases node?_drop fs p q with h | h
  · rwa [h] at hq
  · rw [h] at hq
    cases hq

theorem isPartOf_put_directory (fs : Files) (p : List Text) : IsPartOf (fs.put p .directory) fs := by
  intro q content hq
  by_cases he : q = p
  · subst he
    cases hfixed : isFixed q with
    | true =>
      rw [node?_of_isFixed hfixed] at hq
      cases hq
    | false =>
      rw [node?_of_not_isFixed hfixed, put, lookup_cons, beq_self_eq_true] at hq
      cases hq
  · rwa [node?_put_of_ne he] at hq

theorem isPartOf_of_remove (h : fs.remove path = .ok fs') : IsPartOf fs' fs := by
  unfold remove at h
  split at h
  · split at h
    · cases h
    · cases h
      exact isPartOf_drop _ _
  · cases h

theorem isPartOf_of_makeDirectory (h : fs.makeDirectory path = .ok fs') : IsPartOf fs' fs := by
  unfold makeDirectory at h
  dsimp only at h
  split at h
  · cases h
  · split at h
    · cases h
    · cases h
      exact isPartOf_put_directory _ _
    · cases h
    · cases h

theorem isPartOf_of_makeDirectoriesWithin (h : makeDirectoriesWithin fuel fs path = .ok fs') : IsPartOf fs' fs := by
  induction fuel generalizing fs fs' path with
  | zero =>
    cases h
    exact .refl _
  | succ fuel ih =>
    rw [makeDirectoriesWithin] at h
    split at h
    · cases h
      exact .refl _
    · cases h
    · dsimp only at h
      split at h
      · cases h
      · rename_i fs1 hprepared
        have hpart : IsPartOf fs1 fs := by
          split at hprepared
          · cases hprepared
            exact .refl _
          · exact ih hprepared
        split at h
        · rename_i fs2 hmake
          cases h
          exact (isPartOf_of_makeDirectory hmake).trans hpart
        · split at h
          · cases h
            exact hpart
          · cases h

theorem isPartOf_of_makeDirectories (h : fs.makeDirectories path = .ok fs') : IsPartOf fs' fs :=
  isPartOf_of_makeDirectoriesWithin h

end Files
end FlutterLayout
