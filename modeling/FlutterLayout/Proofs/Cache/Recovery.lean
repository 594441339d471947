import FlutterLayout.Proofs.Cache.Records

/-!
# Recovery — a cache that is opened over any index

The index may hold any bytes.  If it has no `null` in place of the index or of an entry (`IsSound`), the cache
opens with the entries of the text that are not expired, and no sequence of requests meets damage, because every
request leaves a cache in which nothing is missing (`IsIntact.answer`).  Every other index leads to damage.
-/

namespace FlutterLayout.Cache

open List

/-! ## Requests -/

inductive Request where
  | get (key : Text)
  | put (key source data : Text)
  | save
  | clear
  | stats

inductive Answer where
  | found (data? : Option Text)
  | stored (failure? : Option FileError)
  | saved (failure? : Option SaveError)
  | cleared (failures : List FileError)
  | counts (hits misses evicted entries : Nat)

/-- Answers a request that is made at a time. -/
def answer (c : Cache) (fs : Files) (now : Instant) : Request → Except Damaged (Answer × Cache × Files)
  | .get key => (c.get fs now key).2.map fun data? => (.found data?, (c.get fs now key).1, fs)
  | .put key source data =>
    match c.put fs now key source data with
    | (c, fs, .ok ()) => .ok (.stored none, c, fs)
    | (c, fs, .error (.unwritable e)) => .ok (.stored (some e), c, fs)
    | (_, _, .error .damaged) => .error {}
  | .save =>
    match c.save fs with
    | .ok fs => .ok (.saved none, c, fs)
    | .error e => .ok (.saved (some e), c, fs)
  | .clear => .ok (.cleared (c.clear fs).2.2, (c.clear fs).1, (c.clear fs).2.1)
  | .stats => .ok (.counts c.hits c.misses c.evicted c.size, c, fs)

def answerAll (c : Cache) (fs : Files) : List (Instant × Request) → Except Damaged (List Answer × Cache × Files)
  | [] => .ok ([], c, fs)
  | r :: rs => do
    let (a, c, fs) ← c.answer fs r.1 r.2
    let (as, c, fs) ← c.answerAll fs rs
    pure (a :: as, c, fs)

def IsIntact (c : Cache) : Prop :=
  ∃ index, c.index? = some index ∧ IsWhole index

variable {c : Cache} {fs fs' : Files} {index : Index} {t directory : Text} {maxAge : Int64}

/-- Looking up a key gives nothing, or the output that stands in the directory. -/
theorem IsIntact.get (h : c.IsIntact) (fs : Files) (now : Instant) (key : Text) :
    ∃ c' data?, c.get fs now key = (c', .ok data?) ∧ c'.IsIntact ∧ c'.directory = c.directory ∧
      ∀ data, data? = some data → fs.read (outputPath c.directory key) = .ok data := by
  obtain ⟨index, hindex, hwhole⟩ := h
  unfold Cache.get
  rw [hindex, Option.bind_some]
  cases hlookup : index.lookup key with
  | none => exact ⟨_, none, rfl, ⟨index, hindex, hwhole⟩, rfl, nofun⟩
  | some e? =>
    obtain ⟨front, back, rfl, -⟩ := lookup_eq_some_iff.1 hlookup
    obtain ⟨e, rfl⟩ := Option.isSome_iff_exists.1 (hwhole (key, e?) (mem_append_right _ mem_cons_self))
    cases fs.read (outputPath c.directory key) with
    | error => exact ⟨_, none, rfl, ⟨_, rfl, isWhole_drop hwhole key⟩, rfl, nofun⟩
    | ok data => exact ⟨_, some data, rfl, ⟨_, rfl, isWhole_put hwhole key _⟩, rfl, fun _ hdata => by cases hdata; rfl⟩

/-- An output that cannot be written changes nothing. -/
theorem IsIntact.put (h : c.IsIntact) (fs : Files) (now : Instant) (key source data : Text) :
    ∃ c', c'.IsIntact ∧ c'.directory = c.directory ∧
      ((∃ e, c.put fs now key source data = (c', fs, .error (.unwritable e))) ∨
        ∃ fs', fs.write (outputPath c.directory key) data = .ok fs' ∧
          c.put fs now key source data = (c', fs', .ok ())) := by
  obtain ⟨index, hindex, hwhole⟩ := h
  unfold Cache.put
  cases fs.write (outputPath c.directory key) data with
  | error e => exact ⟨c, ⟨index, hindex, hwhole⟩, rfl, .inl ⟨e, rfl⟩⟩
  | ok fs' =>
    rw [hindex]
    let e : Entry := ⟨key, source, data.length, ⟨now, 0⟩, ⟨now, 0⟩⟩
    exact ⟨{ c with index? := some (index.put key (some e)) }, ⟨_, rfl, isWhole_put hwhole key e⟩, rfl,
      .inr ⟨fs', rfl, rfl⟩⟩

/-- One request meets no damage and leaves none. -/
theorem IsIntact.answer (h : c.IsIntact) (fs : Files) (now : Instant) (r : Request) :
    ∃ a c' fs', c.answer fs now r = .ok (a, c', fs') ∧ c'.IsIntact := by
  cases r with
  | get key =>
    obtain ⟨c', data?, hget, hintact, -⟩ := h.get fs now key
    exact ⟨_, c', fs, by rw [Cache.answer, hget]; rfl, hintact⟩
  | put key source data =>
    obtain ⟨c', hintact, -, ⟨e, hput⟩ | ⟨fs', -, hput⟩⟩ := h.put fs now key source data
    · exact ⟨_, c', fs, by rw [Cache.answer, hput], hintact⟩
    · exact ⟨_, c', fs', by rw [Cache.answer, hput], hintact⟩
  | save =>
    rw [Cache.answer]
    cases c.save fs with
    | ok fs' => exact ⟨_, c, fs', rfl, h⟩
    | error e => exact ⟨_, c, fs, rfl, h⟩
  | clear => exact ⟨_, _, _, rfl, [], rfl, forall_mem_nil _⟩
  | stats => exact ⟨_, c, fs, rfl, h⟩

theorem IsIntact.answerAll (h : c.IsIntact) (fs : Files) (requests : List (Instant × Request)) :
    ∃ r, c.answerAll fs requests = .ok r := by
  induction requests generalizing c fs with
  | nil => exact ⟨_, rfl⟩
  | cons r rs ih =>
    obtain ⟨a, c1, fs1, hfirst, hintact⟩ := h.answer fs r.1 r.2
    obtain ⟨rest, hrest⟩ := ih hintact fs1
    refine ⟨(a :: rest.1, rest.2), ?_⟩
    rw [answerAll, hfirst]
    change (c1.answerAll fs1 rs >>= _) = _
    rw [hrest]
    rfl

/-! ## Opening -/

/-- No `null` stands in place of the index or of an entry. -/
def IsSound (t : Text) : Prop :=
  ∀ index?, readIndex? t = some index? → ∃ index, index? = some index ∧ IsWhole index

/-- The entries of a text; none for a text that is no index. -/
def entriesOf (t : Text) : Index :=
  ((readIndex? t).join.getD []).filter fun x => x.2.isSome

def isOutdated (now : Instant) (maxAge : Int64) (x : Text × Option Entry) : Bool :=
  0 < maxAge && x.2.any fun e => e.isExpired now maxAge

/-- The cache that holds what is not outdated of an index. -/
def holding (now : Instant) (directory : Text) (maxAge : Int64) (index : Index) : Cache where
  directory := directory
  maxAge := maxAge
  index? := some (index.filter fun x => !isOutdated now maxAge x)
  evicted := index.countP (isOutdated now maxAge)

theorem isIntact_holding (h : IsWhole index) (now : Instant) (directory : Text) (maxAge : Int64) :
    (holding now directory maxAge index).IsIntact :=
  ⟨_, rfl, fun x hx => h x (mem_filter.1 hx).1⟩

theorem isPartOf_getD_remove (fs : Files) (path : Text) : ((fs.remove path).toOption.getD fs).IsPartOf fs := by
  cases hremove : fs.remove path with
  | ok fs' => exact Files.isPartOf_of_remove hremove
  | error e => exact .refl _

theorem evict_eq (h : IsWhole index) (hage : 0 < maxAge) (now : Instant) (directory : Text) (fs : Files) :
    ∃ fs' : Files, fs'.IsPartOf fs ∧ evict now maxAge directory index fs
      = .ok (index.filter fun x => !isOutdated now maxAge x, fs', index.countP (isOutdated now maxAge)) := by
  induction index generalizing fs with
  | nil => exact ⟨fs, .refl _, rfl⟩
  | cons x index ih =>
    obtain ⟨key, e?⟩ := x
    obtain ⟨hx, hrest⟩ := forall_mem_cons.1 h
    obtain ⟨e, rfl⟩ := Option.isSome_iff_exists.1 hx
    have hout : isOutdated now maxAge (key, some e) = e.isExpired now maxAge := by simp [isOutdated, hage]
    rw [evict, filter_cons, countP_cons, hout]
    split
    · rename_i hexpired
      obtain ⟨fs', hpart, hevict⟩ := ih hrest (((fs.remove (outputPath directory key)).toOption).getD fs)
      exact ⟨fs', hpart.trans (isPartOf_getD_remove fs _), by dsimp only; rw [hevict, hexpired]; rfl⟩
    · rename_i hfresh
      obtain ⟨fs', hpart, hevict⟩ := ih hrest fs
      exact ⟨fs', hpart, by rw [hevict, Bool.eq_false_iff.2 hfresh]; rfl⟩

theorem openIn_of_loadIndex (hmake : fs.makeDirectories directory = .ok fs')
    (hload : loadIndex fs' directory = some index) (hwhole : IsWhole index) (now : Instant) (maxAge : Int64) :
    ∃ fs'' : Files, fs''.IsPartOf fs' ∧
      openIn fs now directory maxAge = (fs'', .ok (holding now directory maxAge index)) := by
  rw [openIn, hmake]
  dsimp only
  rw [hload]
  dsimp only
  split
  · rename_i hage
    have hnone : ∀ x, isOutdated now maxAge x = false := fun x => by simp [isOutdated, Int64.not_lt.2 hage]
    have hcount : index.countP (isOutdated now maxAge) = 0 := countP_eq_zero.2 (by simp [hnone])
    exact ⟨fs', .refl _, by simp [holding, hnone, hcount]⟩
  · rename_i hage
    obtain ⟨fs'', hpart, hevict⟩ := evict_eq hwhole (Int64.not_le.1 hage) now directory fs'
    exact ⟨fs'', hpart, by rw [hevict]; rfl⟩

theorem loadIndex_of_isSound (h : IsSound t) (hread : fs.read (indexPath directory) = .ok t) :
    loadIndex fs directory = some (entriesOf t) ∧ IsWhole (entriesOf t) := by
  unfold loadIndex entriesOf
  rw [hread]
  dsimp only
  cases hindex : readIndex? t with
  | none => exact ⟨rfl, forall_mem_nil _⟩
  | some index? =>
    obtain ⟨index, rfl, hwhole⟩ := h index? hindex
    have hall : index.filter (fun x => x.2.isSome) = index := filter_eq_self.2 hwhole
    exact ⟨congrArg some hall.symm, hall.symm ▸ hwhole⟩

theorem evict_of_not_isWhole (h : ¬ IsWhole index) (fs : Files) :
    evict now maxAge directory index fs = .error {} := by
  induction index generalizing fs with
  | nil => exact absurd (forall_mem_nil _) h
  | cons x index ih =>
    obtain ⟨key, _ | e⟩ := x
    · rfl
    · have hrest : ¬ IsWhole index := fun hwhole => h (forall_mem_cons.2 ⟨rfl, hwhole⟩)
      rw [evict]
      dsimp only
      split <;> rw [ih hrest] <;> rfl

/-- What is missing in the index of the working directory is met when the cache is opened, or by the first output
that is stored. -/
theorem exists_damage (h : ¬ IsSound t) : ∃ fs now maxAge requests, fs.makeDirectories "." = .ok fs ∧
    fs.read (indexPath ".") = .ok t ∧
      ∀ c fs', openIn fs now "." maxAge = (fs', .ok c) → c.answerAll fs' requests = .error {} := by
  let fs : Files := ⟨[([indexName], .file t)]⟩
  have hmake : fs.makeDirectories "." = .ok fs := rfl
  have hread : fs.read (indexPath ".") = .ok t := rfl
  refine ⟨fs, 0, 1, [(0, .put "a" "a.xml" "b")], hmake, hread, fun c fs' hopen => ?_⟩
  obtain ⟨index?, hindex, hmissing⟩ : ∃ index?, readIndex? t = some index? ∧
      ∀ index, index? = some index → ¬ IsWhole index := by
    simpa [IsSound] using h
  have hload : loadIndex fs "." = index? := by
    rw [loadIndex, hread]
    dsimp only
    rw [hindex]
    rfl
  rw [openIn, hmake] at hopen
  dsimp only at hopen
  rw [hload] at hopen
  cases index? with
  | none =>
    cases hopen
    rfl
  | some index =>
    dsimp only at hopen
    rw [if_neg (by decide), evict_of_not_isWhole (hmissing index rfl)] at hopen
    cases hopen

/-- Over a sound index the cache holds what is left of its entries and answers all requests; over every other index
there are requests that meet damage. -/
theorem openIn_answers (t : Text) :
    (IsSound t → ∀ (fs fs' : Files) (now : Instant) (directory : Text) (maxAge : Int64),
      fs.makeDirectories directory = .ok fs' → fs'.read (indexPath directory) = .ok t →
        ∃ fs'', openIn fs now directory maxAge = (fs'', .ok (holding now directory maxAge (entriesOf t))) ∧
          ∀ requests, ∃ r, (holding now directory maxAge (entriesOf t)).answerAll fs'' requests = .ok r) ∧
    (¬ IsSound t → ∃ fs now maxAge requests, fs.makeDirectories "." = .ok fs ∧ fs.read (indexPath ".") = .ok t ∧
      ∀ c fs', openIn fs now "." maxAge = (fs', .ok c) → c.answerAll fs' requests = .error {}) := by
  refine ⟨fun h fs fs' now directory maxAge hmake hread => ?_, exists_damage⟩
  obtain ⟨hload, hwhole⟩ := loadIndex_of_isSound h hread
  obtain ⟨fs'', -, hopen⟩ := openIn_of_loadIndex hmake hload hwhole now maxAge
  exact ⟨fs'', hopen, (isIntact_holding hwhole now directory maxAge).answerAll fs''⟩

theorem exists_damaging_null :
    (openIn ⟨[([indexName], .file "\x7b\"k\":null\x7d")]⟩ 0 "." 1).2.isOk = false ∧
      ((openIn ⟨[([indexName], .file "null")]⟩ 0 "." 1).2.toOption.any fun c =>
        !(c.answerAll {} [(0, .put "a" "a.xml" "b")]).isOk) = true := by
  decide +kernel

end FlutterLayout.Cache
