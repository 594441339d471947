import FlutterLayout.Command.Watch

/-!
# Outcomes — what the steps of a builder do

A step of a command gives a result or a crash, and a world (`outcome`).  This file takes outcomes apart step by
step.  `compileFile_keeps` says what compiling a layout file changes of a builder, and `compileFiles_compiles` that
layout files are compiled one after the other, under the configuration of the builder, unless one of them crashes.
-/

namespace FlutterLayout.Command

variable {α β : Type} {a : α} {r : β} {e : Crash} {w w' w₁ : World} {x : CommandM α}

def outcome (x : CommandM α) (w : World) : Except Crash α × World :=
  Id.run (x.run.run w)

@[simp] theorem outcome_get (w : World) : outcome get w = (.ok w, w) := rfl

@[simp] theorem outcome_logLine (t : Text) (w : World) :
    outcome (logLine t) w = (.ok (), { w with log := w.log ++ [.message t] }) := rfl

theorem outcome_bind_of_ok (f : α → CommandM β) (h : outcome x w = (.ok a, w₁)) :
    outcome (x >>= f) w = outcome (f a) w₁ := by
  change Id.run ((x.run >>= fun r => ExceptT.bindCont f r).run w) = _
  change x.run.run w = (.ok a, w₁) at h
  rw [StateT.run_bind, h]
  rfl

theorem outcome_bind_of_error (f : α → CommandM β) (h : outcome x w = (.error e, w₁)) :
    outcome (x >>= f) w = (.error e, w₁) := by
  change Id.run ((x.run >>= fun r => ExceptT.bindCont f r).run w) = _
  change x.run.run w = (.error e, w₁) at h
  rw [StateT.run_bind, h]
  rfl

theorem exists_of_outcome_bind (h : outcome (x >>= f) w = (.ok r, w')) :
    ∃ a w₁, outcome x w = (.ok a, w₁) ∧ outcome (f a) w₁ = (.ok r, w') := by
  rcases hx : outcome x w with ⟨result, w₁⟩
  cases result with
  | ok a => exact ⟨a, w₁, rfl, outcome_bind_of_ok f hx ▸ h⟩
  | error e =>
    rw [outcome_bind_of_error f hx] at h
    cases h

/-! ## Steps of a builder -/

namespace Builder

variable {b b' : Builder} {c c' : Cache} {key path source code : Text} {r : FileResult}

theorem lookup_of_none (h : b.cache? = none) : outcome (b.lookup key) w = (.ok (none, b), w) := by
  unfold lookup
  rw [h]
  rfl

theorem lookup_of_get (h : b.cache? = some c) (hget : c.get w.files w.now key = (c', .ok data?)) :
    outcome (b.lookup key) w = (.ok (data?, { b with cache? := some c' }), w) := by
  unfold lookup
  rw [h]
  refine (outcome_bind_of_ok _ (outcome_get w)).trans ?_
  rw [hget]
  rfl

theorem lookup_of_damaged (h : b.cache? = some c) (hget : c.get w.files w.now key = (c', .error d)) :
    outcome (b.lookup key) w = (.error .damagedCache, w) := by
  unfold lookup
  rw [h]
  refine (outcome_bind_of_ok _ (outcome_get w)).trans ?_
  rw [hget]
  rfl

theorem lookup_keeps (h : outcome (b.lookup key) w = (.ok (data?, b'), w')) : b' = { b with cache? := b'.cache? } := by
  unfold lookup at h
  split at h
  · cases h
    rfl
  · obtain ⟨world, w₁, hget, h⟩ := exists_of_outcome_bind h
    split at h
    · cases h
      rfl
    · cases h

theorem store_keeps (h : outcome (b.store key path code) w = (.ok b', w')) : b' = { b with cache? := b'.cache? } := by
  unfold store at h
  split at h
  · cases h
    rfl
  · obtain ⟨world, w₁, hget, h⟩ := exists_of_outcome_bind h
    split at h
    · cases h
      rfl
    · cases h
      rfl
    · cases h

theorem code_keeps
    (h : outcome (b.code path source) w = (.ok (result, b'), w')) : b' = { b with cache? := b'.cache? } := by
  obtain ⟨⟨cached?, b1⟩, w₁, hlookup, h⟩ := exists_of_outcome_bind h
  have hfirst := lookup_keeps hlookup
  dsimp only at h
  split at h
  · cases h
    exact hfirst
  · split at h
    · cases h
      exact hfirst
    · cases h
      exact hfirst
    · cases h
    · obtain ⟨b2, w2, hstore, h⟩ := exists_of_outcome_bind h
      cases h
      rw [store_keeps hstore, hfirst]

/-- What becomes of the code of a layout file: it is kept, written, or cannot be written. -/
inductive Emission (b : Builder) (r : FileResult) (w : World) : FileResult → World → Prop where
  | printed (hout : b.outputDirectory = []) : Emission b r w r w
  | written {output : Text} {fs : Files} (hout : b.outputDirectory ≠ [])
      (houtput : output = Path.join b.outputDirectory (Path.base r.path ++ ".dart"))
      (hwrite : w.files.write output (generatedFile r.path r.code) = .ok fs) :
      Emission b r w { r with output := output } { w with files := fs }
  | unwritable {output : Text} {e : FileError} (hout : b.outputDirectory ≠ [])
      (houtput : output = Path.join b.outputDirectory (Path.base r.path ++ ".dart"))
      (hwrite : w.files.write output (generatedFile r.path r.code) = .error e) :
      Emission b r w { r with output := output, error? := some (.unwritable output e) } w

theorem emit_outcome (b : Builder) (r : FileResult) (w : World) :
    ∃ r' w', outcome (b.emit r) w = (.ok r', w') ∧ Emission b r w r' w' := by
  unfold emit
  split
  · rename_i hempty
    exact ⟨r, w, rfl, .printed (List.isEmpty_iff.1 hempty)⟩
  · rename_i hempty
    have hout : b.outputDirectory ≠ [] := fun h => hempty (List.isEmpty_iff.2 h)
    rw [outcome_bind_of_ok _ (outcome_get w)]
    dsimp only
    cases hwrite : w.files.write (Path.join b.outputDirectory (Path.base r.path ++ ".dart"))
        (generatedFile r.path r.code) with
    | ok fs => exact ⟨_, _, rfl, .written hout rfl hwrite⟩
    | error e => exact ⟨_, _, rfl, .unwritable hout rfl hwrite⟩

theorem emission_of_emit (h : outcome (b.emit r) w = (.ok r', w')) : Emission b r w r' w' := by
  obtain ⟨r1, w₁, hemit, hemission⟩ := emit_outcome b r w
  cases hemit.symm.trans h
  exact hemission

section

variable (hread : w.files.read path = .ok source)
include hread

end

/-- What compiling a layout file comes to: it cannot be read, it has no code, there is a crash, or its code is
emitted. -/
inductive FileOutcome (b : Builder) (path : Text) (w : World) :
    Except Crash (FileResult × Builder) × World → Prop where
  | unreadable {e : FileError} (hread : w.files.read path = .error e) :
      FileOutcome b path w (.ok ({ path := path, error? := some (.unreadable path e) }, b), w)
  | failed {source : Text} {e : BuildError} {b' : Builder} {w' : World} (hread : w.files.read path = .ok source)
      (hcode : outcome (b.code path source) w = (.ok (.error e, b'), w')) :
      FileOutcome b path w (.ok ({ path := path, error? := some e }, b'), w')
  | crashed {source : Text} {e : Crash} {w' : World} (hread : w.files.read path = .ok source)
      (hcode : outcome (b.code path source) w = (.error e, w')) : FileOutcome b path w (.error e, w')
  | emitted {source code : Text} {isCached : Bool} {b' : Builder} {w₁ w' : World} {r : FileResult}
      (hread : w.files.read path = .ok source)
      (hcode : outcome (b.code path source) w = (.ok (.ok (code, isCached), b'), w₁))
      (hemit : outcome (b'.emit { path := path, code := code, isCached := isCached }) w₁ = (.ok r, w')) :
      FileOutcome b path w (.ok (r, b'), w')

theorem compileFile_outcome (b : Builder) (path : Text) (w : World) :
    FileOutcome b path w (outcome (b.compileFile path) w) := by
  unfold compileFile
  rw [outcome_bind_of_ok _ (outcome_get w)]
  cases hread : w.files.read path with
  | error e => exact .unreadable hread
  | ok source =>
    dsimp only
    rcases hcode : outcome (b.code path source) w with ⟨result, w₁⟩
    cases result with
    | error e =>
      rw [outcome_bind_of_error _ hcode]
      exact .crashed hread hcode
    | ok x =>
      obtain ⟨result, b'⟩ := x
      rw [outcome_bind_of_ok _ hcode]
      cases result with
      | error e => exact .failed hread hcode
      | ok y =>
        obtain ⟨r, w', hemit, -⟩ := emit_outcome b' { path := path, code := y.1, isCached := y.2 } w₁
        dsimp only
        rw [outcome_bind_of_ok _ hemit]
        exact .emitted hread hcode hemit

/-- The outcome of a layout file names it; of the builder, the cache alone changes. -/
theorem compileFile_keeps (h : outcome (b.compileFile path) w = (.ok (r, b'), w')) :
    r.path = path ∧ b' = { b with cache? := b'.cache? } := by
  have hfile := h ▸ compileFile_outcome b path w
  cases hfile with
  | unreadable => exact ⟨rfl, rfl⟩
  | failed _ hcode => exact ⟨rfl, code_keeps hcode⟩
  | emitted _ hcode hemit =>
    refine ⟨?_, code_keeps hcode⟩
    cases emission_of_emit hemit <;> rfl

end Builder

/-! ## Layout files in a row -/

/-- Layout files were compiled under a configuration, one after the other, with these results. -/
inductive Compiles (c : Config) : Builder → World → List FileResult → Builder → World → Prop where
  | nil (b : Builder) (w : World) : Compiles c b w [] b w
  | cons {b b₁ b₂ : Builder} {w w₁ w₂ : World} {r : FileResult} {rs : List FileResult} (hconfig : b.config = c)
      (hfirst : outcome (b.compileFile r.path) w = (.ok (r, b₁), w₁)) (hrest : Compiles c b₁ w₁ rs b₂ w₂) :
      Compiles c b w (r :: rs) b₂ w₂

theorem Compiles.outputDirectory (h : Compiles c b w rs b' w') : b'.outputDirectory = b.outputDirectory := by
  induction h with
  | nil => rfl
  | cons _ hfirst _ ih => rw [ih, (Builder.compileFile_keeps hfirst).2]

/-- Layout files were compiled under a configuration, one after the other, until one of them crashed. -/
structure Crashes (c : Config) (b : Builder) (w : World) (paths : List Text) (e : Crash) (w' : World) : Prop where
  crashes : ∃ rs path rest b₁ w₁, paths = rs.map FileResult.path ++ path :: rest ∧ Compiles c b w rs b₁ w₁ ∧
    b₁.config = c ∧ outcome (b₁.compileFile path) w₁ = (.error e, w')

theorem Crashes.cons {r : FileResult} (hconfig : b.config = c)
    (hfirst : outcome (b.compileFile r.path) w = (.ok (r, b1), w₁)) (h : Crashes c b1 w₁ paths e w') :
    Crashes c b w (r.path :: paths) e w' := by
  obtain ⟨rs, path, rest, b2, w2, hpaths, hcomps, hconfig2, hcrash⟩ := h.crashes
  exact ⟨r :: rs, path, rest, b2, w2, by rw [hpaths]; rfl, .cons hconfig hfirst hcomps, hconfig2, hcrash⟩

/-- Layout files are compiled one after the other, all of them or until one crashes. -/
theorem Builder.compileFiles_compiles (b : Builder) (paths : List Text) (w : World) :
    (∃ rs b' w', outcome (b.compileFiles paths) w = (.ok (rs, b'), w') ∧ Compiles b.config b w rs b' w' ∧
      rs.map FileResult.path = paths) ∨
    ∃ e w', outcome (b.compileFiles paths) w = (.error e, w') ∧ Crashes b.config b w paths e w' := by
  induction paths generalizing b w with
  | nil => exact .inl ⟨[], b, w, rfl, .nil _ _, rfl⟩
  | cons path paths ih =>
    unfold compileFiles
    rcases hfirst : outcome (b.compileFile path) w with ⟨result, w₁⟩
    cases result with
    | error e =>
      exact .inr ⟨e, w₁, outcome_bind_of_error _ hfirst, [], path, paths, b, w, rfl, .nil _ _, rfl, hfirst⟩
    | ok x =>
      obtain ⟨r, b1⟩ := x
      rw [outcome_bind_of_ok _ hfirst]
      obtain ⟨rfl, hkeeps⟩ := compileFile_keeps hfirst
      have hconfig : b1.config = b.config := by rw [hkeeps]
      rcases ih b1 w₁ with ⟨rs, b2, w2, hrest, hcomps, hpaths⟩ | ⟨e, w2, hrest, hcrashes⟩
      · rw [hconfig] at hcomps
        exact .inl ⟨r :: rs, b2, w2, outcome_bind_of_ok _ hrest, .cons rfl hfirst hcomps,
          by rw [List.map_cons, hpaths]⟩
      · rw [hconfig] at hcrashes
        exact .inr ⟨e, w2, outcome_bind_of_error _ hrest, .cons rfl hfirst hcrashes⟩

end FlutterLayout.Command
