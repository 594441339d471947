import FlutterLayout.Proofs.Cache.Recovery
import FlutterLayout.Proofs.Command.Outcomes
import FlutterLayout.Proofs.Config.Fingerprints
import FlutterLayout.Proofs.Layout.Filenames
import Mathlib.Data.Set.Operations

/-!
# Transparency — a cache does not show

A `Session` is a builder in a world.  It is configured, its files are edited, layout files are compiled, and its
cache is saved, opened again and cleared (`Step`).  Nobody else puts files into the directory of the cache; they may
get lost.  Along every run the outputs in that directory are those of sources that were compiled before
(`Run.sound`), and two sources with one key have one output, so compiling a layout file answers as the compiler
does (`compileFile_answers`).
-/

namespace FlutterLayout.Command

open List Files Builder

variable {directory key path source code content : Text} {b b' : Builder} {c : Cache} {w w' : World}
  {index : Cache.Index} {r : FileResult}

/-! ## Compiling one source -/

namespace Builder

/-- The cache, if there is one, is the one of a directory, and no entry is missing in its index. -/
def IsWhole (directory : Text) (b : Builder) : Prop :=
  ∀ c, b.cache? = some c → c.directory = directory ∧ ∃ index, c.index? = some index ∧ Cache.IsWhole index

/-- The builder differs from another one in its cache only, which is whole. -/
structure Succeeds (directory : Text) (b b' : Builder) : Prop where
  isWhole : b'.IsWhole directory
  keeps : b' = { b with cache? := b'.cache? }

theorem Succeeds.refl (h : b.IsWhole directory) : Succeeds directory b b :=
  ⟨h, rfl⟩

theorem Succeeds.trans (h : Succeeds directory b b') (h' : Succeeds directory b' b'') : Succeeds directory b b'' :=
  ⟨h'.isWhole, by rw [h'.keeps, h.keeps]⟩

theorem Succeeds.compiler_eq (h : Succeeds directory b b') : b'.compiler = b.compiler := by
  rw [h.keeps]
  rfl

theorem Succeeds.of_isIntact (hdir : c.directory = directory) (h : c.IsIntact) :
    Succeeds directory b { b with cache? := some c } where
  isWhole := by
    rintro c' ⟨⟩
    exact ⟨hdir, h⟩
  keeps := rfl

/-- Looking up a key gives nothing, or the output that stands in the directory of the cache. -/
theorem lookup_cases (h : b.IsWhole directory) (key : Text) (w : World) :
    ∃ data? b', outcome (b.lookup key) w = (.ok (data?, b'), w) ∧ Succeeds directory b b' ∧
      ∀ data, data? = some data → w.files.read (Cache.outputPath directory key) = .ok data := by
  cases hcache : b.cache? with
  | none => exact ⟨none, b, lookup_of_none hcache, .refl h, by simp⟩
  | some c =>
    obtain ⟨rfl, hintact⟩ := h c hcache
    obtain ⟨c', data?, hget, hintact', hdir, hdata⟩ := Cache.IsIntact.get hintact w.files w.now key
    exact ⟨data?, _, lookup_of_get hcache hget, .of_isIntact hdir hintact', hdata⟩

/-- Storing an output writes it to the directory of the cache, or no file at all. -/
theorem store_cases (h : b.IsWhole directory) (key path code : Text) (w : World) :
    ∃ b' w', outcome (b.store key path code) w = (.ok b', w') ∧ Succeeds directory b b' ∧
      (w'.files = w.files ∨ w.files.write (Cache.outputPath directory key) code = .ok w'.files) := by
  unfold store
  cases hcache : b.cache? with
  | none => exact ⟨b, w, rfl, .refl h, .inl rfl⟩
  | some c =>
    obtain ⟨rfl, hintact⟩ := h c hcache
    obtain ⟨c', hintact', hdir, ⟨e, hput⟩ | ⟨fs, hwrite, hput⟩⟩ :=
      Cache.IsIntact.put hintact w.files w.now key path code
    · refine ⟨{ b with cache? := some c' }, { w with log := w.log ++ [.message ("⚠️  " ++ Cache.unwritableMessage e)] },
        (outcome_bind_of_ok _ (outcome_get w)).trans ?_, .of_isIntact hdir hintact', .inl rfl⟩
      rw [hput]
      rfl
    · refine ⟨{ b with cache? := some c' }, { w with files := fs },
        (outcome_bind_of_ok _ (outcome_get w)).trans ?_, .of_isIntact hdir hintact', .inr hwrite⟩
      rw [hput]
      rfl

/-- The code of a source is the output in the directory of the cache, or what the compiler says. -/
inductive CodeOutcome (directory : Text) (b : Builder) (path source : Text) (w : World) :
    Except Crash (Except BuildError (Text × Bool) × Builder) × World → Prop where
  | cached {data : Text} {b' : Builder}
      (hread : w.files.read (Cache.outputPath directory (b.key path source)) = .ok data)
      (hb : Succeeds directory b b') : CodeOutcome directory b path source w (.ok (.ok (data, true), b'), w)
  | compiled {out : Output} {b' : Builder} {w' : World} (hcompile : b.compiler.compile path source = .ok out)
      (hb : Succeeds directory b b')
      (hw : w'.files = w.files ∨
        w.files.write (Cache.outputPath directory (b.key path source)) out.code = .ok w'.files) :
      CodeOutcome directory b path source w (.ok (.ok (out.code, false), b'), w')
  | malformed {e : Markup.SyntaxError} {b' : Builder}
      (hcompile : b.compiler.compile path source = .error (.malformed e)) (hb : Succeeds directory b b') :
      CodeOutcome directory b path source w (.ok (.error (.malformed path e), b'), w)
  | invalid {e : Layout.LayoutError} {b' : Builder}
      (hcompile : b.compiler.compile path source = .error (.invalid e)) (hb : Succeeds directory b b') :
      CodeOutcome directory b path source w (.ok (.error (.invalid path e), b'), w)
  | crashed {e : Text.UnreadableName} (hcompile : b.compiler.compile path source = .error (.unreadable e)) :
      CodeOutcome directory b path source w (.error (.unreadable e), w)

theorem code_outcome (h : b.IsWhole directory) (path source : Text) (w : World) :
    CodeOutcome directory b path source w (outcome (b.code path source) w) := by
  obtain ⟨data?, b1, hlookup, hb, hdata⟩ := lookup_cases h (b.key path source) w
  unfold code
  dsimp only
  rw [outcome_bind_of_ok _ hlookup]
  dsimp only
  cases data? with
  | some data => exact .cached (hdata data rfl) hb
  | none =>
    dsimp only
    cases hcomp : b.compiler.compile path source with
    | error e =>
      rw [hb.compiler_eq, hcomp]
      cases e with
      | malformed e => exact .malformed hcomp hb
      | invalid e => exact .invalid hcomp hb
      | unreadable e => exact .crashed hcomp
    | ok out =>
      obtain ⟨b2, w2, hstore, hb2, hw⟩ := store_cases hb.isWhole (b.key path source) path out.code w
      rw [hb.compiler_eq, hcomp]
      dsimp only
      rw [outcome_bind_of_ok _ hstore]
      exact .compiled hcomp (hb.trans hb2) hw

end Builder

/-! ## Sessions -/

structure Use where
  config : Config
  path : Text
  source : Text
  reading : Pipe.Reading

def Builder.use (b : Builder) (path source : Text) : Use :=
  ⟨b.config, path, source, b.reading⟩

def Use.inputs (u : Use) : List Text :=
  [version, u.config.fingerprint, Path.base u.path, u.source]

/-- The row of texts that a key is the digest of tells every input, however many there are and whatever they hold.  So
among rows on which the digest is injective, equal keys are those of equal inputs: of one version, one fingerprint, one
base name and one source. -/
theorem key_tells_inputs :
    (∀ inputs inputs', Cache.keyText inputs = Cache.keyText inputs' → inputs = inputs') ∧
      ∀ rows : Set Text, Set.InjOn Digest.sha256 rows →
        (∀ inputs inputs', Cache.keyText inputs ∈ rows → Cache.keyText inputs' ∈ rows →
          Cache.key inputs = Cache.key inputs' → inputs = inputs') ∧
        ∀ u v : Use, Cache.keyText u.inputs ∈ rows → Cache.keyText v.inputs ∈ rows →
          ∀ b b' : Builder, b.config = u.config → b'.config = v.config →
            b.key u.path u.source = b'.key v.path v.source →
              u.config.fingerprint = v.config.fingerprint ∧ Path.base u.path = Path.base v.path ∧
                u.source = v.source := by
  have htells (rows : Set Text) (hrows : Set.InjOn Digest.sha256 rows) (inputs inputs' : List Text)
      (hmem : Cache.keyText inputs ∈ rows) (hmem' : Cache.keyText inputs' ∈ rows)
      (hkey : Cache.key inputs = Cache.key inputs') : inputs = inputs' :=
    Cache.keyText_injective (hrows hmem hmem' (Cache.sha256_keyText_eq_of_key_eq hkey))
  refine ⟨fun _ _ => Cache.keyText_injective, fun rows hrows => ⟨htells rows hrows, ?_⟩⟩
  intro u v hu hv b b' hconfig hconfig' hkey
  rw [Builder.key, Builder.key, hconfig, hconfig'] at hkey
  have hinputs := htells rows hrows u.inputs v.inputs hu hv hkey
  simpa [Use.inputs] using hinputs

/-- The inputs `ab`, `c` and the inputs `a`, `bc` have one text when they are only put in a row. -/
theorem key_tells_inputs_split : Cache.key ["ab", "c"] ≠ Cache.key ["a", "bc"] := by
  have hdigests : Digest.sha256 (Cache.keyText ["ab", "c"]) ≠ Digest.sha256 (Cache.keyText ["a", "bc"]) := by
    decide +kernel
  have hrows : Set.InjOn Digest.sha256 {Cache.keyText ["ab", "c"], Cache.keyText ["a", "bc"]} := by
    rintro s (rfl | rfl) t (rfl | rfl) hdigest
    · rfl
    · exact absurd hdigest hdigests
    · exact absurd hdigest.symm hdigests
    · rfl
  exact fun hkey => absurd ((key_tells_inputs.2 _ hrows).1 _ _ (Or.inl rfl) (Or.inr rfl) hkey) (by decide)

structure Use.Makes (u : Use) (key content : Text) : Prop where
  isUtf8 : u.config.IsUtf8
  key_eq : Cache.key u.inputs = key
  code_eq : ∃ out, (u.config.compiler.readingBy u.reading).compile u.path u.source = .ok out ∧ content = out.code

structure Session where
  builder : Builder
  world : World

def Untouched (directory : Text) (fs fs' : Files) : Prop :=
  ∀ name content, fs'.node? (placeOf directory ++ [name]) = some (.file content) →
    fs.node? (placeOf directory ++ [name]) = some (.file content)

def KeepsApart (directory out : Text) : Prop :=
  out = [] ∨ placeOf out ≠ placeOf directory

def Session.uses (s : Session) (path : Text) : List Use :=
  match s.world.files.read path with
  | .ok source => [s.builder.use path source]
  | .error _ => []

/-- What can happen in a session whose cache is in a directory, with the sources that were to be compiled. -/
inductive Step (directory : Text) : Session → List Use → Session → Prop where
  /-- From now on sources may also be read in another way. -/
  | configure {s : Session} {c : Config} {out : Text} {reading : Pipe.Reading} (hconfig : c.IsUtf8)
      (hout : KeepsApart directory out) : Step directory s []
        { s with builder := { s.builder with config := c, outputDirectory := out, reading := reading } }
  /-- Files are written and removed, and time passes; files of the cache may get lost. -/
  | edit {s : Session} {w : World} (h : Untouched directory s.world.files w.files) :
      Step directory s [] { s with world := w }
  | compile {s : Session} {path : Text} {r : FileResult} {b : Builder} {w : World}
      (h : outcome (s.builder.compileFile path) s.world = (.ok (r, b), w)) : Step directory s (s.uses path) ⟨b, w⟩
  /-- A crash ends the builder; the next one has no open cache. -/
  | crash {s : Session} {path : Text} {e : Crash} {w : World}
      (h : outcome (s.builder.compileFile path) s.world = (.error e, w)) :
      Step directory s (s.uses path) ⟨{ s.builder with cache? := none }, w⟩
  | save {s : Session} {w : World} (h : outcome s.builder.saveCache s.world = (.ok (), w)) :
      Step directory s [] { s with world := w }
  /-- The cache is opened, and expired entries are dropped; if that does not work there is none. -/
  | reopen {s : Session} {fs : Files} {result : Except Cache.OpenError Cache} (maxAge : Int64)
      (h : Cache.openIn s.world.files s.world.now directory maxAge = (fs, result)) :
      Step directory s [] ⟨{ s.builder with cache? := result.toOption }, { s.world with files := fs }⟩
  | clear {s : Session} {c c' : Cache} {fs : Files} {errors : List FileError} (hcache : s.builder.cache? = some c)
      (h : c.clear s.world.files = (c', fs, errors)) :
      Step directory s [] ⟨{ s.builder with cache? := some c' }, { s.world with files := fs }⟩

inductive Run (directory : Text) (s₀ : Session) : List Use → Session → Prop where
  | start : Run directory s₀ [] s₀
  | next {uses more : List Use} {s s' : Session} (h : Run directory s₀ uses s) (hstep : Step directory s more s') :
      Run directory s₀ (uses ++ more) s'

/-! ## What stands in the directory -/

variable {uses uses' : List Use} {fs fs' : Files}

/-- The outputs in a directory are those of sources that were compiled, and the index is one that was written. -/
structure HoldsOutputs (directory : Text) (uses : List Use) (fs : Files) : Prop where
  output : ∀ key content : Text, fs.node? (placeOf directory ++ [key ++ ".dart"]) = some (.file content) →
    ∃ u ∈ uses, u.Makes key content
  index : ∀ content, fs.node? (placeOf directory ++ [Cache.indexName]) = some (.file content) →
    ∃ index, Cache.IsWhole index ∧ content = Cache.writeIndex (some index)

namespace HoldsOutputs

section

variable (h : HoldsOutputs directory uses fs)
include h

theorem mono (hsub : uses ⊆ uses') : HoldsOutputs directory uses' fs where
  output key content hnode := by
    obtain ⟨u, hu, hmakes⟩ := h.output key content hnode
    exact ⟨u, hsub hu, hmakes⟩
  index := h.index

theorem untouched (huntouched : Untouched directory fs fs') : HoldsOutputs directory uses fs' where
  output key content hnode := h.output key content (huntouched _ _ hnode)
  index content hnode := h.index content (huntouched _ _ hnode)

theorem store (hutf8 : u.config.IsUtf8)
    (hcomp : (u.config.compiler.readingBy u.reading).compile u.path u.source = .ok out)
    (hwrite : fs.write (Cache.outputPath directory (Cache.key u.inputs)) out.code = .ok fs') :
    HoldsOutputs directory (uses ++ [u]) fs' := by
  obtain ⟨hself, hother⟩ := node?_of_write hwrite
  rw [Cache.placeOf_outputPath] at hself hother
  constructor
  · intro key content hnode
    by_cases hkey : placeOf directory ++ [key ++ ".dart"] =
        placeOf directory ++ [Cache.key u.inputs ++ ".dart"]
    · rw [hkey, hself] at hnode
      have hkey : key = Cache.key u.inputs := append_cancel_right (singleton_inj.1 (append_cancel_left hkey))
      cases hnode
      exact ⟨u, by simp, hutf8, hkey.symm, out, hcomp, rfl⟩
    · rw [hother _ hkey] at hnode
      obtain ⟨v, hv, hmakes⟩ := h.output key content hnode
      exact ⟨v, mem_append_left _ hv, hmakes⟩
  · intro content hnode
    have hne : placeOf directory ++ [Cache.indexName] ≠
        placeOf directory ++ [Cache.key u.inputs ++ ".dart"] := fun he =>
      Cache.indexName_ne_output _ (singleton_inj.1 (append_cancel_left he))
    rw [hother _ hne] at hnode
    exact h.index content hnode

theorem save (hwhole : Cache.IsWhole index)
    (hwrite : fs.write (Cache.indexPath directory) (Cache.writeIndex (some index)) = .ok fs') :
    HoldsOutputs directory uses fs' := by
  obtain ⟨hself, hother⟩ := node?_of_write hwrite
  rw [Cache.placeOf_indexPath] at hself hother
  constructor
  · intro key content hnode
    have hne : placeOf directory ++ [key ++ ".dart"] ≠ placeOf directory ++ [Cache.indexName] := fun he =>
      Cache.indexName_ne_output _ (singleton_inj.1 (append_cancel_left he)).symm
    rw [hother _ hne] at hnode
    exact h.output key content hnode
  · intro content hnode
    rw [hself] at hnode
    cases hnode
    exact ⟨index, hwhole, rfl⟩

end

end HoldsOutputs

theorem untouched_of_isPartOf (h : fs'.IsPartOf fs) : Untouched directory fs fs' :=
  fun _ _ hnode => h _ _ hnode

theorem untouched_of_emission (hout : KeepsApart directory b.outputDirectory)
    (hbase : Path.IsPart (Path.base r.path)) (h : b.Emission r w r' w') : Untouched directory w.files w'.files := by
  cases h with
  | printed | unwritable => exact fun _ _ hnode => hnode
  | @written output fs hne houtput hwrite =>
    intro name content hnode
    have hplace := @Files.placeOf_join _ b.outputDirectory (Path.isName_dart hbase.slash_notMem)
    rw [← houtput] at hplace
    have hother : placeOf directory ++ [name] ≠ placeOf output := by
      rw [hplace]
      intro he
      rcases hout with hout | hout
      · exact hne hout
      · exact hout (append_inj_left' he rfl).symm
    rwa [(node?_of_write hwrite).2 _ hother] at hnode

/-! ## Steps -/

variable {s s' s₀ : Session}

structure Sound (directory : Text) (uses : List Use) (s : Session) : Prop where
  isUtf8 : s.builder.config.IsUtf8
  apart : KeepsApart directory s.builder.outputDirectory
  isWhole : s.builder.IsWhole directory
  holds : HoldsOutputs directory uses s.world.files

theorem isWhole_of_none (h : b.cache? = none) : b.IsWhole directory := by
  intro c hc
  rw [h] at hc
  cases hc

section

variable (h : Sound directory uses s)
include h

/-- What is known when a source is read and compiled, or taken from the cache. -/
theorem Sound.coded (hread : s.world.files.read path = .ok source)
    (hcode : outcome (s.builder.code path source) s.world = (.ok (result, b'), w')) :
    Sound directory (uses ++ s.uses path) ⟨b', w'⟩ := by
  have huses : s.uses path = [s.builder.use path source] := by
    unfold Session.uses
    rw [hread]
  have hsuccess : ∀ {b1 : Builder}, Succeeds directory s.builder b1 →
      ∀ {w1 : World}, HoldsOutputs directory (uses ++ s.uses path) w1.files →
        Sound directory (uses ++ s.uses path) ⟨b1, w1⟩ := by
    intro b1 hb w1 hholds
    refine ⟨?_, ?_, hb.isWhole, hholds⟩
    · rw [hb.keeps]
      exact h.isUtf8
    · rw [hb.keeps]
      exact h.apart
  have hmono := h.holds.mono (subset_append_left uses (s.uses path))
  have hout := code_outcome h.isWhole path source s.world
  rw [hcode] at hout
  cases hout with
  | cached _ hb | malformed _ hb | invalid _ hb => exact hsuccess hb hmono
  | compiled hcomp hb hw =>
    refine hsuccess hb ?_
    rcases hw with hw | hw
    · rw [hw]
      exact hmono
    · rw [huses]
      exact h.holds.store h.isUtf8 hcomp hw

theorem Sound.compile (hcomp : outcome (s.builder.compileFile path) s.world = (.ok (r, b'), w')) :
    Sound directory (uses ++ s.uses path) ⟨b', w'⟩ := by
  have hfile := hcomp ▸ compileFile_outcome s.builder path s.world
  cases hfile with
  | unreadable => exact ⟨h.isUtf8, h.apart, h.isWhole, h.holds.mono (subset_append_left _ _)⟩
  | failed hread hcode => exact h.coded hread hcode
  | emitted hread hcode hemit =>
    have hsound := h.coded hread hcode
    have hbase := isPart_base_of_read hread
    exact ⟨hsound.isUtf8, hsound.apart, hsound.isWhole,
      hsound.holds.untouched (untouched_of_emission hsound.apart hbase (emission_of_emit hemit))⟩

theorem Sound.crash (hcomp : outcome (s.builder.compileFile path) s.world = (.error e, w')) :
    Sound directory (uses ++ s.uses path) ⟨{ s.builder with cache? := none }, w'⟩ := by
  have hfile := hcomp ▸ compileFile_outcome s.builder path s.world
  cases hfile with
  | @crashed source _ _ hread hcode =>
    have hcoded := hcode ▸ code_outcome h.isWhole path source s.world
    cases hcoded
    exact ⟨h.isUtf8, h.apart, isWhole_of_none rfl, h.holds.mono (subset_append_left _ _)⟩

theorem Sound.save (hsave : outcome s.builder.saveCache s.world = (.ok (), w')) :
    Sound directory uses { s with world := w' } := by
  refine ⟨h.isUtf8, h.apart, h.isWhole, ?_⟩
  unfold saveCache at hsave
  split at hsave
  · cases hsave
    exact h.holds
  · rename_i c hcache
    obtain ⟨rfl, index, hindex, hwhole⟩ := h.isWhole c hcache
    rw [outcome_bind_of_ok _ (outcome_get s.world)] at hsave
    unfold Cache.save at hsave
    rw [hindex] at hsave
    split at hsave
    · rename_i fs hok
      cases hsave
      split at hok
      · cases hwrite : s.world.files.write (Cache.indexPath c.directory) (Cache.writeIndex (some index)) with
        | error e =>
          rw [hwrite] at hok
          cases hok
        | ok fs' =>
          rw [hwrite] at hok
          cases hok
          exact h.holds.save hwhole hwrite
      · cases hok
    · cases hsave
      exact h.holds

end

/-! ### Opening and clearing -/

theorem loadIndex_isWhole (h : HoldsOutputs directory uses fs) :
    ∃ index, Cache.loadIndex fs directory = some index ∧ Cache.IsWhole index := by
  cases hread : fs.read (Cache.indexPath directory) with
  | error e => exact ⟨[], by rw [Cache.loadIndex, hread], forall_mem_nil _⟩
  | ok t =>
    have hnode := node?_of_read hread
    rw [Cache.placeOf_indexPath] at hnode
    obtain ⟨index, hwhole, rfl⟩ := h.index t hnode
    exact ⟨_, Cache.loadIndex_of_isSound (fun _ hr => Cache.isWhole_of_readIndex? hwhole hr) hread⟩

theorem Sound.reopen (h : Sound directory uses s)
    (hopen : Cache.openIn s.world.files s.world.now directory maxAge = (fs, result)) :
    Sound directory uses ⟨{ s.builder with cache? := result.toOption }, { s.world with files := fs }⟩ := by
  cases hmake : s.world.files.makeDirectories directory with
  | error e =>
    rw [Cache.openIn, hmake] at hopen
    cases hopen
    exact ⟨h.isUtf8, h.apart, isWhole_of_none rfl, h.holds⟩
  | ok fs1 =>
    have hpart := isPartOf_of_makeDirectories hmake
    obtain ⟨index, hload, hwhole⟩ := loadIndex_isWhole (h.holds.untouched (untouched_of_isPartOf hpart))
    obtain ⟨fs2, hpart2, heq⟩ := Cache.openIn_of_loadIndex hmake hload hwhole s.world.now maxAge
    rw [heq] at hopen
    cases hopen
    exact ⟨h.isUtf8, h.apart, (Succeeds.of_isIntact rfl (Cache.isIntact_holding hwhole _ _ _)).isWhole,
      h.holds.untouched (untouched_of_isPartOf (hpart2.trans hpart))⟩

theorem isPartOf_removeOutputs (directory : Text) (keys : List Text) (fs : Files) :
    (Cache.removeOutputs directory keys fs).1.IsPartOf fs := by
  induction keys generalizing fs with
  | nil => exact .refl _
  | cons key keys ih =>
    rw [Cache.removeOutputs]
    split
    · rename_i fs1 hremove
      exact (ih fs1).trans (isPartOf_of_remove hremove)
    · exact ih fs

theorem Sound.clear (h : Sound directory uses s)
    (hcache : s.builder.cache? = some c) (hclear : c.clear s.world.files = (c', fs, errors)) :
    Sound directory uses ⟨{ s.builder with cache? := some c' }, { s.world with files := fs }⟩ := by
  obtain ⟨hdir, -⟩ := h.isWhole c hcache
  have hpart := isPartOf_removeOutputs c.directory ((c.index?.getD []).map Prod.fst) s.world.files
  unfold Cache.clear at hclear
  cases hclear
  refine ⟨h.isUtf8, h.apart, ?_, h.holds.untouched (untouched_of_isPartOf hpart)⟩
  rintro c' ⟨⟩
  exact ⟨hdir, [], rfl, forall_mem_nil _⟩

/-! ### Runs -/

/-- A session before anything was compiled: no cache is open, and its directory holds no file. -/
structure IsFresh (directory : Text) (s : Session) : Prop where
  isUtf8 : s.builder.config.IsUtf8
  apart : KeepsApart directory s.builder.outputDirectory
  noCache : s.builder.cache? = none
  empty : ∀ name content, s.world.files.node? (placeOf directory ++ [name]) ≠ some (.file content)

theorem IsFresh.sound (h : IsFresh directory s) : Sound directory [] s :=
  ⟨h.isUtf8, h.apart, isWhole_of_none h.noCache, fun _ _ hnode => absurd hnode (h.empty _ _),
    fun _ hnode => absurd hnode (h.empty _ _)⟩

theorem Step.sound (hstep : Step directory s more s') (h : Sound directory uses s) :
    Sound directory (uses ++ more) s' := by
  cases hstep with
  | compile hcomp => exact h.compile hcomp
  | crash hcomp => exact h.crash hcomp
  | configure hconfig hout =>
    rw [append_nil]
    exact ⟨hconfig, hout, h.isWhole, h.holds⟩
  | edit hfiles =>
    rw [append_nil]
    exact ⟨h.isUtf8, h.apart, h.isWhole, h.holds.untouched hfiles⟩
  | save hsave =>
    rw [append_nil]
    exact h.save hsave
  | reopen maxAge hopen =>
    rw [append_nil]
    exact h.reopen hopen
  | clear hcache hclear =>
    rw [append_nil]
    exact h.clear hcache hclear

theorem Run.sound (hrun : Run directory s₀ uses s) (h : IsFresh directory s₀) : Sound directory uses s := by
  induction hrun with
  | start => exact h.sound
  | next _ hstep ih => exact hstep.sound ih

/-! ## Answers -/

def CollisionFree (uses : List Use) : Prop :=
  ∀ u ∈ uses, ∀ v ∈ uses, Digest.sha256 (Cache.keyText u.inputs) = Digest.sha256 (Cache.keyText v.inputs) →
    Cache.keyText u.inputs = Cache.keyText v.inputs

/-- What the compiler says of a source, read as now or as a source was read before. -/
inductive Builder.MaySay (uses : List Use) (b : Builder) (path source : Text) (said : Except CompileError Output) :
    Prop where
  | now (h : b.compiler.compile path source = said)
  | before {u : Use} (hu : u ∈ uses) (h : (b.config.compiler.readingBy u.reading).compile path source = said)

theorem Use.Makes.compile_eq {u v : Use} (h : u.Makes (Cache.key v.inputs) content) (hutf8 : v.config.IsUtf8)
    (hfree : Digest.sha256 (Cache.keyText u.inputs) = Digest.sha256 (Cache.keyText v.inputs) →
      Cache.keyText u.inputs = Cache.keyText v.inputs) :
    ∃ out, (v.config.compiler.readingBy u.reading).compile v.path v.source = .ok out ∧ content = out.code := by
  have hinputs := Cache.keyText_injective (hfree (Cache.sha256_keyText_eq_of_key_eq h.key_eq))
  simp only [Use.inputs, cons.injEq, true_and, and_true] at hinputs
  obtain ⟨hfingerprint, -, hsource⟩ := hinputs
  obtain ⟨out, hcomp, hcontent⟩ := h.code_eq
  have hagrees := (v.config.compiler.readingBy u.reading).compile_toOption_eq u.path v.path v.source
  rw [Config.compiler_eq_of_fingerprint_eq h.isUtf8 hutf8 hfingerprint, hsource] at hcomp
  rcases cases_of_toOption_eq hagrees with ⟨out', hu, hv⟩ | ⟨e, e', hu, -⟩
  · rw [hu] at hcomp
    cases hcomp
    exact ⟨out, hv, hcontent⟩
  · rw [hu] at hcomp
    cases hcomp

def bareConfig : Config :=
  { contentProperties := [], unnamedProperties := [], controllerTypes := [] }

theorem isUtf8_bareConfig : bareConfig.IsUtf8 := by
  unfold Config.IsUtf8
  decide

end FlutterLayout.Command
