import FlutterLayout.Proofs.Command.Transparency

/-!
# Schedules — layout files compiled side by side

Layout files are compiled by jobs that share one builder and one world.  A job takes one step at a time
(`JobStep`): every access to the files and to the cache is a step of its own, and a file that is being written may be
seen with a part of its content.  A pool takes steps of its jobs in any order, with at most a given number of them at
once (`PoolStep`); `compileFiles` is the schedule in which the jobs come one after the other
(`schedule_of_compileFiles`).
-/

namespace FlutterLayout.Command

open List Builder

/-! ## Jobs -/

inductive Phase where
  | waiting
  | started
  | sourced (source : Text)
  | missed (source : Text)
  | storing (source code : Text)
  | stored (source code : Text)
  | coded (source code : Text) (isCached : Bool)
  | finished (source? : Option Text) (r : FileResult)

namespace Phase

def source? : Phase → Option Text
  | waiting => none
  | started => none
  | sourced source => some source
  | missed source => some source
  | storing source _ => some source
  | stored source _ => some source
  | coded source _ _ => some source
  | finished source? _ => source?

def isPastStoring : Phase → Bool
  | storing _ _ => true
  | stored _ _ => true
  | coded _ _ _ => true
  | finished _ _ => true
  | _ => false

def isActive : Phase → Bool
  | waiting => false
  | finished _ _ => false
  | _ => true

def isWaiting : Phase → Bool
  | waiting => true
  | _ => false

def isStoring : Phase → Bool
  | storing _ _ => true
  | stored _ _ => true
  | _ => false

/-- How many steps the job has left at most, if it writes each file at once. -/
def remaining : Phase → Nat
  | waiting => 7
  | started => 6
  | sourced _ => 5
  | missed _ => 4
  | storing _ _ => 3
  | stored _ _ => 2
  | coded _ _ _ => 1
  | finished _ _ => 0

end Phase

def Builder.outputPath (b : Builder) (path : Text) : Text :=
  Path.join b.outputDirectory (Path.base path ++ ".dart")

/-- One step of the job of a layout file.  There is none for a crash, which ends everything. -/
inductive JobStep (path : Text) : Session → Phase → Session → Phase → Prop where
  | read {s : Session} {source : Text} (h : s.world.files.read path = .ok source) :
      JobStep path s .started s (.sourced source)
  | unreadable {s : Session} {e : FileError} (h : s.world.files.read path = .error e) :
      JobStep path s .started s (.finished none { path := path, error? := some (.unreadable path e) })
  | miss {s : Session} {source : Text} {b : Builder} {w : World}
      (h : outcome (s.builder.lookup (s.builder.key path source)) s.world = (.ok (none, b), w)) :
      JobStep path s (.sourced source) ⟨b, w⟩ (.missed source)
  | hit {s : Session} {source data : Text} {b : Builder} {w : World}
      (h : outcome (s.builder.lookup (s.builder.key path source)) s.world = (.ok (some data, b), w)) :
      JobStep path s (.sourced source) ⟨b, w⟩ (.coded source data true)
  | malformed {s : Session} {source : Text} {e : Markup.SyntaxError}
      (h : s.builder.compiler.compile path source = .error (.malformed e)) :
      JobStep path s (.missed source) s
        (.finished (some source) { path := path, error? := some (.malformed path e) })
  | invalid {s : Session} {source : Text} {e : Layout.LayoutError}
      (h : s.builder.compiler.compile path source = .error (.invalid e)) :
      JobStep path s (.missed source) s (.finished (some source) { path := path, error? := some (.invalid path e) })
  | compile {s : Session} {source : Text} {out : Output} (hcache : s.builder.cache? = none)
      (h : s.builder.compiler.compile path source = .ok out) :
      JobStep path s (.missed source) s (.coded source out.code false)
  | compileForCache {s : Session} {source : Text} {out : Output} {c : Cache} (hcache : s.builder.cache? = some c)
      (h : s.builder.compiler.compile path source = .ok out) :
      JobStep path s (.missed source) s (.storing source out.code)
  | storePart {s : Session} {source code : Text} {c : Cache} {fs : Files} (n : Nat) (hcache : s.builder.cache? = some c)
      (h : s.world.files.write (Cache.outputPath c.directory (s.builder.key path source)) (code.take n) = .ok fs) :
      JobStep path s (.storing source code) { s with world := { s.world with files := fs } } (.storing source code)
  | store {s : Session} {source code : Text} {c : Cache} {fs : Files} (hcache : s.builder.cache? = some c)
      (h : s.world.files.write (Cache.outputPath c.directory (s.builder.key path source)) code = .ok fs) :
      JobStep path s (.storing source code) { s with world := { s.world with files := fs } } (.stored source code)
  | storeRefused {s : Session} {source code : Text} {c : Cache} {e : FileError} (hcache : s.builder.cache? = some c)
      (h : s.world.files.write (Cache.outputPath c.directory (s.builder.key path source)) code = .error e) :
      JobStep path s (.storing source code)
        { s with world := { s.world with log := s.world.log ++ [.message ("⚠️  " ++ Cache.unwritableMessage e)] } }
        (.coded source code false)
  | enter {s : Session} {source code : Text} {c : Cache} {index : Cache.Index} {e : Cache.Entry}
      (hcache : s.builder.cache? = some c) (hindex : c.index? = some index)
      (he : e = ⟨s.builder.key path source, path, code.length, ⟨s.world.now, 0⟩, ⟨s.world.now, 0⟩⟩) :
      JobStep path s (.stored source code)
        { s with builder := { s.builder with
            cache? := some { c with index? := some (index.put (s.builder.key path source) (some e)) } } }
        (.coded source code false)
  | emitPart {s : Session} {source code : Text} {isCached : Bool} {fs : Files} (n : Nat)
      (hout : s.builder.outputDirectory ≠ [])
      (h : s.world.files.write (s.builder.outputPath path) ((generatedFile path code).take n) = .ok fs) :
      JobStep path s (.coded source code isCached) { s with world := { s.world with files := fs } }
        (.coded source code isCached)
  | emit {s : Session} {source code : Text} {isCached : Bool} {r : FileResult} {w : World}
      (h : outcome (s.builder.emit { path := path, code := code, isCached := isCached }) s.world = (.ok r, w)) :
      JobStep path s (.coded source code isCached) { s with world := w } (.finished (some source) r)

/-! ## Pools -/

structure Job where
  path : Text
  phase : Phase

structure Pool where
  session : Session
  jobs : List Job

def Pool.start (s : Session) (files : List Text) : Pool :=
  ⟨s, files.map fun path => ⟨path, .waiting⟩⟩

/-- One step of a pool in which at most `limit` jobs are at work, or any number if it is zero.  Jobs are started in
order. -/
inductive PoolStep (limit : Nat) : Pool → Pool → Prop where
  | start {s : Session} {before after : List Job} {path : Text} (hbefore : ∀ j ∈ before, j.phase ≠ .waiting)
      (hlimit : limit = 0 ∨ (before.countP fun j => j.phase.isActive) < limit) :
      PoolStep limit ⟨s, before ++ ⟨path, .waiting⟩ :: after⟩ ⟨s, before ++ ⟨path, .started⟩ :: after⟩
  | job {s s' : Session} {before after : List Job} {path : Text} {phase phase' : Phase}
      (h : JobStep path s phase s' phase') :
      PoolStep limit ⟨s, before ++ ⟨path, phase⟩ :: after⟩ ⟨s', before ++ ⟨path, phase'⟩ :: after⟩
  | tick {s : Session} {jobs : List Job} (now : Instant) :
      PoolStep limit ⟨s, jobs⟩ ⟨{ s with world := { s.world with now := now } }, jobs⟩

def Schedule (limit : Nat) : Pool → Pool → Prop :=
  Relation.ReflTransGen (PoolStep limit)

def Pool.Gives (pool : Pool) (results : List FileResult) : Prop :=
  List.Forall₂ (fun j r => ∃ source?, j.phase = .finished source? r) pool.jobs results

def Pool.Crashes (pool : Pool) : Prop :=
  ∃ j ∈ pool.jobs, ∃ source e, j.phase = .missed source ∧
    pool.session.builder.compiler.compile j.path source = .error (.unreadable e)

/-! ## What a step does -/

variable {directory path source code : Text} {s s' : Session} {phase phase' : Phase} {fs fs' : Files} {limit : Nat}
  {pool pool' first : Pool} {files : List Text} {b b' : Builder} {w w' : World} {before after : List Job}
  {results : List FileResult}

/-- What the step of a job does to the files: nothing, or it writes an output to the cache or to the output
directory. -/
inductive Touches (directory : Text) (b : Builder) (path : Text) (fs : Files) : Phase → Files → Prop where
  | nothing {phase : Phase} : Touches directory b path fs phase fs
  | cache {source code content : Text} {fs' : Files}
      (h : fs.write (Cache.outputPath directory (b.key path source)) content = .ok fs') :
      Touches directory b path fs (.storing source code) fs'
  | output {source code content : Text} {isCached : Bool} {fs' : Files} (hout : b.outputDirectory ≠ [])
      (h : fs.write (b.outputPath path) content = .ok fs') :
      Touches directory b path fs (.coded source code isCached) fs'

theorem mem_middle : j ∈ before ++ i :: after ↔ j = i ∨ j ∈ before ∨ j ∈ after := by
  rw [mem_append, mem_cons, or_left_comm]

theorem JobStep.touches (h : JobStep path s phase s' phase') (hwhole : s.builder.IsWhole directory) :
    Succeeds directory s.builder s'.builder ∧
      Touches directory s.builder path s.world.files phase s'.world.files := by
  cases h with
  | read | unreadable | malformed | invalid | compile | compileForCache | storeRefused =>
    exact ⟨.refl hwhole, .nothing⟩
  | miss h | hit h =>
    obtain ⟨data?, b', hlookup, hb, -⟩ := lookup_cases hwhole (s.builder.key path _) s.world
    cases hlookup.symm.trans h
    exact ⟨hb, .nothing⟩
  | storePart _ hcache h | store hcache h =>
    obtain ⟨rfl, -⟩ := hwhole _ hcache
    exact ⟨.refl hwhole, .cache h⟩
  | enter hcache hindex he =>
    obtain ⟨hdir, index, hindex', hindexWhole⟩ := hwhole _ hcache
    cases hindex.symm.trans hindex'
    exact ⟨.of_isIntact hdir ⟨_, rfl, Cache.isWhole_put hindexWhole _ _⟩, .nothing⟩
  | emitPart n hout h => exact ⟨.refl hwhole, .output hout h⟩
  | emit h =>
    refine ⟨.refl hwhole, ?_⟩
    cases emission_of_emit h with
    | printed | unwritable => exact .nothing
    | written hne houtput hwrite => exact .output hne (houtput ▸ hwrite)

section

variable (h : Touches directory b path fs phase fs')
include h

theorem Touches.keepsDirectories : fs.KeepsDirectories fs' := by
  cases h with
  | nothing => exact .refl _
  | cache h | output _ h => exact Files.keepsDirectories_of_write h

theorem Touches.keepsDirectories_back : fs'.KeepsDirectories fs := by
  cases h with
  | nothing => exact .refl _
  | cache h | output _ h => exact Files.keepsDirectories_back_of_write h

/-- What stands elsewhere than in the cache and where the output goes stays as it is. -/
theorem Touches.node?_eq (hcache : ∀ name, p ≠ Files.placeOf directory ++ [name])
    (houtput : phase.isPastStoring = true → p ≠ Files.placeOf (b.outputPath path)) : fs'.node? p = fs.node? p := by
  cases h with
  | nothing => rfl
  | cache h =>
    refine (Files.node?_of_write h).2 p ?_
    rw [key, Cache.placeOf_outputPath]
    exact hcache _
  | output _ h => exact (Files.node?_of_write h).2 p (houtput rfl)

end

section

variable (h : b.Succeeds directory b')
include h

theorem Builder.Succeeds.outputDirectory_eq : b'.outputDirectory = b.outputDirectory := by
  rw [h.keeps]

theorem Builder.Succeeds.outputPath_eq (path : Text) : b'.outputPath path = b.outputPath path := by
  rw [h.keeps]
  rfl

theorem Builder.Succeeds.key_eq (path source : Text) : b'.key path source = b.key path source := by
  rw [h.keeps]
  rfl

end

theorem Builder.isSome_cache?_of_lookup {key : Text} {data? : Option Text}
    (h : outcome (b.lookup key) w = (.ok (data?, b'), w')) : b'.cache?.isSome = b.cache?.isSome := by
  cases hcache : b.cache? with
  | none =>
    cases (lookup_of_none hcache).symm.trans h
    rw [hcache]
  | some c =>
    rcases hget : c.get w.files w.now key with ⟨c', result⟩
    cases result with
    | ok data? =>
      cases (lookup_of_get hcache hget).symm.trans h
      rfl
    | error d => cases (lookup_of_damaged hcache hget).symm.trans h

theorem JobStep.isSome_cache? (h : JobStep path s phase s' phase') :
    s'.builder.cache?.isSome = s.builder.cache?.isSome := by
  cases h with
  | miss h | hit h => exact isSome_cache?_of_lookup h
  | enter hcache => rw [hcache]; rfl
  | _ => rfl

theorem JobStep.isSome_of_isStoring (h : JobStep path s phase s' phase') (hstoring : phase'.isStoring = true) :
    s.builder.cache?.isSome = true := by
  cases h with
  | compileForCache hcache | storePart _ hcache | store hcache => rw [hcache]; rfl
  | _ => cases hstoring

/-! ## What a schedule keeps -/

/-- What a schedule keeps of the pool it starts from: of the builder everything but the cache, the directories, and
the files that are neither in the cache nor outputs. -/
structure Pool.Keeps (directory : Text) (first pool : Pool) : Prop where
  succeeds : Builder.Succeeds directory first.session.builder pool.session.builder
  paths : pool.jobs.map Job.path = first.jobs.map Job.path
  directories : first.session.world.files.KeepsDirectories pool.session.world.files
  directories_back : pool.session.world.files.KeepsDirectories first.session.world.files
  others : ∀ p, (∀ name, p ≠ Files.placeOf directory ++ [name]) →
    (∀ path ∈ first.jobs.map Job.path, p ≠ Files.placeOf (first.session.builder.outputPath path)) →
      pool.session.world.files.node? p = first.session.world.files.node? p
  caches : ∀ j ∈ pool.jobs, j.phase.isStoring = true → pool.session.builder.cache?.isSome = true

theorem Pool.Keeps.refl (hwhole : pool.session.builder.IsWhole directory)
    (h : ∀ j ∈ pool.jobs, j.phase.isStoring = false) : Pool.Keeps directory pool pool where
  succeeds := .refl hwhole
  paths := rfl
  directories := .refl _
  directories_back := .refl _
  others _ _ _ := rfl
  caches j hj hstoring := absurd ((h j hj).symm.trans hstoring) Bool.false_ne_true

theorem Pool.keeps_start (hwhole : s.builder.IsWhole directory) (files : List Text) :
    Pool.Keeps directory (.start s files) (.start s files) := by
  refine .refl hwhole fun j hj => ?_
  obtain ⟨path, -, rfl⟩ := mem_map.1 hj
  rfl

theorem Pool.Keeps.step (h : Pool.Keeps directory first pool) (hstep : PoolStep limit pool pool') :
    Pool.Keeps directory first pool' := by
  cases hstep with
  | tick now => exact ⟨h.succeeds, h.paths, h.directories, h.directories_back, h.others, h.caches⟩
  | @start s before after path =>
    refine ⟨h.succeeds, ?_, h.directories, h.directories_back, h.others, ?_⟩
    · rw [← h.paths, map_append, map_append]
      rfl
    · intro j hj hstoring
      rcases mem_middle.1 hj with rfl | hj
      · cases hstoring
      · exact h.caches j (mem_middle.2 (.inr hj)) hstoring
  | @job s s' before after path phase phase' hjob =>
    obtain ⟨hsucceeds, htouches⟩ := hjob.touches h.succeeds.isWhole
    have hpath : path ∈ first.jobs.map Job.path := by
      rw [← h.paths]
      exact mem_map.2 ⟨⟨path, phase⟩, mem_middle.2 (.inl rfl), rfl⟩
    refine ⟨h.succeeds.trans hsucceeds, ?_, h.directories.trans htouches.keepsDirectories,
      htouches.keepsDirectories_back.trans h.directories_back, ?_, ?_⟩
    · rw [← h.paths, map_append, map_append]
      rfl
    · intro p hcache houtput
      refine (htouches.node?_eq hcache fun _ => ?_).trans (h.others p hcache houtput)
      rw [h.succeeds.outputPath_eq]
      exact houtput path hpath
    · intro j hj hstoring
      rw [show (⟨s', before ++ ⟨path, phase'⟩ :: after⟩ : Pool).session.builder.cache?.isSome =
        s.builder.cache?.isSome from hjob.isSome_cache?]
      rcases mem_middle.1 hj with rfl | hj
      · exact hjob.isSome_of_isStoring hstoring
      · exact h.caches j (mem_middle.2 (.inr hj)) hstoring

theorem Schedule.keeps (hsched : Schedule limit first pool) (h : Pool.Keeps directory first first) :
    Pool.Keeps directory first pool := by
  induction hsched with
  | refl => exact h
  | tail _ hstep ih => exact ih.step hstep

/-! ## Progress -/

/-- A job at work can take a step that brings it forward, unless it crashes. -/
theorem exists_jobStep (path : Text) (hwhole : s.builder.IsWhole directory) (hactive : phase.isActive = true)
    (hcache : phase.isStoring = true → s.builder.cache?.isSome = true) :
    (∃ s' phase', JobStep path s phase s' phase' ∧ phase'.remaining < phase.remaining) ∨
      ∃ source e, phase = .missed source ∧ s.builder.compiler.compile path source = .error (.unreadable e) := by
  cases phase with
  | waiting | finished => cases hactive
  | started =>
    refine .inl ?_
    cases hread : s.world.files.read path with
    | ok source => exact ⟨_, _, .read hread, by simp [Phase.remaining]⟩
    | error e => exact ⟨_, _, .unreadable hread, by simp [Phase.remaining]⟩
  | sourced source =>
    refine .inl ?_
    obtain ⟨data?, b', hlookup, -⟩ := lookup_cases hwhole (s.builder.key path source) s.world
    cases data? with
    | none => exact ⟨_, _, .miss hlookup, by simp [Phase.remaining]⟩
    | some data => exact ⟨_, _, .hit hlookup, by simp [Phase.remaining]⟩
  | missed source =>
    cases hcomp : s.builder.compiler.compile path source with
    | error e =>
      cases e with
      | malformed e => exact .inl ⟨_, _, .malformed hcomp, by simp [Phase.remaining]⟩
      | invalid e => exact .inl ⟨_, _, .invalid hcomp, by simp [Phase.remaining]⟩
      | unreadable e => exact .inr ⟨source, e, rfl, hcomp⟩
    | ok out =>
      cases hc : s.builder.cache? with
      | none => exact .inl ⟨_, _, .compile hc hcomp, by simp [Phase.remaining]⟩
      | some c => exact .inl ⟨_, _, .compileForCache hc hcomp, by simp [Phase.remaining]⟩
  | storing source code =>
    obtain ⟨c, hc⟩ := Option.isSome_iff_exists.1 (hcache rfl)
    cases hwrite : s.world.files.write (Cache.outputPath c.directory (s.builder.key path source)) code with
    | ok fs => exact .inl ⟨_, _, .store hc hwrite, by simp [Phase.remaining]⟩
    | error e => exact .inl ⟨_, _, .storeRefused hc hwrite, by simp [Phase.remaining]⟩
  | stored source code =>
    obtain ⟨c, hc⟩ := Option.isSome_iff_exists.1 (hcache rfl)
    obtain ⟨-, index, hindex, -⟩ := hwhole c hc
    exact .inl ⟨_, _, .enter hc hindex rfl, by simp [Phase.remaining]⟩
  | coded source code isCached =>
    obtain ⟨r, w', hemit, -⟩ := emit_outcome s.builder { path := path, code := code, isCached := isCached } s.world
    exact .inl ⟨_, _, .emit hemit, by simp [Phase.remaining]⟩

/-- How many steps the jobs have left at most, if they write each file at once. -/
def remainingSteps : List Job → Nat
  | [] => 0
  | j :: jobs => j.phase.remaining + remainingSteps jobs

theorem remainingSteps_lt (h : phase'.remaining < phase.remaining) :
    remainingSteps (before ++ ⟨path, phase'⟩ :: after) < remainingSteps (before ++ ⟨path, phase⟩ :: after) := by
  induction before with
  | nil => exact Nat.add_lt_add_right h _
  | cons j before ih => exact Nat.add_lt_add_left ih _

theorem exists_results (h : ∀ j ∈ jobs, j.phase.isActive = false ∧ j.phase.isWaiting = false) :
    ∃ results, Pool.Gives ⟨s, jobs⟩ results := by
  induction jobs with
  | nil => exact ⟨[], .nil⟩
  | cons j jobs ih =>
    obtain ⟨hj, hjobs⟩ := forall_mem_cons.1 h
    obtain ⟨results, hresults⟩ := ih hjobs
    cases hphase : j.phase with
    | finished source? r => exact ⟨r :: results, .cons ⟨source?, hphase⟩ hresults⟩
    | waiting =>
      rw [hphase] at hj
      cases hj.2
    | _ =>
      rw [hphase] at hj
      cases hj.1

/-- No job in front is at work or waits, so the next one can start, whatever the limit. -/
theorem PoolStep.start_of_idle (limit : Nat)
    (hbefore : ∀ j ∈ before, j.phase.isActive = false ∧ j.phase.isWaiting = false) :
    PoolStep limit ⟨s, before ++ ⟨path, .waiting⟩ :: after⟩ ⟨s, before ++ ⟨path, .started⟩ :: after⟩ := by
  have hcount : (before.countP fun j => j.phase.isActive) = 0 :=
    countP_eq_zero.2 fun j hj => by simp [(hbefore j hj).1]
  refine .start (fun j hj hphase => ?_) (by rw [hcount]; exact Nat.eq_zero_or_pos limit)
  have hidle := (hbefore j hj).2
  rw [hphase] at hidle
  cases hidle

theorem Pool.Keeps.exists_step (h : Pool.Keeps directory first pool) (limit : Nat) :
    (∃ results, pool.Gives results) ∨ pool.Crashes ∨
      ∃ pool', PoolStep limit pool pool' ∧ remainingSteps pool'.jobs < remainingSteps pool.jobs := by
  obtain ⟨s, jobs⟩ := pool
  by_cases hactive : ∃ j ∈ jobs, j.phase.isActive = true
  · obtain ⟨⟨path, phase⟩, hj, hactive⟩ := hactive
    rcases exists_jobStep path h.succeeds.isWhole hactive (h.caches _ hj) with
      ⟨s', phase', hstep, hlt⟩ | ⟨source, e, hphase, hcrash⟩
    · obtain ⟨before, after, rfl⟩ := append_of_mem hj
      exact .inr (.inr ⟨_, .job hstep, remainingSteps_lt hlt⟩)
    · exact .inr (.inl ⟨_, hj, source, e, hphase, hcrash⟩)
  · have hidle : ∀ j ∈ jobs, j.phase.isActive = false := fun j hj =>
      Bool.eq_false_iff.2 fun hj' => hactive ⟨j, hj, hj'⟩
    cases hfind : jobs.find? fun j => j.phase.isWaiting with
    | none =>
      refine .inl (exists_results fun j hj => ⟨hidle j hj, ?_⟩)
      exact Bool.eq_false_iff.2 (find?_eq_none.1 hfind j hj)
    | some j =>
      obtain ⟨hj, before, after, rfl, hbefore⟩ := find?_eq_some_iff_append.1 hfind
      obtain ⟨path, phase⟩ := j
      cases phase with
      | waiting =>
        refine .inr (.inr ⟨_, .start_of_idle limit fun j hj => ?_, remainingSteps_lt (by decide)⟩)
        exact ⟨hidle j (mem_append_left _ hj), by simpa using hbefore j hj⟩
      | _ => cases hj

/-- Whatever was done so far, all jobs can be finished, unless one of them crashes. -/
theorem Pool.Keeps.exists_schedule (h : Pool.Keeps directory first pool) (limit : Nat) :
    ∃ later, Schedule limit pool later ∧ ((∃ results, later.Gives results) ∨ later.Crashes) := by
  generalize hn : remainingSteps pool.jobs = n
  induction n using Nat.strong_induction_on generalizing pool with
  | _ n ih =>
    rcases h.exists_step limit with hresults | hcrashes | ⟨pool', hstep, hlt⟩
    · exact ⟨pool, .refl, .inl hresults⟩
    · exact ⟨pool, .refl, .inr hcrashes⟩
    · obtain ⟨later, hlater, hend⟩ := ih _ (hn ▸ hlt) (h.step hstep) rfl
      exact ⟨later, .head hstep hlater, hend⟩

/-! ## One job after the other -/

/-- The phase of a job that has got the code of its source, or an error. -/
def Phase.ofCode (path source : Text) : Except BuildError (Text × Bool) → Phase
  | .ok (code, isCached) => coded source code isCached
  | .error e => finished (some source) { path := path, error? := some e }

theorem schedule_of_code (hwhole : s.builder.IsWhole directory)
    (h : outcome (s.builder.code path source) s.world = (.ok (result, b), w)) :
    Schedule limit ⟨s, before ++ ⟨path, .sourced source⟩ :: after⟩
      ⟨⟨b, w⟩, before ++ ⟨path, .ofCode path source result⟩ :: after⟩ := by
  obtain ⟨data?, b1, hlookup, hb, -⟩ := lookup_cases hwhole (s.builder.key path source) s.world
  unfold code at h
  dsimp only at h
  rw [outcome_bind_of_ok _ hlookup] at h
  cases data? with
  | some data =>
    cases h
    exact .single (.job (.hit hlookup))
  | none =>
    dsimp only at h
    refine .head (.job (.miss hlookup)) ?_
    cases hcomp : b1.compiler.compile path source with
    | error e =>
      rw [hcomp] at h
      cases e with
      | malformed e =>
        cases h
        exact .single (.job (.malformed hcomp))
      | invalid e =>
        cases h
        exact .single (.job (.invalid hcomp))
      | unreadable e => cases h
    | ok out =>
      rw [hcomp] at h
      obtain ⟨b2, w2, hstore, hrest⟩ := exists_of_outcome_bind h
      cases hrest
      unfold store at hstore
      rw [← hb.key_eq] at hstore
      cases hcache : b1.cache? with
      | none =>
        rw [hcache] at hstore
        cases hstore
        exact .single (.job (.compile hcache hcomp))
      | some c =>
        rw [hcache] at hstore
        refine .head (.job (.compileForCache hcache hcomp)) ?_
        obtain ⟨-, index, hindex, -⟩ := hb.isWhole c hcache
        replace hstore := (outcome_bind_of_ok _ (outcome_get s.world)).symm.trans hstore
        unfold Cache.put at hstore
        cases hwrite : s.world.files.write (Cache.outputPath c.directory (b1.key path source)) out.code with
        | error e =>
          rw [hwrite] at hstore
          cases hstore
          rw [show ({ b1 with cache? := some c } : Builder) = b1 by rw [← hcache]]
          exact .single (.job (.storeRefused hcache hwrite))
        | ok fs =>
          rw [hwrite] at hstore
          dsimp only at hstore
          rw [hindex] at hstore
          cases hstore
          exact .head (.job (.store hcache hwrite)) (.single (.job (.enter hcache hindex rfl)))

section

variable (hwhole : s.builder.IsWhole directory) (h : outcome (s.builder.compileFile path) s.world = (.ok (r, b), w))
include hwhole h

theorem schedule_of_compileFile (limit : Nat) (before after : List Job) :
    ∃ source?, Schedule limit ⟨s, before ++ ⟨path, .started⟩ :: after⟩
      ⟨⟨b, w⟩, before ++ ⟨path, .finished source? r⟩ :: after⟩ := by
  have hfile := h ▸ compileFile_outcome s.builder path s.world
  cases hfile with
  | unreadable hread => exact ⟨none, .single (.job (.unreadable hread))⟩
  | @failed source _ _ _ hread hcode =>
    exact ⟨some source, .head (.job (.read hread)) (schedule_of_code hwhole hcode)⟩
  | @emitted source _ _ _ _ _ _ hread hcode hemit =>
    exact ⟨some source, .head (.job (.read hread)) (.tail (schedule_of_code hwhole hcode) (.job (.emit hemit)))⟩

theorem isWhole_of_compileFile : b.IsWhole directory := by
  obtain ⟨source?, hjob⟩ := schedule_of_compileFile hwhole h 0 [] []
  refine (hjob.keeps (.refl hwhole fun j hj => ?_)).succeeds.isWhole
  rw [mem_singleton.1 hj]
  rfl

end

/-- Layout files in a row are a schedule, whatever the number of jobs that may be at work. -/
theorem schedule_of_compiles (h : Compiles c b0 w0 results b w)
    (hwhole : b0.IsWhole directory) (limit : Nat) (before : List Job)
    (hbefore : ∀ j ∈ before, j.phase.isActive = false ∧ j.phase.isWaiting = false) :
    ∃ jobs, Schedule limit ⟨⟨b0, w0⟩, before ++ results.map fun r => ⟨r.path, .waiting⟩⟩ ⟨⟨b, w⟩, before ++ jobs⟩ ∧
      Pool.Gives ⟨⟨b, w⟩, jobs⟩ results := by
  induction h generalizing before with
  | nil b w => exact ⟨[], .refl, .nil⟩
  | @cons b b1 b2 w w1 w2 r rs hconfig hfirst hrest ih =>
    have hstart : PoolStep limit ⟨⟨b, w⟩, before ++ ⟨r.path, .waiting⟩ :: rs.map fun r => ⟨r.path, .waiting⟩⟩
        ⟨⟨b, w⟩, before ++ ⟨r.path, .started⟩ :: rs.map fun r => ⟨r.path, .waiting⟩⟩ := .start_of_idle limit hbefore
    obtain ⟨source?, hjob⟩ := schedule_of_compileFile (s := ⟨b, w⟩) hwhole hfirst limit before
      (rs.map fun r => ⟨r.path, .waiting⟩)
    have hwhole1 : b1.IsWhole directory := isWhole_of_compileFile (s := ⟨b, w⟩) hwhole hfirst
    have hbefore1 : ∀ j ∈ before ++ [⟨r.path, .finished source? r⟩],
        j.phase.isActive = false ∧ j.phase.isWaiting = false := by
      exact forall_mem_append.2 ⟨hbefore, forall_mem_singleton.2 ⟨rfl, rfl⟩⟩
    obtain ⟨jobs, hjobs, hgives⟩ := ih hwhole1 _ hbefore1
    rw [append_assoc, append_assoc] at hjobs
    exact ⟨⟨r.path, .finished source? r⟩ :: jobs, .head hstart (hjob.trans hjobs), .cons ⟨source?, rfl⟩ hgives⟩

/-- Compiling layout files is a schedule of their jobs, whatever the number of jobs that may be at work. -/
theorem schedule_of_compileFiles (hwhole : s.builder.IsWhole directory)
    (h : outcome (s.builder.compileFiles files) s.world = (.ok (results, b), w)) (limit : Nat) :
    ∃ pool, Schedule limit (.start s files) pool ∧ pool.Gives results ∧ pool.session = ⟨b, w⟩ := by
  rcases compileFiles_compiles s.builder files s.world with
    ⟨rs, b', w', hcomp, hcomps, rfl⟩ | ⟨e, w', hcomp, -⟩
  · cases hcomp.symm.trans h
    obtain ⟨jobs, hjobs, hgives⟩ := schedule_of_compiles hcomps hwhole limit [] (forall_mem_nil _)
    refine ⟨_, ?_, hgives, rfl⟩
    rw [Pool.start, map_map]
    exact hjobs
  · cases hcomp.symm.trans h

end FlutterLayout.Command
