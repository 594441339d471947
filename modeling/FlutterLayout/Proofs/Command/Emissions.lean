import FlutterLayout.Proofs.Command.Schedules

/-!
# Emissions — what is in the output files after a schedule

A job writes to its own output file and to the entry of its own key, so jobs disturb each other only if two of them
have one output file or one key.  Both are made from the base name of a layout file.  As long as the base names differ,
every step keeps what is known of the jobs (`Pool.IsSound.step`), and in the end each layout that was compiled without
an error has its code in its output file, whatever the schedule (`schedule_emits`).  Two layouts with one base name
have one output file, and the code of one of them is lost (`exists_output_lost`).
-/

namespace FlutterLayout.Command

open List Files FlutterLayout.Path

variable {directory path source code : Text} {s s' s₀ : Session} {phase phase' : Phase} {fs fs' : Files}
  {uses : List Use} {limit : Nat} {pool pool' first : Pool} {files : List Text} {b b' : Builder}
  {before after : List Job} {results : List FileResult} {j : Job} {r : FileResult}

/-! ## What is known of a job -/

def Seen (limit : Nat) (first pool : Pool) (path source : Text) : Prop :=
  ∃ earlier, Schedule limit first earlier ∧ Schedule limit earlier pool ∧
    earlier.session.world.files.read path = .ok source

theorem Seen.mono (h : Seen limit first pool path source) (hstep : PoolStep limit pool pool') :
    Seen limit first pool' path source := by
  obtain ⟨earlier, hfirst, hlater, hread⟩ := h
  exact ⟨earlier, hfirst, hlater.tail hstep, hread⟩

theorem Seen.isPart_base (h : Seen limit first pool path source) : IsPart (base path) := by
  obtain ⟨_, _, _, hread⟩ := h
  exact isPart_base_of_read hread

def IsCode (uses : List Use) (b : Builder) (path source code : Text) : Prop :=
  ∃ out, b.MaySay uses path source (.ok out) ∧ code = out.code

/-- What is known of a job: where its source and its code come from, and when it is finished, what its result says and
what its output file holds. -/
def Job.IsSound (uses : List Use) (limit : Nat) (first pool : Pool) (j : Job) : Prop :=
  match j.phase with
  | .waiting => True
  | .started => True
  | .sourced source => Seen limit first pool j.path source
  | .missed source => Seen limit first pool j.path source
  | .storing source code =>
    Seen limit first pool j.path source ∧ IsCode uses first.session.builder j.path source code
  | .stored source code =>
    Seen limit first pool j.path source ∧ IsCode uses first.session.builder j.path source code
  | .coded source code _ =>
    Seen limit first pool j.path source ∧ IsCode uses first.session.builder j.path source code
  | .finished source? r =>
    r.path = j.path ∧ (r.error? = none → ∃ source, source? = some source ∧
      Seen limit first pool j.path source ∧ IsCode uses first.session.builder j.path source r.code ∧
        r.output = first.session.builder.outputPath j.path ∧
          pool.session.world.files.read r.output = .ok (generatedFile j.path r.code))

structure Pool.IsSound (directory : Text) (uses : List Use) (limit : Nat) (first pool : Pool) : Prop where
  reached : Schedule limit first pool
  keeps : Pool.Keeps directory first pool
  jobs : ∀ j ∈ pool.jobs, j.IsSound uses limit first pool
  /-- The outputs in the cache were there before, or are those of jobs that may have written one. -/
  outputs : ∀ key content : Text,
    pool.session.world.files.node? (placeOf directory ++ [key ++ ".dart"]) = some (.file content) →
      (∃ u ∈ uses, u.Makes key content) ∨
        ∃ j ∈ pool.jobs, ∃ source, j.phase.source? = some source ∧ j.phase.isPastStoring = true ∧
          key = Cache.key (first.session.builder.use j.path source).inputs

/-- What is assumed of a pool before its first step: there is an output directory, which is not that of the cache, and
the layout files have different base names. -/
structure Pool.IsReady (directory : Text) (pool : Pool) : Prop where
  isUtf8 : pool.session.builder.config.IsUtf8
  out_ne_nil : pool.session.builder.outputDirectory ≠ []
  apart : placeOf pool.session.builder.outputDirectory ≠ placeOf directory
  nodup : (pool.jobs.map fun j => base j.path).Nodup

def Pool.sources (pool : Pool) (b : Builder) : List Use :=
  pool.jobs.filterMap fun j => j.phase.source?.map fun source => b.use j.path source

/-! ## Outputs of other jobs -/

theorem placeOf_outputPath_eq (b : Builder) (h : IsPart (base path)) :
    placeOf (b.outputPath path) = placeOf b.outputDirectory ++ [base path ++ ".dart"] :=
  placeOf_join (isName_dart h.slash_notMem)

theorem Touches.read_output (h : Touches directory b path fs phase fs')
    (hapart : placeOf b.outputDirectory ≠ placeOf directory) (hbase : base path' ≠ base path)
    (hpart : phase.isPastStoring = true → IsPart (base path)) (hpart' : IsPart (base path'))
    (hread : fs.read (b.outputPath path') = .ok content) : fs'.read (b.outputPath path') = .ok content := by
  refine h.keepsDirectories.read ?_ hread
  rw [placeOf_outputPath_eq b hpart']
  refine h.node?_eq ?_ ?_
  · intro name he
    exact hapart (append_inj_left' he rfl)
  · intro hpast he
    rw [placeOf_outputPath_eq b (hpart hpast)] at he
    exact hbase (append_cancel_right (singleton_inj.1 (append_cancel_left he)))

/-- Among jobs with different base names, the others do not have the base name of one. -/
theorem base_ne_of_nodup (hnodup : ((before ++ i :: after).map fun j => base j.path).Nodup)
    (hj : j ∈ before ∨ j ∈ after) : base j.path ≠ base i.path := by
  rw [map_append, map_cons] at hnodup
  obtain ⟨-, hnodup', hdisj⟩ := nodup_append.1 hnodup
  rcases hj with hj | hj
  · exact hdisj _ (mem_map_of_mem hj) _ mem_cons_self
  · intro hbase
    have hmem : base j.path ∈ after.map fun j => base j.path := mem_map_of_mem hj
    exact (nodup_cons.1 hnodup').1 (hbase ▸ hmem)

/-! ## Steps of jobs -/

theorem JobStep.source?_eq (h : JobStep path s phase s' phase') (hsource : phase.source? = some source) :
    phase'.source? = some source := by
  cases h <;> first | exact hsource | cases hsource

theorem JobStep.isPastStoring_mono (h : JobStep path s phase s' phase') (hpast : phase.isPastStoring = true) :
    phase'.isPastStoring = true := by
  cases h <;> first | rfl | cases hpast

theorem PoolStep.exists_job (h : PoolStep limit pool pool') (hj : j ∈ pool.jobs)
    (hsource : j.phase.source? = some source) : ∃ j' ∈ pool'.jobs, j'.path = j.path ∧ j'.phase.source? = some source ∧
      (j.phase.isPastStoring = true → j'.phase.isPastStoring = true) := by
  cases h with
  | tick => exact ⟨j, hj, rfl, hsource, id⟩
  | start =>
    rcases mem_middle.1 hj with rfl | hj
    · cases hsource
    · exact ⟨j, mem_middle.2 (.inr hj), rfl, hsource, id⟩
  | @job s s' before after path phase phase' h =>
    rcases mem_middle.1 hj with rfl | hj
    · exact ⟨⟨path, phase'⟩, mem_middle.2 (.inl rfl), rfl, h.source?_eq hsource, h.isPastStoring_mono⟩
    · exact ⟨j, mem_middle.2 (.inr hj), rfl, hsource, id⟩

theorem JobStep.isPart_base (h : JobStep path s phase s' phase')
    (hsound : Job.IsSound uses limit first pool ⟨path, phase⟩)
    (hpast : phase.isPastStoring = true) : IsPart (base path) := by
  cases h with
  | storePart | store | storeRefused | enter | emitPart | emit => exact hsound.1.isPart_base
  | _ => cases hpast

/-- What is known of a job stays known while its output stays what it is. -/
theorem Job.IsSound.mono (h : j.IsSound uses limit first pool) (hstep : PoolStep limit pool pool')
    (hkeeps : ∀ content, IsPart (base j.path) →
      pool.session.world.files.read (first.session.builder.outputPath j.path) = .ok content →
      pool'.session.world.files.read (first.session.builder.outputPath j.path) = .ok content) :
    j.IsSound uses limit first pool' := by
  unfold Job.IsSound at h ⊢
  cases hphase : j.phase <;> rw [hphase] at h
  case waiting | started => exact h
  case sourced | missed => exact h.mono hstep
  case storing | stored | coded => exact ⟨h.1.mono hstep, h.2⟩
  case finished source? r =>
    refine ⟨h.1, fun herror => ?_⟩
    obtain ⟨source, hsource, hseen, hcode, houtput, hread⟩ := h.2 herror
    rw [houtput] at hread
    refine ⟨source, hsource, hseen.mono hstep, hcode, houtput, ?_⟩
    rw [houtput]
    exact hkeeps _ hseen.isPart_base hread

section Steps

variable (hready : first.IsReady directory)
include hready

theorem Pool.IsReady.nodup_of_keeps (hkeeps : Pool.Keeps directory first pool) :
    (pool.jobs.map fun j => base j.path).Nodup := by
  have hmap : ∀ jobs : List Job, (jobs.map fun j => base j.path) = (jobs.map Job.path).map base := fun jobs => by
    rw [map_map]
    rfl
  rw [hmap, hkeeps.paths, ← hmap]
  exact hready.nodup

/-- The cache gives a job what the compiler would give it: an output that came since the jobs began is that of another
base name, and has another key. -/
theorem Pool.IsSound.isCode_of_hit
    (h : Pool.IsSound directory uses limit first ⟨s, before ++ ⟨path, .sourced source⟩ :: after⟩) (hfree : CollisionFree
      (uses ++ Pool.sources ⟨s, before ++ ⟨path, .sourced source⟩ :: after⟩ first.session.builder))
    (hread : s.world.files.read (Cache.outputPath directory (s.builder.key path source)) = .ok data) :
    IsCode uses first.session.builder path source data := by
  have hnode := node?_of_read hread
  rw [h.keeps.succeeds.key_eq, show first.session.builder.key path source =
    Cache.key (first.session.builder.use path source).inputs from rfl, Cache.placeOf_outputPath] at hnode
  have huse : ∀ j ∈ before ++ ⟨path, .sourced source⟩ :: after, ∀ source', j.phase.source? = some source' →
      first.session.builder.use j.path source' ∈
        uses ++ Pool.sources ⟨s, before ++ ⟨path, .sourced source⟩ :: after⟩ first.session.builder := by
    intro j hj source' hsource
    exact mem_append_right _ (mem_filterMap.2 ⟨j, hj, by rw [hsource]; rfl⟩)
  have hself := huse ⟨path, .sourced source⟩ (mem_middle.2 (.inl rfl)) source rfl
  rcases h.outputs _ _ hnode with ⟨u, hu, hmakes⟩ | ⟨j, hj, source', hsource, hpast, hkey⟩
  · obtain ⟨out, hcomp, hcode⟩ := hmakes.compile_eq hready.isUtf8 (hfree u (mem_append_left _ hu) _ hself)
    exact ⟨out, .before hu hcomp, hcode⟩
  · exfalso
    have hinputs := Cache.keyText_injective
      (hfree _ (huse j hj source' hsource) _ hself (Cache.sha256_keyText_eq_of_key_eq hkey.symm))
    simp only [Use.inputs, cons.injEq] at hinputs
    rcases mem_middle.1 hj with rfl | hj
    · cases hpast
    · exact base_ne_of_nodup (hready.nodup_of_keeps h.keeps) hj hinputs.2.2.1

section

variable (h : Pool.IsSound directory uses limit first ⟨s, before ++ ⟨path, phase⟩ :: after⟩)
include h

theorem Pool.IsSound.job_self
    (hfree : CollisionFree (uses ++ Pool.sources ⟨s, before ++ ⟨path, phase⟩ :: after⟩ first.session.builder))
    (hjob : JobStep path s phase s' phase') :
    Job.IsSound uses limit first ⟨s', before ++ ⟨path, phase'⟩ :: after⟩ ⟨path, phase'⟩ := by
  have hsound := h.jobs ⟨path, phase⟩ (mem_middle.2 (.inl rfl))
  have hstep : PoolStep limit ⟨s, before ++ ⟨path, phase⟩ :: after⟩ ⟨s', before ++ ⟨path, phase'⟩ :: after⟩ := .job hjob
  cases hjob with
  | read hread => exact ⟨_, h.reached, .single hstep, hread⟩
  | unreadable | malformed | invalid => exact ⟨rfl, fun herror => by cases herror⟩
  | miss => exact Seen.mono hsound hstep
  | @hit source data b w hlookup =>
    obtain ⟨data?, b', hlookup', -, hdata⟩ :=
      Builder.lookup_cases h.keeps.succeeds.isWhole (s.builder.key path source) s.world
    cases hlookup'.symm.trans hlookup
    exact ⟨Seen.mono hsound hstep, h.isCode_of_hit hready hfree (hdata data rfl)⟩
  | compile _ hcomp | compileForCache _ hcomp =>
    exact ⟨Seen.mono hsound hstep, _, .now (h.keeps.succeeds.compiler_eq ▸ hcomp), rfl⟩
  | storePart | store | storeRefused | enter | emitPart => exact ⟨hsound.1.mono hstep, hsound.2⟩
  | @emit source code isCached r w hemit =>
    cases Builder.emission_of_emit hemit with
    | printed hout => exact absurd (h.keeps.succeeds.outputDirectory_eq ▸ hout) hready.out_ne_nil
    | unwritable => exact ⟨rfl, fun herror => by cases herror⟩
    | written hout houtput hwrite =>
      refine ⟨rfl, fun _ => ⟨source, rfl, hsound.1.mono hstep, hsound.2, ?_, read_of_write hwrite⟩⟩
      exact houtput.trans (h.keeps.succeeds.outputPath_eq path)

theorem Pool.IsSound.job_other (hjob : JobStep path s phase s' phase') (hj : j ∈ before ∨ j ∈ after) :
    j.IsSound uses limit first ⟨s', before ++ ⟨path, phase'⟩ :: after⟩ := by
  refine (h.jobs j (mem_middle.2 (.inr hj))).mono (.job hjob) fun content hpart hread => ?_
  rw [← h.keeps.succeeds.outputPath_eq] at hread ⊢
  refine (hjob.touches h.keeps.succeeds.isWhole).2.read_output ?_ ?_ ?_ hpart hread
  · rw [h.keeps.succeeds.outputDirectory_eq]
    exact hready.apart
  · exact base_ne_of_nodup (hready.nodup_of_keeps h.keeps) hj
  · exact hjob.isPart_base (h.jobs ⟨path, phase⟩ (mem_middle.2 (.inl rfl)))

end

theorem Pool.IsSound.outputs_step {key content : Text} (h : Pool.IsSound directory uses limit first pool)
    (hstep : PoolStep limit pool pool')
    (hnode : pool'.session.world.files.node? (placeOf directory ++ [key ++ ".dart"]) = some (.file content)) :
    (∃ u ∈ uses, u.Makes key content) ∨
      ∃ j ∈ pool'.jobs, ∃ source, j.phase.source? = some source ∧ j.phase.isPastStoring = true ∧
        key = Cache.key (first.session.builder.use j.path source).inputs := by
  by_cases hold : pool.session.world.files.node? (placeOf directory ++ [key ++ ".dart"]) = some (.file content)
  · refine (h.outputs key content hold).imp_right ?_
    rintro ⟨j, hj, source, hsource, hpast, hkey⟩
    obtain ⟨j', hj', hpath, hsource', hpast'⟩ := hstep.exists_job hj hsource
    exact ⟨j', hj', source, hsource', hpast' hpast, hpath ▸ hkey⟩
  · cases hstep with
    | tick | start => exact absurd hnode hold
    | @job s s' before after path phase phase' hjob =>
      have hpart := hjob.isPart_base (h.jobs ⟨path, phase⟩ (mem_middle.2 (.inl rfl)))
      obtain ⟨-, htouches⟩ := hjob.touches h.keeps.succeeds.isWhole
      change s'.world.files.node? _ = _ at hnode
      generalize s'.world.files = fs' at hnode htouches
      cases htouches with
      | nothing => exact absurd hnode hold
      | @cache source code content' fs' hwrite =>
        obtain ⟨-, hother⟩ := node?_of_write hwrite
        rw [Builder.key, Cache.placeOf_outputPath] at hother
        by_cases hplace : placeOf directory ++ [key ++ ".dart"] =
            placeOf directory ++ [s.builder.key path source ++ ".dart"]
        · refine .inr ⟨⟨path, phase'⟩, mem_middle.2 (.inl rfl), source, hjob.source?_eq rfl,
            hjob.isPastStoring_mono rfl, ?_⟩
          rw [h.keeps.succeeds.key_eq] at hplace
          exact append_cancel_right (singleton_inj.1 (append_cancel_left hplace))
        · exact absurd (hother _ hplace ▸ hnode) hold
      | output hout hwrite =>
        refine absurd ((node?_of_write hwrite).2 _ ?_ ▸ hnode) hold
        rw [h.keeps.succeeds.outputPath_eq, placeOf_outputPath_eq _ (hpart rfl)]
        exact fun he => hready.apart (append_inj_left' he rfl).symm

theorem Pool.IsSound.step (h : Pool.IsSound directory uses limit first pool)
    (hfree : CollisionFree (uses ++ pool.sources first.session.builder)) (hstep : PoolStep limit pool pool') :
    Pool.IsSound directory uses limit first pool' := by
  refine ⟨h.reached.tail hstep, h.keeps.step hstep, fun j hj => ?_, fun key content => h.outputs_step hready hstep⟩
  cases hstep with
  | tick now => exact (h.jobs j hj).mono (.tick now) fun _ _ hread => hread
  | start hbefore hlimit =>
    rcases mem_middle.1 hj with rfl | hj
    · trivial
    · exact (h.jobs j (mem_middle.2 (.inr hj))).mono (.start hbefore hlimit) fun _ _ hread => hread
  | job hjob =>
    rcases mem_middle.1 hj with rfl | hj
    · exact h.job_self hready hfree hjob
    · exact h.job_other hready hjob hj

end Steps

/-! ## Schedules -/

theorem CollisionFree.mono (h : CollisionFree uses') (hsub : uses ⊆ uses') : CollisionFree uses :=
  fun u hu v hv => h u (hsub hu) v (hsub hv)

theorem PoolStep.sources_subset (hstep : PoolStep limit pool pool') (b : Builder) :
    pool.sources b ⊆ pool'.sources b := by
  intro u hu
  obtain ⟨j, hj, hsource⟩ := mem_filterMap.1 hu
  obtain ⟨source, hread, rfl⟩ := Option.map_eq_some_iff.1 hsource
  obtain ⟨j', hj', hpath, hread', -⟩ := hstep.exists_job hj hread
  exact mem_filterMap.2 ⟨j', hj', by rw [hread', hpath]; rfl⟩

theorem Pool.isSound_start (hsound : Sound directory uses s) (limit : Nat) (files : List Text) :
    Pool.IsSound directory uses limit (.start s files) (.start s files) where
  reached := .refl
  keeps := Pool.keeps_start hsound.isWhole files
  jobs j hj := by
    obtain ⟨path, -, rfl⟩ := mem_map.1 hj
    trivial
  outputs key content hnode := .inl (hsound.holds.output key content hnode)

theorem Schedule.isSound (hsched : Schedule limit first pool) (hready : first.IsReady directory)
    (hfirst : Pool.IsSound directory uses limit first first)
    (hfree : CollisionFree (uses ++ pool.sources first.session.builder)) :
    Pool.IsSound directory uses limit first pool := by
  induction hsched with
  | refl => exact hfirst
  | @tail pool pool' _ hstep ih =>
    have hfree' : CollisionFree (uses ++ pool.sources first.session.builder) :=
      hfree.mono (append_subset.2 ⟨subset_append_left _ _,
        List.Subset.trans (hstep.sources_subset _) (subset_append_right _ _)⟩)
    exact (ih hfree').step hready hfree' hstep

/-! ## Results -/

theorem Job.IsSound.finished (h : j.IsSound uses limit first pool) (hphase : j.phase = .finished source? r) :
    r.path = j.path ∧ (r.error? = none → ∃ source, source? = some source ∧
      Seen limit first pool j.path source ∧ IsCode uses first.session.builder j.path source r.code ∧
        r.output = first.session.builder.outputPath j.path ∧
          pool.session.world.files.read r.output = .ok (generatedFile j.path r.code)) := by
  unfold Job.IsSound at h
  rwa [hphase] at h

theorem Pool.IsSound.paths_of_gives (h : Pool.IsSound directory uses limit first pool) (hgives : pool.Gives results) :
    results.map FileResult.path = pool.jobs.map Job.path := by
  have hjobs := h.jobs
  unfold Pool.Gives at hgives
  generalize pool.jobs = jobs at hjobs hgives
  induction hgives with
  | nil => rfl
  | cons hr _ ih =>
    obtain ⟨hj, hjobs⟩ := forall_mem_cons.1 hjobs
    obtain ⟨source?, hphase⟩ := hr
    rw [map_cons, map_cons, ih hjobs, (hj.finished hphase).1]

theorem Pool.Gives.exists_job (h : pool.Gives results) (hr : r ∈ results) :
    ∃ j ∈ pool.jobs, ∃ source?, j.phase = .finished source? r := by
  unfold Pool.Gives at h
  generalize pool.jobs = jobs at h ⊢
  induction h with
  | nil => cases hr
  | cons hfirst _ ih =>
    rcases mem_cons.1 hr with rfl | hr
    · exact ⟨_, mem_cons_self, hfirst⟩
    · obtain ⟨j, hj, hphase⟩ := ih hr
      exact ⟨j, mem_cons_of_mem _ hj, hphase⟩

/-- The code of a layout file is in its output file.  It is the code of a source that stood in the layout file while the
jobs were at work; if no job writes to the layout file, it is the source from before. -/
structure Emitted (directory : Text) (uses : List Use) (limit : Nat) (first pool : Pool)
    (r : FileResult) (source : Text) (out : Output) : Prop where
  seen : Seen limit first pool r.path source
  maySay : first.session.builder.MaySay uses r.path source (.ok out)
  code_eq : r.code = out.code
  read_output : pool.session.world.files.read r.output = .ok (generatedFile r.path out.code)
  read_source : (∀ name, placeOf r.path ≠ placeOf directory ++ [name]) →
    (∀ path ∈ first.jobs.map Job.path, placeOf r.path ≠ placeOf (first.session.builder.outputPath path)) →
      first.session.world.files.read r.path = .ok source

theorem Seen.read_first (h : Seen limit first pool path source) (hfirst : Pool.Keeps directory first first)
    (hcache : ∀ name, placeOf path ≠ placeOf directory ++ [name])
    (houtput : ∀ path' ∈ first.jobs.map Job.path,
      placeOf path ≠ placeOf (first.session.builder.outputPath path')) :
    first.session.world.files.read path = .ok source := by
  obtain ⟨earlier, hearlier, -, hread⟩ := h
  have hkeeps := Schedule.keeps hearlier hfirst
  exact hkeeps.directories_back.read (hkeeps.others _ hcache houtput).symm hread

theorem Pool.IsSound.emitted (h : Pool.IsSound directory uses limit first pool)
    (hfirst : Pool.Keeps directory first first) (hgives : pool.Gives results) (hr : r ∈ results)
    (herror : r.error? = none) : ∃ source out, Emitted directory uses limit first pool r source out := by
  obtain ⟨j, hj, source?, hphase⟩ := hgives.exists_job hr
  obtain ⟨hpath, hfinished⟩ := (h.jobs j hj).finished hphase
  obtain ⟨source, -, hseen, ⟨out, hcomp, hcode⟩, -, hread⟩ := hfinished herror
  rw [← hpath] at hseen hcomp hread
  exact ⟨source, out, hseen, hcomp, hcode, hcode ▸ hread, hseen.read_first hfirst⟩

/-- Let layout files with different base names be compiled into an output directory.  Compiling them in a row is one
schedule of their jobs.  In every schedule all jobs can be finished, unless one of them crashes; then the results are
those of the layout files, in order, and each layout without an error has its code in its output file. -/
theorem schedule_emits (hfresh : IsFresh directory s₀) (hrun : Run directory s₀ uses s)
    (hout : s.builder.outputDirectory ≠ []) (hbases : (files.map Path.base).Nodup) (limit : Nat) :
    (∀ results b w, outcome (s.builder.compileFiles files) s.world = (.ok (results, b), w) →
      ∃ pool, Schedule limit (.start s files) pool ∧ pool.Gives results ∧ pool.session = ⟨b, w⟩) ∧
    ∀ pool, Schedule limit (.start s files) pool →
      (∃ later, Schedule limit pool later ∧ ((∃ results, later.Gives results) ∨ later.Crashes)) ∧
      ∀ results, pool.Gives results → CollisionFree (uses ++ pool.sources s.builder) →
        results.map FileResult.path = files ∧
          ∀ r ∈ results, r.error? = none → ∃ source out,
            Emitted directory uses limit (.start s files) pool r source out := by
  have hsound := hrun.sound hfresh
  have hfirst : Pool.Keeps directory (.start s files) (.start s files) := Pool.keeps_start hsound.isWhole files
  have hpaths : (Pool.start s files).jobs.map Job.path = files := by
    rw [Pool.start, List.map_map]
    exact List.map_id files
  have hready : (Pool.start s files).IsReady directory := by
    refine ⟨hsound.isUtf8, hout, hsound.apart.resolve_left hout, ?_⟩
    rw [Pool.start, List.map_map]
    exact hbases
  refine ⟨fun results b w h => schedule_of_compileFiles hsound.isWhole h limit, fun pool hsched => ?_⟩
  have hkeeps := Schedule.keeps hsched hfirst
  refine ⟨hkeeps.exists_schedule limit, fun results hgives hfree => ?_⟩
  have hpool := Schedule.isSound hsched hready (Pool.isSound_start hsound limit files) hfree
  refine ⟨?_, fun r hr herror => hpool.emitted hfirst hgives hr herror⟩
  rw [hpool.paths_of_gives hgives, hkeeps.paths, hpaths]

/-! ### Two jobs side by side -/

def widgetLayout : Text := "<P><A/></P>"

def widgetCode : Text := "A()"

theorem compile_widgetLayout (path : Text) :
    ∃ out, bareConfig.compiler.compile path widgetLayout = .ok out ∧ out.code = widgetCode := by
  have hcode : (bareConfig.compiler.compile [] widgetLayout).toOption.map Output.code = some widgetCode := by
    decide +kernel
  obtain ⟨out, hout, hcode⟩ := Option.map_eq_some_iff.1 hcode
  have hagrees := bareConfig.compiler.compile_toOption_eq path [] widgetLayout
  cases hcomp : bareConfig.compiler.compile path widgetLayout with
  | error e =>
    rw [hcomp, hout] at hagrees
    cases hagrees
  | ok out' =>
    rw [hcomp, hout] at hagrees
    cases hagrees
    exact ⟨out, rfl, hcode⟩

def pairLayouts : List (List Text × FileNode) :=
  [(["a.xml"], .file widgetLayout), (["b.xml"], .file widgetLayout), (["out"], .directory)]

/-- The files of two layouts with the same widget, behind some that were written. -/
def pairFiles (written : List (List Text × FileNode)) : Files :=
  ⟨written.append ((["cache"], .directory) :: pairLayouts)⟩

def pairBuilder : Builder :=
  { config := bareConfig, outputDirectory := "out" }

/-- A session with an open cache, which is empty. -/
def pair : Session :=
  ⟨{ pairBuilder with cache? := some { directory := "cache", maxAge := 0 } }, { files := pairFiles [] }⟩

def pairResult (path : Text) : FileResult :=
  { path := path, output := pairBuilder.outputPath path, code := widgetCode }

def pairJobs : List Job :=
  ["a.xml", "b.xml"].map fun path => ⟨path, .finished (some widgetLayout) (pairResult path)⟩

def firstKey : Text := "20f2b656fc9c48a985008e23fb6d5bc470aed3eb9bb85ca17ce5721e5959c02a"

def secondKey : Text := "0cd152e1f8af59ebdccadda3e1620187e488a0af9bf0eab4e667ebedcce6fa34"

theorem key_first : pairBuilder.key "a.xml" widgetLayout = firstKey := by decide +kernel

theorem key_second : pairBuilder.key "b.xml" widgetLayout = secondKey := by decide +kernel

def cached (key : Text) : List Text × FileNode :=
  (["cache", key ++ ".dart"], .file widgetCode)

def written (path : Text) : List Text × FileNode :=
  (["out", path ++ ".dart"], .file (generatedFile path widgetCode))

theorem Builder.emit_of_write (hout : b.outputDirectory ≠ [])
    (hwrite : w.files.write (b.outputPath r.path) (generatedFile r.path r.code) = .ok fs) :
    outcome (b.emit r) w = (.ok { r with output := b.outputPath r.path }, { w with files := fs }) := by
  obtain ⟨r', w', hemit, hemission⟩ := b.emit_outcome r w
  rw [hemit]
  cases hemission with
  | printed hempty => exact absurd hempty hout
  | written _ houtput hwrite' =>
    subst houtput
    cases hwrite.symm.trans hwrite'
    rfl
  | unwritable _ houtput hwrite' =>
    subst houtput
    cases hwrite.symm.trans hwrite'

theorem schedule_pair : ∃ s, Schedule 2 (.start pair ["a.xml", "b.xml"]) ⟨s, pairJobs⟩ := by
  have hfirst : ∀ {s s' : Session} {path : Text} {phase phase' : Phase} {j : Job}, JobStep path s phase s' phase' →
      PoolStep 2 ⟨s, [⟨path, phase⟩, j]⟩ ⟨s', [⟨path, phase'⟩, j]⟩ := fun {_ _ _ _ _ j} h =>
    @PoolStep.job 2 _ _ [] [j] _ _ _ h
  have hsecond : ∀ {s s' : Session} {path : Text} {phase phase' : Phase} {j : Job}, JobStep path s phase s' phase' →
      PoolStep 2 ⟨s, [j, ⟨path, phase⟩]⟩ ⟨s', [j, ⟨path, phase'⟩]⟩ := fun {_ _ _ _ _ j} h =>
    @PoolStep.job 2 _ _ [j] [] _ _ _ h
  have hcompiled : ∀ path s c, s.builder.compiler = bareConfig.compiler → s.builder.cache? = some c →
      JobStep path s (.missed widgetLayout) s (.storing widgetLayout widgetCode) := by
    intro path s c hcompiler hcache
    obtain ⟨out, hout, hcode⟩ := compile_widgetLayout path
    rw [← hcode]
    exact .compileForCache hcache (hcompiler ▸ hout)
  have hstoreB : (pairFiles []).write (Cache.outputPath "cache" (pairBuilder.key "b.xml" widgetLayout)) widgetCode =
      .ok (pairFiles [cached secondKey]) := by
    rw [key_second]
    decide +kernel
  have hstoreA : (pairFiles [cached secondKey]).write
      (Cache.outputPath "cache" (pairBuilder.key "a.xml" widgetLayout)) widgetCode =
        .ok (pairFiles [cached firstKey, cached secondKey]) := by
    rw [key_first]
    decide +kernel
  have hwriteB : (pairFiles [cached firstKey, cached secondKey]).write (pairBuilder.outputPath "b.xml")
      (generatedFile "b.xml" widgetCode) = .ok (pairFiles [written "b.xml", cached firstKey, cached secondKey]) := by
    decide +kernel
  have hwriteA : (pairFiles [written "b.xml", cached firstKey, cached secondKey]).write (pairBuilder.outputPath "a.xml")
      (generatedFile "a.xml" widgetCode) =
        .ok (pairFiles [written "a.xml", written "b.xml", cached firstKey, cached secondKey]) := by
    decide +kernel
  apply Exists.intro
  refine .head (@PoolStep.start 2 pair [] [⟨"b.xml", .waiting⟩] "a.xml" (by simp) (.inr (by decide))) ?_
  refine .head (@PoolStep.start 2 pair [⟨"a.xml", .started⟩] [] "b.xml" (by simp) (.inr (by decide))) ?_
  refine .head (hsecond (.read rfl)) ?_
  refine .head (hfirst (.read rfl)) ?_
  refine .head (hsecond (.miss (Builder.lookup_of_get rfl rfl))) ?_
  refine .head (hfirst (.miss (Builder.lookup_of_get rfl rfl))) ?_
  refine .head (hsecond (hcompiled _ _ _ rfl rfl)) ?_
  refine .head (hfirst (hcompiled _ _ _ rfl rfl)) ?_
  refine .head (hsecond (.store rfl hstoreB)) ?_
  refine .head (hfirst (.store rfl hstoreA)) ?_
  refine .head (hsecond (.enter rfl rfl rfl)) ?_
  refine .head (hsecond (.emit (Builder.emit_of_write (by decide) hwriteB))) ?_
  refine .head (hfirst (.enter rfl rfl rfl)) ?_
  exact .single (hfirst (.emit (Builder.emit_of_write (by decide) hwriteA)))

theorem collisionFree_pair (s : Session) : CollisionFree (Pool.sources ⟨s, pairJobs⟩ pairBuilder) := by
  have hkeys : Cache.key (pairBuilder.use "a.xml" widgetLayout).inputs ≠
      Cache.key (pairBuilder.use "b.xml" widgetLayout).inputs := by
    change pairBuilder.key "a.xml" widgetLayout ≠ pairBuilder.key "b.xml" widgetLayout
    rw [key_first, key_second]
    decide
  have hsources : Pool.sources ⟨s, pairJobs⟩ pairBuilder =
      [pairBuilder.use "a.xml" widgetLayout, pairBuilder.use "b.xml" widgetLayout] := rfl
  rw [hsources]
  intro u hu v hv hdigest
  simp only [mem_cons, not_mem_nil, or_false] at hu hv
  rcases hu with rfl | rfl <;> rcases hv with rfl | rfl
  · rfl
  · exact absurd (congrArg Digest.hex hdigest) hkeys
  · exact absurd (congrArg Digest.hex hdigest.symm) hkeys
  · rfl

/-- Two jobs take turns, and both store their outputs in the cache. -/
theorem schedule_emits_pair :
    ∃ s, Schedule 2 (.start pair ["a.xml", "b.xml"]) ⟨s, pairJobs⟩ ∧
      Pool.Gives ⟨s, pairJobs⟩ [pairResult "a.xml", pairResult "b.xml"] ∧
        ∀ r ∈ [pairResult "a.xml", pairResult "b.xml"],
          ∃ source out, Emitted "cache" [] 2 (.start pair ["a.xml", "b.xml"]) ⟨s, pairJobs⟩ r source out := by
  obtain ⟨s, hsched⟩ := schedule_pair
  have hgives : Pool.Gives ⟨s, pairJobs⟩ [pairResult "a.xml", pairResult "b.xml"] :=
    .cons ⟨some widgetLayout, rfl⟩ (.cons ⟨some widgetLayout, rfl⟩ .nil)
  have hfresh : IsFresh "cache" ⟨pairBuilder, { files := ⟨pairLayouts⟩ }⟩ :=
    ⟨isUtf8_bareConfig, .inr (by decide), rfl, fun _ _ hnode => by cases hnode⟩
  have hrun : Run "cache" ⟨pairBuilder, { files := ⟨pairLayouts⟩ }⟩ [] pair := .next .start (.reopen 0 rfl)
  have hemits := (schedule_emits hfresh hrun (by decide) (by decide) 2).2 _ hsched
  refine ⟨s, hsched, hgives, fun r hr => (hemits.2 _ hgives (collisionFree_pair s)).2 r hr ?_⟩
  rcases List.mem_cons.1 hr with rfl | hr
  · rfl
  · rw [List.mem_singleton.1 hr]
    rfl

/-! ### One base name -/

/-- Two layout files that differ in their directories, and in what they hold. -/
def namesakes : Session :=
  ⟨{ config := bareConfig, outputDirectory := "out" },
    { files := ⟨[(["a"], .directory), (["a", "home.xml"], .file widgetLayout), (["b"], .directory),
        (["b", "home.xml"], .file "<P><A :if=\"c\"/></P>"), (["out"], .directory)]⟩ }⟩

/-- Both layout files are compiled without an error, but in the output file of the first there is more than its code. -/
def losesOutput : Bool :=
  match outcome (namesakes.builder.compileFiles ["a/home.xml", "b/home.xml"]) namesakes.world with
  | (.ok ([r, r'], _), w) =>
    r.path = "a/home.xml" && r.error?.isNone && r'.error?.isNone &&
      match w.files.read r.output with
      | .ok t => (generatedFile "a/home.xml" widgetCode).length < t.length
      | .error _ => false
  | _ => false

/-- The output of a layout file is lost to another one with its base name. -/
theorem exists_output_lost :
    ∃ files results b w, files.Nodup ∧ namesakes.builder.outputDirectory ≠ [] ∧
      outcome (namesakes.builder.compileFiles files) namesakes.world = (.ok (results, b), w) ∧
        ∃ r ∈ results, r.error? = none ∧ ∃ source out, namesakes.world.files.read r.path = .ok source ∧
          namesakes.builder.compiler.compile r.path source = .ok out ∧
            w.files.read r.output ≠ .ok (generatedFile r.path out.code) := by
  have hloses : losesOutput = true := by decide +kernel
  unfold losesOutput at hloses
  split at hloses
  · rename_i r r' b w houtcome
    simp only [Bool.and_eq_true, decide_eq_true_eq, Option.isNone_iff_eq_none] at hloses
    obtain ⟨⟨⟨hpath, herror⟩, -⟩, hread⟩ := hloses
    obtain ⟨out, hcompile, hcode⟩ := compile_widgetLayout "a/home.xml"
    refine ⟨_, _, b, w, by decide, by decide, houtcome, r, List.mem_cons_self, herror, widgetLayout, out, ?_, ?_, ?_⟩
    · rw [hpath]
      rfl
    · rw [hpath]
      exact hcompile
    · intro heq
      rw [hpath, hcode] at heq
      rw [heq] at hread
      exact absurd (of_decide_eq_true hread) (Nat.lt_irrefl _)
  · cases hloses

end FlutterLayout.Command
