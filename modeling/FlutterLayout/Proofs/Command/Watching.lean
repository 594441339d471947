import FlutterLayout.Proofs.Command.Outcomes

/-!
# Watching — which layouts a rebuild compiles

A rebuild is told which paths changed.  `Watcher.settledConfig` is the configuration it should work with: the
one that was just loaded if the configuration file changed and can be loaded, and the one before it otherwise.
Every layout that changed is compiled under it and reported (`rebuild_compiles`), if none of them crashes, with one
exception: where the configuration file changed and cannot be loaded, nothing is compiled, whatever else changed
(`exists_change_lost`).
-/

namespace FlutterLayout.Command

open List

variable {world world' world₁ : World} {r : FileResult} {results : List FileResult}

/-! ## Reports -/

structure World.Extends (world world' : World) : Prop where
  log : world.log <+: world'.log
  output : world.output <+: world'.output

namespace World.Extends

theorem refl (world : World) : world.Extends world :=
  ⟨prefix_refl _, prefix_refl _⟩

theorem trans (h : world.Extends world₁) (h' : world₁.Extends world') : world.Extends world' :=
  ⟨h.log.trans h'.log, h.output.trans h'.output⟩

theorem of_log (lines : List LogLine) : world.Extends { world with log := world.log ++ lines } :=
  ⟨prefix_append _ _, prefix_refl _⟩

end World.Extends

/-- A world shows the outcome of a layout file: its error, the file that was written, or the code. -/
def FileResult.IsShown (wroteFiles : Bool) (r : FileResult) (world : World) : Prop :=
  (∀ e, r.error? = some e → .message (Report.errorLine e.message) ∈ world.log) ∧
    (r.error? = none → wroteFiles = true → ∃ lead tail : Text,
      .message (lead ++ r.path ++ " → " ++ r.output ++ tail) ∈ world.log) ∧
    (r.error? = none → wroteFiles = false → ("// " ++ r.path ++ "\n" ++ r.code ++ "\n" : Text) <:+: world.output)

theorem FileResult.IsShown.mono (h : r.IsShown wroteFiles world)
    (hext : world.Extends world') : r.IsShown wroteFiles world' := by
  refine ⟨fun e he => hext.log.subset (h.1 e he), fun he hwrote => ?_, fun he hwrote => ?_⟩
  · obtain ⟨lead, tail, hmem⟩ := h.2.1 he hwrote
    exact ⟨lead, tail, hext.log.subset hmem⟩
  · exact (h.2.2 he hwrote).trans hext.output.isInfix

theorem reportResult_shows (wroteFiles : Bool) (r : FileResult) (world : World) :
    ∃ world', outcome (reportResult wroteFiles r) world = (.ok (), world') ∧ world.Extends world' ∧
      r.IsShown wroteFiles world' := by
  unfold reportResult
  cases he : r.error? with
  | some e =>
    refine ⟨_, rfl, .of_log _, ?_, by simp [he], by simp [he]⟩
    intro e' he'
    cases he.symm.trans he'
    simp
  | none =>
    cases wroteFiles with
    | false => exact ⟨_, rfl, ⟨prefix_refl _, prefix_append _ _⟩, by simp [he], by simp,
        fun _ _ => suffix_append _ _ |>.isInfix⟩
    | true =>
      cases hcached : r.isCached with
      | true =>
        refine ⟨_, rfl, .of_log _, by simp [he], fun _ _ => ⟨"📦 ", " (cached)", by simp⟩, by simp⟩
      | false =>
        refine ⟨_, rfl, .of_log _, by simp [he], fun _ _ => ⟨"📝 ", [], by simp⟩, by simp⟩

theorem forM_shows (wroteFiles : Bool) (results : List FileResult) (world : World) :
    ∃ world', outcome (results.forM (reportResult wroteFiles)) world = (.ok (), world') ∧ world.Extends world' ∧
      ∀ r ∈ results, r.IsShown wroteFiles world' := by
  induction results generalizing world with
  | nil => exact ⟨world, rfl, .refl world, by simp⟩
  | cons r results ih =>
    obtain ⟨world₁, hfirst, hext, hshown⟩ := reportResult_shows wroteFiles r world
    obtain ⟨world2, hrest, hextends1, hall⟩ := ih world₁
    refine ⟨world2, (outcome_bind_of_ok _ hfirst).trans hrest, hext.trans hextends1, ?_⟩
    exact forall_mem_cons.2 ⟨hshown.mono hextends1, hall⟩

theorem report_shows (wroteFiles : Bool) (results : List FileResult) (world : World) :
    ∃ failed world', outcome (report wroteFiles results) world = (.ok failed, world') ∧
      ∀ r ∈ results, r.IsShown wroteFiles world' := by
  obtain ⟨world₁, hrun, -, hshown⟩ := forM_shows wroteFiles results world
  refine ⟨_, _, (outcome_bind_of_ok _ hrun).trans rfl, ?_⟩
  exact fun r hr => (hshown r hr).mono (.of_log _)

theorem Builder.saveCache_extends (b : Builder) (world : World) :
    ∃ world', outcome b.saveCache world = (.ok (), world') ∧ world.Extends world' := by
  unfold Builder.saveCache
  cases b.cache? with
  | none => exact ⟨world, rfl, .refl world⟩
  | some c =>
    dsimp only
    rw [outcome_bind_of_ok _ (outcome_get world)]
    cases c.save world.files with
    | ok fs => exact ⟨_, rfl, prefix_refl _, prefix_refl _⟩
    | error e => exact ⟨_, rfl, .of_log _⟩

namespace Watcher

variable {w w' : Watcher} {paths : List Text}

/-- Files that are built are compiled one after the other, and all of them are reported, unless one crashes. -/
theorem build_compiles (w : Watcher) (files : List Text) (world : World) :
    (∃ results b world₁ world', outcome (w.build files) world = (.ok { w with builder := b }, world') ∧
      Compiles w.builder.config w.builder world results b world₁ ∧ results.map FileResult.path = files ∧
        ∀ r ∈ results, r.IsShown (!w.builder.outputDirectory.isEmpty) world') ∨
    ∃ e world', outcome (w.build files) world = (.error e, world') ∧
      Crashes w.builder.config w.builder world files e world' := by
  unfold build
  rcases w.builder.compileFiles_compiles files world with
    ⟨results, b, world₁, hfiles, hcomps, hpaths⟩ | ⟨e, world', hfiles, hcrashes⟩
  · obtain ⟨failed, world2, hreport, hshown⟩ := report_shows (!b.outputDirectory.isEmpty) results world₁
    obtain ⟨world3, hsave, hext⟩ := b.saveCache_extends world2
    refine .inl ⟨results, b, world₁, world3, ?_, hcomps, hpaths, ?_⟩
    · rw [outcome_bind_of_ok _ hfiles, outcome_bind_of_ok _ hreport]
      exact outcome_bind_of_ok _ hsave
    · rw [← hcomps.outputDirectory]
      exact fun r hr => (hshown r hr).mono hext
  · exact .inr ⟨e, world', outcome_bind_of_error _ hfiles, hcrashes⟩

def configChanged (w : Watcher) (paths : List Text) : Bool :=
  (paths.map Path.clean).contains (Path.clean w.configPath)

/-- The configuration changed layouts are compiled under: the one that is there now if it changed and can be
loaded, or else the one before. -/
def settledConfig (w : Watcher) (fs : Files) (paths : List Text) : Config :=
  if w.configChanged paths then (loadConfig fs w.configPath).toOption.getD w.builder.config
  else w.builder.config

def IsRefused (w : Watcher) (fs : Files) (paths : List Text) : Prop :=
  w.configChanged paths = true ∧ ∃ e, loadConfig fs w.configPath = .error e

/-- Every layout that changed was compiled under a configuration, and its outcome is shown. -/
structure Recompiled (w : Watcher) (c : Config) (paths : List Text) (world : World) (w' : Watcher)
    (world' : World) (results : List FileResult) : Prop where
  /-- The layouts were compiled in turn, beginning with the files and the cache there were. -/
  compiled : ∃ heading world₁, Compiles c { w.builder with config := c }
    { world with log := world.log ++ [.message heading] } results w'.builder world₁
  covers : ∀ f ∈ w.files, Path.clean f ∈ paths.map Path.clean → ∃ r ∈ results, r.path = f
  shown : ∀ r ∈ results, r.IsShown (!w.builder.outputDirectory.isEmpty) world'

/-- The compilation of a watched layout crashed, after others were compiled under the same configuration. -/
def Crashed (w : Watcher) (c : Config) (world : World) (e : Crash) (world' : World) : Prop :=
  ∃ heading files, files ⊆ w.files ∧
    Crashes c { w.builder with config := c } { world with log := world.log ++ [.message heading] } files e world'

/-- A rebuild compiles every layout that changed, under the configuration it should, or crashes in one.  It compiles
nothing when the configuration changed and cannot be loaded. -/
theorem rebuild_compiles (w : Watcher) (paths : List Text) (world : World) :
    (¬ w.IsRefused world.files paths →
      (∃ w' world' results, outcome (w.rebuild paths) world = (.ok w', world') ∧
        w.Recompiled (w.settledConfig world.files paths) paths world w' world' results) ∨
      ∃ e world', outcome (w.rebuild paths) world = (.error e, world') ∧
        w.Crashed (w.settledConfig world.files paths) world e world') ∧
    (w.IsRefused world.files paths →
      ∃ warning, outcome (w.rebuild paths) world = (.ok w, { world with log := world.log ++ [.message warning] })) := by
  unfold rebuild
  dsimp only
  split
  · rename_i hchanged
    have hconfig : w.configChanged paths = true := hchanged
    rw [outcome_bind_of_ok _ (outcome_get world)]
    cases hload : loadConfig world.files w.configPath with
    | error e => exact ⟨fun hnot => absurd ⟨hchanged, e, hload⟩ hnot, fun _ => ⟨_, rfl⟩⟩
    | ok c =>
      have hsettled : w.settledConfig world.files paths = c := by
        simp [settledConfig, hconfig, hload, Except.toOption]
      refine ⟨fun _ => ?_, fun hrefused => ?_⟩
      · rw [hsettled]
        dsimp only
        rw [outcome_bind_of_ok _ (outcome_logLine _ world)]
        rcases build_compiles { w with builder := { w.builder with config := c } } w.files _ with
          ⟨results, b, world₁, world', hbuild, hcompiles, hpaths, hshown⟩ | ⟨e, world', hbuild, hcrashes⟩
        · exact .inl ⟨_, world', results, hbuild, ⟨_, world₁, hcompiles⟩, fun f hf _ => List.mem_map.1 (hpaths ▸ hf),
            hshown⟩
        · exact .inr ⟨e, world', hbuild, _, w.files, List.Subset.refl _, hcrashes⟩
      · obtain ⟨_, e, he⟩ := hrefused
        cases hload.symm.trans he
  · rename_i hchanged
    have hconfig : ¬ w.configChanged paths = true := hchanged
    have hsettled : w.settledConfig world.files paths = w.builder.config := if_neg hconfig
    refine ⟨fun _ => ?_, fun hrefused => absurd hrefused.1 hchanged⟩
    rw [hsettled, outcome_bind_of_ok _ (outcome_logLine _ world)]
    rcases build_compiles w (w.files.filter fun f => (paths.map Path.clean).contains (Path.clean f)) _ with
      ⟨results, b, world₁, world', hbuild, hcompiles, hpaths, hshown⟩ | ⟨e, world', hbuild, hcrashes⟩
    · refine .inl ⟨_, world', results, hbuild, ⟨_, world₁, hcompiles⟩, ?_, hshown⟩
      intro f hf hmem
      exact List.mem_map.1 (hpaths ▸ List.mem_filter.2 ⟨hf, List.contains_iff_mem.2 hmem⟩)
    · exact .inr ⟨e, world', hbuild, _, _, fun _ hf => (List.mem_filter.1 hf).1, hcrashes⟩

def oneLayout : Watcher := ⟨"flutterxml.yaml", ["./a.xml"], { config := { fragment := true } }⟩

def silentWorld : World := { files := ⟨[(["a.xml"], .file "<P><A/></P>"), (["flutterxml.yaml"], .file [])]⟩ }

/-- The layout and the configuration changed together: the layout is compiled under the new one. -/
theorem rebuild_compiles_silentWorld : ∃ w' world' results,
    outcome (oneLayout.rebuild ["a.xml", "flutterxml.yaml"]) silentWorld = (.ok w', world') ∧
      ¬ oneLayout.IsRefused silentWorld.files ["a.xml", "flutterxml.yaml"] ∧
        oneLayout.Recompiled {} ["a.xml", "flutterxml.yaml"] silentWorld w' world' results ∧
          world'.output = "// ./a.xml\nA()\n" := by
  have hrun : (outcome (oneLayout.rebuild ["a.xml", "flutterxml.yaml"]) silentWorld).1.toOption.isSome = true ∧
      (outcome (oneLayout.rebuild ["a.xml", "flutterxml.yaml"]) silentWorld).2.output = "// ./a.xml\nA()\n" := by
    decide +kernel
  have hload : (loadConfig silentWorld.files oneLayout.configPath).toOption = some {} := by decide +kernel
  have hrefused : ¬ oneLayout.IsRefused silentWorld.files ["a.xml", "flutterxml.yaml"] := by
    rintro ⟨-, e, he⟩
    rw [he] at hload
    cases hload
  have hsettled : oneLayout.settledConfig silentWorld.files ["a.xml", "flutterxml.yaml"] = {} := by
    have hchanged : oneLayout.configChanged ["a.xml", "flutterxml.yaml"] = true := by decide +kernel
    rw [settledConfig, if_pos hchanged, hload]
    rfl
  rcases (rebuild_compiles oneLayout ["a.xml", "flutterxml.yaml"] silentWorld).1 hrefused with
    ⟨w', world', results, hcases, hrecompiled⟩ | ⟨e, world', hcases, -⟩
  · rw [hsettled] at hrecompiled
    rw [hcases] at hrun
    exact ⟨w', world', results, hcases, hrefused, hrecompiled, hrun.2⟩
  · rw [hcases] at hrun
    cases hrun.1

/-- The layout changed, and so did the configuration, which lacks the attribute of a wrapper. -/
def brokenWorld : World :=
  { files := ⟨[(["a.xml"], .file "<P><Text>b</Text></P>"), (["flutterxml.yaml"], .file "wrappers:\n  - widget: A\n")]⟩ }

def brokenWarning : Text :=
  "⚠️  failed to load flutterxml.yaml: wrappers[0]: attribute and widget are required (keeping the previous config)"

theorem errorLine_ne_brokenWarning (message : Text) : Report.errorLine message ≠ brokenWarning := by
  intro h
  have htake := congrArg (take 2) h
  rw [Report.errorLine, take_append_of_le_length (by decide)] at htake
  exact absurd htake (by decide +kernel)

/-- A layout that changed together with a configuration that cannot be loaded is not compiled. -/
theorem exists_change_lost : ∃ w' world',
    outcome (oneLayout.rebuild ["flutterxml.yaml", "a.xml"]) brokenWorld = (.ok w', world') ∧
      ¬ ∃ results, oneLayout.Recompiled (oneLayout.settledConfig brokenWorld.files ["flutterxml.yaml", "a.xml"])
        ["flutterxml.yaml", "a.xml"] brokenWorld w' world' results := by
  obtain ⟨hlog, houtput, hok⟩ :
      (outcome (oneLayout.rebuild ["flutterxml.yaml", "a.xml"]) brokenWorld).2.log = [.message brokenWarning] ∧
        (outcome (oneLayout.rebuild ["flutterxml.yaml", "a.xml"]) brokenWorld).2.output = [] ∧
          (outcome (oneLayout.rebuild ["flutterxml.yaml", "a.xml"]) brokenWorld).1.toOption.isSome = true := by
    decide +kernel
  rcases hcases : outcome (oneLayout.rebuild ["flutterxml.yaml", "a.xml"]) brokenWorld with ⟨result, world'⟩
  rw [hcases] at hlog houtput hok
  cases result with
  | error e => cases hok
  | ok w' =>
    refine ⟨w', world', rfl, ?_⟩
    rintro ⟨results, h⟩
    have hchanged : Path.clean "./a.xml" ∈ List.map Path.clean ["flutterxml.yaml", "a.xml"] := by decide +kernel
    obtain ⟨r, hr, -⟩ := h.covers "./a.xml" List.mem_cons_self hchanged
    -- Neither the log nor the output has room for a report on the layout.
    obtain ⟨hfailed, -, hprinted⟩ := h.shown r hr
    dsimp only at hlog houtput
    rw [hlog] at hfailed
    rw [houtput] at hprinted
    cases he : r.error? with
    | some e =>
      have hline := hfailed e he
      rw [List.mem_singleton, LogLine.message.injEq] at hline
      exact errorLine_ne_brokenWarning _ hline
    | none =>
      have hlead : Text.ofString "// " = [] := by
        have hempty := List.infix_nil.1 (hprinted he rfl)
        simp only [List.append_eq_nil_iff] at hempty
        exact hempty.1.1.1.1
      exact absurd hlead (by decide)

end Watcher

end FlutterLayout.Command
