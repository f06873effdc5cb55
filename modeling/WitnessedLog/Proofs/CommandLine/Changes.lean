import WitnessedLog.CommandLine.Commands
import WitnessedLog.Proofs.Files.Scripts

/-!
# What the command line does to files

Every command reads first and writes last.  The commands that verify and tell the version write
nothing; the command that compiles a policy writes the compiled policy when it has it, and nothing
else; and the command that makes a configuration file makes the directories for it before it writes
it.  A run that fails has therefore changed no file.
-/

namespace WitnessedLog

namespace CommandScript

variable {α β : Type} {disk disk' : Disk}

/-! ## Running commands -/

/-- A command goes on only after a success. -/
theorem run_bind_eq (command : CommandScript α) (next : α → CommandScript β) :
    (command >>= next).run = command.run.bind fun
      | .ok a => (next a).run
      | .error e => .done (.error e) := by
  refine congrArg (Script.bind command.run) (funext fun answer => ?_)
  cases answer with
  | error e => rfl
  | ok a => rfl

theorem run_bind (disk : Disk) (command : CommandScript α) (next : α → CommandScript β) :
    (command >>= next).run.run disk =
      match command.run.run disk with
      | (.ok a, disk) => (next a).run.run disk
      | (.error e, disk) => (.error e, disk) := by
  rw [run_bind_eq, Script.run_bind]
  rcases command.run.run disk with ⟨e | a, disk⟩
  · rfl
  · rfl

theorem run_bind_ok
    {command : CommandScript α} {a : α} (h : command.run.run disk = (.ok a, disk'))
    (next : α → CommandScript β) :
    (command >>= next).run.run disk = (next a).run.run disk' := by
  rw [run_bind, h]

theorem run_map (disk : Disk) (f : α → β) (command : CommandScript α) :
    (f <$> command).run.run disk =
      ((command.run.run disk).1.map f, (command.run.run disk).2) := by
  have hmap : (f <$> command).run = command.run.bind fun answer => .done (answer.map f) := by
    refine congrArg (Script.bind command.run) (funext fun answer => ?_)
    cases answer with
    | error e => rfl
    | ok a => rfl
  rw [hmap, Script.run_bind]
  rfl

theorem run_require_ok
    {ε : Type} (complaint : ε → CommandError) (a : α) (disk : Disk) :
    (require complaint (.ok a)).run.run disk = (.ok a, disk) :=
  rfl

theorem run_require_error
    {ε : Type} (complaint : ε → CommandError) (e : ε) (disk : Disk) :
    (require complaint (.error e) : CommandScript α).run.run disk = (.error (complaint e), disk) :=
  rfl

theorem run_pathExists (path : String) (disk : Disk) :
    (pathExists path).run.run disk =
      (.ok (disk.refusal?.isNone && disk.tree.pathExists disk.working path), disk.advance) :=
  rfl

/-- A text that was read stood in the file. -/
theorem run_tryReadText (path : String) (disk : Disk) :
    ∃ answer, (tryReadText path).run.run disk = (.ok answer, disk.advance) ∧
      ∀ text, answer = .ok text →
        ∃ content, disk.tree.read disk.working path = .ok content ∧
          Utf8.decode? content = some text := by
  have hread : (tryRead path).run.run disk =
      (.ok (disk.ask (disk.tree.read disk.working path)), disk.advance) := rfl
  rw [tryReadText, run_bind, hread]
  cases hasked : disk.ask (disk.tree.read disk.working path) with
  | error cause => exact ⟨.error cause.message, rfl, by simp⟩
  | ok content =>
      cases htext : Utf8.decode? content with
      | none => exact ⟨.error notText, by simp [htext]; rfl, by simp⟩
      | some text =>
          refine ⟨.ok text, by simp [htext]; rfl, ?_⟩
          rintro _ ⟨⟩
          exact ⟨content, (Disk.ask_eq_ok_iff.mp hasked).2, htext⟩

/-! ## Commands that only read -/

/-- However a command runs, the files are the same after it as before. -/
def ReadsOnly (command : CommandScript α) : Prop :=
  command.run.Always Eq

theorem ReadsOnly.bind
    {command : CommandScript α} {next : α → CommandScript β}
    (h : command.ReadsOnly) (hnext : ∀ a, (next a).ReadsOnly) : (command >>= next).ReadsOnly := by
  rw [ReadsOnly, run_bind_eq]
  refine Script.Always.bind h fun answer => ?_
  cases answer with
  | error e => exact Script.always_done _
  | ok a => exact hnext a

theorem ReadsOnly.map
    {command : CommandScript α} (h : command.ReadsOnly) (f : α → β) :
    (f <$> command).ReadsOnly := by
  intro disk
  rw [run_map]
  exact h disk

theorem readsOnly_pure (a : α) : (pure a : CommandScript α).ReadsOnly :=
  Script.always_done _

theorem readsOnly_throw (e : CommandError) : (throw e : CommandScript α).ReadsOnly :=
  Script.always_done _

theorem readsOnly_require
    {ε : Type} (complaint : ε → CommandError) (value : Except ε α) :
    (require complaint value).ReadsOnly :=
  Script.always_done _

theorem readsOnly_tryRead (path : String) : (tryRead path).ReadsOnly :=
  Script.always_readFile fun _ => Script.always_done _

theorem readsOnly_pathExists (path : String) : (pathExists path).ReadsOnly :=
  Script.always_pathExists fun _ => Script.always_done _

theorem readsOnly_readFile (what path : String) : (readFile what path).ReadsOnly :=
  (readsOnly_tryRead path).bind fun _ => readsOnly_require _ _

theorem readsOnly_tryReadText (path : String) : (tryReadText path).ReadsOnly := by
  refine (readsOnly_tryRead path).bind fun content => ?_
  split
  · exact readsOnly_pure _
  · split
    · exact readsOnly_pure _
    · exact readsOnly_pure _

theorem readsOnly_readSettings (path : String) : (readSettings path).ReadsOnly := by
  refine (readsOnly_tryReadText path).bind fun text => ?_
  refine (readsOnly_require _ text).bind fun text => ?_
  split
  · exact readsOnly_pure _
  · exact readsOnly_throw _

theorem readsOnly_settings (surroundings : Surroundings) (config : Option String) :
    (settings surroundings config).ReadsOnly := by
  cases config with
  | some path => exact readsOnly_readSettings path
  | none =>
      refine (readsOnly_pathExists surroundings.configPath).bind fun found => ?_
      split
      · exact readsOnly_readSettings _
      · exact readsOnly_pure _

theorem readsOnly_loadPolicy (options : VerifyOptions) (settings : Settings) :
    (loadPolicy options settings).ReadsOnly := by
  have hread : ∀ (path : String) (compiled : Bool), ReadsOnly (do
      let content ← readFile "policy" path
      if compiled then
        let policy ← require (fun e => .verify (.compiledPolicy e)) (CompiledPolicy.ofBytes content)
        pure (TrustPolicy.compiled policy)
      else
        let text := String.ofList (Utf8.decodeLossy content)
        let policy ← require (fun e => .verify (.policy e)) (Policy.ofText text)
        pure (TrustPolicy.tree policy)) := by
    intro path compiled
    refine (readsOnly_readFile "policy" path).bind fun content => ?_
    split
    · exact (readsOnly_require _ _).bind fun _ => readsOnly_pure _
    · exact (readsOnly_require _ _).bind fun _ => readsOnly_pure _
  rw [loadPolicy]
  split
  · exact (readsOnly_pure _).bind fun named => hread named.1 named.2
  · exact (readsOnly_pure _).bind fun named => hread named.1 named.2
  · exact (readsOnly_throw _).bind fun named => hread named.1 named.2

theorem readsOnly_verify (options : VerifyOptions) (settings : Settings) :
    (verify options settings).ReadsOnly := by
  refine (readsOnly_loadPolicy options settings).bind fun policy => ?_
  refine (readsOnly_require _ _).bind fun submitter => ?_
  refine (readsOnly_readFile _ _).bind fun proofText => ?_
  refine (readsOnly_require _ _).bind fun proof => ?_
  refine (readsOnly_readFile _ _).bind fun message => ?_
  have hshow : ∀ outcome : Except VerifyError Unit,
      (do require .verify outcome; pure "✅ verified\n").ReadsOnly :=
    fun outcome => (readsOnly_require _ outcome).bind fun _ => readsOnly_pure _
  extract_lets verifier finish
  split
  · exact (readsOnly_require _ _).bind fun _ => hshow _
  · exact hshow _

/-! ## Commands that write -/

/-- A command that ends with writing a file either has written it and succeeds, or changes nothing
and fails. -/
theorem run_writing_cases
    (path : String) (content : Bytes) (complaint : SystemError → CommandError) (value : α)
    (disk : Disk) :
    (∃ tree, disk.tree.writeFile disk.working path content = .ok tree ∧
      (do require complaint (← tryWrite path content); pure value).run.run disk =
        (.ok value, { disk.advance with tree })) ∨
      ∃ e, (do require complaint (← tryWrite path content); pure value).run.run disk =
        (.error (complaint e), disk.advance) := by
  have hwrite : (tryWrite path content).run.run disk =
      (.ok (disk.attempt (disk.tree.writeFile disk.working path content)).1,
        (disk.attempt (disk.tree.writeFile disk.working path content)).2) := rfl
  rw [run_bind, hwrite]
  rcases disk.attempt_cases (disk.tree.writeFile disk.working path content) with
    ⟨tree, hwritten, hattempt⟩ | ⟨e, hattempt⟩
  · rw [hattempt]
    exact .inl ⟨tree, hwritten, rfl⟩
  · rw [hattempt]
    exact .inr ⟨e, rfl⟩

/-- What is written of a compiled policy. -/
def written (options : CompileOptions) (compiled : Bytes) : Bytes :=
  if options.hex then Statement.bytes (Hex.encode compiled ++ "\n") else compiled

/-- The policy that a command compiles was there and could be compiled.  What is written of it is
found by the path of the output, and nothing else has changed. -/
def CompiledInto (options : CompileOptions) (working : Location) (before after : FileTree) : Prop :=
  ∃ content text compiled path location,
    before.read working options.policy = .ok content ∧ Utf8.decode? content = some text ∧
    Policy.compileText (String.ofList text) = .ok compiled ∧ options.output = some path ∧
    after.locate working path = .ok location ∧
    before.HoldsFile location (written options compiled) after

/-- Compiling a policy changes nothing if it fails or is not asked to write, and otherwise it has
written the compiled policy. -/
theorem run_compile_cases (options : CompileOptions) (disk : Disk) :
    ((∃ e, ((compile options).run.run disk).1 = .error e) ∨ options.output = none) ∧
        ((compile options).run.run disk).2.tree = disk.tree ∨
      ((compile options).run.run disk).1 = .ok [] ∧
        CompiledInto options disk.working disk.tree ((compile options).run.run disk).2.tree := by
  obtain ⟨answer, hread, htext⟩ := run_tryReadText options.policy disk
  rw [compile, run_bind_ok hread]
  cases answer with
  | error cause =>
      rw [run_bind, run_require_error]
      exact .inl ⟨.inl ⟨_, rfl⟩, rfl⟩
  | ok text =>
      obtain ⟨content, hcontent, htext⟩ := htext text rfl
      rw [run_bind_ok (run_require_ok _ text _)]
      cases hcompiled : Policy.compileText (String.ofList text) with
      | error cause =>
          rw [run_bind, run_require_error]
          exact .inl ⟨.inl ⟨_, rfl⟩, rfl⟩
      | ok compiled =>
          rw [run_bind_ok (run_require_ok _ compiled _)]
          cases houtput : options.output with
          | none => exact .inl ⟨.inr rfl, rfl⟩
          | some path =>
              dsimp only
              rw [← written]
              rcases run_writing_cases path (written options compiled) (.unwritable path)
                ([] : Bytes) disk.advance with ⟨tree, hwritten, hrun⟩ | ⟨e, hrun⟩
              · rw [hrun]
                obtain ⟨location, hlocation, hholds⟩ := FileTree.locate_of_writeFile hwritten
                exact .inr ⟨rfl, content, text, compiled, path, location, hcontent, htext,
                  hcompiled, houtput, hlocation, hholds⟩
              · rw [hrun]
                exact .inl ⟨.inl ⟨_, rfl⟩, rfl⟩

/-- The settings are only read before a policy is compiled. -/
theorem run_ofCommand_compile_cases
    (surroundings : Surroundings) (config : Option String) (options : CompileOptions)
    (disk : Disk) :
    let run := (ofCommand surroundings config (.compile options)).run.run disk
    ((∃ e, run.1 = .error e) ∨ options.output = none) ∧ run.2.tree = disk.tree ∨
      run.1 = .ok [] ∧ CompiledInto options disk.working disk.tree run.2.tree := by
  have htree := readsOnly_settings surroundings config disk
  have hworking := Script.run_working disk (settings surroundings config).run
  rw [ofCommand, run_bind]
  rcases hsettings : (settings surroundings config).run.run disk with ⟨e | settings, disk'⟩
  · rw [hsettings] at htree
    exact .inl ⟨.inl ⟨e, rfl⟩, htree.symm⟩
  · rw [hsettings] at htree hworking
    have hcases := run_compile_cases options disk'
    rw [← htree, hworking] at hcases
    exact hcases

/-- Making directories leaves everything that is there as it is. -/
theorem always_makeDirectories (paths : List String) :
    (makeDirectories paths).Always FileTree.Extends := by
  induction paths with
  | nil => exact Script.always_done _
  | cons path above ih =>
      have hsettle : ∀ cause : SystemError, (Script.isDirectory path fun found =>
          .done (if found then Except.ok () else .error cause)).Always FileTree.Extends :=
        fun cause => Script.always_isDirectory fun found => Script.always_done _
      refine Script.always_makeDirectory fun answer => ?_
      split
      · exact Script.always_done _
      · refine ih.bind fun answer => ?_
        split
        · exact Script.always_done _
        · refine Script.always_makeDirectory fun answer => ?_
          split
          · exact Script.always_done _
          · exact hsettle _
      · exact hsettle _

theorem run_makeDirectories (paths : List String) (disk : Disk) :
    ∃ answer made, (ExceptT.mk ((makeDirectories paths).bind fun made => .done (.ok made)) :
        CommandScript (Except SystemError Unit)).run.run disk = (.ok answer, made) ∧
      disk.tree.Extends made.tree ∧ made.working = disk.working :=
  ⟨((makeDirectories paths).run disk).1, ((makeDirectories paths).run disk).2,
    Script.run_bind disk (makeDirectories paths) _, always_makeDirectories paths disk,
    Script.run_working disk (makeDirectories paths)⟩

/-- Making a configuration file either fails and only adds to what is there, or it succeeds and has
written the file after adding to what is there, without force only if the path was not seen to lead
anywhere. -/
theorem run_initConfig_cases (path : String) (force : Bool) (disk : Disk) :
    (∃ e, ((initConfig path force).run.run disk).1 = .error e) ∧
        disk.tree.Extends ((initConfig path force).run.run disk).2.tree ∨
      ∃ made shown, ((initConfig path force).run.run disk).1 = .ok shown ∧
        disk.tree.Extends made ∧
        made.writeFile disk.working path (Statement.bytes Settings.defaultText) =
          .ok ((initConfig path force).run.run disk).2.tree ∧
        (force = false → disk.refusal? = none →
          disk.tree.pathExists disk.working path = false) := by
  rw [initConfig, run_bind_ok (run_pathExists path disk)]
  split
  · exact .inl ⟨⟨_, rfl⟩, FileTree.Extends.refl _⟩
  · rename_i hfree
    have hunseen : force = false → disk.refusal? = none →
        disk.tree.pathExists disk.working path = false := by
      rintro rfl hrefusal
      simpa [hrefusal] using hfree
    obtain ⟨answer, made, hmaking, hextends, hworking⟩ :=
      run_makeDirectories ((Path.upward path.toList).tail.map String.ofList) disk.advance
    dsimp only
    rw [run_bind_ok hmaking]
    cases answer with
    | error e =>
        rw [run_bind, run_require_error]
        exact .inl ⟨⟨_, rfl⟩, hextends⟩
    | ok _ =>
        rw [run_bind_ok (run_require_ok _ _ _)]
        rcases run_writing_cases path (Statement.bytes Settings.defaultText)
          (.configUnwritable path) ("✅ Wrote " ++ path ++ "\n") made with
          ⟨tree, hwritten, hrun⟩ | ⟨e, hrun⟩
        · rw [hrun]
          rw [hworking] at hwritten
          exact .inr ⟨made.tree, _, rfl, hextends, hwritten, hunseen⟩
        · rw [hrun]
          exact .inl ⟨⟨_, rfl⟩, hextends⟩

/-- A configuration file that is made without force replaces no file, if its path can be looked up,
and its directory is there or the path takes no step upward. -/
theorem extends_initConfig
    {path : String} (hrefusal : disk.refusal? = none) (hrooted : disk.tree.Rooted)
    (hplace : (∃ place, disk.tree.locateNew disk.working path = .ok place) ∨
      ".." ∉ (PathParts.ofText path).parts) :
    disk.tree.Extends ((initConfig path false).run.run disk).2.tree := by
  rcases run_initConfig_cases path false disk with
    ⟨_, hextends⟩ | ⟨made, _, _, hmade, hwritten, hunseen⟩
  · exact hextends
  · exact hrooted.extends_of_writeFile hplace (hunseen rfl hrefusal) hmade hwritten

/-- The configuration file that was made holds the default settings. -/
theorem locate_initConfig
    {path shown : String} {force : Bool}
    (hshown : ((initConfig path force).run.run disk).1 = .ok shown) :
    ∃ location,
      ((initConfig path force).run.run disk).2.tree.locate disk.working path = .ok location ∧
      ((initConfig path force).run.run disk).2.tree.content? location =
        some (Statement.bytes Settings.defaultText) := by
  rcases run_initConfig_cases path force disk with ⟨⟨e, herror⟩, _⟩ | ⟨made, _, _, _, hwritten, _⟩
  · rw [hshown] at herror
    cases herror
  · obtain ⟨location, hlocation, hholds⟩ := FileTree.locate_of_writeFile hwritten
    exact ⟨location, hlocation, hholds.content?⟩

end CommandScript

/-! ## All command lines -/

open CommandScript

/-- A run fails exactly if its command does, and leaves the files as the command leaves them. -/
theorem run_commandLine
    (surroundings : Surroundings) {arguments : List String} {config : Option String}
    {command : Command} (hrequest : Arguments.read? arguments = some (.run config command))
    (disk : Disk) :
    let run := (ofCommand surroundings config command).run.run disk
    (((commandLine surroundings arguments).run disk).1.exitCode ≠ 0 ↔ ∃ e, run.1 = .error e) ∧
      ((commandLine surroundings arguments).run disk).2 = run.2 := by
  have hone : (1 : UInt8) ≠ 0 := by decide
  simp only [commandLine, hrequest, Script.run_bind]
  rcases (ofCommand surroundings config command).run.run disk with ⟨e | output, disk'⟩
  · exact ⟨⟨fun _ => ⟨e, rfl⟩, fun _ => hone⟩, rfl⟩
  · exact ⟨⟨fun hexit => absurd rfl hexit, nofun⟩, rfl⟩

/-- A command line that is understood damages no file.  A run that fails has kept every file.  A run
that verifies, tells the version or gives help has changed nothing at all.  A run that compiles a policy has
changed nothing if it fails or is not asked to write; otherwise it has read and compiled the policy
and changed nothing but the file for the compiled policy.  A run that makes a configuration file
without force has kept every file, if the path of the file can be looked up, and its directory is
there or the path takes no step upward. -/
theorem commandLine_spares_files
    (surroundings : Surroundings) {arguments : List String} {request : Request}
    (hrequest : Arguments.read? arguments = some request)
    {disk disk' : Disk} {outcome : Outcome}
    (hrun : (commandLine surroundings arguments).run disk = (outcome, disk')) :
    (outcome.exitCode ≠ 0 → disk.tree.KeepsFiles disk'.tree) ∧
      match request with
      | .showHelp | .showVersion | .run _ .version | .run _ (.verify _) => disk'.tree = disk.tree
      | .run _ (.compile options) =>
          (outcome.exitCode ≠ 0 ∨ options.output = none) ∧ disk'.tree = disk.tree ∨
            outcome.exitCode = 0 ∧ CompiledInto options disk.working disk.tree disk'.tree
      | .run config (.initConfig force) =>
          let path := config.getD surroundings.configPath
          force = false → disk.refusal? = none → disk.tree.Rooted →
            (∃ place, disk.tree.locateNew disk.working path = .ok place) ∨
              ".." ∉ (PathParts.ofText path).parts →
            disk.tree.KeepsFiles disk'.tree := by
  rcases request with ⟨config, command⟩ | _ | _
  · obtain ⟨hexit, hdisk⟩ := run_commandLine surroundings hrequest disk
    rw [hrun] at hexit hdisk
    dsimp only at hexit hdisk
    subst hdisk
    cases command with
    | verify options =>
        have hreads : (ofCommand surroundings config (.verify options)).ReadsOnly :=
          (readsOnly_settings surroundings config).bind fun settings =>
            (readsOnly_verify options settings).map _
        exact ⟨fun _ => (hreads disk).symm ▸ FileTree.KeepsFiles.refl _, (hreads disk).symm⟩
    | compile options =>
        rcases run_ofCommand_compile_cases surroundings config options disk with
          ⟨hidle, hsame⟩ | ⟨hok, hcompiled⟩
        · exact ⟨fun _ => hsame ▸ FileTree.KeepsFiles.refl _,
            .inl ⟨hidle.imp_left hexit.mpr, hsame⟩⟩
        · have hsuccess : ¬outcome.exitCode ≠ 0 := by
            rw [hexit, hok]
            exact nofun
          exact ⟨fun hfailed => absurd hfailed hsuccess,
            .inr ⟨Decidable.not_not.mp hsuccess, hcompiled⟩⟩
    | initConfig force =>
        rw [ofCommand, run_map] at hexit
        rw [ofCommand, run_map]
        constructor
        · intro hfailed
          obtain ⟨e, herror⟩ := hexit.mp hfailed
          rcases run_initConfig_cases (config.getD surroundings.configPath) force disk with
            ⟨_, hextends⟩ | ⟨_, shown, hshown, _, _, _⟩
          · exact hextends.keepsFiles
          · rw [hshown] at herror
            cases herror
        · rintro rfl hrefusal hrooted hplace
          exact (extends_initConfig hrefusal hrooted hplace).keepsFiles
    | version => exact ⟨fun _ => FileTree.KeepsFiles.refl _, rfl⟩
  all_goals
    simp only [commandLine, hrequest] at hrun
    obtain ⟨rfl, rfl⟩ := Prod.mk.inj hrun
    exact ⟨fun _ => FileTree.KeepsFiles.refl _, rfl⟩

/-- A policy with one witness, who is the quorum. -/
def samplePolicyText : String :=
  "witness w 0101010101010101010101010101010101010101010101010101010101010101\nquorum w\n"

/-- A working directory with a file that holds one letter and a file with a policy. -/
def sampleDisk : Disk :=
  ⟨⟨[(["work"], .directory), (["work", "notes"], .file [120]),
    (["work", "policy"], .file (Statement.bytes samplePolicyText))]⟩, ["work"], []⟩

/-- What is no policy is left alone, a policy is compiled into a file of its own, and no
configuration file is put in the place of another file. -/
theorem commandLine_spares_files_sampleDisk :
    let compileTo := fun policy output => (commandLine ⟨none, none, none⟩
      ["compile", "--policy", policy, "--output", output]).run sampleDisk
    let refused := compileTo "notes" "notes"
    let compiled := compileTo "policy" "out"
    let made := (commandLine ⟨none, none, none⟩ ["init-config", "--config", "notes"]).run sampleDisk
    (refused.1.exitCode ≠ 0 ∧ sampleDisk.tree.KeepsFiles refused.2.tree) ∧
      (compiled.1.exitCode = 0 ∧
        CompiledInto ⟨"policy", some "out", false⟩ ["work"] sampleDisk.tree compiled.2.tree) ∧
      sampleDisk.tree.Rooted ∧ sampleDisk.tree.KeepsFiles made.2.tree := by
  intro compileTo refused compiled made
  have hrefuse : Arguments.read? ["compile", "--policy", "notes", "--output", "notes"] =
      some (.run none (.compile ⟨"notes", some "notes", false⟩)) := by decide +kernel
  have hcompile : Arguments.read? ["compile", "--policy", "policy", "--output", "out"] =
      some (.run none (.compile ⟨"policy", some "out", false⟩)) := by decide +kernel
  have hmake : Arguments.read? ["init-config", "--config", "notes"] =
      some (.run (some "notes") (.initConfig false)) := by decide +kernel
  have hfails : refused.1.exitCode ≠ 0 := by decide +kernel
  have hsucceeds : compiled.1.exitCode = 0 := by decide +kernel
  have hrooted : sampleDisk.tree.Rooted := by decide +kernel
  have hup : ".." ∉ (PathParts.ofText "notes").parts := by decide +kernel
  have hkept := commandLine_spares_files ⟨none, none, none⟩ hrefuse (Prod.eta refused).symm
  have hwritten := commandLine_spares_files ⟨none, none, none⟩ hcompile (Prod.eta compiled).symm
  have hspared := commandLine_spares_files ⟨none, none, none⟩ hmake (Prod.eta made).symm
  refine ⟨⟨hfails, hkept.1 hfails⟩, ?_, hrooted, hspared.2 rfl rfl hrooted (.inr hup)⟩
  rcases hwritten.2 with ⟨hfailed | hidle, -⟩ | hcompiled
  · exact absurd hsucceeds hfailed
  · cases hidle
  · exact hcompiled

/-- A path upward out of a directory that is missing leads nowhere, and leads to a file once the
directory has been made. -/
theorem commandLine_replaces_file_sampleDisk :
    let made := (commandLine ⟨none, none, none⟩
      ["init-config", "--config", "new/../notes"]).run sampleDisk
    Arguments.read? ["init-config", "--config", "new/../notes"] =
        some (.run (some "new/../notes") (.initConfig false)) ∧
      sampleDisk.tree.Rooted ∧ made.1.exitCode = 0 ∧ ¬sampleDisk.tree.KeepsFiles made.2.tree := by
  intro made
  have hrequest : Arguments.read? ["init-config", "--config", "new/../notes"] =
      some (.run (some "new/../notes") (.initConfig false)) := by decide +kernel
  have hshown : ((initConfig "new/../notes" false).run.run sampleDisk).1 =
      .ok "✅ Wrote new/../notes\n" := by decide +kernel
  have hplace : ((initConfig "new/../notes" false).run.run sampleDisk).2.tree.locate
      ["work"] "new/../notes" = .ok ["work", "notes"] := by decide +kernel
  have hfirst : (Statement.bytes Settings.defaultText).head? = some 35 := by
    rw [Statement.bytes, Settings.defaultText, String.intercalate_cons_cons, String.toList_append,
      String.toList_append, Utf8.encode, List.flatMap_append, List.flatMap_append, List.append_assoc,
      List.head?_append]
    rfl
  have hexit : made.1.exitCode = 0 := by decide +kernel
  have hdisk : made.2 = ((initConfig "new/../notes" false).run.run sampleDisk).2 := by
    have hdisk := (run_commandLine ⟨none, none, none⟩ hrequest sampleDisk).2
    rw [ofCommand, run_map] at hdisk
    exact hdisk
  clear_value made
  refine ⟨hrequest, by decide +kernel, hexit, fun hkeeps => ?_⟩
  have hkept := hkeeps ["work", "notes"] [120] rfl
  obtain ⟨location, hlocation, hcontent⟩ := locate_initConfig hshown
  rw [← hdisk] at hplace hlocation hcontent
  obtain rfl : ["work", "notes"] = location := Except.ok.inj (hplace.symm.trans hlocation)
  rw [← Option.some.inj (hkept.symm.trans hcontent)] at hfirst
  exact absurd hfirst (by decide)

end WitnessedLog
