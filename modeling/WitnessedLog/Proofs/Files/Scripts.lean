import WitnessedLog.Proofs.Files.Trees

/-!
# What scripts do to files

A script changes files only by the operations that it names, so what each of them keeps is kept by
the whole run, whatever the answers are and however the script goes on.  In particular what was a tree
stays one.
-/

namespace WitnessedLog

namespace Disk

variable {disk : Disk}

theorem ask_eq_ok_iff
    {α : Type} {answer : Except SystemError α} {a : α} :
    disk.ask answer = .ok a ↔ disk.refusal? = none ∧ answer = .ok a := by
  rw [ask]
  cases disk.refusal? with
  | none => simp
  | some e => simp

/-- An attempt either makes the change or leaves the files as they were. -/
theorem attempt_cases (disk : Disk) (change : Except SystemError FileTree) :
    (∃ tree, change = .ok tree ∧ disk.attempt change = (.ok (), { disk.advance with tree })) ∨
      ∃ e, disk.attempt change = (.error e, disk.advance) := by
  rw [attempt]
  cases hasked : disk.ask change with
  | ok tree => exact .inl ⟨tree, (ask_eq_ok_iff.mp hasked).2, rfl⟩
  | error e => exact .inr ⟨e, rfl⟩

theorem working_attempt (disk : Disk) (change : Except SystemError FileTree) :
    (disk.attempt change).2.working = disk.working := by
  rcases disk.attempt_cases change with ⟨tree, _, hattempt⟩ | ⟨e, hattempt⟩
  · rw [hattempt]
    rfl
  · rw [hattempt]
    rfl

/-- What holds of the files and of the changed files holds of them after an attempt. -/
theorem of_attempt
    {motive : FileTree → Prop} {change : Except SystemError FileTree} (h : motive disk.tree)
    (hchange : ∀ tree, change = .ok tree → motive tree) : motive (disk.attempt change).2.tree := by
  rcases disk.attempt_cases change with ⟨tree, hchanged, hattempt⟩ | ⟨e, hattempt⟩
  · rw [hattempt]
    exact hchange tree hchanged
  · rw [hattempt]
    exact h

end Disk

namespace Script

variable {α β : Type}

theorem run_bind (disk : Disk) (script : Script α) (next : α → Script β) :
    (script.bind next).run disk = (next (script.run disk).1).run (script.run disk).2 := by
  induction script generalizing disk with
  | done value => rfl
  | readFile path rest ih => exact ih _ _
  | pathExists path rest ih => exact ih _ _
  | isDirectory path rest ih => exact ih _ _
  | writeFile path content rest ih => exact ih _ _
  | makeDirectory path rest ih => exact ih _ _

/-- A script does not change the working directory. -/
theorem run_working (disk : Disk) (script : Script α) :
    (script.run disk).2.working = disk.working := by
  induction script generalizing disk with
  | done value => rfl
  | readFile path rest ih => exact ih _ _
  | pathExists path rest ih => exact ih _ _
  | isDirectory path rest ih => exact ih _ _
  | writeFile path content rest ih => exact (ih _ _).trans (disk.working_attempt _)
  | makeDirectory path rest ih => exact (ih _ _).trans (disk.working_attempt _)

/-! ## Relations between the files before and after -/

/-- However a script runs, the files before and after it stand in a relation. -/
def Always (R : FileTree → FileTree → Prop) (script : Script α) : Prop :=
  ∀ disk, R disk.tree (script.run disk).2.tree

section

variable {R : FileTree → FileTree → Prop}

theorem Always.bind
    [IsTrans FileTree R] {script : Script α} {next : α → Script β}
    (h : script.Always R) (hnext : ∀ a, (next a).Always R) : (script.bind next).Always R := by
  intro disk
  rw [run_bind]
  exact trans_of R (h disk) (hnext _ _)

theorem always_done [Std.Refl R] (value : α) : (done value).Always R :=
  fun disk => refl_of R disk.tree

theorem always_readFile
    {path : String} {next : Except SystemError Bytes → Script α}
    (h : ∀ answer, (next answer).Always R) : (readFile path next).Always R :=
  fun disk => h _ disk.advance

theorem always_pathExists
    {path : String} {next : Bool → Script α}
    (h : ∀ answer, (next answer).Always R) : (pathExists path next).Always R :=
  fun disk => h _ disk.advance

theorem always_isDirectory
    {path : String} {next : Bool → Script α}
    (h : ∀ answer, (next answer).Always R) : (isDirectory path next).Always R :=
  fun disk => h _ disk.advance

end

theorem always_makeDirectory
    {path : String} {next : Except SystemError Unit → Script α}
    (h : ∀ answer, (next answer).Always FileTree.Extends) :
    (makeDirectory path next).Always FileTree.Extends := by
  intro disk
  have hmade : disk.tree.Extends
      (disk.attempt (disk.tree.makeDirectory disk.working path)).2.tree :=
    Disk.of_attempt (.refl disk.tree) fun _ => FileTree.extends_of_makeDirectory
  exact hmade.trans (h _ _)

/-- A script leaves a tree where it finds one. -/
theorem rooted_run
    {disk : Disk} (hrooted : disk.tree.Rooted) (script : Script α) :
    (script.run disk).2.tree.Rooted := by
  induction script generalizing disk with
  | done value => exact hrooted
  | readFile path rest ih => exact ih _ hrooted
  | pathExists path rest ih => exact ih _ hrooted
  | isDirectory path rest ih => exact ih _ hrooted
  | writeFile path content rest ih =>
      exact ih _ (Disk.of_attempt hrooted fun _ => hrooted.of_writeFile)
  | makeDirectory path rest ih =>
      exact ih _ (Disk.of_attempt hrooted fun _ => hrooted.of_makeDirectory)

end Script

end WitnessedLog
