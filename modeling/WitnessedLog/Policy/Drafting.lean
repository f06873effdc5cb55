import WitnessedLog.Policy

/-!
# Runs of a draft

A policy is drafted by changes that are tried one after another on one draft.  A change first looks
whether it can be made, and is refused if it cannot; nothing undoes what has been done to the draft by
then.
-/

namespace WitnessedLog

theorem Roster.filed_insert (roster : Roster) (entity : Entity) :
    ∀ entry ∈ (roster.insert entity.name entity).entries, entry.2.name = entry.1 := by
  intro entry hentry
  rcases KeyTable.mem_place hentry with rfl | hentry
  · rfl
  · exact roster.filed entry hentry

/-- The roster with an entity in it, in place of one with the same key. -/
def Roster.put (roster : Roster) (entity : Entity) : Roster :=
  ⟨roster.insert entity.name entity, roster.filed_insert entity⟩

namespace Policy

namespace Draft

/-- A change of a draft. -/
inductive Change where
  | log (log : Entity)
  | witness (witness : Entity)
  | quorum (rule : Quorum KeyHash)

namespace Change

/-- The log that a change adds. -/
def log? : Change → Option Entity
  | .log entity => some entity
  | _ => none

/-- The witness that a change adds. -/
def witness? : Change → Option Entity
  | .witness entity => some entity
  | _ => none

/-- The quorum that a change chooses. -/
def rule? : Change → Option (Quorum KeyHash)
  | .quorum rule => some rule
  | _ => none

/-- The key hash by which what is added will be known. -/
def name? : Change → Option KeyHash
  | .log entity | .witness entity => some entity.name
  | .quorum _ => none

end Change

/-- Work on a draft that can fail.  What is done to the draft before a failure stays done. -/
abbrev Work := ExceptT PolicyError (StateM Draft)

namespace Work

/-- Add a log; the answer is its key hash. -/
def addLog (log : Entity) : Work KeyHash := do
  if (← get).logs.contains log.name then throw (.duplicateLog log.name)
  modify fun draft => { draft with logs := draft.logs.put log }
  return log.name

/-- Add a witness; the answer is its key hash. -/
def addWitness (witness : Entity) : Work KeyHash := do
  if (← get).witnesses.contains witness.name then throw (.duplicateWitness witness.name)
  modify fun draft => { draft with witnesses := draft.witnesses.put witness }
  return witness.name

/-- Choose the quorum. -/
def setQuorum (rule : Quorum KeyHash) : Work Unit := do
  if (← get).quorum.isSome then throw .quorumAlreadySet
  modify fun draft => { draft with quorum := some rule }

/-- Make a change; the answer is the key hash of what is added. -/
def make : Change → Work (Option KeyHash)
  | .log log => some <$> addLog log
  | .witness witness => some <$> addWitness witness
  | .quorum rule => do
    setQuorum rule
    return none

end Work

/-- The draft with a change made. -/
def make (draft : Draft) : Change → Except PolicyError Draft
  | .log log => draft.addLog log
  | .witness witness => draft.addWitness witness
  | .quorum rule => draft.setQuorum rule

/-- Try a change: the answer to it, and the draft with which one goes on. -/
def attempt (draft : Draft) (change : Change) : Except PolicyError (Option KeyHash) × Draft :=
  ((Work.make change).run.run draft).run

/-- The draft after changes that were tried one after another. -/
def run (draft : Draft) (changes : List Change) : Draft :=
  changes.foldl (fun draft change => (draft.attempt change).2) draft

/-- The changes that were made when all of them were tried one after another. -/
def made (draft : Draft) : List Change → List Change
  | [] => []
  | change :: changes =>
    match draft.attempt change with
    | (.ok _, changed) => change :: changed.made changes
    | (.error _, same) => same.made changes

end Draft

end Policy

end WitnessedLog
