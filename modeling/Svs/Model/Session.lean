import Svs.Library.History
import Svs.Model.Filesave
import Svs.Model.Repository

/-!
# Sessions

A repository at rest, and what a session does to it: saves, each of them committed or given up at
any point, and changes of the configuration. A client may catch what a call throws and go on.
-/

namespace Svs

open Library Library.Program

variable {σ : Type}

/-- What a client asks of a save it has opened. -/
inductive Call where
  | process (buf : Bytes)
  | restart
  | commit (moddate : Option Int) (clock : Filesave.Clock)

def Call.isCommit : Call → Bool
  | .commit _ _ => true
  | _ => false

def Filesave.call (env : Env σ) : Call → SaveM σ Unit
  | .process buf => process env buf
  | .restart => restart env
  | .commit moddate clock => do let _ ← commit env moddate clock

/-- Whether there is anything to catch: after an access outside an allocation, or a loop that never
ends, there is no next step. -/
def Error.caught : Error → Bool
  | .undefined | .diverged => false
  | _ => true

/-- Run to the end, whichever it is: the state left, and the exception if there was one. -/
def attempt {α : Type} (m : SaveM σ α) (s : SaveState σ) : Option (SaveState σ × Option Error) :=
  match m s with
  | .ok _ t => some (t, none)
  | .error e t => if e.caught then some (t, some e) else none

/-- A call before the `commit` that returns. An earlier `commit` has thrown. -/
def attemptCall (env : Env σ) : Call → SaveState σ → Option (SaveState σ × Option Error)
  | .commit moddate clock, s =>
    (attempt (Filesave.call env (.commit moddate clock)) s).filter fun x => x.2.isSome
  | c, s => attempt (Filesave.call env c) s

/-- A sequence of calls by a client that catches every exception. -/
def runCalls (env : Env σ) : List Call → SaveState σ → Option (SaveState σ)
  | [], s => some s
  | c :: calls, s =>
    match attemptCall env c s with
    | some (t, _) => runCalls env calls t
    | none => none

/-- Everything a save depends on: arguments, what memory held, the faults of its system calls, the
calls of the client, and the arguments of its last `commit`. -/
structure Save (σ : Type) where
  args : SaveArgs
  memory : Filesave σ
  io : Io
  calls : List Call
  moddate : Option Int
  clock : Filesave.Clock

/-- The state the constructor is entered in. -/
def Save.start (v : Save σ) (r : Repository) : SaveState σ :=
  ⟨v.memory, r.dat, ⟨r.tables, none⟩, [], v.io⟩

/-- What is left when the save is destroyed: the destructor of the transaction rolls back. -/
def SaveState.close (s : SaveState σ) : Repository := ⟨s.dat, s.db.rollback.tables⟩

/-- The save is opened in `s`, its calls lead to `t`, and `commit` returns in `u`. -/
structure Commits (env : Env σ) (r : Repository) (v : Save σ) (s t u : SaveState σ) : Prop where
  opened : Filesave.filesave env v.args (v.start r) = .ok () s
  ran : runCalls env v.calls s = some t
  committed : ∃ pos, Filesave.commit env v.moddate v.clock t = .ok pos u

/-- The save ends in `u` without a commit: the constructor throws, the client stops, or `commit`
throws. -/
inductive Abandons (env : Env σ) (r : Repository) (v : Save σ) : SaveState σ → Prop where
  | constructor {e : Error} {u : SaveState σ} :
      Filesave.filesave env v.args (v.start r) = .error e u → e.caught = true → Abandons env r v u
  | calls {s u : SaveState σ} :
      Filesave.filesave env v.args (v.start r) = .ok () s → runCalls env v.calls s = some u →
      Abandons env r v u
  | commit {s t u : SaveState σ} {e : Error} :
      Filesave.filesave env v.args (v.start r) = .ok () s → runCalls env v.calls s = some t →
      Filesave.commit env v.moddate v.clock t = .error e u → e.caught = true → Abandons env r v u

/-- The method ends in `u`, returning or throwing. -/
def Ends {α : Type} (m : SaveM σ α) (s u : SaveState σ) : Prop :=
  (∃ a, m s = .ok a u) ∨ ∃ e, m s = .error e u

/-- A call before the `commit` that returns ends in `u`. -/
def CallEnds (env : Env σ) : Call → SaveState σ → SaveState σ → Prop
  | .commit moddate clock, s, u => ∃ e, Filesave.commit env moddate clock s = .error e u
  | c, s, u => Ends (Filesave.call env c) s u

/-- The save gets as far as `u`: the end, whatever it is, of the constructor, of one of the calls,
or of `commit`. -/
inductive Reaches (env : Env σ) (r : Repository) (v : Save σ) : SaveState σ → Prop where
  | constructor {u : SaveState σ} :
      Ends (Filesave.filesave env v.args) (v.start r) u → Reaches env r v u
  | call {earlier later : List Call} {c : Call} {s t u : SaveState σ} :
      v.calls = earlier ++ c :: later → Filesave.filesave env v.args (v.start r) = .ok () s →
      runCalls env earlier s = some t → CallEnds env c t u → Reaches env r v u
  | commit {s t u : SaveState σ} :
      Filesave.filesave env v.args (v.start r) = .ok () s → runCalls env v.calls s = some t →
      Ends (Filesave.commit env v.moddate v.clock) t u → Reaches env r v u

/-- What a session does between two states of the repository at rest. -/
inductive Act (σ : Type) where
  | commit (v : Save σ)
  | abandon (v : Save σ)
  | configure (config : List (String × SqlValue))

/-- The `filesize` row is the repository's own; everything else in `config` is the user's. -/
inductive Step (env : Env σ) : Repository → Act σ → Repository → Prop where
  | commit {r : Repository} {v : Save σ} {s t u : SaveState σ} :
      Commits env r v s t u → Step env r (.commit v) u.close
  | abandon {r : Repository} {v : Save σ} {u : SaveState σ} :
      Abandons env r v u → Step env r (.abandon v) u.close
  | configure {r : Repository} {config : List (String × SqlValue)} :
      Tables.configValue { r.tables with config } "filesize" = r.tables.configValue "filesize" →
      Step env r (.configure config) ⟨r.dat, { r.tables with config }⟩

/-- A session: the steps taken so far, each with the states around it, and the state reached. -/
abbrev Session (env : Env σ) := History (Step env)

/-- The saves a session has committed, oldest first. -/
def commits (steps : List (Repository × Act σ × Repository)) : List (Save σ) :=
  steps.filterMap fun x =>
    match x.2.1 with
    | .commit v => some v
    | _ => none

/-! ## The smallest save -/

/-- Memory that happens to be zero. -/
def Filesave.blank : Filesave Stored.Stream where
  dbtOk := false
  parent := 0
  postition := 0
  filesize := 0
  blocksize := 0
  bsnt := 0
  signature := fun _ => []
  dbuffer := .empty
  sigbuf := .empty
  dhashes := .empty
  dhashmul := 0
  dprevcmd := 0
  dcurbytes := 0
  chash := 0
  shash := 0
  bytespassed := 0
  rawFile := false
  noSignature := false
  useZlib := false
  writeSignature := false
  zs := none
  filesDeltaCnt := 0
  filesDeltaSize := 0
  filesSourceSize := 0
  filesPid := 0
  fileHash := []
  unwind := false
  dataBegin := 0
  nsstore := []
  dbuf := []
  nsstoreLst := 0

/-- The save that stores the file `a`. -/
def letterSave : Save Stored.Stream where
  args := ⟨1, 0, none, true, fun _ => 0, fun _ => 0, fun _ => 0, fun _ => 0⟩
  memory := .blank
  io := ⟨fun _ _ => none, 0⟩
  calls := [.process [97]]
  moddate := none
  clock := ⟨0, 0⟩

end Svs
