import SmokeBench.IoError
import SmokeBench.Path
import SmokeBench.RunResult

/-!
The bench never acts on the world directly: it puts a `Request` and goes on with the reply. A
`Dialogue` is such a conversation as data, a `Host` is anything that can answer, and the journal
of a run is the list of requests with their replies. What holds of a dialogue for every host holds
of the bench in every environment.
-/

namespace SmokeBench

inductive FileKind
  | file
  | directory
  | other
  deriving DecidableEq, Repr

structure Metadata where
  kind : FileKind
  size : Nat
  deriving DecidableEq, Repr

inductive Availability
  | missing
  | notExecutable
  | ready
  deriving DecidableEq, Repr

def Availability.present : Availability → Bool
  | missing => false
  | notExecutable | ready => true

inductive Signal
  | term
  | kill
  deriving DecidableEq, Repr

inductive OutputPipe
  | out
  | err
  deriving DecidableEq, Repr

abbrev Pid := Nat

inductive Request
  /-- What a path leads to, links followed. -/
  | metadata (path : Path)
  | availability (path : Path)
  /-- What a directory holds by name; links are told as themselves. -/
  | entries (path : Path)
  | load (path : Path)
  | store (path : Path) (content : Bytes)
  | makeDir (path : Path)
  | removeTree (path : Path)
  | workingDir
  /-- Letters and digits for a new name. -/
  | randomSuffix
  | environment (name : String)
  /-- Where the program itself lies. -/
  | runnerPath
  /-- Milliseconds of the calendar clock. -/
  | calendar
  | clock
  | sleep (span : Duration)
  | spawn (path : Path) (args : List String)
  /-- Waits for the end of a process, at most until the deadline. -/
  | awaitExit (pid : Pid) (deadline : Instant)
  | pollExit (pid : Pid)
  | signalGroup (pid : Pid) (signal : Signal)
  | killLeader (pid : Pid)
  /-- Everything read from a pipe once it is closed, or at the deadline. -/
  | drain (pid : Pid) (pipe : OutputPipe) (deadline : Instant)
  /-- Gives up the handle of a process; a leader not yet reaped is killed, its group is not. -/
  | release (pid : Pid)
  | print (text : String)
  | printError (text : String)
  deriving DecidableEq, Repr

def Request.Reply : Request → Type
  | metadata _ => Except IoError Metadata
  | availability _ => Availability
  | entries _ => Except IoError (List (Bytes × Metadata))
  | load _ => Except IoError Bytes
  | store _ _ | makeDir _ | removeTree _ => Except IoError Unit
  | workingDir => Except IoError Path
  | randomSuffix => String
  | environment _ => Option Bytes
  | runnerPath => Except IoError Path
  | calendar => Nat
  | clock => Instant
  | sleep _ => Unit
  | spawn _ _ => Except IoError Pid
  | awaitExit _ _ | pollExit _ => Except IoError (Option ExitStatus)
  | signalGroup _ _ | killLeader _ => Except IoError Unit
  | drain _ _ _ => Bytes
  | release _ => Unit
  | print _ | printError _ => Except IoError Unit

inductive Dialogue (α : Type) : Type
  | done (value : α)
  | ask (request : Request) (next : request.Reply → Dialogue α)

namespace Dialogue

def bind {α β : Type} : Dialogue α → (α → Dialogue β) → Dialogue β
  | done a, f => f a
  | ask r k, f => ask r fun reply => bind (k reply) f

instance : Monad Dialogue where
  pure := done
  bind := bind

end Dialogue

/-- Puts one request. -/
def ask (r : Request) : Dialogue r.Reply := .ask r .done

/-- The bench clock. -/
def now : Dialogue Instant := ask .clock

/-- Something that answers every request and may change in doing so. -/
structure Host (σ : Type) where
  answer : (r : Request) → σ → r.Reply × σ

structure Exchange where
  request : Request
  reply : request.Reply

namespace Dialogue

variable {σ α β : Type}

def run (host : Host σ) : Dialogue α → σ → α × σ
  | done a, s => (a, s)
  | ask r k, s => run host (k (host.answer r s).1) (host.answer r s).2

def journal (host : Host σ) : Dialogue α → σ → List Exchange
  | done _, _ => []
  | ask r k, s =>
    ⟨r, (host.answer r s).1⟩ :: journal host (k (host.answer r s).1) (host.answer r s).2

theorem bind_assoc {γ : Type} (d : Dialogue α) (f : α → Dialogue β) (g : β → Dialogue γ) :
    bind (bind d f) g = bind d fun a => bind (f a) g := by
  induction d with
  | done a => rfl
  | ask r k ih => simp only [bind]; congr 1; funext reply; exact ih reply

theorem bind_done (d : Dialogue α) : bind d done = d := by
  induction d with
  | done a => rfl
  | ask r k ih => simp only [bind]; congr 1; funext reply; exact ih reply

instance : LawfulMonad Dialogue :=
  LawfulMonad.mk' Dialogue (fun d => bind_done d) (fun _ _ => rfl) (fun d f g => bind_assoc d f g)

theorem run_bind (host : Host σ) (d : Dialogue α) (f : α → Dialogue β) (s : σ) :
    run host (d >>= f) s = run host (f (run host d s).1) (run host d s).2 := by
  induction d generalizing s with
  | done a => rfl
  | ask r k ih => exact ih _ _

theorem journal_bind (host : Host σ) (d : Dialogue α) (f : α → Dialogue β) (s : σ) :
    journal host (d >>= f) s =
      journal host d s ++ journal host (f (run host d s).1) (run host d s).2 := by
  induction d generalizing s with
  | done a => rfl
  | ask r k ih => exact congrArg (_ :: ·) (ih _ _)

end Dialogue

end SmokeBench
