import SmokeBench.Machine.Shell.Step

/-!
Time on a simulated machine. One process at a time makes one step, in turn; each step takes a fixed
time. When all have to wait, the clock goes on to the next moment at which something can happen.
-/

namespace SmokeBench.Machine

def stepTime : Nat := 5000

def stepOf (m : Machine) (p : Process) : Progress :=
  match p.task with
  | .shell s => Shell.step m p s
  | .tool t => Tool.step m p t

def ready (m : Machine) (p : Process) : Bool := p.life == .running && p.notBefore ≤ m.clock

/-- The first process that can make a step. -/
def firstStep (m : Machine) : List Process → Option Machine
  | [] => none
  | p :: rest =>
    if m.ready p then
      match m.stepOf p with
      | .moved m => some { m with cursor := p.pid }
      | .blocked => firstStep m rest
    else firstStep m rest

/-- The processes, beginning with the one after the last to move. -/
def inTurn (m : Machine) : List Process :=
  m.processes.filter (m.cursor < ·.pid) ++ m.processes.filter (·.pid ≤ m.cursor)

/-- The next time at which a process that only waits for the clock goes on. -/
def nextWake (m : Machine) (deadline : Nat) : Nat :=
  m.processes.foldl (fun t p =>
    if p.life == .running && m.clock < p.notBefore && p.notBefore < t then p.notBefore else t) deadline

/-- One step, or a leap to where something can happen, but not past a deadline. -/
def tick (m : Machine) (deadline : Nat) : Machine :=
  match m.sweep.firstStep m.inTurn with
  | some after => { after with clock := m.clock + stepTime }
  | none => { m with clock := m.nextWake deadline }

/-- Lets the machine run until a condition holds, but not beyond a deadline. -/
def advance (stop : Machine → Bool) (deadline : Nat) (m : Machine) : Machine :=
  if m.clock < deadline ∧ stop m = false then
    if m.clock < (m.tick deadline).clock then advance stop deadline (m.tick deadline) else m
  else m
termination_by deadline - m.clock

end SmokeBench.Machine
