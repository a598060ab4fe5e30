/-!
Signals by number and name, and what each does to a process that neither traps nor ignores it.
-/

namespace SmokeBench.Machine

abbrev SignalNumber := Nat

namespace SignalNumber

def names : List (SignalNumber × String) :=
  [(1, "HUP"), (2, "INT"), (3, "QUIT"), (4, "ILL"), (5, "TRAP"), (6, "ABRT"), (7, "BUS"),
    (8, "FPE"), (9, "KILL"), (10, "USR1"), (11, "SEGV"), (12, "USR2"), (13, "PIPE"), (14, "ALRM"),
    (15, "TERM"), (16, "STKFLT"), (17, "CHLD"), (18, "CONT"), (19, "STOP"), (20, "TSTP"),
    (21, "TTIN"), (22, "TTOU"), (23, "URG"), (24, "XCPU"), (25, "XFSZ"), (26, "VTALRM"),
    (27, "PROF"), (28, "WINCH"), (29, "IO"), (30, "PWR"), (31, "SYS")]

def ofName (s : String) : Option SignalNumber :=
  match s.toNat? with
  | some n => if n ≤ 64 then some n else none
  | none =>
    let s := s.toUpper
    let s := if s.startsWith "SIG" then (s.drop 3).toString else s
    if s == "EXIT" then some 0 else (names.find? (·.2 == s)).map (·.1)

inductive Effect
  | terminate
  | stop
  | resume
  | nothing
  deriving DecidableEq, Repr

def effect (n : SignalNumber) : Effect :=
  if n = 17 ∨ n = 23 ∨ n = 28 then .nothing
  else if n = 18 then .resume
  else if 19 ≤ n ∧ n ≤ 22 then .stop
  else .terminate

def kill : SignalNumber := 9
def pipe : SignalNumber := 13
def term : SignalNumber := 15
def stop : SignalNumber := 19

/-- What a shell says about a child that such a signal ended. -/
def report (n : SignalNumber) : String :=
  let text := match n with
    | 1 => "Hangup"
    | 3 => "Quit"
    | 4 => "Illegal instruction"
    | 5 => "Trace/breakpoint trap"
    | 6 => "Aborted"
    | 7 => "Bus error"
    | 8 => "Floating point exception"
    | 9 => "Killed"
    | 10 => "User defined signal 1"
    | 11 => "Segmentation fault"
    | 12 => "User defined signal 2"
    | 14 => "Alarm clock"
    | 15 => "Terminated"
    | 16 => "Stack fault"
    | 24 => "CPU time limit exceeded"
    | 25 => "File size limit exceeded"
    | 26 => "Virtual timer expired"
    | 27 => "Profiling timer expired"
    | 29 => "I/O possible"
    | 30 => "Power failure"
    | 31 => "Bad system call"
    | _ => "Signal " ++ toString n
  if n = 2 ∨ n = 13 then "" else text

end SignalNumber

end SmokeBench.Machine
