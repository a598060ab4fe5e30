import SmokeBench.Machine.Basic
import SmokeBench.Machine.Files

/-!
A machine as it is when it has just been switched on: the tools, a few devices and an empty working
directory.
-/

namespace SmokeBench.Machine

def toolNames : List String :=
  ["sh", "dash", "bash", "true", "false", "sync", "sleep", "echo", "printf", "cat", "head", "tail", "tr",
    "wc", "tee", "sort", "grep", "dd", "yes", "seq", "ls", "env", "setsid", "nohup", "nice", "kill", "basename",
    "dirname", "pwd", "test", "[", "perl"] ++ Files.tools.map (·.1)

/-- An account: its name, number, group, purpose, home and shell. -/
abbrev Account := String × Nat × Nat × String × String × String

def systemAccounts : List Account :=
  [("root", 0, 0, "root", "/root", "/bin/bash"),
    ("daemon", 1, 1, "daemon", "/usr/sbin", noLogin), ("bin", 2, 2, "bin", "/bin", noLogin),
    ("sys", 3, 3, "sys", "/dev", noLogin), ("sync", 4, 65534, "sync", "/bin", "/bin/sync"),
    ("games", 5, 60, "games", "/usr/games", noLogin),
    ("man", 6, 12, "man", "/var/cache/man", noLogin), ("lp", 7, 7, "lp", "/var/spool/lpd", noLogin),
    ("mail", 8, 8, "mail", "/var/mail", noLogin), ("news", 9, 9, "news", "/var/spool/news", noLogin),
    ("uucp", 10, 10, "uucp", "/var/spool/uucp", noLogin), ("proxy", 13, 13, "proxy", "/bin", noLogin),
    ("www-data", 33, 33, "www-data", "/var/www", noLogin),
    ("backup", 34, 34, "backup", "/var/backups", noLogin),
    ("list", 38, 38, "Mailing List Manager", "/var/list", noLogin),
    ("irc", 39, 39, "ircd", "/run/ircd", noLogin), ("_apt", 42, 65534, "", "/nonexistent", noLogin),
    ("nobody", 65534, 65534, "nobody", "/nonexistent", noLogin)]
where
  noLogin : String := "/usr/sbin/nologin"

/-- The account under which the bench and its subjects run. -/
def benchAccount : Account := ("rocq", 1000, 1000, "", "/home/rocq", "/bin/bash")

def accountLine (a : Account) : String :=
  let (name, user, group, purpose, home, shell) := a
  s!"{name}:x:{user}:{group}:{purpose}:{home}:{shell}\n"

def name (s : String) : Bytes := Bytes.ofString s

/-- Puts an entry and every directory that leads to it. -/
def FileTree.install (t : FileTree) (l : Location) (e : Entry) : FileTree :=
  let above := (List.range l.length).map fun n => l.take n
  let t := above.foldl (fun t d =>
    if (t.at? d).isSome then t else t.put d (.directory FileTree.directoryMode)) t
  t.put l e

def baseTree : FileTree :=
  let place (s : String) : Location := (s.splitOn "/").map name
  let t : FileTree := ⟨[], 1⟩
  let t := toolNames.foldl (fun t tool => t.install [name "usr", name "bin", name tool] (.tool tool)) t
  let t := t.install (place "bin") (.link (name "usr/bin"))
  let accounts := systemAccounts ++ [benchAccount]
  let t := t.install (place "etc/passwd") (.file 0 0o644 (name (String.join (accounts.map accountLine))))
  let t := t.install (place "dev/null") (.device .null)
  let t := t.install (place "dev/zero") (.device .zero)
  let t := t.install (place "dev/full") (.device .full)
  ["tmp", "root", "home", "var", "run", "opt", "usr/local/bin", "usr/sbin"].foldl
    (fun t d => t.install (place d) (.directory FileTree.directoryMode)) t

/-- A machine with a working directory and an environment; `full` says that nothing can be printed. -/
def boot (cwd : Location) (environment : List (String × Bytes)) (runnerDir : Path) (full : Bool) :
    Machine where
  clock := 0
  calendarStart := 1770000000000
  tree := baseTree.install cwd (.directory FileTree.directoryMode)
  cwd := cwd
  environment := environment
  runner := runnerDir.join (.ofString "lcc-sanity")
  processes := []
  resources := []
  pipes := []
  captures := []
  fresh := 1
  nextPid := 1000
  cursor := 0
  names := 0
  console := ⟨[], if full then some 0 else none, .noSpace⟩
  errors := []

end SmokeBench.Machine
