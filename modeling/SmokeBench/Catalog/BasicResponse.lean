import SmokeBench.Catalog.Subjects
import SmokeBench.Check

/-!
First suite: the binaries are there, tell their version and print a help text.
-/

namespace SmokeBench.Catalog

def reportsVersion (e : Evidence) : List Verdict :=
  if e.run.timedOut then [.fail s!"{e.binary.name} --version timed out"]
  else
    let found := Verdict.anyPass
      [Check.outputContains e.run "version" .combined .insensitive,
        Check.outputContains e.run "LitecoinCash" .combined .sensitive]
    if found.passed then [.pass s!"{e.binary.name} --version: {e.run.firstLine}"]
    else [.fail s!"{e.binary.name} --version no version info in output"]

def printsHelp (e : Evidence) : List Verdict :=
  if e.run.timedOut then [.fail s!"{e.binary.name} --help timed out"]
  else
    let bytes := e.run.stdout.utf8ByteSize
    if (Check.outputMinLength e.run .stdout (helpFloor + 1)).passed then
      [.pass s!"{e.binary.name} --help returned {bytes} bytes"]
    else [.fail s!"{e.binary.name} --help output too short ({bytes} bytes)"]

def basicResponse (b : Subjects) (t : Timing) : List Scenario :=
  [b.daemon, b.cli, b.tx, b.qt].map (Scenario.locate "binary existence") ++
    [b.daemon, b.cli].map (fun s => Scenario.bounded "--version output" s!"{s.name} --version" s
      ["--version"] t.boundedTimeout (judge reportsVersion)) ++
    [b.daemon, b.cli, b.tx].map (fun s => Scenario.bounded "--help output" s!"{s.name} --help" s
      ["--help"] t.boundedTimeout (judge printsHelp))

end SmokeBench.Catalog
