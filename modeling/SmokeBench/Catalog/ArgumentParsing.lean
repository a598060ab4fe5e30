import SmokeBench.Catalog.Subjects
import SmokeBench.Check

/-!
Second suite: the daemon refuses bad arguments and accepts a minimal configuration file, without
being started for good.
-/

namespace SmokeBench.Catalog

def configName : String := "litecoincash.conf"
def configContent : String := "# Test config\nregtest=1\nserver=0\n"

def nonzeroExit (onPass onFail : String) (e : Evidence) : List Verdict :=
  if e.run.timedOut then [.fail s!"{e.name} timed out"]
  else
    let verdict := Check.exitCodeIs e.run .nonzero
    [if verdict.passed then .pass onPass else verdict.withMessage onFail]

def rejectsInvalidOption : Evidence → List Verdict :=
  nonzeroExit "Invalid option correctly rejected" "Invalid option was not rejected"

def rejectsConflictingNetworks : Evidence → List Verdict :=
  nonzeroExit "Conflicting network options correctly rejected"
    "Conflicting network options were not rejected"

def printsWithConsoleFlag (e : Evidence) : List Verdict :=
  if e.run.timedOut then [.fail "printtoconsole test timed out"]
  else if (Check.outputMinLength e.run .combined 1).passed then
    [.pass "-printtoconsole works with -?"]
  else [.fail "No output with -printtoconsole -?"]

def parsesConfigFile (e : Evidence) : List Verdict :=
  if e.run.timedOut then [.fail "Config file test timed out"]
  else if e.run.success || (Check.outputMinLength e.run .stdout (helpFloor + 1)).passed then
    [.pass "Config file parsed successfully"]
  else [.fail s!"Config parsing issue: {Text.trimEnd e.run.stderr}"]

def argumentParsing (b : Subjects) (t : Timing) : List Scenario :=
  let token := Scenario.scopeToken
  [.bounded "invalid option rejection" "Invalid option test" b.daemon
      ["--totallyinvalidoption12345"] t.boundedTimeout (judge rejectsInvalidOption),
    .bounded "conflicting options" "Conflicting options test" b.daemon
      ["-regtest", "-testnet", "-datadir=" ++ token] t.boundedTimeout
      (judge rejectsConflictingNetworks),
    .bounded "-printtoconsole" "printtoconsole test" b.daemon
      ["-?", "-printtoconsole", "-datadir=" ++ token] t.boundedTimeout
      (judge printsWithConsoleFlag),
    (Scenario.bounded "config file parsing" "Config file test" b.daemon
      ["-?", "-datadir=" ++ token, "-conf=" ++ token ++ "/" ++ configName] t.boundedTimeout
      (judge parsesConfigFile)).withSetup
        (.writeFile (.ofString configName) (.ofString configContent))]

end SmokeBench.Catalog
