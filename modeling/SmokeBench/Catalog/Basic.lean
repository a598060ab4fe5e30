import SmokeBench.Catalog.ArgumentParsing
import SmokeBench.Catalog.BasicResponse
import SmokeBench.Catalog.DataDirectory

/-!
The three suites in their canonical order. A selection picks suites, keeps this order and knows no
repetition; an empty selection is all of them.
-/

namespace SmokeBench

inductive SuiteKind
  | binaries
  | config
  | datadir
  deriving DecidableEq, Repr

namespace SuiteKind

def all : List SuiteKind := [binaries, config, datadir]

def key : SuiteKind → String
  | binaries => "binaries"
  | config => "config"
  | datadir => "datadir"

def title : SuiteKind → String
  | binaries => "Binary Existence and Basic Response"
  | config => "Configuration Parsing"
  | datadir => "Data Directory and File Creation"

def scenarios (k : SuiteKind) (s : Settings) : List Scenario :=
  let subjects := Catalog.Subjects.of s
  match k with
  | binaries => Catalog.basicResponse subjects s.timing
  | config => Catalog.argumentParsing subjects s.timing
  | datadir => Catalog.dataDirectory subjects s.timing

def ofKey? (key : String) : Option SuiteKind := all.find? (·.key == key)

end SuiteKind

namespace Catalog

def build (k : SuiteKind) (s : Settings) : Except SuiteError Suite :=
  (k.scenarios s).foldlM (fun suite scenario => suite.register scenario) (Suite.empty k.title)

def selectedKinds (selected : List SuiteKind) : List SuiteKind :=
  SuiteKind.all.filter fun k => selected.isEmpty || selected.contains k

def buildSelected (selected : List SuiteKind) (s : Settings) : Except SuiteError (List Suite) :=
  (selectedKinds selected).mapM (build · s)

end Catalog

end SmokeBench
