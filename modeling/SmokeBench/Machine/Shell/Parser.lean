import SmokeBench.Machine.Shell.Syntax

/-!
Reading commands. A program is read one complete command at a time, so what stands before a fault is
run before the fault is told. Every function has a bound on how deep it may still go; the number of
characters left is always enough.
-/

namespace SmokeBench.Machine.Shell

structure Heredoc where
  id : Nat
  delimiter : String
  literal : Bool
  stripTabs : Bool
  deriving Inhabited

/-- What is left to read, the line it is on, and the here-documents: those whose text is still to
come and those already read. -/
structure Source where
  rest : List Char
  line : Nat
  awaited : List Heredoc
  documents : List (Nat × Word)
  deriving Inhabited

structure Fault where
  line : Nat
  message : String

abbrev Reader := StateT Source (Except Fault)

namespace Reader

def fault {α : Type} (message : String) : Reader α := do throw ⟨(← get).line, message⟩

def peek : Reader (Option Char) := return (← get).rest.head?

def rest : Reader (List Char) := return (← get).rest

def skip (n : Nat) : Reader Unit :=
  modify fun s => { s with rest := s.rest.drop n }

def isBlank (c : Char) : Bool := c == ' ' || c == '\t'

def isMeta (c : Char) : Bool :=
  c == ' ' || c == '\t' || c == '\n' || c == ';' || c == '&' || c == '|' || c == '<' || c == '>' ||
    c == '(' || c == ')'

def isNameStart (c : Char) : Bool := c.isAlpha || c == '_'
def isNameChar (c : Char) : Bool := c.isAlphanum || c == '_'

def isName (s : String) : Bool :=
  match s.toList with
  | [] => false
  | c :: cs => isNameStart c && cs.all isNameChar

def skipBlanks : (fuel : Nat) → Reader Unit
  | 0 => return ()
  | fuel + 1 => do
    match ← rest with
    | ' ' :: _ | '\t' :: _ => skip 1; skipBlanks fuel
    | '\\' :: '\n' :: _ =>
      skip 2
      modify fun s => { s with line := s.line + 1 }
      skipBlanks fuel
    | '#' :: cs => modify fun s => { s with rest := cs.dropWhile (· != '\n') }
    | _ => return ()

def takeName : Reader String := do
  let name := (← rest).takeWhile isNameChar
  skip name.length
  return String.ofList name

/-- Adds a piece of text to the parts read so far, newest first. -/
def addText (quoted : Bool) (c : Char) : List Part → List Part
  | .bare t :: done => if quoted then .quoted (String.singleton c) :: .bare t :: done
      else .bare (t.push c) :: done
  | .quoted t :: done => if quoted then .quoted (t.push c) :: done
      else .bare (String.singleton c) :: .quoted t :: done
  | done => (if quoted then .quoted (String.singleton c) else .bare (String.singleton c)) :: done

def countLine (c : Char) : Reader Unit :=
  if c == '\n' then modify fun s => { s with line := s.line + 1 } else return ()

def singleQuoted (done : List Char) : List Char → Option (List Char × List Char)
  | [] => none
  | '\'' :: cs => some (done.reverse, cs)
  | c :: cs => singleQuoted (c :: done) cs

def redirectFd (kind : RedirectKind) (given : Option Nat) : Nat :=
  match given with
  | some n => n
  | none =>
    match kind with
    | .read | .readWrite | .document _ => 0
    | _ => 1

/-- What introduces a redirection here: how many characters, its kind, and for a here-document
whether tabs are stripped. -/
def redirectSign (cs : List Char) : Option (Nat × RedirectKind × Bool × Bool) :=
  match cs with
  | '<' :: '<' :: '-' :: _ => some (3, .document 0, true, false)
  | '<' :: '<' :: _ => some (2, .document 0, false, false)
  | '<' :: '&' :: _ => some (2, .duplicate, false, true)
  | '<' :: '>' :: _ => some (2, .readWrite, false, false)
  | '<' :: _ => some (1, .read, false, false)
  | '>' :: '>' :: _ => some (2, .append, false, false)
  | '>' :: '&' :: _ => some (2, .duplicate, false, false)
  | '>' :: '|' :: _ => some (2, .write, false, false)
  | '>' :: _ => some (1, .write, false, false)
  | _ => none

def plainText : Word → String
  | [] => ""
  | .bare t :: rest => t ++ plainText rest
  | .quoted t :: rest => t ++ plainText rest
  | _ :: rest => plainText rest

def hasQuotes (w : Word) : Bool :=
  w.any fun
    | .quoted _ => true
    | _ => false

def takeLine (cs : List Char) : List Char × List Char :=
  (cs.takeWhile (· != '\n'), (cs.dropWhile (· != '\n')).drop 1)

def documentLines (h : Heredoc) (fuel : Nat) (done : List Char) (cs : List Char) :
    List Char × List Char :=
  match fuel with
  | 0 => (done, cs)
  | fuel + 1 =>
    if cs.isEmpty then (done, [])
    else
      let (line, after) := takeLine cs
      let line := if h.stripTabs then line.dropWhile (· == '\t') else line
      if String.ofList line == h.delimiter then (done, after)
      else documentLines h fuel (done ++ line ++ ['\n']) after

def reserved : List String :=
  ["if", "then", "elif", "else", "fi", "while", "until", "for", "do", "done", "case", "esac", "in",
    "\x7b", "\x7d", "!"]

def bareWord : Reader String := do
  let cs := (← rest).takeWhile fun c => !isMeta c
  if cs.any fun c => c == '\'' || c == '"' || c == '\\' || c == '$' || c.toNat == 96 then return ""
  else return String.ofList cs

def unexpected {α : Type} (expecting : String) : Reader α := do
  let word ← bareWord
  let found := match ← rest with
    | [] => "end of file"
    | '\n' :: _ => "newline"
    | ';' :: ';' :: _ => "\";;\""
    | '&' :: '&' :: _ => "\"&&\""
    | '|' :: '|' :: _ => "\"||\""
    | c :: _ =>
      if isMeta c then s!"\"{c}\""
      else if reserved.contains word then s!"\"{word}\""
      else "word"
  let suffix := if expecting.isEmpty then "" else s!" (expecting \"{expecting}\")"
  fault s!"Syntax error: {found} unexpected{suffix}"

def isOnlyArguments : Part → Bool
  | .param "@" .plain _ _ => true
  | _ => false

def setQuoted : Part → Part
  | .bare t => .quoted t
  | .param name op arg _ => .param name op arg true
  | .command body _ => .command body true
  | .arith body _ => .arith body true
  | p => p

def backslashed (done : List Char) : List Char → Option (List Char × List Char)
  | [] => none
  | '\\' :: c :: cs =>
    if c == '\\' || c == '$' || c.toNat == 96 then backslashed (c :: done) cs
    else backslashed (c :: '\\' :: done) cs
  | c :: cs => if c.toNat == 96 then some (done.reverse, cs) else backslashed (c :: done) cs

def arithText (depth : Nat) (done : List Char) : List Char → Option (List Char × List Char)
  | [] => none
  | '(' :: cs => arithText (depth + 1) ('(' :: done) cs
  | ')' :: cs =>
    match depth with
    | depth + 1 => arithText depth (')' :: done) cs
    | 0 =>
      match cs with
      | ')' :: cs => some (done.reverse, cs)
      | _ => none
  | c :: cs => arithText depth (c :: done) cs

def paramOps (cs : List Char) : Option (ParamOp × Nat) :=
  match cs with
  | ':' :: '-' :: _ => some (.orDefault true, 2)
  | '-' :: _ => some (.orDefault false, 1)
  | ':' :: '=' :: _ => some (.orAssign true, 2)
  | '=' :: _ => some (.orAssign false, 1)
  | ':' :: '?' :: _ => some (.orFail true, 2)
  | '?' :: _ => some (.orFail false, 1)
  | ':' :: '+' :: _ => some (.alternative true, 2)
  | '+' :: _ => some (.alternative false, 1)
  | '%' :: '%' :: _ => some (.dropBack true, 2)
  | '%' :: _ => some (.dropBack false, 1)
  | '#' :: '#' :: _ => some (.dropFront true, 2)
  | '#' :: _ => some (.dropFront false, 1)
  | _ => none

def specialParams : List Char := ['@', '*', '#', '?', '-', '$', '!', '0']

/-- Runs a reader on another text, keeping the documents. -/
def onText {α : Type} (text : List Char) (r : Reader α) : Reader α := do
  let outer ← get
  set { outer with rest := text }
  let result ← r
  let inner ← get
  set { inner with rest := outer.rest, line := outer.line }
  return result

mutual

/-- The parts of a word up to a character that ends it. `inQuotes` reads a double-quoted stretch,
`brace` the argument of a parameter. -/
def parts : (fuel : Nat) → (inQuotes brace : Bool) → List Part → Reader (List Part)
  | 0, _, _, done => return done.reverse
  | fuel + 1, inQuotes, brace, done => do
    match ← rest with
    | [] => if inQuotes then fault "Syntax error: Unterminated quoted string" else return done.reverse
    | c :: cs =>
      if brace && c == '}' then return done.reverse
      else if inQuotes && !brace && c == '"' then return done.reverse
      else if !inQuotes && !brace && isMeta c then return done.reverse
      else if c == '\\' then
        match cs with
        | [] => skip 1; parts fuel inQuotes brace (addText true '\\' done)
        | '\n' :: _ => skip 2; countLine '\n'; parts fuel inQuotes brace done
        | d :: _ =>
          skip 2
          if inQuotes && !(d == '$' || d == '"' || d == '\\' || d.toNat == 96 || (brace && d == '}'))
          then parts fuel inQuotes brace (addText true d (addText true '\\' done))
          else parts fuel inQuotes brace (addText true d done)
      else if c == '\'' && !inQuotes then
        match singleQuoted [] cs with
        | none =>
          modify fun s => { s with line := s.line + cs.count '\n' }
          fault "Syntax error: Unterminated quoted string"
        | some (text, after) =>
          modify fun s => { s with rest := after, line := s.line + text.count '\n' }
          parts fuel inQuotes brace (.quoted (String.ofList text) :: done)
      else if c == '"' && !inQuotes then
        skip 1
        let inner ← parts fuel true false []
        skip 1
        let mark := if !inner.isEmpty && inner.all isOnlyArguments then [] else [Part.quoted ""]
        parts fuel inQuotes brace ((inner.map setQuoted).reverse ++ mark ++ done)
      else if c == '"' then
        skip 1
        parts fuel inQuotes brace done
      else if c.toNat == 96 then
        match backslashed [] cs with
        | none => fault "Syntax error: EOF in backquote substitution"
        | some (text, after) =>
          let body ← onText text (items fuel)
          modify fun s => { s with rest := after }
          parts fuel inQuotes brace (.command body inQuotes :: done)
      else if c == '$' then
        skip 1
        let p ← dollar fuel inQuotes
        parts fuel inQuotes brace (p :: done)
      else
        skip 1
        countLine c
        parts fuel inQuotes brace (addText inQuotes c done)

def dollar : (fuel : Nat) → (inQuotes : Bool) → Reader Part
  | 0, _ => return .bare "$"
  | fuel + 1, inQuotes => do
    match ← rest with
    | '(' :: '(' :: cs =>
      match arithText 0 [] cs with
      | some (text, after) =>
        let body ← onText (text ++ ['"']) (parts fuel true false [])
        modify fun s => { s with rest := after }
        return .arith body inQuotes
      | none => fault "Syntax error: missing '))'"
    | '(' :: _ =>
      skip 1
      let body ← items fuel
      match ← rest with
      | ')' :: _ => skip 1; return .command body inQuotes
      | _ => unexpected ")"
    | '{' :: '#' :: c :: cs =>
      if c == '}' then skip 3; return .param "#" .plain [] inQuotes
      else
        let name := if isNameStart c then (c :: cs).takeWhile isNameChar else [c]
        match (c :: cs).drop name.length with
        | '}' :: after =>
          modify fun s => { s with rest := after }
          return .param (String.ofList name) .length [] inQuotes
        | _ => fault "Bad substitution"
    | '{' :: c :: cs =>
      let name := if isNameStart c then (c :: cs).takeWhile isNameChar
        else if c.isDigit then (c :: cs).takeWhile Char.isDigit
        else if specialParams.contains c then [c] else []
      if name.isEmpty then fault "Bad substitution"
      else
        modify fun s => { s with rest := (c :: cs).drop name.length }
        match ← rest with
        | '}' :: _ => skip 1; return .param (String.ofList name) .plain [] inQuotes
        | cs =>
          match paramOps cs with
          | none => fault "Bad substitution"
          | some (op, n) =>
            skip n
            let arg ← parts fuel inQuotes true []
            match ← rest with
            | '}' :: _ => skip 1; return .param (String.ofList name) op arg inQuotes
            | _ => fault "Syntax error: Missing '\x7d'"
    | c :: _ =>
      if isNameStart c then return .param (← takeName) .plain [] inQuotes
      else if c.isDigit || specialParams.contains c then
        skip 1
        return .param (String.singleton c) .plain [] inQuotes
      else return if inQuotes then .quoted "$" else .bare "$"
    | [] => return if inQuotes then .quoted "$" else .bare "$"

def word (fuel : Nat) : Reader Word :=
  match fuel with
  | 0 => return []
  | fuel + 1 => parts fuel false false []

def redirect? : (fuel : Nat) → Reader (Option Redirect)
  | 0 => return none
  | fuel + 1 => do
    let cs ← rest
    let digits := cs.takeWhile Char.isDigit
    match (if digits.length ≤ 1 then redirectSign (cs.drop digits.length) else none) with
    | none => return none
    | some (n, kind, stripTabs, input) =>
      skip (digits.length + n)
      skipBlanks fuel
      let target ← word fuel
      if target.isEmpty then unexpected ""
      let given := if digits.isEmpty then none else (String.ofList digits).toNat?
      match kind with
      | .document _ =>
        let s ← get
        let id := s.documents.length + s.awaited.length
        let h : Heredoc := ⟨id, plainText target, hasQuotes target, stripTabs⟩
        set { s with awaited := s.awaited ++ [h] }
        return some (.mk (given.getD 0) (.document id) [])
      | kind => return some (.mk (given.getD (if input then 0 else redirectFd kind none)) kind target)

def redirects : (fuel : Nat) → Reader (List Redirect)
  | 0 => return []
  | fuel + 1 => do
    skipBlanks fuel
    match ← redirect? fuel with
    | none => return []
    | some r => return r :: (← redirects fuel)

/-- The text of the here-documents announced on the line that has just ended. -/
def readDocuments : (fuel : Nat) → Reader Unit
  | 0 => return ()
  | fuel + 1 => do
    let s ← get
    match s.awaited with
    | [] => return ()
    | h :: more =>
      let (text, after) := documentLines h s.rest.length [] s.rest
      let lines := text.count '\n' + 1
      set { s with rest := after, awaited := more, line := s.line + lines }
      let escaped := text.flatMap fun c => if c == '"' then ['\\', '"'] else [c]
      let body ← if h.literal then pure [Part.quoted (String.ofList text)]
        else onText (escaped ++ ['"']) (parts fuel true false [])
      modify fun s => { s with documents := s.documents ++ [(h.id, body)] }
      readDocuments fuel

def newline (fuel : Nat) : Reader Unit :=
  match fuel with
  | 0 => return ()
  | fuel + 1 => do
    skip 1
    countLine '\n'
    readDocuments fuel

def skipLines : (fuel : Nat) → Reader Unit
  | 0 => return ()
  | fuel + 1 => do
    skipBlanks fuel
    match ← rest with
    | '\n' :: _ => newline fuel; skipLines fuel
    | _ => return ()

/-- The words and redirections of a simple command. -/
def simpleParts : (fuel : Nat) → List (String × Word) → List Word → List Redirect →
    Reader (List (String × Word) × List Word × List Redirect)
  | 0, as, ws, rs => return (as.reverse, ws.reverse, rs.reverse)
  | fuel + 1, as, ws, rs => do
    skipBlanks fuel
    match ← redirect? fuel with
    | some r => simpleParts fuel as ws (r :: rs)
    | none =>
      let name := (← rest).takeWhile isNameChar
      let isAssignment := ws.isEmpty && isName (String.ofList name) &&
        ((← rest).drop name.length).head? == some '='
      if isAssignment then
        skip (name.length + 1)
        let value ← word fuel
        simpleParts fuel ((String.ofList name, value) :: as) ws rs
      else
        match ← rest with
        | [] => return (as.reverse, ws.reverse, rs.reverse)
        | c :: _ =>
          if isMeta c then return (as.reverse, ws.reverse, rs.reverse)
          else
            let w ← word fuel
            simpleParts fuel as (w :: ws) rs

def expectWord (fuel : Nat) (keyword : String) : Reader Unit :=
  match fuel with
  | 0 => return ()
  | fuel + 1 => do
    skipLines fuel
    if (← bareWord) == keyword then skip keyword.length
    else unexpected keyword

def branchTail : (fuel : Nat) → Reader (List Item)
  | 0 => return []
  | fuel + 1 => do
    skipLines fuel
    match ← bareWord with
    | "elif" =>
      skip 4
      let condition ← items fuel
      expectWord fuel "then"
      let body ← items fuel
      let alternative ← branchTail fuel
      return [.mk (.branch condition body alternative []) false]
    | "else" =>
      skip 4
      let body ← items fuel
      expectWord fuel "fi"
      return body
    | _ =>
      expectWord fuel "fi"
      return []

def patterns : (fuel : Nat) → Reader (List Word)
  | 0 => return []
  | fuel + 1 => do
    skipBlanks fuel
    let w ← word fuel
    if w.isEmpty then unexpected ""
    skipBlanks fuel
    match ← rest with
    | '|' :: _ => skip 1; return w :: (← patterns fuel)
    | ')' :: _ => skip 1; return [w]
    | _ => unexpected ")"

def clauses : (fuel : Nat) → Reader (List Clause)
  | 0 => return []
  | fuel + 1 => do
    skipLines fuel
    if (← bareWord) == "esac" then skip 4; return []
    else
      match ← rest with
      | '(' :: _ => skip 1
      | [] => unexpected ")"
      | _ => pure ()
      let ps ← patterns fuel
      let body ← items fuel
      skipLines fuel
      match ← rest with
      | ';' :: ';' :: _ =>
        skip 2
        return .mk ps body :: (← clauses fuel)
      | _ =>
        expectWord fuel "esac"
        return [.mk ps body]

def eachWords : (fuel : Nat) → Reader (List Word)
  | 0 => return []
  | fuel + 1 => do
    skipBlanks fuel
    match ← rest with
    | [] => return []
    | c :: _ => if isMeta c then return [] else return (← word fuel) :: (← eachWords fuel)

def command : (fuel : Nat) → Reader Command
  | 0 => fault "Syntax error: too deep"
  | fuel + 1 => do
    skipBlanks fuel
    match ← rest with
    | '(' :: _ =>
      skip 1
      let body ← items fuel
      match ← rest with
      | ')' :: _ =>
        skip 1
        return .subshell body (← redirects fuel)
      | _ => unexpected ")"
    | _ =>
      match ← bareWord with
      | "\x7b" =>
        skip 1
        let body ← items fuel
        expectWord fuel "\x7d"
        return .block body (← redirects fuel)
      | "if" =>
        skip 2
        let condition ← items fuel
        expectWord fuel "then"
        let body ← items fuel
        let alternative ← branchTail fuel
        return .branch condition body alternative (← redirects fuel)
      | "while" => skip 5; loopBody fuel false
      | "until" => skip 5; loopBody fuel true
      | "for" =>
        skip 3
        skipBlanks fuel
        let name ← takeName
        if name.isEmpty then fault "Syntax error: Bad for loop variable"
        skipLines fuel
        let words ← if (← bareWord) == "in" then do
            skip 2
            pure (some (← eachWords fuel))
          else pure none
        skipBlanks fuel
        match ← rest with
        | ';' :: _ => skip 1
        | _ => pure ()
        expectWord fuel "do"
        let body ← items fuel
        expectWord fuel "done"
        return .each name words body (← redirects fuel)
      | "case" =>
        skip 4
        skipBlanks fuel
        let w ← word fuel
        expectWord fuel "in"
        let cs ← clauses fuel
        return .select w cs (← redirects fuel)
      | name =>
        if reserved.contains name then unexpected ""
        else
          let after := ((← rest).drop name.length).dropWhile isBlank
          match after with
          | '(' :: after =>
            match after.dropWhile isBlank with
            | ')' :: after =>
              if isName name then
                modify fun s => { s with rest := after }
                skipLines fuel
                return .define name (← command fuel)
              else fault "Syntax error: Bad function name"
            | _ => simpleCommand fuel
          | _ => simpleCommand fuel

def simpleCommand (fuel : Nat) : Reader Command :=
  match fuel with
  | 0 => return default
  | fuel + 1 => do
    let line := (← get).line
    let (as, ws, rs) ← simpleParts fuel [] [] []
    if as.isEmpty && ws.isEmpty && rs.isEmpty then unexpected ""
    return .simple line as ws rs

def loopBody (fuel : Nat) (isUntil : Bool) : Reader Command :=
  match fuel with
  | 0 => return default
  | fuel + 1 => do
    let condition ← items fuel
    expectWord fuel "do"
    let body ← items fuel
    expectWord fuel "done"
    return .loop isUntil condition body (← redirects fuel)

def pipeTail : (fuel : Nat) → Reader (List Command)
  | 0 => return []
  | fuel + 1 => do
    skipBlanks fuel
    match ← rest with
    | '|' :: '|' :: _ => return []
    | '|' :: _ =>
      skip 1
      skipLines fuel
      let c ← command fuel
      return c :: (← pipeTail fuel)
    | _ => return []

def pipeline : (fuel : Nat) → Reader Command
  | 0 => return default
  | fuel + 1 => do
    skipBlanks fuel
    let negated := (← bareWord) == "!"
    if negated then skip 1
    let first ← command fuel
    match ← pipeTail fuel with
    | [] => return if negated then .pipeline true [first] else first
    | more => return .pipeline negated (first :: more)

def chain : (fuel : Nat) → Command → Reader Command
  | 0, c => return c
  | fuel + 1, c => do
    skipBlanks fuel
    match ← rest with
    | '&' :: '&' :: _ =>
      skip 2
      skipLines fuel
      chain fuel (.both c (← pipeline fuel))
    | '|' :: '|' :: _ =>
      skip 2
      skipLines fuel
      chain fuel (.either c (← pipeline fuel))
    | _ => return c

/-- Commands up to whatever closes the list they stand in. -/
def items : (fuel : Nat) → Reader (List Item)
  | 0 => return []
  | fuel + 1 => do
    skipLines fuel
    let closing := ["then", "elif", "else", "fi", "do", "done", "esac", "\x7d"].contains (← bareWord)
    match ← rest with
    | [] | ')' :: _ | ';' :: ';' :: _ => return []
    | _ =>
      if closing then return []
      else
        let c ← chain fuel (← pipeline fuel)
        skipBlanks fuel
        match ← rest with
        | ';' :: ';' :: _ => return [.mk c false]
        | ';' :: _ => skip 1; return .mk c false :: (← items fuel)
        | '&' :: _ => skip 1; return .mk c true :: (← items fuel)
        | '\n' :: _ => return .mk c false :: (← items fuel)
        | _ => return [.mk c false]

end

def lineItems : (fuel : Nat) → Reader (List Item)
  | 0 => return []
  | fuel + 1 => do
    let c ← chain fuel (← pipeline fuel)
    skipBlanks fuel
    match ← rest with
    | [] => return [.mk c false]
    | '\n' :: _ => newline fuel; return [.mk c false]
    | ';' :: ';' :: _ => unexpected ""
    | d :: _ =>
      if d == ';' || d == '&' then
        skip 1
        skipBlanks fuel
        match ← rest with
        | [] => return [.mk c (d == '&')]
        | '\n' :: _ => newline fuel; return [.mk c (d == '&')]
        | _ => return .mk c (d == '&') :: (← lineItems fuel)
      else unexpected ""

/-- The next complete command; none at the end. -/
def next : Reader (Option (List Item)) := do
  let fuel := 2 * (← rest).length + 20
  skipLines fuel
  match ← rest with
  | [] => return none
  | _ => return some (← lineItems fuel)

end Reader

end SmokeBench.Machine.Shell
