import ILDump.Shell.Syntax
import ILDump.Text.Digits

/-!
# Reading scripts

A script is cut into words and operators, and these are read as commands. What the
language here does not have is refused.
-/

namespace ILDump.Shell

/-! ### Words and operators -/

/-- A word or operator of a script. -/
inductive Lexeme where
  | word (w : Word)
  | operator (text : String)
  /-- The sign of a redirection with the stream it is for. -/
  | redirect (stream : Nat) (sign : String)
deriving Repr

/-- A lexeme with the number of its line. -/
abbrev Placed := Lexeme × Nat

/-- Whether a character may occur in a name. -/
def isNameChar (c : Char) : Bool :=
  c.isAlphanum || c = '_'

/-- Whether a character ends a word. -/
def endsWord (c : Char) : Bool :=
  c = ' ' || c = '\t' || c = '\n' || c = ';' || c = '&' || c = '|' || c = '<' || c = '>' ||
    c = '(' || c = ')'

/-- A pattern inside an expansion, up to the closing brace. -/
def readTrimPattern : List Char → Option (List Glyph × List Char)
  | [] => none
  | '\x7d' :: cs => some ([], cs)
  | '\\' :: c :: cs => (readTrimPattern cs).map fun r => (.exactly c :: r.1, r.2)
  | c :: cs =>
    (readTrimPattern cs).map fun r =>
      if c = '*' then (.anyMany :: r.1, r.2)
      else if c = '?' then (.anyOne :: r.1, r.2)
      else if c = '"' || c = '\'' then r
      else (.exactly c :: r.1, r.2)

/-- Reads the parameter of an expansion. -/
def readParameter : List Char → Option (Parameter × List Char)
  | [] => none
  | c :: cs =>
    if c.isDigit then some (.argument (c.toNat - 48), cs)
    else if c.isAlpha || c = '_' then
      some (.named (c :: cs.takeWhile isNameChar), cs.dropWhile isNameChar)
    else if c = '@' || c = '*' then some (.allArguments, cs)
    else if c = '#' then some (.argumentCount, cs)
    else if c = '?' then some (.lastStatus, cs)
    else if c = '$' then some (.processId, cs)
    else none

/-- Reads what follows a parameter between braces. -/
def readModifier : List Char → Option (Modifier × List Char)
  | '\x7d' :: cs => some (.unchanged, cs)
  | '#' :: '#' :: cs => (readTrimPattern cs).map fun r => (.dropFront true r.1, r.2)
  | '#' :: cs => (readTrimPattern cs).map fun r => (.dropFront false r.1, r.2)
  | '%' :: '%' :: cs => (readTrimPattern cs).map fun r => (.dropBack true r.1, r.2)
  | '%' :: cs => (readTrimPattern cs).map fun r => (.dropBack false r.1, r.2)
  | ':' :: '-' :: cs =>
    some (.orElse true (cs.takeWhile (· ≠ '\x7d')), (cs.dropWhile (· ≠ '\x7d')).drop 1)
  | '-' :: cs =>
    some (.orElse false (cs.takeWhile (· ≠ '\x7d')), (cs.dropWhile (· ≠ '\x7d')).drop 1)
  | _ => none

/-- Reads an expansion after its dollar sign. A dollar sign with nothing to expand stands
    for itself. -/
def readExpansion (isQuoted : Bool) (cs : List Char) : Option (Piece × List Char) :=
  match cs with
  | '(' :: _ => none
  | '\x7b' :: '#' :: cs =>
    match cs with
    | '\x7d' :: rest => some (.value .argumentCount .unchanged isQuoted, rest)
    | _ => do
      let (p, cs) ← readParameter cs
      match cs with
      | '\x7d' :: rest => some (.value p .size isQuoted, rest)
      | _ => none
  | '\x7b' :: cs => do
    let (p, cs) ← readParameter cs
    let (m, cs) ← readModifier cs
    return (.value p m isQuoted, cs)
  | cs =>
    match readParameter cs with
    | some (p, rest) => some (.value p .unchanged isQuoted, rest)
    | none => some (.text ['$'] true, cs)

/-- The pieces between double quotes, and what follows the closing one. -/
def readDoubleQuoted : Nat → List Char → Option (Word × List Char)
  | 0, _ => none
  | _, [] => none
  | fuel + 1, c :: cs =>
    if c = '"' then some ([], cs)
    else if c = '\x60' then none
    else if c = '$' then do
      let (piece, cs) ← readExpansion true cs
      let (w, rest) ← readDoubleQuoted fuel cs
      return (piece :: w, rest)
    else
      match c, cs with
      | '\\', d :: after =>
        if d = '$' || d = '\x60' || d = '"' || d = '\\' then
          (readDoubleQuoted fuel after).map fun r => (.text [d] true :: r.1, r.2)
        else if d = '\n' then readDoubleQuoted fuel after
        else (readDoubleQuoted fuel cs).map fun r => (.text [c] true :: r.1, r.2)
      | _, _ => (readDoubleQuoted fuel cs).map fun r => (.text [c] true :: r.1, r.2)

/-- The pieces of a word, and what follows it. -/
def readWord : Nat → List Char → Option (Word × List Char)
  | 0, _ => none
  | _, [] => some ([], [])
  | fuel + 1, c :: cs =>
    if endsWord c then some ([], c :: cs)
    else if c = '\x60' then none
    else if c = '\'' then
      match cs.dropWhile (· ≠ '\'') with
      | [] => none
      | _ :: after =>
        (readWord fuel after).map fun r => (.text (cs.takeWhile (· ≠ '\'')) true :: r.1, r.2)
    else if c = '"' then do
      let (inner, after) ← readDoubleQuoted fuel cs
      let (w, rest) ← readWord fuel after
      return (.text [] true :: inner ++ w, rest)
    else if c = '$' then do
      let (piece, after) ← readExpansion false cs
      let (w, rest) ← readWord fuel after
      return (piece :: w, rest)
    else
      match c, cs with
      | '\\', d :: after =>
        if d = '\n' then readWord fuel after
        else (readWord fuel after).map fun r => (.text [d] true :: r.1, r.2)
      | _, _ =>
        (readWord fuel cs).map fun r =>
          match r.1 with
          | .text more false :: w => (.text (c :: more) false :: w, r.2)
          | w => (.text [c] false :: w, r.2)

/-- The operator a text starts with. -/
def readOperator : List Char → Option (String × List Char)
  | ';' :: ';' :: cs => some (";;", cs)
  | '&' :: '&' :: cs => some ("&&", cs)
  | '|' :: '|' :: cs => some ("||", cs)
  | ';' :: cs => some (";", cs)
  | '(' :: cs => some ("(", cs)
  | ')' :: cs => some (")", cs)
  | '|' :: cs => some ("|", cs)
  | '&' :: cs => some ("&", cs)
  | _ => none

/-- The sign of a redirection, with the stream it is for unless another one is named. -/
def readRedirect : List Char → Option (Nat × String × List Char)
  | '>' :: '>' :: cs => some (1, ">>", cs)
  | '>' :: '&' :: cs => some (1, ">&", cs)
  | '>' :: '|' :: cs => some (1, ">", cs)
  | '>' :: cs => some (1, ">", cs)
  | '<' :: '<' :: _ => none
  | '<' :: cs => some (0, "<", cs)
  | _ => none

/-- Cuts a script into lexemes. -/
def cut : Nat → Nat → List Char → Option (List Placed)
  | 0, _, _ => none
  | _, _, [] => some []
  | fuel + 1, line, c :: cs =>
    if c = ' ' || c = '\t' then cut fuel line cs
    else if c = '\n' then (cut fuel (line + 1) cs).map fun r => (.operator "\n", line) :: r
    else if c = '#' then cut fuel line (cs.dropWhile (· ≠ '\n'))
    else
      match readOperator (c :: cs) with
      | some (text, rest) => (cut fuel line rest).map fun r => (.operator text, line) :: r
      | none =>
        match readRedirect (c :: cs) with
        | some (stream, sign, rest) =>
          (cut fuel line rest).map fun r => (.redirect stream sign, line) :: r
        | none => do
          let (w, rest) ← readWord (cs.length + 2) (c :: cs)
          let passed := (c :: cs).take (cs.length + 1 - rest.length)
          let more ← cut fuel (line + passed.count '\n') rest
          match w, more with
          | [.text [d] false], (.redirect _ sign, l) :: after =>
            if d.isDigit && rest.head?.any fun x => x = '>' || x = '<' then
              return (.redirect (d.toNat - 48) sign, l) :: after
            else return (.word w, line) :: more
          | _, _ => return (.word w, line) :: more

/-! ### Commands -/

/-- The text of a word without quotes and expansions. -/
def plainWord? : List Placed → Option String
  | (.word [.text cs false], _) :: _ => some (textOf cs)
  | _ => none

/-- Skips line breaks. -/
def skipLines : List Placed → List Placed
  | (.operator "\n", _) :: rest => skipLines rest
  | rest => rest

/-- What follows an expected word. -/
def expectWord? (text : String) (ls : List Placed) : Option (List Placed) :=
  if plainWord? ls = some text then some (ls.drop 1) else none

/-- What follows an expected operator. -/
def expectOperator? (text : String) : List Placed → Option (List Placed)
  | (.operator found, _) :: rest => if found = text then some rest else none
  | _ => none

/-- The words before the next operator. -/
def readWords : List Placed → List Word × List Placed
  | (.word w, _) :: rest =>
    let (ws, rest) := readWords rest
    (w :: ws, rest)
  | rest => ([], rest)

/-- A redirection from its sign and target. -/
def redirection (stream : Nat) (sign : String) (target : Word) : Redirection :=
  match sign with
  | ">>" => .file stream true target
  | ">&" => .copy stream target
  | "<" => .input target
  | _ => .file stream false target

/-- Redirections that follow each other. -/
def readRedirections : List Placed → List Redirection × List Placed
  | (.redirect stream sign, _) :: (.word w, _) :: rest =>
    let (rs, rest) := readRedirections rest
    (redirection stream sign w :: rs, rest)
  | rest => ([], rest)

/-- The name and value of a word that sets a variable. -/
def assignment? : Word → Option (Octets × Word)
  | .text cs false :: rest =>
    let name := cs.takeWhile isNameChar
    match cs.dropWhile isNameChar with
    | '=' :: value =>
      if name.isEmpty || name.head?.any Char.isDigit then none
      else some (name, .text value true :: rest)
    | _ => none
  | _ => none

/-- The words and redirections of a simple command. -/
def readSimple : List Placed → List Word × List Redirection × List Placed
  | (.word w, _) :: rest =>
    let (ws, rs, rest) := readSimple rest
    (w :: ws, rs, rest)
  | (.redirect stream sign, _) :: (.word w, _) :: rest =>
    let (ws, rs, rest) := readSimple rest
    (ws, redirection stream sign w :: rs, rest)
  | rest => ([], [], rest)

/-- A simple command from its words. -/
def simpleCommand (line : Nat) (words : List Word) (redirections : List Redirection) : Command :=
  let settings := (words.takeWhile fun w => (assignment? w).isSome).filterMap assignment?
  .simple line settings (words.drop settings.length) redirections

/-- The patterns of an arm, up to the closing parenthesis. -/
def readPatterns : List Placed → Option (List Word × List Placed)
  | (.word w, _) :: (.operator ")", _) :: rest => some ([w], rest)
  | (.word w, _) :: (.operator "|", _) :: rest =>
    (readPatterns rest).map fun r => (w :: r.1, r.2)
  | _ => none

/-- The words that end a list of commands. -/
def closingWords : List String := ["then", "else", "elif", "fi", "do", "done", "esac", "\x7d"]

/-- Whether a list of commands ends here. -/
def endsList (ls : List Placed) : Bool :=
  match ls with
  | [] => true
  | (.operator ")", _) :: _ => true
  | (.operator ";;", _) :: _ => true
  | _ => (plainWord? ls).any closingWords.contains

mutual

/-- Reads commands up to the end of a list. -/
def readList : Nat → List Placed → Option (Command × List Placed)
  | 0, _ => none
  | fuel + 1, ls =>
    let ls := skipLines ls
    if endsList ls then some (.nothing, ls)
    else do
      let (first, ls) ← readChain fuel ls
      match ls with
      | (.operator ";", _) :: rest =>
        let (others, rest) ← readList fuel rest
        return (.sequence first others, rest)
      | (.operator "\n", _) :: rest =>
        let (others, rest) ← readList fuel rest
        return (.sequence first others, rest)
      | rest => if endsList rest then return (first, rest) else none

/-- Reads commands that depend on each other. -/
def readChain : Nat → List Placed → Option (Command × List Placed)
  | 0, _ => none
  | fuel + 1, ls => do
    let (first, rest) ← readCommand fuel ls
    readChainAfter fuel first rest

/-- Reads what depends on the command before. -/
def readChainAfter : Nat → Command → List Placed → Option (Command × List Placed)
  | 0, _, _ => none
  | fuel + 1, first, ls =>
    match ls with
    | (.operator "&&", _) :: rest => do
      let (second, rest) ← readCommand fuel (skipLines rest)
      readChainAfter fuel (.both first second) rest
    | (.operator "||", _) :: rest => do
      let (second, rest) ← readCommand fuel (skipLines rest)
      readChainAfter fuel (.either first second) rest
    | rest => some (first, rest)

def readCommand : Nat → List Placed → Option (Command × List Placed)
  | 0, _ => none
  | fuel + 1, ls =>
    let line := (ls.head?.map (·.2)).getD 0
    let close := fun (c : Command) (rest : List Placed) =>
      let (rs, rest) := readRedirections rest
      if rs.isEmpty then (c, rest) else (.redirected line rs c, rest)
    match plainWord? ls with
    | some "!" => do
      let (c, rest) ← readCommand fuel (ls.drop 1)
      return (.negated c, rest)
    | some "\x7b" => do
      let (c, rest) ← readList fuel (ls.drop 1)
      return close c (← expectWord? "\x7d" rest)
    | some "if" => do
      let (c, rest) ← readChoice fuel (ls.drop 1)
      return close c rest
    | some "while" => do
      let (test, rest) ← readList fuel (ls.drop 1)
      let (body, rest) ← readList fuel (← expectWord? "do" rest)
      return close (.repeated false test body) (← expectWord? "done" rest)
    | some "until" => do
      let (test, rest) ← readList fuel (ls.drop 1)
      let (body, rest) ← readList fuel (← expectWord? "do" rest)
      return close (.repeated true test body) (← expectWord? "done" rest)
    | some "for" =>
      match ls.drop 1 with
      | (.word [.text name false], _) :: rest => do
        let (words?, rest) := match expectWord? "in" (skipLines rest) with
          | some rest =>
            let (ws, rest) := readWords rest
            (some ws, rest)
          | none => (none, rest)
        let rest := skipLines ((expectOperator? ";" rest).getD rest)
        let (body, rest) ← readList fuel (← expectWord? "do" rest)
        return close (.forEach name words? body) (← expectWord? "done" rest)
      | _ => none
    | some "case" =>
      match ls.drop 1 with
      | (.word subject, _) :: rest => do
        let rest ← expectWord? "in" (skipLines rest)
        let (c, rest) ← readArms fuel subject rest
        return close c rest
      | _ => none
    | some word =>
      if closingWords.contains word then none
      else
        let (ws, rs, rest) := readSimple ls
        some (simpleCommand line ws rs, rest)
    | none =>
      match ls with
      | (.operator "(", _) :: rest => do
        let (c, rest) ← readList fuel rest
        return close (.separate c) (← expectOperator? ")" rest)
      | (.operator _, _) :: _ => none
      | ls =>
        let (ws, rs, rest) := readSimple ls
        if rest.length < ls.length then some (simpleCommand line ws rs, rest) else none

def readChoice : Nat → List Placed → Option (Command × List Placed)
  | 0, _ => none
  | fuel + 1, ls => do
    let (test, rest) ← readList fuel ls
    let (yes, rest) ← readList fuel (← expectWord? "then" rest)
    match plainWord? rest with
    | some "elif" =>
      let (no, rest) ← readChoice fuel (rest.drop 1)
      return (.choice test yes no, rest)
    | some "else" =>
      let (no, rest) ← readList fuel (rest.drop 1)
      return (.choice test yes no, ← expectWord? "fi" rest)
    | _ => return (.choice test yes .nothing, ← expectWord? "fi" rest)

/-- Reads the arms of a choice by pattern. -/
def readArms : Nat → Word → List Placed → Option (Command × List Placed)
  | 0, _, _ => none
  | fuel + 1, subject, ls =>
    let ls := skipLines ls
    match expectWord? "esac" ls with
    | some rest => some (.nothing, rest)
    | none => do
      let (patterns, rest) ← readPatterns ((expectOperator? "(" ls).getD ls)
      let (body, rest) ← readList fuel rest
      let (others, rest) ←
        match expectOperator? ";;" rest with
        | some rest => readArms fuel subject rest
        | none => (expectWord? "esac" rest).map fun rest => (.nothing, rest)
      return (.arm subject patterns body others, rest)

end

def readScript? (script : Octets) : Option Command := do
  let ls ← cut (script.length + 1) 1 script
  let (c, rest) ← readList (4 * ls.length + 8) ls
  if rest.isEmpty then some c else none

end ILDump.Shell
