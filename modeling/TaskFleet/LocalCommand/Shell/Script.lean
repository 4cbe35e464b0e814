/-
  TaskFleet.LocalCommand.Shell.Script — shell scripts, as they are written.

  A script is a list of pipelines joined by `;`, `&&` and `||`. A command is a list of words
  with redirections, or a compound of further pipelines. A word is made of pieces: text, and
  parameters and outputs of scripts, whose values come in when the command runs. Only
  unquoted pieces are split at blanks.
-/

import TaskFleet.Text.Digits

namespace TaskFleet.Shell

/-- A piece of a word. -/
inductive Piece where
  | text (s : List Char) (quoted : Bool)
  /-- The value of a parameter, or a text if it has none. -/
  | parameter (name : String) (otherwise : List Char) (quoted : Bool)
  /-- What a script writes. -/
  | output (script : List Char) (quoted : Bool)
  deriving DecidableEq, Repr

abbrev Word := List Piece

/-- Where a stream leads. -/
inductive Target where
  /-- Where the stream with this number goes. -/
  | stream (n : Nat)
  | file (name : Word)
  deriving DecidableEq, Repr

structure Redirect where
  stream : Nat
  target : Target
  deriving DecidableEq, Repr

/-- When a pipeline runs, given the one before it. -/
inductive Joint where
  | always
  | ifSucceeded
  | ifFailed
  deriving DecidableEq, Repr

mutual

inductive Command where
  | simple (words : List Word) (redirects : List Redirect)
  /-- A script in braces, or, if it is isolated, in brackets. -/
  | group (isolated : Bool) (body : List Pipeline) (redirects : List Redirect)
  | choice (condition yes no : List Pipeline) (redirects : List Redirect)
  /-- A script once for each of the fields of some words. -/
  | each (name : String) (values : List Word) (body : List Pipeline) (redirects : List Redirect)

/-- The commands between pipes. -/
inductive Pipeline where
  | mk (joint : Joint) (negated : Bool) (commands : List Command)

end

abbrev Script := List Pipeline

/-! ## Tokens -/

inductive Token where
  | word (w : Word)
  /-- A stream sent to where another one goes. -/
  | duplicate (stream target : Nat)
  /-- A stream that leads to the file that the next word names. -/
  | toFile (stream : Nat)
  | pipe
  | joint (j : Joint)
  | opening
  | closing
  deriving DecidableEq, Repr

def isNameChar (c : Char) : Bool := c.isAlphanum || c = '_'

/-- The text up to the bracket that closes one before it. -/
def enclosed? : (depth : Nat) → List Char → Option (List Char × List Char)
  | _, [] => none
  | 0, ')' :: r => some ([], r)
  | depth + 1, ')' :: r => (enclosed? depth r).map fun (s, r) => (')' :: s, r)
  | depth, '(' :: r => (enclosed? (depth + 1) r).map fun (s, r) => ('(' :: s, r)
  | depth, c :: r => (enclosed? depth r).map fun (s, r) => (c :: s, r)

/-- The piece after a dollar sign; none if the sign stands for itself. -/
def dollar? (quoted : Bool) : List Char → Option (Piece × List Char)
  | '(' :: r => (enclosed? 0 r).map fun (script, r) => (.output script quoted, r)
  | '\x7b' :: r =>
    let name := String.ofList (r.takeWhile isNameChar)
    match r.dropWhile isNameChar with
    | '\x7d' :: r => some (.parameter name [] quoted, r)
    | ':' :: '-' :: r => some (.parameter name (r.takeWhile (· != '\x7d')) quoted, (r.dropWhile (· != '\x7d')).drop 1)
    | _ => none
  | c :: r =>
    if c = '$' ∨ c = '?' ∨ c = '#' ∨ c = '@' ∨ c = '*' ∨ c.isDigit then
      some (.parameter (String.singleton c) [] quoted, r)
    else if isNameChar c then
      some (.parameter (String.ofList ((c :: r).takeWhile isNameChar)) [] quoted, (c :: r).dropWhile isNameChar)
    else none
  | [] => none

/-- The script between two backquotes, after the first one. -/
def backquoted? (r : List Char) : Option (List Char × List Char) :=
  match r.dropWhile (· != '\x60') with
  | _ :: rest => some (r.takeWhile (· != '\x60'), rest)
  | [] => none

/-- The pieces between two quotes, after the first one. -/
def quotedPieces? : (fuel : Nat) → List Char → Option (List Piece × List Char)
  | 0, _ => none
  | fuel + 1, cs =>
    let on (p : Piece) (r : List Char) := (quotedPieces? fuel r).map fun (ps, r) => (p :: ps, r)
    match cs with
    | [] => none
    | '"' :: r => some ([.text [] true], r)
    | '\\' :: c :: r =>
      if c = '$' ∨ c = '"' ∨ c = '\\' ∨ c = '\x60' then on (.text [c] true) r else on (.text ['\\'] true) (c :: r)
    | '\x60' :: r => do
      let (script, r) ← backquoted? r
      on (.output script true) r
    | '$' :: r =>
      match dollar? true r with
      | some (p, r) => on p r
      | none => on (.text ['$'] true) r
    | c :: r => on (.text [c] true) r

/-- Whether a character ends a word. -/
def endsWord (c : Char) : Bool :=
  c = ' ' || c = '\t' || c = '\n' || c = ';' || c = '&' || c = '|' || c = '<' || c = '>' || c = '(' || c = ')'

/-- The pieces of a word. -/
def pieces? : (fuel : Nat) → List Char → Option (Word × List Char)
  | 0, _ => none
  | fuel + 1, cs =>
    let on (ps : List Piece) (r : List Char) := (pieces? fuel r).map fun (w, r) => (ps ++ w, r)
    match cs with
    | [] => some ([], [])
    | '\'' :: r =>
      let inside := r.takeWhile (· != '\'')
      match r.dropWhile (· != '\'') with
      | _ :: r => on [.text inside true] r
      | [] => none
    | '"' :: r => do
      let (ps, r) ← quotedPieces? fuel r
      on ps r
    | '\\' :: '\n' :: r => on [] r
    | '\\' :: c :: r => on [.text [c] true] r
    | '\x60' :: r => do
      let (script, r) ← backquoted? r
      on [.output script false] r
    | '$' :: r =>
      match dollar? false r with
      | some (p, r) => on [p] r
      | none => on [.text ['$'] false] r
    | c :: r => if endsWord c then some ([], c :: r) else on [.text [c] false] r

/-- A redirection of a stream, after its `>`. -/
def redirect (stream : Nat) : List Char → Token × List Char
  | '&' :: c :: r =>
    match Text.digit? c with
    | some n => (.duplicate stream n, r)
    | none => (.toFile stream, c :: r)
  | '>' :: r => (.toFile stream, r)
  | r => (.toFile stream, r)

/-- The tokens of a script; none if it breaks off or uses what is not known here. -/
def tokens? : (fuel : Nat) → List Char → Option (List Token)
  | 0, _ => none
  | fuel + 1, cs =>
    let on (t : Token) (r : List Char) := (tokens? fuel r).map (t :: ·)
    match cs with
    | [] => some []
    | ' ' :: r | '\t' :: r => tokens? fuel r
    | '#' :: r => tokens? fuel (r.dropWhile (· != '\n'))
    | ';' :: r | '\n' :: r => on (.joint .always) r
    | '&' :: '&' :: r => on (.joint .ifSucceeded) r
    | '|' :: '|' :: r => on (.joint .ifFailed) r
    | '|' :: r => on .pipe r
    | '(' :: r => on .opening r
    | ')' :: r => on .closing r
    | '>' :: r | '1' :: '>' :: r =>
      let (t, r) := redirect 1 r
      on t r
    | '2' :: '>' :: r =>
      let (t, r) := redirect 2 r
      on t r
    | '<' :: r => on (.toFile 0) r
    | c :: r =>
      if endsWord c then none
      else do
        let (w, r) ← pieces? fuel (c :: r)
        on (.word w) r

/-! ## Scripts -/

/-- The text of a word without quotes and parameters. -/
def plain? (w : Word) : Option String :=
  (w.mapM fun (p : Piece) =>
    match p with
    | .text s false => some s
    | _ => none).map fun (parts : List (List Char)) => String.ofList parts.flatten

/-- The name that a word gives a value, and the word of the value. -/
def assignment? (w : Word) : Option (String × Word) :=
  let letters := w.map fun p =>
    match p with
    | .text [c] false => some c
    | _ => none
  let name := letters.takeWhile fun c => c.any isNameChar
  match name, letters.drop name.length with
  | some c :: _, some '=' :: _ =>
    if c.isDigit then none else some (String.ofList (name.filterMap id), w.drop (name.length + 1))
  | _, _ => none

/-- Whether a word that has a meaning of its own comes next. -/
def startsWith (words : List String) : List Token → Bool
  | .word w :: _ => (plain? w).any words.contains
  | _ => false

/-- The tokens after a word that has to come. -/
def afterWord? (word : String) : List Token → Option (List Token)
  | .word w :: r => if plain? w = some word then some r else none
  | _ => none

/-- The tokens after line breaks. -/
def skipBreaks : List Token → List Token
  | .joint .always :: r => skipBreaks r
  | ts => ts

/-- The words and redirections at the front. -/
def simple? : List Token → Option (List Word × List Redirect × List Token)
  | .word w :: r => (simple? r).map fun (ws, rs, r) => (w :: ws, rs, r)
  | .duplicate stream target :: r => (simple? r).map fun (ws, rs, r) => (ws, ⟨stream, .stream target⟩ :: rs, r)
  | .toFile stream :: .word w :: r => (simple? r).map fun (ws, rs, r) => (ws, ⟨stream, .file w⟩ :: rs, r)
  | .toFile _ :: _ => none
  | ts => some ([], [], ts)

/-- The redirections behind a compound command. -/
def redirects? (ts : List Token) : Option (List Redirect × List Token) :=
  match simple? ts with
  | some ([], rs, r) => some (rs, r)
  | _ => none

mutual

/-- The pipelines up to a closing bracket, or to one of these words in the place of a
    command; `joint` belongs to the first one. -/
def pipelines? : (fuel : Nat) → (ends : List String) → (joint : Joint) → List Token → Option (Script × List Token)
  | 0, _, _, _ => none
  | fuel + 1, ends, joint, ts =>
    match skipBreaks ts with
    | [] => if joint = .always then some ([], []) else none
    | .closing :: r => if joint = .always then some ([], .closing :: r) else none
    | ts =>
      if startsWith ends ts then (if joint = .always then some ([], ts) else none)
      else do
        let negated := startsWith ["!"] ts
        let (commands, r) ← commands? fuel (if negated then ts.drop 1 else ts)
        let p : Pipeline := .mk joint negated commands
        match r with
        | .joint next :: r =>
          let (ps, r) ← pipelines? fuel ends next r
          return (p :: ps, r)
        | [] | .closing :: _ => return ([p], r)
        | _ => none

/-- The commands between pipes. -/
def commands? : (fuel : Nat) → List Token → Option (List Command × List Token)
  | 0, _ => none
  | fuel + 1, ts => do
    let (c, r) ← command? fuel ts
    match r with
    | .pipe :: r =>
      let (cs, r) ← commands? fuel (skipBreaks r)
      return (c :: cs, r)
    | r => return ([c], r)

/-- One command. -/
def command? : (fuel : Nat) → List Token → Option (Command × List Token)
  | 0, _ => none
  | fuel + 1, ts =>
    match ts with
    | .opening :: r => do
      let (body, r) ← pipelines? fuel [] .always r
      match r with
      | .closing :: r =>
        let (redirects, r) ← redirects? r
        return (.group true body redirects, r)
      | _ => none
    | ts =>
      if startsWith ["\x7b"] ts then do
        let (body, r) ← pipelines? fuel ["\x7d"] .always (ts.drop 1)
        let (redirects, r) ← redirects? (← afterWord? "\x7d" r)
        return (.group false body redirects, r)
      else if startsWith ["if"] ts then choice? fuel (ts.drop 1)
      else if startsWith ["for"] ts then loop? fuel (ts.drop 1)
      else do
        let (words, redirects, r) ← simple? ts
        if words.isEmpty ∧ redirects.isEmpty then none
        return (.simple words redirects, r)

/-- A choice after its `if` or `elif`. -/
def choice? : (fuel : Nat) → List Token → Option (Command × List Token)
  | 0, _ => none
  | fuel + 1, ts => do
    let (condition, r) ← pipelines? fuel ["then"] .always ts
    let (yes, r) ← pipelines? fuel ["elif", "else", "fi"] .always (← afterWord? "then" r)
    if startsWith ["elif"] r then
      let (other, r) ← choice? fuel (r.drop 1)
      return (.choice condition yes [.mk .always false [other]] [], r)
    else
      let (no, r) ← if startsWith ["else"] r then pipelines? fuel ["fi"] .always (r.drop 1) else some ([], r)
      let (redirects, r) ← redirects? (← afterWord? "fi" r)
      return (.choice condition yes no redirects, r)

/-- A loop over fields, after its `for`. -/
def loop? : (fuel : Nat) → List Token → Option (Command × List Token)
  | 0, _ => none
  | fuel + 1, ts => do
    let .word name :: r := ts | none
    let (values, redirects, r) ← simple? (← afterWord? "in" r)
    unless redirects.isEmpty do none
    let (body, r) ← pipelines? fuel ["done"] .always (← afterWord? "do" (skipBreaks r))
    let (redirects, r) ← redirects? (← afterWord? "done" r)
    return (.each (← plain? name) values body redirects, r)

end

/-- Why a text is no script. -/
inductive ScriptError where
  | unterminated
  | unexpectedEnd
  deriving DecidableEq, Repr

def ScriptError.message : ScriptError → String
  | unterminated => "Syntax error: Unterminated quoted string"
  | unexpectedEnd => "Syntax error: end of file unexpected"

/-- Reads a script. -/
def script (text : List Char) : Except ScriptError Script :=
  match tokens? (2 * text.length + 2) text with
  | none => .error .unterminated
  | some ts =>
    match pipelines? (4 * ts.length + 4) [] .always ts with
    | some (script, []) => .ok script
    | _ => .error .unexpectedEnd

end TaskFleet.Shell
