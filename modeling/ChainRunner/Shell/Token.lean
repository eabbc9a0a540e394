import ChainRunner.Shell.Syntax

/-!
Cutting a command text into words and operators.
-/

namespace ChainRunner.Shell

inductive Token
  | word (w : Word)
  | operator (s : String)
  /-- A redirection sign, behind a descriptor if one is written. -/
  | redirect (descriptor : Option Nat) (direction : Direction)
  /-- A quote or bracket here is left open. -/
  | broken (why : String)
deriving DecidableEq, Repr

def isNameStart (c : Char) : Bool := c.isAlpha || c = '_'

def isNameChar (c : Char) : Bool := c.isAlphanum || c = '_'

/-- A character at the end of a word. -/
def Word.addChar (w : Word) (c : Char) : Word :=
  match w.getLast? with
  | some (.text s) => w.dropLast ++ [.text (s.push c)]
  | _ => w ++ [.text c.toString]

/-- What stands before the bracket that closes `depth` open ones, and what follows it. -/
def closing (depth : Nat) (seen : List Char) : List Char → Option (List Char × List Char)
  | [] => none
  | '(' :: cs => closing (depth + 1) (seen ++ ['(']) cs
  | ')' :: cs =>
    match depth with
    | 0 => some (seen, cs)
    | d + 1 => closing d (seen ++ [')']) cs
  | c :: cs => closing depth (seen ++ [c]) cs

/-- What stands before `c`, and what follows it. -/
def upTo (c : Char) (cs : List Char) : Option (String × List Char) :=
  match cs.dropWhile (· != c) with
  | [] => none
  | _ :: rest => some (String.ofList (cs.takeWhile (· != c)), rest)

/-- What stands behind a `$`; an error if a bracket is left open. -/
def dollar (isQuoted : Bool) (cs : List Char) : Except String (Part × List Char) :=
  match cs with
  | '(' :: '(' :: cs =>
    match closing 0 [] cs with
    | some (e, ')' :: rest) => .ok (.arithmetic (String.ofList e) isQuoted, rest)
    | _ => .error "Missing '))'"
  | '(' :: cs =>
    match closing 0 [] cs with
    | some (source, rest) => .ok (.output (String.ofList source) isQuoted, rest)
    | none => .error "end of file unexpected (expecting \")\")"
  | '\x7b' :: cs =>
    match upTo '\x7d' cs with
    | some (name, rest) => .ok (.variable name isQuoted, rest)
    | none => .error "Missing '\x7d'"
  | c :: cs =>
    if isNameStart c then
      .ok (.variable (String.ofList (c :: cs.takeWhile isNameChar)) isQuoted,
        cs.dropWhile isNameChar)
    else if c.isDigit || c ∈ ['@', '*', '#', '?', '$'] then
      .ok (.variable c.toString isQuoted, cs)
    else .ok (.text "$", c :: cs)
  | [] => .ok (.text "$", [])

/-- What is said about a quote that is left open. -/
def openQuote : String := "Unterminated quoted string"

/-- The rest of a text in double quotes, in at most so many steps. -/
def doubleQuoted : Nat → Word → List Char → Except String (Word × List Char)
  | 0, _, _ => .error openQuote
  | n + 1, w, cs =>
    let keep (c : Char) (rest : List Char) : Except String (Word × List Char) :=
      let w := match w.getLast? with
        | some (.quoted s) => w.dropLast ++ [.quoted (s.push c)]
        | _ => w ++ [.quoted c.toString]
      doubleQuoted n w rest
    match cs with
    | [] => .error openQuote
    | '"' :: rest => .ok (w, rest)
    | '\\' :: '\n' :: rest => doubleQuoted n w rest
    | '\\' :: c :: rest => if c ∈ ['$', '`', '"', '\\'] then keep c rest else keep '\\' (c :: rest)
    | '`' :: rest =>
      match upTo '`' rest with
      | some (source, rest) => doubleQuoted n (w ++ [.output source true]) rest
      | none => .error "EOF in backquote substitution"
    | '$' :: rest =>
      match dollar true rest with
      | .ok (.text _, rest) => keep '$' rest
      | .ok (p, rest) => doubleQuoted n (w ++ [p]) rest
      | .error why => .error why
    | c :: rest => keep c rest

/-- The descriptor that a word before a redirection sign names. -/
def descriptorOf? (w : Option Word) : Option Nat :=
  match w with
  | some [.text s] => if s.toList.all Char.isDigit then s.toNat? else none
  | _ => none

def flush (done : List Token) : Option Word → List Token
  | some w => done ++ [.word w]
  | none => done

def redirectSign? : List Char → Option (Direction × List Char)
  | '>' :: '>' :: r => some (.append, r)
  | '>' :: '&' :: r => some (.duplicate, r)
  | '<' :: '&' :: r => some (.duplicate, r)
  | '>' :: r => some (.output, r)
  | '<' :: r => some (.input, r)
  | _ => none

def operator? : List Char → Option (String × List Char)
  | '&' :: '&' :: r => some ("&&", r)
  | '|' :: '|' :: r => some ("||", r)
  | ';' :: ';' :: r => some (";;", r)
  | c :: r => if c ∈ ['&', '|', ';', '(', ')', '\n'] then some (c.toString, r) else none
  | [] => none

/-- The tokens of a text, in at most so many steps; `w` is the word that has begun. -/
def lex : Nat → List Token → Option Word → List Char → List Token
  | 0, done, w, _ => flush done w
  | n + 1, done, w, cs =>
    let part (p : Part) (rest : List Char) : List Token := lex n done (some (w.getD [] ++ [p])) rest
    match cs with
    | [] => flush done w
    | '\\' :: '\n' :: rest => lex n done w rest
    | '\\' :: c :: rest => part (.quoted c.toString) rest
    | '\'' :: rest =>
      match upTo '\'' rest with
      | some (s, rest) => part (.quoted s) rest
      | none => done ++ [.broken openQuote]
    | '"' :: rest =>
      match doubleQuoted (rest.length + 1) (w.getD [] ++ [.quoted ""]) rest with
      | .ok (w, rest) => lex n done (some w) rest
      | .error why => done ++ [.broken why]
    | '`' :: rest =>
      match upTo '`' rest with
      | some (s, rest) => part (.output s false) rest
      | none => done ++ [.broken "EOF in backquote substitution"]
    | '$' :: rest =>
      match dollar false rest with
      | .ok (.text _, rest) => lex n done (some (Word.addChar (w.getD []) '$')) rest
      | .ok (p, rest) => part p rest
      | .error why => done ++ [.broken why]
    | c :: rest =>
      if c = ' ' ∨ c = '\t' then lex n (flush done w) none rest
      else if c = '#' ∧ w.isNone then lex n done none (rest.dropWhile (· != '\n'))
      else
        match redirectSign? cs with
        | some (direction, rest) =>
          match descriptorOf? w with
          | some fd => lex n (done ++ [.redirect (some fd) direction]) none rest
          | none => lex n (flush done w ++ [.redirect none direction]) none rest
        | none =>
          match operator? cs with
          | some (s, rest) => lex n (flush done w ++ [.operator s]) none rest
          | none => lex n done (some (Word.addChar (w.getD []) c)) rest

/-- The tokens of a command text. -/
def tokens (source : String) : List Token :=
  lex (source.length + 1) [] none source.toList

end ChainRunner.Shell
