import ChainRunner.Shell.Token

/-!
Reading commands from tokens. What cannot be read is named by the token where reading stopped.

Every reader takes an allowance that bounds how often readers call each other; a text never needs
more than some multiple of its tokens.
-/

namespace ChainRunner.Shell

/-- The words that only mean themselves where a command may begin. -/
def reservedWords : List String :=
  ["!", "\x7b", "\x7d", "if", "then", "elif", "else", "fi", "while", "until", "for", "do", "done"]

/-- The word as a reserved word, which is never quoted. -/
def reserved? : List Token → Option (String × List Token)
  | .word [.text s] :: rest => some (s, rest)
  | _ => none

/-- What is said about the first token. -/
def unexpected (ts : List Token) (wanted : Option String) : String :=
  let quoted (s : String) : String := "\"" ++ s ++ "\""
  let found : String :=
    match ts with
    | [] => "end of file"
    | .operator "\n" :: _ => "newline"
    | .operator s :: _ => quoted s
    | .redirect _ _ :: _ => "redirection"
    | .word [.text s] :: _ => if s ∈ reservedWords then quoted s else "word"
    | _ => "word"
  match ts, wanted with
  | .broken why :: _, _ => why
  | _, none => found ++ " unexpected"
  | _, some s => found ++ " unexpected (expecting " ++ quoted s ++ ")"

/-- Something that was read, and the tokens that are left. -/
abbrev Parsed (α : Type) := α × List Token

def stop {α : Type} (ts : List Token) : Except String α := .error (unexpected ts none)

/-- Take a reserved word. -/
def expect (s : String) (ts : List Token) : Except String (List Token) :=
  match reserved? ts with
  | some (t, rest) => if t = s then .ok rest else .error (unexpected ts (some s))
  | none => .error (unexpected ts (some s))

/-- No further command begins here. -/
def isClosing (ts : List Token) : Bool :=
  match ts with
  | [] => true
  | .operator ")" :: _ => true
  | .operator ";;" :: _ => true
  | ts =>
    match reserved? ts with
    | some (s, _) => s ∈ ["then", "else", "elif", "fi", "do", "done", "\x7d"]
    | none => false

def skipLines : List Token → List Token
  | .operator "\n" :: ts => skipLines ts
  | ts => ts

/-- A word that gives a variable its value. -/
def assignment? (w : Word) : Option (String × Word) :=
  match w with
  | .text s :: rest =>
    let name := s.toList.takeWhile isNameChar
    match name, s.toList.dropWhile isNameChar with
    | c :: _, '=' :: v =>
      if isNameStart c then
        some (String.ofList name, if v.isEmpty then rest else .text (String.ofList v) :: rest)
      else none
    | _, _ => none
  | _ => none

/-- The descriptor a redirection stands for when none is written. -/
def Direction.standard : Direction → Nat
  | .input => 0
  | .output | .append | .duplicate => 1

def redirects : List Token → Except String (Parsed (List Redirect))
  | .redirect fd d :: .word w :: rest =>
    (redirects rest).map fun p => (⟨fd.getD d.standard, d, w⟩ :: p.1, p.2)
  | .redirect _ _ :: rest => stop rest
  | ts => .ok ([], ts)

/-- The rest of a simple command. -/
def simple (assigns : List (String × Word)) (words : List Word) (rs : List Redirect) :
    List Token → Except String (Parsed Command)
  | .word w :: rest =>
    match (if words.isEmpty then assignment? w else none) with
    | some a => simple (assigns ++ [a]) words rs rest
    | none => simple assigns (words ++ [w]) rs rest
  | .redirect fd d :: .word w :: rest =>
    simple assigns words (rs ++ [⟨fd.getD d.standard, d, w⟩]) rest
  | .redirect _ _ :: rest => stop rest
  | ts => if assigns.isEmpty && words.isEmpty && rs.isEmpty then stop ts
    else .ok (.simple assigns words rs, ts)

def takeWords : List Token → List Word × List Token
  | .word w :: ts => let p := takeWords ts; (w :: p.1, p.2)
  | ts => ([], ts)

/-- The name and the values of a `for`, up to its `do`. -/
def eachHeader (ts : List Token) : Except String (Parsed (String × List Word)) :=
  match reserved? ts with
  | none => .error "Bad for loop variable"
  | some (name, ts) =>
    if !(name.toList.all isNameChar && name.toList.head?.any isNameStart) then
      .error "Bad for loop variable"
    else
      match reserved? (skipLines ts) with
      | some ("in", rest) =>
        let (words, ts) := takeWords rest
        match ts with
        | .operator ";" :: ts => .ok ((name, words), skipLines ts)
        | .operator "\n" :: ts => .ok ((name, words), skipLines ts)
        | ts => stop ts
      | _ =>
        let ts := match ts with
          | .operator ";" :: ts => ts
          | ts => ts
        .ok ((name, [[.variable "@" true]]), skipLines ts)

mutual

/-- Commands one after the other, at least one if there is anything. -/
def readList : Nat → List Token → Except String (Parsed Command)
  | 0, ts => stop ts
  | n + 1, ts => do
    let ts := skipLines ts
    if ts.isEmpty then return (.nothing, ts)
    let (a, ts) ← readChain n ts
    match ts with
    | .operator s :: rest =>
      if s = ";" ∨ s = "&" ∨ s = "\n" then
        let rest := skipLines rest
        if isClosing rest then return (a, rest)
        let (b, rest) ← readList n rest
        return (.seq a b, rest)
      else return (a, ts)
    | _ => return (a, ts)

/-- Commands between `&&` and `||`. -/
def readChain : Nat → List Token → Except String (Parsed Command)
  | 0, ts => stop ts
  | n + 1, ts => do
    let (a, ts) ← readPipe n ts
    readMore n a ts

def readMore : Nat → Command → List Token → Except String (Parsed Command)
  | 0, _, ts => stop ts
  | n + 1, a, ts =>
    match ts with
    | .operator "&&" :: rest => do
      let (b, rest) ← readPipe n (skipLines rest)
      readMore n (.both a b) rest
    | .operator "||" :: rest => do
      let (b, rest) ← readPipe n (skipLines rest)
      readMore n (.either a b) rest
    | ts => .ok (a, ts)

def readPipe : Nat → List Token → Except String (Parsed Command)
  | 0, ts => stop ts
  | n + 1, ts =>
    match reserved? ts with
    | some ("!", rest) => do
      let (a, rest) ← readPipe n rest
      return (.negate a, rest)
    | _ => do
      let (a, ts) ← readCommand n ts
      match ts with
      | .operator "|" :: rest =>
        let (b, rest) ← readPipe n (skipLines rest)
        return (.pipe a b, rest)
      | ts => return (a, ts)

def readCommand : Nat → List Token → Except String (Parsed Command)
  | 0, ts => stop ts
  | n + 1, ts => do
    let (c, ts) ← readBare n ts
    match c with
    | .simple _ _ _ => return (c, ts)
    | _ =>
      let (rs, ts) ← redirects ts
      return (if rs.isEmpty then c else .redirected c rs, ts)

/-- A command without the redirections behind a compound one. -/
def readBare : Nat → List Token → Except String (Parsed Command)
  | 0, ts => stop ts
  | n + 1, ts =>
    match ts with
    | .operator "(" :: rest => do
      let (a, rest) ← readList n rest
      match rest with
      | .operator ")" :: rest => return (.subshell a, rest)
      | rest => .error (unexpected rest (some ")"))
    | ts =>
      match reserved? ts with
      | some ("\x7b", rest) => do
        let (a, rest) ← readList n rest
        return (.seq a .nothing, ← expect "\x7d" rest)
      | some ("if", rest) => readBranch n rest
      | some ("while", rest) => readLoop n false rest
      | some ("until", rest) => readLoop n true rest
      | some ("for", rest) => readEach n rest
      | some (s, _) => if s ∈ reservedWords then stop ts else simple [] [] [] ts
      | none => simple [] [] [] ts

/-- What follows `if` or `elif`. -/
def readBranch : Nat → List Token → Except String (Parsed Command)
  | 0, ts => stop ts
  | n + 1, ts => do
    let (test, ts) ← readList n ts
    let (yes, ts) ← readList n (← expect "then" ts)
    match reserved? ts with
    | some ("elif", rest) =>
      let (no, rest) ← readBranch n rest
      return (.branch test yes no, rest)
    | some ("else", rest) =>
      let (no, rest) ← readList n rest
      return (.branch test yes no, ← expect "fi" rest)
    | _ => return (.branch test yes .nothing, ← expect "fi" ts)

def readLoop : Nat → Bool → List Token → Except String (Parsed Command)
  | 0, _, ts => stop ts
  | n + 1, untilHolds, ts => do
    let (test, ts) ← readList n ts
    let (body, ts) ← readList n (← expect "do" ts)
    return (.loop untilHolds test body, ← expect "done" ts)

def readEach : Nat → List Token → Except String (Parsed Command)
  | 0, ts => stop ts
  | n + 1, ts => do
    let ((name, words), ts) ← eachHeader ts
    let (body, ts) ← readList n (← expect "do" ts)
    return (.each name words body, ← expect "done" ts)

end

/-- The commands of a text, or what is wrong with it. -/
def parse (source : String) : Except String Command := do
  let ts := tokens source
  match ← readList (8 * ts.length + 8) ts with
  | (c, []) => return c
  | (_, ts) => stop ts

end ChainRunner.Shell
