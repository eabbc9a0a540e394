import ChainRunner.Shell.Expansion

/-!
The commands that come with the shell and neither start nor end anything.
-/

namespace ChainRunner.Shell

open Files Text

/-- The byte that a letter behind a backslash stands for. -/
def letterByte? : Char → Option UInt8
  | 'n' => some 10
  | 't' => some 9
  | 'r' => some 13
  | 'a' => some 7
  | 'b' => some 8
  | 'f' => some 12
  | 'v' => some 11
  | '\\' => some 92
  | _ => none

/-- A number in base 8 of at most three digits, behind a `0` if `zeroFirst`. -/
def octal? (zeroFirst : Bool) (cs : List Char) : Option (UInt8 × List Char) :=
  let cs? := if zeroFirst then (match cs with | '0' :: r => some r | _ => none) else some cs
  cs?.bind fun r =>
    let ds := (r.take 3).takeWhile (isDigit 8)
    if ds.isEmpty && !zeroFirst then none else some (.ofNat (number 8 ds), r.drop ds.length)

/-- What a text stands for, up to a `\c`, in at most so many steps; says whether there was one. -/
def unescape (zeroFirst : Bool) : Nat → List Char → Bytes × Bool
  | 0, _ => ([], false)
  | n + 1, cs =>
    match cs with
    | [] => ([], false)
    | ['\\'] => ([92], false)
    | '\\' :: c :: r =>
      if c = 'c' then ([], true)
      else
        let (bs, r) : Bytes × List Char :=
          match octal? zeroFirst (c :: r), letterByte? c with
          | some (b, r), _ => ([b], r)
          | none, some b => ([b], r)
          | none, none => (92 :: encode c.toString, r)
        let p := unescape zeroFirst n r
        (bs ++ p.1, p.2)
    | c :: r =>
      let p := unescape zeroFirst n r
      (encode c.toString ++ p.1, p.2)

def unescapeAll (zeroFirst : Bool) (cs : List Char) : Bytes × Bool :=
  unescape zeroFirst cs.length cs

/-- What `echo` writes. -/
def echoed (args : List String) : Bytes :=
  let (newline, args) :=
    match args with
    | "-n" :: rest => (false, rest)
    | args => (true, args)
  let (bs, cut) := unescapeAll true (" ".intercalate args).toList
  if newline && !cut then bs ++ [10] else bs

/-- A text filled up to a width. -/
def padded (flags : List Char) (width : Nat) (bs : Bytes) : Bytes :=
  let gap := width - bs.length
  if '-' ∈ flags then bs ++ List.replicate gap 32
  else if '0' ∈ flags then List.replicate gap 48 ++ bs
  else List.replicate gap 32 ++ bs

/-- One conversion of a format; the argument may be missing. -/
def converted (kind : Char) (arg : Option String) : Bytes :=
  let n := (arg.bind String.toInt?).getD 0
  match kind with
  | 's' => encode (arg.getD "")
  | 'c' => encode ((arg.getD "").take 1).toString
  | 'b' => (unescapeAll true (arg.getD "").toList).1
  | 'o' => encode (String.ofList (Nat.toDigits 8 n.toNat))
  | 'x' => encode (String.ofList (Nat.toDigits 16 n.toNat))
  | _ => encode (toString n)

/-- One pass over a format: what is written, and the arguments that are left. -/
def formatted : Nat → List Char → List String → Bytes × List String
  | 0, _, args => ([], args)
  | n + 1, format, args =>
    match format with
    | [] => ([], args)
    | '%' :: '%' :: r => let p := formatted n r args; (37 :: p.1, p.2)
    | '%' :: r =>
      let flags := r.takeWhile fun c => c = '-' || c = '0'
      let r := r.dropWhile fun c => c = '-' || c = '0'
      let width := number 10 (r.takeWhile Char.isDigit)
      match r.dropWhile Char.isDigit with
      | kind :: r =>
        let p := formatted n r (args.drop 1)
        (padded flags width (converted kind args.head?) ++ p.1, p.2)
      | [] => ([], args)
    | r =>
      let plain := r.takeWhile (· != '%')
      let p := formatted n (r.dropWhile (· != '%')) args
      ((unescapeAll false plain).1 ++ p.1, p.2)

/-- What `printf` writes: the format is used again while arguments are left. -/
def printed (format : String) (args : List String) : Bytes :=
  let cs := format.toList
  let rec go : Nat → List String → Bytes
    | 0, _ => []
    | n + 1, args =>
      let p := formatted (cs.length + 1) cs args
      if p.2.isEmpty || p.2.length = args.length then p.1 else p.1 ++ go n p.2
  go (args.length + 1) args

/-- A number with a fraction, in microseconds. -/
def microseconds? (s : String) : Option Nat :=
  let whole := s.toList.takeWhile Char.isDigit
  let digits (cs : List Char) : Nat := number 10 ((cs ++ List.replicate 6 '0').take 6)
  match s.toList.dropWhile Char.isDigit with
  | [] => if whole.isEmpty then none else some (number 10 whole * 1000000)
  | '.' :: frac =>
    if frac.all Char.isDigit then some (number 10 whole * 1000000 + digits frac) else none
  | _ => none

/-- Whether a test holds; none for what is no test. -/
def holds? (d : Disk) (cwd : Place) : List String → Option Bool
  | [] => some false
  | "!" :: rest => (holds? d cwd rest).map not
  | [s] => some (s ≠ "")
  | [op, s] =>
    match op with
    | "-n" => some (s ≠ "")
    | "-z" => some (s = "")
    | "-e" => some ((d.view cwd).pathExists s)
    | "-f" => some ((d.view cwd).isFile s)
    | "-d" => some ((d.view cwd).isDir s)
    | "-s" => some (match d.read cwd s with | .ok bs => !bs.isEmpty | .error _ => false)
    | _ => none
  | [a, op, b] =>
    match op, a.toInt?, b.toInt? with
    | "=", _, _ => some (a = b)
    | "!=", _, _ => some (a ≠ b)
    | "-eq", some x, some y => some (x = y)
    | "-ne", some x, some y => some (x ≠ y)
    | "-lt", some x, some y => some (x < y)
    | "-le", some x, some y => some (x ≤ y)
    | "-gt", some x, some y => some (y < x)
    | "-ge", some x, some y => some (y ≤ x)
    | _, _, _ => none
  | _ => none

/-- Options in front of other arguments, as letters. -/
def letters : List String → List Char × List String
  | a :: rest =>
    match a.toList with
    | '-' :: c :: cs => let p := letters rest; (c :: cs ++ p.1, p.2)
    | _ => ([], a :: rest)
  | [] => ([], [])

/-- A state with the status of a command that wrote `err`. -/
abbrev Done := State × Disk

namespace State

def done (s : State) (d : Disk) (status : Nat) : Done := ({ s with status }, d)

/-- Complain about one argument; the status will be 1. -/
def fault (s : State) (d : Disk) (text : String) : Done :=
  let (s, d) := s.complain d (text ++ "\n")
  ({ s with status := 1 }, d)

/-- Print something; there must be something to print to. -/
def print (s : State) (d : Disk) (name : String) (bytes : Bytes) : Done :=
  if s.env.fds.get 1 = .closed && !bytes.isEmpty then
    s.fault d s!"sh: 1: {name}: {name}: I/O error"
  else
    let (s, d) := s.write d 1 bytes
    s.done d 0

def cat (s : State) (d : Disk) (args : List String) : Done :=
  if args.isEmpty || args = ["-"] then
    match s.env.fds.get 0 with
    | .source bs =>
      let (s, d) := s.write d 1 bs
      { s with env := { s.env with fds := s.env.fds.set 0 .null } }.done d 0
    | _ => s.done d 0
  else
    args.foldl
      (fun (s, d) a =>
        match if a = "/dev/null" then .ok [] else d.read s.env.cwd a with
        | .ok bs => s.write d 1 bs
        | .error e => s.fault d s!"cat: {a}: {e.text}")
      (s.done d 0)

def rm (s : State) (d : Disk) (args : List String) : Done :=
  let (opts, paths) := letters args
  let force := 'f' ∈ opts
  let deep := 'r' ∈ opts || 'R' ∈ opts
  paths.foldl
    (fun (s, d) a =>
      match d.locate s.env.cwd a false with
      | .error e => if force then (s, d) else s.fault d s!"rm: cannot remove '{a}': {e.text}"
      | .ok p =>
        match d.node? p with
        | none =>
          if force then (s, d) else s.fault d s!"rm: cannot remove '{a}': {Errno.noEntry.text}"
        | some .dir =>
          if deep then (s, d.remove p)
          else s.fault d s!"rm: cannot remove '{a}': {Errno.isDirectory.text}"
        | some _ => (s, d.remove p))
    (s.done d 0)

def mkdir (s : State) (d : Disk) (args : List String) : Done :=
  let (opts, paths) := letters args
  let deep := 'p' ∈ opts
  paths.foldl
    (fun (s, d) a =>
      let names := Disk.names a
      let tries := if deep then (List.range names.length).map fun n => names.take (n + 1)
        else [names]
      tries.foldl
        (fun (s, d) ns =>
          let path := "/".intercalate ns
          if path = "" then (s, d)
          else
            match d.locate s.env.cwd path true with
            | .error e => s.fault d s!"mkdir: cannot create directory '{a}': {e.text}"
            | .ok p =>
              match d.node? p with
              | none => (s, d.put p .dir)
              | some n =>
                if deep && n = .dir then (s, d)
                else s.fault d s!"mkdir: cannot create directory '{a}': {Errno.alreadyThere.text}")
        (s, d))
    (s.done d 0)

def touch (s : State) (d : Disk) (args : List String) : Done :=
  args.foldl
    (fun (s, d) a =>
      match d.openFile s.env.cwd a false with
      | .ok (p, d) => (s, { d with touched := d.touched ++ [p] })
      | .error .isDirectory => (s, d)
      | .error e => s.fault d s!"touch: cannot touch '{a}': {e.text}")
    (s.done d 0)

/-- Where a copy goes: into a directory under its old name, or under the new one. -/
def destination (s : State) (d : Disk) (src dst : String) : String :=
  if (d.view s.env.cwd).isDir dst then Path.join dst ((Path.fileName? src).getD "") else dst

def copy (s : State) (d : Disk) (away : Bool) (name src dst : String) : Done :=
  match d.find s.env.cwd src with
  | .ok (p, .file bytes x) =>
    match d.locate s.env.cwd (s.destination d src dst) true with
    | .ok q =>
      let d := d.put q (.file bytes x)
      (s, if away then d.remove p else d)
    | .error e => s.fault d s!"{name}: cannot create '{dst}': {e.text}"
  | .ok (_, _) => s.fault d s!"{name}: omitting directory '{src}'"
  | .error e => s.fault d s!"{name}: cannot stat '{src}': {e.text}"

def ls (s : State) (d : Disk) (args : List String) : Done :=
  let dirs := if args.isEmpty then ["."] else args
  dirs.foldl
    (fun (s, d) a =>
      match d.find s.env.cwd a with
      | .ok (p, .dir) =>
        s.say d (String.join (((d.children p).filter (!·.startsWith ".")).map (· ++ "\n")))
      | .ok (_, _) => s.say d (a ++ "\n")
      | .error e => s.fault d s!"ls: cannot access '{a}': {e.text}")
    (s.done d 0)

/-- Run a command that neither starts nor ends anything, if it is one. -/
def utility? (s : State) (d : Disk) (name : String) (args : List String) : Option Done :=
  let test (args : List String) : Done :=
    match holds? d s.env.cwd args with
    | some b => s.done d (if b then 0 else 1)
    | none =>
      let (s, d) := s.complain d s!"sh: 1: {name}: unexpected operator\n"
      s.done d 2
  match name, args with
  | ":", _ => some (s.done d 0)
  | "true", _ => some (s.done d 0)
  | "false", _ => some (s.done d 1)
  -- a command in the background is carried out at once, so there is nothing to wait for
  | "wait", _ => some (s.done d 0)
  | "echo", args => some (s.print d name (echoed args))
  | "printf", f :: args => some (s.print d name (printed f args))
  | "pwd", _ => some (s.print d name (encode (s.env.cwd.path ++ "\n")))
  | "cat", args => some (s.cat d args)
  | "rm", args => some (s.rm d args)
  | "mkdir", args => some (s.mkdir d args)
  | "touch", args => some (s.touch d args)
  | "ls", args => some (s.ls d args)
  | "cp", [a, b] => some (let (s, d) := s.done d 0; s.copy d false "cp" a b)
  | "mv", [a, b] => some (let (s, d) := s.done d 0; s.copy d true "mv" a b)
  | "test", args => some (test args)
  | "[", args =>
    if args.getLast? = some "]" then some (test args.dropLast)
    else
      some (let (s, d) := s.complain d "sh: 1: [: missing ]\n"; s.done d 2)
  | _, _ => none

end State

end ChainRunner.Shell
