import Smalltalk.Text.Blank

/-!
# `Smalltalk.CommandLine.Options`: reading the arguments of the command

The command takes image files and the options `--run`, `--recursion-limit`,
`-v` (`--verbose`) and `-h` (`--help`). A long option may be shortened as
long as it stays unambiguous, and its value may follow behind `=`. Single
letters without values can be joined, with `=` behind the first or without.
Behind `--` everything is a file.

The files stand in one stretch: the first place where files may stand, before
an option or behind the last one, takes all files that stand there, and files
anywhere else are refused.
-/

set_option autoImplicit false

namespace Smalltalk.CommandLine

/-- The options there are. -/
inductive Flag where
  | help
  | run
  | recursionLimit
  | verbose
deriving DecidableEq, Repr

/-- The spellings of the options. -/
def spellings : List (String × Flag) := [
  ("-h", .help), ("--help", .help), ("--run", .run), ("--recursion-limit", .recursionLimit),
  ("-v", .verbose), ("--verbose", .verbose)]

/-- Whether an option needs a value. -/
def Flag.takesValue : Flag → Bool
  | run | recursionLimit => true
  | help | verbose => false

/-- What an option is given as its value. The mark `--` is never a value: an option
that has it behind its `=` is given nothing. -/
inductive Given where
  | text (s : String)
  | nothing
deriving Repr, DecidableEq

/-- The value that a text behind `=` gives. -/
def Given.ofText (s : String) : Given := if s = "--" then .nothing else .text s

/-- What the arguments ask for. -/
structure Options where
  images : List String := []
  run : Option Given := none
  recursionLimit : Option Given := none
  verbose : Bool := false
deriving Repr, DecidableEq

/-- What comes of reading the arguments. -/
inductive Parsed where
  | options (o : Options)
  | help
  | usageError
deriving Repr, DecidableEq

/-- One argument by its looks. A `flag` has the value that is joined to it, a
`letter` the letters joined to it. -/
inductive Token where
  | word (s : String)
  | flag (f : Flag) (value : Option String)
  | letter (f : Flag) (joined : List Char)
  | unknown
  | ambiguous
deriving Repr, DecidableEq

/-- Whether a character is a decimal digit of some script: one of ten in a row from
one of these zeros, those of Unicode 14.0. -/
def isScriptDigit (c : Char) : Bool :=
  [0x30, 0x660, 0x6f0, 0x7c0, 0x966, 0x9e6, 0xa66, 0xae6, 0xb66, 0xbe6, 0xc66, 0xce6, 0xd66,
    0xde6, 0xe50, 0xed0, 0xf20, 0x1040, 0x1090, 0x17e0, 0x1810, 0x1946, 0x19d0, 0x1a80, 0x1a90,
    0x1b50, 0x1bb0, 0x1c40, 0x1c50, 0xa620, 0xa8d0, 0xa900, 0xa9d0, 0xa9f0, 0xaa50, 0xabf0,
    0xff10, 0x104a0, 0x10d30, 0x11066, 0x110f0, 0x11136, 0x111d0, 0x112f0, 0x11450, 0x114d0,
    0x11650, 0x116c0, 0x11730, 0x118e0, 0x11950, 0x11c50, 0x11d50, 0x11da0, 0x16a60, 0x16ac0,
    0x16b50, 0x1d7ce, 0x1d7d8, 0x1d7e2, 0x1d7ec, 0x1d7f6, 0x1e140, 0x1e2f0, 0x1e950,
    0x1fbf0].any fun first => first ≤ c.toNat && c.toNat < first + 10

/-- A text without the line feed at its end, if there is one. -/
def dropLineFeed (cs : List Char) : List Char :=
  if cs.getLast? = some '\n' then cs.dropLast else cs

/-- Whether a text is a negative number: a minus, digits, and perhaps a point with
digits behind it, on a line that may be ended. -/
def isNegativeNumber (cs : List Char) : Bool :=
  match dropLineFeed cs with
  | '-' :: rest =>
    match rest.dropWhile isScriptDigit with
    | [] => !rest.isEmpty
    | '.' :: fraction => !fraction.isEmpty && fraction.all isScriptDigit
    | _ => false
  | _ => false

/-- The text before the first `=` and the text behind it. -/
def divideAtEquals (s : String) : String × Option String :=
  let cs := s.toList
  match cs.dropWhile (· ≠ '=') with
  | _ :: value => (String.ofList (cs.takeWhile (· ≠ '=')), some (String.ofList value))
  | [] => (s, none)

/-- An argument that starts like an option but is none. -/
def classifyOther (s : String) : Token :=
  if isNegativeNumber s.toList || s.toList.contains ' ' then .word s else .unknown

/-- The looks of an argument. -/
def classify (s : String) : Token :=
  match s.toList with
  | '-' :: second :: letters =>
    match spellings.lookup s with
    | some f => .flag f none
    | none =>
      if second = '-' then
        let (name, value) := divideAtEquals s
        match spellings.filter fun p => name.toList.isPrefixOf p.1.toList with
        | [] => classifyOther s
        | [(_, f)] => .flag f value
        | _ => .ambiguous
      else
        match spellings.lookup (String.ofList ['-', second]), letters with
        | some f, ['='] => .flag f (some "")
        | some f, '=' :: letters => .letter f letters
        | some f, letters => .letter f letters
        | none, _ => classifyOther s
  | _ => .word s

/-- Digits, with single underscores between them. -/
def isDigits : List Char → Bool
  | [] => false
  | [c] => isScriptDigit c
  | c :: '_' :: rest => isScriptDigit c && isDigits rest
  | c :: rest => isScriptDigit c && isDigits rest

/-- Whether a text is an integer: digits behind at most one sign, white space
around. -/
def isInteger (s : String) : Bool :=
  match Text.stripWhile Text.isWhiteSpace s.toList with
  | '-' :: rest => isDigits rest
  | '+' :: rest => isDigits rest
  | cs => isDigits cs

/-- The state of reading: the options so far, whether files have been taken, and
whether anything was left over. -/
structure Progress where
  options : Options := {}
  filesTaken : Bool := false
  leftOver : Bool := false

/-- Whether an option takes the value that it is given. -/
def Flag.accepts (f : Flag) (value : Given) : Bool :=
  match f, value with
  | .recursionLimit, .text s => isInteger s
  | _, _ => true

/-- Applies an option. -/
def Progress.apply (p : Progress) (f : Flag) (value : Given) : Except Parsed Progress :=
  if f.accepts value then
    match f with
    | .help => .error .help
    | .run => .ok { p with options := { p.options with run := some value } }
    | .recursionLimit =>
      .ok { p with options := { p.options with recursionLimit := some value } }
    | .verbose => .ok { p with options := { p.options with verbose := true } }
  else .error .usageError

/-- Takes the files that stand in one stretch; a second stretch is left over. -/
def Progress.takeFiles (p : Progress) (files : List String) : Progress :=
  if p.filesTaken then { p with leftOver := p.leftOver || !files.isEmpty }
  else { p with options := { p.options with images := files }, filesTaken := true }

/-- Applies options without values, in order. -/
def Progress.applyAll (p : Progress) : List Flag → Except Parsed Progress
  | [] => .ok p
  | f :: rest => do (← p.apply f .nothing).applyAll rest

/-- The options that letters stand for, if each of them is one. -/
def lettersOf (letters : List Char) : Option (List Flag) :=
  letters.mapM fun c => spellings.lookup (String.ofList ['-', c])

/-- The words at the start of the arguments. Behind `--`, which does not count
itself, every argument is one. -/
def leadingWords : List String → List String × List String
  | [] => ([], [])
  | s :: rest =>
    if s = "--" then (rest, [])
    else
      match classify s with
      | .word s =>
        let (words, rest) := leadingWords rest
        (s :: words, rest)
      | _ => ([], s :: rest)

/-- Whether no argument looks like an option it cannot be. -/
def noneAmbiguous : List String → Bool
  | [] => true
  | s :: rest =>
    if s = "--" then true
    else
      match classify s with
      | .ambiguous => false
      | _ => noneAmbiguous rest

/-- Reads arguments; each step of `fuel` takes at least one. -/
def readFrom : Nat → Progress → List String → Except Parsed Progress
  | 0, p, _ => .ok p
  | _, p, [] => .ok (p.takeFiles [])
  | fuel + 1, p, s :: rest =>
    if s = "--" then
      .ok (if p.filesTaken then { p with leftOver := true } else p.takeFiles rest)
    else
      match classify s with
      | .ambiguous => .error .usageError
      | .unknown => readFrom fuel { p with leftOver := true } rest
      | .word _ =>
        let (words, rest) := leadingWords (s :: rest)
        readFrom fuel (p.takeFiles words) rest
      | .letter f joined =>
        -- all letters are looked at before the first takes effect
        match lettersOf joined with
        | some flags => do
          let p ← p.applyAll (f :: flags)
          readFrom fuel p rest
        | none => .error .usageError
      | .flag f (some value) =>
        if f.takesValue then do
          let p ← p.apply f (.ofText value)
          readFrom fuel p rest
        else .error .usageError
      | .flag f none =>
        if f.takesValue then
          match rest with
          | value :: rest =>
            if value = "--" then .error .usageError
            else
              match classify value with
              | .word value => do
                let p ← p.apply f (.text value)
                readFrom fuel p rest
              | _ => .error .usageError
          | [] => .error .usageError
        else do
          let p ← p.apply f .nothing
          readFrom fuel p rest

/-- What the arguments ask for. -/
def parse (args : List String) : Parsed :=
  if noneAmbiguous args then
    match readFrom (args.length + 1) {} args with
    | .ok p => if p.leftOver then .usageError else .options p.options
    | .error result => result
  else .usageError

end Smalltalk.CommandLine
