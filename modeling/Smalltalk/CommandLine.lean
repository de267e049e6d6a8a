import Smalltalk.CommandLine.Options
import Smalltalk.Image
import Smalltalk.Kernel
import Smalltalk.Request
import Smalltalk.Target

/-!
# `Smalltalk.CommandLine`: running a method from images

The command loads images on top of the kernel and runs a unary method: on the
class itself for a target of the class side, else on a new instance. It
prints what the result answers to `printString`. Without a target it says how
many classes there are.

Everything but reading and printing is here: `CommandLine.report` takes the
contents of the files and answers a `Report`. What a program or an image gets
wrong is part of the report. Most misuses are not (`isReported`): they stop the
command itself.
-/

set_option autoImplicit false

namespace Smalltalk.CommandLine

/-- What the command leaves behind. -/
structure Report where
  exitCode : Nat
  output : String := ""
  errors : String := ""
deriving Repr, DecidableEq

/-- How the command is used. -/
def usage : String :=
  "usage: treetalk [-h] [--run CLASS>>SELECTOR] [--recursion-limit LIMIT] [-v] [IMAGE ...]\n"

/-- Whether the command reports a fault in a line of its own. Of the misuses it
reports a class that is not there, and a number where a message needs a text. -/
def isReported (f : Fault) : Bool :=
  match f with
  | .unknownClass _ | .unknownName _ => true
  | .nameNotText (.bool _) | .nameNotText (.int _) | .nameNotText (.float _) => true
  | f => !f.isMisuse

/-- The message of a fault. A class that is not there is named in quotes. -/
def faultText (f : Fault) : String :=
  match f with
  | .unknownClass _ => Text.inspect f.message
  | f => f.message

/-- What becomes of a fault: a complaint, or a stop of the command. -/
def complaintOf (f : Fault) : Except Stop String :=
  if isReported f then .ok (faultText f) else .error (.fault f)

/-- Why a file cannot be read: the number and the words that the system has for it. -/
structure FileError where
  number : Nat
  words : String
deriving Repr, DecidableEq

namespace FileError

/-- There is no such file. -/
def absent : FileError := ⟨2, "No such file or directory"⟩

/-- The name leads through a file that is no directory. -/
def notDirectory : FileError := ⟨20, "Not a directory"⟩

/-- The name is that of a directory. -/
def isDirectory : FileError := ⟨21, "Is a directory"⟩

/-- The name has more bytes than a name may have. -/
def nameTooLong : FileError := ⟨36, "File name too long"⟩

/-- The complaint about a file. -/
def complaint (e : FileError) (file : String) : String :=
  "[Errno " ++ toString e.number ++ "] " ++ e.words ++ ": " ++ Text.inspect file

end FileError

/-- The text of a file, or the complaint that there is none. A name with a null
character in it is refused before it is looked for. -/
def contentsOf (contents : String → Except FileError String) (file : String) :
    Except String String :=
  if file.toList.contains '\x00' then .error "embedded null byte"
  else
    match contents file with
    | .ok text => .ok text
    | .error e => .error (e.complaint file)

/-- What the command ends with: the line it prints, or a complaint. -/
abbrev Ending := Except String String

/-- Loads image files, in order: a complaint, if one cannot be loaded, and the
memory afterwards. -/
def loadFiles (contents : String → Except FileError String) :
    List String → Memory → Except Stop (Option String × Memory)
  | [], m => .ok (none, m)
  | file :: rest, m =>
    match contentsOf contents file with
    | .error complaint => .ok (some complaint, m)
    | .ok text =>
      match Image.loadText file text m with
      | .ok classes m =>
        loadFiles contents rest (m.note
          ("treetalk: " ++ file ++ ": " ++ toString classes.length ++ " class(es)"))
      | .error f m => (complaintOf f).map fun message => (some message, m)

/-- Runs a target and answers the printed result. -/
def runTarget (settings : Settings) (target : Target) : Eval Value := do
  let m ← get
  let id ← Eval.ofExcept (m.registry.named (.str target.className))
  let cls := Value.behavior ⟨id, false⟩
  let receiver ← if target.classSide then pure cls else Eval.send settings cls (.str "new") []
  let result ← Eval.send settings receiver (.str target.selector) []
  Eval.send settings result (.str "printString") []

/-- What the command does with the loaded images, and the memory afterwards. -/
def runIn (settings : Settings) (target : Option Given) (m : Memory) :
    Except Stop (Ending × Memory) :=
  match target with
  | none => .ok (.ok (toString m.registry.names.length ++ " classes loaded"), m)
  | some .nothing => .error (.fault (.nameNotText (.arr [])))
  | some (.text text) =>
    match Target.parse? text.toList with
    | none => .ok (.error (Target.complaint text), m)
    | some target =>
      match runTarget settings target m with
      -- a program may answer anything to `printString`
      | .ok v m => .ok (.ok (m.plain v), m)
      | .error (.fault f) m => (complaintOf f).map fun message => (.error message, m)
      | .error stop _ => .error stop

/-- The journal, one line each, oldest first. -/
def journalText (m : Memory) : String :=
  String.join (m.journal.lines.reverse.map (· ++ "\n"))

/-- Loads the images and runs the target. -/
def perform (settings : Settings) (contents : String → Except FileError String)
    (options : Options) : Except Stop Report := do
  let start := { Kernel.memory with journal := { recording := options.verbose } }
  let (ending, m) ←
    match ← loadFiles contents options.images start with
    | (none, m) => runIn settings options.run m
    | (some message, m) => pure (.error message, m)
  match ending with
  | .ok line => pure { exitCode := 0, output := line ++ "\n", errors := journalText m }
  | .error message =>
    pure { exitCode := 1, errors := journalText m ++ "treetalk: " ++ message ++ "\n" }

/-- The command, given its arguments and what the files contain. A limit on the
recursion changes nothing, but it has to be a number. -/
def report (settings : Settings) (contents : String → Except FileError String)
    (args : List String) : Except Stop Report :=
  match parse args with
  | .options options =>
    if options.recursionLimit = some .nothing then .error (.fault (.notANumber (.arr [])))
    else perform settings contents options
  | .help => .ok { exitCode := 0, output := usage }
  | .usageError => .ok { exitCode := 2, errors := usage }

/-- The last words of a command that was stopped. -/
def lastWords : Stop → String
  | .fault f => faultText f
  | .unwind _ _ => "nothing to return to"
  | .tooDeep => "evaluation nests too deeply"
  | .unfinished => "a loop does not end"

end Smalltalk.CommandLine
