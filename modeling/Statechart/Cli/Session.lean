import Statechart.Cli.Command
import Statechart.Outline
import Statechart.Renderer
import Statechart.Table

namespace Statechart.Cli

inductive Source where
  | standardInput
  | file (path : String)
  deriving DecidableEq, Repr

inductive Drawing where
  | notStarted (reason : String)
  | failed (status : Nat) (complaint : String)
  | done (image : ByteArray)

inductive Session where
  | exit (code : Nat)
  | print (text : String) (next : Session)
  | report (text : String) (next : Session)
  | read (source : Source) (next : Except String ByteArray → Session)
  | write (path : String) (content : ByteArray) (next : Except String Unit → Session)
  | draw (program : String) (arguments : List String) (graph : String) (next : Drawing → Session)

namespace Session

def fail (message : String) : Session :=
  .report ("Error: " ++ message ++ "\n") (.exit 1)

/-- The place that a path names; a hyphen stands for the standard stream. -/
def file? (path : Option String) : Option String :=
  path.filter (· ≠ "-")

def notText : String :=
  "stream did not contain valid UTF-8"

def content (source : Source) (r : Except String ByteArray) : Except String String :=
  let text : Except String String :=
    match r with
    | .error reason => .error reason
    | .ok bytes =>
      match String.fromUTF8? bytes with
      | some s => .ok s
      | none => .error notText
  match source with
  | .standardInput => text
  | .file path => text.mapError fun e => s!"Failed to read input file '{path}': {e}"

def withInput (path : Option String) (next : String → Session) : Session :=
  let source : Source :=
    match file? path with
    | none => .standardInput
    | some p => .file p
  .read source fun r =>
    match content source r with
    | .error e => fail e
    | .ok text => next text

def writeFile (path : String) (bytes : ByteArray) (next : Session) : Session :=
  .write path bytes fun r =>
    match r with
    | .error e => fail s!"Failed to write output file '{path}': {e}"
    | .ok () => next

/-- Printed text ends with a line feed; a file holds the text as it is. -/
def deliver (path : Option String) (text : String) : Session :=
  match file? path with
  | some p => writeFile p text.toUTF8 (.exit 0)
  | none =>
    let ended := text.toList = [] || text.toList.getLast? = some '\n'
    .print (if ended then text else text ++ "\n") (.exit 0)

def orFail {α : Type} (r : Except Fault α) (next : α → Session) : Session :=
  match r with
  | .error f => fail f.message
  | .ok a => next a

def summary (c : Chart) : String :=
  s!"Valid state machine: {c.states.length} states, {c.transitions.length} transitions, " ++
    s!"{c.regions.length} regions, initial `{c.initial.path}`"

def verdict (c : Chart) : String :=
  "✓ " ++ summary c ++ "\n" ++ String.join (c.defaulted.map fun id =>
    s!"  note: `{id.path}` has no `[*]` line; its first child is the initial state\n")

def validate (fallback : Fallback) (verbose : Bool) (text : String) : Session :=
  let judge : Session :=
    match Chart.parse fallback text with
    | .ok c => .print (verdict c) (.exit 0)
    | .error f => .print ("✗ Invalid state diagram: " ++ f.message ++ "\n") (fail f.message)
  if verbose then .report s!"Read {text.utf8ByteSize} bytes of input\n" judge else judge

def drawingFault (program format : String) : Drawing → Option String
  | .done _ => none
  | .notStarted reason => some s!"failed to start `{program}`: {reason}"
  | .failed status complaint =>
    some s!"`{program} -T{format}` exited with exit status: {status}: {Text.trimmed complaint}"

def drawGraph (program format output : String) (verbose : Bool) (graph : String) : Session :=
  .draw program ["-T" ++ format] graph fun d =>
    match d with
    | .done image =>
      writeFile output image
        (if verbose then .report s!"Wrote {image.size} bytes to {output}\n" (.exit 0) else .exit 0)
    | d => fail (Fault.render (.refused ((drawingFault program format d).getD ""))).message

def command (fallback : Fallback) (verbose : Bool) : Command → Session
  | .validate input => withInput input (validate fallback verbose)
  | .config input output pretty =>
    withInput input fun text =>
      orFail (Chart.parse fallback text) fun c =>
        let json := (Config.ofChart c).toJson
        deliver output (if pretty then json.pretty else json.compact)
  | .dot input output direction title remarks =>
    withInput input fun text =>
      let p : Renderer := {
        fallback := fallback
        style := { direction := direction, title := title, remarks := remarks } }
      orFail (p.run text) fun r => deliver output r.dot
  | .draw input output format program direction =>
    withInput input fun text =>
      let p : Renderer := { fallback := fallback, style := { direction := direction } }
      orFail (p.run text) fun r => drawGraph program format output verbose r.dot
  | .table input outline =>
    withInput input fun text =>
      orFail (Chart.parse fallback text) fun c =>
        deliver none (if outline then Outline.render c else Table.render (Table.rows c))

/-- A log format that the environment asks for comes before that of the arguments. One that there is
    not is reported, and the program goes on. -/
def withLog (environment : Option String) (next : Session) : Session :=
  match environment with
  | none => next
  | some name =>
    match Log.Format.ofName? name with
    | some _ => next
    | none =>
      .report ("Warning: Failed to initialize logging: " ++ Log.Format.refusal name ++ "\n") next

def invocation (environment : Option String) (i : Invocation) : Session :=
  let run := command (if i.strict then .reject else .firstChild) i.verbose i.command
  withLog environment (if i.verbose then .report s!"Keelson v{version}\n" run else run)

def usage : String :=
  "Usage: " ++ programName ++ " [OPTIONS] <" ++ "|".intercalate Command.names ++ ">\n"

def ofArguments (environment : Option String) (args : List String) : Session :=
  match Invocation.ofArguments args with
  | .ok i => invocation environment i
  | .error .version => .print s!"{programName} {version}\n" (.exit 0)
  | .error .help => .print usage (.exit 0)
  | .error .usage => .report usage (.exit 2)

end Session

end Statechart.Cli
