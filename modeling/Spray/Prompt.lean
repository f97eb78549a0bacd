/-
The prompt (`src/debugger.c`): from a line to the command it gives.

Each command checks its own arguments and runs one operation.  `run` stands for the
operations; in the debugger it is `Command.exec`.
-/
import Spray.Command
import Spray.Location

namespace Spray

variable {W : Type}

/-- The registers by name (`reg_descriptors`). -/
def regDescriptors : List (X86Reg × String) :=
  [(.r15, "r15"), (.r14, "r14"), (.r13, "r13"), (.r12, "r12"), (.rbp, "rbp"), (.rbx, "rbx"),
    (.r11, "r11"), (.r10, "r10"), (.r9, "r9"), (.r8, "r8"), (.rax, "rax"), (.rcx, "rcx"),
    (.rdx, "rdx"), (.rsi, "rsi"), (.rdi, "rdi"), (.orig_rax, "orig_rax"), (.rip, "rip"),
    (.cs, "cs"), (.eflags, "eflags"), (.rsp, "rsp"), (.ss, "ss"), (.fs_base, "fs_base"),
    (.gs_base, "gs_base"), (.ds, "ds"), (.es, "es"), (.fs, "fs"), (.gs, "gs")]

def getRegisterFromName (name : String) : Option X86Reg :=
  (regDescriptors.find? fun descriptor => descriptor.2 = name).map (·.1)

/-! ### Tokens -/

/-- Split a line at its blanks. -/
def getCommandTokens (line : String) : List String :=
  go line.toList.length line.toList
where
  go : (fuel : Nat) → List Char → List String
    | 0, _ => []
    | fuel + 1, rest =>
      match strtok [' ', '\t'] rest with
      | none => []
      | some (token, rest) => String.ofList token :: go fuel rest

def isCommand (input : String) (shortForm : Char) (longForm : String) : Bool :=
  input.toList = [shortForm] || input = longForm

def isFilterDelim (delim : String) : Bool := delim = "|"

def endOfTokens : List String → Except String Unit
  | [] => return
  | _ => throw "Trailing characters in command"

/-- The filter that may stand behind the arguments, and the tokens behind it. -/
def optionalFilter : List String → Except String (PrintFilter × List String)
  | [] => return (.NONE, [])
  | delim :: tokens =>
    if isFilterDelim delim then
      match parseFilter tokens.head? with
      | .NONE => throw "Invalid filter"
      | filter => return (filter, tokens.tail)
    else throw "Trailing characters in command"

def warnRegisterNameConflict (ident : String) : DbgM W Unit := do
  if (getRegisterFromName ident).isSome then
    say (.replWarn ("The variable name '" ++ ident ++ "' is also the name of a register"))
    say (.replHint ("All register names start with a '%'. Use '%" ++ ident ++ "' to access the '" ++
      ident ++ "' register instead"))

/-! ### Commands -/

section Commands

variable (info : DebugInfo) (lineEntryAt : String → Nat → LineEntry) (run : Command → DbgM W Unit)

/-- A command without arguments. -/
def plainCommand (command : Command) (tokens : List String) : Except String (DbgM W Unit) := do
  endOfTokens tokens
  return run command

/-- `break` and `delete`. -/
def breakpointCommand (name : String) (command : RealAddr → Command) :
    List String → Except String (DbgM W Unit)
  | [] => throw ("Missing location for '" ++ name ++ "'")
  | locStr :: tokens =>
    match parseBreakLocation info lineEntryAt locStr with
    | none => throw ("Invalid location for '" ++ name ++ "'")
    | some addr => do
      endOfTokens tokens
      return do run (command (dbgToReal (← get).loadAddress addr))

/-- Print what a register, a variable or an address holds. -/
def printLocation (locStr : String) (filter : PrintFilter) : Except String (DbgM W Unit) :=
  if locStr.toList.head? = some '%' then
    match getRegisterFromName (String.ofList locStr.toList.tail) with
    | some reg => return run (.printRegister reg filter)
    | none => throw "Invalid register name"
  else if isValidIdentifier locStr then
    return do
      warnRegisterNameConflict locStr
      run (.printVariable locStr filter)
  else
    match parseBase16 locStr with
    | some addr => return run (.printMemory ⟨addr⟩ filter)
    | none => throw "Invalid location to print the value of"

def printCommand : List String → Except String (DbgM W Unit)
  | [] => throw "Missing location to print the value of"
  | locStr :: tokens => do
    let (filter, tokens) ← optionalFilter tokens
    endOfTokens tokens
    printLocation run locStr filter

/-- Set a register, a variable or the memory at an address. -/
def setLocation (locStr : String) (value : Word) (filter : PrintFilter) :
    Except String (DbgM W Unit) :=
  if locStr.toList.head? = some '%' then
    match getRegisterFromName (String.ofList locStr.toList.tail) with
    | some reg => return run (.setRegister reg value filter)
    | none => throw "Invalid register name"
  else if isValidIdentifier locStr then return run (.setVariable locStr value filter)
  else
    match parseBase16 locStr with
    | some addr => return run (.setMemory ⟨addr⟩ value filter)
    | none => throw "Invalid location to set the value of"

def setCommand : List String → Except String (DbgM W Unit)
  | [] => throw "Missing location to set the value of"
  | [_] => throw "Missing value to set the location to"
  | locStr :: valueStr :: tokens => do
    let (filter, tokens) ← optionalFilter tokens
    endOfTokens tokens
    match parseSetValue valueStr filter with
    | none => throw "Invalid value to set the location to"
    | some (value, filter) => setLocation run locStr value filter

/-- What a list of tokens makes the debugger do, or the error that is reported for it. -/
def debugCommand : List String → Except String (DbgM W Unit)
  | [] => throw "Unknown command"
  | cmd :: tokens =>
    if isCommand cmd 'c' "continue" then plainCommand run .continue_ tokens
    else if isCommand cmd 'b' "break" then
      breakpointCommand info lineEntryAt run "break" .break_ tokens
    else if isCommand cmd 'd' "delete" then
      breakpointCommand info lineEntryAt run "delete" .delete tokens
    else if isCommand cmd 'p' "print" then printCommand run tokens
    else if isCommand cmd 't' "set" then setCommand run tokens
    else if isCommand cmd 'i' "inst" then plainCommand run .inst tokens
    else if isCommand cmd 'l' "leave" then plainCommand run .leave tokens
    else if isCommand cmd 's' "step" then plainCommand run .step tokens
    else if isCommand cmd 'n' "next" then plainCommand run .next tokens
    -- What follows `backtrace` is not looked at.
    else if isCommand cmd 'a' "backtrace" then return run .backtrace
    else throw "Unknown command"

def handleDebugCommandTokens (tokens : List String) : DbgM W Unit :=
  match debugCommand info lineEntryAt run tokens with
  | .ok prog => prog
  | .error msg => say (.replErr msg)

/-- Handle a line, given the last one that was not empty.  Returns the line to remember. -/
def handleDebugCommand (history : Option String) (line : String) : DbgM W (Option String) := do
  match getCommandTokens line with
  | [] =>
    match history with
    | some lastCommand => do
      handleDebugCommandTokens info lineEntryAt run (getCommandTokens lastCommand)
      return history
    | none => do
      say (.replErr "No command to repeat")
      return history
  | tokens => do
    handleDebugCommandTokens info lineEntryAt run tokens
    return some line

/-- Handle the lines that are typed, one after the other. -/
def promptLoop : (history : Option String) → List String → DbgM W Unit
  | _, [] => return
  | history, line :: lines => do
    let history ← handleDebugCommand info lineEntryAt run history line
    promptLoop history lines

end Commands

/-- Start the debugger and handle the lines that are typed (`run_debugger`). -/
def runPrompt (env : Env W) (lineEntryAt : String → Nat → LineEntry) (fuel : Nat)
    (lines : List String) : DbgM W Unit := do
  if ← startDebugger env fuel then
    promptLoop env.info lineEntryAt (Command.exec env fuel) none lines

end Spray
