/-
Command arguments. A command line is a run of switches, some with a value, and
of plain arguments. Switches have a long name and may have a one-letter one;
letters can stand together, and a value can follow its switch as the next
argument, behind an equals sign, or right behind the letter.

Arguments are read from left to right, and the first one that is wrong, or
that settles what is asked for, ends the reading.
-/

namespace EventScript.Command

/-- A switch of a command line. -/
structure Switch where
  name : String
  letter : Option Char := none
  /-- For a switch that takes a value: whether it takes this one. -/
  accepts : Option (String → Bool) := none
  repeatable : Bool := false
  /-- Whether the switch settles what is asked for, whatever follows. -/
  settles : Bool := false

/-- What is done with plain arguments. -/
inductive PlainRule where
  /-- The first one ends the reading. -/
  | first
  /-- There may be so many. -/
  | atMost (count : Nat)
  | any
  deriving DecidableEq, Repr

/-- The arguments there may be. -/
structure Grammar where
  switches : List Switch
  plainRule : PlainRule
  /-- Whether a plain argument is sound. -/
  acceptsPlain : String → Bool

/-- What was given on a command line. -/
structure Given where
  /-- Names of switches with their values, in order; a switch without a value has an empty one. -/
  switches : List (String × String) := []
  plain : List String := []
  deriving DecidableEq, Repr

namespace Given

/-- Whether a switch was given. -/
def has (given : Given) (name : String) : Bool := (given.switches.map (·.1)).contains name

/-- The value of a switch. -/
def value? (given : Given) (name : String) : Option String := given.switches.lookup name

/-- The values of a switch, in order. -/
def values (given : Given) (name : String) : List String :=
  (given.switches.filter (·.1 == name)).map (·.2)

/-- Takes a switch down, unless it may not be repeated and was given before. -/
def add? (given : Given) (switch : Switch) (value : String) : Option Given :=
  if given.has switch.name && !switch.repeatable then none
  else some { given with switches := given.switches ++ [(switch.name, value)] }

/-- Takes a plain argument down, if there may be one more and it is sound. -/
def addPlain? (given : Given) (grammar : Grammar) (argument : String) : Option Given :=
  let room := match grammar.plainRule with
    | .first => false
    | .atMost count => given.plain.length < count
    | .any => true
  if room && grammar.acceptsPlain argument then
    some { given with plain := given.plain ++ [argument] }
  else none

end Given

/-- Whether an argument has the form of a switch. A lone dash has not. -/
def looksLikeSwitch (argument : List Char) : Bool :=
  match argument with
  | '-' :: _ :: _ => true
  | _ => false

/-- What one argument that has the form of a switch amounts to. -/
inductive Reading where
  | refused
  /-- It settles what is asked for. -/
  | settled (name : String)
  | complete (given : Given)
  /-- The value of a switch is still to come, as the next argument. -/
  | awaiting (given : Given) (switch : Switch)

/-- Takes a switch down that takes no value. -/
def takeBare (given : Given) (switch : Switch) : Reading :=
  if switch.settles then .settled switch.name
  else match given.add? switch "" with
    | some given => .complete given
    | none => .refused

/-- Takes a switch down with its value. -/
def takeValue (given : Given) (switch : Switch) (value : String) : Reading :=
  if switch.accepts.any (· value) then
    match given.add? switch value with
    | some given => .complete given
    | none => .refused
  else .refused

/-- Reads a long switch, without its dashes. -/
def readLong (switches : List Switch) (given : Given) (argument : List Char) : Reading :=
  let name := String.ofList (argument.takeWhile (· ≠ '='))
  match switches.find? (·.name == name), (argument.dropWhile (· ≠ '=')).tail? with
  | none, _ => .refused
  | some switch, none =>
    if switch.accepts.isSome then .awaiting given switch else takeBare given switch
  | some switch, some value => takeValue given switch (String.ofList value)

/-- Reads one-letter switches that stand together, without their dash. -/
def readLetters (switches : List Switch) (given : Given) : List Char → Reading
  | [] => .complete given
  | letter :: rest =>
    match switches.find? (·.letter == some letter) with
    | none => .refused
    | some switch =>
      if switch.accepts.isSome then
        match rest with
        | [] => .awaiting given switch
        | '=' :: value => takeValue given switch (String.ofList value)
        | value => takeValue given switch (String.ofList value)
      else match takeBare given switch with
        | .complete given => readLetters switches given rest
        | reading => reading

/-- Reads an argument that has the form of a switch. -/
def readSwitch (switches : List Switch) (given : Given) : List Char → Reading
  | '-' :: '-' :: argument => readLong switches given argument
  | '-' :: letters => readLetters switches given letters
  | _ => .refused

/-- What arguments amount to. -/
inductive Outcome where
  | refused
  /-- A switch settles what is asked for. -/
  | settled (name : String)
  /-- What was given, and the arguments from the plain one on that ended the reading. -/
  | complete (given : Given) (rest : List String)

/-- Takes all arguments for plain ones. -/
def readPlain (grammar : Grammar) (given : Given) (arguments : List String) : Outcome :=
  match arguments.foldlM (fun given argument => given.addPlain? grammar argument) given with
  | some given => .complete given []
  | none => .refused

/-- Reads arguments. Behind `--` all of them are plain. -/
def readArguments (grammar : Grammar) : (awaited : Option Switch) → Given → List String → Outcome
  | some _, _, [] => .refused
  | none, given, [] => .complete given []
  | some switch, given, argument :: rest =>
    if looksLikeSwitch argument.toList then .refused
    else match takeValue given switch argument with
      | .complete given => readArguments grammar none given rest
      | _ => .refused
  | none, given, argument :: rest =>
    if argument = "--" then readPlain grammar given rest
    else if looksLikeSwitch argument.toList then
      match readSwitch grammar.switches given argument.toList with
      | .refused => .refused
      | .settled name => .settled name
      | .complete given => readArguments grammar none given rest
      | .awaiting given switch => readArguments grammar (some switch) given rest
    else if grammar.plainRule = .first then .complete given (argument :: rest)
    else match given.addPlain? grammar argument with
      | some given => readArguments grammar none given rest
      | none => .refused

end EventScript.Command
