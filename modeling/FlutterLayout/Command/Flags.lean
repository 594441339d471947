import FlutterLayout.Text.Quoted
import FlutterLayout.Number.Integer

/-!
# Flags of a command line

A flag is written `--name=value`, `--name value`, `-n value`, `-nvalue` or `-n=value`; a flag that is a
truth value needs no value, and several such short ones may stand behind one dash.  `--` ends the flags,
and everything that is no flag is an argument.  Short flags that begin with `test.` are for whoever tests
the program and are passed over.
-/

namespace FlutterLayout.Command

/-- The type of the value of a flag. -/
inductive FlagKind where
  | text
  | integer
  | switch
  deriving DecidableEq, Repr

structure Flag where
  name : Text
  letter? : Option UInt8
  kind : FlagKind
  deriving DecidableEq, Repr

/-- The flags that were given, in order, and the arguments. -/
structure Parsed where
  flags : List (Text × Text) := []
  arguments : List Text := []
  deriving DecidableEq, Repr

/-- Why a value does not fit a flag. -/
inductive ValueFault where
  | noInteger (fault : Number.Fault)
  | noTruth
  deriving DecidableEq, Repr

/-- What is wrong with a command line. -/
inductive FlagError where
  | badForm (argument : Text)
  | unknownName (name : Text)
  | unknownLetter (letter : UInt8) (group : Text)
  | nameWithoutValue (argument : Text)
  | letterWithoutValue (letter : UInt8) (group : Text)
  | badValue (flag : Flag) (value : Text) (fault : ValueFault)
  deriving DecidableEq, Repr

/-! ## Wording -/

def quotedLetter (b : UInt8) : Text :=
  let inside := (Text.quoted (Text.ofRune b.toNat)).drop 1 |>.dropLast
  let inside : Text :=
    if b = Text.doubleQuote then "\"" else if b = Text.singleQuote then "\\'" else inside
  "'" ++ inside ++ "'"

def Flag.forms (f : Flag) : Text :=
  match f.letter? with
  | some letter => "-" ++ [letter] ++ ", --" ++ f.name
  | none => "--" ++ f.name

def ValueFault.message (value : Text) : ValueFault → Text
  | noInteger fault => "strconv.ParseInt: parsing " ++ Text.quoted value ++ ": " ++ fault.message
  | noTruth => "strconv.ParseBool: parsing " ++ Text.quoted value ++ ": invalid syntax"

def FlagError.message : FlagError → Text
  | badForm argument => "bad flag syntax: " ++ argument
  | unknownName name => "unknown flag: --" ++ name
  | unknownLetter letter group => "unknown shorthand flag: " ++ quotedLetter letter ++ " in -" ++ group
  | nameWithoutValue argument => "flag needs an argument: " ++ argument
  | letterWithoutValue letter group =>
    "flag needs an argument: " ++ quotedLetter letter ++ " in -" ++ group
  | badValue flag value fault =>
    "invalid argument " ++ Text.quoted value ++ " for " ++ Text.quoted flag.forms ++ " flag: "
      ++ fault.message value

/-! ## Reading -/

def truthWords : List Text := ["1", "t", "T", "TRUE", "true", "True"]

def falsehoodWords : List Text := ["0", "f", "F", "FALSE", "false", "False"]

def checkValue (f : Flag) (value : Text) : Except FlagError Unit :=
  match f.kind with
  | .text => .ok ()
  | .integer =>
    match Number.readInt value with
    | .ok _ => .ok ()
    | .error fault => .error (.badValue f value (.noInteger fault))
  | .switch =>
    if truthWords.contains value || falsehoodWords.contains value then .ok ()
    else .error (.badValue f value .noTruth)

namespace Parsed

def addFlag (p : Parsed) (f : Flag) (value : Text) : Except FlagError Parsed :=
  (checkValue f value).map fun _ => { p with flags := p.flags ++ [(f.name, value)] }

def addArgument (p : Parsed) (argument : Text) : Parsed :=
  { p with arguments := p.arguments ++ [argument] }

def value? (p : Parsed) (name : Text) : Option Text :=
  p.flags.reverse.lookup name

def isOn (p : Parsed) (name : Text) : Bool :=
  match p.value? name with
  | some value => truthWords.contains value
  | none => false

end Parsed

/-- Reads a flag written by name.  Tells whether the next argument is its value. -/
def readName (flags : List Flag) (argument : Text) (next? : Option Text) (p : Parsed) :
    Except FlagError (Parsed × Bool) :=
  let body := argument.drop 2
  match body.head? with
  | none => .error (.badForm argument)
  | some b =>
    if b = Text.byte '-' || b = Text.byte '=' then .error (.badForm argument)
    else
      let (name, value?) :=
        match Text.cut? "=" body with
        | some (name, value) => (name, some value)
        | none => (body, none)
      match flags.find? fun f => f.name = name with
      | none => .error (.unknownName name)
      | some f =>
        match value?, f.kind, next? with
        | some value, _, _ => (p.addFlag f value).map fun p => (p, false)
        | none, .switch, _ => (p.addFlag f "true").map fun p => (p, false)
        | none, _, some value => (p.addFlag f value).map fun p => (p, true)
        | none, _, none => .error (.nameWithoutValue argument)

def isForTests (group : Text) : Bool :=
  Text.startsWith "test." group

/-- Reads the flags of a group of letters.  Tells whether the next argument is the value of the last. -/
def readLetters (flags : List Flag) (next? : Option Text) :
    (group : Text) → Parsed → Except FlagError (Parsed × Bool)
  | [], p => .ok (p, false)
  | letter :: rest, p =>
    if isForTests (letter :: rest) then .ok (p, false)
    else match flags.find? fun f => f.letter? = some letter with
    | none => .error (.unknownLetter letter (letter :: rest))
    | some f =>
      match rest, f.kind, next? with
      | e :: v :: value, kind, _ =>
        if e = Text.byte '=' then (p.addFlag f (v :: value)).map fun p => (p, false)
        else if kind = .switch then
          match p.addFlag f "true" with
          | .ok p => readLetters flags next? rest p
          | .error e => .error e
        else (p.addFlag f rest).map fun p => (p, false)
      | _, .switch, _ =>
        match p.addFlag f "true" with
        | .ok p => readLetters flags next? rest p
        | .error e => .error e
      | [v], _, _ => (p.addFlag f [v]).map fun p => (p, false)
      | [], _, some value => (p.addFlag f value).map fun p => (p, true)
      | [], _, none => .error (.letterWithoutValue letter (letter :: rest))

/-- Reads a command line.  `taken` says that the first argument is the value of the flag before it. -/
def readFrom (flags : List Flag) (taken : Bool) : List Text → Parsed → Except FlagError Parsed
  | [], p => .ok p
  | argument :: rest, p =>
    if taken then readFrom flags false rest p
    else
      match argument with
      | dash :: second :: _ =>
        if dash ≠ Text.byte '-' then readFrom flags false rest (p.addArgument argument)
        else if argument = Text.ofString "--" then .ok { p with arguments := p.arguments ++ rest }
        else
          let result :=
            if second = Text.byte '-' then readName flags argument rest.head? p
            else readLetters flags rest.head? (argument.drop 1) p
          match result with
          | .ok (p, taken) => readFrom flags taken rest p
          | .error e => .error e
      | _ => readFrom flags false rest (p.addArgument argument)

def Parsed.read (flags : List Flag) (arguments : List Text) : Except FlagError Parsed :=
  readFrom flags false arguments {}

end FlutterLayout.Command
