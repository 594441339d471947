import FlutterLayout.Directive.Handler
import FlutterLayout.Yaml.Value

/-!
# Wrappers in a configuration

A wrapper is a mapping with the keys of `WrapperSpec`.  The case of keys does not matter, unknown keys are
errors, and values are converted to the type of their field where that makes sense.  All errors of one
wrapper are reported together.
-/

namespace FlutterLayout.Config

open Yaml (Value)

inductive WrapperError where
  | unconvertible (field expected : Text) (v : Value)
  | noInteger (field value : Text) (fault : Number.Fault)
  | noTruth (field value : Text)
  | noMap (field kind : Text)
  | unknownKeys (keys : List Text)

def WrapperError.message : WrapperError → Text
  | unconvertible field expected v =>
    "'" ++ field ++ "' expected type '" ++ expected ++ "', got unconvertible type '" ++ v.typeName
      ++ "', value: '" ++ v.shown ++ "'"
  | noInteger field value fault =>
    "cannot parse '" ++ field ++ "' as int: strconv.ParseInt: parsing " ++ Text.quoted value ++ ": "
      ++ fault.message
  | noTruth field value =>
    "cannot parse '" ++ field ++ "' as bool: strconv.ParseBool: parsing " ++ Text.quoted value
      ++ ": invalid syntax"
  | noMap field kind => "'" ++ field ++ "' expected a map, got '" ++ kind ++ "'"
  | unknownKeys keys => "'' has invalid keys: " ++ Text.join ", " keys

/-! ## Conversion -/

def wrapInt (n : Int) : Int64 := Int64.ofInt n

/-- A value as a string; a missing one leaves the field alone. -/
def toText (field : Text) (v : Value) : Except WrapperError (Option Text) :=
  match v with
  | .null => .ok none
  | .string t => .ok (some t)
  | .bool b => .ok (some (if b then "1" else "0"))
  | .int n => .ok (some (Text.ofInt n))
  | .float x => .ok (some x.positional)
  | .infinite isNegative => .ok (some (Value.infinityText isNegative))
  | .notANumber => .ok (some "NaN")
  | v => .error (.unconvertible field "string" v)

/-- A value as an integer; a missing one leaves the field alone. -/
def toInt (field : Text) (v : Value) : Except WrapperError (Option Int64) :=
  match v with
  | .null => .ok none
  | .int n => .ok (some (wrapInt n))
  | .float x =>
    if Number.signedLimit ≤ x.wholePart then .ok (some (wrapInt Number.signedLimit))
    else .ok (some (wrapInt (if x.isNegative then -(x.wholePart : Int) else x.wholePart)))
  | .infinite _ | .notANumber => .ok (some (wrapInt Number.signedLimit))
  | .bool b => .ok (some (if b then 1 else 0))
  | .string t =>
    if t.isEmpty then .ok (some 0)
    else
      match Number.readInt t with
      | .ok n => .ok (some (wrapInt n))
      | .error fault => .error (.noInteger field t fault)
  | v => .error (.unconvertible field "int" v)

def truths : List Text := ["1", "t", "T", "TRUE", "true", "True"]

def falsehoods : List Text := ["0", "f", "F", "FALSE", "false", "False", []]

/-- A value as a truth value; a missing one leaves the field alone. -/
def toBool (field : Text) (v : Value) : Except WrapperError (Option Bool) :=
  match v with
  | .null => .ok none
  | .bool b => .ok (some b)
  | .int n => .ok (some (n ≠ 0))
  | .float x => .ok (some (!x.isZero))
  | .infinite _ | .notANumber => .ok (some true)
  | .string t =>
    if truths.contains t then .ok (some true)
    else if falsehoods.contains t then .ok (some false)
    else .error (.noTruth field t)
  | v => .error (.unconvertible field "bool" v)

def putEntry (entries : List (Text × Text)) (key value : Text) : List (Text × Text) :=
  if entries.any fun e => e.1 = key then
    entries.map fun e => if e.1 = key then (key, value) else e
  else entries ++ [(key, value)]

def addEntries (field : Text) (stringKeys : Bool) (entries : List (Text × Text)) :
    List (Value × Value) → List (Text × Text) × List WrapperError
  | [] => (entries, [])
  | (k, v) :: rest =>
    let label : Text := if stringKeys then k.shown else "<interface \x7b\x7d Value>"
    let name := field ++ "[" ++ label ++ "]"
    match toText name k, toText name v with
    | .ok key?, .ok value? =>
      addEntries field stringKeys (putEntry entries (key?.getD []) (value?.getD [])) rest
    | .error e, _ =>
      let (entries, errors) := addEntries field stringKeys entries rest
      (entries, e :: errors)
    | .ok _, .error e =>
      let (entries, errors) := addEntries field stringKeys entries rest
      (entries, e :: errors)

mutual

/-- Adds a value to the entries of a field: a mapping, or a list of such values.  A point in time counts as
a mapping without entries. -/
def addMap (field : Text) (entries : List (Text × Text)) :
    Value → List (Text × Text) × List WrapperError
  | .null | .time _ => (entries, [])
  | .map stringKeys es => addEntries field stringKeys entries es
  | .list items => addMaps field entries 0 items
  | v => (entries, [.noMap field v.typeName])

def addMaps (field : Text) (entries : List (Text × Text)) (index : Nat) :
    List Value → List (Text × Text) × List WrapperError
  | [] => (entries, [])
  | v :: vs =>
    let (entries, errors) := addMap (field ++ "[" ++ Text.ofNat index ++ "]") entries v
    if errors.isEmpty then addMaps field entries (index + 1) vs else (entries, errors)

end

/-! ## Fields -/

/-- The key and the value of a field: the key as it is, or else the first that differs in case only. -/
def field? (entries : List (Text × Value)) (name : Text) : Option (Text × Value) :=
  (entries.find? fun e => e.1 = name).orElse fun _ => entries.find? fun e => Text.sameFolded e.1 name

def fieldNames : List Text :=
  ["attribute", "widget", "property", "child", "priority", "related", "defaults"]

def convert {α : Type} (entries : List (Text × Value)) (name : Text) (default : α)
    (f : Text → Value → Except WrapperError (Option α)) : α × List WrapperError :=
  match field? entries name with
  | none => (default, [])
  | some (_, v) =>
    match f name v with
    | .ok a? => (a?.getD default, [])
    | .error e => (default, [e])

def convertMap (entries : List (Text × Value)) (name : Text) : List (Text × Text) × List WrapperError :=
  match field? entries name with
  | none => ([], [])
  | some (_, v) => addMap name [] v

def unknownKeys (entries : List (Text × Value)) : List Text :=
  let known := fieldNames.filterMap fun name => (field? entries name).map Prod.fst
  Text.sorted ((entries.map Prod.fst).filter fun k => !known.contains k)

def decodeWrapper (entries : List (Text × Value)) : Directive.WrapperSpec × List WrapperError :=
  let (name, e1) := convert entries "attribute" [] toText
  let (widget, e2) := convert entries "widget" [] toText
  let (property, e3) := convert entries "property" [] toText
  let (child, e4) := convert entries "child" false toBool
  let (priority, e5) := convert entries "priority" 0 toInt
  let (related, e6) := convertMap entries "related"
  let (defaults, e7) := convertMap entries "defaults"
  let unknown := unknownKeys entries
  let e8 := if unknown.isEmpty then [] else [WrapperError.unknownKeys unknown]
  (⟨name, widget, property, child, priority, related, defaults⟩, e1 ++ e2 ++ e3 ++ e4 ++ e5 ++ e6 ++ e7 ++ e8)

def decodingReport (errors : List WrapperError) : Text :=
  let points := errors.map fun e => ("* " : Text) ++ e.message
  Text.ofNat errors.length ++ " error(s) decoding:\n\n" ++ Text.join "\n" (Text.sorted points)

end FlutterLayout.Config
