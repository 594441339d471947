import FlutterLayout.Text.Letter
import FlutterLayout.Text.Blank
import FlutterLayout.Text.Quoted
import FlutterLayout.Pipe.Mark

/-!
# Piped expressions

An attribute value may pass its value through pipes:

    atom | name : argument : argument | name
-/

namespace FlutterLayout.Pipe

/-! ## Variable names

The variables that hold the data of a subscription are named after its source: the runs of letters,
digits and underscores in it, joined in camel case, without underscores around each run.
`ctrl.counter` gives `ctrlCounter`. -/

def isIdentifierRune (r : Rune) : Bool :=
  r = 0x5F || Text.isLetter r || Text.isDigit r

/-- The maximal runs of identifier runes among segments; `run` is the one being read. -/
def identifierRunsFrom (run : Text) : List Text.Segment → List Text
  | [] => if run.isEmpty then [] else [run]
  | s :: segments =>
    if isIdentifierRune s.rune then identifierRunsFrom (run ++ s.bytes) segments
    else if run.isEmpty then identifierRunsFrom [] segments
    else run :: identifierRunsFrom [] segments

def identifierRuns (t : Text) : List Text :=
  identifierRunsFrom [] (Text.segments t)

def trimUnderscores (t : Text) : Text :=
  let isUnderscore := fun b => b = Text.byte '_'
  ((t.dropWhile isUnderscore).reverse.dropWhile isUnderscore).reverse

def capitalised : Text → Text
  | [] => []
  | b :: t => (if b < 0x80 then [Text.upperByte b] else Text.ofRune Text.replacementRune) ++ t

def camelCase : List Text → Text
  | [] => []
  | first :: later => first ++ later.flatMap capitalised

def variableName (source : Text) : Text :=
  let name := camelCase (((identifierRuns source).map trimUnderscores).filter (!·.isEmpty))
  match name with
  | [] => "pipe"
  | b :: _ => if Text.isAsciiDigit b then Text.byte 'v' :: name else name

/-! ## Subscriptions -/

inductive Kind where
  | stream
  | future
  | behavior
  deriving DecidableEq, Repr

namespace Kind

def name : Kind → Text
  | stream => "stream"
  | future => "future"
  | behavior => "behavior"

def ofName? (t : Text) : Option Kind :=
  [stream, future, behavior].find? fun kind => kind.name = t

def widgetType : Kind → Text
  | future => "FutureBuilder"
  | _ => "StreamBuilder"

end Kind

/-- What a reactive builder listens to. -/
structure Subscription where
  kind : Kind
  source : Text
  /-- The expression for the data before the first event; empty when there is none. -/
  initial : Text
  valueName : Text
  snapshotName : Text
  skipNullCheck : Bool := false
  deriving DecidableEq, Repr

namespace Subscription

def key (s : Subscription) : Text :=
  s.kind.name ++ [0] ++ s.source

def make (kind : Kind) (source stem : Text) : Subscription where
  kind := kind
  source := source
  initial := if kind = .behavior then source ++ ".value" else []
  valueName := variableName stem ++ "Value"
  snapshotName := variableName stem ++ "Snapshot"

end Subscription

/-- A plain expression and the subscriptions it needs, innermost first: the source of one may use the
variables of those behind it. -/
structure Expression where
  value : Text
  subscriptions : List Subscription
  deriving DecidableEq, Repr

/-! ## Chains -/

/-- A chain read up to some pipe: the value, the text its variables are named after, and the
subscriptions, innermost first. -/
structure Chain where
  value : Text
  stem : Text
  subscriptions : List Subscription
  deriving DecidableEq, Repr

def transformCall (provider name value : Text) (arguments : List Text) : Text :=
  provider ++ ".transform(context, " ++ Text.quoted name ++ ", " ++ value ++ ", ["
    ++ Text.join ", " arguments ++ "])"

/-- Passes a chain through the pipe written `part`; `reveal` puts groups back in place of their
placeholders.  A pipe without a name does nothing. -/
def Chain.pipe (provider : Text) (reveal : Text → Text) (c : Chain) (part : Text) : Chain :=
  let segments := splitTop (Text.byte ':') part
  let name := Text.trim (segments.headD [])
  if name.isEmpty then c
  else
    match Kind.ofName? name with
    | some kind =>
      let s := Subscription.make kind c.value c.stem
      ⟨s.valueName, s.valueName, s :: c.subscriptions⟩
    | none =>
      let arguments := segments.tail.map fun a => reveal (Text.trim a)
      ⟨transformCall provider name c.value arguments, c.stem ++ " " ++ name, c.subscriptions⟩

def readChain (provider : Text) (reveal : Text → Text) (t : Text) : Chain :=
  let parts := splitPipes t
  let value := reveal (Text.trim (parts.headD []))
  parts.tail.foldl (Chain.pipe provider reveal) ⟨value, value, []⟩

/-! ## Hidden groups -/

/-- An expression with placeholders in place of its groups with pipes. -/
structure Hidden where
  text : Text
  placeholders : List (Text × Text)
  subscriptions : List Subscription
  deriving DecidableEq, Repr

def placeholder (n : Nat) : Text :=
  "__pg" ++ Text.ofNat n ++ "__"

def Hidden.reveal (h : Hidden) (t : Text) : Text :=
  h.placeholders.foldl (fun t (mark, value) => Text.replaceAll mark value t) t

def hideGroups (read : Text → StateM Nat Expression) : List Group → Hidden → StateM Nat Hidden
  | [], h => pure h
  | g :: gs, h =>
    if hasPipe g.inner then do
      let e ← read g.inner
      let n ← get
      set (n + 1)
      hideGroups read gs
        ⟨h.text ++ g.before ++ placeholder n,
          h.placeholders ++ [(placeholder n, "(" ++ e.value ++ ")")],
          h.subscriptions ++ e.subscriptions⟩
    else
      hideGroups read gs
        ⟨h.text ++ g.before ++ "(" ++ g.inner ++ ")", h.placeholders, h.subscriptions⟩

def hide (read : Text → StateM Nat Expression) (t : Text) : StateM Nat Hidden := do
  let (groups, tail) := groups t
  let h ← hideGroups read groups ⟨[], [], []⟩
  pure { h with text := h.text ++ tail }

/-! ## Expressions -/

def readAll (read : Text → StateM Nat Expression) : List Text → StateM Nat (List Expression)
  | [] => pure []
  | t :: ts => do
    let e ← read t
    let es ← readAll read ts
    pure (e :: es)

def readNested (provider : Text) : (fuel : Nat) → Text → StateM Nat Expression
  | 0, t => pure ⟨Text.trim t, []⟩
  | fuel + 1, t => do
    let t := Text.trim t
    let whole? := (wholeGroup? t).filter hasPipe
    match whole? with
    | some inner => readNested provider fuel inner
    | none =>
      let h ← hide (readNested provider fuel) t
      match splitTop (Text.byte ',') h.text with
      | first :: second :: more =>
        let es ← readAll (readNested provider fuel) ((first :: second :: more).map h.reveal)
        pure ⟨Text.join ", " (es.map Expression.value),
          es.flatMap Expression.subscriptions ++ h.subscriptions⟩
      | _ =>
        let c := readChain provider h.reveal h.text
        pure ⟨c.value, c.subscriptions ++ h.subscriptions⟩

def stripBraces (t : Text) : Text :=
  let trimmed := Text.trim t
  if Text.startsWith [0x7B, 0x7B] trimmed && Text.endsWith [0x7D, 0x7D] trimmed && 4 ≤ trimmed.length then
    Text.trim ((trimmed.drop 2).take (trimmed.length - 4))
  else t

def nestingFuel (t : Text) : Nat :=
  2 * t.length + 4

def Expression.read (provider t : Text) : StateM Nat Expression :=
  readNested provider (nestingFuel (stripBraces t)) (stripBraces t)

def defaultProvider : Text := "_pipeProvider"

def hasReactivePipe (t : Text) : Bool :=
  hasPipe t && !(Id.run ((Expression.read defaultProvider t).run 0)).1.subscriptions.isEmpty

/-- How expressions are read.  Placeholders are replaced in no fixed order, so where the order matters one
text may be read in several ways; by default the placeholder that was made first is replaced first. -/
structure Reading where
  read : (provider t : Text) → StateM Nat Expression := Expression.read
  /-- Whether an expression subscribes, when this is asked behind a number of placeholders. -/
  isReactive : (placeholders : Nat) → Text → Bool := fun _ => hasReactivePipe

end FlutterLayout.Pipe
