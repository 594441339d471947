import FlutterLayout.Pipe.Expression
import FlutterLayout.Proofs.Pipe.Nesting

/-!
# Grammar — piped expressions as trees

An expression is a list of flows, with commas between them.  A flow is an atom that goes through calls of
pipes, each with a name and arguments.  Atoms and arguments are pieces: plain text in turn with groups,
and a group is again an expression.
-/

namespace FlutterLayout.Pipe

open Text

variable {α β γ : Type}

/-! ## Pieces -/

structure Piece (α : Type) where
  first : Text
  rest : List (α × Text)
  deriving DecidableEq, Repr

namespace Piece

def spell (f : α → Text) (p : Piece α) : Text :=
  p.first ++ p.rest.flatMap fun (g, t) => f g ++ t

def groups (p : Piece α) : List α :=
  p.rest.map Prod.fst

def texts (p : Piece α) : List Text :=
  p.first :: p.rest.map Prod.snd

end Piece

/-! ## Phrases -/

structure Call (β : Type) where
  name : Text
  arguments : List β
  deriving DecidableEq, Repr

structure Flow (β : Type) where
  atom : β
  calls : List (Call β)
  deriving DecidableEq, Repr

structure Phrase (β : Type) where
  first : Flow β
  more : List (Flow β)
  deriving DecidableEq, Repr

def Call.map (f : β → γ) (c : Call β) : Call γ :=
  ⟨c.name, c.arguments.map f⟩

def Flow.map (f : β → γ) (w : Flow β) : Flow γ :=
  ⟨f w.atom, w.calls.map (Call.map f)⟩

/-- The atom and all arguments of a flow, in the order they are written in. -/
def Flow.pieces (w : Flow β) : List β :=
  w.atom :: w.calls.flatMap Call.arguments

namespace Phrase

def map (f : β → γ) (e : Phrase β) : Phrase γ :=
  ⟨e.first.map f, e.more.map (Flow.map f)⟩

def flows (e : Phrase β) : List (Flow β) :=
  e.first :: e.more

def pieces (e : Phrase β) : List β :=
  e.flows.flatMap Flow.pieces

def groups (e : Phrase (Piece α)) : List α :=
  e.pieces.flatMap Piece.groups

def group? (e : Phrase (Piece α)) : Option α :=
  match e with
  | ⟨⟨⟨before, [(g, behind)]⟩, []⟩, []⟩ => if isBlank before && isBlank behind then some g else none
  | _ => none

def IsPiped (e : Phrase (Piece α)) : Prop :=
  (∃ w ∈ e.flows, w.calls ≠ []) ∨ e.groups ≠ []

end Phrase

/-! ## Names -/

def isNameRune (r : Rune) : Bool :=
  r = 0x24 || isIdentifierRune r

def IsName (t : Text) : Prop :=
  t ≠ [] ∧ ∀ r ∈ runes t, isNameRune r = true

instance (t : Text) : Decidable (IsName t) :=
  inferInstanceAs (Decidable (_ ∧ _))

/-! ## Writing -/

def Call.text (c : Call Text) : Text :=
  c.name ++ c.arguments.flatMap (byte ':' :: ·)

def Flow.text (w : Flow Text) : Text :=
  w.atom ++ w.calls.flatMap fun c => [space, bar, space] ++ c.text

def Phrase.text (e : Phrase Text) : Text :=
  e.first.text ++ e.more.flatMap fun w => byte ',' :: w.text

def Phrase.spell (f : α → Text) (e : Phrase (Piece α)) : Text :=
  (e.map (Piece.spell fun g => "(" ++ f g ++ ")")).text

/-! ## Meaning -/

/-- Passes the value of a flow through a pipe.  A pipe that subscribes has no use for its arguments; any
other becomes a call. -/
def Call.apply (provider : Text) (chain : Chain) (c : Call Text) : Chain :=
  match Kind.ofName? c.name with
  | some kind =>
    let s := Subscription.make kind chain.value chain.stem
    ⟨s.valueName, s.valueName, s :: chain.subscriptions⟩
  | none =>
    ⟨provider ++ ".transform(context, \"" ++ c.name ++ "\", " ++ chain.value ++ ", ["
        ++ Text.join ", " c.arguments ++ "])",
      chain.stem ++ " " ++ c.name, chain.subscriptions⟩

def Flow.meaning (provider : Text) (w : Flow Text) : Chain :=
  w.calls.foldl (Call.apply provider) ⟨w.atom, w.atom, []⟩

def Phrase.meaning (provider : Text) (e : Phrase Text) : Expression where
  value := Text.join ", " (e.flows.map fun w => (w.meaning provider).value)
  subscriptions := e.flows.flatMap fun w => (w.meaning provider).subscriptions

/-- What an expression stands for whose groups stand for what `m` says.  The groups are put in place with
parentheses around their values, and what they subscribe to comes last.  An expression that is just a group
stands for the same as the group. -/
def Phrase.value (provider : Text) (m : α → Expression) (e : Phrase (Piece α)) : Expression :=
  match e.group? with
  | some g => m g
  | none =>
    let plain := (e.map fun p => trim (p.spell fun g => "(" ++ (m g).value ++ ")")).meaning provider
    ⟨plain.value, plain.subscriptions ++ e.groups.flatMap fun g => (m g).subscriptions⟩

/-! ## Well-formed expressions -/

/-- The plain texts are balanced, hold no pipe, and none of `stops` outside brackets. -/
def Piece.WellFormed (stops : List UInt8) (p : Piece α) : Prop :=
  ∀ t ∈ p.texts, Nests [bar] (bar :: stops) t

def Call.WellFormed (c : Call (Piece α)) : Prop :=
  IsName c.name ∧ ∀ p ∈ c.arguments, p.WellFormed [byte ',', byte ':']

def Flow.WellFormed (w : Flow (Piece α)) : Prop :=
  w.atom.WellFormed [byte ','] ∧ ∀ c ∈ w.calls, c.WellFormed

def Phrase.WellFormed (e : Phrase (Piece α)) : Prop :=
  ∀ w ∈ e.flows, w.WellFormed

/-! ## Placeholders -/

def placeholderStart : Text := "__pg"

def Clean (t : Text) : Prop :=
  ¬ placeholderStart <:+: t

instance (t : Text) : Decidable (Clean t) :=
  inferInstanceAs (Decidable (¬ _))

/-- What makes the start of a placeholder and its first digit, together with the last bytes of another one. -/
def continuations : List Text :=
  [ofString "pg", ofString "_pg"].flatMap fun q => (ofString "0123456789").map fun d => q ++ [d]

/-- A text that, right behind a placeholder, makes the start of another one with its last bytes. -/
def GoesOn (t : Text) : Prop :=
  ∃ q ∈ continuations, q <+: t

instance (t : Text) : Decidable (GoesOn t) :=
  inferInstanceAs (Decidable (∃ q ∈ continuations, q <+: t))

/-- No text behind a group goes on with what could be part of a placeholder. -/
def Piece.KeepsApart (p : Piece α) : Prop :=
  ∀ t ∈ p.rest.map Prod.snd, ¬ GoesOn t

instance (p : Piece α) : Decidable p.KeepsApart :=
  inferInstanceAs (Decidable (∀ t ∈ p.rest.map Prod.snd, ¬ GoesOn t))

/-! ## Nesting -/

def Nested : (depth : Nat) → Type
  | 0 => Empty
  | depth + 1 => Phrase (Piece (Nested depth))

namespace Nested

def text : {depth : Nat} → Nested depth → Text
  | _ + 1, e => Phrase.spell text e

def meaning (provider : Text) : {depth : Nat} → Nested depth → Expression
  | _ + 1, e => Phrase.value provider (meaning provider) e

def IsPiped : {depth : Nat} → Nested depth → Prop
  | _ + 1, e => Phrase.IsPiped e

/-- Every group has a pipe, and the texts are what they may be at every depth. -/
def WellFormed : {depth : Nat} → Nested depth → Prop
  | _ + 1, e => Phrase.WellFormed e ∧ ∀ g ∈ Phrase.groups e, IsPiped g ∧ WellFormed g

def KeepsApart : {depth : Nat} → Nested depth → Prop
  | _ + 1, e => (∀ p ∈ Phrase.pieces e, p.KeepsApart) ∧ ∀ g ∈ Phrase.groups e, KeepsApart g

end Nested

end FlutterLayout.Pipe
