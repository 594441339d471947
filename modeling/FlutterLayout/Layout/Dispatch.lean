import FlutterLayout.Layout.Attribute
import FlutterLayout.StableSort

/-!
# Dispatch of attributes

The attributes of an element are resolved in the order of the priorities of their directives, those of
one priority in source order.  An attribute that a present directive claims is left to that directive;
an attribute without a directive becomes a plain property.
-/

namespace FlutterLayout.Layout

open Directive (Handlers Registration)

/-- An attribute to resolve: its directive and the attributes claimed for it. -/
structure Claim where
  name : Text
  value : Text
  registration? : Option Registration
  related : List (Text × Text) := []
  deriving DecidableEq, Repr

namespace Claim

def priority (c : Claim) : Int64 :=
  match c.registration? with
  | some r => r.handler.priority
  | none => Directive.Priority.standard

def before (c d : Claim) : Bool :=
  c.priority - d.priority < 0

def effectiveValue (c : Claim) : Text :=
  (c.registration?.bind Registration.value?).getD c.value

end Claim

/-- Claims the present attributes among `names` for the attribute `own`, except those `taken` already.
Gives the claimed ones and all that are taken then. -/
def claimRelated (present : List Markup.Attribute) (own : Text) :
    (names taken : List Text) → List (Text × Text) × List Text
  | [], taken => ([], taken)
  | name :: names, taken =>
    match present.lookup name with
    | some value =>
      if name = own || taken.contains name then claimRelated present own names taken
      else
        let (claimed, taken) := claimRelated present own names (name :: taken)
        ((name, value) :: claimed, taken)
    | none => claimRelated present own names taken

/-- Goes through attributes in source order and lets each directive claim others; attributes that are
taken when their turn comes are passed over. -/
def claimAll (handlers : Handlers) (present : List Markup.Attribute) :
    List Markup.Attribute → (taken : List Text) → List Claim × List Text
  | [], taken => ([], taken)
  | (name, value) :: rest, taken =>
    if taken.contains name then claimAll handlers present rest taken
    else
      let registration? := handlers.get? name
      let names := (registration?.map fun r => r.handler.related).getD []
      let (related, taken) := claimRelated present name names taken
      let (claims, taken) := claimAll handlers present rest taken
      (⟨name, value, registration?, related⟩ :: claims, taken)

def sortClaims (claims : List Claim) : List Claim :=
  stableSort Claim.before claims

/-- The attributes to resolve, in order.  An attribute may be taken by one that stands behind it. -/
def claims (handlers : Handlers) (attributes : List Markup.Attribute) : List Claim :=
  let (claims, taken) := claimAll handlers attributes attributes []
  sortClaims (claims.filter fun c => !taken.contains c.name)

def propertyName (name : Text) : Text :=
  Text.withoutLeading ":" name

def resolveClaim (o : Options) (e : Markup.Element) (target : Target) (c : Claim) : BuildM Target := do
  let value := c.effectiveValue
  let plain (value : Text) (target : Target) : BuildM Target :=
    return { target with current := ← Build.setProperty o (propertyName c.name) value target }
  match c.registration? with
  | none => plain value target
  | some r =>
    if r.handler.resolves then
      let outcome ← Attribute.apply o r.handler ⟨c.name, value, e, c.related⟩ target
      let target :=
        if outcome.wrapper = WidgetId.none then target else { target with current := outcome.wrapper }
      if outcome.consumed then pure target else plain outcome.value target
    else plain value target

/-- Resolves the attributes of an element and gives the target with its outermost widget. -/
def resolveAttributes (o : Options) (e : Markup.Element) (attributes : List Markup.Attribute)
    (target : Target) : BuildM Target :=
  (claims o.handlers attributes).foldlM (resolveClaim o e) target

end FlutterLayout.Layout
