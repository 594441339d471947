import FlutterLayout.Markup.SyntaxError
import FlutterLayout.Number.Integer

/-!
# Entity and character references

In character data and attribute values an `&` starts a reference that ends at the next `;`.  A
reference is a number of a code point (`#38`, `#x26`), one of the five names of XML, a name that the
caller declared, or, if the caller allows it, any other text, which then stands for itself.
Replacement text is not looked at again.
-/

namespace FlutterLayout.Markup

/-- What a reader keeps and how it treats unknown entities. -/
structure ReadOptions where
  keepComments : Bool := false
  keepCData : Bool := false
  ignoreUnknownEntities : Bool := false
  entities : List (Text × Text) := []
  deriving DecidableEq, Repr

namespace Reference

def predefined : List (Text × Text) :=
  [("amp", "&"), ("lt", "<"), ("gt", ">"), ("quot", [Text.doubleQuote]), ("apos", [Text.singleQuote])]

/-- The number of 32 bits written with digits of `base`. -/
def number? (base : Nat) (digits : Text) : Option Nat :=
  (Number.readNatIn base Number.maxWord digits).toOption

def codePoint? : Text → Option Nat
  | [] => none
  | b :: digits =>
    if b = Text.byte 'x' || b = Text.byte 'X' then number? 16 digits else number? 10 (b :: digits)

/-- The bytes of the character a reference without its `#` denotes: any scalar value but zero.  A code
point has a sign, so the upper half of the numbers of 32 bits are negative code points. -/
def character? (reference : Text) : Option Text :=
  match codePoint? reference with
  | some n =>
    let r := Int32.ofNat n
    if r ≠ 0 && 0 ≤ r && Text.isScalar r.toNatClampNeg then some (Text.ofRune r.toNatClampNeg)
    else none
  | none => none

/-- The replacement text of what stands between `&` and `;`. -/
def resolve (options : ReadOptions) (name : Text) : Except Fault Text :=
  let literal := "&" ++ name ++ ";"
  match Text.after? "#" name with
  | some number =>
    match character? number with
    | some bytes => .ok bytes
    | none => .error (.invalidCharacterReference literal)
  | none =>
    match (predefined ++ options.entities).lookup name with
    | some value => .ok value
    | none => if options.ignoreUnknownEntities then .ok literal else .error (.unknownEntity literal)

/-- Resolves the references of a text of which the first `skip` bytes belong to a reference already
resolved. -/
def decodeFrom (options : ReadOptions) : (skip : Nat) → Text → Except Fault Text
  | _, [] => .ok []
  | skip + 1, _ :: t => decodeFrom options skip t
  | 0, b :: t =>
    if b = Text.byte '&' then
      match Text.cut? ";" t with
      | none => .error .missingSemicolon
      | some (name, _) =>
        match resolve options name with
        | .error fault => .error fault
        | .ok value => (decodeFrom options (name.length + 1) t).map (value ++ ·)
    else (decodeFrom options 0 t).map (b :: ·)

def decode (options : ReadOptions) (t : Text) : Except Fault Text :=
  decodeFrom options 0 t

end Reference

end FlutterLayout.Markup
