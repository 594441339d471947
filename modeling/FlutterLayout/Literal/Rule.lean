import FlutterLayout.Text.Blank
import FlutterLayout.Registry

/-!
# Literal values

Some attributes accept a short way to write a Dart value: a colour name or number, edge insets, a member
of an enumeration, an icon name.  A `Literal.Rule` turns such a value into a Dart expression and leaves
every other value alone.  Rules are registered by property name; `standard` is the registry a compiler
starts with.
-/

namespace FlutterLayout.Literal

/-! ## Colours -/

def accentedColors : List Text :=
  ["red", "pink", "purple", "deepPurple", "indigo", "blue", "lightBlue", "cyan", "teal", "green",
    "lightGreen", "lime", "yellow", "amber", "orange", "deepOrange"]

def plainColors : List Text :=
  ["brown", "grey", "blueGrey", "black", "white", "transparent", "black12", "black26", "black38",
    "black45", "black54", "black87", "white10", "white12", "white24", "white30", "white38", "white54",
    "white60", "white70"]

def isMaterialColor (name : Text) : Bool :=
  accentedColors.contains name || plainColors.contains name
    || accentedColors.any fun color => color ++ "Accent" = name

def shade? (t : Text) : Option (Text × Text) :=
  let name := t.takeWhile fun b => Text.isAsciiLower b || Text.isAsciiUpper b
  match t.drop name.length with
  | 0x5B :: rest =>
    let number := rest.takeWhile Text.isAsciiDigit
    if (name.head?.map Text.isAsciiLower).getD false && !number.isEmpty
      && rest.drop number.length = [0x5D] then some (name, number)
    else none
  | _ => none

/-- The eight digits `AARRGGBB` of a colour number of three, six or eight hexadecimal digits. -/
def colorDigits? (digits : Text) : Option Text :=
  if !digits.all fun b => (Text.hexValue? b).isSome then none
  else
    match digits with
    | [r, g, b] => some ("FF" ++ [r, r, g, g, b, b].map Text.upperByte)
    | [_, _, _, _, _, _] => some ("FF" ++ digits.map Text.upperByte)
    | [_, _, _, _, _, _, _, _] => some (digits.map Text.upperByte)
    | _ => none

def color? (value : Text) : Option Text :=
  let v := Text.trim value
  if isMaterialColor v then some ("Colors." ++ v)
  else
    match shade? v with
    | some (name, number) =>
      if isMaterialColor name then some ("Colors." ++ name ++ "[" ++ number ++ "]") else none
    | none =>
      match Text.after? "#" v with
      | some digits => (colorDigits? digits).map fun d => "Color(0x" ++ d ++ ")"
      | none => none

/-! ## Edge insets -/

def isInsetSeparator (b : UInt8) : Bool :=
  b = 0x09 || b = 0x0A || b = 0x0C || b = 0x0D || b = 0x20 || b = Text.byte ','

/-- The texts between maximal runs of separators; `behind` tells that the byte before is one. -/
def insetPartsFrom (behind : Bool) : Text → List Text
  | [] => [[]]
  | b :: t =>
    if isInsetSeparator b then
      if behind then insetPartsFrom true t else [] :: insetPartsFrom true t
    else
      match insetPartsFrom false t with
      | [] => [[b]]
      | part :: parts => (b :: part) :: parts

def isNumber (t : Text) : Bool :=
  let t := Text.withoutLeading "-" t
  let whole := t.takeWhile Text.isAsciiDigit
  !whole.isEmpty &&
    match t.drop whole.length with
    | [] => true
    | 0x2E :: fraction => !fraction.isEmpty && fraction.all Text.isAsciiDigit
    | _ => false

/-- The expression of one, two or four numbers: all sides; vertical and horizontal; left, top, right
and bottom. -/
def insets? (value : Text) : Option Text :=
  let parts := insetPartsFrom false (Text.trim value)
  if !parts.all isNumber then none
  else
    match parts with
    | [all] => some ("EdgeInsets.all(" ++ all ++ ")")
    | [vertical, horizontal] =>
      some ("EdgeInsets.symmetric(vertical: " ++ vertical ++ ", horizontal: " ++ horizontal ++ ")")
    | [left, top, right, bottom] =>
      some ("EdgeInsets.fromLTRB(" ++ left ++ ", " ++ top ++ ", " ++ right ++ ", " ++ bottom ++ ")")
    | _ => none

/-! ## Enumerations and icons -/

/-- An enumeration whose members may be written without its type. -/
structure Enumeration where
  type : Text
  values : List Text
  /-- The widget types for which the rule holds; all of them when there are none. -/
  widgetTypes : List Text := []
  deriving DecidableEq, Repr

def isMemberName : Text → Bool
  | [] => false
  | b :: t => Text.isAsciiLower b && t.all Text.isAsciiAlnum

def Enumeration.member? (e : Enumeration) (value widgetType : Text) : Option Text :=
  let v := Text.trim value
  if !e.widgetTypes.isEmpty && !e.widgetTypes.contains widgetType then none
  else if isMemberName v && e.values.contains v then some (e.type ++ "." ++ v)
  else none

def isIconName : Text → Bool
  | [] => false
  | b :: t =>
    Text.isAsciiLower b
      && t.all fun b => Text.isAsciiLower b || Text.isAsciiDigit b || b = Text.byte '_'

def icon? (value widgetType : Text) : Option Text :=
  let v := Text.trim value
  if widgetType = "Icon" && isIconName v then some ("Icons." ++ v) else none

/-! ## Rules -/

/-- A way to write literal values. -/
inductive Rule where
  | color
  | insets
  | icon
  | enumeration (e : Enumeration)
  deriving DecidableEq, Repr

/-- The Dart expression of a literal value; none for a value the rule leaves alone. -/
def Rule.apply? (rule : Rule) (value widgetType : Text) : Option Text :=
  match rule with
  | color => color? value
  | insets => insets? value
  | icon => icon? value widgetType
  | enumeration e => e.member? value widgetType

def Rule.kindName : Rule → Text
  | enumeration _ => "transform.Enum"
  | _ => "transform.Func"

abbrev Rules := Registry Rule

/-- The Dart expression of a literal value of a property, by the rule registered for it. -/
def Rules.apply? (rules : Rules) (property value widgetType : Text) : Option Text :=
  match rules.get? property with
  | some rule => rule.apply? value widgetType
  | none => none

def alignments : List Text :=
  ["topLeft", "topCenter", "topRight", "centerLeft", "center", "centerRight", "bottomLeft",
    "bottomCenter", "bottomRight"]

def standardEntries : List (List Text × Rule) :=
  [(["color", "backgroundColor", "foregroundColor", "shadowColor", "splashColor", "highlightColor",
      "focusColor", "hoverColor", "activeColor", "inactiveColor", "fillColor", "iconColor", "textColor",
      "disabledColor", "selectedItemColor", "unselectedItemColor", "indicatorColor", "dividerColor",
      "cursorColor"], .color),
    (["padding", "margin", "contentPadding"], .insets),
    (["icon"], .icon),
    (["mainAxisAlignment"], .enumeration
      { type := "MainAxisAlignment"
        values := ["start", "end", "center", "spaceBetween", "spaceAround", "spaceEvenly"] }),
    (["crossAxisAlignment"], .enumeration
      { type := "CrossAxisAlignment", values := ["start", "end", "center", "stretch", "baseline"] }),
    (["mainAxisSize"], .enumeration { type := "MainAxisSize", values := ["min", "max"] }),
    (["textAlign"], .enumeration
      { type := "TextAlign", values := ["left", "right", "center", "justify", "start", "end"] }),
    (["fontWeight"], .enumeration
      { type := "FontWeight"
        values := ["normal", "bold", "w100", "w200", "w300", "w400", "w500", "w600", "w700", "w800",
          "w900"] }),
    (["fontStyle"], .enumeration { type := "FontStyle", values := ["normal", "italic"] }),
    (["alignment"], .enumeration { type := "Alignment", values := alignments }),
    (["fit"], .enumeration
      { type := "BoxFit"
        values := ["fill", "contain", "cover", "fitWidth", "fitHeight", "none", "scaleDown"] }),
    (["scrollDirection", "direction"], .enumeration
      { type := "Axis", values := ["horizontal", "vertical"] }),
    (["overflow"], .enumeration
      { type := "TextOverflow", values := ["clip", "fade", "ellipsis", "visible"]
        widgetTypes := ["Text", "RichText"] }),
    (["textDirection"], .enumeration { type := "TextDirection", values := ["ltr", "rtl"] }),
    (["verticalDirection"], .enumeration { type := "VerticalDirection", values := ["up", "down"] })]

def standard : Rules :=
  standardEntries.foldl (fun rules (names, rule) => rules.insertAll names rule) .empty

end FlutterLayout.Literal
