import FlutterLayout.Text.Basic

/-!
# Positions in a source

A position is a line and a byte column, both counted from one.  A `Cursor` is a position together
with the text that still follows it; reading moves a cursor over bytes and keeps the position in
step.  The lemmas at the end say that reading moves a cursor forward, which is why readers end.
-/

namespace FlutterLayout.Markup

/-- A line and a byte column, both counted from one. -/
structure Position where
  line : Nat
  column : Nat
  deriving DecidableEq, Repr

namespace Position

def start : Position := ⟨1, 1⟩

def step (p : Position) (b : UInt8) : Position :=
  if b = Text.lineFeed then ⟨p.line + 1, 1⟩ else ⟨p.line, p.column + 1⟩

def advance (p : Position) (t : Text) : Position :=
  t.foldl step p

end Position

/-- A position and the text that follows it. -/
structure Cursor where
  position : Position
  rest : Text
  deriving DecidableEq, Repr

namespace Cursor

def ofText (t : Text) : Cursor := ⟨.start, t⟩

def atEnd (c : Cursor) : Bool :=
  c.rest.isEmpty

def sees (c : Cursor) (p : Text) : Bool :=
  p.startsWith c.rest

def finish (c : Cursor) : Position :=
  c.position.advance c.rest

def eat? (c : Cursor) (p : Text) : Option Cursor :=
  (p.after? c.rest).map fun rest => ⟨c.position.advance p, rest⟩

def span (c : Cursor) (f : UInt8 → Bool) : Text × Cursor :=
  (c.rest.takeWhile f, ⟨c.position.advance (c.rest.takeWhile f), c.rest.dropWhile f⟩)

/-- Moves up to the first occurrence of `delimiter` and over it; gives what stands before it. -/
def through? (c : Cursor) (delimiter : Text) : Option (Text × Cursor) :=
  (Text.cut? delimiter c.rest).map fun (body, rest) =>
    (body, ⟨c.position.advance (body ++ delimiter), rest⟩)

def isLayoutByte (b : UInt8) : Bool :=
  b = Text.space || b = Text.tabulator || b = Text.lineFeed

def skipLayout (c : Cursor) : Cursor :=
  (c.span isLayoutByte).2

end Cursor

/-! ## Reading moves forward -/

namespace Cursor

/-- At least one byte was read between the two cursors. -/
def Advances (c c' : Cursor) : Prop :=
  ∃ t ≠ [], c.rest = t ++ c'.rest

variable {c c' c'' : Cursor} {p : Text}

theorem Advances.suffix (h : c.Advances c') : c'.rest <:+ c.rest := by
  obtain ⟨t, -, hrest⟩ := h
  exact ⟨t, hrest.symm⟩

theorem Advances.length_lt (h : c.Advances c') : c'.rest.length < c.rest.length := by
  obtain ⟨t, ht, hrest⟩ := h
  have hpos := List.length_pos_iff.2 ht
  rw [hrest, List.length_append]
  omega

theorem Advances.trans_suffix (h : c.Advances c') (h' : c''.rest <:+ c'.rest) : c.Advances c'' := by
  obtain ⟨t, ht, hrest⟩ := h
  obtain ⟨u, hu⟩ := h'
  exact ⟨t ++ u, by simp [ht], by rw [hrest, ← hu, List.append_assoc]⟩

theorem rest_of_eat? (h : c.eat? p = some c') : c.rest = p ++ c'.rest := by
  obtain ⟨rest, hrest, he⟩ := Option.map_eq_some_iff.1 h
  cases he
  exact Text.after?_eq_some_iff.1 hrest

theorem suffix_of_eat? (h : c.eat? p = some c') : c'.rest <:+ c.rest :=
  ⟨p, (rest_of_eat? h).symm⟩

theorem advances_of_eat? (hp : p ≠ []) (h : c.eat? p = some c') : c.Advances c' :=
  ⟨p, hp, rest_of_eat? h⟩

theorem rest_of_through? {body : Text} (h : c.through? p = some (body, c')) : c.rest = body ++ p ++ c'.rest := by
  obtain ⟨⟨x, y⟩, hcut, he⟩ := Option.map_eq_some_iff.1 h
  cases he
  exact Text.eq_of_cut? hcut

theorem suffix_of_through? {body : Text} (h : c.through? p = some (body, c')) : c'.rest <:+ c.rest :=
  ⟨_, (rest_of_through? h).symm⟩

theorem rest_span (c : Cursor) (f : UInt8 → Bool) : c.rest = (c.span f).1 ++ (c.span f).2.rest :=
  List.takeWhile_append_dropWhile.symm

theorem suffix_span (c : Cursor) (f : UInt8 → Bool) : (c.span f).2.rest <:+ c.rest :=
  ⟨_, (c.rest_span f).symm⟩

theorem suffix_skipLayout (c : Cursor) : c.skipLayout.rest <:+ c.rest :=
  c.suffix_span isLayoutByte

end Cursor

end FlutterLayout.Markup
