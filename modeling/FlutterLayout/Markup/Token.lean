import FlutterLayout.Markup.Node
import FlutterLayout.Markup.Reference

/-!
# Tokens — the items a source consists of

A source is a sequence of comments, CDATA sections, processing instructions, document type
declarations, tags and character data.  `Token.read` reads the one that starts at a cursor, whatever
stands around it; `Tokens.read` reads them all, up to the end or to the first failure.
-/

namespace FlutterLayout.Markup

/-- A byte of a name: an ASCII letter or digit, one of `_ - . :`, or any byte beyond ASCII. -/
def isNameByte (b : UInt8) : Bool :=
  Text.isAsciiAlnum b || b = Text.byte '_' || b = Text.byte '-' || b = Text.byte '.'
    || b = Text.byte ':' || 0x80 ≤ b

/-- An item of a source. -/
inductive Token where
  | comment (body : Text)
  | cdata (body : Text)
  | instruction
  | doctype
  /-- A start tag; `closed` when it ends with `/>`. -/
  | startTag (name : Text) (attributes : List Attribute) (closed : Bool)
  /-- An end tag: its name, where the name ends, and where its `>` is missing, if it is. -/
  | endTag (name : Text) (nameEnd : Position) (missing : Option Position)
  | characters (value : Text)

/-! ## Attributes -/

/-- Reads a quoted value behind `=`.  `place` is where the attribute `name` begins. -/
def readValue (options : ReadOptions) (place : Position) (name : Text) (c : Cursor) :
    Except Failure (Text × Cursor) :=
  match c.rest with
  | [] => .error ⟨c.position, .expectedQuotedValue name⟩
  | quote :: rest =>
    if quote = Text.doubleQuote || quote = Text.singleQuote then
      let inside : Cursor := ⟨c.position.step quote, rest⟩
      match inside.through? [quote] with
      | none => .error ⟨place, .unterminatedValue name⟩
      | some (raw, behind) =>
        match Reference.decode options raw with
        | .error fault => .error ⟨inside.position, fault⟩
        | .ok value => .ok (value, behind)
    else .error ⟨c.position, .expectedQuotedValue name⟩

/-- Reads one attribute; without `=` its value is empty.  `seen` are the attributes before it. -/
def readAttribute (options : ReadOptions) (seen : List Attribute) (c : Cursor) :
    Except Failure (Attribute × Cursor) :=
  let (name, behind) := c.span isNameByte
  if name.isEmpty then .error ⟨c.position, .invalidAttributeName⟩
  else if (seen.lookup name).isSome then .error ⟨c.position, .redefinedAttribute name⟩
  else
    match behind.skipLayout.eat? "=" with
    | none => .ok ((name, []), behind.skipLayout)
    | some behind =>
      match readValue options c.position name behind.skipLayout with
      | .error failure => .error failure
      | .ok (value, behind) => .ok ((name, value), behind)

theorem suffix_readValue
    (h : readValue options place name c = .ok (value, c')) : c'.rest <:+ c.rest := by
  unfold readValue at h
  split at h
  · cases h
  · rename_i quote rest hrest
    split at h
    · dsimp only at h
      split at h
      · cases h
      · rename_i raw behind hthrough
        split at h
        · cases h
        · cases h
          rw [hrest]
          exact (Cursor.suffix_of_through? hthrough).trans (List.suffix_cons quote rest)
    · cases h

theorem advances_readAttribute
    (h : readAttribute options seen c = .ok (one, c')) : c.Advances c' := by
  have hlayout := (c.span isNameByte).2.suffix_skipLayout
  unfold readAttribute at h
  dsimp only at h
  split at h
  · cases h
  · rename_i hname
    have hspan : c.Advances (c.span isNameByte).2 := ⟨_, by simpa using hname, c.rest_span isNameByte⟩
    refine hspan.trans_suffix ?_
    split at h
    · cases h
    · split at h
      · cases h
        exact hlayout
      · rename_i behind heat
        split at h
        · cases h
        · rename_i hvalue
          cases h
          have hequals := (Cursor.suffix_of_eat? heat).trans hlayout
          exact ((suffix_readValue hvalue).trans behind.suffix_skipLayout).trans hequals

def Cursor.atTagEnd (c : Cursor) : Bool :=
  c.atEnd || c.sees ">" || c.sees "/>"

/-- Reads the attributes of a start tag behind those in `seen`, and the layout behind each. -/
def readAttributes (options : ReadOptions) (seen : List Attribute) (c : Cursor) :
    Except Failure (List Attribute × Cursor) :=
  if c.skipLayout.atTagEnd then .ok (seen, c.skipLayout)
  else
    match _h : readAttribute options seen c.skipLayout with
    | .error failure => .error failure
    | .ok (one, behind) => readAttributes options (seen ++ [one]) behind
termination_by c.rest.length
decreasing_by
  have := (advances_readAttribute _h).length_lt
  have := c.suffix_skipLayout.length_le
  omega

/-! ## Tags -/

def spaceAttribute : Text := "xml:space"

def spaceRule (attributes : List Attribute) : Except Fault (Option Bool) :=
  match attributes.lookup spaceAttribute with
  | none => .ok none
  | some value =>
    if value = "preserve" then .ok (some true)
    else if value = "default" then .ok (some false)
    else .error (.invalidSpace value)

def readStartTag (options : ReadOptions) (place : Position) (c : Cursor) :
    Except Failure (Token × Cursor) :=
  let (name, behind) := c.span isNameByte
  if name.isEmpty then .error ⟨c.position, .expectedElementName⟩
  else
    match readAttributes options [] behind with
    | .error failure => .error failure
    | .ok (attributes, behind) =>
      match spaceRule attributes with
      | .error fault => .error ⟨place, fault⟩
      | .ok _ =>
        match behind.eat? "/>" with
        | some behind => .ok (.startTag name attributes true, behind)
        | none =>
          match behind.eat? ">" with
          | some behind => .ok (.startTag name attributes false, behind)
          | none => .error ⟨place, .unterminatedStartTag name⟩

def readEndTag (c : Cursor) : Token × Cursor :=
  let (name, behind) := c.span isNameByte
  match behind.skipLayout.eat? ">" with
  | some rest => (.endTag name behind.position none, rest)
  | none => (.endTag name behind.position (some behind.skipLayout.position), behind.skipLayout)

/-! ## Declarations and character data -/

/-- Moves behind the first `>` at which the `[` so far, of which `depth` are counted already, do not
outnumber the `]`. -/
def skipDoctype (depth : Int) (p : Position) : Text → Option Cursor
  | [] => none
  | b :: t =>
    if b = Text.byte '>' && depth ≤ 0 then some ⟨p.step b, t⟩
    else if b = Text.byte '[' then skipDoctype (depth + 1) (p.step b) t
    else if b = Text.byte ']' then skipDoctype (depth - 1) (p.step b) t
    else skipDoctype depth (p.step b) t

/-- Reads what is delimited by `delimiter`; without it the whole rest is read in vain. -/
def readDelimited (delimiter : Text) (fault : Fault) (token : Text → Token) (c : Cursor) :
    Except Failure (Token × Cursor) :=
  match c.through? delimiter with
  | none => .error ⟨c.finish, fault⟩
  | some (body, behind) => .ok (token body, behind)

def readCharacters (options : ReadOptions) (c : Cursor) : Except Failure (Token × Cursor) :=
  let (raw, behind) := c.span fun b => b ≠ Text.byte '<'
  match Reference.decode options raw with
  | .error fault => .error ⟨c.position, fault⟩
  | .ok value => .ok (.characters value, behind)

def Token.read (options : ReadOptions) (c : Cursor) : Except Failure (Token × Cursor) :=
  match c.eat? "</" with
  | some behind => .ok (readEndTag behind)
  | none =>
  match c.eat? "<!--" with
  | some behind => readDelimited "-->" .unterminatedComment .comment behind
  | none =>
  match c.eat? "<![CDATA[" with
  | some behind => readDelimited "]]>" .unterminatedCData .cdata behind
  | none =>
  match c.eat? "<?" with
  | some behind => readDelimited "?>" .unterminatedInstruction (fun _ => .instruction) behind
  | none =>
  match c.eat? "<!DOCTYPE" with
  | some behind =>
    match skipDoctype 0 behind.position behind.rest with
    | some behind => .ok (.doctype, behind)
    | none => .error ⟨behind.finish, .unterminatedDoctype⟩
  | none =>
  match c.eat? "<" with
  | some behind => readStartTag options c.position behind
  | none => readCharacters options c

/-! ## What a token is read from -/

namespace Token

/-- How an item begins and ends that has a text of its own for its end, and the token it is. -/
inductive Delimited : (opening closing : Text) → (Text → Token) → Prop where
  | comment : Delimited "<!--" "-->" .comment
  | cdata : Delimited "<![CDATA[" "]]>" .cdata
  | instruction : Delimited "<?" "?>" fun _ => .instruction

/-- The token stands between the two cursors. -/
inductive Between (options : ReadOptions) (c : Cursor) : Token → Cursor → Prop where
  | delimited {opening closing body : Text} {make : Text → Token} {behind c' : Cursor}
      (hmake : Delimited opening closing make) (hopen : c.eat? opening = some behind)
      (hclose : behind.through? closing = some (body, c')) : Between options c (make body) c'
  | doctype {behind c' : Cursor} (hopen : c.eat? "<!DOCTYPE" = some behind)
      (hclose : skipDoctype 0 behind.position behind.rest = some c') : Between options c .doctype c'
  | startTag {behind after c' : Cursor} {attributes : List Attribute} {rule : Option Bool} {closed : Bool}
      (hopen : c.eat? "<" = some behind) (hname : (behind.span isNameByte).1 ≠ [])
      (hread : readAttributes options [] (behind.span isNameByte).2 = .ok (attributes, after))
      (hrule : spaceRule attributes = .ok rule) (hclose : after.eat? (if closed then "/>" else ">") = some c') :
      Between options c (.startTag (behind.span isNameByte).1 attributes closed) c'
  | endTag {behind c' : Cursor} (hopen : c.eat? "</" = some behind)
      (hclose : (behind.span isNameByte).2.skipLayout.eat? ">" = some c') :
      Between options c (.endTag (behind.span isNameByte).1 (behind.span isNameByte).2.position none) c'
  | unclosed {behind : Cursor} (hopen : c.eat? "</" = some behind) :
      Between options c (.endTag (behind.span isNameByte).1 (behind.span isNameByte).2.position
        (some (behind.span isNameByte).2.skipLayout.position)) (behind.span isNameByte).2.skipLayout
  | characters {value : Text} (hless : c.eat? "<" = none)
      (hvalue : Reference.decode options (c.span fun b => b ≠ Text.byte '<').1 = .ok value) :
      Between options c (.characters value) (c.span fun b => b ≠ Text.byte '<').2

variable {options : ReadOptions} {token : Token} {c c' : Cursor}

theorem between_of_readStartTag (hopen : c.eat? "<" = some behind)
    (h : readStartTag options c.position behind = .ok (token, c')) : Between options c token c' := by
  unfold readStartTag at h
  dsimp only at h
  split at h
  · cases h
  rename_i hname
  split at h
  · cases h
  rename_i attributes after hread
  split at h
  · cases h
  rename_i rule hrule
  have hname : (behind.span isNameByte).1 ≠ [] := by simpa using hname
  split at h
  · rename_i hclose
    cases h
    exact .startTag hopen hname hread hrule hclose
  · split at h
    · rename_i hclose
      cases h
      exact .startTag hopen hname hread hrule hclose
    · cases h

theorem between_of_read (h : read options c = .ok (token, c')) : Between options c token c' := by
  have hdelim : ∀ {opening closing : Text} {fault : Fault} {make : Text → Token} {behind : Cursor},
      Delimited opening closing make → c.eat? opening = some behind →
        readDelimited closing fault make behind = .ok (token, c') → Between options c token c' := by
    intro opening closing fault make behind hmake hopen h
    unfold readDelimited at h
    split at h
    · cases h
    · rename_i hclose
      cases h
      exact .delimited hmake hopen hclose
  unfold read at h
  split at h
  · rename_i behind hopen
    injection h with h
    unfold readEndTag at h
    dsimp only at h
    split at h
    · rename_i hclose
      cases h
      exact .endTag hopen hclose
    · cases h
      exact .unclosed hopen
  split at h
  · exact hdelim .comment ‹_› h
  split at h
  · exact hdelim .cdata ‹_› h
  split at h
  · exact hdelim .instruction ‹_› h
  split at h
  · rename_i behind hopen
    split at h
    · rename_i hclose
      cases h
      exact .doctype hopen hclose
    · cases h
  split at h
  · exact between_of_readStartTag ‹_› h
  · rename_i hless
    unfold readCharacters at h
    dsimp only at h
    split at h
    · cases h
    · rename_i hvalue
      cases h
      exact .characters hless hvalue

end Token

/-! ## A token takes at least one byte -/

theorem suffix_readAttributes
    (h : readAttributes options seen c = .ok (attributes, c')) : c'.rest <:+ c.rest := by
  fun_induction readAttributes options seen c with
  | case1 seen c _ =>
    cases h
    exact c.suffix_skipLayout
  | case2 => cases h
  | case3 seen c _ one behind hone ih =>
    exact ((ih h).trans (advances_readAttribute hone).suffix).trans c.suffix_skipLayout

theorem suffix_skipDoctype
    (h : skipDoctype depth p t = some c) : c.rest <:+ t := by
  induction t generalizing depth p with
  | nil => cases h
  | cons b t ih =>
    refine List.IsSuffix.trans ?_ (List.suffix_cons b t)
    rw [skipDoctype] at h
    split at h
    · cases h
      exact List.suffix_rfl
    · split at h
      · exact ih h
      · split at h <;> exact ih h

theorem Cursor.eat?_less {c : Cursor} (h : c.eat? "<" = none) (hne : c.rest ≠ []) :
    ∃ b t, c.rest = b :: t ∧ b ≠ Text.byte '<' := by
  match hc : c.rest with
  | [] => exact absurd hc hne
  | b :: t =>
    refine ⟨b, t, rfl, ?_⟩
    intro hb
    subst hb
    have hless : Text.ofString "<" = [Text.byte '<'] := by decide
    simp [Cursor.eat?, hc, hless, Text.after?] at h

theorem Token.Between.advances {options : ReadOptions} {token : Token} {c c' : Cursor}
    (h : Between options c token c') (hne : c.rest ≠ []) : c.Advances c' := by
  cases h with
  | delimited hmake hopen hclose =>
    exact (Cursor.advances_of_eat? (by cases hmake <;> decide) hopen).trans_suffix (Cursor.suffix_of_through? hclose)
  | doctype hopen hclose => exact (Cursor.advances_of_eat? (by decide) hopen).trans_suffix (suffix_skipDoctype hclose)
  | @startTag behind _ _ _ _ closed hopen _ hread _ hclose =>
    have hbehind := (suffix_readAttributes hread).trans (behind.suffix_span isNameByte)
    exact (Cursor.advances_of_eat? (by decide) hopen).trans_suffix ((Cursor.suffix_of_eat? hclose).trans hbehind)
  | @endTag behind _ hopen hclose =>
    have hlayout := (Cursor.suffix_skipLayout _).trans (behind.suffix_span isNameByte)
    exact (Cursor.advances_of_eat? (by decide) hopen).trans_suffix ((Cursor.suffix_of_eat? hclose).trans hlayout)
  | @unclosed behind hopen =>
    have hlayout := (Cursor.suffix_skipLayout _).trans (behind.suffix_span isNameByte)
    exact (Cursor.advances_of_eat? (by decide) hopen).trans_suffix hlayout
  | characters hless =>
    obtain ⟨b, t, hbt, hb⟩ := Cursor.eat?_less hless hne
    refine ⟨_, ?_, c.rest_span _⟩
    simp [Cursor.span, hbt, hb]

/-! ## The tokens of a source -/

/-- The tokens of a source with their positions, up to its end or to the first failure. -/
inductive Tokens where
  | done
  | failed (failure : Failure)
  | more (position : Position) (token : Token) (rest : Tokens)

def Tokens.read (options : ReadOptions) (c : Cursor) : Tokens :=
  if _more : c.rest = [] then .done
  else
    match _h : Token.read options c with
    | .error failure => .failed failure
    | .ok (token, behind) => .more c.position token (Tokens.read options behind)
termination_by c.rest.length
decreasing_by exact ((Token.between_of_read _h).advances _more).length_lt

end FlutterLayout.Markup
