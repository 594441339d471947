import FlutterLayout.Proofs.Markup.Tags

/-!
# Acceptance — a document is read exactly if it has the form of one

Tokens are compared with the grammar first, end tags apart: only the nesting tells whether one may stand
where it does.  What is read between two tags is then `IsContent`, and the nodes of the top level are
looked at for `IsDocument`.
-/

namespace FlutterLayout.Markup

open List Text Cursor Content

variable {p q t u gap rest name value body : Text} {b : UInt8} {c c' : Cursor} {token : Token}
  {attributes : List Attribute} {parts : List Part} {content content' : Content} {stack : List OpenElement}
  {options : ReadOptions} {position : Position}

/-! ## Tokens -/

/-- A token other than an end tag, the text it is read from and what follows. -/
inductive IsItem : Token → (text rest : Text) → Prop where
  | comment {body rest : Text} (hbody : EndsAt "-->" body) : IsItem (.comment body) ("<!--" ++ (body ++ "-->")) rest
  | cdata {body rest : Text} (hbody : EndsAt "]]>" body) : IsItem (.cdata body) ("<![CDATA[" ++ (body ++ "]]>")) rest
  | instruction {body rest : Text} (hbody : EndsAt "?>" body) : IsItem .instruction ("<?" ++ (body ++ "?>")) rest
  | doctype {body rest : Text} (hbody : IsDoctypeBody body) : IsItem .doctype ("<!DOCTYPE" ++ (body ++ ">")) rest
  | characters {raw value rest : Text} (hne : raw ≠ []) (hraw : byte '<' ∉ raw) (hvalue : Decodes raw value)
      (hend : ∀ b ∈ rest.head?, b = byte '<') : IsItem (.characters value) raw rest
  | closedTag {name tag rest : Text} {attributes : List Attribute} (htag : IsTag name attributes tag) :
      IsItem (.startTag name attributes true) ("<" ++ (tag ++ "/>")) rest
  | openTag {name tag rest : Text} {attributes : List Attribute} (htag : IsTag name attributes tag) :
      IsItem (.startTag name attributes false) ("<" ++ (tag ++ ">")) rest

def Apart (p q : Text) : Prop :=
  ¬ p <+: q ∧ ¬ q <+: p
  deriving Decidable

theorem Apart.eat? (h : Apart p q) (hc : c.rest = q ++ rest) : c.eat? p = none := by
  rw [eat?_eq_none_iff, hc]
  intro hstart
  rcases prefix_or_prefix_of_prefix hstart (prefix_append q rest) with hle | hle
  · exact h.1 hle
  · exact h.2 hle

def openers : List Text :=
  ["</", "<!--", "<![CDATA[", "<?", "<!DOCTYPE"]

theorem eat?_opener_of_name (hp : p ∈ openers) (hb : isNameByte b = true) (hc : c.rest = byte '<' :: b :: t) :
    c.eat? p = none := by
  have hsecond : ∀ p ∈ openers, ∃ x ∈ p[1]?, isNameByte x = false := by decide
  obtain ⟨x, hx, hname⟩ := hsecond p hp
  rw [eat?_eq_none_iff, hc]
  intro hstart
  have hsame : (byte '<' :: b :: t)[1]? = some x := by
    obtain ⟨rest, hrest⟩ := hstart
    rw [← hrest, List.getElem?_append_left (List.getElem?_eq_some_iff.1 hx).1]
    exact hx
  cases hsame
  rw [hb] at hname
  cases hname

theorem IsTag.eat?_opener (htag : IsTag name attributes tag) (hp : p ∈ openers)
    (hc : c.rest = "<" ++ (tag ++ rest)) : c.eat? p = none := by
  obtain ⟨hname, -⟩ := htag
  rw [append_assoc] at hc
  obtain ⟨b, u, hbu, hb⟩ := hname.head _
  rw [hbu] at hc
  exact eat?_opener_of_name hp hb hc

theorem eat?_of_head_ne (hp : p.head? = some (byte '<')) (hb : b ≠ byte '<') (hc : c.rest = b :: t) :
    c.eat? p = none := by
  rw [eat?_eq_none_iff, hc]
  rcases p with - | ⟨x, p⟩
  · cases hp
  · cases hp
    rw [cons_prefix_cons]
    exact fun h => hb h.1.symm

theorem read_of_openers (h : ∀ p ∈ openers, c.eat? p = none) : Token.read options c = match c.eat? "<" with
      | some behind => readStartTag options c.position behind | none => readCharacters options c := by
  simp only [openers, forall_mem_cons, not_mem_nil, false_implies, implies_true, and_true] at h
  cases heat : c.eat? "<" <;> simp only [Token.read, h.1, h.2.1, h.2.2.1, h.2.2.2.1, h.2.2.2.2, heat]

theorem read_of_head_ne (hb : b ≠ byte '<') (hc : c.rest = b :: t) :
    Token.read options c = readCharacters options c := by
  have hopeners : ∀ p ∈ openers, p.head? = some (byte '<') := by decide
  rw [read_of_openers fun p hp => eat?_of_head_ne (hopeners p hp) hb hc, eat?_of_head_ne (p := "<") rfl hb hc]

theorem exists_readDelimited (make : Text → Token) (hbody : EndsAt p body) (hc : c.rest = body ++ p ++ rest) :
    ∃ c', readDelimited p fault make c = .ok (make body, c') ∧ c'.rest = rest := by
  refine ⟨⟨c.position.advance (body ++ p), rest⟩, ?_, rfl⟩
  rw [readDelimited, through?, hc, cut?_of_endsAt hbody]
  rfl

theorem exists_read_of_isItem (h : IsItem token t rest) (hc : c.rest = t ++ rest) :
    ∃ c', Token.read {} c = .ok (token, c') ∧ c'.rest = rest := by
  cases h with
  | comment hbody =>
    rw [append_assoc] at hc
    obtain ⟨c1, heat, hc1⟩ := exists_eat? hc
    obtain ⟨c', hread, hc'⟩ := exists_readDelimited .comment hbody hc1
    refine ⟨c', ?_, hc'⟩
    rw [Token.read, Apart.eat? (by decide) hc, heat]
    exact hread
  | cdata hbody =>
    rw [append_assoc] at hc
    obtain ⟨c1, heat, hc1⟩ := exists_eat? hc
    obtain ⟨c', hread, hc'⟩ := exists_readDelimited .cdata hbody hc1
    refine ⟨c', ?_, hc'⟩
    rw [Token.read, Apart.eat? (by decide) hc, Apart.eat? (by decide) hc, heat]
    exact hread
  | @instruction body _ hbody =>
    rw [append_assoc] at hc
    obtain ⟨c1, heat, hc1⟩ := exists_eat? hc
    obtain ⟨c', hread, hc'⟩ := exists_readDelimited (fun _ => .instruction) hbody hc1
    refine ⟨c', ?_, hc'⟩
    rw [Token.read, Apart.eat? (by decide) hc, Apart.eat? (by decide) hc, Apart.eat? (by decide) hc, heat]
    exact hread
  | @doctype body _ hbody =>
    rw [append_assoc] at hc
    obtain ⟨c1, heat, hc1⟩ := exists_eat? hc
    have hgreater : ofString ">" = [byte '>'] := by decide
    rw [hgreater, append_assoc, singleton_append] at hc1
    obtain ⟨place, hskip⟩ := skipDoctype_of_closesAt (closesAt_zero_iff.2 hbody) c1.position rest
    refine ⟨⟨place, rest⟩, ?_, rfl⟩
    rw [Token.read, Apart.eat? (by decide) hc, Apart.eat? (by decide) hc, Apart.eat? (by decide) hc,
      Apart.eat? (by decide) hc, heat]
    simp only [hc1, hskip]
  | @characters raw value rest hne hraw hvalue hend =>
    obtain ⟨b, raw', rfl⟩ := exists_cons_of_ne_nil hne
    have hb : b ≠ byte '<' := fun he => hraw (he ▸ mem_cons_self)
    have hbytes : ∀ d ∈ b :: raw', decide (d ≠ byte '<') = true := fun d hd =>
      decide_eq_true fun he => hraw (he ▸ hd)
    obtain ⟨htake, hrest⟩ := span_eq hc hbytes (by simpa using hend)
    refine ⟨_, ?_, hrest⟩
    rw [read_of_head_ne hb hc]
    simp only [readCharacters, htake, decode_eq_ok_iff.2 hvalue]
  | closedTag htag =>
    rw [append_assoc, append_assoc] at hc
    obtain ⟨c1, heat, hc1⟩ := exists_eat? hc
    obtain ⟨c', hread, hc'⟩ := exists_readStartTag_closed c.position htag hc1
    refine ⟨c', ?_, hc'⟩
    rw [read_of_openers fun p hp => htag.eat?_opener hp hc, heat]
    exact hread
  | openTag htag =>
    rw [append_assoc, append_assoc] at hc
    obtain ⟨c1, heat, hc1⟩ := exists_eat? hc
    obtain ⟨c', hread, hc'⟩ := exists_readStartTag_open c.position htag hc1
    refine ⟨c', ?_, hc'⟩
    rw [read_of_openers fun p hp => htag.eat?_opener hp hc, heat]
    exact hread

theorem exists_read_endTag (hname : IsName name) (hgap : IsLayout gap)
    (hc : c.rest = "</" ++ (name ++ (gap ++ (">" ++ rest)))) :
    ∃ nameEnd c', Token.read {} c = .ok (.endTag name nameEnd none, c') ∧ c'.rest = rest := by
  obtain ⟨c1, heat, hc1⟩ := exists_eat? hc
  have hends : EndsTag (">" ++ rest) := .inl ⟨rest, rfl⟩
  obtain ⟨htake, hrest⟩ := span_eq hc1 hname.2 (hgap.endsName.append hends.endsName)
  have hskip : (c1.span isNameByte).2.skipLayout.rest = ">" ++ rest := by
    obtain ⟨b, u, hbu, -, hlayout, -⟩ := hends.head
    exact skipLayout_eq hrest hgap (by simpa [hbu] using hlayout)
  obtain ⟨c', hgreater, hc'⟩ := exists_eat? hskip
  refine ⟨(c1.span isNameByte).2.position, c', ?_, hc'⟩
  rw [Token.read, heat]
  simp only [readEndTag, hgreater, htake]

/-- What may be read as a token: an item, an end tag, or one whose `>` is missing. -/
theorem isItem_of_read (hne : c.rest ≠ []) (h : Token.read {} c = .ok (token, c')) :
    (∃ t, IsItem token t c'.rest ∧ c.rest = t ++ c'.rest) ∨
      ∃ name nameEnd, (∃ place, token = .endTag name nameEnd (some place)) ∨
        token = .endTag name nameEnd none ∧
          ∃ gap, IsLayout gap ∧ c.rest = "</" ++ (name ++ (gap ++ (">" ++ c'.rest))) := by
  cases Token.between_of_read h with
  | endTag hopen hclose =>
    obtain ⟨gap, hgap, hskip⟩ := rest_skipLayout (Cursor.span _ isNameByte).2
    refine .inr ⟨_, _, .inr ⟨rfl, gap, hgap, ?_⟩⟩
    rw [rest_of_eat? hopen, rest_span _ isNameByte, hskip, rest_of_eat? hclose]
  | unclosed => exact .inr ⟨_, _, .inl ⟨_, rfl⟩⟩
  | delimited hmake hopen hclose =>
    obtain ⟨⟨x, y⟩, hcut, he⟩ := Option.map_eq_some_iff.1 hclose
    cases he
    obtain ⟨hrest, hbody⟩ := endsAt_of_cut? hcut
    rw [rest_of_eat? hopen, hrest, ← append_assoc]
    cases hmake with
    | comment => exact .inl ⟨_, .comment hbody, rfl⟩
    | cdata => exact .inl ⟨_, .cdata hbody, rfl⟩
    | instruction => exact .inl ⟨_, .instruction hbody, rfl⟩
  | doctype hopen hclose =>
    obtain ⟨body, hrest, hbody⟩ := closesAt_of_skipDoctype hclose
    refine .inl ⟨_, .doctype (closesAt_zero_iff.1 hbody), ?_⟩
    rw [rest_of_eat? hopen, hrest, show ofString ">" = [byte '>'] by decide]
    simp
  | @startTag _ _ _ _ _ closed hopen hname hread hrule hclose =>
    obtain ⟨tag, htag, hrest⟩ := isTag_of_readAttributes hname hread hrule
    rw [rest_of_eat? hopen, hrest, rest_of_eat? hclose, ← append_assoc, ← append_assoc]
    cases closed with
    | true => exact .inl ⟨_, .closedTag htag, rfl⟩
    | false => exact .inl ⟨_, .openTag htag, rfl⟩
  | characters hless hvalue =>
    obtain ⟨b, t, hbt, hb⟩ := eat?_less hless hne
    refine .inl ⟨_, .characters ?_ ?_ (decode_eq_ok_iff.1 hvalue) ?_, rest_span c _⟩
    · simp [Cursor.span, hbt, hb]
    · intro hmem
      simpa using of_mem_span hmem
    · intro d hd
      simpa using of_head_span hd

/-! ## Content -/

/-- What parts leave behind in the content of an element; blank text is kept if `preserve`.  Where elements
stand and what they hold is of no matter. -/
inductive Feeds (preserve : Bool) : Content → List Part → Content → Prop where
  | nil {content : Content} : Feeds preserve content [] content
  | characters {content content' : Content} {value : Text} {parts : List Part}
      (h : Feeds preserve (content.write value) parts content') :
      Feeds preserve content (.characters value :: parts) content'
  | element {content content' : Content} {e : Element} {attributes : List Attribute} {inner parts : List Part}
      (h : Feeds preserve ((content.flush preserve).push (.element e)) parts content') :
      Feeds preserve content (.element e.name attributes inner :: parts) content'

/-- Blank text is kept in an element with these attributes; `outer` says whether it is kept around it. -/
def keepsBlank (attributes : List Attribute) (outer : Bool) : Bool :=
  match spaceRule attributes with
  | .ok (some keep) => keep
  | _ => outer

def StopsCharacters (rest : Text) : Prop :=
  ∀ b ∈ rest.head?, b = byte '<'

theorem tokens_read_eq (hne : c.rest ≠ []) (h : Token.read options c = .ok (token, c')) :
    Tokens.read options c = .more c.position token (.read options c') := by
  rw [Tokens.read, dif_neg hne]
  split
  · rename_i failure hfail
    rw [h] at hfail
    cases hfail
  · rename_i token' behind hok
    rw [h] at hok
    cases hok
    rfl

theorem IsItem.ne_nil (h : IsItem token t rest) : t ≠ [] := by
  cases h with
  | characters hne => exact hne
  | _ => exact fun h => absurd (append_eq_nil_iff.1 h).1 (by decide)

theorem exists_nest_of_isItem (h : IsItem token t u) (hc : c.rest = t ++ u)
    (hgo : ∀ c1 : Cursor, c1.rest = u → ∃ c' content', c'.rest = rest ∧ Feeds preserve content parts content' ∧
      nest {} (.more c.position token (.read {} c1)) content stack = nest {} (.read {} c') content' stack) :
    ∃ c' content', c'.rest = rest ∧ Feeds preserve content parts content' ∧
      nest {} (.read {} c) content stack = nest {} (.read {} c') content' stack := by
  obtain ⟨c1, hread, hc1⟩ := exists_read_of_isItem h hc
  have hne : c.rest ≠ [] := by simp [hc, h.ne_nil]
  rw [tokens_read_eq hne hread]
  exact hgo c1 hc1

theorem exists_nest_of_isContent (h : IsContent t parts) (hstop : StopsCharacters rest) (hc : c.rest = t ++ rest)
    (content : Content) (stack : List OpenElement) :
    ∃ c' content', c'.rest = rest ∧ Feeds (preserves stack) content parts content' ∧
      nest {} (.read {} c) content stack = nest {} (.read {} c') content' stack := by
  induction h generalizing rest c content stack with
  | nil => exact ⟨c, content, hc, .nil, rfl⟩
  | @comment _ t _ hbody _ ih =>
    refine exists_nest_of_isItem (u := t ++ rest) (.comment hbody)
      (hc.trans (by simp only [append_assoc])) fun c1 hc1 => ?_
    exact ih hstop hc1 content stack
  | @cdata body t _ hbody _ ih =>
    refine exists_nest_of_isItem (u := t ++ rest) (.cdata hbody)
      (hc.trans (by simp only [append_assoc])) fun c1 hc1 => ?_
    obtain ⟨c', content', hc', hfeeds, hnest⟩ := ih hstop hc1 (content.write body) stack
    exact ⟨c', content', hc', .characters hfeeds, hnest⟩
  | @instruction _ t _ hbody _ ih =>
    refine exists_nest_of_isItem (u := t ++ rest) (.instruction hbody)
      (hc.trans (by simp only [append_assoc])) fun c1 hc1 => ?_
    exact ih hstop hc1 content stack
  | @doctype _ t _ hbody _ ih =>
    refine exists_nest_of_isItem (u := t ++ rest) (.doctype hbody)
      (hc.trans (by simp only [append_assoc])) fun c1 hc1 => ?_
    exact ih hstop hc1 content stack
  | @characters raw value t parts hne hraw hvalue hend _ ih =>
    -- The data ends in front of the rest as well, should nothing follow it here.
    have hstop' : StopsCharacters (t ++ rest) := by
      cases t with
      | nil => exact hstop
      | cons b t => exact hend
    refine exists_nest_of_isItem (u := t ++ rest) (.characters hne hraw hvalue hstop')
      (hc.trans (append_assoc ..)) fun c1 hc1 => ?_
    obtain ⟨c', content', hc', hfeeds, hnest⟩ := ih hstop hc1 (content.write value) stack
    exact ⟨c', content', hc', .characters hfeeds, hnest⟩
  | @closed name tag t attributes parts htag _ ih =>
    refine exists_nest_of_isItem (u := t ++ rest) (.closedTag htag)
      (hc.trans (by simp only [append_assoc])) fun c1 hc1 => ?_
    let e : Element := ⟨name, attributes, c.position, []⟩
    obtain ⟨c', content', hc', hfeeds, hnest⟩ :=
      ih hstop hc1 ((content.flush (preserves stack)).push (.element e)) stack
    exact ⟨c', content', hc', .element (e := e) hfeeds, hnest⟩
  | @element name tag inner gap t attributes parts' parts htag _ hgap _ ihinner ih =>
    refine exists_nest_of_isItem (u := inner ++ ("</" ++ (name ++ (gap ++ (">" ++ (t ++ rest)))))) (.openTag htag)
      (hc.trans (by simp only [append_assoc])) fun c1 hc1 => ?_
    have hname : IsName name := by
      obtain ⟨hname, -⟩ := htag
      exact hname
    let outer := content.flush (preserves stack)
    let preserve := keepsBlank attributes (preserves stack)
    let opened : OpenElement := ⟨name, attributes, c.position, preserve, outer⟩
    -- Inside, the stack is higher by this element; behind the end tag it is what it was.
    have hstop' : StopsCharacters ("</" ++ (name ++ (gap ++ (">" ++ (t ++ rest))))) := by
      rintro b hb
      cases hb
      rfl
    obtain ⟨c2, content2, hc2, -, hnest2⟩ := ihinner hstop' hc1 .empty (opened :: stack)
    obtain ⟨nameEnd, c3, hread, hc3⟩ := exists_read_endTag hname hgap hc2
    have hne : c2.rest ≠ [] := by
      rw [hc2]
      exact fun h => absurd (append_eq_nil_iff.1 h).1 (by decide)
    let e : Element := ⟨name, attributes, c.position, (content2.flush preserve).nodes⟩
    obtain ⟨c', content', hc', hfeeds, hnest⟩ := ih hstop hc3 (outer.push (.element e)) stack
    have hfeeds' : Feeds (preserves stack) content (.element e.name attributes parts' :: parts) content' :=
      .element hfeeds
    refine ⟨c', content', hc', hfeeds', ?_⟩
    calc nest {} (.more c.position (.startTag name attributes false) (.read {} c1)) content stack
        = nest {} (.read {} c1) .empty (opened :: stack) := rfl
      _ = nest {} (.read {} c2) content2 (opened :: stack) := hnest2
      _ = nest {} (.more c2.position (.endTag name nameEnd none) (.read {} c3)) content2 (opened :: stack) := by
          rw [tokens_read_eq hne hread]
      _ = nest {} (.read {} c3) (outer.push (.element e)) stack := by simp [nest, opened, e]
      _ = nest {} (.read {} c') content' stack := hnest

/-- What follows the content of the innermost open element, and how reading goes on to give `nodes`. -/
inductive Closes (nodes : List Node) : List OpenElement → Content → (rest : Text) → Prop where
  | outermost {content : Content} (h : (content.flush false).nodes = nodes) : Closes nodes [] content []
  | inner {opened : OpenElement} {stack : List OpenElement} {content : Content} {children : List Node} {gap : Text}
      {c : Cursor} (hgap : IsLayout gap)
      (h : nest {} (.read {} c)
        (opened.outer.push (.element ⟨opened.name, opened.attributes, opened.position, children⟩)) stack = .ok nodes) :
      Closes nodes (opened :: stack) content ("</" ++ (opened.name ++ (gap ++ (">" ++ c.rest))))

variable {nodes : List Node}

theorem nest_missing :
    nest {} (.more position (.endTag name nameEnd (some place)) tokens) content stack ≠ .ok nodes := by
  rcases stack with - | ⟨opened, stack⟩
  · simp [nest]
  · simp only [nest]
    split <;> simp

theorem closes_of_nest_endTag (hgap : IsLayout gap)
    (h : nest {} (.more position (.endTag name nameEnd none) (.read {} c)) content stack = .ok nodes) :
    Closes nodes stack content ("</" ++ (name ++ (gap ++ (">" ++ c.rest)))) := by
  rcases stack with - | ⟨opened, stack⟩
  · simp [nest] at h
  · simp only [nest] at h
    split at h
    · cases h
    · rename_i hsame
      rw [not_not.1 hsame]
      exact .inner hgap h

/-- The text starts with the content of the innermost open element, and what it leaves behind closes. -/
def ReadsContent (nodes : List Node) (stack : List OpenElement) (content : Content) (text : Text) : Prop :=
  ∃ t parts rest content', text = t ++ rest ∧ IsContent t parts ∧ Feeds (preserves stack) content parts content' ∧
    Closes nodes stack content' rest

/-- An item in front of content.  After a start tag there are two contents, that of the element and the one
behind its end tag. -/
theorem readsContent_of_isItem (hitem : IsItem token t c.rest)
    (h : nest {} (.more position token (.read {} c)) content stack = .ok nodes)
    (ih : ∀ {c1 : Cursor} {content stack}, c1.rest.length ≤ c.rest.length →
      nest {} (.read {} c1) content stack = .ok nodes → ReadsContent nodes stack content c1.rest) :
    ReadsContent nodes stack content (t ++ c.rest) := by
  cases hitem with
  | comment hbody =>
    obtain ⟨u, parts, rest, content', hrest, hu, hfeeds, hcloses⟩ := ih le_rfl h
    exact ⟨_, parts, rest, content', by rw [hrest]; simp only [append_assoc], .comment hbody hu, hfeeds, hcloses⟩
  | cdata hbody =>
    obtain ⟨u, parts, rest, content', hrest, hu, hfeeds, hcloses⟩ := ih le_rfl h
    exact ⟨_, _, rest, content', by rw [hrest]; simp only [append_assoc], .cdata hbody hu, .characters hfeeds, hcloses⟩
  | instruction hbody =>
    obtain ⟨u, parts, rest, content', hrest, hu, hfeeds, hcloses⟩ := ih le_rfl h
    exact ⟨_, parts, rest, content', by rw [hrest]; simp only [append_assoc], .instruction hbody hu, hfeeds, hcloses⟩
  | doctype hbody =>
    obtain ⟨u, parts, rest, content', hrest, hu, hfeeds, hcloses⟩ := ih le_rfl h
    exact ⟨_, parts, rest, content', by rw [hrest]; simp only [append_assoc], .doctype hbody hu, hfeeds, hcloses⟩
  | characters hne hraw hvalue hend =>
    obtain ⟨u, parts, rest, content', hrest, hu, hfeeds, hcloses⟩ := ih le_rfl h
    have hend' : StopsCharacters u := by
      rw [hrest] at hend
      cases u with
      | nil => simp [StopsCharacters]
      | cons b u => exact hend
    exact ⟨_, _, rest, content', by rw [hrest, append_assoc], .characters hne hraw hvalue hend' hu,
      .characters hfeeds, hcloses⟩
  | @closedTag name tag _ attributes htag =>
    obtain ⟨u, parts, rest, content', hrest, hu, hfeeds, hcloses⟩ := ih le_rfl h
    let e : Element := ⟨name, attributes, position, []⟩
    exact ⟨_, _, rest, content', by rw [hrest]; simp only [append_assoc], .closed htag hu, .element (e := e) hfeeds,
      hcloses⟩
  | @openTag name tag _ attributes htag =>
    obtain ⟨inner, innerParts, rest1, last, hrest1, hinner, -, hcloses1⟩ := ih le_rfl h
    cases hcloses1 with
    | @inner _ _ _ children gap c2 hgap h2 =>
      have hshort : c2.rest.length ≤ c.rest.length := by
        rw [hrest1]
        simp only [length_append]
        omega
      obtain ⟨u, parts, rest, content', hrest, hu, hfeeds, hcloses⟩ := ih hshort h2
      let e : Element := ⟨name, attributes, position, children⟩
      have hfeeds' : Feeds (preserves stack) content (.element e.name attributes innerParts :: parts) content' :=
        .element hfeeds
      refine ⟨_, _, rest, content', ?_, .element htag hinner hgap hu, hfeeds', hcloses⟩
      rw [hrest1, hrest]
      simp only [append_assoc]

theorem readsContent_of_nest (h : nest {} (.read {} c) content stack = .ok nodes) :
    ReadsContent nodes stack content c.rest := by
  induction hn : c.rest.length using Nat.strongRecOn generalizing c content stack with
  | ind n ih =>
    subst hn
    by_cases hne : c.rest = []
    · rw [Tokens.read, dif_pos hne] at h
      rcases stack with - | ⟨opened, stack⟩
      · exact ⟨[], [], [], content, hne, .nil, .nil, .outermost (Except.ok.inj h)⟩
      · cases h
    cases hread : Token.read {} c with
    | error failure =>
      rw [Tokens.read, dif_neg hne] at h
      split at h
      · cases h
      · rename_i token c1 hok
        rw [hread] at hok
        cases hok
    | ok both =>
      obtain ⟨token, c1⟩ := both
      rw [tokens_read_eq hne hread] at h
      have hshort := ((Token.between_of_read hread).advances hne).length_lt
      rcases isItem_of_read hne hread with
        ⟨text, hitem, hrest⟩ | ⟨name, nameEnd, ⟨place, rfl⟩ | ⟨rfl, gap, hgap, hrest⟩⟩
      · rw [hrest]
        exact readsContent_of_isItem hitem h fun hle h1 => ih _ (by omega) h1 rfl
      · exact absurd h nest_missing
      · exact ⟨[], [], c.rest, content, rfl, .nil, .nil, hrest ▸ closes_of_nest_endTag hgap h⟩

/-! ## The top level -/

def Content.unfinished (content : Content) : List Part :=
  match content.pending with
  | none => []
  | some value => [.characters value]

theorem runs_append_characters (value : Text) (parts : List Part) :
    runs (content.unfinished ++ .characters value :: parts) = runs ((content.write value).unfinished ++ parts) := by
  obtain ⟨nodes, pending⟩ := content
  cases pending with
  | none => rfl
  | some before =>
    simp only [unfinished, write, singleton_append, runs, Option.getD_some]
    cases runs parts <;> simp

theorem runs_append_element (name : Text) (attributes : List Attribute) (inner parts : List Part) :
    runs (content.unfinished ++ .element name attributes inner :: parts) = runs content.unfinished ++ runs parts := by
  obtain ⟨nodes, pending⟩ := content
  cases pending <;> simp [unfinished, runs]

theorem flush_eq (content : Content) :
    ∃ new, (content.flush false).nodes = content.nodes ++ new ∧ (content.flush false).pending = none ∧
      ((∀ run ∈ runs content.unfinished, IsBlanks run) ∧ new = [] ∨
        (¬ ∀ run ∈ runs content.unfinished, IsBlanks run) ∧ ∃ value, new = [.text value]) := by
  obtain ⟨nodes, pending⟩ := content
  cases pending with
  | none => exact ⟨[], by simp [flush], rfl, .inl ⟨by simp [unfinished, runs, madeOf_nil], rfl⟩⟩
  | some value =>
    have hruns : (∀ run ∈ runs (unfinished ⟨nodes, some value⟩), IsBlanks run) ↔
        isBlank value = true := by
      simp [unfinished, runs, isBlank_iff]
    by_cases hblank : isBlank value = true
    · exact ⟨[], by simp [flush, hblank], by simp [flush, hblank], .inl ⟨hruns.2 hblank, rfl⟩⟩
    · exact ⟨[.text value], by simp [flush, hblank], by simp [flush, hblank],
        .inr ⟨fun h => hblank (hruns.1 h), value, rfl⟩⟩

/-- The nodes that parts add at the top level are all in place exactly if there are not too many elements
among the parts and no text but blanks. -/
theorem misplaced?_of_feeds (finish : Position) (h : Feeds false content parts content') :
    ∃ new, (content'.flush false).nodes = content.nodes ++ new ∧ ∀ roots, misplaced? finish roots new = none ↔
      elementCount parts + roots.toNat ≤ 1 ∧ ∀ run ∈ runs (content.unfinished ++ parts), IsBlanks run := by
  induction h with
  | @nil content =>
    obtain ⟨new, hnodes, -, ⟨hblank, rfl⟩ | ⟨hblank, value, rfl⟩⟩ := flush_eq content
    · exact ⟨[], hnodes, fun roots => by simpa [misplaced?, elementCount, Bool.toNat_le] using hblank⟩
    · exact ⟨_, hnodes, fun roots => by simpa [misplaced?, elementCount, Bool.toNat_le] using hblank⟩
  | @characters content content' value parts _ ih =>
    obtain ⟨new, hnodes, hiff⟩ := ih
    refine ⟨new, hnodes, fun roots => ?_⟩
    rw [hiff roots, runs_append_characters, elementCount]
  | @element content content' e attributes inner parts _ ih =>
    obtain ⟨new, hnodes, hiff⟩ := ih
    obtain ⟨text, htext, hpending, hflush⟩ := flush_eq content
    refine ⟨text ++ .element e :: new, ?_, fun roots => ?_⟩
    · rw [hnodes, push, htext]
      simp
    · have hunfinished : ((content.flush false).push (.element e)).unfinished = [] := by
        simp [unfinished, push, hpending]
      have htrue := hiff true
      rw [hunfinished, nil_append] at htrue
      rw [runs_append_element, elementCount]
      rcases hflush with ⟨hblank, rfl⟩ | ⟨hblank, value, rfl⟩
      · -- An element behind the first is misplaced whatever follows it.
        cases roots with
        | false =>
          rw [nil_append, misplaced?, if_neg (by simp), htrue, forall_mem_append]
          exact ⟨fun h => ⟨h.1, hblank, h.2⟩, fun h => ⟨h.1, h.2.2⟩⟩
        | true => simp [misplaced?]
      · rw [forall_mem_append]
        exact ⟨fun h => (by cases h), fun h => absurd h.2.1 hblank⟩

/-! ## Documents -/

theorem exists_readNodes_iff : (∃ nodes, readNodes {} t = .ok nodes) ↔
    ∃ parts, IsContent t parts ∧ IsDocument parts := by
  have hdocument : ∀ {parts : List Part} {content' : Content}, Feeds false .empty parts content' →
      (misplaced? (Position.start.advance t) false (content'.flush false).nodes = none ↔ IsDocument parts) := by
    intro parts content' hfeeds
    obtain ⟨new, hnodes, hiff⟩ := misplaced?_of_feeds (Position.start.advance t) hfeeds
    rw [hnodes, empty, nil_append, hiff false]
    exact ⟨fun h => ⟨h.1, h.2⟩, fun h => ⟨h.single, h.blank⟩⟩
  constructor
  · rintro ⟨nodes, hread⟩
    unfold readNodes at hread
    split at hread
    · cases hread
    rename_i nodes' hnest
    split at hread
    · cases hread
    rename_i hplaced
    obtain ⟨u, parts, rest, content', hrest, hu, hfeeds, hcloses⟩ := readsContent_of_nest hnest
    cases hcloses with
    | outermost hnodes =>
      have ht : t = u := by simpa [ofText] using hrest
      rw [← hnodes] at hplaced
      exact ⟨parts, ht ▸ hu, (hdocument hfeeds).1 hplaced⟩
  · rintro ⟨parts, hcontent, hparts⟩
    have hstop : StopsCharacters [] := by simp [StopsCharacters]
    obtain ⟨c', content', hc', hfeeds, hnest⟩ :=
      exists_nest_of_isContent hcontent hstop (c := .ofText t) (by simp [ofText]) .empty []
    have hdone : nest {} (.read {} (.ofText t)) .empty [] = .ok (content'.flush false).nodes := by
      rw [hnest, Tokens.read, dif_pos hc']
      rfl
    refine ⟨(content'.flush false).nodes, ?_⟩
    rw [readNodes, hdone]
    simp only [(hdocument hfeeds).2 hparts]

/-- A source is read exactly if its normal form is content that may stand at the top level. -/
theorem exists_read_iff_isDocument (filename source : Text) :
    (∃ document, Document.read {} filename source = .ok document) ↔
      ∃ t parts, HasNormalForm source t ∧ IsContent t parts ∧ IsDocument parts := by
  have hread : (∃ document, Document.read {} filename source = .ok document) ↔
      ∃ nodes, readNodes {} (normalise source) = .ok nodes := by
    unfold Document.read
    dsimp only
    cases readNodes {} (normalise source) <;> simp
  rw [hread, exists_readNodes_iff]
  constructor
  · rintro ⟨parts, hcontent, hparts⟩
    exact ⟨_, parts, hasNormalForm_iff.2 rfl, hcontent, hparts⟩
  · rintro ⟨t, parts, hform, hcontent, hparts⟩
    rw [hasNormalForm_iff.1 hform]
    exact ⟨parts, hcontent, hparts⟩

end FlutterLayout.Markup
