import FlutterLayout.Proofs.Markup.Acceptance

/-!
# Printing — a printed tree is read back as it was

`Part` is what an element holds once positions are forgotten, so it is what a printer starts from.  The
printer writes start tags with all values in double quotes, and end tags for all elements.  It is free in
how it refers to the four bytes that cannot stand for themselves, which is what a `Spelling` is for.
-/

namespace FlutterLayout.Markup

open List Text

variable {t u rest name value raw : Text} {b : UInt8} {c : Cursor} {attributes : List Attribute}
  {parts content : List Part} {part : Part} {preserve : Bool}

/-! ## The printer -/

def referred : List UInt8 :=
  [Text.byte '&', Text.byte '<', Text.doubleQuote, Text.carriageReturn]

structure Spelling where
  name : UInt8 → Text
  isReference : ∀ b ∈ referred, IsReference (name b) [b]

namespace Spelling

variable (s : Spelling)

def byte (b : UInt8) : Text :=
  if b ∈ referred then Text.byte '&' :: (s.name b ++ [Text.byte ';']) else [b]

def text (value : Text) : Text :=
  value.flatMap s.byte

def pair (one : Attribute) : Text :=
  " " ++ (one.1 ++ Text.byte '=' :: Text.doubleQuote :: (s.text one.2 ++ [Text.doubleQuote]))

def tag (name : Text) (attributes : List Attribute) : Text :=
  name ++ attributes.flatMap s.pair

/-- The entities where there is one, and the number of the carriage return. -/
def standard : Spelling where
  name b :=
    if b = Text.byte '&' then "amp" else if b = Text.byte '<' then "lt"
    else if b = Text.doubleQuote then "quot" else "#13"
  isReference := by
    have hall : ∀ b ∈ referred, Reference.resolve {} (if b = Text.byte '&' then "amp"
        else if b = Text.byte '<' then "lt" else if b = Text.doubleQuote then "quot" else "#13") = .ok [b] := by
      decide
    exact fun b hb => resolve_eq_ok_iff.1 (hall b hb)

end Spelling

namespace Part

variable (s : Spelling)

mutual

def print : Part → Text
  | .characters value => s.text value
  | .element name attributes content =>
    "<" ++ (s.tag name attributes ++ (">" ++ (printAll content ++ ("</" ++ (name ++ ">")))))

def printAll : List Part → Text
  | [] => []
  | part :: parts => print part ++ printAll parts

end

def isCharacters : Part → Bool
  | .characters _ => true
  | .element .. => false

/-- Blank text is kept in an element with these attributes: its own `xml:space` decides, or else the one that
decides around it. -/
def keptInside (attributes : List Attribute) (outer : Bool) : Bool :=
  match attributes.lookup (ofString "xml:space") with
  | some value => value = ofString "preserve"
  | none => outer

/-- No two runs of character data follow each other, which would be read as one. -/
def Separated (parts : List Part) : Prop :=
  parts.IsChain fun p q => ¬ (p.isCharacters = true ∧ q.isCharacters = true)

/-- The part can be told from what is written for it; `preserve` says whether blank text around it is kept. -/
inductive IsPrintable : (preserve : Bool) → Part → Prop where
  | characters {preserve : Bool} {value : Text} (hne : value ≠ [])
      (hkept : Text.IsBlanks value → preserve = true) : IsPrintable preserve (.characters value)
  | element {preserve : Bool} {name : Text} {attributes : List Attribute} {content : List Part} (hname : IsName name)
      (hnames : ∀ one ∈ attributes, IsName one.1) (hdistinct : (attributes.map Prod.fst).Nodup)
      (hspace : ∀ value, (ofString "xml:space", value) ∈ attributes → value = "preserve" ∨ value = "default")
      (hseparated : Separated content)
      (hcontent : ∀ p ∈ content, IsPrintable (keptInside attributes preserve) p) :
      IsPrintable preserve (.element name attributes content)

end Part

inductive Node.Matches : Node → Part → Prop where
  | text {value : Text} : Matches (.text value) (.characters value)
  | element {name : Text} {attributes : List Attribute} {position : Position} {children : List Node}
      {content : List Part} (h : List.Forall₂ Matches children content) :
      Matches (.element ⟨name, attributes, position, children⟩) (.element name attributes content)

/-! ## Written values -/

theorem IsReference.not_mem_of_referred (h : IsReference name value) (hb : b ∈ referred) : b ∉ name := by
  have hforeign : ∀ b ∈ referred, IsForeign b := by
    unfold IsForeign
    decide
  exact h.not_mem_of_isForeign (hforeign b hb)

namespace Spelling

variable (s : Spelling)

theorem decodes_text (value : Text) : Decodes (s.text value) value := by
  induction value with
  | nil => exact .nil
  | cons b value ih =>
    rw [text, flatMap_cons, byte]
    split
    · rename_i hb
      have hdecodes := Decodes.reference (s.isReference b hb) ih
      simpa [text] using hdecodes
    · rename_i hb
      exact .byte (fun he => hb (he ▸ by decide)) ih

theorem text_ne_nil (hne : value ≠ []) : s.text value ≠ [] := by
  obtain ⟨b, value, rfl⟩ := exists_cons_of_ne_nil hne
  rw [text, flatMap_cons, byte]
  split <;> simp

/-- Of the bytes that are written as references only `&` occurs in what is written. -/
theorem not_mem_text (hb : b ∈ referred) (hampersand : b ≠ Text.byte '&') : b ∉ s.text value := by
  have hplain : ∀ b ∈ referred, b ≠ Text.byte ';' := by decide
  intro hmem
  obtain ⟨d, -, hmem⟩ := mem_flatMap.1 hmem
  rw [byte] at hmem
  split at hmem
  · rename_i hd
    rcases mem_cons.1 hmem with he | hmem
    · exact hampersand he
    rcases mem_append.1 hmem with hmem | hmem
    · exact (s.isReference d hd).not_mem_of_referred hb hmem
    · exact hplain b hb (mem_singleton.1 hmem)
  · rename_i hd
    exact hd (mem_singleton.1 hmem ▸ hb)

theorem areAttributes (hnames : ∀ one ∈ attributes, IsName one.1) :
    AreAttributes (attributes.flatMap s.pair) attributes := by
  induction attributes with
  | nil => exact .nil
  | cons one attributes ih =>
    have hgap : IsLayout (ofString " ") := by unfold IsLayout; decide
    have hraw : doubleQuote ∉ s.text one.2 := s.not_mem_text (by decide) (by decide)
    have hvalued := AreAttributes.valued hgap (hnames one mem_cons_self) isLayout_nil isLayout_nil (.inl rfl)
      hraw (s.decodes_text one.2) (ih fun two htwo => hnames two (mem_cons_of_mem _ htwo))
    simpa [pair] using hvalued

theorem isTag (hname : IsName name) (hnames : ∀ one ∈ attributes, IsName one.1)
    (hdist : (attributes.map Prod.fst).Nodup)
    (hspace : ∀ value, (ofString "xml:space", value) ∈ attributes → value = "preserve" ∨ value = "default") :
    IsTag name attributes (s.tag name attributes) := by
  have hend : EndsName (attributes.flatMap s.pair) := by
    rcases attributes with - | ⟨one, attributes⟩
    · simp [EndsName]
    · rintro b hb
      cases hb
      decide
  have htag := IsTag.mk hname hend (s.areAttributes hnames) isLayout_nil hdist hspace
  rwa [append_nil] at htag

end Spelling

/-! ## Carriage returns -/

theorem IsName.not_mem_carriageReturn (h : IsName name) : carriageReturn ∉ name := by
  intro hmem
  exact absurd (h.2 _ hmem) (by decide)

theorem EndsLines.refl (h : carriageReturn ∉ t) : EndsLines t t := by
  induction t with
  | nil => exact .nil
  | cons b t ih =>
    rw [mem_cons, not_or] at h
    exact .byte (.symm h.1) (ih h.2)

theorem Spelling.not_mem_tag (s : Spelling) (hname : IsName name) (hnames : ∀ one ∈ attributes, IsName one.1) :
    Text.carriageReturn ∉ s.tag name attributes := by
  have hvalue : ∀ value, Text.carriageReturn ∉ s.text value := fun value => s.not_mem_text (by decide) (by decide)
  have hspace : Text.carriageReturn ∉ ofString " " := by decide
  have hmarks : Text.carriageReturn ≠ Text.byte '=' ∧ Text.carriageReturn ≠ Text.doubleQuote := by decide
  rw [tag, mem_append, not_or]
  refine ⟨hname.not_mem_carriageReturn, fun hmem => ?_⟩
  obtain ⟨one, hone, hmem⟩ := mem_flatMap.1 hmem
  have hname' := (hnames one hone).not_mem_carriageReturn
  simp [pair, hspace, hname', hmarks, hvalue] at hmem

namespace Part

variable (s : Spelling)

theorem not_mem_printAll (h : ∀ p ∈ parts, b ∉ p.print s) : b ∉ printAll s parts := by
  induction parts with
  | nil => simp [printAll]
  | cons part parts ih =>
    rw [forall_mem_cons] at h
    rw [printAll, mem_append, not_or]
    exact ⟨h.1, ih h.2⟩

/-- Line ends are written as references, so there is nothing to normalise. -/
theorem IsPrintable.not_mem_print (h : part.IsPrintable preserve) : carriageReturn ∉ part.print s := by
  induction h with
  | characters => exact s.not_mem_text (by decide) (by decide)
  | @element _ name attributes content hname hnames _ _ _ _ ih =>
    have hmarks : ∀ mark ∈ [ofString "<", ofString ">", ofString "</"],
        carriageReturn ∉ mark := by decide
    simp only [forall_mem_cons] at hmarks
    simp only [print, mem_append, not_or]
    exact ⟨hmarks.1, s.not_mem_tag hname hnames, hmarks.2.1, not_mem_printAll s ih, hmarks.2.2.1,
      hname.not_mem_carriageReturn, hmarks.2.1⟩

end Part

/-- Without carriage returns a source that starts with a tag is in normal form. -/
theorem normalise_eq_self (h : carriageReturn ∉ t) (hstart : t.head? = some (byte '<')) :
    normalise t = t := by
  refine hasNormalForm_iff.1 (.unmarked ?_ (.refl h))
  rintro ⟨u, rfl⟩
  cases hstart

/-! ## Reading what was printed -/

/-- The model's reading of `xml:space` is the stated one for the values that are admitted. -/
theorem keepsBlank_eq (hdist : (attributes.map Prod.fst).Nodup)
    (hspace : ∀ value, (ofString "xml:space", value) ∈ attributes → value = "preserve" ∨ value = "default")
    (outer : Bool) : keepsBlank attributes outer = Part.keptInside attributes outer := by
  unfold keepsBlank Part.keptInside spaceRule
  rw [show spaceAttribute = ofString "xml:space" from rfl]
  cases hlookup : attributes.lookup (ofString "xml:space") with
  | none => rfl
  | some value =>
    have hdiffer : ofString "default" ≠ ofString "preserve" := by decide
    rcases hspace value ((lookup_eq_some_iff_mem hdist).1 hlookup) with rfl | rfl
    · simp
    · simp [hdiffer]

/-- Wherever a part stands, reading what is written for it adds a node that matches it.  Character data needs
an end, and no other data in front of it. -/
def ReadsBack (s : Spelling) (preserve : Bool) (part : Part) : Prop :=
  ∀ {c : Cursor} {rest : Text} {before : Content} {stack : List OpenElement}, c.rest = part.print s ++ rest →
    preserves stack = preserve →
    (part.isCharacters = true → before.pending = none ∧ StopsCharacters rest) →
    ∃ c' after n, c'.rest = rest ∧ nest {} (.read {} c) before stack = nest {} (.read {} c') after stack ∧
      (after.flush preserve).nodes = (before.flush preserve).nodes ++ [n] ∧ n.Matches part ∧
      (part.isCharacters = false → after.pending = none)

theorem pending_flush (before : Content) : (before.flush preserve).pending = none := by
  unfold Content.flush
  split
  · assumption
  · split <;> rfl

theorem flush_of_pending {before : Content} (h : before.pending = none) : before.flush preserve = before := by
  simp [Content.flush, h]

theorem exists_tokens_read (h : IsItem token t rest) (hc : c.rest = t ++ rest) :
    ∃ c', c'.rest = rest ∧ Tokens.read {} c = .more c.position token (.read {} c') := by
  obtain ⟨c', hread, hc'⟩ := exists_read_of_isItem h hc
  exact ⟨c', hc', tokens_read_eq (by simp [hc, h.ne_nil]) hread⟩

theorem exists_tokens_read_endTag (hname : IsName name) (hc : c.rest = "</" ++ (name ++ (">" ++ rest))) :
    ∃ nameEnd c', c'.rest = rest ∧ Tokens.read {} c = .more c.position (.endTag name nameEnd none) (.read {} c') := by
  obtain ⟨nameEnd, c', hread, hc'⟩ := exists_read_endTag hname isLayout_nil hc
  refine ⟨nameEnd, c', hc', tokens_read_eq ?_ hread⟩
  rw [hc]
  exact fun h => absurd (append_eq_nil_iff.1 h).1 (by decide)

theorem readsBack_characters (s : Spelling) (hne : value ≠ []) (hkept : IsBlanks value → preserve = true) :
    ReadsBack s preserve (.characters value) := by
  intro c rest before stack hc hpres hfree
  obtain ⟨hpending, hstop⟩ := hfree rfl
  have hitem : IsItem (.characters value) (s.text value) rest :=
    .characters (s.text_ne_nil hne) (s.not_mem_text (by decide) (by decide)) (s.decodes_text value) hstop
  obtain ⟨c', hc', htokens⟩ := exists_tokens_read hitem hc
  have hflush : (before.write value).flush preserve = ⟨before.nodes ++ [.text value], none⟩ := by
    have hkeep : (!preserve && isBlank value) = false := by
      rw [Bool.and_eq_false_imp]
      intro hdrop
      by_contra hblank
      rw [hkept (isBlank_iff.1 (Bool.of_not_eq_false hblank))] at hdrop
      cases hdrop
    simp [Content.flush, Content.write, hpending, hkeep]
  refine ⟨c', before.write value, .text value, hc', ?_, ?_, .text, fun h => by cases h⟩
  · rw [htokens]
    rfl
  · rw [hflush, flush_of_pending hpending]

theorem readsBack_printAll (hparts : ∀ p ∈ parts, ReadsBack s preserve p) (hsep : Part.Separated parts)
    (hfree : (∃ p ∈ parts.head?, p.isCharacters = true) → before.pending = none)
    (hc : c.rest = Part.printAll s parts ++ rest) (hstop : StopsCharacters rest) (hpres : preserves stack = preserve) :
    ∃ c' after nodes, c'.rest = rest ∧ nest {} (.read {} c) before stack = nest {} (.read {} c') after stack ∧
      (after.flush preserve).nodes = (before.flush preserve).nodes ++ nodes ∧
        List.Forall₂ Node.Matches nodes parts := by
  induction parts generalizing c before with
  | nil => exact ⟨c, before, [], hc, rfl, by simp, .nil⟩
  | cons part parts ih =>
    rw [forall_mem_cons] at hparts
    rw [Part.printAll, append_assoc] at hc
    -- Behind character data there is a start tag, or whatever follows all the parts.
    have hends : part.isCharacters = true → StopsCharacters (Part.printAll s parts ++ rest) := by
      intro hpart
      rcases parts with - | ⟨next, parts⟩
      · exact hstop
      · have hnext := (isChain_cons_cons.1 hsep).1
        rcases next with value | ⟨name, attributes, content⟩
        · exact absurd ⟨hpart, rfl⟩ hnext
        · rintro b hb
          cases hb
          rfl
    obtain ⟨c1, middle, n, hc1, hnest1, hnodes1, hmatch, helement⟩ :=
      hparts.1 hc hpres fun hpart => ⟨hfree ⟨part, rfl, hpart⟩, hends hpart⟩
    have hfree' : (∃ p ∈ parts.head?, p.isCharacters = true) → middle.pending = none := by
      rintro ⟨next, hnext, hcharacters⟩
      obtain ⟨more, rfl⟩ := List.head?_eq_some_iff.1 hnext
      have hdiffer := (isChain_cons_cons.1 hsep).1
      exact helement (by simpa [hcharacters] using hdiffer)
    obtain ⟨c', after, nodes, hc', hnest, hnodes, hmatches⟩ := ih hparts.2 (List.IsChain.of_cons hsep) hfree' hc1
    refine ⟨c', after, n :: nodes, hc', hnest1.trans hnest, ?_, .cons hmatch hmatches⟩
    rw [hnodes, hnodes1, append_assoc, singleton_append]

theorem readsBack_element (s : Spelling) (htag : IsTag name attributes (s.tag name attributes)) (hname : IsName name)
    (hsep : Part.Separated content) (hcontent : ∀ p ∈ content, ReadsBack s (keepsBlank attributes preserve) p) :
    ReadsBack s preserve (.element name attributes content) := by
  intro c rest before stack hc hpres _
  let outer := before.flush preserve
  let opened : OpenElement := ⟨name, attributes, c.position, keepsBlank attributes preserve, outer⟩
  have hitem : IsItem (.startTag name attributes false) ("<" ++ (s.tag name attributes ++ ">"))
      (Part.printAll s content ++ ("</" ++ (name ++ (">" ++ rest)))) := .openTag htag
  obtain ⟨c1, hc1, htokens1⟩ := exists_tokens_read hitem (hc.trans (by simp only [Part.print, append_assoc]))
  have hstop : StopsCharacters ("</" ++ (name ++ (">" ++ rest))) := by
    rintro b hb
    cases hb
    rfl
  have hpreserve' : preserves (opened :: stack) = keepsBlank attributes preserve := rfl
  have hempty : (∃ p ∈ content.head?, p.isCharacters = true) → Content.empty.pending = none := fun _ => rfl
  obtain ⟨c2, inside, children, hc2, hnest2, hnodes, hmatches⟩ :=
    readsBack_printAll hcontent hsep hempty hc1 hstop hpreserve'
  have hkids : (inside.flush opened.preserve).nodes = children := hnodes
  obtain ⟨nameEnd, c3, hc3, htokens3⟩ := exists_tokens_read_endTag hname hc2
  let e : Element := ⟨name, attributes, c.position, children⟩
  refine ⟨c3, outer.push (.element e), .element e, hc3, ?_, ?_, .element hmatches, fun _ => pending_flush before⟩
  · calc nest {} (.read {} c) before stack
        = nest {} (.more c.position (.startTag name attributes false) (.read {} c1)) before stack := by rw [htokens1]
      _ = nest {} (.read {} c1) .empty (opened :: stack) := by
          simp only [nest, hpres, opened, outer, keepsBlank]
          rfl
      _ = nest {} (.read {} c2) inside (opened :: stack) := hnest2
      _ = nest {} (.more c2.position (.endTag name nameEnd none) (.read {} c3)) inside (opened :: stack) := by
          rw [htokens3]
      _ = nest {} (.read {} c3) (outer.push (.element e)) stack := by
          simp [nest, hkids, opened, e]
  · have hpending : (outer.push (.element e)).pending = none := pending_flush before
    rw [flush_of_pending hpending]
    rfl

theorem readsBack_of_isPrintable (s : Spelling) (h : part.IsPrintable preserve) : ReadsBack s preserve part := by
  induction h with
  | characters hne hkept => exact readsBack_characters s hne hkept
  | element hname hnames hdist hspace hsep _ ih =>
    rw [← keepsBlank_eq hdist hspace] at ih
    exact readsBack_element s (s.isTag hname hnames hdist hspace) hname hsep ih

/-! ## Documents -/

/-- A printed element is read back as a document with an element that matches it. -/
theorem exists_read_print (s : Spelling) (filename : Text)
    (h : Part.IsPrintable false (.element name attributes content)) :
    ∃ root, Document.read {} filename (Part.print s (.element name attributes content)) = .ok ⟨[.element root]⟩ ∧
      Node.Matches (.element root) (.element name attributes content) := by
  let source := Part.print s (.element name attributes content)
  have hsource : normalise source = source := normalise_eq_self (h.not_mem_print s) rfl
  have hstart : (Cursor.ofText source).rest = source ++ [] := by simp [Cursor.ofText]
  have hdrops : preserves [] = false := rfl
  obtain ⟨c, after, n, hc, hnest, hnodes, hmatch, -⟩ :=
    @readsBack_of_isPrintable _ _ s h (.ofText source) [] .empty [] hstart hdrops (fun h => by cases h)
  cases hmatch with
  | @element _ _ position children _ hchildren =>
    have hdone : nest {} (.read {} (.ofText source)) .empty [] =
        .ok [.element ⟨name, attributes, position, children⟩] := by
      rw [hnest, Tokens.read, dif_pos hc]
      exact congrArg _ hnodes
    refine ⟨⟨name, attributes, position, children⟩, ?_, .element hchildren⟩
    rw [Document.read]
    simp only [hsource, source] at hdone ⊢
    simp [readNodes, hdone, misplaced?]

def paddedLabel : List Attribute × List Part :=
  ([("xml:space", "preserve"), ("title", "a<\"b\"&\r")],
    [.characters " ", .element "Mark" [("xml:space", "default")] [.characters "\r&"], .characters "\n"])

theorem exists_read_print_paddedLabel :
    Part.IsPrintable false (.element "Label" paddedLabel.1 paddedLabel.2) ∧
      ∃ root, Document.read {} "page.xml" (Part.print .standard (.element "Label" paddedLabel.1 paddedLabel.2)) =
          .ok ⟨[.element root]⟩ ∧
        Node.Matches (.element root) (.element "Label" paddedLabel.1 paddedLabel.2) := by
  have hname : ∀ name ∈ [Text.ofString "Label", "Mark", "xml:space", "title"], IsName name := by
    unfold IsName
    decide
  have hmark : Part.IsPrintable true (.element "Mark" [("xml:space", "default")] [.characters "\r&"]) := by
    refine .element (hname _ (by simp)) ?_ (by decide) ?_ (.singleton _) ?_
    · simpa using hname "xml:space" (by simp)
    · simp
    · simpa using .characters (by decide) fun h => absurd (Text.isBlank_iff.2 h) (by decide)
  have hlabel : Part.IsPrintable false (.element "Label" paddedLabel.1 paddedLabel.2) := by
    refine .element (hname _ (by simp)) ?_ (by decide) ?_ ?_ ?_
    · simpa [paddedLabel] using ⟨hname "xml:space" (by simp), hname "title" (by simp)⟩
    · have hother : Text.ofString "xml:space" ≠ Text.ofString "title" := by decide
      simp [paddedLabel, hother]
    · simp [Part.Separated, paddedLabel, Part.isCharacters]
    · simp only [paddedLabel, List.forall_mem_cons]
      exact ⟨.characters (by decide) fun _ => rfl, hmark, .characters (by decide) fun _ => rfl, by simp⟩
  exact ⟨hlabel, exists_read_print .standard "page.xml" hlabel⟩

end FlutterLayout.Markup
