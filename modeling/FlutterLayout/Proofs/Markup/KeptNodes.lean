import FlutterLayout.Proofs.Markup.Acceptance
import FlutterLayout.Proofs.Markup.Borders

/-!
# KeptNodes — comments and CDATA sections that are kept

Kept comments and CDATA sections part the character data around them, and each part that is blank is dropped by
itself.  So documents that are read from one source and differ in what is kept have the same elements
(`Element.Echoes`), and their texts hold the same pieces up to blank ones (`Text.SameInk`).  Two readings go over the
same tokens; `Paired` is what they keep in common.
-/

namespace FlutterLayout

open List Text

namespace Text

/-- The texts consist of the same pieces in the same order, up to blank ones. -/
def SameInk (t t' : Text) : Prop :=
  ∃ qs qs' : List Text, t = qs.flatten ∧ t' = qs'.flatten ∧
    qs.filter (fun q => !isBlank q) = qs'.filter fun q => !isBlank q

end Text

namespace Markup

open Text (StartsWhole SameInk)

variable {options options' : ReadOptions} {content content' : Content} {preserve : Bool} {nodes nodes' : List Node}
  {ps qs : List Text} {p v : Text} {attributes : List Attribute} {stack stack' : List OpenElement} {n : Node}

abbrev elementsOf (nodes : List Node) : List Element :=
  nodes.filterMap Node.element?

/-- The elements have the same names, attributes, positions and nesting.  Their texts are the same where blank text
is kept, and elsewhere the same up to blank pieces. -/
inductive Element.Echoes : (outer : Bool) → Element → Element → Prop where
  | mk {outer : Bool} {e e' : Element} (hname : e.name = e'.name) (hattributes : e.attributes = e'.attributes)
      (hposition : e.position = e'.position) (hcount : e.elements.length = e'.elements.length)
      (hinside : ∀ a a', (a, a') ∈ e.elements.zip e'.elements →
        Element.Echoes (keepsBlank e.attributes outer) a a')
      (hink : SameInk e.text e'.text) (htext : keepsBlank e.attributes outer = true → e.text = e'.text) :
      Element.Echoes outer e e'

/-! ## What is kept is no matter of tokens -/

section Tokens

variable (hresolve : Reference.resolve options = Reference.resolve options')
include hresolve

theorem decode_congr (t : Text) : Reference.decode options t = Reference.decode options' t := by
  have hfrom : ∀ skip, Reference.decodeFrom options skip t = Reference.decodeFrom options' skip t := by
    induction t with
    | nil => exact fun skip => by simp [Reference.decodeFrom]
    | cons b t ih => exact fun skip => by cases skip <;> simp [Reference.decodeFrom, ih, hresolve]
  exact hfrom 0

theorem readAttribute_congr (seen : List Attribute) (c : Cursor) :
    readAttribute options seen c = readAttribute options' seen c := by
  have hvalue : readValue options = readValue options' := by
    funext place name c
    simp only [readValue, decode_congr hresolve]
  simp only [readAttribute, hvalue]

theorem readAttributes_congr (seen : List Attribute) (c : Cursor) :
    readAttributes options seen c = readAttributes options' seen c := by
  fun_induction readAttributes options seen c with
  | case1 seen c hend => rw [readAttributes, if_pos hend]
  | case2 seen c hend failure hone =>
    rw [readAttribute_congr hresolve] at hone
    rw [readAttributes, if_neg hend]
    split <;> simp_all
  | case3 seen c hend one behind hone ih =>
    rw [readAttribute_congr hresolve] at hone
    rw [ih, readAttributes.eq_def options' seen c, if_neg hend]
    split <;> simp_all

theorem tokens_read_congr (c : Cursor) : Tokens.read options c = Tokens.read options' c := by
  have hread : Token.read options = Token.read options' := by
    funext c
    simp only [Token.read, readStartTag, readCharacters, readAttributes_congr hresolve, decode_congr hresolve]
  fun_induction Tokens.read options c with
  | case1 c hdone => rw [Tokens.read, dif_pos hdone]
  | case2 c hmore failure h =>
    rw [hread] at h
    rw [Tokens.read, dif_neg hmore]
    split <;> simp_all
  | case3 c hmore token behind h ih =>
    rw [hread] at h
    rw [ih, Tokens.read.eq_def options' c, dif_neg hmore]
    split <;> simp_all

end Tokens

/-! ## The pieces that nodes hold -/

/-- The nodes hold the characters of the pieces `ps`, without some blank ones unless these are kept. -/
structure Draws (preserve : Bool) (ps : List Text) (nodes : List Node) : Prop where
  pieces : ∃ qs : List Text, nodes.flatMap Node.characters = qs.flatten ∧
    qs.filter (fun q => !isBlank q) = ps.filter (fun q => !isBlank q) ∧ (preserve = true → qs = ps)
  bare : preserve = false → ∀ v, .text v ∈ nodes → ∃ p ∈ ps, isBlank p = false

theorem Draws.nil : Draws preserve [] [] :=
  ⟨⟨[], rfl, rfl, fun _ => rfl⟩, fun _ _ h => by cases h⟩

theorem Draws.push (h : Draws preserve ps nodes) (hn : n.characters = []) (htext : ∀ v, n ≠ .text v) :
    Draws preserve ps (nodes ++ [n]) := by
  refine ⟨by simpa [hn] using h.pieces, fun hpres v hv => ?_⟩
  rcases mem_append.1 hv with hv | hv
  · exact h.bare hpres v hv
  · exact absurd (mem_singleton.1 hv).symm (htext v)

/-- A node with the characters of further pieces; as a text node it is not blank. -/
theorem Draws.append (h : Draws preserve ps nodes) (hn : n.characters = qs.flatten)
    (htext : preserve = false → ∀ v, n = .text v → ∃ q ∈ qs, isBlank q = false) :
    Draws preserve (ps ++ qs) (nodes ++ [n]) := by
  obtain ⟨drawn, hdrawn, hink, hall⟩ := h.pieces
  refine ⟨⟨drawn ++ qs, by simp [hdrawn, hn], by simp [hink], fun hpres => by rw [hall hpres]⟩, ?_⟩
  intro hpres v hv
  rcases mem_append.1 hv with hv | hv
  · obtain ⟨p, hp, hbare⟩ := h.bare hpres v hv
    exact ⟨p, mem_append_left _ hp, hbare⟩
  · obtain ⟨q, hq, hbare⟩ := htext hpres v (mem_singleton.1 hv).symm
    exact ⟨q, mem_append_right _ hq, hbare⟩

theorem Draws.sameInk (h : Draws preserve ps nodes) (h' : Draws preserve ps nodes') :
    SameInk (nodes.flatMap Node.characters) (nodes'.flatMap Node.characters) ∧
      (preserve = true → nodes.flatMap Node.characters = nodes'.flatMap Node.characters) := by
  obtain ⟨qs, htext, hink, hall⟩ := h.pieces
  obtain ⟨qs', htext', hink', hall'⟩ := h'.pieces
  refine ⟨⟨qs, qs', htext, htext', hink.trans hink'.symm⟩, fun hpres => ?_⟩
  rw [htext, htext', hall hpres, hall' hpres]

/-- The content has read the pieces `ps`, the last of which may be pending. -/
def Content.Holds (preserve : Bool) (ps : List Text) (content : Content) : Prop :=
  (∀ p ∈ ps, StartsWhole p) ∧ ∃ front back, ps = front ++ back ∧ Draws preserve front content.nodes ∧
    content.pending.getD [] = back.flatten ∧ (content.pending = none → back = [])

namespace Content

theorem Holds.of_draws (hps : ∀ p ∈ ps, StartsWhole p) (h : Draws preserve ps nodes) :
    Holds preserve ps ⟨nodes, none⟩ :=
  ⟨hps, ps, [], by simp, h, rfl, fun _ => rfl⟩

theorem flush_eq_nodes (preserve : Bool) (content : Content) :
    content.flush preserve = ⟨(content.flush preserve).nodes, none⟩ := by
  unfold flush
  split
  · rename_i hnone
    rw [← hnone]
  · split <;> rfl

theorem elementsOf_flush (preserve : Bool) (content : Content) :
    elementsOf (content.flush preserve).nodes = elementsOf content.nodes := by
  unfold flush
  split
  · rfl
  · split <;> simp [Node.element?]

theorem elementsOf_push (hn : n.element? = none) : elementsOf (content.push n).nodes = elementsOf content.nodes := by
  simp [push, filterMap_append, hn]

section

variable (h : Holds preserve ps content)
include h

/-- Pending data is blank just if all its pieces are, so dropping it drops blank pieces. -/
theorem Holds.flush : Draws preserve ps (content.flush preserve).nodes := by
  obtain ⟨hps, front, back, rfl, hdraws, hpending, hnone⟩ := h
  have hblank : isBlank back.flatten = true ↔ ∀ q ∈ back, isBlank q = true := by
    simp only [isBlank_iff]
    exact isBlanks_flatten fun q hq => hps q (mem_append_right _ hq)
  unfold flush
  split
  · rename_i h
    rwa [hnone h, append_nil]
  · rename_i value h
    rw [h, Option.getD_some] at hpending
    subst hpending
    split
    · rename_i hdrop
      obtain ⟨hpres, hdrop⟩ := Bool.and_eq_true_iff.1 hdrop
      rw [Bool.not_eq_true'] at hpres
      obtain ⟨qs, htext, hink, -⟩ := hdraws.pieces
      have hback : back.filter (fun q => !isBlank q) = [] := by simpa using hblank.1 hdrop
      refine ⟨⟨qs, htext, by rw [filter_append, hback, append_nil, hink], by simp [hpres]⟩, ?_⟩
      intro _ v hv
      obtain ⟨p, hp, hbare⟩ := hdraws.bare hpres v hv
      exact ⟨p, mem_append_left _ hp, hbare⟩
    · rename_i hkeep
      refine hdraws.append rfl fun hpres v _ => ?_
      have hsome : ¬ ∀ q ∈ back, isBlank q = true := fun hall => hkeep (by simp [hpres, hblank.2 hall])
      simpa using hsome

theorem Holds.write (hv : StartsWhole v) : Holds preserve (ps ++ [v]) (content.write v) := by
  obtain ⟨hps, front, back, rfl, hdraws, hpending, -⟩ := h
  exact ⟨forall_mem_append.2 ⟨hps, by simpa using hv⟩, front, back ++ [v], by simp, hdraws,
    by simp [write, hpending], fun hnone => by cases hnone⟩

theorem Holds.push (hn : n.characters = []) (htext : ∀ v, n ≠ .text v) : Holds preserve ps (content.push n) := by
  obtain ⟨hps, front, back, rfl, hdraws, hpending⟩ := h
  exact ⟨hps, front, back, rfl, hdraws.push hn htext, hpending⟩

theorem Holds.flushed : Holds preserve ps (content.flush preserve) := by
  rw [flush_eq_nodes]
  exact .of_draws h.1 h.flush

theorem Holds.pushCData (hv : StartsWhole v) :
    Holds preserve (ps ++ [v]) ((content.flush preserve).push (.cdata v)) := by
  rw [flush_eq_nodes]
  refine .of_draws (forall_mem_append.2 ⟨h.1, by simpa using hv⟩) (h.flush.append (by simp [Node.characters]) ?_)
  exact fun _ _ h => by cases h

end

end Content

/-! ## Two readings -/

structure Paired (preserve : Bool) (content content' : Content) : Prop where
  pieces : ∃ ps, content.Holds preserve ps ∧ content'.Holds preserve ps
  elements : List.Forall₂ (Element.Echoes preserve) (elementsOf content.nodes) (elementsOf content'.nodes)

inductive StacksPaired : List OpenElement → List OpenElement → Prop where
  | nil : StacksPaired [] []
  | cons {name : Text} {attributes : List Attribute} {position : Position} {outer outer' : Content}
      {stack stack' : List OpenElement} (houter : Paired (preserves stack) outer outer')
      (h : StacksPaired stack stack') :
      StacksPaired (⟨name, attributes, position, keepsBlank attributes (preserves stack), outer⟩ :: stack)
        (⟨name, attributes, position, keepsBlank attributes (preserves stack), outer'⟩ :: stack')

theorem Paired.empty : Paired preserve .empty .empty :=
  ⟨⟨[], .of_draws (by simp) .nil, .of_draws (by simp) .nil⟩, .nil⟩

/-- The step from one content to the other reads the pieces `new` and no element. -/
structure Content.Adds (preserve : Bool) (new : List Text) (content next : Content) : Prop where
  pieces : ∀ {ps}, content.Holds preserve ps → next.Holds preserve (ps ++ new)
  elements : elementsOf next.nodes = elementsOf content.nodes

theorem Paired.adds {next : Content} (h : Paired preserve content content') (hnext : content.Adds preserve new next)
    (hnext' : content'.Adds preserve new next') : Paired preserve next next' := by
  obtain ⟨⟨ps, hps, hps'⟩, helements⟩ := h
  refine ⟨⟨ps ++ new, hnext.pieces hps, hnext'.pieces hps'⟩, ?_⟩
  rwa [hnext.elements, hnext'.elements]

namespace Content.Adds

theorem write (hv : StartsWhole v) : content.Adds preserve [v] (content.write v) :=
  ⟨fun h => h.write hv, rfl⟩

theorem flush : content.Adds preserve [] (content.flush preserve) :=
  ⟨fun h => by simpa using h.flushed, content.elementsOf_flush preserve⟩

theorem comment (keep : Bool) :
    content.Adds preserve [] (if keep then (content.flush preserve).push (.comment v) else content) := by
  cases keep with
  | true =>
    refine ⟨fun h => by simpa using h.flushed.push rfl (by simp), ?_⟩
    exact (elementsOf_push rfl).trans (content.elementsOf_flush preserve)
  | false => exact ⟨fun h => by simpa using h, rfl⟩

theorem cdata (hv : StartsWhole v) (keep : Bool) :
    content.Adds preserve [v] (if keep then (content.flush preserve).push (.cdata v) else content.write v) := by
  cases keep with
  | true =>
    refine ⟨fun h => h.pushCData hv, ?_⟩
    exact (elementsOf_push rfl).trans (content.elementsOf_flush preserve)
  | false => exact .write hv

end Content.Adds

theorem Paired.push (h : Paired preserve content content') (he : e.Echoes preserve e') :
    Paired preserve (content.push (.element e)) (content'.push (.element e')) := by
  obtain ⟨⟨ps, hps, hps'⟩, helements⟩ := h
  refine ⟨⟨ps, hps.push rfl (by simp), hps'.push rfl (by simp)⟩, ?_⟩
  simpa [elementsOf, Content.push, Node.element?] using rel_append helements (.cons he .nil)

theorem Paired.close (houter : Paired preserve outer outer')
    (h : Paired (keepsBlank attributes preserve) content content') :
    Paired preserve
      (outer.push (.element ⟨name, attributes, position, (content.flush (keepsBlank attributes preserve)).nodes⟩))
      (outer'.push
        (.element ⟨name, attributes, position, (content'.flush (keepsBlank attributes preserve)).nodes⟩)) := by
  obtain ⟨hcount, hinside⟩ := forall₂_iff_zip.1 (h.adds .flush .flush).elements
  obtain ⟨ps, hps, hps'⟩ := h.pieces
  obtain ⟨hink, htext⟩ := hps.flush.sameInk hps'.flush
  exact houter.push (.mk rfl rfl rfl hcount (fun _ _ => hinside) hink htext)

theorem StacksPaired.preserves_eq (h : StacksPaired stack stack') : preserves stack = preserves stack' := by
  cases h with
  | nil | cons => rfl

/-- Both readings fail in the same way, or both succeed with the same pieces and elements. -/
def SameEnd (r r' : Except Failure (List Node)) : Prop :=
  (∃ failure, r = .error failure ∧ r' = .error failure) ∨ ∃ nodes nodes' ps, r = .ok nodes ∧ r' = .ok nodes' ∧
    Draws false ps nodes ∧ Draws false ps nodes' ∧
      List.Forall₂ (Element.Echoes false) (elementsOf nodes) (elementsOf nodes')

theorem nest_sameEnd (htokens : tokens.Whole) (hcontent : Paired (preserves stack) content content')
    (hstack : StacksPaired stack stack') :
    SameEnd (nest options tokens content stack) (nest options' tokens content' stack') := by
  induction tokens generalizing content content' stack stack' with
  | failed failure => exact .inl ⟨failure, by simp [nest], by simp [nest]⟩
  | done =>
    cases hstack with
    | nil =>
      obtain ⟨ps, hps, hps'⟩ := hcontent.pieces
      exact .inr ⟨_, _, ps, rfl, rfl, hps.flush, hps'.flush, (hcontent.adds .flush .flush).elements⟩
    | cons => exact .inl ⟨_, rfl, rfl⟩
  | more position token rest ih =>
    obtain ⟨htoken, hrest⟩ := htokens
    cases token with
    | comment body =>
      have hnext : ∀ (options : ReadOptions) (content : Content) (stack : List OpenElement),
          nest options (.more position (.comment body) rest) content stack = nest options rest
            (if options.keepComments then (content.flush (preserves stack)).push (.comment body) else content)
            stack := by
        intro options content stack
        rw [nest]
        split <;> rfl
      rw [hnext, hnext, ← hstack.preserves_eq]
      exact ih hrest (hcontent.adds (.comment _) (.comment _)) hstack
    | cdata body =>
      have hnext : ∀ (options : ReadOptions) (content : Content) (stack : List OpenElement),
          nest options (.more position (.cdata body) rest) content stack = nest options rest
            (if options.keepCData then (content.flush (preserves stack)).push (.cdata body)
              else content.write body) stack := by
        intro options content stack
        rw [nest]
        split <;> rfl
      rw [hnext, hnext, ← hstack.preserves_eq]
      exact ih hrest (hcontent.adds (.cdata htoken _) (.cdata htoken _)) hstack
    | instruction | doctype => exact ih hrest hcontent hstack
    | characters value => exact ih hrest (hcontent.adds (.write htoken) (.write htoken)) hstack
    | startTag name attributes closed =>
      cases closed with
      | true =>
        have he : Element.Echoes (preserves stack) ⟨name, attributes, position, []⟩ ⟨name, attributes, position, []⟩ :=
          .mk rfl rfl rfl rfl (fun _ _ h => by cases h) ⟨[], [], rfl, rfl, rfl⟩ fun _ => rfl
        simp only [nest, if_true]
        rw [← hstack.preserves_eq]
        exact ih hrest ((hcontent.adds .flush .flush).push he) hstack
      | false =>
        have hopen : ∀ (options : ReadOptions) (content : Content) (stack : List OpenElement),
            nest options (.more position (.startTag name attributes false) rest) content stack =
              nest options rest .empty (⟨name, attributes, position,
                keepsBlank attributes (preserves stack), content.flush (preserves stack)⟩ :: stack) :=
          fun _ _ _ => rfl
        rw [hopen, hopen, ← hstack.preserves_eq]
        exact ih hrest .empty (.cons (hcontent.adds .flush .flush) hstack)
    | endTag name nameEnd missing =>
      cases hstack with
      | nil => exact .inl ⟨_, rfl, rfl⟩
      | @cons name' attributes position' outer outer' stack stack' houter hstack =>
        simp only [nest]
        split
        · exact .inl ⟨_, rfl, rfl⟩
        · cases missing with
          | some place => exact .inl ⟨_, rfl, rfl⟩
          | none => exact ih hrest (houter.close hcontent) hstack

/-! ## Documents -/

theorem misplaced?_eq_none_iff : misplaced? finish roots nodes = none ↔
      (∀ v, .text v ∉ nodes) ∧ (elementsOf nodes).length + roots.toNat ≤ 1 := by
  induction nodes generalizing roots with
  | nil => simp [misplaced?, Bool.toNat_le]
  | cons n nodes ih =>
    cases n with
    | element e => cases roots <;> simp [misplaced?, ih, Node.element?]
    | text v => exact ⟨fun h => (by cases h), fun h => absurd mem_cons_self (h.1 v)⟩
    | comment | cdata => simpa [misplaced?, elementsOf, filterMap_cons, Node.element?] using ih

theorem read_eq_ok_iff : Document.read options filename source = .ok d ↔
    nest options (.read options (.ofText (normalise source))) .empty [] = .ok d.children ∧
      misplaced? (Position.start.advance (normalise source)) false d.children = none := by
  unfold Document.read readNodes
  dsimp only
  cases nest options (.read options (.ofText (normalise source))) .empty [] with
  | error failure => exact ⟨fun h => (by cases h), fun h => (by cases h.1)⟩
  | ok nodes =>
    dsimp only
    cases hplaced : misplaced? (Position.start.advance (normalise source)) false nodes with
    | some failure =>
      refine ⟨fun h => (by cases h), fun h => ?_⟩
      cases h.1
      rw [hplaced] at h
      cases h.2
    | none =>
      refine ⟨fun h => ?_, fun h => ?_⟩
      · cases h
        exact ⟨rfl, hplaced⟩
      · cases h.1
        rfl

/-- Without character data at the top level, no piece there is more than blank. -/
theorem Draws.all_blank (h : Draws preserve ps nodes) (htext : ∀ v, .text v ∉ nodes) (hcdata : ∀ v, .cdata v ∉ nodes) :
    ∀ p ∈ ps, isBlank p = true := by
  obtain ⟨qs, hqs, hink, -⟩ := h.pieces
  have hnone : nodes.flatMap Node.characters = [] := by
    rw [flatMap_eq_nil_iff]
    intro n hn
    cases n with
    | element | comment => rfl
    | text v => exact absurd hn (htext v)
    | cdata v => exact absurd hn (hcdata v)
  have hempty : ∀ q ∈ qs, q = [] := flatten_eq_nil_iff.1 (hqs.symm.trans hnone)
  have hfilter : ps.filter (fun q => !isBlank q) = [] := by
    rw [← hink, filter_eq_nil_iff]
    intro q hq
    rw [hempty q hq]
    decide
  simpa using hfilter

def ReadOptions.keeping (options : ReadOptions) (comments cdata : Bool) : ReadOptions :=
  { options with keepComments := comments, keepCData := cdata }

theorem readNodes_sameEnd (hsource : isUtf8 source = true)
    (hentities : ∀ e ∈ options.entities, isUtf8 e.2 = true) (comments cdata comments' cdata' : Bool) : SameEnd
      (nest (options.keeping comments cdata)
        (.read (options.keeping comments cdata) (.ofText (normalise source))) .empty [])
      (nest (options.keeping comments' cdata')
        (.read (options.keeping comments' cdata') (.ofText (normalise source))) .empty []) := by
  obtain ⟨hstart, hborders⟩ := bordered_of_isUtf8 (isUtf8_normalise hsource)
  have htokens : Tokens.read (options.keeping comments' cdata') = Tokens.read (options.keeping comments cdata) :=
    funext (tokens_read_congr rfl)
  rw [htokens]
  refine nest_sameEnd (Tokens.read_whole ?_ hstart hborders) .empty .nil
  exact fun e he => (bordered_of_isUtf8 (hentities e he)).1

/-- What is kept of comments and CDATA sections leaves the elements and, up to blank pieces, their texts.  It leaves
whether a source can be read unless a CDATA section stands outside of the root element. -/
theorem read_keeping {filename source : Text} {d : Document} (hsource : Text.isUtf8 source = true)
    (hentities : ∀ e ∈ options.entities, Text.isUtf8 e.2 = true) {comments cdata : Bool}
    (h : Document.read (options.keeping comments cdata) filename source = .ok d) (comments' cdata' : Bool) :
    ((∀ v, .cdata v ∉ d.children) →
        ∃ d', Document.read (options.keeping comments' cdata') filename source = .ok d') ∧
      ∀ d', Document.read (options.keeping comments' cdata') filename source = .ok d' →
        List.Forall₂ (Element.Echoes false) (elementsOf d.children) (elementsOf d'.children) := by
  have hend := readNodes_sameEnd hsource hentities comments cdata comments' cdata'
  obtain ⟨hnest, hplaced⟩ := read_eq_ok_iff.1 h
  rcases hend with ⟨failure, hfailure, -⟩ | ⟨nodes, nodes', ps, hnodes, hnodes', hdraws, hdraws', hechoes⟩
  · rw [hnest] at hfailure
    cases hfailure
  · rw [hnest] at hnodes
    cases hnodes
    obtain ⟨htext, hcount⟩ := misplaced?_eq_none_iff.1 hplaced
    refine ⟨fun hcdata => ⟨⟨nodes'⟩, read_eq_ok_iff.2 ⟨hnodes',
      misplaced?_eq_none_iff.2 ⟨fun v hv => ?_, ?_⟩⟩⟩, fun d' hd' => ?_⟩
    · obtain ⟨p, hp, hbare⟩ := hdraws'.bare rfl v hv
      rw [hdraws.all_blank htext hcdata p hp] at hbare
      cases hbare
    · rwa [← hechoes.length_eq]
    · obtain ⟨hnest', -⟩ := read_eq_ok_iff.1 hd'
      rw [hnodes'] at hnest'
      injection hnest' with heq
      rwa [← heq]

/-- A comment before blank text, and a CDATA section behind blank text that is kept. -/
def partedPage : Text :=
  "<a>x<!-- c --> <b xml:space=\"preserve\"> <![CDATA[y]]></b></a>"

theorem read_keeping_partedPage : Text.isUtf8 partedPage = true ∧ ∃ d d',
    Document.read (ReadOptions.keeping {} true true) [] partedPage = .ok d ∧ (∀ v, .cdata v ∉ d.children) ∧
      Document.read (ReadOptions.keeping {} false false) [] partedPage = .ok d' ∧
        List.Forall₂ (Element.Echoes false) (elementsOf d.children) (elementsOf d'.children) := by
  have hutf8 : Text.isUtf8 partedPage = true := by decide +kernel
  have hrun : ((Document.read (ReadOptions.keeping {} true true) [] partedPage).toOption.any fun d =>
      d.children.all fun n => n.element?.isSome) = true := by decide +kernel
  cases hread : Document.read (ReadOptions.keeping {} true true) [] partedPage with
  | error failure =>
    rw [hread] at hrun
    cases hrun
  | ok d =>
    rw [hread, Except.toOption, Option.any_some, List.all_eq_true] at hrun
    have hcdata : ∀ v, .cdata v ∉ d.children := fun v hv => by cases hrun _ hv
    obtain ⟨hexists, hechoes⟩ := read_keeping hutf8 (by simp) hread false false
    obtain ⟨d', hread'⟩ := hexists hcdata
    exact ⟨hutf8, d, d', rfl, hcdata, hread', hechoes d' hread'⟩

/-- The texts of the elements at the top level of a source, if it can be read. -/
def rootTexts? (options : ReadOptions) (source : Text) : Option (List Text) :=
  (Document.read options [] source).toOption.map fun d => (elementsOf d.children).map Element.text

/-- A kept comment parts a word from the blank behind it, and a kept CDATA section may stand behind the root. -/
theorem rootTexts?_keeping_ne :
    rootTexts? (ReadOptions.keeping {} false false) "<a>x<!-- c --> <b/></a>" = some [Text.ofString "x "] ∧
      rootTexts? (ReadOptions.keeping {} true false) "<a>x<!-- c --> <b/></a>" = some [Text.ofString "x"] ∧
      rootTexts? (ReadOptions.keeping {} false false) "<a/><![CDATA[x]]>" = none ∧
      rootTexts? (ReadOptions.keeping {} false true) "<a/><![CDATA[x]]>" = some [[]] := by
  decide +kernel

end Markup

end FlutterLayout
