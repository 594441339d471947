import FlutterLayout.Directive.LoopHeader
import FlutterLayout.Proofs.Markup.Scanning

/-!
# LoopHeaders — reading a loop header that was written

`write` puts a header together from its parts, of which the index and the type may be left out.  A header is cut
at the first ` of `, at the first comma and at the first colon, so not every header is read as it was meant:
`read?_write_iff` says which ones are.
-/

namespace FlutterLayout.Directive.LoopHeader

open List Text
open Markup (EndsAt cut?_of_endsAt endsAt_of_cut? endsAt_singleton_iff)

variable {index? type? : Option Text} {index item type source head head' rest t : Text} {c : UInt8}

/-! ## Names and trimmed texts -/

def isNameByte (b : UInt8) : Bool :=
  isAsciiAlnum b || b = byte '_' || b = byte '$'

/-- A name: letters, digits, `_` and `$`, and no digit first. -/
def isName (t : Text) : Bool :=
  t.head?.any (!isAsciiDigit ·) && t.all isNameByte

abbrev IsTrimmed (t : Text) : Prop :=
  t ≠ [] ∧ trim t = t

theorem not_isNameByte_of_mem_blanks : ∀ b ∈ blanks.flatten, isNameByte b = false := by
  decide +kernel

theorem not_mem_of_isName (h : isName t = true) (hc : isNameByte c = false) : c ∉ t := by
  intro hmem
  rw [isName, Bool.and_eq_true, all_eq_true] at h
  rw [h.2 c hmem] at hc
  cases hc

theorem isTrimmed_of_isName (h : isName t = true) : IsTrimmed t := by
  have hbare : ∀ m ∈ blanks, ¬ m ⊆ t := by
    intro m hm hsub
    obtain ⟨b, hb⟩ := exists_mem_of_ne_nil m fun heq => nil_not_mem_blanks (heq ▸ hm)
    exact not_mem_of_isName h (not_isNameByte_of_mem_blanks b (mem_flatten.2 ⟨m, hm, hb⟩)) (hsub hb)
  refine ⟨fun heq => ?_, trim_of_bare (fun m hm hstart => hbare m hm hstart.subset)
    fun m hm hend => hbare m hm hend.subset⟩
  rw [heq] at h
  cases h

theorem trim_space (t : Text) : trim (space :: t) = trim t :=
  Strips.trim_eq ⟨[space], [], isBlanks_space, madeOf_nil, by simp⟩

/-! ## Writing -/

def separator : Text := " of "

theorem separator_eq : separator = [0x20, 0x6F, 0x66, 0x20] := rfl

def writeType (type? : Option Text) : Text :=
  type?.elim [] fun type => byte ':' :: space :: type

/-- What stands in front of ` of `. -/
def writeHead (index? : Option Text) (item : Text) (type? : Option Text) : Text :=
  match index? with
  | some index => index ++ byte ',' :: space :: (item ++ writeType type?)
  | none => item ++ writeType type?

def write (index? : Option Text) (item : Text) (type? : Option Text) (source : Text) : Text :=
  writeHead index? item type? ++ separator ++ source

/-! ## Cutting -/

theorem cut?_byte_eq_none (h : c ∉ t) : cut? [c] t = none := by
  refine Option.eq_none_iff_forall_ne_some.2 fun parts hcut => h ?_
  rw [(endsAt_of_cut? hcut).1]
  simp

theorem cut?_byte (h : c ∉ head) (rest : Text) : cut? [c] (head ++ c :: rest) = some (head, rest) := by
  have hcut := cut?_of_endsAt (endsAt_singleton_iff.2 h) rest
  rwa [append_assoc, singleton_append] at hcut

/-- A ` of ` in front of the last one ends with the first blank of the last one, if not before. -/
theorem endsAt_separator_iff : EndsAt separator head ↔ ¬ separator <:+: head ++ [space] := by
  rw [separator_eq]
  constructor
  · rintro h ⟨a, b, hab⟩
    have hnil := h a (b ++ [0x6F, 0x66, 0x20]) (by rw [← append_assoc, hab]; simp)
    simp at hnil
  · intro h a b hab
    -- The last one is taken off byte by byte: it has no blank between the two at its ends.
    rcases eq_nil_or_concat' b with rfl | ⟨b, x, rfl⟩
    · rfl
    rcases eq_nil_or_concat' b with rfl | ⟨b, y, rfl⟩
    · exact absurd (congrArg reverse hab) (by simp)
    rcases eq_nil_or_concat' b with rfl | ⟨b, z, rfl⟩
    · exact absurd (congrArg reverse hab) (by simp)
    · refine absurd ⟨a, b, ?_⟩ h
      have hrest : head ++ [space] ++ [0x6F, 0x66, 0x20] =
          a ++ [0x20, 0x6F, 0x66, 0x20] ++ b ++ [z, y, x] := by simpa using hab
      exact (append_inj' hrest rfl).1.symm

theorem count_trim (hc : c ∉ blanks.flatten) (t : Text) : (trim t).count c = t.count c := by
  obtain ⟨a, b, ha, hb, ht⟩ := strips_trim t
  have hblank : ∀ {u : Text}, IsBlanks u → u.count c = 0 :=
    fun hu => count_eq_zero.2 fun hmem => hc (hu.mem_flatten hmem)
  conv => rhs; rw [ht]
  simp [hblank ha, hblank hb]

/-- A cut in the wrong place is not made up for by trimming the source. -/
theorem head_eq_of_cut? (hcut : cut? separator (head ++ separator ++ source) = some (head', rest))
    (hrest : trim rest = source) : head' = head := by
  obtain ⟨htext, hends⟩ := endsAt_of_cut? hcut
  have hhead : head ++ separator <+: head' ++ separator ++ rest := ⟨source, htext⟩
  rcases prefix_or_prefix_of_prefix hhead (prefix_append _ rest) with ⟨b, hb⟩ | ⟨y, hy⟩
  · have hnil := hends head b hb.symm
    rw [hnil, append_nil] at hb
    exact (append_cancel_right hb).symm
  · -- What the cut leaves in front of the source has an `f` in it, or is empty.
    have hsource : rest = y ++ source := by
      rw [← hy, append_assoc (head' ++ separator)] at htext
      exact (append_cancel_left htext).symm
    have hcount := count_trim (c := 0x66) (by decide) rest
    rw [hrest, hsource, count_append] at hcount
    have hf : 0x66 ∉ y := count_eq_zero.1 (by omega)
    rw [separator_eq] at hy
    rcases eq_nil_or_concat' y with rfl | ⟨y, x, rfl⟩
    · simpa using hy
    rcases eq_nil_or_concat' y with rfl | ⟨y, z, rfl⟩
    · exact absurd (congrArg reverse hy) (by simp)
    · have hlast := congrArg reverse hy
      simp at hlast
      simp [hlast] at hf

/-! ## Reading -/

/-- The item and the type, which may have a blank in front of them, are cut at the colon. -/
theorem cut?_binder (hlead : lead = [] ∨ lead = [space]) (hitem : isName item = true) (type? : Option Text) :
    (cut? ":" (lead ++ (item ++ writeType type?))).getD (lead ++ (item ++ writeType type?), []) =
      (lead ++ item, type?.elim [] fun type => space :: type) := by
  have hcolon : byte ':' ∉ lead ++ item := by
    rcases hlead with rfl | rfl
    · exact not_mem_of_isName hitem (by decide)
    · simpa using ⟨by decide, not_mem_of_isName hitem (by decide)⟩
  rw [← append_assoc]
  cases type? with
  | none =>
    change (cut? [byte ':'] (lead ++ item ++ [])).getD _ = _
    rw [append_nil, cut?_byte_eq_none hcolon]
    simp [writeType]
  | some type =>
    change (cut? [byte ':'] (lead ++ item ++ byte ':' :: space :: type)).getD _ = _
    rw [cut?_byte hcolon]
    rfl

theorem trim_lead (hlead : lead = [] ∨ lead = [space]) (h : IsTrimmed t) : trim (lead ++ t) = t := by
  rcases hlead with rfl | rfl
  · exact h.2
  · exact (trim_space t).trans h.2

theorem orElse_trim (h : IsTrimmed t) (fallback : Text) : orElse (trim t) fallback = t := by
  rw [h.2, orElse, if_neg (by simpa using h.1)]

/-- The index, and what stands behind its comma. -/
def readIndex (head : Text) : Text × Text :=
  (cut? "," head).elim (defaultIndex, head) fun parts => (orElse (trim parts.1) defaultIndex, parts.2)

theorem read?_eq_some_iff : read? t = some l ↔ ∃ head source, cut? separator t = some (head, source) ∧
    trim source ≠ [] ∧ l.index = (readIndex head).1 ∧ l.source = trim source ∧
      l.item = orElse (trim ((cut? ":" (readIndex head).2).getD ((readIndex head).2, [])).1) defaultItem ∧
      l.type = trim ((cut? ":" (readIndex head).2).getD ((readIndex head).2, [])).2 := by
  obtain ⟨index, item, type, source⟩ := l
  unfold read? readIndex separator
  cases cut? " of " t with
  | none => simp
  | some parts =>
    obtain ⟨head, rest⟩ := parts
    cases cut? "," head <;> simp <;> grind

theorem readIndex_none (hitem : isName item = true) (h : ∀ type ∈ type?, byte ',' ∉ type) :
    readIndex (writeHead none item type?) = (defaultIndex, item ++ writeType type?) := by
  have hcomma : byte ',' ∉ item ++ writeType type? := by
    rw [mem_append, not_or]
    refine ⟨not_mem_of_isName hitem (by decide), ?_⟩
    cases type? with
    | none => exact not_mem_nil
    | some type => simpa [writeType] using ⟨by decide, by decide, h type rfl⟩
  change (cut? [byte ','] (item ++ writeType type?)).elim _ _ = _
  rw [cut?_byte_eq_none hcomma]
  rfl

theorem readIndex_some (hindex : isName index = true) :
    readIndex (writeHead (some index) item type?) = (index, space :: (item ++ writeType type?)) := by
  change (cut? [byte ','] (index ++ byte ',' :: space :: (item ++ writeType type?))).elim _ _ = _
  rw [cut?_byte (not_mem_of_isName hindex (by decide))]
  exact congrArg (·, _) (orElse_trim (isTrimmed_of_isName hindex) _)

/-- The colon in front of a type is read as a part of the index, if the type brings the first comma. -/
theorem readIndex_of_comma (hitem : isName item = true) (hcomma : byte ',' ∈ type) :
    (readIndex (writeHead none item (some type))).1 ≠ defaultIndex := by
  obtain ⟨p, q, rfl, hp⟩ := eq_append_cons_of_mem hcomma
  have hfront : byte ',' ∉ item ++ byte ':' :: space :: p := by
    simpa using ⟨not_mem_of_isName hitem (by decide), by decide, by decide, hp⟩
  have hhead : writeHead none item (some (p ++ byte ',' :: q)) = item ++ byte ':' :: space :: p ++ byte ',' :: q := by
    simp [writeHead, writeType]
  have hindex : readIndex (writeHead none item (some (p ++ byte ',' :: q))) =
      (orElse (trim (item ++ byte ':' :: space :: p)) defaultIndex, q) := by
    rw [hhead]
    change (cut? [byte ','] _).elim _ _ = _
    rw [cut?_byte hfront]
    rfl
  have hcolon : byte ':' ∈ trim (item ++ byte ':' :: space :: p) := by
    rw [← count_pos_iff, count_trim (by decide), count_pos_iff]
    simp
  intro heq
  rw [hindex] at heq
  change orElse (trim (item ++ byte ':' :: space :: p)) defaultIndex = defaultIndex at heq
  rw [orElse, if_neg (by simpa using ne_nil_of_mem hcolon)] at heq
  rw [heq] at hcolon
  exact absurd hcolon (by decide)

/-- A header is read as it was written exactly when no comma of its type stands in for the one behind an index, and
no ` of ` comes before the one in front of the source. -/
theorem read?_write_iff (hindex : ∀ index ∈ index?, isName index = true) (hitem : isName item = true)
    (htype : ∀ type ∈ type?, IsTrimmed type) (hsource : IsTrimmed source) :
    read? (write index? item type? source) = some ⟨index?.getD defaultIndex, item, type?.getD [], source⟩ ↔
      (index? = none → ∀ type ∈ type?, byte ',' ∉ type) ∧ ¬ separator <:+: writeHead index? item type? ++ [space] := by
  rw [← endsAt_separator_iff, read?_eq_some_iff]
  constructor
  · rintro ⟨head, rest, hcut, -, hread, hrest, -⟩
    obtain rfl := head_eq_of_cut? hcut hrest.symm
    refine ⟨?_, (endsAt_of_cut? hcut).2⟩
    rintro rfl type rfl hcomma
    exact readIndex_of_comma hitem hcomma hread.symm
  · rintro ⟨hcomma, hends⟩
    refine ⟨_, source, cut?_of_endsAt hends source, by simpa [hsource.2] using hsource.1, ?_⟩
    have hstart : ∃ lead, (lead = [] ∨ lead = [space]) ∧
        readIndex (writeHead index? item type?) = (index?.getD defaultIndex, lead ++ (item ++ writeType type?)) := by
      cases index? with
      | none => exact ⟨[], .inl rfl, readIndex_none hitem (hcomma rfl)⟩
      | some index => exact ⟨[space], .inr rfl, readIndex_some (hindex index rfl)⟩
    obtain ⟨lead, hlead, hstart⟩ := hstart
    rw [hstart, cut?_binder hlead hitem, trim_lead hlead (isTrimmed_of_isName hitem)]
    refine ⟨rfl, hsource.2.symm, (if_neg (by simpa using (isTrimmed_of_isName hitem).1)).symm, ?_⟩
    cases type? with
    | none => rfl
    | some type => exact ((trim_space type).trans (htype type rfl).2).symm

/-- A generic type with two arguments behind an index, and a source with all the separators in it. -/
theorem read?_write_indexed :
    let type : Text := "Map<String, List<int>>"
    let source : Text := "a of b ? c : d(e, f)"
    (∀ index ∈ some (ofString "i"), isName index = true) ∧ isName "entry" = true ∧ (∀ t ∈ some type, IsTrimmed t) ∧
      IsTrimmed source ∧ read? (write (some "i") "entry" (some type) source) = some ⟨"i", "entry", type, source⟩ := by
  intro type source
  have hindex : ∀ index ∈ some (ofString "i"), isName index = true := by rintro _ ⟨⟩; decide
  have htype : ∀ t ∈ some type, IsTrimmed t := by rintro _ ⟨⟩; decide
  exact ⟨hindex, by decide, htype, by decide,
    (read?_write_iff hindex (by decide) htype (by decide)).2 ⟨nofun, by decide⟩⟩

/-- Without an index, the comma between the arguments of a type is taken for the one behind an index. -/
theorem exists_misread : ∃ item type source : Text, isName item = true ∧ IsTrimmed type ∧ ¬ separator <:+: type ∧
    IsTrimmed source ∧ read? (write none item (some type) source) ≠ some ⟨defaultIndex, item, type, source⟩ :=
  ⟨"entry", "Map<String, int>", "entries", by decide, by decide, by decide, by decide, by decide⟩

end FlutterLayout.Directive.LoopHeader
