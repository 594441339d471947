import FlutterLayout.Config.Fingerprint
import FlutterLayout.Proofs.Json.Reading

/-!
# Fingerprints — the text of a configuration tells its compiler

A fingerprint is read back as the JSON value it was written from (`reads_fingerprint`), as long as the
configuration is UTF-8.  A value with members that may be left out tells each of them (`present_injective`), so two
configurations with one fingerprint describe one compiler (`compiler_eq_of_fingerprint_eq`).
-/

namespace FlutterLayout

open List Text Json

/-! ## Compact values -/

namespace Json

variable {items : List Json} {members : List (Text × Json)} {t : Text}

def IsReadBack (j : Json) : Prop :=
  Reads j.compact j

theorem isReadBack_string (h : isUtf8 t = true) : IsReadBack (.string t) := by
  have hread := reads_quote t
  rw [reread_of_isUtf8 h] at hread
  exact hread

theorem isReadBack_bool (b : Bool) : IsReadBack (.bool b) :=
  reads_bool b

theorem isReadBack_ofInt (i : Int) : IsReadBack (ofInt i) :=
  reads_ofInt i

theorem blanks_nil : Blanks [] :=
  fun _ h => absurd h not_mem_nil

theorem forall₂_compactItems (h : ∀ j ∈ items, IsReadBack j) : Forall₂ Reads (compactItems items) items := by
  induction items with
  | nil => exact .nil
  | cons j items ih =>
    obtain ⟨hj, hitems⟩ := forall_mem_cons.1 h
    exact .cons hj (ih hitems)

theorem isReadBack_array (h : ∀ j ∈ items, IsReadBack j) : IsReadBack (.array items) := by
  have hopening : ofString "[" = [byte '['] := by decide
  have hclosing : ofString "]" = [byte ']'] := by decide
  have hcomma : ofString "," = [byte ','] := by decide
  have hcompact : compact (.array items) =
      byte '[' :: ([] ++ (join (byte ',' :: []) (compactItems items) ++ ([] ++ [byte ']']))) := by
    rw [compact, hopening, hclosing, hcomma]
    rfl
  rw [IsReadBack, hcompact]
  exact reads_array blanks_nil blanks_nil (forall₂_compactItems h)

theorem forall₂_compactMembers (h : ∀ m ∈ members, isUtf8 m.1 = true ∧ IsReadBack m.2) :
    Forall₂ ReadsMember (compactMembers members) members := by
  have hcolon : ofString ":" = [byte ':'] := by decide
  induction members with
  | nil => exact .nil
  | cons m members ih =>
    obtain ⟨⟨hname, hvalue⟩, hmem⟩ := forall_mem_cons.1 h
    refine .cons ⟨m.1, [], m.2.compact, ?_, blanks_nil, (reread_of_isUtf8 hname).symm, hvalue⟩ (ih hmem)
    rw [compactMember, hcolon, append_assoc]
    rfl

theorem isReadBack_object (h : ∀ m ∈ members, isUtf8 m.1 = true ∧ IsReadBack m.2) : IsReadBack (.object members) := by
  have hopening : ofString "\x7b" = [0x7B] := by decide
  have hclosing : ofString "\x7d" = [0x7D] := by decide
  have hcomma : ofString "," = [byte ','] := by decide
  have hcompact : compact (.object members) =
      0x7B :: ([] ++ (join (byte ',' :: []) (compactMembers members) ++ ([] ++ [0x7D]))) := by
    rw [compact, hopening, hclosing, hcomma]
    rfl
  rw [IsReadBack, hcompact]
  exact reads_object blanks_nil blanks_nil (forall₂_compactMembers h)

/-! ## Members that may be left out -/

def present (fields : List (Text × Option Json)) : List (Text × Json) :=
  fields.flatMap fun f => (f.2.map fun j => (f.1, j)).toList

theorem exists_of_mem_present {fields : List (Text × Option Json)} {m : Text × Json} (h : m ∈ present fields) :
    (m.1, some m.2) ∈ fields := by
  obtain ⟨⟨name, value?⟩, hf, hm⟩ := mem_flatMap.1 h
  cases value? with
  | none => cases hm
  | some j =>
    obtain rfl := mem_singleton.1 hm
    exact hf

/-- Fields with different names can be told from the members that are there. -/
theorem present_injective {fields fields' : List (Text × Option Json)}
    (hnames : fields.map Prod.fst = fields'.map Prod.fst)
    (hnodup : (fields.map Prod.fst).Nodup) (h : present fields = present fields') : fields = fields' := by
  have habsent {name : Text} {j : Json} {fs : List (Text × Option Json)} {ms : List (Text × Json)}
      (hname : name ∉ fs.map Prod.fst) : present fs ≠ (name, j) :: ms := by
    intro hfs
    have hmem := exists_of_mem_present (hfs ▸ mem_cons_self : (name, j) ∈ present fs)
    exact hname (mem_map_of_mem hmem)
  induction fields generalizing fields' with
  | nil => exact (map_eq_nil_iff.1 hnames.symm).symm
  | cons f fields ih =>
    cases fields' with
    | nil => cases hnames
    | cons g fields' =>
      obtain ⟨name, value?⟩ := f
      obtain ⟨name', value'?⟩ := g
      obtain ⟨rfl, hrest⟩ := cons.inj hnames
      obtain ⟨hname, hdist⟩ := nodup_cons.1 hnodup
      change (value?.map fun j => (name, j)).toList ++ present fields =
        (value'?.map fun j => (name, j)).toList ++ present fields' at h
      cases value? with
      | none =>
        cases value'? with
        | none => rw [ih hrest hdist h]
        | some j => exact absurd h (habsent hname)
      | some j =>
        cases value'? with
        | none => exact absurd h.symm (habsent (hrest ▸ hname))
        | some j' =>
          obtain ⟨hhead, h⟩ := cons.inj h
          rw [ih hrest hdist h, (Prod.mk.inj hhead).2]

end Json

/-! ## Configurations -/

namespace Config

variable {c c' : Config} {w w' : Directive.WrapperSpec} {entries entries' : List (Text × Text)}

def entryTexts (entries : List (Text × Text)) : List Text :=
  entries.flatMap fun e => [e.1, e.2]

def wrapperTexts (w : Directive.WrapperSpec) : List Text :=
  [w.name, w.widget, w.property] ++ entryTexts w.related ++ entryTexts w.defaults

def allTexts (c : Config) : List Text :=
  [c.provider, c.indent] ++ c.arrayTypes ++ entryTexts c.contentProperties ++ entryTexts c.unnamedProperties
    ++ entryTexts c.controllerTypes ++ c.wrappers.flatMap wrapperTexts

def IsUtf8 (c : Config) : Prop :=
  ∀ t ∈ c.allTexts, isUtf8 t = true

def textValue? (t : Text) : Option Json :=
  if t.isEmpty then none else some (.string t)

def boolValue? (b : Bool) : Option Json :=
  if b then some (.bool true) else none

def priorityValue? (n : Int64) : Option Json :=
  if n = 0 then none else some (ofInt n.toInt)

def entriesValue? (entries : List (Text × Text)) : Option Json :=
  if entries.isEmpty then none else some (entriesJson entries)

def listValue? (items : List Json) : Option Json :=
  if items.isEmpty then none else some (.array items)

def wrapperFields (w : Directive.WrapperSpec) : List (Text × Option Json) :=
  [("attribute", some (.string w.name)), ("widget", some (.string w.widget)), ("property", textValue? w.property),
    ("child", boolValue? w.child), ("priority", priorityValue? w.priority), ("related", entriesValue? w.related),
    ("defaults", entriesValue? w.defaults)]

def parserFields (c : Config) : List (Text × Option Json) :=
  [("preserveComments", boolValue? c.keepComments), ("ignoreUnknownEntities", boolValue? c.ignoreUnknownEntities)]

def fields (c : Config) : List (Text × Option Json) :=
  [("pipeProvider", textValue? c.provider), ("indent", textValue? c.indent), ("fragment", boolValue? c.fragment),
    ("arrayTypes", listValue? (c.arrayTypes.map .string)), ("contentProperties", entriesValue? c.contentProperties),
    ("unnamedProperties", entriesValue? c.unnamedProperties), ("controllerTypes", entriesValue? c.controllerTypes),
    ("parser", some (.object (present c.parserFields))), ("wrappers", listValue? (c.wrappers.map wrapperJson))]

def wrapperNames : List Text :=
  ["attribute", "widget", "property", "child", "priority", "related", "defaults"]

def parserNames : List Text :=
  ["preserveComments", "ignoreUnknownEntities"]

def memberNames : List Text :=
  ["pipeProvider", "indent", "fragment", "arrayTypes", "contentProperties", "unnamedProperties", "controllerTypes",
    "parser", "wrappers"]

theorem map_fst_wrapperFields (w : Directive.WrapperSpec) : (wrapperFields w).map Prod.fst = wrapperNames := rfl

theorem map_fst_parserFields (c : Config) : c.parserFields.map Prod.fst = parserNames := rfl

theorem map_fst_fields (c : Config) : c.fields.map Prod.fst = memberNames := rfl

theorem textMember_eq (name t : Text) : textMember name t = present [(name, textValue? t)] := by
  unfold textMember textValue?
  split <;> rfl

theorem boolMember_eq (name : Text) (b : Bool) : boolMember name b = present [(name, boolValue? b)] := by
  cases b <;> rfl

theorem entriesMember_eq (name : Text) (entries : List (Text × Text)) :
    entriesMember name entries = present [(name, entriesValue? entries)] := by
  unfold entriesMember entriesValue?
  split <;> rfl

theorem listMember_eq (name : Text) (items : List Json) :
    listMember name items = present [(name, listValue? items)] := by
  unfold listMember listValue?
  split <;> rfl

theorem priorityMember_eq (name : Text) (n : Int64) :
    (if n = 0 then [] else [member name (ofInt n.toInt)]) = present [(name, priorityValue? n)] := by
  unfold priorityValue?
  split <;> rfl

theorem member_eq (name : Text) (j : Json) : [member name j] = present [(name, some j)] := rfl

theorem present_append (fs gs : List (Text × Option Json)) : present fs ++ present gs = present (fs ++ gs) :=
  flatMap_append.symm

theorem wrapperJson_eq (w : Directive.WrapperSpec) : wrapperJson w = .object (present (wrapperFields w)) := by
  have hpair (x y : Text × Json) : [x, y] = [x] ++ [y] := rfl
  unfold wrapperJson
  rw [hpair, member_eq, member_eq, textMember_eq, boolMember_eq, priorityMember_eq, entriesMember_eq, entriesMember_eq]
  simp only [present_append]
  rfl

theorem toJson_eq (c : Config) : c.toJson = .object (present c.fields) := by
  unfold toJson
  rw [textMember_eq, textMember_eq, boolMember_eq, boolMember_eq, boolMember_eq, listMember_eq, listMember_eq,
    entriesMember_eq, entriesMember_eq, entriesMember_eq, present_append, member_eq]
  simp only [present_append]
  rfl

/-! ### Reading back -/

theorem isReadBack_textValue? (ht : isUtf8 t = true) (h : textValue? t = some j) : IsReadBack j := by
  obtain ⟨-, ⟨⟩⟩ := Option.ite_none_left_eq_some.1 h
  exact isReadBack_string ht

theorem isReadBack_boolValue? (h : boolValue? b = some j) : IsReadBack j := by
  obtain ⟨-, ⟨⟩⟩ := Option.ite_none_right_eq_some.1 h
  exact isReadBack_bool true

theorem isReadBack_priorityValue? (h : priorityValue? n = some j) : IsReadBack j := by
  obtain ⟨-, ⟨⟩⟩ := Option.ite_none_left_eq_some.1 h
  exact isReadBack_ofInt _

theorem isReadBack_listValue? {items : List Json} {j : Json} (hitems : ∀ i ∈ items, IsReadBack i)
    (h : listValue? items = some j) : IsReadBack j := by
  obtain ⟨-, ⟨⟩⟩ := Option.ite_none_left_eq_some.1 h
  exact isReadBack_array hitems

theorem isReadBack_entriesValue? (hentries : ∀ t ∈ entryTexts entries, isUtf8 t = true)
    (h : entriesValue? entries = some j) : IsReadBack j := by
  obtain ⟨-, ⟨⟩⟩ := Option.ite_none_left_eq_some.1 h
  refine isReadBack_object fun m hm => ?_
  obtain ⟨e, he, rfl⟩ := mem_map.1 hm
  have htexts : ∀ t ∈ [e.1, e.2], isUtf8 t = true := fun t ht =>
    hentries t (mem_flatMap.2 ⟨e, (mergeSort_perm _ _).mem_iff.1 he, ht⟩)
  exact ⟨htexts _ (by simp), isReadBack_string (htexts _ (by simp))⟩

theorem isReadBack_present {fields : List (Text × Option Json)}
    (hnames : ∀ name ∈ fields.map Prod.fst, isUtf8 name = true)
    (h : ∀ f ∈ fields, ∀ j, f.2 = some j → IsReadBack j) : IsReadBack (.object (present fields)) := by
  refine isReadBack_object fun m hm => ?_
  have hmem := exists_of_mem_present hm
  exact ⟨hnames _ (mem_map_of_mem hmem), h _ hmem _ rfl⟩

theorem isReadBack_wrapperJson (h : ∀ t ∈ wrapperTexts w, isUtf8 t = true) : IsReadBack (wrapperJson w) := by
  rw [wrapperJson_eq]
  simp only [wrapperTexts, forall_mem_append, forall_mem_cons] at h
  obtain ⟨⟨⟨hname, hwidget, hprop, -⟩, hrel⟩, hdefs⟩ := h
  refine isReadBack_present (by rw [map_fst_wrapperFields]; decide) ?_
  simp only [wrapperFields, forall_mem_cons]
  refine ⟨?_, ?_, fun _ => isReadBack_textValue? hprop, fun _ => isReadBack_boolValue?,
    fun _ => isReadBack_priorityValue?, fun _ => isReadBack_entriesValue? hrel,
    fun _ => isReadBack_entriesValue? hdefs, by simp⟩
  · rintro _ ⟨⟩
    exact isReadBack_string hname
  · rintro _ ⟨⟩
    exact isReadBack_string hwidget

theorem isReadBack_toJson (h : c.IsUtf8) : IsReadBack c.toJson := by
  rw [toJson_eq]
  simp only [IsUtf8, allTexts, forall_mem_append, forall_mem_cons] at h
  obtain ⟨⟨⟨⟨⟨⟨hprov, hindent, -⟩, harrays⟩, hcontent⟩, hunnamed⟩, hctrls⟩, hwraps⟩ := h
  refine isReadBack_present (by rw [map_fst_fields]; decide) ?_
  simp only [fields, forall_mem_cons]
  refine ⟨fun _ => isReadBack_textValue? hprov, fun _ => isReadBack_textValue? hindent,
    fun _ => isReadBack_boolValue?, fun _ => isReadBack_listValue? ?_, fun _ => isReadBack_entriesValue? hcontent,
    fun _ => isReadBack_entriesValue? hunnamed, fun _ => isReadBack_entriesValue? hctrls, ?_,
    fun _ => isReadBack_listValue? ?_, by simp⟩
  · intro j hj
    obtain ⟨t, ht, rfl⟩ := mem_map.1 hj
    exact isReadBack_string (harrays t ht)
  · rintro _ ⟨⟩
    refine isReadBack_present (by rw [map_fst_parserFields]; decide) ?_
    simp only [parserFields, forall_mem_cons]
    exact ⟨fun _ => isReadBack_boolValue?, fun _ => isReadBack_boolValue?, by simp⟩
  · intro j hj
    obtain ⟨w, hw, rfl⟩ := mem_map.1 hj
    exact isReadBack_wrapperJson fun t ht => hwraps t (mem_flatMap.2 ⟨w, hw, ht⟩)

theorem toJson_eq_of_fingerprint_eq (hc : c.IsUtf8) (hc' : c'.IsUtf8) (h : c.fingerprint = c'.fingerprint) :
    c.toJson = c'.toJson := by
  have hread : Reads c.fingerprint c.toJson := isReadBack_toJson hc
  exact hread.unique (h ▸ isReadBack_toJson hc')

/-! ### What the members tell -/

theorem textValue?_injective (h : textValue? t = textValue? t') : t = t' := by
  unfold textValue? at h
  split at h <;> split at h <;> simp_all

theorem boolValue?_injective (h : boolValue? b = boolValue? b') : b = b' := by
  cases b <;> cases b' <;> simp_all [boolValue?]

theorem priorityValue?_injective (h : priorityValue? n = priorityValue? n') : n = n' := by
  unfold priorityValue? at h
  split at h
  · split at h
    · simp_all
    · cases h
  · split at h
    · cases h
    · exact Int64.toInt_inj.1 (ofInt_injective (number.inj (Option.some.inj h)))

theorem listValue?_injective {items items' : List Json} (h : listValue? items = listValue? items') :
    items = items' := by
  unfold listValue? at h
  split at h <;> split at h <;> simp_all

theorem byKey_eq_of_entriesValue? (h : entriesValue? entries = entriesValue? entries') :
    byKey entries = byKey entries' := by
  have hinjective : Function.Injective fun e : Text × Text => (e.1, string e.2) := by
    intro e e' he
    obtain ⟨hkey, hvalue⟩ := Prod.mk.inj he
    exact Prod.ext hkey (string.inj hvalue)
  unfold entriesValue? at h
  split at h
  · split at h
    · simp_all
    · cases h
  · split at h
    · cases h
    · exact map_injective_iff.2 hinjective (object.inj (Option.some.inj h))

theorem wrapperByKey_eq (h : wrapperJson w = wrapperJson w') : wrapperByKey w = wrapperByKey w' := by
  rw [wrapperJson_eq, wrapperJson_eq] at h
  have hfields := present_injective ((map_fst_wrapperFields w).trans (map_fst_wrapperFields w').symm)
    (by rw [map_fst_wrapperFields]; decide) (object.inj h)
  simp only [wrapperFields, cons.injEq, Prod.mk.injEq, true_and, Option.some.injEq, string.injEq, and_true]
    at hfields
  obtain ⟨hname, hwidget, hprop, hchild, hprio, hrel, hdefs⟩ := hfields
  rw [wrapperByKey, wrapperByKey, hname, hwidget, textValue?_injective hprop, boolValue?_injective hchild,
    priorityValue?_injective hprio, byKey_eq_of_entriesValue? hrel, byKey_eq_of_entriesValue? hdefs]

theorem map_wrapperByKey_eq {ws ws' : List Directive.WrapperSpec} (h : ws.map wrapperJson = ws'.map wrapperJson) :
    ws.map wrapperByKey = ws'.map wrapperByKey := by
  induction ws generalizing ws' with
  | nil => rw [map_eq_nil_iff.1 h.symm]
  | cons w ws ih =>
    cases ws' with
    | nil => cases h
    | cons w' ws' =>
      obtain ⟨hw, hws⟩ := cons.inj h
      rw [map_cons, map_cons, wrapperByKey_eq hw, ih hws]

theorem handlers_eq_of_map (c : Config) : c.handlers =
    (c.wrappers.map wrapperByKey).foldl (fun hs spec => hs.insert spec.name ⟨.wrapper spec, none⟩)
      Directive.standard := by
  rw [foldl_map]
  rfl

theorem compiler_eq_of_fingerprint_eq (hc : c.IsUtf8) (hc' : c'.IsUtf8) (h : c.fingerprint = c'.fingerprint) :
    c.compiler = c'.compiler := by
  have hjson := toJson_eq_of_fingerprint_eq hc hc' h
  rw [toJson_eq, toJson_eq] at hjson
  have hfields := present_injective ((map_fst_fields c).trans (map_fst_fields c').symm)
    (by rw [map_fst_fields]; decide) (object.inj hjson)
  simp only [fields, cons.injEq, Prod.mk.injEq, true_and, Option.some.injEq, object.injEq, and_true] at hfields
  obtain ⟨hprov, hindent, hfrag, harrays, hcontent, hunnamed, hctrls, hparser, hwraps⟩ := hfields
  have hparser := present_injective ((map_fst_parserFields c).trans (map_fst_parserFields c').symm)
    (by rw [map_fst_parserFields]; decide) hparser
  simp only [parserFields, cons.injEq, Prod.mk.injEq, true_and, and_true] at hparser
  have harrays : c.arrayTypes = c'.arrayTypes :=
    map_injective_iff.2 (fun _ _ => string.inj) (listValue?_injective harrays)
  have hhandlers : c.handlers = c'.handlers := by
    rw [handlers_eq_of_map, handlers_eq_of_map, map_wrapperByKey_eq (listValue?_injective hwraps)]
  rw [compiler, compiler, hhandlers, harrays, textValue?_injective hprov, textValue?_injective hindent,
    boolValue?_injective hfrag, byKey_eq_of_entriesValue? hcontent, byKey_eq_of_entriesValue? hunnamed,
    byKey_eq_of_entriesValue? hctrls, boolValue?_injective hparser.1, boolValue?_injective hparser.2]

end Config
end FlutterLayout
