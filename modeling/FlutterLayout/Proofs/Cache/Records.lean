import FlutterLayout.Cache.Basic
import FlutterLayout.Proofs.Files.Places
import FlutterLayout.Proofs.Json.Reading

/-!
# Records — keys, the index and the places of outputs

A key tells the inputs it was made from, as far as the digest does (`sha256_keyText_eq_of_key_eq`,
`keyText_injective`).  An index in which no entry is missing is read back as one (`isWhole_of_readIndex?`).  Each
output stands at a place of its own in the directory of the cache (`placeOf_outputPath`), and not where the index
stands.
-/

namespace FlutterLayout

open List Text Json

/-! ## Keys -/

namespace Digest

theorem hexDigit_injective : ∀ m < 16, ∀ n < 16, hexDigit m = hexDigit n → m = n := by
  decide

theorem hexNumeral_two (n : Nat) : hexNumeral 2 n = [hexDigit (n / 16 % 16), hexDigit (n % 16)] := rfl

theorem hex_injective (h : hex t = hex t') : t = t' := by
  induction t generalizing t' with
  | nil =>
    cases t' with
    | nil => rfl
    | cons b t' => cases h
  | cons a t ih =>
    cases t' with
    | nil => cases h
    | cons b t' =>
      simp only [hex, flatMap_cons, hexNumeral_two, cons_append, nil_append, cons.injEq] at h
      obtain ⟨hhigh, hlow, hrest⟩ := h
      have hhigh := hexDigit_injective _ (Nat.mod_lt _ (by decide)) _ (Nat.mod_lt _ (by decide)) hhigh
      have hlow := hexDigit_injective _ (Nat.mod_lt _ (by decide)) _ (Nat.mod_lt _ (by decide)) hlow
      have ha := a.toNat_lt
      have hb := b.toNat_lt
      have hbyte : a.toNat = b.toNat := by omega
      rw [UInt8.toNat_inj.1 hbyte, ih hrest]

theorem ne_slash_of_mem_hex (h : b ∈ hex t) : b ≠ Path.slash := by
  have hdigit : ∀ n < 16, hexDigit n ≠ Path.slash := by decide
  obtain ⟨a, -, hb⟩ := mem_flatMap.1 h
  rw [hexNumeral_two, mem_cons, mem_singleton] at hb
  rcases hb with rfl | rfl <;> exact hdigit _ (Nat.mod_lt _ (by decide))

end Digest

namespace Cache

variable {inputs inputs' : List Text} {index : Index}

theorem colon_notMem_ofNat (n : Nat) : byte ':' ∉ ofNat n := fun h =>
  absurd (isAsciiDigit_of_mem_ofNat h) (by decide)

theorem keyText_injective (h : keyText inputs = keyText inputs') : inputs = inputs' := by
  have hcolon : ofString ":" = [byte ':'] := by decide
  have hframed (x rest : Text) : framed x ++ rest = ofNat x.length ++ byte ':' :: (x ++ rest) := by
    rw [framed, hcolon]
    simp
  have hne (x rest : Text) : framed x ++ rest ≠ [] := by
    rw [hframed]
    simp
  induction inputs generalizing inputs' with
  | nil =>
    cases inputs' with
    | nil => rfl
    | cons y inputs' => exact absurd h.symm (hne y _)
  | cons x inputs ih =>
    cases inputs' with
    | nil => exact absurd h (hne x _)
    | cons y inputs' =>
      change framed x ++ keyText inputs = framed y ++ keyText inputs' at h
      rw [hframed, hframed] at h
      have hlength : ofNat x.length = ofNat y.length := by
        have hsplit := congrArg (Text.splitOn (byte ':')) h
        rw [splitOn_append_cons, splitOn_append_cons, splitOn_of_notMem (colon_notMem_ofNat _),
          splitOn_of_notMem (colon_notMem_ofNat _)] at hsplit
        exact (cons.inj hsplit).1
      rw [hlength] at h
      have htail := (cons.inj (append_cancel_left h)).2
      obtain ⟨rfl, hrest⟩ := append_inj htail (ofNat_injective hlength)
      rw [ih hrest]

theorem sha256_keyText_eq_of_key_eq (h : key inputs = key inputs') :
    Digest.sha256 (keyText inputs) = Digest.sha256 (keyText inputs') :=
  Digest.hex_injective h

/-! ## Places -/

/-- The output of a key stands in the directory of the cache, under its own name. -/
theorem placeOf_outputPath (directory : Text) (inputs : List Text) :
    Files.placeOf (outputPath directory (key inputs)) = Files.placeOf directory ++ [key inputs ++ ".dart"] :=
  Files.placeOf_join (Path.isName_dart fun h => Digest.ne_slash_of_mem_hex h rfl)

theorem placeOf_indexPath (directory : Text) :
    Files.placeOf (indexPath directory) = Files.placeOf directory ++ [indexName] :=
  Files.placeOf_join ⟨⟨by decide, by decide⟩, by decide, by decide⟩

theorem indexName_ne_output (key : Text) : indexName ≠ key ++ ".dart" := by
  intro h
  have hlast := congrArg getLast? h
  rw [getLast?_append_of_ne_nil _ (by decide)] at hlast
  exact absurd hlast (by decide)

/-! ## The index -/

def IsWhole (index : Index) : Prop :=
  ∀ x ∈ index, x.2.isSome = true

theorem blanks_repeated (n : Nat) : Blanks (repeated n "  ") := by
  intro b hb
  obtain ⟨t, ht, hb⟩ := mem_flatten.1 hb
  obtain rfl := (mem_replicate.1 ht).2
  have hall : ∀ b ∈ ofString "  ", isBlank b = true := by decide
  exact hall b hb

theorem reads_enclosed (level : Nat) (h : Forall₂ ReadsMember ts ms) :
    Reads (enclosed "\x7b" "\x7d" level ts) (.object ms) := by
  have hopening : ofString "\x7b" = [0x7B] := by decide
  have hclosing : ofString "\x7d" = [0x7D] := by decide
  have hcomma : ofString ",\n" = [byte ',', lineFeed] := by decide
  have hfeed : ofString "\n" = [lineFeed] := by decide
  have hline (n : Nat) : Blanks (lineFeed :: repeated n "  ") := by
    exact forall_mem_cons.2 ⟨(by decide), blanks_repeated n⟩
  unfold enclosed
  split
  · rename_i hempty
    rw [isEmpty_iff.1 hempty] at h
    exact reads_object (fun _ hb => absurd hb not_mem_nil) (fun _ hb => absurd hb not_mem_nil) h
  · have hread := reads_object (hline (level + 1)) (hline level) h
    rw [hopening, hclosing, hcomma, hfeed]
    simpa using hread

theorem readsMember_indented (name : Text) (level : Nat) (h : Reads (j.indentedAt level) j') :
    ReadsMember (indentedMember level (name, j)) (reread name, j') := by
  have hcolon : ofString ": " = [byte ':', space] := by decide
  refine ⟨name, [space], j.indentedAt level, ?_, ?_, rfl, h⟩
  · rw [indentedMember, hcolon, append_assoc]
    rfl
  · intro b hb
    rw [mem_singleton.1 hb]
    decide

theorem reads_entry (e : Entry) (level : Nat) : ∃ ms, Reads (e.toJson.indentedAt level) (.object ms) := by
  have hstring (name t : Text) :
      ReadsMember (indentedMember (level + 1) (name, .string t)) (reread name, .string (reread t)) :=
    readsMember_indented name _ (by rw [Json.indentedAt]; exact reads_quote t)
  have hsize : ReadsMember (indentedMember (level + 1) ("size", .ofInt e.size))
      (reread "size", .ofInt e.size) :=
    readsMember_indented "size" _ (by rw [Json.ofInt, Json.indentedAt]; exact Json.reads_ofInt e.size)
  exact ⟨_, reads_enclosed level (.cons (hstring _ _) (.cons (hstring _ _) (.cons hsize (.cons (hstring _ _)
    (.cons (hstring _ _) .nil)))))⟩

theorem indentedMembers_eq (level : Nat) (ms : List (Text × Json)) :
    indentedMembers level ms = ms.map (indentedMember level) := by
  induction ms with
  | nil => rfl
  | cons m ms ih => rw [indentedMembers, ih, map_cons]

theorem reads_index (h : IsWhole index) :
    ∃ ms, Reads (Index.toJson index).indented (.object ms) ∧ ∀ m ∈ ms, ∃ ms', m.2 = .object ms' := by
  have hsorted : ∀ x ∈ index.mergeSort fun x y => le x.1 y.1, x.2.isSome = true := fun x hx =>
    h x ((mergeSort_perm _ _).mem_iff.1 hx)
  suffices hmem : ∀ xs : Index, (∀ x ∈ xs, x.2.isSome = true) → ∃ ms, Forall₂ ReadsMember
          ((xs.map fun x => (x.1, (x.2.map Entry.toJson).getD .null)).map (indentedMember 1)) ms ∧
        ∀ m ∈ ms, ∃ ms', m.2 = .object ms' by
    obtain ⟨ms, hreads, hobjs⟩ := hmem _ hsorted
    refine ⟨ms, ?_, hobjs⟩
    rw [indented, Index.toJson, indentedAt, indentedMembers_eq]
    exact reads_enclosed 0 hreads
  intro xs hxs
  induction xs with
  | nil => exact ⟨[], .nil, fun _ hm => absurd hm not_mem_nil⟩
  | cons x xs ih =>
    obtain ⟨hx, hrest⟩ := forall_mem_cons.1 hxs
    obtain ⟨ms, hreads, hobjs⟩ := ih hrest
    obtain ⟨e, he⟩ := Option.isSome_iff_exists.1 hx
    obtain ⟨ms', hentry⟩ := reads_entry e 1
    refine ⟨(reread x.1, .object ms') :: ms, .cons ?_ hreads, ?_⟩
    · dsimp only
      rw [he]
      exact readsMember_indented x.1 1 hentry
    · exact forall_mem_cons.2 ⟨⟨ms', rfl⟩, hobjs⟩

theorem isWhole_put (h : IsWhole index) (key : Text) (e : Entry) : IsWhole (index.put key (some e)) := by
  intro x hx
  unfold Index.put at hx
  split at hx
  · obtain ⟨y, hy, rfl⟩ := mem_map.1 hx
    split
    · rfl
    · exact h y hy
  · rcases mem_append.1 hx with hx | hx
    · exact h x hx
    · rw [mem_singleton.1 hx]
      rfl

theorem isWhole_drop (h : IsWhole index) (key : Text) : IsWhole (index.drop key) :=
  fun x hx => h x (mem_filter.1 hx).1

/-- What is read from the text of a whole index is a whole index, if it is an index at all. -/
theorem isWhole_of_readIndex? (h : IsWhole index)
    (hread : readIndex? (writeIndex (some index)) = some r) : ∃ index', r = some index' ∧ IsWhole index' := by
  obtain ⟨ms, hreads, hobjs⟩ := reads_index h
  obtain ⟨j, htext, hread⟩ := Option.bind_eq_some_iff.1 hread
  rw [eq_of_read? hreads htext, indexFrom?] at hread
  obtain ⟨index', hfold, rfl⟩ := Option.map_eq_some_iff.1 hread
  refine ⟨index', rfl, ?_⟩
  suffices hinvariant : ∀ (ms : List (Text × Json)) (start : Index),
      IsWhole start → (∀ m ∈ ms, ∃ ms', m.2 = .object ms') →
      ms.foldlM (fun index m => (entryFrom? m.2).map fun e => Index.put index m.1 e) start = some index' →
        IsWhole index' from
    hinvariant ms [] (forall_mem_nil _) hobjs hfold
  intro ms
  induction ms with
  | nil =>
    intro start hstart _ hfold
    cases hfold
    exact hstart
  | cons m ms ih =>
    intro start hstart hobjs hfold
    obtain ⟨⟨ms', hm⟩, hrest⟩ := forall_mem_cons.1 hobjs
    rw [foldlM_cons, hm] at hfold
    obtain ⟨next, hnext, hfold⟩ := Option.bind_eq_some_iff.1 hfold
    obtain ⟨e?, he, rfl⟩ := Option.map_eq_some_iff.1 hnext
    obtain ⟨e, -, rfl⟩ := Option.map_eq_some_iff.1 he
    exact ih _ (isWhole_put hstart m.1 e) hrest hfold

end Cache
end FlutterLayout
