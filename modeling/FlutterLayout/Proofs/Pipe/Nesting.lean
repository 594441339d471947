import FlutterLayout.Pipe.Mark
import FlutterLayout.Proofs.Text.Trimming

/-!
# Nesting — texts whose quotes and brackets are balanced

`Nests inside outside t` says that every literal in `t` ends, that every bracket is closed by one of its
own kind, and that certain bytes do not stand outside literals: those of `outside` at depth zero, those of
`inside` within brackets.  Bars are counted by themselves only: two or more in a row are no pipes and may
stand anywhere.
-/

namespace FlutterLayout.Pipe

open List Lexical
open Text (IsBlanks Strips)

variable {inside outside : List UInt8} {t u r : Text} {b c : UInt8} {d : Nat} {ms : List Mark}

/-! ## Balanced texts -/

def isOrdinary (b : UInt8) : Bool :=
  !isQuote b && !isOpening b && !isClosing b

def brackets : List (UInt8 × UInt8) :=
  [(0x28, 0x29), (0x5B, 0x5D), (0x7B, 0x7D)]

/-- What may stand between two quotes: a backslash takes the byte behind it along. -/
inductive LiteralBody (quote : UInt8) : Text → Prop where
  | nil : LiteralBody quote []
  | byte {b : UInt8} {t : Text} (hquote : b ≠ quote) (hescape : b ≠ Text.backslash) (ht : LiteralBody quote t) :
      LiteralBody quote (b :: t)
  | escape {b : UInt8} {t : Text} (ht : LiteralBody quote t) : LiteralBody quote (Text.backslash :: b :: t)

theorem LiteralBody.of_forall (h : ∀ b ∈ t, b ≠ quote ∧ b ≠ Text.backslash) : LiteralBody quote t := by
  induction t with
  | nil => exact .nil
  | cons b t ih =>
    obtain ⟨⟨hquote, hescape⟩, ht⟩ := forall_mem_cons.1 h
    exact .byte hquote hescape (ih ht)

/-- Quotes and brackets are balanced; outside literals there is no byte of `outside` at depth zero and none
of `inside` within brackets, bars in a row excepted. -/
inductive Nests (inside : List UInt8) : (outside : List UInt8) → Text → Prop where
  | nil {outside : List UInt8} : Nests inside outside []
  | byte {outside : List UInt8} {b : UInt8} {t : Text} (hb : isOrdinary b = true) (hout : b ∉ outside)
      (ht : Nests inside outside t) : Nests inside outside (b :: t)
  | bars {outside : List UInt8} {n : Nat} {t : Text} (ht : Nests inside outside t) :
      Nests inside outside (replicate (n + 2) bar ++ t)
  | literal {outside : List UInt8} {quote : UInt8} {body t : Text} (hquote : isQuote quote = true)
      (hbody : LiteralBody quote body) (ht : Nests inside outside t) :
      Nests inside outside (quote :: (body ++ quote :: t))
  | bracket {outside : List UInt8} {left right : UInt8} {body t : Text} (hpair : (left, right) ∈ brackets)
      (hbody : Nests inside inside body) (ht : Nests inside outside t) :
      Nests inside outside (left :: (body ++ right :: t))

namespace Nests

theorem append (ht : Nests inside outside t) (hu : Nests inside outside u) : Nests inside outside (t ++ u) := by
  induction ht with
  | nil => exact hu
  | byte hb hout _ ih => exact .byte hb hout (ih hu)
  | bars _ ih =>
    rw [append_assoc]
    exact .bars (ih hu)
  | literal hquote hbody _ ih =>
    rw [cons_append, append_assoc]
    exact .literal hquote hbody (ih hu)
  | bracket hpair hbody _ _ ih =>
    rw [cons_append, append_assoc]
    exact .bracket hpair hbody (ih hu)

theorem weaken (h : Nests inside outside t) (hin : inside' ⊆ inside)
    (hout : outside' ⊆ outside) : Nests inside' outside' t := by
  induction h generalizing outside' with
  | nil => exact .nil
  | byte hb hb' _ ih => exact .byte hb (fun hmem => hb' (hout hmem)) (ih hout)
  | bars _ ih => exact .bars (ih hout)
  | literal hquote hbody _ ih => exact .literal hquote hbody (ih hout)
  | bracket hpair _ _ ihbody ih => exact .bracket hpair (ihbody hin) (ih hout)

theorem of_bytes (h : ∀ b ∈ t, isOrdinary b = true ∧ b ∉ outside) : Nests inside outside t := by
  induction t with
  | nil => exact .nil
  | cons b t ih =>
    obtain ⟨hb, hout⟩ := h b mem_cons_self
    exact .byte hb hout (ih fun b' hb' => h b' (mem_cons_of_mem _ hb'))

theorem of_cons (h : Nests inside outside (b :: t)) (hb : isOrdinary b = true) (hbar : b ≠ bar) :
    Nests inside outside t := by
  generalize hs : b :: t = s at h
  cases h with
  | nil => cases hs
  | byte _ _ ht =>
    cases hs
    exact ht
  | bars _ =>
    rw [replicate_succ, cons_append] at hs
    exact absurd (cons.inj hs).1 hbar
  | literal hquote _ _ =>
    obtain ⟨rfl, -⟩ := cons.inj hs
    simp [isOrdinary, hquote] at hb
  | bracket hpair _ _ =>
    obtain ⟨rfl, -⟩ := cons.inj hs
    have hleft : ∀ p ∈ brackets, isOrdinary p.1 = false := by decide
    rw [hleft _ hpair] at hb
    cases hb

theorem exists_of_concat_eq_append {front tail : Text} (hlast : front.getLast? ≠ some b)
    (h : t ++ [b] = front ++ tail) : ∃ tail', tail = tail' ++ [b] ∧ t = front ++ tail' := by
  rcases eq_nil_or_concat' tail with rfl | ⟨tail, x, rfl⟩
  · exact absurd (by rw [← append_nil front, ← h, getLast?_concat]) hlast
  · obtain ⟨rfl, hx⟩ := append_inj' (h.trans (append_assoc ..).symm) rfl
    exact ⟨tail, by rw [hx], rfl⟩

theorem of_concat (h : Nests inside outside (t ++ [b])) (hb : isOrdinary b = true) (hbar : b ≠ bar) :
    Nests inside outside t := by
  generalize hs : t ++ [b] = s at h
  induction h generalizing t with
  | nil => simp at hs
  | byte hx hout _ ih =>
    rename_i x tail _
    rcases eq_nil_or_concat' tail with rfl | ⟨tail, y, rfl⟩
    · obtain rfl : t = [] := by simpa using congrArg length hs
      exact .nil
    · obtain ⟨rfl, hy⟩ := append_inj' (hs.trans (cons_append).symm) rfl
      exact .byte hx hout (ih (by rw [hy]))
  | bars _ ih =>
    rename_i n tail _
    have hlast : (replicate (n + 2) bar).getLast? ≠ some b := by
      simpa [replicate_succ'] using hbar.symm
    obtain ⟨tail', rfl, rfl⟩ := exists_of_concat_eq_append hlast hs
    exact .bars (ih rfl)
  | literal hquote hbody _ ih =>
    rename_i quote body tail _
    have hlast : (quote :: body ++ [quote]).getLast? ≠ some b := by
      rw [getLast?_concat]
      rintro ⟨⟩
      simp [isOrdinary, hquote] at hb
    obtain ⟨tail', rfl, rfl⟩ := exists_of_concat_eq_append hlast (by simpa using hs)
    simpa using literal hquote hbody (ih rfl)
  | bracket hpair hbody _ _ ih =>
    rename_i left right body tail _ _
    have hlast : (left :: body ++ [right]).getLast? ≠ some b := by
      rw [getLast?_concat]
      rintro ⟨⟩
      have hright : ∀ p ∈ brackets, isOrdinary p.2 = false := by decide
      rw [hright _ hpair] at hb
      cases hb
    obtain ⟨tail', rfl, rfl⟩ := exists_of_concat_eq_append hlast (by simpa using hs)
    simpa using bracket hpair hbody (ih rfl)

end Nests

/-! ## Blanks -/

theorem isOrdinary_of_mem_blanks : ∀ b ∈ Text.blanks.flatten, isOrdinary b = true ∧ b ≠ bar := by
  decide +kernel

theorem nests_of_isBlanks (ht : IsBlanks t) (h : ∀ c ∈ outside, c ∉ Text.blanks.flatten) : Nests inside outside t :=
  .of_bytes fun b hb =>
    ⟨(isOrdinary_of_mem_blanks b (ht.mem_flatten hb)).1, fun hout => h b hout (ht.mem_flatten hb)⟩

theorem Nests.of_strips (h : Nests inside outside t) (hstrips : Strips t u) : Nests inside outside u := by
  obtain ⟨x, y, hx, hy, rfl⟩ := hstrips
  have hleft : ∀ {x : Text}, (∀ b ∈ x, isOrdinary b = true ∧ b ≠ bar) → Nests inside outside (x ++ (u ++ y)) →
      Nests inside outside (u ++ y) := by
    intro x hx h
    induction x with
    | nil => exact h
    | cons b x ih =>
      obtain ⟨hb, hbar⟩ := hx b mem_cons_self
      exact ih (fun b' hb' => hx b' (mem_cons_of_mem _ hb')) (h.of_cons hb hbar)
  have hright : ∀ {y : Text}, (∀ b ∈ y, isOrdinary b = true ∧ b ≠ bar) → Nests inside outside (u ++ y) →
      Nests inside outside u := by
    intro y hy h
    induction y using reverseRecOn with
    | nil => simpa using h
    | append_singleton y b ih =>
      obtain ⟨hb, hbar⟩ := hy b (by simp)
      refine ih (fun b' hb' => hy b' (by simp [hb'])) ?_
      exact of_concat (by simpa using h) hb hbar
  rw [append_assoc] at h
  exact hright (fun b hb => isOrdinary_of_mem_blanks b (hy.mem_flatten hb))
    (hleft (fun b hb => isOrdinary_of_mem_blanks b (hx.mem_flatten hb)) h)

/-! ## Marks -/

/-- The byte in front of what follows `t`, where `previous` stands in front of `t`. -/
def lastByte (previous : Option UInt8) : Text → Option UInt8
  | [] => previous
  | b :: t => lastByte (some b) t

@[simp] theorem lastByte_append (previous : Option UInt8) (t u : Text) :
    lastByte previous (t ++ u) = lastByte (lastByte previous t) u := by
  induction t generalizing previous with
  | nil => rfl
  | cons b t ih => exact ih (some b)

/-- The marks of `t` where it is read at depth `d`: nothing in it lies less deep, and none of the bytes of
`outside` lies there by itself. -/
structure Spans (outside : List UInt8) (d : Nat) (t : Text) (ms : List Mark) : Prop where
  bytes : ms.map Mark.byte = t
  depth : ∀ m ∈ ms, ∀ k, m.depth? = some k → d ≤ k
  outside : ∀ m ∈ ms, m.depth? = some d → isOrdinary m.byte = true → m.byte ∈ outside → m.byte = bar

theorem Spans.append (ht : Spans outside d t ms) (hu : Spans outside d u ns) : Spans outside d (t ++ u) (ms ++ ns) where
  bytes := by rw [map_append, ht.bytes, hu.bytes]
  depth m hm := (mem_append.1 hm).elim (ht.depth m) (hu.depth m)
  outside m hm := (mem_append.1 hm).elim (ht.outside m) (hu.outside m)

theorem Spans.deep (h : Spans outside (d + 1) t ms) : ∀ m ∈ ms, m.depth? ≠ some d :=
  fun m hm hd => Nat.not_succ_le_self d (h.depth m hm d hd)

theorem Spans.of_deeper (h : Spans outside' (d + 1) t ms) : Spans outside d t ms where
  bytes := h.bytes
  depth m hm k hk := Nat.le_of_succ_le (h.depth m hm k hk)
  outside m hm hd := absurd hd (h.deep m hm)

theorem spans_of_literal (hbytes : ms.map Mark.byte = t) (hnone : ∀ m ∈ ms, m.depth? = none) :
    Spans outside d t ms where
  bytes := hbytes
  depth m hm k hk := by simp [hnone m hm] at hk
  outside m hm hd := by simp [hnone m hm] at hd

theorem spans_singleton (h : isOrdinary b = true → b ∈ outside → b = bar) :
    Spans outside d [b] [⟨b, some d, isPipe⟩] where
  bytes := rfl
  depth m hm k hk := by
    obtain rfl := mem_singleton.1 hm
    exact (Option.some.inj hk).le
  outside m hm _ := by
    obtain rfl := mem_singleton.1 hm
    exact h

theorem marksFrom_ordinary (hb : isOrdinary b = true) (d : Nat) (previous : Option UInt8) (r : Text) :
    marksFrom (.code d) previous (b :: r) =
      ⟨b, some d, b = bar && previous ≠ some bar && r.head? ≠ some bar⟩ :: marksFrom (.code d) (some b) r := by
  obtain ⟨⟨hquote, hopen⟩, hclose⟩ : (isQuote b = false ∧ isOpening b = false) ∧ isClosing b = false := by
    simpa [isOrdinary] using hb
  simp [marksFrom, depthOf?, step, hquote, hopen, hclose]

theorem parentheses_mem : (Text.byte '(', Text.byte ')') ∈ brackets := by
  decide

theorem marksFrom_opening (hpair : (left, right) ∈ brackets) (d : Nat) (previous : Option UInt8) (r : Text) :
    marksFrom (.code d) previous (left :: r) = ⟨left, some d, false⟩ :: marksFrom (.code (d + 1)) (some left) r := by
  have hleft : ∀ p ∈ brackets, isQuote p.1 = false ∧ isClosing p.1 = false ∧ isOpening p.1 = true ∧ p.1 ≠ bar := by
    decide
  obtain ⟨hquote, hclose, hopen, hbar⟩ := hleft _ hpair
  simp [marksFrom, depthOf?, step, hquote, hopen, hclose, hbar]

theorem marksFrom_closing (hpair : (left, right) ∈ brackets) (d : Nat) (previous : Option UInt8) (r : Text) :
    marksFrom (.code (d + 1)) previous (right :: r) = ⟨right, some d, false⟩ :: marksFrom (.code d) (some right) r := by
  have hright : ∀ p ∈ brackets, isQuote p.2 = false ∧ isClosing p.2 = true ∧ p.2 ≠ bar := by
    decide
  obtain ⟨hquote, hclose, hbar⟩ := hright _ hpair
  simp [marksFrom, depthOf?, step, hquote, hclose, hbar]

theorem marksFrom_bars (n d : Nat) (r : Text) : marksFrom (.code d) (some bar) (replicate n bar ++ r) =
      replicate n ⟨bar, some d, false⟩ ++ marksFrom (.code d) (some bar) r := by
  induction n with
  | zero => rfl
  | succ n ih =>
    rw [replicate_succ, cons_append, marksFrom_ordinary (by decide), ih, replicate_succ]
    simp

theorem lastByte_bars (n : Nat) : lastByte (some bar) (replicate n bar) = some bar := by
  induction n with
  | zero => rfl
  | succ n ih => exact ih

theorem marksFrom_literal (hquote : isQuote quote = true)
    (hbody : LiteralBody quote body) (d : Nat) (previous : Option UInt8) (r : Text) :
    ∃ ms, marksFrom (.literal quote d) previous (body ++ quote :: r) = ms ++ marksFrom (.code d) (some quote) r ∧
      ms.map Mark.byte = body ++ [quote] ∧ ∀ m ∈ ms, m.depth? = none ∧ m.isPipe = false := by
  have hescape : quote ≠ Text.backslash := by
    rintro rfl
    exact absurd hquote (by decide)
  induction hbody generalizing previous with
  | nil => exact ⟨[⟨quote, none, false⟩], by simp [marksFrom, depthOf?, step, hescape], rfl, by simp⟩
  | byte hb hb' _ ih =>
    rename_i x body _
    obtain ⟨ms, hms, hbytes, hnone⟩ := ih (some x)
    refine ⟨⟨x, none, false⟩ :: ms, ?_, by simp [hbytes], by simpa using hnone⟩
    simp [marksFrom, depthOf?, step, hb, hb', hms]
  | escape _ ih =>
    rename_i x body _
    obtain ⟨ms, hms, hbytes, hnone⟩ := ih (some x)
    refine ⟨⟨Text.backslash, none, false⟩ :: ⟨x, none, false⟩ :: ms, ?_, by simp [hbytes], by simpa using hnone⟩
    simp [marksFrom, depthOf?, step, hms]

theorem marksFrom_quoted (hquote : isQuote quote = true) (hbody : LiteralBody quote body) (d : Nat)
    (previous : Option UInt8) (r : Text) :
    ∃ ms, marksFrom (.code d) previous (quote :: (body ++ quote :: r)) = ms ++ marksFrom (.code d) (some quote) r ∧
      ms.map Mark.byte = quote :: (body ++ [quote]) ∧ ∀ m ∈ ms, m.depth? = none ∧ m.isPipe = false := by
  have hbar : quote ≠ bar := by
    rintro rfl
    exact absurd hquote (by decide)
  obtain ⟨ms, hms, hbytes, hnone⟩ := marksFrom_literal hquote hbody d (some quote) r
  refine ⟨⟨quote, none, false⟩ :: ms, ?_, by rw [map_cons, hbytes], forall_mem_cons.2 ⟨⟨rfl, rfl⟩, hnone⟩⟩
  rw [marksFrom, cons_append, ← hms]
  simp [depthOf?, step, hquote]

/-- A balanced text is read in the same way wherever it stands, and leaves the reader where it was. -/
theorem Nests.marksFrom (h : Nests inside outside t) (d : Nat) (previous : Option UInt8) (r : Text) :
    ∃ ms, marksFrom (.code d) previous (t ++ r) = ms ++ marksFrom (.code d) (lastByte previous t) r ∧
      Spans outside d t ms ∧ (bar ∈ inside → bar ∈ outside → ∀ m ∈ ms, m.isPipe = false) := by
  induction h generalizing d previous r with
  | nil => exact ⟨[], rfl, ⟨rfl, by simp, by simp⟩, by simp⟩
  | byte hb hout _ ih =>
    rename_i b t _
    obtain ⟨ms, hms, hspan, hpipe⟩ := ih d (some b) r
    refine ⟨_ :: ms, by rw [cons_append, marksFrom_ordinary hb, hms]; rfl,
      (spans_singleton fun _ hmem => absurd hmem hout).append hspan, fun hin hbar => ?_⟩
    have hne : b ≠ bar := fun heq => hout (heq ▸ hbar)
    simpa [hne] using hpipe hin hbar
  | bars _ ih =>
    rename_i outside n t _
    obtain ⟨ms, hms, hspan, hpipe⟩ := ih d (some bar) r
    have hbars : Spans outside d (replicate (n + 2) bar) (replicate (n + 2) ⟨bar, some d, false⟩) := by
      constructor
      · simp
      · simp
      · simp
    refine ⟨replicate (n + 2) ⟨bar, some d, false⟩ ++ ms, ?_, hbars.append hspan, fun hin hbar m hm => ?_⟩
    · -- only the first bar of the row could be a pipe, and another one follows
      rw [append_assoc, replicate_succ, cons_append, marksFrom_ordinary (by decide),
        marksFrom_bars, hms, lastByte_append]
      simp [lastByte, lastByte_bars, replicate_succ]
    · rcases mem_append.1 hm with hm | hm
      · rw [(mem_replicate.1 hm).2]
      · exact hpipe hin hbar m hm
  | literal hquote hbody _ ih =>
    rename_i outside quote body t _
    obtain ⟨ms, hms, hspan, hpipe⟩ := ih d (some quote) r
    obtain ⟨ls, hls, hbytes, hnone⟩ := marksFrom_quoted hquote hbody d previous (t ++ r)
    have hlit : Spans outside d (quote :: (body ++ [quote])) ls :=
      spans_of_literal hbytes fun m hm => (hnone m hm).1
    refine ⟨ls ++ ms, ?_, by simpa using hlit.append hspan, fun hin hbar m hm => ?_⟩
    · rw [cons_append, append_assoc, cons_append, hls, hms]
      simp [lastByte]
    · exact (mem_append.1 hm).elim (fun hm => (hnone m hm).2) (hpipe hin hbar m)
  | bracket hpair _ _ ihbody ih =>
    rename_i outside left right body t _ _
    obtain ⟨ms, hms, hspan, hpipe⟩ := ih d (some right) r
    obtain ⟨bs, hbs, hinner, hquiet⟩ := ihbody (d + 1) (some left) (right :: (t ++ r))
    have hends : ∀ p ∈ brackets, isOrdinary p.1 = false ∧ isOrdinary p.2 = false := by decide
    have hleft : Spans outside d [left] [⟨left, some d, false⟩] :=
      spans_singleton fun hord => by simp [(hends _ hpair).1] at hord
    have hright : Spans outside d [right] [⟨right, some d, false⟩] :=
      spans_singleton fun hord => by simp [(hends _ hpair).2] at hord
    refine ⟨[⟨left, some d, false⟩] ++ bs ++ [⟨right, some d, false⟩] ++ ms, ?_,
      by simpa using ((hleft.append hinner.of_deeper).append hright).append hspan, fun hin hbar m hm => ?_⟩
    · rw [cons_append, append_assoc, cons_append, marksFrom_opening hpair, hbs, marksFrom_closing hpair, hms]
      simp [lastByte]
    · simp only [mem_append, mem_singleton] at hm
      rcases hm with ((rfl | hm) | rfl) | hm
      · rfl
      · exact hquiet hin hin m hm
      · rfl
      · exact hpipe hin hbar m hm

end FlutterLayout.Pipe
