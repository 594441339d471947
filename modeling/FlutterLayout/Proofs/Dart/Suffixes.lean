import FlutterLayout.Dart.Emission
import FlutterLayout.Proofs.Layout.LoopContent

/-!
# Suffixes — what a suffix that is written behind a source applies to

A suffix such as `.length` binds tighter than every operator, which the syntax trees have by construction: only an
`Operand` has suffixes.  So a suffix behind an expression is one of its last operand (`exists_attach_of_tokens`), and
of the whole expression exactly when it has no operator.
-/

namespace FlutterLayout.Dart

open List
open Directive (LoopHeader)

/-! ## Expressions -/

/-- An expression in tokens; the text of an operator has the blanks around it. -/
inductive Token where
  | primary (t : Text)
  | suffix (t : Text)
  | operator (t : Text)

def Token.text : Token → Text
  | .primary t | .suffix t | .operator t => t

inductive Operand where
  | primary (t : Text)
  | suffixed (x : Operand) (s : Text)

inductive Expr where
  | operand (x : Operand)
  | unary (op : Text) (e : Expr)
  | binary (op : Text) (l r : Expr)
  | conditional (ask colon : Text) (condition yes no : Expr)

def Operand.tokens : Operand → List Token
  | .primary t => [.primary t]
  | .suffixed x s => x.tokens ++ [.suffix s]

namespace Expr

def tokens : Expr → List Token
  | .operand x => x.tokens
  | .unary op e => .operator op :: e.tokens
  | .binary op l r => l.tokens ++ .operator op :: r.tokens
  | .conditional ask colon condition yes no =>
    condition.tokens ++ .operator ask :: (yes.tokens ++ .operator colon :: no.tokens)

def text (e : Expr) : Text :=
  e.tokens.flatMap Token.text

/-- The expression with a suffix at its last operand. -/
def attach (s : Text) : Expr → Expr
  | .operand x => .operand (.suffixed x s)
  | .unary op e => .unary op (e.attach s)
  | .binary op l r => .binary op l (r.attach s)
  | .conditional ask colon condition yes no => .conditional ask colon condition yes (no.attach s)

variable {e source : Expr} {s : Text} {ts : List Token}

theorem tokens_attach (s : Text) (e : Expr) : (e.attach s).tokens = e.tokens ++ [.suffix s] := by
  induction e with
  | operand x => rfl
  | unary op e ih => simp [attach, tokens, ih]
  | binary op l r _ ih => simp [attach, tokens, ih]
  | conditional ask colon condition yes no _ _ ih => simp [attach, tokens, ih]

theorem text_attach (s : Text) (e : Expr) : (e.attach s).text = e.text ++ s := by
  simp [text, tokens_attach, Token.text]

theorem tokens_ne_nil (e : Expr) : e.tokens ≠ [] := by
  cases e with
  | operand x => cases x <;> simp [tokens, Operand.tokens]
  | _ => simp [tokens]

/-- However the tokens are read, the suffix at their end is one of the last operand. -/
theorem exists_attach_of_tokens (h : e.tokens = ts ++ [.suffix s]) :
    ∃ e0 : Expr, e = e0.attach s ∧ e0.tokens = ts := by
  have hlast : ∀ {front : List Token} {op : Text} {e : Expr},
      (front ++ .operator op :: e.tokens).getLast? = e.tokens.getLast? := by
    intro front op e
    obtain ⟨token, rest, htokens⟩ := exists_cons_of_ne_nil (tokens_ne_nil e)
    rw [htokens, getLast?_append_cons, getLast?_cons_cons]
  suffices hattach : e.tokens.getLast? = some (.suffix s) → ∃ e0, e = attach s e0 by
    obtain ⟨e0, rfl⟩ := hattach (by rw [h, getLast?_concat])
    rw [tokens_attach] at h
    exact ⟨e0, rfl, append_cancel_right h⟩
  clear h
  induction e with
  | operand x =>
    intro h
    cases x with
    | primary t => cases h
    | suffixed x s' =>
      rw [tokens, Operand.tokens, getLast?_concat] at h
      cases h
      exact ⟨.operand x, rfl⟩
  | unary op e ih =>
    intro h
    obtain ⟨e0, rfl⟩ := ih ((@hlast [] op e).symm.trans h)
    exact ⟨.unary op e0, rfl⟩
  | binary op l r _ ih =>
    intro h
    obtain ⟨e0, rfl⟩ := ih (hlast.symm.trans h)
    exact ⟨.binary op l e0, rfl⟩
  | conditional ask colon condition yes no _ _ ih =>
    intro h
    rw [tokens, ← cons_append, ← append_assoc] at h
    obtain ⟨e0, rfl⟩ := ih (hlast.symm.trans h)
    exact ⟨.conditional ask colon condition yes e0, rfl⟩

theorem exists_operand_iff : (∃ x, e = .operand x) ↔ ∀ op, .operator op ∉ e.tokens := by
  constructor
  · rintro ⟨x, rfl⟩ op
    induction x with
    | primary t => simp [tokens, Operand.tokens]
    | suffixed x s ih => simpa [tokens, Operand.tokens] using ih
  · intro h
    cases e with
    | operand x => exact ⟨x, rfl⟩
    | unary op e => exact absurd mem_cons_self (h op)
    | binary op l r => exact absurd (mem_append_right _ mem_cons_self) (h op)
    | conditional ask colon condition yes no => exact absurd (mem_append_right _ mem_cons_self) (h ask)

/-- A suffix behind a source applies to all of it exactly when the source has no operator. -/
theorem exists_suffixed_iff (h : e.tokens = source.tokens ++ [.suffix s]) :
    (∃ x, e = .operand (.suffixed x s)) ↔ ∃ x, source = .operand x := by
  obtain ⟨e0, rfl, htokens⟩ := exists_attach_of_tokens h
  rw [exists_operand_iff, ← htokens, ← exists_operand_iff]
  constructor
  · rintro ⟨x, hx⟩
    cases e0 with
    | operand y => exact ⟨y, rfl⟩
    | _ => cases hx
  · rintro ⟨x, rfl⟩
    exact ⟨x, rfl⟩

end Expr

/-! ## Emitted suffixes -/

open Layout

/-- Where a loop or a subscription over the source is emitted, the suffix is at the last operand of the source. -/
structure EmitsAttached (source : Expr) : Prop where
  declaration : ∀ {l : LoopHeader}, l.source = source.text →
    ∃ front : Text, l.declaration = front ++ " = " ++ (source.attach ("[" ++ l.index ++ "]")).text ++ ";"
  generation : ∀ {α : Type} (g : Emitter α) (emit : WidgetId → Nat → Text) (level : Nat) {l : LoopHeader}
    (body : List WidgetId), l.source = source.text → ∃ type rest : Text,
      g.generation emit level l body = type ++ ".generate(" ++ (source.attach ".length").text ++ ", (int " ++ rest
  itemBuilder : ∀ {o : Options} {b b₁ : Build} {target : Target} {input : Input} {ss : List Pipe.Subscription}
    {outer : WidgetId}, (Build.resolveValue o [] (LoopHeader.readLoose input.value).source target).run b
      = .ok ((⟨source.text, ss⟩, outer), b₁) →
    ∃ b' f, (Attribute.itemBuilder o input target).run b = .ok (.wrapped outer, b') ∧
      f.statements = [{ LoopHeader.readLoose input.value with source := source.text }.declaration] ∧
      b'.tree = b₁.tree.modify target.inner fun w => (dropContent (w.set
        (.ofExpression "itemCount" ⟨(source.attach ".length").text, ss⟩))).set (.ofFunction "itemBuilder" f ss)
  callback : ∀ {o : Options} {b b₁ : Build} {target : Target} {e : Markup.Element} {l : LoopHeader}
    {ss : List Pipe.Subscription} {outer : WidgetId}, callbackLoop? e = some l →
    (Build.resolveValue o [] l.source target).run b = .ok ((⟨source.text, ss⟩, outer), b₁) →
    ∃ head, (callbackHead o e target).run b = .ok ((head, outer), b₁) ∧
      head.literal.statements = [{ l with source := source.text }.declaration] ∧
      head.itemCount? = some (source.attach ".length").text
  initial : ∀ stem : Text,
    (Pipe.Subscription.make .behavior source.text stem).initial = (source.attach ".value").text

theorem emitsAttached (source : Expr) : EmitsAttached source where
  declaration {l} hsource := by
    have hbracket : Text.ofString "];" = "]" ++ ";" := by decide
    rw [Expr.text_attach, ← hsource, LoopHeader.declaration, hbracket]
    exact ⟨"final " ++ if l.type.isEmpty then l.item else l.type ++ " " ++ l.item, by simp only [append_assoc]⟩
  generation g emit level l body hsource := by
    have hcomma : Text.ofString ".length, (int " = ".length" ++ ", (int " := by decide
    rw [Expr.text_attach, ← hsource]
    unfold Emitter.generation
    dsimp only
    rw [hcomma]
    split <;> simp only [append_assoc] <;> exact ⟨_, _, rfl⟩
  itemBuilder hsource := by
    unfold Attribute.itemBuilder
    dsimp only
    rw [run_bind_of_run hsource, Expr.text_attach]
    refine ⟨_, _, rfl, ?_, (congrArg (Tree.modify · _ _) (Tree.modify_modify ..)).trans (Tree.modify_modify ..)⟩
    rfl
  callback hl hsource := by
    unfold callbackHead
    rw [hl]
    dsimp only
    rw [run_bind_of_run hsource, Expr.text_attach]
    exact ⟨_, rfl, rfl, rfl⟩
  initial _ := (Expr.text_attach _ source).symm

/-- A suffix that is emitted behind a source applies to its last operand, however the tokens are read; that is the
whole source exactly when it has no operator. -/
theorem suffix_applies (source : Expr) : EmitsAttached source ∧
    ∀ s : Text, (source.attach s).tokens = source.tokens ++ [.suffix s] ∧
      ∀ e : Expr, e.tokens = source.tokens ++ [.suffix s] →
        (∃ e₀ : Expr, e = e₀.attach s ∧ e₀.tokens = source.tokens) ∧
        ((∃ x, e = .operand (.suffixed x s)) ↔ ∃ x, source = .operand x) :=
  ⟨emitsAttached source, fun s => ⟨Expr.tokens_attach s source,
    fun _ h => ⟨Expr.exists_attach_of_tokens h, Expr.exists_suffixed_iff h⟩⟩⟩

def fallbackList : Expr :=
  .binary " ?? " (.operand (.primary "a")) (.operand (.primary "b"))

/-- The item of a loop over `a ?? b` is not an item of `a ?? b`. -/
theorem exists_suffix_inside :
    (LoopHeader.readLoose "x of a ?? b").source = fallbackList.text ∧
    (LoopHeader.readLoose "x of a ?? b").declaration = "final x = " ++ fallbackList.text ++ "[index];" ∧
    ∀ e : Expr, e.tokens = fallbackList.tokens ++ [.suffix "[index]"] →
      ¬ ∃ x, e = .operand (.suffixed x "[index]") := by
  refine ⟨by decide +kernel, by decide +kernel, fun e he hwhole => ?_⟩
  obtain ⟨x, hx⟩ := (Expr.exists_suffixed_iff he).1 hwhole
  cases hx

end FlutterLayout.Dart
