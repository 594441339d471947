import FlutterLayout.Dart.Emission
import FlutterLayout.Proofs.Text.Trimming

/-!
# Lines — how the code of a widget is laid out

The code of a widget is made of fixed pieces of code, strings that the widget stores, indentation and the code of
nested widgets.  A fixed piece may open brackets that another one closes, and may end a line that indentation
begins.  A `Place` is what is pending between two pieces.
-/

namespace FlutterLayout

open List Text

/-! ## Stored strings -/

def PropertyValue.strings : PropertyValue → List Text
  | text t => [t]
  | function (some f) => f.params ++ f.statements
  | _ => []

def Property.strings (p : Property) : List Text :=
  p.name :: p.condition :: p.value.strings

def Directive.LoopHeader.strings (l : LoopHeader) : List Text :=
  [l.index, l.item, l.type, l.source]

def Pipe.Subscription.strings (s : Subscription) : List Text :=
  [s.source, s.initial, s.valueName, s.snapshotName]

def Widget.strings (w : Widget) : List Text :=
  w.type :: (w.condition.toList ++ (w.loop.toList.flatMap Directive.LoopHeader.strings
    ++ (w.listens.toList.flatMap Pipe.Subscription.strings ++ w.properties.flatMap Property.strings)))

/-- The strings in a widget have `P`, and each property is emitted with its name. -/
structure Widget.Stores (P : Text → Prop) (w : Widget) : Prop where
  strings : ∀ t ∈ w.strings, P t
  named : ∀ p ∈ w.properties, p.lead? = none

def Tree.Stores {α : Type} (P : Text → Prop) (t : Tree α) : Prop :=
  ∀ w ∈ t.widgets, w.Stores P

instance {P : Text → Prop} [DecidablePred P] (w : Widget) : Decidable (w.Stores P) :=
  decidable_of_iff ((∀ t ∈ w.strings, P t) ∧ ∀ p ∈ w.properties, p.lead? = none)
    ⟨fun h => ⟨h.1, h.2⟩, fun h => ⟨h.strings, h.named⟩⟩

instance {α : Type} {P : Text → Prop} [DecidablePred P] (t : Tree α) : Decidable (t.Stores P) :=
  inferInstanceAs (Decidable (∀ w ∈ t.widgets, w.Stores P))

theorem Tree.mem_widgets_of_get? {α : Type} {t : Tree α} {id : WidgetId} {w : Widget} (h : t.get? id = some w) :
    w ∈ t.widgets := by
  unfold get? at h
  split at h
  · exact mem_of_getElem? h
  · cases h

namespace Widget.Stores

variable {P : Text → Prop} {w : Widget} {p : Property} {l : Directive.LoopHeader} {s : Pipe.Subscription} {t : Text}

theorem type (h : w.Stores P) : P w.type :=
  h.strings _ mem_cons_self

theorem condition (h : w.Stores P) (hc : w.condition = some t) : P t :=
  h.strings _ (by simp [Widget.strings, hc])

theorem loop (h : w.Stores P) (hl : w.loop = some l) (ht : t ∈ l.strings) : P t :=
  h.strings _ (by simp [Widget.strings, hl, ht])

theorem listens (h : w.Stores P) (hs : w.listens = some s) (ht : t ∈ s.strings) : P t :=
  h.strings _ (by simp [Widget.strings, hs, ht])

theorem property (h : w.Stores P) (hp : p ∈ w.properties) (ht : t ∈ p.strings) : P t := by
  refine h.strings _ ?_
  simp only [Widget.strings, mem_cons, mem_append, mem_flatMap]
  exact .inr (.inr (.inr (.inr ⟨p, hp, ht⟩)))

end Widget.Stores

namespace Dart

open Pipe (isQuote isOpening isClosing)

/-! ## Brackets and literals -/

inductive Mode where
  | code
  | literal (quote : UInt8)
  | escape (quote : UInt8)
  deriving DecidableEq, Repr

structure Reading where
  mode : Mode
  /-- The brackets that are to be closed, as the bytes that close them, the innermost first. -/
  awaited : List UInt8
  deriving DecidableEq, Repr

def closing (b : UInt8) : UInt8 :=
  if b = byte '(' then byte ')' else if b = byte '[' then byte ']' else byte '\x7d'

/-- Reads one byte; none when it is a bracket that closes another one than the innermost. -/
def Reading.step (r : Reading) (b : UInt8) : Option Reading :=
  match r.mode with
  | .code =>
    if isQuote b then some { r with mode := .literal b }
    else if isOpening b then some { r with awaited := closing b :: r.awaited }
    else if isClosing b then
      if r.awaited.head? = some b then some { r with awaited := r.awaited.tail } else none
    else some r
  | .literal quote =>
    some { r with mode := if b = backslash then .escape quote else if b = quote then .code else .literal quote }
  | .escape quote => some { r with mode := .literal quote }

def scan (r : Reading) (t : Text) : Option Reading :=
  t.foldlM Reading.step r

/-- Each literal is terminated, and outside literals brackets are properly nested. -/
def IsBalanced (t : Text) : Prop :=
  scan ⟨.code, []⟩ t = some ⟨.code, []⟩

instance (t : Text) : Decidable (IsBalanced t) :=
  inferInstanceAs (Decidable (_ = _))

/-! ## Places -/

structure Place where
  /-- The brackets that are to be closed, as the bytes that close them, the innermost first. -/
  awaited : List UInt8
  fresh : Bool

/-- Whether the text ends a line; none if one ends within it. -/
def endsLine? : Text → Option Bool
  | [] => some false
  | [b] => some (b = lineFeed)
  | b :: t => if b = lineFeed then none else endsLine? t

/-- Code at a level and the same code at the next level, from a place to a place. -/
inductive Laid {α : Type} (g : Emitter α) (P : Text → Prop) (emit : WidgetId → Nat → Text) :
    Place → Text → Text → Place → Prop where
  | nil {p : Place} : Laid g P emit p [] [] p
  | code {t : Text} {s s' : List UInt8} {fresh : Bool} (hbrackets : scan ⟨.code, s⟩ t = some ⟨.code, s'⟩)
      (hend : endsLine? t = some fresh) : Laid g P emit ⟨s, false⟩ t t ⟨s', fresh⟩
  | stored {t : Text} {s : List UInt8} (ht : P t) : Laid g P emit ⟨s, false⟩ t t ⟨s, false⟩
  | indent {s : List UInt8} {level : Nat} :
      Laid g P emit ⟨s, true⟩ (g.indent level) (g.indent (level + 1)) ⟨s, false⟩
  | nested {s : List UInt8} {id : WidgetId} {level : Nat} :
      Laid g P emit ⟨s, false⟩ (emit id level) (emit id (level + 1)) ⟨s, false⟩
  | append {p q r : Place} {x x' y y' : Text} (hx : Laid g P emit p x y q) (hx' : Laid g P emit q x' y' r) :
      Laid g P emit p (x ++ x') (y ++ y') r

def Inline {α : Type} (g : Emitter α) (P : Text → Prop) (emit : WidgetId → Nat → Text) (x y : Text) : Prop :=
  ∀ s, Laid g P emit ⟨s, false⟩ x y ⟨s, false⟩

def Block {α : Type} (g : Emitter α) (P : Text → Prop) (emit : WidgetId → Nat → Text) (x y : Text) : Prop :=
  ∀ s, Laid g P emit ⟨s, true⟩ x y ⟨s, true⟩

namespace Emitter

variable {α β : Type} {g : Emitter α} {P : Text → Prop} {emit : WidgetId → Nat → Text} {level : Nat} {x y : Text}
  {w : Widget}

theorem flatten_laid (xs : List β) (h : ∀ a ∈ xs, Laid g P emit p (f a) (f' a) p) :
    Laid g P emit p (xs.map f).flatten (xs.map f').flatten p := by
  induction xs with
  | nil => exact .nil
  | cons a xs ih =>
    rw [forall_mem_cons] at h
    exact .append h.1 (ih h.2)

theorem flatten_block (xs : List β) (h : ∀ a ∈ xs, Block g P emit (f a) (f' a)) :
    Block g P emit (xs.map f).flatten (xs.map f').flatten :=
  fun s => flatten_laid xs fun a ha => h a ha s

theorem join_inline (hsep : Inline g P emit sep sep') (xs : List β) (h : ∀ a ∈ xs, Inline g P emit (f a) (f' a)) :
    Inline g P emit (join sep (xs.map f)) (join sep' (xs.map f')) := by
  induction xs with
  | nil => exact fun s => .nil
  | cons a xs ih =>
    rw [forall_mem_cons] at h
    cases xs with
    | nil => exact fun s => .append (h.1 s) .nil
    | cons b xs => exact fun s => .append (h.1 s) (.append (hsep s) (ih h.2 s))

theorem line_block (h : Inline g P emit x y) : Block g P emit (g.line level x) (g.line (level + 1) y) :=
  fun s => .append (.append .indent (h s)) (.code rfl rfl)

/-! ## Values -/

theorem items_inline (ids : List WidgetId) :
    Inline g P emit (g.items emit level ids) (g.items emit (level + 1) ids) := by
  intro s
  simp only [items, append_assoc]
  refine .append (.code rfl rfl) <| .append (flatten_block ids (fun id _ => ?_) _) <| .append .indent (.code rfl rfl)
  exact line_block fun s => .append .nested (.code rfl rfl)

theorem list_inline (ids : List WidgetId) : Inline g P emit (g.list emit level ids) (g.list emit (level + 1) ids) := by
  unfold list
  split
  · exact fun s => .code rfl rfl
  · exact items_inline ids

theorem typedList_inline (ids : List WidgetId) :
    Inline g P emit (g.typedList emit level ids) (g.typedList emit (level + 1) ids) :=
  fun s => .append (.code rfl rfl) (list_inline ids s)

theorem emptyWidget_inline : Inline g P emit emptyWidget emptyWidget :=
  fun _ => .code rfl rfl

theorem returned_inline (body : List WidgetId) :
    Inline g P emit (g.returned emit level body) (g.returned emit (level + 1) body) := by
  unfold returned
  split
  · exact emptyWidget_inline
  · split
    · exact typedList_inline _
    · exact fun s => .nested
  · exact typedList_inline _

theorem function_inline (hparams : ∀ t ∈ f.params, P t) (hstatements : ∀ t ∈ f.statements, P t) :
    Inline g P emit (g.function emit level (some f)) (g.function emit (level + 1) (some f)) := by
  intro s
  have hjoin : Inline g P emit (join ", " (f.params.map id)) (join ", " (f.params.map id)) :=
    join_inline (fun s => .code rfl rfl) f.params fun t ht s => .stored (hparams t ht)
  rw [map_id] at hjoin
  simp only [function, append_assoc]
  refine .append (.code rfl rfl) <| .append (hjoin _) <| .append (.code rfl rfl) <|
    .append (flatten_block _ (fun t ht => line_block fun s => .stored (hstatements t ht)) _) <|
    .append (line_block (fun s => ?_) _) <| .append .indent (.code rfl rfl)
  exact .append (.code rfl rfl) (.append (returned_inline f.body s) (.code rfl rfl))

theorem value_inline (h : ∀ t ∈ v.strings, P t) :
    Inline g P emit (g.value emit level v) (g.value emit (level + 1) v) := by
  cases v with
  | text t => exact fun s => .stored (h t mem_cons_self)
  | widget | fragment => exact fun s => .nested
  | widgets ids => exact list_inline ids
  | unknown => exact fun s => .nil
  | function f =>
    cases f with
    | none => exact fun s => .code rfl rfl
    | some f =>
      exact function_inline (fun t ht => h t (mem_append_left _ ht))
        fun t ht => h t (mem_append_right _ ht)

/-! ## Plain widgets -/

/-- A property that the widget has or that stands for its wrapped child. -/
theorem mem_properties (h : p ∈ properties w) : p ∈ w.properties ∨ p = .ofWidget childProperty w.wrapped := by
  rw [properties, mem_mergeSort, mem_append] at h
  rcases h with hshown | hwrap
  · exact .inl ((mem_filter.1 hshown).1)
  · split at hwrap
    · exact .inr (mem_singleton.1 hwrap)
    · cases hwrap

theorem value_inline_of_mem (hw : w.Stores P) (hp : p ∈ properties w) :
    Inline g P emit (g.value emit level p.value) (g.value emit (level + 1) p.value) := by
  rcases mem_properties hp with hmem | rfl
  · exact value_inline fun t ht => hw.property hmem (mem_cons_of_mem _ (mem_cons_of_mem _ ht))
  · exact fun s => .nested

theorem argument_inline (hw : w.Stores P) (hp : p ∈ properties w) :
    Inline g P emit (g.argument emit level p) (g.argument emit (level + 1) p) := by
  have hlead : p.lead? = none := by
    rcases mem_properties hp with hmem | rfl
    · exact hw.named p hmem
    · rfl
  have hname : Inline g P emit p.name p.name := by
    rcases mem_properties hp with hmem | rfl
    · exact fun s => .stored (hw.property hmem mem_cons_self)
    · exact fun s => .code rfl rfl
  unfold argument
  simp only [hlead]
  split
  · exact value_inline_of_mem hw hp
  · exact fun s => .append (.append (hname s) (.code rfl rfl)) (value_inline_of_mem hw hp s)

theorem construction_inline (hw : w.Stores P) :
    Inline g P emit (g.construction emit level w) (g.construction emit (level + 1) w) := by
  intro s
  unfold construction
  split
  · exact .append (.stored hw.type) (.code rfl rfl)
  · simp only [append_assoc]
    refine .append (.stored hw.type) <| .append (.code rfl rfl) <| .append (flatten_block _ (fun p hp => ?_) _) <|
      .append .indent (.code rfl rfl)
    exact line_block fun s => .append (argument_inline hw hp s) (.code rfl rfl)

theorem fragment_inline (hw : w.Stores P) :
    Inline g P emit (g.fragment emit level w) (g.fragment emit (level + 1) w) := by
  have hjoin : Inline g P emit (join (",\n" ++ g.indent level) ((properties w).map (g.argument emit level)))
      (join (",\n" ++ g.indent (level + 1)) ((properties w).map (g.argument emit (level + 1)))) :=
    join_inline (fun s => .append (.code rfl rfl) .indent) _ fun p hp => argument_inline hw hp
  unfold fragment
  dsimp only
  split
  · rename_i p hone
    split
    · exact value_inline_of_mem hw (hone ▸ mem_cons_self)
    · exact hjoin
  · exact hjoin

/-! ## Widgets of directives -/

theorem declaration_inline {l : Directive.LoopHeader} (hl : ∀ t ∈ l.strings, P t) :
    Inline g P emit l.declaration l.declaration := by
  simp only [Directive.LoopHeader.strings, forall_mem_cons] at hl
  obtain ⟨hindex, hitem, htype, hsource, -⟩ := hl
  intro s
  have htyped : Laid g P emit ⟨s, false⟩ (if l.type.isEmpty then l.item else l.type ++ " " ++ l.item)
      (if l.type.isEmpty then l.item else l.type ++ " " ++ l.item) ⟨s, false⟩ := by
    split
    · exact .stored hitem
    · exact .append (.append (.stored htype) (.code rfl rfl)) (.stored hitem)
  simp only [Directive.LoopHeader.declaration, append_assoc] at htyped ⊢
  exact .append (.code rfl rfl) <| .append htyped <| .append (.code rfl rfl) <| .append (.stored hsource) <|
    .append (.code rfl rfl) <| .append (.stored hindex) (.code rfl rfl)

theorem generation_inline {l : Directive.LoopHeader} (hl : ∀ t ∈ l.strings, P t) (body : List WidgetId) :
    Inline g P emit (g.generation emit level l body) (g.generation emit (level + 1) l body) := by
  have hdecl : Inline g P emit l.declaration l.declaration := declaration_inline hl
  simp only [Directive.LoopHeader.strings, forall_mem_cons] at hl
  obtain ⟨hindex, -, -, hsource, -⟩ := hl
  intro s
  unfold generation
  simp only [append_assoc]
  split
  · exact .append (.code rfl rfl) <| .append (.code rfl rfl) <| .append (.stored hsource) <|
      .append (.code rfl rfl) <| .append (.stored hindex) <| .append (.code rfl rfl) <| .append .indent <|
      .append (hdecl _) <| .append (.code rfl rfl) <| .append .indent <| .append (.code rfl rfl) <|
      .append .nested <| .append (.code rfl rfl) <| .append .indent (.code rfl rfl)
  · exact .append (.code rfl rfl) <| .append (.code rfl rfl) <| .append (.stored hsource) <|
      .append (.code rfl rfl) <| .append (.stored hindex) <| .append (.code rfl rfl) <| .append .indent <|
      .append (hdecl _) <| .append (.code rfl rfl) <| .append .indent <| .append (.code rfl rfl) <|
      .append (typedList_inline body _) <| .append (.code rfl rfl) <| .append .indent <|
      .append (.code rfl rfl) (.code rfl rfl)

theorem loop_inline (hl : ∀ t ∈ l.strings, P t) :
    Inline g P emit (g.loop emit level l w) (g.loop emit (level + 1) l w) := by
  unfold loop
  dsimp only
  split
  · exact fun s => .append (.code rfl rfl) (generation_inline hl _ s)
  · exact generation_inline hl _

theorem branchValue_inline (isSequence : Bool) (ids : List WidgetId) :
    Inline g P emit (g.branchValue emit level isSequence ids) (g.branchValue emit (level + 1) isSequence ids) := by
  unfold branchValue
  split
  · exact typedList_inline ids
  · split
    · exact emptyWidget_inline
    · exact fun s => .nested

theorem branches_block (hw : w.Stores P) :
    Block g P emit (g.branches emit level w) (g.branches emit (level + 1) w) := by
  intro s
  unfold branches
  split
  · exact .nil
  · simp only [append_assoc]
    refine .append .indent <| .append (join_inline (fun s => .code rfl rfl) _ (fun p hp s => ?_) _) (.code rfl rfl)
    have hcond : P p.condition := hw.property (mem_filter.1 hp).1 (mem_cons_of_mem _ mem_cons_self)
    simp only [branch, append_assoc]
    exact .append (.code rfl rfl) <| .append (.stored hcond) <| .append (.code rfl rfl) <| .append .indent <|
      .append (.code rfl rfl) <| .append (branchValue_inline _ _ _) <| .append (.code rfl rfl) <|
      .append .indent (.code rfl rfl)

theorem fallback_inline : Inline g P emit (g.fallback emit level w) (g.fallback emit (level + 1) w) := by
  unfold fallback
  split
  · exact branchValue_inline _ _
  · split
    · exact fun s => .code rfl rfl
    · exact emptyWidget_inline

theorem conditional_inline (hw : w.Stores P) :
    Inline g P emit (g.conditional emit level w) (g.conditional emit (level + 1) w) := by
  intro s
  unfold conditional
  simp only [append_assoc]
  split
  · exact .append (.code rfl rfl) <| .append (branches_block hw _) <| .append .indent <| .append (.code rfl rfl) <|
      .append (fallback_inline _) <| .append (.code rfl rfl) <| .append .indent (.code rfl rfl)
  · exact .append (.code rfl rfl) <| .append .indent <| .append (.code rfl rfl) <| .append (branches_block hw _) <|
      .append .indent <| .append (.code rfl rfl) <| .append (fallback_inline _) <| .append (.code rfl rfl) <|
      .append .indent <| .append (.code rfl rfl) <| .append .indent (.code rfl rfl)

theorem reactive_inline (hw : w.Stores P) (hr : ∀ t ∈ r.strings, P t) :
    Inline g P emit (g.reactive emit level r w) (g.reactive emit (level + 1) r w) := by
  simp only [Pipe.Subscription.strings, forall_mem_cons] at hr
  obtain ⟨hsource, hinitial, hvalue, hsnap, -⟩ := hr
  intro s
  unfold reactive
  simp only [append_assoc]
  refine .append (.stored hw.type) <| .append (.code rfl rfl) <| .append (q := ⟨byte ')' :: s, true⟩) ?_ <|
    .append .indent <| .append (q := ⟨byte ')' :: s, false⟩) ?_ <| .append (.code rfl rfl) <|
    .append (.stored hsource) <| .append (.code rfl rfl) <|
    .append .indent <| .append (.code rfl rfl) <| .append (.stored hsnap) <| .append (.code rfl rfl) <|
    .append .indent <| .append (.code rfl rfl) <| .append (.stored hvalue) <| .append (.code rfl rfl) <|
    .append (.stored hsnap) <| .append (.code rfl rfl) <|
    .append (q := ⟨byte '\x7d' :: byte ')' :: s, true⟩) ?_ <| .append .indent <| .append (.code rfl rfl) <|
    .append .nested <| .append (.code rfl rfl) <| .append .indent <| .append (.code rfl rfl) <|
    .append .indent (.code rfl rfl)
  · split
    · exact .nil
    · exact .append .indent <| .append (.code rfl rfl) <| .append (.stored hinitial) (.code rfl rfl)
  · split <;> exact .code rfl rfl
  · split
    · exact .nil
    · exact .append .indent <| .append (.code rfl rfl) <| .append (.stored hvalue) <| .append (.code rfl rfl) <|
        .append .indent <| .append (.code rfl rfl) <| .append (emptyWidget_inline _) <| .append (.code rfl rfl) <|
        .append .indent (.code rfl rfl)

/-! ## Widgets -/

theorem comment_inline (h : ∀ line ∈ Text.splitOn lineFeed c, P (trim line)) :
    Inline g P emit (g.comment level c) (g.comment (level + 1) c) := by
  intro s
  -- a comment begins within a line and ends behind the indentation of the next one
  refine flatten_laid _ fun line hline => ?_
  simp only [append_assoc]
  exact .append (.code rfl rfl) <| .append (.stored (h line hline)) <| .append (.code rfl rfl) .indent

theorem directed_inline (handler : Directive.Handler) (hw : w.Stores P) :
    Inline g P emit ((g.directed? emit level handler w).getD [])
      ((g.directed? emit (level + 1) handler w).getD []) := by
  intro s
  unfold directed?
  split
  · cases hr : w.subscription? with
    | none => exact .nil
    | some r =>
      have hlistens : w.listens = some r := by
        unfold Widget.subscription? at hr
        split at hr
        · exact hr
        · cases hr
      exact reactive_inline hw (fun t ht => hw.listens hlistens ht) s
  · cases hl : w.loop with
    | none => exact .nil
    | some l => exact loop_inline (fun t ht => hw.loop hl ht) s
  · split
    · exact conditional_inline hw s
    · exact .nil
  · split
    · simp only [Option.getD_some, append_assoc]
      refine .append (q := ⟨s, false⟩) ?_ <| .append (.code rfl rfl) <| .append .nested <|
        .append (.code rfl rfl) (emptyWidget_inline _)
      cases hc : w.condition with
      | none => exact .nil
      | some t => exact .stored (hw.condition hc)
    · exact .nil
  · exact .nil

/-- The code of a widget without its comments begins and ends at the same place. -/
theorem body_inline (hw : w.Stores P) : Inline g P emit (g.body emit level w) (g.body emit (level + 1) w) := by
  unfold body
  split
  · split
    · exact fragment_inline hw
    · exact construction_inline hw
  · split
    · exact directed_inline _ hw
    · exact fun s => .nil

end Emitter

end Dart
end FlutterLayout
