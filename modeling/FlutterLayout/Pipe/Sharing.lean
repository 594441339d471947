import FlutterLayout.Text.Word
import FlutterLayout.Widget.Tree

/-!
# Reactive builders and the sharing of subscriptions

A subscription is realised by a widget around its user: a `StreamBuilder` or `FutureBuilder` that binds
the variables of the subscription for everything below it.

A reactive builder is redundant when a builder above it has the same key: its variables are bound
already.  `share` walks down from the root with the subscriptions that are active there and takes a
redundant builder out of the slot that holds it.  A subscription ceases to be active below a place
where a name in its source is bound anew.  The builder that stays waits for data unless all builders
merged into it did without.
-/

namespace FlutterLayout.Pipe

def builder (s : Subscription) (target : WidgetId) : Widget where
  type := s.kind.widgetType
  wrapped := target
  isCustom := true
  generator := Widget.reactiveGenerator
  binds := [s.valueName, s.snapshotName]
  listens := some s

/-- Stacks one builder for each subscription around `target`, the first innermost, and gives the
outermost widget. -/
def stackBuilders {α : Type} (skipNullCheck : Bool) :
    List Subscription → WidgetId → Tree α → WidgetId × Tree α
  | [], target, t => (target, t)
  | s :: ss, target, t =>
    let (id, t) := t.add (builder { s with skipNullCheck := skipNullCheck } target)
    stackBuilders skipNullCheck ss id t

/-! ## Sharing -/

/-- A subscription that is active at some place, and the builder that carries it. -/
structure Active where
  key : Text
  source : Text
  owner : WidgetId
  deriving DecidableEq, Repr

abbrev Scope := List Active

namespace Scope

def find? (scope : Scope) (key : Text) : Option Active :=
  List.find? (fun a : Active => a.key = key) scope

def enter (scope : Scope) (s : Subscription) (owner : WidgetId) : Scope :=
  if (scope.find? s.key).isSome then scope else scope ++ [⟨s.key, s.source, owner⟩]

def leaving (binds : List Text) : Scope → Except Text.UnreadableName Scope
  | [] => .ok []
  | a :: scope =>
    match Text.mentionsAny a.source binds with
    | .error e => .error e
    | .ok mentioned =>
      match leaving binds scope with
      | .error e => .error e
      | .ok rest => .ok (if mentioned then rest else a :: rest)

end Scope

/-- A tree in which builders are being merged, and how many were removed. -/
structure Sharing (α : Type) where
  tree : Tree α
  removed : Nat

abbrev SharingM (α : Type) := ExceptT Text.UnreadableName (StateM (Sharing α))

variable {α : Type}

def mergeInto (t : Tree α) (outer : WidgetId) (s : Subscription) : Tree α :=
  t.modify outer fun w =>
    { w with listens := w.listens.map fun o => { o with skipNullCheck := o.skipNullCheck && s.skipNullCheck } }

/-- The redundant builder with id `id`: its subscription, what it wraps, and the builder above it. -/
def redundant? (t : Tree α) (scope : Scope) (id : WidgetId) : Option (Subscription × WidgetId × WidgetId) :=
  match t.get? id with
  | none => none
  | some w =>
    match w.subscription? with
    | none => none
    | some s =>
      if w.wrapped = WidgetId.none then none
      else (scope.find? s.key).map fun a => (s, w.wrapped, a.owner)

/-- Takes redundant builders out of a slot of `parent` that holds `id`, at most `fuel` of them, and
gives what the slot holds in the end. -/
def splice (scope : Scope) (parent : WidgetId) (slot : Slot) :
    (fuel : Nat) → WidgetId → Sharing α → WidgetId × Sharing α
  | 0, id, s => (id, s)
  | fuel + 1, id, s =>
    match redundant? s.tree scope id with
    | none => (id, s)
    | some (subscription, wrapped, outer) =>
      let tree := mergeInto s.tree outer subscription
      let tree := tree.modify parent fun w => w.put slot wrapped
      splice scope parent slot fuel wrapped ⟨tree, s.removed + 1⟩

def shareBelow : (fuel : Nat) → Scope → WidgetId → SharingM α Unit
  | 0, _, _ => pure ()
  | fuel + 1, scope, id => do
    match (← get).tree.get? id with
    | none => pure ()
    | some w =>
      let scope :=
        match w.subscription? with
        | some s => scope.enter s id
        | none => scope
      w.references.forM fun r => do
        let inner ← scope.leaving r.binds
        let size := (← get).tree.size
        let target ← modifyGet (splice inner id r.slot size r.id)
        shareBelow fuel inner target

/-- Merges the builders below `root`.  Gives the tree and the number of builders removed, unless a bound
name cannot be looked for. -/
def share (t : Tree α) (root : WidgetId) : Except Text.UnreadableName Nat × Tree α :=
  let (result, s) := (shareBelow (t.size + 1) [] root).run.run ⟨t, 0⟩
  (result.map fun _ => s.removed, s.tree)

end FlutterLayout.Pipe
