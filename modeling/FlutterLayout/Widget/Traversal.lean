import FlutterLayout.Widget.Tree

/-!
# Walks over a tree

* `postOrder` lists the widgets below a root, children before parents and each once, whatever the
  references are: shared, cyclic or dangling.
* `runDeferred` performs the waiting actions in that order.
* `chain` follows wrappers down to the widget they were put around.
* `declarations` gathers what widgets declare for the enclosing class, parents first.
-/

namespace FlutterLayout.Tree

variable {α : Type}

/-! ## Post-order -/

/-- A depth-first walk: the widgets entered and, in order, those left. -/
structure Walk where
  seen : List WidgetId := []
  order : List WidgetId := []
  deriving DecidableEq, Repr

def visit (t : Tree α) : (fuel : Nat) → Walk → WidgetId → Walk
  | 0, walk, _ => walk
  | fuel + 1, walk, id =>
    if id ∈ walk.seen then walk
    else
      match t.get? id with
      | none => walk
      | some w =>
        let walk := (w.references.map Reference.id).foldl (visit t fuel)
          { walk with seen := id :: walk.seen }
        { walk with order := walk.order ++ [id] }

def postOrder (t : Tree α) (root : WidgetId) : List WidgetId :=
  (visit t (t.size + 1) {} root).order

/-! ## Waiting actions -/

def queued (t : Tree α) (id : WidgetId) : List α :=
  (t.deferred.filter fun (key, _) => key = id).map Prod.snd

def unqueue (t : Tree α) (id : WidgetId) : Tree α :=
  { t with deferred := t.deferred.filter fun (key, _) => key ≠ id }

/-- Performs the actions that wait for one widget when its turn comes, and adds them to the log. -/
def runQueue (perform : α → WidgetId → Tree α → Tree α) :
    Tree α × List (WidgetId × α) → WidgetId → Tree α × List (WidgetId × α)
  | (t, log), id =>
    ((t.queued id).foldl (fun t action => perform action id t) (t.unqueue id),
      log ++ (t.queued id).map fun action => (id, action))

/-- Performs the waiting actions of the widgets reachable from `root`, bottom-up in an order that is
fixed beforehand.  Gives the tree and the actions performed. -/
def runDeferred (perform : α → WidgetId → Tree α → Tree α) (t : Tree α) (root : WidgetId) :
    Tree α × List (WidgetId × α) :=
  (t.postOrder root).foldl (runQueue perform) (t, [])

/-! ## Wrappers -/

def chainFrom (t : Tree α) : (fuel : Nat) → WidgetId → List WidgetId
  | 0, id => [id]
  | fuel + 1, id =>
    match t.get? id with
    | some w =>
      if w.isCustom && w.wrapped ≠ WidgetId.none then id :: chainFrom t fuel w.wrapped else [id]
    | none => [id]

/-- `id` and the added wrappers below it, down to the first widget that wraps nothing. -/
def chain (t : Tree α) (id : WidgetId) : List WidgetId :=
  chainFrom t t.size id

/-! ## Declarations -/

/-- What widgets declare for the enclosing class. -/
structure Declarations where
  controllers : List Controller := []
  fields : List ClassField := []
  formControls : List FormControl := []
  deriving DecidableEq, Repr

def declarations (t : Tree α) (root : WidgetId) : Declarations :=
  let ws := (t.postOrder root).reverse.filterMap t.get?
  ⟨ws.flatMap Widget.controllers, ws.flatMap Widget.fields, ws.flatMap Widget.formControls⟩

end FlutterLayout.Tree
