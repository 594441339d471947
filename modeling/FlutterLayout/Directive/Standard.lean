import FlutterLayout.Directive.Handler

/-!
# The directives every compiler starts with
-/

namespace FlutterLayout.Directive

/-- One wrapper for each attribute of a group, each claiming the others, so that any selection of them
gives a single widget. -/
def group (widget : Text) (priority : Int64) (properties : List (Text × Text)) : List WrapperSpec :=
  properties.map fun (name, property) =>
    { name := name, widget := widget, property := property, priority := priority
      related := properties.filter fun (other, _) => other ≠ name }

def standardWrappers : List WrapperSpec :=
  [{ name := ":opacity", widget := "Opacity", property := "opacity" },
    { name := ":margin", widget := "Padding", property := "padding", priority := Priority.margin },
    { name := ":padding", widget := "Padding", property := "padding", child := true },
    { name := ":text", widget := "Text", property := "text", child := true },
    { name := ":icon", widget := "Icon", property := "icon", child := true },
    { name := ":align", widget := "Align", property := "alignment", priority := Priority.align },
    { name := ":flex", widget := "Expanded", property := "flex", priority := Priority.flex },
    { name := ":visible", widget := "Visibility", property := "visible", priority := Priority.decorator },
    { name := ":hero", widget := "Hero", property := "tag", priority := Priority.decorator },
    { name := ":aspectRatio", widget := "AspectRatio", property := "aspectRatio"
      priority := Priority.decorator }]
    ++ group "SizedBox" Priority.standard [(":height", "height"), (":width", "width")]
    ++ group "GestureDetector" Priority.gesture
      [(":onDoubleTap", "onDoubleTap"), (":onLongPress", "onLongPress"), (":onTap", "onTap")]

def alignWrapper : Handler :=
  .wrapper { widget := "Align", property := "alignment", priority := Priority.align }

def repeatName : Text := ":repeat"

/-- The attribute that shows a widget conditionally, which is also the generator of such widgets. -/
def conditionName : Text := ":if"

def conditionalName : Text := "if"

def entry (name : Text) (handler : Handler) : Text × Registration :=
  (name, ⟨handler, none⟩)

def alignEntry (name : Text) : Text × Registration :=
  (":" ++ name, ⟨alignWrapper, some ("Alignment." ++ name)⟩)

def standardEntries : List (Text × Registration) :=
  standardWrappers.map (fun spec => entry spec.name (.wrapper spec))
    ++ Literal.alignments.map alignEntry
    ++ [entry ":animation" .animation, entry ":disable" .disable, entry ":formControl" .formControl,
      entry ":controller" .controller, entry conditionName .condition, entry repeatName .repeat,
      entry ":childBuilder" .childBuilder, entry ":itemBuilder" .itemBuilder,
      entry conditionalName .conditional, entry "elseIf" .conditional, entry "else" .conditional,
      entry "builder" .builder, entry Widget.reactiveGenerator .reactive]

def standard : Handlers :=
  standardEntries.foldl (fun handlers (name, registration) => handlers.insert name registration) .empty

def standardControllerTypes : List (Text × Text) :=
  [("TextField", "TextEditingController"), ("TextFormField", "TextEditingController"),
    ("CupertinoTextField", "TextEditingController"), ("PageView", "PageController"),
    ("PageView.builder", "PageController"), ("TabBar", "TabController"), ("TabBarView", "TabController"),
    ("ListView", "ScrollController"), ("ListView.builder", "ScrollController"),
    ("ListView.separated", "ScrollController"), ("GridView", "ScrollController"),
    ("GridView.builder", "ScrollController"), ("GridView.count", "ScrollController"),
    ("SingleChildScrollView", "ScrollController"), ("CustomScrollView", "ScrollController"),
    ("Scrollbar", "ScrollController")]

end FlutterLayout.Directive
