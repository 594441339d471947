import FlutterLayout.Layout.Item
import Mathlib.Logic.Relation

/-!
# Classification — the items of a run of siblings stand for its elements

`Item.siblings` reads nodes with the conditional that is open.  What it gives is described by
`Item.StandsFor` without that state: each item comes from elements among the nodes, with the role that their
names give them, and its content is again the content of those elements.
-/

namespace FlutterLayout.Layout

open List
open Markup (Element)

variable {e : Element} {name : Text}

/-! ## Elements -/

def Inside (e e' : Element) : Prop :=
  Relation.ReflTransGen (fun p c => c ∈ p.elements) e e'

theorem mem_elements : c ∈ e.elements ↔ .element c ∈ e.children := by
  unfold Markup.Element.elements
  rw [mem_filterMap]
  constructor
  · rintro ⟨node, hnode, hc⟩
    cases node <;> cases hc
    exact hnode
  · exact fun hc => ⟨_, hc, rfl⟩

theorem sizeOf_lt_of_mem_children (hc : .element c ∈ e.children) : sizeOf c < sizeOf e := by
  obtain ⟨name, attributes, position, children⟩ := e
  have hnode := sizeOf_lt_of_mem hc
  simp only [Markup.Element.children, Markup.Element.mk.sizeOf_spec, Markup.Node.element.sizeOf_spec] at hnode ⊢
  lia

/-! ## Items -/

def BranchesFrom (handlers : Directive.Handlers) (nodes : List Markup.Node) (branches : List Branch) : Prop :=
  ∀ isFallback e content, Branch.mk isFallback e content ∈ branches →
    .element e ∈ nodes ∧ content = Item.content handlers .detached e

/-- The item stands for elements among the nodes, which have the role it has. -/
inductive Item.StandsFor (handlers : Directive.Handlers) (owner : Text) (nodes : List Markup.Node) : Item → Prop where
  | widget {comments : List Text} {e : Element} (he : .element e ∈ nodes) :
      Item.StandsFor handlers owner nodes (.widget comments e (Item.content handlers (.widget e.name) e))
  | property {name : Text} {e : Element} (he : .element e ∈ nodes)
      (hrole : Role.ofName handlers owner e.name = .property name) :
      Item.StandsFor handlers owner nodes (.property name e (Item.content handlers .property e))
  | callback {e : Element} (he : .element e ∈ nodes) (hrole : Role.ofName handlers owner e.name = .callback) :
      Item.StandsFor handlers owner nodes (.callback e (Item.content handlers .detached e))
  | conditional {comments : List Text} {branches : List Branch} (h : BranchesFrom handlers nodes branches) :
      Item.StandsFor handlers owner nodes (.conditional comments branches)

section Elements

variable {handlers : Directive.Handlers} {place : Place} {comments : List Text} {open? : Option OpenConditional}
  {nodes all : List Markup.Node} {item : Item}

theorem Role.ofName_of_of (h : Role.of handlers owner isOpen name = role)
    (hbranch : role ≠ .branch) (hfallback : role ≠ .fallback) : Role.ofName handlers owner name = role := by
  unfold Role.of at h
  split at h
  · exact absurd h.symm hbranch
  · split at h
    · exact absurd h.symm hfallback
    · exact h

theorem standsFor_of_mem_close (hopen : ∀ c ∈ open?, BranchesFrom handlers all c.branches)
    (h : item ∈ OpenConditional.close open?) : item.StandsFor handlers place.owner all := by
  cases open? with
  | none => cases h
  | some c =>
    rw [mem_singleton.1 h]
    exact .conditional (hopen c rfl)

theorem BranchesFrom.add (hopen : ∀ c ∈ open?, BranchesFrom handlers all c.branches)
    (he : .element e ∈ all) : BranchesFrom handlers all
      (OpenConditional.add open? (.mk isFallback e (Item.content handlers .detached e))).branches := by
  intro isFallback' e' content hmem
  cases open? with
  | none =>
    cases mem_singleton.1 hmem
    exact ⟨he, rfl⟩
  | some c =>
    rcases mem_append.1 hmem with hmem | hmem
    · exact hopen c rfl isFallback' e' content hmem
    · cases mem_singleton.1 hmem
      exact ⟨he, rfl⟩

theorem standsFor_of_mem_siblings (hsub : nodes ⊆ all) (hopen : ∀ c ∈ open?, BranchesFrom handlers all c.branches)
    (h : item ∈ Item.siblings handlers place comments open? nodes) : item.StandsFor handlers place.owner all := by
  induction nodes generalizing comments open? with
  | nil =>
    unfold Item.siblings at h
    exact standsFor_of_mem_close hopen h
  | cons node nodes ih =>
    have hrest : nodes ⊆ all := fun n hn => hsub (mem_cons_of_mem _ hn)
    have hclosed : ∀ c ∈ (none : Option OpenConditional), BranchesFrom handlers all c.branches := by simp
    cases node with
    | comment | text | cdata =>
      unfold Item.siblings at h
      exact ih hrest hopen h
    | element e =>
      have he : .element e ∈ all := hsub mem_cons_self
      unfold Item.siblings at h
      dsimp only at h
      split at h
      · refine ih hrest ?_ h
        rintro c ⟨⟩
        exact BranchesFrom.add hopen he
      · rcases mem_append.1 h with h | h
        · refine standsFor_of_mem_close ?_ h
          rintro c ⟨⟩
          exact BranchesFrom.add hopen he
        · exact ih hrest hclosed h
      · rcases mem_append.1 h with h | h
        · exact standsFor_of_mem_close hopen h
        · refine ih hrest ?_ h
          rintro c ⟨⟩
          intro isFallback e' content hmem
          cases mem_singleton.1 hmem
          exact ⟨he, rfl⟩
      · rcases mem_append.1 h with h | h
        · exact standsFor_of_mem_close hopen h
        · exact ih hrest hclosed h
      · rename_i hrole
        rcases mem_append.1 h with h | h
        · exact standsFor_of_mem_close hopen h
        · rcases mem_cons.1 h with rfl | h
          · exact .callback he (Role.ofName_of_of hrole (by simp) (by simp))
          · exact ih hrest hclosed h
      · rename_i hrole
        rcases mem_append.1 h with h | h
        · exact standsFor_of_mem_close hopen h
        · rcases mem_cons.1 h with rfl | h
          · exact .property he (Role.ofName_of_of hrole (by simp) (by simp))
          · exact ih hrest hclosed h
      · rcases mem_append.1 h with h | h
        · exact standsFor_of_mem_close hopen h
        · rcases mem_cons.1 h with rfl | h
          · exact .widget he
          · exact ih hrest hclosed h

theorem standsFor_of_mem_content (h : item ∈ Item.content handlers place e) :
    item.StandsFor handlers place.owner e.children := by
  obtain ⟨name, attributes, position, children⟩ := e
  unfold Item.content at h
  exact standsFor_of_mem_siblings (.refl _) (by simp) h

end Elements

end FlutterLayout.Layout
