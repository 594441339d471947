import FlutterLayout.Proofs.Markup.Tags
import FlutterLayout.Proofs.Layout.Classification

/-!
# DistinctAttributes — no element that was read carries an attribute twice

A start tag that repeats an attribute is refused (`nodup_of_readAttributes`).  The elements of a document are
nested start tags, so the condition holds of each of them, however deep (`distinct_of_read`).
-/

namespace FlutterLayout.Markup

open List
open Layout (Inside)

variable {options : ReadOptions} {seen attributes : List Attribute} {c c' : Cursor} {token : Token} {tokens : Tokens}
  {content : Content} {stack : List OpenElement} {nodes : List Node} {e e' : Element}

def Element.Distinct (e : Element) : Prop :=
  (e.attributes.map Prod.fst).Nodup

def AllDistinct (nodes : List Node) : Prop :=
  ∀ e, .element e ∈ nodes → ∀ e', Inside e e' → e'.Distinct

/-! ## Tags -/

def Token.Distinct (token : Token) : Prop :=
  ∀ name attributes closed, token = .startTag name attributes closed → (attributes.map Prod.fst).Nodup

theorem Token.distinct_of_read (h : Token.read options c = .ok (token, c')) : token.Distinct := by
  rintro name attributes closed rfl
  have hdelim : ∀ {delimiter : Text} {fault : Fault} {make : Text → Token} {c1 : Cursor},
      readDelimited delimiter fault make c1 = .ok (.startTag name attributes closed, c') →
        ∃ body, make body = .startTag name attributes closed := by
    intro delimiter fault make c1 h
    unfold readDelimited at h
    split at h
    · cases h
    · rename_i body behind _
      rw [Except.ok.injEq, Prod.mk.injEq] at h
      exact ⟨body, h.1⟩
  unfold Token.read at h
  split at h
  · unfold readEndTag at h
    dsimp only at h
    split at h <;> cases h
  split at h
  · cases (hdelim h).choose_spec
  split at h
  · cases (hdelim h).choose_spec
  split at h
  · cases (hdelim h).choose_spec
  split at h
  · split at h <;> cases h
  split at h
  · -- The one case that gives a start tag.
    unfold readStartTag at h
    dsimp only at h
    split at h
    · cases h
    split at h
    · cases h
    rename_i read behind hread
    split at h
    · cases h
    split at h
    · cases h
      exact nodup_of_readAttributes (by simp) hread
    · split at h <;> cases h
      exact nodup_of_readAttributes (by simp) hread
  · unfold readCharacters at h
    dsimp only at h
    split at h <;> cases h

inductive Tokens.Distinct : Tokens → Prop where
  | done : Tokens.Distinct .done
  | failed {failure : Failure} : Tokens.Distinct (.failed failure)
  | more {position : Position} {token : Token} {rest : Tokens} (htoken : token.Distinct) (hrest : rest.Distinct) :
      Tokens.Distinct (.more position token rest)

theorem Tokens.distinct_read (options : ReadOptions) (c : Cursor) : (Tokens.read options c).Distinct := by
  fun_induction Tokens.read options c with
  | case1 => exact .done
  | case2 => exact .failed
  | case3 c _ token behind hread ih => exact .more (Token.distinct_of_read hread) ih

/-! ## Nesting -/

theorem AllDistinct.nil : AllDistinct [] := by
  intro e he
  cases he

theorem AllDistinct.append (h : AllDistinct nodes)
    (hnode : ∀ e, node = .element e → ∀ e', Inside e e' → e'.Distinct) : AllDistinct (nodes ++ [node]) := by
  intro e he
  rcases mem_append.1 he with he | he
  · exact h e he
  · exact hnode e (mem_singleton.1 he).symm

theorem AllDistinct.element (h : AllDistinct nodes)
    (hattrs : (attributes.map Prod.fst).Nodup) (hinside : Inside ⟨name, attributes, position, nodes⟩ e') :
    e'.Distinct := by
  rcases Relation.ReflTransGen.cases_head hinside with rfl | ⟨child, hchild, hinside⟩
  · exact hattrs
  · exact h child (Layout.mem_elements.1 hchild) e' hinside

theorem AllDistinct.flush (h : AllDistinct content.nodes) : AllDistinct (content.flush preserve).nodes := by
  unfold Content.flush
  split
  · exact h
  · split
    · exact h
    · refine h.append ?_
      rintro e ⟨⟩

theorem AllDistinct.write (h : AllDistinct content.nodes) (value : Text) : AllDistinct (content.write value).nodes := h

/-- What is read inside open elements stays distinct until the last one is closed. -/
theorem distinct_of_nest (htokens : tokens.Distinct) (hcontent : AllDistinct content.nodes)
    (hstack : ∀ inner ∈ stack, (inner.attributes.map Prod.fst).Nodup ∧ AllDistinct inner.outer.nodes)
    (h : nest options tokens content stack = .ok nodes) : AllDistinct nodes := by
  induction htokens generalizing content stack with
  | done =>
    cases stack with
    | nil =>
      unfold nest at h
      cases h
      exact hcontent.flush
    | cons inner stack => cases h
  | failed => cases h
  | @more position token rest htoken _ ih =>
    unfold nest at h
    cases token with
    | comment body =>
      dsimp only at h
      split at h
      · refine ih (hcontent.flush.append ?_) hstack h
        rintro e ⟨⟩
      · exact ih hcontent hstack h
    | cdata body =>
      dsimp only at h
      split at h
      · refine ih (hcontent.flush.append ?_) hstack h
        rintro e ⟨⟩
      · exact ih (hcontent.write body) hstack h
    | instruction | doctype => exact ih hcontent hstack h
    | characters value => exact ih (hcontent.write value) hstack h
    | startTag name attributes closed =>
      have hattrs := htoken name attributes closed rfl
      dsimp only at h
      split at h
      · refine ih (hcontent.flush.append ?_) hstack h
        rintro e ⟨⟩ e' hinside
        exact AllDistinct.nil.element hattrs hinside
      · refine ih .nil ?_ h
        exact forall_mem_cons.2 ⟨⟨hattrs, hcontent.flush⟩, hstack⟩
    | endTag name nameEnd missing =>
      cases stack with
      | nil => cases h
      | cons inner stack =>
        rw [forall_mem_cons] at hstack
        dsimp only at h
        split at h
        · cases h
        · split at h
          · cases h
          · refine ih (hstack.1.2.append ?_) hstack.2 h
            rintro e ⟨⟩ e' hinside
            exact hcontent.flush.element hstack.1.1 hinside

theorem distinct_of_read (h : Document.read options filename source = .ok d)
    (hroot : d.root? = some e) (hinside : Inside e e') : e'.Distinct := by
  have hnodes : AllDistinct d.children := by
    unfold Document.read at h
    dsimp only at h
    split at h
    · cases h
    · rename_i nodes hread
      cases h
      unfold readNodes at hread
      split at hread
      · cases hread
      · rename_i hnest
        split at hread
        · cases hread
        · cases hread
          exact distinct_of_nest (Tokens.distinct_read options _) .nil (by simp) hnest
  refine hnodes e ?_ e' hinside
  unfold Document.root? at hroot
  obtain ⟨node, hnode, hmatch⟩ := exists_of_findSome?_eq_some hroot
  cases node with
  | element e1 =>
    cases hmatch
    exact hnode
  | text | comment | cdata => cases hmatch

end FlutterLayout.Markup
