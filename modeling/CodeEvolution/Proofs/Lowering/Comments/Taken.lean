import CodeEvolution.Proofs.Lowering.Comments.Keeping
/-!
# Comments taken for code

Handed to the rules for statements or declarations, a comment becomes a comment. Handed to the
rules for expressions or types, or taken over as a text, it is taken for code. Following the
readings of the rules through a tree gives the nodes that are taken for code in it. A rule spares
the comments that are not: if none of the nodes that its reading takes for code is deleted, and
the lowering of every node it reads keeps the code of that node, then so does the rule.
-/
namespace CodeEvolution.Lowering

open Syntax (Tree Deletion)

variable {use : Use} {rule : Rule} {reading : Reading} {t : Tree} {readings : Readings}
  {kinds : List String} {path : Path} {d : Deletion kinds} {step : Calls → Calls}

/-- A node that is not deleted where it is taken for code, and whose use keeps its code. -/
structure Use.Clean (d : Deletion kinds) (calls calls' : Calls) (use : Use) (x : Tree) : Prop where
  isKept : use.isCode = true → d.keeps x = true
  outcome : use.Agrees calls calls' (Keeps Node.Like) x (x.without d)

namespace Reading

def Clean (d : Deletion kinds) (calls calls' : Calls) (reading : Reading) (t : Tree) : Prop :=
  ∀ part ∈ reading, ∀ x ∈ part.1.select t, part.2.Clean d calls calls' x

variable {d : Deletion kinds} {calls calls' : Calls} {reading : Reading} {t : Tree}

theorem clean_cons :
    Clean d calls calls' ((path, use) :: reading) t ↔
      (∀ x ∈ path.select t, use.Clean d calls calls' x) ∧ reading.Clean d calls calls' t := by
  simp only [Clean, List.forall_mem_cons]

theorem clean_append {other : Reading} :
    Clean d calls calls' (reading ++ other) t ↔
      reading.Clean d calls calls' t ∧ other.Clean d calls calls' t :=
  List.forall_mem_append

theorem Clean.of_within (h : (reading.within path).Clean d calls calls' t) {x : Tree}
    (hx : x ∈ path.select t) : reading.Clean d calls calls' x := by
  intro part hpart y hy
  exact h (path / part.1, part.2) (List.mem_map_of_mem hpart) y (List.mem_flatMap.2 ⟨x, hx, hy⟩)

theorem Clean.isKept (h : reading.Clean d calls calls' t) : reading.IsKept d t :=
  fun part hpart hcode x hx => (h part hpart x hx).isKept hcode

end Reading

/-! ## Rules -/

/-- A tree and the tree without the deleted comments agree on the readings that are clean of
them. -/
def Hushes.agreement {d : Deletion kinds} {calls : Calls} (hhush : Hushes d calls)
    (calls' : Calls) : Agreement kinds where
  calls := calls
  calls' := calls'
  Nodes := Node.Like
  Answers := Keeps
  Uses use s t := use.Clean d calls calls' s ∧ t = s.without d
  Meets reading s t := t = s.without d ∧ reading.Clean d calls calls' s
  node := Node.like_of_children
  render_eq := Node.Like.render_eq
  answer := .answer
  bind := .bind
  outcome {use s _} h := h.2 ▸ h.1.outcome
  change h := .inr ⟨d, h.1⟩
  append := by
    simp only [Reading.clean_append]
    tauto
  use {path use s t} _ hcode := by
    simp only [Reading.clean_cons]
    refine ⟨fun ⟨hst, hclean, hnil⟩ => ⟨?_, hst, hnil⟩, fun ⟨hclean, hst, hnil⟩ => ⟨hst, ?_, hnil⟩⟩
    · rw [hst, Path.Tracks.leads d s (.inr fun x hx => (hclean x hx).isKept hcode.out),
        List.forall₂_map_right_iff, List.forall₂_same]
      exact fun x hx => ⟨hclean x hx, rfl⟩
    · exact ((List.forall₂_and_left ..).1 hclean).1
  here {_ s _} h := ⟨(Reading.clean_cons.1 h.2).1 s (List.mem_singleton_self s), h.1⟩
  own {_ _ _ s _} h htest := ⟨(Reading.clean_cons.1 h.2).1 s (by simp [Path.hereIf, htest]), h.1⟩
  within {path reading s t} hguides h := by
    have hclean {x : Tree} (hx : x ∈ path.select s) := h.2.of_within hx
    rw [h.1, hguides.leads d s (.inr fun x hx => (hclean hx).isKept), List.forall₂_map_right_iff,
      List.forall₂_same]
    exact fun x hx => ⟨rfl, hclean hx⟩
  statements {path use _ _ _ s _ _} hlist hcode h := by
    rw [h.1, Path.Lists.leads d s]
    exact keeps_statements hlist
      (fun x hx => ((Reading.clean_cons.1 h.2).1 x hx).outcome.of_isCode hcode) (hhush use hcode)
  passing {_ s _} h := by
    refine ⟨d.keeps, fun x hx => d.isComment (by simpa [Deletion.keeps] using hx), ?_⟩
    rw [h.1, Tree.without_named, List.forall₂_map_right_iff, List.forall₂_same]
    exact fun x hx => ⟨rfl, h.2.of_within (List.mem_filter.1 hx).1⟩

/-- The rule keeps the code of every node of which its reading is clean. -/
def Spares (kinds : List String) (rule : Rule) (reading : Reading) : Prop :=
  ∀ (d : Deletion kinds) (calls calls' : Calls), Hushes d calls →
    ∀ t : Tree, reading.Clean d calls calls' t →
      Keeps Node.Like (rule calls t) (rule calls' (t.without d))

/-- A rule respects its reading, and spares the comments that neither it nor a further reading
takes for code. -/
structure Handles (kinds : List String) (rule : Rule) (reading more : Reading) : Prop where
  respects : Respects rule reading
  spares : Spares kinds rule (reading ++ more)

theorem Agrees.respects (h : Agrees kinds rule reading) : Respects rule reading :=
  fun calls s t hst => h (.reformatting calls) s t hst

theorem Agrees.spares (h : Agrees kinds rule reading) : Spares kinds rule reading :=
  fun _ _ calls' hhush t hclean => h (hhush.agreement calls') t _ ⟨rfl, hclean⟩

theorem Agrees.handles {more : Reading} (h : Agrees kinds rule reading) :
    Handles kinds rule reading more where
  respects := h.respects
  spares d calls calls' hhush t hclean :=
    h.spares d calls calls' hhush t (Reading.clean_append.1 hclean).1

section Tables

variable {rules : RuleTable} {readings : List (String × Reading)} {otherwise : Rule}
  {rest : Reading} {calls calls' : Calls}

theorem RuleTable.rel_apply {s : Tree}
    (hrules : List.Forall₂ (fun rule reading => rule.1 = reading.1 ∧ Respects rule.2 reading.2)
      rules readings)
    (hother : Respects otherwise rest) (h : ((readings.lookup s.kind).getD rest).Meets calls s t) :
    Option.Rel Node.Same (rules.apply otherwise calls s) (rules.apply otherwise calls t) := by
  rw [RuleTable.apply, RuleTable.apply, ← h.1.kind_eq]
  exact RuleTable.lookup_cases hrules hother calls s t h

theorem RuleTable.keeps_apply (hhush : Hushes d calls)
    (hrules : List.Forall₂ (fun rule reading => rule.1 = reading.1 ∧ Spares kinds rule.2 reading.2)
      rules readings)
    (hother : Spares kinds otherwise rest)
    (h : ((readings.lookup t.kind).getD rest).Clean d calls calls' t) :
    Keeps Node.Like (rules.apply otherwise calls t)
      (rules.apply otherwise calls' (t.without d)) := by
  rw [RuleTable.apply, RuleTable.apply, Tree.without_kind]
  exact RuleTable.lookup_cases hrules hother d calls calls' hhush t h

end Tables

/-! ## Nodes taken for code -/

/-- The nodes that the lowering of a node takes for code, by readings followed for so many calls.
There is nothing to follow in a comment. -/
def takenFor (kinds : List String) (readings : Readings) : Nat → Use → Tree → List Tree
  | 0, use, tree => if use.isCode then [tree] else []
  | bound + 1, use, tree =>
    (if use.isCode then [tree] else []) ++
      if tree.isCommentOf kinds then []
      else (readings use tree.kind).flatMap fun part =>
        (part.1.select tree).flatMap (takenFor kinds readings bound part.2)

theorem mem_takenFor_self (h : use.isCode = true) (bound : Nat) (tree : Tree) :
    tree ∈ takenFor kinds readings bound use tree := by
  cases bound <;> simp [takenFor, h]

/-- One more call keeps the code of a node that the calls before it read cleanly, lowers comments
to comments, and reads nothing below a comment. -/
structure Sparing (kinds : List String) (step : Calls → Calls) (readings : Readings) : Prop where
  hushes {d : Deletion kinds} (calls : Calls) : Hushes d (step calls)
  keeps {d : Deletion kinds} {calls calls' : Calls} {use : Use} {t : Tree} : Hushes d calls →
    (readings use t.kind).Clean d calls calls' t →
      use.Agrees (step calls) (step calls') (Keeps Node.Like) t (t.without d)
  comment {d : Deletion kinds} {calls calls' : Calls} {use : Use} {t : Tree} :
    t.isCommentOf kinds = true →
      use.Agrees (step calls) (step calls') (Keeps Node.Like) t (t.without d)

theorem Sparing.hushes_tie (h : Sparing kinds step readings) (d : Deletion kinds) (bound : Nat) :
    Hushes d (tie step bound) := by
  cases bound with
  | zero => exact hushes_zero d step
  | succ bound => exact h.hushes _

/-- A lowering keeps the code of a node if nothing that it takes for code is deleted. -/
theorem Sparing.keeps_tie (h : Sparing kinds step readings) {bound : Nat}
    (htaken : ∀ x ∈ takenFor kinds readings bound use t, d.keeps x = true) :
    use.Agrees (tie step bound) (tie step bound) (Keeps Node.Like) t (t.without d) := by
  -- on the bound: what is taken for code in a node that is read is taken for code in this one
  induction bound generalizing use t with
  | zero => exact keeps_zero d step use t
  | succ bound ih =>
    by_cases hcomment : t.isCommentOf kinds = true
    · exact h.comment hcomment
    · rw [takenFor, if_neg hcomment] at htaken
      refine h.keeps (h.hushes_tie d bound) fun part hpart x hx => ?_
      have hbelow : ∀ y ∈ takenFor kinds readings bound part.2 x, d.keeps y = true := by
        intro y hy
        exact htaken y (List.mem_append_right _
          (List.mem_flatMap.2 ⟨part, hpart, List.mem_flatMap.2 ⟨x, hx, hy⟩⟩))
      exact ⟨fun hcode => hbelow x (mem_takenFor_self hcode bound x), ih hbelow⟩

end CodeEvolution.Lowering
