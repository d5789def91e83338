import CodeEvolution.Proofs.Lowering.Comments.Keeping
import CodeEvolution.Proofs.Lowering.PythonStatement
/-!
# Comments in Python

The rules for Python look at the named children without comments everywhere but in statement lists,
so a tree and the tree without some comments meet whatever a rule reads, and every rule keeps the
code of its node whichever comments are deleted. It follows that every call does, whatever the
bound on its chain of calls.
-/
namespace CodeEvolution.Lowering.Python

open Syntax (Tree Deletion)

variable {d : Deletion commentKinds} {calls calls' : Calls}

/-- The entry points keep code, and comments are lowered to comments. -/
structure Quiets (d : Deletion commentKinds) (calls calls' : Calls) : Prop where
  outcome (use : Use) (x : Tree) : use.Agrees calls calls' (Keeps Node.Like) x (x.without d)
  hushes : Hushes d calls

/-- A tree and the tree without the deleted comments agree on every reading. -/
def Quiets.agreement (h : Quiets d calls calls') : Agreement commentKinds where
  calls := calls
  calls' := calls'
  Nodes := Node.Like
  Answers := Keeps
  Uses _ s t := t = s.without d
  Meets _ s t := t = s.without d
  node := Node.like_of_children
  render_eq := Node.Like.render_eq
  answer := .answer
  bind := .bind
  outcome {use s _} hst := hst ▸ h.outcome use s
  change hst := .inr ⟨d, hst⟩
  append := and_self_iff.symm
  use {path use s t} _ _ := by
    refine ⟨fun hst => ⟨?_, hst⟩, And.right⟩
    rw [hst, Path.Tracks.leads d s (.inl inferInstance), List.forall₂_map_right_iff,
      List.forall₂_same]
    exact fun _ _ => rfl
  here := id
  own hst _ := hst
  within {path reading s t} hguides hst := by
    rw [hst, hguides.leads d s (.inl inferInstance), List.forall₂_map_right_iff, List.forall₂_same]
    exact fun _ _ => rfl
  statements {path use _ _ _ s _ _} hlist hcode hst := by
    rw [hst, Path.Lists.leads d s]
    exact keeps_statements hlist (fun x _ => (h.outcome use x).of_isCode hcode) (h.hushes use hcode)
  passing {_ s _} hst := by
    refine ⟨d.keeps, fun x hx => d.isComment (by simpa [Deletion.keeps] using hx), ?_⟩
    rw [hst, Tree.without_named, List.forall₂_map_right_iff, List.forall₂_same]
    exact fun _ _ => rfl

theorem statement_comment {x : Tree} (hkind : x.kind = "comment") :
    statement calls x = some (commentNode x) := by
  rw [statement, RuleTable.apply, hkind]
  rfl

theorem quiets_step (h : Quiets d calls calls') : Quiets d (step calls) (step calls') where
  outcome use x := by
    cases use with
    | expression => exact agrees_expression h.agreement rfl
    | statement => exact agrees_statement h.agreement rfl
    | typeRef => exact agrees_typeRef h.agreement x (x.without d) rfl
    | declaration => exact agrees_statement h.agreement rfl
    | source view => exact congrArg view (Tree.without_text d x).symm
  hushes use hcode x hx m hm := by
    have hkind : x.kind = "comment" := List.mem_singleton.1 (d.kind_of_drops hx)
    have hnode : some (commentNode x) = some m := by
      cases use with
      | statement => exact (statement_comment hkind).symm.trans hm
      | declaration => exact (statement_comment hkind).symm.trans hm
      | _ => cases hcode
    cases hnode
    rfl

theorem quiets_tie (d : Deletion commentKinds) (bound : Nat) :
    Quiets d (tie step bound) (tie step bound) := by
  induction bound with
  | zero => exact ⟨keeps_zero d step, hushes_zero d step⟩
  | succ bound ih => exact quiets_step ih

end CodeEvolution.Lowering.Python
