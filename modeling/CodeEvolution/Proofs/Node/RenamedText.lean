import CodeEvolution.Proofs.Node.Renaming
/-!
# The text of a node after a variable was renamed

A name is printed as it is, and what is printed beside a child starts or ends with a character of no
word. So where a variable is renamed in a node, its text has the new name in some places of the old
one and is the same otherwise. Only the operator of a unary expression is printed right beside its
operand and must itself keep apart from it.
-/
namespace CodeEvolution

open Text (Exchanged beginsApart endsApart beginsApart_append endsApart_append)

/-- The operator of a unary expression does not run into its operand. -/
def NodeKind.isSpaced : NodeKind → Bool
  | .unary operator true => operator.toList.any Text.isAlphabetic || endsApart operator
  | .unary operator false => beginsApart operator
  | _ => true

namespace Node

section Pieces

variable {r : Renaming} (children : List Node) {texts texts' : List String}
  (h : List.Forall₂ (Exchanged r.old r.new) texts texts') (f : String → String) (index : Nat)

theorem name_exchanged (r : Renaming) (name : String) :
    Exchanged r.old r.new name (r.name name) := by
  unfold Renaming.name
  split
  · subst name
    exact .name
  · exact .copy name

theorem getD_exchanged {slot slot' : Option String}
    (hslot : Option.Rel (Exchanged r.old r.new) slot slot') :
    Exchanged r.old r.new (slot.getD "") (slot'.getD "") := by
  cases hslot with
  | none => exact .copy ""
  | some hs => exact hs

theorem member_exchanged {s s' : String} (hs : Exchanged r.old r.new s s') (name : String) :
    Exchanged r.old r.new (s ++ "." ++ name) (s' ++ "." ++ name) := by
  rw [String.append_assoc, String.append_assoc]
  exact hs.before _ (beginsApart_append (by decide) name)

include h

theorem presentText?_exchanged :
    (presentText? children texts index = none ∧
        presentText? (children.map (rename f)) texts' index = none) ∨
      ∃ s s', presentText? children texts index = some s ∧
        presentText? (children.map (rename f)) texts' index = some s' ∧
        Exchanged r.old r.new s s' := by
  have htext := rel_getElem? h index
  unfold presentText?
  rw [List.getElem?_map]
  generalize texts[index]? = text, texts'[index]? = text' at htext
  cases children[index]? with
  | none => exact .inl ⟨rfl, rfl⟩
  | some child =>
    cases htext with
    | none => exact .inl ⟨rfl, rfl⟩
    | some htext =>
      simp only [Option.map_some, isAbsent_rename]
      split
      · exact .inl ⟨rfl, rfl⟩
      · exact .inr ⟨_, _, rfl, rfl, htext⟩

theorem selected_exchanged {p : Node × String → Bool}
    (hp : ∀ node s s', p (node.rename f, s') = p (node, s)) :
    List.Forall₂ (Exchanged r.old r.new) (((children.zip texts).filter p).map Prod.snd)
      ((((children.map (rename f)).zip texts').filter p).map Prod.snd) := by
  induction h generalizing children with
  | nil => simp
  | @cons s s' _ _ htext _ ih =>
    cases children with
    | nil => simp
    | cons child rest =>
      simp only [List.map_cons, List.zip_cons_cons, List.filter_cons, hp child s s']
      split
      · exact .cons htext (ih rest)
      · exact ih rest

theorem joinPresent_exchanged :
    Exchanged r.old r.new (joinPresent ", " children texts)
      (joinPresent ", " (children.map (rename f)) texts') :=
  .intercalate (selected_exchanged children h f (by simp))

theorem applied_exchanged (name opening closing : String)
    (hopening : (beginsApart opening && endsApart opening) = true := by decide)
    (hclosing : beginsApart closing = true := by decide) :
    Exchanged r.old r.new (applied name opening closing children texts)
      (applied name opening closing (children.map (rename f)) texts') := by
  obtain ⟨hbegins, hends⟩ := Bool.and_eq_true_iff.mp hopening
  unfold applied
  rw [List.isEmpty_map]
  split
  · exact .copy name
  · exact ((Exchanged.copy name).join opening (joinPresent_exchanged children h f) hbegins
      hends).before closing hclosing

theorem presentText_exchanged :
    Exchanged r.old r.new (presentText children texts index)
      (presentText (children.map (rename f)) texts' index) := by
  unfold presentText
  rcases presentText?_exchanged children h f index with
    ⟨hnone, hnone'⟩ | ⟨s, s', hsome, hsome', hs⟩
  · rw [hnone, hnone']
    exact .copy ""
  · rw [hsome, hsome']
    exact hs

end Pieces

section Text

variable {r : Renaming} (children : List Node) {texts texts' : List String}
  (h : List.Forall₂ (Exchanged r.old r.new) texts texts')

include h

theorem expressionText_exchanged (kind : NodeKind) (hspaced : kind.isSpaced = true) :
    Exchanged r.old r.new (expressionText kind children texts)
      (expressionText (kind.rename r.name) (children.map (rename r.name)) texts') := by
  have hat := fun index => presentText_exchanged children h r.name index
  have hslot := fun index => presentText?_exchanged children h r.name index
  have hjoin := joinPresent_exchanged children h r.name
  have hempty := fun index => (hat index).eq_empty_iff r.oldWord r.newWord
  cases kind
  case simpleName identifier => exact name_exchanged r identifier
  case unary operator leading =>
    cases leading with
    | false => exact (hat 0).before operator hspaced
    | true =>
      simp only [NodeKind.rename, expressionText, if_true]
      split
      · exact (hat 0).behind _ (endsApart_append operator (by decide))
      · rename_i hsign
        exact (hat 0).behind operator (by simpa [NodeKind.isSpaced, hsign] using hspaced)
  case lambda =>
    have hinit := List.forall₂_take (texts.length - 1) h
    rw [← List.dropLast_eq_take, h.length_eq, ← List.dropLast_eq_take] at hinit
    have hlast := getD_exchanged (rel_getElem? h (texts.length - 1))
    rw [← List.getLast?_eq_getElem?, h.length_eq, ← List.getLast?_eq_getElem?,
      ← List.getLastD_eq_getLast?, ← List.getLastD_eq_getLast?] at hlast
    exact ((Exchanged.intercalate hinit).behind "(").join ") -> " hlast
  case typeRef name => exact applied_exchanged children h _ name "[" "]"
  case decorator name => exact applied_exchanged children h _ _ "(" ")"
  all_goals
    have hname : ∀ sort name, Exchanged r.old r.new (parameterMark sort ++ name)
        (parameterMark sort ++ r.name name)
      | .regular, name => by simpa [parameterMark] using name_exchanged r name
      | .varArgs, name => (name_exchanged r name).behind "*"
      | .kwArgs, name => (name_exchanged r name).behind "**"
    have harguments := joinPresent_exchanged (children.drop 1) (List.forall₂_drop 1 h) r.name
    rw [List.map_drop] at harguments
    rcases hslot 0 with ⟨h0, h0'⟩ | ⟨s, s', h0, h0', hs⟩ <;>
    rcases hslot 1 with ⟨h1, h1'⟩ | ⟨t, t', h1, h1', ht⟩ <;>
    simp only [NodeKind.rename, expressionText, h0, h0', h1, h1', beq_iff_eq, hempty,
      String.append_empty, ← String.append_assoc]
    all_goals with_reducible repeat' first
      | exact .copy _
      | exact hat _
      | exact hname _ _
      | assumption
      | exact member_exchanged ‹_› _
      | refine Exchanged.join ?_ _ ?_
      | refine Exchanged.before ?_ _
      | refine Exchanged.behind _ ?_
      | split

theorem statementText_exchanged (kind : NodeKind) (hspaced : kind.isSpaced = true) :
    Exchanged r.old r.new (statementText kind children texts)
      (statementText (kind.rename r.name) (children.map (rename r.name)) texts') := by
  have hat := fun index => presentText_exchanged children h r.name index
  have hslot := fun index => presentText?_exchanged children h r.name index
  have hjoin := joinPresent_exchanged children h r.name
  have hempty := fun index => (hat index).eq_empty_iff r.oldWord r.newWord
  have hexpression := expressionText_exchanged children h kind hspaced
  have hstart : ∀ rest, Text.trimStart ("catch " ++ rest) = "catch " ++ rest := fun rest =>
    String.toList_inj.mp (by simp [Text.trimStart, Text.trimStartWhile, Text.isBlank])
  cases kind
  case enumConstant name => exact applied_exchanged children h _ name "(" ")"
  case whileLoop testLast => cases testLast <;> exact (hat 0).behind _
  case forLoop style =>
    cases style with
    | each => exact ((hat 0).behind "for ").join " in " (hat 1)
    | classic => exact ((((hat 0).behind "for(").join "; " (hat 1)).join "; " (hat 2)).before ")"
  case withStatement =>
    refine (Exchanged.intercalate (selected_exchanged children h _ fun node _ _ => ?_)).behind
      "with "
    simp only [rename_kind]
    cases node.kind <;> rfl
  case methodDeclaration head =>
    refine ((Exchanged.copy _).join "("
      (.intercalate (selected_exchanged children h _ fun node _ _ => ?_))).before ")"
    simp only [isVariable, rename_kind]
    cases node.kind <;> rfl
  case asyncStatement =>
    cases h with
    | nil => exact .copy _
    | cons hinner _ => exact hinner.behind "async "
  case catchClause =>
    rcases hslot 1 with ⟨h1, h1'⟩ | ⟨s, s', h1, h1', hs⟩ <;>
      simp only [NodeKind.rename, statementText, h1, h1']
    · exact ((hat 0).behind "catch ").trimEnd r.oldWord r.newWord
    · have htext := ((hat 0).behind "catch ").join " as " hs
      simp only [Text.trim, String.append_assoc, hstart] at htext ⊢
      exact htext.trimEnd r.oldWord r.newWord
  all_goals try exact hexpression
  all_goals
    rcases hslot 0 with ⟨h0, h0'⟩ | ⟨s, s', h0, h0', hs⟩ <;>
    rcases hslot 1 with ⟨h1, h1'⟩ | ⟨t, t', h1, h1', ht⟩ <;>
    simp only [NodeKind.rename, statementText, h0, h0', h1, h1', beq_iff_eq, hempty,
      String.append_empty, ← String.append_assoc]
    all_goals with_reducible repeat' first
      | exact .copy _
      | exact hat _
      | assumption
      | exact member_exchanged ‹_› _
      | refine Exchanged.join ?_ _ ?_
      | refine Exchanged.before ?_ _
      | refine Exchanged.behind _ ?_
      | split

end Text

mutual

theorem render_exchanged (r : Renaming) :
    (node : Node) → node.Everywhere (·.kind.isSpaced = true) →
      Exchanged r.old r.new node.render (node.rename r.name).render
  | ⟨kind, span, []⟩, h => by
    have hself := statementText_exchanged (r := r) [] .nil kind h.self
    cases kind with
    | variableDeclaration => exact .copy " "
    | _ => exact hself
  | ⟨kind, span, child :: rest⟩, h => by
    have hchildren := renderAll_exchanged r (child :: rest) fun _ => h.child
    have hself := statementText_exchanged (child :: rest) hchildren kind h.self
    rw [← renameAll_eq_map] at hself
    cases kind with
    | variableDeclaration =>
      have hrest := declaratorTexts_exchanged r rest fun node hnode =>
        h.child (List.mem_cons_of_mem child hnode)
      simp only [rename, NodeKind.rename, renameAll, render, isAbsent_rename]
      split
      · exact (Exchanged.copy "").join " " (.intercalate hrest)
      · exact (render_exchanged r child (h.child List.mem_cons_self)).join " " (.intercalate hrest)
    | _ => exact hself

theorem renderAll_exchanged (r : Renaming) : (nodes : List Node) →
    (∀ node ∈ nodes, node.Everywhere (·.kind.isSpaced = true)) →
    List.Forall₂ (Exchanged r.old r.new) (renderAll nodes) (renderAll (renameAll r.name nodes))
  | [], _ => .nil
  | node :: rest, h => .cons (render_exchanged r node (h node List.mem_cons_self))
      (renderAll_exchanged r rest fun other hother => h other (List.mem_cons_of_mem _ hother))

theorem declaratorTexts_exchanged (r : Renaming) : (nodes : List Node) →
    (∀ node ∈ nodes, node.Everywhere (·.kind.isSpaced = true)) →
    List.Forall₂ (Exchanged r.old r.new) (declaratorTexts nodes)
      (declaratorTexts (renameAll r.name nodes))
  | [], _ => .nil
  | ⟨kind, span, children⟩ :: rest, h => by
    have hrest := declaratorTexts_exchanged r rest fun other hother =>
      h other (List.mem_cons_of_mem _ hother)
    have hchildren := renderAll_exchanged r children fun _ => (h _ List.mem_cons_self).child
    cases kind with
    | «variable» name sort =>
      have hslot := presentText?_exchanged children hchildren r.name 1
      rw [← renameAll_eq_map] at hslot
      have hname := name_exchanged r name
      rcases hslot with ⟨h1, h1'⟩ | ⟨s, s', h1, h1', hs⟩ <;>
        simp only [renameAll, rename, NodeKind.rename, declaratorTexts, h1, h1']
      · exact .cons hname hrest
      · exact .cons (hname.join " = " hs) hrest
    | _ => exact hrest

end

end Node

end CodeEvolution
