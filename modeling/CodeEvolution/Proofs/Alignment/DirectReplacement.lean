import CodeEvolution.Proofs.Alignment.Replacement
import CodeEvolution.Proofs.Body.RenamedStatements
/-!
# Replacements that arrive at once

Where one replacement alone leads to the goal, the search needs no second round: no move is closer
than one that arrives, and the earliest wins equality. So the answer is the first proposal that
arrives, and the order of the families of proposals decides which one that is.
-/
namespace CodeEvolution

variable {r : Replacement} {text : String} {goal : List String} {s : Replacement} {name : String}
  {c : Comparison}

theorem Text.replaceIdentifier?_isProper {old new next : String}
    (h : Text.replaceIdentifier? text old new = some next) : old ≠ "" ∧ old ≠ new := by
  obtain ⟨result, hresult, -⟩ := Option.map_eq_some_iff.mp h
  unfold Text.substitute? at hresult
  split at hresult
  · cases hresult
  · rename_i hproper
    constructor
    · rintro rfl
      exact hproper (by simp)
    · rintro rfl
      exact hproper (by simp)

namespace Replacement

def reaches (goal : List String) (text : String) (r : Replacement) : Bool :=
  (Text.replaceIdentifier? text r.before r.after).any fun next => Text.tokenize next == goal

theorem reaches_iff :
    reaches goal text r = true ↔ ∃ next,
      Text.replaceIdentifier? text r.before r.after = some next ∧ Text.tokenize next = goal := by
  rw [reaches, Option.any_eq_true]
  simp only [beq_iff_eq]

theorem isProper_of_reaches (h : reaches goal text r = true) : r.isProper = true := by
  obtain ⟨next, hnext, -⟩ := reaches_iff.mp h
  obtain ⟨hne, hchange⟩ := Text.replaceIdentifier?_isProper hnext
  simp [isProper, hne, hchange]

theorem reaches_of_sameTexts (h : r.sameTexts s = true) :
    reaches goal text s = reaches goal text r := by
  obtain ⟨hbefore, hafter⟩ : r.before = s.before ∧ r.after = s.after := by
    simpa [sameTexts] using h
  rw [reaches, reaches, hbefore, hafter]

theorem closest_eq_find? {moves : List Move} (h : ∃ move ∈ moves, move.distance = 0) :
    closest moves = moves.find? fun move => move.distance == 0 := by
  induction moves with
  | nil => simp at h
  | cons first rest ih =>
    rw [closest]
    by_cases hfirst : first.distance = 0
    · rw [List.find?_cons_of_pos (by simp [hfirst])]
      cases closest rest with
      | none => rfl
      | some other => simp [hfirst]
    · have hrest : ∃ move ∈ rest, move.distance = 0 := by
        obtain ⟨move, hmove, hzero⟩ := h
        rcases List.mem_cons.mp hmove with rfl | hmove
        · exact absurd hzero hfirst
        · exact ⟨move, hmove, hzero⟩
      rw [List.find?_cons_of_neg (by simp [hfirst]), ih hrest]
      cases hfind : rest.find? fun move => move.distance == 0 with
      | none =>
        obtain ⟨move, hmove, hzero⟩ := hrest
        simpa [hzero] using List.find?_eq_none.mp hfind move hmove
      | some other =>
        have hzero : other.distance = 0 := by simpa using List.find?_some hfind
        simp only [hzero, Nat.pos_of_ne_zero hfirst, if_true]

section Search

variable {proposed : List Replacement} {goal : List String} {current : String} {r : Replacement}

theorem distanceTo_eq_zero_iff : distanceTo goal current = 0 ↔ Text.tokenize current = goal :=
  Text.editDistance_eq_zero_iff _ _

theorem move?_arrives (goal : List String) (current : String) (r : Replacement) :
    ((move? goal current r).any fun move => move.distance == 0) = reaches goal current r := by
  rw [move?, reaches, Option.any_map]
  cases Text.replaceIdentifier? current r.before r.after with
  | none => rfl
  | some next =>
    rw [Option.any_some, Option.any_some, Bool.eq_iff_iff, beq_iff_eq (b := goal)]
    exact Iff.trans beq_iff_eq distanceTo_eq_zero_iff

theorem bestMove?_of_reaches (haway : Text.tokenize current ≠ goal)
    (hr : proposed.find? (reaches goal current) = some r) :
    bestMove? proposed goal current = move? goal current r := by
  have hpositive : 0 < distanceTo goal current :=
    Nat.pos_of_ne_zero fun hzero => haway (distanceTo_eq_zero_iff.mp hzero)
  have hfirst : ((proposed.filterMap (move? goal current)).filter fun move =>
      decide (move.distance < distanceTo goal current)).find? (fun move => move.distance == 0) =
        move? goal current r := by
    rw [List.find?_filter, List.find?_filterMap]
    have harrives : (fun s => (move? goal current s).any fun move =>
        decide (decide (move.distance < distanceTo goal current) = true ∧
          (move.distance == 0) = true)) = reaches goal current := by
      funext s
      rw [← move?_arrives]
      congr 1
      funext move
      rw [Bool.eq_iff_iff]
      simp only [decide_eq_true_eq, beq_iff_eq]
      omega
    rw [harrives, hr, Option.bind_some]
  obtain ⟨next, hnext, harrived⟩ := reaches_iff.mp (List.find?_some hr)
  have hmove : move? goal current r = some ⟨r, next, 0⟩ := by
    rw [move?, hnext, Option.map_some, distanceTo_eq_zero_iff.mpr harrived]
  rw [hmove] at hfirst ⊢
  rw [bestMove?, closest_eq_find? ⟨_, List.mem_of_find?_eq_some hfirst, rfl⟩, hfirst]

theorem search_of_reaches {budget : Nat} (hbudget : 0 < budget)
    (haway : Text.tokenize current ≠ goal)
    (hr : proposed.find? (reaches goal current) = some r) :
    search proposed goal budget current = some [r] := by
  obtain ⟨next, hnext, harrived⟩ := reaches_iff.mp (List.find?_some hr)
  obtain ⟨budget, rfl⟩ : ∃ rest, budget = rest + 1 := ⟨budget - 1, by omega⟩
  have hdone : search proposed goal budget next = some [] := by
    cases budget <;> simp [search, distanceTo_eq_zero_iff.mpr harrived]
  rw [search, if_neg fun hzero => haway (distanceTo_eq_zero_iff.mp hzero),
    bestMove?_of_reaches haway hr, move?, hnext]
  simp [hdone]

end Search

theorem find?_distinct {p : Replacement → Bool}
    (hp : ∀ r s : Replacement, r.sameTexts s = true → p s = p r) (all : List Replacement) :
    (distinct all).find? p = all.find? p := by
  induction all with
  | nil => rfl
  | cons r rest ih =>
    rw [distinct]
    by_cases hr : p r = true
    · rw [List.find?_cons_of_pos hr, List.find?_cons_of_pos hr]
    · rw [List.find?_cons_of_neg hr, List.find?_cons_of_neg hr, List.find?_filter, ← ih]
      congr 1
      funext s
      -- What exchanges the same texts as `r` fails as `r` does.
      cases hsame : r.sameTexts s with
      | true => simp [hp r s hsame, Bool.not_eq_true _ ▸ hr]
      | false => simp

section Families

variable (c : Comparison) (before after : Fragment)

/-- The proposals that come before those of one variable name for another. -/
def rivals : List Replacement :=
  let fb := before.facts
  let fa := after.facts
  ternaryBranches fb fa ++
  boundTexts c before ++
  pairs .variableToField (without fb.names fa.names) (ownMembers c.receivers fa fb) ++
  pairs .fieldToVariable (ownMembers c.receivers fb fa) (without fa.names fb.names) ++
  extractedVariables c before after ++
  inlinedVariables c before after ++
  (fb.invocations.flatMap fun i => fa.invocations.filterMap (ofInvocations? i)) ++
  (fb.accesses.flatMap fun f => fa.accesses.filterMap (ofAccesses? f))

def renamings : List Replacement :=
  pairs .variableName (without before.facts.names after.facts.names)
    (without after.facts.names before.facts.names)

def followers : List Replacement :=
  let fb := before.facts
  let fa := after.facts
  pairs .variableToExpression (without fb.names fa.names)
    (fa.expressions.filter fun text => !Text.contains before.text text) ++
  pairs .expressionToVariable (fb.expressions.filter fun text => !Text.contains after.text text)
    (without fa.names fb.names) ++
  pairs .literal (without fb.literals fa.literals) (without fa.literals fb.literals) ++
  pairs .argument (without fb.arguments fa.arguments) (without fa.arguments fb.arguments)

theorem proposals_eq :
    proposals c before after = distinct ((rivals c before after ++ renamings before after ++
      followers before after).filter isProper) := by
  simp only [proposals, rivals, renamings, followers, List.append_assoc]

variable {c before after}

theorem mem_pairs {kind : ReplacementKind} {befores afters : List String} :
    r ∈ pairs kind befores afters ↔ r.kind = kind ∧ r.before ∈ befores ∧ r.after ∈ afters := by
  obtain ⟨k, b, a⟩ := r
  simp [pairs, and_left_comm, eq_comm]

theorem find?_proposals (h : (renamings before after).find? (reaches goal text) = some r) :
    (proposals c before after).find? (reaches goal text) =
      some (((rivals c before after).find? (reaches goal text)).getD r) := by
  have hproper : (fun s => decide (isProper s = true ∧ reaches goal text s = true)) =
      reaches goal text := by
    funext s
    rw [Bool.eq_iff_iff, decide_eq_true_eq]
    exact ⟨And.right, fun hs => ⟨isProper_of_reaches hs, hs⟩⟩
  rw [proposals_eq, find?_distinct fun r s => reaches_of_sameTexts, List.find?_filter, hproper,
    List.find?_append, List.find?_append, h]
  cases (rivals c before after).find? (reaches goal text) <;> rfl

theorem kind_of_ofInvocations? {i j : Invocation} (h : ofInvocations? i j = some r) :
    r.kind = .invocationName ∨ r.kind = .invocationQualifier := by
  unfold ofInvocations? at h
  split at h
  · exact Or.inl (Option.some.inj h ▸ rfl)
  · split at h
    · exact Or.inr (Option.some.inj h ▸ rfl)
    · cases h

theorem kind_of_ofAccesses? {f g : MemberAccess} (h : ofAccesses? f g = some r) :
    r.kind = .fieldAccessQualifier ∨ r.kind = .fieldAccessName := by
  unfold ofAccesses? at h
  split at h
  · exact Or.inl (Option.some.inj h ▸ rfl)
  · split at h
    · exact Or.inr (Option.some.inj h ▸ rfl)
    · cases h

theorem kind_of_mem_extractedVariables (h : r ∈ extractedVariables c before after) :
    r.kind = .extractVariable := by
  obtain ⟨v, -, hv⟩ := List.mem_filterMap.mp h
  split at hv
  · cases hv
  · split at hv
    · exact Option.some.inj hv ▸ rfl
    · cases hv

theorem kind_of_mem_inlinedVariables (h : r ∈ inlinedVariables c before after) :
    r.kind = .inlineVariable := by
  obtain ⟨v, -, hv⟩ := List.mem_filterMap.mp h
  split at hv
  · cases hv
  · split at hv
    · exact Option.some.inj hv ▸ rfl
    · cases hv

theorem kind_of_mem_ternaryBranches {fb fa : Facts} (h : r ∈ ternaryBranches fb fa) :
    r.kind = .ternaryBranch := by
  simp only [ternaryBranches, List.mem_append, List.mem_flatMap, List.mem_cons,
    List.not_mem_nil, or_false] at h
  rcases h with ⟨_, -, rfl | rfl⟩ | ⟨_, -, rfl | rfl⟩ <;> rfl

theorem kind_of_mem_boundTexts (h : r ∈ boundTexts c before) : r.kind = .parameterToArgument := by
  obtain ⟨p, -, rfl⟩ := List.mem_map.mp h
  rfl

theorem kind_of_mem_rivals (h : r ∈ rivals c before after) : r.kind ≠ .variableName := by
  simp only [rivals, List.mem_append, mem_pairs, List.mem_flatMap, List.mem_filterMap] at h
  rcases h with ((((((h | h) | h) | h) | h) | h) | ⟨i, -, j, -, h⟩) | ⟨f, -, g, -, h⟩
  · simp [kind_of_mem_ternaryBranches h]
  · simp [kind_of_mem_boundTexts h]
  · simp [h.1]
  · simp [h.1]
  · simp [kind_of_mem_extractedVariables h]
  · simp [kind_of_mem_inlinedVariables h]
  · rcases kind_of_ofInvocations? h with h | h <;> simp [h]
  · rcases kind_of_ofAccesses? h with h | h <;> simp [h]

end Families

section Renamed

variable {r : Renaming} {before after : Fragment}

theorem mem_without {texts others : List String} :
    text ∈ without texts others ↔ text ∈ texts ∧ text ∉ others := by
  simp [without]

def ofRenaming (r : Renaming) : Replacement :=
  ⟨.variableName, r.old, r.new⟩

section Facts

variable (hfacts : before.facts.IsRenamed r after.facts)

include hfacts

theorem eq_old_of_gone (h : name ∈ before.facts.names) (hgone : name ∉ after.facts.names) :
    name = r.old := by
  by_contra hne
  exact hgone ((hfacts.names _).mpr ⟨name, h, r.name_of_ne hne⟩)

theorem eq_new_of_come (h : name ∈ after.facts.names) (hcome : name ∉ before.facts.names) :
    name = r.new := by
  obtain ⟨former, hformer, rfl⟩ := (hfacts.names _).mp h
  by_cases hrenamed : former = r.old
  · rw [hrenamed, r.name_old]
  · rw [r.name_of_ne hrenamed] at hcome
    exact absurd hformer hcome

theorem eq_of_mem_renamings (h : s ∈ renamings before after) : s = ofRenaming r := by
  obtain ⟨hkind, hbefore, hafter⟩ := mem_pairs.mp h
  obtain ⟨hmem, hgone⟩ := mem_without.mp hbefore
  obtain ⟨hmem', hcome⟩ := mem_without.mp hafter
  rw [ofRenaming, ← hkind, ← eq_old_of_gone hfacts hmem hgone, ← eq_new_of_come hfacts hmem' hcome]

/-- Nothing is proposed ahead of the name where there is neither a choice nor a member access, all
calls are of one name and on no receiver, and no initial value of the variable is in the texts. -/
theorem rivals_eq_nil (hbinding : c.binding = []) (hchoices : before.facts.choices = [])
    (haccesses : before.facts.accesses = [])
    (hcalls : ∀ i ∈ before.facts.invocations, i.receiver?.isNone = true ∧
      ∀ j ∈ before.facts.invocations, i.name = j.name)
    (hvalues : ∀ v ∈ c.before.declarations ++ c.after.declarations,
      v.name = r.old ∨ v.name = r.new → ∀ value ∈ v.initializer,
        Text.contains before.text value = false ∧ Text.contains after.text value = false) :
    rivals c before after = [] := by
  have hmembers : ownMembers c.receivers before.facts after.facts = [] ∧
      ownMembers c.receivers after.facts before.facts = [] := by
    simp [ownMembers, haccesses, hfacts.accesses haccesses]
  have hvalues (v : Variable) (hv : v ∈ c.before.declarations ++ c.after.declarations)
      (hname : v.name = r.old ∨ v.name = r.new) {value : String} (h : v.initializer = some value) :=
    hvalues v hv hname value h
  have hextracted : extractedVariables c before after = [] := by
    refine List.filterMap_eq_nil_iff.mpr fun v hv => ?_
    split
    · rfl
    · rename_i value hvalue
      refine if_neg fun hall => ?_
      simp only [Bool.and_eq_true, Bool.not_eq_true', Facts.mentions, List.contains_eq_mem,
        decide_eq_true_eq, decide_eq_false_iff_not] at hall
      have hname := eq_new_of_come hfacts hall.1.1 hall.1.2
      have hv := List.mem_append_right c.before.declarations (List.mem_filter.mp hv).1
      simp [(hvalues v hv (.inr hname) hvalue).1] at hall
  have hinlined : inlinedVariables c before after = [] := by
    refine List.filterMap_eq_nil_iff.mpr fun v hv => ?_
    split
    · rfl
    · rename_i value hvalue
      refine if_neg fun hall => ?_
      simp only [Bool.and_eq_true, Bool.not_eq_true', Facts.mentions, List.contains_eq_mem,
        decide_eq_true_eq, decide_eq_false_iff_not] at hall
      have hname := eq_old_of_gone hfacts hall.1.1 hall.1.2
      have hv := List.mem_append_left c.after.declarations (List.mem_filter.mp hv).1
      simp [(hvalues v hv (.inl hname) hvalue).2] at hall
  have hinvocations : (before.facts.invocations.flatMap fun i =>
      after.facts.invocations.filterMap (ofInvocations? i)) = [] := by
    refine List.flatMap_eq_nil_iff.mpr fun i hi => List.filterMap_eq_nil_iff.mpr fun j hj => ?_
    obtain ⟨former, hformer, hname, hreceiver⟩ := hfacts.calls j hj
    obtain ⟨hnone, hsame⟩ := hcalls i hi
    rw [(hcalls former hformer).1, Option.isNone_iff_eq_none] at hreceiver
    rw [Option.isNone_iff_eq_none] at hnone
    rw [ofInvocations?, if_neg, if_neg]
    · simp [hnone, hreceiver]
    · simp [hname, hsame former hformer]
  rw [rivals, hmembers.1, hmembers.2, hextracted, hinlined, hinvocations]
  simp [ternaryBranches, boundTexts, pairs, hbinding, hchoices, hfacts.choices hchoices, haccesses]

theorem renaming_mem (hold : before.facts.mentions r.old = true) :
    ofRenaming r ∈ renamings before after := by
  have hmem : r.old ∈ before.facts.names := by simpa [Facts.mentions] using hold
  refine mem_pairs.mpr ⟨rfl, mem_without.mpr ⟨hmem, ?_⟩, mem_without.mpr ⟨?_, hfacts.fresh⟩⟩
  · intro hafter
    obtain ⟨name, -, heq⟩ := (hfacts.names _).mp hafter
    by_cases hname : name = r.old
    · rw [hname, r.name_old] at heq
      exact r.change heq.symm
    · exact hname (r.name_of_ne hname ▸ heq)
  · exact (hfacts.names _).mpr ⟨r.old, hmem, r.name_old⟩

end Facts

/-- Between a fragment and what it becomes when a variable is renamed, the name is replaced, unless
a proposal of another kind arrives as well: those come first. -/
theorem find?_of_isRenamed (hmax : 0 < c.maxReplacements) (hkind : before.kind = after.kind)
    (haway : Text.tokenize before.text ≠ Text.tokenize after.text)
    (hfacts : before.facts.IsRenamed r after.facts) (hold : before.facts.mentions r.old = true)
    (hwritten : Text.replaceIdentifier? before.text r.old r.new = some after.text) :
    find? c before after = some [((rivals c before after).find?
      (reaches (Text.tokenize after.text) before.text)).getD (ofRenaming r)] := by
  have hreaches : reaches (Text.tokenize after.text) before.text (ofRenaming r) = true :=
    reaches_iff.mpr ⟨after.text, hwritten, rfl⟩
  have hfirst : (renamings before after).find? (reaches (Text.tokenize after.text) before.text) =
      some (ofRenaming r) := by
    cases hfind : (renamings before after).find?
        (reaches (Text.tokenize after.text) before.text) with
    | none => exact absurd hreaches (List.find?_eq_none.mp hfind _ (renaming_mem hfacts hold))
    | some s => rw [eq_of_mem_renamings hfacts (List.mem_of_find?_eq_some hfind)]
  rw [find?, if_neg]
  · exact search_of_reaches hmax haway (find?_proposals hfirst)
  · rintro (hne | heq)
    · exact hne hkind
    · exact haway (congrArg Text.tokenize heq)

end Renamed

end Replacement

end CodeEvolution
