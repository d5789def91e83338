import CodeEvolution.Proofs.Body.Ancestors
/-!
# What a body says about its `try` statements

Every statement knows the innermost `try` whose guarded body holds it, and every `try` knows its
clauses. Clauses stand beside their `try`, so the `try` around a statement is the nearest one on
its parent chain: what a `try` hands down it hands to its guarded body alone.
-/
namespace CodeEvolution

variable {s : RowStart} {id : Nat} {clause : Nat × StatementKind} {f : Fragment}

namespace Fragment

def isTry (f : Fragment) : Bool :=
  f.kind == .tryStatement

end Fragment

namespace Handlers

def clauses (handlers : Handlers) : List (Nat × StatementKind) :=
  handlers.catches.map (·, .catchClause) ++ handlers.otherwise.toList.map (·, .elseClause) ++
    handlers.final.toList.map (·, .finallyClause)

theorem kind_of_mem_clauses {handlers : Handlers} {kind : StatementKind}
    (h : (id, kind) ∈ handlers.clauses) : kind ≠ .tryStatement ∧ kind ≠ .expression := by
  simp only [clauses, List.mem_append, List.mem_map, Prod.mk.injEq] at h
  rcases h with (⟨_, -, -, rfl⟩ | ⟨_, -, -, rfl⟩) | ⟨_, -, -, rfl⟩ <;> exact ⟨nofun, nofun⟩

end Handlers

namespace Statement

theorem mem_of_mem_handlersOf {clauses : List (Nat × StatementKind)}
    (h : clause ∈ (handlersOf clauses).clauses) : clause ∈ clauses := by
  have hlast : ∀ {kind : StatementKind} {id : Nat},
      ((clauses.filter fun clause => clause.2 == kind).getLast?.map Prod.fst) = some id →
        (id, kind) ∈ clauses := by
    intro kind id hid
    obtain ⟨⟨_, found⟩, hfound, rfl⟩ := Option.map_eq_some_iff.mp hid
    obtain ⟨hmem, hkind⟩ := List.mem_filter.mp (List.mem_of_getLast? hfound)
    obtain rfl : found = kind := by simpa using hkind
    exact hmem
  simp only [Handlers.clauses, handlersOf, List.mem_append, List.mem_map, Option.mem_toList] at h
  rcases h with (⟨id, ⟨⟨_, found⟩, hfound, rfl⟩, rfl⟩ | ⟨id, hid, rfl⟩) | ⟨id, hid, rfl⟩
  · obtain ⟨hmem, hkind⟩ := List.mem_filter.mp hfound
    obtain rfl : found = .catchClause := by simpa using hkind
    exact hmem
  · exact hlast hid
  · exact hlast hid

section Settled

variable {declared : Fragment → List Nat}

/-- A fragment is the statement that is listed as a clause, below a parent, from an index on and
inside the guarded body of a `try`. -/
structure IsListed (parent enclosing : Option Nat) (index : Nat) (clause : Nat × StatementKind)
    (f : Fragment) : Prop where
  id : f.id = clause.1
  kind : f.kind = clause.2
  parent : f.parent = parent
  index : index ≤ f.index
  enclosing : f.enclosingTry = enclosing

theorem exists_isListed {statements : List Statement} (h : clause ∈ siblingsAll s.id statements) :
    ∃ f ∈ settled declared (s.number statements),
      IsListed s.parent s.enclosing s.index clause f := by
  induction statements using inductionOnRow generalizing s with
  | nil => exact absurd h List.not_mem_nil
  | unknown line label rest ih => exact ih h
  | known head nested handlers rest _ ihRest =>
    rw [settled_known]
    rw [siblingsAll_known] at h
    rcases List.mem_cons.mp h with rfl | h
    · exact ⟨_, List.mem_append_left _ List.mem_cons_self, rfl, rfl, rfl, le_rfl, rfl⟩
    · obtain ⟨f, hf, hlisted⟩ := ihRest (s := s.behind head nested) h
      exact ⟨f, List.mem_append_right _ hf,
        { hlisted with index := Nat.le_of_succ_le hlisted.index }⟩

def ClausesListed (fragments : List Fragment) (f : Fragment) : Prop :=
  ∀ handlers, f.handlers = some handlers → ∀ clause ∈ handlers.clauses,
    ∃ c ∈ fragments, IsListed f.parent f.enclosingTry (f.index + 1) clause c

theorem ClausesListed.mono {fragments others : List Fragment} (h : ClausesListed fragments f)
    (hsubset : ∀ g ∈ fragments, g ∈ others) : ClausesListed others f := by
  intro handlers hhandlers clause hclause
  obtain ⟨c, hc, hlisted⟩ := h handlers hhandlers clause hclause
  exact ⟨c, hsubset c hc, hlisted⟩

theorem number_clausesListed (s : RowStart) (statements : List Statement) :
    ∀ f ∈ settled declared (s.number statements),
      ClausesListed (settled declared (s.number statements)) f := by
  induction statements using inductionOnRow generalizing s with
  | nil => exact fun f hf => absurd hf List.not_mem_nil
  | unknown line label rest ih => exact ih s
  | known head nested handlers rest ihNested ihRest =>
    rw [settled_known]
    intro f hf
    rcases List.mem_append.mp hf with hf | hf
    · rcases List.mem_cons.mp hf with rfl | hf
      · intro table htable clause hclause
        simp only [settledHead, Body.introducing, headFragment] at htable
        split at htable
        · obtain rfl := Option.some.inj htable
          have hsibling := mem_of_mem_handlersOf hclause
          obtain ⟨c, hc, hlisted⟩ := exists_isListed (s := s.behind head nested)
            (siblingsAll_append _ handlers rest ▸ List.mem_append_left _ hsibling)
          exact ⟨c, List.mem_append_right _ hc, hlisted⟩
        · cases htable
      · rcases List.mem_append.mp hf with hf | hf
        · obtain ⟨i, hget⟩ := List.mem_iff_getElem?.mp hf
          rw [settled, List.getElem?_map, numberControls_getElem?, Option.map_map] at hget
          obtain ⟨control, -, rfl⟩ := Option.map_eq_some_iff.mp hget
          exact fun _ hnone => (Option.some_ne_none _ hnone.symm).elim
        · refine (ihNested _ f hf).mono fun g hg => ?_
          exact List.mem_append_left _ (List.mem_cons_of_mem _ (List.mem_append_right _ hg))
    · exact (ihRest _ f hf).mono fun g hg => List.mem_append_right _ hg

/-- What a `try` hands down reaches the statements whose nearest `try` it is: a `try` hands its
own number to its guarded body, and what is handed to it to the clauses beside it. -/
theorem number_enclosingTry {body : Body} (h : body.IsArena) (statements : List Statement)
    (henclosing : s.enclosing = (body.nearest? Fragment.isTry s.parent).map Fragment.id)
    (hmem : ∀ f ∈ settled declared (s.number statements), f ∈ body.fragments) :
    ∀ f ∈ settled declared (s.number statements), f.isStatement = true →
      f.enclosingTry = (body.nearest? Fragment.isTry f.parent).map Fragment.id := by
  induction statements using inductionOnRow generalizing s with
  | nil => exact fun f hf => absurd hf List.not_mem_nil
  | unknown line label rest ih => exact ih henclosing hmem
  | known head nested handlers rest ihNested ihRest =>
    rw [settled_known] at hmem ⊢
    rw [List.forall_mem_append, List.forall_mem_cons, List.forall_mem_append] at hmem ⊢
    obtain ⟨⟨hhead, -, hnested⟩, hrest⟩ := hmem
    have hguard : (s.inside head).enclosing =
        (body.nearest? Fragment.isTry (some s.id)).map Fragment.id := by
      rw [RowStart.inside]
      by_cases hkind : head.kind = .tryStatement
      · have hnearest : body.nearest? Fragment.isTry (some s.id) = some _ :=
          (h.nearest?_some _ hhead).trans (if_pos (beq_iff_eq.mpr hkind))
        rw [if_pos hkind, hnearest]
        rfl
      · have hnearest : body.nearest? Fragment.isTry (some s.id) = body.nearest? _ s.parent :=
          (h.nearest?_some _ hhead).trans (if_neg (mt beq_iff_eq.mp hkind))
        rw [if_neg hkind, hnearest, henclosing]
    refine ⟨⟨fun _ => henclosing, fun f hf hstatement => ?_, ihNested hguard hnested⟩,
      ihRest henclosing hrest⟩
    have hcontrols := (settledHead_hasControls declared s head nested handlers).filter_isStatement
    exact absurd hstatement (List.filter_eq_nil_iff.mp hcontrols f hf)

end Settled

end Statement

namespace Body

/-- A fragment is a clause of a `try`, of the kind under which the `try` lists it: it stands beside
the `try` and after it. The clause and what it holds are in the guarded bodies in which the `try`
itself is, but for what is in the guarded body of a `try` inside the clause. -/
structure IsClause (body : Body) (t : Fragment) (kind : StatementKind) (c : Fragment) : Prop where
  kind : c.kind = kind
  parent : c.parent = t.parent
  later : t.index < c.index
  enclosing : c.enclosingTry = t.enclosingTry
  inside : ∀ f ∈ body.fragments, f.isStatement = true → c ∈ body.ancestors f →
    f.enclosingTry = t.enclosingTry ∨ ∃ inner ∈ body.ancestors f,
      inner.isTry = true ∧ c ∈ body.ancestors inner ∧ f.enclosingTry = some inner.id

/-- A body says of its `try` statements what its tree says. -/
structure TriesAgree (body : Body) : Prop where
  statement : ∀ f ∈ body.fragments, f.isStatement = true →
    f.enclosingTry = ((body.ancestors f).find? Fragment.isTry).map Fragment.id
  expression : ∀ f ∈ body.fragments, f.isStatement = false → f.enclosingTry = none
  entry : ∀ f ∈ body.fragments, f.handlers.isSome = true ↔ f.kind = .tryStatement
  clause : ∀ t ∈ body.fragments, ∀ handlers, t.handlers = some handlers →
    ∀ id kind, (id, kind) ∈ handlers.clauses → ∃ c, body.get? id = some c ∧ body.IsClause t kind c

section OfMethod

variable (around : Surroundings) (method : Node) (parameters : List Node)

theorem ofMethod_settled : ∃ declared, (ofMethod around method parameters).fragments =
    Statement.settled declared ({ : RowStart }.number (statementsOf around method)) :=
  ofMethod_fragments around method parameters

theorem ofMethod_enclosingTry : ∀ f ∈ (ofMethod around method parameters).fragments,
    f.isStatement = true → f.enclosingTry =
      (((ofMethod around method parameters).ancestors f).find? Fragment.isTry).map Fragment.id := by
  have harena := ofMethod_isArena around method parameters
  obtain ⟨declared, hfragments⟩ := ofMethod_settled around method parameters
  intro f hf
  refine Statement.number_enclosingTry harena (statementsOf around method) ?_ ?_ f (hfragments ▸ hf)
  · rw [nearest?_none]
    rfl
  · exact fun g hg => hfragments ▸ hg

theorem ofMethod_handlers : ∀ f ∈ (ofMethod around method parameters).fragments,
    (f.isStatement = false → f.kind = .expression ∧ f.enclosingTry = none) ∧
      (f.handlers.isSome = true ↔ f.kind = .tryStatement) := by
  apply ofMethod_forall_mem
  · intro s head nested handlers ids hshaped
    have hstatement :=
      Statement.settledHead_isStatement (fun _ => ids) s nested handlers hshaped.shape
    refine ⟨fun hfalse => absurd (hstatement.symm.trans hfalse) nofun, ?_⟩
    simp only [introducing, Statement.headFragment]
    split <;> simp_all
  · exact fun _ _ _ _ _ _ _ _ => ⟨fun _ => ⟨rfl, rfl⟩, by simp [introducing]⟩

variable {around method parameters} in

/-- What a statement other than a `try` holds is guarded as the statement itself is, but for what is
in the guarded body of a `try` inside it. -/
theorem ofMethod_enclosingTry_inside {c : Fragment}
    (hc : c ∈ (ofMethod around method parameters).fragments) (hcstatement : c.isStatement = true)
    (hcnotry : c.isTry = false) (hf : f ∈ (ofMethod around method parameters).fragments)
    (hstatement : f.isStatement = true)
    (habove : c ∈ (ofMethod around method parameters).ancestors f) :
    f.enclosingTry = c.enclosingTry ∨
      ∃ inner ∈ (ofMethod around method parameters).ancestors f, inner.isTry = true ∧
        c ∈ (ofMethod around method parameters).ancestors inner ∧
        f.enclosingTry = some inner.id := by
  have henclosing := ofMethod_enclosingTry around method parameters
  obtain ⟨between, hsplit, hbetween⟩ :=
    (ofMethod_isArena around method parameters).ancestors_split hf habove
  rw [henclosing f hf hstatement, hsplit, List.find?_append]
  cases hinner : between.find? Fragment.isTry with
  | none =>
    left
    rw [Option.none_or, List.find?_cons, hcnotry, henclosing c hc hcstatement]
  | some inner =>
    right
    have hmem := List.mem_of_find?_eq_some hinner
    exact ⟨inner, List.mem_append_left _ hmem, List.find?_some hinner, (hbetween inner hmem).2, rfl⟩

theorem ofMethod_triesAgree : (ofMethod around method parameters).TriesAgree := by
  have hhandlers := ofMethod_handlers around method parameters
  have hlisted : ∀ f ∈ (ofMethod around method parameters).fragments,
      Statement.ClausesListed (ofMethod around method parameters).fragments f := by
    obtain ⟨declared, hfragments⟩ := ofMethod_settled around method parameters
    rw [hfragments]
    exact Statement.number_clausesListed _ _
  refine ⟨ofMethod_enclosingTry around method parameters,
    fun f hf hfalse => ((hhandlers f hf).1 hfalse).2, fun f hf => (hhandlers f hf).2, ?_⟩
  intro t ht table htable id kind hclause
  obtain ⟨c, hc, hid, hkind, hparent, hindex, henclosing⟩ :=
    hlisted t ht table htable (id, kind) hclause
  obtain rfl : c.id = id := hid
  obtain rfl : c.kind = kind := hkind
  obtain ⟨hnotry, hnoexpression⟩ := Handlers.kind_of_mem_clauses hclause
  have hstatement : c.isStatement = true := by
    by_contra hfalse
    exact hnoexpression ((hhandlers c hc).1 (Bool.eq_false_iff.mpr hfalse)).1
  refine ⟨c, (ofMethod_isArena around method parameters).get?_id hc, rfl, hparent, hindex,
    henclosing, fun f hf hf' habove => ?_⟩
  rw [← henclosing]
  exact ofMethod_enclosingTry_inside hc hstatement (beq_eq_false_iff_ne.mpr hnotry) hf hf' habove

end OfMethod

end Body

end CodeEvolution
