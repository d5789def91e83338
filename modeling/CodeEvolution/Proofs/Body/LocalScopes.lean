import CodeEvolution.Proofs.Body.OuterNames
import CodeEvolution.Proofs.Body.Scoping
import CodeEvolution.Proofs.Body.StatementSpans
/-!
# The scopes of local variables

A variable that a statement of its own declares is visible from the statement to the end of the
innermost block around it, and one that is assigned to the end of the body. Since statements stand
in the source as they are numbered, an assigned name is declared once, and variables of blocks apart
from each other have scopes apart from each other.
-/
namespace CodeEvolution

variable {entry : NumberedStatement} {language : Language} (parameters : List Node)

namespace Body

variable {body : Body}

/-- The innermost block from a number upwards ends at an offset. -/
def Closes (body : Body) (parent : Option Nat) (stop : Nat) : Prop :=
  ∀ block, body.nearest? Fragment.isBlock parent = some block → block.span.endOffset = stop

theorem closes_none (stop : Nat) : body.Closes none stop := by
  intro block hblock
  rw [nearest?_none] at hblock
  cases hblock

def Tells (body : Body) (around : Surroundings) (entry : NumberedStatement) : Prop :=
  ∀ b ∈ entry.bindings, ∃ stop, body.Closes entry.fragment.parent stop ∧
    b.Arises around stop entry.fragment.kind entry.fragment.span

end Body

namespace Statement

variable {body : Body} {around : Surroundings} (declared : Fragment → List Nat)

def HeadArises (around : Surroundings) (stop : Nat) (head : StatementHead) : Prop :=
  ∀ b ∈ head.bindings, b.Arises around stop head.kind head.span

/-- Where the innermost block ends is handed down from a block to all it holds. -/
theorem number_tells (h : body.IsArena) {s : RowStart} {stop : Nat}
    (hcloses : body.Closes s.parent stop) (statements : List Statement)
    (hfollows : ∀ statement ∈ statements, Follows (HeadArises around) stop statement)
    (hmem : ∀ f ∈ settled declared (s.number statements), f ∈ body.fragments) :
    ∀ entry ∈ s.number statements, body.Tells around entry := by
  induction statements using inductionOnRow generalizing s stop with
  | nil => exact fun entry hentry => absurd hentry List.not_mem_nil
  | unknown line label rest ih => exact ih hcloses (List.forall_mem_cons.mp hfollows).2 hmem
  | known head nested handlers rest ihNested ihRest =>
    obtain ⟨hhead, hinside, hrest⟩ := follows_row hfollows
    rw [settled_known, List.forall_mem_append, List.forall_mem_cons, List.forall_mem_append] at hmem
    obtain ⟨⟨hf, -, hmemNested⟩, hmemRest⟩ := hmem
    have hinner : body.Closes (some s.id)
        (if head.kind = .block then head.span.endOffset else stop) := by
      intro block hblock
      have hnearest := (h.nearest?_some Fragment.isBlock hf).symm.trans hblock
      split at hnearest
      · rename_i hisBlock
        have hkind : head.kind = .block := beq_iff_eq.mp hisBlock
        rw [if_pos hkind, ← Option.some.inj hnearest]
        rfl
      · rename_i hisBlock
        have hkind : head.kind ≠ .block := mt beq_iff_eq.mpr hisBlock
        rw [if_neg hkind]
        exact hcloses block hnearest
    rw [number_known, List.forall_mem_cons, List.forall_mem_append, List.forall_mem_append]
    refine ⟨fun b hb => ⟨stop, hcloses, hhead b hb⟩,
      ⟨fun entry hentry b hb => ?_, ihNested hinner hinside hmemNested⟩,
      ihRest hcloses hrest hmemRest⟩
    obtain ⟨i, hget⟩ := List.mem_iff_getElem?.mp hentry
    rw [numberControls_getElem?] at hget
    obtain ⟨control, -, rfl⟩ := Option.map_eq_some_iff.mp hget
    exact absurd hb List.not_mem_nil

end Statement

theorem Binding.Arises.scope_eq {around : Surroundings} {stop : Nat} {kind : StatementKind}
    {span : Span} {b : Binding} (h : b.Arises around stop kind span)
    (hkind : kind = .assignment ∨ kind = .variableDeclaration)
    (hrole : b.introduced.role = .localVariable) :
    b.introduced.scope = Statement.localScope around stop span := by
  cases h with
  | assignedMember _ hmember =>
    rw [hmember] at hrole
    cases hrole
  | assignedLocal _ _ _ hscope => exact hscope
  | declared _ hlocal => exact hlocal.scope
  | held hcomposite =>
    rcases hkind with hkind | hkind
    · exact absurd hkind hcomposite.1
    · exact absurd hkind hcomposite.2

/-! ## What the variables of a body rest on -/

namespace Body

structure Introduces (body : Body) (kind : StatementKind) (f : Fragment) (v : Variable) :
    Prop where
  listed : v ∈ body.declarations
  role : v.role = .localVariable
  statement : v.statement = some f.id
  mem : f ∈ body.fragments
  of_kind : f.kind = kind

/-- The statements of a body stand in the source as they are numbered, from an offset on, and its
variables come from them, one after the other. -/
structure IsScoped (around : Surroundings) (entries : List NumberedStatement) (start : Nat)
    (body : Body) : Prop where
  arena : body.IsArena
  numbered : ∃ declared, body.fragments = Statement.settled declared entries
  regular : NumberedStatement.AreRegular around entries
  tells : ∀ entry ∈ entries, body.Tells around entry
  within : ∀ f ∈ body.statements, start ≤ f.span.startOffset ∧ f.span.endOffset ≤ around.bodyEnd
  precedes : body.statements.Pairwise fun f g => f.id < g.id ∧ body.Precedes f g
  originates : ∀ v ∈ body.declarations, body.Originates v
  ordered : body.declarations.Pairwise (Variable.Allows entries)
  origin : ∀ v ∈ body.declarations, v.statement ≠ none → ∃ entry, v.Originates entries entry

namespace IsScoped

variable {body : Body} {around : Surroundings} {entries : List NumberedStatement} {start : Nat}
  {kind : StatementKind} {f g : Fragment} {v w : Variable} (h : body.IsScoped around entries start)

include h

theorem exists_entry (hf : f ∈ body.fragments) :
    ∃ entry ∈ entries, ∃ ids, f = introducing entry.fragment ids := by
  obtain ⟨declared, hfragments⟩ := h.numbered
  rw [hfragments] at hf
  obtain ⟨entry, hentry, rfl⟩ := List.mem_map.mp hf
  exact ⟨entry, hentry, _, rfl⟩

theorem exists_fragment (hentry : entry ∈ entries) :
    ∃ ids, introducing entry.fragment ids ∈ body.fragments := by
  obtain ⟨declared, hfragments⟩ := h.numbered
  rw [hfragments]
  exact ⟨_, List.mem_map_of_mem hentry⟩

theorem eq_of_id (hf : f ∈ body.fragments) (hg : g ∈ body.fragments) (hid : f.id = g.id) :
    f = g := by
  have hget := h.arena.get?_id hf
  rw [hid, h.arena.get?_id hg] at hget
  exact (Option.some.inj hget).symm

theorem precedes_of_lt (hf : f ∈ body.statements) (hg : g ∈ body.statements)
    (hlt : f.id < g.id) : body.Precedes f g := by
  rcases rel_or_rel_of_pairwise h.precedes hf hg with rfl | hbefore | hafter
  · exact absurd hlt (Nat.lt_irrefl _)
  · exact hbefore.2
  · exact absurd hlt (Nat.lt_asymm hafter.1)

theorem mem_statements (hv : body.Introduces kind f v) : f ∈ body.statements := by
  rcases h.originates v hv.listed with ⟨hnone, -⟩ | ⟨g, hg, hstatement, hisStatement, -⟩
  · rw [hv.statement] at hnone
    cases hnone
  · have hid : f.id = g.id := Option.some.inj (hv.statement.symm.trans hstatement)
    obtain rfl := h.eq_of_id hv.mem hg hid
    exact List.mem_filter.mpr ⟨hg, hisStatement⟩

theorem exists_origin (hv : body.Introduces kind f v) :
    ∃ entry ids, f = introducing entry.fragment ids ∧ v.Originates entries entry := by
  obtain ⟨entry, hentry⟩ := h.origin v hv.listed (by rw [hv.statement]; simp)
  obtain ⟨ids, hmem⟩ := h.exists_fragment hentry.mem
  obtain ⟨b, -, hb⟩ := hentry.binding
  have hid : entry.fragment.id = f.id := by
    have hstatement := hv.statement
    rw [hb] at hstatement
    exact Option.some.inj hstatement
  exact ⟨entry, ids, h.eq_of_id hv.mem hmem hid.symm, hentry⟩

theorem scope_eq (hv : body.Introduces kind f v)
    (hkind : kind = .assignment ∨ kind = .variableDeclaration) :
    ∃ stop, body.Closes f.parent stop ∧ v.scope = Statement.localScope around stop f.span := by
  obtain ⟨entry, ids, rfl, horigin⟩ := h.exists_origin hv
  obtain ⟨b, hb, rfl⟩ := horigin.binding
  obtain ⟨stop, hcloses, harises⟩ := h.tells entry horigin.mem b hb
  refine ⟨stop, hcloses, harises.scope_eq ?_ hv.role⟩
  rw [← hv.of_kind] at hkind
  exact hkind

theorem start_eq (hv : body.Introduces kind f v)
    (hkind : kind = .assignment ∨ kind = .variableDeclaration) :
    v.scope.start = f.span.startOffset := by
  obtain ⟨stop, -, hscope⟩ := h.scope_eq hv hkind
  rw [hscope, Statement.localScope_start]

theorem isAssigned (hv : body.Introduces .assignment f v) : v.IsAssigned entries := by
  obtain ⟨entry, hentry, ids, rfl⟩ := h.exists_entry hv.mem
  exact ⟨hv.role, entry, hentry, hv.statement, hv.of_kind⟩

end IsScoped

/-! ## Variables of assignments -/

/-- An assignment that is not empty introduces a local variable of a body. -/
structure Assigns (body : Body) (f : Fragment) (v : Variable) : Prop extends
    body.Introduces .assignment f v where
  extent : f.span.startOffset < f.span.endOffset

/-- A name has at most one local variable that an assignment introduces: none if it is the name of
a parameter, and none behind a statement that leaves the name to an outer scope. -/
structure AssignsOnce (method : Node) (parameters : List Node) (body : Body) : Prop where
  once : ∀ f g v w, body.Assigns f v → body.Assigns g w → v.name = w.name → v = w
  parameter : ∀ f v, body.Assigns f v → ∀ p ∈ parameters, ∀ sort, p.kind ≠ .variable v.name sort
  outer : ∀ f v, body.Assigns f v → ∀ place ∈ method.bodyPlaces,
    v.name ∈ place.node.outerNames → f.span.startOffset ≤ place.node.span.startOffset

namespace IsScoped

variable {body : Body} {around : Surroundings} {entries : List NumberedStatement} {start : Nat}
  {f g : Fragment} {u v w : Variable} (h : body.IsScoped around entries start)

include h

theorem start_le (hf : f ∈ body.statements) (hg : g ∈ body.statements) (hle : f.id ≤ g.id) :
    f.span.startOffset ≤ g.span.startOffset := by
  rcases Nat.lt_or_eq_of_le hle with hlt | heq
  · exact (h.precedes_of_lt hf hg hlt).start
  · rw [h.eq_of_id (List.mem_filter.mp hf).1 (List.mem_filter.mp hg).1 heq]

/-- A variable hides a name from the assignments where it is visible. -/
theorem not_allows (hw : body.Assigns g w) (hmember : u.isMember = false)
    (hname : u.name = w.name) (hstart : u.scope.start ≤ g.span.startOffset)
    (hstop : around.bodyEnd ≤ u.scope.stop) : ¬u.Allows entries w := by
  intro hallows
  have hhidden := hallows.hidden (h.isAssigned hw.toIntroduces) hmember hname
  rw [h.start_eq hw.toIntroduces (Or.inl rfl)] at hhidden
  have hend := (h.within g (h.mem_statements hw.toIntroduces)).2
  have hextent := hw.extent
  simp only [Scope.contains, Bool.and_eq_false_iff, decide_eq_false_iff_not] at hhidden
  omega

theorem scope_of_assigns (hlanguage : around.language = .python) (hv : body.Assigns f v) :
    v.scope = ⟨around.file, f.span.startOffset, around.bodyEnd⟩ := by
  obtain ⟨stop, -, hscope⟩ := h.scope_eq hv.toIntroduces (Or.inl rfl)
  rw [hscope, Statement.localScope, hlanguage]

theorem once (hlanguage : around.language = .python) (hv : body.Assigns f v)
    (hw : body.Assigns g w) (hname : v.name = w.name) : v = w := by
  have hlocal : ∀ {f g v w}, body.Assigns f v → body.Assigns g w → v.name = w.name →
      ¬v.Allows entries w := by
    intro f g v w hv hw hname hallows
    have hscope := h.scope_of_assigns hlanguage hv
    have hstart := h.start_le (h.mem_statements hv.toIntroduces)
      (h.mem_statements hw.toIntroduces) (hallows.statement f.id g.id hv.statement hw.statement)
    refine h.not_allows hw ?_ hname ?_ ?_ hallows
    · simp [Variable.isMember, hv.role]
    · rwa [hscope]
    · rw [hscope]
  rcases rel_or_rel_of_pairwise h.ordered hv.listed hw.listed with heq | hbefore | hafter
  · exact heq
  · exact absurd hbefore (hlocal hv hw hname)
  · exact absurd hafter (hlocal hw hv hname.symm)

theorem name_ne_of_parameter (hu : u ∈ body.declarations) (hnone : u.statement = none)
    (hstart : u.scope.start ≤ start) (hstop : around.bodyEnd ≤ u.scope.stop)
    (hv : body.Assigns f v) : u.name ≠ v.name := by
  intro hname
  have hmember : u.isMember = false := by
    rcases h.originates u hu with ⟨-, hrole⟩ | ⟨g, -, hstatement, -⟩
    · simp [Variable.isMember, hrole]
    · rw [hnone] at hstatement
      cases hstatement
  have hlow := (h.within f (h.mem_statements hv.toIntroduces)).1
  rcases rel_or_rel_of_pairwise h.ordered hu hv.listed with rfl | hbefore | hafter
  · rw [hv.statement] at hnone
    cases hnone
  · exact h.not_allows hv hmember hname (Nat.le_trans hstart hlow) hstop hbefore
  · have := hafter.parameter hnone
    rw [hv.statement] at this
    cases this

theorem start_le_of_outerNames (hv : body.Assigns f v) (hentry : entry ∈ entries)
    (hstatement : entry.fragment.isStatement = true) (hname : v.name ∈ entry.outerNames) :
    f.span.startOffset ≤ entry.fragment.span.startOffset := by
  obtain ⟨origin, ids, rfl, horigin⟩ := h.exists_origin hv.toIntroduces
  have hlt : origin.fragment.id < entry.fragment.id := by
    refine Nat.lt_of_not_le fun hle => ?_
    exact horigin.outer (h.isAssigned hv.toIntroduces) entry hentry hle hname
  obtain ⟨others, hmem⟩ := h.exists_fragment hentry
  exact (h.precedes_of_lt (h.mem_statements hv.toIntroduces)
    (List.mem_filter.mpr ⟨hmem, hstatement⟩) hlt).start

end IsScoped

/-! ## Variables of declarations -/

/-- A local variable that a statement of its own declares is visible from the statement to the end
of the innermost block around it, so those of blocks apart from each other do not meet. -/
structure ScopesToBlocks (body : Body) : Prop where
  scope : ∀ f v, body.Introduces .variableDeclaration f v →
    v.scope.start = f.span.startOffset ∧
      ∃ block, (body.ancestors f).find? Fragment.isBlock = some block ∧
        v.scope.stop = block.span.endOffset
  apart : ∀ f g v w b c, body.Introduces .variableDeclaration f v →
    body.Introduces .variableDeclaration g w →
    (body.ancestors f).find? Fragment.isBlock = some b →
    (body.ancestors g).find? Fragment.isBlock = some c →
    b ≠ c → b ∉ body.ancestors c → c ∉ body.ancestors b → v.scope.overlaps w.scope = false

namespace IsScoped

variable {body : Body} {around : Surroundings} {entries : List NumberedStatement} {start : Nat}
  {f g b c : Fragment} {v w : Variable} (h : body.IsScoped around entries start)

include h

theorem stop_eq (hlanguage : around.language = .java)
    (hv : body.Introduces .variableDeclaration f v)
    (hb : (body.ancestors f).find? Fragment.isBlock = some b) :
    v.scope.stop = b.span.endOffset := by
  obtain ⟨stop, hcloses, hscope⟩ := h.scope_eq hv (Or.inr rfl)
  rw [hscope, Statement.localScope, hlanguage, hcloses b hb]

theorem scope_declared (hlanguage : around.language = .java)
    (hv : body.Introduces .variableDeclaration f v) :
    v.scope.start = f.span.startOffset ∧
      ∃ block, (body.ancestors f).find? Fragment.isBlock = some block ∧
        v.scope.stop = block.span.endOffset := by
  have hne : f.id ≠ 0 := by
    intro hzero
    have hroot := (h.arena.block f (hzero ▸ h.arena.get?_id hv.mem)).1
    rw [hv.of_kind] at hroot
    cases hroot
  obtain ⟨block, hblock⟩ := h.arena.exists_block_above hv.mem hne
  exact ⟨h.start_eq hv (Or.inr rfl), block, hblock, h.stop_eq hlanguage hv hblock⟩

theorem mem_statements_of_block (hf : f ∈ body.fragments)
    (hb : (body.ancestors f).find? Fragment.isBlock = some b) :
    b ∈ body.statements ∧ b.id < f.id ∧ b.kind = .block := by
  have habove := List.mem_of_find?_eq_some hb
  have hisBlock : b.isBlock = true := List.find?_some hb
  obtain ⟨hmem, hlt⟩ := h.arena.mem_of_mem_ancestors hf habove
  have hstatement : b.isStatement = true := by
    simp [Fragment.isStatement, h.arena.composite_of_mem_ancestors hf habove]
  exact ⟨List.mem_filter.mpr ⟨hmem, hstatement⟩, hlt, beq_iff_eq.mp hisBlock⟩

/-- A block ends before a later one that it does not hold, and so before what the later one
holds. -/
theorem end_le_of_lt (hf : f ∈ body.fragments) (hg : g ∈ body.statements)
    (hb : (body.ancestors f).find? Fragment.isBlock = some b)
    (hc : (body.ancestors g).find? Fragment.isBlock = some c) (hlt : b.id < c.id)
    (hapart : b ∉ body.ancestors c) : b.span.endOffset ≤ g.span.startOffset := by
  obtain ⟨hbmem, -, hkind⟩ := h.mem_statements_of_block hf hb
  obtain ⟨hcmem, hclt, -⟩ := h.mem_statements_of_block (List.mem_filter.mp hg).1 hc
  have hends := (h.precedes_of_lt hbmem hcmem hlt).apart (by rw [hkind]; nofun)
  exact Nat.le_trans (hends.resolve_right hapart) (h.precedes_of_lt hcmem hg hclt).start

theorem scopesToBlocks (hlanguage : around.language = .java) : body.ScopesToBlocks where
  scope _ _ hv := h.scope_declared hlanguage hv
  apart := by
    intro f g v w b c hv hw hb hc hne hbc hcb
    have hvstart := h.start_eq hv (Or.inr rfl)
    have hwstart := h.start_eq hw (Or.inr rfl)
    have hvstop := h.stop_eq hlanguage hv hb
    have hwstop := h.stop_eq hlanguage hw hc
    have hdisjoint : b.span.endOffset ≤ g.span.startOffset ∨
        c.span.endOffset ≤ f.span.startOffset := by
      have hbmem := (List.mem_filter.mp (h.mem_statements_of_block hv.mem hb).1).1
      have hcmem := (List.mem_filter.mp (h.mem_statements_of_block hw.mem hc).1).1
      rcases Nat.lt_trichotomy b.id c.id with hlt | heq | hlt
      · exact Or.inl (h.end_le_of_lt hv.mem (h.mem_statements hw) hb hc hlt hbc)
      · exact absurd (h.eq_of_id hbmem hcmem heq) hne
      · exact Or.inr (h.end_le_of_lt hw.mem (h.mem_statements hv) hc hb hlt hcb)
    simp only [Scope.overlaps, Bool.and_eq_false_iff, decide_eq_false_iff_not]
    omega

end IsScoped

/-! ## Bodies of lowered methods -/

section OfMethod

variable {around : Surroundings} {method : Node}

theorem statementsOf_follows :
    ∀ statement ∈ statementsOf around method,
      Statement.Follows (Statement.HeadArises around) around.bodyEnd statement := by
  unfold statementsOf
  split
  · exact Statement.ofNode_follows (fun _ _ _ _ _ _ _ _ hknown => Statement.ofNode_arises hknown) _
  · exact fun _ hmem => absurd hmem List.not_mem_nil

theorem ofMethod_tells :
    ∀ entry ∈ numberedOf around method, (ofMethod around method parameters).Tells around entry := by
  obtain ⟨declared, hfragments⟩ := ofMethod_fragments around method parameters
  refine Statement.number_tells declared (ofMethod_isArena around method parameters)
    (closes_none around.bodyEnd) _ statementsOf_follows (fun f hf => ?_)
  rw [hfragments]
  exact hf

theorem numberedOf_areRegular : NumberedStatement.AreRegular around (numberedOf around method) where
  ascending := by
    have hids := Statement.number_ids { } (statementsOf around method)
    rw [← List.pairwise_map, numberedOf, hids]
    exact List.pairwise_lt_range'
  arises := by
    intro entry hentry b hb
    obtain ⟨stop, -, harises⟩ := ofMethod_tells [] entry hentry b hb
    exact ⟨stop, harises⟩

theorem ofMethod_reaches (around : Surroundings) (method : Node) (parameters : List Node) :
    ∃ limit names, names.declarations = (ofMethod around method parameters).declarations ∧
      DeclaredNames.Reaches (numberedOf around method) limit names := by
  obtain ⟨limit, hreaches⟩ :=
    (DeclaredNames.reaches_ofParameters (parameters.filterMap
      (Variable.ofParameter? (.ofSpan around.file method.span)))).foldl_afterStatement
      numberedOf_areRegular (fun _ hentry => hentry) numberedOf_areRegular.ascending
      (fun _ hentry => Or.inr hentry) (fun _ _ => Nat.zero_le _)
  exact ⟨limit, _, rfl, hreaches⟩

theorem ofMethod_areLaid (around : Surroundings) (parameters : List Node) {block : Node}
    (hbody : method.body? = some block) (hencloses : method.Everywhere Node.Encloses)
    (htidy : method.Tidy language) :
    (ofMethod around method parameters).AreLaid block.span.startOffset block.span.endOffset
      (ofMethod around method parameters).statements := by
  obtain ⟨declared, hfragments⟩ := ofMethod_fragments around method parameters
  have hspan := (hencloses.self block (Node.mem_children_of_body? hbody)).2.1
  have hrow : Statement.AreRow block.span.startOffset block.span.endOffset
      (statementsOf around method) := by
    rw [statementsOf, hbody]
    exact Statement.ofNode_areRow around around.bodyEnd hspan (hencloses.body hbody)
      (htidy.body hbody)
  rw [statements, hfragments]
  refine Statement.number_areLaid declared (ofMethod_isArena around method parameters) _
    (statementsOf_isShaped around method) hrow fun f hf => ?_
  rw [hfragments]
  exact hf

/-- In a body whose nodes are nested and in order, statements and variables are in order. -/
theorem ofMethod_isScoped
    (hbodyEnd : ∀ block, method.body? = some block → around.bodyEnd = block.span.endOffset)
    (hencloses : method.Everywhere Node.Encloses) (htidy : method.Tidy language) :
    (ofMethod around method parameters).IsScoped around (numberedOf around method)
      method.span.startOffset := by
  have hfragments := ofMethod_fragments around method parameters
  have hids := statements_pairwise (ofMethod_ids around method parameters)
  rw [List.pairwise_map] at hids
  obtain ⟨limit, names, hnames, hreaches⟩ := ofMethod_reaches around method parameters
  have hlaid : (∀ f ∈ (ofMethod around method parameters).statements,
      method.span.startOffset ≤ f.span.startOffset ∧ f.span.endOffset ≤ around.bodyEnd) ∧
        (ofMethod around method parameters).statements.Pairwise
          (ofMethod around method parameters).Precedes := by
    cases hbody : method.body? with
    | none =>
      have hnone : (ofMethod around method parameters).statements = [] := by
        obtain ⟨declared, hfragments⟩ := hfragments
        rw [statements, hfragments, numberedOf, statementsOf_eq_nil around hbody]
        rfl
      rw [hnone]
      exact ⟨fun _ hmem => absurd hmem List.not_mem_nil, .nil⟩
    | some block =>
      have hlaid := ofMethod_areLaid around parameters hbody hencloses htidy
      have hstart := (hencloses.self block (Node.mem_children_of_body? hbody)).1
      refine ⟨fun f hf => ?_, hlaid.ordered⟩
      have hwithin := hlaid.within f hf
      rw [hbodyEnd block hbody]
      omega
  exact
    { arena := ofMethod_isArena around method parameters
      numbered := hfragments
      regular := numberedOf_areRegular
      tells := ofMethod_tells parameters
      within := hlaid.1
      precedes := hids.and hlaid.2
      originates := ofMethod_originates around method parameters
      ordered := hnames ▸ hreaches.ordered
      origin := by
        intro v hv hstatement
        obtain ⟨entry, -, horigin⟩ := hreaches.origin v (hnames ▸ hv) hstatement
        exact ⟨entry, horigin⟩ }

end OfMethod

end Body

end CodeEvolution
