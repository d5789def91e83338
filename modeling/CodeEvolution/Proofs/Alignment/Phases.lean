import CodeEvolution.Proofs.OneToOne
/-!
# What the phases of an alignment keep

The links made so far go through five phases. Each takes some of its own candidates, and those
join free statements of one kind, leaf with leaf or composite with composite. So one lemma about
a phase gives what holds of the links between statements at the end.
-/
namespace CodeEvolution.Comparison

open OneToOne

variable {c : Comparison} {links : List Link} {sides : Sides} {candidate : Candidate}
  {criterion : List Link → Criterion}

/-- A link joins two statements of one kind, both in scope and of one shape, and an exact link
joins equal texts. -/
structure Joins (c : Comparison) (link : Link) (b a : Fragment) : Prop where
  before : link.before = b.id
  after : link.after = a.id
  kind : b.kind = a.kind
  text : link.kind = .exact → b.text = a.text
  inSides : (b ∈ c.leaves.before ∧ a ∈ c.leaves.after) ∨
    (b ∈ c.composites.before ∧ a ∈ c.composites.after)

/-- The links join statements, and no statement is linked twice. -/
structure Linking (c : Comparison) (links : List Link) : Prop where
  injective : Injective Link.before Link.after links
  joins : ∀ link ∈ links, ∃ b a, c.Joins link b a

def Criterion.IsSound (criterion : Criterion) : Prop :=
  ∀ b a found, criterion b a = some found → found.1 = .exact → b.text = a.text

theorem exactly_isSound (links : List Link) : (exactly links).IsSound := by
  intro b a found h _
  unfold exactly at h
  split at h
  · assumption
  · simp at h

theorem byReplacement_isSound (c : Comparison) (links : List Link) :
    (c.byReplacement links).IsSound := by
  intro b a found h hexact
  obtain ⟨replacements, -, rfl⟩ := Option.map_eq_some_iff.mp h
  simp at hexact

theorem byPlace_isSound (c : Comparison) (links : List Link) : (c.byPlace links).IsSound := by
  intro b a found h hexact
  unfold byPlace at h
  split at h
  · obtain rfl := Option.some.inj h
    simp at hexact
  · simp at h

theorem mem_candidates {criterion : Criterion} :
    candidate ∈ c.candidates links sides criterion ↔
      ∃ b ∈ sides.before, ∃ a ∈ sides.after, ∃ found,
        beforeLinked links b = false ∧ afterLinked links a = false ∧ b.kind = a.kind ∧
          criterion b a = some found ∧
          candidate = ⟨⟨b.id, a.id, found.1, found.2⟩, c.cost links found.2.length b a⟩ := by
  simp only [candidates, List.mem_flatMap, List.mem_filterMap, List.mem_filter]
  constructor
  · rintro ⟨b, ⟨hb, hfreeb⟩, a, ⟨ha, hfreea⟩, h⟩
    split at h
    · rename_i hkind
      obtain ⟨found, hfound, rfl⟩ := Option.map_eq_some_iff.mp h
      exact ⟨b, hb, a, ha, found, by simpa using hfreeb, by simpa using hfreea, hkind, hfound, rfl⟩
    · simp at h
  · rintro ⟨b, hb, a, ha, found, hfreeb, hfreea, hkind, hfound, rfl⟩
    refine ⟨b, ⟨hb, by simp [hfreeb]⟩, a, ⟨ha, by simp [hfreea]⟩, ?_⟩
    rw [if_pos hkind, hfound, Option.map_some]

def tried (c : Comparison) (criterion : List Link → Criterion) (links : List Link)
    (sides : Sides) : List Candidate :=
  (c.candidates links sides (criterion links)).mergeSort fun x y => costLe x.cost y.cost

theorem phase_eq (c : Comparison) (criterion : List Link → Criterion) (links : List Link)
    (sides : Sides) :
    c.phase criterion links sides =
      takeAll Link.before Link.after links ((c.tried criterion links sides).map Candidate.link) :=
  foldl_take links (c.tried criterion links sides)

theorem mem_tried :
    candidate ∈ c.tried criterion links sides ↔
      candidate ∈ c.candidates links sides (criterion links) :=
  List.mem_mergeSort

theorem phase_linking (h : c.Linking links) (hsound : (criterion links).IsSound)
    (hsides : sides = c.leaves ∨ sides = c.composites) :
    c.Linking (c.phase criterion links sides) := by
  rw [phase_eq]
  refine ⟨takeAll_injective h.injective _, ?_⟩
  intro link hlink
  rcases mem_takeAll hlink with hlink | hlink
  · exact h.joins link hlink
  · obtain ⟨candidate, hcandidate, rfl⟩ := List.mem_map.mp hlink
    obtain ⟨b, hb, a, ha, found, -, -, hkind, hfound, rfl⟩ :=
      mem_candidates.mp (mem_tried.mp hcandidate)
    refine ⟨b, a, rfl, rfl, hkind, hsound b a found hfound, ?_⟩
    rcases hsides with rfl | rfl
    · exact Or.inl ⟨hb, ha⟩
    · exact Or.inr ⟨hb, ha⟩

theorem statementLinks_linking (c : Comparison) : c.Linking c.statementLinks := by
  have hstart : c.Linking [] := ⟨injective_nil _ _, by simp⟩
  have hexactLeaves := phase_linking hstart (exactly_isSound []) (Or.inl rfl)
  have hexactAll := phase_linking hexactLeaves (exactly_isSound _) (Or.inr rfl)
  have hreplacedLeaves := phase_linking hexactAll (c.byReplacement_isSound _) (Or.inl rfl)
  have hreplacedAll := phase_linking hreplacedLeaves (c.byReplacement_isSound _) (Or.inr rfl)
  exact phase_linking hreplacedAll (c.byPlace_isSound _) (Or.inr rfl)

end CodeEvolution.Comparison
