import CodeEvolution.Delta.Basic
import CodeEvolution.Proofs.Delta.Partition
import Mathlib.Data.List.Nodup
/-!
# Pairing of operations in two passes

After the pairing by signature, operations are paired by a name that is left over once on either
side. The second pass takes added operations away by their keys. A key tells its name, and the
name is borne once, so exactly the paired occurrences go. Nothing is lost, and afterwards no name
is left over once on either side.
-/
namespace CodeEvolution.ClassDelta

variable {name : String} {operations : List Operation} {a : Operation}

def leftOnce (removed added : List Operation) (name : String) : Bool :=
  countNamed removed name == 1 && countNamed added name == 1

theorem leftOnce_iff {removed added : List Operation} :
    leftOnce removed added name = true ↔
      countNamed removed name = 1 ∧ countNamed added name = 1 := by
  simp [leftOnce]

theorem countNamed_eq_countP (operations : List Operation) (name : String) :
    countNamed operations name = operations.countP fun o => o.name == name := by
  rw [countNamed, List.countP_eq_length_filter]

theorem eq_of_countNamed {b : Operation} (h : countNamed operations name = 1) (ha : a ∈ operations)
    (hb : b ∈ operations) (hna : a.name = name) (hnb : b.name = name) : a = b := by
  obtain ⟨c, hc⟩ := List.length_eq_one_iff.mp h
  have hac : a ∈ [c] := hc ▸ List.mem_filter.mpr ⟨ha, by simpa using hna⟩
  have hbc : b ∈ [c] := hc ▸ List.mem_filter.mpr ⟨hb, by simpa using hnb⟩
  rw [List.mem_singleton.mp hac, List.mem_singleton.mp hbc]

theorem exists_of_countNamed (h : countNamed operations name = 1) :
    ∃ a ∈ operations, a.name = name := by
  obtain ⟨c, hc⟩ := List.length_eq_one_iff.mp h
  have hmem : c ∈ operations.filter fun o => o.name == name := hc ▸ List.mem_singleton_self c
  exact ⟨c, (List.mem_filter.mp hmem).1, by simpa using (List.mem_filter.mp hmem).2⟩

section SecondPass

variable {removed added : List Operation}

theorem renewed?_eq_some {o : Operation} :
    renewed? removed added o = some a ↔
      leftOnce removed added o.name = true ∧ a ∈ added ∧ a.name = o.name := by
  rw [leftOnce_iff, renewed?]
  split
  · rename_i h
    constructor
    · intro hfind
      exact ⟨h, List.mem_of_find?_eq_some hfind, by simpa using List.find?_some hfind⟩
    · rintro ⟨-, ha, hname⟩
      cases hfind : added.find? fun a => a.name == o.name with
      | none => simpa [hname] using List.find?_eq_none.mp hfind a ha
      | some c =>
        have hc : c.name = o.name := by simpa using List.find?_some hfind
        rw [eq_of_countNamed h.2 (List.mem_of_find?_eq_some hfind) ha hc hname]
  · rename_i h
    simp [h]

theorem renewed?_isSome (o : Operation) :
    (renewed? removed added o).isSome = leftOnce removed added o.name := by
  rw [Bool.eq_iff_iff, Option.isSome_iff_exists]
  constructor
  · rintro ⟨a, ha⟩
    exact (renewed?_eq_some.mp ha).1
  · intro h
    obtain ⟨a, ha, hname⟩ := exists_of_countNamed (leftOnce_iff.mp h).2
    exact ⟨a, renewed?_eq_some.mpr ⟨h, ha, hname⟩⟩

def renewedPairs (removed added : List Operation) : List (Operation × Operation) :=
  removed.filterMap fun o => (renewed? removed added o).map fun a => (o, a)

theorem mem_renewedPairs {p : Operation × Operation} :
    p ∈ renewedPairs removed added ↔ p.1 ∈ removed ∧ renewed? removed added p.1 = some p.2 := by
  simp only [renewedPairs, List.mem_filterMap, Option.map_eq_some_iff]
  constructor
  · rintro ⟨o, ho, a, ha, rfl⟩
    exact ⟨ho, ha⟩
  · rintro ⟨ho, ha⟩
    exact ⟨p.1, ho, p.2, ha, rfl⟩

theorem renewedPairs_fst :
    (renewedPairs removed added).map Prod.fst =
      removed.filter fun o => leftOnce removed added o.name := by
  rw [renewedPairs, List.map_filterMap, ← List.filterMap_eq_filter]
  congr 1
  funext o
  rw [Option.guard, ← renewed?_isSome o]
  cases renewed? removed added o <;> simp

theorem nodup_names {once : String → Bool}
    (h : ∀ name, once name = true → countNamed operations name = 1) :
    ((operations.filter fun o => once o.name).map Operation.name).Nodup := by
  rw [List.nodup_iff_count_le_one]
  intro name
  by_cases hname : once name = true
  · have hcount := h name hname
    rw [countNamed_eq_countP] at hcount
    rw [List.count, List.countP_map, ← hcount, List.countP_filter]
    apply List.countP_mono_left
    intro o _ ho
    simpa using (Bool.and_eq_true_iff.mp ho).1
  · rw [List.count_eq_zero_of_not_mem]
    · exact Nat.zero_le 1
    · intro hmem
      obtain ⟨o, ho, rfl⟩ := List.mem_map.mp hmem
      exact hname (List.mem_filter.mp ho).2

theorem renewedPairs_snd_perm :
    List.Perm ((renewedPairs removed added).map Prod.snd)
      (added.filter fun a => leftOnce removed added a.name) := by
  have hnames : ((renewedPairs removed added).map Prod.snd).map Operation.name =
      ((renewedPairs removed added).map Prod.fst).map Operation.name := by
    rw [List.map_map, List.map_map]
    apply List.map_congr_left
    intro p hp
    exact (renewed?_eq_some.mp (mem_renewedPairs.mp hp).2).2.2
  have hleft : ((renewedPairs removed added).map Prod.snd).Nodup := by
    apply List.Nodup.of_map Operation.name
    rw [hnames, renewedPairs_fst]
    exact nodup_names fun name h => (leftOnce_iff.mp h).1
  have hright : (added.filter fun a => leftOnce removed added a.name).Nodup :=
    (nodup_names fun name h => (leftOnce_iff.mp h).2).of_map Operation.name
  rw [List.perm_ext_iff_of_nodup hleft hright]
  intro a
  simp only [List.mem_map, List.mem_filter]
  constructor
  · rintro ⟨p, hp, rfl⟩
    obtain ⟨honce, ha, hname⟩ := renewed?_eq_some.mp (mem_renewedPairs.mp hp).2
    exact ⟨ha, hname ▸ honce⟩
  · rintro ⟨ha, honce⟩
    obtain ⟨o, ho, hname⟩ := exists_of_countNamed (leftOnce_iff.mp honce).1
    have hr : renewed? removed added o = some a :=
      renewed?_eq_some.mpr ⟨hname ▸ honce, ha, hname.symm⟩
    exact ⟨(o, a), mem_renewedPairs.mpr ⟨ho, hr⟩, rfl⟩

theorem taken_contains (ha : a ∈ added) :
    ((renewedPairs removed added).map fun p => p.2.key).contains a.key =
      leftOnce removed added a.name := by
  rw [Bool.eq_iff_iff, List.contains_iff_mem]
  constructor
  · intro hkey
    obtain ⟨p, hp, hkey⟩ := List.mem_map.mp hkey
    obtain ⟨honce, -, hname⟩ := renewed?_eq_some.mp (mem_renewedPairs.mp hp).2
    have hsame : p.2.name = a.name := congrArg OperationKey.name hkey
    rwa [← hsame, hname]
  · intro honce
    have hmem : a ∈ (renewedPairs removed added).map Prod.snd :=
      renewedPairs_snd_perm.mem_iff.mpr (List.mem_filter.mpr ⟨ha, honce⟩)
    obtain ⟨p, hp, rfl⟩ := List.mem_map.mp hmem
    exact List.mem_map.mpr ⟨p, hp, rfl⟩

def notOnce (removed added operations : List Operation) : List Operation :=
  operations.filter fun o => !leftOnce removed added o.name

theorem countNamed_notOnce (operations : List Operation) (name : String) :
    countNamed (notOnce removed added operations) name =
      if leftOnce removed added name then 0 else countNamed operations name := by
  have hname : ∀ o ∈ operations,
      ((o.name == name) && !leftOnce removed added o.name) =
        ((o.name == name) && !leftOnce removed added name) := by
    intro o _
    by_cases h : o.name = name
    · rw [h]
    · rw [beq_eq_false_iff_ne.mpr h, Bool.false_and, Bool.false_and]
  rw [countNamed, notOnce, List.filter_filter, List.filter_congr hname]
  split <;> simp_all [countNamed]

/-- Once the names left over once are gone, no other name is left over once. -/
theorem leftOnce_notOnce (name : String) :
    leftOnce (notOnce removed added removed) (notOnce removed added added) name = false := by
  rw [leftOnce, countNamed_notOnce, countNamed_notOnce]
  split
  · rfl
  · rename_i h
    simpa [leftOnce] using h

end SecondPass

section Pairing

variable (before after : List Operation)

def bySignature : Partition Operation :=
  Partition.of (fun b a => b.signatureKey == a.signatureKey) before after

theorem pairOperations_eq :
    pairOperations before after =
      let exact := bySignature before after
      { removed := notOnce exact.removed exact.added exact.removed
        added := notOnce exact.removed exact.added exact.added
        common := sortByPosition (before.map Operation.key) (fun p => p.1.key)
          (exact.common ++ renewedPairs exact.removed exact.added) } := by
  change Partition.mk _ _ _ = Partition.mk _ _ _
  congr 1
  · apply List.filter_congr
    intro o _
    rw [← renewed?_isSome o, Option.not_isSome]
    rfl
  · apply List.filter_congr
    intro a ha
    exact congrArg not (taken_contains ha)

theorem pairOperations_before_perm :
    List.Perm ((pairOperations before after).removed ++
      (pairOperations before after).common.map Prod.fst) before := by
  have hexact : List.Perm ((bySignature before after).removed ++
      (bySignature before after).common.map Prod.fst) before :=
    Partition.of_before_perm _ before after
  rw [pairOperations_eq]
  generalize bySignature before after = exact at hexact ⊢
  have hsort := (sortByPosition_perm (before.map Operation.key)
    (fun p : Operation × Operation => p.1.key)
    (exact.common ++ renewedPairs exact.removed exact.added)).map Prod.fst
  rw [List.map_append, renewedPairs_fst] at hsort
  have hsplit := List.perm_append_comm.trans (List.filter_append_perm
    (fun o => leftOnce exact.removed exact.added o.name) exact.removed)
  exact (hsort.append_left _).trans (perm_move hsplit hexact)

theorem pairOperations_after_perm :
    List.Perm ((pairOperations before after).added ++
      (pairOperations before after).common.map Prod.snd) after := by
  have hexact : List.Perm ((bySignature before after).added ++
      (bySignature before after).common.map Prod.snd) after :=
    Partition.of_after_perm _ before after
  rw [pairOperations_eq]
  generalize bySignature before after = exact at hexact ⊢
  have hsort := (sortByPosition_perm (before.map Operation.key)
    (fun p : Operation × Operation => p.1.key)
    (exact.common ++ renewedPairs exact.removed exact.added)).map Prod.snd
  rw [List.map_append] at hsort
  have hsplit := List.perm_append_comm.trans (List.filter_append_perm
    (fun a => leftOnce exact.removed exact.added a.name) exact.added)
  have hmoved := hsort.trans (renewedPairs_snd_perm.append_left _)
  exact (hmoved.append_left _).trans (perm_move hsplit hexact)

theorem pairOperations_apart :
    ∀ b ∈ (pairOperations before after).removed, ∀ a ∈ (pairOperations before after).added,
      b.signatureKey ≠ a.signatureKey := by
  rw [pairOperations_eq]
  intro b hb a ha
  have h := Partition.of_apart (fun b a : Operation => b.signatureKey == a.signatureKey)
    before after b (List.mem_filter.mp hb).1 a (List.mem_filter.mp ha).1
  simpa using h

theorem pairOperations_names (name : String) :
    ¬(countNamed (pairOperations before after).removed name = 1 ∧
      countNamed (pairOperations before after).added name = 1) := by
  rw [pairOperations_eq, ← leftOnce_iff, leftOnce_notOnce]
  exact Bool.false_ne_true

end Pairing

end CodeEvolution.ClassDelta
