import Mathlib.Data.List.Dedup
import Mathlib.Data.List.Induction
import Mathlib.Data.String.Basic
import ScriptCore.Json.Tree

/-!
# The members of objects

An object keeps its members sorted by name.  Taking them in one after the other is what
`JsonTree.sortedMembers` does; this file describes it by three statements.  The names come out in
strict order, so each stands there once; they are the names that went in; and a member comes out as
it went in unless a later one has its name.  So as many come out as went in exactly if their names
are all different (`length_sortedMembers_eq_iff`).
-/

namespace ScriptCore.JsonTree

/-- The names go up strictly. -/
def Sorted (members : List (String × JsonTree)) : Prop :=
  members.Pairwise fun first second => first.1 < second.1

/-- The members of an object that is given members in order. -/
def sortedMembers (members : List (String × JsonTree)) : List (String × JsonTree) :=
  members.foldl (fun sorted (key, tree) => insertMember key tree sorted) []

theorem ofMembers_eq (members : List (String × JsonTree)) :
    ofMembers members = object (sortedMembers members) :=
  rfl

theorem sortedMembers_append_singleton (members : List (String × JsonTree)) (key : String)
    (tree : JsonTree) :
    sortedMembers (members ++ [(key, tree)]) = insertMember key tree (sortedMembers members) := by
  rw [sortedMembers, List.foldl_append]
  rfl

variable {members : List (String × JsonTree)} {key : String} {tree : JsonTree}
  {member : String × JsonTree}

/-! ## Taking in one member -/

theorem eq_or_mem_of_mem_insertMember (hmem : member ∈ insertMember key tree members) :
    member = (key, tree) ∨ member ∈ members := by
  induction members with
  | nil => simpa [insertMember] using hmem
  | cons first rest ih =>
      rw [insertMember] at hmem
      split_ifs at hmem with hlt heq
      · simpa using hmem
      · rcases List.mem_cons.1 hmem with hnew | hrest
        · exact .inl hnew
        · exact .inr (List.mem_cons_of_mem _ hrest)
      · rcases List.mem_cons.1 hmem with rfl | hrest
        · exact .inr List.mem_cons_self
        · exact (ih hrest).imp_right (List.mem_cons_of_mem _)

theorem Sorted.insertMember (hsorted : Sorted members) :
    Sorted (insertMember key tree members) := by
  induction members with
  | nil => exact List.pairwise_singleton _ _
  | cons first rest ih =>
      obtain ⟨hfirst, hrest⟩ := List.pairwise_cons.1 hsorted
      rw [JsonTree.insertMember]
      split_ifs with hlt heq
      · refine List.pairwise_cons.2 ⟨fun other hother => ?_, hsorted⟩
        rcases List.mem_cons.1 hother with rfl | hother
        · exact hlt
        · exact hlt.trans (hfirst other hother)
      · exact List.pairwise_cons.2 ⟨fun other hother => heq ▸ hfirst other hother, hrest⟩
      · refine List.pairwise_cons.2 ⟨fun other hother => ?_, ih hrest⟩
        rcases eq_or_mem_of_mem_insertMember hother with rfl | hbefore
        · exact lt_of_le_of_ne (not_lt.1 hlt) (Ne.symm heq)
        · exact hfirst other hbefore

/-- A member that is taken in takes the place of the one with its name and of no other. -/
theorem Sorted.mem_insertMember_iff (hsorted : Sorted members) :
    member ∈ JsonTree.insertMember key tree members ↔
      member = (key, tree) ∨ member ∈ members ∧ member.1 ≠ key := by
  induction members with
  | nil => simp [JsonTree.insertMember]
  | cons first rest ih =>
      obtain ⟨hfirst, hrest⟩ := List.pairwise_cons.1 hsorted
      rw [JsonTree.insertMember]
      split_ifs with hlt heq
      · -- All names there are greater than the new one.
        have hne : ∀ other ∈ first :: rest, other.1 ≠ key := by
          intro other hother
          rcases List.mem_cons.1 hother with rfl | hother
          · exact hlt.ne'
          · exact (hlt.trans (hfirst other hother)).ne'
        grind
      · have hne : ∀ other ∈ rest, other.1 ≠ key := fun other hother =>
          heq ▸ (hfirst other hother).ne'
        grind
      · rw [List.mem_cons, ih hrest]
        grind

/-! ## Taking in all members -/

theorem sorted_sortedMembers (members : List (String × JsonTree)) :
    Sorted (sortedMembers members) := by
  induction members using List.reverseRecOn with
  | nil => exact .nil
  | append_singleton before last ih =>
      rw [sortedMembers_append_singleton]
      exact ih.insertMember

theorem mem_of_mem_sortedMembers (hmem : member ∈ sortedMembers members) : member ∈ members := by
  induction members using List.reverseRecOn with
  | nil => exact hmem
  | append_singleton before last ih =>
      rw [sortedMembers_append_singleton] at hmem
      rcases eq_or_mem_of_mem_insertMember hmem with rfl | hbefore
      · simp
      · exact List.mem_append_left _ (ih hbefore)

/-- A member whose name does not come again is kept. -/
theorem mem_sortedMembers (hnodup : (members.map (·.1)).Nodup) (hmem : member ∈ members) :
    member ∈ sortedMembers members := by
  induction members using List.reverseRecOn with
  | nil => exact hmem
  | append_singleton before last ih =>
      rw [List.map_append, List.nodup_append] at hnodup
      obtain ⟨hbefore, -, hapart⟩ := hnodup
      rw [sortedMembers_append_singleton, (sorted_sortedMembers before).mem_insertMember_iff]
      rcases List.mem_append.1 hmem with hmem | hlast
      · exact .inr ⟨ih hbefore hmem, hapart _ (List.mem_map.2 ⟨_, hmem, rfl⟩) _ (by simp)⟩
      · exact .inl (by simpa using hlast)

/-- The names that come out are those that went in. -/
theorem mem_names_sortedMembers {name : String} :
    name ∈ (sortedMembers members).map (·.1) ↔ name ∈ members.map (·.1) := by
  induction members using List.reverseRecOn with
  | nil => rfl
  | append_singleton before last ih =>
      have hnames : ∀ name, name ∈ (insertMember last.1 last.2 (sortedMembers before)).map (·.1) ↔
          name = last.1 ∨ name ∈ (sortedMembers before).map (·.1) := by
        intro name
        simp only [List.mem_map, (sorted_sortedMembers before).mem_insertMember_iff]
        grind
      rw [sortedMembers_append_singleton, hnames, ih, List.map_append, List.mem_append]
      simp [or_comm]

theorem Sorted.names_nodup (hsorted : Sorted members) : (members.map (·.1)).Nodup := by
  rw [List.Nodup, List.pairwise_map]
  exact hsorted.imp fun hlt => hlt.ne

/-- As many members come out as went in if no two of them have the same name, and only then. -/
theorem length_sortedMembers_eq_iff :
    (sortedMembers members).length = members.length ↔ (members.map (·.1)).Nodup := by
  -- The names that come out are those that went in, without the repetitions.
  have hperm : ((sortedMembers members).map (·.1)).Perm (members.map (·.1)).dedup := by
    rw [List.perm_ext_iff_of_nodup (sorted_sortedMembers members).names_nodup (List.nodup_dedup _)]
    intro name
    rw [mem_names_sortedMembers, List.mem_dedup]
  have hout : (sortedMembers members).length = (members.map (·.1)).dedup.length := by
    rw [← hperm.length_eq, List.length_map]
  have hin : members.length = (members.map (·.1)).length := (List.length_map _).symm
  rw [hout, hin, (List.dedup_sublist _).length_eq, List.dedup_eq_self]

/-- Members that are sorted come out as they are. -/
theorem Sorted.sortedMembers_eq (hsorted : Sorted members) : sortedMembers members = members := by
  have hnodup := hsorted.names_nodup
  have hperm : (sortedMembers members).Perm members := by
    rw [List.perm_ext_iff_of_nodup (sorted_sortedMembers members).names_nodup.of_map hnodup.of_map]
    exact fun member => ⟨mem_of_mem_sortedMembers, mem_sortedMembers hnodup⟩
  refine hperm.eq_of_pairwise (fun first second _ _ hlt hgt => ?_) (sorted_sortedMembers members)
    hsorted
  exact absurd (hlt.trans hgt) (lt_irrefl _)

end ScriptCore.JsonTree
