import ScriptCore.Dict
import ScriptCore.Proofs.Json.Written

/-!
# Which entries of a dict are written

Entries of a dict are told apart by their keys, but in JSON they are members named by the texts of
their keys, and different keys may have one text: the integer `1` and the string `1` do.  Of members
with one name only the last is kept, and no error is raised.

How the parts of a value are matched with the parts of its form is said by `Heap.Part`.  As long as
no two keys have one text, each part of the form is the form of the part of the value it is matched
with (`written_part`), and each part of the value is matched with one (`exists_part`).  So the
export keeps all entries on all levels exactly if no dict in the value has two keys with one text
(`toJson_keeps_entries_iff`).

Dropping an entry is visible at the dict itself: its object has fewer members than it has entries.
So that all entries are kept everywhere is a condition on the numbers alone, and the way down from
the value to a part is found step by step, one dict at a time.
-/

namespace ScriptCore.Heap

/-- A value and its form have parts that belong together: an element of a list and the item at its
place, or the value of an entry and the member with the text of its key. -/
inductive Part (h : Heap) : Value × JsonTree → Value × JsonTree → Prop
  | element {address : Address} {trees : List JsonTree} {item : Value} {tree : JsonTree}
      (hpair : (item, tree) ∈ (h.list address).toList.zip trees) :
      Part h (.list address, .array trees) (item, tree)
  | entry {address : Address} {members : List (String × JsonTree)} {key item : Value}
      {tree : JsonTree} (hentry : (key, item) ∈ (h.dict address).entries)
      (hmember : (h.plainText key, tree) ∈ members) :
      Part h (.dict address, .object members) (item, tree)

/-- The texts of the keys of a dict. -/
def keyTexts (h : Heap) (address : Address) : List String :=
  (h.dict address).entries.map fun entry => h.plainText entry.1

variable {h : Heap} {value : Value} {tree : JsonTree} {address : Address}

/-- The form of a dict is the object of its entries, named by the texts of their keys. -/
theorem Written.of_dict (hwritten : h.Written (.dict address) tree) :
    ∃ members, tree = .object (JsonTree.sortedMembers members) ∧
      members.map (·.1) = h.keyTexts address ∧ members.length = (h.dict address).entries.length ∧
      ∀ pair ∈ (h.dict address).entries.zip members,
        h.plainText pair.1.1 = pair.2.1 ∧ h.Written pair.1.2 pair.2.2 := by
  cases hwritten with
  | dict hlength hkeys hall =>
      rename_i members
      exact ⟨members, rfl, (map_eq_map_of_zip hlength hkeys).symm, hlength,
        fun pair hpair => ⟨hkeys pair hpair, hall pair hpair⟩⟩

/-- The form of a dict has as many members as the dict has entries if the texts of the keys are all
different, and only then. -/
theorem Written.length_eq_iff {members : List (String × JsonTree)}
    (hwritten : h.Written (.dict address) (.object members)) :
    members.length = (h.dict address).entries.length ↔ (h.keyTexts address).Nodup := by
  obtain ⟨all, htree, hnames, hlength, -⟩ := hwritten.of_dict
  obtain rfl := JsonTree.object.inj htree
  rw [← hlength, ← hnames, JsonTree.length_sortedMembers_eq_iff]

/-- With different texts, the member with the text of a key is the form of the value of the
entry. -/
theorem Written.of_member {members : List (String × JsonTree)}
    (hwritten : h.Written (.dict address) (.object members)) (hnodup : (h.keyTexts address).Nodup)
    {key item : Value} (hentry : (key, item) ∈ (h.dict address).entries)
    (hmember : (h.plainText key, tree) ∈ members) : h.Written item tree := by
  obtain ⟨all, htree, hnames, hlength, hall⟩ := hwritten.of_dict
  obtain rfl := JsonTree.object.inj htree
  obtain ⟨member, hpair⟩ := exists_mem_zip_of_mem hlength hentry
  obtain ⟨hname, hform⟩ := hall _ hpair
  obtain rfl : (h.plainText key, tree) = member :=
    List.inj_on_of_nodup_map (hnames ▸ hnodup) (JsonTree.mem_of_mem_sortedMembers hmember)
      (List.of_mem_zip hpair).2 hname
  exact hform

/-- With different texts, each entry has its member. -/
theorem Written.exists_member {members : List (String × JsonTree)}
    (hwritten : h.Written (.dict address) (.object members)) (hnodup : (h.keyTexts address).Nodup)
    {key item : Value} (hentry : (key, item) ∈ (h.dict address).entries) :
    ∃ tree, (h.plainText key, tree) ∈ members := by
  obtain ⟨all, htree, hnames, hlength, hall⟩ := hwritten.of_dict
  obtain rfl := JsonTree.object.inj htree
  obtain ⟨member, hpair⟩ := exists_mem_zip_of_mem hlength hentry
  refine ⟨member.2, JsonTree.mem_sortedMembers (hnames ▸ hnodup) ?_⟩
  rw [(hall _ hpair).1]
  exact (List.of_mem_zip hpair).2

/-- If no dict in a value has two keys with one text, each part of the form is the form of the part
of the value. -/
theorem written_part (hwritten : h.Written value tree)
    (hnodup : ∀ address, Relation.ReflTransGen h.Inside (.dict address) value →
      (h.keyTexts address).Nodup) {part : Value × JsonTree}
    (hpart : Relation.ReflTransGen h.Part (value, tree) part) :
    h.Written part.1 part.2 ∧ Relation.ReflTransGen h.Inside part.1 value := by
  induction hpart with
  | refl => exact ⟨hwritten, .refl⟩
  | tail _ hstep ih =>
      obtain ⟨hwritten, hwithin⟩ := ih
      cases hstep with
      | element hpair =>
          cases hwritten with
          | list _ hall => exact ⟨hall _ hpair, hwithin.head (.element (List.of_mem_zip hpair).1)⟩
      | entry hentry hmember =>
          exact ⟨hwritten.of_member (hnodup _ hwithin) hentry hmember,
            hwithin.head (.entry hentry)⟩

/-- If no entry is lost, each part of the value has its form as a part of the form. -/
theorem exists_part (hwritten : h.Written value tree)
    (hkept : ∀ address part, Relation.ReflTransGen h.Part (value, tree) (.dict address, part) →
      ∃ members, part = .object members ∧ members.length = (h.dict address).entries.length)
    {inner : Value} (hinner : Relation.ReflTransGen h.Inside inner value) :
    ∃ part, Relation.ReflTransGen h.Part (value, tree) (inner, part) ∧ h.Written inner part := by
  induction hinner using Relation.ReflTransGen.head_induction_on with
  | refl => exact ⟨tree, .refl, hwritten⟩
  | head hinside _ ih =>
      obtain ⟨around, hpart, hform⟩ := ih
      cases hinside with
      | element hitem =>
          cases hform with
          | list hlength hall =>
              obtain ⟨part, hpair⟩ := exists_mem_zip_of_mem hlength hitem
              exact ⟨part, hpart.tail (.element hpair), hall _ hpair⟩
      | entry hentry =>
          -- The dict kept all its entries, so their texts differ and this one has a member of its
          -- own.
          obtain ⟨members, rfl, hlength⟩ := hkept _ _ hpart
          have hnodup := hform.length_eq_iff.1 hlength
          obtain ⟨part, hmember⟩ := hform.exists_member hnodup hentry
          exact ⟨part, hpart.tail (.entry hentry hmember), hform.of_member hnodup hentry hmember⟩

/-- A value that has a form in JSON keeps all entries of its dicts there, on every level, if no dict
in it has two keys with one text, and only then. -/
theorem toJson_keeps_entries_iff (hform : h.toJson value = .ok tree) :
    (∀ address part, Relation.ReflTransGen h.Part (value, tree) (.dict address, part) →
      ∃ members, part = .object members ∧ members.length = (h.dict address).entries.length) ↔
    ∀ address, Relation.ReflTransGen h.Inside (.dict address) value →
      (h.keyTexts address).Nodup := by
  have hwritten := written_of_exportWithin hform
  constructor
  · intro hkept address hwithin
    obtain ⟨part, hpart, hform⟩ := exists_part hwritten hkept hwithin
    obtain ⟨members, rfl, hlength⟩ := hkept address part hpart
    exact hform.length_eq_iff.1 hlength
  · intro hnodup address part hpart
    obtain ⟨hform, hwithin⟩ := written_part hwritten hnodup hpart
    obtain ⟨all, rfl, -⟩ := hform.of_dict
    exact ⟨_, rfl, hform.length_eq_iff.2 (hnodup address hwithin)⟩

/-- A dict within a dict, no two keys of one text in either. -/
def labelled : Heap :=
  let inner : Heap := (dictOf [(.integer 2, .string "a"), (.integer 10, .string "b")] empty).2
  (dictOf [(.string "x", .dict 0), (.boolean true, .null)] inner).2

/-- All entries of the two dicts are written. -/
theorem labelled_keeps_entries :
    let tree : JsonTree := .object [("true", .null),
      ("x", .object [("10", .string "b"), ("2", .string "a")])]
    labelled.toJson (.dict 1) = .ok tree ∧
    ∀ address part, Relation.ReflTransGen labelled.Part (.dict 1, tree) (.dict address, part) →
      ∃ members, part = .object members ∧
        members.length = (labelled.dict address).entries.length := by
  intro tree
  have hform : labelled.toJson (.dict 1) = .ok tree := by rfl
  refine ⟨hform, (toJson_keeps_entries_iff hform).2 fun address _ => ?_⟩
  match address with
  | 0 | 1 => decide +kernel
  | _ + 2 => exact .nil

/-- A dict with the integer `1` and the string `1` as keys. -/
def clashing : Heap :=
  (dictOf [(.integer 1, .string "a"), (.string "1", .string "b")] empty).2

/-- Of two entries whose keys have one text the first is lost. -/
theorem clashing_loses_entry :
    let tree : JsonTree := .object [("1", .string "b")]
    (clashing.dict 0).entries = [(.integer 1, .string "a"), (.string "1", .string "b")] ∧
    clashing.toJson (.dict 0) = .ok tree ∧
    ¬ ∀ address part, Relation.ReflTransGen clashing.Part (.dict 0, tree) (.dict address, part) →
      ∃ members, part = .object members ∧
        members.length = (clashing.dict address).entries.length := by
  intro tree
  refine ⟨by decide +kernel, by rfl, fun hkept => ?_⟩
  obtain ⟨members, hmembers, hlength⟩ := hkept 0 tree .refl
  obtain rfl := JsonTree.object.inj hmembers
  exact absurd hlength (by decide +kernel)

end ScriptCore.Heap
