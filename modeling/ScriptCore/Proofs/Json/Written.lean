import Mathlib.Data.List.Forall2
import Mathlib.Data.List.Perm.Subperm
import Mathlib.Logic.Relation
import ScriptCore.Json.Export
import ScriptCore.Proofs.Heap.Sound
import ScriptCore.Proofs.Json.Members

/-!
# The written form of a value

`Heap.Written` says what form in JSON a value has, without a word about levels or about the
containers that the export is inside of: a list has the array of the forms of its elements, a dict
has an object with one member for each of its entries.  A form is a finite tree, so what is within
a value that has one is well-founded (`Written.acc`), and no container stands within itself.

Hence the export never meets a container again, and it never runs out of levels either, since the
containers it is inside of are pairwise different and were all made.  So it succeeds exactly on the
values that have a form, and gives that form (`toJson_eq_ok_iff`).
-/

namespace ScriptCore.Heap

/-- A value stands in another one, as an element of a list or as the value of an entry. -/
inductive Inside (h : Heap) : Value → Value → Prop
  | element {address : Address} {item : Value} (hitem : item ∈ (h.list address).toList) :
      Inside h item (.list address)
  | entry {address : Address} {key item : Value} (hentry : (key, item) ∈ (h.dict address).entries) :
      Inside h item (.dict address)

/-- A container as a value. -/
def asValue : Container → Value
  | .list address => .list address
  | .dict address => .dict address
  | .module address => .module address
  | .struct address => .struct address

/-- The form of a value in JSON. -/
inductive Written (h : Heap) : Value → JsonTree → Prop
  | null : Written h .null .null
  | boolean (truth : Bool) : Written h (.boolean truth) (.boolean truth)
  | integer (number : Int64) : Written h (.integer number) (.integer number.toInt)
  | float {number : Float} (hfinite : number.isFinite = true) :
      Written h (.float number) (.float number)
  | string (text : String) : Written h (.string text) (.string text)
  | datetime (instant : Instant) : Written h (.datetime instant) (.string instant.text)
  | error (label message : String) :
      Written h (.error label message)
        (.object [("kind", .string label), ("message", .string message)])
  | list {address : Address} {trees : List JsonTree}
      (hlength : trees.length = (h.list address).toList.length)
      (hall : ∀ pair ∈ (h.list address).toList.zip trees, Written h pair.1 pair.2) :
      Written h (.list address) (.array trees)
  | dict {address : Address} {members : List (String × JsonTree)}
      (hlength : members.length = (h.dict address).entries.length)
      (hkeys : ∀ pair ∈ (h.dict address).entries.zip members, h.plainText pair.1.1 = pair.2.1)
      (hall : ∀ pair ∈ (h.dict address).entries.zip members, Written h pair.1.2 pair.2.2) :
      Written h (.dict address) (.ofMembers members)

variable {h : Heap} {value : Value} {tree : JsonTree}

/-! ## Rows of one length -/

/-- A member of one of two rows of one length has a partner in the other. -/
theorem exists_mem_zip_of_mem {α β : Type} {l : List α} {l' : List β}
    (hlength : l'.length = l.length) {x : α} (hmem : x ∈ l) : ∃ y, (x, y) ∈ l.zip l' := by
  obtain ⟨place, hplace⟩ := List.mem_iff_getElem?.1 hmem
  obtain ⟨hlt, -⟩ := List.getElem?_eq_some_iff.1 hplace
  have hpartner := List.getElem?_eq_getElem (hlength ▸ hlt : place < l'.length)
  exact ⟨_, List.mem_iff_getElem?.2 ⟨place, List.getElem?_zip_eq_some.2 ⟨hplace, hpartner⟩⟩⟩

/-- Two rows look alike if the members at each place do. -/
theorem map_eq_map_of_zip {α β γ : Type} {look : α → γ} {look' : β → γ} {l : List α} {l' : List β}
    (hlength : l'.length = l.length) (hall : ∀ pair ∈ l.zip l', look pair.1 = look' pair.2) :
    l.map look = l'.map look' := by
  have hplaces : List.Forall₂ (fun x y => look x = look' y) l l' :=
    List.forall₂_iff_zip.2 ⟨hlength.symm, fun hpair => hall _ hpair⟩
  rwa [← List.forall₂_eq_eq_eq, List.forall₂_map_left_iff, List.forall₂_map_right_iff]

/-! ## One level of the export -/

/-- A value that is neither a list nor a dict is exported at once. -/
theorem exportWithin_leaf_iff {levels : Nat} {enclosing : List Container}
    (hlist : ∀ address, value ≠ .list address) (hdict : ∀ address, value ≠ .dict address) :
    h.exportWithin levels enclosing value = .ok tree ↔ h.Written value tree := by
  constructor
  · intro hexport
    cases value with
    | float number =>
        simp only [exportWithin] at hexport
        split_ifs at hexport with hfinite
        obtain rfl := Except.ok.inj hexport
        exact .float hfinite
    | list address => exact absurd rfl (hlist address)
    | dict address => exact absurd rfl (hdict address)
    | module | struct | function => simp [exportWithin] at hexport
    | _ =>
        simp only [exportWithin, Except.ok.injEq] at hexport
        subst hexport
        constructor
  · intro hwritten
    cases hwritten with
    | float hfinite => simp only [exportWithin, hfinite, if_true]
    | list | dict => simp_all
    | _ => simp only [exportWithin]

/-- A list that is not met within itself is exported as the array of what its elements are exported
as, one level down. -/
theorem exportWithin_list_iff {levels : Nat} {enclosing : List Container} {address : Address}
    (hnew : .list address ∉ enclosing) :
    h.exportWithin (levels + 1) enclosing (.list address) = .ok tree ↔
      ∃ trees, tree = .array trees ∧ trees.length = (h.list address).toList.length ∧
        ∀ pair ∈ (h.list address).toList.zip trees,
          h.exportWithin levels (.list address :: enclosing) pair.1 = .ok pair.2 := by
  simp only [exportWithin, if_neg hnew, bind_eq_ok_iff, mapM_eq_ok_iff, pure, Except.pure,
    Except.ok.injEq]
  grind

/-- A dict that is not met within itself is exported as the object of what its entries are exported
as, one level down. -/
theorem exportWithin_dict_iff {levels : Nat} {enclosing : List Container} {address : Address}
    (hnew : .dict address ∉ enclosing) :
    h.exportWithin (levels + 1) enclosing (.dict address) = .ok tree ↔
      ∃ members, tree = .ofMembers members ∧ members.length = (h.dict address).entries.length ∧
        (∀ pair ∈ (h.dict address).entries.zip members, h.plainText pair.1.1 = pair.2.1) ∧
        ∀ pair ∈ (h.dict address).entries.zip members,
          h.exportWithin levels (.dict address :: enclosing) pair.1.2 = .ok pair.2.2 := by
  simp only [exportWithin, if_neg hnew, bind_eq_ok_iff, mapM_eq_ok_iff, pure, Except.pure,
    Except.ok.injEq, Prod.ext_iff]
  grind

/-- A container is exported only at a level and only if it is not met within itself. -/
theorem new_of_exportWithin (container : Container) {levels : Nat} {enclosing : List Container}
    (hexport : h.exportWithin levels enclosing (asValue container) = .ok tree) :
    levels ≠ 0 ∧ container ∉ enclosing := by
  cases container with
  | list address | dict address =>
      cases levels with
      | zero => simp [asValue, exportWithin] at hexport
      | succ levels =>
          refine ⟨Nat.succ_ne_zero levels, fun hagain => ?_⟩
          simp [asValue, exportWithin, hagain] at hexport
  | module address | struct address => simp [asValue, exportWithin] at hexport

/-! ## What is exported is the form -/

theorem written_of_exportWithin {levels : Nat} {enclosing : List Container}
    (hexport : h.exportWithin levels enclosing value = .ok tree) : h.Written value tree := by
  induction levels generalizing enclosing value tree with
  | zero =>
      refine (exportWithin_leaf_iff (fun address => ?_) fun address => ?_).1 hexport
      · rintro rfl
        -- A container needs a level, so with none left the value is a leaf.
        exact (new_of_exportWithin (.list address) hexport).1 rfl
      · rintro rfl
        exact (new_of_exportWithin (.dict address) hexport).1 rfl
  | succ levels ih =>
      cases value with
      | list address =>
          obtain ⟨trees, rfl, hlength, hall⟩ :=
            (exportWithin_list_iff (new_of_exportWithin (.list address) hexport).2).1 hexport
          exact .list hlength fun pair hpair => ih (hall pair hpair)
      | dict address =>
          obtain ⟨members, rfl, hlength, hkeys, hall⟩ :=
            (exportWithin_dict_iff (new_of_exportWithin (.dict address) hexport).2).1 hexport
          exact .dict hlength hkeys fun pair hpair => ih (hall pair hpair)
      | _ => exact (exportWithin_leaf_iff (by simp) (by simp)).1 hexport

/-! ## A value with a form is exported -/

/-- What is within a value with a form is well-founded. -/
theorem Written.acc (hwritten : h.Written value tree) : Acc h.Inside value := by
  induction hwritten with
  | list hlength _ ih =>
      refine .intro _ fun item hinside => ?_
      cases hinside with
      | element hitem =>
          obtain ⟨tree, hpair⟩ := exists_mem_zip_of_mem hlength hitem
          exact ih _ hpair
  | dict hlength _ _ ih =>
      refine .intro _ fun item hinside => ?_
      cases hinside with
      | entry hentry =>
          obtain ⟨member, hpair⟩ := exists_mem_zip_of_mem hlength hentry
          exact ih _ hpair
  | _ => exact .intro _ fun item hinside => nomatch hinside

/-- Nothing well-founded stands within itself. -/
theorem not_transGen_self (hacc : Acc h.Inside value) :
    ¬ Relation.TransGen h.Inside value value := by
  induction hacc.transGen with
  | intro value hbelow ih => exact fun hself => ih value hself (hacc.inv_of_transGen hself) hself

/-- The lists and dicts that were made. -/
def enclosers (h : Heap) : List Container :=
  (List.range h.lists.size).map .list ++ (List.range h.dicts.size).map .dict

/-- The export has come to a value within the given containers, each of which stands in the next
one, with levels enough for all containers that are left. -/
structure Enclosed (h : Heap) (levels : Nat) (enclosing : List Container) (value : Value) :
    Prop where
  nodup : enclosing.Nodup
  within : ∀ container ∈ enclosing, Relation.TransGen h.Inside value (asValue container)
  room : h.containerCount < levels + enclosing.length

/-- Only what was made has something in it. -/
theorem Inside.mem_enclosers {container : Container}
    (hinside : h.Inside value (asValue container)) : container ∈ h.enclosers := by
  cases container with
  | list address =>
      have hmade : h.Made (.list address) := by
        -- At an address where nothing was made stands an empty list.
        by_contra hnot
        cases hinside with
        | element hitem =>
            rw [h.list_of_not_made hnot, ResizableArray.holds_empty.toList_eq] at hitem
            nomatch hitem
      simpa [enclosers, Made] using hmade
  | dict address =>
      have hmade : h.Made (.dict address) := by
        by_contra hnot
        cases hinside with
        | entry hentry =>
            rw [h.dict_of_not_made hnot] at hentry
            nomatch hentry
      simpa [enclosers, Made] using hmade
  | module address => nomatch hinside
  | struct address => nomatch hinside

theorem enclosed_nil (h : Heap) (value : Value) : h.Enclosed (h.containerCount + 1) [] value :=
  ⟨.nil, fun _ hcontainer => absurd hcontainer List.not_mem_nil, Nat.lt_succ_self _⟩

variable {levels : Nat} {enclosing : List Container}

/-- Some level is left, because the containers around the value are no more than there are. -/
theorem Enclosed.exists_level (henclosed : h.Enclosed levels enclosing value) :
    ∃ fewer, levels = fewer + 1 := by
  have hsubset : enclosing ⊆ h.enclosers := by
    intro container hcontainer
    obtain ⟨inside, -, hlast⟩ := Relation.TransGen.tail'_iff.1 (henclosed.within _ hcontainer)
    exact hlast.mem_enclosers
  have hlength := (List.subperm_of_subset henclosed.nodup hsubset).length_le
  have hroom := henclosed.room
  simp only [enclosers, List.length_append, List.length_map, List.length_range] at hlength
  unfold containerCount at hroom
  exact Nat.exists_eq_add_one.2 (by omega)

/-- The export may go on in a container that is not met again. -/
theorem Enclosed.inside (container : Container)
    (henclosed : h.Enclosed (levels + 1) enclosing (asValue container))
    (hnew : container ∉ enclosing) {item : Value} (hinside : h.Inside item (asValue container)) :
    h.Enclosed levels (container :: enclosing) item := by
  refine ⟨List.nodup_cons.2 ⟨hnew, henclosed.nodup⟩, fun other hother => ?_, ?_⟩
  · rcases List.mem_cons.1 hother with rfl | hother
    · exact .single hinside
    · exact .head hinside (henclosed.within _ hother)
  · have hroom := henclosed.room
    rw [List.length_cons]
    omega

/-- A container with nothing endless in it is not met again. -/
theorem Enclosed.new (container : Container)
    (henclosed : h.Enclosed levels enclosing (asValue container))
    (hacc : Acc h.Inside (asValue container)) : container ∉ enclosing :=
  fun hagain => not_transGen_self hacc (henclosed.within _ hagain)

/-- A value with a form is exported wherever the export comes to it. -/
theorem Written.exportWithin_eq (hwritten : h.Written value tree)
    (henclosed : h.Enclosed levels enclosing value) :
    h.exportWithin levels enclosing value = .ok tree := by
  have hacc := hwritten.acc
  induction hwritten generalizing levels enclosing with
  | list hlength hall ih =>
      rename_i address trees
      obtain ⟨fewer, rfl⟩ := henclosed.exists_level
      have hnew := Enclosed.new (.list address) henclosed hacc
      refine (exportWithin_list_iff hnew).2 ⟨trees, rfl, hlength, fun pair hpair => ?_⟩
      exact ih pair hpair (Enclosed.inside (.list address) henclosed hnew
        (.element (List.of_mem_zip hpair).1)) (hall pair hpair).acc
  | dict hlength hkeys hall ih =>
      rename_i address members
      obtain ⟨fewer, rfl⟩ := henclosed.exists_level
      have hnew := Enclosed.new (.dict address) henclosed hacc
      refine (exportWithin_dict_iff hnew).2 ⟨members, rfl, hlength, hkeys, fun pair hpair => ?_⟩
      exact ih pair hpair (Enclosed.inside (.dict address) henclosed hnew
        (.entry (List.of_mem_zip hpair).1)) (hall pair hpair).acc
  | _ => exact (exportWithin_leaf_iff (by simp) (by simp)).2 (by constructor <;> assumption)

/-- The export gives the form of a value, and fails if there is none. -/
theorem toJson_eq_ok_iff : h.toJson value = .ok tree ↔ h.Written value tree :=
  ⟨written_of_exportWithin, fun hwritten => hwritten.exportWithin_eq (h.enclosed_nil value)⟩

end ScriptCore.Heap
