import ScriptCore.Proofs.Json.Written

/-!
# Which values are exported

Whether a value has a form in JSON is said here of what is reached from it through elements and the
values of entries: nothing reached is met again within itself, and everything reached is data
(`Heap.Exportable`).  There are three reasons for a value to have no form (`Heap.NoForm`).

While the export is inside of some containers, each of them contains the value it has come to
(`Enclosed.within`).  So a container that is met again contains itself, and the error that the
export ends with names something reached that has no form (`Enclosed.exists_noForm`).  No level ever
runs out on the way, so more levels change nothing (`Enclosed.exportWithin_congr`).

A form depends on the value alone and not on where the export meets it, so a container that is
reached twice is written out twice (`toJson_list`, `toJson_dict`).
-/

namespace ScriptCore

open Relation

/-- Containers that are exported with what is in them, and data. -/
def Value.IsData : Value → Prop
  | .float number => number.isFinite = true
  | .module _ | .struct _ | .function _ => False
  | _ => True

namespace Heap

/-- Nothing reached from a value is met again within itself, and all of it is data. -/
structure Exportable (h : Heap) (value : Value) : Prop where
  acyclic : ∀ inner, ReflTransGen h.Inside inner value → ¬ TransGen h.Inside inner inner
  data : ∀ inner, ReflTransGen h.Inside inner value → inner.IsData

/-- What the export expects in place of a value that has no form. -/
inductive NoForm (h : Heap) : String → Value → Prop
  | float {number : Float} (hnot : number.isFinite = false) :
      NoForm h "finite float" (.float number)
  | module (address : Address) : NoForm h "data value" (.module address)
  | struct (address : Address) : NoForm h "data value" (.struct address)
  | function (address : Address) : NoForm h "data value" (.function address)
  | cycle {value : Value} (hself : TransGen h.Inside value value) :
      NoForm h "acyclic value" value

variable {h : Heap} {value inner : Value} {tree : JsonTree} {levels : Nat}
  {enclosing : List Container} {err : RuntimeError}

/-! ## Values with a form are exportable -/

theorem Written.isData (hwritten : h.Written value tree) : value.IsData := by
  cases hwritten with
  | float hfinite => exact hfinite
  | _ => trivial

/-- What is reached from a value with a form has a form. -/
theorem Written.exists_of_reached (hwritten : h.Written value tree)
    (hreached : ReflTransGen h.Inside inner value) : ∃ form, h.Written inner form := by
  induction hreached using ReflTransGen.head_induction_on with
  | refl => exact ⟨tree, hwritten⟩
  | head hinside _ ih =>
      obtain ⟨form, hform⟩ := ih
      cases hinside with
      | element hitem =>
          cases hform with
          | list hlength hall =>
              obtain ⟨form, hpair⟩ := exists_mem_zip_of_mem hlength hitem
              exact ⟨form, hall _ hpair⟩
      | entry hentry =>
          cases hform with
          | dict hlength _ hall =>
              obtain ⟨member, hpair⟩ := exists_mem_zip_of_mem hlength hentry
              exact ⟨member.2, hall _ hpair⟩

theorem Written.exportable (hwritten : h.Written value tree) : h.Exportable value where
  acyclic _ hreached :=
    let ⟨_, hform⟩ := hwritten.exists_of_reached hreached
    not_transGen_self hform.acc
  data _ hreached :=
    let ⟨_, hform⟩ := hwritten.exists_of_reached hreached
    hform.isData

theorem NoForm.not_exportable {expected : String} (hno : h.NoForm expected inner)
    (hreached : ReflTransGen h.Inside inner value) : ¬ h.Exportable value := by
  intro hexportable
  have hdata := hexportable.data inner hreached
  cases hno with
  | float hnot => exact Bool.false_ne_true (hnot.symm.trans hdata)
  | module | struct | function => exact hdata
  | cycle hself => exact hexportable.acyclic inner hreached hself

/-! ## Errors name something without a form -/

/-- Why an export fails: a container is met within itself, or the value is refused for what it is,
or the export of something in it fails. -/
theorem error_cases (hfail : h.exportWithin (levels + 1) enclosing value = .error err) :
    (∃ container ∈ enclosing, value = asValue container ∧
      err = notExportable "acyclic value" value) ∨
    (∃ expected, h.NoForm expected value ∧ err = notExportable expected value) ∨
    ∃ container ∉ enclosing, value = asValue container ∧ ∃ item, h.Inside item value ∧
      h.exportWithin levels (container :: enclosing) item = .error err := by
  cases value with
  | list address =>
      rw [exportWithin] at hfail
      split_ifs at hfail with hagain
      · exact .inl ⟨_, hagain, rfl, (Except.error.inj hfail).symm⟩
      · -- A list fails where it is met again, or where the first of its items fails that does.
        rcases bind_eq_error_iff.1 hfail with hitems | ⟨trees, -, hnot⟩
        · obtain ⟨item, hitem, hstep⟩ := exists_of_mapM_eq_error hitems
          exact .inr (.inr ⟨_, hagain, rfl, item, .element hitem, hstep⟩)
        · cases hnot
  | dict address =>
      rw [exportWithin] at hfail
      split_ifs at hfail with hagain
      · exact .inl ⟨_, hagain, rfl, (Except.error.inj hfail).symm⟩
      · rcases bind_eq_error_iff.1 hfail with hmembers | ⟨members, -, hnot⟩
        · obtain ⟨⟨key, item⟩, hentry, hstep⟩ := exists_of_mapM_eq_error hmembers
          rcases bind_eq_error_iff.1 hstep with hitem | ⟨tree, -, hnot⟩
          · exact .inr (.inr ⟨_, hagain, rfl, item, .entry hentry, hitem⟩)
          · cases hnot
        · cases hnot
  | float number =>
      simp only [exportWithin] at hfail
      split_ifs at hfail with hfinite
      exact .inr (.inl
        ⟨_, .float (Bool.eq_false_of_not_eq_true hfinite), (Except.error.inj hfail).symm⟩)
  | module | struct | function =>
      simp only [exportWithin, Except.error.injEq] at hfail
      exact .inr (.inl ⟨_, by constructor, hfail.symm⟩)
  | _ => simp [exportWithin] at hfail

/-- An export that fails names something reached that has no form.  A container is only met again
if it is around the value the export has come to, and so contains itself. -/
theorem Enclosed.exists_noForm (henclosed : h.Enclosed levels enclosing value)
    (hfail : h.exportWithin levels enclosing value = .error err) :
    ∃ inner expected, ReflTransGen h.Inside inner value ∧ h.NoForm expected inner ∧
      err = notExportable expected inner := by
  induction levels generalizing enclosing value with
  | zero =>
      obtain ⟨fewer, hfewer⟩ := henclosed.exists_level
      exact absurd hfewer (Nat.succ_ne_zero fewer).symm
  | succ levels ih =>
      rcases error_cases hfail with ⟨container, hagain, rfl, rfl⟩ | ⟨expected, hno, rfl⟩ |
        ⟨container, hnew, rfl, item, hinside, hitem⟩
      · exact ⟨_, _, .refl, .cycle (henclosed.within _ hagain), rfl⟩
      · exact ⟨_, expected, .refl, hno, rfl⟩
      · obtain ⟨inner, expected, hreached, hno⟩ :=
          ih (henclosed.inside container hnew hinside) hitem
        exact ⟨inner, expected, hreached.tail hinside, hno⟩

/-- What is exportable has a form. -/
theorem Exportable.exists_written (hexportable : h.Exportable value) :
    ∃ tree, h.Written value tree := by
  cases hexport : h.toJson value with
  | ok tree => exact ⟨tree, toJson_eq_ok_iff.1 hexport⟩
  | error err =>
      obtain ⟨inner, expected, hreached, hno, -⟩ := (h.enclosed_nil value).exists_noForm hexport
      exact absurd hexportable (hno.not_exportable hreached)

/-! ## Levels never run out -/

/-- With levels enough their number does not matter. -/
theorem Enclosed.exportWithin_congr {more : Nat} (hlevels : h.Enclosed levels enclosing value)
    (hmore : h.Enclosed more enclosing value) :
    h.exportWithin levels enclosing value = h.exportWithin more enclosing value := by
  induction levels generalizing more enclosing value with
  | zero =>
      -- Some level is always left, so there is nothing to show for none.
      obtain ⟨fewer, hfewer⟩ := hlevels.exists_level
      exact absurd hfewer (Nat.succ_ne_zero fewer).symm
  | succ levels ih =>
      obtain ⟨more, rfl⟩ := hmore.exists_level
      cases value with
      | list address =>
          rw [exportWithin, exportWithin]
          split_ifs with hagain
          · rfl
          · congr 1
            refine mapM_congr fun item hitem => ?_
            exact ih (Enclosed.inside (.list address) hlevels hagain (.element hitem))
              (Enclosed.inside (.list address) hmore hagain (.element hitem))
      | dict address =>
          rw [exportWithin, exportWithin]
          split_ifs with hagain
          · rfl
          · congr 1
            refine mapM_congr fun entry hentry => ?_
            obtain ⟨key, item⟩ := entry
            have hitem := ih (Enclosed.inside (.dict address) hlevels hagain (.entry hentry))
              (Enclosed.inside (.dict address) hmore hagain (.entry hentry))
            simp only [hitem]
      | _ => simp only [exportWithin]

/-! ## Shared containers -/

/-- The form of a list is made of the forms that its elements have by themselves. -/
theorem toJson_list {address : Address} (hexportable : h.Exportable (.list address)) :
    ∃ trees, h.toJson (.list address) = .ok (.array trees) ∧
      (h.list address).toList.mapM h.toJson = .ok trees := by
  obtain ⟨tree, hwritten⟩ := hexportable.exists_written
  cases hwritten with
  | list hlength hall =>
      exact ⟨_, toJson_eq_ok_iff.2 (.list hlength hall), mapM_eq_ok_iff.2
        ⟨hlength, fun pair hpair => toJson_eq_ok_iff.2 (hall pair hpair)⟩⟩

/-- The form of a dict is made of the forms that the values of its entries have by themselves. -/
theorem toJson_dict {address : Address} (hexportable : h.Exportable (.dict address)) :
    ∃ members, h.toJson (.dict address) = .ok (.ofMembers members) ∧
      members.map (·.1) = (h.dict address).entries.map (fun entry => h.plainText entry.1) ∧
      (h.dict address).entries.mapM (fun entry => h.toJson entry.2) =
        .ok (members.map (·.2)) := by
  obtain ⟨tree, hwritten⟩ := hexportable.exists_written
  cases hwritten with
  | @dict _ members hlength hkeys hall =>
      refine ⟨members, toJson_eq_ok_iff.2 (.dict hlength hkeys hall),
        (map_eq_map_of_zip hlength hkeys).symm, mapM_eq_ok_iff.2 ⟨by simpa using hlength, ?_⟩⟩
      rw [List.zip_map_right]
      intro pair hpair
      obtain ⟨found, hfound, rfl⟩ := List.mem_map.1 hpair
      exact toJson_eq_ok_iff.2 (hall found hfound)

/-- **What is exported.**  The export ends, with levels to spare.  It succeeds exactly on the values
from which no container is reached that contains itself and nothing that is not data; otherwise it
fails with a type error about something reached that has no form.  What is in a container is written
as it is by itself, however often it is met. -/
theorem toJson_decides_exportable (h : Heap) (value : Value) :
    (∀ levels, h.containerCount < levels → h.exportWithin levels [] value = h.toJson value) ∧
      ((∃ tree, h.toJson value = .ok tree) ↔ h.Exportable value) ∧
      (∀ err, h.toJson value = .error err → err.kind = .type ∧
        ∃ inner expected, ReflTransGen h.Inside inner value ∧ h.NoForm expected inner ∧
          err = notExportable expected inner) ∧
      (h.Exportable value →
        (∀ address, value = .list address → ∃ trees, h.toJson value = .ok (.array trees) ∧
          (h.list address).toList.mapM h.toJson = .ok trees) ∧
        ∀ address, value = .dict address → ∃ members, h.toJson value = .ok (.ofMembers members) ∧
          members.map (·.1) = (h.dict address).entries.map (fun entry => h.plainText entry.1) ∧
          (h.dict address).entries.mapM (fun entry => h.toJson entry.2) =
            .ok (members.map (·.2))) := by
  refine ⟨fun levels hlevels => ?_, ⟨fun ⟨tree, hok⟩ => ?_, fun hexportable => ?_⟩,
    fun err hfail => ?_, fun hexportable => ⟨fun address hlist => ?_, fun address hdict => ?_⟩⟩
  · have henclosed : h.Enclosed levels [] value :=
      ⟨.nil, fun _ hcontainer => absurd hcontainer List.not_mem_nil, by simpa using hlevels⟩
    -- From no container around, any number of levels beyond that of the containers is enough.
    exact henclosed.exportWithin_congr (h.enclosed_nil value)
  · exact (toJson_eq_ok_iff.1 hok).exportable
  · obtain ⟨tree, hwritten⟩ := hexportable.exists_written
    exact ⟨tree, toJson_eq_ok_iff.2 hwritten⟩
  · obtain ⟨inner, expected, hreached, hno, rfl⟩ := (h.enclosed_nil value).exists_noForm hfail
    exact ⟨rfl, inner, expected, hreached, hno, rfl⟩
  · subst hlist
    exact toJson_list hexportable
  · subst hdict
    exact toJson_dict hexportable

/-- A list that holds another one twice is exported with both, a list that holds itself is not, and
neither is one that holds the latter. -/
theorem toJson_decides_exportable_shared :
    ∃ h : Heap, h.list 1 = .ofList [.list 0, .list 0] ∧ h.list 2 = .ofList [.list 1, .list 2] ∧
      h.Exportable (.list 1) ∧
      h.toJson (.list 1) = .ok (.array [.array [.integer 1], .array [.integer 1]]) ∧
      ¬ h.Exportable (.list 2) ∧ ¬ h.Exportable (.list 3) ∧
      h.exportWithin 100 [] (.list 3) = h.toJson (.list 3) := by
  let h : Heap := { Heap.empty with lists := #[.ofList [.integer 1], .ofList [.list 0, .list 0],
    .ofList [.list 1, .list 2], .ofList [.list 0, .list 2]] }
  have hshared : h.toJson (.list 1) = .ok (.array [.array [.integer 1], .array [.integer 1]]) := rfl
  have hknot : h.toJson (.list 2) = .error (.typeMismatch "to_json" "acyclic value" .list) := rfl
  have houter : h.toJson (.list 3) = .error (.typeMismatch "to_json" "acyclic value" .list) := rfl
  refine ⟨h, rfl, rfl, (toJson_decides_exportable h _).2.1.1 ⟨_, hshared⟩, hshared,
    fun hexportable => ?_, fun hexportable => ?_,
    (toJson_decides_exportable h _).1 100 (by decide)⟩
  · obtain ⟨tree, hok⟩ := (toJson_decides_exportable h _).2.1.2 hexportable
    exact nomatch hknot.symm.trans hok
  · obtain ⟨tree, hok⟩ := (toJson_decides_exportable h _).2.1.2 hexportable
    exact nomatch houter.symm.trans hok

end Heap

end ScriptCore
