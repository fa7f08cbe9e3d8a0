import Mathlib.Logic.Relation
import ScriptCore.Proofs.Scope.Handles
import ScriptCore.Proofs.Scope.Lifetime

/-!
# Nested scopes share their names

A scope that is linked into a fresh record is seen from there by reference: each name leads to the
record that owns it, so what is assigned through one of the two is found through the other.

Of a name in a record only the link counts here (`Sees`).  Whatever happens to an arena, short of
binding the name in the record anew or freeing the record, keeps that link (`Sees.perform`): an
assignment in particular ends in a record that does not link the name, so it never takes the place
of a link.  A record made for a scope links the name to where the scope's own link leads, or to the
scope itself (`sees_appended`), and this is the same step for a scope within a scope within a scope;
so the records of a chain, however long, all lead to one owner at once.

The main statement is `appended_shares_names`.
-/

namespace ScriptCore.ScopeArena

/-! ## What a record sees of a name -/

/-- A live record has a name, and links it to the given record or else to none. -/
def Sees (a : ScopeArena) (id : RecordId) (name : String) (link : Option RecordId) : Prop :=
  ∃ record binding, a.record? id = some record ∧ record.members.Valid ∧
    record.member? name = some binding ∧ binding.link? = link

/-- The name leads from an inner record to where it leads from the outer one, or to the outer one
itself if that has it for its own. -/
def Shares (a : ScopeArena) (name : String) (inner outer : RecordId) : Prop :=
  ∃ link, a.Sees outer name link ∧ a.Sees inner name (some (link.getD outer))

/-- An operation neither frees a record nor binds a name in it; what is done through its handle
leaves its names alone. -/
def Operation.Spares (a : ScopeArena) (id : RecordId) (name : String) (operation : Operation) :
    Prop :=
  id.index ∉ operation.freed a ∧
  match operation with
  | .update other change => other = id → ∀ record, (change record).members = record.members
  | .define other bound _ => other = id → bound ≠ name
  | .appendRecords target _ => target ≠ id
  | _ => True

/-- One step in the life of a chain of scopes that see a name of an outer record, followed at its
innermost record: anything is done that spares the name in both, or a further scope is nested in the
innermost one, of which it is the new innermost. -/
inductive Nests (name : String) (outer : RecordId) :
    ScopeArena × RecordId → ScopeArena × RecordId → Prop
  | work {a : ScopeArena} {inner : RecordId} (operation : Operation)
      (hinner : operation.Spares a inner name) (houter : operation.Spares a outer name) :
      Nests name outer (a, inner) (operation.perform a, inner)
  | deeper {a : ScopeArena} {inner new : RecordId} {label : String} {kind : RecordKind}
      (hfresh : a.record? new = some (.fresh label kind)) :
      Nests name outer (a, inner) ((a.appendRecords new inner).2, new)

variable {a : ScopeArena} {id inner outer : RecordId} {record : Record} {name : String}
  {link : Option RecordId}

/-! ## A name that is not bound anew keeps its link -/

/-- An assignment ends in a record that does not link the name. -/
theorem link?_of_assigneeWithin {steps : Nat} {start : RecordId} {binding : Binding}
    (howner : a.assigneeWithin name steps start = some id) (hrecord : a.record? id = some record)
    (hbound : record.member? name = some binding) : binding.link? = none := by
  fun_induction a.assigneeWithin name steps start with
  | case1 => simp at howner
  | case2 => simp at howner
  | case3 => simp at howner
  | case4 steps start scope hscope hlocked owner hlink ih => exact ih howner
  | case5 steps start scope hscope hlocked hnone =>
      obtain rfl : start = id := Option.some.inj howner
      obtain rfl : scope = record := Option.some.inj (hscope.symm.trans hrecord)
      cases binding with
      | value value => rfl
      | link owner => exact absurd hbound (hnone owner)

/-- Binding a value leaves all links as they are, unless it takes the place of one. -/
theorem bind_value_keeps_link {bound : String} {value : Value} (hrecord : record.members.Valid)
    {binding : Binding} (hmember : record.member? name = some binding)
    (hlink : bound = name → binding.link? = none) :
    (record.bind bound (.value value)).members.Valid ∧
      ∃ later, (record.bind bound (.value value)).member? name = some later ∧
        later.link? = binding.link? := by
  refine ⟨(hrecord.set _ _).1, ?_⟩
  rw [Record.member?, Record.bind, hrecord.find?_set]
  split
  · rename_i hname
    exact ⟨_, rfl, (hlink hname.symm).symm⟩
  · exact ⟨binding, hmember, rfl⟩

/-- What an operation writes to a record that it spares leaves the link of the name. -/
theorem Operation.Spares.written {operation : Operation} {binding : Binding}
    (hspares : operation.Spares a id name) (hrecord : a.record? id = some record)
    (hvalid : record.members.Valid) (hmember : record.member? name = some binding) :
    (operation.written a id record).members.Valid ∧
      ∃ later, (operation.written a id record).member? name = some later ∧
        later.link? = binding.link? := by
  have hsame : record.members.Valid ∧ ∃ later, record.member? name = some later ∧
      later.link? = binding.link? := ⟨hvalid, binding, hmember, rfl⟩
  obtain ⟨-, hspares⟩ := hspares
  cases operation with
  | alloc _ => exact hsame
  | release _ => exact hsame
  | collect _ _ _ => exact hsame
  | update other change =>
      simp only [Operation.written]
      split
      · rename_i hid
        rw [Record.member?, hspares hid.symm]
        exact hsame
      · exact hsame
  | define other bound value =>
      simp only [Operation.written]
      split
      · rename_i hid
        exact bind_value_keeps_link hvalid hmember fun hname => absurd hname (hspares hid.symm)
      · exact hsame
  | assign other bound value =>
      simp only [Operation.written]
      split
      · rename_i howner
        refine bind_value_keeps_link hvalid hmember ?_
        rintro rfl
        exact link?_of_assigneeWithin howner hrecord hmember
      · exact hsame
  | appendRecords target other =>
      simp only [Operation.written, if_neg (Ne.symm hspares)]
      split <;> exact hsame
  | capture other =>
      simp only [Operation.written]
      split <;> exact hsame

/-- A record goes on seeing a name as it did under any operation that spares it. -/
theorem Sees.perform (hoccurs : a.Occurs) (hsees : a.Sees id name link) (operation : Operation)
    (hspares : operation.Spares a id name) : (operation.perform a).Sees id name link := by
  obtain ⟨record, binding, hrecord, hvalid, hmember, rfl⟩ := hsees
  obtain ⟨hvalid', later, hlater, hlink⟩ := hspares.written hrecord hvalid hmember
  exact ⟨_, later, Operation.record?_perform hoccurs.unmarked hoccurs.accounted hrecord hspares.1,
    hvalid', hlater, hlink⟩

/-! ## Nesting a scope -/

/-- A fresh record does not see anything yet. -/
theorem Sees.ne_of_fresh {label : String} {kind : RecordKind} (hsees : a.Sees id name link)
    {new : RecordId} (hfresh : a.record? new = some (.fresh label kind)) : new ≠ id := by
  rintro rfl
  obtain ⟨record, binding, hrecord, hvalid, hmember, -⟩ := hsees
  obtain rfl : record = .fresh label kind := Option.some.inj (hrecord.symm.trans hfresh)
  have hentry := hvalid.find?_eq_some_iff.1 hmember
  simp [Record.fresh] at hentry

/-- A record made for a scope sees a name where the scope's own link leads, or in the scope. -/
theorem sees_appended {label : String} {kind : RecordKind} {new : RecordId}
    (hfresh : a.record? new = some (.fresh label kind)) (hsees : a.Sees id name link) :
    (a.appendRecords new id).2.Sees new name (some (link.getD id)) := by
  obtain ⟨record, binding, hrecord, hvalid, hmember, rfl⟩ := hsees
  obtain ⟨hlinked, hentries⟩ := entries_linked label kind hvalid id
  refine ⟨withLinks (.fresh label kind) (linksInto id record),
    .link (binding.link?.getD id), ?_, hlinked, ?_, rfl⟩
  · simp [appendRecords_eq, hrecord, record?_update, hfresh]
  · rw [Record.member?, hlinked.find?_eq_some_iff, hentries]
    exact List.mem_map.2 ⟨(name, binding), hvalid.find?_eq_some_iff.1 hmember, rfl⟩

/-- Nesting a scope leaves a record that sees a name as it is. -/
theorem Sees.appendRecords {label : String} {kind : RecordKind} {new other : RecordId}
    (hoccurs : a.Occurs) (hfresh : a.record? new = some (.fresh label kind))
    (hsees : a.Sees id name link) : (a.appendRecords new other).2.Sees id name link :=
  hsees.perform hoccurs (.appendRecords new other)
    ⟨by simp [Operation.freed], hsees.ne_of_fresh hfresh⟩

/-- A scope and the record made for it share each name that the scope sees. -/
theorem shares_appended {label : String} {kind : RecordKind} {new : RecordId}
    (hoccurs : a.Occurs) (hfresh : a.record? new = some (.fresh label kind))
    (hsees : a.Sees outer name link) : (a.appendRecords new outer).2.Shares name new outer :=
  ⟨link, hsees.appendRecords hoccurs hfresh, sees_appended hfresh hsees⟩

/-- Each step in the life of a chain keeps the name shared. -/
theorem Shares.step (hoccurs : a.Occurs) (hshares : a.Shares name inner outer) {b : ScopeArena}
    {next : RecordId} (hstep : Nests name outer (a, inner) (b, next)) :
    b.Occurs ∧ b.Shares name next outer := by
  obtain ⟨link, houter, hinner⟩ := hshares
  cases hstep with
  | work operation hsparesInner hsparesOuter =>
      exact ⟨hoccurs.perform operation, link, houter.perform hoccurs operation hsparesOuter,
        hinner.perform hoccurs operation hsparesInner⟩
  | deeper hfresh =>
      -- The inner record links the name already, and the link is passed on as it is.
      exact ⟨hoccurs.perform (.appendRecords next inner), link,
        houter.appendRecords hoccurs hfresh, sees_appended hfresh hinner⟩

/-- The name is shared all along the life of a chain. -/
theorem Shares.nests (hoccurs : a.Occurs) (hshares : a.Shares name inner outer)
    {later : ScopeArena × RecordId}
    (hlife : Relation.ReflTransGen (Nests name outer) (a, inner) later) :
    later.1.Occurs ∧ later.1.Shares name later.2 outer := by
  induction hlife with
  | refl => exact ⟨hoccurs, hshares⟩
  | tail _ hstep ih => exact ih.2.step ih.1 hstep

/-! ## What sharing a name means -/

/-- A shared name has one owner, whichever record it is looked for from. -/
theorem Shares.ownerOf_eq (hshares : a.Shares name inner outer) :
    a.ownerOf inner name = a.ownerOf outer name := by
  obtain ⟨link, ⟨scope, found, hscope, -, hfound, rfl⟩, nested, binding, hnested, -, hbound,
    hlink⟩ := hshares
  obtain ⟨size, hsize⟩ : ∃ size, a.slots.size + 1 = size + 1 + 1 :=
    ⟨a.slots.size - 1, by have := size_pos_of_record? hscope; omega⟩
  obtain rfl : binding = .link (found.link?.getD outer) := by
    cases binding <;> simp_all [Binding.link?]
  rw [ownerOf, ownerOf, hsize, ownerWithin, ownerWithin, get_of_record? hnested,
    get_of_record? hscope]
  simp only [bind, Except.bind, hbound, hfound]
  cases found with
  -- The outer record owns the name, one step further from the inner one.
  | value value =>
      simp [Binding.link?, ownerWithin, get_of_record? hscope, hfound, bind, Except.bind]
  | link owner => rfl

/-- A shared name stands for one value. -/
theorem Shares.lookup_eq (hshares : a.Shares name inner outer) :
    a.lookup inner name = a.lookup outer name := by
  rw [lookup, lookup, hshares.ownerOf_eq]

/-- Assigning to a shared name through either record is the same, unless one of them is locked. -/
theorem Shares.assign_eq (hshares : a.Shares name inner outer)
    (hunlocked : ∀ id ∈ [inner, outer], ∀ record, a.record? id = some record →
      record.locked = false) (value : Value) :
    a.assign inner name value = a.assign outer name value := by
  obtain ⟨link, ⟨scope, found, hscope, -, hfound, rfl⟩, nested, binding, hnested, -, hbound,
    hlink⟩ := hshares
  have hinner : nested.locked = false := hunlocked inner (by simp) nested hnested
  have houter : scope.locked = false := hunlocked outer (by simp) scope hscope
  -- Assigning from the inner record takes one step more, to where the outer record's own link
  -- leads.
  obtain ⟨size, hsize⟩ : ∃ size, a.slots.size + 1 = size + 1 + 1 :=
    ⟨a.slots.size - 1, by have := size_pos_of_record? hscope; omega⟩
  obtain rfl : binding = .link (found.link?.getD outer) := by
    cases binding <;> simp_all [Binding.link?]
  rw [assign, assign, hsize, assignWithin, assignWithin, get_of_record? hnested,
    get_of_record? hscope]
  simp only [hinner, houter, Bool.false_eq_true, if_false, hbound, hfound]
  cases found with
  | value value => simp [Binding.link?, assignWithin, get_of_record? hscope, houter, hfound]
  | link owner => rfl

/-! ## The main statement -/

/-- Linking a scope into a fresh record gives it exactly the names of the scope.  Each name is then
shared with the scope, and so it is with every record further in, whatever is done as long as the
name is not bound anew in the record or the scope and neither is freed: it has one owner and stands
for one value, and is assigned to alike through both while neither is locked. -/
theorem appended_shares_names {target other : RecordId} {label : String} {kind : RecordKind}
    {scope : Record} (hoccurs : a.Occurs) (hfresh : a.record? target = some (.fresh label kind))
    (hother : a.record? other = some scope) (hvalid : scope.members.Valid) :
    (a.appendRecords target other).1 = .ok () ∧
    (∃ linked, (a.appendRecords target other).2.record? target = some linked ∧
      (a.appendRecords target other).2.record? other = some scope ∧
      linked.members.names = scope.members.names) ∧
    ∀ name ∈ scope.members.names, ∀ later inner,
      Relation.ReflTransGen (Nests name other) ((a.appendRecords target other).2, target)
        (later, inner) →
      later.ownerOf inner name = later.ownerOf other name ∧
      later.lookup inner name = later.lookup other name ∧
      ((∀ id ∈ [inner, other], ∀ record, later.record? id = some record →
          record.locked = false) →
        ∀ value, later.assign inner name value = later.assign other name value) := by
  obtain ⟨hlinked, hentries⟩ := entries_linked label kind hvalid other
  have happend : a.appendRecords target other =
      (.ok (), a.put target.index (withLinks (.fresh label kind) (linksInto other scope))) := by
    rw [ScopeArena.appendRecords, get_of_record? hother]
    exact update_of_record? hfresh _
  have hrecord? := record?_put hfresh (withLinks (.fresh label kind) (linksInto other scope))
  refine ⟨by rw [happend], ⟨withLinks (.fresh label kind) (linksInto other scope), ?_, ?_, ?_⟩, ?_⟩
  · rw [happend, hrecord?, if_pos rfl]
  · rw [happend, hrecord?]
    split
    · -- A fresh record linked into itself stays as it is.
      rename_i hsame
      subst hsame
      obtain rfl : scope = .fresh label kind := Option.some.inj (hother.symm.trans hfresh)
      rfl
    · exact hother
  · rw [hlinked.names_eq, hentries, hvalid.names_eq, List.map_map]
    rfl
  · intro name hname later inner hlife
    obtain ⟨⟨_, binding⟩, hentry, rfl⟩ := List.mem_map.1 (hvalid.names_eq ▸ hname)
    have hsees : a.Sees other _ binding.link? :=
      ⟨scope, binding, hother, hvalid, hvalid.find?_eq_some_iff.2 hentry, rfl⟩
    obtain ⟨-, hshares⟩ := (shares_appended hoccurs hfresh hsees).nests
      (hoccurs.perform (.appendRecords target other)) hlife
    exact ⟨hshares.ownerOf_eq, hshares.lookup_eq, hshares.assign_eq⟩

/-- A program scope with a name of its own, and two scopes of functions that see nothing yet. -/
def nestable : ScopeArena :=
  empty.run [.alloc (.fresh "main" .program), .define ⟨0, 0⟩ "x" (.integer 1),
    .alloc (.fresh "outer" .function), .alloc (.fresh "inner" .function)]

/-- A function within a function finds what the function around it assigned before. -/
theorem shares_through_two_scopes :
    let scope := (Record.fresh "main" .program).bind "x" (.value (.integer 1))
    let shared := (nestable.appendRecords ⟨1, 0⟩ ⟨0, 0⟩).2
    let written := (Operation.assign ⟨1, 0⟩ "x" (.integer 2)).perform shared
    let later := (written.appendRecords ⟨2, 0⟩ ⟨1, 0⟩).2
    nestable.Occurs ∧ nestable.record? ⟨1, 0⟩ = some (.fresh "outer" .function) ∧
    nestable.record? ⟨0, 0⟩ = some scope ∧ scope.members.Valid ∧ "x" ∈ scope.members.names ∧
    Relation.ReflTransGen (Nests "x" ⟨0, 0⟩) (shared, ⟨1, 0⟩) (later, ⟨2, 0⟩) ∧
    later.lookup ⟨2, 0⟩ "x" = later.lookup ⟨0, 0⟩ "x" ∧
    later.lookup ⟨0, 0⟩ "x" = .ok (.integer 2) := by
  intro scope shared written later
  have hoccurs : nestable.Occurs := occurs_run .empty _
  have hfresh : nestable.record? ⟨1, 0⟩ = some (.fresh "outer" .function) := rfl
  have hother : nestable.record? ⟨0, 0⟩ = some scope := rfl
  have hvalid : scope.members.Valid := (NameTable.valid_empty.set "x" _).1
  have hname : "x" ∈ scope.members.names := by decide +kernel
  have hlife : Relation.ReflTransGen (Nests "x" ⟨0, 0⟩) (shared, ⟨1, 0⟩) (later, ⟨2, 0⟩) :=
    (Relation.ReflTransGen.single (.work (.assign ⟨1, 0⟩ "x" (.integer 2))
      ⟨by decide +kernel, trivial⟩ ⟨by decide +kernel, trivial⟩)).tail
      (.deeper (show written.record? ⟨2, 0⟩ = some (.fresh "inner" .function) from rfl))
  obtain ⟨-, -, hshared⟩ := appended_shares_names hoccurs hfresh hother hvalid
  exact ⟨hoccurs, hfresh, hother, hvalid, hname, hlife,
    (hshared "x" hname later ⟨2, 0⟩ hlife).2.1, by rfl⟩

end ScriptCore.ScopeArena
