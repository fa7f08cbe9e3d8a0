import ScriptCore.Proofs.Parameters.Convention
import ScriptCore.Proofs.Transcript
import ScriptCore.Struct

/-!
# The shape of structs

The template of a module says which fields its structs have, but only at the moment when one is
made: from then on the fields of the struct are a table of its own, and the template may change.
Writing a field takes its entry out of that table and puts a new one at the end, so what has to be
kept is the set of names.

`Change` lists what can be done later to structs and to the modules that make them.
`HasShape h address factory owner names` says that a struct stands at an address, made by a module
with a name, whose fields have the given names.  Making a struct gives it the shape of the template
(`hasShape_instantiate`), every change keeps the shape (`HasShape.perform`), and of a struct with a
shape is known what reading and writing attributes does (`HasShape.setAttribute_eq`).
-/

namespace ScriptCore.Heap

/-! ## Changes -/

/-- What can be done to structs and to the modules that make them. -/
inductive Change
  | setAttribute (target : Value) (name : String) (value : Value)
  | removeAttribute (owner : Address) (name : String)
  | declareField (owner : Address) (name : String) (fallback : ParameterDefault)
  | removeField (owner : Address) (name : String)
  /-- The template is replaced, or taken away. -/
  | setTemplate (owner : Address) (template : Option Parameters)
  /-- Another struct is made. -/
  | instantiate (owner : Address) (arguments : Arguments)

/-- Carries out a change.  What it yields besides its success is left out. -/
def Change.perform : Change → Heap → Except RuntimeError Unit × Heap
  | setAttribute target name value, h => Heap.setAttribute target name value h
  | removeAttribute owner name, h =>
    ((Heap.removeAttribute owner name h).1.map fun _ => (), (Heap.removeAttribute owner name h).2)
  | declareField owner name fallback, h => (.ok (), h.declareField owner name fallback)
  | removeField owner name, h =>
    ((Heap.removeField owner name h).1.map fun _ => (), (Heap.removeField owner name h).2)
  | setTemplate owner template, h => (.ok (), h.setTemplate owner template)
  | instantiate owner arguments, h =>
    ((Heap.instantiate owner arguments h).1.map fun _ => (), (Heap.instantiate owner arguments h).2)

/-! ## Shapes -/

/-- A struct that was made by a module with a name has fields with the given names. -/
structure HasShape (h : Heap) (address factory : Address) (owner : String) (names : List String) :
    Prop where
  made : address < h.structs.size
  kind_eq : (h.struct address).kind = factory
  owner_eq : (h.module factory).name = owner
  valid : (h.struct address).fields.Valid
  names_perm : (h.struct address).fields.names.Perm names

variable {h : Heap} {address factory : Address} {owner name : String} {names : List String}
  {value : Value}

/-! ## Heaps in which one thing was changed -/

theorem struct_setStruct (h : Heap) (address other : Address) (content : StructInstance) :
    (h.setStruct address content).struct other =
      if address = other ∧ address < h.structs.size then content else h.struct other := by
  simp only [struct, setStruct, Array.getD_eq_getD_getElem?, Array.getElem?_setIfInBounds]
  grind

/-- A module that keeps its name does not change that of any. -/
theorem name_setModule (h : Heap) (address other : Address) {content : Module}
    (hname : content.name = (h.module address).name) :
    ((h.setModule address content).module other).name = (h.module other).name := by
  simp only [module, setModule, Array.getD_eq_getD_getElem?, Array.getElem?_setIfInBounds]
    at hname ⊢
  grind

theorem HasShape.setModule (hshape : h.HasShape address factory owner names) (changed : Address)
    {content : Module} (hname : content.name = (h.module changed).name) :
    (h.setModule changed content).HasShape address factory owner names where
  made := hshape.made
  kind_eq := hshape.kind_eq
  owner_eq := (h.name_setModule changed factory hname).trans hshape.owner_eq
  valid := hshape.valid
  names_perm := hshape.names_perm

/-- Writing a field that a struct has leaves the names of its fields as they were. -/
theorem perm_names_set {fields : NameTable Value} (hfields : fields.Valid)
    (hname : name ∈ fields.names) (value : Value) :
    (fields.set name value).names.Perm fields.names := by
  obtain ⟨hvalid, hentries⟩ := hfields.set name value
  have hnames : (fields.set name value).names = fields.names.erase name ++ [name] := by
    rw [hvalid.names_eq, hentries, hfields.names_eq, hfields.names_nodup.erase_eq_filter,
      List.map_append, List.filter_map]
    rfl
  rw [hnames]
  exact (List.perm_append_singleton _ _).trans (List.perm_cons_erase hname).symm

/-- Another struct may be written in any way. -/
theorem HasShape.setStruct (hshape : h.HasShape address factory owner names) (changed : Address)
    {content : StructInstance} (hcontent : changed = address →
      content.kind = factory ∧ content.fields.Valid ∧ content.fields.names.Perm names) :
    (h.setStruct changed content).HasShape address factory owner names := by
  have hstruct := h.struct_setStruct changed address content
  refine ⟨by simpa [Heap.setStruct] using hshape.made, ?_, hshape.owner_eq, ?_, ?_⟩ <;>
    rw [hstruct] <;> split <;> rename_i hsame
  · exact (hcontent hsame.1).1
  · exact hshape.kind_eq
  · exact (hcontent hsame.1).2.1
  · exact hshape.valid
  · exact (hcontent hsame.1).2.2
  · exact hshape.names_perm

theorem HasShape.newStruct (hshape : h.HasShape address factory owner names)
    (content : StructInstance) : (h.newStruct content).2.HasShape address factory owner names := by
  have hstruct : (h.newStruct content).2.struct address = h.struct address := by
    simp [struct, Heap.newStruct, Array.getElem?_push, hshape.made, Nat.ne_of_lt hshape.made]
  exact {
    made := by
      rw [Heap.newStruct, Array.size_push]
      exact Nat.lt_succ_of_lt hshape.made
    kind_eq := hstruct ▸ hshape.kind_eq
    owner_eq := hshape.owner_eq
    valid := hstruct ▸ hshape.valid
    names_perm := hstruct ▸ hshape.names_perm }

/-! ## Every change keeps the shape -/

theorem HasShape.perform (hshape : h.HasShape address factory owner names) (change : Change) :
    (change.perform h).2.HasShape address factory owner names := by
  cases change with
  | setAttribute target name value =>
      cases target with
      | module changed => exact hshape.setModule changed rfl
      | struct changed =>
          simp only [Change.perform, setAttribute]
          split
          · -- A field that is written was there before, so the set of names stays.
            rename_i hcontains
            refine hshape.setStruct changed ?_
            rintro rfl
            rw [NameTable.contains_eq, hshape.valid.isSome_find?_iff] at hcontains
            exact ⟨hshape.kind_eq, (hshape.valid.set name value).1,
              (perm_names_set hshape.valid hcontains value).trans hshape.names_perm⟩
          · exact hshape
      | _ => exact hshape
  | removeAttribute changed name =>
      simp only [Change.perform, removeAttribute]
      split
      · exact hshape.setModule changed rfl
      · exact hshape
  | declareField changed name fallback => exact hshape.setModule changed rfl
  | removeField changed name =>
      simp only [Change.perform, removeField]
      split
      · exact hshape
      · exact hshape.setModule changed rfl
  | setTemplate changed template => exact hshape.setModule changed rfl
  | instantiate changed arguments =>
      simp only [Change.perform, instantiate]
      split
      · exact hshape
      · split
        · exact hshape
        · exact hshape.newStruct _

theorem HasShape.transcript (hshape : h.HasShape address factory owner names)
    (changes : List Change) :
    (ScriptCore.transcript Change.perform changes h).2.HasShape address factory owner names :=
  transcript_keeps (fun h : Heap => h.HasShape address factory owner names)
    (fun change _ hshape => hshape.perform change) changes hshape

/-! ## The attributes of a struct with a shape -/

theorem HasShape.mem_iff (hshape : h.HasShape address factory owner names) :
    ((h.struct address).fields.find? name).isSome = true ↔ name ∈ names := by
  rw [hshape.valid.isSome_find?_iff, hshape.names_perm.mem_iff]

theorem HasShape.structName_eq (hshape : h.HasShape address factory owner names) :
    h.structName address = owner := by
  rw [structName, hshape.kind_eq, hshape.owner_eq]

/-- Writing a field of the shape. -/
theorem HasShape.setAttribute_eq (hshape : h.HasShape address factory owner names)
    (hname : name ∈ names) (value : Value) :
    setAttribute (.struct address) name value h = (.ok (), h.setStruct address
      { h.struct address with fields := (h.struct address).fields.set name value }) := by
  simp only [setAttribute, NameTable.contains_eq, hshape.mem_iff.2 hname, if_true]

/-- What stands at the address after that. -/
theorem HasShape.struct_setAttribute (hshape : h.HasShape address factory owner names)
    (name : String) (value : Value) :
    (h.setStruct address { h.struct address with
      fields := (h.struct address).fields.set name value }).struct address =
        { h.struct address with fields := (h.struct address).fields.set name value } := by
  rw [struct_setStruct, if_pos ⟨rfl, hshape.made⟩]

/-- The fields of the shape can be read and written, all other names cannot. -/
structure Shaped (h : Heap) (address : Address) (owner : String) (names : List String) : Prop where
  names_perm : (h.struct address).fields.names.Perm names
  count_eq : (h.struct address).fields.count = names.length
  /-- A field has a value, and takes another one, which changes no other field and nothing else. -/
  field : ∀ name ∈ names, (∃ value, getAttribute (.struct address) name h = (.ok value, h)) ∧
    ∀ value, ∃ after, setAttribute (.struct address) name value h = (.ok (), after) ∧
      getAttribute (.struct address) name after = (.ok value, after) ∧
      (∀ other ≠ name, (getAttribute (.struct address) other after).1 =
        (getAttribute (.struct address) other h).1) ∧
      after = h.setStruct address (after.struct address)
  /-- Any other name is refused, and nothing is changed. -/
  other : ∀ name, name ∉ names →
    getAttribute (.struct address) name h = (.error (.noAttribute ("struct " ++ owner) name), h) ∧
    ∀ value, setAttribute (.struct address) name value h =
      (.error (.noAttribute ("struct " ++ owner) name), h)

theorem HasShape.shaped (hshape : h.HasShape address factory owner names) :
    h.Shaped address owner names where
  names_perm := hshape.names_perm
  count_eq := by
    rw [hshape.valid.count_eq, ← List.length_map (·.1), ← hshape.valid.names_eq]
    exact hshape.names_perm.length_eq
  field name hname := by
    obtain ⟨held, hheld⟩ := Option.isSome_iff_exists.1 (hshape.mem_iff.2 hname)
    refine ⟨⟨held, by simp only [getAttribute, Attempt.reading, structField, hheld]⟩,
      fun value => ⟨_, hshape.setAttribute_eq hname value, ?_, fun other hother => ?_, ?_⟩⟩
    · simp only [getAttribute, Attempt.reading, structField, hshape.struct_setAttribute,
        hshape.valid.find?_set, if_true]
    · simp only [getAttribute, Attempt.reading, structField, structName,
        hshape.struct_setAttribute, hshape.valid.find?_set, if_neg hother]
      rfl
    · rw [hshape.struct_setAttribute]
  other name hname := by
    have hnone : (h.struct address).fields.find? name = none := by
      rwa [← hshape.mem_iff, Bool.not_eq_true, Option.isSome_eq_false_iff,
        Option.isNone_iff_eq_none] at hname
    refine ⟨?_, fun value => ?_⟩
    · simp only [getAttribute, Attempt.reading, structField, hnone, hshape.structName_eq]
    · simp only [setAttribute, NameTable.contains_eq, hnone, hshape.structName_eq,
        Option.isSome_none, Bool.false_eq_true, if_false]

/-! ## Structs that were made -/

/-- A struct gets its shape from the template of the module that makes it. -/
theorem hasShape_instantiate {template : Parameters}
    {declared : List (String × ParameterDefault)} {arguments : Arguments} {made : Heap}
    (htemplate : (h.module factory).template = some template)
    (hdeclared : template.Declares declared)
    (hmade : instantiate factory arguments h = (.ok value, made)) :
    ∃ address, value = .struct address ∧
      made.HasShape address factory (h.module factory).name (declared.map (·.1)) ∧
      (made.struct address).fields.names = declared.map (·.1) := by
  obtain ⟨hvalid, rfl⟩ := hdeclared.valid
  rw [instantiate, htemplate] at hmade
  dsimp only at hmade
  cases hbind : template.bind (h.module factory).name arguments with
  | error err => rw [hbind] at hmade; nomatch hmade
  | ok bound =>
      rw [hbind] at hmade
      obtain ⟨hvalue, rfl⟩ := Prod.mk.inj hmade
      obtain rfl := Except.ok.inj hvalue
      have hnames := Parameters.map_fst_of_bind hvalid hbind
      have hstruct : (h.newStruct { kind := factory, fields := .ofList bound }).2.struct
          h.structs.size = { kind := factory, fields := .ofList bound } := by
        simp [struct, newStruct]
      have hfields := (NameTable.valid_ofList bound).1
      -- Binding gives each parameter of the template once, so the fields stand in the order of the
      -- template.
      have hlisted : (NameTable.ofList bound).names = template.entries.map (·.1) := by
        rw [hfields.names_eq, NameTable.entries_ofList (hnames ▸ hvalid.names_nodup), hnames]
      refine ⟨h.structs.size, rfl, ?_, by rw [hstruct, hlisted]⟩
      exact {
        made := by simp [newStruct]
        kind_eq := by rw [hstruct]
        owner_eq := rfl
        valid := by rw [hstruct]; exact hfields
        names_perm := by rw [hstruct, hlisted] }

/-- **Structs have a fixed shape.**  A struct that a module with a template has made has the fields
that the template had then, in the order of their declaration, and after any changes of structs, of
the template and of the attributes of modules it still has these and no others. -/
theorem shaped_of_instantiate {template : Parameters}
    {declared : List (String × ParameterDefault)} {arguments : Arguments} {made : Heap}
    (htemplate : (h.module factory).template = some template)
    (hdeclared : template.Declares declared)
    (hmade : instantiate factory arguments h = (.ok value, made)) :
    ∃ address, value = .struct address ∧
      (made.struct address).fields.names = declared.map (·.1) ∧
      ∀ changes, Shaped (ScriptCore.transcript Change.perform changes made).2 address
        (h.module factory).name (declared.map (·.1)) := by
  obtain ⟨address, rfl, hshape, hnames⟩ := hasShape_instantiate htemplate hdeclared hmade
  exact ⟨address, rfl, hnames, fun changes => (hshape.transcript changes).shaped⟩

/-- A heap with a module that makes structs with two fields. -/
def points : Heap :=
  (Heap.empty.newModule "Point" (some (.required ["x", "y"]))).2

/-- Writing a field of a struct, taking the other one out of the template, taking the template away
and beginning a new one. -/
def reshaping : List Change :=
  [.setAttribute (.struct 0) "x" (.integer 5), .removeField 0 "y", .setTemplate 0 none,
    .declareField 0 "z" .required, .setAttribute (.struct 0) "z" .null]

/-- The struct made before has its two fields still. -/
theorem shaped_point : ∃ made,
    instantiate 0 (.ofList [.integer 1, .integer 2]) points = (.ok (.struct 0), made) ∧
    (ScriptCore.transcript Change.perform reshaping made).1.map (·.toOption.isSome) =
      [true, true, true, true, false] ∧
    Shaped (ScriptCore.transcript Change.perform reshaping made).2 0 "Point" ["x", "y"] := by
  have hdeclared : (Parameters.required ["x", "y"]).Declares [("x", .required), ("y", .required)] :=
    (Parameters.Declares.empty.declare "x" .required).declare "y" .required
  have htemplate : (points.module 0).template = some (.required ["x", "y"]) := rfl
  have hmade : instantiate 0 (.ofList [.integer 1, .integer 2]) points = (.ok (.struct 0), _) := rfl
  obtain ⟨address, haddress, -, hshaped⟩ := shaped_of_instantiate htemplate hdeclared hmade
  obtain rfl := Value.struct.inj haddress
  exact ⟨_, rfl, by decide +kernel, hshaped reshaping⟩

end ScriptCore.Heap
