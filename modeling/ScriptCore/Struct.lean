import ScriptCore.Capability

/-!
# Structs

A module with a template makes instances: the template's parameters become the fields.  The shape
of an instance is settled when it is made; later changes of the template do not reach it.
-/

namespace ScriptCore.Heap

/-- The error of asking a module without a template for something of the template. -/
def notAFactory : RuntimeError :=
  .unsupported "module without struct parameters" "struct construction"

/-- Makes an instance whose fields are the arguments bound to the template. -/
def instantiate (address : Address) (arguments : Arguments) : Attempt Heap Value := fun h =>
  let factory := h.module address
  match factory.template with
  | none => (.error notAFactory, h)
  | some template =>
    match template.bind factory.name arguments with
    | .error err => (.error err, h)
    | .ok fields =>
      let (value, h) := h.newStruct { kind := address, fields := .ofList fields }
      (.ok value, h)

/-- Installs a template, or takes it away. -/
def setTemplate (h : Heap) (address : Address) (template : Option Parameters) : Heap :=
  h.setModule address { h.module address with template }

/-- Adds a field to the template of a module, which gets an empty one first if it had none. -/
def declareField (h : Heap) (address : Address) (name : String) (fallback : ParameterDefault) :
    Heap :=
  let template := (h.module address).template.getD .empty
  h.setTemplate address (some (template.declare name fallback))

/-- Takes a field out of the template of a module. -/
def removeField (address : Address) (name : String) : Attempt Heap ParameterDefault := fun h =>
  match (h.module address).template with
  | none => (.error notAFactory, h)
  | some template =>
    let (outcome, template) := template.remove name
    (outcome, h.setTemplate address (some template))

end ScriptCore.Heap
