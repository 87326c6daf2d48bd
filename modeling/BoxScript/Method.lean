import BoxScript.Call

/-!
# Boxes at work

Declaring boxes, creating instances, reading and writing fields from outside, and calling methods.

A method runs on the locals of its own slot, not on the variables of its caller. Its instance's
fields are put into the global scope of those locals before the call and read back after it, on
every way out. The functions it can call are those of its caller and those of its instance.

Of calls in a row, each one after the first runs on a copy of the instance before it, which is
made through a definition that exists only until the row is done.
-/

namespace BoxScript

/-! ## Definitions -/

/-- Register a definition, completed with its base. A const definition stays for good. -/
def registerBox (d : BoxDef) : Exec Unit := do
  let boxes ← Exec.look Machine.boxes
  if let some existing := boxes.get? d.name then
    if existing.isConst then Exec.fail (.constRedefined existing.name)
  let base ← match d.base with
    | none => pure none
    | some name =>
      match boxes.get? name with
      | some base => pure (some base)
      | none => Exec.fail (.baseNotFound name)
  let d ← d.complete base
  Exec.update fun m => m.updateBoxesAt m.context.boxes (·.insert d.name d)

/-- The definition that a name stands for. -/
def boxNamed (name : String) : Exec BoxDef := do
  match ← Exec.look (·.boxes.get? name) with
  | some d => return d
  | none => Exec.fail (.boxNotFound name)

/-! ## Instances -/

/-- The field slots of a new instance, behind those that are `made` in reverse. -/
def makeFieldsFrom (ev : Evaluator) (made : List Slot) : List FieldSpec → Exec (List Slot)
  | [] => pure made.reverse
  | f :: fs => do
    let value ← match f.init with
      | .expr node => ev node
      | .fixed value => pure value
    makeFieldsFrom ev (.field f.name value f.access :: made) fs

/-- The function slots of a new instance, each with locals of its own, behind those that are
`made` in reverse. -/
def makeMethodsFrom (made : List Slot) : List MethodSpec → Heap → List Slot × Heap
  | [], heap => (made.reverse, heap)
  | f :: fs, heap =>
    let locals : Locals := ⟨heap.scopes.next, heap.returns.next, 0⟩
    makeMethodsFrom (.function f.routine f.access locals :: made) fs
      { heap with scopes := heap.scopes.push .empty, returns := heap.returns.push [] }

/-- Put an instance with these fields and the functions of its definition on the heap. -/
def allocate (d : BoxDef) (fields : List Slot) : Exec Handle := fun m =>
  let (methods, heap) := makeMethodsFrom [] d.methods m.heap
  let h := heap.instances.next
  let i : Instance := ⟨d.name, fields ++ methods⟩
  ⟨.ok h, { m with heap := { heap with instances := heap.instances.push i } }⟩

/-- Create an instance. Its field initialisers are evaluated in the current scope. -/
def instantiate (ev : Evaluator) (name : String) : Exec Handle := do
  let d ← boxNamed name
  if d.isAbstract then Exec.fail (.abstractInstance name)
  let fields ← makeFieldsFrom ev [] d.fields
  allocate d fields

/-- What a variable stands for here. -/
def lookupVariable (name : String) : Exec Value := fun m =>
  Exec.ofExcept (m.scopes.get name m.context.level) m

/-- The instance that a variable holds. -/
def instanceIn (holder : String) : Exec Handle := do
  let v ← lookupVariable holder
  v.asObject

/-- Read a field from outside the instance. -/
def readField (holder field : String) : Exec Value := do
  let h ← instanceIn holder
  let i ← Exec.look (·.instanceAt h)
  match i.field? field with
  | some (value, .exposed) => return value
  | some (_, .guarded) => Exec.fail (.fieldReadDenied field)
  | none => Exec.fail (.undefinedField field i.box)

/-- Write a field from outside the instance. Whether that is allowed is settled before the value
is evaluated. -/
def writeField (ev : Evaluator) (holder field : String) (value : Node) : Exec Unit := do
  let h ← instanceIn holder
  let i ← Exec.look (·.instanceAt h)
  match i.field? field with
  | some (_, .exposed) =>
    let value ← ev value
    Exec.update (·.updateInstance h (·.setField field value))
  | some (_, .guarded) => Exec.fail (.fieldWriteDenied field)
  | none => Exec.fail (.undefinedField field i.box)

/-! ## Method calls -/

/-- Switch to the locals of a method: a table of functions of its own, its own variables and
signals, its own level, and the fields of its instance as global variables. -/
def enterMethod (h : Handle) (signature : Signature) (locals : Locals) (active : Nat)
    (m : Machine) : Machine :=
  let i := m.instanceAt h
  let functions := i.routines.foldl (fun d r => d.insert r.signature r) m.functions
  let table := m.heap.functions.next
  let m := m.updateInstance h (·.setLevel signature active)
  let m := { m with
    heap := { m.heap with functions := m.heap.functions.push functions }
    context := { m.context with
      functions := table
      scopes := locals.scopes
      returns := locals.returns
      level := active
      inClause := false } }
  m.updateScopesAt locals.scopes fun s =>
    i.fields.foldl (fun s f => s.set f.1 f.2 0 true) s

/-- Switch back to the caller, and store in the instance what its fields are in the locals. -/
def leaveMethod (h : Handle) (signature : Signature) (locals : Locals) (caller : Context)
    (closed level : Nat) (m : Machine) : Machine :=
  let m := m.updateScopesAt locals.scopes (·.close closed)
  let m := m.updateInstance h (·.setLevel signature level)
  let m := { m with context := caller }
  let s := m.heap.scopes.get locals.scopes
  m.updateInstance h (·.mapFields fun name value => (s.lookup name 0).getD value)

/-- Run a method on evaluated arguments, on a level above those that the caller and the running
calls of the slot use. -/
def runMethod (ev : Evaluator) (h : Handle) (routine : Routine) (args : List Value) :
    Exec Value :=
  Exec.asCall fun m =>
    match (m.instanceAt h).method? routine.signature with
    | none => ⟨.error (.undefinedFunction routine.signature), m⟩
    | some (_, _, locals) =>
      let caller := m.context
      let closed := max caller.level locals.level
      Exec.closing (runBody ev routine args)
        (leaveMethod h routine.signature locals caller closed locals.level)
        (enterMethod h routine.signature locals (closed + 1) m)

/-- Call a method of an instance from outside. Whether that is allowed is settled before the
arguments are evaluated. -/
def callMethod (ev : Evaluator) (h : Handle) (call : Invocation) : Exec Value := do
  let signature : Signature := ⟨call.name, call.args.length⟩
  match ← Exec.look fun m => (m.instanceAt h).method? signature with
  | none => Exec.fail (.undefinedFunction signature)
  | some (_, .guarded, _) => Exec.fail (.callDenied call.name)
  | some (routine, .exposed, _) =>
    let args ← evalArgs ev call.args
    runMethod ev h routine args

/-! ## Calls in a row -/

/-- The instance that a row of calls starts from. -/
def receiverInstance (ev : Evaluator) : Receiver → Exec Handle
  | .named holder => instanceIn holder
  | .created box => instantiate ev box

/-- The name of the definition that is made up next. -/
def nextChainName : Exec String := fun m =>
  ⟨.ok ("anonymous_" ++ toString m.chained), { m with chained := m.chained + 1 }⟩

/-- Drop a definition from a table. -/
def dropBox (table : Handle) (name : String) (m : Machine) : Machine :=
  m.updateBoxesAt table (·.erase name)

/-- Call methods in a row, each on a copy of the result before it. Every way out drops the
definition that the copy was made through. -/
def chainFrom (ev : Evaluator) (table : Handle) (previous : Value) :
    List Invocation → Exec Value
  | [] => pure previous
  | call :: calls =>
    match previous with
    | .object h => do
      let name ← nextChainName
      Exec.closing (do
        let i ← Exec.look (·.instanceAt h)
        registerBox (i.toBoxDef name)
        let copy ← instantiate ev name
        let v ← callMethod ev copy call
        chainFrom ev table v calls) (dropBox table name)
    | v => Exec.fail (.typeMismatch .refbox v.kind)

/-- Call a method, and further ones on the result before each of them. -/
def callChain (ev : Evaluator) (receiver : Receiver) (first : Invocation)
    (further : List Invocation) : Exec Value := do
  let table ← Exec.look (·.context.boxes)
  let h ← receiverInstance ev receiver
  let v ← callMethod ev h first
  chainFrom ev table v further

end BoxScript
