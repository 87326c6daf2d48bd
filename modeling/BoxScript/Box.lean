import BoxScript.Value

/-!
# Boxes and their instances

A box definition is a template of fields and functions. It is completed with the members of its
base when it is registered, so a registered definition stands on its own. An instance is a list of
slots, fields before functions, and each function slot has locals of its own that outlive a call.
-/

namespace BoxScript

/-! ## Definitions -/

/-- How a field gets its first value: from an expression that each creation evaluates, or fixed. -/
inductive FieldInit where
  | expr (node : Node)
  | fixed (value : Value)

/-- A field of a definition. -/
structure FieldSpec where
  name : String
  init : FieldInit
  access : Access

/-- A function of a definition. -/
structure MethodSpec where
  routine : Routine
  access : Access
  isAbstract : Bool

/-- A definition of a box. -/
structure BoxDef where
  name : String
  base : Option String
  isAbstract : Bool
  isConst : Bool
  fields : List FieldSpec
  methods : List MethodSpec
  deriving Inhabited

/-- The signature of a function of a definition. -/
def MethodSpec.signature (m : MethodSpec) : Signature := m.routine.signature

/-- The first item that stands in the list a second time. -/
def firstRepeated? {α : Type} [DecidableEq α] (seen : List α) : List α → Option α
  | [] => none
  | a :: as => if a ∈ seen then some a else firstRepeated? (a :: seen) as

/-- Items with those of another list behind them, one after the other, whose keys are not among them
by then. -/
def inheritBy {α κ : Type} [BEq κ] (key : α → κ) (own base : List α) : List α :=
  base.foldl (fun own b => if own.any (key · == key b) then own else own ++ [b]) own

theorem inheritBy_cons {α κ : Type} [BEq κ] (key : α → κ) (own : List α) (b : α) (base : List α) :
    inheritBy key own (b :: base)
      = inheritBy key (if own.any (key · == key b) then own else own ++ [b]) base := rfl

/-- Nothing comes up that was in neither list. -/
theorem mem_or_mem_of_inheritBy {α κ : Type} [BEq κ] {key : α → κ} {own base : List α} {a : α}
    (h : a ∈ inheritBy key own base) : a ∈ own ∨ a ∈ base := by
  induction base generalizing own with
  | nil => exact .inl h
  | cons b base ih =>
    rw [inheritBy_cons] at h
    rcases ih h with hown | hbase
    · split at hown
      · exact .inl hown
      · rcases List.mem_append.1 hown with hown | hnew
        · exact .inl hown
        · exact .inr (List.mem_singleton.1 hnew ▸ List.mem_cons_self)
    · exact .inr (List.mem_cons_of_mem b hbase)

namespace BoxDef

/-- A declaration as a definition, before it is completed. -/
def ofDecl (d : BoxDecl) : BoxDef where
  name := d.name
  base := d.base
  isAbstract := d.isAbstract
  isConst := d.isConst
  fields := d.fields.map fun f => ⟨f.name, .expr f.init, f.access⟩
  methods := d.methods.map fun m => ⟨m.routine, m.access, m.isAbstract⟩

/-- A definition with the members of its base behind its own, less those that it redeclares. -/
def inherit (d base : BoxDef) : BoxDef :=
  { d with
    fields := inheritBy FieldSpec.name d.fields base.fields
    methods := inheritBy MethodSpec.signature d.methods base.methods }

/-- A definition completed with its base. Its own members have to be distinct, and it may keep an
abstract function only if it is abstract itself. -/
def complete (d : BoxDef) (base : Option BoxDef) : Except RuntimeError BoxDef := do
  if let some field := firstRepeated? [] (d.fields.map (·.name)) then
    throw (.duplicateField field d.name)
  if let some signature := firstRepeated? [] (d.methods.map (·.signature)) then
    throw (.duplicateFunction signature d.name)
  let whole := match base with
    | some base => d.inherit base
    | none => d
  let pending := whole.methods.filter (·.isAbstract)
  if !pending.isEmpty && !whole.isAbstract then
    throw (.abstractNotOverridden whole.name (pending.map (·.routine.name)))
  return whole

/-- The members of a definition on one line. -/
def summary (d : BoxDef) : String :=
  ", ".intercalate
    (d.fields.map (fun f => "[" ++ f.access.text ++ "] " ++ f.name)
      ++ d.methods.map fun m => "[" ++ m.access.text ++ "] " ++ m.routine.name ++ " <- ("
        ++ ", ".intercalate m.routine.params ++ ")")

end BoxDef

/-! ## Instances -/

/-- What a function slot keeps between calls: its variables and pending return signals, and the
highest scope level that one of its running calls holds. -/
structure Locals where
  scopes : Handle
  returns : Handle
  level : Nat
  deriving DecidableEq, Repr, Inhabited

/-- One entry of an instance. -/
inductive Slot where
  | field (name : String) (value : Value) (access : Access)
  | function (routine : Routine) (access : Access) (locals : Locals)

/-- An instance of a box. -/
structure Instance where
  /-- The name of the definition that it was created from. -/
  box : String
  slots : List Slot
  deriving Inhabited

namespace Slot

/-- Who may use the slot. -/
def access : Slot → Access
  | field _ _ access => access
  | function _ access _ => access

/-- Whether the slot is seen by someone who sees guarded slots too, or only exposed ones. -/
def visible (guardedToo : Bool) (s : Slot) : Bool := guardedToo || s.access = .exposed

/-- The value and the access of the field `name`, if the slot is that field. -/
def asField? (name : String) : Slot → Option (Value × Access)
  | field n value access => if n = name then some (value, access) else none
  | function .. => none

/-- The parts of the function with a signature, if the slot is that function. -/
def asFunction? (signature : Signature) : Slot → Option (Routine × Access × Locals)
  | field .. => none
  | function routine access locals =>
    if routine.signature = signature then some (routine, access, locals) else none

/-- The name of a field slot. -/
def fieldName? : Slot → Option String
  | field name _ _ => some name
  | function .. => none

/-- The signature of a function slot. -/
def signature? : Slot → Option Signature
  | field .. => none
  | function routine _ _ => some routine.signature

end Slot

/-- Slots with a new value in the first field `name`. -/
def setFieldSlot (name : String) (value : Value) : List Slot → List Slot
  | [] => []
  | .field n old access :: rest =>
    if n = name then .field n value access :: rest
    else .field n old access :: setFieldSlot name value rest
  | slot :: rest => slot :: setFieldSlot name value rest

/-- Slots with a new level in the first function that has the signature. -/
def setLevelSlot (signature : Signature) (level : Nat) : List Slot → List Slot
  | [] => []
  | .function routine access locals :: rest =>
    if routine.signature = signature then
      .function routine access { locals with level := level } :: rest
    else .function routine access locals :: setLevelSlot signature level rest
  | slot :: rest => slot :: setLevelSlot signature level rest

namespace Instance

/-- The value and the access of a field. -/
def field? (i : Instance) (name : String) : Option (Value × Access) :=
  i.slots.findSome? (·.asField? name)

/-- The routine, the access and the locals of a function. -/
def method? (i : Instance) (signature : Signature) : Option (Routine × Access × Locals) :=
  i.slots.findSome? (·.asFunction? signature)

/-- The fields that are seen. -/
def fieldNames (i : Instance) (guardedToo : Bool) : List String :=
  (i.slots.filter (·.visible guardedToo)).filterMap (·.fieldName?)

/-- The functions that are seen. -/
def signatures (i : Instance) (guardedToo : Bool) : List Signature :=
  (i.slots.filter (·.visible guardedToo)).filterMap (·.signature?)

/-- The routines of all functions. -/
def routines (i : Instance) : List Routine :=
  i.slots.filterMap fun
    | .field .. => none
    | .function routine _ _ => some routine

/-- The fields with their values. -/
def fields (i : Instance) : List (String × Value) :=
  i.slots.filterMap fun
    | .field name value _ => some (name, value)
    | .function .. => none

/-- The instance with a new value in a field. -/
def setField (i : Instance) (name : String) (value : Value) : Instance :=
  { i with slots := setFieldSlot name value i.slots }

/-- The instance with a new level in the locals of a function. -/
def setLevel (i : Instance) (signature : Signature) (level : Nat) : Instance :=
  { i with slots := setLevelSlot signature level i.slots }

/-- The instance with each field changed by its name and value. -/
def mapFields (i : Instance) (f : String → Value → Value) : Instance :=
  { i with slots := i.slots.map fun
      | .field name value access => .field name (f name value) access
      | slot => slot }

/-- Whether two lists hold the same items, whatever their order and number. -/
def sameMembers {α : Type} [DecidableEq α] (as bs : List α) : Bool :=
  as.all (· ∈ bs) && bs.all (· ∈ as)

/-- Whether an instance has the fields and the functions of a definition, and no others. -/
def fits (i : Instance) (d : BoxDef) : Bool :=
  sameMembers (i.fieldNames true) (d.fields.map (·.name))
    && sameMembers (i.signatures true) (d.methods.map (·.signature))

/-- A definition that reproduces an instance: its functions, and its fields with the values that
they have now. Fields without a value are left out. -/
def toBoxDef (i : Instance) (name : String) : BoxDef where
  name := name
  base := none
  isAbstract := false
  isConst := false
  fields := i.slots.filterMap fun
    | .field name value access => if value.isVoid then none else some ⟨name, .fixed value, access⟩
    | .function .. => none
  methods := i.slots.filterMap fun
    | .field .. => none
    | .function routine access _ => some ⟨routine, access, false⟩

end Instance
end BoxScript
