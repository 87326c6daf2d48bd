import BoxScript.Proofs.Related
import BoxScript.Proofs.Relocation

/-!
# Code that stands for other code

Two trees may stand for the same code without being equal. `Node.Recoded S` says of two nodes that
they are alike but for the nodes below them, which are related by `S`, and `Machine.Recoded S` says
of two machines that they are alike but for the code that is stored on them. All that the rules of
the evaluator do to a machine leaves such machines alike, and what they read off a machine is the
same on both, or it is code again.
-/

namespace BoxScript

/-! ## Nodes -/

variable {S : Node → Node → Prop}

/-- Routines with related bodies. -/
inductive Routine.Recoded (S : Node → Node → Prop) : Routine → Routine → Prop
  | of (name : String) (params : List String) {body body' : List Node}
    (h : List.Forall₂ S body body') : Recoded S ⟨name, params, body⟩ ⟨name, params, body'⟩

/-- Calls with related arguments. -/
inductive Invocation.Recoded (S : Node → Node → Prop) : Invocation → Invocation → Prop
  | of (name : String) {args args' : List Node} (h : List.Forall₂ S args args') :
    Recoded S ⟨name, args⟩ ⟨name, args'⟩

/-- Declared fields with related expressions. -/
inductive FieldDecl.Recoded (S : Node → Node → Prop) : FieldDecl → FieldDecl → Prop
  | of (name : String) (access : Access) {init init' : Node} (h : S init init') :
    Recoded S ⟨name, init, access⟩ ⟨name, init', access⟩

/-- Declared functions with related bodies. -/
inductive MethodDecl.Recoded (S : Node → Node → Prop) : MethodDecl → MethodDecl → Prop
  | of (access : Access) (isAbstract : Bool) {r r' : Routine} (h : r.Recoded S r') :
    Recoded S ⟨r, access, isAbstract⟩ ⟨r', access, isAbstract⟩

/-- Declarations with related members, in the same order. -/
inductive BoxDecl.Recoded (S : Node → Node → Prop) : BoxDecl → BoxDecl → Prop
  | of (name : String) (base : Option String) (isAbstract isConst : Bool)
    {fields fields' : List FieldDecl} {methods methods' : List MethodDecl}
    (hfields : List.Forall₂ (FieldDecl.Recoded S) fields fields')
    (hmethods : List.Forall₂ (MethodDecl.Recoded S) methods methods') :
    Recoded S ⟨name, base, isAbstract, isConst, fields, methods⟩
      ⟨name, base, isAbstract, isConst, fields', methods'⟩

/-- Nodes of one kind, with related nodes below them. Integers are left to `S`. -/
inductive Node.Recoded (S : Node → Node → Prop) : Node → Node → Prop
  | str (s : String) : Recoded S (.str s) (.str s)
  | var (name : String) : Recoded S (.var name) (.var name)
  | input : Recoded S .input .input
  | create (box : String) : Recoded S (.create box) (.create box)
  | field (holder field : String) : Recoded S (.field holder field) (.field holder field)
  | giveBackNone : Recoded S (.giveBack none) (.giveBack none)
  | negate {v v' : Node} (h : S v v') : Recoded S (.negate v) (.negate v')
  | binary (op : BinOp) {a a' b b' : Node} (ha : S a a') (hb : S b b') :
    Recoded S (.binary op a b) (.binary op a' b')
  | index {t t' p p' : Node} (ht : S t t') (hp : S p p') : Recoded S (.index t p) (.index t' p')
  | array {items items' : List Node} (h : List.Forall₂ S items items') :
    Recoded S (.array items) (.array items')
  | call (name : String) {args args' : List Node} (h : List.Forall₂ S args args') :
    Recoded S (.call name args) (.call name args')
  | extension (name : String) {t t' : Node} {args args' : List Node} (ht : S t t')
    (hargs : List.Forall₂ S args args') :
    Recoded S (.extension t name args) (.extension t' name args')
  | method (receiver : Receiver) {first first' : Invocation} {further further' : List Invocation}
    (hfirst : first.Recoded S first')
    (hfurther : List.Forall₂ (Invocation.Recoded S) further further') :
    Recoded S (.method receiver first further) (.method receiver first' further')
  | readLines {v v' : Node} (h : S v v') : Recoded S (.readLines v) (.readLines v')
  | readText {v v' : Node} (h : S v v') : Recoded S (.readText v) (.readText v')
  | fileExists {v v' : Node} (h : S v v') : Recoded S (.fileExists v) (.fileExists v')
  | assign (name : String) {v v' : Node} (h : S v v') : Recoded S (.assign name v) (.assign name v')
  | setField (holder field : String) {v v' : Node} (h : S v v') :
    Recoded S (.setField holder field v) (.setField holder field v')
  | print (newline : Bool) {v v' : Node} (h : S v v') :
    Recoded S (.print v newline) (.print v' newline)
  | raise {v v' : Node} (h : S v v') : Recoded S (.raise v) (.raise v')
  | importScript {v v' : Node} (h : S v v') : Recoded S (.importScript v) (.importScript v')
  | extend {k k' b b' f f' a a' : Node} (hk : S k k') (hb : S b b') (hf : S f f') (ha : S a a') :
    Recoded S (.extend k b f a) (.extend k' b' f' a')
  | giveBack {v v' : Node} (h : S v v') : Recoded S (.giveBack (some v)) (.giveBack (some v'))
  | ifThen {c c' : Node} {yes yes' : List Node} (hc : S c c') (hyes : List.Forall₂ S yes yes') :
    Recoded S (.ifElse c yes none) (.ifElse c' yes' none)
  | ifElse {c c' : Node} {yes yes' no no' : List Node} (hc : S c c')
    (hyes : List.Forall₂ S yes yes') (hno : List.Forall₂ S no no') :
    Recoded S (.ifElse c yes (some no)) (.ifElse c' yes' (some no'))
  | whileDo {c c' : Node} {body body' : List Node} (hc : S c c')
    (hbody : List.Forall₂ S body body') : Recoded S (.whileDo c body) (.whileDo c' body')
  | forDo {i i' c c' s s' : Node} {body body' : List Node} (hi : S i i') (hc : S c c')
    (hs : S s s') (hbody : List.Forall₂ S body body') :
    Recoded S (.forDo i c s body) (.forDo i' c' s' body')
  | function {r r' : Routine} (h : r.Recoded S r') : Recoded S (.function r) (.function r')
  | box {d d' : BoxDecl} (h : d.Recoded S d') : Recoded S (.box d) (.box d')

/-- The nodes right below a node. -/
def Node.children : Node → List Node
  | int _ | str _ | var _ | input | create _ | field _ _ | giveBack none => []
  | assign _ v | negate v | print v _ | setField _ _ v | raise v | giveBack (some v) => [v]
  | importScript v | readLines v | readText v | fileExists v => [v]
  | binary _ a b | index a b => [a, b]
  | extend k b f a => [k, b, f, a]
  | call _ args | array args => args
  | extension target _ args => target :: args
  | method _ first further => first.args ++ further.flatMap (·.args)
  | ifElse c yes no => c :: (yes ++ no.getD [])
  | whileDo c body => c :: body
  | forDo i c s body => i :: c :: s :: body
  | function r => r.body
  | box d => d.fields.map (·.init) ++ d.methods.flatMap (·.routine.body)

/-- The nodes right below nodes that are alike. -/
theorem Node.Recoded.children {x y : Node} (h : x.Recoded S y) :
    List.Forall₂ S x.children y.children := by
  -- by the clauses; a node that differs has the same children in the same order
  cases h with
  | negate h | assign _ h | setField _ _ h | print _ h | raise h | giveBack h => exact .cons h .nil
  | importScript h | readLines h | readText h | fileExists h => exact .cons h .nil
  | binary _ ha hb | index ha hb => exact .cons ha (.cons hb .nil)
  | extend hk hb hf ha => exact .cons hk (.cons hb (.cons hf (.cons ha .nil)))
  | array h | call _ h => exact h
  | extension _ ht hargs => exact .cons ht hargs
  | method receiver hfirst hfurther =>
    have hargs : ∀ {c c' : Invocation}, c.Recoded S c' → List.Forall₂ S c.args c'.args := by
      intro c c' hc
      cases hc with
      | of name h => exact h
    exact List.rel_append (hargs hfirst) (List.rel_flatMap hfurther fun _ _ => hargs)
  | ifThen hc hyes => exact .cons hc (List.rel_append hyes .nil)
  | ifElse hc hyes hno => exact .cons hc (List.rel_append hyes hno)
  | whileDo hc hbody => exact .cons hc hbody
  | forDo hi hc hs hbody => exact .cons hi (.cons hc (.cons hs hbody))
  | function h =>
    cases h with
    | of name params hbody => exact hbody
  | box h =>
    cases h with
    | of name base isAbstract isConst hfields hmethods =>
      refine List.rel_append (List.rel_map (fun f f' hf => ?_) hfields)
        (List.rel_flatMap hmethods fun f f' hf => ?_)
      · cases hf with
        | of name access h => exact h
      · cases hf with
        | of access isAbstract hr =>
          cases hr with
          | of name params hbody => exact hbody
  | _ => exact .nil

/-! ### The other way around -/

/-- Lists that are related item by item are related the other way round, if the items are. -/
theorem forall₂_flip_of {α β : Type} {R : α → β → Prop} {R' : β → α → Prop} {l : List α}
    {l' : List β} (h : List.Forall₂ R l l') (hR : ∀ a ∈ l, ∀ b, R a b → R' b a) :
    List.Forall₂ R' l' l := by
  induction h with
  | nil => exact .nil
  | cons hab _ ih =>
    obtain ⟨ha, hrest⟩ := List.forall_mem_cons.1 hR
    exact .cons (ha _ hab) (ih hrest)

section Flip

variable {S' : Node → Node → Prop}

theorem Routine.Recoded.flip_of {r r' : Routine} (h : r.Recoded S r')
    (hS : ∀ a ∈ r.body, ∀ b, S a b → S' b a) : r'.Recoded S' r := by
  cases h with
  | of name params h => exact .of name params (forall₂_flip_of h hS)

theorem Invocation.Recoded.flip_of {c c' : Invocation} (h : c.Recoded S c')
    (hS : ∀ a ∈ c.args, ∀ b, S a b → S' b a) : c'.Recoded S' c := by
  cases h with
  | of name h => exact .of name (forall₂_flip_of h hS)

theorem BoxDecl.Recoded.flip_of {d d' : BoxDecl} (h : d.Recoded S d')
    (hfields : ∀ f ∈ d.fields, ∀ b, S f.init b → S' b f.init)
    (hmethods : ∀ f ∈ d.methods, ∀ a ∈ f.routine.body, ∀ b, S a b → S' b a) :
    d'.Recoded S' d := by
  cases h with
  | of name base isAbstract isConst hf hm =>
    refine .of name base isAbstract isConst (forall₂_flip_of hf fun f hmem f' h => ?_)
      (forall₂_flip_of hm fun f hmem f' h => ?_)
    · have hinit := hfields f hmem
      cases h with
      | of name access h => exact .of name access (hinit _ h)
    · have hbody := hmethods f hmem
      cases h with
      | of access isAbstract hr => exact .of access isAbstract (hr.flip_of hbody)

/-- If the nodes below it are related the other way around, so is the node. -/
theorem Node.Recoded.flip_of {x y : Node} (h : x.Recoded S y)
    (hS : ∀ a ∈ x.children, ∀ b, S a b → S' b a) : y.Recoded S' x := by
  -- by the clauses; what is related the other way round are the children, and each clause has its
  -- own
  cases h with
  | str s => exact .str s
  | var name => exact .var name
  | input => exact .input
  | create box => exact .create box
  | field holder field => exact .field holder field
  | giveBackNone => exact .giveBackNone
  | giveBack h => exact .giveBack (hS _ (List.mem_singleton_self _) _ h)
  | negate h => exact .negate (hS _ (List.mem_singleton_self _) _ h)
  | assign name h => exact .assign name (hS _ (List.mem_singleton_self _) _ h)
  | setField holder field h =>
    exact .setField holder field (hS _ (List.mem_singleton_self _) _ h)
  | print newline h => exact .print newline (hS _ (List.mem_singleton_self _) _ h)
  | raise h => exact .raise (hS _ (List.mem_singleton_self _) _ h)
  | importScript h => exact .importScript (hS _ (List.mem_singleton_self _) _ h)
  | readLines h => exact .readLines (hS _ (List.mem_singleton_self _) _ h)
  | readText h => exact .readText (hS _ (List.mem_singleton_self _) _ h)
  | fileExists h => exact .fileExists (hS _ (List.mem_singleton_self _) _ h)
  | binary op ha hb =>
    simp only [Node.children, List.forall_mem_cons] at hS
    exact .binary op (hS.1 _ ha) (hS.2.1 _ hb)
  | index ht hp =>
    simp only [Node.children, List.forall_mem_cons] at hS
    exact .index (hS.1 _ ht) (hS.2.1 _ hp)
  | extend hk hb hf ha =>
    simp only [Node.children, List.forall_mem_cons] at hS
    exact .extend (hS.1 _ hk) (hS.2.1 _ hb) (hS.2.2.1 _ hf) (hS.2.2.2.1 _ ha)
  | call name h => exact .call name (forall₂_flip_of h hS)
  | array h => exact .array (forall₂_flip_of h hS)
  | extension name ht hargs =>
    obtain ⟨htarget, hrest⟩ := List.forall_mem_cons.1 hS
    exact .extension name (htarget _ ht) (forall₂_flip_of hargs hrest)
  | method receiver hfirst hfurther =>
    obtain ⟨hone, hothers⟩ := List.forall_mem_append.1 hS
    refine .method receiver (hfirst.flip_of hone) (forall₂_flip_of hfurther fun c hc c' h => ?_)
    exact h.flip_of fun a ha => hothers a (List.mem_flatMap.2 ⟨c, hc, ha⟩)
  | ifThen hc hyes =>
    obtain ⟨hcondition, hbranches⟩ := List.forall_mem_cons.1 hS
    exact .ifThen (hcondition _ hc) (forall₂_flip_of hyes (List.forall_mem_append.1 hbranches).1)
  | ifElse hc hyes hno =>
    obtain ⟨hcondition, hbranches⟩ := List.forall_mem_cons.1 hS
    obtain ⟨hSyes, hSno⟩ := List.forall_mem_append.1 hbranches
    exact .ifElse (hcondition _ hc) (forall₂_flip_of hyes hSyes) (forall₂_flip_of hno hSno)
  | whileDo hc hbody =>
    obtain ⟨hcondition, hrest⟩ := List.forall_mem_cons.1 hS
    exact .whileDo (hcondition _ hc) (forall₂_flip_of hbody hrest)
  | forDo hi hc hs hbody =>
    simp only [Node.children, List.forall_mem_cons] at hS
    exact .forDo (hS.1 _ hi) (hS.2.1 _ hc) (hS.2.2.1 _ hs) (forall₂_flip_of hbody hS.2.2.2)
  | function h => exact .function (h.flip_of hS)
  | box h =>
    obtain ⟨hfields, hmethods⟩ := List.forall_mem_append.1 hS
    refine .box (h.flip_of (List.forall_mem_map.1 hfields) fun f hf n hn => ?_)
    exact hmethods n (List.mem_flatMap.2 ⟨f, hf, hn⟩)

/-- Nodes with related children are related by any relation that these have. -/
theorem Node.Recoded.imp {x y : Node} (h : x.Recoded S y)
    (hS : ∀ a ∈ x.children, ∀ b, S a b → S' a b) : x.Recoded S' y := by
  have hflipped : y.Recoded (fun b a => S' a b) x := h.flip_of hS
  exact hflipped.flip_of fun _ _ _ hab => hab

end Flip

/-! ### The same code -/

theorem Routine.recoded_self {r : Routine} (h : ∀ n ∈ r.body, S n n) : r.Recoded S r := by
  cases r
  exact .of _ _ (List.forall₂_same.2 h)

theorem BoxDecl.recoded_eq (d : BoxDecl) : d.Recoded (· = ·) d := by
  have hfield : ∀ f : FieldDecl, f.Recoded (· = ·) f := fun f => by
    cases f
    exact .of _ _ rfl
  have hmethod : ∀ f : MethodDecl, f.Recoded (· = ·) f := fun f => by
    cases f
    exact .of _ _ (Routine.recoded_self fun _ _ => rfl)
  cases d
  exact .of _ _ _ _ (List.forall₂_same.2 fun f _ => hfield f)
    (List.forall₂_same.2 fun f _ => hmethod f)

theorem Node.recoded_eq {n : Node} (hn : ∀ k, n ≠ .int k) : n.Recoded (· = ·) n := by
  -- the clauses themselves relate equal nodes, but for numbers, which may be folded
  have hlist : ∀ l : List Node, List.Forall₂ (· = ·) l l := fun l =>
    List.forall₂_same.2 fun _ _ => rfl
  have hcall : ∀ c : Invocation, c.Recoded (· = ·) c := fun c => by
    cases c
    exact .of _ (hlist _)
  cases n with
  | int k => exact absurd rfl (hn k)
  | str s => exact .str s
  | var name => exact .var name
  | input => exact .input
  | create box => exact .create box
  | field holder field => exact .field holder field
  | giveBack value =>
    cases value with
    | none => exact .giveBackNone
    | some v => exact .giveBack rfl
  | negate v => exact .negate rfl
  | assign name v => exact .assign name rfl
  | setField holder field v => exact .setField holder field rfl
  | print v newline => exact .print newline rfl
  | raise v => exact .raise rfl
  | importScript v => exact .importScript rfl
  | readLines v => exact .readLines rfl
  | readText v => exact .readText rfl
  | fileExists v => exact .fileExists rfl
  | binary op a b => exact .binary op rfl rfl
  | index a b => exact .index rfl rfl
  | extend k b f a => exact .extend rfl rfl rfl rfl
  | call name args => exact .call name (hlist args)
  | array items => exact .array (hlist items)
  | extension target name args => exact .extension name rfl (hlist args)
  | method receiver first further =>
    exact .method receiver (hcall first) (List.forall₂_same.2 fun c _ => hcall c)
  | ifElse c yes no =>
    cases no with
    | none => exact .ifThen rfl (hlist yes)
    | some no => exact .ifElse rfl (hlist yes) (hlist no)
  | whileDo c body => exact .whileDo rfl (hlist body)
  | forDo i c s body => exact .forDo rfl rfl rfl (hlist body)
  | function r => exact .function (Routine.recoded_self fun _ _ => rfl)
  | box d => exact .box d.recoded_eq

/-- A node is like itself if the nodes below it are related to themselves. -/
theorem Node.recoded_self {n : Node} (hn : ∀ k, n ≠ .int k) (h : ∀ c ∈ n.children, S c c) :
    n.Recoded S n := by
  refine (recoded_eq hn).imp fun a ha b hab => ?_
  rw [← hab]
  exact h a ha

/-! ## Tables -/

section Tables

variable {κ α : Type} [DecidableEq κ] {R : α → α → Prop}

/-- Entries under the same key that are related. -/
def EntryRelated (R : α → α → Prop) (e e' : κ × α) : Prop := e'.1 = e.1 ∧ R e.2 e'.2

/-- Tables with the same keys in the same order, and related entries. -/
def Dict.Related (R : α → α → Prop) (d d' : Dict κ α) : Prop :=
  List.Forall₂ (EntryRelated R) d.entries d'.entries

theorem Dict.find?_related (k : κ) {es es' : List (κ × α)}
    (h : List.Forall₂ (EntryRelated R) es es') : Option.Rel R (find? k es) (find? k es') := by
  induction h with
  | nil => exact .none
  | @cons e e' _ _ he _ ih =>
    rw [find?, find?, he.1]
    split
    · exact .some he.2
    · exact ih

theorem Dict.put_related (k : κ) {a a' : α} (ha : R a a') {es es' : List (κ × α)}
    (h : List.Forall₂ (EntryRelated R) es es') :
    List.Forall₂ (EntryRelated R) (put k a es) (put k a' es') := by
  induction h with
  | nil => exact .cons ⟨rfl, ha⟩ .nil
  | @cons e e' _ _ he hrest ih =>
    rw [put, put, he.1]
    split
    · exact .cons ⟨rfl, ha⟩ hrest
    · exact .cons ⟨rfl, he.2⟩ ih

namespace Dict.Related

variable {d d' e e' : Dict κ α}

theorem get? (h : d.Related R d') (k : κ) : Option.Rel R (d.get? k) (d'.get? k) :=
  find?_related k h

theorem contains (h : d.Related R d') (k : κ) : d'.contains k = d.contains k := by
  have hk := h.get? k
  unfold Dict.contains
  generalize d.get? k = found at hk
  generalize d'.get? k = found' at hk
  cases hk <;> rfl

theorem insert (h : d.Related R d') (k : κ) {a a' : α} (ha : R a a') :
    (d.insert k a).Related R (d'.insert k a') := put_related k ha h

theorem erase (h : d.Related R d') (k : κ) : (d.erase k).Related R (d'.erase k) :=
  filter_related (fun he => by rw [he.1]) h

theorem union (hd : d.Related R d') (he : e.Related R e') :
    (d.union e).Related R (d'.union e') := by
  refine List.rel_foldl (fun d d' hd e e' he => ?_) hd he
  unfold insertNew
  rw [he.1, hd.contains]
  split
  · exact hd
  · exact hd.insert _ he.2

end Dict.Related

end Tables

/-! ## What is stored -/

/-- Expressions of fields that are related, or the same value. -/
inductive FieldInit.Recoded (S : Node → Node → Prop) : FieldInit → FieldInit → Prop
  | expr {n n' : Node} (h : S n n') : Recoded S (.expr n) (.expr n')
  | fixed (value : Value) : Recoded S (.fixed value) (.fixed value)

/-- Fields of definitions that get their first value from related expressions. -/
structure FieldSpec.Recoded (S : Node → Node → Prop) (f f' : FieldSpec) : Prop where
  name : f'.name = f.name
  init : f.init.Recoded S f'.init
  access : f'.access = f.access

/-- Functions of definitions with related bodies. -/
structure MethodSpec.Recoded (S : Node → Node → Prop) (f f' : MethodSpec) : Prop where
  routine : f.routine.Recoded S f'.routine
  access : f'.access = f.access
  isAbstract : f'.isAbstract = f.isAbstract

/-- Definitions with related members, in the same order. -/
structure BoxDef.Recoded (S : Node → Node → Prop) (d d' : BoxDef) : Prop where
  name : d'.name = d.name
  base : d'.base = d.base
  isAbstract : d'.isAbstract = d.isAbstract
  isConst : d'.isConst = d.isConst
  fields : List.Forall₂ (FieldSpec.Recoded S) d.fields d'.fields
  methods : List.Forall₂ (MethodSpec.Recoded S) d.methods d'.methods

/-- Extensions of one kind with related routines. -/
structure Extension.Recoded (S : Node → Node → Prop) (e e' : Extension) : Prop where
  kind : e'.kind = e.kind
  routine : e.routine.Recoded S e'.routine

/-- The same field, or functions with the same locals and related routines. -/
inductive Slot.Recoded (S : Node → Node → Prop) : Slot → Slot → Prop
  | field (name : String) (value : Value) (access : Access) :
    Recoded S (.field name value access) (.field name value access)
  | function (access : Access) (locals : Locals) {r r' : Routine} (h : r.Recoded S r') :
    Recoded S (.function r access locals) (.function r' access locals)

/-- Instances that are alike, slot by slot. -/
structure Instance.Recoded (S : Node → Node → Prop) (i i' : Instance) : Prop where
  box : i'.box = i.box
  slots : List.Forall₂ (Slot.Recoded S) i.slots i'.slots

/-- Machines that are alike but for the code in the tables and the instances, which is related. -/
structure Machine.Recoded (S : Node → Node → Prop) (m m' : Machine) : Prop where
  scopes : m'.heap.scopes = m.heap.scopes
  returns : m'.heap.returns = m.heap.returns
  functions : m.heap.functions.Related (Dict.Related (Routine.Recoded S)) m'.heap.functions
  boxes : m.heap.boxes.Related (Dict.Related (BoxDef.Recoded S)) m'.heap.boxes
  extensions : m.heap.extensions.Related (Dict.Related (Extension.Recoded S)) m'.heap.extensions
  instances : m.heap.instances.Related (Instance.Recoded S) m'.heap.instances
  context : m'.context = m.context
  console : m'.console = m.console
  files : m'.files = m.files
  depth : m'.depth = m.depth
  chained : m'.chained = m.chained

/-! ## Routines and definitions -/

theorem Routine.Recoded.name_eq {r r' : Routine} (h : r.Recoded S r') : r'.name = r.name := by
  cases h
  rfl

theorem Routine.Recoded.params_eq {r r' : Routine} (h : r.Recoded S r') :
    r'.params = r.params := by
  cases h
  rfl

theorem Routine.Recoded.signature {r r' : Routine} (h : r.Recoded S r') :
    r'.signature = r.signature := by
  unfold Routine.signature
  rw [h.name_eq, h.params_eq]

theorem MethodSpec.Recoded.signature {f f' : MethodSpec} (h : f.Recoded S f') :
    f'.signature = f.signature := h.routine.signature

/-- Both fail with the same error, or both succeed and the results are related. -/
inductive Concur {ε α β : Type} (R : α → β → Prop) : Except ε α → Except ε β → Prop
  | error (e : ε) : Concur R (.error e) (.error e)
  | ok {a : α} {b : β} (h : R a b) : Concur R (.ok a) (.ok b)

theorem BoxDecl.Recoded.ofDecl {d d' : BoxDecl} (h : d.Recoded S d') :
    (BoxDef.ofDecl d).Recoded S (BoxDef.ofDecl d') := by
  cases h with
  | of name base isAbstract isConst hfields hmethods =>
    refine ⟨rfl, rfl, rfl, rfl, List.rel_map (fun f f' hf => ?_) hfields,
      List.rel_map (fun f f' hf => ?_) hmethods⟩
    · cases hf with
      | of name access hinit => exact ⟨rfl, .expr hinit, rfl⟩
    · cases hf with
      | of access isAbstract hr => exact ⟨hr, rfl, rfl⟩

theorem inheritBy_related {α β κ : Type} [BEq κ] {R : α → β → Prop} {key : α → κ} {key' : β → κ}
    (hkey : ∀ {a b}, R a b → key' b = key a) {own base : List α} {own' base' : List β}
    (hown : List.Forall₂ R own own') (hbase : List.Forall₂ R base base') :
    List.Forall₂ R (inheritBy key own base) (inheritBy key' own' base') := by
  induction hbase generalizing own own' with
  | nil => exact hown
  | @cons b b' base base' hb _ ih =>
    have hthere : own'.any (key' · == key' b') = own.any (key · == key b) :=
      any_eq_of_related (fun hab => by rw [hkey hab, hkey hb]) hown
    rw [inheritBy_cons, inheritBy_cons, hthere]
    split
    · exact ih hown
    · exact ih (List.rel_append hown (.cons hb .nil))

namespace BoxDef.Recoded

variable {d d' b b' : BoxDef}

theorem fieldNames (h : d.Recoded S d') : d'.fields.map (·.name) = d.fields.map (·.name) :=
  map_eq_of_related (fun hf => hf.name) h.fields

theorem signatures (h : d.Recoded S d') :
    d'.methods.map (·.signature) = d.methods.map (·.signature) :=
  map_eq_of_related (fun hf => hf.signature) h.methods

theorem inherit (h : d.Recoded S d') (hb : b.Recoded S b') :
    (d.inherit b).Recoded S (d'.inherit b') where
  name := h.name
  base := h.base
  isAbstract := h.isAbstract
  isConst := h.isConst
  fields := inheritBy_related (fun hf => hf.name) h.fields hb.fields
  methods := inheritBy_related (fun hf => hf.signature) h.methods hb.methods

/-- Both are complete or neither, and they fail alike. -/
theorem complete (h : d.Recoded S d') {base base' : Option BoxDef}
    (hb : Option.Rel (BoxDef.Recoded S) base base') :
    Concur (BoxDef.Recoded S) (d.complete base) (d'.complete base') := by
  -- with the members of its base, if it has one
  have hwhole : ∀ {w w' : BoxDef}, w.Recoded S w' → Concur (BoxDef.Recoded S)
      (if !(w.methods.filter (·.isAbstract)).isEmpty && !w.isAbstract then
          .error (.abstractNotOverridden w.name
            ((w.methods.filter (·.isAbstract)).map (·.routine.name)))
        else .ok w : Except RuntimeError BoxDef)
      (if !(w'.methods.filter (·.isAbstract)).isEmpty && !w'.isAbstract then
          .error (.abstractNotOverridden w'.name
            ((w'.methods.filter (·.isAbstract)).map (·.routine.name)))
        else .ok w') := by
    intro w w' hw
    have hpending : (w'.methods.filter (·.isAbstract)).map (·.routine.name)
        = (w.methods.filter (·.isAbstract)).map (·.routine.name) :=
      map_eq_of_related (fun hf => hf.routine.name_eq)
        (filter_related (fun hf => hf.isAbstract) hw.methods)
    have hempty := congrArg List.isEmpty hpending
    rw [List.isEmpty_map, List.isEmpty_map] at hempty
    rw [hpending, hempty, hw.isAbstract, hw.name]
    split
    · exact .error _
    · exact .ok hw
  unfold BoxDef.complete
  rw [h.fieldNames, h.signatures, h.name]
  cases firstRepeated? [] (d.fields.map (·.name)) with
  | some field => exact .error _
  | none =>
    cases firstRepeated? [] (d.methods.map (·.signature)) with
    | some signature => exact .error _
    | none =>
      cases hb with
      | none => exact hwhole h
      | some hb => exact hwhole (h.inherit hb)

end BoxDef.Recoded

/-! ## Instances -/

theorem Slot.Recoded.writtenLike {s s' : Slot} (h : s.Recoded S s') : s.WrittenLike s' := by
  cases h with
  | field name value access => exact .field name value access
  | function access locals h => exact .function access h.name_eq h.params_eq

theorem Slot.Recoded.visible {s s' : Slot} (h : s.Recoded S s') (guardedToo : Bool) :
    s'.visible guardedToo = s.visible guardedToo := by
  cases h <;> rfl

section Slots

variable {slots slots' : List Slot}

theorem setFieldSlot_recoded (name : String) (v : Value)
    (h : List.Forall₂ (Slot.Recoded S) slots slots') :
    List.Forall₂ (Slot.Recoded S) (setFieldSlot name v slots) (setFieldSlot name v slots') := by
  induction h with
  | nil => exact .nil
  | cons hs hrest ih =>
    cases hs with
    | field n old access =>
      rw [setFieldSlot, setFieldSlot]
      split
      · exact .cons (.field n v access) hrest
      · exact .cons (.field n old access) ih
    | function access locals hr => exact .cons (.function access locals hr) ih

theorem setLevelSlot_recoded (signature : Signature) (level : Nat)
    (h : List.Forall₂ (Slot.Recoded S) slots slots') :
    List.Forall₂ (Slot.Recoded S) (setLevelSlot signature level slots)
      (setLevelSlot signature level slots') := by
  induction h with
  | nil => exact .nil
  | cons hs hrest ih =>
    cases hs with
    | field n old access => exact .cons (.field n old access) ih
    | function access locals hr =>
      rw [setLevelSlot, setLevelSlot, hr.signature]
      split
      · exact .cons (.function access _ hr) hrest
      · exact .cons (.function access locals hr) ih

end Slots

namespace Instance.Recoded

variable {i i' : Instance}

theorem writtenLike (h : i.Recoded S i') : i.WrittenLike i' :=
  ⟨h.box, h.slots.imp fun _ _ hs => hs.writtenLike⟩

theorem field? (h : i.Recoded S i') (name : String) : i'.field? name = i.field? name := by
  have hfound : Option.Rel (· = ·) (i.field? name) (i'.field? name) := by
    refine findSome?_related (fun {s s'} hs => ?_) h.slots
    cases hs with
    | field n value access =>
      simp only [Slot.asField?]
      split
      · exact .some rfl
      · exact .none
    | function => exact .none
  generalize i.field? name = found at hfound
  generalize i'.field? name = found' at hfound
  cases hfound with
  | some heq => rw [heq]
  | none => rfl

/-- The routines of the method are related, and all else that is found is the same. -/
theorem method? (h : i.Recoded S i') (signature : Signature) :
    Option.Rel (fun x x' => x.1.Recoded S x'.1 ∧ x'.2 = x.2) (i.method? signature)
      (i'.method? signature) := by
  refine findSome?_related (fun {s s'} hs => ?_) h.slots
  cases hs with
  | field => exact .none
  | function access locals hr =>
    simp only [Slot.asFunction?, hr.signature]
    split
    · exact .some ⟨hr, rfl⟩
    · exact .none

theorem fieldNames (h : i.Recoded S i') (guardedToo : Bool) :
    i'.fieldNames guardedToo = i.fieldNames guardedToo :=
  filterMap_eq_of_related (fun hs => by cases hs <;> rfl)
    (filter_related (fun hs => hs.visible guardedToo) h.slots)

theorem signatures (h : i.Recoded S i') (guardedToo : Bool) :
    i'.signatures guardedToo = i.signatures guardedToo := by
  refine filterMap_eq_of_related (fun hs => ?_)
    (filter_related (fun hs => hs.visible guardedToo) h.slots)
  cases hs with
  | field => rfl
  | function access locals hr => exact congrArg some hr.signature

theorem fields (h : i.Recoded S i') : i'.fields = i.fields :=
  filterMap_eq_of_related (fun hs => by cases hs <;> rfl) h.slots

theorem routines (h : i.Recoded S i') :
    List.Forall₂ (Routine.Recoded S) i.routines i'.routines := by
  refine List.rel_filterMap (fun s s' hs => ?_) h.slots
  cases hs with
  | field => exact .none
  | function access locals hr => exact .some hr

/-- An instance fits a definition if and only if its image fits the image. -/
theorem fits (h : i.Recoded S i') {d d' : BoxDef} (hd : d.Recoded S d') :
    i'.fits d' = i.fits d := by
  unfold Instance.fits
  rw [h.fieldNames, h.signatures, hd.fieldNames, hd.signatures]

theorem setField (h : i.Recoded S i') (name : String) (v : Value) :
    (i.setField name v).Recoded S (i'.setField name v) :=
  ⟨h.box, setFieldSlot_recoded name v h.slots⟩

theorem setLevel (h : i.Recoded S i') (signature : Signature) (level : Nat) :
    (i.setLevel signature level).Recoded S (i'.setLevel signature level) :=
  ⟨h.box, setLevelSlot_recoded signature level h.slots⟩

theorem mapFields (h : i.Recoded S i') {f f' : String → Value → Value} (hf : f' = f) :
    (i.mapFields f).Recoded S (i'.mapFields f') where
  box := h.box
  slots := by
    subst hf
    refine List.rel_map (fun s s' hs => ?_) h.slots
    cases hs with
    | field n value access => exact .field n _ access
    | function access locals hr => exact .function access locals hr

theorem toBoxDef (h : i.Recoded S i') (name : String) :
    (i.toBoxDef name).Recoded S (i'.toBoxDef name) where
  name := rfl
  base := rfl
  isAbstract := rfl
  isConst := rfl
  fields := by
    refine List.rel_filterMap (fun s s' hs => ?_) h.slots
    cases hs with
    | field n value access =>
      dsimp only
      split
      · exact .none
      · exact .some ⟨rfl, .fixed value, rfl⟩
    | function => exact .none
  methods := by
    refine List.rel_filterMap (fun s s' hs => ?_) h.slots
    cases hs with
    | field => exact .none
    | function access locals hr => exact .some ⟨hr, rfl, rfl⟩

end Instance.Recoded

/-! ## Machines -/

namespace Machine.Recoded

variable {m m' : Machine}

theorem level (h : m.Recoded S m') : m'.context.level = m.context.level :=
  congrArg Context.level h.context

theorem inClause (h : m.Recoded S m') : m'.context.inClause = m.context.inClause :=
  congrArg Context.inClause h.context

theorem table (h : m.Recoded S m') : m'.context.boxes = m.context.boxes :=
  congrArg Context.boxes h.context

theorem store (h : m.Recoded S m') : m'.scopes = m.scopes := by
  unfold Machine.scopes
  rw [h.scopes, h.context]

theorem stack (h : m.Recoded S m') : m'.returns = m.returns := by
  unfold Machine.returns
  rw [h.returns, h.context]

theorem pending (h : m.Recoded S m') : m'.pending = m.pending := by
  unfold Machine.pending
  rw [h.stack]

theorem signal (h : m.Recoded S m') : m'.signal = m.signal := by
  unfold Machine.signal
  rw [h.stack]

theorem functionTable (h : m.Recoded S m') :
    m.functions.Related (Routine.Recoded S) m'.functions := by
  unfold Machine.functions
  rw [h.context]
  exact h.functions.get _

theorem boxTable (h : m.Recoded S m') : m.boxes.Related (BoxDef.Recoded S) m'.boxes := by
  unfold Machine.boxes
  rw [h.context]
  exact h.boxes.get _

theorem extensionTable (h : m.Recoded S m') :
    m.extensions.Related (Extension.Recoded S) m'.extensions := by
  unfold Machine.extensions
  rw [h.context]
  exact h.extensions.get _

theorem instanceAt (h : m.Recoded S m') (o : Handle) :
    (m.instanceAt o).Recoded S (m'.instanceAt o) := h.instances.get o

/-- Values look the same, since no text shows code. -/
theorem printable (h : m.Recoded S m') (v : Value) :
    m'.heap.printable v = m.heap.printable v :=
  printableIn_related ⟨h.instances.size, fun o => (h.instances.get o).writtenLike⟩ [] v

theorem text (h : m.Recoded S m') : m'.heap.text = m.heap.text := by
  funext v
  cases v with
  | str s => rfl
  | _ => exact h.printable _

/-! ### Changes -/

theorem atLevel (h : m.Recoded S m') (level : Nat) :
    (m.atLevel level).Recoded S (m'.atLevel level) :=
  { h with context := congrArg (fun c : Context => { c with level := level }) h.context }

theorem withClause (h : m.Recoded S m') (inClause : Bool) :
    (m.withClause inClause).Recoded S (m'.withClause inClause) :=
  { h with context := congrArg (fun c : Context => { c with inClause := inClause }) h.context }

theorem withDepth (h : m.Recoded S m') (depth : Nat) :
    Machine.Recoded S { m with depth := depth } { m' with depth := depth } :=
  { h with depth := rfl }

theorem withChained (h : m.Recoded S m') (chained : Nat) :
    Machine.Recoded S { m with chained := chained } { m' with chained := chained } :=
  { h with chained := rfl }

theorem withConsole (h : m.Recoded S m') (console : Console) :
    Machine.Recoded S { m with console := console } { m' with console := console } :=
  { h with console := rfl }

theorem inContext (h : m.Recoded S m') (c : Context) :
    Machine.Recoded S { m with context := c } { m' with context := c } := { h with context := rfl }

theorem updateScopesAt (h : m.Recoded S m') (k : Handle) (f : Scopes → Scopes) :
    (m.updateScopesAt k f).Recoded S (m'.updateScopesAt k f) :=
  { h with scopes := congrArg (·.modify k f) h.scopes }

theorem updateScopes (h : m.Recoded S m') (f : Scopes → Scopes) :
    (m.updateScopes f).Recoded S (m'.updateScopes f) := by
  unfold Machine.updateScopes
  rw [h.context]
  exact h.updateScopesAt _ f

theorem closeTo (h : m.Recoded S m') (level : Nat) :
    (m.closeTo level).Recoded S (m'.closeTo level) := (h.updateScopes _).atLevel level

theorem updateReturns (h : m.Recoded S m') (f : Returns → Returns) :
    (m.updateReturns f).Recoded S (m'.updateReturns f) :=
  { h with
    returns := by
      show m'.heap.returns.modify m'.context.returns f = _
      rw [h.returns, h.context]
      rfl }

theorem dropSignal (h : m.Recoded S m') : m.dropSignal.Recoded S m'.dropSignal := h.updateReturns _

theorem noteSignal (h : m.Recoded S m') : m.noteSignal.Recoded S m'.noteSignal := by
  unfold Machine.noteSignal
  rw [h.console, h.signal, h.printable]
  split
  · exact h.withConsole _
  · exact h

theorem updateFunctions (h : m.Recoded S m') {f f' : Functions → Functions}
    (hf : ∀ {d d'}, Dict.Related (Routine.Recoded S) d d' →
      Dict.Related (Routine.Recoded S) (f d) (f' d')) :
    (m.updateFunctions f).Recoded S (m'.updateFunctions f') :=
  { h with
    functions := by
      show Pool.Related _ (m.heap.functions.modify m.context.functions f)
        (m'.heap.functions.modify m'.context.functions f')
      rw [h.context]
      exact h.functions.modify _ hf }

theorem updateBoxesAt (h : m.Recoded S m') (table : Handle) {f f' : Boxes → Boxes}
    (hf : ∀ {d d'}, Dict.Related (BoxDef.Recoded S) d d' →
      Dict.Related (BoxDef.Recoded S) (f d) (f' d')) :
    (m.updateBoxesAt table f).Recoded S (m'.updateBoxesAt table f') :=
  { h with boxes := h.boxes.modify table hf }

theorem updateExtensions (h : m.Recoded S m') {f f' : Extensions → Extensions}
    (hf : ∀ {d d'}, Dict.Related (Extension.Recoded S) d d' →
      Dict.Related (Extension.Recoded S) (f d) (f' d')) :
    (m.updateExtensions f).Recoded S (m'.updateExtensions f') :=
  { h with
    extensions := by
      show Pool.Related _ (m.heap.extensions.modify m.context.extensions f)
        (m'.heap.extensions.modify m'.context.extensions f')
      rw [h.context]
      exact h.extensions.modify _ hf }

theorem updateInstance (h : m.Recoded S m') (o : Handle) {f f' : Instance → Instance}
    (hf : ∀ i i', Instance.Recoded S i i' → Instance.Recoded S (f i) (f' i')) :
    (m.updateInstance o f).Recoded S (m'.updateInstance o f') :=
  { h with instances := h.instances.modify o fun hi => hf _ _ hi }

/-! ### New instances -/

/-- The functions of related definitions get the same locals. -/
theorem makeMethodsFrom (h : m.Recoded S m') {made made' : List Slot}
    (hmade : List.Forall₂ (Slot.Recoded S) made made') {specs specs' : List MethodSpec}
    (hspecs : List.Forall₂ (MethodSpec.Recoded S) specs specs') :
    List.Forall₂ (Slot.Recoded S) (BoxScript.makeMethodsFrom made specs m.heap).1
        (BoxScript.makeMethodsFrom made' specs' m'.heap).1 ∧
      Machine.Recoded S { m with heap := (BoxScript.makeMethodsFrom made specs m.heap).2 }
        { m' with heap := (BoxScript.makeMethodsFrom made' specs' m'.heap).2 } := by
  induction hspecs generalizing m m' made made' with
  | nil => exact ⟨List.rel_reverse hmade, h⟩
  | @cons f f' specs specs' hf _ ih =>
    let cells (heap : Heap) : Heap :=
      { heap with scopes := heap.scopes.push .empty, returns := heap.returns.push [] }
    have hcells : Machine.Recoded S { m with heap := cells m.heap }
        { m' with heap := cells m'.heap } :=
      { h with
        scopes := congrArg (·.push .empty) h.scopes
        returns := congrArg (·.push []) h.returns }
    refine ih hcells (.cons ?_ hmade)
    rw [h.scopes, h.returns, hf.access]
    exact .function _ _ hf.routine

theorem allocate (h : m.Recoded S m') {d d' : BoxDef} (hd : d.Recoded S d') (fields : List Slot)
    (hfields : List.Forall₂ (Slot.Recoded S) fields fields) :
    (BoxScript.allocate d' fields m').result = (BoxScript.allocate d fields m).result ∧
      (BoxScript.allocate d fields m).machine.Recoded S
        (BoxScript.allocate d' fields m').machine := by
  obtain ⟨hslots, hcells⟩ := h.makeMethodsFrom .nil hd.methods
  refine ⟨congrArg Result.ok hcells.instances.next, { hcells with instances := ?_ }⟩
  exact hcells.instances.push ⟨hd.name, List.rel_append hfields hslots⟩

/-! ### Ways in and out -/

theorem enterMethod (h : m.Recoded S m') (o : Handle) (signature : Signature) (locals : Locals)
    (active : Nat) : (BoxScript.enterMethod o signature locals active m).Recoded S
      (BoxScript.enterMethod o signature locals active m') := by
  have hi := h.instanceAt o
  have hlevel := h.updateInstance o fun _ _ hi => hi.setLevel signature active
  refine { hlevel with scopes := ?_, functions := ?_, context := ?_ }
  · show m'.heap.scopes.modify locals.scopes
      (fun s => (m'.instanceAt o).fields.foldl (fun s f => s.set f.1 f.2 0 true) s) = _
    rw [hi.fields, h.scopes]
    rfl
  · refine h.functions.push ?_
    refine List.rel_foldl (fun d d' hd r r' hr => ?_) h.functionTable hi.routines
    rw [hr.signature]
    exact hd.insert _ hr
  · show (⟨locals.scopes, m'.heap.functions.next, m'.context.boxes, locals.returns,
      m'.context.extensions, active, false⟩ : Context) = _
    rw [h.context, h.functions.next]
    rfl

theorem leaveMethod (h : m.Recoded S m') (o : Handle) (signature : Signature) (locals : Locals)
    (caller : Context) (closed level : Nat) :
    (BoxScript.leaveMethod o signature locals caller closed level m).Recoded S
      (BoxScript.leaveMethod o signature locals caller closed level m') := by
  have hclosed := h.updateScopesAt locals.scopes (·.close closed)
  have hback :=
    (hclosed.updateInstance o fun _ _ hi => hi.setLevel signature level).inContext caller
  exact hback.updateInstance o fun _ _ hi => hi.mapFields (congrArg (fun p : Pool Scopes =>
    fun name value => ((p.get locals.scopes).lookup name 0).getD value) hback.scopes)

theorem forked (h : m.Recoded S m') : m.forked.Recoded S m'.forked where
  context := by
    show Context.next m'.heap m'.context.level m'.context.inClause = _
    unfold Context.next
    rw [h.scopes, h.functions.next, h.boxes.next, h.returns, h.extensions.next, h.level, h.inClause]
    rfl
  scopes := by
    show m'.heap.scopes.push m'.scopes = _
    rw [h.scopes, h.store]
    rfl
  returns := by
    show m'.heap.returns.push m'.returns = _
    rw [h.returns, h.stack]
    rfl
  functions := h.functions.push h.functionTable
  boxes := h.boxes.push h.boxTable
  extensions := h.extensions.push h.extensionTable
  instances := h.instances
  console := h.console
  files := h.files
  depth := h.depth
  chained := h.chained

section Scripts

variable {sub sub' : Machine}

/-- Merges of related machines are related. -/
theorem merged (h : m.Recoded S m') (hsub : sub.Recoded S sub') :
    (m.merged sub).Recoded S (m'.merged sub') where
  context := by
    show ({ m'.context with level := sub'.context.level, inClause := sub'.context.inClause } :
      Context) = _
    rw [h.context, hsub.level, hsub.inClause]
    rfl
  scopes := by
    show Context.mergeCell Scopes.absorb m'.context.scopes sub'.context.scopes
      sub'.heap.scopes = _
    rw [h.context, hsub.context, hsub.scopes]
    rfl
  returns := by
    show Context.mergeCell (fun a b => a ++ b.drop m'.returns.length) m'.context.returns
      sub'.context.returns sub'.heap.returns = _
    rw [h.context, hsub.context, hsub.returns, h.stack]
    rfl
  -- tables of code are related and not the same, so that they are merged entry by entry
  functions := by
    show Pool.Related _ (Context.mergeCell Dict.union m.context.functions sub.context.functions
        sub.heap.functions) (Context.mergeCell Dict.union m'.context.functions
        sub'.context.functions sub'.heap.functions)
    rw [h.context, hsub.context]
    exact hsub.functions.mergeCell Dict.Related.union _ _
  boxes := by
    show Pool.Related _ (Context.mergeCell Dict.union m.context.boxes sub.context.boxes
        sub.heap.boxes) (Context.mergeCell Dict.union m'.context.boxes sub'.context.boxes
        sub'.heap.boxes)
    rw [h.context, hsub.context]
    exact hsub.boxes.mergeCell Dict.Related.union _ _
  extensions := by
    show Pool.Related _ (Context.mergeCell Dict.union m.context.extensions sub.context.extensions
        sub.heap.extensions) (Context.mergeCell Dict.union m'.context.extensions
        sub'.context.extensions sub'.heap.extensions)
    rw [h.context, hsub.context]
    exact hsub.extensions.mergeCell Dict.Related.union _ _
  instances := hsub.instances
  console := hsub.console
  files := hsub.files
  depth := h.depth
  chained := by
    show max m'.chained sub'.chained = _
    rw [h.chained, hsub.chained]
    rfl

theorem discarded (h : m.Recoded S m') (hsub : sub.Recoded S sub') (chained : Nat) :
    (m.discarded sub chained).Recoded S (m'.discarded sub' chained) := by
  have hback := ((hsub.inContext m.context).withDepth m.depth).withChained chained
  unfold Machine.discarded
  rw [h.context, h.depth]
  exact hback

end Scripts

end Machine.Recoded

/-! ## The same machine -/

theorem Slot.recoded_self (hS : ∀ n, S n n) (s : Slot) : s.Recoded S s := by
  cases s with
  | field name value access => exact .field name value access
  | function r access locals => exact .function access locals (Routine.recoded_self fun n _ => hS n)

theorem BoxDef.recoded_self (hS : ∀ n, S n n) (d : BoxDef) : d.Recoded S d := by
  have hinit : ∀ init : FieldInit, init.Recoded S init := by
    intro init
    cases init with
    | expr n => exact .expr (hS n)
    | fixed v => exact .fixed v
  exact ⟨rfl, rfl, rfl, rfl, List.forall₂_same.2 fun f _ => ⟨rfl, hinit f.init, rfl⟩,
    List.forall₂_same.2 fun f _ => ⟨Routine.recoded_self fun n _ => hS n, rfl, rfl⟩⟩

/-- A machine is like itself if all code is related to itself. -/
theorem Machine.recoded_self (hS : ∀ n, S n n) (m : Machine) : m.Recoded S m := by
  have htable : ∀ {κ α : Type} {R : α → α → Prop}, (∀ a, R a a) → ∀ p : Pool (Dict κ α),
      p.Related (Dict.Related R) p :=
    fun hR p => ⟨rfl, fun _ => List.forall₂_same.2 fun e _ => ⟨rfl, hR e.2⟩⟩
  have hroutine : ∀ r : Routine, r.Recoded S r := fun r => Routine.recoded_self fun n _ => hS n
  exact ⟨rfl, rfl, htable hroutine _, htable (BoxDef.recoded_self hS) _,
    htable (fun e => ⟨rfl, hroutine e.routine⟩) _,
    ⟨rfl, fun _ => ⟨rfl, List.forall₂_same.2 fun s _ => Slot.recoded_self hS s⟩⟩,
    rfl, rfl, rfl, rfl, rfl⟩

end BoxScript
