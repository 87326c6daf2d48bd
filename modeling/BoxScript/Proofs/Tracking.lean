import BoxScript.Proofs.Stages
import BoxScript.Proofs.Values
import Mathlib.Data.List.TakeDrop

/-!
# Contracts that follow values

A contract says what steps do to the machine. Whether a step is to be allowed can also hang on the
values that it is taken with, such as the instance whose field is set. A `Tracked` contract names
the instances that code gets hold of (`holds`) and those whose fields it sets (`writes`). If all
that code can read refers to such instances only (`Readings`), so does all that it evaluates to, and
a step needs to be allowed for such values only.

`Tracked.Steps` lists what the rules for expressions and simple statements do to the machine by
themselves: assign, print, declare, register, create, write a field, make up a definition for a
further call in a row. `Tracked.Rules` adds what directs the run: signals, blocks, clauses, calls,
methods and imports, each as a way in and a way out. A contract that allows all of them is kept by
the rule for every node in its scope, from any machine in the invariant
(`Tracked.Rules.gives_evalNode`). The evaluator is gone through once, here.
-/

namespace BoxScript

/-- A contract that also tells which instances code gets hold of, and on which it sets fields. -/
structure Tracked extends Contract where
  holds : Handle → Prop
  writes : Handle → Prop

/-- The values of the fields are in `A`. -/
def FieldsIn (A : Value → Prop) (slots : List Slot) : Prop :=
  ∀ {name v access}, Slot.field name v access ∈ slots → A v

/-- One console comes after another one: what can still be read is what could be read, or the end
of it. -/
def Console.Proceeds (c c' : Console) : Prop := c'.source <:+ c.source

theorem splitLine_cases (bytes : List UInt8) : splitLine bytes = (bytes, []) ∨
    ∃ line feed rest, bytes = line ++ feed :: rest ∧ splitLine bytes = (line ++ [feed], rest) := by
  have hparts := List.takeWhile_append_dropWhile (p := (· ≠ 10)) (l := bytes)
  unfold splitLine
  rw [List.span_eq_takeWhile_dropWhile]
  cases hrest : bytes.dropWhile (· ≠ 10) with
  | nil =>
    rw [hrest, List.append_nil] at hparts
    exact .inl (congrArg (·, []) hparts)
  | cons feed rest =>
    rw [hrest] at hparts
    exact .inr ⟨_, feed, rest, hparts.symm, rfl⟩

/-- Splitting off a line loses nothing of the input. -/
theorem splitLine_append (bytes : List UInt8) :
    (splitLine bytes).1 ++ (splitLine bytes).2 = bytes := by
  rcases splitLine_cases bytes with h | ⟨line, feed, rest, hbytes, h⟩
  · rw [h, List.append_nil]
  · rw [h, List.append_assoc, List.singleton_append, hbytes]

theorem Console.proceeds_readValue (c : Console) : c.Proceeds c.readValue.2 := by
  have hread : c.readValue.2 = c.nextLine.2 := by
    unfold readValue
    dsimp only
    split <;> rfl
  rw [hread]
  unfold nextLine
  dsimp only
  split
  · exact List.suffix_rfl
  · exact (List.drop_suffix _ _).trans ⟨_, splitLine_append c.source⟩

/-- The methods that a row of calls begins with may be called: those of the instance that a variable
in scope holds, and those of every new instance. -/
structure Contract.Callable (C : Contract) : Prop where
  named : ∀ {m holder first further h}, C.scope (.method (.named holder) first further) m →
    C.inv m → m.scopes.get holder m.context.level = .ok (.object h) → C.calls h first.signature
  fresh : ∀ {m} (signature : Signature), C.inv m → C.calls m.heap.instances.next signature

theorem Contract.callable_of_all {C : Contract} (h : ∀ o signature, C.calls o signature) :
    C.Callable :=
  ⟨fun _ _ _ => h _ _, fun _ _ => h _ _⟩

open Contract

namespace Tracked

variable {T : Tracked} {N S : Node → Prop} {R : Routine → Prop} {α β : Type}

/-- A value that code may get hold of. -/
abbrev Clean (T : Tracked) (v : Value) : Prop := v.Within T.holds

/-- The steps that direct no run are allowed, for code whose expressions are in `N` and whose
routines are in `R`. -/
structure Steps (T : Tracked) (N : Node → Prop) (R : Routine → Prop) : Prop
    extends T.toContract.Lawful where
  code : ∀ {m}, T.inv m → m.CodeIn N R
  console : ∀ {m} {c : Console}, m.console.Proceeds c → T.inv m → T.Allows m { m with console := c }
  /-- An assignment comes after the evaluation of its value. -/
  assign : ∀ {m m' name v} (value : Node), T.Clean v → T.scope (.assign name value) m →
    T.Moves m m' →
    T.Allows m' (m'.updateScopes (·.set name v m'.context.level m'.context.inClause))
  declare : ∀ {m} {routine : Routine}, T.scope (.function routine) m → R routine → T.inv m →
    T.Allows m (m.updateFunctions (·.insert routine.signature routine))
  register : ∀ {m declaration} {whole : BoxDef}, T.scope (.box declaration) m →
    m.Accepts (.ofDecl declaration) whole → whole.In N R → T.inv m →
    T.Allows m (m.updateBoxesAt m.context.boxes (·.insert whole.name whole))
  extend : ∀ {m} (name : String) {e : Extension}, e.Declared R → T.inv m →
    T.Allows m (m.updateExtensions (·.insert name e))
  /-- A definition is looked up before the fields of a new instance are evaluated. -/
  allocate : ∀ {m m' name} {d : BoxDef} {fields : List Slot}, T.inv m →
    m.boxes.get? name = some d → d.In N R → FieldSlots fields d.fields →
    FieldsIn T.Clean fields → T.inv m' → T.Allows m' (allocate d fields m').machine
  setField : ∀ {m h v} (field : String), T.writes h → T.Clean v → T.inv m →
    T.Allows m (m.updateInstance h (·.setField field v))
  linkIn : ∀ {m h}, T.holds h → T.inv m → T.inv (m.linked h)
  linkOut : ∀ {m m' h}, T.holds h → T.inv m → T.Moves (m.linked h) m' →
    T.Allows m (dropBox m.context.boxes (chainName m.chained) m')
  linkRefused : ∀ {m}, T.inv m → T.Allows m
    (dropBox m.context.boxes (chainName m.chained) { m with chained := m.chained + 1 })

/-- All that code can read off the machine may be got hold of. -/
structure Readings (T : Tracked) : Prop where
  variable_ : ∀ {m name v}, T.inv m → m.scopes.get name m.context.level = .ok v → T.Clean v
  field : ∀ {m h name v access}, T.inv m → T.holds h →
    (m.instanceAt h).field? name = some (v, access) → T.Clean v
  fixed : ∀ {m name d f v}, T.inv m → m.boxes.get? name = some d → f ∈ d.fields →
    f.init = .fixed v → T.Clean v
  created : ∀ {m}, T.inv m → T.holds m.heap.instances.next
  signal : ∀ {m}, T.inv m → T.Clean m.signal

/-- The fields may be set that code in scope sets: by an assignment, or by the one extension that
does so, on what its target evaluates to. -/
structure Writable (T : Tracked) (ev : Evaluator) : Prop where
  assigned : ∀ {m holder field value h}, T.scope (.setField holder field value) m → T.inv m →
    m.scopes.get holder m.context.level = .ok (.object h) → T.writes h
  reflected : ∀ {m target name args h}, T.scope (.extension target name args) m → T.inv m →
    Text.toLower name = "reflectionsetfield" → (ev target m).result = .ok (.object h) →
    T.holds h → T.writes h

/-- What an evaluation of simple nodes takes for granted of the evaluators that it is given. -/
structure Given (T : Tracked) (N : Node → Prop) (R : Routine → Prop) (ev ev' : Evaluator) :
    Prop extends T.toContract.Callable, Readings T, Writable T ev' where
  ask : ∀ {node}, N node → T.Yields T.Clean (ev node) (ev' node)
  invoke : ∀ {routine args}, (∀ v ∈ args, T.Clean v) → R routine →
    T.Yields T.Clean (invoke ev routine args) (invoke ev' routine args)
  method : ∀ {h routine args}, T.calls h routine.signature → (∀ v ∈ args, T.Clean v) → R routine →
    T.Yields T.Clean (runMethod ev h routine args) (runMethod ev' h routine args)
  importing : ∀ {m path source}, T.inv m → m.files.readText path = .ok source →
    T.Kept (importSource ev source) (importSource ev' source)

/-! ## Simple nodes -/

section Simple

variable {ev ev' : Evaluator}

/-- A definition that is found is in the table, so its code has the form. -/
theorem yields_boxNamed_bind (S : T.Steps N R) {A : α → Prop} (name : String)
    {f g : BoxDef → Exec α}
    (h : ∀ m d, T.inv m → m.boxes.get? name = some d → d.In N R → T.Yields A (f d) (g d)) :
    T.Yields A (boxNamed name >>= f) (boxNamed name >>= g) := by
  unfold boxNamed
  rw [bind_assoc, bind_assoc]
  refine yields_look_bind fun m hm => ?_
  cases hd : m.boxes.get? name with
  | none => exact yields_fail S.toLawful (.boxNotFound name)
  | some d => exact h m d hm hd ((S.code hm).boxes _ name d hd)

/-- A definition that is registered is in the code that it was made from. -/
theorem in_of_accepts (S : T.Steps N R) {m : Machine} (hm : T.inv m) {d whole : BoxDef}
    (hd : d.In N R) (accepted : m.Accepts d whole) : whole.In N R := by
  obtain ⟨base, hbase, hwhole⟩ := accepted.complete
  refine BoxDef.in_complete hd ?_ hwhole
  rintro b rfl
  obtain ⟨name, hb⟩ := hbase.registered
  exact (S.code hm).boxes _ name b hb

/-- The declaration is refused, or a definition is registered that is completed from it. -/
theorem meets_registerBox (S : T.Steps N R) {m : Machine} (hm : T.inv m) {declaration : BoxDecl}
    (hd : (BoxDef.ofDecl declaration).In N R) (hscope : T.scope (.box declaration) m) :
    T.Meets m (registerBox (.ofDecl declaration) m) (registerBox (.ofDecl declaration) m) := by
  refine ⟨.inr rfl, ?_⟩
  rcases registerBox_cases (.ofDecl declaration) m with ⟨e, h⟩ | ⟨whole, accepted, h⟩ <;> rw [h]
  · exact Moves.refl S.toLawful hm
  · exact ⟨S.register hscope accepted (in_of_accepts S hm hd accepted) hm, ⟨rfl, rfl⟩⟩

/-- The fields are made one after the other, and what is made so far is handed on. -/
theorem yields_makeFields_bind (S : T.Steps N R) (G : T.Given N R ev ev') {A : α → Prop}
    {f g : List Slot → Exec α} {done todo : List FieldSpec} {made : List Slot}
    (hmade : FieldSlots made.reverse done) (hclean : FieldsIn T.Clean made)
    (htodo : ∀ s ∈ todo, s.init.In N) (hfixed : ∀ s ∈ todo, ∀ v, s.init = .fixed v → T.Clean v)
    (h : ∀ fields, FieldSlots fields (done ++ todo) → FieldsIn T.Clean fields →
      T.Yields A (f fields) (g fields)) :
    T.Yields A (makeFieldsFrom ev made todo >>= f) (makeFieldsFrom ev' made todo >>= g) := by
  -- on the fields that are left; those that are made stand in front, in reverse
  induction todo generalizing done made with
  | nil =>
    rw [List.append_nil] at h
    exact h made.reverse hmade fun hslot => hclean (List.mem_reverse.1 hslot)
  | cons s rest ih =>
    have next : ∀ v, T.Clean v → T.Yields A
        (makeFieldsFrom ev (.field s.name v s.access :: made) rest >>= f)
        (makeFieldsFrom ev' (.field s.name v s.access :: made) rest >>= g) := by
      intro v hv
      have hmade' : FieldSlots (.field s.name v s.access :: made).reverse (done ++ [s]) := by
        rw [List.reverse_cons]
        exact List.rel_append hmade (.cons ⟨v, rfl⟩ .nil)
      refine ih hmade' (fun hslot => ?_) (fun s' hs' => htodo s' (List.mem_cons_of_mem _ hs'))
        (fun s' hs' => hfixed s' (List.mem_cons_of_mem _ hs')) ?_
      · rcases List.mem_cons.1 hslot with heq | hslot
        · cases heq
          exact hv
        · exact hclean hslot
      · rwa [List.append_assoc]
    have hs := htodo s List.mem_cons_self
    rw [makeFieldsFrom, makeFieldsFrom]
    cases hinit : s.init with
    | expr node =>
      rw [hinit] at hs
      simp only [bind_assoc]
      exact (G.ask hs).bind S.toLawful next
    | fixed value =>
      simp only [pure_bind]
      exact next value (hfixed s List.mem_cons_self value hinit)

/-- A new instance is one that code may get hold of, and its methods may be called. -/
theorem yields_instantiate (S : T.Steps N R) (G : T.Given N R ev ev') (name : String) :
    T.Yields (fun o => T.holds o ∧ ∀ signature, T.calls o signature) (instantiate ev name)
      (instantiate ev' name) := by
  refine yields_boxNamed_bind S name fun m d hm hknown hd => ?_
  cases d.isAbstract with
  | true => exact yields_fail S.toLawful (.abstractInstance name)
  | false =>
    have hnone : FieldSlots [].reverse [] := .nil
    refine yields_makeFields_bind S G hnone nofun hd.fields
      (fun s hs v => G.fixed hm hknown hs) fun fields hfields hclean m' hm' => ?_
    refine ⟨⟨.inr rfl, S.allocate hm hknown hd hfields hclean hm', ⟨rfl, rfl⟩⟩, fun {o} hmade => ?_⟩
    have hends : allocate d fields m' = ⟨.ok o, (allocate d fields m').machine⟩ := by rw [← hmade]
    rw [eq_next_of_allocate hends]
    exact ⟨G.created hm', fun signature => G.fresh signature hm'⟩

/-- A variable that is found has the value that the store has at the level of the code or below. -/
theorem gives_lookupVariable (law : T.Lawful) (name : String) {m : Machine} (hm : T.inv m) :
    T.Gives (fun v => m.scopes.get name m.context.level = .ok v) m (lookupVariable name m)
      (lookupVariable name m) := by
  unfold lookupVariable
  cases hv : m.scopes.get name m.context.level with
  | error e => exact yields_fail law e m hm
  | ok v => exact yields_value (A := fun w => Except.ok v = Except.ok w) law rfl m hm

/-- The holder of a field or a call is a variable with an instance. -/
theorem gives_instanceIn (law : T.Lawful) (holder : String) {m : Machine} (hm : T.inv m) :
    T.Gives (fun h => m.scopes.get holder m.context.level = .ok (.object h)) m
      (instanceIn holder m) (instanceIn holder m) := by
  refine (gives_lookupVariable law holder hm).bind law fun v m' hv moves => ?_
  cases v with
  | object h =>
    refine yields_ofExcept law ?_ m' moves.inv
    rintro _ ⟨⟩
    exact hv
  | int | str | array | void => exact yields_fail law _ m' moves.inv

theorem yields_readField (law : T.Lawful) (D : T.Readings) (holder field : String) :
    T.Yields T.Clean (readField holder field) (readField holder field) := by
  intro m hm
  refine (gives_instanceIn law holder hm).bind law fun h m₁ hholds moves => ?_
  have hh := Value.within_object.1 (D.variable_ hm hholds)
  refine (yields_look_bind fun m₂ hm₂ => ?_) m₁ moves.inv
  rcases hfound : (m₂.instanceAt h).field? field with _ | ⟨value, access⟩
  · exact yields_fail law _
  · cases access with
    | exposed => exact yields_value law (D.field hm₂ hh hfound)
    | guarded => exact yields_fail law _

/-- A field is written once its value is known, in an instance that the code refers to. -/
theorem meets_writeField (S : T.Steps N R) (G : T.Given N R ev ev') {holder field : String}
    {value : Node} (hvalue : N value) {m : Machine} (hm : T.inv m)
    (hscope : T.scope (.setField holder field value) m) :
    T.Meets m (writeField ev holder field value m) (writeField ev' holder field value m) := by
  have law := S.toLawful
  refine ((gives_instanceIn law holder hm).bind law fun h m₁ hholds moves =>
    (yields_look_bind fun m₂ _ => ?_ : T.Yields (fun _ => True) _ _) m₁ moves.inv).toMeets
  rcases (m₂.instanceAt h).field? field with _ | ⟨_, access⟩
  · exact yields_fail law _
  · cases access with
    | exposed =>
      have hwrites := G.assigned hscope hm hholds
      refine (G.ask hvalue).bind law fun v hv => (kept_update fun m₃ hm₃ => ?_).yields
      exact ⟨S.setField field hwrites hv hm₃, ⟨rfl, rfl⟩⟩
    | guarded => exact yields_fail law _

theorem yields_callFunction (S : T.Steps N R) (G : T.Given N R ev ev') (name : String)
    {args : List Node} (hargs : ∀ a ∈ args, N a) :
    T.Yields T.Clean (callFunction ev name args) (callFunction ev' name args) := by
  refine yields_look_bind fun m hm => ?_
  cases hr : m.functions.get? ⟨name, args.length⟩ with
  | none => exact yields_fail S.toLawful _
  | some routine =>
    have hvalues := yields_evalArgs S.toLawful fun a ha => G.ask (hargs a ha)
    exact hvalues.bind S.toLawful fun values hclean =>
      G.invoke hclean ((S.code hm).functions _ _ routine hr)

theorem yields_callMethod (S : T.Steps N R) (G : T.Given N R ev ev') {h : Handle}
    {call : Invocation} (hcalls : T.calls h call.signature) (hargs : ∀ a ∈ call.args, N a) :
    T.Yields T.Clean (callMethod ev h call) (callMethod ev' h call) := by
  refine yields_look_bind fun m hm => ?_
  rcases hr : (m.instanceAt h).method? ⟨call.name, call.args.length⟩ with
    _ | ⟨routine, access, locals⟩
  · exact yields_fail S.toLawful _
  · cases access with
    | guarded => exact yields_fail S.toLawful _
    | exposed =>
      obtain ⟨hslot, hsignature⟩ := Instance.method?_eq_some hr
      rw [show call.signature = routine.signature from hsignature.symm] at hcalls
      have hvalues := yields_evalArgs S.toLawful fun a ha => G.ask (hargs a ha)
      exact hvalues.bind S.toLawful fun values hclean =>
        G.method hcalls hclean ((S.code hm).instances h routine (Instance.mem_routines hslot))

/-- A further call in a row, if the calls after it keep the contract in the context of the row. -/
theorem gives_linkFrom (S : T.Steps N R) (G : T.Given N R ev ev') {table : Handle} (name : String)
    {call : Invocation} {calls : List Invocation} (hargs : ∀ a ∈ call.args, N a)
    (hrest : ∀ v m, T.Clean v → T.inv m → m.context.boxes = table →
      T.Gives T.Clean m (chainFrom ev table v calls m) (chainFrom ev' table v calls m))
    {m : Machine} (hm : T.inv m) (htable : m.context.boxes = table) :
    T.Gives T.Clean m (linkFrom ev table name call calls m)
      (linkFrom ev' table name call calls m) := by
  have law := S.toLawful
  refine (yields_instantiate S G name m hm).bind law fun copy m₁ hcopy moves₁ => ?_
  have hcall := yields_callMethod S G (hcopy.2 _) hargs m₁ moves₁.inv
  refine hcall.bind law fun v m₂ hv moves₂ => hrest v m₂ hv moves₂.inv ?_
  rw [moves₂.restored.context, moves₁.restored.context]
  exact htable

/-- The further calls in a row, in the context in which the row began. -/
theorem gives_chainFrom (S : T.Steps N R) (G : T.Given N R ev ev') {table : Handle}
    {calls : List Invocation} (hargs : ∀ c ∈ calls, ∀ a ∈ c.args, N a) {previous : Value}
    (hprevious : T.Clean previous) {m : Machine} (hm : T.inv m)
    (htable : m.context.boxes = table) :
    T.Gives T.Clean m (chainFrom ev table previous calls m)
      (chainFrom ev' table previous calls m) := by
  have law := S.toLawful
  -- on the calls that are left, since each result is the receiver of the next call
  induction calls generalizing previous m with
  | nil =>
    cases previous <;> exact yields_value law hprevious m hm
  | cons call calls ih =>
    obtain ⟨hcall, hcalls⟩ := List.forall_mem_cons.1 hargs
    cases previous with
    | object h =>
      have hh := Value.within_object.1 hprevious
      rcases chainFrom_cases table h call calls m with ⟨e, hstep⟩ | hstep
      · rw [hstep ev, hstep ev', ← htable]
        exact ⟨⟨.inr rfl, S.linkRefused hm, ⟨rfl, rfl⟩⟩, nofun⟩
      · have hlink := gives_linkFrom S G (chainName m.chained) hcall
          (fun v _ hv hm₁ htable₁ => ih hcalls hv hm₁ htable₁) (S.linkIn hh hm) htable
        rw [hstep ev, hstep ev']
        refine hlink.closing fun m' moves => ?_
        rw [← htable]
        exact ⟨S.linkOut hh hm moves, moves.restored.context, moves.restored.depth⟩
    | int | str | array | void => exact yields_fail law _ m hm

/-- The first call of a row is on what the receiver stands for, and the table in use then is that of
the whole row. -/
theorem gives_callChain (S : T.Steps N R) (G : T.Given N R ev ev') {receiver : Receiver}
    {first : Invocation} {further : List Invocation} (hfirst : ∀ a ∈ first.args, N a)
    (hfurther : ∀ c ∈ further, ∀ a ∈ c.args, N a) {m : Machine} (hm : T.inv m)
    (hscope : T.scope (.method receiver first further) m) :
    T.Gives T.Clean m (callChain ev receiver first further m)
      (callChain ev' receiver first further m) := by
  have law := S.toLawful
  -- from the instance that the row starts from
  have hrow : ∀ h m₁, T.calls h first.signature → T.Moves m m₁ → T.Gives T.Clean m₁
      ((callMethod ev h first >>= fun v => chainFrom ev m.context.boxes v further) m₁)
      ((callMethod ev' h first >>= fun v => chainFrom ev' m.context.boxes v further) m₁) := by
    intro h m₁ hcalls moves₁
    have hcall := yields_callMethod S G hcalls hfirst m₁ moves₁.inv
    refine hcall.bind law fun v m₂ hv moves₂ => ?_
    refine gives_chainFrom S G hfurther hv moves₂.inv ?_
    rw [moves₂.restored.context, moves₁.restored.context]
  cases receiver with
  | named holder =>
    refine (gives_instanceIn law holder hm).bind law fun h m₁ hholds moves₁ => ?_
    exact hrow h m₁ (G.named hscope hm hholds) moves₁
  | created box =>
    refine (yields_instantiate S G box m hm).bind law fun h m₁ hmade moves₁ => ?_
    exact hrow h m₁ (hmade.2 _) moves₁

/-- Of the extensions of an instance only one changes anything: it writes a field. None gives
anything that refers to an instance. -/
theorem yields_ofInstance (S : T.Steps N R) {name : String} {h : Handle} {args : List Value}
    (hargs : ∀ v ∈ args, T.Clean v) (hwrites : name = "reflectionsetfield" → T.writes h) :
    T.Yields (fun answer => ∀ v, answer = some v → T.Clean v) (ofInstance name h args)
      (ofInstance name h args) := by
  have law := S.toLawful
  -- an answer about an instance tells numbers, so it refers to nothing
  have answered : ∀ {v : Value}, (∀ P, v.Within P) → T.Yields
      (fun answer => ∀ v, answer = some v → T.Clean v) (pure (some v)) (pure (some v)) := by
    intro v hv
    refine yields_value law ?_
    rintro _ ⟨⟩
    exact hv _
  have checked : ∀ {γ : Type} (x : Except RuntimeError γ), T.Yields (fun _ => True)
      (Exec.ofExcept x) (Exec.ofExcept x) := fun x => yields_ofExcept law fun _ _ => trivial
  unfold ofInstance
  split
  · refine (checked _).bind law fun box _ => yields_boxNamed_bind S box fun _ d _ _ _ => ?_
    exact yields_look_bind fun m _ => answered fun _ => Value.within_ofBool _
  · exact yields_fail law _
  · refine (checked _).bind law fun _ _ => (checked _).bind law fun field _ => ?_
    refine (checked _).bind law fun _ _ => yields_look_bind fun m _ => ?_
    exact answered fun _ => Value.within_ofBool _
  · exact yields_fail law _
  · refine (checked _).bind law fun _ _ => (checked _).bind law fun function _ => ?_
    refine (checked _).bind law fun arity _ => (checked _).bind law fun _ _ => ?_
    exact yields_look_bind fun m _ => answered fun _ => Value.within_ofBool _
  · exact yields_fail law _
  · next value =>
    refine (checked _).bind law fun field _ => yields_look_bind fun m _ => ?_
    split
    · exact yields_fail law _
    -- only this extension writes, and the scope says that it may
    · have hset := kept_update fun m hm =>
        ⟨S.setField field (hwrites rfl) (hargs value (by simp)) hm, ⟨rfl, rfl⟩⟩
      exact hset.yields.bind law fun _ _ => answered fun _ => Value.within_void
  · exact yields_fail law _
  · exact yields_value law nofun

/-- Built-in extensions answer with what their receiver and their arguments refer to. -/
theorem yields_callBuiltin (S : T.Steps N R) {name : String} {receiver : Value}
    {args : List Value} (hreceiver : T.Clean receiver) (hargs : ∀ v ∈ args, T.Clean v)
    (hwrites : ∀ h, receiver = .object h → name = "reflectionsetfield" → T.holds h → T.writes h) :
    T.Yields T.Clean (callBuiltin name receiver args) (callBuiltin name receiver args) := by
  have law := S.toLawful
  have hanswer : T.Yields (fun answer => ∀ v, answer = some v → T.Clean v)
      (builtinAnswer name args receiver) (builtinAnswer name args receiver) := by
    cases receiver with
    | array items =>
      refine yields_look_bind fun m _ => yields_ofExcept law ?_
      rintro _ h v rfl
      exact Builtin.within_ofArray h (Value.within_array.1 hreceiver) hargs
    | str s =>
      refine yields_ofExcept law ?_
      rintro _ h v rfl
      exact Builtin.within_ofString h
    | int n =>
      refine yields_ofExcept law ?_
      rintro _ h v rfl
      exact Builtin.within_ofInt h
    | object h =>
      exact yields_ofInstance S hargs fun hname =>
        hwrites h rfl hname (Value.within_object.1 hreceiver)
    | void => exact yields_value law nofun
  rw [callBuiltin_eq]
  refine hanswer.bind law fun answer hclean => ?_
  cases answer with
  | none => exact yields_fail law _
  | some v => exact yields_value law (hclean v rfl)

theorem gives_callExtension (S : T.Steps N R) (G : T.Given N R ev ev') {target : Node}
    {name : String} {args : List Node} (htarget : N target) (hargs : ∀ a ∈ args, N a)
    {m : Machine} (hm : T.inv m) (hscope : T.scope (.extension target name args) m) :
    T.Gives T.Clean m (callExtension ev target name args m)
      (callExtension ev' target name args m) := by
  have law := S.toLawful
  have hvalues : T.Yields (fun vs => ∀ v ∈ vs, T.Clean v) (evalArgs ev args) (evalArgs ev' args) :=
    yields_evalArgs law fun a ha => G.ask (hargs a ha)
  have hask := G.ask htarget m hm
  -- the receiver is what the target evaluates to, which is what the scope speaks of
  have hcalled : T.Gives (fun v => T.Clean v ∧ (ev' target m).result = .ok v) m (ev target m)
      (ev' target m) := ⟨hask.toMeets, fun hv => ⟨hask.value hv, hv⟩⟩
  refine hcalled.bind law fun receiver m₁ ⟨hreceiver, hevaluates⟩ moves => ?_
  refine (?_ : T.Yields T.Clean _ _) m₁ moves.inv
  cases receiver.isVoid with
  | true => exact yields_value law Value.within_void
  | false =>
    simp only [Bool.false_eq_true, if_false]
    split
    · exact yields_value law (Value.within_str _)
    · refine yields_look_bind fun m₂ hm₂ => ?_
      cases he : declaredFor? (Text.toLower name) receiver args.length m₂ with
      | none =>
        exact hvalues.bind law fun values hclean => yields_callBuiltin S hreceiver hclean
          fun h hh hname => G.reflected hscope hm hname (hh ▸ hevaluates)
      | some e =>
        have hknown := (Option.filter_eq_some_iff.1 he).1
        exact hvalues.bind law fun values hclean =>
          G.invoke (List.forall_mem_cons.2 ⟨hreceiver, hclean⟩)
            ((S.code hm₂).extensions _ _ e hknown)

/-- A declared extension is a function of a definition in the table, with a parameter for its
receiver. -/
theorem yields_declareExtension (S : T.Steps N R) (G : T.Given N R ev ev')
    {kind box function arity : Node} (hkind : N kind) (hbox : N box) (hfunction : N function)
    (harity : N arity) :
    T.Yields (fun _ => True) (declareExtension ev kind box function arity)
      (declareExtension ev' kind box function arity) := by
  have law := S.toLawful
  refine (G.ask hkind).bind law fun kind _ => (G.ask hbox).bind law fun box _ => ?_
  refine (G.ask hfunction).bind law fun function _ => (G.ask harity).bind law fun arity _ => ?_
  split
  · next kindName box function arity _ _ _ _ =>
    dsimp only
    by_cases hreceiver : arity < 1
    · rw [if_pos hreceiver]
      exact yields_fail law _
    · rw [if_neg hreceiver]
      cases Kind.ofName? kindName with
      | none => exact yields_fail law _
      | some kind =>
        refine yields_boxNamed_bind S box fun _ d _ _ hd => ?_
        refine (kept_ofExcept_bind law fun routine hr => ?_).yields
        obtain ⟨⟨f, hf, rfl⟩, hparams⟩ := extensionRoutine_mem hr
        have hdeclared : (Extension.mk kind f.routine).Declared R :=
          ⟨hd.methods f hf, params_ne_nil_of_arity hreceiver hparams⟩
        exact kept_update fun m hm => ⟨S.extend _ hdeclared hm, ⟨rfl, rfl⟩⟩
  · exact yields_fail law _

theorem yields_evalPath (law : T.Lawful) {path : Node} {A : Value → Prop}
    (h : T.Yields A (ev path) (ev' path)) :
    T.Yields (fun _ => True) (evalPath ev path) (evalPath ev' path) := by
  refine h.bind law fun v _ => ?_
  cases v with
  | str path => exact yields_value law trivial
  | int | array | object | void => exact yields_fail law _

/-- What follows a file's text may rely on the file being there. -/
theorem yields_readFileText_bind (law : T.Lawful) (path : String) {A : α → Prop}
    {f g : String → Exec α}
    (h : ∀ m text, T.inv m → m.files.readText path = .ok text → T.Yields A (f text) (g text)) :
    T.Yields A (readFileText path >>= f) (readFileText path >>= g) := by
  intro m hm
  rw [Exec.bind_apply, Exec.bind_apply]
  unfold readFileText
  cases htext : m.files.readText path with
  | error fault => exact ⟨⟨.inr rfl, Moves.refl law hm⟩, nofun⟩
  | ok text => exact h m text hm htext m hm

/-- Reading moves the console on, and what is read are numbers and texts. -/
theorem yields_readInput (S : T.Steps N R) : T.Yields T.Clean readInput readInput := by
  intro m hm
  have law := S.toLawful
  have hread : ∀ v, m.console.readValue.1 = .ok v → T.Clean v := by
    intro v hv
    unfold Console.readValue at hv
    dsimp only at hv
    split at hv
    · cases hv
    · injection hv with hv
      rw [← hv]
      exact Value.within_ofInputLine _
  have hconsole : T.Moves m { m with console := m.console.readValue.2 } :=
    ⟨S.console m.console.proceeds_readValue hm, ⟨rfl, rfl⟩⟩
  have hvalue := yields_ofExcept law hread _ hconsole.inv
  exact ⟨⟨.inr rfl, hconsole.trans law hvalue.moves⟩, hvalue.value⟩

/-- Simple nodes that are no acts can be evaluated anywhere. -/
theorem yields_evalNode_of_passive (S : T.Steps N R) (G : T.Given N R ev ev') {node : Node}
    (hparts : node.Parts N R) (hsimple : node.isControl = false) (hpassive : node.isAct = false)
    (fuel : Nat) : T.Yields T.Clean (evalNode ev fuel node) (evalNode ev' fuel node) := by
  have law := S.toLawful
  have done : T.Yields T.Clean (pure Value.void : Exec Value) (pure Value.void) :=
    yields_value law Value.within_void
  -- by the kind of node; the nodes that act on something, or direct the run, are not among them
  cases node with
  | int n => exact yields_value law (Value.within_int n)
  | str s => exact yields_value law (Value.within_str s)
  | var name =>
    intro m hm
    have hlook := gives_lookupVariable law name hm
    exact ⟨hlook.toMeets, fun hv => G.variable_ hm (hlook.value hv)⟩
  | binary op left right =>
    refine (G.ask hparts.1).bind law fun a ha => (G.ask hparts.2).bind law fun b hb => ?_
    exact yields_ofExcept law fun v hv => Operator.within_binary hv ha hb
  | negate operand =>
    refine (G.ask hparts).bind law fun a _ => ?_
    exact yields_ofExcept law fun v hv => Operator.within_negate hv
  | print value newline =>
    refine (G.ask hparts).bind law fun v _ => ?_
    have hprint : T.Kept (printValue v newline) (printValue v newline) :=
      kept_update fun m hm => ⟨S.console List.suffix_rfl hm, ⟨rfl, rfl⟩⟩
    exact hprint.yields.bind law fun _ _ => done
  | call name args => exact yields_callFunction S G name hparts
  | ifElse | whileDo | forDo | giveBack => cases hsimple
  | assign | setField | function | box | method | extension => cases hpassive
  | input => exact yields_readInput S
  | array items =>
    refine (yields_evalArgs law fun a ha => G.ask (hparts a ha)).bind law fun items hitems => ?_
    exact yields_value law (Value.within_array.2 hitems)
  | index target position =>
    refine (G.ask hparts.1).bind law fun a ha => (G.ask hparts.2).bind law fun b _ => ?_
    exact yields_ofExcept law fun v hv => Operator.within_index hv ha
  | create box =>
    refine (yields_instantiate S G box).bind law fun h hh => ?_
    exact yields_value law (Value.within_object.2 hh.1)
  | field holder field => exact yields_readField law G.toReadings holder field
  | raise message =>
    exact (G.ask hparts).bind law fun v _ => yields_look_bind fun m _ => yields_fail law _
  | importScript path =>
    refine (yields_evalPath law (G.ask hparts)).bind law fun path _ => ?_
    refine yields_readFileText_bind law path fun m source hm hsource => ?_
    exact (G.importing hm hsource).yields.bind law fun _ _ => done
  | readLines path =>
    refine (yields_evalPath law (G.ask hparts)).bind law fun path _ => ?_
    refine yields_readFileText_bind law path fun _ text _ _ => yields_value law ?_
    refine Value.within_array.2 fun v hv => ?_
    obtain ⟨line, -, rfl⟩ := List.mem_map.1 hv
    exact Value.within_str line
  | readText path =>
    refine (yields_evalPath law (G.ask hparts)).bind law fun path _ => ?_
    exact yields_readFileText_bind law path fun _ text _ _ => yields_value law (Value.within_str _)
  | fileExists path =>
    refine (yields_evalPath law (G.ask hparts)).bind law fun path _ => ?_
    exact yields_look_bind fun m _ => yields_value law (Value.within_ofBool _)
  | extend kind box function arity =>
    obtain ⟨hkind, hbox, hfunction, harity⟩ := hparts
    exact (yields_declareExtension S G hkind hbox hfunction harity).bind law fun _ _ => done

/-- **The rules for simple nodes keep a contract that allows the simple steps**, and give values
that code may get hold of. -/
theorem gives_evalNode (S : T.Steps N R) (G : T.Given N R ev ev') {node : Node}
    (hparts : node.Parts N R) (hsimple : node.isControl = false) (fuel : Nat) {m : Machine}
    (hm : T.inv m) (hscope : T.scope node m) :
    T.Gives T.Clean m (evalNode ev fuel node m) (evalNode ev' fuel node m) := by
  have law := S.toLawful
  -- what a statement does, and then no value
  have acts : ∀ {γ : Type} {x y : Exec γ}, T.Meets m (x m) (y m) → T.Gives T.Clean m
      ((x >>= fun _ => pure Value.void) m) ((y >>= fun _ => pure Value.void) m) :=
    fun h => h.gives.bind law fun _ m' _ moves =>
      yields_value law Value.within_void m' moves.inv
  cases hact : node.isAct with
  | false => exact yields_evalNode_of_passive S G hparts hsimple hact fuel m hm
  | true =>
    cases node with
    | assign name value =>
      refine (G.ask hparts m hm).bind law fun v m₁ hv moves₁ => ?_
      have hassigned : T.Meets m₁ (assignVariable name v m₁) (assignVariable name v m₁) :=
        ⟨.inr rfl, S.assign value hv hscope moves₁, ⟨rfl, rfl⟩⟩
      exact hassigned.gives.bind law fun _ m₂ _ moves₂ =>
        yields_value law Value.within_void m₂ moves₂.inv
    | setField holder field value => exact acts (meets_writeField S G hparts hm hscope)
    | function routine =>
      have hdeclared : T.Meets m
          (Exec.update (·.updateFunctions (·.insert routine.signature routine)) m)
          (Exec.update (·.updateFunctions (·.insert routine.signature routine)) m) :=
        ⟨.inr rfl, S.declare hscope hparts hm, ⟨rfl, rfl⟩⟩
      exact acts hdeclared
    | box declaration => exact acts (meets_registerBox S hm hparts hscope)
    | method receiver first further => exact gives_callChain S G hparts.1 hparts.2 hm hscope
    | extension target name args => exact gives_callExtension S G hparts.1 hparts.2 hm hscope
    | _ => cases hact

end Simple

/-! ## Steps that direct a run -/

/-- All steps but those into methods are allowed, for code in a fragment. -/
structure Ground (T : Tracked) (N S : Node → Prop) : Prop
    extends T.Steps N (Routine.BodyIn S), T.toContract.Scoped, Readings T where
  fragment : Fragment N S
  scripts : ∀ {m}, T.inv m → m.ScriptsIn S
  push : ∀ {m v}, T.Clean v → T.inv m → T.Allows m (m.updateReturns (· ++ [v]))
  dropSignal : ∀ {m}, T.inv m → T.Allows m m.dropSignal
  bindParams : ∀ {m args} (params : List String), (∀ v ∈ args, T.Clean v) → T.inv m →
    T.Allows m (m.updateScopes (bindParams m.context.level params args))

/-- All steps are allowed that a run in the scope of the contract takes. -/
structure Rules (T : Tracked) (N S : Node → Prop) : Prop
    extends T.Ground N S, T.toContract.Callable where
  enters : ∀ {h signature}, T.calls h signature → T.Enters h signature

section Directed

variable {ev ev' : Evaluator}

/-- The signal that a call takes off is one that the machine has pending. -/
theorem yields_takeSignal (F : T.Ground N S) (routine : Routine) (returned : Bool) :
    T.Yields T.Clean (takeSignal routine returned) (takeSignal routine returned) := by
  have law := F.toLawful
  cases returned with
  | false => exact yields_fail law _
  | true =>
    have hdrop : T.Kept (Exec.update Machine.dropSignal) (Exec.update Machine.dropSignal) :=
      kept_update fun m hm => ⟨F.dropSignal hm, ⟨rfl, rfl⟩⟩
    refine yields_look_bind fun m hm => hdrop.yields.bind law fun _ _ => ?_
    exact yields_value law (F.signal hm)

/-- Arguments are bound to parameters, and the body ends with a signal that is taken off. -/
theorem yields_runBody (F : T.Ground N S) {routine : Routine}
    (h : ∀ node ∈ routine.body, T.Kept (ev node) (ev' node)) {args : List Value}
    (hargs : ∀ v ∈ args, T.Clean v) :
    T.Yields T.Clean (runBody ev routine args) (runBody ev' routine args) := by
  have law := F.toLawful
  have hbound : T.Kept (Exec.update (·.bound routine args)) (Exec.update (·.bound routine args)) :=
    kept_update fun m hm => ⟨F.bindParams _ hargs hm, ⟨rfl, rfl⟩⟩
  unfold runBody
  by_cases hcount : args.length ≠ routine.params.length
  · simp only [if_pos hcount]
    exact yields_fail law _
  · simp only [if_neg hcount]
    exact hbound.yields.bind law fun _ _ =>
      (kept_runBlock law h).yields.bind law fun returned _ => yields_takeSignal F routine returned

/-- A program runs statement by statement, up to the first that leaves a signal. -/
theorem runProgram_cons (ev : Evaluator) (node : Node) (nodes : Program) :
    (runProgram ev (node :: nodes) : Exec Unit)
      = ev node >>= fun _ => Exec.look Machine.pending >>= fun stops =>
          if stops then Exec.update fun m => m.noteSignal.dropSignal
          else runProgram ev nodes := by
  funext m
  rw [Exec.bind_apply, runProgram]
  rcases ev node m with ⟨_ | _ | _, m'⟩
  · cases h : m'.pending <;> simp [Exec.bind_apply, Exec.look, Exec.update, h]
  · rfl
  · rfl

theorem kept_runProgram (St : T.Steps N R) (hdrop : ∀ {m}, T.inv m → T.Allows m m.dropSignal)
    {program : Program} (h : ∀ node ∈ program, T.Kept (ev node) (ev' node)) :
    T.Kept (α := Unit) (runProgram ev program) (runProgram ev' program) := by
  have law := St.toLawful
  have hnote : ∀ {m}, T.inv m → T.Moves m m.noteSignal := by
    intro m hm
    unfold Machine.noteSignal
    split
    · exact ⟨St.console List.suffix_rfl hm, ⟨rfl, rfl⟩⟩
    · exact Moves.refl law hm
  have hend : T.Kept (Exec.update fun m => m.noteSignal.dropSignal)
      (Exec.update fun m => m.noteSignal.dropSignal) :=
    kept_update fun m hm => (hnote hm).trans law ⟨hdrop (hnote hm).inv, ⟨rfl, rfl⟩⟩
  induction program with
  | nil => exact kept_pure law ()
  | cons node nodes ih =>
    rw [runProgram_cons, runProgram_cons]
    refine (h node List.mem_cons_self).bind law fun _ => kept_look_bind fun m _ => ?_
    cases m.pending with
    | true => exact hend
    | false => exact ih fun n hn => h n (List.mem_cons_of_mem _ hn)

/-- The body of a block is made of conditions, clauses and blocks of statements. -/
theorem kept_blockBody (F : T.Ground N S)
    (h : ∀ node, S node → T.Yields T.Clean (ev node) (ev' node)) {node : Node} (hnode : S node)
    (fuel : Nat) : T.Kept (blockBody ev fuel node) (blockBody ev' fuel node) := by
  have law := F.toLawful
  have hask : ∀ {n}, N n → T.Kept (ev n) (ev' n) :=
    fun hn => (h _ (F.fragment.expression hn)).kept
  have hparts := F.fragment.parts hnode
  have hbelow := F.fragment.below hnode
  have hblock : ∀ nodes, (∀ n ∈ nodes, S n) →
      T.Kept (α := Bool) (runBlock ev nodes) (runBlock ev' nodes) :=
    fun nodes hnodes => kept_runBlock law fun n hn => (h n (hnodes n hn)).kept
  have hclause : ∀ clause, S clause → T.Kept (Exec.asClause (ev clause >>= fun _ => pure ()))
      (Exec.asClause (ev' clause >>= fun _ => pure ())) :=
    fun clause hc => kept_asClause F.toScoped
      ((h clause hc).kept.bind law fun _ => kept_pure law ())
  cases node with
  | ifElse condition yes no =>
    refine (kept_holds law (hask hparts)).bind law fun holds => ?_
    cases holds with
    | true =>
      have hyes := hblock yes fun n hn => hbelow n (List.mem_append_left _ hn)
      exact hyes.bind law fun _ => kept_pure law ()
    | false =>
      cases no with
      | none => exact kept_pure law ()
      | some no =>
        have hno := hblock no fun n hn => hbelow n (List.mem_append_right _ hn)
        exact hno.bind law fun _ => kept_pure law ()
  | whileDo condition body =>
    exact kept_repeatWhile law (kept_holds law (hask hparts)) (hblock body hbelow)
      (kept_pure law ()) fuel
  | forDo init condition increment body =>
    have hinit := hclause init (hbelow init List.mem_cons_self)
    have hincrement := hclause increment (hbelow increment (by simp [Node.statements]))
    have hbody := hblock body fun n hn => hbelow n (by simp [Node.statements, hn])
    exact hinit.bind law fun _ =>
      kept_repeatWhile law (kept_holds law (hask hparts)) hbody hincrement fuel
  | _ => exact kept_pure law ()

/-- The statements that direct the run are a `return` and those with a block. -/
theorem yields_control (F : T.Ground N S)
    (h : ∀ node, S node → T.Yields T.Clean (ev node) (ev' node)) {node : Node} (hnode : S node)
    (hcontrol : node.isControl = true) (fuel : Nat) :
    T.Yields T.Clean (evalNode ev fuel node) (evalNode ev' fuel node) := by
  have law := F.toLawful
  -- what a statement does, and then no value
  have acts : ∀ {γ : Type} {x y : Exec γ}, T.Kept x y → T.Yields T.Clean
      (x >>= fun _ => pure Value.void) (y >>= fun _ => pure Value.void) :=
    fun hx => hx.yields.bind law fun _ _ => yields_value law Value.within_void
  cases hblock : node.isBlock with
  | true =>
    rw [evalNode_of_isBlock hblock, evalNode_of_isBlock hblock]
    exact acts (kept_inBlock F.toScoped (kept_blockBody F h hnode fuel))
  | false =>
    have hpush : ∀ {v}, T.Clean v → T.Kept (Exec.update (·.updateReturns (· ++ [v])))
        (Exec.update (·.updateReturns (· ++ [v]))) :=
      fun hv => kept_update fun m hm => ⟨F.push hv hm, ⟨rfl, rfl⟩⟩
    have hparts := F.fragment.parts hnode
    cases node with
    | giveBack value =>
      cases value with
      | none => exact acts (hpush Value.within_void)
      | some value =>
        exact (h _ (F.fragment.expression hparts)).bind law fun v hv => acts (hpush hv)
    | ifElse | whileDo | forDo => cases hblock
    | _ => cases hcontrol

/-- What the rules for simple nodes take for granted holds of evaluators that keep the contract. -/
theorem Rules.given (F : T.Rules N S) (W : T.Writable ev')
    (h : ∀ node, S node → T.Yields T.Clean (ev node) (ev' node)) :
    T.Given N (Routine.BodyIn S) ev ev' where
  toCallable := F.toCallable
  toReadings := F.toReadings
  toWritable := W
  ask hn := h _ (F.fragment.expression hn)
  invoke hargs hr := F.toScoped.yields_asFunction
    (yields_runBody F.toGround (fun n hn => (h n (hr n hn)).kept) hargs)
  method hcalls hargs hr := (F.enters hcalls).yields_asMethod F.toScoped
    (yields_runBody F.toGround (fun n hn => (h n (hr n hn)).kept) hargs)
  importing hm hsource := kept_importSource F.toForks _ fun _ hparse =>
    kept_runProgram F.toSteps F.dropSignal fun n hn =>
      (h n (F.scripts hm hsource hparse n hn)).kept

/-- **The rule for every node in scope keeps a contract that allows all steps**, and gives a value
that code may get hold of. -/
theorem Rules.gives_evalNode (F : T.Rules N S) (W : T.Writable ev')
    (h : ∀ node, S node → T.Yields T.Clean (ev node) (ev' node)) {node : Node} (hnode : S node)
    (fuel : Nat) {m : Machine} (hm : T.inv m) (hscope : T.scope node m) :
    T.Gives T.Clean m (evalNode ev fuel node m) (evalNode ev' fuel node m) := by
  cases hcontrol : node.isControl with
  | true => exact yields_control F.toGround h hnode hcontrol fuel m hm
  | false =>
    exact Tracked.gives_evalNode F.toSteps (F.given W h) (F.fragment.parts hnode) hcontrol fuel hm
      hscope

end Directed
end Tracked
end BoxScript
