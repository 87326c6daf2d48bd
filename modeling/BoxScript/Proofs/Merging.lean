import BoxScript.Proofs.Histories
import BoxScript.Proofs.Tables

/-!
# Forks and merges

A fork works on copies of all tables, and merging adds to the tables of one context what those of
another have on top. Merging changes cells in place, and a cell that both contexts share is left
alone. The theorem says what comes of that. A fork that did nothing has nothing to add. Contexts
that share no table are merged table by table: variables, functions, definitions and extensions as
unions in which the first context counts, signals by writing the new ones behind the old ones. A
context that shares all tables hands over its level and clause and nothing else. And of three
contexts the last two may as well be merged first.
-/

namespace BoxScript

/-! ## Nothing to add -/

/-- A change that changes nothing leaves the pool as it was. -/
theorem Pool.modify_of_fixed {α : Type} [Inhabited α] {p : Pool α} {h : Handle} {f : α → α}
    (hf : f (p.get h) = p.get h) : p.modify h f = p := by
  obtain ⟨cells⟩ := p
  unfold modify
  congr 1
  refine Array.ext_getElem? fun i => ?_
  rw [Array.getElem?_modify]
  by_cases hi : h.index = i
  · subst hi
    rw [if_pos rfl]
    cases hcell : cells[h.index]? with
    | none => rfl
    | some a =>
      have hget : (Pool.mk cells).get h = a := by simp [get, hcell]
      rw [hget] at hf
      exact congrArg some hf
  · rw [if_neg hi]

namespace Dict

variable {κ α : Type} [DecidableEq κ]

theorem contains_of_mem {d : Dict κ α} {e : κ × α} (he : e ∈ d.entries) :
    d.contains e.1 = true := by
  obtain ⟨entries⟩ := d
  show (find? e.1 entries).isSome = true
  induction entries with
  | nil => cases he
  | cons first rest ih =>
    unfold find?
    by_cases hk : e.1 = first.1
    · rw [if_pos hk]
      rfl
    · rw [if_neg hk]
      rcases List.mem_cons.1 he with rfl | he
      · exact absurd rfl hk
      · exact ih he

/-- A dictionary has nothing to add to itself. -/
theorem union_self (d : Dict κ α) : d.union d = d :=
  foldl_of_fixed fun _ he => if_pos (contains_of_mem he)

end Dict

/-! ## Cells -/

section Cells

variable {α : Type} [Inhabited α] {combine : α → α → α} {into source h : Handle} {p : Pool α}

/-- A cell that is one of both is left alone. -/
theorem mergeCell_shared (combine : α → α → α) (into : Handle) (p : Pool α) :
    Context.mergeCell combine into into p = p := if_pos rfl

/-- A cell that the other one adds nothing to is left alone. -/
theorem mergeCell_of_fixed (h : combine (p.get into) (p.get source) = p.get into) :
    Context.mergeCell combine into source p = p := by
  unfold Context.mergeCell
  split
  · rfl
  · exact Pool.modify_of_fixed h

theorem get_mergeCell_into (hrange : into.index < p.size) (hne : into ≠ source) :
    (Context.mergeCell combine into source p).get into = combine (p.get into) (p.get source) := by
  unfold Context.mergeCell
  rw [if_neg hne, Pool.get_modify_self hrange]

theorem get_mergeCell_of_ne (hne : into ≠ h) :
    (Context.mergeCell combine into source p).get h = p.get h := by
  unfold Context.mergeCell
  split
  · rfl
  · exact Pool.get_modify_of_ne hne _

end Cells

/-! ## Tables of contexts -/

/-- What stands in the tables of a context. -/
structure Tables where
  scopes : Scopes
  functions : Functions
  boxes : Boxes
  returns : Returns
  extensions : Extensions

namespace Tables

/-- The tables with what others have on top, less the signals that are not new. -/
def merge (t u : Tables) (inherited : Nat) : Tables where
  scopes := t.scopes.absorb u.scopes
  functions := t.functions.union u.functions
  boxes := t.boxes.union u.boxes
  returns := t.returns ++ u.returns.drop inherited
  extensions := t.extensions.union u.extensions

/-- Variables, functions, definitions and extensions are the same. -/
structure Alike (t u : Tables) : Prop where
  scopes : t.scopes.toMap = u.scopes.toMap
  functions : ∀ s, t.functions.get? s = u.functions.get? s
  boxes : ∀ name, t.boxes.get? name = u.boxes.get? name
  extensions : ∀ name, t.extensions.get? name = u.extensions.get? name

variable {t u v : Tables}

/-- Of three tables the last two may as well be merged first. -/
theorem merge_assoc (i j k l : Nat) :
    ((t.merge u i).merge v j).Alike (t.merge (u.merge v k) l) := by
  constructor
  case scopes =>
    show ((t.scopes.absorb u.scopes).absorb v.scopes).toMap
      = (t.scopes.absorb (u.scopes.absorb v.scopes)).toMap
    simp only [Scopes.toMap_absorb, ScopeMap.union_assoc]
  all_goals
    intro key
    simp only [merge, Dict.get?_union, Option.or_assoc]

/-- Tables have nothing to add to themselves. -/
theorem merge_self (t : Tables) : t.merge t t.returns.length = t := by
  unfold merge
  rw [Scopes.absorb_self, Dict.union_self, Dict.union_self, Dict.union_self, List.drop_length,
    List.append_nil]

end Tables

namespace Context

/-- The tables of a context, as they stand on the heap. -/
def tables (c : Context) (heap : Heap) : Tables where
  scopes := heap.scopes.get c.scopes
  functions := heap.functions.get c.functions
  boxes := heap.boxes.get c.boxes
  returns := heap.returns.get c.returns
  extensions := heap.extensions.get c.extensions

/-- The tables of the context are on the heap. -/
structure Present (c : Context) (heap : Heap) : Prop where
  scopes : c.scopes.index < heap.scopes.size
  functions : c.functions.index < heap.functions.size
  boxes : c.boxes.index < heap.boxes.size
  returns : c.returns.index < heap.returns.size
  extensions : c.extensions.index < heap.extensions.size

/-- The contexts share no table. -/
structure Apart (c d : Context) : Prop where
  scopes : c.scopes ≠ d.scopes
  functions : c.functions ≠ d.functions
  boxes : c.boxes ≠ d.boxes
  returns : c.returns ≠ d.returns
  extensions : c.extensions ≠ d.extensions

variable {c d e : Context} {heap : Heap}

/-! ## Forks -/

/-- A fork takes new cells, and changes none that are there. -/
theorem Present.tables_fork (hd : d.Present heap) (c : Context) :
    d.tables (c.fork heap).2 = d.tables heap := by
  unfold tables
  congr 1
  · exact Pool.get_push_of_lt hd.scopes _
  · exact Pool.get_push_of_lt hd.functions _
  · exact Pool.get_push_of_lt hd.boxes _
  · exact Pool.get_push_of_lt hd.returns _
  · exact Pool.get_push_of_lt hd.extensions _

/-- The tables of a fork are copies. -/
theorem tables_of_fork (c : Context) (heap : Heap) :
    (c.fork heap).1.tables (c.fork heap).2 = c.tables heap := by
  unfold tables
  congr 1 <;> exact Pool.get_push_next _ _

/-! ## Merges -/

/-- Merging into a context leaves the tables of all others alone. -/
theorem Apart.tables_merge (h : c.Apart e) (d : Context) (inherited : Nat) (heap : Heap) :
    e.tables (c.merge d inherited heap).2 = e.tables heap := by
  unfold tables
  congr 1
  · exact get_mergeCell_of_ne h.scopes
  · exact get_mergeCell_of_ne h.functions
  · exact get_mergeCell_of_ne h.boxes
  · exact get_mergeCell_of_ne h.returns
  · exact get_mergeCell_of_ne h.extensions

/-- Contexts that share no table are merged table by table. -/
theorem Present.tables_merge (hc : c.Present heap) (h : c.Apart d) (inherited : Nat) :
    c.tables (c.merge d inherited heap).2 = (c.tables heap).merge (d.tables heap) inherited := by
  unfold tables Tables.merge
  congr 1
  · exact get_mergeCell_into hc.scopes h.scopes
  · exact get_mergeCell_into hc.functions h.functions
  · exact get_mergeCell_into hc.boxes h.boxes
  · exact get_mergeCell_into hc.returns h.returns
  · exact get_mergeCell_into hc.extensions h.extensions

/-- No table is lost by merging. -/
theorem Present.merge (he : e.Present heap) (c d : Context) (inherited : Nat) :
    e.Present (c.merge d inherited heap).2 := by
  constructor <;> refine Nat.lt_of_lt_of_eq ?_ (Machine.Formed.size_mergeCell _ _ _ _).symm
  exacts [he.scopes, he.functions, he.boxes, he.returns, he.extensions]

/-- If the second context has nothing to add, the heap is left as it was. -/
theorem merge_of_fixed {inherited : Nat}
    (h : (c.tables heap).merge (d.tables heap) inherited = c.tables heap) :
    c.merge d inherited heap = ({ c with level := d.level, inClause := d.inClause }, heap) := by
  unfold Context.merge
  rw [mergeCell_of_fixed (congrArg Tables.scopes h),
    mergeCell_of_fixed (congrArg Tables.functions h), mergeCell_of_fixed (congrArg Tables.boxes h),
    mergeCell_of_fixed (congrArg Tables.returns h),
    mergeCell_of_fixed (congrArg Tables.extensions h)]

theorem Apart.symm (h : c.Apart d) : d.Apart c :=
  ⟨h.scopes.symm, h.functions.symm, h.boxes.symm, h.returns.symm, h.extensions.symm⟩

end Context

/-! ## The laws -/

/-- What comes of merging `t`, which had so many signals from the beginning, into `s`. -/
structure Merged (s t : Context) (inherited : Nat) (heap : Heap) (merged : Context × Heap) :
    Prop where
  /-- The level and the clause are those of `t`, and the tables those of `s`. -/
  context : merged.1 = { s with level := t.level, inClause := t.inClause }
  scopes : ∀ l x, (merged.1.tables merged.2).scopes.get? l x
    = ((s.tables heap).scopes.get? l x).or ((t.tables heap).scopes.get? l x)
  functions : ∀ signature, (merged.1.tables merged.2).functions.get? signature
    = ((s.tables heap).functions.get? signature).or ((t.tables heap).functions.get? signature)
  boxes : ∀ name, (merged.1.tables merged.2).boxes.get? name
    = ((s.tables heap).boxes.get? name).or ((t.tables heap).boxes.get? name)
  extensions : ∀ name, (merged.1.tables merged.2).extensions.get? name
    = ((s.tables heap).extensions.get? name).or ((t.tables heap).extensions.get? name)
  returns : (merged.1.tables merged.2).returns = (s.tables heap).returns
    ++ (t.tables heap).returns.drop (min inherited (t.tables heap).returns.length)
  source : t.tables merged.2 = t.tables heap
  /-- Nor do other contexts change, if they share no table with `s`. -/
  others : ∀ {c : Context}, s.Apart c → c.tables merged.2 = c.tables heap

/-- What can be relied on of forks and merges of contexts on a heap. -/
structure MergeLaws (heap : Heap) : Prop where
  /-- A fork takes new cells and changes none, and merging it back with all signals that were
  pending changes nothing at all. -/
  fork : ∀ {s : Context}, s.Present heap →
    s.merge (s.fork heap).1 (s.tables heap).returns.length (s.fork heap).2 = (s, (s.fork heap).2) ∧
      ∀ {c : Context}, c.Present heap → c.tables (s.fork heap).2 = c.tables heap
  /-- Contexts that share no table are merged table by table. -/
  unshared : ∀ {s t : Context} (inherited : Nat), s.Present heap → s.Apart t →
    Merged s t inherited heap (s.merge t inherited heap)
  /-- A snapshot, which shares all tables, hands over its level and its clause and nothing else. -/
  snapshot : ∀ (s : Context) (level : Nat) (inClause : Bool) (inherited : Nat),
    s.merge { s with level, inClause } inherited heap = ({ s with level, inClause }, heap)
  /-- Of three contexts that share no tables, the last two may as well be merged first. -/
  associative : ∀ {s t u : Context} (i j k l : Nat), s.Present heap → t.Present heap → s.Apart t →
    s.Apart u → t.Apart u →
    let first := s.merge t i heap
    let left := first.1.merge u j first.2
    let last := t.merge u k heap
    let right := s.merge last.1 l last.2
    left.1 = right.1 ∧ (left.1.tables left.2).Alike (right.1.tables right.2)

/-- **Forks merge back without a trace, and merging is a union that favours the first context.** -/
theorem merge_laws (heap : Heap) : MergeLaws heap := by
  constructor
  case fork =>
    intro s hs
    refine ⟨Context.merge_of_fixed ?_, fun hc => hc.tables_fork s⟩
    rw [hs.tables_fork, s.tables_of_fork]
    exact Tables.merge_self _
  case unshared =>
    intro s t inherited hs hst
    -- all tables at once; the laws of single tables are read off this
    have hmerged := hs.tables_merge hst inherited
    constructor
    case context => rfl
    case source => exact hst.tables_merge t inherited heap
    case others => exact fun hc => hc.tables_merge t inherited heap
    case returns =>
      -- dropping more signals than there are is dropping all of them
      refine (congrArg Tables.returns hmerged).trans ?_
      show _ ++ List.drop inherited _ = _ ++ List.drop _ _
      rw [List.drop_eq_drop_min]
    case scopes =>
      intro l x
      refine (congrArg (·.scopes.get? l x) hmerged).trans ?_
      exact Scopes.get?_absorb _ _ l x
    case functions =>
      intro signature
      refine (congrArg (·.functions.get? signature) hmerged).trans ?_
      exact Dict.get?_union _ _ signature
    case boxes =>
      intro name
      refine (congrArg (·.boxes.get? name) hmerged).trans ?_
      exact Dict.get?_union _ _ name
    case extensions =>
      intro name
      refine (congrArg (·.extensions.get? name) hmerged).trans ?_
      exact Dict.get?_union _ _ name
  case snapshot =>
    intro s level inClause inherited
    unfold Context.merge
    simp only [mergeCell_shared]
  case associative =>
    intro s t u i j k l hs ht hst hsu htu
    refine ⟨rfl, ?_⟩
    -- both ways, the tables of the first context are merges of tables; these are associative
    have hleft : s.tables (s.merge u j (s.merge t i heap).2).2
        = ((s.tables heap).merge (t.tables heap) i).merge (u.tables heap) j := by
      rw [(hs.merge s t i).tables_merge hsu, hs.tables_merge hst, hsu.tables_merge]
    have hright : s.tables (s.merge t l (t.merge u k heap).2).2
        = (s.tables heap).merge ((t.tables heap).merge (u.tables heap) k) l := by
      rw [(hs.merge t u k).tables_merge hst, hst.symm.tables_merge, ht.tables_merge htu]
    show (s.tables (s.merge u j (s.merge t i heap).2).2).Alike
      (s.tables (s.merge t l (t.merge u k heap).2).2)
    rw [hleft, hright]
    exact Tables.merge_assoc i j k l

/-- The context whose tables all have one number. -/
def Context.numbered (n level : Nat) : Context := ⟨⟨n⟩, ⟨n⟩, ⟨n⟩, ⟨n⟩, ⟨n⟩, level, false⟩

/-- Three sets of tables. The second one has a variable, a function and a signal more than the first
one, and other values under the names of the first one; the third one has an inner scope, a
definition and an extension. -/
def threeSets : Heap where
  scopes := ⟨#[Scopes.empty.bind 0 "x" (.int 1),
    (Scopes.empty.bind 0 "x" (.int 2)).bind 0 "y" (.int 3), Scopes.empty.bind 1 "z" (.int 4)]⟩
  functions := ⟨#[Dict.empty.insert ⟨"f", 0⟩ ⟨"f", [], []⟩,
    (Dict.empty.insert ⟨"f", 0⟩ ⟨"f", [], [.giveBack none]⟩).insert ⟨"g", 0⟩ ⟨"g", [], []⟩, .empty]⟩
  boxes := ⟨#[.empty, .empty, Dict.empty.insert "A" ⟨"A", none, false, false, [], []⟩]⟩
  returns := ⟨#[[.int 10], [.int 10, .int 11], []]⟩
  extensions := ⟨#[.empty, .empty, Dict.empty.insert "twice" ⟨.int, ⟨"twice", ["n"], []⟩⟩]⟩
  instances := .empty

/-- All that the laws ask for is met on these tables, by three contexts that share nothing. -/
theorem merge_laws_threeSets :
    let s := Context.numbered 0 0
    let t := Context.numbered 1 2
    let u := Context.numbered 2 1
    (s.Present threeSets ∧ t.Present threeSets ∧ s.Apart t ∧ s.Apart u ∧ t.Apart u) ∧
      (s.merge (s.fork threeSets).1 1 (s.fork threeSets).2 = (s, (s.fork threeSets).2) ∧
        t.tables (s.fork threeSets).2 = t.tables threeSets) ∧
      (let merged := s.merge t 1 threeSets
        let tables := merged.1.tables merged.2
        merged.1 = Context.numbered 0 2 ∧ tables.scopes.get? 0 "x" = some (.int 1) ∧
          tables.scopes.get? 0 "y" = some (.int 3) ∧
          tables.functions.get? ⟨"f", 0⟩ = some ⟨"f", [], []⟩ ∧
          tables.functions.get? ⟨"g", 0⟩ = some ⟨"g", [], []⟩ ∧
          tables.returns = [.int 10, .int 11] ∧ t.tables merged.2 = t.tables threeSets ∧
          u.tables merged.2 = u.tables threeSets) ∧
      s.merge (Context.numbered 0 5) 0 threeSets = (Context.numbered 0 5, threeSets) ∧
      (let first := s.merge t 1 threeSets
        let left := first.1.merge u 0 first.2
        let last := t.merge u 0 threeSets
        let right := s.merge last.1 1 last.2
        left.1 = right.1 ∧ (left.1.tables left.2).Alike (right.1.tables right.2)) := by
  intro s t u
  -- the tables are different ones, and all of them are on the heap
  have hs : s.Present threeSets := by constructor <;> decide
  have ht : t.Present threeSets := by constructor <;> decide
  have hst : s.Apart t := by constructor <;> decide
  have hsu : s.Apart u := by constructor <;> decide
  have htu : t.Apart u := by constructor <;> decide
  obtain ⟨hfork, hunshared, hsnapshot, hassoc⟩ := merge_laws threeSets
  have hmerged := hunshared 1 hs hst
  refine ⟨⟨hs, ht, hst, hsu, htu⟩, ⟨(hfork hs).1, (hfork hs).2 ht⟩, ?_, hsnapshot s 5 false 0,
    hassoc 1 0 0 1 hs ht hst hsu htu⟩
  exact ⟨hmerged.context, hmerged.scopes 0 "x", hmerged.scopes 0 "y", hmerged.functions ⟨"f", 0⟩,
    hmerged.functions ⟨"g", 0⟩, hmerged.returns, hmerged.source, hmerged.others hsu⟩

end BoxScript
