import BoxScript.Proofs.Joining
import BoxScript.Proofs.Numerals

/-!
# Values that are read back

A value is written the way the program would write it. That is true to the letter where the text
has no need of escapes and the value holds no instance: a program that assigns the text of such a
value to a variable binds the variable to the value. The text is followed through all stages: it is
scanned into the tokens of an expression, these are read as the expression, and the expression
evaluates to the value.
-/

namespace BoxScript

/-- The values whose text is read back: integers but the least one, strings without quotes and
backslashes, and arrays of such values. -/
inductive Value.Canonical : Value → Prop
  | int {n : Int64} (h : n ≠ Int64.minValue) : Canonical (.int n)
  | str {s : String} (hquote : '"' ∉ s.toList) (hslash : '\\' ∉ s.toList) : Canonical (.str s)
  | array {items : List Value} (h : ∀ v ∈ items, Canonical v) : Canonical (.array items)

/-! ## Texts of tokens in a row -/

theorem Lexes.token {t : Token} {w rest : List Char} {ws : List Token}
    (hw : (Lexeme.token t).Front w rest) (h : Lexes rest ws) : Lexes (w ++ rest) (t :: ws) := by
  intro found offset
  obtain ⟨ts, hts, hwords⟩ := h ((t, ⟨offset, offset + byteLength w⟩) :: found)
    (offset + byteLength w)
  refine ⟨ts, (scanFrom_token_front hw).trans hts, ?_⟩
  rw [hwords, Tokens.words_cons, List.reverse_cons, List.append_assoc]
  rfl

theorem Lexes.blank {c : Char} {rest : List Char} {ws : List Token} (hc : Text.isGap c = true)
    (h : Lexes rest ws) : Lexes (c :: rest) ws := by
  intro found offset
  obtain ⟨ts, hts, hwords⟩ := h found (offset + byteLength [c])
  exact ⟨ts, (scanFrom_gap_front (.blank hc)).trans hts, hwords⟩

/-- A sign that never grows. -/
theorem Lexes.sign {s : Sign} {c : Char} {rest : List Char} {ws : List Token}
    (hs : s.spelling.toList = [c]) (hends : ∀ d, s.growsBy d = false) (h : Lexes rest ws) :
    Lexes (c :: rest) (.sign s :: ws) :=
  Lexes.token (w := [c]) (.token (hs ▸ .sign s) fun d _ => hends d) h

/-- What stands behind a numeral does not go on with it. -/
def NoDigit (rest : List Char) : Prop := ∀ d ∈ rest.head?, Text.isDigit d = false

/-- Digits are read as one number, if it fits and no more digits follow. -/
theorem Lexes.numeral {k : Nat} {n : Int64} {rest : List Char} {ws : List Token}
    (hk : fit k = some n) (hrest : NoDigit rest) (h : Lexes rest ws) :
    Lexes (Nat.toDigits 10 k ++ rest) (.int n :: ws) := by
  refine Lexes.token (.token ?_ hrest) h
  obtain ⟨d, ds, hdigits⟩ := List.exists_cons_of_ne_nil (Nat.toDigits_ne_nil (n := k) (b := 10))
  have hall : ∀ e ∈ d :: ds, Text.isDigit e = true := by
    intro e he
    rw [← hdigits] at he
    exact isDigit_of_mem_toDigits he
  obtain ⟨hd, hds⟩ := List.forall_mem_cons.1 hall
  rw [hdigits]
  refine .int hd hds ?_
  rw [← hdigits, digitsValue_toDigits, hk]

/-! ## The expression of a value -/

/-- The expression is written as the text and gives the value, whatever stands behind it and
whatever the machine. -/
structure Writes (text : List Char) (node : Node) (v : Value) : Prop where
  lexes : ∀ {rest ws}, NoDigit rest → Lexes rest ws → Lexes (text ++ rest) (node.words ++ ws)
  expressible : Expressible node
  gives : ∃ enough, ∀ fuel, enough ≤ fuel → ∀ m, eval fuel node m = ⟨.ok v, m⟩

/-- An integer is written as it is read. The least one is left out, since its digits alone do not
fit. -/
theorem writes_int {n : Int64} (h : n ≠ Int64.minValue) :
    Writes (Text.showInt n).toList (.int n) (.int n) where
  lexes {rest ws} hrest hws := by
    rw [Node.words]
    -- a sign stands apart from the digits, both in the text and among the tokens
    by_cases hneg : n < 0
    · have hlt : n.toInt < 0 := Int64.lt_iff_toInt_lt.1 hneg
      have hfit : fit ((-n.toInt).toNat : Int) = some (-n) := by
        rw [Int.toNat_of_nonneg (by omega)]
        exact fit_neg_toInt h
      rw [if_pos hneg, showInt_of_neg hlt]
      exact (Lexes.numeral hfit hrest hws).sign (s := .minus) (c := '-') rfl fun _ => rfl
    · have hle : 0 ≤ n.toInt := by
        rw [Int64.lt_iff_toInt_lt] at hneg
        exact Int.not_lt.1 hneg
      have hfit : fit (n.toInt.toNat : Int) = some n := by
        rw [Int.toNat_of_nonneg hle]
        exact fit_toInt n
      rw [if_neg hneg, showInt_of_nonneg hle]
      exact Lexes.numeral hfit hrest hws
  expressible := expressible_int n
  gives := by
    refine ⟨1, fun fuel hfuel m => ?_⟩
    obtain ⟨fuel, rfl⟩ := Nat.exists_eq_add_of_le' hfuel
    rfl

/-- Without a backslash nothing is escaped. -/
theorem unescape_plain {cs : List Char} (h : '\\' ∉ cs) : Text.unescape cs = cs := by
  have hfrom : ∀ written, Text.unescapeFrom written cs = written.reverse ++ cs := by
    induction cs with
    | nil => simp [Text.unescapeFrom]
    | cons c cs ih =>
      intro written
      rw [List.mem_cons, not_or] at h
      have hc : c ≠ '\\' := fun e => h.1 e.symm
      rw [Text.unescapeFrom]
      · rw [ih h.2]
        simp
      all_goals intros; contradiction
  exact hfrom []

theorem inside_plain {cs : List Char} (hquote : '"' ∉ cs) (hslash : '\\' ∉ cs) :
    Text.Inside cs := by
  induction cs with
  | nil => exact .nil
  | cons c cs ih =>
    rw [List.mem_cons, not_or] at hquote hslash
    exact .plain (Ne.symm hquote.1) (Ne.symm hslash.1) (ih hquote.2 hslash.2)

/-- A string without quotes and backslashes is written as it stands. -/
theorem writes_str {s : String} (hquote : '"' ∉ s.toList) (hslash : '\\' ∉ s.toList) :
    Writes ("\"" ++ s ++ "\"").toList (.str s) (.str s) where
  lexes {rest ws} _ hws := by
    have hspells := Token.Spells.str (inside_plain hquote hslash)
    rw [unescape_plain hslash, String.ofList_toList] at hspells
    have hlexes := Lexes.token (.token hspells fun _ _ => rfl) hws
    simpa [Node.words] using hlexes
  expressible := expressible_of_primary rfl fun _ => .str s
  gives := by
    refine ⟨1, fun fuel hfuel m => ?_⟩
    obtain ⟨fuel, rfl⟩ := Nat.exists_eq_add_of_le' hfuel
    rfl

/-- Items with commas between them, up to the closing bracket. -/
theorem lexes_items {text : Value → String} {expression : Value → Node} {items : List Value}
    (h : ∀ v ∈ items, Writes (text v).toList (expression v) v) {rest : List Char}
    {ws : List Token} (hws : Lexes rest ws) :
    Lexes ((", ".intercalate (items.map text)).toList ++ ']' :: rest)
      (itemWords .rBracket (items.map expression) ++ ws) := by
  have hclose : Lexes (']' :: rest) (.sign .rBracket :: ws) := hws.sign rfl fun _ => rfl
  induction items with
  | nil => exact hclose
  | cons v items ih =>
    obtain ⟨hv, hitems⟩ := List.forall_mem_cons.1 h
    cases items with
    | nil =>
      have hlexes := hv.lexes (by rintro d ⟨⟩; rfl) hclose
      simpa [itemWords] using hlexes
    | cons v' items =>
      have hblank : Text.isGap ' ' = true := rfl
      have hcomma := ((ih hitems).blank hblank).sign (s := .comma) (c := ',') rfl fun _ => rfl
      have hlexes := hv.lexes (by rintro d ⟨⟩; rfl) hcomma
      rw [List.map_cons, List.map_cons, String.intercalate_cons_cons, List.map_cons, itemWords]
      simpa using hlexes

theorem gives_items {expression : Value → Node} {items : List Value}
    (h : ∀ v ∈ items, ∃ enough, ∀ fuel, enough ≤ fuel → ∀ m,
      eval fuel (expression v) m = ⟨.ok v, m⟩) :
    ∃ enough, ∀ fuel, enough ≤ fuel → ∀ done m,
      evalArgsFrom (eval fuel) done (items.map expression) m
        = ⟨.ok (done.reverse ++ items), m⟩ := by
  induction items with
  | nil => exact ⟨0, fun fuel _ done m => by rw [List.append_nil]; rfl⟩
  | cons v items ih =>
    obtain ⟨⟨enough, hv⟩, hitems⟩ := List.forall_mem_cons.1 h
    obtain ⟨enough', hothers⟩ := ih hitems
    refine ⟨max enough enough', fun fuel hfuel done m => ?_⟩
    simp only [List.map_cons, evalArgsFrom, hv fuel (by omega)]
    rw [hothers fuel (by omega), List.reverse_cons, List.append_assoc]
    rfl

theorem writes_array {text : Value → String} {expression : Value → Node} {items : List Value}
    (h : ∀ v ∈ items, Writes (text v).toList (expression v) v) :
    Writes ("[" ++ ", ".intercalate (items.map text) ++ "]").toList
      (.array (items.map expression)) (.array items) where
  lexes {rest ws} _ hws := by
    have hlexes := (lexes_items h hws).sign (s := .lBracket) (c := '[') rfl fun _ => rfl
    rw [Node.words]
    simpa using hlexes
  expressible := by
    refine expressible_of_primary rfl fun {next} _ => .array (reads_items rfl ?_ next)
    intro node hnode
    obtain ⟨v, hv, rfl⟩ := List.mem_map.1 hnode
    exact (h v hv).expressible
  gives := by
    obtain ⟨enough, hitems⟩ := gives_items fun v hv => (h v hv).gives
    refine ⟨enough + 1, fun fuel hfuel m => ?_⟩
    obtain ⟨fuel, rfl⟩ := Nat.exists_eq_add_of_le' (Nat.le_of_add_left_le hfuel)
    have hargs := hitems fuel (by omega) [] m
    show Exec.bind (evalArgs (eval fuel) (items.map expression))
      (fun items => Exec.pure (Value.array items)) m = _
    simp only [Exec.bind, evalArgs, hargs]
    rfl

/-- The text of a canonical value is that of an expression for it. -/
theorem writes_printable {v : Value} (h : v.Canonical) (instances : Pool Instance) :
    ∃ node, Writes (v.printableIn instances []).toList node v := by
  induction h with
  | int h =>
    rw [Value.printableIn]
    exact ⟨_, writes_int h⟩
  | str hquote hslash =>
    rw [Value.printableIn]
    exact ⟨_, writes_str hquote hslash⟩
  | array _ ih =>
    choose! expression hwrites using ih
    rw [Value.printableIn, printableItems_eq]
    exact ⟨_, writes_array hwrites⟩

/-! ## The assignment -/

/-- An expression that is written is assigned to a name by the text that says so. -/
theorem ofSource_assignment {text : String} {node : Node} {v : Value}
    (h : Writes text.toList node v) :
    Program.ofSource ("x = " ++ text) = .ok [.assign "x" node] := by
  have hexpr : Lexes (text.toList ++ []) (node.words ++ []) := h.lexes (by simp [NoDigit]) lexes_nil
  rw [List.append_nil, List.append_nil] at hexpr
  have hname : (Lexeme.token (.ident "x")).Front ['x'] (' ' :: '=' :: ' ' :: text.toList) :=
    have hword : (Token.ofWord "x").Spells ['x'] := .word rfl (by simp)
    .token hword (by rintro d ⟨⟩; rfl)
  have hsign : (Lexeme.token (.sign .eq)).Front ['='] (' ' :: text.toList) :=
    .token (.sign .eq) (by rintro d ⟨⟩; rfl)
  have hblank : Text.isGap ' ' = true := rfl
  have hlexes := Lexes.token hname ((Lexes.token hsign (hexpr.blank hblank)).blank hblank)
  obtain ⟨ts, hts, hwords⟩ := hlexes [] 0
  have hscan : Token.scan ("x = " ++ text) = .ok ts := by
    have hchars : ("x = " ++ text).toList = ['x'] ++ ' ' :: (['='] ++ ' ' :: text.toList) := by
      simp
    rw [Token.scan, hchars]
    exact hts
  have hnone : Separates none := by simp [Separates]
  have hassign : Reads (.statement (.assign "x" node)) (.ident "x" :: .sign .eq :: node.words)
      (ahead [] none) := .assign (h.expressible.expr hnone)
  rw [ofSource_of_scan hscan]
  refine statements_of_derives ?_
  rw [hwords]
  simpa [Tokens.words] using Derives.statements hassign .noStatements

/-- **The text of a value is read back**: a fresh machine that assigns the text of a canonical value
to a variable, with enough fuel for its depth, finishes with the variable bound to the value. -/
theorem run_printable {v : Value} (h : v.Canonical) (heap : Heap) (files : Files)
    (console : Console) : ∃ enough, ∀ fuel, enough ≤ fuel → ∃ m,
      (Machine.new files console).runWith fuel ("x = " ++ heap.printable v) = (.finished, m) ∧
        m.global? "x" = some v := by
  obtain ⟨node, hwrites⟩ := writes_printable h heap.instances
  obtain ⟨enough, hgives⟩ := hwrites.gives
  refine ⟨enough + 1, fun fuel hfuel => ?_⟩
  obtain ⟨fuel, rfl⟩ := Nat.exists_eq_add_of_le' (Nat.le_of_add_left_le hfuel)
  have hread : Program.ofSource ("x = " ++ heap.printable v) = .ok [.assign "x" node] :=
    ofSource_assignment hwrites
  have hvalue := hgives fuel (by omega) (Machine.new files console)
  -- one more round of fuel for the assignment itself
  have hassign : eval (fuel + 1) (.assign "x" node) (Machine.new files console) =
      ⟨.ok .void, (Machine.new files console).updateScopes (·.set "x" v 0 false)⟩ := by
    show Exec.bind (eval fuel node)
      (fun v => Exec.bind (assignVariable "x" v) fun _ => Exec.pure Value.void) _ = _
    simp only [Exec.bind, hvalue]
    rfl
  refine ⟨(Machine.new files console).updateScopes (·.set "x" v 0 false), ?_, rfl⟩
  rw [Machine.runWith, hread]
  dsimp only
  simp only [runProgram, hassign]
  rfl

namespace Nested

/-- A negative number, the beginning of a comment and a line feed in a string, and an empty array in
an array. -/
def value : Value := .array [.int (-2), .str "a // b\n", .array [.int 1, .array []]]

end Nested

theorem run_printable_nested :
    Nested.value.Canonical ∧
      Heap.empty.printable Nested.value = "[-2, \"a // b\n\", [1, []]]" ∧
      ∃ enough, ∀ fuel, enough ≤ fuel → ∃ m,
        (Machine.new .empty (.ofBytes [])).runWith fuel
            ("x = " ++ Heap.empty.printable Nested.value) = (.finished, m) ∧
          m.global? "x" = some Nested.value := by
  have hcanonical : Nested.value.Canonical := by
    refine .array ?_
    rintro v (_ | ⟨_, _ | ⟨_, _ | ⟨_, ⟨⟩⟩⟩⟩)
    · exact .int (by decide)
    · exact .str (by decide) (by decide)
    · refine .array ?_
      rintro v (_ | ⟨_, _ | ⟨_, ⟨⟩⟩⟩)
      · exact .int (by decide)
      · exact .array nofun
  have htext : Heap.empty.printable Nested.value = "[-2, \"a // b\n\", [1, []]]" := by cbv
  exact ⟨hcanonical, htext, run_printable hcanonical .empty .empty (.ofBytes [])⟩

end BoxScript
