import BoxScript.Proofs.Layout
import BoxScript.Proofs.Rereading
import BoxScript.Session
import Mathlib

/-!
# One source behind another

A session runs its sources one after the other; a file with the same sources, each on lines of its
own, is run at once. Both are the same where the sources do not grow together. A line feed ends
every token and every comment, so the tokens of the file are those of the sources in a row. A
statement ends before every token that no expression goes on with, so the trees of the file are
those of the sources in a row. And a program is run statement by statement on one machine.
-/

namespace BoxScript

/-! ## Tokens before a line feed -/

/-- No lexeme goes on with a line feed. -/
theorem read_newline {c : Char} {cs : List Char} {lexeme : Lexeme} {more : Nat}
    (h : Lexeme.read c cs = (lexeme, more)) (hread : lexeme ≠ .fault) (l : List Char) :
    Lexeme.read c (cs ++ '\n' :: l) = (lexeme, more) ∧ more ≤ cs.length := by
  obtain ⟨w, rest, rfl, rfl, hw⟩ := takes_of_read h hread
  have hbefore : lexeme.Front (c :: w) (rest ++ '\n' :: l) := by
    refine hw.before fun d hd => ?_
    cases rest with
    | nil =>
      cases hd
      exact .inr rfl
    | cons d' rest => exact .inl hd
  rw [List.append_assoc, List.length_append]
  exact ⟨read_of_front hbefore, Nat.le_add_right _ _⟩

/-- The text `cs` is read as the tokens `w`, wherever it stands. -/
def Lexes (cs : List Char) (w : List Token) : Prop :=
  ∀ found offset, ∃ ts, Token.scanFrom found offset cs = .ok ts ∧
    ts.words = (Tokens.words found).reverse ++ w

theorem lexes_nil : Lexes [] [] := fun found offset =>
  ⟨found.reverse, by rw [Token.scanFrom],
    by rw [Tokens.words, List.map_reverse, List.append_nil]; rfl⟩

/-- The tokens that are read hang on nothing but the text. -/
theorem lexes_of_scanFrom {cs : List Char} {found ts : Tokens} {offset : Nat}
    (h : Token.scanFrom found offset cs = .ok ts) :
    ∃ w, ts.words = found.words.reverse ++ w ∧ Lexes cs w := by
  -- by the steps of the scan; what stood in front is carried along unread
  fun_induction Token.scanFrom found offset cs with
  | case1 found offset =>
    obtain ⟨ts', hts', hwords⟩ := lexes_nil found offset
    rw [Token.scanFrom, h] at hts'
    cases hts'
    exact ⟨[], hwords, lexes_nil⟩
  | case2 found offset c cs more slice stop hread ih =>
    obtain ⟨w, hwords, hw⟩ := ih h
    refine ⟨w, hwords, fun found offset => ?_⟩
    rw [Token.scanFrom]
    simp only [hread]
    exact hw ..
  | case3 found offset c cs more slice stop t hread ih =>
    obtain ⟨w, hwords, hw⟩ := ih h
    refine ⟨t :: w, ?_, fun found offset => ?_⟩
    · rw [hwords, Tokens.words_cons, List.reverse_cons, List.append_assoc]
      rfl
    · obtain ⟨ts', hts', hwords'⟩ := hw ((t, ⟨offset, _⟩) :: found) (offset + byteLength slice)
      refine ⟨ts', ?_, ?_⟩
      · rw [Token.scanFrom]
        simp only [hread]
        exact hts'
      · rw [hwords', Tokens.words_cons, List.reverse_cons, List.append_assoc]
        rfl
  | case4 => cases h

theorem scanFrom_newline {cs : List Char} {found ts : Tokens} {offset : Nat}
    (h : Token.scanFrom found offset cs = .ok ts) (l : List Char) :
    ∃ offset', Token.scanFrom found offset (cs ++ '\n' :: l)
      = Token.scanFrom ts.reverse offset' l := by
  fun_induction Token.scanFrom found offset cs with
  | case1 found offset =>
    cases h
    rw [List.reverse_reverse, List.nil_append, Token.scanFrom]
    exact ⟨_, rfl⟩
  | case2 found offset c cs more slice stop hread ih =>
    obtain ⟨hread', hle⟩ := read_newline hread (by simp) l
    rw [List.cons_append, Token.scanFrom]
    simp only [hread', List.take_append_of_le_length hle, List.drop_append_of_le_length hle]
    exact ih h
  | case3 found offset c cs more slice stop t hread ih =>
    obtain ⟨hread', hle⟩ := read_newline hread (by simp) l
    rw [List.cons_append, Token.scanFrom]
    simp only [hread', List.take_append_of_le_length hle, List.drop_append_of_le_length hle]
    exact ih h
  | case4 => cases h

/-- What two texts are read as is read of both with a line feed between them. -/
theorem Lexes.newline {cs l : List Char} {w w' : List Token} (h : Lexes cs w) (h' : Lexes l w') :
    Lexes (cs ++ '\n' :: l) (w ++ w') := by
  intro found offset
  obtain ⟨ts, hts, hwords⟩ := h found offset
  obtain ⟨offset', hgoesOn⟩ := scanFrom_newline hts l
  obtain ⟨ts', hts', hwords'⟩ := h' ts.reverse offset'
  refine ⟨ts', hgoesOn.trans hts', ?_⟩
  rw [hwords', Tokens.words, List.map_reverse, List.reverse_reverse, ← List.append_assoc]
  exact congrArg (· ++ w') hwords

/-- **The tokens of two sources on lines of their own** are those of the first and then those of
the second. -/
theorem scan_newline {s₁ s₂ : String} {ts₁ ts₂ : Tokens} (h₁ : Token.scan s₁ = .ok ts₁)
    (h₂ : Token.scan s₂ = .ok ts₂) :
    ∃ ts, Token.scan (s₁ ++ "\n" ++ s₂) = .ok ts ∧ ts.words = ts₁.words ++ ts₂.words := by
  obtain ⟨w₁, hwords₁, hw₁⟩ := lexes_of_scanFrom h₁
  obtain ⟨w₂, hwords₂, hw₂⟩ := lexes_of_scanFrom h₂
  obtain ⟨ts, hts, hwords⟩ := hw₁.newline hw₂ [] 0
  refine ⟨ts, ?_, ?_⟩
  · have hchars : (s₁ ++ "\n" ++ s₂).toList = s₁.toList ++ '\n' :: s₂.toList := by
      simp [String.toList_append]
    rw [Token.scan, hchars]
    exact hts
  · rw [hwords, hwords₁, hwords₂]
    rfl

/-! ## Programs in a row -/

theorem ahead_append (w w' : List Token) (next : Option Token) :
    ahead (w ++ w') next = ahead w (ahead w' next) := by
  cases w <;> rfl

/-- Statements that are read one after the other are read as one program. -/
theorem reads_append {program program' : Program} {w w' : List Token} {next : Option Token}
    (h : Reads (.block program) w (ahead w' next)) (h' : Reads (.block program') w' next) :
    Reads (.block (program ++ program')) (w ++ w') next := by
  induction program generalizing w with
  | nil =>
    cases h
    exact h'
  | cons first further ih =>
    cases h with
    | statements hfirst hfurther =>
      rw [← ahead_append] at hfirst
      rw [List.append_assoc]
      exact .statements hfirst (ih hfurther)

/-- Expressions end before a program that does not go on with one. -/
theorem separates_program {program : Program} {w : List Token} (h : Reads (.block program) w none)
    (hopens : ∀ u ∈ w.head?, u.opens = false) : Separates (ahead w none) := by
  cases program with
  | nil =>
    cases h
    exact nofun
  | cons first further =>
    obtain ⟨u, hu, hstarts⟩ := h.begins fun _ => id
    intro v hv
    obtain rfl : v = u := by
      rw [ahead, Option.mem_def.1 hu] at hv
      cases hv
      rfl
    exact separates_of_statement hstarts (hopens v hu)

theorem scan_of_ofSource {source : String} {program : Program}
    (h : Program.ofSource source = .ok program) : ∃ ts, Token.scan source = .ok ts := by
  rw [Program.ofSource] at h
  cases hscan : Token.scan source with
  | error e =>
    rw [hscan] at h
    cases h
  | ok ts => exact ⟨ts, rfl⟩

/-- **The statements of two sources on lines of their own** are those of the first and then those
of the second, if the second does not go on with an expression. -/
theorem ofSource_newline {s₁ s₂ : String} {program₁ program₂ : Program} {ts : Tokens}
    (h₁ : Program.ofSource s₁ = .ok program₁) (h₂ : Program.ofSource s₂ = .ok program₂)
    (hscan : Token.scan s₂ = .ok ts) (hopens : ∀ u ∈ ts.peek, u.opens = false) :
    Program.ofSource (s₁ ++ "\n" ++ s₂) = .ok (program₁ ++ program₂) := by
  obtain ⟨ts₁, hscan₁⟩ := scan_of_ofSource h₁
  obtain ⟨both, hboth, hwords⟩ := scan_newline hscan₁ hscan
  rw [ofSource_of_scan hscan₁] at h₁
  rw [ofSource_of_scan hscan] at h₂
  rw [ofSource_of_scan hboth]
  have hreads₂ := derives_of_statements h₂
  rw [Tokens.peek_eq] at hopens
  refine statements_of_derives ?_
  rw [hwords]
  -- the first program ends before the second one as it did before the end
  have hends := ends_of_separates (separates_program hreads₂ hopens)
  exact reads_append ((derives_of_statements h₁).before (hends _)) hreads₂

/-! ## Runs -/

/-- The source is run to its end: no failure ends the run, and no signal does. -/
def RunsThrough (fuel : Nat) (source : String) (m m' : Machine) : Prop :=
  ∃ program, Program.ofSource source = .ok program ∧
    runBlock (eval fuel) program m = ⟨.ok false, m'⟩

/-- What runs to its end leaves the machine to the statements behind it. -/
theorem runProgram_append {ev : Evaluator} {program₁ : Program} {m m' : Machine}
    (h : runBlock ev program₁ m = ⟨.ok false, m'⟩) (program₂ : Program) :
    runProgram ev (program₁ ++ program₂) m = runProgram ev program₂ m' := by
  induction program₁ generalizing m with
  | nil =>
    cases h
    rfl
  | cons node nodes ih =>
    rw [runBlock] at h
    rw [List.cons_append, runProgram]
    rcases hnode : ev node m with ⟨_ | _ | _, left⟩ <;> rw [hnode] at h
    · dsimp only at h ⊢
      cases hpending : left.pending <;> rw [hpending] at h
      · exact ih h
      · cases h
    all_goals cases h

/-- A program that comes to its end has run all its statements, or it stopped at a signal. -/
theorem runBlock_of_finished {ev : Evaluator} {program : Program} {m m' : Machine}
    (h : runProgram ev program m = ⟨.ok (), m'⟩) : runBlock ev program m = ⟨.ok false, m'⟩ ∨
      ∃ left, runBlock ev program m = ⟨.ok true, left⟩ ∧ m' = left.noteSignal.dropSignal := by
  induction program generalizing m with
  | nil =>
    cases h
    exact .inl rfl
  | cons node nodes ih =>
    rw [runProgram] at h
    rw [runBlock]
    rcases hnode : ev node m with ⟨_ | _ | _, left⟩ <;> rw [hnode] at h
    · dsimp only at h ⊢
      cases hpending : left.pending <;> rw [hpending] at h
      · exact ih h
      · cases h
        exact .inr ⟨left, rfl, rfl⟩
    all_goals cases h

/-- A run that finishes has run to its end, or a signal has ended it and is dropped. -/
theorem runsThrough_of_finished {fuel : Nat} {source : String} {m m' : Machine}
    (h : m.runWith fuel source = (.finished, m')) : RunsThrough fuel source m m' ∨
      ∃ program left, Program.ofSource source = .ok program ∧
        runBlock (eval fuel) program m = ⟨.ok true, left⟩ ∧ m' = left.noteSignal.dropSignal := by
  unfold Machine.runWith at h
  split at h
  · cases h
  · next program hread =>
    split at h
    · next hrun =>
      cases h
      rcases runBlock_of_finished hrun with hend | ⟨left, hsignal, hdropped⟩
      · exact .inl ⟨program, hread, hend⟩
      · exact .inr ⟨program, left, hread, hsignal, hdropped⟩
    all_goals cases h

/-- **A session is a file**: a source that runs to its end and then another one do what both do in
one source, each on lines of its own, whatever the machine. -/
theorem runWith_newline {fuel : Nat} {s₁ s₂ : String} {program : Program} {ts : Tokens}
    {m m' : Machine} (h₁ : RunsThrough fuel s₁ m m') (h₂ : Program.ofSource s₂ = .ok program)
    (hscan : Token.scan s₂ = .ok ts) (hopens : ∀ u ∈ ts.peek, u.opens = false) :
    m.runWith fuel s₁ = (.finished, m') ∧
      m.runWith fuel (s₁ ++ "\n" ++ s₂) = (m.runWith fuel s₁).2.runWith fuel s₂ := by
  obtain ⟨program₁, hread₁, hran⟩ := h₁
  have hfirst : m.runWith fuel s₁ = (.finished, m') := by
    have hprogram := runProgram_append hran []
    rw [List.append_nil] at hprogram
    rw [Machine.runWith, hread₁]
    dsimp only
    rw [hprogram]
    rfl
  refine ⟨hfirst, ?_⟩
  rw [hfirst, Machine.runWith, Machine.runWith, ofSource_newline hread₁ h₂ hscan hopens, h₂]
  dsimp only
  rw [runProgram_append hran]

namespace TwoLines

def fresh : Machine := .new .empty (.ofBytes [])

/-- The machine after the first line. -/
def between : Machine := (runBlock (eval 2) [.assign "x" (.int 1)] fresh).machine

end TwoLines

/-- A line with a comment, and one that prints. -/
theorem runWith_newline_print :
    RunsThrough 2 "x = 1 // one" TwoLines.fresh TwoLines.between ∧
      Program.ofSource "print x" = .ok [.print (.var "x") true] ∧
      TwoLines.fresh.runWith 2 "x = 1 // one" = (.finished, TwoLines.between) ∧
      TwoLines.fresh.runWith 2 ("x = 1 // one" ++ "\n" ++ "print x")
        = (TwoLines.fresh.runWith 2 "x = 1 // one").2.runWith 2 "print x" := by
  have hfirst : Token.scan "x = 1 // one"
      = .ok [(.ident "x", ⟨0, 1⟩), (.sign .eq, ⟨2, 3⟩), (.int 1, ⟨4, 5⟩)] := by
    decide +kernel
  have hassign : Program.ofSource "x = 1 // one" = .ok [.assign "x" (.int 1)] := by
    rw [ofSource_of_scan hfirst]
    cbv
  have hscan : Token.scan "print x" = .ok [(.keyword .print, ⟨0, 5⟩), (.ident "x", ⟨6, 7⟩)] := by
    decide +kernel
  have hprint : Program.ofSource "print x" = .ok [.print (.var "x") true] := by
    rw [ofSource_of_scan hscan]
    cbv
  have hopens : ∀ u ∈ Tokens.peek [(.keyword .print, ⟨0, 5⟩), (.ident "x", ⟨6, 7⟩)],
      u.opens = false := by
    rintro _ ⟨⟩
    rfl
  have hran : RunsThrough 2 "x = 1 // one" TwoLines.fresh TwoLines.between := ⟨_, hassign, rfl⟩
  exact ⟨hran, hprint, runWith_newline hran hprint hscan hopens⟩

end BoxScript
