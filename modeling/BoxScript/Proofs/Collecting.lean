import BoxScript.Proofs.Course
import BoxScript.Repl
import Mathlib.Data.List.DropRight
import Mathlib.Logic.Relation

/-!
# What a session makes of its lines

A session takes in one line after the other. Most lines are put away until a blank one has them run.
What a line does depends on the lines before it, on whether it is blank, and on whether it starts
with a colon. `Repl.Asks` says what a list of lines asks for as a whole, with no buffer: the lines
fall apart into blank ones, commands, and runs of other lines as long as possible, and what they ask
for is a list of acts.

`Repl.Concludes` is a session as it goes, round by round, with the lines that it takes in and with
what it does. The two agree on every session. One round keeps that the buffer holds the lines of a
run that has begun (`Repl.Pending`), and what remains to be asked for shrinks by the line. The
buffer is thus never made of blanks alone, and nothing is left in it at the end.

Running a source text may take lines away that the session would have got, but it never puts any
back. So there are fewer bytes to read after each round, and a session is over at some time, unless
the run of a source does not end. Such a run is the last thing that a session does, and what it has
done up to there is what the lines up to there ask for.
-/

namespace BoxScript

/-! ## What is left to read -/

theorem Console.Proceeds.trans {a b c : Console} (h : a.Proceeds b) (h' : b.Proceeds c) :
    a.Proceeds c :=
  List.IsSuffix.trans h' h

/-- What can be read after some steps could be read before them. -/
def sourceContract : Contract where
  lax := False
  inv _ := True
  rel m m' := m.console.Proceeds m'.console

/-- Only the steps that use the console change it. -/
theorem sourceContract_frames : sourceContract.Frames AnyNode AnyNode where
  everywhere := ⟨fun _ _ => trivial, fun _ _ => trivial⟩
  fragment := anyNode_language.toFragment
  scripts {m} _ := anyNode_language.scriptsIn m
  refl _ := List.suffix_rfl
  trans h h' := h.trans h'
  code {m} _ := m.codeIn_any
  console hc _ := ⟨trivial, hc⟩
  assign _ _ _ _ := ⟨trivial, List.suffix_rfl⟩
  declare _ _ _ := ⟨trivial, List.suffix_rfl⟩
  register _ _ _ _ := ⟨trivial, List.suffix_rfl⟩
  extend _ _ _ _ := ⟨trivial, List.suffix_rfl⟩
  allocate _ _ _ _ _ := ⟨trivial, List.suffix_rfl⟩
  setField _ _ _ _ := ⟨trivial, List.suffix_rfl⟩
  linkIn _ _ := trivial
  linkOut _ _ moves := ⟨trivial, moves.rel⟩
  linkRefused _ := ⟨trivial, List.suffix_rfl⟩
  push _ _ := ⟨trivial, List.suffix_rfl⟩
  dropSignal _ := ⟨trivial, List.suffix_rfl⟩
  bindParams _ _ _ := ⟨trivial, List.suffix_rfl⟩
  scopeIn _ _ := trivial
  scopeOut _ _ moves := ⟨trivial, moves.rel⟩
  clauseIn _ := trivial
  clauseOut _ moves := ⟨trivial, moves.rel⟩
  callIn _ _ := trivial
  callOut _ _ moves := ⟨trivial, moves.rel⟩
  methodIn _ _ := trivial
  methodOut _ _ moves := ⟨trivial, moves.rel⟩
  fork _ := trivial
  merge _ moves := ⟨trivial, moves.rel⟩
  discard _ _ moves := ⟨trivial, moves.rel⟩

/-- A run reads on where the run before it stopped. -/
theorem Machine.proceeds_run (source : String) (m : Machine) :
    m.console.Proceeds (m.run source).2.console :=
  (sourceContract_frames.moves_runWith anyNode_language trivial rfl).rel

/-- A line takes at least its line feed, if there is anything to read at all. -/
theorem splitLine_shorter {bytes : List UInt8} (h : bytes ≠ []) :
    (splitLine bytes).2.length < bytes.length := by
  rcases splitLine_cases bytes with hall | ⟨line, feed, rest, hbytes, hsplit⟩
  · rw [hall]
    exact List.length_pos_iff.2 h
  · rw [hsplit, hbytes, List.length_append, List.length_cons]
    exact Nat.lt_of_lt_of_le (Nat.lt_succ_self _) (Nat.le_add_left _ _)

namespace Repl

/-! ## What lines ask for -/

/-- What a session does beside putting lines away. -/
inductive Act where
  | command (text : String)
  | run (source : String)
  deriving DecidableEq

/-- A text with nothing but blanks. -/
def Blank (s : String) : Prop := ∀ c ∈ s.toList, Text.isBlank c = true

instance : DecidablePred Blank := fun s =>
  inferInstanceAs (Decidable (∀ c ∈ s.toList, Text.isBlank c = true))

/-- A line with a colon as its first character that is not blank. -/
def IsCommand (line : String) : Prop := (trimmed line).toList.head? = some ':'

instance : DecidablePred IsCommand := fun line =>
  inferInstanceAs (Decidable ((trimmed line).toList.head? = some ':'))

/-- The commands that end a session. -/
def quits : List String := [":quit", ":q", ":exit"]

/-- Lines one after the other, each with a line feed. -/
def collected : List String → String
  | [] => ""
  | line :: lines => line ++ "\n" ++ collected lines

/-- Lines that are put away one after the other. Once there is one of them, a colon is nothing
special. -/
structure IsRun (run : List String) : Prop where
  nonempty : run ≠ []
  first : ∀ line ∈ run.head?, ¬IsCommand line
  full : ∀ line ∈ run, ¬Blank line

/-- **What lines ask for.** A run goes up to the next blank line or to the end of all lines, and it
asks for its lines to be run as one source text. Blank lines ask for nothing. A command asks for
itself, and there are no lines after one that ends the session. -/
inductive Asks : List String → List Act → Prop
  | nothing : Asks [] []
  | blank {line lines acts} (hblank : Blank line) (h : Asks lines acts) : Asks (line :: lines) acts
  | command {line lines acts} (hcommand : IsCommand line) (hstays : trimmed line ∉ quits)
    (h : Asks lines acts) : Asks (line :: lines) (.command (trimmed line) :: acts)
  | quit {line} (hcommand : IsCommand line) (hquits : trimmed line ∈ quits) :
    Asks [line] [.command (trimmed line)]
  | run {first more lines acts} (hrun : IsRun (first :: more))
    (hend : ∀ line ∈ lines.head?, Blank line) (h : Asks lines acts) :
    Asks (first :: (more ++ lines)) (.run (collected (first :: more)) :: acts)

section Lines

variable {line : String} {run lines : List String} {acts : List Act}

/-- What is left of a line without its blanks is empty if and only if there are only blanks. -/
theorem trimmed_eq_empty_iff (s : String) : trimmed s = "" ↔ Blank s := by
  rw [trimmed, ← String.toList_eq_nil_iff, String.toList_ofList, Text.trim,
    List.reverse_eq_nil_iff, List.dropWhile_eq_nil_iff]
  simp only [List.mem_reverse]
  rw [← List.dropWhile_eq_nil_iff, List.dropWhile_idempotent, List.dropWhile_eq_nil_iff, Blank]

theorem blank_empty : Blank "" := (trimmed_eq_empty_iff "").1 rfl

theorem blank_feed : Blank "\n" := (trimmed_eq_empty_iff "\n").1 rfl

theorem blank_append (s t : String) : Blank (s ++ t) ↔ Blank s ∧ Blank t := by
  rw [Blank, String.toList_append]
  exact List.forall_mem_append

theorem IsCommand.not_blank (h : IsCommand line) : ¬Blank line := by
  rw [← trimmed_eq_empty_iff]
  intro hempty
  rw [IsCommand, hempty] at h
  cases h

theorem collected_append (lines more : List String) :
    collected (lines ++ more) = collected lines ++ collected more := by
  induction lines with
  | nil => exact String.empty_append.symm
  | cons line lines ih => rw [List.cons_append, collected, collected, ih, ← String.append_assoc]

/-- Lines are blank together if and only if each of them is. -/
theorem blank_collected_iff : Blank (collected lines) ↔ ∀ line ∈ lines, Blank line := by
  induction lines with
  | nil => exact iff_of_true blank_empty nofun
  | cons line lines ih =>
    rw [collected, blank_append, blank_append, ih, List.forall_mem_cons, and_iff_left blank_feed]

theorem IsRun.not_blank (h : IsRun run) : ¬Blank (collected run) := by
  obtain ⟨line, hline⟩ := List.exists_mem_of_ne_nil run h.nonempty
  exact fun hblank => h.full line hline (blank_collected_iff.1 hblank line hline)

theorem IsRun.collected_ne (h : IsRun run) : collected run ≠ "" := by
  intro hempty
  exact h.not_blank (hempty ▸ blank_empty)

theorem IsRun.of_line (hcommand : ¬IsCommand line) (hblank : ¬Blank line) : IsRun [line] where
  nonempty := List.cons_ne_nil _ _
  first := by simpa using hcommand
  full := by simpa using hblank

/-- A line that is not blank goes on with a run. -/
theorem IsRun.concat (h : IsRun run) (hblank : ¬Blank line) : IsRun (run ++ [line]) where
  nonempty := List.append_ne_nil_of_left_ne_nil h.nonempty _
  first := by
    rw [List.head?_append_of_ne_nil _ h.nonempty]
    exact h.first
  full := by
    rw [List.forall_mem_append]
    exact ⟨h.full, by simpa using hblank⟩

theorem Asks.of_run (hrun : IsRun run) (hend : ∀ line ∈ lines.head?, Blank line)
    (h : Asks lines acts) : Asks (run ++ lines) (.run (collected run) :: acts) := by
  obtain ⟨first, more, rfl⟩ := List.exists_cons_of_ne_nil hrun.nonempty
  exact .run hrun hend h

/-- A list falls apart in one way into lines that are not blank and what begins with a blank one. -/
theorem apart_unique {run' lines' : List String} (hfull : ∀ line ∈ run, ¬Blank line)
    (hend : ∀ line ∈ lines.head?, Blank line) (hfull' : ∀ line ∈ run', ¬Blank line)
    (hend' : ∀ line ∈ lines'.head?, Blank line) (h : run ++ lines = run' ++ lines') :
    run = run' ∧ lines = lines' := by
  induction run generalizing run' with
  | nil =>
    cases run' with
    | nil => exact ⟨rfl, h⟩
    | cons line run' =>
      have hblank := hend line (by rw [← List.nil_append lines, h]; rfl)
      exact absurd hblank (hfull' line List.mem_cons_self)
  | cons line run ih =>
    cases run' with
    | nil =>
      have hblank := hend' line (by rw [← List.nil_append lines', ← h]; rfl)
      exact absurd hblank (hfull line List.mem_cons_self)
    | cons line' run' =>
      obtain ⟨rfl, htail⟩ := List.cons.inj h
      obtain ⟨rfl, rfl⟩ :=
        ih (List.forall_mem_cons.1 hfull).2 (List.forall_mem_cons.1 hfull').2 htail
      exact ⟨rfl, rfl⟩

/-- Lines ask for one thing. -/
theorem Asks.unique {acts' : List Act} (h : Asks lines acts) (h' : Asks lines acts') :
    acts = acts' := by
  -- the first line settles which clause it is, and the next blank line how long a run is
  induction h generalizing acts' with
  | nothing => cases h'; rfl
  | blank hblank _ ih =>
    cases h' with
    | blank _ h' => exact ih h'
    | command hcommand | quit hcommand => exact absurd hblank hcommand.not_blank
    | run hrun => exact absurd hblank (hrun.full _ List.mem_cons_self)
  | command hcommand hstays _ ih =>
    cases h' with
    | blank hblank => exact absurd hblank hcommand.not_blank
    | command _ _ h' => rw [ih h']
    | quit _ hquits => exact absurd hquits hstays
    | run hrun => exact absurd hcommand (hrun.first _ rfl)
  | @quit line hcommand hquits =>
    generalize hrest : ([] : List String) = rest at h'
    cases h' with
    | blank hblank => exact absurd hblank hcommand.not_blank
    | command _ hstays => exact absurd hquits hstays
    | quit => rfl
    | run hrun => exact absurd hcommand (hrun.first _ rfl)
  | @run first more lines acts hrun hend _ ih =>
    generalize hrest : more ++ lines = rest at h'
    cases h' with
    | blank hblank => exact absurd hblank (hrun.full _ List.mem_cons_self)
    | command hcommand | quit hcommand => exact absurd hcommand (hrun.first _ rfl)
    | run hrun' hend' h' =>
      obtain ⟨rfl, rfl⟩ := apart_unique (List.forall_mem_cons.1 hrun.full).2 hend
        (List.forall_mem_cons.1 hrun'.full).2 hend' hrest
      rw [ih h']

end Lines

/-! ## Sessions -/

/-- What comes when a line is awaited. -/
inductive Delivery where
  | line (text : String)
  | ended
  /-- Bytes that are no text. -/
  | notText
  /-- A line with a backspace that cuts a character in two. -/
  | cut

/-- Nothing that a session could go on with, and not the end of its lines. -/
def Delivery.Broken : Delivery → Prop
  | notText | cut => True
  | line _ | ended => False

/-- Await a line. -/
def listen (r : Repl) : Delivery × Repl :=
  let r := r.say (prompt r.buffer)
  let console := r.machine.console
  match console.source with
  | [] => (.ended, r)
  | source =>
    let (line, rest) := splitLine source
    let console := { console with source := rest, taken := console.taken + line.length }
    let r := { r with machine := { r.machine with console := console } }
    match decodeText? line with
    | none => (.notText, r)
    | some text =>
      match Text.rubOut (stripLineEnd text) with
      | none => (.cut, r)
      | some line => (.line line, r)

/-- How a session is over. -/
inductive Ending where
  /-- A command ends it, or its lines are at an end and all of them have been run. -/
  | closed
  /-- The run of a source does not end. -/
  | hung

/-- A source whose run does not end. -/
def Hangs (source : String) (r : Repl) : Prop := (r.machine.run source).1 = .unfinished

/-- What is done about a line, how it ends the session if it does so, and how that stands then. -/
inductive Takes (line : String) (r : Repl) : List Act → Option Ending → Repl → Prop
  | waits {buffer} (h : step r.buffer line = (.wait, buffer)) :
    Takes line r [] none { r with buffer := buffer }
  | runs {source buffer} (h : step r.buffer line = (.run source, buffer))
    (hends : ¬Hangs source r) :
    Takes line r [.run source] none (({ r with buffer := buffer } : Repl).runSource source).2
  | hangs {source buffer} (h : step r.buffer line = (.run source, buffer))
    (hhangs : Hangs source r) :
    Takes line r [.run source] (some .hung)
      (({ r with buffer := buffer } : Repl).runSource source).2
  | obeys {text buffer r'} (h : step r.buffer line = (.command text, buffer))
    (hobey : ({ r with buffer := buffer } : Repl).obey text = (true, r')) :
    Takes line r [.command text] none r'
  | closes {text buffer r'} (h : step r.buffer line = (.command text, buffer))
    (hobey : ({ r with buffer := buffer } : Repl).obey text = (false, r')) :
    Takes line r [.command text] (some .closed) r'

/-- A line is awaited, and it is taken in. -/
def Round (r : Repl) (line : String) (acts : List Act) (how : Option Ending) (r' : Repl) : Prop :=
  ∃ there, r.listen = (.line line, there) ∧ Takes line there acts how r'

/-- A session that stands as the first one comes to stand as the second one. -/
def Reaches : Repl → Repl → Prop :=
  Relation.ReflTransGen fun r r' => ∃ line acts, Round r line acts none r'

/-- A session from where it stands until it is over: the lines that it takes in, what it does, and
how it stands then. -/
inductive Concludes : Ending → Repl → List String → List Act → Repl → Prop
  | goesOn {ending r line acts next lines acts' last} (h : Round r line acts none next)
    (rest : Concludes ending next lines acts' last) :
    Concludes ending r (line :: lines) (acts ++ acts') last
  | stops {ending r line acts last} (h : Round r line acts (some ending) last) :
    Concludes ending r [line] acts last
  | ends {r there} (h : r.listen = (.ended, there)) (hempty : there.buffer = "") :
    Concludes .closed r [] [] (there.say farewell)
  | runsLast {r there} (h : r.listen = (.ended, there)) (hopen : there.buffer ≠ "")
    (hends : ¬Hangs there.buffer there) :
    Concludes .closed r [] [.run there.buffer]
      ((({ there with buffer := "" } : Repl).runSource there.buffer).2.say farewell)
  | hangsLast {r there} (h : r.listen = (.ended, there)) (hopen : there.buffer ≠ "")
    (hhangs : Hangs there.buffer there) :
    Concludes .hung r [] [.run there.buffer]
      (({ there with buffer := "" } : Repl).runSource there.buffer).2

section Machines

variable {r r' : Repl} {line text source : String} {acts : List Act} {how : Option Ending}

/-- A line takes something off what there is to read, unless there is nothing left. -/
theorem listen_cases (r : Repl) :
    (r.machine.console.source = [] ∧ r.listen = (.ended, r.say (prompt r.buffer))) ∨
      r.listen.2.machine.console.source.length < r.machine.console.source.length := by
  unfold listen
  dsimp only
  split
  case h_1 h => exact .inl ⟨h, rfl⟩
  case h_2 hsource =>
    refine .inr ?_
    have hshorter := splitLine_shorter hsource
    repeat' split
    all_goals exact hshorter

theorem listen_buffer (r : Repl) : r.listen.2.buffer = r.buffer := by
  unfold listen
  dsimp only
  repeat' split
  all_goals rfl

theorem runSource_buffer (source : String) (r : Repl) :
    (r.runSource source).2.buffer = r.buffer := by
  unfold runSource
  split <;> rfl

/-- A session stops at a run if and only if the run does not end. -/
theorem runSource_fst (source : String) (r : Repl) :
    (r.runSource source).1 = true ↔ ¬Hangs source r := by
  unfold runSource Hangs
  split <;> simp_all

theorem proceeds_runSource (source : String) (r : Repl) :
    r.machine.console.Proceeds (r.runSource source).2.machine.console := by
  have hrun := r.machine.proceeds_run source
  unfold runSource
  generalize r.machine.run source = o at hrun
  split <;> exact hrun

/-- The session goes on after every command but those that end it. -/
theorem obey_fst (text : String) (r : Repl) : (r.obey text).1 = true ↔ text ∉ quits := by
  unfold obey
  split
  case h_9 hquit hq hexit _ _ _ _ _ =>
    simp only [quits, List.mem_cons, List.not_mem_nil, or_false, not_or]
    exact ⟨fun _ => ⟨hquit, hq, hexit⟩, fun _ => trivial⟩
  all_goals simp [quits]

theorem obey_buffer (text : String) (h : r.buffer = "") : (r.obey text).2.buffer = "" := by
  unfold obey
  split
  case h_8 => rfl
  all_goals exact h

theorem proceeds_obey (text : String) (r : Repl) :
    r.machine.console.Proceeds (r.obey text).2.machine.console := by
  unfold obey
  split <;> exact List.suffix_rfl

/-- What `advance` does about a line is one of the ways to take it in, and it goes on where the line
does not end the session. -/
theorem takes_advance (line : String) (r : Repl) :
    ∃ acts how, Takes line r acts how (r.advance line).2 ∧
      ((r.advance line).1 = true ↔ how = none) := by
  unfold advance
  rcases hstep : step r.buffer line with ⟨text | source | _, buffer⟩
  · dsimp only
    rcases hobey : ({ r with buffer := buffer } : Repl).obey text with ⟨_ | _, r'⟩
    · exact ⟨_, _, .closes hstep hobey, by simp⟩
    · exact ⟨_, _, .obeys hstep hobey, by simp⟩
  · have hgoes := runSource_fst source { r with buffer := buffer }
    by_cases hhangs : Hangs source r
    · exact ⟨_, _, .hangs hstep hhangs, by simpa using mt hgoes.1 (not_not_intro hhangs)⟩
    · exact ⟨_, _, .runs hstep hhangs, iff_of_true (hgoes.2 hhangs) rfl⟩
  · exact ⟨_, _, .waits hstep, by simp⟩

theorem Takes.proceeds (h : Takes line r acts how r') :
    r.machine.console.Proceeds r'.machine.console := by
  cases h with
  | waits => exact List.suffix_rfl
  | runs | hangs => exact proceeds_runSource _ _
  | @obeys text buffer _ _ hobey | @closes text buffer _ _ hobey =>
    have hsource := proceeds_obey text { r with buffer := buffer }
    rwa [hobey] at hsource

/-- A line that is put away does nothing else. -/
theorem Takes.of_wait {held buffer : String} (hheld : r.buffer = held)
    (hstep : step held line = (.wait, buffer)) (h : Takes line r acts how r') :
    acts = [] ∧ how = none ∧ r'.buffer = buffer := by
  subst hheld
  cases h with
  | waits h => cases hstep.symm.trans h; exact ⟨rfl, rfl, rfl⟩
  | runs h | hangs h | obeys h | closes h => cases hstep.symm.trans h

/-- A line that has a source run empties the buffer, whatever comes of the run. -/
theorem Takes.of_run {held buffer : String} (hheld : r.buffer = held)
    (hstep : step held line = (.run source, buffer)) (h : Takes line r acts how r') :
    acts = [.run source] ∧ r'.buffer = buffer := by
  subst hheld
  cases h with
  | runs h | hangs h => cases hstep.symm.trans h; exact ⟨rfl, runSource_buffer _ _⟩
  | waits h | obeys h | closes h => cases hstep.symm.trans h

/-- A command ends the session if and only if it is one of those that quit. -/
theorem Takes.of_command {held : String} (hheld : r.buffer = held)
    (hstep : step held line = (.command text, "")) (h : Takes line r acts how r') :
    acts = [.command text] ∧ (how = none ↔ text ∉ quits) ∧ r'.buffer = "" := by
  subst hheld
  have hgoes := obey_fst text { r with buffer := "" }
  have hbuffer := obey_buffer (r := { r with buffer := "" }) text rfl
  cases h with
  | obeys h hobey =>
    cases hstep.symm.trans h
    rw [hobey] at hgoes hbuffer
    exact ⟨rfl, iff_of_true rfl (hgoes.1 rfl), hbuffer⟩
  | closes h hobey =>
    cases hstep.symm.trans h
    rw [hobey] at hgoes hbuffer
    exact ⟨rfl, iff_of_false nofun (mt hgoes.2 nofun), hbuffer⟩
  | waits h | runs h | hangs h => cases hstep.symm.trans h

end Machines

/-! ## One round -/

/-- The buffer holds the lines of a run that has begun, or of none. -/
structure Pending (run : List String) (buffer : String) : Prop where
  begun : run = [] ∨ IsRun run
  held : buffer = collected run

section Steps

variable {run : List String} {r r' : Repl} {line : String} {acts : List Act}
  {how : Option Ending}

theorem pending_nil : Pending [] "" := ⟨.inl rfl, rfl⟩

/-- The buffer is never made of blanks alone. -/
theorem Pending.not_blank {buffer : String} (h : Pending run buffer) (hopen : buffer ≠ "") :
    ¬Blank buffer := by
  obtain ⟨rfl | hrun, rfl⟩ := h
  · exact absurd rfl hopen
  · exact hrun.not_blank

/-- What a line asks for, without a computation. -/
theorem step_eq (buffer line : String) : step buffer line =
    if buffer = "" ∧ IsCommand line then (.command (trimmed line), buffer)
    else if Blank line then if Blank buffer then (.wait, "") else (.run buffer, "")
    else (.wait, buffer ++ line ++ "\n") := by
  simp only [step, IsCommand, Bool.and_eq_true, decide_eq_true_eq, String.isEmpty_iff,
    trimmed_eq_empty_iff]
  congr

theorem step_command (hcommand : IsCommand line) :
    step "" line = (.command (trimmed line), "") := by
  rw [step_eq, if_pos ⟨rfl, hcommand⟩]

theorem step_blank (hblank : Blank line) : step "" line = (.wait, "") := by
  have hcommand : ¬IsCommand line := fun h => h.not_blank hblank
  rw [step_eq, if_neg fun h => hcommand h.2, if_pos hblank, if_pos blank_empty]

theorem step_first (hcommand : ¬IsCommand line) (hblank : ¬Blank line) :
    step "" line = (.wait, collected [line]) := by
  rw [step_eq, if_neg fun h => hcommand h.2, if_neg hblank, String.empty_append]
  exact congrArg (Prod.mk _) String.append_empty.symm

/-- A blank line has the run before it executed. -/
theorem step_end (hrun : IsRun run) (hblank : Blank line) :
    step (collected run) line = (.run (collected run), "") := by
  rw [step_eq, if_neg fun h => hrun.collected_ne h.1, if_pos hblank, if_neg hrun.not_blank]

/-- Any other line joins it. -/
theorem step_more (hrun : IsRun run) (hblank : ¬Blank line) :
    step (collected run) line = (.wait, collected (run ++ [line])) := by
  rw [step_eq, if_neg fun h => hrun.collected_ne h.1, if_neg hblank, collected_append,
    String.append_assoc]
  exact congrArg (fun s => (_, collected run ++ s)) String.append_empty.symm

/-- **One round.** A line that is taken in while a run has begun, or none, leaves a run begun, or
none. Whatever is asked for from there on has the acts of the round before it from here on. -/
theorem Round.pending (hpending : Pending run r.buffer) (h : Round r line acts how r') :
    ∃ run', Pending run' r'.buffer ∧ (how ≠ none → run' = []) ∧
      ∀ {lines acts'}, (how ≠ none → lines = []) → Asks (run' ++ lines) acts' →
        Asks (run ++ line :: lines) (acts ++ acts') := by
  obtain ⟨there, hlisten, h⟩ := h
  have hbuffer := r.listen_buffer
  rw [hlisten] at hbuffer
  rw [← hbuffer] at hpending
  obtain ⟨rfl | hrun, hheld⟩ := hpending
  -- nothing is put away: the line is a command, or it is blank, or a run begins with it
  case inl =>
    rw [collected] at hheld
    by_cases hcommand : IsCommand line
    · obtain ⟨rfl, hgoes, hbuffer⟩ := h.of_command hheld (step_command hcommand)
      refine ⟨[], ⟨.inl rfl, hbuffer⟩, fun _ => rfl, fun hend hasks => ?_⟩
      by_cases hquits : trimmed line ∈ quits
      · obtain rfl := hend (mt hgoes.1 (not_not_intro hquits))
        cases hasks
        exact .quit hcommand hquits
      · exact .command hcommand hquits hasks
    · by_cases hblank : Blank line
      · obtain ⟨rfl, -, hbuffer⟩ := h.of_wait hheld (step_blank hblank)
        exact ⟨[], ⟨.inl rfl, hbuffer⟩, fun _ => rfl, fun _ hasks => .blank hblank hasks⟩
      · obtain ⟨rfl, rfl, hbuffer⟩ := h.of_wait hheld (step_first hcommand hblank)
        exact ⟨[line], ⟨.inr (.of_line hcommand hblank), hbuffer⟩, (absurd rfl ·),
          fun _ hasks => hasks⟩
  -- a run has begun: the line ends it or joins it, whether it has a colon or not
  case inr =>
    by_cases hblank : Blank line
    -- whether the source comes to an end or not, it is what was asked for
    · obtain ⟨rfl, hbuffer⟩ := h.of_run hheld (step_end hrun hblank)
      refine ⟨[], ⟨.inl rfl, hbuffer⟩, fun _ => rfl, fun _ hasks => ?_⟩
      exact .of_run hrun (by simpa using hblank) (.blank hblank hasks)
    · obtain ⟨rfl, rfl, hbuffer⟩ := h.of_wait hheld (step_more hrun hblank)
      refine ⟨run ++ [line], ⟨.inr (hrun.concat hblank), hbuffer⟩, (absurd rfl ·),
        fun _ hasks => ?_⟩
      rwa [List.append_assoc] at hasks

theorem Round.shorter (h : Round r line acts how r') :
    r'.machine.console.source.length < r.machine.console.source.length := by
  obtain ⟨there, hlisten, htakes⟩ := h
  rcases r.listen_cases with ⟨-, hended⟩ | hshorter
  · cases hended.symm.trans hlisten
  · rw [hlisten] at hshorter
    exact Nat.lt_of_le_of_lt htakes.proceeds.length_le hshorter

end Steps

/-! ## Whole sessions -/

section Whole

variable {run lines : List String} {r r' last : Repl} {acts : List Act} {ending : Ending}

/-- The buffer holds the lines of a run at every place that a session reaches. -/
theorem Reaches.pending (hpending : Pending run r.buffer) (h : r.Reaches r') :
    ∃ run', Pending run' r'.buffer := by
  induction h with
  | refl => exact ⟨run, hpending⟩
  | tail _ hround ih =>
    obtain ⟨line, acts, hround⟩ := hround
    obtain ⟨run', hpending'⟩ := ih
    obtain ⟨run'', hpending'', -⟩ := hround.pending hpending'
    exact ⟨run'', hpending''⟩

/-- Lines that are put away when there are no more of them ask for one run. -/
theorem Pending.asks_last {there : Repl} (hpending : Pending run r.buffer)
    (hlisten : r.listen = (.ended, there)) (hopen : there.buffer ≠ "") :
    Asks (run ++ []) [.run there.buffer] := by
  have hbuffer := r.listen_buffer
  rw [hlisten] at hbuffer
  dsimp only at hbuffer
  obtain ⟨rfl | hrun, hheld⟩ := hpending
  · exact absurd (hbuffer.trans hheld) hopen
  · rw [hbuffer, hheld]
    exact .of_run hrun nofun .nothing

/-- What a session does is what its lines ask for, behind those of a run that has begun. -/
theorem Concludes.asks (hpending : Pending run r.buffer)
    (h : Concludes ending r lines acts last) : Asks (run ++ lines) acts ∧ last.buffer = "" := by
  -- by the rounds, with the run that has begun general: each round may begin one or end it
  induction h generalizing run with
  | goesOn hround _ ih =>
    obtain ⟨run', hpending', -, hstep⟩ := hround.pending hpending
    obtain ⟨hasks, hempty⟩ := ih hpending'
    exact ⟨hstep (absurd rfl ·) hasks, hempty⟩
  | stops hround =>
    obtain ⟨run', hpending', hnone, hstep⟩ := hround.pending hpending
    obtain rfl := hnone nofun
    have hasks := hstep (fun _ => rfl) .nothing
    rw [List.append_nil] at hasks
    exact ⟨hasks, hpending'.held⟩
  | @ends r there hlisten hempty =>
    have hbuffer := r.listen_buffer
    rw [hlisten, hempty] at hbuffer
    obtain ⟨rfl | hrun, hheld⟩ := hpending
    · exact ⟨.nothing, hempty⟩
    · exact absurd (hheld.symm.trans hbuffer.symm) hrun.collected_ne
  | runsLast hlisten hopen | hangsLast hlisten hopen =>
    exact ⟨hpending.asks_last hlisten hopen, runSource_buffer _ _⟩

/-- A session is a row of rounds, each of which begins by listening. -/
theorem converse_succ (n : Nat) (r : Repl) : converse (n + 1) r =
    match r.listen with
    | (.line line, there) =>
      match there.advance line with
      | (true, next) => converse n next
      | (false, last) => last
    | (.ended, there) => there.finish
    | (.notText, there) => there.complain ("Error: " ++ FileFault.notText.text ++ "\n")
    | (.cut, there) => there.breakOff := by
  rw [converse, listen]
  dsimp only
  cases (r.say (prompt r.buffer)).machine.console.source with
  | nil => rfl
  | cons byte bytes =>
    dsimp only
    cases decodeText? (splitLine (byte :: bytes)).1 with
    | none => rfl
    | some text =>
      dsimp only
      cases Text.rubOut (stripLineEnd text) with
      | none => rfl
      | some line => rfl

/-- The end of the lines has what has been put away run. -/
theorem concludes_finish {there : Repl} (hlisten : r.listen = (.ended, there)) :
    ∃ ending acts, Concludes ending r [] acts there.finish := by
  unfold finish
  dsimp only
  by_cases hempty : there.buffer = ""
  · rw [if_pos (String.isEmpty_iff.2 hempty)]
    exact ⟨_, _, .ends hlisten hempty⟩
  · rw [if_neg (mt String.isEmpty_iff.1 hempty)]
    have hgoes := runSource_fst there.buffer { there with buffer := "" }
    by_cases hhangs : Hangs there.buffer there
    · rw [if_neg (mt hgoes.1 (not_not_intro hhangs))]
      exact ⟨_, _, .hangsLast hlisten hempty hhangs⟩
    · rw [if_pos (hgoes.2 hhangs)]
      exact ⟨_, _, .runsLast hlisten hempty hhangs⟩

/-- With enough rounds left, a session is over at some time, or it gets to a broken line. -/
theorem converse_concludes {n : Nat} (hn : r.machine.console.source.length < n) :
    (∃ there, r.Reaches there ∧ there.listen.1.Broken) ∨
      ∃ ending lines acts, Concludes ending r lines acts (converse n r) := by
  induction n generalizing r with
  | zero => exact absurd hn (Nat.not_lt_zero _)
  | succ n ih =>
    rw [converse_succ]
    rcases hlisten : r.listen with ⟨delivery, there⟩
    -- by what is delivered; a line that does not end the session leaves less to read
    cases delivery with
    | line line =>
      obtain ⟨acts, how, htakes, hgoes⟩ := takes_advance line there
      have hround : Round r line acts how _ := ⟨there, hlisten, htakes⟩
      dsimp only
      generalize there.advance line = result at hround hgoes
      obtain ⟨goes, next⟩ := result
      cases how with
      | some ending =>
        obtain rfl : goes = false := by simpa using hgoes
        exact .inr ⟨ending, [line], acts, .stops hround⟩
      | none =>
        obtain rfl : goes = true := hgoes.2 rfl
        have hshorter := hround.shorter
        rcases ih (r := next) (by dsimp only at hshorter; omega) with
          ⟨broken, hreaches, hbroken⟩ | ⟨ending, lines, acts', hconcludes⟩
        · exact .inl ⟨broken, .head ⟨line, acts, hround⟩ hreaches, hbroken⟩
        · exact .inr ⟨ending, line :: lines, acts ++ acts', .goesOn hround hconcludes⟩
    | ended =>
      obtain ⟨ending, acts, hconcludes⟩ := concludes_finish hlisten
      exact .inr ⟨ending, [], acts, hconcludes⟩
    | notText | cut =>
      refine .inl ⟨r, .refl, ?_⟩
      rw [hlisten]
      trivial

end Whole

/-- A session before its first line. -/
def opened (files : Files) (console : Console) : Repl :=
  (⟨.new files console, "", 0⟩ : Repl).say banner

/-- **A session does what its lines ask for.** Whatever there is to read, the session goes on to its
end, unless it gets to a broken line or to a source whose run does not end. Going on to its end or
to such a source, it does exactly what the lines that it has taken in ask for, in their order, and
it leaves nothing in the buffer. What is in the buffer on the way is never made of blanks alone. -/
theorem session_asked (files : Files) (console : Console) :
    ((∃ there, (opened files console).Reaches there ∧ there.listen.1.Broken) ∨
      (∃ lines acts, Concludes .hung (opened files console) lines acts (session files console)) ∨
      ∃ lines acts, Concludes .closed (opened files console) lines acts (session files console)) ∧
    (∀ ending lines acts last, Concludes ending (opened files console) lines acts last →
      (∀ acts', Asks lines acts' ↔ acts' = acts) ∧ last.buffer = "") ∧
    ∀ there, (opened files console).Reaches there → there.buffer ≠ "" → ¬Blank there.buffer := by
  refine ⟨?_, fun ending lines acts last hconcludes => ?_, fun there hreaches => ?_⟩
  · rcases converse_concludes (r := opened files console) (Nat.lt_succ_self _) with
      hbroken | ⟨_ | _, hconcludes⟩
    · exact .inl hbroken
    · exact .inr (.inr hconcludes)
    · exact .inr (.inl hconcludes)
  · obtain ⟨hasks, hempty⟩ := hconcludes.asks pending_nil
    refine ⟨fun acts' => ⟨fun h => h.unique hasks, ?_⟩, hempty⟩
    rintro rfl
    exact hasks
  · obtain ⟨run, hpending⟩ := hreaches.pending pending_nil
    exact hpending.not_blank

end Repl

end BoxScript
