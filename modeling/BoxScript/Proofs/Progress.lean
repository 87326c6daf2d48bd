import BoxScript.Proofs.Cursor
import BoxScript.Proofs.Reading

/-!
# Progress of the parser

With enough fuel the parser with a position (`BoxScript.Cursor`) ends wherever it stands, and as the
parser of `BoxScript.Node.Parser` does on the tokens from there on. So each of its loops comes to an
end. Where it reads an expression or a statement, it has moved on by at least a token and not beyond
the last one, and where it fails it has stopped within the row. As in `BoxScript.Proofs.Reading` the
parsers are gone through one by one, each with the others taken for granted on fewer tokens, and the
induction on the number of tokens is done at the end.
-/

namespace BoxScript

variable {size : Nat} {minus : Node → Node} {tokens : Tokens} {α β γ : Type}

/-- What a parser has read, and what it left. -/
def Parsed.taken {ts : Tokens} (p : Parsed α ts) : α × Tokens := (p.value, p.rest)

/-- What a parser has read, and what it left. -/
def Passed.taken {ts : Tokens} (p : Passed α ts) : α × Tokens := (p.value, p.rest)

/-- With enough fuel the cursor ends, and it ends as the reading does: with the same error, or with
the same value before the same tokens. It does not go back, and not beyond the last token. -/
def Agrees (tokens : Tokens) (pos : Nat) (x : Nat → Cursor α)
    (y : Except SyntaxError (α × Tokens)) : Prop :=
  ∃ least stop, pos ≤ stop ∧ stop ≤ max pos tokens.length ∧
    (∀ fuel, least ≤ fuel → (x fuel).outcome pos = some (y.map Prod.fst, stop)) ∧
    ∀ p, y = .ok p → tokens.drop stop = p.2

section Agrees

variable {pos stop : Nat} {ts rest : Tokens} {x : Nat → Cursor α} {f : α → Nat → Cursor β}
  {y : Except SyntaxError (β × Tokens)}

theorem agrees_pure {a : α} (h : tokens.drop pos = rest) :
    Agrees tokens pos (fun _ => pure a) (.ok (a, rest)) := by
  refine ⟨0, pos, Nat.le_refl _, Nat.le_max_left .., fun _ _ => rfl, ?_⟩
  rintro _ ⟨⟩
  exact h

theorem agrees_throw (e : SyntaxError) :
    Agrees tokens pos (fun _ => throw e : Nat → Cursor α) (.error e) :=
  ⟨0, pos, Nat.le_refl _, Nat.le_max_left .., fun _ _ => rfl, nofun⟩

/-- A call takes one more piece of fuel than what it does. -/
theorem Agrees.deeper {y : Except SyntaxError (α × Tokens)}
    (h : Agrees tokens pos (fun fuel => x (fuel + 1)) y) : Agrees tokens pos x y := by
  obtain ⟨least, stop, hle, hin, hrun, hrest⟩ := h
  refine ⟨least + 1, stop, hle, hin, fun fuel hfuel => ?_, hrest⟩
  obtain _ | fuel := fuel
  · omega
  · exact hrun fuel (Nat.le_of_succ_le_succ hfuel)

/-- The cursor goes on behind what is answered with enough fuel. -/
theorem Agrees.enough {a : α} {least : Nat}
    (h : ∀ fuel, least ≤ fuel → (x fuel).outcome pos = some (.ok a, stop)) (hle : pos ≤ stop)
    (hin : stop ≤ max pos tokens.length) (hf : Agrees tokens stop (f a) y) :
    Agrees tokens pos (fun fuel => x fuel >>= fun a => f a fuel) y := by
  obtain ⟨least', last, hle', hin', hrun, hrest⟩ := hf
  refine ⟨max least least', last, by omega, by omega, fun fuel hfuel => ?_, hrest⟩
  exact (Metered.outcome_bind (h fuel (by omega))).trans (hrun fuel (by omega))

/-- A step of the cursor moves on before the rest agrees. -/
theorem Agrees.step {x : Cursor α} {a : α} (h : x.outcome pos = some (.ok a, stop))
    (hle : pos ≤ stop) (hin : stop ≤ max pos tokens.length) (hf : Agrees tokens stop (f a) y) :
    Agrees tokens pos (fun fuel => x >>= fun a => f a fuel) y :=
  Agrees.enough (fun fuel (_ : 0 ≤ fuel) => h) hle hin hf

/-- A step that leaves the position where it is. -/
theorem Agrees.look {x : Cursor α} {a : α} (h : x.outcome pos = some (.ok a, pos))
    (hf : Agrees tokens pos (f a) y) :
    Agrees tokens pos (fun fuel => x >>= fun a => f a fuel) y :=
  Agrees.step h (Nat.le_refl _) (Nat.le_max_left ..) hf

/-- What follows agrees if it does so wherever the first part stops. -/
theorem Agrees.bind {δ : Type} {read : γ → α × Tokens} {out : δ → β × Tokens}
    {z : Except SyntaxError γ} {g : γ → Except SyntaxError δ}
    (h : Agrees tokens pos x (z.map read))
    (hf : ∀ c stop, tokens.drop stop = (read c).2 →
      Agrees tokens stop (f (read c).1) ((g c).map out)) :
    Agrees tokens pos (fun fuel => x fuel >>= fun a => f a fuel) ((z >>= g).map out) := by
  obtain ⟨least, stop, hle, hin, hrun, hrest⟩ := h
  cases z with
  | error e =>
    exact ⟨least, stop, hle, hin, fun fuel h => Metered.outcome_bind_error (hrun fuel h), nofun⟩
  | ok c => exact Agrees.enough hrun hle hin (hf c stop (hrest _ rfl))

/-- The cursor goes on behind what is read without fail. -/
theorem Agrees.go {a : α} (h : Agrees tokens pos x (.ok (a, rest)))
    (hf : ∀ stop, tokens.drop stop = rest → Agrees tokens stop (f a) y) :
    Agrees tokens pos (fun fuel => x fuel >>= fun a => f a fuel) y := by
  obtain ⟨least, stop, hle, hin, hrun, hrest⟩ := h
  exact .enough hrun hle hin (hf stop (hrest _ rfl))

/-- The cursor goes on behind what has been read. -/
theorem Agrees.next {δ : Type} {out : δ → β × Tokens} {z : Reading α ts}
    {g : Parsed α ts → Except SyntaxError δ} (h : Agrees tokens pos x (z.map Parsed.taken))
    (hf : ∀ value rest (shorter : rest.length < ts.length) stop, tokens.drop stop = rest →
      Agrees tokens stop (f value) ((g ⟨value, rest, shorter⟩).map out)) :
    Agrees tokens pos (fun fuel => x fuel >>= fun a => f a fuel) ((z >>= g).map out) :=
  h.bind fun p stop hto => hf p.value p.rest p.shorter stop hto

theorem Agrees.pass {δ : Type} {out : δ → β × Tokens} {z : Passing α ts}
    {g : Passed α ts → Except SyntaxError δ} (h : Agrees tokens pos x (z.map Passed.taken))
    (hf : ∀ value rest (within : rest.length ≤ ts.length) stop, tokens.drop stop = rest →
      Agrees tokens stop (f value) ((g ⟨value, rest, within⟩).map out)) :
    Agrees tokens pos (fun fuel => x fuel >>= fun a => f a fuel) ((z >>= g).map out) :=
  h.bind fun p stop hto => hf p.value p.rest p.within stop hto

/-- The last thing that is read, with a proof that fits the whole. -/
theorem Agrees.last {δ : Type} {read : γ → α × Tokens} {out : δ → α × Tokens}
    {z : Except SyntaxError γ} {g : γ → Except SyntaxError δ}
    (h : Agrees tokens pos x (z.map read)) (hg : ∀ c, (g c).map out = .ok (read c)) :
    Agrees tokens pos x ((z >>= g).map out) := by
  cases z with
  | error e => exact h
  | ok c => exact (hg c).symm ▸ h

end Agrees

/-! ## Single tokens -/

section Tokens

variable {pos : Nat} {ts rest : Tokens} {front : Token × Span}
  {y : Except SyntaxError (β × Tokens)}

theorem getElem?_of_drop (h : tokens.drop pos = ts) (k : Nat) : tokens[pos + k]? = ts[k]? := by
  rw [← h, List.getElem?_drop]

theorem drop_of_cons (h : tokens.drop pos = front :: rest) : tokens.drop (pos + 1) = rest := by
  rw [← List.drop_drop, h]
  rfl

theorem lt_of_drop_cons (h : tokens.drop pos = front :: rest) : pos < tokens.length := by
  have hlength := congrArg List.length h
  rw [List.length_drop, List.length_cons] at hlength
  omega

@[simp] theorem peek_cons (t : Token) (span : Span) (rest : Tokens) :
    Tokens.peek ((t, span) :: rest) = some t := rfl

theorem peek_nil_ne (t : Token) : Tokens.peek [] ≠ some t := (Option.some_ne_none t).symm

theorem peek_cons_ne {t u : Token} {span : Span} (h : u ≠ t) :
    Tokens.peek ((u, span) :: rest) ≠ some t := fun hpeek => h (Option.some.inj hpeek)

theorem peek_ne {t : Token} (h : ∀ span rest, ts = (t, span) :: rest → False) :
    ts.peek ≠ some t := by
  rintro hpeek
  cases ts with
  | nil => cases hpeek
  | cons front rest =>
    cases hpeek
    exact h _ _ rfl

theorem outcome_ahead (h : tokens.drop pos = ts) (k : Nat) :
    (Cursor.ahead tokens k).outcome pos = some (.ok (ts[k]?.map (·.1)), pos) := by
  rw [← getElem?_of_drop h k]
  rfl

theorem outcome_peek (h : tokens.drop pos = ts) :
    (Cursor.peek tokens).outcome pos = some (.ok ts.peek, pos) := by
  rw [Cursor.peek, outcome_ahead h, Tokens.peek, List.head?_eq_getElem?]

theorem outcome_place (h : tokens.drop pos = ts) :
    (Cursor.place size tokens).outcome pos = some (.ok (ts.place size), pos) := by
  have hfront := getElem?_of_drop h 0
  rw [Nat.add_zero] at hfront
  rw [Cursor.place, Metered.outcome_bind (Metered.outcome_get pos), hfront]
  cases ts <;> rfl

/-- An unexpected token is the same error with the same place. -/
theorem agrees_unexpected (h : tokens.drop pos = ts) (wanted : Wanted) :
    Agrees tokens pos (fun _ => Cursor.unexpected size tokens wanted : Nat → Cursor α)
      (.error (Tokens.unexpected size ts wanted)) := by
  simp only [Cursor.unexpected]
  exact .look (outcome_peek h) (.look (outcome_place h) (agrees_throw _))

/-- Behind tokens that are there. -/
theorem Agrees.skips (k : Nat) {f : Unit → Nat → Cursor β} (h : tokens.drop pos = ts)
    (hk : k ≤ ts.length)
    (hf : tokens.drop (pos + k) = ts.drop k → Agrees tokens (pos + k) (f ()) y) :
    Agrees tokens pos (fun fuel => Cursor.skip k >>= fun u => f u fuel) y := by
  have hlength : tokens.length - pos = ts.length := by rw [← h, List.length_drop]
  have hrest : tokens.drop (pos + k) = ts.drop k := by rw [← List.drop_drop, h]
  refine .step (Metered.outcome_modify (· + k) pos) (Nat.le_add_right ..) ?_ (hf hrest)
  omega

theorem Agrees.skip {f : Unit → Nat → Cursor β} (h : tokens.drop pos = front :: rest)
    (hf : tokens.drop (pos + 1) = rest → Agrees tokens (pos + 1) (f ()) y) :
    Agrees tokens pos (fun fuel => Cursor.skip 1 >>= fun u => f u fuel) y :=
  .skips 1 h (Nat.le_add_left ..) hf

theorem outcome_eat {t : Token} {span : Span} (h : tokens.drop pos = (t, span) :: rest) :
    (Cursor.eat tokens t).outcome pos = some (.ok true, pos + 1) := by
  rw [Cursor.eat, Metered.outcome_bind (outcome_peek h)]
  exact if_pos rfl ▸ rfl

theorem Agrees.eaten {t : Token} {span : Span} {f : Bool → Nat → Cursor β}
    (h : tokens.drop pos = (t, span) :: rest)
    (hf : tokens.drop (pos + 1) = rest → Agrees tokens (pos + 1) (f true) y) :
    Agrees tokens pos (fun fuel => Cursor.eat tokens t >>= fun found => f found fuel) y := by
  have hlt := lt_of_drop_cons h
  exact .step (outcome_eat h) (Nat.le_succ _) (by omega) (hf (drop_of_cons h))

theorem Agrees.expected {t : Token} {span : Span} {f : Unit → Nat → Cursor β}
    (h : tokens.drop pos = (t, span) :: rest)
    (hf : tokens.drop (pos + 1) = rest → Agrees tokens (pos + 1) (f ()) y) :
    Agrees tokens pos (fun fuel => Cursor.expect size tokens t >>= fun u => f u fuel) y := by
  have hlt := lt_of_drop_cons h
  refine .step ?_ (Nat.le_succ _) (by omega) (hf (drop_of_cons h))
  rw [Cursor.expect, Metered.outcome_bind (outcome_eat h)]
  rfl

/-- One that is not there is not. -/
theorem Agrees.uneaten {t : Token} {f : Bool → Nat → Cursor β} (h : tokens.drop pos = ts)
    (ht : ts.peek ≠ some t) (hf : Agrees tokens pos (f false) y) :
    Agrees tokens pos (fun fuel => Cursor.eat tokens t >>= fun found => f found fuel) y := by
  refine .look (a := false) ?_ hf
  rw [Cursor.eat, Metered.outcome_bind (outcome_peek h), if_neg ht]
  rfl

/-- Take the token that is there. -/
theorem Agrees.advanced {t : Token} {span : Span} {f : Option Token → Nat → Cursor β}
    (h : tokens.drop pos = (t, span) :: rest)
    (hf : tokens.drop (pos + 1) = rest → Agrees tokens (pos + 1) (f (some t)) y) :
    Agrees tokens pos (fun fuel => Cursor.advance tokens >>= fun front => f front fuel) y := by
  have hlt := lt_of_drop_cons h
  refine .step ?_ (Nat.le_succ _) (by omega) (hf (drop_of_cons h))
  rw [Cursor.advance, Metered.outcome_bind (outcome_peek h)]
  rfl

/-- The token that is asked for is there. -/
theorem Agrees.found {t : Token} {span : Span} {a b : Nat → Cursor β}
    (h : tokens.drop pos = (t, span) :: rest) (ha : Agrees tokens pos a y) :
    Agrees tokens pos (fun fuel =>
      Cursor.peek tokens >>= fun front => if front = some t then a fuel else b fuel) y := by
  refine .look (outcome_peek h) ?_
  simp only [peek_cons, if_true]
  exact ha

theorem Agrees.missing {t : Token} {a b : Nat → Cursor β} (h : tokens.drop pos = ts)
    (ht : ts.peek ≠ some t) (hb : Agrees tokens pos b y) :
    Agrees tokens pos (fun fuel =>
      Cursor.peek tokens >>= fun front => if front = some t then a fuel else b fuel) y := by
  refine .look (outcome_peek h) ?_
  simp only [if_neg ht]
  exact hb

/-- A cursor eats what a parser accepts. -/
theorem Agrees.accepts {t : Token} {f : Bool → Nat → Cursor β} {found : Bool} {left : Tokens}
    {within : left.length ≤ ts.length} (h : tokens.drop pos = ts)
    (haccept : accept t ts = ⟨found, left, within⟩)
    (hf : ∀ stop, tokens.drop stop = left → Agrees tokens stop (f found) y) :
    Agrees tokens pos (fun fuel => Cursor.eat tokens t >>= fun found => f found fuel) y := by
  unfold accept at haccept
  split at haccept
  · split at haccept
    · next u span rest ht =>
      cases haccept
      exact .eaten (ht ▸ h) (hf _)
    · next u span rest ht =>
      cases haccept
      exact .uneaten h (peek_cons_ne ht) (hf pos h)
  · cases haccept
    exact .uneaten h (peek_nil_ne t) (hf pos h)

theorem expect_front (t : Token) (span : Span) (rest : Tokens) :
    expect size t ((t, span) :: rest) = .ok ⟨(), rest, Nat.lt_succ_self _⟩ := if_pos rfl

theorem agrees_expect (h : tokens.drop pos = ts) (t : Token) :
    Agrees tokens pos (fun _ => Cursor.expect size tokens t)
      ((expect size t ts).map Parsed.taken) := by
  simp only [Cursor.expect]
  unfold expect
  split
  · split
    · next u span rest ht => exact .eaten (ht ▸ h) agrees_pure
    · next u span rest ht => exact .uneaten h (peek_cons_ne ht) (agrees_unexpected h _)
  · exact .uneaten h (peek_nil_ne t) (agrees_unexpected h _)

theorem agrees_expectName (h : tokens.drop pos = ts) (wanted : Wanted) :
    Agrees tokens pos (fun _ => Cursor.expectName size tokens wanted)
      ((expectName size wanted ts).map Parsed.taken) := by
  simp only [Cursor.expectName]
  refine .look (outcome_peek h) ?_
  obtain _ | ⟨⟨t, span⟩, rest⟩ := ts
  · exact agrees_unexpected h wanted
  · cases t with
    | ident name => exact .skip h agrees_pure
    | _ => exact agrees_unexpected h wanted

/-! ## Parameters and modifiers -/

theorem agrees_paramNames (h : tokens.drop pos = ts) :
    Agrees tokens pos (Cursor.paramNames size tokens)
      ((paramNames size ts).map Parsed.taken) := by
  induction hn : ts.length using Nat.strongRecOn generalizing pos ts with
  | ind n ih =>
    subst hn
    refine .deeper ?_
    simp only [Cursor.paramNames]
    rw [paramNames]
    refine (agrees_expectName h .parameterName).next fun name rest h₁ pos h => ?_
    dsimp only
    rcases haccept : accept (.sign .comma) rest with ⟨goesOn, left, h₂⟩
    refine .accepts h haccept fun pos h => ?_
    cases goesOn with
    | true => exact (ih _ (by omega) h rfl).next fun names rest _ pos h => agrees_pure h
    | false => exact (agrees_expect h _).next fun _ rest _ pos h => agrees_pure h

theorem agrees_paramList (h : tokens.drop pos = ts) :
    Agrees tokens pos (Cursor.paramList size tokens) ((paramList size ts).map Parsed.taken) := by
  delta Cursor.paramList
  rw [paramList]
  refine (agrees_expect h _).next fun _ rest h₁ pos h => ?_
  dsimp only
  rcases haccept : accept (.sign .rParen) rest with ⟨closed, left, h₂⟩
  refine .accepts h haccept fun pos h => ?_
  cases closed with
  | true => exact agrees_pure h
  | false => exact (agrees_paramNames h).last fun _ => rfl

/-- Modifiers are taken as long as there are some. -/
theorem agrees_modifiers (h : tokens.drop pos = ts) (isConst isAbstract : Bool) :
    Agrees tokens pos (Cursor.modifiers tokens isConst isAbstract)
      (.ok (modifiers isConst isAbstract ts).taken) := by
  fun_induction modifiers isConst isAbstract ts generalizing pos with
  | case1 isConst isAbstract span rest flags left _ hmore ih =>
    refine .deeper ?_
    simp only [Cursor.modifiers]
    refine .eaten h fun h => ?_
    have := ih h
    rw [hmore] at this
    exact this
  | case2 isConst isAbstract span rest flags left _ hmore ih =>
    refine .deeper ?_
    simp only [Cursor.modifiers]
    refine .uneaten h (peek_cons_ne (by decide)) (.eaten h fun h => ?_)
    have := ih h
    rw [hmore] at this
    exact this
  | case3 isConst isAbstract ts hconst habstract =>
    refine .deeper ?_
    simp only [Cursor.modifiers]
    exact .uneaten h (peek_ne hconst) (.uneaten h (peek_ne habstract) (agrees_pure h))

theorem agrees_memberAccess (h : tokens.drop pos = ts) :
    Agrees tokens pos (fun _ => Cursor.memberAccess tokens) (.ok (memberAccess ts).taken) := by
  simp only [Cursor.memberAccess]
  unfold memberAccess
  split
  · exact .eaten h agrees_pure
  · exact .uneaten h (peek_cons_ne (by decide)) (.eaten h agrees_pure)
  · next hguarded hexposed =>
    exact .uneaten h (peek_ne hguarded) (.uneaten h (peek_ne hexposed) (agrees_pure h))

end Tokens

/-! ## Expressions -/

/-- The cursors and the parsers of expressions agree on fewer than `n` tokens. -/
structure ExprsAgree (size : Nat) (minus : Node → Node) (tokens : Tokens) (n : Nat) : Prop where
  expr : ∀ {pos ts}, tokens.drop pos = ts → ts.length < n →
    Agrees tokens pos (Cursor.expr size minus tokens) ((expr size minus ts).map Parsed.taken)
  tier : ∀ (t : Tier) {pos ts}, tokens.drop pos = ts → ts.length < n →
    Agrees tokens pos (Cursor.tier size minus tokens t) ((tier size minus t ts).map Parsed.taken)
  operators : ∀ (t : Tier) (left : Node) {pos ts}, tokens.drop pos = ts → ts.length < n →
    Agrees tokens pos (Cursor.operators size minus tokens t left)
      ((operators size minus t left ts).map Passed.taken)
  unary : ∀ {pos ts}, tokens.drop pos = ts → ts.length < n →
    Agrees tokens pos (Cursor.unary size minus tokens) ((unary size minus ts).map Parsed.taken)
  applied : ∀ (node : Node) {pos ts}, tokens.drop pos = ts → ts.length < n →
    Agrees tokens pos (Cursor.applied size minus tokens node)
      ((applied size minus node ts).map Passed.taken)
  items : ∀ (close : Sign) {pos ts}, tokens.drop pos = ts → ts.length < n →
    Agrees tokens pos (Cursor.items size minus tokens close)
      ((items size minus close ts).map Parsed.taken)
  moreItems : ∀ (close : Sign) {pos ts}, tokens.drop pos = ts → ts.length < n →
    Agrees tokens pos (Cursor.moreItems size minus tokens close)
      ((moreItems size minus close ts).map Parsed.taken)

section Step

variable {n pos : Nat} {ts : Tokens}

/-- Operators of a tier are taken as long as there are some. -/
theorem agrees_operators (B : ExprsAgree size minus tokens n) (h : tokens.drop pos = ts)
    (hn : ts.length ≤ n) (t : Tier) (left : Node) :
    Agrees tokens pos (Cursor.operators size minus tokens t left)
      ((operators size minus t left ts).map Passed.taken) := by
  refine .deeper ?_
  simp only [Cursor.operators]
  refine .look (outcome_peek h) ?_
  cases ts with
  | nil =>
    rw [operators]
    exact agrees_pure h
  | cons front rest =>
    obtain ⟨token, span⟩ := front
    rw [List.length_cons] at hn
    rw [operators]
    simp only [peek_cons, Option.bind_some]
    cases t.op? token with
    | none => exact agrees_pure h
    | some op =>
      refine .skip h fun h => ?_
      refine (B.tier t.tighter h (by omega)).next fun right rest h₁ pos h => ?_
      exact (B.operators t (.binary op left right) h (by omega)).last fun _ => rfl

/-- Arguments that may be there or not. -/
theorem Agrees.optionalArgs {γ : Type} {with_ : List Node → Nat → Cursor β}
    {without : Nat → Cursor β}
    {g : Passed (Option (List Node)) ts → Except SyntaxError γ} {out : γ → β × Tokens}
    (B : ExprsAgree size minus tokens n) (h : tokens.drop pos = ts) (hn : ts.length ≤ n)
    (hwith : ∀ args rest within pos, tokens.drop pos = rest →
      Agrees tokens pos (with_ args) ((g ⟨some args, rest, within⟩).map out))
    (hwithout : ∀ within, Agrees tokens pos without ((g ⟨none, ts, within⟩).map out)) :
    Agrees tokens pos
      (fun fuel => Cursor.peek tokens >>= fun front =>
        if front = some (.sign .lParen) then
          Cursor.arguments size minus tokens fuel >>= fun args => with_ args fuel
        else without fuel)
      ((optionalArgs size minus ts >>= g).map out) := by
  unfold BoxScript.optionalArgs
  split
  · next rest =>
    rw [List.length_cons] at hn
    have hargs : Agrees tokens pos (Cursor.arguments size minus tokens)
        ((items size minus .rParen rest).map Parsed.taken) := by
      refine .deeper ?_
      simp only [Cursor.arguments]
      exact .expected h fun h => B.items .rParen h (by omega)
    rw [bind_assoc]
    exact .found h (hargs.next fun args rest _ pos h => hwith args rest _ pos h)
  · next hother => exact .missing h (peek_ne hother) (hwithout _)

/-- What the parser makes of a node fails without a step, or is made without one. -/
theorem Agrees.made {γ δ : Type} {f : γ → Nat → Cursor β} {z : Except SyntaxError γ}
    {g : γ → Except SyntaxError δ} {out : δ → β × Tokens}
    (hf : ∀ c, Agrees tokens pos (f c) ((g c).map out)) :
    Agrees tokens pos (fun fuel => MonadExcept.ofExcept z >>= fun c => f c fuel)
      ((z >>= g).map out) := by
  cases z with
  | error e => exact ⟨0, pos, Nat.le_refl _, Nat.le_max_left .., fun _ _ => rfl, nofun⟩
  | ok c => exact .look rfl (hf c)

/-- Whatever can be applied is taken. -/
theorem agrees_applied (B : ExprsAgree size minus tokens n) (h : tokens.drop pos = ts)
    (hn : ts.length ≤ n) (node : Node) :
    Agrees tokens pos (Cursor.applied size minus tokens node)
      ((applied size minus node ts).map Passed.taken) := by
  refine .deeper ?_
  simp only [Cursor.applied]
  unfold applied
  split
  · -- an index
    rw [List.length_cons] at hn
    refine .eaten h fun h => ?_
    refine (B.expr h (by omega)).next fun position rest h₁ pos h => ?_
    refine (agrees_expect h _).next fun _ rest h₂ pos h => ?_
    exact (B.applied (.index node position) h (by omega)).last fun _ => rfl
  · -- an extension
    rw [List.length_cons] at hn
    refine .uneaten h (peek_cons_ne (by decide)) (.eaten h fun h => ?_)
    refine (agrees_expectName h _).next fun name rest h₁ pos h => ?_
    refine .optionalArgs B h (by omega) (fun args rest _ pos h => ?_) fun _ => ?_
    · exact (B.applied (.extension node name args) h (by omega)).last fun _ => rfl
    · exact (B.applied (.extension node name []) h (by omega)).last fun _ => rfl
  · next dot _ =>
    -- a field or a method
    rw [List.length_cons] at hn
    refine .uneaten h (peek_cons_ne (by decide)) (.uneaten h (peek_cons_ne (by decide)) ?_)
    refine .found h ?_
    refine .look (outcome_place h) (.expected h fun h => ?_)
    refine (agrees_expectName h _).next fun name rest h₁ pos h => ?_
    refine .optionalArgs B h (by omega) (fun args rest _ pos h => .made fun member => ?_)
      fun _ => .made fun member => ?_
    · exact (B.applied member h (by omega)).last fun _ => rfl
    · exact (B.applied member h (by omega)).last fun _ => rfl
  · next hbracket hcolon hdot =>
    refine .uneaten h (peek_ne hbracket) (.uneaten h (peek_ne hcolon) ?_)
    exact .missing h (peek_ne hdot) (agrees_pure h)

theorem agrees_inParens (B : ExprsAgree size minus tokens n) (h : tokens.drop pos = ts)
    (hn : ts.length ≤ n) :
    Agrees tokens pos (Cursor.inParens size minus tokens)
      ((inParens size minus ts).map Parsed.taken) := by
  refine .deeper ?_
  simp only [Cursor.inParens]
  rw [inParens]
  refine (agrees_expect h _).next fun _ rest h₁ pos h => ?_
  refine (B.expr h (by omega)).next fun node rest h₂ pos h => ?_
  exact (agrees_expect h _).next fun _ rest _ pos h => agrees_pure h

/-- A primary is taken. -/
theorem agrees_primary (B : ExprsAgree size minus tokens n) (h : tokens.drop pos = ts)
    (hn : ts.length ≤ n) :
    Agrees tokens pos (Cursor.primary size minus tokens)
      ((primary size minus ts).map Parsed.taken) := by
  refine .deeper ?_
  simp only [Cursor.primary]
  refine .look (outcome_place h) ?_
  unfold primary
  split
  · exact .advanced h agrees_pure
  · exact .advanced h agrees_pure
  · rw [List.length_cons] at hn
    refine .advanced h fun h => ?_
    exact .optionalArgs B h (by omega) (fun args rest _ pos h => agrees_pure h)
      fun _ => agrees_pure h
  · rw [List.length_cons] at hn
    refine .advanced h fun h => ?_
    refine (B.expr h (by omega)).next fun node rest h₁ pos h => ?_
    exact (agrees_expect h _).next fun _ rest _ pos h => agrees_pure h
  · rw [List.length_cons] at hn
    refine .advanced h fun h => ?_
    exact (B.items .rBracket h (by omega)).next fun _ rest _ pos h => agrees_pure h
  · refine .advanced h fun h => ?_
    exact (agrees_expectName h _).next fun _ rest _ pos h => agrees_pure h
  · exact .advanced h agrees_pure
  · rw [List.length_cons] at hn
    refine .advanced h fun h => ?_
    exact (agrees_inParens B h (by omega)).next fun _ rest _ pos h => agrees_pure h
  · rw [List.length_cons] at hn
    refine .advanced h fun h => ?_
    exact (agrees_inParens B h (by omega)).next fun _ rest _ pos h => agrees_pure h
  · rw [List.length_cons] at hn
    refine .advanced h fun h => ?_
    exact (agrees_inParens B h (by omega)).next fun _ rest _ pos h => agrees_pure h
  · next hint hstr hident hopen hbracket hcreate hinput hlines htext hexists =>
    -- no expression begins with this token
    obtain _ | ⟨⟨t, span⟩, rest⟩ := ts
    · refine .look (a := none) ?_ (agrees_unexpected h _)
      simp only [Cursor.advance]
      rw [Metered.outcome_bind (outcome_peek h)]
      rfl
    · refine .advanced h fun h => ?_
      cases t with
      | int n => exact (hint n span rest rfl).elim
      | str s => exact (hstr s span rest rfl).elim
      | ident name => exact (hident name span rest rfl).elim
      | sign s =>
        cases s with
        | lParen => exact (hopen span rest rfl).elim
        | lBracket => exact (hbracket span rest rfl).elim
        | _ => exact agrees_throw _
      | keyword k =>
        cases k with
        | create => exact (hcreate span rest rfl).elim
        | input => exact (hinput span rest rfl).elim
        | readFile => exact (hlines span rest rfl).elim
        | readWholeFile => exact (htext span rest rfl).elim
        | fileExists => exact (hexists span rest rfl).elim
        | _ => exact agrees_throw _

theorem agrees_unary (B : ExprsAgree size minus tokens n) (h : tokens.drop pos = ts)
    (hn : ts.length ≤ n) :
    Agrees tokens pos (Cursor.unary size minus tokens)
      ((unary size minus ts).map Parsed.taken) := by
  refine .deeper ?_
  simp only [Cursor.unary]
  unfold unary
  split
  · rw [List.length_cons] at hn
    refine .eaten h fun h => ?_
    exact (B.unary h (by omega)).next fun _ rest _ pos h => agrees_pure h
  · next hminus =>
    rw [postfixed]
    refine .uneaten h (peek_ne hminus) ?_
    refine (agrees_primary B h hn).next fun node rest h₁ pos h => ?_
    exact (B.applied node h (by omega)).last fun _ => rfl

/-- Operands of a tier are taken with the operators of the tier. -/
theorem agrees_tier (B : ExprsAgree size minus tokens n) (h : tokens.drop pos = ts)
    (hn : ts.length ≤ n) (t : Tier) :
    Agrees tokens pos (Cursor.tier size minus tokens t)
      ((tier size minus t ts).map Parsed.taken) := by
  -- from the tightest tier to the loosest
  have loosen : ∀ {t : Tier}, t ≠ .unary →
      Agrees tokens pos (Cursor.tier size minus tokens t.tighter)
        ((tier size minus t.tighter ts).map Parsed.taken) →
      Agrees tokens pos (Cursor.tier size minus tokens t)
        ((tier size minus t ts).map Parsed.taken) := by
    intro t ht htighter
    refine .deeper ?_
    simp only [Cursor.tier, if_neg ht]
    rw [tier, dif_neg ht]
    refine htighter.next fun left rest h₁ pos h => ?_
    exact (B.operators t left h (by omega)).last fun _ => rfl
  have hunary : Agrees tokens pos (Cursor.tier size minus tokens .unary)
      ((tier size minus .unary ts).map Parsed.taken) := by
    refine .deeper ?_
    simp only [Cursor.tier, if_true]
    rw [tier, dif_pos rfl]
    exact agrees_unary B h hn
  have hproduct := loosen (t := .product) (by decide) hunary
  have hsum := loosen (t := .sum) (by decide) hproduct
  have hcomparison := loosen (t := .comparison) (by decide) hsum
  cases t with
  | unary => exact hunary
  | product => exact hproduct
  | sum => exact hsum
  | comparison => exact hcomparison
  | logic => exact loosen (t := .logic) (by decide) hcomparison

/-- An expression is one of the loosest tier. -/
theorem agrees_anyTier (B : ExprsAgree size minus tokens n) (h : tokens.drop pos = ts)
    (hn : ts.length ≤ n) :
    Agrees tokens pos (Cursor.expr size minus tokens) ((expr size minus ts).map Parsed.taken) := by
  refine .deeper ?_
  simp only [Cursor.expr]
  rw [expr]
  exact agrees_tier B h hn .logic

theorem agrees_moreItems (B : ExprsAgree size minus tokens n) (h : tokens.drop pos = ts)
    (hn : ts.length ≤ n) (close : Sign) :
    Agrees tokens pos (Cursor.moreItems size minus tokens close)
      ((moreItems size minus close ts).map Parsed.taken) := by
  refine .deeper ?_
  simp only [Cursor.moreItems]
  rw [moreItems]
  refine (agrees_anyTier B h hn).next fun item rest h₁ pos h => ?_
  dsimp only
  rcases haccept : accept (.sign .comma) rest with ⟨goesOn, left, h₂⟩
  refine .accepts h haccept fun pos h => ?_
  cases goesOn with
  | true => exact (B.moreItems close h (by omega)).next fun _ rest _ pos h => agrees_pure h
  | false => exact (agrees_expect h _).next fun _ rest _ pos h => agrees_pure h

theorem agrees_items (B : ExprsAgree size minus tokens n) (h : tokens.drop pos = ts)
    (hn : ts.length ≤ n) (close : Sign) :
    Agrees tokens pos (Cursor.items size minus tokens close)
      ((items size minus close ts).map Parsed.taken) := by
  refine .deeper ?_
  simp only [Cursor.items]
  unfold items
  split
  · next hpeek =>
    obtain _ | ⟨⟨t, span⟩, rest⟩ := ts
    · cases hpeek
    · cases hpeek
      refine .eaten h fun h => ?_
      rw [expect_front]
      exact agrees_pure h
  · next hpeek => exact .uneaten h hpeek (agrees_moreItems B h hn close)

end Step

/-- Cursor and parser agree on expressions, by the number of the tokens that are left. -/
theorem exprsAgree (n : Nat) : ExprsAgree size minus tokens n := by
  induction n with
  | zero => constructor <;> · intros; omega
  | succ n ih =>
    exact
      { expr := fun h hn => agrees_anyTier ih h (Nat.le_of_lt_succ hn)
        tier := fun t _ _ h hn => agrees_tier ih h (Nat.le_of_lt_succ hn) t
        operators := fun t left _ _ h hn => agrees_operators ih h (Nat.le_of_lt_succ hn) t left
        unary := fun h hn => agrees_unary ih h (Nat.le_of_lt_succ hn)
        applied := fun node _ _ h hn => agrees_applied ih h (Nat.le_of_lt_succ hn) node
        items := fun close _ _ h hn => agrees_items ih h (Nat.le_of_lt_succ hn) close
        moreItems := fun close _ _ h hn => agrees_moreItems ih h (Nat.le_of_lt_succ hn) close }

theorem agrees_expr {pos : Nat} {ts : Tokens} (h : tokens.drop pos = ts) :
    Agrees tokens pos (Cursor.expr size minus tokens) ((expr size minus ts).map Parsed.taken) :=
  (exprsAgree (ts.length + 1)).expr h (Nat.lt_succ_self _)

/-! ## Statements -/

/-- The cursors and the parsers of statements agree on fewer than `n` tokens. -/
structure StatementsAgree (size : Nat) (minus : Node → Node) (tokens : Tokens) (n : Nat) :
    Prop where
  statement : ∀ {pos ts}, tokens.drop pos = ts → ts.length < n →
    Agrees tokens pos (Cursor.statement size minus tokens)
      ((statement size minus ts).map Parsed.taken)
  block : ∀ (elseToo : Bool) {pos ts}, tokens.drop pos = ts → ts.length < n →
    Agrees tokens pos (Cursor.block size minus tokens elseToo)
      ((block size minus elseToo ts).map Passed.taken)
  routine : ∀ {pos ts}, tokens.drop pos = ts → ts.length < n →
    Agrees tokens pos (Cursor.routine size minus tokens)
      ((routine size minus ts).map Parsed.taken)
  routineBody : ∀ {pos ts}, tokens.drop pos = ts → ts.length < n →
    Agrees tokens pos (Cursor.routineBody size minus tokens)
      ((routineBody size minus ts).map Parsed.taken)
  members : ∀ {pos ts}, tokens.drop pos = ts → ts.length < n →
    Agrees tokens pos (Cursor.members size minus tokens)
      ((members size minus ts).map Parsed.taken)

section Step

variable {n pos : Nat} {ts : Tokens}

theorem agrees_routine (B : StatementsAgree size minus tokens n) (h : tokens.drop pos = ts)
    (hn : ts.length ≤ n) :
    Agrees tokens pos (Cursor.routine size minus tokens)
      ((routine size minus ts).map Parsed.taken) := by
  refine .deeper ?_
  simp only [Cursor.routine]
  rw [routine]
  refine (agrees_expectName h _).next fun name rest h₁ pos h => ?_
  refine (agrees_paramList h).next fun params rest h₂ pos h => ?_
  exact (B.routineBody h (by omega)).next fun _ rest _ pos h => agrees_pure h

/-- Members are taken up to the end of their box. -/
theorem agrees_members (B : StatementsAgree size minus tokens n) (h : tokens.drop pos = ts)
    (hn : ts.length ≤ n) :
    Agrees tokens pos (Cursor.members size minus tokens)
      ((members size minus ts).map Parsed.taken) := by
  refine .deeper ?_
  simp only [Cursor.members]
  unfold members
  split
  · next hpeek =>
    obtain _ | ⟨⟨t, span⟩, rest⟩ := ts
    · cases hpeek
    · cases hpeek
      refine .eaten h fun h => ?_
      rw [expect_front]
      exact agrees_pure h
  · next hpeek =>
    refine .uneaten h hpeek ?_
    dsimp only [pure_bind]
    rcases haccess : memberAccess ts with ⟨access, rest, h₁⟩
    have hmember := agrees_memberAccess h
    rw [haccess] at hmember
    refine hmember.go fun pos h => ?_
    dsimp only
    rcases habstract : accept (.keyword .abstract) rest with ⟨isAbstract, rest, h₂⟩
    refine .accepts h habstract fun pos h => ?_
    dsimp only
    rcases hfunction : accept (.keyword .function) rest with ⟨isFunction, rest, h₃⟩
    refine .accepts h hfunction fun pos h => ?_
    cases isFunction with
    | true =>
      cases isAbstract with
      | true =>
        simp only [if_true, Bool.and_self]
        simp only [Cursor.prototype, bind_assoc]
        refine (agrees_expectName h _).next fun name rest h₄ pos h => ?_
        refine (agrees_paramList h).next fun params rest h₅ pos h => ?_
        exact (B.members h (by omega)).next fun _ rest _ pos h => agrees_pure h
      | false =>
        refine (agrees_routine B h (by omega)).next fun routine rest h₄ pos h => ?_
        exact (B.members h (by omega)).next fun _ rest _ pos h => agrees_pure h
    | false =>
      cases isAbstract with
      | true => exact .look (outcome_place h) (agrees_throw _)
      | false =>
        refine (agrees_expectName h _).next fun name rest h₄ pos h => ?_
        refine (agrees_expect h _).next fun _ rest h₅ pos h => ?_
        refine (agrees_expr h).next fun init rest h₆ pos h => ?_
        exact (B.members h (by omega)).next fun _ rest _ pos h => agrees_pure h

theorem agrees_boxDeclaration (B : StatementsAgree size minus tokens n)
    (h : tokens.drop pos = ts) (hn : ts.length ≤ n) :
    Agrees tokens pos (Cursor.boxDeclaration size minus tokens)
      ((boxDeclaration size minus ts).map Parsed.taken) := by
  refine .deeper ?_
  simp only [Cursor.boxDeclaration]
  rw [boxDeclaration]
  have hmodifiers := agrees_modifiers h false false
  rcases hflags : modifiers false false ts with ⟨⟨isConst, isAbstract⟩, rest, h₁⟩
  rw [hflags] at hmodifiers
  refine hmodifiers.go fun pos h => ?_
  dsimp only
  refine (agrees_expect h _).next fun _ rest h₂ pos h => ?_
  dsimp only at h₂
  refine (agrees_expectName h _).next fun name rest h₃ pos h => ?_
  dsimp only
  rcases haccept : accept (.sign .colon) rest with ⟨based, rest, h₄⟩
  refine .accepts h haccept fun pos h => ?_
  cases based with
  | true =>
    refine (agrees_expectName h _).next fun base rest h₅ pos h => ?_
    exact (B.members h (by omega)).next fun _ rest _ pos h => agrees_pure h
  | false => exact (B.members h (by omega)).next fun _ rest _ pos h => agrees_pure h

theorem agrees_extension {span : Span} {rest : Tokens}
    (h : tokens.drop pos = (.keyword .extension, span) :: rest) :
    Agrees tokens pos (Cursor.extension size minus tokens)
      ((statement size minus ((.keyword .extension, span) :: rest)).map Parsed.taken) := by
  delta Cursor.extension
  rw [statement]
  refine .expected h fun h => ?_
  refine (agrees_expect h _).next fun _ rest _ pos h => ?_
  refine (agrees_expr h).next fun kind rest _ pos h => ?_
  refine (agrees_expect h _).next fun _ rest _ pos h => ?_
  refine (agrees_expr h).next fun box rest _ pos h => ?_
  refine (agrees_expect h _).next fun _ rest _ pos h => ?_
  refine (agrees_expr h).next fun function rest _ pos h => ?_
  refine (agrees_expect h _).next fun _ rest _ pos h => ?_
  refine (agrees_expr h).next fun arity rest _ pos h => ?_
  exact (agrees_expect h _).next fun _ rest _ pos h => agrees_pure h

theorem agrees_branch {span : Span} {rest : Tokens} (B : StatementsAgree size minus tokens n)
    (h : tokens.drop pos = (.keyword .ifThen, span) :: rest) (hn : rest.length < n) :
    Agrees tokens pos (Cursor.branch size minus tokens)
      ((statement size minus ((.keyword .ifThen, span) :: rest)).map Parsed.taken) := by
  refine .deeper ?_
  simp only [Cursor.branch]
  rw [statement]
  refine .expected h fun h => ?_
  refine (agrees_expr h).next fun condition rest h₁ pos h => ?_
  refine (B.block true h (by omega)).pass fun yes rest h₂ pos h => ?_
  dsimp only
  rcases haccept : accept (.keyword .otherwise) rest with ⟨hasElse, left, h₃⟩
  refine .accepts h haccept fun pos h => ?_
  cases hasElse with
  | true =>
    refine (B.block false h (by omega)).pass fun no rest h₄ pos h => ?_
    exact (agrees_expect h _).next fun _ rest _ pos h => agrees_pure h
  | false => exact (agrees_expect h _).next fun _ rest _ pos h => agrees_pure h

theorem agrees_counted {span : Span} {rest : Tokens} (B : StatementsAgree size minus tokens n)
    (h : tokens.drop pos = (.keyword .forDo, span) :: rest) (hn : rest.length < n) :
    Agrees tokens pos (Cursor.counted size minus tokens)
      ((statement size minus ((.keyword .forDo, span) :: rest)).map Parsed.taken) := by
  refine .deeper ?_
  simp only [Cursor.counted]
  rw [statement]
  refine .expected h fun h => ?_
  refine (B.statement h (by omega)).next fun init rest h₁ pos h => ?_
  refine (agrees_expect h _).next fun _ rest h₂ pos h => ?_
  refine (agrees_expr h).next fun condition rest h₃ pos h => ?_
  refine (agrees_expect h _).next fun _ rest h₄ pos h => ?_
  refine (B.statement h (by omega)).next fun increment rest h₅ pos h => ?_
  refine (B.block false h (by omega)).pass fun body rest h₆ pos h => ?_
  exact (agrees_expect h _).next fun _ rest _ pos h => agrees_pure h

/-- A statement that begins with a keyword. -/
theorem agrees_keyword {k : Keyword} {span : Span} {rest : Tokens}
    (B : StatementsAgree size minus tokens n) (h : tokens.drop pos = (.keyword k, span) :: rest)
    (hn : rest.length < n) :
    Agrees tokens pos (Cursor.statement size minus tokens)
      ((statement size minus ((.keyword k, span) :: rest)).map Parsed.taken) := by
  refine .deeper ?_
  simp only [Cursor.statement]
  refine .look (outcome_peek h) ?_
  -- the keyword settles the statement; those that begin none are left to the expressions
  cases k with
  | function =>
    rw [statement]
    refine .skip h fun h => ?_
    exact (B.routine h hn).next fun _ rest _ pos h => agrees_pure h
  | giveBack =>
    refine .skip h fun h => ?_
    by_cases hvoid : rest.peek = some (.keyword .void)
    · obtain _ | ⟨⟨t, s⟩, others⟩ := rest
      · cases hvoid
      · cases hvoid
        rw [statement]
        exact .eaten h agrees_pure
    · rw [statement]
      · exact .uneaten h hvoid ((agrees_expr h).next fun _ rest _ pos h => agrees_pure h)
      · rintro _ _ rfl
        exact hvoid rfl
  | print | printInline | raise | importScript =>
    rw [statement]
    exact .skip h fun h => (agrees_expr h).next fun _ rest _ pos h => agrees_pure h
  | ifThen => exact agrees_branch B h hn
  | whileDo =>
    rw [statement]
    refine .skip h fun h => ?_
    refine (agrees_expr h).next fun condition rest h₁ pos h => ?_
    refine (B.block false h (by omega)).pass fun body rest h₂ pos h => ?_
    exact (agrees_expect h _).next fun _ rest _ pos h => agrees_pure h
  | forDo => exact agrees_counted B h hn
  | extension => exact agrees_extension h
  | const | abstract | refbox =>
    rw [statement]
    exact agrees_boxDeclaration B h hn
  | _ =>
    rw [statement.eq_def]
    exact agrees_expr h

/-- A statement that begins with a name. -/
theorem agrees_named {name : String} {span : Span} {rest : Tokens}
    (h : tokens.drop pos = (.ident name, span) :: rest) :
    Agrees tokens pos (Cursor.statement size minus tokens)
      ((statement size minus ((.ident name, span) :: rest)).map Parsed.taken) := by
  refine .deeper ?_
  simp only [Cursor.statement]
  refine .look (outcome_peek h) (.look (outcome_ahead h 1) (.look (outcome_ahead h 2)
    (.look (outcome_ahead h 3) ?_)))
  split
  · next hassign =>
    obtain _ | ⟨⟨t, s⟩, rest⟩ := rest
    · cases hassign
    · cases hassign
      rw [statement]
      refine .skips 2 h (Nat.le_add_left ..) fun h => ?_
      exact (agrees_expr h).next fun _ rest _ pos h => agrees_pure h
  · next field hdot hname heq =>
    obtain _ | ⟨⟨t, s⟩, _ | ⟨⟨t', s'⟩, _ | ⟨⟨t'', s''⟩, rest⟩⟩⟩ := rest
    · cases hdot
    · cases hname
    · cases heq
    · cases hdot
      cases hname
      cases heq
      rw [statement]
      refine .skips 4 h (Nat.le_add_left ..) fun h => ?_
      exact (agrees_expr h).next fun _ rest _ pos h => agrees_pure h
  · next hassign hfield =>
    have hexpr : statement size minus ((.ident name, span) :: rest) =
        expr size minus ((.ident name, span) :: rest) := by
      -- of the other forms of a statement only an assignment begins with a name
      rw [statement] <;> intros <;> injections <;> subst_vars
      · exact hassign rfl
      · exact hfield _ rfl rfl rfl
    rw [hexpr]
    exact agrees_expr h

theorem agrees_statement (B : StatementsAgree size minus tokens n) (h : tokens.drop pos = ts)
    (hn : ts.length ≤ n) :
    Agrees tokens pos (Cursor.statement size minus tokens)
      ((statement size minus ts).map Parsed.taken) := by
  obtain _ | ⟨⟨t, span⟩, rest⟩ := ts
  · refine .deeper ?_
    simp only [Cursor.statement]
    rw [statement]
    exact .look (outcome_peek h) (agrees_unexpected h _)
  · cases t with
    | keyword k => exact agrees_keyword B h hn
    | ident name => exact agrees_named h
    | _ =>
      refine .deeper ?_
      simp only [Cursor.statement]
      rw [statement.eq_def]
      exact .look (outcome_peek h) (agrees_expr h)

theorem agrees_block (B : StatementsAgree size minus tokens n) (h : tokens.drop pos = ts)
    (hn : ts.length ≤ n) (elseToo : Bool) :
    Agrees tokens pos (Cursor.block size minus tokens elseToo)
      ((block size minus elseToo ts).map Passed.taken) := by
  refine .deeper ?_
  simp only [Cursor.block]
  refine .look (outcome_peek h) ?_
  cases ts with
  | nil =>
    rw [block]
    exact agrees_unexpected h _
  | cons front others =>
    obtain ⟨token, span⟩ := front
    rw [block]
    simp only [peek_cons]
    split
    · exact agrees_pure h
    · refine (agrees_statement B h hn).next fun first rest h₁ pos h => ?_
      exact (B.block elseToo h (by omega)).pass fun _ rest _ pos h => agrees_pure h

theorem agrees_routineBody (B : StatementsAgree size minus tokens n) (h : tokens.drop pos = ts)
    (hn : ts.length ≤ n) :
    Agrees tokens pos (Cursor.routineBody size minus tokens)
      ((routineBody size minus ts).map Parsed.taken) := by
  refine .deeper ?_
  simp only [Cursor.routineBody]
  unfold routineBody
  split
  · exact .uneaten h (peek_nil_ne _) (.look (outcome_peek h) (agrees_unexpected h _))
  · exact .eaten h agrees_pure
  · next hnil hend =>
    refine .uneaten h (peek_ne hend) (.look (outcome_peek h) ?_)
    obtain _ | ⟨front, others⟩ := ts
    · exact (hnil rfl).elim
    · refine (agrees_statement B h hn).next fun first rest h₁ pos h => ?_
      cases first with
      | giveBack value => exact agrees_pure h
      | _ => exact (B.routineBody h (by omega)).next fun _ rest _ pos h => agrees_pure h

end Step

/-- Cursor and parser agree on statements, by the number of the tokens that are left. -/
theorem statementsAgree (n : Nat) : StatementsAgree size minus tokens n := by
  induction n with
  | zero => constructor <;> · intros; omega
  | succ n ih =>
    exact
      { statement := fun h hn => agrees_statement ih h (Nat.le_of_lt_succ hn)
        block := fun elseToo _ _ h hn => agrees_block ih h (Nat.le_of_lt_succ hn) elseToo
        routine := fun h hn => agrees_routine ih h (Nat.le_of_lt_succ hn)
        routineBody := fun h hn => agrees_routineBody ih h (Nat.le_of_lt_succ hn)
        members := fun h hn => agrees_members ih h (Nat.le_of_lt_succ hn) }

theorem agrees_program {pos : Nat} {ts : Tokens} (h : tokens.drop pos = ts) :
    Agrees tokens pos (Cursor.program size minus tokens)
      ((statements size minus ts).map fun program => (program, [])) := by
  induction hn : ts.length using Nat.strongRecOn generalizing pos ts with
  | ind n ih =>
    subst hn
    refine .deeper ?_
    simp only [Cursor.program]
    refine .look (outcome_peek h) ?_
    cases ts with
    | nil =>
      rw [statements]
      exact agrees_pure h
    | cons front others =>
      rw [statements]
      have hfirst : Agrees tokens pos (Cursor.statement size minus tokens)
          ((statement size minus (front :: others)).map Parsed.taken) :=
        (statementsAgree _).statement h (Nat.lt_succ_self _)
      refine hfirst.next fun first rest h₁ pos h => ?_
      exact (ih _ h₁ h rfl).bind fun further pos h => agrees_pure h

/-! ## Progress -/

/-- How a call of the cursor ends with enough fuel, and what the parser says on the tokens from the
position on. It has read something, and has moved on, not beyond the last token; or it has failed,
and has stopped within the row if it was there. -/
inductive Advances (tokens : Tokens) (pos : Nat) (x : Nat → Cursor α)
    (y : Reading α (tokens.drop pos)) : Prop
  | reads {value : α} {least stop : Nat}
    (run : ∀ fuel, least ≤ fuel → (x fuel).outcome pos = some (.ok value, stop))
    (onward : pos < stop) (within : stop ≤ tokens.length)
    (shorter : (tokens.drop stop).length < (tokens.drop pos).length)
    (parsed : y = .ok ⟨value, tokens.drop stop, shorter⟩)
  | fails {e : SyntaxError} {least stop : Nat}
    (run : ∀ fuel, least ≤ fuel → (x fuel).outcome pos = some (.error e, stop))
    (onward : pos ≤ stop) (within : stop ≤ max pos tokens.length) (parsed : y = .error e)

/-- Where both agree, the cursor has moved on by what the parser has taken. -/
theorem Agrees.advances {pos : Nat} {x : Nat → Cursor α} {y : Reading α (tokens.drop pos)}
    (h : Agrees tokens pos x (y.map Parsed.taken)) : Advances tokens pos x y := by
  obtain ⟨least, stop, hle, hin, hrun, hrest⟩ := h
  cases y with
  | error e => exact .fails hrun hle hin rfl
  | ok p =>
    obtain ⟨value, rest, shorter⟩ := p
    obtain rfl : tokens.drop stop = rest := hrest _ rfl
    have hlength := shorter
    rw [List.length_drop, List.length_drop] at hlength
    exact .reads hrun (by omega) (by omega) shorter rfl

/-- The loops of the parser end at the position, as the parser does on the tokens from there on. -/
structure LoopsEnd (size : Nat) (minus : Node → Node) (tokens : Tokens) (pos : Nat) : Prop where
  program : Agrees tokens pos (Cursor.program size minus tokens)
    ((statements size minus (tokens.drop pos)).map fun program => (program, []))
  block : ∀ elseToo, Agrees tokens pos (Cursor.block size minus tokens elseToo)
    ((block size minus elseToo (tokens.drop pos)).map Passed.taken)
  routineBody : Agrees tokens pos (Cursor.routineBody size minus tokens)
    ((routineBody size minus (tokens.drop pos)).map Parsed.taken)
  members : Agrees tokens pos (Cursor.members size minus tokens)
    ((members size minus (tokens.drop pos)).map Parsed.taken)
  modifiers : ∀ isConst isAbstract, Agrees tokens pos (Cursor.modifiers tokens isConst isAbstract)
    (.ok (modifiers isConst isAbstract (tokens.drop pos)).taken)
  paramNames : Agrees tokens pos (Cursor.paramNames size tokens)
    ((paramNames size (tokens.drop pos)).map Parsed.taken)
  moreItems : ∀ close, Agrees tokens pos (Cursor.moreItems size minus tokens close)
    ((moreItems size minus close (tokens.drop pos)).map Parsed.taken)
  operators : ∀ t left, Agrees tokens pos (Cursor.operators size minus tokens t left)
    ((operators size minus t left (tokens.drop pos)).map Passed.taken)
  unary : Agrees tokens pos (Cursor.unary size minus tokens)
    ((unary size minus (tokens.drop pos)).map Parsed.taken)
  applied : ∀ node, Agrees tokens pos (Cursor.applied size minus tokens node)
    ((applied size minus node (tokens.drop pos)).map Passed.taken)

/-- **The parser makes progress.** Whatever the tokens are, and wherever it stands: a statement or
an expression that is read takes at least one token and none beyond the last, a call that fails
stops within the row, and with enough fuel all loops end. What is read, and which error there is, is
what the parser of the language says on the tokens from the position on. -/
theorem parser_progresses (size : Nat) (minus : Node → Node) (tokens : Tokens) (pos : Nat) :
    Advances tokens pos (Cursor.statement size minus tokens)
      (statement size minus (tokens.drop pos)) ∧
    Advances tokens pos (Cursor.expr size minus tokens) (expr size minus (tokens.drop pos)) ∧
    LoopsEnd size minus tokens pos := by
  have hexprs : ExprsAgree size minus tokens ((tokens.drop pos).length + 1) := exprsAgree _
  have hstatements : StatementsAgree size minus tokens ((tokens.drop pos).length + 1) :=
    statementsAgree _
  have hlt := Nat.lt_succ_self (tokens.drop pos).length
  exact
    ⟨(hstatements.statement rfl hlt).advances, (hexprs.expr rfl hlt).advances,
      { program := agrees_program rfl
        block := fun elseToo => hstatements.block elseToo rfl hlt
        routineBody := hstatements.routineBody rfl hlt
        members := hstatements.members rfl hlt
        modifiers := agrees_modifiers rfl
        paramNames := agrees_paramNames rfl
        moreItems := fun close => hexprs.moreItems close rfl hlt
        operators := fun t left => hexprs.operators t left rfl hlt
        unary := hexprs.unary rfl hlt
        applied := fun node => hexprs.applied node rfl hlt }⟩

end BoxScript
