import Offside.Parser.Statement
import Offside.Proofs.Parser.Print

/-!
# Running a parser on known tokens

`Parser.Takes fits p kinds follow q` says how `p` runs on tokens of the given kinds, whatever their
places in the source: it takes them off and goes on as `q`. What stands behind them is only known
by the kind of its first token, which `follow` allows. There may be too little room for that; then
`p` fails because the nesting is too deep, and this must not happen if `fits`.

Such facts are put together along the text of a parser: `Takes.seq` for a parser that reads a part,
and for single tokens `Takes.look`, which decides a question about the next token, and
`Takes.advance`, `Takes.expect` and the like, which take it off.
-/

namespace Offside

namespace Parser

variable {α β : Type}

/-- The result is the fault that there is no room left. -/
def IsTooDeep (result : EStateM.Result GrammarFault (List Token) α) : Prop :=
  ∃ span rest, result = .error (.nestingTooDeep nestingLimit span) rest

/-- On tokens of these kinds, the parser takes them off and goes on as `q`, or fails for lack of
room. -/
def Takes (fits : Prop) (p : Parser α) (kinds : List Token.Kind)
    (follow : Option Token.Kind → Prop) (q : Parser α) : Prop :=
  ∀ tokens rest, tokens.map Token.kind = kinds → follow (rest.head?.map Token.kind) →
    p (tokens ++ rest) = q rest ∨ ¬ fits ∧ IsTooDeep (p (tokens ++ rest))

variable {fits : Prop} {p q : Parser α} {kinds : List Token.Kind}
  {follow : Option Token.Kind → Prop}

theorem kind_head?_append {tokens : List Token} (h : tokens.map Token.kind = kinds)
    (rest : List Token) :
    (tokens ++ rest).head?.map Token.kind = kinds.head?.or (rest.head?.map Token.kind) := by
  subst h
  cases tokens <;> rfl

/-! ### Questions about the next token -/

/-- The parser takes nothing off and answers by the kind of the next token. -/
def Looks (ask : Parser β) (answer : Option Token.Kind → β) : Prop :=
  ∀ tokens, ask tokens = .ok (answer (tokens.head?.map Token.kind)) tokens

theorem looks_peekKind? : Looks peekKind? id := fun _ => rfl

theorem looks_nextIs (kind : Token.Kind) : Looks (nextIs kind) fun next => next = some kind :=
  fun _ => rfl

theorem looks_atEnd : Looks atEnd Option.isNone := by
  intro tokens
  cases tokens <;> rfl

theorem looks_atClose (close : Mark) :
    Looks (atClose close) fun next => next = some (.mark close) || next.isNone := by
  intro tokens
  cases tokens <;> rfl

/-- The mark that a token is. -/
def markOf? : Token.Kind → Option Mark
  | .mark mark => some mark
  | _ => none

theorem looks_peekMark? : Looks peekMark? fun next => next.bind markOf? := by
  intro tokens
  cases tokens with
  | nil => rfl
  | cons token rest =>
    obtain ⟨kind, span⟩ := token
    cases kind <;> rfl

namespace Takes

/-! ### Putting runs together -/

theorem refl : Takes fits p [] follow p := by
  intro tokens rest htokens _
  rw [List.map_eq_nil_iff.mp htokens]
  exact .inl rfl

theorem mono {fits' : Prop} {follow' : Option Token.Kind → Prop} (h : Takes fits p kinds follow q)
    (hfits : fits' → fits) (hfollow : ∀ next, follow' next → follow next) :
    Takes fits' p kinds follow' q := by
  intro tokens rest htokens hrest
  rcases h tokens rest htokens (hfollow _ hrest) with h | ⟨hnot, h⟩
  · exact .inl h
  · exact .inr ⟨fun hfits' => hnot (hfits hfits'), h⟩

theorem weaken {fits' : Prop} (h : Takes fits p kinds follow q) (hfits : fits' → fits) :
    Takes fits' p kinds follow q :=
  h.mono hfits fun _ hnext => hnext

/-- What does not depend on what follows. -/
theorem anywhere (h : Takes fits p kinds (fun _ => True) q) : Takes fits p kinds follow q :=
  h.mono id fun _ _ => trivial

theorem trans {kinds' : List Token.Kind} {follow' : Option Token.Kind → Prop} {r : Parser α}
    (h : Takes fits p kinds follow q) (h' : Takes fits q kinds' follow' r)
    (hfollow : ∀ next, follow' next → follow (kinds'.head?.or next)) :
    Takes fits p (kinds ++ kinds') follow' r := by
  intro tokens rest htokens hrest
  obtain ⟨first, second, rfl, hfirst, hsecond⟩ := List.map_eq_append_iff.mp htokens
  rw [List.append_assoc]
  have hnext : follow ((second ++ rest).head?.map Token.kind) := by
    rw [kind_head?_append hsecond]
    exact hfollow _ hrest
  rcases h first (second ++ rest) hfirst hnext with h | h
  · rw [h]
    exact h' second rest hsecond hrest
  · exact .inr h

/-- A parser for the first part of a text, as the first step of a longer parser. -/
theorem bind (h : Takes fits p kinds follow q) (f : α → Parser β) :
    Takes fits (p >>= f) kinds follow (q >>= f) := by
  intro tokens rest htokens hrest
  rcases h tokens rest htokens hrest with h | ⟨hnot, span, left, h⟩
  · left
    simp only [Bind.bind, EStateM.bind, h]
  · right
    refine ⟨hnot, span, left, ?_⟩
    simp only [Bind.bind, EStateM.bind, h]

theorem seq {f : α → Parser β} {value : α} {kinds' : List Token.Kind}
    {follow' : Option Token.Kind → Prop} {r : Parser β}
    (h : Takes fits p kinds follow (pure value)) (h' : Takes fits (f value) kinds' follow' r)
    (hfollow : ∀ next, follow' next → follow (kinds'.head?.or next)) :
    Takes fits (p >>= f) (kinds ++ kinds') follow' r :=
  (h.bind f).trans h' hfollow

theorem into {value : α} (h : Takes fits p kinds follow (pure value)) (f : α → Parser β) :
    Takes fits (p >>= f) kinds follow (f value) :=
  h.bind f

theorem tooDeep (hfits : ¬ fits) : Takes fits Parser.tooDeep kinds follow q :=
  fun _ _ _ _ => .inr ⟨hfits, _, _, rfl⟩

/-! ### Single tokens -/

/-- A question whose answer depends on the next token. -/
theorem look_each {ask : Parser β} {answer : Option Token.Kind → β} (hask : Looks ask answer)
    {f : β → Parser α}
    (h : ∀ next, follow next → Takes fits (f (answer (kinds.head?.or next))) kinds (· = next) q) :
    Takes fits (ask >>= f) kinds follow q := by
  intro tokens rest htokens hrest
  have hstep : (ask >>= f) (tokens ++ rest) =
      f (answer (kinds.head?.or (rest.head?.map Token.kind))) (tokens ++ rest) := by
    simp only [Bind.bind, EStateM.bind, hask (tokens ++ rest), kind_head?_append htokens]
  rw [hstep]
  exact h _ hrest tokens rest htokens rfl

/-- A question that has one answer, whatever follows. -/
theorem look {ask : Parser β} {answer : Option Token.Kind → β} (hask : Looks ask answer)
    {f : β → Parser α} (value : β)
    (hvalue : ∀ next, follow next → answer (kinds.head?.or next) = value)
    (h : Takes fits (f value) kinds follow q) : Takes fits (ask >>= f) kinds follow q := by
  refine .look_each hask fun next hnext => ?_
  rw [hvalue next hnext]
  refine h.mono id ?_
  rintro _ rfl
  exact hnext

variable {f : Unit → Parser β} {r : Parser β}

theorem advance (kind : Token.Kind) (h : Takes fits (f ()) kinds follow r) :
    Takes fits (Parser.advance >>= f) (kind :: kinds) follow r := by
  intro tokens rest htokens hrest
  obtain ⟨token, others, rfl, -, hothers⟩ := List.map_eq_cons_iff.mp htokens
  exact h others rest hothers hrest

theorem expect (mark : Mark) (h : Takes fits (f ()) kinds follow r) :
    Takes fits (Parser.expect mark >>= f) (.mark mark :: kinds) follow r := by
  rw [Parser.expect, bind_assoc]
  refine .look (looks_nextIs _) true (fun _ _ => decide_eq_true rfl) ?_
  rw [if_pos rfl]
  exact .advance _ h

theorem accept (mark : Mark) {f : Bool → Parser β} (h : Takes fits (f true) kinds follow r) :
    Takes fits (Parser.accept mark >>= f) (.mark mark :: kinds) follow r := by
  rw [Parser.accept, bind_assoc]
  refine .look (looks_nextIs _) true (fun _ _ => decide_eq_true rfl) ?_
  rw [if_pos rfl, bind_assoc]
  refine .advance _ ?_
  rw [pure_bind]
  exact h

theorem accept_other (mark : Mark) {f : Bool → Parser β}
    (hnext : ∀ next, follow next → kinds.head?.or next ≠ some (.mark mark))
    (h : Takes fits (f false) kinds follow r) :
    Takes fits (Parser.accept mark >>= f) kinds follow r := by
  rw [Parser.accept, bind_assoc]
  refine .look (looks_nextIs _) false (fun next hfollow => decide_eq_false (hnext next hfollow)) ?_
  rw [if_neg Bool.false_ne_true, pure_bind]
  exact h

theorem skip (mark : Mark) (h : Takes fits (f ()) kinds follow r) :
    Takes fits (Parser.skip mark >>= f) (.mark mark :: kinds) follow r := by
  rw [Parser.skip, bind_assoc]
  refine .accept mark ?_
  rw [pure_bind]
  exact h

theorem identifier (name : String) {f : String → Parser β}
    (h : Takes fits (f name) kinds follow r) :
    Takes fits (Parser.identifier >>= f) (.identifier name :: kinds) follow r := by
  rw [Parser.identifier, bind_assoc]
  refine .look looks_peekKind? (some (.identifier name)) (fun _ _ => rfl) ?_
  rw [bind_assoc]
  refine .advance _ ?_
  rw [pure_bind]
  exact h

/-! ### Repetition -/

theorem many_nil {step : Parser (Option α)} (h : Takes fits step [] follow (pure none)) :
    Takes fits (many step) [] follow (pure []) := by
  intro tokens rest htokens hrest
  rcases h tokens rest htokens hrest with h | ⟨hnot, span, left, h⟩
  · left
    rw [many, h]
    rfl
  · right
    refine ⟨hnot, span, left, ?_⟩
    rw [many, h]

/-- A step that takes at least one token, and the steps after it. -/
theorem many_cons {step : Parser (Option α)} {value : α} {values : List α}
    {kinds' : List Token.Kind} {follow' : Option Token.Kind → Prop}
    (h : Takes fits step kinds follow (pure (some value))) (hne : kinds ≠ [])
    (h' : Takes fits (many step) kinds' follow' (pure values))
    (hfollow : ∀ next, follow' next → follow (kinds'.head?.or next)) :
    Takes fits (many step) (kinds ++ kinds') follow' (pure (value :: values)) := by
  intro tokens rest htokens hrest
  obtain ⟨first, second, rfl, hfirst, hsecond⟩ := List.map_eq_append_iff.mp htokens
  have hnext : follow ((second ++ rest).head?.map Token.kind) := by
    rw [kind_head?_append hsecond]
    exact hfollow _ hrest
  have hlength : (second ++ rest).length < (first ++ (second ++ rest)).length := by
    have hpos : first ≠ [] := by
      rintro rfl
      exact hne hfirst.symm
    have := List.length_pos_iff.mpr hpos
    simp only [List.length_append]
    omega
  rw [List.append_assoc]
  rcases h first (second ++ rest) hfirst hnext with h | ⟨hnot, span, left, h⟩
  · rw [many, h]
    simp only [Pure.pure, EStateM.pure, if_pos hlength]
    rcases h' second rest hsecond hrest with h' | ⟨hnot, span, left, h'⟩
    · rw [h']
      exact .inl rfl
    · rw [h']
      exact .inr ⟨hnot, span, left, rfl⟩
  · right
    refine ⟨hnot, span, left, ?_⟩
    rw [many, h]

/-! ### Lists with commas -/

/-- The items after the first one, each with a comma before it. -/
theorem many_comma {step : Parser (Option α)} {kindsOf : α → List Token.Kind}
    {between : Option Token.Kind → Prop} {values : List α}
    (hstep : ∀ value ∈ values,
      Takes fits step (.mark .comma :: kindsOf value) between (pure (some value)))
    (hend : Takes fits step [] follow (pure none)) (hcomma : between (some (.mark .comma)))
    (hfollow : ∀ next, follow next → between next) :
    Takes fits (many step) ((values.map kindsOf).flatMap fun kinds => .mark .comma :: kinds) follow
      (pure values) := by
  induction values with
  | nil => exact many_nil hend
  | cons value others ih =>
    refine many_cons (hstep value (.head _)) (by simp)
      (ih fun value hvalue => hstep value (.tail _ hvalue)) ?_
    cases others with
    | nil => exact hfollow
    | cons second others => exact fun _ _ => hcomma

/-- The list does not end before an item that starts with something else than the closing mark. -/
theorem atClose_other (close : Mark) {f : Bool → Parser β} {r : Parser β} {kind : Token.Kind}
    (hkind : kinds.head? = some kind) (hne : kind ≠ .mark close)
    (h : Takes fits (f false) kinds follow r) :
    Takes fits (atClose close >>= f) kinds follow r := by
  refine .look (looks_atClose close) false (fun next _ => ?_) h
  simp [hkind, hne]

theorem items (close : Mark) {item : Parser α} {kindsOf : α → List Token.Kind} {values : List α}
    (hitem : ∀ value ∈ values, Takes fits item (kindsOf value) follow (pure value))
    (hstart : ∀ value ∈ values, ∃ kind, (kindsOf value).head? = some kind ∧ kind ≠ .mark close)
    (hcomma : follow (some (.mark .comma))) (hclose : follow (some (.mark close)))
    (hne : close ≠ .comma) :
    Takes fits (Parser.items close item) (commaKinds (values.map kindsOf))
      (· = some (.mark close)) (pure values) := by
  have hfollow : ∀ next, next = some (Token.Kind.mark close) → follow next := by
    rintro _ rfl
    exact hclose
  cases values with
  | nil =>
    refine .look (looks_atClose close) true ?_ .refl
    rintro _ rfl
    simp [commaKinds]
  | cons first others =>
    obtain ⟨kind, hkind, hother⟩ := hstart first (.head _)
    have hhead : (commaKinds ((first :: others).map kindsOf)).head? = some kind := by
      simp [commaKinds, List.head?_append, hkind]
    refine .atClose_other close hhead hother ?_
    refine .seq (hitem first (.head _)) (.into (many_comma ?_ ?_ hcomma hfollow) _) ?_
    · intro value hvalue
      obtain ⟨kind, hkind, hother⟩ := hstart value (.tail _ hvalue)
      exact .accept _ (.atClose_other close hkind hother (.into (hitem value (.tail _ hvalue)) _))
    · refine .accept_other _ ?_ .refl
      rintro _ rfl
      simpa using hne
    · intro next hnext
      cases others with
      | nil => exact hfollow next hnext
      | cons second others => exact hcomma

theorem separated {item : Parser α} {kindsOf : α → List Token.Kind} {first : α}
    {others : List α}
    (hitem : ∀ value ∈ first :: others, Takes fits item (kindsOf value) follow (pure value))
    (hcomma : follow (some (.mark .comma))) {after : Option Token.Kind → Prop}
    (hafter : ∀ next, after next → follow next ∧ next ≠ some (.mark .comma)) :
    Takes fits (Parser.separated item) (commaKinds ((first :: others).map kindsOf)) after
      (pure (first :: others)) := by
  refine .seq (hitem first (.head _))
    (.into (many_comma ?_ ?_ hcomma fun next hnext => (hafter next hnext).1) _) ?_
  · exact fun value hvalue => .accept _ (.into (hitem value (.tail _ hvalue)) _)
  · exact .accept_other _ (fun next hnext => (hafter next hnext).2) .refl
  · intro next hnext
    cases others with
    | nil => exact (hafter next hnext).1
    | cons second others => exact hcomma

end Takes

end Parser

end Offside
