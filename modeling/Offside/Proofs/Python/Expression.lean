import Offside.Layout.Expr
import Offside.Proofs.Python.Token

/-!
# Expressions of the output language, read from tokens

`parse` reads a list of tokens by Python's grammar of expressions. From loose to tight:

* `or` and `and`, each grouping to the left;
* `not`, any number of times;
* comparisons, which chain: `a < b < c` is one comparison with two links;
* `+` and `-`, then `*`, `/` and `%`, each grouping to the left;
* the minus sign, any number of times;
* calls and subscripts behind an atom;
* names, numbers, strings, truth values, lists and expressions in parentheses.

Each of these is a reader built from the next tighter one (`reader`), and what stands in brackets is
again an expression. A reader takes the tokens it understands off the front of a list.

`Expression.tokens` writes a tree down, with parentheses only around operands that bind too loosely
for their place. **Reading undoes writing** (`parse_tokens`): no tree is regrouped.
-/

namespace Offside

namespace Python

/-! ### Trees -/

/-- The operators that compute. -/
inductive Arithmetic where
  | add
  | sub
  | mul
  | div
  | mod
deriving DecidableEq

/-- The operators that compare. -/
inductive Comparison where
  | eq
  | ne
  | lt
  | gt
  | le
  | ge
deriving DecidableEq

/-- The words that join conditions. -/
inductive Connective where
  | or
  | and
deriving DecidableEq

mutual

/-- Expressions of Python. -/
inductive Expression where
  | name (word : String)
  | number (value : Nat)
  | string (raw : String)
  | boolean (value : Bool)
  | list (elements : List Expression)
  | call (function : Expression) (arguments : List Expression)
  | subscript (object index : Expression)
  | negative (operand : Expression)
  | arithmetic (op : Arithmetic) (left right : Expression)
  | comparison (first : Expression) (links : Links)
  | not (operand : Expression)
  | connective (op : Connective) (left right : Expression)

/-- What follows the first operand of a comparison: at least one operator with its operand. -/
inductive Links where
  | last (op : Comparison) (operand : Expression)
  | next (op : Comparison) (operand : Expression) (others : Links)

end

/-! ### Readers -/

/-- Takes tokens off the front of a list: what they say and the tokens that are left. -/
abbrev Reader (α : Type) := List Token → Option (α × List Token)

/-- What the reader reads, up to and including a closing bracket. -/
def closedBy {α : Type} (close : String) (read : Reader α) : Reader α := fun tokens =>
  match read tokens with
  | some (value, .operator spelling :: rest) => if spelling = close then some (value, rest) else none
  | _ => none

/-- Goes on from `left` as long as the next token is one that continues it. -/
def extend (continue? : Token → Option (Expression → Reader Expression)) (left : Expression)
    (tokens : List Token) : Option (Expression × List Token) :=
  match tokens with
  | [] => some (left, [])
  | token :: rest =>
    match continue? token with
    | none => some (left, token :: rest)
    | some longer =>
      match longer left rest with
      | none => none
      | some (longer, after) =>
        if after.length < (token :: rest).length then extend continue? longer after else none
termination_by tokens.length
decreasing_by assumption

/-- The operators of the strengths that group to the left, and what they build. -/
def join? : Strength → Token → Option (Expression → Expression → Expression)
  | .disjunction, .keyword "or" => some (.connective .or)
  | .conjunction, .keyword "and" => some (.connective .and)
  | .sum, .operator "+" => some (.arithmetic .add)
  | .sum, .operator "-" => some (.arithmetic .sub)
  | .product, .operator "*" => some (.arithmetic .mul)
  | .product, .operator "/" => some (.arithmetic .div)
  | .product, .operator "%" => some (.arithmetic .mod)
  | _, _ => none

/-- One more operator of the given strength, and its right operand. -/
def joined? (strength : Strength) (operand : Reader Expression) (token : Token) :
    Option (Expression → Reader Expression) :=
  (join? strength token).map fun join left tokens =>
    (operand tokens).map fun (right, rest) => (join left right, rest)

/-- Operands joined by operators of the given strength, grouped to the left. -/
def chain (strength : Strength) (operand : Reader Expression) : Reader Expression := fun tokens =>
  (operand tokens).bind fun (left, rest) => extend (joined? strength operand) left rest

/-- The comparison that a token stands for. -/
def comparison? : Token → Option Comparison
  | .operator "==" => some .eq
  | .operator "!=" => some .ne
  | .operator "<" => some .lt
  | .operator ">" => some .gt
  | .operator "<=" => some .le
  | .operator ">=" => some .ge
  | _ => none

/-- The comparison with which a list of tokens begins, and the tokens behind it. -/
def leadingComparison? : List Token → Option (Comparison × List Token)
  | [] => none
  | token :: rest => (comparison? token).map fun op => (op, rest)

/-- The links of a comparison, from the operand of the first operator on. -/
def links (operand : Reader Expression) (op : Comparison) (tokens : List Token) :
    Option (Links × List Token) :=
  match operand tokens with
  | none => none
  | some (right, rest) =>
    match leadingComparison? rest with
    | none => some (.last op right, rest)
    | some (next, after) =>
      if after.length < tokens.length then
        (links operand next after).map fun (others, rest) => (.next op right others, rest)
      else none
termination_by tokens.length

/-- An operand, or a comparison of at least two. -/
def compared (operand : Reader Expression) : Reader Expression := fun tokens =>
  (operand tokens).bind fun (first, rest) =>
    match leadingComparison? rest with
    | none => some (first, rest)
    | some (op, after) => (links operand op after).map fun (links, rest) =>
      (.comparison first links, rest)

/-- An operand behind any number of tokens `sign`, each of which wraps it once. -/
def prefixed (sign : Token) (wrap : Expression → Expression) (plain : Reader Expression) :
    Reader Expression
  | [] => plain []
  | token :: rest =>
    if token = sign then
      (prefixed sign wrap plain rest).map fun (operand, rest) => (wrap operand, rest)
    else plain (token :: rest)

/-- Expressions between commas, up to and including the closing bracket. A comma may follow the
last one. -/
def items (inner : Reader Expression) (close : String) (tokens : List Token) :
    Option (List Expression × List Token) :=
  match tokens with
  | [] => none
  | token :: rest =>
    if token = .operator close then some ([], rest)
    else
      match inner (token :: rest) with
      | some (first, .operator spelling :: after) =>
        if spelling = close then some ([first], after)
        else if spelling = "," ∧ after.length < (token :: rest).length then
          (items inner close after).map fun (others, rest) => (first :: others, rest)
        else none
      | _ => none
termination_by tokens.length
decreasing_by omega

/-- A name, a literal, or what stands in brackets. -/
def atom (inner : Reader Expression) : Reader Expression
  | .name word :: rest => some (.name word, rest)
  | .number value :: rest => some (.number value, rest)
  | .string raw :: rest => some (.string raw, rest)
  | .keyword "True" :: rest => some (.boolean true, rest)
  | .keyword "False" :: rest => some (.boolean false, rest)
  | .operator "(" :: rest => closedBy ")" inner rest
  | .operator "[" :: rest =>
    (items inner "]" rest).map fun (elements, rest) => (.list elements, rest)
  | _ => none

/-- What may follow an atom: the arguments of a call or a subscript. -/
def trailer? (inner : Reader Expression) : Token → Option (Expression → Reader Expression)
  | .operator "(" => some fun function tokens =>
    (items inner ")" tokens).map fun (arguments, rest) => (.call function arguments, rest)
  | .operator "[" => some fun object tokens =>
    (closedBy "]" inner tokens).map fun (index, rest) => (.subscript object index, rest)
  | _ => none

/-- An atom with its calls and subscripts. -/
def primary (inner : Reader Expression) : Reader Expression := fun tokens =>
  (atom inner tokens).bind fun (first, rest) => extend (trailer? inner) first rest

/-- The reader for expressions of at least the given strength; `inner` reads what stands in
brackets. -/
def reader (inner : Reader Expression) : Strength → Reader Expression :=
  let factor := prefixed (.operator "-") .negative (primary inner)
  let product := chain .product factor
  let sum := chain .sum product
  let comparison := compared sum
  let inversion := prefixed (.keyword "not") .not comparison
  let conjunction := chain .conjunction inversion
  let disjunction := chain .disjunction conjunction
  fun
  | .disjunction => disjunction
  | .conjunction => conjunction
  | .negation => inversion
  | .comparison => comparison
  | .sum => sum
  | .product => product
  | .sign => factor
  | .atom => primary inner

/-- An expression. What stands in brackets is shorter than the whole. -/
def expression (tokens : List Token) : Option (Expression × List Token) :=
  reader (fun inside => if inside.length < tokens.length then expression inside else none)
    .disjunction tokens
termination_by tokens.length

/-- The expression that a whole list of tokens spells. -/
def parse (tokens : List Token) : Option Expression :=
  match expression tokens with
  | some (e, []) => some e
  | _ => none

/-- The expression that a line of text spells. -/
def read (text : String) : Option Expression :=
  (tokenize endsLine text.toList).bind parse

/-! ### Writing -/

/-- The text of an operator. -/
def Arithmetic.spelling : Arithmetic → String
  | .add => "+"
  | .sub => "-"
  | .mul => "*"
  | .div => "/"
  | .mod => "%"

/-- Sums bind more loosely than products. -/
def Arithmetic.strength : Arithmetic → Strength
  | .add | .sub => .sum
  | .mul | .div | .mod => .product

/-- The text of an operator. -/
def Comparison.spelling : Comparison → String
  | .eq => "=="
  | .ne => "!="
  | .lt => "<"
  | .gt => ">"
  | .le => "<="
  | .ge => ">="

/-- The word for a connective. -/
def Connective.word : Connective → String
  | .or => "or"
  | .and => "and"

/-- `or` binds more loosely than `and`. -/
def Connective.strength : Connective → Strength
  | .or => .disjunction
  | .and => .conjunction

/-- The strength of an expression, which its outermost operator decides. -/
def Expression.strength : Expression → Strength
  | .negative _ => .sign
  | .arithmetic op _ _ => op.strength
  | .comparison _ _ => .comparison
  | .not _ => .negation
  | .connective op _ _ => op.strength
  | _ => .atom

/-- The tokens of an operand, in parentheses if it binds too loosely. -/
def Expression.enclose (e : Expression) (least : Nat) (tokens : List Token) : List Token :=
  if e.strength.rank < least then .operator "(" :: (tokens ++ [.operator ")"]) else tokens

mutual

/-- The tokens of an expression. -/
def Expression.tokens : Expression → List Token
  | .name word => [.name word]
  | .number value => [.number value]
  | .string raw => [.string raw]
  | .boolean true => [.keyword "True"]
  | .boolean false => [.keyword "False"]
  | .list elements => .operator "[" :: (itemTokens elements ++ [.operator "]"])
  | .call function arguments =>
    function.enclose Strength.atom.rank function.tokens ++
      .operator "(" :: (itemTokens arguments ++ [.operator ")"])
  | .subscript object index =>
    object.enclose Strength.atom.rank object.tokens ++
      .operator "[" :: (index.tokens ++ [.operator "]"])
  | .negative operand => .operator "-" :: operand.enclose Strength.sign.rank operand.tokens
  | .arithmetic op left right =>
    left.enclose op.strength.rank left.tokens ++
      .operator op.spelling :: right.enclose (op.strength.rank + 1) right.tokens
  | .comparison first links => first.enclose Strength.sum.rank first.tokens ++ links.tokens
  | .not operand => .keyword "not" :: operand.enclose Strength.negation.rank operand.tokens
  | .connective op left right =>
    left.enclose op.strength.rank left.tokens ++
      .keyword op.word :: right.enclose (op.strength.rank + 1) right.tokens

/-- The tokens of the links of a comparison. -/
def Links.tokens : Links → List Token
  | .last op operand =>
    .operator op.spelling :: operand.enclose Strength.sum.rank operand.tokens
  | .next op operand others =>
    .operator op.spelling :: (operand.enclose Strength.sum.rank operand.tokens ++ others.tokens)

/-- The tokens of expressions between commas. -/
def itemTokens : List Expression → List Token
  | [] => []
  | [e] => e.tokens
  | e :: next :: others => e.tokens ++ .operator "," :: itemTokens (next :: others)

end

/-- The tokens of an expression that stands as an operand. -/
def Expression.operandTokens (e : Expression) (least : Nat) : List Token :=
  e.enclose least e.tokens

/-! ### What may follow -/

/-- How tightly a token holds on to the expression before it, in ranks of strengths; `0` if it does
not continue an expression. -/
def Token.grip : Token → Nat
  | .keyword "or" => 1
  | .keyword "and" => 2
  | .operator "==" | .operator "!=" | .operator "<" | .operator ">" | .operator "<="
  | .operator ">=" => 4
  | .operator "+" | .operator "-" => 5
  | .operator "*" | .operator "/" | .operator "%" => 6
  | .operator "(" | .operator "[" => 8
  | _ => 0

/-- The tokens do not go on with an expression that is at least as tight as `least`. -/
def Follows (least : Nat) (rest : List Token) : Prop :=
  ∀ token ∈ rest.head?, token.grip < least

theorem Follows.mono {m n : Nat} {rest : List Token} (h : Follows m rest) (hmn : m ≤ n) :
    Follows n rest := fun token htoken => Nat.lt_of_lt_of_le (h token htoken) hmn

theorem follows_nil (least : Nat) : Follows least [] := by
  simp [Follows]

theorem follows_cons {least : Nat} {token : Token} (rest : List Token) (h : token.grip < least) :
    Follows least (token :: rest) := by
  simpa [Follows] using h

theorem grip_of_join? {strength : Strength} {token : Token}
    {join : Expression → Expression → Expression} (h : join? strength token = some join) :
    token.grip = strength.rank := by
  unfold join? at h
  split at h <;> first | rfl | simp at h

theorem grip_of_comparison? {token : Token} {op : Comparison} (h : comparison? token = some op) :
    token.grip = 4 := by
  unfold comparison? at h
  split at h <;> first | rfl | simp at h

theorem grip_of_trailer? {inner : Reader Expression} {token : Token}
    {longer : Expression → Reader Expression} (h : trailer? inner token = some longer) :
    token.grip = 8 := by
  unfold trailer? at h
  split at h <;> first | rfl | simp at h

theorem joined?_eq_none {strength : Strength} {rest : List Token} (operand : Reader Expression)
    (h : Follows strength.rank rest) : ∀ token ∈ rest.head?, joined? strength operand token = none := by
  intro token htoken
  cases hjoin : join? strength token with
  | none => simp [joined?, hjoin]
  | some join =>
    have := h token htoken
    rw [grip_of_join? hjoin] at this
    omega

theorem trailer?_eq_none {rest : List Token} (inner : Reader Expression) (h : Follows 8 rest) :
    ∀ token ∈ rest.head?, trailer? inner token = none := by
  intro token htoken
  cases htrailer : trailer? inner token with
  | none => rfl
  | some longer =>
    have := h token htoken
    rw [grip_of_trailer? htrailer] at this
    omega

theorem leadingComparison?_eq_none {rest : List Token} (h : Follows 4 rest) :
    leadingComparison? rest = none := by
  cases rest with
  | nil => rfl
  | cons token rest =>
    cases hop : comparison? token with
    | none => simp [leadingComparison?, hop]
    | some op =>
      have := h token rfl
      rw [grip_of_comparison? hop] at this
      omega

/-! ### Going on and stopping -/

theorem extend_stop {continue? : Token → Option (Expression → Reader Expression)}
    (left : Expression) {tokens : List Token}
    (h : ∀ token ∈ tokens.head?, continue? token = none) :
    extend continue? left tokens = some (left, tokens) := by
  cases tokens with
  | nil => rw [extend]
  | cons token rest => rw [extend, h token rfl]

theorem extend_step {continue? : Token → Option (Expression → Reader Expression)}
    {left e : Expression} {token : Token} {rest after : List Token}
    {longer : Expression → Reader Expression} (htoken : continue? token = some longer)
    (hread : longer left rest = some (e, after)) (hlength : after.length ≤ rest.length) :
    extend continue? left (token :: rest) = extend continue? e after := by
  have hlt : after.length < (token :: rest).length := by
    simp only [List.length_cons]
    omega
  rw [extend, htoken]
  simp only [hread, if_pos hlt]

theorem chain_step {strength : Strength} {operand : Reader Expression}
    {join : Expression → Expression → Expression} {left right : Expression} {token : Token}
    {rest after : List Token} (hjoin : join? strength token = some join)
    (hread : operand rest = some (right, after)) (hlength : after.length ≤ rest.length) :
    extend (joined? strength operand) left (token :: rest) =
      extend (joined? strength operand) (join left right) after := by
  refine extend_step (e := join left right) (by simp [joined?, hjoin]; rfl) ?_ hlength
  simp [hread]

theorem prefixed_of_ne {sign : Token} {wrap : Expression → Expression} {plain : Reader Expression}
    {tokens : List Token} (h : tokens.head? ≠ some sign) :
    prefixed sign wrap plain tokens = plain tokens := by
  cases tokens with
  | nil => rfl
  | cons token rest =>
    have hne : token ≠ sign := by simpa using h
    rw [prefixed, if_neg hne]

theorem prefixed_cons {sign : Token} {wrap : Expression → Expression} {plain : Reader Expression}
    {rest after : List Token} {operand : Expression}
    (h : prefixed sign wrap plain rest = some (operand, after)) :
    prefixed sign wrap plain (sign :: rest) = some (wrap operand, after) := by
  rw [prefixed, if_pos rfl, h]
  rfl

/-! ### From tight to loose -/

/-- The next tighter strength. -/
def tighter : Strength → Strength
  | .disjunction => .conjunction
  | .conjunction => .negation
  | .negation => .comparison
  | .comparison => .sum
  | .sum => .product
  | .product => .sign
  | .sign | .atom => .atom

theorem rank_tighter {s : Strength} (h : s ≠ .atom) : (tighter s).rank = s.rank + 1 := by
  cases s with
  | atom => exact absurd rfl h
  | _ => rfl

theorem strength_eq_of_rank_eq {s t : Strength} (h : s.rank = t.rank) : s = t := by
  revert h
  cases s <;> cases t <;> decide

theorem rank_le_atom (s : Strength) : s.rank ≤ Strength.atom.rank := by
  cases s <;> decide

theorem rank_pos (s : Strength) : 0 < s.rank := by
  cases s <;> decide

/-- The tokens start like an expression that is at least as tight as `least`. -/
def Starts (least : Nat) (tokens : List Token) : Prop :=
  ∃ token rest, tokens = token :: rest ∧ token ≠ .operator ")" ∧ token ≠ .operator "]" ∧
    (Strength.negation.rank < least → token ≠ .keyword "not") ∧
    (Strength.sign.rank < least → token ≠ .operator "-")

theorem Starts.mono {m n : Nat} {tokens : List Token} (h : Starts n tokens) (hmn : m ≤ n) :
    Starts m tokens := by
  obtain ⟨token, rest, htokens, hparen, hbracket, hnot, hminus⟩ := h
  exact ⟨token, rest, htokens, hparen, hbracket, fun hm => hnot (by omega), fun hm => hminus (by omega)⟩

theorem Starts.append {n : Nat} {tokens : List Token} (h : Starts n tokens) (rest : List Token) :
    Starts n (tokens ++ rest) := by
  obtain ⟨token, rest', rfl, hothers⟩ := h
  exact ⟨token, rest' ++ rest, rfl, hothers⟩

theorem Starts.enclose {e : Expression} {tokens : List Token} (h : Starts e.strength.rank tokens)
    (least : Nat) : Starts least (e.enclose least tokens) := by
  rw [Expression.enclose]
  split
  · exact ⟨.operator "(", _, rfl, by simp, by simp, by simp, by simp⟩
  · exact h.mono (by omega)

/-- Every expression starts like one of its own strength. -/
theorem starts_tokens : (e : Expression) → Starts e.strength.rank e.tokens
  | .name _ | .number _ | .string _ | .boolean true | .boolean false =>
    ⟨_, _, rfl, by simp, by simp, by simp, by simp⟩
  | .list _ => ⟨_, _, rfl, by simp, by simp, by simp, by simp⟩
  | .negative _ => ⟨_, _, rfl, by simp, by simp, by simp, by simp [Expression.strength]⟩
  | .not _ => ⟨_, _, rfl, by simp, by simp, by simp [Expression.strength], by simp⟩
  | .call function _ => ((starts_tokens function).enclose _).append _
  | .subscript object _ => ((starts_tokens object).enclose _).append _
  | .arithmetic _ left _ => ((starts_tokens left).enclose _).append _
  | .connective _ left _ => ((starts_tokens left).enclose _).append _
  | .comparison first _ =>
    (((starts_tokens first).enclose _).append _).mono (by simp [Expression.strength, Strength.rank])

/-- What a tighter reader reads, the next looser one reads too. -/
theorem reader_loosen {inner : Reader Expression} {s : Strength} {tokens rest : List Token}
    {e : Expression} (hs : s ≠ .atom) (hstarts : Starts (s.rank + 1) tokens)
    (hfollows : Follows s.rank rest) (h : reader inner (tighter s) tokens = some (e, rest)) :
    reader inner s tokens = some (e, rest) := by
  have hchain : ∀ t operand, t = s → operand tokens = some (e, rest) →
      chain t operand tokens = some (e, rest) := by
    rintro t operand rfl hoperand
    simp only [chain, hoperand, Option.bind_some]
    exact extend_stop e (joined?_eq_none operand hfollows)
  have hhead : (Strength.negation.rank < s.rank + 1 → tokens.head? ≠ some (.keyword "not")) ∧
      (Strength.sign.rank < s.rank + 1 → tokens.head? ≠ some (.operator "-")) := by
    obtain ⟨token, after, rfl, -, -, hnot, hminus⟩ := hstarts
    simp only [List.head?_cons, ne_eq, Option.some.injEq]
    exact ⟨hnot, hminus⟩
  cases s with
  | disjunction => exact hchain _ _ rfl h
  | conjunction => exact hchain _ _ rfl h
  | sum => exact hchain _ _ rfl h
  | product => exact hchain _ _ rfl h
  | negation => exact (prefixed_of_ne (hhead.1 (by decide))).trans h
  | sign => exact (prefixed_of_ne (hhead.2 (by decide))).trans h
  | comparison =>
    have hsum : reader inner .sum tokens = some (e, rest) := h
    change compared (reader inner .sum) tokens = _
    simp only [compared, hsum, Option.bind_some, leadingComparison?_eq_none hfollows]
  | atom => exact absurd rfl hs

/-- What a tight reader reads, every looser one reads too. -/
theorem reader_mono {inner : Reader Expression} {s t : Strength} {tokens rest : List Token}
    {e : Expression} (hst : s.rank ≤ t.rank) (hstarts : Starts t.rank tokens)
    (hfollows : Follows s.rank rest) (h : reader inner t tokens = some (e, rest)) :
    reader inner s tokens = some (e, rest) := by
  rcases Nat.lt_or_ge s.rank t.rank with hlt | hge
  · have hs : s ≠ .atom := by
      rintro rfl
      have := rank_le_atom t
      omega
    have hrank := rank_tighter hs
    refine reader_loosen hs (hstarts.mono (by omega)) hfollows ?_
    exact reader_mono (by omega) hstarts (hfollows.mono (by omega)) h
  · rwa [strength_eq_of_rank_eq (Nat.le_antisymm hst hge)]
termination_by t.rank - s.rank

/-! ### Reading undoes writing -/

/-- The reader for what stands in brackets inside `length` tokens. -/
def inside (length : Nat) : Reader Expression := fun tokens =>
  if tokens.length < length then expression tokens else none

theorem expression_eq (tokens : List Token) :
    expression tokens = reader (inside tokens.length) .disjunction tokens := by
  rw [expression]
  rfl

/-- How an expression of the given strength goes on to a longer one of the same strength. -/
def grow (inner : Reader Expression) : Strength → Token → Option (Expression → Reader Expression)
  | .atom => trailer? inner
  | .sign | .comparison | .negation => fun _ => none
  | s => joined? s (reader inner (tighter s))

/-- The least strength that would run on into an expression of strength `s` before it. Those that
can grow stop only in front of something tighter than themselves. -/
def seam : Strength → Nat
  | .sign => Strength.sign.rank
  | .comparison => Strength.comparison.rank
  | .negation => Strength.negation.rank
  | s => s.rank + 1

theorem rank_le_seam (s : Strength) : s.rank ≤ seam s := by
  cases s <;> decide

theorem reader_eq_chain {inner : Reader Expression} {s : Strength} (hs : seam s = s.rank + 1)
    (hatom : s ≠ .atom) : reader inner s = chain s (reader inner (tighter s)) := by
  cases s with
  | atom => exact absurd rfl hatom
  | sign | comparison | negation => exact absurd hs (by decide)
  | disjunction | conjunction | sum | product => rfl

theorem grow_eq_joined? {inner : Reader Expression} {s : Strength} (hs : seam s = s.rank + 1)
    (hatom : s ≠ .atom) : grow inner s = joined? s (reader inner (tighter s)) := by
  cases s with
  | atom => exact absurd rfl hatom
  | sign | comparison | negation => exact absurd hs (by decide)
  | disjunction | conjunction | sum | product => rfl

/-- The tokens of the expression are read as itself, and the reader goes on from there. -/
def Readable (e : Expression) : Prop :=
  ∀ length rest, Follows (seam e.strength) rest → (e.tokens ++ rest).length ≤ length →
    reader (inside length) e.strength (e.tokens ++ rest) =
      extend (grow (inside length) e.strength) e rest

theorem grow_eq_none {inner : Reader Expression} {s : Strength} {rest : List Token}
    (h : Follows s.rank rest) : ∀ token ∈ rest.head?, grow inner s token = none := by
  cases s with
  | atom => exact trailer?_eq_none inner h
  | sign | comparison | negation => exact fun _ _ => rfl
  | disjunction | conjunction | sum | product => exact joined?_eq_none _ h

namespace Readable

variable {e : Expression}

/-- The expression is read by every reader that is not tighter than itself. -/
theorem plain (h : Readable e) {length : Nat} {s : Strength} {rest : List Token}
    (hs : s.rank ≤ e.strength.rank) (hfollows : Follows s.rank rest)
    (hlength : (e.tokens ++ rest).length ≤ length) :
    reader (inside length) s (e.tokens ++ rest) = some (e, rest) := by
  -- What does not go on at strength `s` does not go on at the strength of `e` either, so the reader
  -- that stands behind `e` stops there.
  have hown : Follows e.strength.rank rest := hfollows.mono hs
  refine reader_mono hs ((starts_tokens e).append rest) hfollows ?_
  rw [h length rest (hown.mono (rank_le_seam _)) hlength]
  exact extend_stop e (grow_eq_none hown)

/-- The expression is read in brackets. -/
theorem bracketed (h : Readable e) {length : Nat} {rest : List Token} (hfollows : Follows 1 rest)
    (hlength : (e.tokens ++ rest).length < length) :
    inside length (e.tokens ++ rest) = some (e, rest) := by
  rw [inside, if_pos hlength, expression_eq]
  exact h.plain (rank_pos _) hfollows (Nat.le_refl _)

/-- The expression is read in parentheses, as an atom. -/
theorem parenthesized (h : Readable e) {length : Nat} {rest : List Token}
    (hlength : (.operator "(" :: (e.tokens ++ .operator ")" :: rest)).length ≤ length) :
    primary (inside length) (.operator "(" :: (e.tokens ++ .operator ")" :: rest)) =
      extend (trailer? (inside length)) e rest := by
  have hinner : inside length (e.tokens ++ .operator ")" :: rest) =
      some (e, .operator ")" :: rest) :=
    h.bracketed (follows_cons rest (by decide)) hlength
  simp [primary, atom, closedBy, hinner]

/-- The expression is read as an operand, in parentheses where it has to be. -/
theorem operand (h : Readable e) {length : Nat} {s : Strength} {rest : List Token}
    (hfollows : Follows s.rank rest) (hlength : (e.operandTokens s.rank ++ rest).length ≤ length) :
    reader (inside length) s (e.operandTokens s.rank ++ rest) = some (e, rest) := by
  by_cases hloose : e.strength.rank < s.rank
  · have htokens : e.operandTokens s.rank ++ rest =
        .operator "(" :: (e.tokens ++ .operator ")" :: rest) := by
      simp [Expression.operandTokens, Expression.enclose, hloose]
    rw [htokens] at hlength ⊢
    have hatom : reader (inside length) .atom
        (.operator "(" :: (e.tokens ++ .operator ")" :: rest)) = some (e, rest) :=
      (h.parenthesized hlength).trans
        (extend_stop e (trailer?_eq_none _ (hfollows.mono (rank_le_atom s))))
    refine reader_mono (rank_le_atom s) ?_ hfollows hatom
    exact ⟨.operator "(", _, rfl, by simp, by simp, by simp, by simp⟩
  · have htokens : e.operandTokens s.rank = e.tokens := by
      simp [Expression.operandTokens, Expression.enclose, hloose]
    rw [htokens] at hlength ⊢
    exact h.plain (by omega) hfollows hlength

/-- The expression is read as a left operand of its own strength, and the reader goes on. -/
theorem left (h : Readable e) {length : Nat} {s : Strength} {rest : List Token}
    (hs : seam s = s.rank + 1) (hfollows : Follows (seam s) rest)
    (hlength : (e.operandTokens s.rank ++ rest).length ≤ length) :
    reader (inside length) s (e.operandTokens s.rank ++ rest) =
      extend (grow (inside length) s) e rest := by
  by_cases hsame : e.strength = s
  · subst hsame
    have htokens : e.operandTokens e.strength.rank = e.tokens := by
      simp [Expression.operandTokens, Expression.enclose]
    rw [htokens] at hlength ⊢
    exact h length rest hfollows hlength
  · by_cases hatom : s = .atom
    · subst hatom
      have hloose : e.strength.rank < Strength.atom.rank := by
        have := rank_le_atom e.strength
        have : e.strength.rank ≠ Strength.atom.rank := fun heq => hsame (strength_eq_of_rank_eq heq)
        omega
      have htokens : e.operandTokens Strength.atom.rank ++ rest =
          .operator "(" :: (e.tokens ++ .operator ")" :: rest) := by
        simp [Expression.operandTokens, Expression.enclose, hloose]
      rw [htokens] at hlength ⊢
      exact h.parenthesized hlength
    · -- A looser or a tighter expression is written alike for `s` and the next tighter strength.
      have hrank := rank_tighter hatom
      have htokens : e.operandTokens s.rank = e.operandTokens (tighter s).rank := by
        have : e.strength.rank ≠ s.rank := fun heq => hsame (strength_eq_of_rank_eq heq)
        have hiff : e.strength.rank < s.rank ↔ e.strength.rank < (tighter s).rank := by omega
        simp [Expression.operandTokens, Expression.enclose, hiff]
      rw [htokens] at hlength ⊢
      have hread := h.operand (s := tighter s) (hrank ▸ hs ▸ hfollows) hlength
      rw [reader_eq_chain hs hatom, grow_eq_joined? hs hatom, chain, hread, Option.bind_some]

end Readable

/-! ### The parts of a tree -/

/-- An operator of a strength that groups to the left is read between its operands. -/
theorem readable_join {s : Strength} {token : Token} {join : Expression → Expression → Expression}
    {left right : Expression} (hjoin : join? s token = some join)
    (hstrength : (join left right).strength = s)
    (htokens : (join left right).tokens =
      left.operandTokens s.rank ++ token :: right.operandTokens (s.rank + 1))
    (hleft : Readable left) (hright : Readable right) : Readable (join left right) := by
  have hgrip : token.grip = s.rank := grip_of_join? hjoin
  have hs : seam s = s.rank + 1 ∧ s ≠ .atom := by
    unfold join? at hjoin
    split at hjoin <;> simp_all [seam]
  intro length rest hfollows hlength
  rw [hstrength, hs.1] at hfollows
  rw [htokens, List.append_assoc, List.cons_append] at hlength ⊢
  have hrest : (right.operandTokens (tighter s).rank ++ rest).length ≤ length := by
    rw [rank_tighter hs.2]
    simp only [List.length_append, List.length_cons] at hlength ⊢
    omega
  have hoperand : reader (inside length) (tighter s) (right.operandTokens (s.rank + 1) ++ rest) =
      some (right, rest) := by
    have := hright.operand (by rwa [rank_tighter hs.2]) hrest
    rwa [rank_tighter hs.2] at this
  have hseam : Follows (seam s) (token :: (right.operandTokens (s.rank + 1) ++ rest)) :=
    follows_cons _ (by omega)
  rw [hstrength, hleft.left hs.1 hseam hlength, grow_eq_joined? hs.1 hs.2]
  exact chain_step hjoin hoperand (by simp)

/-- Expressions between commas are read up to their closing bracket. -/
theorem items_itemTokens {close : String} (hclose : close = ")" ∨ close = "]")
    {elements : List Expression} (h : ∀ e ∈ elements, Readable e) {length : Nat}
    {rest : List Token} (hlength : (itemTokens elements ++ .operator close :: rest).length < length) :
    items (inside length) close (itemTokens elements ++ .operator close :: rest) =
      some (elements, rest) := by
  have hgrip : (Token.operator close).grip < 1 := by
    rcases hclose with rfl | rfl <;> decide
  have hcomma : close ≠ "," := by
    rcases hclose with rfl | rfl <;> decide
  have hstarts : ∀ (e : Expression) (after : List Token), ∃ token rest,
      e.tokens ++ after = token :: rest ∧ token ≠ .operator close := by
    intro e after
    obtain ⟨token, rest, htokens, hparen, hbracket, -⟩ := (starts_tokens e).append after
    exact ⟨token, rest, htokens, by rcases hclose with rfl | rfl <;> assumption⟩
  induction elements with
  | nil => rw [itemTokens, List.nil_append, items, if_pos rfl]
  | cons e others ih =>
    have he : Readable e := h e (by simp)
    cases others with
    | nil =>
      rw [itemTokens] at hlength ⊢
      obtain ⟨token, after, htokens, hne⟩ := hstarts e (.operator close :: rest)
      have hread := he.bracketed (follows_cons rest hgrip) hlength
      rw [htokens] at hread ⊢
      rw [items, if_neg hne]
      simp [hread]
    | cons next others =>
      rw [itemTokens, List.append_assoc, List.cons_append] at hlength ⊢
      have hothers := ih (fun e' he' => h e' (List.mem_cons_of_mem _ he')) (by
        simp only [List.length_append, List.length_cons] at hlength ⊢
        omega)
      obtain ⟨token, after, htokens, hne⟩ := hstarts e
        (.operator "," :: (itemTokens (next :: others) ++ .operator close :: rest))
      have hread := he.bracketed (follows_cons _ (by decide)) hlength
      have hshort : (itemTokens (next :: others) ++ .operator close :: rest).length <
          (token :: after).length := by
        rw [← htokens]
        simp only [List.length_append, List.length_cons]
        omega
      rw [htokens] at hread ⊢
      rw [items, if_neg hne]
      simp only [hread]
      rw [if_neg (Ne.symm hcomma), if_pos ⟨trivial, hshort⟩, hothers]
      rfl

/-- The links of a comparison are read behind its first operator. -/
def ReadableLinks (links : Links) : Prop :=
  ∀ length rest, Follows Strength.comparison.rank rest → (links.tokens ++ rest).length ≤ length →
    ∃ op after, leadingComparison? (links.tokens ++ rest) = some (op, after) ∧
      Python.links (reader (inside length) .sum) op after = some (links, rest)

theorem comparison?_spelling (op : Comparison) : comparison? (.operator op.spelling) = some op := by
  cases op <;> rfl

theorem grip_comparison (op : Comparison) : (Token.operator op.spelling).grip = 4 :=
  grip_of_comparison? (comparison?_spelling op)

/-- Links start with an operator, in front of which a sum ends. -/
theorem follows_links (links : Links) (rest : List Token) :
    Follows Strength.sum.rank (links.tokens ++ rest) := by
  cases links with
  | last op _ => exact follows_cons _ (by rw [grip_comparison]; decide)
  | next op _ _ => exact follows_cons _ (by rw [grip_comparison]; decide)

theorem readable_last {op : Comparison} {operand : Expression} (h : Readable operand) :
    ReadableLinks (.last op operand) := by
  intro length rest hfollows hlength
  refine ⟨op, operand.operandTokens Strength.sum.rank ++ rest, ?_, ?_⟩
  · simp [Links.tokens, leadingComparison?, comparison?_spelling, Expression.operandTokens]
  · have hshort : (operand.operandTokens Strength.sum.rank ++ rest).length ≤ length := by
      simp only [Links.tokens, List.cons_append, List.length_cons] at hlength
      exact Nat.le_of_succ_le hlength
    have hread := h.operand (s := .sum) (hfollows.mono (by decide)) hshort
    rw [Python.links]
    simp [hread, leadingComparison?_eq_none hfollows]

theorem readable_next {op : Comparison} {operand : Expression} {others : Links}
    (h : Readable operand) (hothers : ReadableLinks others) :
    ReadableLinks (.next op operand others) := by
  intro length rest hfollows hlength
  refine ⟨op, operand.operandTokens Strength.sum.rank ++ (others.tokens ++ rest), ?_, ?_⟩
  · simp [Links.tokens, leadingComparison?, comparison?_spelling, Expression.operandTokens]
  · have hshort : (operand.operandTokens Strength.sum.rank ++ (others.tokens ++ rest)).length ≤
        length := by
      simp only [Links.tokens, List.cons_append, List.append_assoc, List.length_cons] at hlength
      exact Nat.le_of_succ_le hlength
    have hread := h.operand (s := .sum) (follows_links others rest) hshort
    obtain ⟨next, after, hleading, hlinks⟩ := hothers length rest hfollows (by
      simp only [List.length_append] at hshort ⊢
      omega)
    -- The links go on only if tokens have been used up; the operator alone is one.
    have hafter : after.length <
        (operand.operandTokens Strength.sum.rank ++ (others.tokens ++ rest)).length := by
      have : (others.tokens ++ rest).length = after.length + 1 := by
        cases hrest : others.tokens ++ rest with
        | nil => simp [hrest, leadingComparison?] at hleading
        | cons token rest' =>
          rw [hrest] at hleading
          obtain ⟨op', -, heq⟩ := Option.map_eq_some_iff.mp hleading
          simp only [Prod.mk.injEq] at heq
          simp [heq.2]
      rw [List.length_append]
      omega
    rw [Python.links]
    simp only [hread, hleading, if_pos hafter, hlinks, Option.map_some]

theorem readable_comparison {first : Expression} {links : Links} (h : Readable first)
    (hlinks : ReadableLinks links) : Readable (.comparison first links) := by
  intro length rest hfollows hlength
  have htokens : (Expression.comparison first links).tokens ++ rest =
      first.operandTokens Strength.sum.rank ++ (links.tokens ++ rest) := by
    simp [Expression.tokens, Expression.operandTokens]
  rw [htokens] at hlength ⊢
  have hread := h.operand (s := .sum) (follows_links links rest) hlength
  obtain ⟨op, after, hleading, hafter⟩ := hlinks length rest hfollows (by
    simp only [List.length_append] at hlength ⊢
    omega)
  change compared (reader (inside length) .sum) _ = _
  simp only [compared, hread, Option.bind_some, hleading, hafter, Option.map_some]
  exact (extend_stop _ fun _ _ => rfl).symm

/-- What stands behind a sign or `not` is read as its operand. -/
theorem readable_prefixed {s : Strength} {sign : Token} {wrap : Expression → Expression}
    {operand : Expression}
    (hs : s = .sign ∨ s = .negation) (hreader : ∀ inner, reader inner s =
      prefixed sign wrap (reader inner (tighter s)))
    (hstrength : (wrap operand).strength = s)
    (htokens : (wrap operand).tokens = sign :: operand.operandTokens s.rank)
    (h : Readable operand) : Readable (wrap operand) := by
  intro length rest hfollows hlength
  have hseam : seam s = s.rank := by rcases hs with rfl | rfl <;> rfl
  have hgrow : ∀ token, grow (inside length) s token = none := by
    rcases hs with rfl | rfl <;> exact fun _ => rfl
  rw [hstrength, hseam] at hfollows
  rw [htokens, List.cons_append] at hlength ⊢
  have hread := h.operand hfollows (Nat.le_of_succ_le hlength)
  rw [hstrength, extend_stop _ fun token _ => hgrow token]
  rw [hreader] at hread ⊢
  exact prefixed_cons hread

/-- An expression that is an atom by itself is read as such. -/
theorem readable_atom {e : Expression} (hstrength : e.strength = .atom)
    (h : ∀ length rest, (e.tokens ++ rest).length ≤ length →
      atom (inside length) (e.tokens ++ rest) = some (e, rest)) : Readable e := by
  intro length rest _ hlength
  rw [hstrength]
  change primary (inside length) _ = extend (trailer? (inside length)) e rest
  rw [primary, h length rest hlength, Option.bind_some]

/-- An expression that goes on behind an atom is read with what follows the atom. -/
theorem readable_trailer {e object : Expression} {token : Token} {tail : List Token}
    (hstrength : e.strength = .atom)
    (htokens : e.tokens = object.operandTokens Strength.atom.rank ++ token :: tail)
    (hobject : Readable object)
    (h : ∀ length rest, (token :: (tail ++ rest)).length ≤ length →
      ∃ longer, trailer? (inside length) token = some longer ∧
        longer object (tail ++ rest) = some (e, rest)) : Readable e := by
  intro length rest _ hlength
  rw [htokens, List.append_assoc, List.cons_append] at hlength ⊢
  have hshort : (token :: (tail ++ rest)).length ≤ length := by
    rw [List.length_append] at hlength
    omega
  obtain ⟨longer, htrailer, hread⟩ := h length rest hshort
  have hgrip : token.grip < seam .atom := by
    rw [grip_of_trailer? htrailer]
    decide
  rw [hstrength, hobject.left rfl (follows_cons _ hgrip) hlength]
  exact extend_step htrailer hread (by simp)

mutual

/-- Every expression is read back from its tokens. -/
theorem readable : (e : Expression) → Readable e
  | .name _ | .number _ | .string _ | .boolean true | .boolean false =>
    readable_atom rfl fun _ _ _ => rfl
  | .list elements => by
    refine readable_atom rfl fun length rest hlength => ?_
    have htokens : (Expression.list elements).tokens ++ rest =
        .operator "[" :: (itemTokens elements ++ .operator "]" :: rest) := by
      simp [Expression.tokens]
    rw [htokens] at hlength ⊢
    rw [atom, items_itemTokens (.inr rfl) (readable_all elements) hlength]
    rfl
  | .call function arguments => by
    refine readable_trailer rfl rfl (readable function) fun length rest hlength =>
      ⟨_, rfl, ?_⟩
    rw [List.append_assoc, List.singleton_append] at hlength ⊢
    rw [items_itemTokens (.inl rfl) (readable_all arguments) hlength]
    rfl
  | .subscript object index => by
    refine readable_trailer rfl rfl (readable object) fun length rest hlength => ⟨_, rfl, ?_⟩
    rw [List.append_assoc, List.singleton_append] at hlength ⊢
    have hread := (readable index).bracketed (follows_cons rest (by decide)) hlength
    simp [closedBy, hread]
  | .negative operand =>
    readable_prefixed (.inl rfl) (fun _ => rfl) rfl rfl (readable operand)
  | .not operand =>
    readable_prefixed (.inr rfl) (fun _ => rfl) rfl rfl (readable operand)
  | .arithmetic op left right => by
    have hjoin : join? op.strength (.operator op.spelling) = some (.arithmetic op) := by
      cases op <;> rfl
    exact readable_join hjoin rfl rfl (readable left) (readable right)
  | .connective op left right => by
    have hjoin : join? op.strength (.keyword op.word) = some (.connective op) := by
      cases op <;> rfl
    exact readable_join hjoin rfl rfl (readable left) (readable right)
  | .comparison first links => readable_comparison (readable first) (readable_links links)

/-- The links of every comparison are read back from their tokens. -/
theorem readable_links : (links : Links) → ReadableLinks links
  | .last _ operand => readable_last (readable operand)
  | .next _ operand others => readable_next (readable operand) (readable_links others)

/-- Expressions in a list are read back from their tokens. -/
theorem readable_all : (elements : List Expression) → ∀ e ∈ elements, Readable e
  | [] => by simp
  | first :: others => List.forall_mem_cons.mpr ⟨readable first, readable_all others⟩

end

/-- **Reading undoes writing**: the tokens of an expression spell that expression and no other. -/
theorem parse_tokens (e : Expression) : parse e.tokens = some e := by
  have hread := (readable e).plain (rank_pos _) (follows_nil _) (Nat.le_refl _)
    (s := .disjunction)
  rw [List.append_nil] at hread
  rw [parse, expression_eq, hread]

end Python

end Offside
