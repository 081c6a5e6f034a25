import RecordQuery.Query.Parser

/-! The functions of the parser put together from a few ways to read: take a token, read one thing after
    another, and choose by the next token. What these ways keep, the whole parser keeps. -/

namespace RecordQuery.Parsing

variable {α β : Type}

/-! ### Ways to read -/

/-- What a parser sees of the tokens that are left: the kind and the text of the first one. The end of a list looks like
    the end of a query. -/
def ahead : List Token → Token.Kind × String
  | [] => (.ending, "")
  | t :: _ => (t.kind, t.lexeme)

/-- Take nothing. -/
def give (a : α) (ts : List Token) : Parsing α := .ok (a, ts)

/-- Stop before the next token. -/
def halt (expected : Expected) (ts : List Token) : Parsing α := .error (.unexpected expected ts)

/-- Take the next token, if it looks as it has to. -/
def takeIf (accepts : Token.Kind × String → Prop) [DecidablePred accepts] (expected : Expected) :
    List Token → Parsing Token
  | [] => halt expected []
  | t :: ts => if accepts (t.kind, t.lexeme) then give t ts else halt expected (t :: ts)

/-- Read one thing, and then another that may depend on it. -/
def andThen (p : List Token → Parsing α) (q : α → List Token → Parsing β) (ts : List Token) : Parsing β :=
  match p ts with
  | .error stop => .error stop
  | .ok (a, rest) => q a rest

/-- Read as the next token says. -/
def look (f : Token.Kind × String → List Token → Parsing α) (ts : List Token) : Parsing α := f (ahead ts) ts

theorem andThen_of_error {p : List Token → Parsing α} {q : α → List Token → Parsing β} {ts : List Token} {stop : Stop}
    (h : p ts = .error stop) : andThen p q ts = .error stop := by
  rw [andThen, h]

theorem andThen_of_ok {p : List Token → Parsing α} {q : α → List Token → Parsing β} {ts rest : List Token} {a : α}
    (h : p ts = .ok (a, rest)) : andThen p q ts = q a rest := by
  rw [andThen, h]

theorem map_eq_andThen (p : List Token → Parsing α) (f : α → β) (ts : List Token) :
    ((p ts).map fun (a, rest) => (f a, rest)) = andThen p (fun a => give (f a)) ts := by
  rw [andThen]
  cases p ts <;> rfl

theorem andThen_takeIf {accepts : Token.Kind × String → Prop} [DecidablePred accepts] {expected : Expected}
    {q : Token → List Token → Parsing β} {t : Token} {ts : List Token} (h : accepts (t.kind, t.lexeme)) :
    andThen (takeIf accepts expected) q (t :: ts) = q t ts :=
  andThen_of_ok (if_pos h)

theorem takeIf_of_not {accepts : Token.Kind × String → Prop} [DecidablePred accepts] {expected : Expected}
    {ts : List Token} (h : ¬accepts (ahead ts)) : takeIf accepts expected ts = .error (.unexpected expected ts) := by
  cases ts with
  | nil => rfl
  | cons t ts => exact if_neg h

theorem token_eq (kind : Token.Kind) (expected : Expected) : token kind expected = takeIf (·.1 = kind) expected := by
  funext ts
  cases ts <;> rfl

/-! ### Paths and literals -/

theorem name_eq : name = andThen (takeIf (·.1 = .identifier) .identifier) fun t => give t.lexeme := by
  funext ts
  rw [name, token_eq]
  exact map_eq_andThen _ Token.lexeme ts

theorem fields_eq : fields = look fun next =>
    if next.1 = .dot then
      andThen (takeIf (·.1 = .dot) .identifier) fun _ =>
        andThen name fun s => andThen fields fun names => give (s :: names)
    else give [] := by
  funext ts
  fun_cases fields ts with
  | case1 => rfl
  | case2 t ht => simp [look, ahead, ht, andThen, takeIf, give, name, token, Except.map]
  | case3 t ht u us hu =>
    have hname : name (u :: us) = .ok (u.lexeme, us) := by simp [name, token, hu, Except.map]
    rw [map_eq_andThen]
    simp [look, ahead, ht, andThen, takeIf, give, hname]
  | case4 t ht u us hu => simp [look, ahead, ht, andThen, takeIf, give, name, token, hu, Except.map]
  | case5 t ts ht => simp [look, ahead, ht, give]

theorem path_eq : path = andThen name fun root => andThen fields fun names => give ⟨root, names⟩ := by
  funext ts
  rw [path, andThen]
  cases name ts with
  | error stop => rfl
  | ok r => exact map_eq_andThen fields _ r.2

/-- A numeral after a sign, which is part of it. -/
def signed (sign : String) (ts : List Token) : Parsing Expr :=
  match token .number .number ts with
  | .error stop => .error stop
  | .ok (digits, rest) => number digits (sign ++ digits.lexeme) rest

theorem signed_cons {t : Token} {sign : String} {ts : List Token} (h : t.kind = .number) :
    signed sign (t :: ts) = number t (sign ++ t.lexeme) ts := by
  simp [signed, token, h]

theorem signed_of_ne {sign : String} {ts : List Token} (h : (ahead ts).1 ≠ .number) :
    signed sign ts = .error (.unexpected .number ts) := by
  rw [signed, token_eq, takeIf_of_not h]

theorem literal_eq : literal = look fun next =>
    match next.1 with
    | .number => signed ""
    | .addSub =>
      if next.2 = "-" then andThen (takeIf (· = (.addSub, "-")) .literal) fun _ => signed "-" else halt .literal
    | .string => andThen (takeIf (·.1 = .string) .literal) fun t => give (.string t.lexeme)
    | .keyword =>
      match Keyword.ofWord? next.2 with
      | some k => andThen (takeIf (· = next) .literal) fun _ => give (.keyword k)
      | none => halt .literal
    | _ => halt .literal := by
  funext ts
  cases ts with
  | nil => rfl
  | cons t ts =>
    rw [look, ahead, literal]
    cases hk : t.kind <;> try rfl
    case number => simp [signed, token, hk]
    case string => simp [andThen, takeIf, give, hk]
    case keyword =>
      simp only
      cases Keyword.ofWord? t.lexeme with
      | none => rfl
      | some k => simp [andThen, takeIf, give, hk]
    case addSub =>
      simp only
      split
      · rename_i hs
        rw [andThen_takeIf (by rw [hk, hs])]
        rfl
      · rfl

/-! ### Conditions -/

/-- The comparison operator that the next token is, if it is one. -/
def comparing? (next : Token.Kind × String) : Option CompareOp :=
  if next.1 = .operator then CompareOp.ofSymbol? next.2 else none

theorem compareOp?_eq (ts : List Token) : compareOp? ts = (comparing? (ahead ts)).map (·, ts.tail) := by
  cases ts with
  | nil => rfl
  | cons t ts =>
    rw [compareOp?, ahead, comparing?]
    split <;> rfl

/-- One side, with the comparison to the other side that may follow it. -/
def compared (side : List Token → Parsing α) (other : List Token → Parsing β) (alone : α → Expr)
    (both : CompareOp → α → β → Expr) : List Token → Parsing Expr :=
  andThen side fun a => look fun next =>
    match comparing? next with
    | none => give (alone a)
    | some op => andThen (takeIf (· = next) .comparison) fun _ => andThen other fun b => give (both op a b)

theorem compared_eq (side : List Token → Parsing α) (other : List Token → Parsing β) (alone : α → Expr)
    (both : CompareOp → α → β → Expr) (ts : List Token) :
    compared side other alone both ts =
      match side ts with
      | .error stop => .error stop
      | .ok (a, rest) =>
        match compareOp? rest with
        | none => .ok (alone a, rest)
        | some (op, rest) => (other rest).map fun (b, rest) => (both op a b, rest) := by
  rw [compared, andThen]
  cases side ts with
  | error stop => rfl
  | ok r =>
    obtain ⟨a, rest⟩ := r
    simp only [look, compareOp?_eq]
    cases hop : comparing? (ahead rest) with
    | none => rfl
    | some op =>
      cases rest with
      | nil => cases hop
      | cons t rest =>
        simp only [Option.map_some, List.tail_cons, map_eq_andThen]
        exact andThen_takeIf rfl

theorem pathFirst_eq : pathFirst = compared path literal .path fun op p v => .comparison op (.path p) v := by
  funext ts
  rw [compared_eq, pathFirst]
  cases path ts <;> rfl

theorem literalFirst_eq : literalFirst = compared literal path id fun op v p => .comparison op v (.path p) := by
  funext ts
  rw [compared_eq, literalFirst]
  cases literal ts <;> rfl

section Conditions

variable (group : List Token → Parsing Condition)

theorem closed_eq : closed group =
    andThen group fun c => andThen (takeIf (·.1 = .closeParen) .closeParen) fun _ => give (.logical c) := by
  funext ts
  rw [closed, andThen]
  cases group ts with
  | error stop => rfl
  | ok r =>
    simp only [token_eq]
    exact map_eq_andThen _ (fun _ => Expr.logical r.1) r.2

theorem comparison_eq : comparison group = look fun next =>
    match next.1 with
    | .identifier => pathFirst
    | .number | .string | .keyword | .addSub => literalFirst
    | .openParen => andThen (takeIf (·.1 = .openParen) .comparison) fun _ => closed group
    | .operator =>
      if next.2 = "!" then
        andThen (takeIf (· = (.operator, "!")) .comparison) fun _ => andThen path fun p => give (.negation p)
      else halt .comparison
    | _ => halt .comparison := by
  funext ts
  cases ts with
  | nil => rfl
  | cons t ts =>
    rw [look, ahead, comparison]
    cases hk : t.kind <;> try rfl
    case operator =>
      simp only
      split
      · rename_i hs
        rw [andThen_takeIf (by rw [hk, hs])]
        exact map_eq_andThen path _ ts
      · rfl
    case openParen => simp [andThen, takeIf, give, hk]

variable {α : Type} (symbol : String) (operand : List Token → Parsing α)

theorem moreOperands_eq (k : Nat) : moreOperands symbol operand (k + 1) = look fun next =>
    if next = (.operator, symbol) then
      andThen (takeIf (· = (.operator, symbol)) .comparison) fun _ =>
        andThen operand fun a => andThen (moreOperands symbol operand k) fun as => give (a :: as)
    else give [] := by
  funext ts
  cases ts with
  | nil => rfl
  | cons t ts =>
    have hnext : nextIs symbol (t :: ts) = true ↔ (t.kind, t.lexeme) = (.operator, symbol) := by
      simp [nextIs, Token.isOperator]
    rw [moreOperands, look, ahead]
    simp only [hnext]
    split
    · rename_i hs
      rw [andThen_takeIf hs, andThen, List.tail_cons]
      cases operand ts with
      | error stop => rfl
      | ok r => exact map_eq_andThen _ (r.1 :: ·) r.2
    · rfl

theorem operands_eq (bound : Nat) : operands symbol operand bound =
    andThen operand fun a => andThen (moreOperands symbol operand bound) fun as => give (a, as) := by
  funext ts
  rw [operands, andThen]
  cases operand ts with
  | error stop => rfl
  | ok r => exact map_eq_andThen _ (r.1, ·) r.2

theorem conjunction_eq (bound : Nat) : conjunction group bound =
    andThen (operands "&&" (comparison group) bound) fun c => give (Condition.all c.1 c.2) :=
  funext fun ts => map_eq_andThen _ (fun c : Expr × List Expr => Condition.all c.1 c.2) ts

theorem disjunction_eq (bound : Nat) : disjunction group bound =
    andThen (operands "||" (conjunction group bound) bound) fun c => give (Condition.any c.1 c.2) :=
  funext fun ts => map_eq_andThen _ (fun c : Condition × List Condition => Condition.any c.1 c.2) ts

end Conditions

/-! ### Calls -/

theorem lambda_eq (bound : Nat) : lambda bound =
    andThen name fun parameter => andThen (takeIf (· = (.operator, "=>")) .arrow) fun _ =>
      andThen (condition bound (bound + 1)) fun body => give ⟨parameter, body⟩ := by
  funext ts
  rw [lambda, andThen]
  cases name ts with
  | error stop => rfl
  | ok r =>
    obtain ⟨parameter, rest⟩ := r
    cases rest with
    | nil => rfl
    | cons t rest =>
      have hnext : nextIs "=>" (t :: rest) = true ↔ (t.kind, t.lexeme) = (.operator, "=>") := by
        simp [nextIs, Token.isOperator]
      simp only [hnext]
      split
      · rename_i hs
        rw [andThen_takeIf hs]
        exact map_eq_andThen _ (Lambda.mk parameter) rest
      · rename_i hs
        exact (andThen_of_error (if_neg hs)).symm

theorem methodName_none : methodName none = name :=
  rfl

theorem methodName_some (names : List String) : methodName (some names) = look fun next =>
    if next.1 = .identifier ∧ next.2 ∉ names then halt (.methodName names) else name := by
  funext ts
  cases ts with
  | nil => rfl
  | cons t ts => by_cases hu : t.kind = .identifier ∧ t.lexeme ∉ names <;> simp [methodName, look, ahead, halt, hu]

/-- What follows the name of a method in a call of it. -/
def arguments (bound : Nat) (method : String) : List Token → Parsing (Call Expr) :=
  andThen (takeIf (·.1 = .openParen) .openParen) fun _ => andThen (lambda bound) fun fn =>
    andThen (takeIf (·.1 = .closeParen) .closeParen) fun _ => give ⟨method, fn⟩

theorem call_eq (known : Option (List String)) (bound : Nat) :
    call known bound = andThen (methodName known) (arguments bound) := by
  funext ts
  rw [call, andThen]
  cases methodName known ts with
  | error stop => rfl
  | ok r =>
    obtain ⟨method, rest⟩ := r
    simp only [token_eq]
    rw [arguments, andThen]
    cases takeIf (·.1 = .openParen) .openParen rest with
    | error stop => rfl
    | ok l =>
      simp only
      rw [andThen]
      cases lambda bound l.2 with
      | error stop => rfl
      | ok fn => exact map_eq_andThen _ (fun _ => Call.mk method fn.1) fn.2

theorem calls_eq (known : Option (List String)) (bound k : Nat) : calls known bound (k + 1) = look fun next =>
    if next.1 = .dot then
      andThen (takeIf (·.1 = .dot) .ending) fun _ =>
        andThen (call known bound) fun c => andThen (calls known bound k) fun cs => give (c :: cs)
    else give [] := by
  funext ts
  cases ts with
  | nil => rfl
  | cons t ts =>
    rw [calls, look, ahead]
    split
    · rename_i hd
      rw [andThen_takeIf hd, andThen]
      cases call known bound ts with
      | error stop => rfl
      | ok r => exact map_eq_andThen _ (r.1 :: ·) r.2
    · rfl

/-- A query without its end, with a bound on the depth of its groups and on the length of its chains. -/
def chainWithin (known : Option (List String)) (bound : Nat) : List Token → Parsing Query :=
  andThen (takeIf (·.1 = .this) .this) fun _ => calls known bound bound

theorem chain_eq (known : Option (List String)) (ts : List Token) :
    chain known ts = chainWithin known ts.length ts := by
  rw [chain, chainWithin, andThen, token_eq]
  cases takeIf (·.1 = .this) .this ts <;> rfl

end RecordQuery.Parsing
